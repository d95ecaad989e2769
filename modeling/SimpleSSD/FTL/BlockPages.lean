import SimpleSSD.FTL.StoredBlock
import SimpleSSD.FTL.WriteSafety

/-!
# What a block knows about its pages (block.cc:216–418)

Two bitsets, a write pointer for each I/O index and the stored LPNs are kept in step by `write`,
`invalidate` and `erase`, in either layout. A block is only ever programmed at
`getNextWritePageIndex(idx)`, so the pages in front of the pointer are those that are not erased.
`Sound` states what the fields say about each other and about the history, over the fields of the
source; the run carries along which LPN was last written where, and what was not invalidated since.
-/

namespace SimpleSSD.FTL

namespace StoredBlock

/-- The erased bit of a unit, in either layout. -/
def erasedAt (s : StoredBlock) (pageIndex idx : Nat) : Bool :=
  if s.ioUnitInPage = 1 then (s.pErasedBits.map (·.test pageIndex)).getD false
  else (s.erasedBits[pageIndex]?.map (·.test idx)).getD false

/-- The valid bit of a unit. -/
def validAt (s : StoredBlock) (pageIndex idx : Nat) : Bool :=
  if s.ioUnitInPage = 1 then (s.pValidBits.map (·.test pageIndex)).getD false
  else (s.validBits[pageIndex]?.map (·.test idx)).getD false

/-- `pLPNs[pageIndex]` or `ppLPNs[pageIndex][idx]`. -/
def lpnAt (s : StoredBlock) (pageIndex idx : Nat) : Option Nat :=
  if s.ioUnitInPage = 1 then s.pLPNs.map (· pageIndex) else s.ppLPNs.map (· pageIndex idx)

/-- `getValidPageCount` (block.cc:216–231). -/
def getValidPageCount (s : StoredBlock) : Except Fault Nat :=
  if s.ioUnitInPage = 1 then do
    let valid ← deref "pValidBits" s.pValidBits
    pure valid.count
  else pure (s.validBits.countP Bitset.any)

/-- `getDirtyPageCount` (block.cc:249–265). -/
def getDirtyPageCount (s : StoredBlock) : Except Fault Nat :=
  if s.ioUnitInPage = 1 then do
    let valid ← deref "pValidBits" s.pValidBits
    let erased ← deref "pErasedBits" s.pErasedBits
    let used ← valid.or erased
    pure used.flip.count
  else
    (List.range s.pageCount).foldlM (fun ret i => do
      let valid ← pageBits s.validBits i
      let erased ← pageBits s.erasedBits i
      let used ← valid.or erased
      pure (if used.flip.any then ret + 1 else ret)) 0

/-- `pErasedBits->count()`. -/
def getErasedPageCount (s : StoredBlock) : Except Fault Nat := do
  let erased ← deref "pErasedBits" s.pErasedBits
  pure erased.count

end StoredBlock

/-- A stored block with its history since it was erased: what was last written to each unit, and
the units that were not invalidated after that. -/
structure WrittenBlock where
  block : StoredBlock
  last : Nat × Nat → Option Nat
  live : Finset (Nat × Nat)

namespace WrittenBlock

/-- What the FTL does to a block; it programs at `getNextWritePageIndex(idx)`. -/
inductive Call where
  | write (idx lpn tick : Nat)
  | invalidate (pageIndex idx : Nat)
  | erase

def new (blockIdx count ioUnit : Nat) : Except Fault WrittenBlock :=
  (StoredBlock.new blockIdx count ioUnit).map fun block => ⟨block, fun _ => none, ∅⟩

/-- One call. -/
def exec (s : WrittenBlock) : Call → Except Fault WrittenBlock
  | .write idx lpn tick =>
    let pageIndex := s.block.pNextWritePageIndex idx
    (s.block.write pageIndex lpn idx tick).map fun block =>
      ⟨block, Function.update s.last (pageIndex, idx) (some lpn), insert (pageIndex, idx) s.live⟩
  | .invalidate pageIndex idx =>
    (s.block.invalidate pageIndex idx).map fun block =>
      ⟨block, s.last, s.live.erase (pageIndex, idx)⟩
  | .erase => s.block.erase.map fun block => ⟨block, fun _ => none, ∅⟩

/-- The unit of a call exists. The FTL replaces a block whose column is full before it programs
another page, see `run_unwritten`. -/
def InPlace (s : WrittenBlock) : Call → Prop
  | .write idx _ _ => idx < s.block.ioUnitInPage ∧
    s.block.pNextWritePageIndex idx < s.block.pageCount
  | .invalidate pageIndex idx => pageIndex < s.block.pageCount ∧ idx < s.block.ioUnitInPage
  | .erase => True

instance (s : WrittenBlock) (c : Call) : Decidable (s.InPlace c) :=
  match c with
  | .write _ _ _ => inferInstanceAs (Decidable (_ ∧ _))
  | .invalidate _ _ => inferInstanceAs (Decidable (_ ∧ _))
  | .erase => .isTrue trivial

/-- The fields of the block agree with each other and with the history. -/
structure Sound (s : WrittenBlock) : Prop where
  written : ∀ i < s.block.ioUnitInPage, ∀ p < s.block.pageCount,
    (p < s.block.pNextWritePageIndex i ↔ s.block.erasedAt p i = false)
  programmed : ∀ i < s.block.ioUnitInPage, ∀ p < s.block.pageCount,
    (s.block.erasedAt p i = false ↔ s.last (p, i) ≠ none)
  live : ∀ i < s.block.ioUnitInPage, ∀ p < s.block.pageCount,
    (s.block.validAt p i = true ↔ (p, i) ∈ s.live)
  valid : ∀ i < s.block.ioUnitInPage, ∀ p < s.block.pageCount,
    s.block.validAt p i = true → s.block.erasedAt p i = false
  counts : s.block.ioUnitInPage = 1 → ∃ valid dirty erased,
    s.block.getValidPageCount = .ok valid ∧ s.block.getDirtyPageCount = .ok dirty ∧
      s.block.getErasedPageCount = .ok erased ∧ valid + dirty + erased = s.block.pageCount
  lpns : ∀ i < s.block.ioUnitInPage, ∀ p < s.block.pageCount, s.block.erasedAt p i = false →
    ∃ lpn, s.last (p, i) = some lpn ∧ s.block.lpnAt p i = some lpn

/-- The block that is stored has programmed exactly the pages in front of its pointers, with the
LPNs of the history, and its valid units are those of the history. -/
structure Follows (s : WrittenBlock) (b : Block) : Prop where
  stores : s.block.Stores b
  unit : 1 ≤ b.ioUnitInPage
  erased : ∀ u ∈ b.erasedBits, b.pNextWritePageIndex u.2 ≤ u.1
  last : ∀ p i, s.last (p, i) = if p < b.pNextWritePageIndex i then some (b.lpns (p, i)) else none
  live : b.validBits = s.live

variable {s s' : WrittenBlock} {b : Block} {c : Call} {p i : Nat}

/-! ### Reading the bits -/

theorem Follows.erasedAt_iff (h : s.Follows b) (hp : p < b.pageCount) (hi : i < b.ioUnitInPage) :
    s.block.erasedAt p i = true ↔ (p, i) ∈ b.erasedBits := by
  rw [StoredBlock.erasedAt, h.stores.ioUnitInPage]
  split
  · next hone =>
    obtain ⟨bits, hbits, -, hmem⟩ := (h.stores.pages hone).erased
    obtain rfl : i = 0 := by omega
    simp [hbits, Bitset.test, hmem]
  · next hone =>
    obtain ⟨bits, -, hget, -, hmem⟩ := (h.stores.units hone).erased.pageBits hp
    simp [hget, Bitset.test, hmem]

theorem Follows.validAt_iff (h : s.Follows b) (hp : p < b.pageCount) (hi : i < b.ioUnitInPage) :
    s.block.validAt p i = true ↔ (p, i) ∈ b.validBits := by
  rw [StoredBlock.validAt, h.stores.ioUnitInPage]
  split
  · next hone =>
    obtain ⟨bits, hbits, -, hmem⟩ := (h.stores.pages hone).valid
    obtain rfl : i = 0 := by omega
    simp [hbits, Bitset.test, hmem]
  · next hone =>
    obtain ⟨bits, -, hget, -, hmem⟩ := (h.stores.units hone).valid.pageBits hp
    simp [hget, Bitset.test, hmem]

theorem Follows.lpnAt_eq (h : s.Follows b) (hi : i < b.ioUnitInPage) :
    s.block.lpnAt p i = some (b.lpns (p, i)) := by
  rw [StoredBlock.lpnAt, h.stores.ioUnitInPage]
  split
  · next hone =>
    obtain ⟨lpns, hlpns, hl⟩ := (h.stores.pages hone).lpns
    obtain rfl : i = 0 := by omega
    rw [hlpns, Option.map_some, hl]
  · next hone =>
    obtain ⟨lpns, hlpns, hl⟩ := (h.stores.units hone).lpns
    rw [hlpns, Option.map_some, hl]

/-- A unit is erased exactly from the write pointer of its column on. -/
theorem Follows.mem_erased_iff (h : s.Follows b) (hp : p < b.pageCount) (hi : i < b.ioUnitInPage) :
    (p, i) ∈ b.erasedBits ↔ b.pNextWritePageIndex i ≤ p :=
  ⟨h.erased (p, i), b.erased_of_le p i hp hi⟩

/-- With one unit a page, a page is valid, dirty or erased. -/
theorem Follows.counts (h : s.Follows b) (hone : b.ioUnitInPage = 1) : ∃ valid dirty erased,
    s.block.getValidPageCount = .ok valid ∧ s.block.getDirtyPageCount = .ok dirty ∧
      s.block.getErasedPageCount = .ok erased ∧ valid + dirty + erased = s.block.pageCount := by
  obtain ⟨⟨v, hv, hvsize, hvmem⟩, ⟨e, he, hesize, hemem⟩, -, -⟩ := h.stores.pages hone
  have hunit := h.stores.ioUnitInPage.trans hone
  have hdisjoint : Disjoint v.bits e.bits := by
    rw [Finset.disjoint_left]
    intro p hp hpe
    have hlt := b.valid_lt _ ((hvmem p).mp hp)
    have hle := h.erased _ ((hemem p).mp hpe)
    omega
  have hsize : v.dataSize = e.dataSize := hvsize.trans hesize.symm
  obtain ⟨used, hor, hused, hdata⟩ : ∃ used, v.or e = .ok used ∧ used.bits = v.bits ∪ e.bits ∧
      used.dataSize = b.pageCount := by
    rw [Bitset.or, dif_neg (not_not.mpr hsize)]
    exact ⟨_, rfl, rfl, hvsize⟩
  refine ⟨v.count, used.flip.count, e.count, ?_, ?_, ?_, ?_⟩
  · simp [StoredBlock.getValidPageCount, hunit, hv, StoredBlock.deref]
  · simp [StoredBlock.getDirtyPageCount, hunit, hv, he, StoredBlock.deref, hor]
  · simp [StoredBlock.getErasedPageCount, he, StoredBlock.deref]
  · have hsub : used.bits ⊆ Finset.range used.dataSize := fun p hp =>
      Finset.mem_range.mpr (used.bits_lt p hp)
    have hcard := Finset.card_sdiff_add_card_eq_card hsub
    rw [Finset.card_range, hdata, hused, Finset.card_union_of_disjoint hdisjoint] at hcard
    have hflip : used.flip.count = (Finset.range b.pageCount \ (v.bits ∪ e.bits)).card := by
      show (Finset.range used.dataSize \ used.bits).card = _
      rw [hdata, hused]
    rw [hflip, h.stores.pageCount, Bitset.count, Bitset.count]
    omega

theorem Follows.sound (h : s.Follows b) : s.Sound := by
  have hnext := h.stores.pNextWritePageIndex
  have hunits := h.stores.ioUnitInPage
  have hpages := h.stores.pageCount
  have herased : ∀ i < b.ioUnitInPage, ∀ p < b.pageCount,
      (p < b.pNextWritePageIndex i ↔ s.block.erasedAt p i = false) := by
    intro i hi p hp
    rw [← Bool.not_eq_true, h.erasedAt_iff hp hi, h.mem_erased_iff hp hi, not_le]
  have hlast : ∀ i p, p < b.pNextWritePageIndex i → s.last (p, i) = some (b.lpns (p, i)) := by
    intro i p hlt
    rw [h.last, if_pos hlt]
  refine ⟨?_, ?_, ?_, ?_, ?_, ?_⟩
  · rw [hunits, hpages, hnext]
    exact herased
  · rw [hunits, hpages]
    intro i hi p hp
    rw [← herased i hi p hp, h.last]
    split
    · next hlt => exact iff_of_true hlt (Option.some_ne_none _)
    · next hge => exact iff_of_false hge (not_not.mpr rfl)
  · rw [hunits, hpages]
    intro i hi p hp
    rw [h.validAt_iff hp hi, h.live]
  · rw [hunits, hpages]
    intro i hi p hp hvalid
    exact (herased i hi p hp).mp (b.valid_lt _ ((h.validAt_iff hp hi).mp hvalid))
  · rw [hunits]
    exact h.counts
  · rw [hunits, hpages]
    intro i hi p hp hwritten
    exact ⟨_, hlast i p ((herased i hi p hp).mpr hwritten), h.lpnAt_eq hi⟩

/-! ### The calls -/

theorem new_follows {k n u : Nat} (hu : 1 ≤ u) :
    ∃ s, new k n u = .ok s ∧ s.Follows (Block.new k n u) := by
  obtain ⟨block, hnew, hstores⟩ := StoredBlock.new_stores (k := k) (c := n) hu
  refine ⟨⟨block, fun _ => none, ∅⟩, by rw [new, hnew]; rfl, hstores, hu, fun _ _ => Nat.zero_le _,
    fun p i => (if_neg (Nat.not_lt_zero p)).symm, rfl⟩

/-- Programming the page at the pointer moves the pointer over exactly this page. -/
theorem Follows.write {lpn : Nat} {b' : Block} {block : StoredBlock} (h : s.Follows b)
    (hb' : b.write (b.pNextWritePageIndex i) lpn i = .ok b') (hstores : block.Stores b') :
    Follows ⟨block, Function.update s.last (b.pNextWritePageIndex i, i) (some lpn),
      insert (b.pNextWritePageIndex i, i) s.live⟩ b' := by
  obtain ⟨-, -, -, -, -, hunits, hvalid, hlpns, hnext, -⟩ := Block.write_spec hb'
  have herased : b'.erasedBits = b.erasedBits.erase (b.pNextWritePageIndex i, i) := by
    rw [Block.write] at hb'
    split at hb'
    · cases hb'
    · split at hb'
      · cases hb'
      · split at hb' <;> cases hb'
        rfl
  refine ⟨hstores, hunits ▸ h.unit, fun u hu => ?_, fun p j => ?_, by rw [hvalid, h.live]⟩
  · rw [herased] at hu
    obtain ⟨hne, hmem⟩ := Finset.mem_erase.mp hu
    have hle := h.erased u hmem
    rw [hnext]
    by_cases hj : u.2 = i
    · rw [hj, Function.update_self]
      rw [hj] at hle
      have hpage : u.1 ≠ b.pNextWritePageIndex i := fun heq => hne (Prod.ext heq hj)
      omega
    · rw [Function.update_of_ne hj]
      exact hle
  · rw [hlpns, hnext]
    by_cases hself : (p, j) = (b.pNextWritePageIndex i, i)
    · rw [hself]
      obtain ⟨rfl, rfl⟩ := Prod.mk.inj hself
      dsimp only
      rw [Function.update_self, Function.update_self, Function.update_self,
        if_pos (Nat.lt_succ_self _)]
    · dsimp only
      rw [Function.update_of_ne hself, Function.update_of_ne hself, h.last]
      by_cases hj : j = i
      · subst hj
        have hpage : p ≠ b.pNextWritePageIndex j := fun heq => hself (by rw [heq])
        rw [Function.update_self]
        exact if_congr (by omega) rfl rfl
      · rw [Function.update_of_ne hj]

/-- Every call succeeds and keeps the block in step. -/
theorem Follows.exec (h : s.Follows b) (hc : s.InPlace c) :
    ∃ s', s.exec c = .ok s' ∧ ∃ b', s'.Follows b' := by
  have hnext := h.stores.pNextWritePageIndex
  cases c with
  | write idx lpn tick =>
    rw [InPlace, h.stores.ioUnitInPage, h.stores.pageCount, hnext] at hc
    obtain ⟨hidx, hroom⟩ := hc
    obtain ⟨b', hb'⟩ := @Block.write_next b idx lpn hidx hroom
    obtain ⟨block, hwrite, hstores⟩ : ∃ block,
        s.block.write (b.pNextWritePageIndex idx) lpn idx tick = .ok block ∧ block.Stores b' := by
      have hsame := @StoredBlock.write_same _ _ _ _ lpn tick h.stores hroom hidx
      rw [hb'] at hsame
      cases hrun : s.block.write (b.pNextWritePageIndex idx) lpn idx tick with
      | ok block =>
        rw [hrun] at hsame
        cases hsame with
        | ok hstores => exact ⟨block, rfl, hstores⟩
      | error e =>
        rw [hrun] at hsame
        cases hsame
    refine ⟨⟨block, Function.update s.last (b.pNextWritePageIndex idx, idx) (some lpn),
      insert (b.pNextWritePageIndex idx, idx) s.live⟩, ?_, b', h.write hb' hstores⟩
    simp only [WrittenBlock.exec, hnext, hwrite]
    rfl
  | invalidate pageIndex idx =>
    rw [InPlace, h.stores.ioUnitInPage, h.stores.pageCount] at hc
    obtain ⟨block, hrun, hstores⟩ := StoredBlock.invalidate_stores h.stores hc.1 hc.2
    refine ⟨⟨block, s.last, s.live.erase (pageIndex, idx)⟩, ?_, b.invalidate pageIndex idx, hstores,
      h.unit, h.erased, h.last, congrArg (·.erase (pageIndex, idx)) h.live⟩
    rw [WrittenBlock.exec, hrun]
    rfl
  | erase =>
    obtain ⟨block, hrun, hstores⟩ := StoredBlock.erase_stores h.stores
    refine ⟨⟨block, fun _ => none, ∅⟩, ?_, b.erase, hstores, h.unit, fun _ _ => Nat.zero_le _,
      fun p i => (if_neg (Nat.not_lt_zero p)).symm, rfl⟩
    rw [WrittenBlock.exec, hrun]
    rfl

/-- Every sequence of writes at the write pointers, invalidations and erases runs without a fault,
and leaves a block whose fields agree; and no run of the FTL gets a write wrong. -/
theorem run_sound {ioUnit : Nat} (hunit : 1 ≤ ioUnit) :
    (∀ blockIdx count, ∃ s₀, new blockIdx count ioUnit = .ok s₀ ∧
      ∀ calls, Run.Along exec InPlace s₀ calls →
        ∃ s, calls.foldlM exec s₀ = .ok s ∧ s.Sound) ∧
    ∀ (cfg : Config) (env : Env) (warmUp : Option World) (calls : List (World × Op)),
      cfg.ioUnitInPage = ioUnit → 0 < cfg.pagesInBlock →
        (PageMapping.start cfg env warmUp >>= fun s => run cfg env s calls).Sat (fun _ => True)
          fun e => e ≠ .panic "Block::write" "Write to non erased page" ∧
            e ≠ .panic "Block::write" "Write to block should sequential" := by
  constructor
  · intro blockIdx count
    obtain ⟨s₀, hnew, hfollows⟩ := new_follows (k := blockIdx) (n := count) hunit
    refine ⟨s₀, hnew, fun calls hcalls => ?_⟩
    have hsat : (calls.foldlM exec s₀).Sat (fun s => ∃ b, s.Follows b) fun _ => False := by
      refine hcalls.sat (fun s c hs hc => ?_) ⟨_, hfollows⟩
      obtain ⟨b, hb⟩ := hs
      obtain ⟨s', hexec, hs'⟩ := hb.exec hc
      rw [hexec]
      exact hs'
    obtain ⟨s, hrun, b, hb⟩ := hsat.exists_ok
    exact ⟨s, hrun, hb.sound⟩
  · intro cfg env warmUp calls hcfg hpages
    have hunits : 0 < cfg.ioUnitInPage := hcfg ▸ hunit
    refine (run_unwritten env hunits hpages warmUp calls).mono (fun _ _ => trivial) fun e he => ?_
    exact ⟨he _, he _⟩

/-- Two units a page: both are programmed, one is invalidated, and the block is erased and
programmed again. -/
theorem run_sound_twoUnits : (∃ s₀, new 0 4 2 = .ok s₀ ∧ ∃ s,
    [Call.write 0 7 0, .write 1 8 0, .invalidate 0 1, .erase, .write 0 9 0].foldlM exec s₀ = .ok s ∧
      s.Sound) ∧
    (PageMapping.start (Config.small 3) .zero none >>= fun s =>
      run (.small 3) .zero s (calls [.write (.page 0)])).Sat (fun _ => True)
        fun e => e ≠ .panic "Block::write" "Write to non erased page" ∧
          e ≠ .panic "Block::write" "Write to block should sequential" := by
  obtain ⟨s₀, hnew, hrun⟩ := (@run_sound 2 (by decide)).1 0 4
  refine ⟨⟨s₀, hnew, hrun _ ?_⟩, ?_⟩
  · cases hnew
    decide
  · exact (@run_sound 1 (by decide)).2 (.small 3) .zero none _ rfl (by decide)

end WrittenBlock

end SimpleSSD.FTL
