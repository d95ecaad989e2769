import SimpleSSD.FTL.CollectPath
import SimpleSSD.FTL.ReadPath

/-!
# The mapping table and the valid flash pages

With one I/O unit a page, `table` and the valid pages of the blocks in use
should be inverse to each other: a mapped page names a valid flash page that
stores it, and a valid flash page is named by the page it stores (`Consistent`).

Four things break this, each ruled out by a condition on the step:

- a write that hits `cmt` or the shadow table sets the first entry of `table`
  instead of the entry of the written page (`MappingConditions`, `write`);
- a collection started by `format` may copy a page into a victim that it has
  already scanned, and erases the copy (`AvoidsVictims`);
- in `cachedGC` mode a valid page with its cached bit set is erased with its
  table entry left in place (`scan`, first part);
- and the LPN such a page adds to `cachedValidLPN` is a stale one, whose table
  entry is removed although the page may just have been moved (second part).
-/

namespace SimpleSSD.FTL

namespace PageMapping

/-- The page that `table` names for a logical page, with one mapping a page. -/
def lookup (s : PageMapping) (lpn : Nat) : Option (Nat × Nat) := s.tableMapping lpn 0

/-- The mapping is a bijection between the mapped pages and the valid pages of
the blocks in use. -/
structure Consistent (s : PageMapping) : Prop where
  mapped_valid : ∀ l ∈ s.table, ∃ k i b, s.table.find? l = some [(k, i)] ∧
    s.pool.blocks.find? k = some b ∧ (i, 0) ∈ b.validBits ∧ b.lpns (i, 0) = l
  valid_mapped : ∀ k i b, s.pool.blocks.find? k = some b → (i, 0) ∈ b.validBits →
    s.table.find? (b.lpns (i, 0)) = some [(k, i)]

/-- The inductive form of `Consistent`: `table` and `content` are linked. -/
structure Mapped (cfg : Config) (s : PageMapping) : Prop where
  wf : s.pool.WellFormed cfg
  shape : TableShape cfg s
  linked : Linked s.lookup s.pool.content

section Invariant

variable {cfg : Config} {env : Env} {w : World} {req : Request} {s s' : PageMapping}

theorem lookup_congr (h : s'.table = s.table) : s'.lookup = s.lookup := by
  funext l
  rw [lookup, lookup, tableMapping, tableMapping, h]

/-- One entry of `table` is set or removed. -/
theorem lookup_update {key : Nat} {entry : Option (List (Nat × Nat))}
    (h : ∀ l, s'.table.find? l = if l = key then entry else s.table.find? l) :
    s'.lookup = Function.update s.lookup key (entry.bind fun vec => vec[0]?) := by
  funext l
  rw [lookup, tableMapping, h]
  by_cases hl : l = key
  · subst hl
    rw [if_pos rfl, Function.update_self]
  · rw [if_neg hl, Function.update_of_ne hl]
    rfl

theorem shape_update (hs : TableShape cfg s) {key : Nat} {entry : Option (List (Nat × Nat))}
    (h : ∀ l, s'.table.find? l = if l = key then entry else s.table.find? l)
    (hentry : ∀ vec ∈ entry, vec.length = cfg.bitsetSize) : TableShape cfg s' := by
  intro l vec hvec
  rw [h] at hvec
  split at hvec
  · exact hentry vec hvec
  · exact hs l vec hvec

theorem find?_of_lookup (hone : cfg.ioUnitInPage = 1) (hshape : TableShape cfg s) {l : Nat}
    {page : Nat × Nat} : s.lookup l = some page ↔ s.table.find? l = some [page] := by
  rw [lookup, tableMapping, Option.bind_eq_some_iff]
  constructor
  · rintro ⟨vec, hvec, hpage⟩
    have hlen : vec.length = 1 := by rw [hshape _ _ hvec, Config.bitsetSize_one hone]
    obtain ⟨page', rfl⟩ := List.length_eq_one_iff.mp hlen
    cases hpage
    exact hvec
  · intro h
    exact ⟨[page], h, rfl⟩

theorem lookup_eq_none (hone : cfg.ioUnitInPage = 1) (hshape : TableShape cfg s) {l : Nat} :
    s.lookup l = none ↔ s.table.find? l = none := by
  constructor
  · intro h
    cases hvec : s.table.find? l with
    | none => rfl
    | some vec =>
      have hlen : vec.length = 1 := by rw [hshape _ _ hvec, Config.bitsetSize_one hone]
      obtain ⟨page, rfl⟩ := List.length_eq_one_iff.mp hlen
      rw [(find?_of_lookup hone hshape).mpr hvec] at h
      cases h
  · intro h
    rw [lookup, tableMapping, h]
    rfl

theorem Mapped.consistent (hone : cfg.ioUnitInPage = 1) (hs : s.Mapped cfg) : s.Consistent := by
  have hcontent : ∀ k i l, s.pool.content (k, i) = some l ↔
      ∃ b, s.pool.blocks.find? k = some b ∧ (i, 0) ∈ b.validBits ∧ b.lpns (i, 0) = l := by
    intro k i l
    rw [BlockPool.content, Option.bind_eq_some_iff]
    simp [Block.contentAt]
  constructor
  · intro l hl
    obtain ⟨vec, hvec⟩ := UnorderedMap.mem_iff_find?.mp hl
    cases hlook : s.lookup l with
    | none =>
      rw [(lookup_eq_none hone hs.shape).mp hlook] at hvec
      cases hvec
    | some page =>
      obtain ⟨b, hb, hvalid, hlpn⟩ := (hcontent _ _ _).mp ((hs.linked l page).mp hlook)
      exact ⟨page.1, page.2, b, (find?_of_lookup hone hs.shape).mp hlook, hb, hvalid, hlpn⟩
  · intro k i b hb hvalid
    refine (find?_of_lookup hone hs.shape).mp ((hs.linked _ _).mpr ?_)
    exact (hcontent _ _ _).mpr ⟨b, hb, hvalid, rfl⟩

/-! ### Reads and evictions of the cache -/

theorem Mapped.congr (hs : s.Mapped cfg) (hwf : s'.pool.WellFormed cfg)
    (htable : s'.table = s.table) (hcontent : s'.pool.content = s.pool.content) :
    s'.Mapped cfg := by
  refine ⟨hwf, ?_, ?_⟩
  · intro l vec h
    rw [htable] at h
    exact hs.shape l vec h
  · rw [lookup_congr htable, hcontent]
    exact hs.linked

theorem readUnits_frame {mapping : Nat → Except Fault (Nat × Nat)} {fill : Bool} (l : List Nat)
    (beginAt : Nat) (dead : Bool)
    (h : readUnits cfg env w req mapping fill l beginAt dead s = .ok s') :
    s'.table = s.table ∧ s'.pool.content = s.pool.content := by
  induction l generalizing beginAt dead s with
  | nil =>
    cases h
    exact ⟨rfl, rfl⟩
  | cons idx rest ih =>
    rcases readUnits_cons cfg env w h with
      ⟨-, h⟩ | ⟨-, page, -, ⟨-, h⟩ | ⟨-, -, rfl⟩ | ⟨-, -, b, r, beginAt', dead', hb, hr, h⟩⟩
    · exact ih _ _ h
    · exact ih _ _ h
    · simp
    · obtain ⟨htable, hcontent⟩ := ih _ _ h
      refine ⟨htable.trans (by simp [afterRead]), hcontent.trans ?_⟩
      simp only [afterRead, log_pool, fillMapping_pool]
      exact BlockPool.content_putBlock_same hb (Block.contentAt_read hr)

theorem readInternal_frame (h : s.readInternal cfg env w req = .ok s') :
    s'.table = s.table ∧ s'.pool.content = s.pool.content := by
  rw [readInternal] at h
  split at h
  · have hframe := readUnits_frame _ _ _ h
    exact hframe
  · split at h
    · have hframe := readUnits_frame _ _ _ h
      exact hframe
    · split at h
      · have hframe := readUnits_frame _ _ _ h
        exact hframe
      · cases h
        exact ⟨rfl, rfl⟩

theorem undoCached_frame {lpn : Nat} (h : s.undoCached cfg lpn = .ok s') :
    s'.table = s.table ∧ s'.pool.content = s.pool.content := by
  rw [undoCached] at h
  split at h
  · cases h
    exact ⟨rfl, rfl⟩
  · rw [Except.bind_eq_ok] at h
    obtain ⟨p, hp, h⟩ := h
    cases h
    refine ⟨rfl, ?_⟩
    refine Run.foldlM_inv (I := fun p => p.content = s.pool.content) ?_ rfl hp
    intro p idx p' hp h
    rw [Except.bind_eq_ok] at h
    obtain ⟨page, -, h⟩ := h
    split at h
    · split at h
      · cases h
        exact hp
      · next b hb =>
        rw [Except.bind_eq_ok] at h
        obtain ⟨b', hb', h⟩ := h
        cases h
        rw [BlockPool.content_putBlock_same hb (Block.contentAt_deCache hb'), hp]
    · cases h
      exact hp

/-! ### Writes -/

/-- A hit of a write in the mapping caches is harmless when the first entry of
`table` belongs to the written page and names the page of the hit. -/
def WriteHitsFirst (cfg : Config) (req : Request) (s : PageMapping) : Prop :=
  ∀ page ∈ s.cachedMapping cfg req.lpn, s.table.begin? = some (req.lpn, [page])

instance (cfg : Config) (req : Request) (s : PageMapping) :
    Decidable (WriteHitsFirst cfg req s) :=
  inferInstanceAs (Decidable (∀ page ∈ s.cachedMapping cfg req.lpn, _))

/-- Under `WriteHitsFirst` the lookup finds what `table` names. -/
theorem WriteHitsFirst.readMapping_eq (h : WriteHitsFirst cfg req s) :
    s.readMapping cfg req.lpn 0 = s.lookup req.lpn := by
  cases hcached : s.cachedMapping cfg req.lpn with
  | none => rw [readMapping, hcached]; rfl
  | some page =>
    have hfind := UnorderedMap.find?_of_begin? (h page hcached)
    rw [readMapping, hcached, lookup, tableMapping, hfind]
    rfl

theorem WriteHitsFirst.writtenKey_eq (h : WriteHitsFirst cfg req s) :
    s.writtenKey cfg req.lpn = some req.lpn := by
  cases hcached : s.cachedMapping cfg req.lpn with
  | none => rw [writtenKey, hcached]; rfl
  | some page =>
    rw [writtenKey, hcached, h page hcached]
    rfl

/-- With one unit a page, a request that passes the size check and has a unit
asks for the unit. -/
theorem wants_of_count (hone : cfg.ioUnitInPage = 1) (hcount : 0 < req.ioFlag.count)
    (hsize : cfg.randomIOTweak = true → req.ioFlag.dataSize = cfg.ioUnitInPage) :
    req.wants cfg 0 = true := by
  unfold Request.wants
  by_cases htweak : cfg.randomIOTweak = true
  · obtain ⟨i, hi⟩ := Finset.card_pos.mp hcount
    have hlt := req.ioFlag.bits_lt i hi
    rw [hsize htweak, hone] at hlt
    obtain rfl : i = 0 := by omega
    simp [Bitset.test, hi]
  · simp [htweak]

/-- A program path that returns has passed the size check. -/
theorem programPage_size {send : Bool} (hs : s.pool.WellFormed cfg)
    (h : s.programPage cfg env w req send = .ok s') (htweak : cfg.randomIOTweak = true) :
    req.ioFlag.dataSize = cfg.ioUnitInPage := by
  obtain ⟨key, hit, s₁, blk, pool, locals, hlook, halloc, -⟩ := programPage_cases h
  have hwf₁ : s₁.pool.WellFormed cfg :=
    ((BlockPool.wellFormed_access cfg).touch.lookupForWrite hs).of_ok hlook
  exact (BlockPool.getLastFreeBlock_lane_size hwf₁.lane_size halloc htweak).1

/-- Setting the entry of the written page to the page programmed. -/
theorem Programs.lookup_eq {key : Nat} {new : Nat × Nat}
    (h : Programs cfg s req key new s') :
    s'.lookup = Function.update s.lookup key (some new) :=
  lookup_update h.table

theorem Programs.shape (hone : cfg.bitsetSize = 1) (hshape : TableShape cfg s) {key : Nat}
    {new : Nat × Nat} (h : Programs cfg s req key new s') : TableShape cfg s' := by
  refine shape_update hshape h.table fun vec hvec => ?_
  cases hvec
  rw [hone]
  rfl

/-- The program path keeps the bijection when its hit is harmless. -/
theorem Mapped.programPage {send : Bool} (hone : cfg.ioUnitInPage = 1) (hs : s.Mapped cfg)
    (hwant : req.wants cfg 0 = true) (hhit : WriteHitsFirst cfg req s)
    (hsend : send = true ∨ s.cachedMapping cfg req.lpn = none)
    (h : s.programPage cfg env w req send = .ok s') : s'.Mapped cfg := by
  have hsize := Config.bitsetSize_one hone
  obtain ⟨key, new, hp, -⟩ := programPage_spec hsize hwant hs.wf hs.shape hsend h
  obtain rfl : key = req.lpn := by
    have hkey := hp.key_eq
    rw [hhit.writtenKey_eq] at hkey
    exact (Option.some.inj hkey).symm
  have hwf : s'.pool.WellFormed cfg :=
    ((BlockPool.wellFormed_invariant cfg env).programPage hs.wf trivial).of_ok h
  refine ⟨hwf, hp.shape hsize hs.shape, ?_⟩
  rw [hp.lookup_eq, hp.content, hhit.readMapping_eq]
  cases hold : s.lookup req.lpn with
  | none =>
    rw [clear_none]
    exact hs.linked.add hold hp.fresh
  | some old =>
    have hfree : Function.update s.pool.content old none new = none := by
      by_cases hnew : new = old
      · rw [hnew, Function.update_self]
      · rw [Function.update_of_ne hnew]
        exact hp.fresh
    rw [clear_some]
    exact hs.linked.move hold hfree

end Invariant

end PageMapping

/-! ### Page scans of a collection -/

namespace BlockPool

/-- The next allocation does not write to a victim that has been scanned: the
lane's open block is none, or is replaced because it is listed in
`erased_block_id` or full. -/
def AvoidsVictims (cfg : Config) (p : BlockPool) (iomap : Bitset) (scanned : List Nat) : Prop :=
  (p.selectLane cfg iomap).All fun q =>
    ∀ cur ∈ q.lastFreeBlock[q.lastFreeBlockIndex]?, cur ∈ scanned →
      cur ∈ q.erasedBlockId ∨
        ∀ b ∈ q.blocks.find? cur, b.getNextWritePageIndex = cfg.pagesInBlock

instance (cfg : Config) (p : BlockPool) (iomap : Bitset) (scanned : List Nat) :
    Decidable (p.AvoidsVictims cfg iomap scanned) :=
  inferInstanceAs (Decidable ((p.selectLane cfg iomap).All _))

theorem AvoidsVictims.dest {cfg : Config} {env : Env} {p p' : BlockPool} {iomap : Bitset}
    {scanned : List Nat} {k : Nat} (hp : p.AvoidsVictims cfg iomap scanned)
    (hused : ∀ v ∈ scanned, v ∈ p.blocks)
    (h : p.getLastFreeBlock cfg env iomap = .ok (k, p')) : k ∉ scanned := by
  obtain ⟨p₁, p₂, h₁, h₂, h₃⟩ := getLastFreeBlock_spec h
  have hp₁ := hp.of_ok h₁
  have hused₁ : ∀ v ∈ scanned, v ∈ p₁.blocks := by
    obtain ⟨i, m, rfl⟩ := selectLane_spec h₁
    exact hused
  obtain ⟨cur, hcur, ⟨hmem, rfl⟩ | ⟨-, b, ht, hl, hi, -⟩⟩ := replaceErased_spec h₂
  · obtain ⟨cur', b₀, hcur', hb₀, ⟨hfull, rfl, rfl⟩ | ⟨-, b, rfl, ht, -⟩⟩ := replaceFull_spec h₃
    · intro hk
      rcases hp₁ _ hcur' hk with herased | hall
      · rw [hcur] at hcur'
        cases hcur'
        exact hmem herased
      · exact hfull (hall b₀ hb₀)
    · exact fun hk => ht.fresh (hused₁ _ hk)
  · have hlane : p₂.lastFreeBlock[p₂.lastFreeBlockIndex]? = some b.idx := by
      obtain ⟨hlt, -⟩ := List.getElem?_eq_some_iff.mp hcur
      rw [hl, hi, List.getElem?_set_self hlt]
    obtain ⟨cur', b₀, hcur', hb₀, ⟨-, rfl, rfl⟩ | ⟨-, b', rfl, ht', -⟩⟩ := replaceFull_spec h₃
    · rw [hlane] at hcur'
      cases hcur'
      exact fun hk => ht.fresh (hused₁ _ hk)
    · intro hk
      refine ht'.fresh ?_
      obtain ⟨c, hc⟩ := UnorderedMap.mem_iff_find?.mp (hused₁ _ hk)
      refine UnorderedMap.mem_iff_find?.mpr ⟨c, ?_⟩
      rw [ht.find?, if_neg]
      · exact hc
      · rintro heq
        exact ht.fresh (heq ▸ UnorderedMap.mem_of_find? hc)

end BlockPool

namespace PageMapping

section Collection

variable {cfg : Config} {env : Env} {w : World} {victim pageIndex lpn : Nat}
  {locals locals' : GcLocals} {s s' : PageMapping}

/-- The pages that a collection has been through when it scans page `pageIndex`
of `victim`. -/
def GcLocals.Passed (locals : GcLocals) (victim pageIndex : Nat) (page : Nat × Nat) : Prop :=
  page.1 ∈ locals.scanned ∨ (page.1 = victim ∧ page.2 < pageIndex)

/-- In the middle of a collection: the mapping is a bijection, and the pages
passed store nothing but queued pages, which sit there. -/
structure Scanning (cfg : Config) (w : World) (locals : GcLocals) (s : PageMapping)
    (P : Nat × Nat → Prop) : Prop where
  mapped : s.Mapped cfg
  used : ∀ v ∈ locals.scanned, v ∈ s.pool.blocks
  passed : ∀ x, P x → ∀ l, s.pool.content x = some l → l ∈ locals.queue cfg
  queue : ∀ l ∈ locals.queue cfg,
    ¬ (cfg.blockToBlockMovement = true ∧ w.lbaEvictionFrequency l ≤ 2) ∧
      ∃ x, P x ∧ s.pool.content x = some l
  default : cfg.evictPolicy ≠ .cachedGC → locals.queue cfg = []
  lpns : cfg.evictPolicy = .cachedGC → ∀ m ∈ locals.lpns[0]?,
    ¬ (cfg.blockToBlockMovement = true ∧ w.lbaEvictionFrequency m ≤ 2) → m ∈ locals.queue cfg
  cached : ∀ m ∈ locals.cachedValidLPN, m ∈ locals.queue cfg

/-- A page scan is harmless when a copy avoids the victims already scanned and,
in `cachedGC` mode, a cached page is not valid and the stale LPN that it queues
was not moved to another block. -/
def ScanKeeps (cfg : Config) (w : World) (victim : Nat) (acc : GcLocals × PageMapping)
    (pageIndex : Nat) : Prop :=
  ∀ b ∈ acc.2.pool.blocks.find? victim,
    (b.Copies cfg w pageIndex → acc.2.pool.AvoidsVictims cfg
      (Bitset.new cfg.ioUnitInPage).setAll acc.1.scanned) ∧
    (cfg.evictPolicy = .cachedGC → pageIndex ∈ b.pCachedBits →
      (pageIndex, 0) ∉ b.validBits ∧
        ∀ m ∈ acc.1.lpns[0]?,
          ¬ (cfg.blockToBlockMovement = true ∧ w.lbaEvictionFrequency m ≤ 2))

instance (cfg : Config) (w : World) (victim : Nat) (acc : GcLocals × PageMapping)
    (pageIndex : Nat) : Decidable (ScanKeeps cfg w victim acc pageIndex) :=
  inferInstanceAs (Decidable (∀ b ∈ acc.2.pool.blocks.find? victim, _))

theorem Scanning.of_passed {P Q : Nat × Nat → Prop} (hs : Scanning cfg w locals s P)
    (h : ∀ x, Q x ↔ P x) : Scanning cfg w locals s Q :=
  (funext fun x => propext (h x) : Q = P) ▸ hs

theorem GcLocals.passed_succ {page : Nat × Nat} :
    locals.Passed victim (pageIndex + 1) page ↔
      locals.Passed victim pageIndex page ∨ page = (victim, pageIndex) := by
  obtain ⟨k, i⟩ := page
  simp only [Passed, Prod.mk.injEq]
  constructor
  · rintro (h | ⟨rfl, hlt⟩)
    · exact .inl (.inl h)
    · rcases Nat.lt_succ_iff_lt_or_eq.mp hlt with hlt | rfl
      · exact .inl (.inr ⟨rfl, hlt⟩)
      · exact .inr ⟨rfl, rfl⟩
  · rintro ((h | ⟨rfl, hlt⟩) | ⟨rfl, rfl⟩)
    · exact .inl h
    · exact .inr ⟨rfl, by omega⟩
    · exact .inr ⟨rfl, by omega⟩

/-- A move keeps the bijection. -/
theorem Mapped.moves {relocateCmt : Bool} {bit : Bitset} {new : Nat × Nat}
    (hone : cfg.ioUnitInPage = 1) (hs : s.Mapped cfg) (hwf : s'.pool.WellFormed cfg)
    (hcontent : s.pool.content (victim, pageIndex) = some lpn)
    (hm : Moves cfg env victim pageIndex lpn bit relocateCmt s new s') : s'.Mapped cfg := by
  have hlookup : s'.lookup = Function.update s.lookup lpn (some new) := lookup_update hm.table
  refine ⟨hwf, shape_update hs.shape hm.table fun vec hvec => ?_, ?_⟩
  · cases hvec
    rw [Config.bitsetSize_one hone]
    rfl
  · rw [hlookup, hm.content]
    exact hs.linked.move ((hs.linked _ _).mpr hcontent) hm.free

/-- A scan that moves its page. -/
theorem Scanning.moves {relocateCmt : Bool} {bit : Bitset} {new : Nat × Nat}
    (hone : cfg.ioUnitInPage = 1)
    (hs : Scanning cfg w locals s (locals.Passed victim pageIndex))
    (hwf : s'.pool.WellFormed cfg) (hcontent : s.pool.content (victim, pageIndex) = some lpn)
    (hm : Moves cfg env victim pageIndex lpn bit relocateCmt s new s')
    (hdest : new.1 ∉ locals.scanned)
    (hmoved : cfg.evictPolicy = .cachedGC →
      cfg.blockToBlockMovement = true ∧ w.lbaEvictionFrequency lpn ≤ 2)
    (hscanned : locals'.scanned = locals.scanned) (hqueue : locals'.queue cfg = locals.queue cfg)
    (hcached : locals'.cachedValidLPN = locals.cachedValidLPN)
    (hlpns : cfg.evictPolicy = .cachedGC → locals'.lpns = [lpn]) :
    Scanning cfg w locals' s' (locals'.Passed victim (pageIndex + 1)) := by
  have hpassed : ∀ x, locals'.Passed victim (pageIndex + 1) x ↔
      locals.Passed victim pageIndex x ∨ x = (victim, pageIndex) := by
    intro x
    rw [GcLocals.passed_succ]
    simp only [GcLocals.Passed, hscanned]
  have hnotqueued : lpn ∉ locals.queue cfg := by
    intro hmem
    by_cases hmode : cfg.evictPolicy = .cachedGC
    · exact (hs.queue lpn hmem).1 (hmoved hmode)
    · rw [hs.default hmode] at hmem
      cases hmem
  have hhere : ¬ locals.Passed victim pageIndex (victim, pageIndex) := fun hp =>
    hnotqueued (hs.passed _ hp _ hcontent)
  have hnew : ∀ x, locals.Passed victim pageIndex x → x ≠ new := by
    rintro x hx rfl
    rcases hx with hx | ⟨hx, hlt⟩
    · exact hdest hx
    · have := hm.beyond hx (by rw [hcontent]; simp)
      omega
  have hsame : ∀ x, locals.Passed victim pageIndex x →
      s'.pool.content x = s.pool.content x := by
    intro x hx
    rw [hm.content, Function.update_of_ne (hnew x hx), Function.update_of_ne]
    rintro rfl
    exact hhere hx
  refine ⟨hs.mapped.moves hone hwf hcontent hm, ?_, ?_, ?_, ?_, ?_, ?_⟩
  · intro v hv
    rw [hscanned] at hv
    exact hm.used v (hs.used v hv)
  · intro x hx l hl
    rw [hqueue]
    rcases (hpassed x).mp hx with hx | rfl
    · rw [hsame x hx] at hl
      exact hs.passed x hx l hl
    · rw [hm.content, Function.update_of_ne, Function.update_self] at hl
      · cases hl
      · intro heq
        have := hm.beyond (by rw [← heq]) (by rw [hcontent]; simp)
        rw [← heq] at this
        exact lt_irrefl _ this
  · intro l hl
    rw [hqueue] at hl
    obtain ⟨hfreq, x, hx, hxl⟩ := hs.queue l hl
    exact ⟨hfreq, x, (hpassed x).mpr (.inl hx), by rw [hsame x hx]; exact hxl⟩
  · rw [hqueue]
    exact hs.default
  · intro hmode m hmem hfreq
    rw [hlpns hmode] at hmem
    cases hmem
    exact absurd (hmoved hmode) hfreq
  · rw [hcached, hqueue]
    exact hs.cached

/-- A scan that leaves the flash as it is. -/
theorem Scanning.stays (hs : Scanning cfg w locals s (locals.Passed victim pageIndex))
    (hscanned : locals'.scanned = locals.scanned)
    (hsub : ∀ l ∈ locals.queue cfg, l ∈ locals'.queue cfg)
    (hhere : ∀ l, s.pool.content (victim, pageIndex) = some l → l ∈ locals'.queue cfg)
    (hqueue : ∀ l ∈ locals'.queue cfg, l ∈ locals.queue cfg ∨
      (¬ (cfg.blockToBlockMovement = true ∧ w.lbaEvictionFrequency l ≤ 2) ∧
        s.pool.content (victim, pageIndex) = some l))
    (hdefault : cfg.evictPolicy ≠ .cachedGC → locals'.queue cfg = [])
    (hlpns : cfg.evictPolicy = .cachedGC → ∀ m ∈ locals'.lpns[0]?,
      ¬ (cfg.blockToBlockMovement = true ∧ w.lbaEvictionFrequency m ≤ 2) → m ∈ locals'.queue cfg)
    (hcached : ∀ m ∈ locals'.cachedValidLPN, m ∈ locals'.queue cfg) :
    Scanning cfg w locals' s (locals'.Passed victim (pageIndex + 1)) := by
  have hpassed : ∀ x, locals'.Passed victim (pageIndex + 1) x ↔
      locals.Passed victim pageIndex x ∨ x = (victim, pageIndex) := by
    intro x
    rw [GcLocals.passed_succ]
    simp only [GcLocals.Passed, hscanned]
  refine ⟨hs.mapped, hscanned ▸ hs.used, ?_, ?_, hdefault, hlpns, hcached⟩
  · intro x hx l hl
    rcases (hpassed x).mp hx with hx | rfl
    · exact hsub l (hs.passed x hx l hl)
    · exact hhere l hl
  · intro l hl
    rcases hqueue l hl with hl | ⟨hfreq, hl⟩
    · obtain ⟨hfreq, x, hx, hxl⟩ := hs.queue l hl
      exact ⟨hfreq, x, (hpassed x).mpr (.inl hx), hxl⟩
    · exact ⟨hfreq, _, (hpassed _).mpr (.inr rfl), hl⟩

theorem Scanning.reclaimPage (hone : cfg.ioUnitInPage = 1)
    (hmode : cfg.evictPolicy ≠ .cachedGC)
    (hs : Scanning cfg w locals s (locals.Passed victim pageIndex))
    (hkeeps : ScanKeeps cfg w victim (locals, s) pageIndex) (hwf : s'.pool.WellFormed cfg)
    (h : PageMapping.reclaimPage cfg env victim (locals, s) pageIndex = .ok (locals', s')) :
    Scanning cfg w locals' s' (locals'.Passed victim (pageIndex + 1)) := by
  obtain ⟨b, hb, _, _, _, rfl, hcases⟩ :=
    reclaimPage_spec hone hs.mapped.wf hs.mapped.shape h
  rcases hcases with ⟨hinvalid, rfl⟩ | ⟨hvalid, new, hm⟩
  · refine hs.stays rfl (fun l hl => hl) (fun l hl => ?_) (fun l hl => .inl hl)
      hs.default (fun h => absurd h hmode) hs.cached
    rw [content_of_invalid hb hinvalid] at hl
    cases hl
  · have hcopies : b.Copies cfg w pageIndex := ⟨hvalid, fun h => absurd h hmode⟩
    obtain ⟨pool, hdest⟩ := hm.dest
    exact hs.moves hone hwf (content_of_valid hb hvalid) hm
      (((hkeeps b hb).1 hcopies).dest hs.used hdest) (fun h => absurd h hmode) rfl rfl rfl
      (fun h => absurd h hmode)

theorem Scanning.reclaimCachedPage (hone : cfg.ioUnitInPage = 1)
    (hmode : cfg.evictPolicy = .cachedGC)
    (hs : Scanning cfg w locals s (locals.Passed victim pageIndex))
    (hkeeps : ScanKeeps cfg w victim (locals, s) pageIndex) (hwf : s'.pool.WellFormed cfg)
    (h : PageMapping.reclaimCachedPage cfg env w victim (locals, s) pageIndex =
      .ok (locals', s')) :
    Scanning cfg w locals' s' (locals'.Passed victim (pageIndex + 1)) := by
  obtain ⟨b, hb, hscanned, hcases⟩ :=
    reclaimCachedPage_spec hone hs.mapped.wf hs.mapped.shape h
  rcases hcases with ⟨hcached, rfl, m, hm, rfl⟩ | ⟨-, hinvalid, rfl, rfl⟩ |
    ⟨-, hvalid, hlpns, hsame, ⟨hcopies, hqueue, new, hm⟩ | ⟨hfreq, rfl, hqueue⟩⟩
  · -- a cached page: nothing is lost when it is not valid
    obtain ⟨hinvalid, hstale⟩ := (hkeeps b hb).2 hmode hcached
    refine hs.stays rfl (fun l hl => hl) (fun l hl => ?_) (fun l hl => .inl hl)
      hs.default hs.lpns (fun m' hm' => ?_)
    · rw [content_of_invalid hb hinvalid] at hl
      cases hl
    · rcases List.mem_append.mp hm' with hm' | hm'
      · exact hs.cached m' hm'
      · rw [List.mem_singleton.mp hm']
        exact hs.lpns hmode m hm (hstale m hm)
  · refine hs.stays rfl (fun l hl => hl) (fun l hl => ?_) (fun l hl => .inl hl)
      hs.default hs.lpns hs.cached
    rw [content_of_invalid hb hinvalid] at hl
    cases hl
  · obtain ⟨pool, hdest⟩ := hm.dest
    have hb2b := (hcopies.2 hmode).2
    exact hs.moves hone hwf (content_of_valid hb hvalid) hm
      (((hkeeps b hb).1 hcopies).dest hs.used hdest) (fun _ => hb2b) hscanned hqueue hsame
      (fun _ => hlpns)
  · have hmem : b.lpns (pageIndex, 0) ∈ locals'.queue cfg := by
      rw [hqueue]
      simp
    refine hs.stays hscanned (fun l hl => ?_) (fun l hl => ?_) (fun l hl => ?_)
      (fun h => absurd hmode h) (fun _ m hm _ => ?_) (fun m hm => ?_)
    · rw [hqueue]
      exact List.mem_append_left _ hl
    · rw [content_of_valid hb hvalid] at hl
      cases hl
      exact hmem
    · rw [hqueue] at hl
      rcases List.mem_append.mp hl with hl | hl
      · exact .inl hl
      · rw [List.mem_singleton.mp hl]
        exact .inr ⟨hfreq, content_of_valid hb hvalid⟩
    · rw [hlpns] at hm
      cases hm
      exact hmem
    · rw [hsame] at hm
      rw [hqueue]
      exact List.mem_append_left _ (hs.cached m hm)

/-- One page scan. -/
theorem Scanning.scanPage (hone : cfg.ioUnitInPage = 1)
    (hs : Scanning cfg w locals s (locals.Passed victim pageIndex))
    (hkeeps : ScanKeeps cfg w victim (locals, s) pageIndex)
    (h : PageMapping.scanPage cfg env w victim (locals, s) pageIndex = .ok (locals', s')) :
    Scanning cfg w locals' s' (locals'.Passed victim (pageIndex + 1)) := by
  have hwf : s'.pool.WellFormed cfg :=
    ((BlockPool.wellFormed_invariant cfg env).scanPage (locals, s) pageIndex hs.mapped.wf
      (fun _ _ _ => trivial)).of_ok h
  rw [PageMapping.scanPage] at h
  split at h
  · next hmode => exact hs.reclaimCachedPage hone hmode hkeeps hwf h
  · next hmode => exact hs.reclaimPage hone hmode hkeeps hwf h

/-- A page scan takes no block out of use. -/
theorem scanPage_used (hone : cfg.ioUnitInPage = 1) (hs : s.Mapped cfg)
    (h : PageMapping.scanPage cfg env w victim (locals, s) pageIndex = .ok (locals', s')) :
    ∀ k ∈ s.pool.blocks, k ∈ s'.pool.blocks := by
  rw [PageMapping.scanPage] at h
  split at h
  · obtain ⟨b, -, -, hcases⟩ := reclaimCachedPage_spec hone hs.wf hs.shape h
    rcases hcases with ⟨-, rfl, -⟩ | ⟨-, -, rfl, -⟩ |
      ⟨-, -, -, -, ⟨-, -, new, hm⟩ | ⟨-, rfl, -⟩⟩
    · exact fun k hk => hk
    · exact fun k hk => hk
    · exact hm.used
    · exact fun k hk => hk
  · obtain ⟨b, -, _, _, _, -, ⟨-, rfl⟩ | ⟨-, new, hm⟩⟩ := reclaimPage_spec hone hs.wf hs.shape h
    · exact fun k hk => hk
    · exact hm.used

/-- A victim whose pages have all been scanned has been passed as a whole. -/
theorem Scanning.victim_done
    (hend : Scanning cfg w locals s (locals.Passed victim cfg.pagesInBlock))
    (hmem : victim ∈ s.pool.blocks) :
    Scanning cfg w { locals with
      eraseRequests := locals.eraseRequests ++
        [⟨victim, 0, (Bitset.new cfg.ioUnitInPage).setAll⟩] } s fun x => x.1 ∈
          ({ locals with
            eraseRequests := locals.eraseRequests ++
              [⟨victim, 0, (Bitset.new cfg.ioUnitInPage).setAll⟩] } : GcLocals).scanned := by
  have hscanned : ({ locals with
      eraseRequests := locals.eraseRequests ++
        [⟨victim, 0, (Bitset.new cfg.ioUnitInPage).setAll⟩] } : GcLocals).scanned =
      locals.scanned ++ [victim] := by simp [GcLocals.scanned]
  refine ⟨hend.mapped, ?_, ?_, ?_, hend.default, hend.lpns, hend.cached⟩
  · intro v hv
    rw [hscanned] at hv
    rcases List.mem_append.mp hv with hv | hv
    · exact hend.used v hv
    · rw [List.mem_singleton.mp hv]
      exact hmem
  · intro x hx l hl
    rw [hscanned] at hx
    refine hend.passed x ?_ l hl
    rcases List.mem_append.mp hx with hx | hx
    · exact .inl hx
    · refine .inr ⟨List.mem_singleton.mp hx, ?_⟩
      -- beyond the last page nothing is stored
      by_contra hge
      rw [BlockPool.content_of_not_inRange hend.mapped.wf fun hr => hge hr.2] at hl
      cases hl
  · intro l hl
    obtain ⟨hfreq, x, hx, hxl⟩ := hend.queue l hl
    refine ⟨hfreq, x, ?_, hxl⟩
    rw [hscanned]
    rcases hx with hx | ⟨hx, -⟩
    · exact List.mem_append_left _ hx
    · rw [hx]
      simp

/-- One victim: after its page loop it has been passed as a whole. -/
theorem Scanning.scanVictim {acc acc' : GcLocals × PageMapping} (hone : cfg.ioUnitInPage = 1)
    (hs : Scanning cfg w acc.1 acc.2 fun x => x.1 ∈ acc.1.scanned)
    (hkeeps : Run.Along (PageMapping.scanPage cfg env w victim) (ScanKeeps cfg w victim) acc
      (List.range cfg.pagesInBlock))
    (h : PageMapping.scanVictim cfg env w acc victim = .ok acc') :
    Scanning cfg w acc'.1 acc'.2 fun x => x.1 ∈ acc'.1.scanned := by
  obtain ⟨hused, locals, s, hloop, rfl⟩ := scanVictim_ok h
  have hend : Scanning cfg w locals s (locals.Passed victim cfg.pagesInBlock) ∧
      victim ∈ s.pool.blocks := by
    refine hkeeps.foldlM_range (I := fun i acc =>
      Scanning cfg w acc.1 acc.2 (acc.1.Passed victim i) ∧ victim ∈ acc.2.pool.blocks)
      (fun i acc acc' _ hacc hk h => ?_) ⟨?_, hused⟩ hloop
    · exact ⟨hacc.1.scanPage hone hk h, scanPage_used hone hacc.1.mapped h victim hacc.2⟩
    · refine hs.of_passed fun x => ?_
      simp [GcLocals.Passed]
  exact hend.1.victim_done hend.2

/-! ### The end of a collection -/

/-- Erasing the victims and dropping the queued pages together keeps the
bijection: the queued pages are the ones that the victims still store. -/
theorem Scanning.finish (hs : Scanning cfg w locals s fun x => x.1 ∈ locals.scanned)
    (hwf : s'.pool.WellFormed cfg)
    (htable : ∀ l, s'.table.find? l = if l ∈ locals.queue cfg then none else s.table.find? l)
    (hcontent : ∀ x, s'.pool.content x =
      if x.1 ∈ locals.scanned then none else s.pool.content x) : s'.Mapped cfg := by
  refine ⟨hwf, fun l vec hvec => ?_, ?_⟩
  · rw [htable] at hvec
    split at hvec
    · cases hvec
    · exact hs.mapped.shape l vec hvec
  · have hlinked := hs.mapped.linked.restrict (A := fun l => l ∈ locals.queue cfg)
      (B := fun x => x.1 ∈ locals.scanned) fun l x hlx => ?_
    · refine hlinked.congr (fun l => ?_) hcontent
      rw [lookup, tableMapping, htable]
      split <;> rfl
    · have hxl := (hs.mapped.linked l x).mp hlx
      constructor
      · intro hl
        obtain ⟨-, y, hy, hyl⟩ := hs.queue l hl
        rw [← hs.mapped.linked, hlx] at hyl
        cases hyl
        exact hy
      · intro hx
        exact hs.passed x hx l hxl

theorem Scanning.finishCollection (hmode : cfg.evictPolicy ≠ .cachedGC)
    (hs : Scanning cfg w locals s fun x => x.1 ∈ locals.scanned) (hwf : s'.pool.WellFormed cfg)
    (h : PageMapping.finishCollection cfg locals s = .ok s') : s'.Mapped cfg := by
  obtain ⟨htable, -, hblocks⟩ := finishCollection_spec h
  refine hs.finish hwf (fun l => ?_) (content_of_erased hblocks)
  rw [htable, hs.default hmode, if_neg List.not_mem_nil]

theorem Scanning.finishCachedCollection
    (hs : Scanning cfg w locals s fun x => x.1 ∈ locals.scanned) (hwf : s'.pool.WellFormed cfg)
    (h : PageMapping.finishCachedCollection cfg locals s = .ok s') : s'.Mapped cfg := by
  obtain ⟨htable, -, hblocks, -⟩ := finishCachedCollection_spec h
  refine hs.finish hwf (fun l => ?_) (content_of_erased hblocks)
  rw [htable]
  refine if_congr ⟨fun hl => hl.elim id (hs.cached l), .inl⟩ rfl rfl

/-- Nothing has been scanned when a collection begins. -/
theorem Mapped.scanning (hs : s.Mapped cfg) :
    Scanning cfg w .empty s fun x => x.1 ∈ GcLocals.empty.scanned := by
  have hqueue : GcLocals.empty.queue cfg = [] := by
    unfold GcLocals.queue
    split <;> rfl
  refine ⟨hs, ?_, ?_, ?_, fun _ => hqueue, ?_, ?_⟩
  · rintro v ⟨⟩
  · rintro x ⟨⟩
  · rw [hqueue]
    rintro l ⟨⟩
  · rintro - m ⟨⟩
  · rintro m ⟨⟩

/-- A collection keeps the pool well formed, whatever its scans allocate. -/
theorem doGarbageCollection_wellFormed {victims : List Nat} (hwf : s.pool.WellFormed cfg)
    (h : PageMapping.doGarbageCollection cfg env w victims s = .ok s') :
    s'.pool.WellFormed cfg := by
  refine ((BlockPool.wellFormed_invariant cfg env).doGarbageCollection hwf fun _ => ?_).of_ok h
  exact Run.Along.of_forall (fun _ _ => Run.Along.of_forall (fun _ _ _ _ _ => trivial) _ _) _ _

/-- A collection keeps the bijection when its scans are harmless. -/
theorem Mapped.doGarbageCollection (hone : cfg.ioUnitInPage = 1) {victims : List Nat}
    (hs : s.Mapped cfg) (hkeeps : s.Scans cfg env (ScanKeeps cfg) w victims)
    (h : PageMapping.doGarbageCollection cfg env w victims s = .ok s') : s'.Mapped cfg := by
  have hwf := doGarbageCollection_wellFormed hs.wf h
  rcases doGarbageCollection_cases h with rfl | ⟨locals, s₁, hlim, -, hloop, h⟩
  · exact hs
  · have hend : Scanning cfg w locals s₁ fun x => x.1 ∈ locals.scanned :=
      (hkeeps hlim).foldlM_inv (I := fun acc =>
        Scanning cfg w acc.1 acc.2 fun x => x.1 ∈ acc.1.scanned)
        (fun acc victim acc' hacc hpages h => hacc.scanVictim hone hpages h) hs.scanning hloop
    rcases h with ⟨-, h⟩ | ⟨hmode, h⟩
    · exact hend.finishCachedCollection hwf h
    · exact hend.finishCollection hmode hwf h

end Collection

end PageMapping

end SimpleSSD.FTL
