import Mathlib.Data.Finset.Fold
import SimpleSSD.FTL.Block
import SimpleSSD.Lib.Run

/-!
# The two layouts of a block (ftl/common/block.cc)

`Block` of the source keeps its bits in one of two ways. With one I/O unit per page there is a
bitset with one bit for each page, behind a pointer; with more there is a vector with one bitset
for each page, and the pointers stay null. `pCachedBits` has no counterpart in the second
layout.

The layouts are compared with `Block`, where a bit is a member of a set of pairs: every operation
that touches no null pointer does to the stored block what it does there.
-/

namespace SimpleSSD.FTL

/-- The fields of the source. A pointer is null or points to what it owns. -/
structure StoredBlock where
  idx : Nat
  pageCount : Nat
  ioUnitInPage : Nat
  pNextWritePageIndex : Nat → Nat
  pValidBits : Option Bitset
  pErasedBits : Option Bitset
  pCachedBits : Option Bitset
  pLPNs : Option (Nat → Nat)
  validBits : List Bitset
  erasedBits : List Bitset
  ppLPNs : Option (Nat → Nat → Nat)
  blockAccessCount : Nat
  lastAccessed : Nat
  eraseCount : Nat

namespace StoredBlock

/-- `*p`. -/
def deref {α : Type} (name : String) : Option α → Except Fault α
  | some a => .ok a
  | none => .error (.badAccess name)

/-- `v.at(pageIndex)`. -/
def pageBits (v : List Bitset) (pageIndex : Nat) : Except Fault Bitset :=
  match v[pageIndex]? with
  | some bits => .ok bits
  | none => .error (.panic "std::vector::at" "out of range")

/-- `reset(i)`. -/
def clear (b : Bitset) (i : Nat) : Bitset :=
  ⟨b.dataSize, b.bits.erase i, fun j hj => b.bits_lt j (Finset.mem_of_mem_erase hj)⟩

/-- `erase` (block.cc:376–394). -/
def erase (s : StoredBlock) : Except Fault StoredBlock := do
  let s : StoredBlock ← if s.ioUnitInPage = 1 then do
      let valid ← deref "pValidBits" s.pValidBits
      let erased ← deref "pErasedBits" s.pErasedBits
      pure { s with
        pValidBits := some (Bitset.new valid.dataSize)
        pErasedBits := some erased.setAll }
    else
      pure { s with
        validBits := s.validBits.map fun bits => Bitset.new bits.dataSize
        erasedBits := s.erasedBits.map Bitset.setAll }
  pure { s with
    blockAccessCount := 0
    pNextWritePageIndex := fun _ => 0
    eraseCount := s.eraseCount + 1 }

/-- The constructor (block.cc:31–74). -/
def new (blockIdx count ioUnit : Nat) : Except Fault StoredBlock := do
  let s : StoredBlock ← if ioUnit = 1 then
      pure {
        idx := blockIdx, pageCount := count, ioUnitInPage := ioUnit
        pNextWritePageIndex := fun _ => 0
        pValidBits := some (Bitset.new count)
        pErasedBits := some (Bitset.new count)
        pCachedBits := some (Bitset.new count)
        pLPNs := some fun _ => 0
        validBits := [], erasedBits := [], ppLPNs := none
        blockAccessCount := 0, lastAccessed := 0, eraseCount := 0 }
    else if ioUnit > 1 then
      pure {
        idx := blockIdx, pageCount := count, ioUnitInPage := ioUnit
        pNextWritePageIndex := fun _ => 0
        pValidBits := none, pErasedBits := none, pCachedBits := none, pLPNs := none
        validBits := List.replicate count (Bitset.new ioUnit)
        erasedBits := List.replicate count (Bitset.new ioUnit)
        ppLPNs := some fun _ _ => 0
        blockAccessCount := 0, lastAccessed := 0, eraseCount := 0 }
    else .error (.panic "Block::Block" "Invalid I/O unit in page")
  let s ← s.erase
  pure { s with eraseCount := 0 }

/-- The copy constructor (block.cc:76–100). The access count and the tick of the last access
start anew. -/
def copy (old : StoredBlock) : Except Fault StoredBlock := do
  let s ← new old.idx old.pageCount old.ioUnitInPage
  let s : StoredBlock ← if s.ioUnitInPage = 1 then do
      let valid ← deref "pValidBits" old.pValidBits
      let erased ← deref "pErasedBits" old.pErasedBits
      let cached ← deref "pCachedBits" old.pCachedBits
      let lpns ← deref "pLPNs" old.pLPNs
      pure { s with
        pValidBits := some valid, pErasedBits := some erased, pCachedBits := some cached
        pLPNs := some lpns }
    else do
      let lpns ← deref "ppLPNs" old.ppLPNs
      pure { s with
        validBits := old.validBits, erasedBits := old.erasedBits, ppLPNs := some lpns }
  pure { s with pNextWritePageIndex := old.pNextWritePageIndex, eraseCount := old.eraseCount }

/-- The move constructor (block.cc:102–133): the new block owns what the old one owned. -/
def moved (old : StoredBlock) : StoredBlock where
  idx := old.idx
  pageCount := old.pageCount
  ioUnitInPage := old.ioUnitInPage
  pNextWritePageIndex := old.pNextWritePageIndex
  pValidBits := old.pValidBits
  pErasedBits := old.pErasedBits
  pCachedBits := old.pCachedBits
  pLPNs := old.pLPNs
  validBits := old.validBits
  erasedBits := old.erasedBits
  ppLPNs := old.ppLPNs
  blockAccessCount := old.blockAccessCount
  lastAccessed := old.lastAccessed
  eraseCount := old.eraseCount

/-- `read` (block.cc:307–327). -/
def read (s : StoredBlock) (pageIndex idx tick : Nat) : Except Fault (Bool × StoredBlock) := do
  let read ← if s.ioUnitInPage = 1 ∧ idx = 0 then do
      let valid ← deref "pValidBits" s.pValidBits
      pure (valid.test pageIndex)
    else if idx < s.ioUnitInPage then do
      let bits ← pageBits s.validBits pageIndex
      pure (bits.test idx)
    else .error (.panic "Block::read" "I/O map size mismatch")
  let cached ← deref "pCachedBits" s.pCachedBits
  pure (read, { s with
    blockAccessCount := s.blockAccessCount + 1
    lastAccessed := if read then tick else s.lastAccessed
    pCachedBits := some (cached.insert pageIndex) })

/-- `write` (block.cc:332–374). -/
def write (s : StoredBlock) (pageIndex lpn idx tick : Nat) : Except Fault StoredBlock := do
  let write ← if s.ioUnitInPage = 1 ∧ idx = 0 then do
      let erased ← deref "pErasedBits" s.pErasedBits
      pure (erased.test pageIndex)
    else if idx < s.ioUnitInPage then do
      let bits ← pageBits s.erasedBits pageIndex
      pure (bits.test idx)
    else .error (.panic "Block::write" "I/O map size mismatch")
  if write then
    if pageIndex < s.pNextWritePageIndex idx then
      .error (.panic "Block::write" "Write to block should sequential")
    else do
      let s : StoredBlock ← if s.ioUnitInPage = 1 then do
          let erased ← deref "pErasedBits" s.pErasedBits
          let valid ← deref "pValidBits" s.pValidBits
          let lpns ← deref "pLPNs" s.pLPNs
          pure { s with
            pErasedBits := some (clear erased pageIndex)
            pValidBits := some (valid.insert pageIndex)
            pLPNs := some (Function.update lpns pageIndex lpn) }
        else do
          let erased ← pageBits s.erasedBits pageIndex
          let valid ← pageBits s.validBits pageIndex
          let lpns ← deref "ppLPNs" s.ppLPNs
          pure { s with
            erasedBits := s.erasedBits.set pageIndex (clear erased idx)
            validBits := s.validBits.set pageIndex (valid.insert idx)
            ppLPNs :=
              some (Function.update lpns pageIndex (Function.update (lpns pageIndex) idx lpn)) }
      pure { s with
        lastAccessed := tick
        pNextWritePageIndex := Function.update s.pNextWritePageIndex idx (pageIndex + 1) }
  else .error (.panic "Block::write" "Write to non erased page")

/-- `isCached` (block.cc:395–401): both branches are the same. -/
def isCached (s : StoredBlock) (pageIndex : Nat) : Except Fault Bool := do
  let cached ← deref "pCachedBits" s.pCachedBits
  pure (cached.test pageIndex)

/-- `isPageValid` (block.cc:402–406). -/
def isPageValid (s : StoredBlock) (pageIndex : Nat) : Except Fault Bool := do
  let valid ← deref "pValidBits" s.pValidBits
  pure (valid.test pageIndex)

/-- `invalidate` (block.cc:408–418). -/
def invalidate (s : StoredBlock) (pageIndex idx : Nat) : Except Fault StoredBlock := do
  let s : StoredBlock ← if s.ioUnitInPage = 1 then do
      let valid ← deref "pValidBits" s.pValidBits
      pure { s with pValidBits := some (clear valid pageIndex) }
    else do
      let bits ← pageBits s.validBits pageIndex
      pure { s with validBits := s.validBits.set pageIndex (clear bits idx) }
  pure { s with blockAccessCount := s.blockAccessCount + 1 }

/-- `deCache` (block.cc:420–426). -/
def deCache (s : StoredBlock) (pageIndex : Nat) : Except Fault StoredBlock := do
  let cached ← deref "pCachedBits" s.pCachedBits
  pure { s with pCachedBits := some (clear cached pageIndex) }

/-! ### What the layouts hold -/

/-- The bitset of the first layout holds the units `(p, 0)`. -/
def HoldsPages (v : Option Bitset) (count : Nat) (units : Finset (Nat × Nat)) : Prop :=
  ∃ bits, v = some bits ∧ bits.dataSize = count ∧ ∀ p, p ∈ bits.bits ↔ (p, 0) ∈ units

/-- The vector of the second layout holds the units. -/
def HoldsUnits (v : List Bitset) (count width : Nat) (units : Finset (Nat × Nat)) : Prop :=
  v.length = count ∧
    ∀ p bits, v[p]? = some bits → bits.dataSize = width ∧ ∀ i, i ∈ bits.bits ↔ (p, i) ∈ units

section Holds

variable {count width p i : Nat} {units : Finset (Nat × Nat)} {bits : Bitset} {v : List Bitset}

theorem mem_insert_bits : i ∈ (bits.insert p).bits ↔
    i < bits.dataSize ∧ (i = p ∨ i ∈ bits.bits) := by
  simp [Bitset.insert]

theorem HoldsPages.insert (h : HoldsPages (some bits) count units) (hp : p < count) :
    HoldsPages (some (bits.insert p)) count (insert (p, 0) units) := by
  obtain ⟨_, ⟨⟩, hsize, hmem⟩ := h
  refine ⟨_, rfl, hsize, fun q => ?_⟩
  rw [mem_insert_bits, Finset.mem_insert, ← hmem, Prod.mk.injEq, hsize]
  constructor
  · rintro ⟨-, rfl | hq⟩
    · exact .inl ⟨rfl, rfl⟩
    · exact .inr hq
  · rintro (⟨rfl, -⟩ | hq)
    · exact ⟨hp, .inl rfl⟩
    · exact ⟨hsize ▸ bits.bits_lt q hq, .inr hq⟩

theorem HoldsPages.clear (h : HoldsPages (some bits) count units) :
    HoldsPages (some (clear bits p)) count (units.erase (p, 0)) := by
  obtain ⟨_, ⟨⟩, hsize, hmem⟩ := h
  refine ⟨_, rfl, hsize, fun q => ?_⟩
  simp [StoredBlock.clear, ← hmem]

theorem holdsPages_new : HoldsPages (some (Bitset.new count)) count ∅ :=
  ⟨_, rfl, rfl, by simp [Bitset.new]⟩

theorem holdsPages_setAll (hsize : bits.dataSize = count) :
    HoldsPages (some bits.setAll) count (Finset.range count ×ˢ Finset.range 1) :=
  ⟨_, rfl, hsize, by simp [Bitset.setAll, hsize]⟩

theorem HoldsUnits.pageBits (h : HoldsUnits v count width units) (hp : p < count) :
    ∃ bits, StoredBlock.pageBits v p = .ok bits ∧ v[p]? = some bits ∧ bits.dataSize = width ∧
      ∀ i, i ∈ bits.bits ↔ (p, i) ∈ units := by
  have hget : v[p]? = some (v.get ⟨p, h.1 ▸ hp⟩) := List.getElem?_eq_getElem (h.1 ▸ hp)
  refine ⟨_, ?_, hget, h.2 p _ hget⟩
  rw [StoredBlock.pageBits, hget]

/-- A page's bitset is changed, and the others' stay. -/
theorem HoldsUnits.set {units' : Finset (Nat × Nat)} (h : HoldsUnits v count width units)
    (hp : p < count) (hsize : bits.dataSize = width)
    (hself : ∀ i, i ∈ bits.bits ↔ (p, i) ∈ units')
    (hother : ∀ q i, q ≠ p → ((q, i) ∈ units' ↔ (q, i) ∈ units)) :
    HoldsUnits (v.set p bits) count width units' := by
  refine ⟨by rw [List.length_set, h.1], fun q bits' hq => ?_⟩
  by_cases hqp : q = p
  · subst hqp
    rw [List.getElem?_set_self (h.1 ▸ hp)] at hq
    cases hq
    exact ⟨hsize, hself⟩
  · rw [List.getElem?_set_ne (Ne.symm hqp)] at hq
    obtain ⟨hsize', hmem⟩ := h.2 q bits' hq
    exact ⟨hsize', fun i => (hmem i).trans (hother q i hqp).symm⟩

theorem HoldsUnits.insert (h : HoldsUnits v count width units) (hp : p < count) (hi : i < width)
    (hget : v[p]? = some bits) :
    HoldsUnits (v.set p (bits.insert i)) count width (insert (p, i) units) := by
  obtain ⟨hsize, hmem⟩ := h.2 p bits hget
  refine h.set hp hsize (fun j => ?_) fun q j hq => by simp [hq]
  rw [mem_insert_bits, Finset.mem_insert, ← hmem, Prod.mk.injEq, hsize]
  constructor
  · rintro ⟨-, rfl | hj⟩
    · exact .inl ⟨rfl, rfl⟩
    · exact .inr hj
  · rintro (⟨-, rfl⟩ | hj)
    · exact ⟨hi, .inl rfl⟩
    · exact ⟨hsize ▸ bits.bits_lt j hj, .inr hj⟩

theorem HoldsUnits.clear (h : HoldsUnits v count width units) (hp : p < count)
    (hget : v[p]? = some bits) :
    HoldsUnits (v.set p (clear bits i)) count width (units.erase (p, i)) := by
  obtain ⟨hsize, hmem⟩ := h.2 p bits hget
  refine h.set hp hsize (fun j => ?_) fun q j hq => by simp [hq]
  simp [StoredBlock.clear, ← hmem]

theorem HoldsUnits.reset (h : HoldsUnits v count width units) :
    HoldsUnits (v.map fun bits => Bitset.new bits.dataSize) count width ∅ := by
  refine ⟨by rw [List.length_map, h.1], fun p bits hget => ?_⟩
  rw [List.getElem?_map, Option.map_eq_some_iff] at hget
  obtain ⟨old, hold, rfl⟩ := hget
  exact ⟨(h.2 p old hold).1, by simp [Bitset.new]⟩

theorem HoldsUnits.setAll (h : HoldsUnits v count width units) :
    HoldsUnits (v.map Bitset.setAll) count width (Finset.range count ×ˢ Finset.range width) := by
  refine ⟨by rw [List.length_map, h.1], fun p bits hget => ?_⟩
  rw [List.getElem?_map, Option.map_eq_some_iff] at hget
  obtain ⟨old, hold, rfl⟩ := hget
  have hp : p < count := h.1 ▸ (List.getElem?_eq_some_iff.mp hold).1
  have hsize := (h.2 p old hold).1
  exact ⟨hsize, by simp [Bitset.setAll, hsize, hp]⟩

theorem holdsUnits_new : HoldsUnits (List.replicate count (Bitset.new width)) count width ∅ := by
  refine ⟨List.length_replicate, fun p bits hget => ?_⟩
  rw [List.getElem?_replicate] at hget
  split at hget
  · cases hget
    exact ⟨rfl, by simp [Bitset.new]⟩
  · cases hget

end Holds

/-- The first layout stores the bits of the block. -/
structure StoresPages (s : StoredBlock) (b : Block) : Prop where
  valid : HoldsPages s.pValidBits b.pageCount b.validBits
  erased : HoldsPages s.pErasedBits b.pageCount b.erasedBits
  cached : ∃ bits, s.pCachedBits = some bits ∧ bits.dataSize = b.pageCount ∧
    bits.bits = b.pCachedBits
  lpns : ∃ lpns, s.pLPNs = some lpns ∧ ∀ p, lpns p = b.lpns (p, 0)

/-- The second one does, and the pointers of the first are null. -/
structure StoresUnits (s : StoredBlock) (b : Block) : Prop where
  pValidBits : s.pValidBits = none
  pErasedBits : s.pErasedBits = none
  pCachedBits : s.pCachedBits = none
  valid : HoldsUnits s.validBits b.pageCount b.ioUnitInPage b.validBits
  erased : HoldsUnits s.erasedBits b.pageCount b.ioUnitInPage b.erasedBits
  lpns : ∃ lpns, s.ppLPNs = some lpns ∧ ∀ p i, lpns p i = b.lpns (p, i)

/-- The stored block stores the block, in the layout that its units per page select. -/
structure Stores (s : StoredBlock) (b : Block) : Prop where
  idx : s.idx = b.idx
  pageCount : s.pageCount = b.pageCount
  ioUnitInPage : s.ioUnitInPage = b.ioUnitInPage
  pNextWritePageIndex : s.pNextWritePageIndex = b.pNextWritePageIndex
  blockAccessCount : s.blockAccessCount = b.blockAccessCount
  eraseCount : s.eraseCount = b.eraseCount
  units_lt : ∀ u ∈ b.validBits, u.2 < b.ioUnitInPage
  pages : b.ioUnitInPage = 1 → s.StoresPages b
  units : b.ioUnitInPage ≠ 1 → s.StoresUnits b

/-! ### The operations in both layouts -/

section Operations

variable {s : StoredBlock} {b : Block} {p i lpn tick : Nat}

theorem erase_stores (h : s.Stores b) : ∃ s', s.erase = .ok s' ∧ s'.Stores b.erase := by
  by_cases hone : b.ioUnitInPage = 1
  · obtain ⟨⟨valid, hvalid, hsize, -⟩, ⟨erased, herased, hsize', -⟩, hcached, hlpns⟩ := h.pages hone
    have hrun : s.erase = .ok { s with
        pValidBits := some (Bitset.new valid.dataSize)
        pErasedBits := some erased.setAll
        blockAccessCount := 0
        pNextWritePageIndex := fun _ => 0
        eraseCount := s.eraseCount + 1 } := by
      simp [erase, h.ioUnitInPage, hone, hvalid, herased, deref]
    have hall := holdsPages_setAll hsize'
    rw [← hone] at hall
    refine ⟨_, hrun, h.idx, h.pageCount, h.ioUnitInPage, rfl,
      rfl, by simp [h.eraseCount, Block.erase],
      by simp [Block.erase], fun _ => ⟨?_, hall, hcached, hlpns⟩, fun hne => absurd hone hne⟩
    rw [hsize]
    exact holdsPages_new
  · have hs := h.units hone
    have hrun : s.erase = .ok { s with
        validBits := s.validBits.map fun bits => Bitset.new bits.dataSize
        erasedBits := s.erasedBits.map Bitset.setAll
        blockAccessCount := 0
        pNextWritePageIndex := fun _ => 0
        eraseCount := s.eraseCount + 1 } := by
      simp [erase, h.ioUnitInPage, hone]
    exact ⟨_, hrun, h.idx, h.pageCount, h.ioUnitInPage, rfl,
      rfl, by simp [h.eraseCount, Block.erase],
      by simp [Block.erase], fun h => absurd h hone,
      fun _ => ⟨hs.pValidBits, hs.pErasedBits, hs.pCachedBits, hs.valid.reset, hs.erased.setAll,
        hs.lpns⟩⟩

theorem new_stores {k c u : Nat} (hu : 1 ≤ u) :
    ∃ s, new k c u = .ok s ∧ s.Stores (Block.new k c u) := by
  by_cases hone : u = 1
  · subst hone
    refine ⟨_, rfl, rfl, rfl, rfl, rfl, rfl, rfl, by simp [Block.new], fun _ => ?_,
      fun hne => absurd rfl hne⟩
    exact ⟨holdsPages_new, holdsPages_setAll rfl, ⟨_, rfl, rfl, rfl⟩, ⟨_, rfl, fun _ => rfl⟩⟩
  · have hlt : 1 < u := by omega
    have hrun : new k c u = .ok {
        idx := k, pageCount := c, ioUnitInPage := u
        pNextWritePageIndex := fun _ => 0
        pValidBits := none, pErasedBits := none, pCachedBits := none, pLPNs := none
        validBits := (List.replicate c (Bitset.new u)).map fun bits => Bitset.new bits.dataSize
        erasedBits := (List.replicate c (Bitset.new u)).map Bitset.setAll
        ppLPNs := some fun _ _ => 0
        blockAccessCount := 0, lastAccessed := 0, eraseCount := 0 } := by
      simp [new, erase, hone, hlt]
    have hunits : HoldsUnits (List.replicate c (Bitset.new u)) c u ∅ := holdsUnits_new
    exact ⟨_, hrun, rfl, rfl, rfl, rfl, rfl, rfl, by simp [Block.new], fun h => absurd h hone,
      fun _ => ⟨rfl, rfl, rfl, hunits.reset, hunits.setAll, ⟨_, rfl, fun _ _ => rfl⟩⟩⟩

theorem copy_stores (hu : 1 ≤ b.ioUnitInPage) (h : s.Stores b) :
    ∃ s', s.copy = .ok s' ∧ s'.Stores { b with blockAccessCount := 0 } := by
  obtain ⟨s₀, hnew, h₀⟩ := new_stores (k := s.idx) (c := s.pageCount)
    (u := s.ioUnitInPage) (h.ioUnitInPage ▸ hu)
  have hwidth : s₀.ioUnitInPage = b.ioUnitInPage := h₀.ioUnitInPage.trans h.ioUnitInPage
  by_cases hone : b.ioUnitInPage = 1
  · obtain ⟨hv, he, hc, hl⟩ := h.pages hone
    obtain ⟨valid, hvalid, -⟩ := id hv
    obtain ⟨erased, herased, -⟩ := id he
    obtain ⟨cached, hcached, -⟩ := id hc
    obtain ⟨lpns, hlpns, -⟩ := id hl
    have hrun : s.copy = .ok { s₀ with
        pValidBits := s.pValidBits, pErasedBits := s.pErasedBits, pCachedBits := s.pCachedBits
        pLPNs := s.pLPNs
        pNextWritePageIndex := s.pNextWritePageIndex
        eraseCount := s.eraseCount } := by
      simp [copy, hnew, hwidth, hone, hvalid, herased, hcached, hlpns, deref]
    exact ⟨_, hrun, h₀.idx.trans h.idx, h₀.pageCount.trans h.pageCount, hwidth,
      h.pNextWritePageIndex, h₀.blockAccessCount, h.eraseCount, h.units_lt,
      fun _ => ⟨hv, he, hc, hl⟩, fun hne => absurd hone hne⟩
  · have hs := h.units hone
    have hs₀ := h₀.units (fun hw => hone (h.ioUnitInPage.symm.trans hw))
    obtain ⟨lpns, hlpns, -⟩ := hs.lpns
    have hrun : s.copy = .ok { s₀ with
        validBits := s.validBits, erasedBits := s.erasedBits, ppLPNs := s.ppLPNs
        pNextWritePageIndex := s.pNextWritePageIndex
        eraseCount := s.eraseCount } := by
      simp [copy, hnew, hwidth, hone, hlpns, deref]
    exact ⟨_, hrun, h₀.idx.trans h.idx, h₀.pageCount.trans h.pageCount, hwidth,
      h.pNextWritePageIndex, h₀.blockAccessCount, h.eraseCount, h.units_lt,
      fun hw => absurd hw hone,
      fun _ => ⟨hs₀.pValidBits, hs₀.pErasedBits, hs₀.pCachedBits, hs.valid, hs.erased, hs.lpns⟩⟩

theorem invalidate_stores (h : s.Stores b) (hp : p < b.pageCount) (hi : i < b.ioUnitInPage) :
    ∃ s', s.invalidate p i = .ok s' ∧ s'.Stores (b.invalidate p i) := by
  have hlt : ∀ u ∈ b.validBits.erase (p, i), u.2 < b.ioUnitInPage :=
    fun u hu => h.units_lt u (Finset.mem_of_mem_erase hu)
  by_cases hone : b.ioUnitInPage = 1
  · obtain ⟨hv, he, hc, hl⟩ := h.pages hone
    obtain rfl : i = 0 := by omega
    obtain ⟨valid, hvalid, -⟩ := id hv
    have hrun : s.invalidate p 0 = .ok { s with
        pValidBits := some (clear valid p)
        blockAccessCount := s.blockAccessCount + 1 } := by
      simp [invalidate, h.ioUnitInPage, hone, hvalid, deref]
    rw [hvalid] at hv
    exact ⟨_, hrun, h.idx, h.pageCount, h.ioUnitInPage, h.pNextWritePageIndex,
      congrArg (· + 1) h.blockAccessCount, h.eraseCount, hlt, fun _ => ⟨hv.clear, he, hc, hl⟩,
      fun hne => absurd hone hne⟩
  · have hs := h.units hone
    obtain ⟨bits, hat, hget, -⟩ := hs.valid.pageBits hp
    have hrun : s.invalidate p i = .ok { s with
        validBits := s.validBits.set p (clear bits i)
        blockAccessCount := s.blockAccessCount + 1 } := by
      simp [invalidate, h.ioUnitInPage, hone, hat]
    exact ⟨_, hrun, h.idx, h.pageCount, h.ioUnitInPage, h.pNextWritePageIndex,
      congrArg (· + 1) h.blockAccessCount, h.eraseCount, hlt, fun hw => absurd hw hone,
      fun _ => ⟨hs.pValidBits, hs.pErasedBits, hs.pCachedBits, hs.valid.clear hp hget, hs.erased,
        hs.lpns⟩⟩

/-! The others follow a null pointer in the second layout, as the operations of `Block` do. -/

open Except (Same)

theorem isPageValid_same (h : s.Stores b) :
    Same Eq (s.isPageValid p) (b.isPageValid p) := by
  by_cases hone : b.ioUnitInPage = 1
  · obtain ⟨valid, hvalid, -, hmem⟩ := (h.pages hone).valid
    have hrun : s.isPageValid p = .ok (valid.test p) := by simp [isPageValid, hvalid, deref]
    rw [hrun, Block.isPageValid, if_pos hone]
    exact .ok (by simp [Bitset.test, hmem])
  · have hrun : s.isPageValid p = .error (.badAccess "pValidBits") := by
      simp [isPageValid, (h.units hone).pValidBits, deref]
    rw [hrun, Block.isPageValid, if_neg hone]
    exact .error _

theorem isCached_same (h : s.Stores b) : Same Eq (s.isCached p) (b.isCached p) := by
  by_cases hone : b.ioUnitInPage = 1
  · obtain ⟨cached, hcached, -, hbits⟩ := (h.pages hone).cached
    have hrun : s.isCached p = .ok (cached.test p) := by simp [isCached, hcached, deref]
    rw [hrun, Block.isCached, if_pos hone]
    exact .ok (by simp [Bitset.test, hbits])
  · have hrun : s.isCached p = .error (.badAccess "pCachedBits") := by
      simp [isCached, (h.units hone).pCachedBits, deref]
    rw [hrun, Block.isCached, if_neg hone]
    exact .error _

theorem deCache_same (h : s.Stores b) : Same Stores (s.deCache p) (b.deCache p) := by
  by_cases hone : b.ioUnitInPage = 1
  · obtain ⟨hv, he, ⟨cached, hcached, hsize, hbits⟩, hl⟩ := h.pages hone
    have hrun : s.deCache p = .ok { s with pCachedBits := some (clear cached p) } := by
      simp [deCache, hcached, deref]
    rw [hrun, Block.deCache, if_pos hone]
    refine .ok ⟨h.idx, h.pageCount, h.ioUnitInPage, h.pNextWritePageIndex, h.blockAccessCount,
      h.eraseCount, h.units_lt, fun _ => ⟨hv, he, ⟨_, rfl, hsize, ?_⟩, hl⟩,
      fun hne => absurd hone hne⟩
    exact congrArg (Finset.erase · p) hbits
  · have hrun : s.deCache p = .error (.badAccess "pCachedBits") := by
      simp [deCache, (h.units hone).pCachedBits, deref]
    rw [hrun, Block.deCache, if_neg hone]
    exact .error _

theorem read_same (h : s.Stores b) (hp : p < b.pageCount) (hi : i < b.ioUnitInPage) :
    Same (fun r r' => r.1 = r'.1 ∧ Stores r.2 r'.2) (s.read p i tick) (b.read p i) := by
  by_cases hone : b.ioUnitInPage = 1
  · obtain ⟨hv, he, ⟨cached, hcached, hsize, hbits⟩, hl⟩ := h.pages hone
    obtain rfl : i = 0 := by omega
    obtain ⟨valid, hvalid, -, hmem⟩ := id hv
    have hrun : s.read p 0 tick = .ok (valid.test p, { s with
        blockAccessCount := s.blockAccessCount + 1
        lastAccessed := if valid.test p then tick else s.lastAccessed
        pCachedBits := some (cached.insert p) }) := by
      simp [read, h.ioUnitInPage, hone, hvalid, hcached, deref]
    rw [hrun, Block.read, if_neg (not_not.mpr hi), if_neg (not_not.mpr hone)]
    refine .ok ⟨by simp [Bitset.test, hmem], h.idx, h.pageCount, h.ioUnitInPage,
      h.pNextWritePageIndex, congrArg (· + 1) h.blockAccessCount, h.eraseCount, h.units_lt,
      fun _ => ⟨hv, he, ⟨_, rfl, hsize, ?_⟩, hl⟩, fun hne => absurd hone hne⟩
    ext q
    rw [mem_insert_bits, hbits, Finset.mem_insert, hsize]
    constructor
    · exact fun hq => hq.2
    · rintro (rfl | hq)
      · exact ⟨hp, .inl rfl⟩
      · exact ⟨hsize ▸ cached.bits_lt q (hbits ▸ hq), .inr hq⟩
  · have hs := h.units hone
    obtain ⟨bits, hat, -⟩ := hs.valid.pageBits hp
    have hrun : s.read p i tick = .error (.badAccess "pCachedBits") := by
      simp [read, h.ioUnitInPage, hone, hi, hat, hs.pCachedBits, deref, Except.ok_bind]
    rw [hrun, Block.read, if_neg (not_not.mpr hi), if_pos hone]
    exact .error _

theorem Stores.insert_lt (h : s.Stores b) (p : Nat) (hi : i < b.ioUnitInPage) :
    ∀ u ∈ insert (p, i) b.validBits, u.2 < b.ioUnitInPage := by
  intro u hu
  rcases Finset.mem_insert.mp hu with rfl | hu
  · exact hi
  · exact h.units_lt u hu

theorem write_page_same (h : s.Stores b) (hp : p < b.pageCount) (hone : b.ioUnitInPage = 1) :
    Same Stores (s.write p lpn 0 tick) (b.write p lpn 0) := by
  have hnext := h.pNextWritePageIndex
  have hi : 0 < b.ioUnitInPage := hone ▸ Nat.one_pos
  have hlt := h.insert_lt p hi
  rw [Block.write, if_neg (not_not.mpr hi)]
  obtain ⟨hv, he, hc, ⟨lpns, hlpns, hl⟩⟩ := h.pages hone
  obtain ⟨valid, hvalid, -⟩ := id hv
  obtain ⟨erased, herased, -, hmem⟩ := id he
  have htest : erased.test p = true ↔ (p, 0) ∈ b.erasedBits := by simp [Bitset.test, hmem]
  split
  · next hnot =>
    rw [← htest] at hnot
    have hrun :
        s.write p lpn 0 tick = .error (.panic "Block::write" "Write to non erased page") := by
      simp [write, h.ioUnitInPage, hone, herased, deref, hnot, Except.ok_bind]
    rw [hrun]
    exact .error _
  · next hmemErased =>
    rw [not_not, ← htest] at hmemErased
    split
    · next hback =>
      rw [← hnext] at hback
      have hrun : s.write p lpn 0 tick =
          .error (.panic "Block::write" "Write to block should sequential") := by
        simp [write, h.ioUnitInPage, hone, herased, deref, hmemErased, hback, Except.ok_bind]
      rw [hrun]
      exact .error _
    · next hback =>
      rw [← hnext] at hback
      have hrun : s.write p lpn 0 tick = .ok { s with
          pErasedBits := some (clear erased p)
          pValidBits := some (valid.insert p)
          pLPNs := some (Function.update lpns p lpn)
          lastAccessed := tick
          pNextWritePageIndex := Function.update s.pNextWritePageIndex 0 (p + 1) } := by
        simp [write, h.ioUnitInPage, hone, herased, hvalid, hlpns, deref, hmemErased, hback]
      rw [hrun]
      rw [hvalid] at hv
      rw [herased] at he
      refine .ok ⟨h.idx, h.pageCount, h.ioUnitInPage, congrArg (Function.update · 0 (p + 1)) hnext,
        h.blockAccessCount, h.eraseCount, hlt, fun _ => ⟨hv.insert hp, he.clear, hc, ?_⟩,
        fun hne => absurd hone hne⟩
      refine ⟨_, rfl, fun q => ?_⟩
      by_cases hq : q = p
      · simp [hq]
      · simp [hq, hl]

theorem write_unit_same (h : s.Stores b) (hp : p < b.pageCount) (hi : i < b.ioUnitInPage)
    (hone : b.ioUnitInPage ≠ 1) : Same Stores (s.write p lpn i tick) (b.write p lpn i) := by
  have hnext := h.pNextWritePageIndex
  have hlt := h.insert_lt p hi
  rw [Block.write, if_neg (not_not.mpr hi)]
  have hs := h.units hone
  obtain ⟨lpns, hlpns, hl⟩ := hs.lpns
  obtain ⟨erased, hatErased, hgetErased, -, hmem⟩ := hs.erased.pageBits hp
  obtain ⟨valid, hatValid, hgetValid, -⟩ := hs.valid.pageBits hp
  have htest : erased.test i = true ↔ (p, i) ∈ b.erasedBits := by simp [Bitset.test, hmem]
  split
  · next hnot =>
    rw [← htest] at hnot
    have hrun :
        s.write p lpn i tick = .error (.panic "Block::write" "Write to non erased page") := by
      simp [write, h.ioUnitInPage, hone, hi, hatErased, hnot, Except.ok_bind]
    rw [hrun]
    exact .error _
  · next hmemErased =>
    rw [not_not, ← htest] at hmemErased
    split
    · next hback =>
      rw [← hnext] at hback
      have hrun : s.write p lpn i tick =
          .error (.panic "Block::write" "Write to block should sequential") := by
        simp [write, h.ioUnitInPage, hone, hi, hatErased, hmemErased, hback, Except.ok_bind]
      rw [hrun]
      exact .error _
    · next hback =>
      rw [← hnext] at hback
      have hrun : s.write p lpn i tick = .ok { s with
          erasedBits := s.erasedBits.set p (clear erased i)
          validBits := s.validBits.set p (valid.insert i)
          ppLPNs := some (Function.update lpns p (Function.update (lpns p) i lpn))
          lastAccessed := tick
          pNextWritePageIndex := Function.update s.pNextWritePageIndex i (p + 1) } := by
        simp [write, h.ioUnitInPage, hone, hi, hatErased, hatValid, hlpns, deref, hmemErased, hback]
      rw [hrun]
      refine .ok ⟨h.idx, h.pageCount, h.ioUnitInPage, congrArg (Function.update · i (p + 1)) hnext,
        h.blockAccessCount, h.eraseCount, hlt, fun hw => absurd hw hone,
        fun _ => ⟨hs.pValidBits, hs.pErasedBits, hs.pCachedBits, hs.valid.insert hp hi hgetValid,
          hs.erased.clear hp hgetErased, ?_⟩⟩
      refine ⟨_, rfl, fun q j => ?_⟩
      by_cases hq : q = p
      · by_cases hj : j = i
        · simp [hq, hj]
        · simp [hq, hj, hl]
      · simp [hq, hl]

theorem write_same (h : s.Stores b) (hp : p < b.pageCount) (hi : i < b.ioUnitInPage) :
    Same Stores (s.write p lpn i tick) (b.write p lpn i) := by
  by_cases hone : b.ioUnitInPage = 1
  · obtain rfl : i = 0 := by omega
    exact write_page_same h hp hone
  · exact write_unit_same h hp hi hone

end Operations

end StoredBlock

/-- A stored block, and the units that its calls have left valid. -/
structure BlockHistory where
  block : StoredBlock
  live : Finset (Nat × Nat)

namespace BlockHistory

/-- The calls of the FTL. -/
inductive Call where
  | read (pageIndex idx tick : Nat)
  | write (pageIndex lpn idx tick : Nat)
  | erase
  | isCached (pageIndex : Nat)
  | isPageValid (pageIndex : Nat)
  | invalidate (pageIndex idx : Nat)
  | deCache (pageIndex : Nat)
  | copy
  | moved

def new (blockIdx count ioUnit : Nat) : Except Fault BlockHistory :=
  (StoredBlock.new blockIdx count ioUnit).map fun block => ⟨block, ∅⟩

/-- One call. -/
def exec (s : BlockHistory) : Call → Except Fault BlockHistory
  | .read p i tick => (s.block.read p i tick).map fun r => ⟨r.2, s.live⟩
  | .write p lpn i tick =>
    (s.block.write p lpn i tick).map fun block => ⟨block, insert (p, i) s.live⟩
  | .erase => s.block.erase.map fun block => ⟨block, ∅⟩
  | .isCached p => (s.block.isCached p).map fun _ => s
  | .isPageValid p => (s.block.isPageValid p).map fun _ => s
  | .invalidate p i => (s.block.invalidate p i).map fun block => ⟨block, s.live.erase (p, i)⟩
  | .deCache p => (s.block.deCache p).map fun block => ⟨block, s.live⟩
  | .copy => s.block.copy.map fun block => ⟨block, s.live⟩
  | .moved => .ok ⟨s.block.moved, s.live⟩

/-- The page and the unit of a call exist. -/
def InRange (s : BlockHistory) : Call → Prop
  | .read p i _ => p < s.block.pageCount ∧ i < s.block.ioUnitInPage
  | .write p _ i _ => p < s.block.pageCount ∧ i < s.block.ioUnitInPage
  | .isCached p => p < s.block.pageCount
  | .isPageValid p => p < s.block.pageCount
  | .invalidate p i => p < s.block.pageCount ∧ i < s.block.ioUnitInPage
  | .deCache p => p < s.block.pageCount
  | _ => True

instance (s : BlockHistory) (c : Call) : Decidable (s.InRange c) := by
  cases c <;> unfold InRange <;> infer_instance

/-- The call follows no null pointer, and `isPageValid` tells whether some unit is valid. -/
def Total (s : BlockHistory) (c : Call) : Prop :=
  (∀ name, s.exec c ≠ .error (.badAccess name)) ∧
    match c with
    | .isPageValid p => ∃ valid, s.block.isPageValid p = .ok valid ∧
        (valid = true ↔ ∃ i, i < s.block.ioUnitInPage ∧ (p, i) ∈ s.live)
    | _ => True

/-- A call that needs the bits of the first layout meets a block with one unit per page. -/
def HasBits (s : BlockHistory) : Call → Prop
  | .read _ _ _ => s.block.ioUnitInPage = 1
  | .isCached _ => s.block.ioUnitInPage = 1
  | .isPageValid _ => s.block.ioUnitInPage = 1
  | .deCache _ => s.block.ioUnitInPage = 1
  | _ => True

instance (s : BlockHistory) (c : Call) : Decidable (s.HasBits c) := by
  cases c <;> unfold HasBits <;> infer_instance

/-- The block that is stored has the units valid that the calls have left valid. -/
structure Stored (s : BlockHistory) (b : Block) : Prop where
  stores : s.block.Stores b
  live : b.validBits = s.live
  unit : 1 ≤ b.ioUnitInPage

section Calls

variable {s s' : BlockHistory} {c : Call} {b : Block}

theorem new_stored {k n u : Nat} (hu : 1 ≤ u) :
    ∃ s, new k n u = .ok s ∧ s.Stored (Block.new k n u) := by
  obtain ⟨block, hnew, hstores⟩ := StoredBlock.new_stores (k := k) (c := n) hu
  exact ⟨⟨block, ∅⟩, by rw [new, hnew]; rfl, hstores, rfl, hu⟩

theorem exec_stored (h : s.Stored b) (hrange : s.InRange c) (hexec : s.exec c = .ok s') :
    ∃ b', s'.Stored b' := by
  have hpage := h.stores.pageCount
  have hunit := h.stores.ioUnitInPage
  cases c with
  | read p i tick =>
    rw [InRange, hpage, hunit] at hrange
    obtain ⟨r, hread, rfl⟩ := Except.map_eq_ok.mp hexec
    obtain ⟨r', hread', -, hstores⟩ :=
      (StoredBlock.read_same h.stores hrange.1 hrange.2).exists_ok hread
    have hpair : b.read p i = .ok (r'.1, r'.2) := hread'
    obtain ⟨hone, -, -, hblock⟩ := Block.read_spec hpair
    refine ⟨r'.2, hstores, ?_, ?_⟩
    · rw [hblock]
      exact h.live
    · rw [hblock]
      exact h.unit
  | write p lpn i tick =>
    rw [InRange, hpage, hunit] at hrange
    obtain ⟨block, hwrite, rfl⟩ := Except.map_eq_ok.mp hexec
    obtain ⟨b', hwrite', hstores⟩ :=
      (StoredBlock.write_same h.stores hrange.1 hrange.2).exists_ok hwrite
    obtain ⟨-, -, -, -, -, hwidth, hvalid, -⟩ := Block.write_spec hwrite'
    exact ⟨b', hstores, by rw [hvalid, h.live], hwidth ▸ h.unit⟩
  | erase =>
    obtain ⟨block, herase, rfl⟩ := Except.map_eq_ok.mp hexec
    obtain ⟨block', herase', hstores⟩ := StoredBlock.erase_stores h.stores
    rw [herase] at herase'
    cases herase'
    exact ⟨b.erase, hstores, rfl, h.unit⟩
  | isCached p =>
    obtain ⟨v, -, rfl⟩ := Except.map_eq_ok.mp hexec
    exact ⟨b, h⟩
  | isPageValid p =>
    obtain ⟨v, -, rfl⟩ := Except.map_eq_ok.mp hexec
    exact ⟨b, h⟩
  | invalidate p i =>
    rw [InRange, hpage, hunit] at hrange
    obtain ⟨block, hinv, rfl⟩ := Except.map_eq_ok.mp hexec
    obtain ⟨block', hinv', hstores⟩ :=
      StoredBlock.invalidate_stores h.stores hrange.1 hrange.2
    rw [hinv] at hinv'
    cases hinv'
    exact ⟨b.invalidate p i, hstores, congrArg (Finset.erase · (p, i)) h.live, h.unit⟩
  | deCache p =>
    obtain ⟨block, hdecache, rfl⟩ := Except.map_eq_ok.mp hexec
    obtain ⟨b', hdecache', hstores⟩ := (StoredBlock.deCache_same h.stores).exists_ok hdecache
    rw [Block.deCache] at hdecache'
    split at hdecache'
    · cases hdecache'
      exact ⟨_, hstores, h.live, h.unit⟩
    · cases hdecache'
  | copy =>
    obtain ⟨block, hcopy, rfl⟩ := Except.map_eq_ok.mp hexec
    obtain ⟨block', hcopy', hstores⟩ := StoredBlock.copy_stores h.unit h.stores
    rw [hcopy] at hcopy'
    cases hcopy'
    exact ⟨_, hstores, h.live, h.unit⟩
  | moved =>
    cases hexec
    exact ⟨b, h⟩

/-- A call that only reads its outcome off the block stops where the block's does. -/
theorem map_ne_badAccess {α β : Type} {x : Except Fault α} {f : α → β} {name : String}
    (h : ∀ e, x = .error e → e ≠ .badAccess name) : x.map f ≠ .error (.badAccess name) := by
  cases x with
  | ok a => simp [Except.map]
  | error e =>
    intro heq
    exact h e rfl (Except.error.inj heq)

theorem total_of_hasBits (h : s.Stored b) (hrange : s.InRange c) (hbits : s.HasBits c) :
    s.Total c := by
  have hpage := h.stores.pageCount
  have hunit := h.stores.ioUnitInPage
  cases c with
  | read p i tick =>
    rw [InRange, hpage, hunit] at hrange
    refine ⟨fun name => map_ne_badAccess fun e he => ?_, trivial⟩
    have he' := (StoredBlock.read_same h.stores hrange.1 hrange.2).error_iff.mp he
    rw [Block.read, if_neg (not_not.mpr hrange.2), if_neg (not_not.mpr (hunit ▸ hbits))] at he'
    cases he'
  | write p lpn i tick =>
    rw [InRange, hpage, hunit] at hrange
    refine ⟨fun name => map_ne_badAccess fun e he => ?_, trivial⟩
    have he' := (StoredBlock.write_same h.stores hrange.1 hrange.2).error_iff.mp he
    rw [Block.write] at he'
    rintro rfl
    split at he'
    · cases he'
    · split at he'
      · cases he'
      · split at he' <;> cases he'
  | erase =>
    obtain ⟨block, herase, -⟩ := StoredBlock.erase_stores h.stores
    exact ⟨by simp [exec, herase, Except.map], trivial⟩
  | isCached p =>
    refine ⟨fun name => map_ne_badAccess fun e he => ?_, trivial⟩
    have he' := (StoredBlock.isCached_same h.stores).error_iff.mp he
    rw [Block.isCached, if_pos (hunit ▸ hbits)] at he'
    cases he'
  | isPageValid p =>
    have hone : b.ioUnitInPage = 1 := hunit ▸ hbits
    have hsame := StoredBlock.isPageValid_same (p := p) h.stores
    rw [Block.isPageValid, if_pos hone] at hsame
    cases hrun : s.block.isPageValid p with
    | error e =>
      have he := hsame.error_iff.mp hrun
      cases he
    | ok valid =>
      obtain ⟨v, hv, rfl⟩ := hsame.exists_ok hrun
      refine ⟨by simp [exec, hrun, Except.map], valid, hrun, ?_⟩
      rw [← Except.ok.inj hv, decide_eq_true_eq, h.live, hunit, hone]
      constructor
      · exact fun hmem => ⟨0, Nat.zero_lt_one, hmem⟩
      · rintro ⟨i, hi, hmem⟩
        obtain rfl : i = 0 := by omega
        exact hmem
  | invalidate p i =>
    rw [InRange, hpage, hunit] at hrange
    obtain ⟨block, hinv, -⟩ := StoredBlock.invalidate_stores h.stores hrange.1 hrange.2
    exact ⟨by simp [exec, hinv, Except.map], trivial⟩
  | deCache p =>
    refine ⟨fun name => map_ne_badAccess fun e he => ?_, trivial⟩
    have he' := (StoredBlock.deCache_same h.stores).error_iff.mp he
    rw [Block.deCache, if_pos (hunit ▸ hbits)] at he'
    cases he'
  | copy =>
    obtain ⟨block, hcopy, -⟩ := StoredBlock.copy_stores h.unit h.stores
    exact ⟨by simp [exec, hcopy, Except.map], trivial⟩
  | moved => exact ⟨by simp [exec], trivial⟩

/-- With more units per page the bits are behind a null pointer. -/
theorem hasBits_of_total (h : s.Stored b) (hrange : s.InRange c) (htotal : s.Total c) :
    s.HasBits c := by
  have hpage := h.stores.pageCount
  have hunit := h.stores.ioUnitInPage
  have hfault := htotal.1
  by_contra hbits
  cases c with
  | read p i tick =>
    rw [InRange, hpage, hunit] at hrange
    have hsame : Except.Same _ (s.block.read p i tick) (b.read p i) :=
      StoredBlock.read_same h.stores hrange.1 hrange.2
    have hread := hsame.error_iff.mpr
      (by rw [Block.read, if_neg (not_not.mpr hrange.2), if_pos (hunit ▸ hbits)])
    exact hfault _ (by rw [exec, hread]; rfl)
  | isCached p =>
    have hrun := (StoredBlock.isCached_same (p := p) h.stores).error_iff.mpr
      (by rw [Block.isCached, if_neg (hunit ▸ hbits)])
    exact hfault _ (by rw [exec, hrun]; rfl)
  | isPageValid p =>
    have hrun := (StoredBlock.isPageValid_same (p := p) h.stores).error_iff.mpr
      (by rw [Block.isPageValid, if_neg (hunit ▸ hbits)])
    exact hfault _ (by rw [exec, hrun]; rfl)
  | deCache p =>
    have hrun := (StoredBlock.deCache_same (p := p) h.stores).error_iff.mpr
      (by rw [Block.deCache, if_neg (hunit ▸ hbits)])
    exact hfault _ (by rw [exec, hrun]; rfl)
  | _ => exact hbits trivial

theorem no_badAccess {calls : List Call} {name : String} (h : Run.Along exec Total s calls) :
    calls.foldlM exec s ≠ .error (.badAccess name) := by
  intro hrun
  have hsat := Run.Along.sat (I := fun _ => True) (E := fun e => e ≠ .badAccess name)
    (fun s c _ hc => Except.sat_iff.mpr ⟨fun _ _ => trivial, fun e he => ?_⟩) h trivial
  · exact hsat.of_error hrun rfl
  · rintro rfl
    exact hc.1 name he

end Calls

/-- Along every run no call follows a null pointer, and `isPageValid` is right, exactly as long as
the calls that need the bits of the first layout are made on blocks with one unit per page. -/
theorem run_total_iff {blockIdx count ioUnit : Nat} (hunit : 1 ≤ ioUnit) {s : BlockHistory}
    (hs : new blockIdx count ioUnit = .ok s) {calls : List Call}
    (hrange : Run.Along exec InRange s calls) :
    Run.Along exec Total s calls ↔ Run.Along exec HasBits s calls := by
  obtain ⟨s₀, hnew, hstored⟩ := new_stored (k := blockIdx) (n := count) hunit
  rw [hs] at hnew
  cases hnew
  refine hrange.iff (I := fun s => ∃ b, s.Stored b) ⟨_, hstored⟩ (fun s c hs hc _ => ?_)
    fun s c hs hc => ?_
  · obtain ⟨b, hb⟩ := hs
    exact Except.all_iff.mpr fun s' hexec => exec_stored hb hc hexec
  · obtain ⟨b, hb⟩ := hs
    exact ⟨hasBits_of_total hb hc, total_of_hasBits hb hc⟩

/-- Two units of a page are programmed, and one is invalidated. -/
def halfValid : List Call := [.write 0 7 0 0, .write 0 8 1 0, .invalidate 0 1, .isPageValid 0]

theorem run_total_iff_halfValid : ∃ s, new 0 4 2 = .ok s ∧
    (Run.Along exec Total s halfValid ↔ Run.Along exec HasBits s halfValid) := by
  refine ⟨_, rfl, ?_⟩
  exact run_total_iff (show 1 ≤ 2 by decide) rfl (by decide)

/-- The page holds a valid unit, and asking for it follows a null pointer. -/
theorem not_total_halfValid : ∃ s, new 0 4 2 = .ok s ∧ Run.Along exec InRange s halfValid ∧
    ¬ Run.Along exec Total s halfValid ∧
    halfValid.foldlM exec s = .error (.badAccess "pValidBits") := by
  refine ⟨_, rfl, by decide, ?_, rfl⟩
  exact fun h => no_badAccess h rfl

end BlockHistory

end SimpleSSD.FTL
