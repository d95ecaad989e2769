import Mathlib.Data.Finset.Prod
import Mathlib.Data.Finset.Image
import Mathlib.Data.Finset.Lattice.Fold
import Mathlib.Logic.Function.Basic
import Mathlib.Order.Lattice.Nat
import SimpleSSD.Util.Def

/-!
# Flash blocks (ftl/common/block.cc)

A block holds `pageCount` pages of `ioUnitInPage` I/O units each. The model
keeps the per-unit bits as sets of pairs (page, unit). With `ioUnitInPage = 1`
the source stores the pairs `(page, 0)` in `pValidBits`, `pErasedBits` and
`pLPNs`; with more units it stores them in `validBits`, `erasedBits` and
`ppLPNs`. `pCachedBits` exists only in the first case, and so does the pointer
`pValidBits` that `isPageValid` follows.

The fields `valid_lt`, `next_le`, `erased_mem` and `erased_of_le` are kept by
every operation below: a unit is valid only behind the write pointer of its
column, and everything from the write pointer on is still erased.

The tick of the last access (`lastAccessed`) is not kept; it enters only the
cost-benefit weight, where the environment supplies the age of a block.
-/

namespace SimpleSSD.FTL

structure Block where
  idx : Nat
  pageCount : Nat
  ioUnitInPage : Nat
  pNextWritePageIndex : Nat → Nat
  validBits : Finset (Nat × Nat)
  erasedBits : Finset (Nat × Nat)
  pCachedBits : Finset Nat
  lpns : Nat × Nat → Nat
  blockAccessCount : Nat
  eraseCount : Nat
  valid_lt : ∀ u ∈ validBits, u.1 < pNextWritePageIndex u.2
  next_le : ∀ i, pNextWritePageIndex i ≤ pageCount
  erased_mem : ∀ u ∈ erasedBits, u.1 < pageCount ∧ u.2 < ioUnitInPage
  erased_of_le : ∀ p i, p < pageCount → i < ioUnitInPage → pNextWritePageIndex i ≤ p →
    (p, i) ∈ erasedBits

namespace Block

/-- The constructor (block.cc:31–74): everything erased, nothing cached. -/
def new (blockIdx count ioUnit : Nat) : Block where
  idx := blockIdx
  pageCount := count
  ioUnitInPage := ioUnit
  pNextWritePageIndex := fun _ => 0
  validBits := ∅
  erasedBits := Finset.range count ×ˢ Finset.range ioUnit
  pCachedBits := ∅
  lpns := fun _ => 0
  blockAccessCount := 0
  eraseCount := 0
  valid_lt := by simp
  next_le := by simp
  erased_mem := by simp
  erased_of_le := by
    intro p i hp hi _
    simp [hp, hi]

/-- `getValidPageCount` (block.cc:216–231): pages with at least one valid unit. -/
def getValidPageCount (b : Block) : Nat := (b.validBits.image Prod.fst).card

/-- `getValidPageCountRaw` (block.cc:233–247): valid units. -/
def getValidPageCountRaw (b : Block) : Nat := b.validBits.card

/-- `getNextWritePageIndex()` (block.cc:267–277): the furthest column. -/
def getNextWritePageIndex (b : Block) : Nat :=
  (Finset.range b.ioUnitInPage).sup b.pNextWritePageIndex

/-- `getCachedPageCount` (block.cc:282–287). -/
def getCachedPageCount (b : Block) : Nat := if b.ioUnitInPage = 1 then b.pCachedBits.card else 0

/-- `getPageInfo` (block.cc:289–305): the LPNs of a page and the units to
move. With one unit per page the map is set whether or not the page is valid. -/
def getPageInfo (b : Block) (pageIndex : Nat) (map : Bitset) :
    Except Fault (List Nat × Bitset) :=
  if b.ioUnitInPage = 1 ∧ map.dataSize = 1 then
    .ok ([b.lpns (pageIndex, 0)], map.setAll)
  else if map.dataSize = b.ioUnitInPage then
    .ok ((List.range b.ioUnitInPage).map fun i => b.lpns (pageIndex, i),
      ⟨b.ioUnitInPage, {i ∈ Finset.range b.ioUnitInPage | (pageIndex, i) ∈ b.validBits},
        fun _ h => Finset.mem_range.mp (Finset.mem_filter.mp h).1⟩)
  else .error (.panic "Block::getPageInfo" "I/O map size mismatch")

/-- `isCached` (block.cc:395–401). -/
def isCached (b : Block) (pageIndex : Nat) : Except Fault Bool :=
  if b.ioUnitInPage = 1 then .ok (pageIndex ∈ b.pCachedBits)
  else .error (.badAccess "pCachedBits")

/-- `isPageValid` (block.cc:402–406). -/
def isPageValid (b : Block) (pageIndex : Nat) : Except Fault Bool :=
  if b.ioUnitInPage = 1 then .ok ((pageIndex, 0) ∈ b.validBits)
  else .error (.badAccess "pValidBits")

/-- `read` (block.cc:307–327): whether the unit is valid, and the block with the
page marked as cached. -/
def read (b : Block) (pageIndex idx : Nat) : Except Fault (Bool × Block) :=
  if ¬ idx < b.ioUnitInPage then .error (.panic "Block::read" "I/O map size mismatch")
  else if b.ioUnitInPage ≠ 1 then .error (.badAccess "pCachedBits")
  else .ok ((pageIndex, idx) ∈ b.validBits,
    { b with
      pCachedBits := insert pageIndex b.pCachedBits
      blockAccessCount := b.blockAccessCount + 1 })

/-- `write` (block.cc:332–374): programs an erased unit at or behind the end of
its column. -/
def write (b : Block) (pageIndex lpn idx : Nat) : Except Fault Block :=
  if ¬ idx < b.ioUnitInPage then .error (.panic "Block::write" "I/O map size mismatch")
  else if he : (pageIndex, idx) ∉ b.erasedBits then
    .error (.panic "Block::write" "Write to non erased page")
  else if hs : pageIndex < b.pNextWritePageIndex idx then
    .error (.panic "Block::write" "Write to block should sequential")
  else .ok
    { b with
      validBits := insert (pageIndex, idx) b.validBits
      erasedBits := b.erasedBits.erase (pageIndex, idx)
      lpns := Function.update b.lpns (pageIndex, idx) lpn
      pNextWritePageIndex := Function.update b.pNextWritePageIndex idx (pageIndex + 1)
      valid_lt := by
        rintro ⟨p, i⟩ hu
        rcases Finset.mem_insert.mp hu with h | h
        · cases h
          simp
        · have hlt := b.valid_lt (p, i) h
          by_cases hi : i = idx
          · subst hi
            simp only [Function.update_self]
            simp only at hlt
            omega
          · simpa [Function.update_of_ne hi] using hlt
      next_le := by
        intro i
        by_cases hi : i = idx
        · subst hi
          rw [Function.update_self]
          exact (b.erased_mem _ (not_not.mp he)).1
        · simpa [Function.update_of_ne hi] using b.next_le i
      erased_mem := fun u hu => b.erased_mem u (Finset.mem_of_mem_erase hu)
      erased_of_le := by
        intro p i hp hi hle
        by_cases h : i = idx
        · subst h
          rw [Function.update_self] at hle
          refine Finset.mem_erase.mpr ⟨?_, b.erased_of_le p i hp hi (by omega)⟩
          simp only [ne_eq, Prod.mk.injEq, and_true]
          omega
        · rw [Function.update_of_ne h] at hle
          exact Finset.mem_erase.mpr ⟨by simp [h], b.erased_of_le p i hp hi hle⟩ }

/-- `erase` (block.cc:376–394). The cached bits stay as they are. -/
def erase (b : Block) : Block :=
  { b with
    validBits := ∅
    erasedBits := Finset.range b.pageCount ×ˢ Finset.range b.ioUnitInPage
    pNextWritePageIndex := fun _ => 0
    blockAccessCount := 0
    eraseCount := b.eraseCount + 1
    valid_lt := by simp
    next_le := by simp
    erased_mem := by simp
    erased_of_le := by
      intro p i hp hi _
      simp [hp, hi] }

/-- `invalidate` (block.cc:408–418). -/
def invalidate (b : Block) (pageIndex idx : Nat) : Block :=
  { b with
    validBits := b.validBits.erase (pageIndex, idx)
    blockAccessCount := b.blockAccessCount + 1
    valid_lt := fun u hu => b.valid_lt u (Finset.mem_of_mem_erase hu) }

/-- `deCache` (block.cc:420–426). -/
def deCache (b : Block) (pageIndex : Nat) : Except Fault Block :=
  if b.ioUnitInPage = 1 then .ok { b with pCachedBits := b.pCachedBits.erase pageIndex }
  else .error (.badAccess "pCachedBits")

/-! ### What the operations change -/

section Frame

variable {b b' : Block} {p i lpn : Nat}

@[simp] theorem new_idx (k n u : Nat) : (new k n u).idx = k := rfl
@[simp] theorem erase_idx : b.erase.idx = b.idx := rfl
@[simp] theorem invalidate_idx : (b.invalidate p i).idx = b.idx := rfl

/-- `read` succeeds only with one unit per page, and touches no unit. -/
theorem read_spec {v : Bool} (h : b.read p i = .ok (v, b')) :
    b.ioUnitInPage = 1 ∧ i < b.ioUnitInPage ∧ v = decide ((p, i) ∈ b.validBits) ∧
      b' = { b with
        pCachedBits := insert p b.pCachedBits
        blockAccessCount := b.blockAccessCount + 1 } := by
  rw [read] at h
  split at h
  · cases h
  · split at h
    · cases h
    · next hi hu =>
      injection h with h
      rw [Prod.mk.injEq] at h
      exact ⟨not_not.mp hu, not_not.mp hi, h.1.symm, h.2.symm⟩

/-- A successful `write` programs exactly one unit, at or behind the write
pointer of its column. -/
theorem write_spec (h : b.write p lpn i = .ok b') :
    i < b.ioUnitInPage ∧ (p, i) ∈ b.erasedBits ∧ b.pNextWritePageIndex i ≤ p ∧
      b'.idx = b.idx ∧ b'.pageCount = b.pageCount ∧ b'.ioUnitInPage = b.ioUnitInPage ∧
      b'.validBits = insert (p, i) b.validBits ∧
      b'.lpns = Function.update b.lpns (p, i) lpn ∧
      b'.pNextWritePageIndex = Function.update b.pNextWritePageIndex i (p + 1) ∧
      b'.pCachedBits = b.pCachedBits ∧ b'.eraseCount = b.eraseCount := by
  rw [write] at h
  split at h
  · cases h
  · next hi =>
    split at h
    · cases h
    · next he =>
      split at h
      · cases h
      · next hs =>
        injection h with h
        subst h
        exact ⟨not_not.mp hi, not_not.mp he, not_lt.mp hs, rfl, rfl, rfl, rfl, rfl, rfl, rfl, rfl⟩

/-- Programming at the write pointer of a column that is not full succeeds. -/
theorem write_next (hi : i < b.ioUnitInPage) (hn : b.pNextWritePageIndex i < b.pageCount) :
    ∃ b', b.write (b.pNextWritePageIndex i) lpn i = .ok b' := by
  have he := b.erased_of_le _ i hn hi le_rfl
  rw [write, if_neg (not_not.mpr hi), dif_neg (not_not.mpr he), dif_neg (lt_irrefl _)]
  exact ⟨_, rfl⟩

/-- The furthest column bounds each column. -/
theorem next_le_getNextWritePageIndex (hi : i < b.ioUnitInPage) :
    b.pNextWritePageIndex i ≤ b.getNextWritePageIndex :=
  Finset.le_sup (f := b.pNextWritePageIndex) (Finset.mem_range.mpr hi)

theorem getNextWritePageIndex_le : b.getNextWritePageIndex ≤ b.pageCount :=
  Finset.sup_le fun i _ => b.next_le i

/-- With one unit per page there is one column. -/
theorem getNextWritePageIndex_one (h : b.ioUnitInPage = 1) :
    b.getNextWritePageIndex = b.pNextWritePageIndex 0 := by
  simp [getNextWritePageIndex, h]

end Frame

end Block

end SimpleSSD.FTL
