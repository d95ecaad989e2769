import Mathlib.Data.Set.Insert
import Mathlib.Logic.Relation
import SimpleSSD.FTL.Content
import SimpleSSD.FTL.Flags

/-!
# The flash array under the FTL

`FlashArray` is a flash device as its discipline sees it: which blocks are in
use, which units of them have been programmed since the last erase, and the
device calls so far. A page is programmed in the `Block` metadata first and its
flash write follows later, so the array queues the writes that are due.
`FlashArray.Step` has one rule for each thing that may happen to it; the guards
of the rules are the discipline.

`PageMapping.flash` is the array that the metadata of an FTL describe. The
lemmas here say which steps the operations on the block pool are.
-/

namespace SimpleSSD.FTL

/-- The mapping units that a flash request stands for: the flagged ones with the
random-I/O tweak, the page as a whole without it. -/
def Config.units (cfg : Config) (r : PAL.Request) : Set ((Nat × Nat) × Nat) :=
  {x | x.1 = (r.blockIndex, r.pageIndex) ∧ x.2 < cfg.bitsetSize ∧
    (cfg.randomIOTweak = true → r.ioFlag.test x.2 = true)}

structure FlashArray where
  inUse : Set Nat
  /-- The units programmed since the last erase of their block. -/
  programmed : Set ((Nat × Nat) × Nat)
  /-- Writes of pages that are programmed in the metadata and not yet on flash. -/
  due : List PAL.Request
  trace : List Event

namespace FlashArray

/-- One step under the discipline. -/
inductive Step (cfg : Config) : FlashArray → FlashArray → Prop where
  /-- A device call that does not go to the flash. -/
  | other (a : FlashArray) (e : Event) (he : e.palRequest = none) :
      Step cfg a { a with trace := e :: a.trace }
  | openBlock (a : FlashArray) (k : Nat) (hk : k < cfg.totalPhysicalBlocks) (hfree : k ∉ a.inUse) :
      Step cfg a { a with inUse := insert k a.inUse }
  /-- Units of a block in use that are still erased are programmed in the metadata. -/
  | program (a : FlashArray) (r : PAL.Request) (hused : r.blockIndex ∈ a.inUse)
      (hunits : (cfg.units r).Nonempty) (hfresh : ∀ x ∈ cfg.units r, x ∉ a.programmed) :
      Step cfg a { a with programmed := a.programmed ∪ cfg.units r, due := a.due ++ [r] }
  | read (a : FlashArray) (r : PAL.Request) (hrange : cfg.InRange (r.blockIndex, r.pageIndex))
      (hused : r.blockIndex ∈ a.inUse) (hunits : (cfg.units r).Nonempty)
      (hread : cfg.units r ⊆ a.programmed) :
      Step cfg a { a with trace := .palRead r :: a.trace }
  /-- The write that has been due longest goes to the flash. -/
  | write (a : FlashArray) (r : PAL.Request) (rest : List PAL.Request) (hdue : a.due = r :: rest)
      (hrange : cfg.InRange (r.blockIndex, r.pageIndex)) (hused : r.blockIndex ∈ a.inUse)
      (hprogrammed : cfg.units r ⊆ a.programmed) :
      Step cfg a { a with due := rest, trace := .palWrite r :: a.trace }
  /-- A block is erased when no write is due. -/
  | erase (a : FlashArray) (r : PAL.Request) (hrange : cfg.InRange (r.blockIndex, r.pageIndex))
      (hused : r.blockIndex ∈ a.inUse) (hdue : a.due = []) :
      Step cfg a { a with
        inUse := {k ∈ a.inUse | k ≠ r.blockIndex}
        programmed := {x ∈ a.programmed | x.1.1 ≠ r.blockIndex}
        trace := .palErase r :: a.trace }

/-- Any number of steps. -/
abbrev Path (cfg : Config) : FlashArray → FlashArray → Prop := Relation.ReflTransGen (Step cfg)

section Path

variable {cfg : Config} {a b : FlashArray}

/-- Under the discipline every flash request is in range. -/
theorem Path.inRange (h : Path cfg a b)
    (ha : ∀ e ∈ a.trace, ∀ r ∈ e.palRequest, cfg.InRange (r.blockIndex, r.pageIndex)) :
    ∀ e ∈ b.trace, ∀ r ∈ e.palRequest, cfg.InRange (r.blockIndex, r.pageIndex) := by
  induction h with
  | refl => exact ha
  | tail _ hstep ih =>
    cases hstep with
    | other e he =>
      intro e' he' r hr
      rcases List.mem_cons.mp he' with rfl | he'
      · rw [he] at hr
        cases hr
      · exact ih e' he' r hr
    | openBlock | program => exact ih
    | read r₀ hrange | write r₀ _ _ hrange | erase r₀ hrange =>
      intro e' he' r hr
      rcases List.mem_cons.mp he' with rfl | he'
      · cases hr
        exact hrange
      · exact ih e' he' r hr

/-- The writes that are due go to the flash in their order. -/
theorem Path.flush (hdue : ∀ r ∈ a.due, cfg.InRange (r.blockIndex, r.pageIndex) ∧
      r.blockIndex ∈ a.inUse ∧ cfg.units r ⊆ a.programmed) :
    Path cfg a { a with due := [], trace := (a.due.map .palWrite).reverse ++ a.trace } := by
  obtain ⟨inUse, programmed, due, trace⟩ := a
  induction due generalizing trace with
  | nil => exact .refl
  | cons r due ih =>
    obtain ⟨hrange, hused, hsub⟩ := hdue r List.mem_cons_self
    have hwrite : Step cfg ⟨inUse, programmed, r :: due, trace⟩
        ⟨inUse, programmed, due, .palWrite r :: trace⟩ := .write _ r due rfl hrange hused hsub
    refine .head hwrite ?_
    simpa using ih (.palWrite r :: trace) fun r' hr' => hdue r' (List.mem_cons_of_mem r hr')

/-- A batch of reads. -/
theorem Path.reads {l : List PAL.Request} (hl : ∀ r ∈ l, cfg.InRange (r.blockIndex, r.pageIndex) ∧
      r.blockIndex ∈ a.inUse ∧ (cfg.units r).Nonempty ∧ cfg.units r ⊆ a.programmed) :
    Path cfg a { a with trace := (l.map .palRead).reverse ++ a.trace } := by
  induction l generalizing a with
  | nil => exact .refl
  | cons r l ih =>
    obtain ⟨hrange, hused, hunits, hsub⟩ := hl r List.mem_cons_self
    refine .head (.read a r hrange hused hunits hsub) ?_
    simpa using ih (a := { a with trace := .palRead r :: a.trace })
      fun r' hr' => hl r' (List.mem_cons_of_mem r hr')

/-- A batch of device calls that do not go to the flash. -/
theorem Path.others {l : List Event} (hl : ∀ e ∈ l, e.palRequest = none) :
    Path cfg a { a with trace := l ++ a.trace } := by
  induction l with
  | nil => exact .refl
  | cons e l ih =>
    exact .tail (ih fun e' he' => hl e' (List.mem_cons_of_mem e he'))
      (.other { a with trace := l ++ a.trace } e (hl e List.mem_cons_self))

end Path

end FlashArray

namespace BlockPool

/-- The units behind the write pointers of the blocks in use. -/
def programmed (cfg : Config) (p : BlockPool) : Set ((Nat × Nat) × Nat) :=
  {x | x.2 < cfg.bitsetSize ∧
    ∃ b, p.blocks.find? x.1.1 = some b ∧ x.1.2 < b.pNextWritePageIndex x.2}

/-- The flash array that the block metadata describe. -/
def flash (cfg : Config) (p : BlockPool) (due : List PAL.Request) (trace : List Event) :
    FlashArray where
  inUse := {k | k ∈ p.blocks}
  programmed := p.programmed cfg
  due := due
  trace := trace

section Flash

variable {cfg : Config} {env : Env} {p p' : BlockPool} {b b' : Block} {k i : Nat}
  {due : List PAL.Request} {trace : List Event}

/-- The array depends on the blocks in use only. -/
theorem flash_congr (h : p'.blocks = p.blocks) :
    p'.flash cfg due trace = p.flash cfg due trace := by
  simp only [flash, programmed, h]

theorem inRange_of_programmed (hp : p.WellFormed cfg) {x : (Nat × Nat) × Nat}
    (hx : x ∈ p.programmed cfg) : cfg.InRange x.1 := by
  obtain ⟨-, b, hb, hlt⟩ := hx
  refine ⟨hp.lt_of_mem (UnorderedMap.mem_of_find? hb), ?_⟩
  have hnext := b.next_le x.2
  rw [(hp.used _ _ hb).1] at hnext
  omega

theorem mem_of_programmed {x : (Nat × Nat) × Nat} (hx : x ∈ p.programmed cfg) :
    x.1.1 ∈ p.blocks := by
  obtain ⟨-, b, hb, -⟩ := hx
  exact UnorderedMap.mem_of_find? hb

/-- A page that stores something has been programmed. -/
theorem programmed_of_content (hsize : 0 < cfg.bitsetSize) {x : Nat × Nat} {l : Nat}
    (h : p.content x = some l) : (x, 0) ∈ p.programmed cfg := by
  rw [content, Option.bind_eq_some_iff] at h
  obtain ⟨b, hb, hl⟩ := h
  refine ⟨hsize, b, hb, ?_⟩
  by_contra hge
  rw [Block.contentAt_of_next_le (not_lt.mp hge)] at hl
  cases hl

/-- An access that is no write programs nothing. -/
theorem flash_touch (due : List PAL.Request) (trace : List Event)
    (hb : p.blocks.find? k = some b) (ht : b.Touch b') :
    (p.putBlock k b').flash cfg due trace = p.flash cfg due trace := by
  have hinUse : ∀ j, j ∈ (p.putBlock k b').blocks ↔ j ∈ p.blocks := by
    intro j
    rw [putBlock, UnorderedMap.mem_set]
    exact ⟨fun h => h.elim (fun h => h ▸ UnorderedMap.mem_of_find? hb) id, .inr⟩
  have hprogrammed : (p.putBlock k b').programmed cfg = p.programmed cfg := by
    ext x
    simp only [programmed, Set.mem_ofPred_eq, putBlock, UnorderedMap.find?_set]
    by_cases hk : x.1.1 = k
    · simp [hk, hb, ht.2]
    · simp [hk]
  simp only [flash, hinUse, hprogrammed]

/-- The metadata describe the array `a`, whatever is due and has been called. -/
def Describes (cfg : Config) (a : FlashArray) (p : BlockPool) : Prop :=
  p.flash cfg a.due a.trace = a

theorem describes_touch (a : FlashArray) : TouchClosed (Describes cfg a) := by
  intro p k b b' hp hb ht
  rw [Describes, flash_touch a.due a.trace hb ht]
  exact hp

/-- Everything in a free block is erased. -/
theorem programmed_takes (hf : p.Formatted cfg) (ht : p.Takes p' b) :
    p'.programmed cfg = p.programmed cfg := by
  have hfree := hf.free b (ht.free.mem_iff.mpr List.mem_cons_self)
  have hnone := UnorderedMap.find?_eq_none_iff.mpr ht.fresh
  ext x
  simp only [programmed, Set.mem_ofPred_eq, ht.find?]
  by_cases hk : x.1.1 = b.idx
  · simp [hk, hfree.2.2.2, hnone]
  · simp [hk]

/-- Taking a free block opens it. -/
theorem step_takes (hp : p.Partitioned cfg) (hf : p.Formatted cfg) (ht : p.Takes p' b) :
    FlashArray.Step cfg (p.flash cfg due trace) (p'.flash cfg due trace) := by
  have hprogrammed := programmed_takes hf ht
  have hinUse : {j | j ∈ p'.blocks} = insert b.idx {j | j ∈ p.blocks} := by
    ext j
    simp only [Set.mem_ofPred_eq, Set.mem_insert_iff, UnorderedMap.mem_iff_find?, ht.find?]
    by_cases hj : j = b.idx <;> simp [hj]
  have hstep := FlashArray.Step.openBlock (p.flash cfg due trace) b.idx (hp.lt_of_takes ht) ht.fresh
  simpa only [flash, hprogrammed, hinUse] using hstep

/-- `getLastFreeBlock` only opens blocks. -/
theorem path_getLastFreeBlock {iomap : Bitset} (due : List PAL.Request) (trace : List Event)
    (hp : p.WellFormed cfg)
    (h : p.getLastFreeBlock cfg env iomap = .ok (k, p')) :
    FlashArray.Path cfg (p.flash cfg due trace) (p'.flash cfg due trace) ∧
      p'.programmed cfg = p.programmed cfg := by
  have hall : (FlashArray.Path cfg (p.flash cfg due trace) (p'.flash cfg due trace) ∧
      p'.programmed cfg = p.programmed cfg) ∧ p'.Partitioned cfg ∧ p'.Formatted cfg := by
    refine getLastFreeBlock_rule (P := fun q =>
      (FlashArray.Path cfg (p.flash cfg due trace) (q.flash cfg due trace) ∧
        q.programmed cfg = p.programmed cfg) ∧ q.Partitioned cfg ∧ q.Formatted cfg)
      (fun hq => ?_) (fun {q q' b} hq ht => ?_) ⟨⟨.refl, rfl⟩, hp.toPartitioned, hp.toFormatted⟩ h
    · exact ⟨hq.1, hq.2.1.congr rfl rfl rfl rfl, hq.2.2.congr rfl rfl⟩
    · obtain ⟨⟨hpath, hprogrammed⟩, hpart, hform⟩ := hq
      exact
        ⟨⟨hpath.tail (step_takes hpart hform ht), (programmed_takes hform ht).trans hprogrammed⟩,
        hpart.takes ht, hform.takes ht⟩
  exact hall.1

/-- With the tweak the request for a flagged unit stands for this unit, without it a
page has one unit. -/
theorem units_palFlag {flag : Bitset} (page : Nat × Nat) (hi : i < cfg.bitsetSize)
    (hflag : cfg.randomIOTweak = true → flag.test i = true) :
    cfg.units ⟨page.1, page.2, palFlag cfg flag i⟩ = {(page, i)} := by
  ext ⟨page', j⟩
  simp only [Config.units, Set.mem_ofPred_eq, Set.mem_singleton_iff, Prod.mk.injEq]
  by_cases htweak : cfg.randomIOTweak = true
  · have hlt : i < flag.dataSize := flag.bits_lt i (by simpa [Bitset.test] using hflag htweak)
    have hbit : (palFlag cfg flag i).test j = true ↔ j = i := by
      simp only [palFlag, htweak, Bitset.test, Bitset.single, if_true, decide_eq_true_eq,
        Finset.mem_filter, Finset.mem_range]
      exact ⟨fun h => h.2, fun h => ⟨h ▸ hlt, h⟩⟩
    rw [hbit]
    exact ⟨fun h => ⟨h.1, h.2.2 htweak⟩, fun h => ⟨h.1, h.2 ▸ hi, fun _ => h.2⟩⟩
  · have hone : cfg.bitsetSize = 1 := by simp [Config.bitsetSize, htweak]
    rw [hone] at hi ⊢
    exact ⟨fun h => ⟨h.1, by omega⟩, fun h => ⟨h.1, by omega, fun h => absurd h htweak⟩⟩

/-- With one mapping a page, a request whose flag has the unit stands for the page. -/
theorem units_one {flag : Bitset} (page : Nat × Nat) (hone : cfg.bitsetSize = 1)
    (hflag : cfg.randomIOTweak = true → flag.test 0 = true) :
    cfg.units ⟨page.1, page.2, flag⟩ = {(page, 0)} := by
  ext ⟨page', j⟩
  simp only [Config.units, Set.mem_ofPred_eq, Set.mem_singleton_iff, Prod.mk.injEq, hone,
    Nat.lt_one_iff]
  constructor
  · exact fun h => ⟨h.1, h.2.1⟩
  · rintro ⟨rfl, rfl⟩
    exact ⟨rfl, rfl, hflag⟩

/-- The column of a unit grows by the page at its write pointer. -/
theorem programmed_write {lpn : Nat} (hb : p.blocks.find? k = some b)
    (hwrite : b.write (b.pNextWritePageIndex i) lpn i = .ok b') (hi : i < cfg.bitsetSize) :
    (p.putBlock k b').programmed cfg =
      p.programmed cfg ∪ {((k, b.pNextWritePageIndex i), i)} := by
  obtain ⟨-, -, -, -, -, -, -, -, hnext, -⟩ := Block.write_spec hwrite
  ext ⟨⟨k', n⟩, j⟩
  simp only [programmed, Set.mem_union, Set.mem_ofPred_eq, Set.mem_singleton_iff, putBlock,
    UnorderedMap.find?_set, Prod.mk.injEq]
  by_cases hk : k' = k
  · subst hk
    by_cases hj : j = i
    · subst hj
      simp [hb, hnext, hi]
      omega
    · simp [hb, hnext, hj]
  · simp [hk]

/-- Programming a unit at the write pointer of its column. -/
theorem step_write {lpn : Nat} {r : PAL.Request} (due : List PAL.Request) (trace : List Event)
    (hb : p.blocks.find? k = some b)
    (hwrite : b.write (b.pNextWritePageIndex i) lpn i = .ok b') (hi : i < cfg.bitsetSize)
    (hr : r.blockIndex = k) (hunits : cfg.units r = {((k, b.pNextWritePageIndex i), i)}) :
    FlashArray.Step cfg (p.flash cfg due trace)
      ((p.putBlock k b').flash cfg (due ++ [r]) trace) := by
  have hinUse : {j | j ∈ (p.putBlock k b').blocks} = {j | j ∈ p.blocks} := by
    ext j
    simp only [Set.mem_ofPred_eq, putBlock, UnorderedMap.mem_set]
    exact ⟨fun h => h.elim (fun h => h ▸ UnorderedMap.mem_of_find? hb) id, .inr⟩
  -- the unit is erased: it lies at the write pointer, not behind it
  have hfresh : ∀ x ∈ cfg.units r, x ∉ p.programmed cfg := by
    rw [hunits]
    rintro x rfl ⟨-, c, hc, hlt⟩
    rw [hb] at hc
    cases hc
    exact lt_irrefl _ hlt
  have hstep := FlashArray.Step.program (p.flash cfg due trace) r
    (hr ▸ UnorderedMap.mem_of_find? hb) (hunits ▸ Set.singleton_nonempty _) hfresh
  have hprogrammed := programmed_write hb hwrite hi
  rw [← hunits] at hprogrammed
  simpa only [flash, hprogrammed, hinUse] using hstep

/-- The request names units that are programmed, and at least one. -/
def Holds (cfg : Config) (p : BlockPool) (r : PAL.Request) : Prop :=
  (cfg.units r).Nonempty ∧ cfg.units r ⊆ p.programmed cfg

theorem Holds.mono {r : PAL.Request} (h : p.Holds cfg r)
    (hsub : p.programmed cfg ⊆ p'.programmed cfg) : p'.Holds cfg r := ⟨h.1, h.2.trans hsub⟩

theorem Holds.of_units {r : PAL.Request} {x : (Nat × Nat) × Nat} (hunits : cfg.units r = {x})
    (hx : x ∈ p.programmed cfg) : p.Holds cfg r := by
  rw [Holds, hunits]
  exact ⟨Set.singleton_nonempty x, Set.singleton_subset_iff.mpr hx⟩

/-- What is programmed lies in the device and in a block in use. -/
theorem Holds.inRange {r : PAL.Request} (h : p.Holds cfg r) (hp : p.WellFormed cfg) :
    cfg.InRange (r.blockIndex, r.pageIndex) ∧ r.blockIndex ∈ p.blocks := by
  obtain ⟨⟨x, hx⟩, hsub⟩ := h
  have hpage : x.1 = (r.blockIndex, r.pageIndex) := hx.1
  have hrange := inRange_of_programmed hp (hsub hx)
  have hmem := mem_of_programmed (hsub hx)
  rw [hpage] at hrange hmem
  exact ⟨hrange, hmem⟩

/-- Reading what is programmed. -/
theorem Holds.read {r : PAL.Request} (h : p.Holds cfg r) (hp : p.WellFormed cfg) :
    FlashArray.Step cfg (p.flash cfg due trace) (p.flash cfg due (.palRead r :: trace)) :=
  .read _ r (h.inRange hp).1 (h.inRange hp).2 h.1 h.2

/-- The writes that are due are of pages that are programmed. -/
theorem path_flush (hp : p.WellFormed cfg) (hdue : ∀ r ∈ due, p.Holds cfg r) :
    FlashArray.Path cfg (p.flash cfg due trace)
      (p.flash cfg [] ((due.map .palWrite).reverse ++ trace)) :=
  FlashArray.Path.flush (a := p.flash cfg due trace) fun r hr =>
    ⟨((hdue r hr).inRange hp).1, ((hdue r hr).inRange hp).2, (hdue r hr).2⟩

theorem path_reads (hp : p.WellFormed cfg) {l : List PAL.Request} (hl : ∀ r ∈ l, p.Holds cfg r) :
    FlashArray.Path cfg (p.flash cfg due trace)
      (p.flash cfg due ((l.map .palRead).reverse ++ trace)) :=
  FlashArray.Path.reads (a := p.flash cfg due trace) fun r hr =>
    ⟨((hl r hr).inRange hp).1, ((hl r hr).inRange hp).2, hl r hr⟩

/-- Erasing a block in use while no write is due. -/
theorem step_eraseBlock {r : PAL.Request} (trace : List Event) (hp : p.WellFormed cfg)
    (hpage : r.pageIndex < cfg.pagesInBlock) (h : eraseBlock cfg p r.blockIndex = .ok p') :
    FlashArray.Step cfg (p.flash cfg [] trace) (p'.flash cfg [] (.palErase r :: trace)) := by
  obtain ⟨b, hb, hblocks, -⟩ := eraseBlock_spec h
  have hmem := UnorderedMap.mem_of_find? hb
  have hinUse : {j | j ∈ p'.blocks} = {j ∈ {j | j ∈ p.blocks} | j ≠ r.blockIndex} := by
    ext j
    simp only [Set.mem_ofPred_eq, hblocks, UnorderedMap.mem_iff_find?,
      UnorderedMap.find?_erase]
    by_cases hj : j = r.blockIndex <;> simp [hj]
  have hprogrammed : p'.programmed cfg =
      {x ∈ p.programmed cfg | x.1.1 ≠ r.blockIndex} := by
    ext x
    simp only [programmed, Set.mem_ofPred_eq, hblocks, UnorderedMap.find?_erase]
    by_cases hk : x.1.1 = r.blockIndex <;> simp [hk]
  have hstep := FlashArray.Step.erase (p.flash cfg [] trace) r ⟨hp.lt_of_mem hmem, hpage⟩ hmem rfl
  simpa only [flash, hprogrammed, hinUse] using hstep

end Flash

end BlockPool

end SimpleSSD.FTL
