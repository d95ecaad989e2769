import Mathlib.Data.List.Range
import Mathlib.Logic.Function.Basic
import SimpleSSD.Lib.Run
import SimpleSSD.Util.Def

/-!
# Host PRP construction (sil/nvme/prp.cc:32–120)

The constructor of the host's `PRP` allocates the pages of a transfer and enters
them into PRP1, PRP2 and the PRP lists. The allocated region is modelled by its
address and by the 8-byte words that the constructor stores in it.

Every list page is followed by the data pages that it lists. When more pages are
needed than a list page has slots, the last slot holds the address of the next
list page.
-/

namespace SimpleSSD.SIL

/-- `PAGE_SIZE`. -/
def pageSize : Nat := 4096

/-- The slots of a list page. -/
def maxEntryCount : Nat := pageSize / 8

/-- A constructed `PRP`. -/
structure PRP where
  /-- The 8-byte word at each address, zero where nothing was stored. -/
  memory : Nat → Nat
  capacity : Nat
  ptr1 : Nat
  ptr2 : Nat
  /-- The pages that `readData` and `writeData` go through. -/
  ptrList : List Nat
  /-- The pages that `listPtr` has pointed at, which the source does not keep. -/
  listPages : List Nat

namespace PRP

/-- The local `mode`. -/
inductive Mode where
  | one | two | list
  deriving DecidableEq, Repr

/-- What the constructor computes before it allocates. -/
structure Shape where
  mode : Mode
  capacity : Nat
  listCount : Nat
  lastEntryCount : Nat

/-- The loop that counts the list pages (prp.cc:59–73). -/
def countLists : Nat → Nat → Nat → Nat → Except Fault Shape
  | 0, _, _, _ => .error (.diverges "PRP::PRP")
  | fuel + 1, size, capacity, listCount =>
    if pageSize * maxEntryCount < size then
      countLists fuel (size - pageSize * (maxEntryCount - 1))
        (capacity + pageSize * maxEntryCount) ((listCount + 1) % 2 ^ 32)
    else
      let lastEntryCount := ((size - 1) / pageSize + 1) % 2 ^ 32
      .ok ⟨.list, capacity + pageSize * lastEntryCount, listCount, lastEntryCount⟩

/-- The shape of a transfer (prp.cc:38–74). -/
def shape (size : Nat) : Except Fault Shape :=
  if size ≤ pageSize then .ok ⟨.one, pageSize, 1, 0⟩
  else if size ≤ pageSize * 2 then .ok ⟨.two, pageSize * 2, 1, 0⟩
  else countLists size (size - pageSize) (pageSize * 2) 1

/-- Locals of the loop that fills the lists, with the fields it writes. -/
structure Cursor where
  memory : Nat → Nat
  ptrList : List Nat
  listPages : List Nat
  listPtr : Nat
  page : Nat
  entry : Nat
  listCount : Nat

/-- `*(listPtr + entry) = value`. -/
def Cursor.store (c : Cursor) (value : Nat) : Cursor :=
  { c with memory := Function.update c.memory (c.listPtr + 8 * c.entry) value }

/-- The first lines of the loop: a data page is entered (prp.cc:100–102). -/
def Cursor.enter (c : Cursor) : Cursor :=
  { c.store c.page with
    ptrList := c.ptrList ++ [c.page], page := c.page + pageSize, entry := c.entry + 1 }

/-- The last slot of a list page takes the address of the next one
(prp.cc:109–115). -/
def Cursor.link (c : Cursor) : Cursor :=
  { c.store c.page with
    listPtr := c.page, listPages := c.listPages ++ [c.page]
    page := c.page + pageSize, listCount := c.listCount - 1, entry := 0 }

/-- The loop that fills the lists (prp.cc:99–117). -/
def fillLists (lastEntryCount : Nat) : Nat → Cursor → Except Fault Cursor
  | 0, _ => .error (.diverges "PRP::PRP")
  | fuel + 1, c =>
    let c := c.enter
    if c.listCount = 1 ∧ c.entry = lastEntryCount then .ok (c.store 0)
    else if 1 < c.listCount ∧ c.entry = maxEntryCount - 1 then fillLists lastEntryCount fuel c.link
    else fillLists lastEntryCount fuel c

/-- The cursor at the first slot of the list page that PRP2 points at. -/
def Cursor.first (base listCount : Nat) : Cursor where
  memory := fun _ => 0
  ptrList := [base, base + pageSize]
  listPages := [base + pageSize]
  listPtr := base + pageSize
  page := base + pageSize * 2
  entry := 0
  listCount := listCount

/-- The constructor (prp.cc:32–120), when the allocation returns `base`. -/
def new (base size : Nat) : Except Fault PRP := do
  let shape ← shape size
  if base = 0 then .error (.panic "PRP::PRP" "Failed to allocate memory for PRP region")
  else
    match shape.mode with
    | .one => .ok ⟨fun _ => 0, shape.capacity, base, 0, [base], []⟩
    | .two => .ok ⟨fun _ => 0, shape.capacity, base, base + pageSize, [base, base + pageSize], []⟩
    | .list => do
      let c ← fillLists shape.lastEntryCount size (.first base shape.listCount)
      .ok ⟨c.memory, shape.capacity, base, base + pageSize, c.ptrList, c.listPages⟩

/-- The pages that hold data. `ptrList` also has the first list page (prp.cc:91). -/
def dataPages (prp : PRP) : List Nat := prp.ptrList.filter fun page => page ∉ prp.listPages

/-! ### What the constructor stores -/

section Fill

variable {lastEntryCount fuel : Nat} {c c' : Cursor}

theorem Cursor.store_of_ne {value a : Nat} (h : a ≠ c.listPtr + 8 * c.entry) :
    (c.store value).memory a = c.memory a := Function.update_of_ne h _ _

theorem Cursor.store_self {value : Nat} :
    (c.store value).memory (c.listPtr + 8 * c.entry) = value := Function.update_self _ _ _

/-- Every word is the address of a page, or zero. -/
structure Cursor.Aligned (c : Cursor) : Prop where
  page : pageSize ∣ c.page
  memory (a : Nat) : pageSize ∣ c.memory a

theorem Cursor.Aligned.store {value : Nat} (h : c.Aligned) (hvalue : pageSize ∣ value) :
    (c.store value).Aligned := by
  refine ⟨h.page, fun a => ?_⟩
  by_cases ha : a = c.listPtr + 8 * c.entry
  · rw [ha, store_self]
    exact hvalue
  · rw [store_of_ne ha]
    exact h.memory a

theorem Cursor.Aligned.enter (h : c.Aligned) : c.enter.Aligned :=
  ⟨Nat.dvd_add h.page (Nat.dvd_refl _), (h.store h.page).memory⟩

theorem Cursor.Aligned.link (h : c.Aligned) : c.link.Aligned :=
  ⟨Nat.dvd_add h.page (Nat.dvd_refl _), (h.store h.page).memory⟩

theorem fillLists_aligned (hc : c.Aligned) (h : fillLists lastEntryCount fuel c = .ok c') :
    c'.Aligned := by
  induction fuel generalizing c with
  | zero => cases h
  | succ fuel ih =>
    rw [fillLists] at h
    split at h
    · cases h
      exact hc.enter.store (Nat.dvd_zero _)
    · split at h
      · exact ih hc.enter.link h
      · exact ih hc.enter h

/-- The words of a constructed `PRP` are page addresses. -/
theorem memory_aligned {base size : Nat} {prp : PRP} (hbase : pageSize ∣ base)
    (h : new base size = .ok prp) (a : Nat) : pageSize ∣ prp.memory a := by
  rw [new, Except.bind_eq_ok] at h
  obtain ⟨shape, -, h⟩ := h
  split at h
  · cases h
  · split at h
    · cases h
      exact Nat.dvd_zero _
    · cases h
      exact Nat.dvd_zero _
    · rw [Except.bind_eq_ok] at h
      obtain ⟨c, hc, h⟩ := h
      cases h
      have hfirst : (Cursor.first base shape.listCount).Aligned :=
        ⟨Nat.dvd_add hbase (Nat.dvd_mul_right _ _), fun _ => Nat.dvd_zero _⟩
      exact (fillLists_aligned hfirst hc).memory a

theorem countLists_mode {size capacity listCount : Nat} {shape : Shape}
    (h : countLists fuel size capacity listCount = .ok shape) : shape.mode = .list := by
  induction fuel generalizing size capacity listCount with
  | zero => cases h
  | succ fuel ih =>
    rw [countLists] at h
    split at h
    · exact ih h
    · cases h
      rfl

/-- One page, two pages, or a list. -/
theorem shape_cases {size : Nat} {s : Shape} (h : shape size = .ok s) :
    size ≤ pageSize ∧ s.mode = .one ∨ size ≤ pageSize * 2 ∧ s.mode = .two ∨ s.mode = .list := by
  rw [shape] at h
  split at h
  · next hone =>
    cases h
    exact .inl ⟨hone, rfl⟩
  split at h
  · next htwo =>
    cases h
    exact .inr (.inl ⟨htwo, rfl⟩)
  · exact .inr (.inr (countLists_mode h))

/-- A transfer of more than two pages has a list. -/
theorem shape_mode {size : Nat} {s : Shape} (hone : ¬ size ≤ pageSize)
    (htwo : ¬ size ≤ pageSize * 2) (h : shape size = .ok s) : s.mode = .list := by
  rcases shape_cases h with ⟨hle, -⟩ | ⟨hle, -⟩ | hlist
  · exact absurd hle hone
  · exact absurd hle htwo
  · exact hlist

/-- PRP1 and PRP2 of a transfer of more than two pages. -/
theorem new_pointers {base size : Nat} {prp : PRP} (h : new base size = .ok prp)
    (hone : ¬ size ≤ pageSize) (htwo : ¬ size ≤ pageSize * 2) :
    prp.ptr1 = base ∧ prp.ptr2 = base + pageSize := by
  rw [new, Except.bind_eq_ok] at h
  obtain ⟨shape, hshape, h⟩ := h
  rw [shape_mode hone htwo hshape] at h
  split at h
  · cases h
  · simp only [Except.bind_eq_ok] at h
    obtain ⟨c, -, h⟩ := h
    cases h
    exact ⟨rfl, rfl⟩

/-- The last list page takes the data pages in order. -/
theorem fillLists_last (n : Nat) (hcount : c.listCount = 1)
    (hlast : lastEntryCount = c.entry + n + 1) (hfuel : n < fuel) :
    ∃ c', fillLists lastEntryCount fuel c = .ok c' ∧ c'.listPages = c.listPages ∧
      c'.ptrList = c.ptrList ++ List.range' c.page (n + 1) pageSize ∧
      (∀ i ≤ n, c'.memory (c.listPtr + 8 * (c.entry + i)) = c.page + pageSize * i) ∧
      ∀ i < c.entry, c'.memory (c.listPtr + 8 * i) = c.memory (c.listPtr + 8 * i) := by
  induction n generalizing c fuel with
  | zero =>
    obtain ⟨fuel, rfl⟩ := Nat.exists_eq_succ_of_ne_zero (by omega : fuel ≠ 0)
    have hstop : c.enter.listCount = 1 ∧ c.enter.entry = lastEntryCount := ⟨hcount, hlast.symm⟩
    refine ⟨c.enter.store 0, by rw [fillLists, if_pos hstop], rfl, rfl, fun i hi => ?_,
      fun i hi => ?_⟩
    · obtain rfl : i = 0 := by omega
      rw [Cursor.store_of_ne (by simp only [Cursor.enter, Cursor.store]; omega)]
      exact Cursor.store_self
    · rw [Cursor.store_of_ne (by simp only [Cursor.enter, Cursor.store]; omega)]
      exact Cursor.store_of_ne (by omega)
  | succ n ih =>
    obtain ⟨fuel, rfl⟩ := Nat.exists_eq_succ_of_ne_zero (by omega : fuel ≠ 0)
    have hstop : ¬ (c.enter.listCount = 1 ∧ c.enter.entry = lastEntryCount) := by
      rintro ⟨-, h⟩
      simp only [Cursor.enter, Cursor.store] at h
      omega
    have hlink : ¬ (1 < c.enter.listCount ∧ c.enter.entry = maxEntryCount - 1) := by
      rintro ⟨h, -⟩
      simp only [Cursor.enter, Cursor.store, hcount] at h
      omega
    have hentry : c.enter.entry = c.entry + 1 := rfl
    have hlast' : lastEntryCount = c.enter.entry + n + 1 := by omega
    have hfuel' : n < fuel := by omega
    obtain ⟨c', hfill, hpages, hptr, hnew, hold⟩ := ih (c := c.enter) hcount hlast' hfuel'
    refine ⟨c', by rw [fillLists, if_neg hstop, if_neg hlink, hfill], hpages, ?_, fun i hi => ?_,
      fun i hi => ?_⟩
    · rw [hptr, List.range'_succ (n := n + 1)]
      simp only [Cursor.enter, List.append_assoc, List.singleton_append]
    · cases i with
      | zero =>
        have hslot : (c.store c.page).memory (c.listPtr + 8 * c.entry) = c.page :=
          Cursor.store_self
        exact (hold c.entry (by omega)).trans hslot
      | succ i =>
        have hslot := hnew i (by omega)
        rw [hentry, show c.entry + 1 + i = c.entry + (i + 1) by omega] at hslot
        refine hslot.trans ?_
        simp only [Cursor.enter, Cursor.store, Nat.mul_succ]
        omega
    · have hne : c.listPtr + 8 * i ≠ c.listPtr + 8 * c.entry := by omega
      exact (hold i (by omega)).trans (Cursor.store_of_ne hne)

end Fill

end PRP

end SimpleSSD.SIL
