import SimpleSSD.SIL.PRP

/-!
# Data of a host PRP (sil/nvme/prp.cc:135–163)

`writeData` and `readData` go through the pages of a range. For every page they
copy from or to the begin of the caller's buffer, and they count the offset from
the page of the range's begin on. `ptrList` also has the first list page among the
data pages, so behind it every page is taken for the one in front of it.

The two are inverse to each other and touch the bytes of the range alone exactly for
ranges on one page, and on the first page if there is a list (`roundTrips_iff`).
-/

namespace SimpleSSD.SIL.PRP

/-- Bytes by their addresses, or by their positions in a buffer. -/
abbrev Bytes := Nat → BitVec 8

/-- `memcpy`, on bytes of the destination and of the source. -/
def memcpy (dest src : Bytes) (d s len : Nat) : Bytes :=
  fun a => if d ≤ a ∧ a < d + len then src (s + (a - d)) else dest a

/-! ### The two loops -/

/-- `DIVCEIL(offset + size, PAGE_SIZE)`, in 64 bits. -/
def endPage (offset size : Nat) : Nat := (offset + size + 2 ^ 64 - 1) % 2 ^ 64 / pageSize + 1

/-- `ptr` and `len` for the `n` pages from page `i` on (prp.cc:140–147 and 155–162). -/
def pieces (prp : PRP) (offset size : Nat) : Nat → Nat → Nat → Except Fault (List (Nat × Nat))
  | 0, _, _ => .ok []
  | n + 1, i, copied =>
    match prp.ptrList[i]? with
    | none => .error (.badAccess "ptrList")
    | some page => do
      -- the offset lies in front of a later page, and the difference is taken modulo `2 ^ 64`
      let ptr := page + offset - i * pageSize
      let len := min ((i + 1) * pageSize - offset) (size - copied)
      let rest ← pieces prp offset size n (i + 1) (copied + len)
      .ok ((ptr, len) :: rest)

/-- The pieces of a range. -/
def range (prp : PRP) (offset size : Nat) : Except Fault (List (Nat × Nat)) :=
  let first := offset / pageSize
  prp.pieces offset size (endPage offset size - first) first 0

/-- `readData`, which leaves its result in `buffer`. -/
def readData (prp : PRP) (offset size : Nat) (memory buffer : Bytes) : Except Fault Bytes :=
  (prp.range offset size).map fun pieces =>
    pieces.foldl (fun buffer piece => memcpy buffer memory 0 piece.1 piece.2) buffer

/-- `writeData`, which leaves its result in `memory`. -/
def writeData (prp : PRP) (offset size : Nat) (buffer memory : Bytes) : Except Fault Bytes :=
  (prp.range offset size).map fun pieces =>
    pieces.foldl (fun memory piece => memcpy memory buffer piece.1 0 piece.2) memory

/-! ### What they should do -/

/-- The address of a byte of the transfer. -/
def address? (prp : PRP) (k : Nat) : Option Nat :=
  prp.dataPages[k / pageSize]?.map fun page => page + k % pageSize

/-- Whatever memory and buffers contain, data that is written is read back, and no other
byte of the memory is changed. -/
def RoundTrips (prp : PRP) (offset size : Nat) : Prop :=
  ∀ data memory buffer : Bytes, ∃ memory', prp.writeData offset size data memory = .ok memory' ∧
    (∃ buffer', prp.readData offset size memory' buffer = .ok buffer' ∧
      ∀ k < size, buffer' k = data k) ∧
    ∀ a, (∀ k < size, prp.address? (offset + k) ≠ some a) → memory' a = memory a

/-- A range on one page, which is the first if the PRP has a list; or an empty range whose
pages are pages of the PRP. -/
def OnePage (prp : PRP) (offset size : Nat) : Prop :=
  if size = 0 then endPage offset 0 ≤ max (offset / pageSize) prp.ptrList.length
  else offset % pageSize + size ≤ pageSize ∧ (prp.listPages = [] ∨ offset < pageSize)

instance (prp : PRP) (offset size : Nat) : Decidable (prp.OnePage offset size) := by
  unfold OnePage
  infer_instance

/-! ### Pieces -/

section Pieces

variable {prp : PRP} {offset size n i copied : Nat} {l : List (Nat × Nat)}

/-- The loop does not leave `ptrList`. -/
theorem pieces_inside (h : prp.pieces offset size n i copied = .ok l) :
    n = 0 ∨ i + n ≤ prp.ptrList.length := by
  induction n generalizing i copied l with
  | zero => exact .inl rfl
  | succ n ih =>
    rw [pieces] at h
    split at h
    · cases h
    · next page hpage =>
      rw [Except.bind_eq_ok] at h
      obtain ⟨rest, hrest, -⟩ := h
      obtain ⟨hlt, -⟩ := List.getElem?_eq_some_iff.mp hpage
      rcases ih hrest with rfl | hle
      · exact .inr hlt
      · exact .inr (by omega)

/-- Nothing is copied for an empty range. -/
theorem pieces_empty (prp : PRP) (offset n i copied : Nat)
    (h : n = 0 ∨ i + n ≤ prp.ptrList.length) :
    ∃ l, prp.pieces offset 0 n i copied = .ok l ∧ ∀ piece ∈ l, piece.2 = 0 := by
  induction n generalizing i copied with
  | zero => exact ⟨[], rfl, fun piece hpiece => absurd hpiece List.not_mem_nil⟩
  | succ n ih =>
    have hlt : i < prp.ptrList.length := by omega
    obtain ⟨rest, hrest, hzero⟩ := ih (i + 1)
      (copied + min ((i + 1) * pageSize - offset) (0 - copied)) (by omega)
    rw [pieces, List.getElem?_eq_getElem hlt]
    dsimp only
    rw [hrest]
    refine ⟨_, rfl, fun piece hpiece => ?_⟩
    rcases List.mem_cons.mp hpiece with rfl | hpiece
    · dsimp only
      omega
    · exact hzero piece hpiece

/-- A piece is no longer than what is left. -/
theorem pieces_le (h : prp.pieces offset size n i copied = .ok l) :
    ∀ piece ∈ l, piece.2 ≤ size - copied := by
  induction n generalizing i copied l with
  | zero =>
    cases h
    intro piece hpiece
    cases hpiece
  | succ n ih =>
    rw [pieces] at h
    split at h
    · cases h
    · rw [Except.bind_eq_ok] at h
      obtain ⟨rest, hrest, h⟩ := h
      cases h
      intro piece hpiece
      rcases List.mem_cons.mp hpiece with rfl | hpiece
      · dsimp only
        omega
      · have := ih hrest piece hpiece
        omega

theorem endPage_eq (hlt : offset + size < 2 ^ 64) (hpos : 0 < size) :
    endPage offset size = (offset + size - 1) / pageSize + 1 := by
  rw [endPage]
  have hmod : (offset + size + 2 ^ 64 - 1) % 2 ^ 64 = offset + size - 1 := by omega
  rw [hmod]

/-- The pieces of a range on one page. -/
theorem range_one {page : Nat} (hlt : offset + size < 2 ^ 64) (hpos : 0 < size)
    (hone : offset % pageSize + size ≤ pageSize)
    (hpage : prp.ptrList[offset / pageSize]? = some page) :
    prp.range offset size = .ok [(page + offset % pageSize, size)] := by
  have hend : endPage offset size = offset / pageSize + 1 := by
    rw [endPage_eq hlt hpos]
    simp only [pageSize] at hone ⊢
    omega
  have hptr : page + offset - offset / pageSize * pageSize = page + offset % pageSize := by
    have := Nat.div_add_mod offset pageSize
    rw [Nat.mul_comm] at this
    omega
  have hlen : min ((offset / pageSize + 1) * pageSize - offset) (size - 0) = size := by
    simp only [pageSize] at hone ⊢
    omega
  rw [range, hend, Nat.add_sub_cancel_left, pieces, hpage]
  dsimp only
  rw [hptr, hlen]
  rfl

/-- Every piece of a range on several pages is shorter than the range. -/
theorem range_many (hlt : offset + size < 2 ^ 64) (hpos : 0 < size)
    (hmany : ¬ offset % pageSize + size ≤ pageSize) (h : prp.range offset size = .ok l) :
    ∀ piece ∈ l, piece.2 < size := by
  obtain ⟨n, hn⟩ : ∃ n, endPage offset size - offset / pageSize = n + 1 := by
    refine ⟨endPage offset size - offset / pageSize - 1, ?_⟩
    rw [endPage_eq hlt hpos]
    simp only [pageSize] at hmany ⊢
    omega
  rw [range, hn, pieces] at h
  split at h
  · cases h
  · next page hpage =>
    rw [Except.bind_eq_ok] at h
    obtain ⟨rest, hrest, h⟩ := h
    cases h
    have hfirst : 0 < min ((offset / pageSize + 1) * pageSize - offset) (size - 0) ∧
        min ((offset / pageSize + 1) * pageSize - offset) (size - 0) < size := by
      simp only [pageSize] at hmany ⊢
      omega
    intro piece hpiece
    rcases List.mem_cons.mp hpiece with rfl | hpiece
    · exact hfirst.2
    · have := pieces_le hrest piece hpiece
      omega

end Pieces

/-! ### Copies -/

section Copies

variable {l : List (Nat × Nat)}

/-- The bytes of a buffer behind all pieces stay as they are. -/
theorem foldl_read_of_le (src : Bytes) {k : Nat} (h : ∀ piece ∈ l, piece.2 ≤ k) (buffer : Bytes) :
    l.foldl (fun buffer piece => memcpy buffer src 0 piece.1 piece.2) buffer k = buffer k := by
  induction l generalizing buffer with
  | nil => rfl
  | cons piece l ih =>
    have hk := h piece List.mem_cons_self
    rw [List.foldl_cons, ih fun p hp => h p (List.mem_cons_of_mem piece hp), memcpy, if_neg]
    omega

/-- Pieces of no bytes change nothing. -/
theorem foldl_write_empty (src : Bytes) (h : ∀ piece ∈ l, piece.2 = 0) (memory : Bytes) :
    l.foldl (fun memory piece => memcpy memory src piece.1 0 piece.2) memory = memory := by
  induction l generalizing memory with
  | nil => rfl
  | cons piece l ih =>
    have hzero := h piece List.mem_cons_self
    have hsame : memcpy memory src piece.1 0 piece.2 = memory := by
      funext a
      rw [memcpy, hzero, if_neg]
      omega
    rw [List.foldl_cons, hsame]
    exact ih (fun p hp => h p (List.mem_cons_of_mem piece hp)) memory

end Copies

/-! ### The pages of a constructed PRP -/

/-- PRP1, the first list page and the data pages behind it; data pages and further list
pages lie behind each other. -/
structure Laid (base page : Nat) (ptrList listPages rest : List Nat) : Prop where
  ptrList : ptrList = base :: (base + pageSize) :: rest
  listPages : ∃ links, listPages = (base + pageSize) :: links ∧
    ∀ link ∈ links, base + pageSize * 2 ≤ link ∧ link + pageSize ≤ page ∧ link ∉ rest
  apart : rest.Pairwise fun p q => p + pageSize ≤ q
  inside : ∀ p ∈ rest, base + pageSize * 2 ≤ p ∧ p + pageSize ≤ page
  page : base + pageSize * 2 ≤ page

section Laid

variable {base page : Nat} {ptrList listPages rest : List Nat}

/-- A data page is entered. -/
theorem Laid.enter (h : Laid base page ptrList listPages rest) :
    Laid base (page + pageSize) (ptrList ++ [page]) listPages (rest ++ [page]) := by
  obtain ⟨links, hlist, hlinks⟩ := h.listPages
  refine ⟨by rw [h.ptrList]; rfl, ⟨links, hlist, fun link hlink => ?_⟩, ?_, fun p hp => ?_, ?_⟩
  · obtain ⟨hle, hlt, hnot⟩ := hlinks link hlink
    refine ⟨hle, by omega, fun hmem => ?_⟩
    rcases List.mem_append.mp hmem with hmem | hmem
    · exact hnot hmem
    · have := List.mem_singleton.mp hmem
      simp only [pageSize] at hlt
      omega
  · rw [List.pairwise_append]
    refine ⟨h.apart, List.pairwise_singleton _ _, fun p hp q hq => ?_⟩
    rw [List.mem_singleton.mp hq]
    exact (h.inside p hp).2
  · rcases List.mem_append.mp hp with hp | hp
    · obtain ⟨hle, hlt⟩ := h.inside p hp
      exact ⟨hle, by omega⟩
    · rw [List.mem_singleton.mp hp]
      exact ⟨h.page, le_rfl⟩
  · exact h.page.trans (Nat.le_add_right _ _)

/-- A list page is linked. -/
theorem Laid.link (h : Laid base page ptrList listPages rest) :
    Laid base (page + pageSize) ptrList (listPages ++ [page]) rest := by
  obtain ⟨links, hlist, hlinks⟩ := h.listPages
  refine ⟨h.ptrList, ⟨links ++ [page], by rw [hlist]; rfl, fun link hlink => ?_⟩, h.apart,
    fun p hp => ?_, h.page.trans (Nat.le_add_right _ _)⟩
  · rcases List.mem_append.mp hlink with hlink | hlink
    · obtain ⟨hle, hlt, hnot⟩ := hlinks link hlink
      exact ⟨hle, by omega, hnot⟩
    · rw [List.mem_singleton.mp hlink]
      refine ⟨h.page, le_rfl, fun hmem => ?_⟩
      have := (h.inside page hmem).2
      simp only [pageSize] at this
      omega
  · obtain ⟨hle, hlt⟩ := h.inside p hp
    exact ⟨hle, by omega⟩

/-- The data pages are all pages but the first list page. -/
theorem Laid.dataPages (h : Laid base page ptrList listPages rest) :
    (ptrList.filter fun page => page ∉ listPages) = base :: rest := by
  obtain ⟨links, hlist, hlinks⟩ := h.listPages
  have hbase : base ∉ listPages := by
    rw [hlist, List.mem_cons, not_or]
    refine ⟨by simp [pageSize], fun hmem => ?_⟩
    have := (hlinks base hmem).1
    simp only [pageSize] at this
    omega
  have hrest : (rest.filter fun page => page ∉ listPages) = rest := by
    refine List.filter_eq_self.mpr fun p hp => decide_eq_true ?_
    rw [hlist, List.mem_cons, not_or]
    refine ⟨fun heq => ?_, fun hmem => (hlinks p hmem).2.2 hp⟩
    have := (h.inside p hp).1
    simp only [pageSize] at this heq
    omega
  have hfirst : base + pageSize ∈ listPages := by
    rw [hlist]
    exact List.mem_cons_self
  rw [h.ptrList, List.filter_cons_of_pos (by simpa using hbase),
    List.filter_cons_of_neg (by simpa using hfirst), hrest]

/-- Behind PRP1, a page of `ptrList` is not the data page of the same number, nor does it
overlap with it. -/
theorem Laid.shifted (h : Laid base page ptrList listPages rest) {i p q : Nat} (hi : 0 < i)
    (hp : ptrList[i]? = some p) (hq : (base :: rest)[i]? = some q) : p + pageSize ≤ q := by
  obtain ⟨i, rfl⟩ := Nat.exists_eq_succ_of_ne_zero hi.ne'
  rw [List.getElem?_cons_succ] at hq
  rw [h.ptrList, List.getElem?_cons_succ] at hp
  cases i with
  | zero =>
    obtain rfl : base + pageSize = p := by simpa using hp
    have := (h.inside q (List.mem_of_getElem? hq)).1
    omega
  | succ i =>
    rw [List.getElem?_cons_succ] at hp
    obtain ⟨hlt, rfl⟩ := List.getElem?_eq_some_iff.mp hp
    obtain ⟨hlt', rfl⟩ := List.getElem?_eq_some_iff.mp hq
    exact List.pairwise_iff_getElem.mp h.apart i (i + 1) hlt hlt' (Nat.lt_succ_self i)

theorem fillLists_laid {lastEntryCount fuel : Nat} {c c' : Cursor}
    (hc : Laid base c.page c.ptrList c.listPages rest)
    (h : fillLists lastEntryCount fuel c = .ok c') :
    ∃ page rest, Laid base page c'.ptrList c'.listPages rest := by
  induction fuel generalizing c rest with
  | zero => cases h
  | succ fuel ih =>
    have henter : Laid base c.enter.page c.enter.ptrList c.enter.listPages (rest ++ [c.page]) :=
      hc.enter
    rw [fillLists] at h
    split at h
    · cases h
      exact ⟨_, _, henter⟩
    · split at h
      · exact ih henter.link h
      · exact ih henter h

/-- The first list page has been entered. -/
theorem first_laid (base listCount : Nat) :
    Laid base (Cursor.first base listCount).page (Cursor.first base listCount).ptrList
      (Cursor.first base listCount).listPages [] :=
  ⟨rfl, ⟨[], rfl, fun _ hlink => absurd hlink List.not_mem_nil⟩, List.Pairwise.nil,
    fun _ hp => absurd hp List.not_mem_nil, le_rfl⟩

/-- The pages of a PRP: one, two, or those of a list. -/
theorem new_cases {total : Nat} {prp : PRP} (h : new base total = .ok prp) :
    prp.listPages = [] ∧ total ≤ pageSize * prp.ptrList.length ∨
      prp.ptrList.head? = some base ∧ prp.listPages ≠ [] ∧
        ∃ page rest, Laid base page prp.ptrList prp.listPages rest := by
  rw [new, Except.bind_eq_ok] at h
  obtain ⟨shape, hshape, h⟩ := h
  split at h
  · cases h
  rcases shape_cases hshape with ⟨hle, hmode⟩ | ⟨hle, hmode⟩ | hmode
  · rw [hmode] at h
    cases h
    exact .inl ⟨rfl, by simpa using hle⟩
  · rw [hmode] at h
    cases h
    exact .inl ⟨rfl, by simpa using hle⟩
  · rw [hmode] at h
    obtain ⟨c, hc, h⟩ := Except.bind_eq_ok.mp h
    cases h
    obtain ⟨page, rest, hlaid⟩ := fillLists_laid (first_laid base shape.listCount) hc
    refine .inr ⟨?_, ?_, page, rest, hlaid⟩
    · show c.ptrList.head? = some base
      rw [hlaid.ptrList]
      rfl
    · obtain ⟨links, hlist, -⟩ := hlaid.listPages
      show c.listPages ≠ []
      rw [hlist]
      exact List.cons_ne_nil _ _

end Laid

/-! ### The round trip -/

section RoundTrips

variable {base total offset size page : Nat} {prp : PRP}

/-- The bytes of a range on one page lie next to each other. -/
theorem address?_one (hone : offset % pageSize + size ≤ pageSize) {k : Nat} (hk : k < size) :
    prp.address? (offset + k) =
      prp.dataPages[offset / pageSize]?.map fun page => page + (offset % pageSize + k) := by
  have hdiv : (offset + k) / pageSize = offset / pageSize := by
    simp only [pageSize] at hone ⊢
    omega
  have hmod : (offset + k) % pageSize = offset % pageSize + k := by
    simp only [pageSize] at hone ⊢
    omega
  rw [address?, hdiv, hmod]

theorem writeData_one (hlt : offset + size < 2 ^ 64) (hpos : 0 < size)
    (hone : offset % pageSize + size ≤ pageSize)
    (hpage : prp.ptrList[offset / pageSize]? = some page) (data memory : Bytes) :
    prp.writeData offset size data memory =
      .ok (memcpy memory data (page + offset % pageSize) 0 size) := by
  rw [writeData, range_one hlt hpos hone hpage]
  rfl

theorem readData_one (hlt : offset + size < 2 ^ 64) (hpos : 0 < size)
    (hone : offset % pageSize + size ≤ pageSize)
    (hpage : prp.ptrList[offset / pageSize]? = some page) (memory buffer : Bytes) :
    prp.readData offset size memory buffer =
      .ok (memcpy buffer memory 0 (page + offset % pageSize) size) := by
  rw [readData, range_one hlt hpos hone hpage]
  rfl

/-- On a page that is the data page of its number the two are inverse to each other. -/
theorem roundTrips_one (hlt : offset + size < 2 ^ 64) (hpos : 0 < size)
    (hone : offset % pageSize + size ≤ pageSize)
    (hpage : prp.ptrList[offset / pageSize]? = some page)
    (hdata : prp.dataPages[offset / pageSize]? = some page) : prp.RoundTrips offset size := by
  intro data memory buffer
  refine ⟨_, writeData_one hlt hpos hone hpage data memory,
    ⟨_, readData_one hlt hpos hone hpage _ buffer, fun k hk => ?_⟩, fun a ha => ?_⟩
  · rw [memcpy, if_pos (by omega), memcpy, if_pos (by omega)]
    exact congrArg data (by omega)
  · rw [memcpy]
    refine if_neg fun hin => ha (a - (page + offset % pageSize)) (by omega) ?_
    rw [address?_one hone (by omega), hdata, Option.map_some]
    exact congrArg some (by omega)

/-- An empty range copies nothing, as long as the loop stays in `ptrList`. -/
theorem roundTrips_empty
    (h : endPage offset 0 ≤ max (offset / pageSize) prp.ptrList.length) :
    prp.RoundTrips offset 0 := by
  intro data memory buffer
  obtain ⟨l, hl, hzero⟩ := pieces_empty prp offset
    (endPage offset 0 - offset / pageSize) (offset / pageSize) 0 (by omega)
  have hrange : prp.range offset 0 = .ok l := hl
  have hread : prp.readData offset 0 memory buffer =
      .ok (l.foldl (fun buffer piece => memcpy buffer memory 0 piece.1 piece.2) buffer) := by
    rw [readData, hrange]
    rfl
  refine ⟨memory, ?_, ⟨_, hread, fun k hk => absurd hk (Nat.not_lt_zero k)⟩, fun a _ => rfl⟩
  rw [writeData, hrange]
  exact congrArg Except.ok (foldl_write_empty data hzero memory)

/-- A PRP that round trips has the pages of the range. -/
theorem RoundTrips.range (h : prp.RoundTrips offset size) :
    ∃ l, prp.range offset size = .ok l ∧
      endPage offset size ≤ max (offset / pageSize) prp.ptrList.length := by
  obtain ⟨memory', hwrite, -⟩ := h (fun _ => 0) (fun _ => 0) fun _ => 0
  rw [writeData, Except.map_eq_ok] at hwrite
  obtain ⟨l, hl, -⟩ := hwrite
  have hinside := pieces_inside hl
  exact ⟨l, hl, by omega⟩

/-- The data is read back only from one page: else the end of the buffer is left as it was. -/
theorem RoundTrips.one (hlt : offset + size < 2 ^ 64) (hpos : 0 < size)
    (h : prp.RoundTrips offset size) : offset % pageSize + size ≤ pageSize := by
  by_contra hmany
  obtain ⟨l, hl, -⟩ := h.range
  have hshort := range_many hlt hpos hmany hl
  obtain ⟨memory', -, ⟨buffer', hread, hback⟩, -⟩ := h (fun _ => 1) (fun _ => 0) fun _ => 0
  rw [readData, hl] at hread
  cases hread
  have hkeep := foldl_read_of_le memory' (k := size - 1)
    (fun piece hpiece => Nat.le_sub_one_of_lt (hshort piece hpiece)) fun _ => 0
  have hlast := hkeep.symm.trans (hback (size - 1) (by omega))
  cases hlast

/-- Behind the first page, the data of a PRP with a list goes to the page in front. -/
theorem RoundTrips.first (hnew : new base total = .ok prp) (hlt : offset + size < 2 ^ 64)
    (hpos : 0 < size) (h : prp.RoundTrips offset size) :
    prp.listPages = [] ∨ offset < pageSize := by
  rcases new_cases hnew with ⟨hnone, -⟩ | ⟨-, -, page, rest, hlaid⟩
  · exact .inl hnone
  · refine .inr (not_le.mp fun hbehind => ?_)
    have hone := h.one hlt hpos
    obtain ⟨l, -, hend⟩ := h.range
    rw [endPage_eq hlt hpos] at hend
    have hi : offset / pageSize < prp.ptrList.length := by
      simp only [pageSize] at hend hone ⊢
      omega
    have hpage := List.getElem?_eq_getElem hi
    obtain ⟨memory', hwrite, -, hkeep⟩ := h (fun _ => 1) (fun _ => 0) fun _ => 0
    rw [writeData_one hlt hpos hone hpage] at hwrite
    cases hwrite
    have hsame := hkeep (prp.ptrList[offset / pageSize] + offset % pageSize) fun k hk => ?_
    · rw [memcpy, if_pos (by omega)] at hsame
      cases hsame
    · rw [address?_one hone hk, dataPages, hlaid.dataPages]
      intro heq
      obtain ⟨q, hq, haddr⟩ := Option.map_eq_some_iff.mp heq
      have hnumber : 0 < offset / pageSize := Nat.div_pos hbehind (by decide)
      have := hlaid.shifted hnumber hpage hq
      omega

/-- A range of a PRP round trips exactly when it lies on one page, and on the first one if
the PRP has a list. -/
theorem roundTrips_iff (base total : Nat) (prp : PRP) (hnew : new base total = .ok prp)
    (htotal : total < 2 ^ 64) (offset size : Nat) (hin : offset + size ≤ total) :
    prp.RoundTrips offset size ↔ prp.OnePage offset size := by
  have hlt : offset + size < 2 ^ 64 := hin.trans_lt htotal
  rw [OnePage]
  rcases Nat.eq_zero_or_pos size with rfl | hpos
  · rw [if_pos rfl]
    constructor
    · intro h
      obtain ⟨-, -, hend⟩ := h.range
      exact hend
    · exact roundTrips_empty
  · rw [if_neg hpos.ne']
    constructor
    · intro h
      exact ⟨h.one hlt hpos, h.first hnew hlt hpos⟩
    · rintro ⟨hone, hfirst⟩
      rcases new_cases hnew with ⟨hnone, hpages⟩ | ⟨hhead, hlists, page, rest, hlaid⟩
      · have hi : offset / pageSize < prp.ptrList.length :=
          Nat.div_lt_of_lt_mul (by omega)
        have hpage := List.getElem?_eq_getElem hi
        refine roundTrips_one hlt hpos hone hpage ?_
        have hall : prp.dataPages = prp.ptrList := by
          rw [dataPages, hnone]
          exact List.filter_eq_self.mpr fun page _ => by simp
        rw [hall, hpage]
      · have hzero : offset / pageSize = 0 := Nat.div_eq_of_lt (hfirst.resolve_left hlists)
        have hpage : prp.ptrList[offset / pageSize]? = some base := by
          rw [hzero, hlaid.ptrList]
          rfl
        refine roundTrips_one hlt hpos hone hpage ?_
        rw [hzero, dataPages, hlaid.dataPages]
        rfl

end RoundTrips

/-- A transfer of two pages. -/
theorem new_two {base total : Nat} (hbase : base ≠ 0) (hone : ¬ total ≤ pageSize)
    (htwo : total ≤ pageSize * 2) : new base total =
      .ok ⟨fun _ => 0, pageSize * 2, base, base + pageSize, [base, base + pageSize], []⟩ := by
  rw [new, shape, if_neg hone, if_pos htwo, Except.ok_bind, if_neg hbase]

/-- The part of the second page that a transfer of 5000 bytes has. -/
theorem roundTrips_second_page : ∃ prp, new 0x10000 5000 = .ok prp ∧ prp.RoundTrips 4096 904 := by
  have hnew : new 0x10000 5000 = .ok _ :=
    new_two (by simp) (by simp [pageSize]) (by simp [pageSize])
  refine ⟨_, hnew, (roundTrips_iff 0x10000 5000 _ hnew (by decide) 4096 904 (by decide)).mpr ?_⟩
  decide

/-- 200 bytes on two pages: the last 96 of them are never copied. -/
theorem not_roundTrips_border : ∃ prp, new 0x10000 8192 = .ok prp ∧ ¬ prp.RoundTrips 4000 200 := by
  refine ⟨_, new_two (by simp) (by simp [pageSize]) (by simp [pageSize]), fun h => ?_⟩
  exact absurd (h.one (by decide) (by decide)) (by decide)

end SimpleSSD.SIL.PRP
