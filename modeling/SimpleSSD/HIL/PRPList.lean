import SimpleSSD.SIL.PRP

/-!
# PRP parsing in the device (hil/nvme/dma.cc:58–202)

`PRPList` turns PRP1, PRP2 and the size of a transfer into a list of chunks of
host memory. The pages of a PRP list are read by DMA; the memory read is the
memory the host has set up, so the callbacks are a plain recursion here.

When a list page ends before the transfer does, its last entry is taken for the
address of the next list page. By then the entry has been counted as data
(dma.cc:136, 155–158).
-/

namespace SimpleSSD.HIL

/-- `PRP` (hil/nvme/dma.hh): a chunk of host memory. -/
structure PRP where
  addr : Nat
  size : Nat
  deriving DecidableEq, Repr

namespace PRPList

/-- `getPRPSize` (dma.cc:200–202). -/
def getPRPSize (pagesize addr : Nat) : Nat := pagesize - (addr &&& (pagesize - 1))

/-- The loop over the entries of a list page (dma.cc:133–147), with the words at
`slots` in host memory: `currentSize` and `prpList`. -/
def readEntries (memory : Nat → Nat) (pagesize totalSize : Nat) :
    List Nat → Nat → List PRP → Except Fault (Nat × List PRP)
  | [], currentSize, prpList => .ok (currentSize, prpList)
  | slot :: slots, currentSize, prpList =>
    let listPRP := memory slot
    let listPRPSize := getPRPSize pagesize listPRP
    let currentSize := currentSize + listPRPSize
    if listPRP = 0 then .error (.panic "getPRPListFromPRP" "prp_list: Invalid PRP in PRP List")
    else
      let prpList := prpList ++ [⟨listPRP, listPRPSize⟩]
      if totalSize ≤ currentSize then .ok (currentSize, prpList)
      else readEntries memory pagesize totalSize slots currentSize prpList

/-- The words from `base` to the end of its page. -/
def slots (pagesize base : Nat) : List Nat :=
  List.range' base ((getPRPSize pagesize base + 7) / 8) 8

/-- `getPRPListFromPRP` (dma.cc:127–198). -/
def getPRPListFromPRP (memory : Nat → Nat) (pagesize : Nat) :
    Nat → Nat → Nat → List PRP → Except Fault (List PRP)
  | 0, _, _, _ => .error (.diverges "getPRPListFromPRP")
  | fuel + 1, base, size, prpList => do
    let (currentSize, prpList) ← readEntries memory pagesize size (slots pagesize base) 0 prpList
    if currentSize < size then
      match prpList.getLast? with
      | none => .error (.badAccess "prpList.back()")
      | some link =>
        getPRPListFromPRP memory pagesize fuel link.addr (size - currentSize) prpList.dropLast
    else .ok prpList

/-- Two pointers to data (dma.cc:72–79 and 83–90). -/
def bothPointers (pagesize prp1 prp2 totalSize : Nat) : Except Fault (List PRP) :=
  let prp1Size := getPRPSize pagesize prp1
  let prp2Size := getPRPSize pagesize prp2
  if prp1Size + prp2Size < totalSize then
    .error (.panic "PRPList::PRPList" "prp_list: Invalid DPTR size")
  else .ok [⟨prp1, prp1Size⟩, ⟨prp2, prp2Size⟩]

/-- A pointer to data and a pointer to a list (dma.cc:95–96 and 103–104). Each call
of `getPRPListFromPRP` covers at least one byte of the rest, so the size bounds
their number. -/
def pointerAndList (memory : Nat → Nat) (pagesize prp1 prp2 totalSize : Nat) :
    Except Fault (List PRP) :=
  let prp1Size := getPRPSize pagesize prp1
  getPRPListFromPRP memory pagesize totalSize prp2 (totalSize - prp1Size) [⟨prp1, prp1Size⟩]

/-- The constructor (dma.cc:58–110). -/
def new (memory : Nat → Nat) (pagesize prp1 prp2 totalSize : Nat) : Except Fault (List PRP) :=
  if totalSize ≤ pagesize then
    if totalSize ≤ getPRPSize pagesize prp1 then .ok [⟨prp1, totalSize⟩]
    else bothPointers pagesize prp1 prp2 totalSize
  else if totalSize ≤ pagesize * 2 then
    if getPRPSize pagesize prp1 = pagesize then bothPointers pagesize prp1 prp2 totalSize
    else pointerAndList memory pagesize prp1 prp2 totalSize
  else pointerAndList memory pagesize prp1 prp2 totalSize

/-- The bytes that a list of chunks covers. -/
def covered (prpList : List PRP) : Nat := (prpList.map PRP.size).sum

/-! ### One list page -/

section Entries

variable {memory : Nat → Nat} {pagesize totalSize currentSize currentSize' : Nat}
  {prpList prpList' : List PRP}

theorem getPRPSize_le (pagesize addr : Nat) : getPRPSize pagesize addr ≤ pagesize := Nat.sub_le _ _

/-- A page address leaves the whole page. -/
theorem getPRPSize_aligned {addr : Nat} (h : SIL.pageSize ∣ addr) :
    getPRPSize SIL.pageSize addr = SIL.pageSize := by
  have hmod : addr % 2 ^ 12 = 0 := Nat.mod_eq_zero_of_dvd h
  rw [getPRPSize, SIL.pageSize, show (4096 : Nat) - 1 = 2 ^ 12 - 1 from rfl,
    Nat.and_two_pow_sub_one_eq_mod, hmod]

theorem slots_aligned {base : Nat} (h : SIL.pageSize ∣ base) :
    slots SIL.pageSize base = List.range' base SIL.maxEntryCount 8 := by
  rw [slots, getPRPSize_aligned h]
  rfl

/-- The entries read are appended, and counted in `currentSize`; the loop stops
within a page of the size, or at the end of the list page. -/
theorem readEntries_spec {slots : List Nat}
    (h : readEntries memory pagesize totalSize slots currentSize prpList =
      .ok (currentSize', prpList')) :
    ∃ new, prpList' = prpList ++ new ∧ currentSize' = currentSize + covered new ∧
      new.length ≤ slots.length ∧ (∀ prp ∈ new, ∃ slot, prp.addr = memory slot ∧
        prp.size = getPRPSize pagesize prp.addr) ∧
      (currentSize < totalSize → currentSize' < totalSize + pagesize) ∧
      (currentSize' < totalSize → new.length = slots.length) := by
  induction slots generalizing currentSize prpList with
  | nil =>
    cases h
    exact ⟨[], by simp, rfl, le_rfl, by simp, fun hlt => by omega, fun _ => rfl⟩
  | cons slot slots ih =>
    rw [readEntries] at h
    dsimp only at h
    split at h
    · cases h
    · split at h
      · next hstop =>
        cases h
        have hle := getPRPSize_le pagesize (memory slot)
        refine ⟨[⟨memory slot, getPRPSize pagesize (memory slot)⟩], rfl, by simp [covered], by simp,
          ?_, fun hlt => by omega, fun hlt => by omega⟩
        intro prp hprp
        rw [List.mem_singleton.mp hprp]
        exact ⟨slot, rfl, rfl⟩
      · next hmore =>
        obtain ⟨new, rfl, rfl, hlen, hmem, hbound, hall⟩ := ih h
        refine ⟨⟨memory slot, getPRPSize pagesize (memory slot)⟩ :: new, by simp, ?_, ?_, ?_,
          fun _ => hbound (by omega), fun hlt => ?_⟩
        · simp [covered, Nat.add_assoc]
        · simpa using hlen
        · intro prp hprp
          rcases List.mem_cons.mp hprp with rfl | hprp
          · exact ⟨slot, rfl, rfl⟩
          · exact hmem prp hprp
        · rw [List.length_cons, List.length_cons, hall hlt]

/-- Where the slots hold the addresses of consecutive pages, these are read until
they cover the size. -/
theorem readEntries_pages (n : Nat) {slot page count : Nat} (hcount : n < count)
    (hmem : ∀ i ≤ n, memory (slot + 8 * i) = page + SIL.pageSize * i)
    (hpage : page ≠ 0) (haligned : SIL.pageSize ∣ page)
    (hlo : currentSize + SIL.pageSize * n < totalSize)
    (hhi : totalSize ≤ currentSize + SIL.pageSize * (n + 1)) :
    readEntries memory SIL.pageSize totalSize (List.range' slot count 8) currentSize prpList =
      .ok (currentSize + SIL.pageSize * (n + 1),
        prpList ++ (List.range' page (n + 1) SIL.pageSize).map fun a => ⟨a, SIL.pageSize⟩) := by
  induction n generalizing slot page count currentSize prpList with
  | zero =>
    obtain ⟨count, rfl⟩ := Nat.exists_eq_succ_of_ne_zero (by omega : count ≠ 0)
    have hfirst := hmem 0 le_rfl
    simp only [Nat.mul_zero, Nat.add_zero] at hfirst
    rw [List.range'_succ, readEntries, hfirst, getPRPSize_aligned haligned, if_neg hpage,
      if_pos (by simpa using hhi)]
    simp
  | succ n ih =>
    obtain ⟨count, rfl⟩ := Nat.exists_eq_succ_of_ne_zero (by omega : count ≠ 0)
    have hfirst := hmem 0 (Nat.zero_le _)
    simp only [Nat.mul_zero, Nat.add_zero] at hfirst
    have hrest : ∀ i ≤ n, memory (slot + 8 + 8 * i) = page + SIL.pageSize + SIL.pageSize * i := by
      intro i hi
      have hnext := hmem (i + 1) (by omega)
      rw [show slot + 8 + 8 * i = slot + 8 * (i + 1) by omega, hnext, Nat.mul_succ]
      omega
    have hmore : ¬ totalSize ≤ currentSize + SIL.pageSize := by
      have : SIL.pageSize ≤ SIL.pageSize * (n + 1) := Nat.le_mul_of_pos_right _ (by omega)
      omega
    rw [Nat.mul_succ] at hlo hhi
    rw [List.range'_succ, readEntries, hfirst, getPRPSize_aligned haligned, if_neg hpage,
      if_neg hmore, ih (by omega) hrest (by omega) (Nat.dvd_add haligned (Nat.dvd_refl _))
        (by omega) (by omega), List.range'_succ (s := page)]
    rw [Nat.mul_succ _ (n + 1)]
    simp only [List.append_assoc, List.map_cons, List.singleton_append, Except.ok.injEq,
      Prod.mk.injEq, and_true]
    omega

end Entries

/-! ### The host's pointers -/

/-- The device finds the host's data pages in order, each once and no list page,
and they cover the transfer. -/
structure Finds (prp : SIL.PRP) (size : Nat) (prpList : List PRP) : Prop where
  pages : prpList.map PRP.addr = prp.dataPages
  nodup : (prpList.map PRP.addr).Nodup
  no_list : ∀ page ∈ prp.listPages, page ∉ prpList.map PRP.addr
  covers : size ≤ covered prpList

/-- The transfer is built at `base` and parsed back. -/
def Inverse (base size : Nat) : Prop :=
  ∃ prp prpList, SIL.PRP.new base size = .ok prp ∧
    new prp.memory SIL.pageSize prp.ptr1 prp.ptr2 size = .ok prpList ∧ Finds prp size prpList

section Inverse

variable {base size : Nat}

/-- The pages of a transfer that fit into PRP1, or PRP1 and PRP2. -/
theorem inverse_pointers (hbase : base ≠ 0) (haligned : SIL.pageSize ∣ base)
    (hsize : size ≤ SIL.pageSize * 2) : Inverse base size := by
  have hfirst := getPRPSize_aligned haligned
  have hsecond := getPRPSize_aligned (Nat.dvd_add haligned (Nat.dvd_refl _))
  by_cases hone : size ≤ SIL.pageSize
  · refine ⟨⟨fun _ => 0, SIL.pageSize, base, 0, [base], []⟩, [⟨base, size⟩], ?_, ?_, ?_⟩
    · rw [SIL.PRP.new, SIL.PRP.shape, if_pos hone]
      simp [hbase, Bind.bind, Except.bind]
    · rw [new, if_pos hone, hfirst, if_pos hone]
    · exact ⟨by simp [SIL.PRP.dataPages], by simp, by simp, by simp [covered]⟩
  · refine ⟨⟨fun _ => 0, SIL.pageSize * 2, base, base + SIL.pageSize, [base, base + SIL.pageSize],
      []⟩, [⟨base, SIL.pageSize⟩, ⟨base + SIL.pageSize, SIL.pageSize⟩], ?_, ?_, ?_⟩
    · rw [SIL.PRP.new, SIL.PRP.shape, if_neg hone, if_pos hsize]
      simp [hbase, Bind.bind, Except.bind]
    · rw [new, if_neg hone, if_pos hsize, if_pos hfirst, bothPointers, hfirst, hsecond, if_neg]
      omega
    · refine ⟨by simp [SIL.PRP.dataPages], ?_, by simp, ?_⟩
      · simp [SIL.pageSize]
      · simp only [covered, List.map_cons, List.map_nil, List.sum_cons, List.sum_nil]
        omega

/-- The pages of a transfer beyond the first, when one list page has a slot for
each. -/
theorem list_count (htwo : SIL.pageSize * 2 < size)
    (hsize : size ≤ SIL.pageSize * (SIL.maxEntryCount + 1)) :
    ∃ n, (size - SIL.pageSize - 1) / SIL.pageSize = n ∧ n < SIL.maxEntryCount ∧ n < size ∧
      (n + 1) % 2 ^ 32 = n + 1 ∧ SIL.pageSize * n < size - SIL.pageSize ∧
      size - SIL.pageSize ≤ SIL.pageSize * (n + 1) ∧
      ¬ SIL.pageSize * SIL.maxEntryCount < size - SIL.pageSize ∧ ¬ size ≤ SIL.pageSize := by
  refine ⟨_, rfl, ?_⟩
  simp only [SIL.pageSize, SIL.maxEntryCount] at htwo hsize ⊢
  omega

/-- PRP1 and the `n + 1` pages of the list behind it. -/
def listChunks (base n : Nat) : List PRP :=
  ⟨base, SIL.pageSize⟩ ::
    (List.range' (base + SIL.pageSize * 2) (n + 1) SIL.pageSize).map fun a => ⟨a, SIL.pageSize⟩

theorem listChunks_addr (base n : Nat) : (listChunks base n).map PRP.addr =
    base :: List.range' (base + SIL.pageSize * 2) (n + 1) SIL.pageSize := by
  simp [listChunks, Function.comp_def]

theorem covered_listChunks (base n : Nat) :
    covered (listChunks base n) = SIL.pageSize + SIL.pageSize * (n + 1) := by
  simp [listChunks, covered, Function.comp_def, Nat.mul_comm]

/-- One list page takes all pages behind PRP1. -/
theorem getPRPListFromPRP_listChunks {memory : Nat → Nat} {fuel n rest : Nat} (hbase : base ≠ 0)
    (haligned : SIL.pageSize ∣ base) (hslot : n < SIL.maxEntryCount)
    (hlo : SIL.pageSize * n < rest) (hhi : rest ≤ SIL.pageSize * (n + 1))
    (hmem : ∀ i ≤ n, memory (base + SIL.pageSize + 8 * i) =
      base + SIL.pageSize * 2 + SIL.pageSize * i) :
    getPRPListFromPRP memory SIL.pageSize (fuel + 1) (base + SIL.pageSize) rest
      [⟨base, SIL.pageSize⟩] = .ok (listChunks base n) := by
  have hread : readEntries memory SIL.pageSize rest
      (List.range' (base + SIL.pageSize) SIL.maxEntryCount 8) 0 [⟨base, SIL.pageSize⟩] =
        .ok (0 + SIL.pageSize * (n + 1), listChunks base n) :=
    readEntries_pages n hslot hmem (by omega) (Nat.dvd_add haligned (Nat.dvd_mul_right _ _))
      (by rwa [Nat.zero_add]) (by rwa [Nat.zero_add])
  have hdone : ¬ 0 + SIL.pageSize * (n + 1) < rest := by omega
  rw [getPRPListFromPRP, slots_aligned (Nat.dvd_add haligned (Nat.dvd_refl _)), hread]
  simp only [Bind.bind, Except.bind, if_neg hdone]

theorem new_listChunks {memory : Nat → Nat} {n : Nat} (hbase : base ≠ 0)
    (haligned : SIL.pageSize ∣ base) (hone : ¬ size ≤ SIL.pageSize)
    (htwo : ¬ size ≤ SIL.pageSize * 2) (hslot : n < SIL.maxEntryCount)
    (hlo : SIL.pageSize * n < size - SIL.pageSize)
    (hhi : size - SIL.pageSize ≤ SIL.pageSize * (n + 1))
    (hmem : ∀ i ≤ n, memory (base + SIL.pageSize + 8 * i) =
      base + SIL.pageSize * 2 + SIL.pageSize * i) :
    new memory SIL.pageSize base (base + SIL.pageSize) size = .ok (listChunks base n) := by
  obtain ⟨fuel, hfuel⟩ := Nat.exists_eq_add_one_of_ne_zero (by omega : size ≠ 0)
  rw [new, if_neg hone, if_neg htwo, pointerAndList, getPRPSize_aligned haligned]
  nth_rewrite 1 [hfuel]
  exact getPRPListFromPRP_listChunks hbase haligned hslot hlo hhi hmem

/-- The pages behind the list page are not the list page. -/
theorem finds_listChunks {memory : Nat → Nat} {capacity n : Nat}
    (hsize : size ≤ SIL.pageSize + SIL.pageSize * (n + 1)) :
    Finds ⟨memory, capacity, base, base + SIL.pageSize,
      [base, base + SIL.pageSize] ++ List.range' (base + SIL.pageSize * 2) (n + 1) SIL.pageSize,
      [base + SIL.pageSize]⟩ size (listChunks base n) := by
  have hpos : 0 < SIL.pageSize := by decide
  have hbeyond : ∀ page ∈ List.range' (base + SIL.pageSize * 2) (n + 1) SIL.pageSize,
      base + SIL.pageSize * 2 ≤ page := by
    intro page hpage
    obtain ⟨i, -, rfl⟩ := List.mem_range'.mp hpage
    exact Nat.le_add_right _ _
  have hkeep : (List.range' (base + SIL.pageSize * 2) (n + 1) SIL.pageSize).filter
      (fun page => decide (page ∉ [base + SIL.pageSize])) =
        List.range' (base + SIL.pageSize * 2) (n + 1) SIL.pageSize := by
    refine List.filter_eq_self.mpr fun page hpage => decide_eq_true fun hmem => ?_
    have := hbeyond page hpage
    rw [List.mem_singleton.mp hmem] at this
    omega
  have hne : base ≠ base + SIL.pageSize := by omega
  refine ⟨?_, ?_, ?_, ?_⟩
  · rw [listChunks_addr, SIL.PRP.dataPages, List.filter_append, hkeep, List.filter_cons_of_pos,
      List.filter_cons_of_neg, List.filter_nil, List.singleton_append]
    · simp
    · simpa using hne
  · rw [listChunks_addr, List.nodup_cons]
    refine ⟨fun hmem => ?_, List.nodup_range' SIL.pageSize hpos⟩
    have := hbeyond base hmem
    omega
  · intro page hpage
    rw [listChunks_addr, List.mem_singleton.mp hpage, List.mem_cons, not_or]
    refine ⟨hne.symm, fun hmem => ?_⟩
    have := hbeyond _ hmem
    omega
  · rw [covered_listChunks]
    exact hsize

/-- The pages of a transfer that fit into PRP1 and one PRP list. -/
theorem inverse_list (hbase : base ≠ 0) (haligned : SIL.pageSize ∣ base)
    (htwo : SIL.pageSize * 2 < size) (hsize : size ≤ SIL.pageSize * (SIL.maxEntryCount + 1)) :
    Inverse base size := by
  obtain ⟨n, hn, hslot, hfuel, hwrap, hlo, hhi, hlists, hone⟩ := list_count htwo hsize
  have htwo := not_le.mpr htwo
  -- the host enters `n + 1` pages into the list page at `base + pageSize`
  obtain ⟨c, hfill, hlist, hptr, hmem, -⟩ := SIL.PRP.fillLists_last (c := .first base 1) n rfl
    (by omega : n + 1 = 0 + n + 1) hfuel
  obtain ⟨fuel, hsucc⟩ := Nat.exists_eq_succ_of_ne_zero (by omega : size ≠ 0)
  have hshape : SIL.PRP.shape size = .ok ⟨.list,
      SIL.pageSize * 2 + SIL.pageSize * (n + 1), 1, n + 1⟩ := by
    rw [SIL.PRP.shape, if_neg hone, if_neg htwo]
    nth_rewrite 1 [hsucc]
    rw [SIL.PRP.countLists, if_neg hlists, hn, hwrap]
  have hnew : SIL.PRP.new base size = .ok ⟨c.memory,
      SIL.pageSize * 2 + SIL.pageSize * (n + 1), base, base + SIL.pageSize, c.ptrList,
      c.listPages⟩ := by
    rw [SIL.PRP.new, hshape]
    simp only [Bind.bind, Except.bind, if_neg hbase, hfill]
  have hslots : ∀ i ≤ n, c.memory (base + SIL.pageSize + 8 * i) =
      base + SIL.pageSize * 2 + SIL.pageSize * i := by
    intro i hi
    have hslot := hmem i hi
    rw [show (SIL.PRP.Cursor.first base 1).entry = 0 from rfl, Nat.zero_add] at hslot
    exact hslot
  refine ⟨_, listChunks base n, hnew,
    new_listChunks hbase haligned hone htwo hslot hlo hhi hslots, ?_⟩
  rw [hptr, hlist]
  exact finds_listChunks (by omega)

/-! ### Chained lists -/

theorem covered_append (l l' : List PRP) : covered (l ++ l') = covered l + covered l' := by
  simp [covered]

/-- Chunks of whole pages. -/
theorem covered_of_pages {l : List PRP} (h : ∀ prp ∈ l, prp.size = SIL.pageSize) :
    covered l = SIL.pageSize * l.length := by
  induction l with
  | nil => rfl
  | cons prp l ih =>
    have hrest := ih fun p hp => h p (List.mem_cons_of_mem prp hp)
    rw [covered] at hrest
    rw [covered, List.map_cons, List.sum_cons, hrest, h prp List.mem_cons_self, List.length_cons,
      Nat.mul_succ, Nat.add_comm]

section Chain

variable {memory : Nat → Nat} {fuel : Nat} {prpList prpList' : List PRP}

/-- One call of `getPRPListFromPRP` on a memory of page addresses reads whole pages
until they cover the size; or it reads a list page to its end, follows the last
entry, and leaves its size out of the rest as well. -/
theorem getPRPListFromPRP_step (hmem : ∀ a, SIL.pageSize ∣ memory a) (hbase : SIL.pageSize ∣ base)
    (hsize : 0 < size)
    (h : getPRPListFromPRP memory SIL.pageSize (fuel + 1) base size prpList = .ok prpList') :
    (size ≤ SIL.pageSize * SIL.maxEntryCount ∧
        ∃ new, prpList' = prpList ++ new ∧ covered new < size + SIL.pageSize) ∨
      ∃ new link, SIL.pageSize ∣ link ∧ covered new + SIL.pageSize < size ∧
        getPRPListFromPRP memory SIL.pageSize fuel link (size - (covered new + SIL.pageSize))
          (prpList ++ new) = .ok prpList' := by
  rw [getPRPListFromPRP, slots_aligned hbase, Except.bind_eq_ok] at h
  obtain ⟨⟨currentSize, list⟩, hread, h⟩ := h
  obtain ⟨new, rfl, rfl, hlen, hnew, hbound, hall⟩ := readEntries_spec hread
  have hpages : ∀ prp ∈ new, SIL.pageSize ∣ prp.addr ∧ prp.size = SIL.pageSize := by
    intro prp hprp
    obtain ⟨slot, haddr, hprp⟩ := hnew prp hprp
    rw [haddr] at hprp ⊢
    exact ⟨hmem slot, hprp.trans (getPRPSize_aligned (hmem slot))⟩
  have hcovered := covered_of_pages fun prp hprp => (hpages prp hprp).2
  rw [List.length_range'] at hlen hall
  simp only [Nat.zero_add] at h hall hbound
  split at h
  · next hmore =>
    -- all slots have been read, so there is a last entry
    have hlast : new ≠ [] := by
      rintro rfl
      have hzero := hall hmore
      simp [SIL.maxEntryCount, SIL.pageSize] at hzero
    obtain ⟨init, link, rfl⟩ := List.eq_nil_or_concat new |>.resolve_left hlast
    have hlink := hpages link (by simp)
    rw [List.concat_eq_append, ← List.append_assoc] at h
    simp only [List.getLast?_concat, List.dropLast_concat] at h
    have hinit : covered (init.concat link) = covered init + SIL.pageSize := by
      rw [List.concat_eq_append, covered_append]
      simp [covered, hlink.2]
    rw [← List.concat_eq_append, hinit] at h
    rw [hinit] at hmore
    exact .inr ⟨init, link.addr, hlink.1, hmore, h⟩
  · next hdone =>
    cases h
    refine .inl ⟨?_, new, rfl, hbound hsize⟩
    have := Nat.mul_le_mul_left SIL.pageSize hlen
    omega

/-- A parsed list stays within a page of the size. -/
theorem getPRPListFromPRP_covered (hmem : ∀ a, SIL.pageSize ∣ memory a)
    (hbase : SIL.pageSize ∣ base) (hsize : 0 < size)
    (h : getPRPListFromPRP memory SIL.pageSize fuel base size prpList = .ok prpList') :
    covered prpList' < covered prpList + size + SIL.pageSize := by
  induction fuel generalizing base size prpList with
  | zero => cases h
  | succ fuel ih =>
    rcases getPRPListFromPRP_step hmem hbase hsize h with
      ⟨-, new, rfl, hnew⟩ | ⟨new, link, hlink, hlt, h⟩
    · rw [covered_append]
      omega
    · have hrest := ih hlink (by omega) h
      rw [covered_append] at hrest
      omega

/-- A chained list falls short of the size. -/
theorem getPRPListFromPRP_short (hmem : ∀ a, SIL.pageSize ∣ memory a)
    (hbase : SIL.pageSize ∣ base) (hsize : SIL.pageSize * SIL.maxEntryCount < size)
    (h : getPRPListFromPRP memory SIL.pageSize fuel base size prpList = .ok prpList') :
    covered prpList' < covered prpList + size := by
  cases fuel with
  | zero => cases h
  | succ fuel =>
    rcases getPRPListFromPRP_step hmem hbase (by omega) h with
      ⟨hle, -⟩ | ⟨new, link, hlink, hlt, h⟩
    · omega
    · have hrest := getPRPListFromPRP_covered hmem hlink (by omega) h
      rw [covered_append] at hrest
      omega

/-- Longer transfers are not found in full. -/
theorem not_inverse_chain (hbase : SIL.pageSize ∣ base)
    (hsize : SIL.pageSize * (SIL.maxEntryCount + 1) < size) : ¬ Inverse base size := by
  rintro ⟨prp, prpList, hnew, hparse, hfinds⟩
  have hcovers := hfinds.covers
  have hone : ¬ size ≤ SIL.pageSize := by
    simp only [SIL.pageSize, SIL.maxEntryCount] at hsize ⊢
    omega
  have htwo : ¬ size ≤ SIL.pageSize * 2 := by
    simp only [SIL.pageSize, SIL.maxEntryCount] at hsize ⊢
    omega
  obtain ⟨hptr1, hptr2⟩ := SIL.PRP.new_pointers hnew hone htwo
  have hmem := SIL.PRP.memory_aligned hbase hnew
  rw [hptr1, hptr2, new, if_neg hone, if_neg htwo, pointerAndList, getPRPSize_aligned hbase]
    at hparse
  rw [Nat.mul_succ] at hsize
  have hshort := getPRPListFromPRP_short hmem (Nat.dvd_add hbase (Nat.dvd_refl _)) (by omega)
    hparse
  simp only [covered, List.map_cons, List.map_nil, List.sum_cons, List.sum_nil] at hshort hcovers
  omega

end Chain

end Inverse

/-- The device finds the pages that the host has entered exactly when PRP1 and one
PRP list have a slot for each. -/
theorem inverse_iff (base size : Nat) (hbase : base ≠ 0) (haligned : SIL.pageSize ∣ base)
    (_hsize : 0 < size) :
    Inverse base size ↔ size ≤ SIL.pageSize * (SIL.maxEntryCount + 1) := by
  constructor
  · intro h
    by_contra hlong
    exact not_inverse_chain haligned (not_le.mp hlong) h
  · intro h
    by_cases htwo : size ≤ SIL.pageSize * 2
    · exact inverse_pointers hbase haligned htwo
    · exact inverse_list hbase haligned (not_le.mp htwo) h

/-- A transfer of three pages and a half. -/
theorem inverse_iff_list : Inverse 0x10000 14336 :=
  (inverse_iff 0x10000 14336 (by decide) (by decide) (by decide)).mpr (by decide)

/-- One page more than PRP1 and a list hold: the device misses a page. -/
theorem not_inverse_two_lists : ¬ Inverse 0x10000 (4096 * 514) :=
  not_inverse_chain (by decide) (by decide)

end PRPList

end SimpleSSD.HIL
