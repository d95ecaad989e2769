import SimpleSSD.HIL.Scatter
import SimpleSSD.HIL.UFS.Device

/-!
# PRDT transfers (hil/sata/device.cc:137–207, hil/ufs/device.cc:806–876)

SATA and UFS describe the memory of the host by a table of physical regions. Both devices run the
same loop over its entries, in a copy for each direction, and all four copies read the size of an
entry from 18 bits. That is the field of UFS. The one of AHCI has 22 bits, so the loop of SATA
leaves a large entry too early and goes on with the next one. `prdt_exact_iff` says which
transfers it does nevertheless.
-/

namespace SimpleSSD.HIL

/-- `PRDT`, without its reserved dword. -/
structure PRDTEntry where
  address : BitVec 64
  dw3 : BitVec 32
  deriving DecidableEq, Repr

namespace PRDTEntry

/-- The size of an entry, from some bits of its last dword. -/
def size (mask : BitVec 32) (entry : PRDTEntry) : Nat := (entry.dw3 &&& mask).toNat + 1

/-- The loop of `prdtRead` and `prdtWrite`, with `read` bytes done. -/
def loop (write : Bool) (mask : BitVec 32) (length : Nat) :
    List PRDTEntry → Nat → List DMARequest
  | [], _ => []
  | entry :: table, read =>
    let n := min (entry.size mask) (length - read)
    ⟨write, entry.address.toNat, n, read⟩ ::
      if length ≤ read + n then [] else loop write mask length table (read + n)

end PRDTEntry

/-! ### The four copies -/

/-- `SATA::Device::prdtRead`. -/
def SATA.prdtRead (prdt : List PRDTEntry) (length : Nat) : List DMARequest :=
  PRDTEntry.loop false 0x3FFFF length prdt 0

/-- `SATA::Device::prdtWrite`. -/
def SATA.prdtWrite (prdt : List PRDTEntry) (length : Nat) : List DMARequest :=
  PRDTEntry.loop true 0x3FFFF length prdt 0

/-- `UFS::Device::prdtRead`. -/
def UFS.prdtRead (prdt : List PRDTEntry) (length : Nat) : List DMARequest :=
  PRDTEntry.loop false 0x3FFFF length prdt 0

/-- `UFS::Device::prdtWrite`. -/
def UFS.prdtWrite (prdt : List PRDTEntry) (length : Nat) : List DMARequest :=
  PRDTEntry.loop true 0x3FFFF length prdt 0

/-! ### What a transfer should do -/

namespace PRDTEntry

/-- The bytes of an entry, by a field of so many bits. -/
def bytes (bits : Nat) (entry : PRDTEntry) : Nat := entry.dw3.toNat % 2 ^ bits + 1

/-- The bytes of a table. -/
def total (bits : Nat) (table : List PRDTEntry) : Nat := (table.map (bytes bits)).sum

/-- The positions in the concatenated entries that the requests are for, each request being for the
next entry, with the positions in the buffer. -/
def covered (bits : Nat) : Nat → List PRDTEntry → List DMARequest → List (Nat × Nat)
  | start, entry :: table, r :: requests =>
    (List.range r.size).map (fun k => (start + k, r.buffer + k)) ++
      covered bits (start + entry.bytes bits) table requests
  | _, _, _ => []

/-- The requests are for the entries in their order and stay within them, are not empty, pair the
bytes of the transfer with those of the buffer, and the transfer is called back once, behind the
last of them. -/
structure ExactScatter (bits length : Nat) (table : List PRDTEntry) (requests : List DMARequest) :
    Prop where
  size_pos : ∀ r ∈ requests, 0 < r.size
  count : requests.length ≤ table.length
  within : ∀ (i : Nat) (r : DMARequest) (entry : PRDTEntry), requests[i]? = some r →
    table[i]? = some entry → r.addr = entry.address.toNat ∧ r.size ≤ entry.bytes bits
  covers : covered bits 0 table requests = (List.range length).map fun i => (i, i)
  callback : CallsBack requests

/-- Each entry that a transfer gets to has a count below 2 ^ 18, or its lower 18 bits are enough for
the rest of the transfer. -/
def LowCounts (length : Nat) (table : List PRDTEntry) : Prop :=
  ∀ before entry after, table = before ++ entry :: after → total 22 before < length →
    entry.dw3.toNat % 2 ^ 22 < 2 ^ 18 ∨ length ≤ total 22 before + entry.bytes 18

end PRDTEntry

/-! ### The loop -/

namespace PRDTEntry

section Loop

variable {write : Bool} {bits length : Nat} {mask : BitVec 32}

theorem size_pos (mask : BitVec 32) (entry : PRDTEntry) : 0 < entry.size mask := Nat.succ_pos _

/-- Within the table, the requests are not empty. -/
theorem loop_size_pos (table : List PRDTEntry) {read : Nat} (h : read < length) :
    ∀ r ∈ loop write mask length table read, 0 < r.size := by
  induction table generalizing read with
  | nil => exact fun r hr => absurd hr List.not_mem_nil
  | cons entry table ih =>
    have hentry := size_pos mask entry
    rw [loop]
    refine List.forall_mem_cons.mpr ⟨?_, ?_⟩
    · show 0 < min (entry.size mask) (length - read)
      omega
    · split
      · exact fun r hr => absurd hr List.not_mem_nil
      · exact ih (by omega)

/-- There is one for an entry, at its beginning. -/
theorem loop_within (hsize : ∀ entry, size mask entry ≤ entry.bytes bits) (table : List PRDTEntry)
    (read : Nat) : (loop write mask length table read).length ≤ table.length ∧
      ∀ (i : Nat) (r : DMARequest) (entry : PRDTEntry),
        (loop write mask length table read)[i]? = some r → table[i]? = some entry →
          r.addr = entry.address.toNat ∧ r.size ≤ entry.bytes bits := by
  induction table generalizing read with
  | nil => exact ⟨le_rfl, fun i r entry hr => by cases hr⟩
  | cons entry table ih =>
    have hentry := hsize entry
    obtain ⟨hlength, hwithin⟩ := ih (read + min (entry.size mask) (length - read))
    rw [loop]
    refine ⟨?_, fun i r entry' hr hentry' => ?_⟩
    · rw [List.length_cons, List.length_cons]
      split
      · exact Nat.succ_le_succ (Nat.zero_le _)
      · exact Nat.succ_le_succ hlength
    · cases i with
      | zero =>
        cases hr
        cases hentry'
        exact ⟨rfl, (Nat.min_le_left _ _).trans hentry⟩
      | succ i =>
        rw [List.getElem?_cons_succ] at hr hentry'
        split at hr
        · cases hr
        · exact hwithin i r entry' hr hentry'

theorem map_pairs (read n : Nat) : (List.range n).map (fun k => (read + k, read + k)) =
    (List.range' read n).map fun i => (i, i) := by
  rw [List.range'_eq_map_range, List.map_map]
  rfl

theorem total_cons (bits : Nat) (entry : PRDTEntry) (table : List PRDTEntry) :
    total bits (entry :: table) = entry.bytes bits + total bits table := by
  rw [total, List.map_cons, List.sum_cons]
  rfl

/-- The entries from `read` on that a transfer gets to are taken whole, or are enough for the
rest. -/
def TakenWhole (mask : BitVec 32) (bits length read : Nat) (table : List PRDTEntry) : Prop :=
  ∀ before entry after, table = before ++ entry :: after → read + total bits before < length →
    entry.size mask = entry.bytes bits ∨ length ≤ read + total bits before + entry.size mask

theorem takenWhole_cons (entry : PRDTEntry) (table : List PRDTEntry) {read : Nat}
    (h : read < length) : TakenWhole mask bits length read (entry :: table) ↔
      (entry.size mask = entry.bytes bits ∨ length ≤ read + entry.size mask) ∧
        TakenWhole mask bits length (read + entry.bytes bits) table := by
  constructor
  · intro hall
    refine ⟨hall [] entry table rfl h, fun before e after htable hread => ?_⟩
    have hrest := hall (entry :: before) e after (by rw [htable, List.cons_append])
    rw [total_cons, ← Nat.add_assoc] at hrest
    exact hrest hread
  · rintro ⟨hfirst, hrest⟩ before e after htable hread
    cases before with
    | nil =>
      cases htable
      exact hfirst
    | cons e' before =>
      cases htable
      rw [total_cons, ← Nat.add_assoc] at hread ⊢
      exact hrest before e after rfl hread

/-- Behind the end of a transfer there is nothing to take. -/
theorem takenWhole_end (table : List PRDTEntry) {read : Nat} (h : length ≤ read) :
    TakenWhole mask bits length read table := fun _ _ _ _ hread => by omega

/-- An entry that is left too early is followed by bytes of another position. -/
theorem covered_gap {start read : Nat} (h : read < start) (hread : read < length)
    (table : List PRDTEntry) (n : Nat) (hn : 0 < n) :
    covered bits start table (loop write mask length table read) ≠
      (List.range' read n).map fun i => (i, i) := by
  obtain ⟨n, rfl⟩ := Nat.exists_eq_add_of_lt hn
  rw [Nat.zero_add, List.range'_succ, List.map_cons]
  cases table with
  | nil => exact (List.cons_ne_nil _ _).symm
  | cons entry table =>
    have hentry := size_pos mask entry
    obtain ⟨m, hm⟩ : ∃ m, min (entry.size mask) (length - read) = m + 1 :=
      ⟨min (entry.size mask) (length - read) - 1, by omega⟩
    rw [loop, covered]
    dsimp only
    rw [hm, List.range_succ_eq_map, List.map_cons, List.cons_append]
    intro heq
    have hfirst := congrArg Prod.fst (List.cons.inj heq).1
    dsimp only at hfirst
    omega

/-- The loop covers the rest when it takes the whole of each entry that it gets to, or an entry is
enough for it. -/
theorem covered_loop_iff (hsize : ∀ entry, size mask entry ≤ entry.bytes bits)
    (table : List PRDTEntry) {read : Nat} (h : read < length)
    (htotal : length ≤ read + total bits table) :
    covered bits read table (loop write mask length table read) =
        (List.range' read (length - read)).map (fun i => (i, i)) ↔
      TakenWhole mask bits length read table := by
  induction table generalizing read with
  | nil =>
    have hzero : total bits [] = 0 := rfl
    omega
  | cons entry table ih =>
    have hle := hsize entry
    rw [total_cons] at htotal
    rw [takenWhole_cons entry table h, loop, covered]
    dsimp only
    rw [map_pairs]
    by_cases hend : length ≤ read + entry.size mask
    · -- the entry is enough
      have hmin : min (entry.size mask) (length - read) = length - read := by omega
      rw [hmin, if_pos (by omega)]
      refine iff_of_true ?_ ⟨.inr hend, takenWhole_end table (by omega)⟩
      cases table <;> exact List.append_nil _
    · have hmin : min (entry.size mask) (length - read) = entry.size mask := by omega
      have hrest : List.range' read (length - read) = List.range' read (entry.size mask) ++
          List.range' (read + entry.size mask) (length - (read + entry.size mask)) := by
        rw [List.range'_append_1]
        congr 1
        omega
      rw [hmin, if_neg hend, hrest, List.map_append, List.append_cancel_left_eq]
      rcases hle.eq_or_lt with heq | hlt
      · rw [heq] at hend ⊢
        rw [ih (by omega) (by omega), and_iff_right (Or.inl rfl)]
      · refine iff_of_false (covered_gap (by omega) (by omega) table _ (by omega)) ?_
        rintro ⟨hfirst, -⟩
        omega

theorem loop_exactScatter_iff (hsize : ∀ entry, size mask entry ≤ entry.bytes bits)
    (table : List PRDTEntry) (hpos : 0 < length) (htotal : length ≤ total bits table) :
    ExactScatter bits length table (loop write mask length table 0) ↔
      TakenWhole mask bits length 0 table := by
  have hcovers : covered bits 0 table (loop write mask length table 0) =
      (List.range' 0 (length - 0)).map (fun i => (i, i)) ↔ TakenWhole mask bits length 0 table :=
    covered_loop_iff hsize table hpos (htotal.trans (Nat.zero_add _).ge)
  rw [Nat.sub_zero, ← List.range_eq_range'] at hcovers
  rw [← hcovers]
  constructor
  · exact ExactScatter.covers
  · intro h
    have hsizes : ∀ r ∈ loop write mask length table 0, 0 < r.size := loop_size_pos table hpos
    obtain ⟨hcount, hwithin⟩ := loop_within hsize table 0
    exact ⟨hsizes, hcount, hwithin, h, DMAContext.callsBack_iff.mpr hsizes⟩

/-- The lower 18 bits, as the code takes them. -/
theorem size_eq (entry : PRDTEntry) : entry.size 0x3FFFF = entry.bytes 18 := by
  rw [size, bytes, BitVec.toNat_and, show (0x3FFFF : BitVec 32).toNat = 2 ^ 18 - 1 from rfl,
    Nat.and_two_pow_sub_one_eq_mod]

theorem takenWhole_iff_lowCounts (length : Nat) (table : List PRDTEntry) :
    TakenWhole 0x3FFFF 22 length 0 table ↔ LowCounts length table := by
  have hsame : ∀ entry : PRDTEntry,
      entry.bytes 18 = entry.bytes 22 ↔ entry.dw3.toNat % 2 ^ 22 < 2 ^ 18 := by
    intro entry
    rw [bytes, bytes]
    omega
  rw [TakenWhole, LowCounts]
  simp only [size_eq, hsame, Nat.zero_add]

end Loop

end PRDTEntry

open PRDTEntry

/-- The transfers of UFS are exact. Those of SATA are when each entry that they get to has a count
below 2 ^ 18, or is enough for the rest by its lower 18 bits. -/
theorem prdt_exact_iff (table : List PRDTEntry) (length : Nat) (hpos : 0 < length) :
    (length ≤ total 18 table → ExactScatter 18 length table (UFS.prdtRead table length) ∧
        ExactScatter 18 length table (UFS.prdtWrite table length)) ∧
      (length ≤ total 22 table →
        (ExactScatter 22 length table (SATA.prdtRead table length) ↔ LowCounts length table) ∧
          (ExactScatter 22 length table (SATA.prdtWrite table length) ↔ LowCounts length table)) :=
    by
  constructor
  · intro htotal
    have hsize : ∀ entry : PRDTEntry, entry.size 0x3FFFF ≤ entry.bytes 18 := fun entry =>
      (size_eq entry).le
    have hwhole : TakenWhole 0x3FFFF 18 length 0 table := fun _ entry _ _ _ => .inl (size_eq entry)
    exact ⟨(loop_exactScatter_iff hsize table hpos htotal).mpr hwhole,
      (loop_exactScatter_iff hsize table hpos htotal).mpr hwhole⟩
  · intro htotal
    have hsize : ∀ entry : PRDTEntry, entry.size 0x3FFFF ≤ entry.bytes 22 := by
      intro entry
      rw [size_eq, bytes, bytes]
      omega
    rw [← takenWhole_iff_lowCounts]
    exact ⟨loop_exactScatter_iff hsize table hpos htotal,
      loop_exactScatter_iff hsize table hpos htotal⟩

/-- A page, and a block of the next one. -/
theorem prdt_exact_two : ExactScatter 22 4608 [⟨0x1000, 4095⟩, ⟨0x5000, 4095⟩]
    (SATA.prdtRead [⟨0x1000, 4095⟩, ⟨0x5000, 4095⟩] 4608) := by
  have hlow : ∀ entry ∈ [(⟨0x1000, 4095⟩ : PRDTEntry), ⟨0x5000, 4095⟩],
      entry.dw3.toNat % 2 ^ 22 < 2 ^ 18 := by
    decide
  refine ((prdt_exact_iff [⟨0x1000, 4095⟩, ⟨0x5000, 4095⟩] 4608 (by decide)).2 (by decide)).1.mpr ?_
  intro before entry after htable _
  exact .inl (hlow entry (by rw [htable]; simp))

/-- An entry of 2 ^ 18 + 1 bytes is left after one byte. -/
theorem not_exactScatter_large : ¬ ExactScatter 22 512 [⟨0x1000, 0x40000⟩, ⟨0x100000, 511⟩]
    (SATA.prdtWrite [⟨0x1000, 0x40000⟩, ⟨0x100000, 511⟩] 512) := by
  intro h
  have hsecond := congrArg (·[1]?) h.covers
  exact absurd hsecond (by decide +kernel)

/-! ### The sizes that UFS waits for -/

theorem map_size_loop (write : Bool) (table : List PRDTEntry) {read length : Nat}
    (h : read ≤ length) : (loop write 0x3FFFF length table read).map DMARequest.size =
      UFS.prdtSizes (table.map fun entry => ⟨⟨entry.dw3⟩⟩) (length - read) := by
  induction table generalizing read with
  | nil => rfl
  | cons entry table ih =>
    have hsize : UFS.PRDT.size ⟨⟨entry.dw3⟩⟩ = entry.size 0x3FFFF := rfl
    rw [loop, List.map_cons, List.map_cons, UFS.prdtSizes, hsize]
    dsimp only
    refine congrArg _ ?_
    by_cases hend : length ≤ read + min (entry.size 0x3FFFF) (length - read)
    · rw [if_pos hend, if_pos (by omega)]
      rfl
    · rw [if_neg hend, if_neg (by omega), ih (by omega), Nat.sub_sub]

/-- The requests are those that the device waits for. -/
theorem map_size_prdt (table : List PRDTEntry) (length : Nat) :
    (UFS.prdtRead table length).map DMARequest.size =
        UFS.prdtSizes (table.map fun entry => ⟨⟨entry.dw3⟩⟩) length ∧
      (UFS.prdtWrite table length).map DMARequest.size =
        UFS.prdtSizes (table.map fun entry => ⟨⟨entry.dw3⟩⟩) length :=
  ⟨map_size_loop false table (Nat.zero_le length), map_size_loop true table (Nat.zero_le length)⟩

end SimpleSSD.HIL
