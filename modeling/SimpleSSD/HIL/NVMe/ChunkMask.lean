import SimpleSSD.HIL.NVMe.OpenChannel

/-!
# The bits of refused pages

After the loop over the pages of a command the bits of the answer are those of the pages from the
first error on, as far as 64 bits go; beyond them the pages are not removed.
-/

namespace SimpleSSD.HIL.NVMe

open PAL (CPDPBP)

namespace ChunkUpdate

variable {u : ChunkUpdate} {n i : Nat}

/-- After `i` rounds, the first error was at `n`, or there was none. -/
structure Marked (n i : Nat) (u : ChunkUpdate) : Prop where
  le : n ≤ i
  idx : u.idx = BitVec.twoPow 64 i
  err : u.err = decide (n < i)
  mask : ∀ j < 64, u.mask.getLsbD j = decide (n ≤ j ∧ j < i)

theorem start_marked (desc : Nat → ChunkDescriptor) : Marked 0 0 (start desc) := by
  refine ⟨le_rfl, rfl, rfl, fun j hj => ?_⟩
  have hmask : (start desc).mask = 0#64 := by
    show (0 : BitVec 32).setWidth 64 <<< 32 ||| (0 : BitVec 32).setWidth 64 = 0#64
    decide
  rw [hmask, BitVec.getLsbD_zero]
  simp

theorem twoPow_shiftLeft (i : Nat) : BitVec.twoPow 64 i <<< 1 = BitVec.twoPow 64 (i + 1) := by
  rw [BitVec.twoPow_eq, BitVec.twoPow_eq, BitVec.shiftLeft_add]

/-- The bit is one of `dword0`; past the end it is gone. -/
theorem twoPow_le_iff (i : Nat) : BitVec.twoPow 64 i ≤ 0xFFFFFFFF ↔ i < 32 ∨ 64 ≤ i := by
  rw [BitVec.le_def, BitVec.toNat_twoPow_eq_ite]
  have hmax : (0xFFFFFFFF : BitVec 64).toNat + 1 = 2 ^ 32 := by decide
  rw [← Nat.lt_succ_iff, Nat.succ_eq_add_one, hmax]
  split
  · rw [Nat.pow_lt_pow_iff_right (by decide)]
    omega
  · refine iff_of_true (by decide) ?_
    omega

theorem mask_getLsbD (u : ChunkUpdate) (j : Nat) (hj : j < 64) : u.mask.getLsbD j =
    if j < 32 then u.resp.dword0.getLsbD j else u.resp.reserved.getLsbD (j - 32) := by
  rw [mask, BitVec.getLsbD_or, BitVec.getLsbD_shiftLeft, BitVec.getLsbD_setWidth,
    BitVec.getLsbD_setWidth]
  by_cases hlow : j < 32
  · simp [hlow, hj]
  · have hhigh := BitVec.getLsbD_of_ge u.resp.dword0 j (by omega)
    have hlt : j - 32 < 64 := by omega
    simp [hlow, hj, hhigh, hlt]

/-- One bit more. -/
theorem next_mask (hidx : u.idx = BitVec.twoPow 64 i) (herr : u.err = true) (j : Nat)
    (hj : j < 64) :
    u.next.mask.getLsbD j = (u.mask.getLsbD j || decide (i = j)) := by
  rw [mask_getLsbD _ j hj, mask_getLsbD _ j hj, next, if_pos herr, hidx]
  by_cases hle : BitVec.twoPow 64 i ≤ 0xFFFFFFFF
  · rw [if_pos hle]
    rw [twoPow_le_iff] at hle
    by_cases hlow : j < 32
    · rw [if_pos hlow, if_pos hlow, BitVec.getLsbD_or, BitVec.getLsbD_setWidth,
        BitVec.getLsbD_twoPow]
      congr 1
      by_cases hij : i = j
      · simp [hij, hlow, hj]
      · simp [hij]
    · rw [if_neg hlow, if_neg hlow]
      have hij : i ≠ j := by omega
      simp [hij]
  · rw [if_neg hle]
    rw [twoPow_le_iff] at hle
    by_cases hlow : j < 32
    · rw [if_pos hlow, if_pos hlow]
      have hij : i ≠ j := by omega
      simp [hij]
    · rw [if_neg hlow, if_neg hlow, BitVec.getLsbD_or, BitVec.getLsbD_setWidth,
        BitVec.getLsbD_ushiftRight, BitVec.getLsbD_twoPow]
      have hplace : 32 + (j - 32) = j := by omega
      have hlt : j - 32 < 32 := by omega
      rw [hplace]
      congr 1
      by_cases hij : i = j
      · simp [hij, hlt, hj]
      · simp [hij]

/-- A round without an error so far. -/
theorem Marked.next_ok (h : Marked i i u) {u' : ChunkUpdate} (hidx : u'.idx = u.idx)
    (hresp : u'.resp.dword0 = u.resp.dword0 ∧ u'.resp.reserved = u.resp.reserved)
    (herr : u'.err = false) : Marked (i + 1) (i + 1) u'.next := by
  refine ⟨le_rfl, ?_, ?_, fun j hj => ?_⟩
  · rw [← twoPow_shiftLeft, ← h.idx, ← hidx]
    rfl
  · show u'.err = _
    rw [herr]
    simp
  · have hmask : u'.next.mask = u.mask := by
      rw [ChunkUpdate.mask, ChunkUpdate.mask, next, if_neg (by simp [herr]), hresp.1, hresp.2]
    rw [hmask, h.mask j hj]
    congr 1
    rw [eq_iff_iff]
    omega

/-- A round with an error, now or before. -/
theorem Marked.next_err (h : Marked n i u) {u' : ChunkUpdate} (hidx : u'.idx = u.idx)
    (hresp : u'.resp.dword0 = u.resp.dword0 ∧ u'.resp.reserved = u.resp.reserved)
    (herr : u'.err = true) : Marked n (i + 1) u'.next := by
  have hle := h.le
  refine ⟨Nat.le_succ_of_le hle, ?_, ?_, fun j hj => ?_⟩
  · rw [← twoPow_shiftLeft, ← h.idx, ← hidx]
    rfl
  · show u'.err = _
    rw [herr]
    simpa using Nat.lt_succ_of_le hle
  · have hmask : u'.mask = u.mask := by rw [ChunkUpdate.mask, ChunkUpdate.mask, hresp.1, hresp.2]
    rw [next_mask (hidx.trans h.idx) herr j hj, hmask, h.mask j hj, ← Bool.decide_or]
    congr 1
    rw [eq_iff_iff]
    omega

/-! ### The pages that are left -/

theorem removeInvalid_append (mask : BitVec 64) (i : Nat) (l m : List CPDPBP) :
    removeInvalid mask (BitVec.twoPow 64 i) (l ++ m) =
      removeInvalid mask (BitVec.twoPow 64 i) l ++
        removeInvalid mask (BitVec.twoPow 64 (i + l.length)) m := by
  induction l generalizing i with
  | nil => rfl
  | cons addr rest ih =>
    have hlength : i + (addr :: rest).length = i + 1 + rest.length := by
      rw [List.length_cons]
      omega
    rw [List.cons_append, removeInvalid, removeInvalid, twoPow_shiftLeft, ih, hlength]
    split <;> rfl

theorem and_twoPow_ne_zero (mask : BitVec 64) (i : Nat) :
    mask &&& BitVec.twoPow 64 i ≠ 0 ↔ i < 64 ∧ mask.getLsbD i = true := by
  rw [BitVec.and_twoPow]
  by_cases hbit : mask.getLsbD i = true
  · have hlt : i < 64 := by
      by_contra hge
      rw [BitVec.getLsbD_of_ge mask i (by omega)] at hbit
      cases hbit
    rw [if_pos hbit]
    refine iff_of_true (fun hzero => ?_) ⟨hlt, hbit⟩
    have htoNat := congrArg BitVec.toNat hzero
    rw [BitVec.toNat_twoPow_of_lt hlt] at htoNat
    exact absurd htoNat (Nat.pos_iff_ne_zero.mp (Nat.two_pow_pos i))
  · rw [if_neg hbit]
    exact iff_of_false (fun hne => hne rfl) fun h => hbit h.2

/-- Pages whose bits are not set stay. -/
theorem removeInvalid_keep {mask : BitVec 64} {l : List CPDPBP}
    (h : ∀ j, i ≤ j → j < i + l.length → j < 64 → mask.getLsbD j = false) :
    removeInvalid mask (BitVec.twoPow 64 i) l = l := by
  induction l generalizing i with
  | nil => rfl
  | cons addr rest ih =>
    rw [List.length_cons] at h
    have hbit : ¬ mask &&& BitVec.twoPow 64 i ≠ 0 := by
      rw [and_twoPow_ne_zero]
      rintro ⟨hlt, hset⟩
      rw [h i le_rfl (by omega) hlt] at hset
      cases hset
    rw [removeInvalid, if_neg hbit, twoPow_shiftLeft, ih]
    intro j hj hlt
    exact h j (by omega) (by omega)

/-- Pages whose bits are set go, those past the bits stay. -/
theorem removeInvalid_drop {mask : BitVec 64} {l : List CPDPBP}
    (h : ∀ j, i ≤ j → j < i + l.length → j < 64 → mask.getLsbD j = true) :
    removeInvalid mask (BitVec.twoPow 64 i) l = l.drop (64 - i) := by
  induction l generalizing i with
  | nil => rw [removeInvalid, List.drop_nil]
  | cons addr rest ih =>
    rw [List.length_cons] at h
    rw [removeInvalid, twoPow_shiftLeft, ih fun j hj hlt => h j (by omega) (by omega)]
    by_cases hi : i < 64
    · rw [if_pos ((and_twoPow_ne_zero _ _).mpr ⟨hi, h i le_rfl (by omega) hi⟩)]
      have hdrop : 64 - i = (64 - (i + 1)) + 1 := by omega
      rw [hdrop, List.drop_succ_cons]
    · rw [if_neg fun hne => hi ((and_twoPow_ne_zero _ _).mp hne).1]
      have hzero : 64 - i = 0 := by omega
      have hzero' : 64 - (i + 1) = 0 := by omega
      rw [hzero, hzero', List.drop_zero, List.drop_zero]

/-- The pages before the first error go to the flash, and those past the 64 bits. -/
theorem finish_list (list : List CPDPBP) (h : Marked n list.length u) :
    (u.finish list).2 = list.take n ++ list.drop (max n 64) := by
  have hle := h.le
  by_cases herr : u.err = true
  · rw [finish, if_pos herr]
    have hone : (1 : BitVec 64) = BitVec.twoPow 64 0 := rfl
    have hsplit := removeInvalid_append u.mask 0 (list.take n) (list.drop n)
    rw [List.take_append_drop, List.length_take, Nat.min_eq_left hle, Nat.zero_add] at hsplit
    show removeInvalid u.mask 1 list = _
    rw [hone, hsplit, removeInvalid_keep, removeInvalid_drop, List.drop_drop]
    · congr 2
      omega
    · intro j hj hlt h64
      rw [List.length_drop] at hlt
      rw [h.mask j h64]
      exact decide_eq_true (by omega)
    · intro j hj hlt h64
      rw [List.length_take, Nat.min_eq_left hle] at hlt
      rw [h.mask j h64]
      exact decide_eq_false (by omega)
  · have hn : n = list.length := by
      have hdecide := h.err
      rw [Bool.eq_false_iff.mpr herr] at hdecide
      have hnot := of_decide_eq_false hdecide.symm
      omega
    rw [finish, if_neg herr, List.drop_eq_nil_of_le (by omega), List.append_nil, hn,
      List.take_length]

end ChunkUpdate

end SimpleSSD.HIL.NVMe
