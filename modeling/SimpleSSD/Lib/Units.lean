import Mathlib.Algebra.Order.Ring.Nat

/-!
# Bytes in units of one size

A range of bytes meets the units in which its bytes are. They follow each other from the unit of
the first byte to that of the last one, so there may be one more of them than the length alone
asks for: `divCeil_covers_iff` says when there is not.
-/

namespace Units

variable {size offset length first n i : Nat}

/-- A byte of the range is in the unit `i`. -/
def Meets (size offset length i : Nat) : Prop :=
  ∃ byte, offset ≤ byte ∧ byte < offset + length ∧ byte / size = i

/-- The `n` units from `first` on are those that the range meets. -/
def Covers (size offset length first n : Nat) : Prop :=
  ∀ i, first ≤ i ∧ i < first + n ↔ Meets size offset length i

theorem meets_iff (hsize : 0 < size) (hpos : 0 < length) : Meets size offset length i ↔
    offset / size ≤ i ∧ i ≤ (offset + length - 1) / size := by
  constructor
  · rintro ⟨byte, hle, hlt, rfl⟩
    exact ⟨Nat.div_le_div_right hle, Nat.div_le_div_right (by omega)⟩
  · rintro ⟨hfirst, hlast⟩
    have hmul := (Nat.le_div_iff_mul_le hsize).mp hlast
    rcases Nat.le_total offset (i * size) with hle | hle
    · exact ⟨i * size, hle, by omega, Nat.mul_div_cancel i hsize⟩
    · -- the unit begins before the range does
      refine ⟨offset, Nat.le_refl _, by omega, Nat.le_antisymm hfirst ?_⟩
      exact (Nat.le_div_iff_mul_le hsize).mpr hle

theorem covers_iff (hsize : 0 < size) (hpos : 0 < length) :
    Covers size offset length first n ↔
      first = offset / size ∧ first + n = (offset + length - 1) / size + 1 := by
  have hle : offset / size ≤ (offset + length - 1) / size := Nat.div_le_div_right (by omega)
  simp only [Covers, meets_iff hsize hpos]
  constructor
  · intro h
    have hbegin := (h (offset / size)).mpr ⟨Nat.le_refl _, hle⟩
    have hend := (h ((offset + length - 1) / size)).mpr ⟨hle, Nat.le_refl _⟩
    have hfirst := (h first).mp ⟨Nat.le_refl _, by omega⟩
    have hlast := (h (first + n - 1)).mp (by omega)
    omega
  · rintro ⟨hfirst, hend⟩ i
    omega

/-- The last unit, from the first one and the two remainders. -/
theorem last_eq (hpos : 0 < length) : (offset + length - 1) / size =
    offset / size + (length - 1) / size + (offset % size + (length - 1) % size) / size := by
  rcases Nat.eq_zero_or_pos size with rfl | hsize
  · simp
  · have hoffset := Nat.div_add_mod offset size
    have hlength := Nat.div_add_mod (length - 1) size
    have hsum : offset + length - 1 = offset % size + (length - 1) % size +
        size * (offset / size + (length - 1) / size) := by
      rw [Nat.mul_add]
      omega
    rw [hsum, Nat.add_mul_div_left _ _ hsize, Nat.add_comm]

/-- The length rounded up is the number of units exactly when the last byte is not pushed over
the border of a unit. -/
theorem divCeil_covers_iff (hsize : 0 < size) (hpos : 0 < length) :
    Covers size offset length (offset / size) ((length - 1) / size + 1) ↔
      offset % size + (length - 1) % size < size := by
  have hiff : (offset % size + (length - 1) % size) / size = 0 ↔
      offset % size + (length - 1) % size < size := Nat.div_eq_zero_iff_lt hsize
  rw [covers_iff hsize hpos, last_eq hpos, ← hiff]
  omega

/-- The length rounded up is never more than the number of units. -/
theorem divCeil_le (hpos : 0 < length) :
    offset / size + ((length - 1) / size + 1) ≤ (offset + length - 1) / size + 1 := by
  rw [last_eq hpos]
  exact Nat.succ_le_succ (Nat.le_add_right _ _)

/-- The units of a range inside of `total` units. -/
theorem last_lt {total : Nat} (hsize : 0 < size) (hpos : 0 < length)
    (h : offset + length ≤ total * size) : (offset + length - 1) / size < total := by
  rw [Nat.div_lt_iff_lt_mul hsize]
  omega

end Units
