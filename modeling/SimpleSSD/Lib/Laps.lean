import Mathlib.Algebra.Order.Group.Nat
import Mathlib.Data.List.Range
import Mathlib.Data.Nat.ModEq

/-!
# Laps of a ring

A stream is written into a ring of `n` slots: its `k`th element goes to slot `k % n`, in lap
`k / n`. `window n j m` lists the slots of the `m` elements from the `j`th on.
-/

namespace Laps

variable {n j k m : Nat}

/-! ### Slots -/

/-- Fewer than `n` elements apart, the slots differ. -/
theorem slot_ne (hjk : j < k) (hk : k < j + n) : j % n ≠ k % n := by
  intro h
  have hdvd : n ∣ k - j := (Nat.modEq_iff_dvd' hjk.le).mp h
  exact absurd (Nat.le_of_dvd (by omega) hdvd) (by omega)

/-- The next slot is the first behind the last. -/
theorem slot_succ (hn : 0 < n) (k : Nat) :
    (k + 1) % n = if k % n + 1 = n then 0 else k % n + 1 := by
  have hlt := Nat.mod_lt k hn
  rw [← Nat.mod_add_mod]
  split
  · next hlast => rw [hlast, Nat.mod_self]
  · exact Nat.mod_eq_of_lt (by omega)

/-! ### Laps -/

/-- The `k`th element belongs to an even lap. -/
def evenLap (n k : Nat) : Bool := decide (k / n % 2 = 0)

theorem evenLap_zero (n : Nat) : evenLap n 0 = true := by
  rw [evenLap, Nat.zero_div]
  rfl

/-- The parity changes with the first slot. -/
theorem evenLap_succ (n k : Nat) :
    evenLap n (k + 1) = if (k + 1) % n = 0 then !evenLap n k else evenLap n k := by
  unfold evenLap
  rw [Nat.succ_div]
  by_cases hdvd : n ∣ k + 1
  · rw [if_pos hdvd, if_pos (Nat.mod_eq_zero_of_dvd hdvd)]
    rcases Nat.mod_two_eq_zero_or_one (k / n) with h | h <;> rw [Nat.add_mod, h] <;> rfl
  · rw [if_neg hdvd, if_neg fun hmod => hdvd (Nat.dvd_of_mod_eq_zero hmod), Nat.add_zero]

/-- One lap later, in the same slot. -/
theorem evenLap_add (hn : 0 < n) (k : Nat) : evenLap n (k + n) = !evenLap n k := by
  unfold evenLap
  rw [Nat.add_div_right k hn]
  rcases Nat.mod_two_eq_zero_or_one (k / n) with h | h <;> rw [Nat.add_mod, h] <;> rfl

/-! ### Windows -/

/-- The slots of `m` elements, from the `j`th on. -/
def window (n j m : Nat) : List Nat := (List.range m).map fun k => (j + k) % n

@[simp] theorem length_window (n j m : Nat) : (window n j m).length = m := by simp [window]

@[simp] theorem window_zero (n j : Nat) : window n j 0 = [] := rfl

theorem window_mod (n j m : Nat) : window n (j % n) m = window n j m :=
  List.map_congr_left fun k _ => Nat.mod_add_mod j n k

/-- The last slot of a window. -/
theorem window_succ (n j m : Nat) : window n j (m + 1) = window n j m ++ [(j + m) % n] := by
  rw [window, List.range_succ, List.map_append]
  rfl

/-- The first slot of a window. -/
theorem window_cons (n j m : Nat) : window n j (m + 1) = j % n :: window n (j + 1) m := by
  rw [window, List.range_succ_eq_map, List.map_cons, List.map_map]
  refine congrArg _ (List.map_congr_left fun k _ => ?_)
  show (j + (k + 1)) % n = (j + 1 + k) % n
  rw [Nat.add_assoc, Nat.add_comm 1 k]

theorem window_add (n j m m' : Nat) :
    window n j (m + m') = window n j m ++ window n (j + m) m' := by
  induction m' with
  | zero => rw [Nat.add_zero, window_zero, List.append_nil]
  | succ m' ih =>
    rw [← Nat.add_assoc, window_succ, window_succ, ih, List.append_assoc, Nat.add_assoc]

/-- The slot behind a window is in it only when the window is the whole ring. -/
theorem not_mem_window (hm : m < n) : (j + m) % n ∉ window n j m := by
  intro hmem
  obtain ⟨k, hk, heq⟩ := List.mem_map.mp hmem
  have hlt := List.mem_range.mp hk
  exact slot_ne (show j + k < j + m by omega) (by omega) heq

theorem mem_window_self (hn : 0 < n) : (j + n) % n ∈ window n j n := by
  rw [Nat.add_mod_right]
  exact List.mem_map.mpr ⟨0, List.mem_range.mpr hn, rfl⟩

end Laps
