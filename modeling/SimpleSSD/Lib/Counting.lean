import Mathlib.Algebra.Order.Group.Nat
import Mathlib.Data.List.Perm.Basic
import Mathlib.Data.List.Range

/-!
# Counting in a half-open interval

`countIn P b e` is what a loop `for (a = b; a < e; a++)` that counts the `a` with `P a` ends with.
-/

/-- The number of `a` in `[b, e)` with `P a`. -/
def countIn (P : Nat → Bool) (b e : Nat) : Nat := (List.range' b (e - b)).countP P

section CountIn

variable {P Q : Nat → Bool} {b m e : Nat}

theorem countIn_of_le (h : e ≤ b) : countIn P b e = 0 := by
  rw [countIn, Nat.sub_eq_zero_of_le h]
  rfl

theorem countIn_le (P : Nat → Bool) (b e : Nat) : countIn P b e ≤ e - b := by
  refine List.countP_le_length.trans ?_
  rw [List.length_range']

/-- An interval is counted in two parts. -/
theorem countIn_add (hb : b ≤ m) (he : m ≤ e) :
    countIn P b e = countIn P b m + countIn P m e := by
  have hsplit : List.range' b (e - b) = List.range' b (m - b) ++ List.range' m (e - m) := by
    have happend := @List.range'_append_1 b (m - b) (e - m)
    rw [Nat.add_sub_cancel' hb, show m - b + (e - m) = e - b by omega] at happend
    exact happend.symm
  rw [countIn, hsplit, List.countP_append]
  rfl

theorem countIn_congr (h : ∀ a, b ≤ a → a < e → P a = Q a) : countIn P b e = countIn Q b e := by
  refine List.countP_congr fun a ha => ?_
  obtain ⟨hle, hlt⟩ := List.mem_range'_1.mp ha
  rw [h a hle (by omega)]

theorem countIn_eq_zero (h : ∀ a, P a = false) : countIn P b e = 0 := by
  refine List.countP_eq_zero.mpr fun a _ => ?_
  simp [h a]

theorem countIn_succ (P : Nat → Bool) (b : Nat) :
    countIn P b (b + 1) = if P b = true then 1 else 0 := by
  rw [countIn, Nat.add_sub_cancel_left]
  simp [List.countP_cons]

/-- What is in `Q` is in `P` or in the rest of `Q`. -/
theorem countIn_eq_add (h : ∀ a, P a = true → Q a = true) :
    countIn Q b e = countIn P b e + countIn (fun a => Q a && !P a) b e := by
  unfold countIn
  induction List.range' b (e - b) with
  | nil => rfl
  | cons a l ih =>
    rw [List.countP_cons, List.countP_cons, List.countP_cons, ih]
    have ha := h a
    cases hp : P a with
    | true =>
      rw [ha hp]
      simp only [Bool.not_true, Bool.and_false, Bool.false_eq_true, if_false, if_true]
      omega
    | false =>
      simp only [Bool.not_false, Bool.and_true, Bool.false_eq_true, if_false]
      omega

/-- Counting in groups of `r`. -/
theorem countIn_div (r : Nat) (Q : Nat → Bool) (b e : Nat) :
    countIn (fun a => Q (a / r)) (r * b) (r * e) = r * countIn Q b e := by
  rcases Nat.le_total e b with h | h
  · rw [countIn_of_le h, countIn_of_le (Nat.mul_le_mul_left r h), Nat.mul_zero]
  · induction e, h using Nat.le_induction with
    | base => rw [countIn_of_le le_rfl, countIn_of_le le_rfl, Nat.mul_zero]
    | succ e h ih =>
      have hgroup :
          countIn (fun a => Q (a / r)) (r * e) (r * (e + 1)) = r * countIn Q e (e + 1) := by
        have hsame : countIn (fun a => Q (a / r)) (r * e) (r * (e + 1)) =
            countIn (fun _ => Q e) (r * e) (r * (e + 1)) := by
          refine countIn_congr fun a hle hlt => ?_
          rw [Nat.div_eq_of_lt_le (by rwa [Nat.mul_comm]) (by rwa [Nat.mul_comm])]
        rw [hsame, countIn_succ, countIn, Nat.mul_succ, Nat.add_sub_cancel_left]
        cases Q e with
        | true => simp [List.countP_eq_length.mpr]
        | false => simp
      rw [countIn_add (Nat.mul_le_mul_left r h) (Nat.mul_le_mul_left r (Nat.le_succ e)), ih, hgroup,
        countIn_add h (Nat.le_succ e), Nat.mul_add]

/-- Counting the members of a list without duplicates. -/
theorem countIn_mem {l : List Nat} (hl : l.Nodup) (b e : Nat) :
    countIn (fun a => l.contains a) b e = l.countP fun a => decide (b ≤ a ∧ a < e) := by
  rw [countIn, List.countP_eq_length_filter, List.countP_eq_length_filter]
  refine List.Perm.length_eq ?_
  refine (List.perm_ext_iff_of_nodup ((List.nodup_range' ..).filter _) (hl.filter _)).mpr
    fun a => ?_
  simp only [List.mem_filter, List.mem_range'_1, decide_eq_true_eq, List.contains_iff_mem]
  constructor
  · rintro ⟨⟨hle, hlt⟩, ha⟩
    exact ⟨ha, hle, by omega⟩
  · rintro ⟨ha, hle, hlt⟩
    exact ⟨⟨hle, by omega⟩, ha⟩

end CountIn
