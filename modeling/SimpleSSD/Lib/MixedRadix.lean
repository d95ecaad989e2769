import Mathlib.Algebra.BigOperators.Group.List.Basic
import Mathlib.Logic.Function.Basic

/-!
# Mixed radix over named places

A number is taken apart into digits at places that have a name and a radix each.
The places are listed from the least significant one on; what is left over behind
the last place is a number of its own. `digits` stores the digits in a function on
the names, `value` reads them back, and the two are inverse to each other
(`value_digits`, `digits_value`).
-/

universe u

namespace MixedRadix

variable {ι : Type u} (radix : ι → Nat)

/-- The digits of `t` at the places `ks`, stored in `c`, and what is left over. -/
def digits [DecidableEq ι] : List ι → (ι → Nat) → Nat → (ι → Nat) × Nat
  | [], c, t => (c, t)
  | k :: ks, c, t => digits ks (Function.update c k (t % radix k)) (t / radix k)

/-- The number with the digits `c` at the places `ks`, and `t` left over. -/
def value : List ι → (ι → Nat) → Nat → Nat
  | [], _, t => t
  | k :: ks, c, t => c k + radix k * value ks c t

/-- How many numbers there are at the places `ks`. -/
def size (ks : List ι) : Nat := (ks.map radix).prod

@[simp] theorem size_nil : size radix [] = 1 := rfl

@[simp] theorem size_cons (k : ι) (ks : List ι) :
    size radix (k :: ks) = radix k * size radix ks := List.prod_cons

theorem size_append (ks ks' : List ι) :
    size radix (ks ++ ks') = size radix ks * size radix ks' := by
  simp [size]

theorem size_perm {ks ks' : List ι} (h : ks.Perm ks') : size radix ks = size radix ks' :=
  (h.map radix).prod_eq

variable {radix}

/-- No radix is zero when there are numbers at all. -/
theorem radix_pos {ks : List ι} (h : 0 < size radix ks) : ∀ k ∈ ks, 0 < radix k := by
  induction ks with
  | nil =>
    intro k hk
    cases hk
  | cons k' ks ih =>
    rw [size_cons] at h
    intro k hk
    rcases List.mem_cons.mp hk with rfl | hk
    · exact Nat.pos_of_mul_pos_right h
    · exact ih (Nat.pos_of_mul_pos_left h) k hk

section

variable {ks : List ι} {c d : ι → Nat} {k : ι} {t n : Nat}

theorem value_congr (h : ∀ k ∈ ks, c k = d k) : value radix ks c t = value radix ks d t := by
  induction ks with
  | nil => rfl
  | cons k ks ih =>
    rw [value, value, h k List.mem_cons_self, ih fun k' hk' => h k' (List.mem_cons_of_mem k hk')]

/-- A number is in range exactly when what is left over is. -/
theorem value_lt_iff (hlt : ∀ k ∈ ks, d k < radix k) :
    value radix ks d t < size radix ks * n ↔ t < n := by
  induction ks generalizing n with
  | nil => simp [value]
  | cons k ks ih =>
    have hd := hlt k List.mem_cons_self
    rw [← ih fun k' hk' => hlt k' (List.mem_cons_of_mem k hk'), value, size_cons, Nat.mul_assoc]
    generalize value radix ks d t = v
    generalize size radix ks * n = m
    constructor
    · intro h
      have hmul : radix k * v < radix k * m := by omega
      exact Nat.lt_of_mul_lt_mul_left hmul
    · intro h
      have hmul : radix k * (v + 1) ≤ radix k * m := Nat.mul_le_mul_left _ h
      rw [Nat.mul_succ] at hmul
      omega

variable [DecidableEq ι]

theorem digits_append (ks ks' : List ι) (c : ι → Nat) (t : Nat) :
    digits radix (ks ++ ks') c t =
      digits radix ks' (digits radix ks c t).1 (digits radix ks c t).2 := by
  induction ks generalizing c t with
  | nil => rfl
  | cons k ks ih => exact ih _ _

theorem digits_snd (ks : List ι) (c : ι → Nat) (t : Nat) :
    (digits radix ks c t).2 = t / size radix ks := by
  induction ks generalizing c t with
  | nil => rw [size_nil, Nat.div_one, digits]
  | cons k ks ih => rw [digits, ih, size_cons, Nat.div_div_eq_div_mul]

/-- Other places keep what they had. -/
theorem digits_of_notMem (h : k ∉ ks) : (digits radix ks c t).1 k = c k := by
  induction ks generalizing c t with
  | nil => rfl
  | cons k' ks ih =>
    rw [List.mem_cons, not_or] at h
    rw [digits, ih h.2, Function.update_of_ne h.1]

theorem digits_lt (hpos : ∀ k ∈ ks, 0 < radix k) (hk : k ∈ ks) :
    (digits radix ks c t).1 k < radix k := by
  induction ks generalizing c t with
  | nil => cases hk
  | cons k' ks ih =>
    rw [digits]
    by_cases hmem : k ∈ ks
    · exact ih (fun k hk => hpos k (List.mem_cons_of_mem k' hk)) hmem
    · -- the place is set once, by this step
      obtain rfl : k = k' := by simpa [hmem] using hk
      rw [digits_of_notMem hmem, Function.update_self]
      exact Nat.mod_lt t (hpos k List.mem_cons_self)

/-- The digits of a number do not depend on what is left over behind them. -/
theorem digits_fst_add (ks : List ι) (c : ι → Nat) (t n : Nat) :
    (digits radix ks c (t + size radix ks * n)).1 = (digits radix ks c t).1 := by
  induction ks generalizing c t n with
  | nil => rfl
  | cons k ks ih =>
    rw [size_cons, Nat.mul_assoc, digits, digits, Nat.add_mul_mod_self_left]
    rcases Nat.eq_zero_or_pos (radix k) with hk | hk
    · rw [hk, Nat.zero_mul, Nat.add_zero]
    · rw [Nat.add_mul_div_left _ _ hk]
      exact ih _ _ n

/-- Another place can be set before or after. -/
theorem digits_update (hk : k ∉ ks) (c : ι → Nat) (t v : Nat) :
    (digits radix ks (Function.update c k v) t).1 =
      Function.update (digits radix ks c t).1 k v := by
  induction ks generalizing c t with
  | nil => rfl
  | cons k' ks ih =>
    rw [List.mem_cons, not_or] at hk
    rw [digits, Function.update_comm hk.1, ih hk.2, digits]

/-- Reading back the digits of a number. -/
theorem value_digits (hnodup : ks.Nodup) :
    value radix ks (digits radix ks c t).1 (digits radix ks c t).2 = t := by
  induction ks generalizing c t with
  | nil => rfl
  | cons k ks ih =>
    obtain ⟨hk, hnodup⟩ := List.nodup_cons.mp hnodup
    rw [value, digits, digits_of_notMem hk, Function.update_self, ih hnodup]
    exact Nat.mod_add_div t (radix k)

/-- The digits of a number that has been put together from digits. -/
theorem digits_value (hnodup : ks.Nodup) (hlt : ∀ k ∈ ks, d k < radix k) :
    digits radix ks c (value radix ks d t) = (fun k => if k ∈ ks then d k else c k, t) := by
  induction ks generalizing c with
  | nil => simp [digits, value]
  | cons k ks ih =>
    obtain ⟨hk, hnodup⟩ := List.nodup_cons.mp hnodup
    have hd := hlt k List.mem_cons_self
    have hmod : (d k + radix k * value radix ks d t) % radix k = d k := by
      rw [Nat.add_mul_mod_self_left, Nat.mod_eq_of_lt hd]
    have hdiv : (d k + radix k * value radix ks d t) / radix k = value radix ks d t := by
      rw [Nat.add_mul_div_left _ _ (by omega), Nat.div_eq_of_lt hd, Nat.zero_add]
    rw [value, digits, hmod, hdiv, ih hnodup fun k' hk' => hlt k' (List.mem_cons_of_mem k hk')]
    refine Prod.ext (funext fun k' => ?_) rfl
    by_cases heq : k' = k
    · subst heq
      simp [hk]
    · simp [heq]

end

end MixedRadix
