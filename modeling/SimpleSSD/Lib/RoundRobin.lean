import Mathlib.Algebra.Ring.Nat
import Mathlib.Algebra.BigOperators.Group.Finset.Piecewise
import Mathlib.Data.Int.CardIntervalMod
import Mathlib.Data.Nat.Count

/-!
# Items dealt to lanes in turn

`lanes` containers of `size` items are open at a time, one in each lane. Item
`n` goes to lane `turn lanes shift n`; a lane whose container is full opens a
new one first. `filled` is the fill of a lane's container after the lane has
taken `c` items, and `renewals` counts the containers that the first `n` items
open beyond those that are open from the start.

`renewals_add_min` is the closed form: with `lanes * size` items in a round of
containers, a full round opens `lanes` of them and the last round one for each
of its first `lanes` items. What an allocator wants to know follows: the
renewals never outrun the items (`size_mul_renewals_le`), and a stock of
containers, `lanes` of them open from the start, lasts until it is full
(`renewals_add_le_iff`).
-/

namespace RoundRobin

/-- The lane of item `n`, when item 0 goes to lane `shift`. -/
def turn (lanes shift n : Nat) : Nat := (n + shift) % lanes

/-- How many of the first `n` items go to lane `l`. -/
def uses (lanes shift l n : Nat) : Nat := Nat.count (fun i => turn lanes shift i = l) n

/-- The fill of a container of `size` items after `c` items went to its lane. -/
def filled (size c : Nat) : Nat := if c = 0 then 0 else (c - 1) % size + 1

/-- A lane opens a container for its item number `c`. -/
def Renews (size c : Nat) : Prop := 0 < c ∧ c % size = 0

instance (size c : Nat) : Decidable (Renews size c) := inferInstanceAs (Decidable (_ ∧ _))

/-- The containers opened for the first `n` items. -/
def renewals (lanes size : Nat) : Nat → Nat
  | 0 => 0
  | n + 1 => renewals lanes size n + if Renews size (n / lanes) then 1 else 0

/-- The quotient goes up when the remainder wraps. -/
theorem succ_div_mod {m : Nat} (hm : 0 < m) (n : Nat) :
    n % m + 1 = m ∧ (n + 1) / m = n / m + 1 ∧ (n + 1) % m = 0 ∨
      n % m + 1 < m ∧ (n + 1) / m = n / m ∧ (n + 1) % m = n % m + 1 := by
  have hn := Nat.mod_add_div n m
  rcases Nat.lt_or_eq_of_le (Nat.succ_le_of_lt (Nat.mod_lt n hm)) with hlt | heq
  · refine .inr ⟨hlt, (Nat.div_mod_unique hm).mpr ⟨?_, hlt⟩⟩
    omega
  · refine .inl ⟨heq, (Nat.div_mod_unique hm).mpr ⟨?_, hm⟩⟩
    rw [Nat.mul_add_one]
    omega

/-! ### The lanes -/

section Turn

variable {lanes shift : Nat}

theorem turn_lt (hlanes : 0 < lanes) (n : Nat) : turn lanes shift n < lanes := Nat.mod_lt _ hlanes

@[simp] theorem uses_zero (l : Nat) : uses lanes shift l 0 = 0 := Nat.count_zero _

theorem uses_succ (l n : Nat) :
    uses lanes shift l (n + 1) =
      uses lanes shift l n + if turn lanes shift n = l then 1 else 0 := Nat.count_succ _ _

/-- The lane whose turn it is has taken its share of the items before. -/
theorem uses_turn (hlanes : 0 < lanes) (n : Nat) :
    uses lanes shift (turn lanes shift n) n = n / lanes := by
  have hsame : ∀ i, turn lanes shift i = turn lanes shift n ↔ i ≡ n [MOD lanes] := by
    intro i
    constructor
    · intro h
      exact Nat.ModEq.add_right_cancel' shift h
    · intro h
      exact h.add_right shift
  have hcount := Nat.count_modEq_card (b := n) hlanes n
  rw [if_neg (lt_irrefl _), Nat.add_zero] at hcount
  rw [uses, ← hcount]
  simp only [hsame]

end Turn

/-! ### One container -/

section Filled

variable {size c : Nat}

@[simp] theorem filled_zero (size : Nat) : filled size 0 = 0 := rfl

theorem filled_le (hsize : 0 < size) : filled size c ≤ size := by
  unfold filled
  split
  · exact Nat.zero_le _
  · exact Nat.mod_lt _ hsize

/-- A lane opens a container when the last one is full. -/
theorem filled_eq_iff (hsize : 0 < size) : filled size c = size ↔ Renews size c := by
  unfold filled Renews
  cases c with
  | zero =>
    rw [if_pos rfl]
    exact ⟨fun h => absurd h hsize.ne, fun h => absurd h.1 (lt_irrefl 0)⟩
  | succ c =>
    obtain ⟨k, rfl⟩ := Nat.exists_eq_succ_of_ne_zero hsize.ne'
    rw [if_neg c.succ_ne_zero, Nat.add_sub_cancel, Nat.succ_mod_succ_eq_zero_iff]
    constructor
    · intro h
      exact ⟨c.succ_pos, Nat.succ.inj h⟩
    · rintro ⟨-, h⟩
      rw [h]

/-- An item goes on top of the container, or into a new one. -/
theorem filled_succ (hsize : 0 < size) (c : Nat) :
    filled size (c + 1) = (if Renews size c then 0 else filled size c) + 1 := by
  unfold filled
  rw [if_neg c.succ_ne_zero, Nat.add_sub_cancel]
  cases c with
  | zero => rw [if_neg fun h : Renews size 0 => lt_irrefl 0 h.1, if_pos rfl, Nat.zero_mod]
  | succ c =>
    rw [if_neg c.succ_ne_zero, Nat.add_sub_cancel]
    rcases succ_div_mod hsize c with ⟨-, -, hmod⟩ | ⟨-, -, hmod⟩
    · rw [if_pos ⟨c.succ_pos, hmod⟩, hmod]
    · have hno : ¬ Renews size (c + 1) := by
        rintro ⟨-, h⟩
        omega
      rw [if_neg hno, hmod]

end Filled

/-! ### Counting the renewals -/

section Renewals

variable {lanes size : Nat}

theorem renewals_mono : Monotone (renewals lanes size) := by
  refine monotone_nat_of_le_succ fun n => ?_
  rw [renewals]
  exact Nat.le_add_right _ _

/-- The items that open a container are the first of their lane's round. -/
theorem renews_iff (hlanes : 0 < lanes) (n : Nat) :
    Renews size (n / lanes) ↔ lanes ≤ n ∧ n % (lanes * size) < lanes := by
  have hround : n % (lanes * size) / lanes = n / lanes % size :=
    Nat.mod_mul_right_div_self n lanes size
  rw [Renews, ← hround, Nat.div_eq_zero_iff_lt hlanes, Nat.div_pos_iff]
  exact and_congr_left fun _ => and_iff_right hlanes

/-- The containers in use after `n` items, where one that is open from the start
is counted as it is first used. -/
theorem renewals_add_min (hlanes : 0 < lanes) (hsize : 0 < size) (n : Nat) :
    renewals lanes size n + min n lanes =
      n / (lanes * size) * lanes + min (n % (lanes * size)) lanes := by
  have hround : lanes ≤ lanes * size := Nat.le_mul_of_pos_right lanes hsize
  have hm : 0 < lanes * size := Nat.mul_pos hlanes hsize
  induction n with
  | zero => simp [renewals]
  | succ n ih =>
    have hmod : n % (lanes * size) ≤ n := Nat.mod_le n _
    have hlt : n < lanes → n % (lanes * size) = n := fun h => Nat.mod_eq_of_lt (h.trans_le hround)
    rw [renewals]
    simp only [renews_iff hlanes]
    -- an item opens a container, or uses one for the first time, iff it comes in the
    -- first `lanes` of its round
    rcases succ_div_mod hm n with ⟨hlast, hdiv, hmod'⟩ | ⟨hlast, hdiv, hmod'⟩
    · rw [hdiv, hmod', Nat.add_mul, Nat.one_mul]
      split <;> omega
    · rw [hdiv, hmod']
      split <;> omega

/-- With a container opened for the first item of each lane too, a lane opens one for
each `size` of its items. -/
theorem sum_uses_div (hlanes : 0 < lanes) (hsize : 0 < size) (shift n : Nat) :
    (Finset.range lanes).sum (fun l => (uses lanes shift l n + size - 1) / size) =
      renewals lanes size n + min n lanes := by
  have hceil :
      ∀ k, (k + 1 + size - 1) / size = (k + size - 1) / size + if k % size = 0 then 1 else 0 := by
    intro k
    rcases succ_div_mod hsize (k + size - 1) with ⟨-, hdiv, hmod⟩ | ⟨-, hdiv, hmod⟩
    · rw [show k + size - 1 + 1 = k + size by omega, Nat.add_mod_right] at hmod
      rw [show k + 1 + size - 1 = k + size - 1 + 1 by omega, hdiv, if_pos hmod]
    · rw [show k + size - 1 + 1 = k + size by omega, Nat.add_mod_right] at hmod
      rw [show k + 1 + size - 1 = k + size - 1 + 1 by omega, hdiv, if_neg (by omega)]
      rfl
  induction n with
  | zero =>
    have hzero : (size - 1) / size = 0 := Nat.div_eq_of_lt (Nat.sub_lt hsize Nat.one_pos)
    simp [renewals, hzero]
  | succ n ih =>
    -- only the lane whose turn it is may open a container
    have hstep : ∀ l ∈ Finset.range lanes, (uses lanes shift l (n + 1) + size - 1) / size =
        (uses lanes shift l n + size - 1) / size +
          if turn lanes shift n = l then (if n / lanes % size = 0 then 1 else 0) else 0 := by
      intro l _
      rw [uses_succ]
      split
      · next hl =>
        rw [hceil, ← hl, uses_turn hlanes]
      · rfl
    rw [Finset.sum_congr rfl hstep, Finset.sum_add_distrib, ih, Finset.sum_ite_eq,
      if_pos (Finset.mem_range.mpr (turn_lt hlanes n)), renewals]
    have hrenews : Renews size (n / lanes) ↔ lanes ≤ n ∧ n / lanes % size = 0 := by
      rw [Renews, Nat.div_pos_iff]
      exact and_congr_left fun _ => and_iff_right hlanes
    by_cases hn : n < lanes
    · rw [if_neg (fun h => absurd (hrenews.mp h).1 (Nat.not_le_of_lt hn)), Nat.div_eq_of_lt hn,
        Nat.zero_mod, if_pos rfl]
      omega
    · simp only [hrenews, Nat.not_lt.mp hn, true_and]
      omega

/-- The items of the containers opened so far have all been dealt. -/
theorem size_mul_renewals_le (hlanes : 0 < lanes) (hsize : 0 < size) (n : Nat) :
    size * renewals lanes size n ≤ n := by
  have hmod : n % (lanes * size) ≤ n := Nat.mod_le n _
  have hle : renewals lanes size n ≤ n / (lanes * size) * lanes := by
    have h := renewals_add_min hlanes hsize n
    omega
  calc size * renewals lanes size n ≤ size * (n / (lanes * size) * lanes) :=
        Nat.mul_le_mul_left size hle
    _ = n / (lanes * size) * (lanes * size) := by
        rw [Nat.mul_left_comm, Nat.mul_comm size lanes]
    _ ≤ n := Nat.div_mul_le_self n _

/-- A stock of `k` containers for each lane, one of them open from the start, lasts
until all its containers are full. -/
theorem renewals_add_le_iff (hlanes : 0 < lanes) (hsize : 0 < size) {k : Nat} (hk : 0 < k)
    (n : Nat) : renewals lanes size n + lanes ≤ k * lanes ↔ n ≤ k * lanes * size := by
  have hm : 0 < lanes * size := Nat.mul_pos hlanes hsize
  have hround : lanes ≤ lanes * size := Nat.le_mul_of_pos_right lanes hsize
  have hrenewals := renewals_add_min hlanes hsize n
  have hrem : n % (lanes * size) < lanes * size := Nat.mod_lt n hm
  have hsplit : n = n / (lanes * size) * (lanes * size) + n % (lanes * size) := by
    rw [Nat.mul_comm, Nat.div_add_mod]
  rw [Nat.mul_assoc]
  generalize n / (lanes * size) = q at hrenewals hsplit
  generalize n % (lanes * size) = r at hrenewals hsplit hrem
  -- the full rounds behind the last item, against the rounds in stock
  rcases Nat.lt_trichotomy q k with hlt | heq | hgt
  · have hlanes' := Nat.mul_le_mul_right lanes (Nat.succ_le_of_lt hlt)
    have hitems := Nat.mul_le_mul_right (lanes * size) (Nat.succ_le_of_lt hlt)
    rw [Nat.succ_mul] at hlanes' hitems
    constructor <;> intro _ <;> omega
  · subst heq
    have hitems := Nat.mul_le_mul_right (lanes * size) (Nat.succ_le_of_lt hk)
    rw [Nat.one_mul] at hitems
    constructor <;> intro _ <;> omega
  · have hlanes' := Nat.mul_le_mul_right lanes (Nat.succ_le_of_lt hgt)
    have hitems := Nat.mul_le_mul_right (lanes * size) (Nat.succ_le_of_lt hgt)
    rw [Nat.succ_mul] at hlanes' hitems
    constructor <;> intro _ <;> omega

end Renewals

end RoundRobin
