import Mathlib.Order.Lattice
import Mathlib.Data.List.Basic

/-!
# The first least element of a list

A loop over a list that keeps an element whenever its key is strictly less than
that of the one kept so far, starting from a default. It ends with the first
element of least key, or with the default when no key is less than the default's.
-/

namespace SimpleSSD

universe u v

variable {α : Type u} {β : Type v} [LinearOrder β]

/-- `e` is the first element of `l` whose key is least. -/
def FirstMin (key : α → β) (l : List α) (e : α) : Prop :=
  ∃ pre post, l = pre ++ e :: post ∧ (∀ x ∈ pre, key e < key x) ∧ ∀ x ∈ post, key e ≤ key x

/-- The loop, from the default `init`. -/
def scanMin (key : α → β) (init : α) (l : List α) : α :=
  l.foldl (fun acc e => if key e < key acc then e else acc) init

variable {key : α → β} {init e e' : α} {l : List α}

theorem FirstMin.mem (h : FirstMin key l e) : e ∈ l := by
  obtain ⟨pre, post, rfl, -, -⟩ := h
  simp

theorem FirstMin.le (h : FirstMin key l e) : ∀ x ∈ l, key e ≤ key x := by
  obtain ⟨pre, post, rfl, hpre, hpost⟩ := h
  intro x hx
  rcases List.mem_append.mp hx with hx | hx
  · exact (hpre x hx).le
  · rcases List.mem_cons.mp hx with rfl | hx
    · exact le_rfl
    · exact hpost x hx

/-- Putting an element in front of a list. -/
theorem firstMin_cons {a : α} :
    FirstMin key (a :: l) e ↔
      (e = a ∧ ∀ x ∈ l, key a ≤ key x) ∨ (FirstMin key l e ∧ key e < key a) := by
  constructor
  · rintro ⟨pre, post, hl, hpre, hpost⟩
    cases pre with
    | nil =>
      cases hl
      exact .inl ⟨rfl, hpost⟩
    | cons b pre =>
      cases hl
      exact .inr ⟨⟨pre, post, rfl, fun x hx => hpre x (List.mem_cons_of_mem _ hx), hpost⟩,
        hpre a List.mem_cons_self⟩
  · rintro (⟨rfl, hle⟩ | ⟨⟨pre, post, rfl, hpre, hpost⟩, hlt⟩)
    · exact ⟨[], l, rfl, fun x hx => absurd hx List.not_mem_nil, hle⟩
    · refine ⟨a :: pre, post, rfl, fun x hx => ?_, hpost⟩
      rcases List.mem_cons.mp hx with rfl | hx
      · exact hlt
      · exact hpre x hx

/-- An element at the end that is not less changes nothing. -/
theorem FirstMin.concat {a : α} (h : FirstMin key l e) (hle : key e ≤ key a) :
    FirstMin key (l ++ [a]) e := by
  obtain ⟨pre, post, rfl, hpre, hpost⟩ := h
  refine ⟨pre, post ++ [a], by simp, hpre, fun x hx => ?_⟩
  rcases List.mem_append.mp hx with hx | hx
  · exact hpost x hx
  · rwa [List.mem_singleton.mp hx]

/-- An element at the end that is less than all before it is the first least one. -/
theorem firstMin_concat_self {a : α} (h : ∀ x ∈ l, key a < key x) : FirstMin key (l ++ [a]) a :=
  ⟨l, [], rfl, h, fun _ hx => absurd hx List.not_mem_nil⟩

theorem FirstMin.unique (h : FirstMin key l e) (h' : FirstMin key l e') : e = e' := by
  induction l with
  | nil => exact absurd h.mem List.not_mem_nil
  | cons a l ih =>
    rcases firstMin_cons.mp h with ⟨rfl, hle⟩ | ⟨hmin, hlt⟩ <;>
      rcases firstMin_cons.mp h' with ⟨rfl, hle'⟩ | ⟨hmin', hlt'⟩
    · rfl
    · exact absurd (hle e' hmin'.mem) (not_le.mpr hlt')
    · exact absurd (hle' e hmin.mem) (not_le.mpr hlt)
    · exact ih hmin hmin'

/-- What the loop returns. -/
theorem scanMin_cases (key : α → β) (init : α) (l : List α) :
    (scanMin key init l = init ∧ ∀ x ∈ l, key init ≤ key x) ∨
      (FirstMin key l (scanMin key init l) ∧ key (scanMin key init l) < key init) := by
  induction l generalizing init with
  | nil => exact .inl ⟨rfl, fun x hx => absurd hx List.not_mem_nil⟩
  | cons a l ih =>
    have hcons : scanMin key init (a :: l) = scanMin key (if key a < key init then a else init) l :=
      rfl
    rw [hcons]
    by_cases ha : key a < key init
    · rw [if_pos ha]
      rcases ih a with ⟨hkeep, hle⟩ | ⟨hmin, hlt⟩
      · rw [hkeep]
        exact .inr ⟨firstMin_cons.mpr (.inl ⟨rfl, hle⟩), ha⟩
      · exact .inr ⟨firstMin_cons.mpr (.inr ⟨hmin, hlt⟩), hlt.trans ha⟩
    · rw [if_neg ha]
      have ha := not_lt.mp ha
      rcases ih init with ⟨hkeep, hle⟩ | ⟨hmin, hlt⟩
      · refine .inl ⟨hkeep, fun x hx => ?_⟩
        rcases List.mem_cons.mp hx with rfl | hx
        · exact ha
        · exact hle x hx
      · exact .inr ⟨firstMin_cons.mpr (.inr ⟨hmin, hlt.trans_le ha⟩), hlt⟩

/-- The loop finds the first least element, when its key is less than the default's. -/
theorem scanMin_eq (h : FirstMin key l e) (hlt : key e < key init) : scanMin key init l = e := by
  rcases scanMin_cases key init l with ⟨-, hle⟩ | ⟨hmin, -⟩
  · exact absurd (hle e h.mem) (not_le.mpr hlt)
  · exact hmin.unique h

end SimpleSSD
