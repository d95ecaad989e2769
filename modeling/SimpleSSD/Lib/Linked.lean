import Mathlib.Data.PEquiv
import Mathlib.Logic.Function.Basic

/-!
# Partial functions that are inverse to each other

A table from names to places and the labels found at the places agree when each
is the partial inverse of the other (`Linked`). Two updates keep them linked:
dropping a pair on both sides, and adding a pair that is new on both sides. All
changes of a remapping store are sequences of these.

`Backed` is one half of it: a name leads to a place with its label, while a place
may keep the label of a name that has moved on.
-/

universe u v

/-- `f` and `g` are partial inverses of each other. -/
def Linked {α : Type u} {β : Type v} (f : α → Option β) (g : β → Option α) : Prop :=
  ∀ a b, f a = some b ↔ g b = some a

/-- `g` without its value at the place that `o` names, if it names one. -/
def clear {α : Type u} {β : Type v} [DecidableEq β] (g : β → Option α) (o : Option β) :
    β → Option α :=
  fun b => if o = some b then none else g b

section Clear

variable {α : Type u} {β : Type v} [DecidableEq β] {g : β → Option α}

@[simp] theorem clear_none : clear g none = g := rfl

@[simp] theorem clear_some (b : β) : clear g (some b) = Function.update g b none := by
  funext b'
  by_cases h : b' = b
  · subst h
    simp [clear]
  · simp [clear, h, Ne.symm h]

end Clear

namespace Linked

variable {α : Type u} {β : Type v} {f : α → Option β} {g : β → Option α}

/-- No place is named twice. -/
theorem injective (h : Linked f g) {a a' : α} {b : β} (ha : f a = some b) (ha' : f a' = some b) :
    a = a' :=
  Option.some.inj (((h a b).mp ha).symm.trans ((h a' b).mp ha'))

theorem congr {f' : α → Option β} {g' : β → Option α} (h : Linked f g) (hf : ∀ a, f' a = f a)
    (hg : ∀ b, g' b = g b) : Linked f' g' := fun a b => by rw [hf, hg]; exact h a b

/-- Dropping the names of a set and the places of a set that go together. -/
theorem restrict (h : Linked f g) {A : α → Prop} {B : β → Prop} [DecidablePred A]
    [DecidablePred B] (hAB : ∀ a b, f a = some b → (A a ↔ B b)) :
    Linked (fun a => if A a then none else f a) (fun b => if B b then none else g b) := by
  intro a b
  by_cases hab : f a = some b
  · have hba := (h a b).mp hab
    simp only [hab, hba, hAB a b hab]
    by_cases hB : B b <;> simp [hB]
  · have hba : g b ≠ some a := fun hg => hab ((h a b).mpr hg)
    by_cases hA : A a <;> by_cases hB : B b <;> simp [hA, hB, hab, hba]

section Update

variable [DecidableEq α] [DecidableEq β]

/-- Dropping a linked pair on both sides. -/
theorem drop (h : Linked f g) {a : α} {b : β} (hab : f a = some b) :
    Linked (Function.update f a none) (Function.update g b none) := by
  intro a' b'
  by_cases ha : a' = a
  · subst ha
    rw [Function.update_self]
    constructor
    · intro hnone
      cases hnone
    · intro hb
      by_cases hbb : b' = b
      · subst hbb
        rw [Function.update_self] at hb
        cases hb
      · rw [Function.update_of_ne hbb, ← h] at hb
        exact absurd (Option.some.inj (hb.symm.trans hab)) hbb
  · rw [Function.update_of_ne ha]
    by_cases hbb : b' = b
    · subst hbb
      rw [Function.update_self]
      constructor
      · intro ha'
        exact absurd (h.injective ha' hab) ha
      · intro hnone
        cases hnone
    · rw [Function.update_of_ne hbb]
      exact h a' b'

/-- Adding a pair that is new on both sides. -/
theorem add (h : Linked f g) {a : α} {b : β} (ha : f a = none) (hb : g b = none) :
    Linked (Function.update f a (some b)) (Function.update g b (some a)) := by
  intro a' b'
  by_cases haa : a' = a
  · subst haa
    rw [Function.update_self]
    by_cases hbb : b' = b
    · subst hbb
      simp
    · rw [Function.update_of_ne hbb, ← h, ha]
      simp [Ne.symm hbb]
  · rw [Function.update_of_ne haa]
    by_cases hbb : b' = b
    · subst hbb
      rw [Function.update_self, h, hb]
      simp [Ne.symm haa]
    · rw [Function.update_of_ne hbb]
      exact h a' b'

/-- Moving a name to a new place. -/
theorem move (h : Linked f g) {a : α} {b b' : β} (hab : f a = some b)
    (hb' : Function.update g b none b' = none) :
    Linked (Function.update f a (some b'))
      (Function.update (Function.update g b none) b' (some a)) := by
  have hmoved := (h.drop hab).add (Function.update_self a none f) hb'
  rwa [Function.update_idem] at hmoved

end Update

end Linked

/-- Every name leads to a place that carries its label. -/
def Backed {α : Type u} {β : Type v} (f : α → Option β) (g : β → Option α) : Prop :=
  ∀ a b, f a = some b → g b = some a

namespace Backed

variable {α : Type u} {β : Type v} {f : α → Option β} {g : β → Option α}

/-- No place is named twice. -/
theorem injective (h : Backed f g) {a a' : α} {b : β} (ha : f a = some b) (ha' : f a' = some b) :
    a' = a :=
  Option.some.inj ((h a' b ha').symm.trans (h a b ha))

/-- Dropping names, and clearing places that no other name leads to. -/
theorem restrict (h : Backed f g) {A : α → Prop} {B : β → Prop} [DecidablePred A]
    [DecidablePred B] (hAB : ∀ a b, f a = some b → B b → A a) :
    Backed (fun a => if A a then none else f a) (fun b => if B b then none else g b) := by
  intro a b hab
  by_cases hA : A a
  · simp only [hA, if_true] at hab
    cases hab
  · simp only [hA, if_false] at hab
    have hB : ¬ B b := fun hB => hA (hAB a b hab hB)
    simp only [hB, if_false]
    exact h a b hab

section Update

variable [DecidableEq α] [DecidableEq β] {a : α} {o : Option β}

/-- Dropping a name and clearing a place that no other name leads to. -/
theorem drop (h : Backed f g) (ho : ∀ b ∈ o, ∀ a', f a' = some b → a' = a) :
    Backed (Function.update f a none) (clear g o) := by
  intro a' b hab
  by_cases ha : a' = a
  · subst ha
    rw [Function.update_self] at hab
    cases hab
  · rw [Function.update_of_ne ha] at hab
    have hb : o ≠ some b := fun heq => ha (ho b heq a' hab)
    rw [clear, if_neg hb]
    exact h a' b hab

/-- Moving a name to a place that is free, once the old place is cleared. -/
theorem move (h : Backed f g) (ho : ∀ b ∈ o, ∀ a', f a' = some b → a' = a) {b' : β}
    (hb' : clear g o b' = none) :
    Backed (Function.update f a (some b')) (Function.update (clear g o) b' (some a)) := by
  intro a' b hab
  by_cases ha : a' = a
  · subst ha
    rw [Function.update_self] at hab
    cases hab
    rw [Function.update_self]
  · rw [Function.update_of_ne ha] at hab
    have hkept := h.drop ho a' b (by rw [Function.update_of_ne ha, hab])
    have hne : b ≠ b' := by
      rintro rfl
      rw [hb'] at hkept
      cases hkept
    rw [Function.update_of_ne hne, hkept]

end Update

end Backed
