import Mathlib.Data.List.Basic
import Mathlib.Logic.Function.Basic

/-!
# Families of first-in first-out queues

Several queues are filled and emptied in some interleaving. `part log i` is what a log
says of queue `i`. A run conserves the queues when, on each of them, what was there and
what was put in is what was taken out and what is left, in this order: then nothing is
lost, nothing is taken twice, and nothing overtakes.
-/

universe u v

namespace Fifo

variable {ι : Type u} {α : Type v} [DecidableEq ι]

/-- The entries of a log for queue `i`. -/
def part (log : List (ι × α)) (i : ι) : List α := (log.filter fun e => e.1 = i).map Prod.snd

@[simp] theorem part_nil (i : ι) : part ([] : List (ι × α)) i = [] := rfl

theorem part_append (l l' : List (ι × α)) (i : ι) : part (l ++ l') i = part l i ++ part l' i := by
  rw [part, List.filter_append, List.map_append, part, part]

@[simp] theorem part_self (i : ι) (a : α) : part [(i, a)] i = [a] := by simp [part]

theorem part_of_ne {i j : ι} (h : i ≠ j) (a : α) : part [(i, a)] j = [] := by simp [part, h]

/-- From the contents `q` to the contents `q'`, with what came in and what went out. -/
def Conserves (pushed popped : List (ι × α)) (q q' : ι → List α) : Prop :=
  ∀ i, q i ++ part pushed i = part popped i ++ q' i

namespace Conserves

variable {pushed pushed' popped popped' : List (ι × α)} {q q' q'' : ι → List α} {i : ι} {a : α}

theorem refl (q : ι → List α) : Conserves [] [] q q := fun i => List.append_nil (q i)

theorem trans (h : Conserves pushed popped q q') (h' : Conserves pushed' popped' q' q'') :
    Conserves (pushed ++ pushed') (popped ++ popped') q q'' := by
  intro i
  rw [part_append, part_append, ← List.append_assoc, h i, List.append_assoc, h' i,
    List.append_assoc]

/-- The first entry is taken. -/
theorem pop (hi : q i = a :: q' i) (hother : ∀ j, j ≠ i → q' j = q j) :
    Conserves [] [(i, a)] q q' := by
  intro j
  rcases eq_or_ne j i with rfl | hne
  · rw [part_self, hi]
    simp
  · rw [part_of_ne (Ne.symm hne), hother j hne]
    simp

/-- What came out of an emptied queue is what was in it, when nothing came in. -/
theorem drained (h : Conserves [] popped q q') (hi : q' i = []) : part popped i = q i := by
  have hi' := h i
  rw [hi, part_nil, List.append_nil, List.append_nil] at hi'
  exact hi'.symm

end Conserves

end Fifo
