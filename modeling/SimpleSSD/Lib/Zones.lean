import Mathlib.Data.List.Basic
import Mathlib.Data.List.Range

/-!
# Zones

A store is divided into zones. The pages of a zone are written one after the other, and a zone is
reset as a whole. The log of what was done says which pages of a zone are written since its last
reset, and in which order; a zone is written sequentially if these are the first pages, each once
and in increasing order.
-/

universe u

/-- What is done to a zone. -/
inductive ZoneOp (κ : Type u) where
  | write (zone : κ) (page : Nat)
  | reset (zone : κ)

namespace ZoneOp

/-- Each page of a list is written once, in increasing order and without a gap from the first. -/
def Sequential (pages : List Nat) : Prop := pages = List.range pages.length

instance (pages : List Nat) : Decidable (Sequential pages) :=
  inferInstanceAs (Decidable (pages = List.range pages.length))

theorem sequential_nil : Sequential [] := rfl

theorem Sequential.of_append {l m : List Nat} (h : Sequential (l ++ m)) : Sequential l := by
  have htake := congrArg (List.take l.length) h
  rw [List.take_left, List.take_range, List.length_append, Nat.min_eq_left (Nat.le_add_right _ _)]
    at htake
  exact htake

/-- Only the next page goes on with a sequence. -/
theorem sequential_concat_iff {l : List Nat} {page : Nat} :
    Sequential (l ++ [page]) ↔ Sequential l ∧ page = l.length := by
  constructor
  · intro h
    have hl : Sequential l := h.of_append
    refine ⟨hl, ?_⟩
    rw [Sequential, List.length_append, List.length_singleton, List.range_succ, ← hl] at h
    simpa using h
  · rintro ⟨hl, rfl⟩
    rw [Sequential, List.length_append, List.length_singleton, List.range_succ, ← hl]

variable {κ : Type u} [DecidableEq κ]

/-- The pages of a zone after one operation more. -/
def step (zone : κ) (pages : List Nat) : ZoneOp κ → List Nat
  | write z page => if z = zone then pages ++ [page] else pages
  | reset z => if z = zone then [] else pages

/-- The pages of a zone that are written since its last reset. -/
def written (zone : κ) (log : List (ZoneOp κ)) : List Nat := log.foldl (step zone) []

section Log

variable {zone z : κ} {page : Nat} {log : List (ZoneOp κ)}

theorem written_concat (op : ZoneOp κ) :
    written zone (log ++ [op]) = step zone (written zone log) op := by
  rw [written, written, List.foldl_append]
  rfl

theorem written_write_self : written z (log ++ [write z page]) = written z log ++ [page] := by
  rw [written_concat, step, if_pos rfl]

theorem written_write_of_ne (h : z ≠ zone) :
    written zone (log ++ [write z page]) = written zone log := by
  rw [written_concat, step, if_neg h]

theorem written_reset_self : written z (log ++ [reset z]) = [] := by
  rw [written_concat, step, if_pos rfl]

theorem written_reset_of_ne (h : z ≠ zone) :
    written zone (log ++ [reset z]) = written zone log := by
  rw [written_concat, step, if_neg h]

/-- Operations that write. -/
def writes (pages : List (κ × Nat)) : List (ZoneOp κ) := pages.map fun a => write a.1 a.2

/-- Without a reset the pages only grow. -/
theorem written_writes (pages : List (κ × Nat)) : written zone (log ++ writes pages) =
    written zone log ++ (pages.filter fun a => a.1 = zone).map Prod.snd := by
  induction pages generalizing log with
  | nil => simp [writes]
  | cons a rest ih =>
    have hsplit : log ++ writes (a :: rest) = (log ++ [write a.1 a.2]) ++ writes rest := by
      simp [writes]
    rw [hsplit, ih]
    by_cases hz : a.1 = zone
    · subst hz
      rw [written_write_self, List.filter_cons_of_pos (by simp)]
      simp
    · rw [written_write_of_ne hz, List.filter_cons_of_neg (by simpa using hz)]

end Log

end ZoneOp
