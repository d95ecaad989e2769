import Mathlib.Algebra.Ring.Nat
import Mathlib.Data.Finset.Card
import Mathlib.Data.Set.Basic
import Mathlib.Data.Set.Lattice
import Mathlib.Order.CompletePartialOrder

/-!
# Ledgers

A resource is handed out in parts: `free` is what can still be handed out, `taken`
lists what has been. A ledger is sound when no two parts overlap and none of them is
free. Handing out a free part keeps it sound, and so does giving up free parts.
-/

universe u

/-- What of a resource is free and what has been taken. -/
structure Ledger (α : Type u) where
  free : Set α
  taken : List (Set α)

namespace Ledger

variable {α : Type u} {free free' part : Set α} {taken : List (Set α)}

/-- No part has been handed out twice, and none can be. -/
structure Sound (l : Ledger α) : Prop where
  apart : l.taken.Pairwise Disjoint
  notFree : ∀ part ∈ l.taken, Disjoint part l.free

theorem Sound.nil : Sound ⟨free, []⟩ := ⟨List.Pairwise.nil, by simp⟩

/-- Free parts may be given up. -/
theorem Sound.shrink (h : Sound ⟨free, taken⟩) (hfree : free' ⊆ free) : Sound ⟨free', taken⟩ :=
  ⟨h.apart, fun part hpart => (h.notFree part hpart).mono_right hfree⟩

/-- A free part may be taken. -/
theorem Sound.take (h : Sound ⟨free, taken⟩) (hpart : part ⊆ free) (hfree : free' ⊆ free \ part) :
    Sound ⟨free', part :: taken⟩ := by
  constructor
  · refine List.pairwise_cons.mpr ⟨fun other hother => ?_, h.apart⟩
    exact ((h.notFree other hother).mono_right hpart).symm
  · intro other hother
    rcases List.mem_cons.mp hother with rfl | hother
    · exact Set.disjoint_left.mpr fun x hx hx' => (hfree hx').2 hx
    · exact (h.notFree other hother).mono_right (hfree.trans Set.sdiff_subset)

/-- What has been taken out of finitely many is no more than there was. -/
theorem sum_card_le {parts : List (Finset α)} {whole : Finset α} (h : parts.Pairwise Disjoint)
    (hsub : ∀ part ∈ parts, part ⊆ whole) : (parts.map Finset.card).sum ≤ whole.card := by
  classical
  induction parts generalizing whole with
  | nil => exact Nat.zero_le _
  | cons part parts ih =>
    obtain ⟨hpart, hparts⟩ := List.pairwise_cons.mp h
    -- the others are taken out of what the first one leaves
    have hrest : ∀ other ∈ parts, other ⊆ whole \ part := fun other hother =>
      Finset.subset_sdiff.mpr
        ⟨hsub other (List.mem_cons_of_mem part hother), (hpart other hother).symm⟩
    have hcard := Finset.card_sdiff_add_card_eq_card (hsub part List.mem_cons_self)
    have hle := ih hparts hrest
    rw [List.map_cons, List.sum_cons]
    omega

end Ledger
