import Mathlib.Data.Fintype.Card

/-!
# Following links

From a place one goes on to the next until there is none. Places are not repeated, so that the
way is shorter than the number of places, or it does not end.
-/

universe u

/-- The way from a place ends behind a number of links. -/
inductive Ends {σ : Type u} (next : σ → Option σ) : σ → Nat → Prop where
  | last {a : σ} (h : next a = none) : Ends next a 0
  | link {a b : σ} {n : Nat} (h : next a = some b) (hb : Ends next b n) : Ends next a (n + 1)

namespace Ends

variable {σ : Type u} {next : σ → Option σ} {a : σ} {m n : Nat}

theorem unique (h : Ends next a n) (h' : Ends next a m) : n = m := by
  induction h generalizing m with
  | last hnone =>
    cases h' with
    | last _ => rfl
    | link hsome _ => cases hnone.symm.trans hsome
  | link hsome _ ih =>
    cases h' with
    | last hnone => cases hnone.symm.trans hsome
    | link hsome' hb' =>
      obtain rfl := Option.some.inj (hsome.symm.trans hsome')
      exact congrArg (· + 1) (ih hb')

/-- On the way there is a place at every distance from its end. -/
theorem exists_of_le (h : Ends next a n) (hle : m ≤ n) : ∃ b, Ends next b m := by
  induction h with
  | @last a hnone =>
    obtain rfl := Nat.le_zero.mp hle
    exact ⟨a, .last hnone⟩
  | @link a b n hsome hb ih =>
    rcases Nat.le_succ_iff.mp hle with hle | rfl
    · exact ih hle
    · exact ⟨a, .link hsome hb⟩

theorem lt_card [Fintype σ] (h : Ends next a n) : n < Fintype.card σ := by
  -- places at different distances differ
  choose place hplace using fun m : Fin (n + 1) => h.exists_of_le (Nat.lt_succ_iff.mp m.isLt)
  have hinj : Function.Injective place := by
    intro i j hij
    exact Fin.ext ((hplace i).unique (hij ▸ hplace j))
  have hcard := Fintype.card_le_of_injective place hinj
  rw [Fintype.card_fin] at hcard
  exact hcard

end Ends
