import SimpleSSD.Lib.Run

/-!
# Simulation with silent steps

One of two systems takes steps that the other one does not see: it tidies up, caches or
forgets. `Run.Along.foldlM_silent` is the rule for it: when every visible step of one is
matched by the other with the same outcome, and every silent one keeps the relation, then
a run agrees with the run over its visible inputs alone.

The relation may speak of the inputs that are still to come, for a step that is silent
only to what follows it.
-/

universe u v w

namespace Except

variable {ε : Type u} {α β γ δ : Type v} {x : Except ε α} {y : Except ε β} {R : α → β → Prop}

/-- The rule of sequencing for computations with the same outcome. -/
theorem Same.bind {f : α → Except ε γ} {g : β → Except ε δ} {S : γ → δ → Prop} (h : Same R x y)
    (hfg : ∀ a b, R a b → Same S (f a) (g b)) : Same S (x >>= f) (y >>= g) := by
  cases h with
  | ok h => exact hfg _ _ h
  | error e => exact .error e

theorem Same.mono {R' : α → β → Prop} (h : Same R x y) (hR : ∀ a b, R a b → R' a b) :
    Same R' x y := by
  cases h with
  | ok h => exact .ok (hR _ _ h)
  | error e => exact .error e

end Except

namespace Run

variable {ε : Type u} {σ τ : Type v} {α : Type w} {f : σ → α → Except ε σ} {g : τ → α → Except ε τ}

/-- The simulation rule: `f` runs over all inputs and `g` over the visible ones. -/
theorem Along.foldlM_silent {P : σ → α → Prop} (visible : α → Bool) {R : List α → σ → τ → Prop}
    (hvisible : ∀ a l s t, R (a :: l) s t → P s a → visible a = true →
      Except.Same (R l) (f s a) (g t a))
    (hsilent : ∀ a l s t, R (a :: l) s t → P s a → visible a = false →
      ∃ s', f s a = .ok s' ∧ R l s' t) {l : List α} {s : σ} {t : τ} (h : Along f P s l)
    (hst : R l s t) :
    Except.Same (R []) (l.foldlM f s) ((l.filter visible).foldlM g t) := by
  induction l generalizing s t with
  | nil => exact .ok hst
  | cons a l ih =>
    obtain ⟨ha, hl⟩ := h
    rw [List.foldlM_cons]
    cases hv : visible a with
    | true =>
      rw [List.filter_cons_of_pos hv, List.foldlM_cons]
      have hstep := hvisible a l s t hst ha hv
      -- the rest of the run, from where both steps have led
      cases hs : f s a with
      | error e =>
        rw [hstep.error_iff.mp hs]
        exact .error e
      | ok s' =>
        obtain ⟨t', ht, hst'⟩ := hstep.exists_ok hs
        rw [ht]
        exact ih (hl.of_ok hs) hst'
    | false =>
      rw [List.filter_cons_of_neg (by simp [hv])]
      obtain ⟨s', hs, hst'⟩ := hsilent a l s t hst ha hv
      rw [hs]
      exact ih (hl.of_ok hs) hst'

/-- The simulation rule without silent steps: the runs have the same outcome. -/
theorem Along.foldlM_same {P : σ → α → Prop} {R : σ → τ → Prop}
    (hstep : ∀ s t a, R s t → P s a → Except.Same R (f s a) (g t a)) {l : List α} {s : σ} {t : τ}
    (h : Along f P s l) (hst : R s t) : Except.Same R (l.foldlM f s) (l.foldlM g t) := by
  have hsim := h.foldlM_silent (fun _ => true) (R := fun _ => R)
    (fun a _ s t hst ha _ => hstep s t a hst ha) (fun _ _ _ _ _ _ hv => by cases hv) hst
  rwa [List.filter_true] at hsim

end Run
