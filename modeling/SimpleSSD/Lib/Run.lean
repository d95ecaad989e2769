import Mathlib.Data.List.Basic
import Mathlib.Data.List.Induction

/-!
# Runs of fallible step functions

A program that can stop with an error is a step function into `Except ε`, and
a run of it is `List.foldlM`. This module packages the inductions over such
runs once: what every step keeps, a whole run keeps.

`Except.Sat x Q E` is the postcondition of one computation: it returns a value
of `Q` or stops with an error of `E`. `Sat.bind` and `Run.Along.sat` are its
rules for sequencing and for loops.

`Along f P s l` says that `P` holds of the state *before* every step of the run
of `f` from `s` over `l`. It is the form in which a result about all runs takes
a condition on the steps: the condition may only look at the state a step
starts from and at the step's own input.
-/

universe u v w

namespace Except

variable {ε : Type u} {α β : Type v}

/-- A sequence of two computations returns iff the first returns some `a` and
the second returns from that `a`. -/
@[simp] theorem bind_eq_ok {x : Except ε α} {f : α → Except ε β} {b : β} :
    x >>= f = .ok b ↔ ∃ a, x = .ok a ∧ f a = .ok b := by
  constructor
  · intro h
    cases x with
    | error e => cases h
    | ok a => exact ⟨a, rfl, h⟩
  · rintro ⟨a, rfl, h⟩
    exact h

/-- A sequence stops with an error iff one of its two parts does. -/
theorem bind_eq_error {x : Except ε α} {f : α → Except ε β} {e : ε} :
    x >>= f = .error e ↔ x = .error e ∨ ∃ a, x = .ok a ∧ f a = .error e := by
  cases x with
  | error e' =>
    constructor
    · intro h; cases h; exact .inl rfl
    · rintro (h | ⟨_, h, _⟩) <;> cases h
      rfl
  | ok a =>
    constructor
    · intro h; exact .inr ⟨a, rfl, h⟩
    · rintro (h | ⟨_, h, hf⟩) <;> cases h
      exact hf

theorem ok_bind {a : α} {f : α → Except ε β} : (Except.ok a >>= f) = f a := rfl

/-- What is done to the result of a composition is done to the second part. -/
theorem map_bind {γ : Type v} {x : Except ε α} {f : α → Except ε β} {g : β → γ} :
    (x >>= f).map g = x >>= fun a => (f a).map g := by
  cases x <;> rfl

@[simp] theorem pure_eq_ok {a b : α} : (pure a : Except ε α) = .ok b ↔ a = b :=
  ⟨fun h => by cases h; rfl, fun h => by rw [h]; rfl⟩

theorem map_eq_ok {x : Except ε α} {f : α → β} {b : β} :
    x.map f = .ok b ↔ ∃ a, x = .ok a ∧ f a = b := by
  cases x <;> simp [Except.map]

theorem map_eq_error {x : Except ε α} {f : α → β} {e : ε} : x.map f = .error e ↔ x = .error e := by
  cases x <;> simp [Except.map]

/-! ### Postconditions -/

/-- `x` returns a value of `Q` or stops with an error of `E`. -/
def Sat (x : Except ε α) (Q : α → Prop) (E : ε → Prop) : Prop :=
  match x with
  | .ok a => Q a
  | .error e => E e

instance (x : Except ε α) (Q : α → Prop) (E : ε → Prop) [DecidablePred Q] [DecidablePred E] :
    Decidable (x.Sat Q E) :=
  match x with
  | .ok a => inferInstanceAs (Decidable (Q a))
  | .error e => inferInstanceAs (Decidable (E e))

section Sat

variable {x : Except ε α} {f : α → Except ε β} {Q Q' : α → Prop} {R : β → Prop} {E E' : ε → Prop}

@[simp] theorem sat_ok {a : α} : (Except.ok a : Except ε α).Sat Q E ↔ Q a := Iff.rfl

@[simp] theorem sat_error {e : ε} : (Except.error e : Except ε α).Sat Q E ↔ E e := Iff.rfl

theorem Sat.mono (h : x.Sat Q E) (hQ : ∀ a, Q a → Q' a) (hE : ∀ e, E e → E' e) : x.Sat Q' E' := by
  cases x with
  | ok a => exact hQ a h
  | error e => exact hE e h

/-- The rule of sequencing. -/
theorem Sat.bind (h : x.Sat Q E) (hf : ∀ a, Q a → (f a).Sat R E) : (x >>= f).Sat R E := by
  cases x with
  | ok a => exact hf a h
  | error e => exact h

theorem Sat.map {f : α → β} (h : x.Sat (fun a => R (f a)) E) : (x.map f).Sat R E := by
  cases x with
  | ok a => exact h
  | error e => exact h

theorem Sat.of_ok {a : α} (h : x.Sat Q E) (hx : x = .ok a) : Q a := by
  subst hx
  exact h

theorem Sat.of_error {e : ε} (h : x.Sat Q E) (hx : x = .error e) : E e := by
  subst hx
  exact h

/-- A computation that has no way to fail returns. -/
theorem Sat.exists_ok (h : x.Sat Q fun _ => False) : ∃ a, x = .ok a ∧ Q a := by
  cases x with
  | ok a => exact ⟨a, rfl, h⟩
  | error e => exact h.elim

/-- A computation that has no way to return stops. -/
theorem Sat.eq_error {e : ε} (h : x.Sat (fun _ => False) fun e' => e' = e) : x = .error e := by
  cases x with
  | ok a => exact h.elim
  | error e' => exact congrArg Except.error h

/-- The postcondition may remember where the value comes from. -/
theorem Sat.with_eq (h : x.Sat Q E) : x.Sat (fun a => Q a ∧ x = .ok a) E := by
  cases x with
  | ok a => exact ⟨h, rfl⟩
  | error e => exact h

/-- A postcondition may be checked outcome by outcome. -/
theorem sat_iff : x.Sat Q E ↔ (∀ a, x = .ok a → Q a) ∧ ∀ e, x = .error e → E e := by
  cases x <;> simp

end Sat

/-! ### Conditions on what a computation returns -/

/-- Whatever `x` returns lies in `Q`. -/
def All (x : Except ε α) (Q : α → Prop) : Prop :=
  match x with
  | .ok a => Q a
  | .error _ => True

instance (x : Except ε α) (Q : α → Prop) [DecidablePred Q] : Decidable (x.All Q) :=
  match x with
  | .ok a => inferInstanceAs (Decidable (Q a))
  | .error _ => .isTrue trivial

section All

variable {x : Except ε α} {Q Q' : α → Prop}

theorem all_iff : x.All Q ↔ ∀ a, x = .ok a → Q a := by
  cases x <;> simp [All]

theorem All.of_ok {a : α} (h : x.All Q) (hx : x = .ok a) : Q a := all_iff.mp h a hx

theorem All.of_forall (h : ∀ a, Q a) : x.All Q := all_iff.mpr fun a _ => h a

theorem All.mono (h : x.All Q) (hQ : ∀ a, Q a → Q' a) : x.All Q' :=
  all_iff.mpr fun a ha => hQ a (h.of_ok ha)

/-- The rule of sequencing for conditions on what is returned. -/
theorem All.bind {β : Type v} {f : α → Except ε β} {R : β → Prop} (h : x.All Q)
    (hf : ∀ a, Q a → (f a).All R) : (x >>= f).All R := by
  cases x with
  | error e => trivial
  | ok a => exact hf a h

theorem All.map {β : Type v} {f : α → β} {R : β → Prop} (h : x.All fun a => R (f a)) :
    (x.map f).All R := by
  cases x with
  | error e => trivial
  | ok a => exact h

theorem All.and {R : α → Prop} (h : x.All Q) (h' : x.All R) : x.All fun a => Q a ∧ R a :=
  all_iff.mpr fun _ ha => ⟨h.of_ok ha, h'.of_ok ha⟩

/-- A condition on what is returned may remember where the value comes from. -/
theorem All.with_eq (h : x.All Q) : x.All fun a => Q a ∧ x = .ok a := by
  cases x with
  | error e => trivial
  | ok a => exact ⟨h, rfl⟩

/-- A computed check of the value that `x` returns. -/
theorem exists_of_map {p : α → Prop} [DecidablePred p]
    (h : x.map (fun a => decide (p a)) = .ok true) : ∃ a, x = .ok a ∧ p a := by
  cases x with
  | error e => cases h
  | ok a => exact ⟨a, rfl, by simpa [Except.map] using h⟩

end All

/-! ### Two computations side by side -/

/-- If both computations return, they return related values. -/
def Rel (x : Except ε α) (y : Except ε β) (R : α → β → Prop) : Prop :=
  ∀ a b, x = .ok a → y = .ok b → R a b

section Rel

variable {γ δ : Type v} {x : Except ε α} {y : Except ε β} {R R' : α → β → Prop}

theorem rel_ok {a : α} {b : β} : (Except.ok a : Except ε α).Rel (.ok b) R ↔ R a b := by
  constructor
  · intro h
    exact h a b rfl rfl
  · rintro h _ _ ⟨⟩ ⟨⟩
    exact h

theorem rel_error_left {e : ε} : (Except.error e : Except ε α).Rel y R := by
  rintro _ _ ⟨⟩

theorem rel_error_right {e : ε} : x.Rel (Except.error e : Except ε β) R := by
  rintro _ _ - ⟨⟩

/-- The rule of sequencing for two computations. -/
theorem Rel.bind {f : α → Except ε γ} {g : β → Except ε δ} {S : γ → δ → Prop} (h : x.Rel y R)
    (hfg : ∀ a b, R a b → (f a).Rel (g b) S) : (x >>= f).Rel (y >>= g) S := by
  intro c d hc hd
  rw [bind_eq_ok] at hc hd
  obtain ⟨a, hx, hc⟩ := hc
  obtain ⟨b, hy, hd⟩ := hd
  exact hfg a b (h a b hx hy) c d hc hd

/-- Two computations that begin alike. -/
theorem Rel.bind_same {f : α → Except ε γ} {g : α → Except ε δ} {S : γ → δ → Prop}
    (hfg : ∀ a, (f a).Rel (g a) S) : (x >>= f).Rel (x >>= g) S := by
  intro c d hc hd
  rw [bind_eq_ok] at hc hd
  obtain ⟨a, hx, hc⟩ := hc
  obtain ⟨b, hy, hd⟩ := hd
  obtain rfl : a = b := by
    rw [hx] at hy
    exact Except.ok.inj hy
  exact hfg a c d hc hd

theorem Rel.mono (h : x.Rel y R) (hR : ∀ a b, R a b → R' a b) : x.Rel y R' :=
  fun a b hx hy => hR a b (h a b hx hy)

end Rel

/-- Both computations return related values, or both stop with the same error. -/
inductive Same (R : α → β → Prop) : Except ε α → Except ε β → Prop where
  | ok {a : α} {b : β} (h : R a b) : Same R (.ok a) (.ok b)
  | error (e : ε) : Same R (.error e) (.error e)

section Same

variable {x : Except ε α} {y : Except ε β} {R : α → β → Prop}

theorem Same.exists_ok {a : α} (h : Same R x y) (hx : x = .ok a) : ∃ b, y = .ok b ∧ R a b := by
  subst hx
  cases h with
  | ok h => exact ⟨_, rfl, h⟩

theorem Same.error_iff {e : ε} (h : Same R x y) : x = .error e ↔ y = .error e := by
  cases h with
  | ok h => simp
  | error e' => simp

end Same

end Except

namespace Run

variable {ε : Type u} {σ : Type v} {α : Type w} {f : σ → α → Except ε σ}

/-! ### Conditions on the steps of a run -/

/-- `P` holds of the state before each step of the run of `f` from `s` over
the inputs `l`. Nothing is asked of steps after one that stops the run. -/
def Along (f : σ → α → Except ε σ) (P : σ → α → Prop) : σ → List α → Prop
  | _, [] => True
  | s, a :: l => P s a ∧ (f s a).All fun s' => Along f P s' l

instance Along.decidable {P : σ → α → Prop} [∀ s a, Decidable (P s a)] :
    ∀ (s : σ) (l : List α), Decidable (Along f P s l)
  | _, [] => .isTrue trivial
  | s, a :: l =>
    have := fun s' => Along.decidable (P := P) s' l
    inferInstanceAs (Decidable (P s a ∧ (f s a).All fun s' => Along f P s' l))

theorem Along.mono {P Q : σ → α → Prop} (hPQ : ∀ s a, P s a → Q s a) :
    ∀ {l : List α} {s : σ}, Along f P s l → Along f Q s l
  | [], _, _ => trivial
  | _ :: _, s, ⟨h, hl⟩ => ⟨hPQ s _ h, hl.mono fun _ hs => hs.mono hPQ⟩

/-- Two conditions that hold along the run hold together. -/
theorem Along.and {P Q : σ → α → Prop} :
    ∀ {l : List α} {s : σ}, Along f P s l → Along f Q s l → Along f (fun s a => P s a ∧ Q s a) s l
  | [], _, _, _ => trivial
  | _ :: _, _, ⟨hP, hlP⟩, ⟨hQ, hlQ⟩ => by
    refine ⟨⟨hP, hQ⟩, Except.all_iff.mpr fun s' hs' => ?_⟩
    exact (hlP.of_ok hs').and (hlQ.of_ok hs')

/-- A condition that never fails holds along every run. -/
theorem Along.of_forall {P : σ → α → Prop} (h : ∀ s a, P s a) :
    ∀ (l : List α) (s : σ), Along f P s l
  | [], _ => trivial
  | a :: l, s => ⟨h s a, Except.All.of_forall fun s' => Along.of_forall h l s'⟩

/-- What an invariant and the condition give of every step holds along the run. -/
theorem Along.imp {P Q : σ → α → Prop} {I : σ → Prop}
    (hstep : ∀ s a s', I s → P s a → f s a = .ok s' → I s')
    (hQ : ∀ s a, I s → P s a → Q s a) :
    ∀ {l : List α} {s : σ}, Along f P s l → I s → Along f Q s l
  | [], _, _, _ => trivial
  | a :: _, s, ⟨ha, hl⟩, hs => by
    refine ⟨hQ s a hs ha, Except.all_iff.mpr fun s' hs' => ?_⟩
    exact (hl.of_ok hs').imp hstep hQ (hstep s a s' hs ha hs')

/-- Two conditions that the invariant makes the same hold along the same runs, of those that
meet `D`. -/
theorem Along.iff {D P Q : σ → α → Prop} {I : σ → Prop} {l : List α} {s : σ} (hD : Along f D s l)
    (hs : I s) (hstep : ∀ s a, I s → D s a → P s a → (f s a).All I)
    (hPQ : ∀ s a, I s → D s a → (P s a ↔ Q s a)) : Along f P s l ↔ Along f Q s l := by
  constructor
  · intro h
    refine (hD.and h).imp (fun s a s' hs h hexec => ?_)
      (fun s a hs h => (hPQ s a hs h.1).mp h.2) hs
    exact (hstep s a hs h.1 h.2).of_ok hexec
  · intro h
    refine (hD.and h).imp (fun s a s' hs h hexec => ?_)
      (fun s a hs h => (hPQ s a hs h.1).mpr h.2) hs
    exact (hstep s a hs h.1 ((hPQ s a hs h.1).mpr h.2)).of_ok hexec

theorem along_append {P : σ → α → Prop} {l' : List α} : ∀ {l : List α} {s : σ},
    Along f P s (l ++ l') ↔ Along f P s l ∧ (l.foldlM f s).All fun s' => Along f P s' l'
  | [], _ => (and_iff_right trivial).symm
  | a :: l, s => by
    rw [List.cons_append, Along, Along, List.foldlM_cons, and_assoc]
    refine and_congr_right fun _ => ?_
    cases f s a with
    | error e => exact iff_of_true trivial ⟨trivial, trivial⟩
    | ok s' => exact along_append

theorem Along.of_append {P : σ → α → Prop} {l l' : List α} {s s' : σ}
    (h : Along f P s (l ++ l')) (hl : l.foldlM f s = .ok s') : Along f P s' l' :=
  (along_append.mp h).2.of_ok hl

/-! ### What can be reached -/

/-- A run whose steps all meet `P` leads from `s` to `s'`. -/
def Reaches (f : σ → α → Except ε σ) (P : σ → α → Prop) (s s' : σ) : Prop :=
  ∃ l : List α, Along f P s l ∧ l.foldlM f s = .ok s'

theorem Reaches.refl {P : σ → α → Prop} (s : σ) : Reaches f P s s := ⟨[], trivial, rfl⟩

theorem Reaches.step {P : σ → α → Prop} {s s' : σ} {a : α} (ha : P s a) (h : f s a = .ok s') :
    Reaches f P s s' := by
  refine ⟨[a], ⟨ha, Except.All.of_forall fun _ => trivial⟩, ?_⟩
  rw [List.foldlM_cons, h]
  rfl

theorem Reaches.trans {P : σ → α → Prop} {s s' s'' : σ} (h : Reaches f P s s')
    (h' : Reaches f P s' s'') : Reaches f P s s'' := by
  obtain ⟨l, hl, hrun⟩ := h
  obtain ⟨l', hl', hrun'⟩ := h'
  refine ⟨l ++ l', along_append.mpr ⟨hl, hrun ▸ hl'⟩, ?_⟩
  rw [List.foldlM_append, hrun]
  exact hrun'

/-! ### Invariants of runs -/

/-- The run rule: an invariant that every step meeting `P` keeps holds at the
end of a run whose steps all meet `P`. -/
theorem Along.foldlM_inv {P : σ → α → Prop} {I : σ → Prop}
    (hstep : ∀ s a s', I s → P s a → f s a = .ok s' → I s') :
    ∀ {l : List α} {s s' : σ}, Along f P s l → I s → l.foldlM f s = .ok s' → I s'
  | [], _, _, _, hs, h => by
    rw [List.foldlM_nil, Except.pure_eq_ok] at h
    exact h ▸ hs
  | _ :: _, _, _, ⟨ha, hl⟩, hs, h => by
    rw [List.foldlM_cons, Except.bind_eq_ok] at h
    obtain ⟨s₁, h₁, h₂⟩ := h
    exact (hl.of_ok h₁).foldlM_inv hstep (hstep _ _ _ hs ha h₁) h₂

/-- The run rule with no condition on the steps. -/
theorem foldlM_inv {I : σ → Prop}
    (hstep : ∀ s a s', I s → f s a = .ok s' → I s')
    {l : List α} {s s' : σ} (hs : I s) (h : l.foldlM f s = .ok s') : I s' :=
  (Along.of_forall (P := fun _ _ => True) (fun _ _ => trivial) l s).foldlM_inv
    (fun s a s' hs _ h => hstep s a s' hs h) hs h

/-- The run rule for a loop: the invariant may speak of the inputs already
consumed. -/
theorem Along.foldlM_done {P : σ → α → Prop} {I : List α → σ → Prop} {todo : List α}
    (hstep : ∀ done a rest s s', todo = done ++ a :: rest → I done s → P s a →
      f s a = .ok s' → I (done ++ [a]) s') :
    ∀ {l done : List α} {s s' : σ}, todo = done ++ l → Along f P s l → I done s →
      l.foldlM f s = .ok s' → I todo s'
  | [], done, _, _, htodo, _, hs, h => by
    rw [List.foldlM_nil, Except.pure_eq_ok] at h
    rw [htodo, List.append_nil, ← h]
    exact hs
  | a :: l, done, s, s', htodo, ⟨ha, hl⟩, hs, h => by
    rw [List.foldlM_cons, Except.bind_eq_ok] at h
    obtain ⟨s₁, h₁, h₂⟩ := h
    have htodo' : todo = (done ++ [a]) ++ l := by simpa using htodo
    exact (hl.of_ok h₁).foldlM_done hstep htodo' (hstep done a l s s₁ htodo hs ha h₁) h₂

/-- The same with no condition on the steps. -/
theorem foldlM_done {I : List α → σ → Prop} {l : List α}
    (hstep : ∀ done a rest s s', l = done ++ a :: rest → I done s → f s a = .ok s' →
      I (done ++ [a]) s') {s s' : σ} (hs : I [] s) (h : l.foldlM f s = .ok s') : I l s' :=
  Along.foldlM_done (P := fun _ _ => True)
    (fun done a rest s s' hsplit hs _ h => hstep done a rest s s' hsplit hs h) rfl
    (Along.of_forall (fun _ _ => trivial) l s) hs h

/-- A loop ends when each of its steps does, where the step may ask what has been consumed. -/
theorem foldlM_done_ok {I : List α → σ → Prop} {l : List α}
    (hstep : ∀ done a rest s, l = done ++ a :: rest → I done s →
      ∃ s', f s a = .ok s' ∧ I (done ++ [a]) s') {s : σ} (hs : I [] s) :
    ∃ s', l.foldlM f s = .ok s' ∧ I l s' := by
  induction l using List.reverseRecOn with
  | nil => exact ⟨s, rfl, hs⟩
  | append_singleton l a ih =>
    obtain ⟨s₁, h₁, hs₁⟩ := ih fun done b rest s hsplit =>
      hstep done b (rest ++ [a]) s (by rw [hsplit, List.append_assoc, List.cons_append])
    obtain ⟨s', h, hs'⟩ := hstep l a [] s₁ rfl hs₁
    refine ⟨s', ?_, hs'⟩
    rw [List.foldlM_append, h₁, Except.ok_bind, List.foldlM_cons, h]
    rfl

/-- The refinement rule: when every step is an abstract step on what `abs` keeps
of the state, a run is an abstract run. -/
theorem Along.foldlM_abs {τ : Type*} {P : σ → α → Prop} {abs : σ → τ} {g : τ → α → τ}
    (hstep : ∀ s a s', P s a → f s a = .ok s' → abs s' = g (abs s) a) :
    ∀ {l : List α} {s s' : σ}, Along f P s l → l.foldlM f s = .ok s' → abs s' = l.foldl g (abs s)
  | [], _, _, _, h => by
    rw [List.foldlM_nil, Except.pure_eq_ok] at h
    rw [h, List.foldl_nil]
  | a :: _, s, _, ⟨ha, hl⟩, h => by
    rw [List.foldlM_cons, Except.bind_eq_ok] at h
    obtain ⟨s₁, h₁, h₂⟩ := h
    rw [List.foldl_cons, ← hstep s a s₁ ha h₁]
    exact (hl.of_ok h₁).foldlM_abs hstep h₂

/-- The rule of a counting loop: the invariant may speak of the counter. -/
theorem Along.foldlM_range {n : Nat} {I : Nat → σ → Prop} {f : σ → Nat → Except ε σ}
    {P : σ → Nat → Prop}
    (hstep : ∀ i s s', i < n → I i s → P s i → f s i = .ok s' → I (i + 1) s') {s s' : σ}
    (hP : Along f P s (List.range n)) (hs : I 0 s) (h : (List.range n).foldlM f s = .ok s') :
    I n s' := by
  have hstep' : ∀ done i rest s s', List.range n = done ++ i :: rest → I done.length s → P s i →
      f s i = .ok s' → I (done ++ [i]).length s' := by
    intro done i rest s s' hsplit hs hP h
    have hi : (List.range n)[done.length]? = some i := by rw [hsplit]; simp
    obtain ⟨hlt, hget⟩ := List.getElem?_eq_some_iff.mp hi
    rw [List.getElem_range] at hget
    rw [List.length_range] at hlt
    rw [List.length_append, List.length_singleton]
    subst hget
    exact hstep _ s s' hlt hs hP h
  have hdone : I (List.range n).length s' :=
    @Along.foldlM_done _ _ _ f P (fun done s => I done.length s) _ hstep'
      (List.range n) [] s s' rfl hP hs h
  simpa using hdone

theorem foldlM_range {n : Nat} {I : Nat → σ → Prop} {f : σ → Nat → Except ε σ}
    (hstep : ∀ i s s', i < n → I i s → f s i = .ok s' → I (i + 1) s') {s s' : σ}
    (hs : I 0 s) (h : (List.range n).foldlM f s = .ok s') : I n s' :=
  (Along.of_forall (P := fun _ _ => True) (fun _ _ => trivial) _ _).foldlM_range
    (fun i s s' hi hs _ h => hstep i s s' hi hs h) hs h

/-- A counting loop ends when each of its steps does. -/
theorem foldlM_range_ok {n : Nat} {I : Nat → σ → Prop} {f : σ → Nat → Except ε σ}
    (hstep : ∀ i s, i < n → I i s → ∃ s', f s i = .ok s' ∧ I (i + 1) s') {s : σ} (hs : I 0 s) :
    ∃ s', (List.range n).foldlM f s = .ok s' ∧ I n s' := by
  induction n with
  | zero => exact ⟨s, rfl, hs⟩
  | succ n ih =>
    obtain ⟨s₁, h₁, hs₁⟩ := ih fun i s hi => hstep i s (Nat.lt_succ_of_lt hi)
    obtain ⟨s', h, hs'⟩ := hstep n s₁ n.lt_succ_self hs₁
    refine ⟨s', ?_, hs'⟩
    rw [List.range_succ, List.foldlM_append, h₁, Except.ok_bind, List.foldlM_cons, h]
    rfl

/-- The run rule for conditions on what is returned, for steps over a list. -/
theorem Along.all {P : σ → α → Prop} {I : σ → Prop} :
    ∀ {l : List α} {s : σ}, (∀ s, ∀ a ∈ l, I s → P s a → (f s a).All I) → Along f P s l → I s →
      (l.foldlM f s).All I
  | [], _, _, _, hs => hs
  | a :: l, s, hstep, ⟨ha, hl⟩, hs => by
    rw [List.foldlM_cons]
    refine (hstep s a List.mem_cons_self hs ha).with_eq.bind fun s₁ ⟨hs₁, h₁⟩ => ?_
    exact (hl.of_ok h₁).all (fun s b hb => hstep s b (List.mem_cons_of_mem a hb)) hs₁

/-- The same with no condition on the steps. -/
theorem foldlM_all {I : σ → Prop} {l : List α} {s : σ}
    (hstep : ∀ s, ∀ a ∈ l, I s → (f s a).All I) (hs : I s) : (l.foldlM f s).All I :=
  (Along.of_forall (P := fun _ _ => True) (fun _ _ => trivial) l s).all
    (fun s a ha hs _ => hstep s a ha hs) hs

/-- The run rule for postconditions. -/
theorem Along.sat {P : σ → α → Prop} {I : σ → Prop} {E : ε → Prop}
    (hstep : ∀ s a, I s → P s a → (f s a).Sat I E) :
    ∀ {l : List α} {s : σ}, Along f P s l → I s → (l.foldlM f s).Sat I E
  | [], _, _, hs => hs
  | a :: l, s, ⟨ha, hl⟩, hs => by
    rw [List.foldlM_cons]
    exact (hstep s a hs ha).with_eq.bind fun s₁ ⟨hs₁, h₁⟩ => (hl.of_ok h₁).sat hstep hs₁

/-- The run rule for postconditions with no condition on the steps. -/
theorem foldlM_sat {I : σ → Prop} {E : ε → Prop}
    (hstep : ∀ s a, I s → (f s a).Sat I E) {l : List α} {s : σ} (hs : I s) :
    (l.foldlM f s).Sat I E :=
  (Along.of_forall (P := fun _ _ => True) (fun _ _ => trivial) l s).sat
    (fun s a hs _ => hstep s a hs) hs

/-- The rule for a counting loop. -/
theorem foldlM_range_sat {n : Nat} {I : Nat → σ → Prop} {E : ε → Prop} {f : σ → Nat → Except ε σ}
    (hstep : ∀ i s, i < n → I i s → (f s i).Sat (I (i + 1)) E) {s : σ} (hs : I 0 s) :
    ((List.range n).foldlM f s).Sat (I n) E := by
  induction n with
  | zero => exact hs
  | succ n ih =>
    have hfirst := ih fun i s hi => hstep i s (Nat.lt_succ_of_lt hi)
    rw [List.range_succ, List.foldlM_append]
    refine hfirst.bind fun s₁ hs₁ => ?_
    exact (hstep n s₁ n.lt_succ_self hs₁).bind fun s' hs' => hs'

/-! ### Loops that end iff their inputs are ready -/

section Ready

variable {I : List α → σ → Prop} {P : α → Prop}
  (hstep : ∀ done a s, I done s → P a → ∃ s', f s a = .ok s' ∧ I (done ++ [a]) s')

include hstep

theorem foldlM_of_ready_from {l : List α} {done : List α} {s : σ} (hs : I done s)
    (hl : ∀ a ∈ l, P a) : ∃ s', l.foldlM f s = .ok s' ∧ I (done ++ l) s' := by
  induction l generalizing done s with
  | nil => exact ⟨s, rfl, by rwa [List.append_nil]⟩
  | cons a l ih =>
    obtain ⟨s₁, h₁, hs₁⟩ := hstep done a s hs (hl a List.mem_cons_self)
    obtain ⟨s', h, hs'⟩ := ih hs₁ fun b hb => hl b (List.mem_cons_of_mem a hb)
    refine ⟨s', ?_, ?_⟩
    · rw [List.foldlM_cons, h₁]
      exact h
    · rwa [List.append_assoc] at hs'

/-- A loop all of whose inputs are ready ends. -/
theorem foldlM_of_ready {l : List α} {s : σ} (hs : I [] s) (hl : ∀ a ∈ l, P a) :
    ∃ s', l.foldlM f s = .ok s' ∧ I l s' := foldlM_of_ready_from hstep hs hl

theorem ready_of_foldlM_from (hready : ∀ done a s s', I done s → f s a = .ok s' → P a)
    {l : List α} {done : List α} {s s' : σ} (hs : I done s) (h : l.foldlM f s = .ok s') :
    ∀ a ∈ l, P a := by
  induction l generalizing done s with
  | nil =>
    intro a ha
    cases ha
  | cons a l ih =>
    rw [List.foldlM_cons, Except.bind_eq_ok] at h
    obtain ⟨s₁, h₁, h⟩ := h
    have hP := hready done a s s₁ hs h₁
    obtain ⟨s₂, h₂, hs₂⟩ := hstep done a s hs hP
    obtain rfl : s₁ = s₂ := by
      rw [h₁] at h₂
      exact Except.ok.inj h₂
    intro b hb
    rcases List.mem_cons.mp hb with rfl | hb
    · exact hP
    · exact ih hs₂ h b hb

/-- The inputs of a loop that ends are ready, when no step accepts one that is not. -/
theorem ready_of_foldlM (hready : ∀ done a s s', I done s → f s a = .ok s' → P a) {l : List α}
    {s s' : σ} (hs : I [] s) (h : l.foldlM f s = .ok s') : ∀ a ∈ l, P a :=
  ready_of_foldlM_from hstep hready hs h

end Ready

/-! ### Two runs in lockstep -/

section Lockstep

variable {τ : Type v} {g : τ → α → Except ε τ} {R : σ → τ → Prop}

/-- Two runs over the same inputs stay related when related states step to
related states. -/
theorem Along.foldlM_rel {P : σ → α → Prop}
    (hstep : ∀ s t a, R s t → P s a → (f s a).Rel (g t a) R) :
    ∀ {l : List α} {s : σ} {t : τ}, Along f P s l → R s t → (l.foldlM f s).Rel (l.foldlM g t) R
  | [], _, _, _, hst => Except.rel_ok.mpr hst
  | a :: l, s, t, ⟨ha, hl⟩, hst => by
    intro s' t' hs ht
    rw [List.foldlM_cons, Except.bind_eq_ok] at hs ht
    obtain ⟨s₁, hs₁, hs⟩ := hs
    obtain ⟨t₁, ht₁, ht⟩ := ht
    exact (hl.of_ok hs₁).foldlM_rel hstep (hstep s t a hst ha s₁ t₁ hs₁ ht₁) s' t' hs ht

/-- The lockstep rule for a loop over the inputs `l`. -/
theorem foldlM_rel {l : List α} (hstep : ∀ s t, ∀ a ∈ l, R s t → (f s a).Rel (g t a) R) {s : σ}
    {t : τ} (hst : R s t) : (l.foldlM f s).Rel (l.foldlM g t) R := by
  induction l generalizing s t with
  | nil => exact Except.rel_ok.mpr hst
  | cons a l ih =>
    rw [List.foldlM_cons, List.foldlM_cons]
    refine (hstep s t a List.mem_cons_self hst).bind fun s₁ t₁ h₁ => ?_
    exact ih (fun s t b hb => hstep s t b (List.mem_cons_of_mem a hb)) h₁

end Lockstep

end Run
