import Mathlib.Order.Interval.Finset.Nat
import Mathlib.Data.List.Pairwise
import Mathlib.Algebra.BigOperators.Group.List.Basic
import Mathlib.Algebra.Ring.Nat

/-!
# Intervals and their union

A closed interval is a pair of its first and its last point; it is empty when it ends right
before it begins. `cover` is the union of a list of closed intervals, and `union` that of
half-open ones.

- `sum_lengths`: intervals that lie apart have as many points as their lengths add up to.
- `sweep` goes through intervals in the order of their beginnings and joins an interval to
  the one that is running when it begins before its end. `sweep_eq` counts what it
  measures: the points of the union, and once more each point at which a running interval
  ends and a nonempty one begins (`ends_begin_iff`).
- `Measured.concat` measures half-open intervals one by one, in the order of their beginnings;
  several may begin at one point.
-/

namespace SimpleSSD.Intervals

/-- The points of one interval. -/
def span (e : Nat × Nat) : Finset Nat := Finset.Icc e.1 e.2

/-- The points of a list of intervals. -/
def cover : List (Nat × Nat) → Finset Nat
  | [] => ∅
  | e :: l => span e ∪ cover l

/-- An interval, possibly empty. -/
def Proper (e : Nat × Nat) : Prop := e.1 ≤ e.2 + 1

instance (e : Nat × Nat) : Decidable (Proper e) := inferInstanceAs (Decidable (_ ≤ _))

variable {l : List (Nat × Nat)} {e : Nat × Nat} {x : Nat}

theorem mem_span : x ∈ span e ↔ e.1 ≤ x ∧ x ≤ e.2 := Finset.mem_Icc

theorem mem_cover : x ∈ cover l ↔ ∃ e ∈ l, e.1 ≤ x ∧ x ≤ e.2 := by
  induction l with
  | nil => simp [cover]
  | cons e l ih => simp [cover, mem_span, ih]

theorem card_span (e : Nat × Nat) : (span e).card = e.2 + 1 - e.1 := Nat.card_Icc e.1 e.2

theorem cover_append (l l' : List (Nat × Nat)) : cover (l ++ l') = cover l ∪ cover l' := by
  induction l with
  | nil => simp [cover]
  | cons e l ih => simp [cover, ih, Finset.union_assoc]

/-! ### Intervals that lie apart -/

/-- Each interval ends before the next one begins. -/
def Apart (l : List (Nat × Nat)) : Prop := l.Pairwise fun e f => e.2 < f.1

theorem sum_lengths (h : Apart l) :
    (l.map fun e => e.2 + 1 - e.1).sum = (cover l).card := by
  induction l with
  | nil => rfl
  | cons e l ih =>
    obtain ⟨he, hl⟩ := List.pairwise_cons.mp h
    have hdisjoint : Disjoint (span e) (cover l) := by
      refine Finset.disjoint_left.mpr fun x hx hx' => ?_
      obtain ⟨f, hf, hle, -⟩ := mem_cover.mp hx'
      have := he f hf
      have := (mem_span.mp hx).2
      omega
    rw [List.map_cons, List.sum_cons, ih hl, cover, Finset.card_union_of_disjoint hdisjoint,
      card_span]

/-! ### The sweep -/

/-- What the sweep measures when the interval from `s` to `r` is running. -/
def sweep (s r : Nat) : List (Nat × Nat) → Nat
  | [] => r + 1 - s
  | e :: l => if e.1 < r then sweep s (max r e.2) l else (r + 1 - s) + sweep e.1 e.2 l

/-- The number of nonempty intervals that begin with the last point of the running one. -/
def shared (r : Nat) : List (Nat × Nat) → Nat
  | [] => 0
  | e :: l =>
    if e.1 < r then shared (max r e.2) l
    else (if e.1 = r ∧ e.1 ≤ e.2 then 1 else 0) + shared e.2 l

/-- The intervals are in the order of their beginnings. -/
def Ordered (l : List (Nat × Nat)) : Prop := l.Pairwise fun e f => e.1 < f.1

/-- The union of a running interval with what begins behind its beginning. -/
theorem span_union_cover {s r : Nat} (hs : s ≤ e.1) (hr : e.1 ≤ r) :
    span (s, r) ∪ cover (e :: l) = span (s, max r e.2) ∪ cover l := by
  rw [cover, ← Finset.union_assoc]
  congr 1
  ext x
  simp only [Finset.mem_union, mem_span]
  omega

/-- A running interval shares at most its last point with what begins no earlier. -/
theorem card_span_union {s r : Nat} (hs : s < e.1) (hr : r ≤ e.1) (hl : Ordered (e :: l)) :
    (span (s, r) ∪ cover (e :: l)).card + (if e.1 = r ∧ e.1 ≤ e.2 then 1 else 0) =
      (r + 1 - s) + (cover (e :: l)).card := by
  have hbegin : ∀ x ∈ cover l, e.1 < x := by
    intro x hx
    obtain ⟨f, hf, hle, -⟩ := mem_cover.mp hx
    have := List.rel_of_pairwise_cons hl hf
    omega
  have hinter : (span (s, r) ∩ cover (e :: l)).card =
      if e.1 = r ∧ e.1 ≤ e.2 then 1 else 0 := by
    split
    · next hshared =>
      rw [Finset.card_eq_one]
      refine ⟨r, ?_⟩
      ext x
      simp only [cover, Finset.mem_inter, Finset.mem_union, mem_span, Finset.mem_singleton]
      constructor
      · rintro ⟨hx, hx' | hx'⟩
        · omega
        · have := hbegin x hx'
          omega
      · rintro rfl
        exact ⟨⟨by omega, le_rfl⟩, .inl ⟨by omega, by omega⟩⟩
    · next hnot =>
      rw [Finset.card_eq_zero, Finset.eq_empty_iff_forall_notMem]
      intro x hx
      simp only [cover, Finset.mem_inter, Finset.mem_union, mem_span] at hx
      obtain ⟨hx, hx' | hx'⟩ := hx
      · omega
      · have := hbegin x hx'
        omega
  have hcard := Finset.card_union_add_card_inter (span (s, r)) (cover (e :: l))
  rw [hinter, card_span] at hcard
  exact hcard

/-- The sweep measures the union, and each shared point once more. -/
theorem sweep_eq {s r : Nat} (hrun : s ≤ r + 1) (hs : ∀ e ∈ l, s < e.1) (hl : Ordered l)
    (hproper : ∀ e ∈ l, Proper e) :
    sweep s r l = (span (s, r) ∪ cover l).card + shared r l := by
  induction l generalizing s r with
  | nil => simp [sweep, shared, cover, card_span]
  | cons e l ih =>
    obtain ⟨he, htail⟩ := List.pairwise_cons.mp hl
    have hse := hs e List.mem_cons_self
    have hpe := hproper e List.mem_cons_self
    have hptail := fun f hf => hproper f (List.mem_cons_of_mem e hf)
    rw [sweep, shared]
    split
    · next hlt =>
      rw [span_union_cover hse.le hlt.le]
      exact ih (by omega) (fun f hf => hse.trans (he f hf)) htail hptail
    · next hge =>
      have hcard := card_span_union hse (Nat.not_lt.mp hge) hl
      rw [ih hpe he htail hptail]
      rw [cover] at hcard ⊢
      show r + 1 - s + ((span e ∪ cover l).card + _) = _
      omega

/-! ### Shared points -/

/-- A nonempty interval begins at the point at which those that begin earlier end. -/
def EndsBegin (l : List (Nat × Nat)) : Prop :=
  ∃ e ∈ l, e.1 ≤ e.2 ∧ (∃ f ∈ l, f.1 < e.1 ∧ f.2 = e.1) ∧ ∀ f ∈ l, f.1 < e.1 → f.2 ≤ e.1

/-- Behind the beginnings of `done`, the end `r` of the running interval is as good as all
their ends. -/
def Reaches (done : List (Nat × Nat)) (r : Nat) : Prop :=
  ∀ x, (∀ f ∈ done, f.1 < x) → ((∀ f ∈ done, f.2 ≤ x) ↔ r ≤ x) ∧
    ((∃ f ∈ done, f.2 = x) ∧ (∀ f ∈ done, f.2 ≤ x) ↔ r = x)

theorem Reaches.singleton (e : Nat × Nat) : Reaches [e] e.2 := by
  intro x _
  simp only [List.mem_singleton, forall_eq, exists_eq_left, true_and]
  omega

/-- The step of the sweep keeps it. -/
theorem Reaches.step {done : List (Nat × Nat)} {r : Nat} (h : Reaches done r)
    (e : Nat × Nat) : Reaches (done ++ [e]) (if e.1 < r then max r e.2 else e.2) := by
  intro x hx
  have hex : e.1 < x := hx e (by simp)
  obtain ⟨hall, hlast⟩ := h x fun f hf => hx f (List.mem_append_left _ hf)
  have hsplit : (∀ f ∈ done ++ [e], f.2 ≤ x) ↔ (∀ f ∈ done, f.2 ≤ x) ∧ e.2 ≤ x := by
    rw [List.forall_mem_append, List.forall_mem_singleton]
  have hsome : (∃ f ∈ done ++ [e], f.2 = x) ↔ (∃ f ∈ done, f.2 = x) ∨ e.2 = x := by
    simp [or_and_right, exists_or]
  rw [hsplit, hsome, hall]
  split
  · next hlt =>
    refine ⟨by omega, ?_⟩
    constructor
    · rintro ⟨hor, hr, he2⟩
      rcases hor with hor | heq
      · have := hlast.mp ⟨hor, hall.mpr hr⟩
        omega
      · omega
    · intro heq
      rcases Nat.le_total r e.2 with hle | hle
      · exact ⟨.inr (by omega), by omega, by omega⟩
      · exact ⟨.inl (hlast.mpr (by omega)).1, by omega, by omega⟩
  · next hge =>
    -- the running interval ends before `x`
    refine ⟨by omega, ?_⟩
    constructor
    · rintro ⟨hor, hr, he2⟩
      rcases hor with hor | heq
      · have := hlast.mp ⟨hor, hall.mpr hr⟩
        omega
      · exact heq
    · intro heq
      exact ⟨.inr heq, by omega, by omega⟩

/-- No point is shared iff no interval begins where the earlier ones end. -/
theorem shared_eq_zero_iff {done : List (Nat × Nat)} {r : Nat} (h : Reaches done r)
    (hl : Ordered (done ++ l)) :
    shared r l = 0 ↔ ∀ pre e post, l = pre ++ e :: post →
      ¬ (e.1 ≤ e.2 ∧ (∃ f ∈ done ++ pre, f.2 = e.1) ∧ ∀ f ∈ done ++ pre, f.2 ≤ e.1) := by
  induction l generalizing done r with
  | nil => simp [shared]
  | cons e l ih =>
    have hdone : ∀ f ∈ done, f.1 < e.1 := fun f hf =>
      (List.pairwise_append.mp hl).2.2 f hf e List.mem_cons_self
    have hrest := ih (h.step e) (by rwa [List.append_assoc])
    obtain ⟨-, hlast⟩ := h e.1 hdone
    -- the first interval of the rest, and the others
    have hcons : (∀ pre e' post, e :: l = pre ++ e' :: post →
        ¬ (e'.1 ≤ e'.2 ∧ (∃ f ∈ done ++ pre, f.2 = e'.1) ∧ ∀ f ∈ done ++ pre, f.2 ≤ e'.1)) ↔
        ¬ (e.1 ≤ e.2 ∧ r = e.1) ∧ ∀ pre e' post, l = pre ++ e' :: post →
          ¬ (e'.1 ≤ e'.2 ∧ (∃ f ∈ done ++ [e] ++ pre, f.2 = e'.1) ∧
            ∀ f ∈ done ++ [e] ++ pre, f.2 ≤ e'.1) := by
      rw [← hlast]
      constructor
      · intro hall
        refine ⟨?_, fun pre e' post heq => ?_⟩
        · simpa using hall [] e l rfl
        · simpa using hall (e :: pre) e' post (by rw [heq, List.cons_append])
      · rintro ⟨hfirst, hothers⟩ pre e' post heq
        cases pre with
        | nil =>
          obtain ⟨rfl, rfl⟩ := List.cons.inj heq
          simpa using hfirst
        | cons e₁ pre =>
          obtain ⟨rfl, rfl⟩ := List.cons.inj heq
          simpa using hothers pre e' post rfl
    rw [hcons, ← hrest, shared]
    split
    · next hlt =>
      have : ¬ (e.1 ≤ e.2 ∧ r = e.1) := by omega
      simp [this]
    · split
      · next hshared =>
        refine ⟨fun h => by omega, fun h => ?_⟩
        exact absurd ⟨hshared.2, hshared.1.symm⟩ h.1
      · next hnot =>
        have : ¬ (e.1 ≤ e.2 ∧ r = e.1) := by omega
        simp [this]

theorem ends_begin_iff (hl : Ordered (e :: l)) : shared e.2 l = 0 ↔ ¬ EndsBegin (e :: l) := by
  have hearlier : ∀ {pre : List (Nat × Nat)} {e' : Nat × Nat} {post}, l = pre ++ e' :: post →
      ∀ f, f ∈ [e] ++ pre ↔ f ∈ e :: l ∧ f.1 < e'.1 := by
    intro pre e' post heq f
    have hsplit : Ordered (e :: pre ++ e' :: post) := by
      rw [List.cons_append, ← heq]
      exact hl
    obtain ⟨-, htail, hcross⟩ := List.pairwise_append.mp hsplit
    constructor
    · intro hf
      refine ⟨?_, hcross f hf e' List.mem_cons_self⟩
      rw [heq, ← List.cons_append]
      exact List.mem_append_left _ hf
    · rintro ⟨hf, hlt⟩
      rw [heq, ← List.cons_append] at hf
      rcases List.mem_append.mp hf with hf | hf
      · exact hf
      · rcases List.mem_cons.mp hf with rfl | hf
        · omega
        · have := List.rel_of_pairwise_cons htail hf
          omega
  rw [shared_eq_zero_iff (Reaches.singleton e) hl]
  constructor
  · rintro hnone ⟨e', he', hle, ⟨f, hf, hlt, hfe⟩, hall⟩
    -- some interval begins before it, so it is not the first
    have hmem : e' ∈ l := by
      rcases List.mem_cons.mp he' with rfl | hmem
      · rcases List.mem_cons.mp hf with rfl | hf
        · omega
        · have := List.rel_of_pairwise_cons hl hf
          omega
      · exact hmem
    obtain ⟨pre, post, heq⟩ := List.append_of_mem hmem
    refine hnone pre e' post heq ⟨hle, ⟨f, (hearlier heq f).mpr ⟨hf, hlt⟩, hfe⟩, fun g hg => ?_⟩
    obtain ⟨hg, hglt⟩ := (hearlier heq g).mp hg
    exact hall g hg hglt
  · rintro hnone pre e' post heq ⟨hle, ⟨f, hf, hfe⟩, hall⟩
    obtain ⟨hf, hlt⟩ := (hearlier heq f).mp hf
    refine hnone ⟨e', by simp [heq], hle, ⟨f, hf, hlt, hfe⟩, fun g hg hglt => ?_⟩
    exact hall g ((hearlier heq g).mpr ⟨hg, hglt⟩)

/-- There are no more shared points than intervals. -/
theorem shared_le_length (r : Nat) (l : List (Nat × Nat)) : shared r l ≤ l.length := by
  induction l generalizing r with
  | nil => exact le_rfl
  | cons e l ih =>
    rw [shared, List.length_cons]
    split
    · exact (ih _).trans (Nat.le_succ _)
    · have := ih e.2
      split
      · omega
      · omega

/-! ### Half-open intervals -/

/-- The union of a list of half-open intervals: a pair has its first point, and not its second. -/
def union : List (Nat × Nat) → Finset Nat
  | [] => ∅
  | e :: l => Finset.Ico e.1 e.2 ∪ union l

theorem mem_union : x ∈ union l ↔ ∃ e ∈ l, e.1 ≤ x ∧ x < e.2 := by
  induction l with
  | nil => simp [union]
  | cons e l ih => simp [union, ih]

theorem union_concat (l : List (Nat × Nat)) (e : Nat × Nat) :
    union (l ++ [e]) = union l ∪ Finset.Ico e.1 e.2 := by
  ext x
  simp [mem_union, or_and_right, exists_or]

/-- The union has been measured up to `last`, the greatest of the ends: from the last beginning
on there is no gap in front of it. -/
structure Measured (l : List (Nat × Nat)) (measure last : Nat) : Prop where
  card : measure = (union l).card
  lt : ∀ x ∈ union l, x < last
  gapless : ∀ x, (∀ e ∈ l, e.1 ≤ x) → x < last → x ∈ union l

theorem Measured.nil : Measured [] 0 0 :=
  ⟨rfl, fun _ hx => absurd hx (Finset.notMem_empty _), fun _ _ hx => absurd hx (Nat.not_lt_zero _)⟩

/-- What has been measured lies in front of the last end. -/
theorem Measured.le {measure last : Nat} (h : Measured l measure last) : measure ≤ last := by
  have hsub : union l ⊆ Finset.range last := fun x hx => Finset.mem_range.mpr (h.lt x hx)
  have hcard := Finset.card_le_card hsub
  rw [Finset.card_range, ← h.card] at hcard
  exact hcard

/-- An interval that begins no earlier than the others adds what it has behind their ends. -/
theorem Measured.concat {measure last : Nat} (h : Measured l measure last)
    (hbegin : ∀ f ∈ l, f.1 ≤ e.1) : Measured (l ++ [e])
      (measure + (e.2 - max e.1 last)) (max last e.2) := by
  have hnew : union (l ++ [e]) = union l ∪ Finset.Ico (max e.1 last) e.2 := by
    rw [union_concat]
    ext x
    simp only [Finset.mem_union, Finset.mem_Ico]
    constructor
    · rintro (hx | ⟨hle, hlt⟩)
      · exact .inl hx
      · -- in front of the last end there is no gap behind the beginning
        rcases Nat.lt_or_ge x last with hlast | hlast
        · exact .inl (h.gapless x (fun f hf => (hbegin f hf).trans hle) hlast)
        · exact .inr ⟨Nat.max_le.mpr ⟨hle, hlast⟩, hlt⟩
    · rintro (hx | ⟨hle, hlt⟩)
      · exact .inl hx
      · exact .inr ⟨(Nat.max_le.mp hle).1, hlt⟩
  have hdisjoint : Disjoint (union l) (Finset.Ico (max e.1 last) e.2) := by
    refine Finset.disjoint_left.mpr fun x hx hx' => ?_
    have hlt := h.lt x hx
    have hle := (Finset.mem_Ico.mp hx').1
    omega
  refine ⟨?_, fun x hx => ?_, fun x hx hlt => ?_⟩
  · rw [hnew, Finset.card_union_of_disjoint hdisjoint, Nat.card_Ico, h.card]
  · rw [hnew, Finset.mem_union, Finset.mem_Ico] at hx
    rcases hx with hx | ⟨-, hx⟩
    · exact (h.lt x hx).trans_le (Nat.le_max_left _ _)
    · exact hx.trans_le (Nat.le_max_right _ _)
  · have hxe : e.1 ≤ x := hx e (by simp)
    rw [union_concat, Finset.mem_union, Finset.mem_Ico]
    rcases Nat.lt_or_ge x last with hlast | hlast
    · exact .inl (h.gapless x (fun f hf => hx f (List.mem_append_left _ hf)) hlast)
    · exact .inr ⟨hxe, by omega⟩

end SimpleSSD.Intervals
