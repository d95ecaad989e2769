import Mathlib.Data.List.Destutter
import Mathlib.Data.List.Induction

/-!
# Batches

The requests of a batch are judged one after the other: each is taken or refused by what those that
were taken before it have left. A request that is like the one just before it is not judged again,
but shares its fate.

A loop that judges each request until one is refused, and then refuses the rest, gives the verdict
on each request exactly when no two neighbours are alike and the refused ones are the last ones
(`leading_marks_iff`).
-/

universe u v

namespace Batch

/-- What becomes of a batch: which requests are refused, those that are taken, and what they
leave. -/
structure Verdict (σ : Type u) (α : Type v) where
  refused : List Bool
  taken : List α
  state : σ

/-- One request more in front, which is not judged. -/
def Verdict.share {σ : Type u} {α : Type v} (v : Verdict σ α) (fate : Bool) : Verdict σ α :=
  { v with refused := fate :: v.refused }

/-- One request more in front, which is taken. -/
def Verdict.accept {σ : Type u} {α : Type v} (v : Verdict σ α) (a : α) : Verdict σ α :=
  { v with refused := false :: v.refused, taken := a :: v.taken }

variable {σ : Type u} {α : Type v} (take : σ → α → Option σ) (like : α → α → Prop)
  [DecidableRel like]

/-- The fate that `a` shares, if it is like the request that was judged last. -/
def shared (last : Option (α × Bool)) (a : α) : Option Bool :=
  (last.filter fun x => like x.1 a).map Prod.snd

/-- The verdict on a batch, where `last` is the request that was judged last, and whether it was
refused. -/
def judge : σ → Option (α × Bool) → List α → Verdict σ α
  | s, _, [] => ⟨[], [], s⟩
  | s, last, a :: rest =>
    match shared like last a with
    | some fate => (judge s last rest).share fate
    | none =>
      match take s a with
      | none => (judge s (some (a, true)) rest).share true
      | some s' => (judge s' (some (a, false)) rest).accept a

/-- The requests that are judged: those not like their neighbour. -/
def judged (last : Option (α × Bool)) (l : List α) : List α :=
  match last with
  | none => l.destutter fun a b => ¬ like a b
  | some x => (l.destutter' (fun a b => ¬ like a b) x.1).tail

/-- How many requests are taken before one is refused, and what they leave. -/
def leading : σ → List α → Nat × σ
  | s, [] => (0, s)
  | s, a :: rest =>
    match take s a with
    | none => (0, s)
    | some s' => ((leading s' rest).1 + 1, (leading s' rest).2)

variable {take like} {s s' : σ} {last : Option (α × Bool)} {a : α} {l rest : List α}

/-! ### One request -/

theorem judge_shared {fate : Bool} (h : shared like last a = some fate) :
    judge take like s last (a :: rest) = (judge take like s last rest).share fate := by
  rw [judge, h]

theorem judge_refused (h : shared like last a = none) (htake : take s a = none) :
    judge take like s last (a :: rest) =
      (judge take like s (some (a, true)) rest).share true := by
  rw [judge, h, htake]

theorem judge_taken (h : shared like last a = none) (htake : take s a = some s') :
    judge take like s last (a :: rest) = (judge take like s' (some (a, false)) rest).accept a := by
  rw [judge, h, htake]

theorem leading_refused (htake : take s a = none) : leading take s (a :: rest) = (0, s) := by
  rw [leading, htake]

theorem leading_taken (htake : take s a = some s') : leading take s (a :: rest) =
    ((leading take s' rest).1 + 1, (leading take s' rest).2) := by
  rw [leading, htake]

theorem destutter'_eq_cons (R : α → α → Prop) [DecidableRel R] (a : α) (l : List α) :
    l.destutter' R a = a :: (l.destutter' R a).tail := by
  induction l generalizing a with
  | nil => rfl
  | cons b l ih =>
    by_cases h : R a b
    · rw [List.destutter'_cons_pos _ h]
      rfl
    · rw [List.destutter'_cons_neg _ h]
      exact ih a

theorem judged_shared {fate : Bool} (h : shared like last a = some fate) :
    judged like last (a :: rest) = judged like last rest := by
  cases last with
  | none => cases h
  | some x =>
    have hlike : like x.1 a := by
      by_contra hnot
      simp [shared, Option.filter, hnot] at h
    show List.tail (List.destutter' _ x.1 (a :: rest)) = _
    rw [List.destutter'_cons_neg _ (not_not_intro hlike)]
    rfl

theorem judged_new (h : shared like last a = none) (fate : Bool) :
    judged like last (a :: rest) = a :: judged like (some (a, fate)) rest := by
  cases last with
  | none => exact destutter'_eq_cons _ a rest
  | some x =>
    have hnot : ¬ like x.1 a := by
      intro hlike
      simp [shared, Option.filter, hlike] at h
    show List.tail (List.destutter' _ x.1 (a :: rest)) = _
    rw [List.destutter'_cons_pos _ hnot]
    exact destutter'_eq_cons _ a rest

variable (take) in
theorem leading_le (s : σ) (l : List α) : (leading take s l).1 ≤ l.length := by
  induction l generalizing s with
  | nil => exact le_rfl
  | cons a rest ih =>
    cases htake : take s a with
    | none =>
      rw [leading_refused htake]
      exact Nat.zero_le _
    | some s' =>
      rw [leading_taken htake]
      exact Nat.succ_le_succ (ih s')

/-- If the loop does not get past a first part of a list, the rest does not matter. -/
theorem leading_append {m : List α} (s : σ) (h : (leading take s (l ++ m)).1 ≤ l.length) :
    leading take s (l ++ m) = leading take s l := by
  induction l generalizing s with
  | nil =>
    cases m with
    | nil => rfl
    | cons b m =>
      cases htake : take s b with
      | none => exact leading_refused htake
      | some s' =>
        rw [List.nil_append, leading_taken htake] at h
        exact absurd h (Nat.not_succ_le_zero _)
  | cons a rest ih =>
    cases htake : take s a with
    | none => rw [List.cons_append, leading_refused htake, leading_refused htake]
    | some s' =>
      rw [List.cons_append, leading_taken htake] at h ⊢
      rw [leading_taken htake, ih s' (Nat.le_of_succ_le_succ h)]

variable (take like) in
/-- The induction on a batch: a request that shares a fate, one that is refused, and one that is
taken. -/
theorem judge_induction {motive : σ → Option (α × Bool) → List α → Prop}
    (nil : ∀ s last, motive s last [])
    (shared : ∀ s last a rest fate, shared like last a = some fate → motive s last rest →
      motive s last (a :: rest))
    (refused : ∀ s last a rest, Batch.shared like last a = none → take s a = none →
      motive s (some (a, true)) rest → motive s last (a :: rest))
    (taken : ∀ s last a rest s', Batch.shared like last a = none → take s a = some s' →
      motive s' (some (a, false)) rest → motive s last (a :: rest))
    (s : σ) (last : Option (α × Bool)) (l : List α) : motive s last l := by
  induction l generalizing s last with
  | nil => exact nil s last
  | cons a rest ih =>
    cases hshared : Batch.shared like last a with
    | some fate => exact shared s last a rest fate hshared (ih s last)
    | none =>
      cases htake : take s a with
      | none => exact refused s last a rest hshared htake (ih s _)
      | some s' => exact taken s last a rest s' hshared htake (ih s' _)

variable (like) in
theorem judged_length_le (last : Option (α × Bool)) (l : List α) :
    (judged like last l).length ≤ l.length := by
  cases last with
  | none => exact (List.destutter_sublist _ l).length_le
  | some x =>
    have hle := (List.destutter'_sublist (fun a b => ¬ like a b) (l := l) x.1).length_le
    rw [judged, List.length_tail]
    rw [List.length_cons] at hle
    omega

theorem shared_eq_some {fate : Bool} (h : shared like last a = some fate) :
    ∃ x ∈ last, like x.1 a ∧ x.2 = fate := by
  rw [shared, Option.map_eq_some_iff] at h
  obtain ⟨x, hx, hfate⟩ := h
  rw [Option.filter_eq_some_iff] at hx
  exact ⟨x, hx.1, of_decide_eq_true hx.2, hfate⟩

/-! ### The verdict -/

variable (take like) in
theorem judge_length (s : σ) (last : Option (α × Bool)) (l : List α) :
    (judge take like s last l).refused.length = l.length := by
  induction s, last, l using judge_induction take like with
  | nil => rfl
  | shared s last a rest fate h ih =>
    rw [judge_shared h, Verdict.share, List.length_cons, ih, List.length_cons]
  | refused s last a rest h htake ih =>
    rw [judge_refused h htake, Verdict.share, List.length_cons, ih, List.length_cons]
  | taken s last a rest s' h htake ih =>
    rw [judge_taken h htake, Verdict.accept, List.length_cons, ih, List.length_cons]

/-- What the batch leaves is what is left after the requests that are judged. -/
theorem judge_state (s : σ) (last : Option (α × Bool)) (l : List α) :
    (judge take like s last l).state =
      (judged like last l).foldl (fun s a => (take s a).getD s) s := by
  induction s, last, l using judge_induction take like with
  | nil s last =>
    cases last with
    | none => rfl
    | some x => rfl
  | shared s last a rest fate h ih =>
    rw [judge_shared h, judged_shared h]
    exact ih
  | refused s last a rest h htake ih =>
    rw [judge_refused h htake, judged_new h true, List.foldl_cons, htake]
    exact ih
  | taken s last a rest s' h htake ih =>
    rw [judge_taken h htake, judged_new h false, List.foldl_cons, htake]
    exact ih

/-- After a refused request, a batch of which nothing is taken is refused. -/
theorem refused_of_not_taken (s : σ) (last : Option (α × Bool)) (l : List α) :
    (∀ x ∈ last, x.2 = true) → (judge take like s last l).taken = [] →
      (judge take like s last l).refused = List.replicate l.length true := by
  induction s, last, l using judge_induction take like with
  | nil => exact fun _ _ => rfl
  | shared s last a rest fate h ih =>
    intro hlast htaken
    obtain ⟨x, hx, -, hfate⟩ := shared_eq_some h
    rw [judge_shared h] at htaken ⊢
    rw [Verdict.share, ih hlast htaken, ← hfate, hlast x hx]
    rfl
  | refused s last a rest h htake ih =>
    intro _ htaken
    rw [judge_refused h htake] at htaken ⊢
    rw [Verdict.share, ih (by simp) htaken]
    rfl
  | taken s last a rest s' h htake ih =>
    intro _ htaken
    rw [judge_taken h htake] at htaken
    cases htaken

variable (take like) in
/-- If only the leading requests are taken, the refused ones are the last ones; and there are no
fewer before them than are taken. -/
theorem refused_of_leading (s : σ) (last : Option (α × Bool)) (l : List α) :
    (∀ x ∈ last, x.2 = false) → (judge take like s last l).taken.length =
        (leading take s (judged like last l)).1 →
      ∃ f g, (judge take like s last l).refused =
          List.replicate f false ++ List.replicate g true ∧
        (leading take s (judged like last l)).1 ≤ f ∧
        ((leading take s (judged like last l)).1 < (judged like last l).length → 0 < g) := by
  induction s, last, l using judge_induction take like with
  | nil s last =>
    refine fun _ _ => ⟨0, 0, rfl, ?_⟩
    cases last with
    | none => exact ⟨le_rfl, fun h => absurd h (lt_irrefl 0)⟩
    | some x => exact ⟨le_rfl, fun h => absurd h (lt_irrefl 0)⟩
  | shared s last a rest fate h ih =>
    intro hlast htaken
    obtain ⟨x, hx, -, hfate⟩ := shared_eq_some h
    rw [judge_shared h] at htaken ⊢
    rw [judged_shared h] at htaken ⊢
    obtain ⟨f, g, hrefused, hf, hg⟩ := ih hlast htaken
    refine ⟨f + 1, g, ?_, Nat.le_succ_of_le hf, hg⟩
    rw [Verdict.share, hrefused, ← hfate, hlast x hx]
    rfl
  | refused s last a rest h htake ih =>
    intro _ htaken
    rw [judge_refused h htake] at htaken ⊢
    rw [judged_new h true, leading_refused htake] at htaken ⊢
    refine ⟨0, rest.length + 1, ?_, Nat.zero_le _, fun _ => Nat.succ_pos _⟩
    rw [Verdict.share, refused_of_not_taken _ _ _ (by simp) (List.length_eq_zero_iff.mp htaken)]
    rfl
  | taken s last a rest s' h htake ih =>
    intro _ htaken
    rw [judge_taken h htake] at htaken ⊢
    rw [judged_new h false, leading_taken htake] at htaken ⊢
    obtain ⟨f, g, hrefused, hf, hg⟩ := ih (by simp) (Nat.succ.inj htaken)
    refine ⟨f + 1, g, ?_, Nat.succ_le_succ hf, fun hlt => hg (Nat.lt_of_succ_lt_succ hlt)⟩
    rw [Verdict.accept, hrefused]
    rfl

/-! ### A batch without neighbours that are alike -/

/-- A batch whose requests are all refused takes nothing. -/
theorem taken_of_refused (s : σ) (last : Option (α × Bool)) (l : List α) :
    (∀ b ∈ (judge take like s last l).refused, b = true) →
      (judge take like s last l).taken = [] ∧ (judge take like s last l).state = s := by
  induction s, last, l using judge_induction take like with
  | nil => exact fun _ => ⟨rfl, rfl⟩
  | shared s last a rest fate h ih =>
    intro hall
    rw [judge_shared h] at hall ⊢
    exact ih fun b hb => hall b (List.mem_cons_of_mem _ hb)
  | refused s last a rest h htake ih =>
    intro hall
    rw [judge_refused h htake] at hall ⊢
    exact ih fun b hb => hall b (List.mem_cons_of_mem _ hb)
  | taken s last a rest s' h htake ih =>
    intro hall
    rw [judge_taken h htake] at hall
    cases hall false List.mem_cons_self

/-- If the refused requests are the last ones of a batch that is judged request by request, those
that are taken are the leading ones. -/
theorem leading_of_pairwise (s : σ) (last : Option (α × Bool)) (l : List α) :
    judged like last l = l →
      (judge take like s last l).refused.Pairwise (fun b c => b = true → c = true) →
      (judge take like s last l).taken = l.take (leading take s l).1 ∧
        (judge take like s last l).state = (leading take s l).2 ∧
        (judge take like s last l).refused = List.replicate (leading take s l).1 false ++
          List.replicate (l.length - (leading take s l).1) true := by
  induction s, last, l using judge_induction take like with
  | nil => exact fun _ _ => ⟨rfl, rfl, rfl⟩
  | shared s last a rest fate h ih =>
    intro hself _
    have hle := judged_length_le like last rest
    rw [← judged_shared h, hself, List.length_cons] at hle
    exact absurd hle (Nat.not_succ_le_self _)
  | refused s last a rest h htake ih =>
    intro hself hpair
    rw [judge_refused h htake] at hpair ⊢
    rw [leading_refused htake]
    have hall := (List.pairwise_cons.mp hpair).1
    obtain ⟨htaken, hstate⟩ := taken_of_refused _ _ _ fun b hb => hall b hb rfl
    refine ⟨htaken, hstate, ?_⟩
    rw [Verdict.share, refused_of_not_taken _ _ _ (by simp) htaken]
    rfl
  | taken s last a rest s' h htake ih =>
    intro hself hpair
    rw [judge_taken h htake] at hpair ⊢
    rw [leading_taken htake]
    rw [judged_new h false] at hself
    obtain ⟨htaken, hstate, hrefused⟩ :=
      ih (List.cons.inj hself).2 (List.pairwise_cons.mp hpair).2
    refine ⟨?_, hstate, ?_⟩
    · rw [Verdict.accept, htaken]
      rfl
    · rw [Verdict.accept, hrefused, List.length_cons, Nat.add_sub_add_right]
      rfl

theorem judged_none_iff : judged like none l = l ↔ l.IsChain fun a b => ¬ like a b :=
  List.destutter_eq_self_iff _ l

theorem pairwise_fates (f g : Nat) : (List.replicate f false ++ List.replicate g true).Pairwise
    fun b c => b = true → c = true := by
  rw [List.pairwise_append, List.pairwise_replicate, List.pairwise_replicate]
  refine ⟨.inr id, .inr id, fun b hb c _ htrue => ?_⟩
  rw [List.eq_of_mem_replicate hb] at htrue
  cases htrue

theorem getD_fates (f g i : Nat) : (List.replicate f false ++ List.replicate g true).getD i false =
    decide (f ≤ i ∧ i < f + g) := by
  rw [List.getD_eq_getElem?_getD, List.getElem?_append, List.length_replicate]
  split
  · next hlt => simp [hlt]
  · next hge =>
    rw [List.getElem?_replicate]
    split
    · next hlt => simp; omega
    · next hlt => simp; omega

variable (like) in
/-- The loop that refuses all requests from the first refused one on: its marks, one for each
request that it judges, and the number of requests that it takes are those of the verdict exactly
when no two neighbours are alike, and the requests that the verdict refuses are the last ones. -/
theorem leading_marks_iff {n : Nat} (hn : (leading take s (judged like none l)).1 = n)
    (hlt : n < (judged like none l).length) :
    ((∀ i < l.length, (judge take like s none l).refused.getD i false =
        decide (n ≤ i ∧ i < (judged like none l).length)) ∧
      (judge take like s none l).taken.length = n) ↔
    (l.IsChain fun a b => ¬ like a b) ∧
      (judge take like s none l).refused.Pairwise fun b c => b = true → c = true := by
  have hle := judged_length_le like none l
  constructor
  · rintro ⟨hmarks, htaken⟩
    obtain ⟨f, g, hrefused, hf, hg⟩ := refused_of_leading take like s none l
      (by simp) (htaken.trans hn.symm)
    have hpos := hg (hn ▸ hlt)
    have hlength := judge_length take like s none l
    rw [hrefused, List.length_append, List.length_replicate, List.length_replicate] at hlength
    rw [hn] at hf
    rw [hrefused] at hmarks ⊢
    simp only [getD_fates] at hmarks
    -- the first mark is at the first refused request, and the last one at the last request
    have hfirst := hmarks n (by omega)
    have hlast := hmarks (l.length - 1) (by omega)
    rw [decide_eq_decide] at hfirst hlast
    refine ⟨judged_none_iff.mp ?_, pairwise_fates f g⟩
    exact (List.destutter_sublist _ l).eq_of_length (show (judged like none l).length = _ by omega)
  · rintro ⟨hchain, hpair⟩
    have hself := judged_none_iff.mpr hchain
    obtain ⟨htaken, -, hrefused⟩ := leading_of_pairwise s none l hself hpair
    rw [hself] at hn hlt ⊢
    rw [hn] at htaken hrefused
    refine ⟨fun i _ => ?_, ?_⟩
    · rw [hrefused, getD_fates, Nat.add_sub_cancel' hlt.le]
    · rw [htaken, List.length_take, Nat.min_eq_left hlt.le]

/-- The loop reaches the end of the batch exactly when the verdict refuses nothing. -/
theorem leading_eq_length_iff (s : σ) (last : Option (α × Bool)) (l : List α) :
    (∀ x ∈ last, x.2 = false) →
      ((leading take s (judged like last l)).1 = (judged like last l).length ↔
        ∀ b ∈ (judge take like s last l).refused, b = false) := by
  induction s, last, l using judge_induction take like with
  | nil s last =>
    refine fun _ => iff_of_true ?_ (fun b hb => absurd hb List.not_mem_nil)
    cases last with
    | none => rfl
    | some x => rfl
  | shared s last a rest fate h ih =>
    intro hlast
    obtain ⟨x, hx, -, hfate⟩ := shared_eq_some h
    rw [judge_shared h, judged_shared h, ih hlast, Verdict.share, List.forall_mem_cons, ← hfate]
    exact (and_iff_right (hlast x hx)).symm
  | refused s last a rest h htake ih =>
    intro _
    rw [judge_refused h htake, judged_new h true, leading_refused htake]
    refine iff_of_false (fun hzero => by cases hzero) fun hall => ?_
    cases hall true List.mem_cons_self
  | taken s last a rest s' h htake ih =>
    intro _
    rw [judge_taken h htake, judged_new h false, leading_taken htake, Verdict.accept,
      List.forall_mem_cons, List.length_cons, Nat.succ_inj, ih (by simp)]
    exact (and_iff_right rfl).symm

/-! ### The requests that are kept -/

section Keep

/-- One request more, unless it is like the last one. -/
def keep (like : α → α → Prop) [DecidableRel like] (acc : List α) (a : α) : List α :=
  match acc.getLast? with
  | none => acc ++ [a]
  | some back => if like back a then acc else acc ++ [a]

theorem keep_cases (like : α → α → Prop) [DecidableRel like] (acc : List α) (a : α) :
    keep like acc a = acc ++ [a] ∨ keep like acc a = acc ∧ ∃ back ∈ acc, like back a := by
  rw [keep]
  split
  · exact .inl rfl
  · next back hback =>
    split
    · next hlike => exact .inr ⟨rfl, back, List.mem_of_getLast? hback, hlike⟩
    · exact .inl rfl

/-- Nothing is kept but requests of the batch, and for each there is one like it. -/
theorem foldl_keep (like : α → α → Prop) [DecidableRel like] (hrefl : ∀ a, like a a) (l : List α) :
    (∀ b ∈ l.foldl (keep like) [], b ∈ l) ∧
      ∀ a ∈ l, ∃ b ∈ l.foldl (keep like) [], like b a := by
  induction l using List.reverseRecOn with
  | nil => exact ⟨fun b hb => hb, fun a ha => absurd ha List.not_mem_nil⟩
  | append_singleton l a ih =>
    obtain ⟨hmem, hlike⟩ := ih
    rw [List.foldl_append, List.foldl_cons, List.foldl_nil]
    rcases keep_cases like (l.foldl (keep like) []) a with heq | ⟨heq, back, hback, hsame⟩
    · rw [heq]
      refine ⟨fun b hb => ?_, fun a' ha' => ?_⟩
      · exact (List.mem_append.mp hb).elim (fun hb => List.mem_append_left _ (hmem b hb))
          fun hb => List.mem_append_right _ hb
      · rcases List.mem_append.mp ha' with ha' | ha'
        · obtain ⟨b, hb, hba⟩ := hlike a' ha'
          exact ⟨b, List.mem_append_left _ hb, hba⟩
        · rw [List.mem_singleton.mp ha']
          exact ⟨a, List.mem_append_right _ List.mem_cons_self, hrefl a⟩
    · rw [heq]
      refine ⟨fun b hb => List.mem_append_left _ (hmem b hb), fun a' ha' => ?_⟩
      rcases List.mem_append.mp ha' with ha' | ha'
      · exact hlike a' ha'
      · rw [List.mem_singleton.mp ha']
        exact ⟨back, hback, hsame⟩

end Keep

end Batch
