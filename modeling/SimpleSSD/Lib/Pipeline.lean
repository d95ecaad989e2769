import Mathlib.Algebra.Order.Group.Nat
import Mathlib.Algebra.Ring.Nat
import Mathlib.Algebra.BigOperators.Group.List.Basic
import Mathlib.Data.List.Basic

/-!
# A bounded buffer between two stages

Items wait, are filled into a buffer of bounded capacity one at a time, and are drained from it
one at a time. An item that is too large is filled in parts: the first one at once, and what is
left waits at the front. Draining is started by a scheduled event, or when the item before has
left and none is scheduled.

The rules say that the items leave in the order they came, part by part, that the usage is what is
held costs, and that nothing gets stuck: as long as something waits or is held, a stage is at
work or scheduled.
-/

universe u

/-- The waiting items, the ones in the buffer and those that have left it, in the order they came.
The item that is being filled is still the first of `wait`. -/
structure Pipeline (α : Type u) where
  wait : List α
  held : List α
  left : List α
  filling : Bool
  draining : Bool
  scheduled : Bool
  usage : Nat

namespace Pipeline

/-- What an item costs, and how one is split that is too large: the first part and the rest. -/
structure Rule (α : Type u) where
  capacity : Nat
  cost : α → Nat
  split : α → Option (α × α)
  weight : α → Nat
  weight_lt : ∀ {a b c}, split a = some (b, c) → weight c < weight a
  split_first : ∀ {a b c}, split a = some (b, c) → split b = none
  cost_le : ∀ {a}, split a = none → cost a ≤ capacity

variable {α : Type u}

/-- The parts of an item, in order. -/
def Rule.parts (rule : Rule α) (a : α) : List α :=
  match h : rule.split a with
  | none => [a]
  | some (b, c) =>
    have := rule.weight_lt h
    b :: rule.parts c
termination_by rule.weight a

theorem Rule.parts_none {rule : Rule α} {a : α} (h : rule.split a = none) : rule.parts a = [a] := by
  rw [Rule.parts]
  split
  · rfl
  · next hsome => rw [h] at hsome; cases hsome

theorem Rule.parts_some {rule : Rule α} {a b c : α} (h : rule.split a = some (b, c)) :
    rule.parts a = b :: rule.parts c := by
  rw [Rule.parts]
  split
  · next hnone => rw [h] at hnone; cases hnone
  · next hsome =>
    rw [h] at hsome
    cases hsome
    rfl

/-- A new item waits. -/
def submit (a : α) (s : Pipeline α) : Pipeline α := { s with wait := s.wait ++ [a] }

/-- The first of `wait` is filled. -/
def startFill (rule : Rule α) (a : α) (wait : List α) (s : Pipeline α) : Pipeline α :=
  { s with
    wait := wait
    held := s.held ++ [a]
    filling := true
    scheduled := true
    usage := s.usage + rule.cost a }

/-- The next item is filled, if none is and there is room. A part of a large one takes no room
into account. -/
def fill (rule : Rule α) (s : Pipeline α) : Pipeline α :=
  match s.wait with
  | [] => s
  | a :: rest =>
    match rule.split a with
    | none =>
      if s.filling ∨ rule.capacity < s.usage + rule.cost a then s
      else s.startFill rule a (a :: rest)
    | some (b, c) => s.startFill rule b (b :: c :: rest)

/-- The item is in the buffer. -/
def fillDone (s : Pipeline α) : Pipeline α := { s with wait := s.wait.tail, filling := false }

/-- The first item of the buffer is drained, if none is. -/
def drain (s : Pipeline α) : Pipeline α := { s with draining := true }

/-- The first item leaves the buffer. -/
def release (rule : Rule α) (s : Pipeline α) : Pipeline α :=
  match s.held with
  | [] => s
  | a :: rest =>
    { s with
      held := rest
      left := s.left ++ [a]
      usage := s.usage - rule.cost a
      draining := rest ≠ [] ∧ s.scheduled = false }

/-- What waits to be filled. -/
def rest (s : Pipeline α) : List α := if s.filling then s.wait.tail else s.wait

/-- The part of a large item that is filled next finds room. -/
def Room (rule : Rule α) (s : Pipeline α) : Prop :=
  ∀ a ∈ s.wait.head?, ∀ part ∈ rule.split a, s.usage + rule.cost part.1 ≤ rule.capacity

/-- What the operations keep. -/
structure Flows (rule : Rule α) (todo : List α) (s : Pipeline α) : Prop where
  parts : todo.flatMap rule.parts = s.left ++ s.held ++ s.rest.flatMap rule.parts
  usage : s.usage = (s.held.map rule.cost).sum
  filling : s.filling = true → ∃ a ∈ s.wait.head?, rule.split a = none
  draining : s.draining = true → s.held ≠ []
  scheduled : s.scheduled = true → (if s.draining then 1 else 0) < s.held.length
  held : s.held ≠ [] → s.draining = true ∨ s.scheduled = true

/-- Whatever waits is filled, or waits for room. -/
def Served (s : Pipeline α) : Prop := s.wait ≠ [] → s.filling = true ∨ s.held ≠ []

section Operations

variable {rule : Rule α} {todo : List α} {s : Pipeline α} {a : α}

theorem fill_nil (hwait : s.wait = []) : s.fill rule = s := by rw [fill, hwait]

theorem fill_none {others : List α} (hwait : s.wait = a :: others) (hsplit : rule.split a = none) :
    s.fill rule = if s.filling ∨ rule.capacity < s.usage + rule.cost a then s
      else s.startFill rule a s.wait := by
  simp only [fill, hwait, hsplit]

theorem fill_some {others : List α} {b c : α} (hwait : s.wait = a :: others)
    (hsplit : rule.split a = some (b, c)) :
    s.fill rule = s.startFill rule b (b :: c :: others) := by
  simp only [fill, hwait, hsplit]

theorem Flows.submit (h : Flows rule todo s) : Flows rule (todo ++ [a]) (s.submit a) := by
  have hrest : (s.submit a).rest = s.rest ++ [a] := by
    show (if s.filling then (s.wait ++ [a]).tail else s.wait ++ [a]) = s.rest ++ [a]
    rw [rest]
    by_cases hfilling : s.filling = true
    · obtain ⟨b, hb, -⟩ := h.filling hfilling
      rw [if_pos hfilling, if_pos hfilling]
      exact List.tail_append_of_ne_nil (by rintro hnil; simp [hnil] at hb)
    · rw [if_neg hfilling, if_neg hfilling]
  refine ⟨?_, h.usage, fun hfilling => ?_, h.draining, h.scheduled, h.held⟩
  · rw [hrest, List.flatMap_append, List.flatMap_append, h.parts]
    simp [Pipeline.submit]
  · obtain ⟨b, hb, hsplit⟩ := h.filling hfilling
    refine ⟨b, ?_, hsplit⟩
    rw [Option.mem_def, List.head?_eq_some_iff] at hb ⊢
    obtain ⟨tail, htail⟩ := hb
    exact ⟨tail ++ [a], by simp [Pipeline.submit, htail]⟩

/-- Filling begins with an item that is not split. -/
theorem Flows.startFill {wait : List α} (h : Flows rule todo s) (hfilling : s.filling = false)
    (ha : rule.split a = none)
    (hparts : s.wait.flatMap rule.parts = rule.parts a ++ wait.flatMap rule.parts) :
    Flows rule todo (s.startFill rule a (a :: wait)) := by
  refine ⟨?_, ?_, fun _ => ⟨a, rfl, ha⟩, fun _ => ?_, fun _ => ?_, fun _ => .inr rfl⟩
  · have hrest := h.parts
    rw [rest, if_neg (by simp [hfilling]), hparts, Rule.parts_none ha] at hrest
    simpa [Pipeline.startFill, rest] using hrest
  · simp [Pipeline.startFill, h.usage]
  · simp [Pipeline.startFill]
  · have hdraining := h.draining
    show (if s.draining then 1 else 0) < (s.held ++ [a]).length
    rw [List.length_append, List.length_singleton]
    by_cases hdrain : s.draining = true
    · have hpos := List.length_pos_of_ne_nil (hdraining hdrain)
      rw [if_pos hdrain]
      omega
    · rw [if_neg hdrain]
      omega

/-- While an item is filled, the first one is not too large. -/
theorem Flows.filling_of_split {others : List α} {b c : α} (h : Flows rule todo s)
    (hwait : s.wait = a :: others) (hsplit : rule.split a = some (b, c)) : s.filling = false := by
  by_contra hf
  obtain ⟨a', ha', hnone⟩ := h.filling (by simpa using hf)
  rw [hwait] at ha'
  cases ha'
  rw [hsplit] at hnone
  cases hnone

/-- Filling changes nothing, or begins with an item that is not split. -/
theorem Flows.fill_cases (h : Flows rule todo s) : s.fill rule = s ∨ ∃ a wait,
    s.fill rule = s.startFill rule a (a :: wait) ∧ s.filling = false ∧ rule.split a = none ∧
      s.wait.flatMap rule.parts = rule.parts a ++ wait.flatMap rule.parts := by
  match hwait : s.wait with
  | [] => exact .inl (fill_nil hwait)
  | a :: others =>
    match hsplit : rule.split a with
    | none =>
      rw [fill_none hwait hsplit]
      split
      · exact .inl rfl
      · next hroom =>
        have hfilling : s.filling = false := by simpa using fun hf => hroom (.inl hf)
        rw [hwait]
        exact .inr ⟨a, others, rfl, hfilling, hsplit, List.flatMap_cons⟩
    | some (b, c) =>
      have hfirst := rule.split_first hsplit
      refine .inr
        ⟨b, c :: others, fill_some hwait hsplit, h.filling_of_split hwait hsplit, hfirst, ?_⟩
      rw [List.flatMap_cons, List.flatMap_cons, Rule.parts_some hsplit, Rule.parts_none hfirst]
      rfl

theorem Flows.fill (h : Flows rule todo s) : Flows rule todo (s.fill rule) := by
  rcases h.fill_cases with heq | ⟨a, wait, heq, hfilling, hsplit, hparts⟩
  · rwa [heq]
  · rw [heq]
    exact h.startFill hfilling hsplit hparts

/-- After `fill` nothing waits without a reason. -/
theorem Flows.served (h : Flows rule todo s) : Served (s.fill rule) := by
  match hwait : s.wait with
  | [] =>
    rw [fill_nil hwait]
    exact fun hne => absurd hwait hne
  | a :: others =>
    match hsplit : rule.split a with
    | none =>
      rw [fill_none hwait hsplit]
      split
      · next hroom =>
        rcases hroom with hfilling | hfull
        · exact fun _ => .inl hfilling
        · refine fun _ => .inr fun hnil => ?_
          have husage := h.usage
          rw [hnil, List.map_nil, List.sum_nil] at husage
          have hcost := rule.cost_le hsplit
          omega
      · exact fun _ => .inl rfl
    | some (b, c) =>
      rw [fill_some hwait hsplit]
      exact fun _ => .inl rfl

theorem Flows.fillDone (h : Flows rule todo s) (hfilling : s.filling = true) :
    Flows rule todo s.fillDone := by
  refine ⟨?_, h.usage, (fun hf => by cases hf), h.draining, h.scheduled, h.held⟩
  have hparts := h.parts
  rw [rest, if_pos hfilling] at hparts
  exact hparts

/-- The scheduled event. -/
theorem Flows.drain (h : Flows rule todo s) (hscheduled : s.scheduled = true) :
    Flows rule todo { s with scheduled := false }.drain := by
  refine ⟨h.parts, h.usage, h.filling, fun _ => ?_, (fun hs => by cases hs), fun _ => .inl rfl⟩
  exact List.ne_nil_of_length_pos ((Nat.zero_le _).trans_lt (h.scheduled hscheduled))

theorem release_cons {others : List α} (hheld : s.held = a :: others) :
    s.release rule = { s with
      held := others
      left := s.left ++ [a]
      usage := s.usage - rule.cost a
      draining := others ≠ [] ∧ s.scheduled = false } := by
  rw [release, hheld]

theorem Flows.release (h : Flows rule todo s) (hdraining : s.draining = true) :
    Flows rule todo (s.release rule) := by
  match hheld : s.held with
  | [] => exact absurd hheld (h.draining hdraining)
  | a :: others =>
    have hscheduled := h.scheduled
    rw [hheld, if_pos hdraining, List.length_cons] at hscheduled
    rw [release_cons hheld]
    refine ⟨?_, ?_, h.filling, fun hd => (of_decide_eq_true hd).1, fun hs => ?_, fun hne => ?_⟩
    · have hparts := h.parts
      rw [hheld] at hparts
      simpa [rest] using hparts
    · show s.usage - rule.cost a = (others.map rule.cost).sum
      rw [h.usage, hheld, List.map_cons, List.sum_cons, Nat.add_sub_cancel_left]
    · have hlength := hscheduled hs
      dsimp only at hs ⊢
      split
      · next hd => exact absurd hs (by simp [(of_decide_eq_true hd).2])
      · omega
    · by_cases hs : s.scheduled = true
      · exact .inr hs
      · exact .inl (decide_eq_true ⟨hne, by simpa using hs⟩)

/-! ### The capacity -/

/-- Filling keeps the usage within the capacity exactly when there is room. -/
theorem fill_usage_le_iff (rule : Rule α) (hle : s.usage ≤ rule.capacity) :
    (s.fill rule).usage ≤ rule.capacity ↔ Room rule s := by
  match hwait : s.wait with
  | [] =>
    rw [fill_nil hwait]
    exact iff_of_true hle (by simp [Room, hwait])
  | a :: others =>
    match hsplit : rule.split a with
    | none =>
      rw [fill_none hwait hsplit]
      refine iff_of_true ?_ (by simp [Room, hwait, hsplit])
      split
      · exact hle
      · next hroom => exact Nat.le_of_not_lt fun hlt => hroom (.inr hlt)
    | some (b, c) =>
      rw [fill_some hwait hsplit]
      simp [Room, hwait, hsplit, startFill]

/-! ### Items that are not too large -/

/-- Where no item is too large, the parts are the items. -/
theorem Rule.flatMap_parts (htodo : ∀ a ∈ todo, rule.split a = none) :
    todo.flatMap rule.parts = todo := by
  induction todo with
  | nil => rfl
  | cons a rest ih =>
    rw [List.flatMap_cons, Rule.parts_none (htodo a List.mem_cons_self),
      ih fun b hb => htodo b (List.mem_cons_of_mem a hb)]
    rfl

/-- The first parts of large items can be told from items that are not. -/
theorem Flows.room {whole : α → Prop} (h : Flows rule todo s)
    (htodo : ∀ a ∈ todo, rule.split a = none ∧ whole a)
    (hfirst : ∀ {a b c}, rule.split a = some (b, c) → ¬ whole b) : Room rule s := by
  intro a ha part hpart
  cases hfilling : s.filling with
  | true =>
    obtain ⟨b, hb, hnone⟩ := h.filling hfilling
    obtain rfl := Option.some.inj (ha.symm.trans hb)
    rw [hnone] at hpart
    cases hpart
  | false =>
    -- the part would be among the items
    have hsplit : rule.split a = some (part.1, part.2) := hpart
    have hmem : part.1 ∈ s.rest.flatMap rule.parts := by
      rw [List.mem_flatMap, rest, hfilling, if_neg Bool.false_ne_true]
      refine ⟨a, List.mem_of_mem_head? ha, ?_⟩
      rw [Rule.parts_some hsplit]
      exact List.mem_cons_self
    have hparts := h.parts
    rw [Rule.flatMap_parts fun a ha => (htodo a ha).1] at hparts
    have hwhole := (htodo part.1 (hparts ▸ List.mem_append_right _ hmem)).2
    exact absurd hwhole (hfirst hsplit)

/-! ### What is left to do -/

/-- A bound on the steps that are left: a part is filled in two of them, the scheduled event is one
more, and draining takes at most five. -/
def load (rule : Rule α) (s : Pipeline α) : Nat :=
  8 * (s.rest.flatMap rule.parts).length + (if s.filling then 2 else 0) +
    (if s.scheduled then 1 else 0) + 5 * s.held.length

theorem startFill_load_le {wait : List α} (hfilling : s.filling = false)
    (ha : rule.split a = none)
    (hparts : s.wait.flatMap rule.parts = rule.parts a ++ wait.flatMap rule.parts) :
    (s.startFill rule a (a :: wait)).load rule ≤ s.load rule := by
  have hbefore : s.rest.flatMap rule.parts = a :: wait.flatMap rule.parts := by
    rw [rest, if_neg (by simp [hfilling]), hparts, Rule.parts_none ha]
    rfl
  have hafter : (s.startFill rule a (a :: wait)).rest = wait := rfl
  have hheld : (s.startFill rule a (a :: wait)).held.length = s.held.length + 1 := by
    simp [Pipeline.startFill]
  rw [load, load, hbefore, hafter, hheld, List.length_cons]
  simp only [Pipeline.startFill, if_true]
  omega

/-- What is filled is no longer waiting. -/
theorem Flows.fill_load_le (h : Flows rule todo s) : (s.fill rule).load rule ≤ s.load rule := by
  rcases h.fill_cases with heq | ⟨a, wait, heq, hfilling, hsplit, hparts⟩
  · rw [heq]
  · rw [heq]
    exact startFill_load_le hfilling hsplit hparts

theorem fillDone_load (rule : Rule α) (hfilling : s.filling = true) :
    s.fillDone.load rule + 2 = s.load rule := by
  have hrest : s.fillDone.rest = s.rest := by
    rw [rest, rest, if_pos hfilling]
    rfl
  rw [load, load, hrest, if_pos hfilling]
  show _ + 0 + (if s.scheduled then 1 else 0) + 5 * s.held.length + 2 = _
  omega

theorem drain_load (rule : Rule α) (hscheduled : s.scheduled = true) :
    ({ s with scheduled := false } : Pipeline α).drain.load rule + 1 = s.load rule := by
  rw [load, load, if_pos hscheduled]
  show 8 * (s.rest.flatMap rule.parts).length + (if s.filling then 2 else 0) + 0 +
    5 * s.held.length + 1 = _
  omega

theorem release_load (rule : Rule α) (hheld : s.held ≠ []) :
    (s.release rule).load rule + 5 = s.load rule := by
  obtain ⟨a, others, hcons⟩ := List.exists_cons_of_ne_nil hheld
  rw [release_cons hcons, load, load, hcons, List.length_cons]
  show 8 * (s.rest.flatMap rule.parts).length + (if s.filling then 2 else 0) +
    (if s.scheduled then 1 else 0) + 5 * others.length + 5 = _
  omega

/-- Whatever is in the buffer counts. -/
theorem le_load (rule : Rule α) (hheld : s.held ≠ []) :
    5 + (if s.filling then 2 else 0) ≤ s.load rule := by
  have hpos := List.length_pos_of_ne_nil hheld
  rw [load]
  omega

end Operations

end Pipeline
