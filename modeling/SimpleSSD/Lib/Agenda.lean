import Mathlib.Algebra.Order.Group.Nat
import Mathlib.Data.List.Basic
import Mathlib.Data.List.Pairwise

/-!
# Agendas

Events are entered for a tick, cancelled and dispatched. An event is due at the tick it
was entered for last, until it is cancelled or dispatched; entering it again for the tick it is
due at changes nothing. A queue lists an agenda when it holds what is due, by tick and, at
equal ticks, in the order of entry.

Records are kept with the latest first.
-/

universe u

namespace Agenda

/-- What happens to an event. -/
inductive Record (ε : Type u) where
  | entered (e : ε) (tick : Nat)
  | cancelled (e : ε)
  | dispatched (e : ε) (tick : Nat)

variable {ε : Type u} [DecidableEq ε]

/-- The tick at which the event is due. -/
def due : List (Record ε) → ε → Option Nat
  | [], _ => none
  | .entered e' tick :: log, e => if e = e' then some tick else due log e
  | .cancelled e' :: log, e => if e = e' then none else due log e
  | .dispatched e' _ :: log, e => if e = e' then none else due log e

/-- The number of records before the entry that the event is due by. -/
def place : List (Record ε) → ε → Nat
  | [], _ => 0
  | .entered e' tick :: log, e =>
    if e = e' ∧ due log e ≠ some tick then log.length else place log e
  | .cancelled _ :: log, e => place log e
  | .dispatched _ _ :: log, e => place log e

/-- The tick of the last dispatch. -/
def now : List (Record ε) → Nat
  | [] => 0
  | .dispatched _ tick :: _ => tick
  | .entered _ _ :: log => now log
  | .cancelled _ :: log => now log

/-- `a` comes before `b`. -/
def Before (log : List (Record ε)) (a b : ε × Nat) : Prop :=
  a.2 < b.2 ∨ a.2 = b.2 ∧ place log a.1 < place log b.1

/-- The queue lists what is due, in its order. -/
structure Lists (log : List (Record ε)) (queue : List (ε × Nat)) : Prop where
  mem : ∀ e tick, (e, tick) ∈ queue ↔ due log e = some tick
  sorted : queue.Pairwise (Before log)

/-- The event is due at the tick, and before all others. -/
structure IsNext (log : List (Record ε)) (e : ε) (tick : Nat) : Prop where
  due : due log e = some tick
  first : ∀ e' tick', Agenda.due log e' = some tick' → e' ≠ e → Before log (e, tick) (e', tick')

/-- Every event was dispatched in its turn, at the tick it was due, and time did not go back. -/
def InTurn : List (Record ε) → Prop
  | [] => True
  | .dispatched e tick :: log => IsNext log e tick ∧ now log ≤ tick ∧ InTurn log
  | .entered _ _ :: log => InTurn log
  | .cancelled _ :: log => InTurn log

section Place

variable {log : List (Record ε)} {e : ε} {tick : Nat}

theorem place_lt (h : due log e = some tick) : place log e < log.length := by
  induction log with
  | nil => cases h
  | cons r log ih =>
    cases r with
    | entered e' tick' =>
      rw [due] at h
      rw [place, List.length_cons]
      by_cases hnew : e = e' ∧ due log e ≠ some tick'
      · rw [if_pos hnew]
        omega
      · rw [if_neg hnew]
        have hold : due log e = some tick := by
          by_cases he : e = e'
          · rw [if_pos he] at h
            cases h
            by_contra hne
            exact hnew ⟨he, hne⟩
          · rwa [if_neg he] at h
        exact (ih hold).trans (Nat.lt_succ_self _)
    | cancelled e' =>
      rw [due] at h
      split at h
      · cases h
      · exact (ih h).trans (Nat.lt_succ_self _)
    | dispatched e' tick' =>
      rw [due] at h
      split at h
      · cases h
      · exact (ih h).trans (Nat.lt_succ_self _)

end Place

section Lists

variable {log : List (Record ε)} {queue : List (ε × Nat)} {e : ε} {tick : Nat}

theorem lists_nil : Lists ([] : List (Record ε)) [] := ⟨fun e tick => by simp [due], .nil⟩

/-- Each event is listed once. -/
theorem Lists.nodup (h : Lists log queue) : (queue.map Prod.fst).Nodup := by
  refine List.pairwise_map.mpr (h.sorted.imp_of_mem fun {a b} ha hb hab heq => ?_)
  have hdue := ((h.mem a.1 a.2).mp ha).symm.trans (heq ▸ (h.mem b.1 b.2).mp hb)
  rcases hab with hlt | ⟨-, hlt⟩
  · exact absurd (Option.some.inj hdue) hlt.ne
  · rw [heq] at hlt
    exact lt_irrefl _ hlt

theorem Lists.sorted_tick (h : Lists log queue) : queue.Pairwise fun a b => a.2 ≤ b.2 :=
  h.sorted.imp fun hab => hab.elim Nat.le_of_lt fun heq => heq.1.le

theorem Lists.insertion (h : Lists log queue) :
    queue.Pairwise fun a b => a.2 = b.2 → place log a.1 < place log b.1 :=
  h.sorted.imp fun hab heq => hab.elim (fun hlt => absurd heq hlt.ne) fun h => h.2

/-- What is due stays where it is when another event is cancelled. -/
theorem Lists.cancel (h : Lists log queue) (e : ε) :
    Lists (.cancelled e :: log) (queue.filter fun entry => entry.1 ≠ e) := by
  constructor
  · intro e' tick
    rw [List.mem_filter, h.mem, due, decide_eq_true_eq]
    by_cases he : e' = e <;> simp [he]
  · exact h.sorted.filter _

/-- Entering an event for the tick it is due at. -/
theorem Lists.enter_same (h : Lists log queue) (hdue : due log e = some tick) :
    Lists (.entered e tick :: log) queue := by
  constructor
  · intro e' tick'
    rw [h.mem, due]
    by_cases he : e' = e
    · rw [if_pos he, he, hdue]
    · rw [if_neg he]
  · have hplace : place (.entered e tick :: log) = place log := by
      funext e'
      rw [place, if_neg]
      rintro ⟨rfl, hne⟩
      exact hne hdue
    unfold Before
    rw [hplace]
    exact h.sorted

/-- A new entry goes behind all entries of its tick. -/
theorem Lists.enter (h : Lists log queue) (hdue : due log e ≠ some tick) :
    Lists (.entered e tick :: log)
      ((queue.filter fun entry => entry.1 ≠ e ∧ entry.2 ≤ tick) ++
        (e, tick) :: queue.filter fun entry => entry.1 ≠ e ∧ tick < entry.2) := by
  have hplace : place (.entered e tick :: log) e = log.length := by
    rw [place, if_pos ⟨rfl, hdue⟩]
  have hother : ∀ e', e' ≠ e → place (.entered e tick :: log) e' = place log e' := by
    intro e' he
    rw [place, if_neg]
    exact fun h => he h.1
  constructor
  · intro e' tick'
    simp only [List.mem_append, List.mem_cons, List.mem_filter, h.mem, due, decide_eq_true_eq,
      Prod.mk.injEq]
    by_cases he : e' = e
    · simp [he, eq_comm]
    · simp only [he, false_and, ne_eq, not_false_eq_true, true_and, false_or, if_false]
      constructor
      · rintro (⟨hd, -⟩ | ⟨hd, -⟩) <;> exact hd
      · intro hd
        rcases le_or_gt tick' tick with hle | hlt
        · exact .inl ⟨hd, hle⟩
        · exact .inr ⟨hd, hlt⟩
  · have hkeep : ∀ (p : ε × Nat → Prop) [DecidablePred p], (∀ x, p x → x.1 ≠ e) →
        (queue.filter fun x => p x).Pairwise (Before (.entered e tick :: log)) := by
      intro p _ hp
      refine (h.sorted.filter _).imp_of_mem fun {a b} ha hb hab => ?_
      have ha' := hp a (by simpa using (List.mem_filter.mp ha).2)
      have hb' := hp b (by simpa using (List.mem_filter.mp hb).2)
      rwa [Before, hother a.1 ha', hother b.1 hb']
    rw [List.pairwise_append]
    refine ⟨hkeep _ fun x hx => hx.1, List.pairwise_cons.mpr ⟨fun b hb => ?_, hkeep _ fun x hx =>
      hx.1⟩, fun a ha b hb => ?_⟩
    · exact .inl (of_decide_eq_true (List.mem_filter.mp hb).2).2
    · obtain ⟨hmem, hcond⟩ := List.mem_filter.mp ha
      obtain ⟨hne, hle⟩ := of_decide_eq_true hcond
      rcases List.mem_cons.mp hb with rfl | hb
      · rcases Nat.lt_or_eq_of_le hle with hlt | heq
        · exact .inl hlt
        · -- the new entry has the highest place
          refine .inr ⟨heq, ?_⟩
          rw [hplace, hother a.1 hne]
          exact place_lt ((h.mem a.1 a.2).mp hmem)
      · exact .inl (hle.trans_lt (of_decide_eq_true (List.mem_filter.mp hb).2).2)

/-- The first entry is next. -/
theorem Lists.isNext (h : Lists log ((e, tick) :: queue)) : IsNext log e tick := by
  refine ⟨(h.mem e tick).mp List.mem_cons_self, fun e' tick' hdue hne => ?_⟩
  have hmem := (h.mem e' tick').mpr hdue
  rcases List.mem_cons.mp hmem with heq | hmem
  · exact absurd (congrArg Prod.fst heq) hne
  · exact (List.pairwise_cons.mp h.sorted).1 _ hmem

/-- Dispatching it leaves the others. -/
theorem Lists.dispatch (h : Lists log ((e, tick) :: queue)) :
    Lists (.dispatched e tick :: log) queue := by
  have hnotMem : e ∉ queue.map Prod.fst := (List.nodup_cons.mp h.nodup).1
  refine ⟨fun e' tick' => ?_, (List.pairwise_cons.mp h.sorted).2⟩
  have hmem := h.mem e' tick'
  rw [List.mem_cons, Prod.mk.injEq] at hmem
  rw [due]
  by_cases he : e' = e
  · rw [if_pos he]
    refine iff_of_false (fun hin => hnotMem ?_) (by simp)
    exact he ▸ List.mem_map_of_mem hin
  · rw [if_neg he, ← hmem]
    simp [he]

end Lists

end Agenda
