import SimpleSSD.Lib.Agenda
import SimpleSSD.Lib.Run
import SimpleSSD.Util.Def

/-!
# The event engine (sim/engine.cc)

The engine of the standalone simulator keeps the scheduled events in a list and calls their
handlers one after the other. A handler may call the engine again, and `doNextEvent` as
well, so `doNextEvent` is two calls of the model: up to the handler, and what follows it.
The calls of the handler stand in between. Statistics and the lock are left out.
-/

namespace SimpleSSD

/-- The fields of `Engine`. The functions in `eventList` are not modelled: what they do are
further calls. -/
structure Engine where
  simTick : Nat
  counter : Nat
  forceStop : Bool
  eventList : List Nat
  eventQueue : List (Nat × Nat)
  eventHandled : Nat

namespace Engine

def new : Engine := ⟨0, 0, false, [], [], 0⟩

/-- The tick at which the loop of `insertEvent` finds the event. -/
def oldTick (eid : Nat) (queue : List (Nat × Nat)) : Option Nat :=
  (queue.filter fun entry => entry.1 = eid).getLast?.map Prod.snd

/-- `eventQueue.erase(old)`: the last entry of the event is taken out. -/
def eraseOld (eid : Nat) (queue : List (Nat × Nat)) : List (Nat × Nat) :=
  (queue.reverse.eraseP fun entry => entry.1 = eid).reverse

/-- `insertEvent` (engine.cc:36–75): the new entry goes in front of the first one with a later
tick, and the old one goes. -/
def insertEvent (eid tick : Nat) (queue : List (Nat × Nat)) : List (Nat × Nat) :=
  if oldTick eid queue = some tick then queue
  else
    let front := queue.takeWhile fun entry => entry.2 ≤ tick
    let back := queue.dropWhile fun entry => entry.2 ≤ tick
    if back.any fun entry => entry.1 = eid then front ++ (eid, tick) :: eraseOld eid back
    else eraseOld eid front ++ (eid, tick) :: back

/-- `removeEvent` (engine.cc:77–90). -/
def removeEvent (eid : Nat) (queue : List (Nat × Nat)) : List (Nat × Nat) :=
  queue.eraseP fun entry => entry.1 = eid

/-- `allocateEvent` (engine.cc:112–120). -/
def allocateEvent (s : Engine) : Except Fault Engine :=
  let counter := (s.counter + 1) % 2 ^ 64
  if counter ∈ s.eventList then .error (.panic "Engine::allocateEvent" "Fail to allocate event")
  else .ok { s with counter := counter, eventList := counter :: s.eventList }

/-- `scheduleEvent` (engine.cc:122–152). -/
def scheduleEvent (eid tick : Nat) (s : Engine) : Except Fault Engine :=
  if eid ∈ s.eventList then
    let tick := if tick < s.simTick then s.simTick else tick
    .ok { s with eventQueue := insertEvent eid tick s.eventQueue }
  else .error (.panic "Engine::scheduleEvent" "Event does not exists")

/-- `descheduleEvent` (engine.cc:154–163). -/
def descheduleEvent (eid : Nat) (s : Engine) : Except Fault Engine :=
  if eid ∈ s.eventList then .ok { s with eventQueue := removeEvent eid s.eventQueue }
  else .error (.panic "Engine::descheduleEvent" "Event does not exists")

/-- `isScheduled` (engine.cc:165–177): the tick of the event, if it is scheduled. -/
def isScheduled (eid : Nat) (s : Engine) : Except Fault (Option Nat) :=
  if eid ∈ s.eventList then .ok ((s.eventQueue.find? fun entry => entry.1 = eid).map Prod.snd)
  else .error (.panic "Engine::isScheduled" "Event does not exists")

/-- `stopEngine`. -/
def stopEngine (s : Engine) : Engine := { s with forceStop := true }

/-- `doNextEvent` (engine.cc:191–217) up to the call of a handler: the event whose handler is
called, and the tick it is given. -/
def doNextEvent (s : Engine) : Except Fault (Option (Nat × Nat) × Engine) :=
  if s.forceStop then .ok (none, s)
  else
    match s.eventQueue with
    | [] => .ok (none, s)
    | (eid, tick) :: rest =>
      if eid ∈ s.eventList then
        .ok (some (eid, tick), { s with simTick := tick, eventQueue := rest })
      else .error (.panic "Engine::doNextEvent" "Event does not exists")

/-- The end of `doNextEvent`, when the handler has returned. -/
def handlerDone (s : Engine) : Engine := { s with eventHandled := s.eventHandled + 1 }

/-- The calls of the engine. -/
inductive Call where
  | allocateEvent
  | scheduleEvent (eid tick : Nat)
  | descheduleEvent (eid : Nat)
  | doNextEvent
  | handlerDone

end Engine

/-- The engine, with the records of what its calls have done. -/
structure EngineHistory where
  engine : Engine
  log : List (Agenda.Record Nat)

namespace EngineHistory

def new : EngineHistory := ⟨.new, []⟩

/-- One call. -/
def exec (s : EngineHistory) : Engine.Call → Except Fault EngineHistory
  | .allocateEvent => s.engine.allocateEvent.map fun engine => ⟨engine, s.log⟩
  | .scheduleEvent eid tick =>
    (s.engine.scheduleEvent eid tick).map fun engine => ⟨engine, .entered eid tick :: s.log⟩
  | .descheduleEvent eid =>
    (s.engine.descheduleEvent eid).map fun engine => ⟨engine, .cancelled eid :: s.log⟩
  | .doNextEvent => s.engine.doNextEvent.map fun r =>
    ⟨r.2, match r.1 with
      | some (eid, tick) => .dispatched eid tick :: s.log
      | none => s.log⟩
  | .handlerDone => .ok ⟨s.engine.handlerDone, s.log⟩

/-- The call is for an event that exists, and schedules none for a tick that has passed. -/
def Valid (s : EngineHistory) : Engine.Call → Prop
  | .allocateEvent => (s.engine.counter + 1) % 2 ^ 64 ∉ s.engine.eventList
  | .scheduleEvent eid tick => eid ∈ s.engine.eventList ∧ s.engine.simTick ≤ tick
  | .descheduleEvent eid => eid ∈ s.engine.eventList
  | .doNextEvent => True
  | .handlerDone => True

instance (s : EngineHistory) (c : Engine.Call) : Decidable (s.Valid c) := by
  cases c <;> unfold Valid <;> infer_instance

/-- The queue holds each scheduled event once, at the tick of its latest schedule, by tick and in
the order of insertion; every dispatch was in its turn, in the order of time; and the next
call of `doNextEvent` dispatches what is due first. -/
structure Ordered (s : EngineHistory) : Prop where
  scheduled : ∀ eid tick, (eid, tick) ∈ s.engine.eventQueue ↔ Agenda.due s.log eid = some tick
  once : (s.engine.eventQueue.map Prod.fst).Nodup
  sorted : s.engine.eventQueue.Pairwise fun a b => a.2 ≤ b.2
  insertion : s.engine.eventQueue.Pairwise fun a b =>
    a.2 = b.2 → Agenda.place s.log a.1 < Agenda.place s.log b.1
  dispatches : Agenda.InTurn s.log
  simTick : s.engine.simTick = Agenda.now s.log
  next : s.engine.eventQueue ≠ [] → ∃ eid tick s', s.exec .doNextEvent = .ok s' ∧
    s'.log = .dispatched eid tick :: s.log ∧ s'.engine.simTick = tick ∧
      Agenda.IsNext s.log eid tick

end EngineHistory

/-! ### The queue -/

namespace Engine

section Queue

variable {eid tick : Nat} {queue : List (Nat × Nat)}

/-- In a queue that is sorted by tick, the loop stops where the later ticks begin. -/
theorem takeWhile_sorted (h : queue.Pairwise fun a b => a.2 ≤ b.2) :
    (queue.takeWhile fun entry => entry.2 ≤ tick) = queue.filter fun entry => entry.2 ≤ tick := by
  induction queue with
  | nil => rfl
  | cons a queue ih =>
    obtain ⟨hfirst, hrest⟩ := List.pairwise_cons.mp h
    rw [List.takeWhile_cons, List.filter_cons]
    split
    · rw [ih hrest]
    · next hlate =>
      refine (List.filter_eq_nil_iff.mpr fun b hb hle => hlate ?_).symm
      rw [decide_eq_true_eq] at hle ⊢
      exact (hfirst b hb).trans hle

theorem dropWhile_sorted (h : queue.Pairwise fun a b => a.2 ≤ b.2) :
    (queue.dropWhile fun entry => entry.2 ≤ tick) = queue.filter fun entry => tick < entry.2 := by
  induction queue with
  | nil => rfl
  | cons a queue ih =>
    obtain ⟨hfirst, hrest⟩ := List.pairwise_cons.mp h
    rw [List.dropWhile_cons, List.filter_cons]
    by_cases hle : a.2 ≤ tick
    · rw [if_pos (decide_eq_true hle), if_neg (by simpa using hle), ih hrest]
    · rw [if_neg (by simpa using hle), if_pos (by simpa using Nat.lt_of_not_le hle)]
      refine congrArg _ (List.filter_eq_self.mpr fun b hb => decide_eq_true ?_).symm
      exact (Nat.lt_of_not_le hle).trans_le (hfirst b hb)

/-- Taking out the only entry of an event. -/
theorem eraseP_nodup (h : (queue.map Prod.fst).Nodup) :
    (queue.eraseP fun entry => entry.1 = eid) = queue.filter fun entry => entry.1 ≠ eid := by
  induction queue with
  | nil => rfl
  | cons a queue ih =>
    obtain ⟨hnotMem, hrest⟩ := List.nodup_cons.mp h
    rw [List.eraseP_cons, List.filter_cons]
    by_cases ha : a.1 = eid
    · rw [if_neg (by simp [ha]), decide_eq_true ha, cond_true]
      refine (List.filter_eq_self.mpr fun b hb => ?_).symm
      rw [decide_eq_true_eq]
      rintro heq
      rw [ha, ← heq] at hnotMem
      exact hnotMem (List.mem_map_of_mem hb)
    · rw [if_pos (by simp [ha]), decide_eq_false ha, cond_false, ih hrest]

theorem eraseOld_nodup (h : (queue.map Prod.fst).Nodup) :
    eraseOld eid queue = queue.filter fun entry => entry.1 ≠ eid := by
  have hreverse : (queue.reverse.map Prod.fst).Nodup := by
    rw [List.map_reverse]
    exact List.nodup_reverse.mpr h
  rw [eraseOld, eraseP_nodup hreverse, List.filter_reverse, List.reverse_reverse]

theorem oldTick_eq_some (h : (queue.map Prod.fst).Nodup) :
    oldTick eid queue = some tick ↔ (eid, tick) ∈ queue := by
  rw [oldTick, Option.map_eq_some_iff]
  constructor
  · rintro ⟨entry, hlast, rfl⟩
    obtain ⟨hmem, heid⟩ := List.mem_filter.mp (List.mem_of_getLast? hlast)
    rw [← of_decide_eq_true heid]
    exact hmem
  · intro hmem
    have hfilter : (eid, tick) ∈ queue.filter fun entry => entry.1 = eid :=
      List.mem_filter.mpr ⟨hmem, decide_eq_true rfl⟩
    have hne := List.ne_nil_of_mem hfilter
    refine ⟨_, List.getLast?_eq_getLast_of_ne_nil hne, ?_⟩
    -- two entries of the event are the same
    obtain ⟨hlast, heid⟩ := List.mem_filter.mp (List.getLast_mem hne)
    exact congrArg Prod.snd (List.inj_on_of_nodup_map h hlast hmem (of_decide_eq_true heid))

/-- `insertEvent` on a sorted queue that holds each event once. -/
theorem insertEvent_eq (hsorted : queue.Pairwise fun a b => a.2 ≤ b.2)
    (honce : (queue.map Prod.fst).Nodup) (hnew : (eid, tick) ∉ queue) :
    insertEvent eid tick queue = (queue.filter fun entry => entry.1 ≠ eid ∧ entry.2 ≤ tick) ++
      (eid, tick) :: queue.filter fun entry => entry.1 ≠ eid ∧ tick < entry.2 := by
  have hfront : ∀ p : Nat × Nat → Bool, ((queue.filter p).map Prod.fst).Nodup := fun p =>
    honce.sublist (List.filter_sublist.map _)
  rw [insertEvent, if_neg fun h => hnew ((oldTick_eq_some honce).mp h), takeWhile_sorted hsorted,
    dropWhile_sorted hsorted]
  dsimp only
  split
  · next hback =>
    -- the old entry is in the second part
    obtain ⟨old, hold, heid⟩ := List.any_eq_true.mp hback
    obtain ⟨hmem, hlate⟩ := List.mem_filter.mp hold
    rw [eraseOld_nodup (hfront _), List.filter_filter]
    congr 1
    · refine List.filter_congr fun entry hentry => ?_
      rw [Bool.eq_iff_iff, decide_eq_true_eq, decide_eq_true_eq]
      refine ⟨fun hle => ⟨fun heq => ?_, hle⟩, fun h => h.2⟩
      have hsame := List.inj_on_of_nodup_map honce hentry hmem
        (heq.trans (of_decide_eq_true heid).symm)
      rw [hsame] at hle
      exact absurd (of_decide_eq_true hlate) (Nat.not_lt_of_le hle)
    · refine congrArg _ (List.filter_congr fun entry _ => ?_)
      simp
  · next hback =>
    rw [eraseOld_nodup (hfront _), List.filter_filter]
    congr 1
    · refine List.filter_congr fun entry _ => ?_
      simp
    · refine congrArg _ (List.filter_congr fun entry hentry => ?_)
      rw [Bool.eq_iff_iff, decide_eq_true_eq, decide_eq_true_eq]
      refine ⟨fun hlt => ⟨fun heq => hback ?_, hlt⟩, fun h => h.2⟩
      exact List.any_eq_true.mpr ⟨entry, List.mem_filter.mpr ⟨hentry, decide_eq_true hlt⟩,
        decide_eq_true heq⟩

/-- Whatever the order of the queue, an event that is inserted replaces its old entry. -/
theorem insertEvent_perm (h : (queue.map Prod.fst).Nodup) :
    (insertEvent eid tick queue).Perm
      ((eid, tick) :: queue.filter fun entry => entry.1 ≠ eid) := by
  unfold insertEvent
  by_cases hsame : oldTick eid queue = some tick
  · -- the entry stays, and is the only one of the event
    have hmem := (oldTick_eq_some h).mp hsame
    rw [if_pos hsame]
    refine (List.perm_ext_iff_of_nodup h.of_map ?_).mpr fun entry => ?_
    · refine List.nodup_cons.mpr ⟨fun hfilter => ?_, h.of_map.filter _⟩
      exact of_decide_eq_true (List.mem_filter.mp hfilter).2 rfl
    · rw [List.mem_cons, List.mem_filter, decide_eq_true_eq]
      constructor
      · intro hentry
        by_cases heid : entry.1 = eid
        · exact .inl (List.inj_on_of_nodup_map h hentry hmem heid)
        · exact .inr ⟨hentry, heid⟩
      · rintro (rfl | ⟨hentry, -⟩)
        · exact hmem
        · exact hentry
  · rw [if_neg hsame]
    have hsplit := List.takeWhile_append_dropWhile (p := fun entry : Nat × Nat => entry.2 ≤ tick)
      (l := queue)
    generalize (queue.takeWhile fun entry => entry.2 ≤ tick) = front at *
    generalize (queue.dropWhile fun entry => entry.2 ≤ tick) = back at *
    subst hsplit
    rw [List.map_append] at h
    obtain ⟨hfront, hback, hdisjoint⟩ := List.nodup_append.mp h
    have hmiddle : (front.filter (fun entry => entry.1 ≠ eid) ++ (eid, tick) ::
        back.filter fun entry => entry.1 ≠ eid).Perm ((eid, tick) ::
          (front ++ back).filter fun entry => entry.1 ≠ eid) := by
      rw [List.filter_append]
      exact List.perm_middle
    dsimp only
    split
    · next hany =>
      obtain ⟨old, hold, heid⟩ := List.any_eq_true.mp hany
      have hkeep : front.filter (fun entry => entry.1 ≠ eid) = front := by
        refine List.filter_eq_self.mpr fun entry hentry => decide_eq_true fun heq => ?_
        refine hdisjoint _ (List.mem_map_of_mem hentry) _ (List.mem_map_of_mem hold) ?_
        rw [heq, of_decide_eq_true heid]
      rw [eraseOld_nodup hback]
      rwa [hkeep] at hmiddle
    · next hany =>
      have hkeep : back.filter (fun entry => entry.1 ≠ eid) = back := by
        refine List.filter_eq_self.mpr fun entry hentry => decide_eq_true fun heq => ?_
        exact hany (List.any_eq_true.mpr ⟨entry, hentry, decide_eq_true heq⟩)
      rw [eraseOld_nodup hfront]
      rwa [hkeep] at hmiddle

end Queue

/-! ### Calls for single events -/

/-- The event is in the queue. -/
def Scheduled (s : Engine) (eid : Nat) : Prop := eid ∈ s.eventQueue.map Prod.fst

instance (s : Engine) (eid : Nat) : Decidable (s.Scheduled eid) :=
  inferInstanceAs (Decidable (_ ∈ _))

/-- The queue holds events that exist, each of them once. -/
structure Sound (s : Engine) : Prop where
  once : (s.eventQueue.map Prod.fst).Nodup
  exists_mem : ∀ eid, s.Scheduled eid → eid ∈ s.eventList

section Calls

variable {s s' : Engine} {eid tick : Nat}

theorem new_sound : Sound .new := ⟨List.nodup_nil, fun _ h => by cases h⟩

theorem Sound.allocateEvent (h : s.Sound) (hnew : (s.counter + 1) % 2 ^ 64 ∉ s.eventList) :
    ∃ s', s.allocateEvent = .ok s' ∧ s'.Sound ∧ s'.forceStop = s.forceStop ∧
      s'.simTick = s.simTick ∧ s'.eventQueue = s.eventQueue ∧
      s'.eventList = s'.counter :: s.eventList ∧ s'.counter ∉ s.eventList := by
  refine ⟨_, if_neg hnew, ⟨h.once, fun eid heid => ?_⟩, rfl, rfl, rfl, rfl, hnew⟩
  exact List.mem_cons_of_mem _ (h.exists_mem eid heid)

/-- An allocation that returns has found a number that is not in use. -/
theorem Sound.allocated (h : s.Sound) (hcall : s.allocateEvent = .ok s') :
    s'.Sound ∧ s'.forceStop = s.forceStop ∧ s'.eventQueue = s.eventQueue ∧
      s'.eventList = s'.counter :: s.eventList ∧ s'.counter ∉ s.eventList := by
  have hnew : (s.counter + 1) % 2 ^ 64 ∉ s.eventList := by
    intro hmem
    rw [Engine.allocateEvent, if_pos hmem] at hcall
    cases hcall
  obtain ⟨engine, hallocate, hsound, hstop, -, hqueue, hlist, hcounter⟩ := h.allocateEvent hnew
  rw [hcall] at hallocate
  cases hallocate
  exact ⟨hsound, hstop, hqueue, hlist, hcounter⟩

/-- Scheduling an event touches no other. -/
theorem Sound.scheduleEvent (h : s.Sound) (heid : eid ∈ s.eventList) (tick : Nat) :
    ∃ s', s.scheduleEvent eid tick = .ok s' ∧ s'.Sound ∧ s'.forceStop = s.forceStop ∧
      s'.simTick = s.simTick ∧ s'.eventList = s.eventList ∧
      ∀ e, s'.Scheduled e ↔ e = eid ∨ s.Scheduled e := by
  have hperm := @insertEvent_perm eid (if tick < s.simTick then s.simTick else tick) s.eventQueue
    h.once
  have hkeys := hperm.map Prod.fst
  have hscheduled : ∀ e, e ∈ (insertEvent eid (if tick < s.simTick then s.simTick else tick)
      s.eventQueue).map Prod.fst ↔ e = eid ∨ s.Scheduled e := by
    intro e
    rw [hkeys.mem_iff, List.map_cons, List.mem_cons]
    constructor
    · rintro (rfl | he)
      · exact .inl rfl
      · exact .inr ((List.filter_sublist.map _).subset he)
    · intro he
      by_cases heq : e = eid
      · exact .inl heq
      · obtain ⟨entry, hentry, rfl⟩ := List.mem_map.mp (he.resolve_left heq)
        exact .inr (List.mem_map_of_mem (List.mem_filter.mpr ⟨hentry, decide_eq_true heq⟩))
  refine ⟨_, if_pos heid, ⟨hkeys.nodup_iff.mpr (List.nodup_cons.mpr ⟨fun hmem => ?_, ?_⟩),
    fun e he => ?_⟩, rfl, rfl, rfl, hscheduled⟩
  · obtain ⟨entry, hentry, heq⟩ := List.mem_map.mp hmem
    exact of_decide_eq_true (List.mem_filter.mp hentry).2 heq
  · exact h.once.sublist (List.filter_sublist.map _)
  · rcases (hscheduled e).mp he with rfl | he
    · exact heid
    · exact h.exists_mem e he

theorem Sound.descheduleEvent (h : s.Sound) (heid : eid ∈ s.eventList) :
    ∃ s', s.descheduleEvent eid = .ok s' ∧ s'.Sound ∧ s'.forceStop = s.forceStop ∧
      s'.simTick = s.simTick ∧ s'.eventList = s.eventList ∧
      ∀ e, e ≠ eid → (s'.Scheduled e ↔ s.Scheduled e) := by
  have hremove : ((s.eventQueue.eraseP fun entry => entry.1 = eid).map Prod.fst).Sublist
      (s.eventQueue.map Prod.fst) := List.eraseP_sublist.map _
  refine ⟨_, if_pos heid, ⟨h.once.sublist hremove, fun e he => h.exists_mem e (hremove.subset he)⟩,
    rfl, rfl, rfl, fun e he => ⟨fun hmem => hremove.subset hmem, fun hmem => ?_⟩⟩
  obtain ⟨entry, hentry, rfl⟩ := List.mem_map.mp hmem
  exact List.mem_map_of_mem
    ((List.mem_eraseP_of_neg (by rwa [decide_eq_true_eq])).mpr hentry)

/-- An engine that was not stopped hands over the first event, which is no longer scheduled. -/
theorem Sound.doNextEvent (h : s.Sound) :
    (s.doNextEvent = .ok (none, s) ∧ (s.forceStop = true ∨ s.eventQueue = [])) ∨
      ∃ eid tick s', s.doNextEvent = .ok (some (eid, tick), s') ∧ s.forceStop = false ∧ s'.Sound ∧
        s'.forceStop = false ∧ s'.simTick = tick ∧ s'.eventList = s.eventList ∧ s.Scheduled eid ∧
        ∀ e, s'.Scheduled e ↔ e ≠ eid ∧ s.Scheduled e := by
  unfold Engine.doNextEvent
  cases hstop : s.forceStop with
  | true => exact .inl ⟨if_pos rfl, .inl rfl⟩
  | false =>
    rw [if_neg Bool.false_ne_true]
    cases hqueue : s.eventQueue with
    | nil => exact .inl ⟨rfl, .inr rfl⟩
    | cons first rest =>
      obtain ⟨eid, tick⟩ := first
      have hfirst : s.Scheduled eid := by
        unfold Scheduled
        rw [hqueue]
        exact List.mem_cons_self
      have honce := h.once
      rw [hqueue, List.map_cons, List.nodup_cons] at honce
      have hscheduled : ∀ e, e ∈ rest.map Prod.fst ↔ e ≠ eid ∧ s.Scheduled e := by
        intro e
        unfold Scheduled
        rw [hqueue, List.map_cons, List.mem_cons]
        constructor
        · intro he
          refine ⟨?_, .inr he⟩
          rintro rfl
          exact honce.1 he
        · rintro ⟨hne, he⟩
          exact he.resolve_left hne
      refine .inr ⟨eid, tick, _, if_pos (h.exists_mem eid hfirst), rfl,
        ⟨honce.2, fun e he => h.exists_mem e ((hscheduled e).mp he).2⟩, rfl, rfl, rfl, hfirst,
        hscheduled⟩

end Calls

end Engine

namespace EngineHistory

section Runs

open Agenda (Lists)

variable {s s' : EngineHistory} {c : Engine.Call}

/-- What every call keeps. -/
structure Kept (s : EngineHistory) : Prop where
  lists : Lists s.log s.engine.eventQueue
  exists_mem : ∀ entry ∈ s.engine.eventQueue, entry.1 ∈ s.engine.eventList
  ahead : ∀ entry ∈ s.engine.eventQueue, s.engine.simTick ≤ entry.2
  running : s.engine.forceStop = false
  dispatches : Agenda.InTurn s.log
  simTick : s.engine.simTick = Agenda.now s.log

theorem new_kept : Kept .new :=
  ⟨Agenda.lists_nil, by simp [new, Engine.new], by simp [new, Engine.new], rfl, trivial, rfl⟩

/-- Scheduling, for the tick the event has or for another one. -/
theorem Kept.lists_insert (h : s.Kept) (eid tick : Nat) :
    Lists (.entered eid tick :: s.log) (Engine.insertEvent eid tick s.engine.eventQueue) := by
  by_cases hold : (eid, tick) ∈ s.engine.eventQueue
  · rw [Engine.insertEvent, if_pos ((Engine.oldTick_eq_some h.lists.nodup).mpr hold)]
    exact h.lists.enter_same ((h.lists.mem eid tick).mp hold)
  · rw [Engine.insertEvent_eq h.lists.sorted_tick h.lists.nodup hold]
    exact h.lists.enter fun hdue => hold ((h.lists.mem eid tick).mpr hdue)

/-- What a new entry adds to the queue. -/
theorem Kept.mem_insert (h : s.Kept) {eid tick : Nat} {entry : Nat × Nat}
    (hentry : entry ∈ Engine.insertEvent eid tick s.engine.eventQueue) :
    entry = (eid, tick) ∨ entry ∈ s.engine.eventQueue := by
  have hdue := ((h.lists_insert eid tick).mem entry.1 entry.2).mp hentry
  rw [Agenda.due] at hdue
  split at hdue
  · next heq =>
    cases hdue
    exact .inl (Prod.ext heq rfl)
  · exact .inr ((h.lists.mem _ _).mpr hdue)

/-- The next event, with the handler that is called and what the call leaves. -/
theorem Kept.doNextEvent (h : s.Kept) {eid tick : Nat} {rest : List (Nat × Nat)}
    (hqueue : s.engine.eventQueue = (eid, tick) :: rest) :
    s.engine.doNextEvent =
        .ok (some (eid, tick), { s.engine with simTick := tick, eventQueue := rest }) ∧
      s.exec .doNextEvent = .ok
        ⟨{ s.engine with simTick := tick, eventQueue := rest }, .dispatched eid tick :: s.log⟩ := by
  have hexists := h.exists_mem (eid, tick) (by simp [hqueue])
  have hcall : s.engine.doNextEvent =
      .ok (some (eid, tick), { s.engine with simTick := tick, eventQueue := rest }) := by
    rw [Engine.doNextEvent, if_neg (by simp [h.running]), hqueue]
    exact if_pos hexists
  refine ⟨hcall, ?_⟩
  rw [exec, hcall]
  rfl

/-- Without an event nothing happens. -/
theorem Kept.doNextEvent_nil (h : s.Kept) (hqueue : s.engine.eventQueue = []) :
    s.engine.doNextEvent = .ok (none, s.engine) ∧ s.exec .doNextEvent = .ok s := by
  have hcall : s.engine.doNextEvent = .ok (none, s.engine) := by
    rw [Engine.doNextEvent, if_neg (by simp [h.running]), hqueue]
  refine ⟨hcall, ?_⟩
  rw [exec, hcall]
  rfl

theorem exec_kept (h : s.Kept) (hvalid : s.Valid c) : ∃ s', s.exec c = .ok s' ∧ s'.Kept := by
  cases c with
  | allocateEvent =>
    rw [exec, Engine.allocateEvent, if_neg hvalid]
    exact ⟨_, rfl, h.lists, fun entry hentry => List.mem_cons_of_mem _ (h.exists_mem entry hentry),
      h.ahead, h.running, h.dispatches, h.simTick⟩
  | scheduleEvent eid tick =>
    obtain ⟨hexists, hle⟩ := hvalid
    rw [exec, Engine.scheduleEvent, if_pos hexists, if_neg (Nat.not_lt_of_le hle)]
    refine ⟨_, rfl, h.lists_insert eid tick, fun entry hentry => ?_, fun entry hentry => ?_,
      h.running, h.dispatches, h.simTick⟩
    · rcases h.mem_insert hentry with rfl | hentry
      · exact hexists
      · exact h.exists_mem entry hentry
    · rcases h.mem_insert hentry with rfl | hentry
      · exact hle
      · exact h.ahead entry hentry
  | descheduleEvent eid =>
    have hexists : eid ∈ s.engine.eventList := hvalid
    rw [exec, Engine.descheduleEvent, if_pos hexists]
    have hremove : (s.engine.eventQueue.eraseP fun entry => entry.1 = eid) =
        s.engine.eventQueue.filter fun entry => entry.1 ≠ eid := Engine.eraseP_nodup h.lists.nodup
    refine ⟨_, rfl, ?_, fun entry hentry => ?_, fun entry hentry => ?_, h.running, h.dispatches,
      h.simTick⟩
    · show Lists _ (Engine.removeEvent eid s.engine.eventQueue)
      rw [Engine.removeEvent, hremove]
      exact h.lists.cancel eid
    · exact h.exists_mem entry (List.mem_of_mem_eraseP hentry)
    · exact h.ahead entry (List.mem_of_mem_eraseP hentry)
  | doNextEvent =>
    cases hqueue : s.engine.eventQueue with
    | nil => exact ⟨s, (h.doNextEvent_nil hqueue).2, h⟩
    | cons entry rest =>
      obtain ⟨eid, tick⟩ := entry
      have hlists := h.lists
      have hahead := h.ahead (eid, tick) (by simp [hqueue])
      rw [hqueue] at hlists
      refine ⟨_, (h.doNextEvent hqueue).2, hlists.dispatch, fun entry hentry => ?_,
        fun entry hentry => ?_, h.running, ⟨hlists.isNext, h.simTick ▸ hahead, h.dispatches⟩, rfl⟩
      · exact h.exists_mem entry (by rw [hqueue]; exact List.mem_cons_of_mem _ hentry)
      · exact (List.pairwise_cons.mp hlists.sorted_tick).1 entry hentry
  | handlerDone =>
    exact ⟨_, rfl, h.lists, h.exists_mem, h.ahead, h.running, h.dispatches, h.simTick⟩

theorem Kept.ordered (h : s.Kept) : s.Ordered := by
  refine ⟨h.lists.mem, h.lists.nodup, h.lists.sorted_tick, h.lists.insertion, h.dispatches,
    h.simTick, fun hne => ?_⟩
  cases hqueue : s.engine.eventQueue with
  | nil => exact absurd hqueue hne
  | cons entry rest =>
    obtain ⟨eid, tick⟩ := entry
    have hlists := h.lists
    rw [hqueue] at hlists
    exact ⟨eid, tick, _, (h.doNextEvent hqueue).2, rfl, rfl, hlists.isNext⟩

end Runs

/-- In every state that valid calls reach, handlers' calls included, the engine is in order. -/
theorem run_ordered (calls : List Engine.Call) (hvalid : Run.Along exec Valid .new calls) :
    ∃ s, calls.foldlM exec .new = .ok s ∧ s.Ordered := by
  suffices h : ∀ s : EngineHistory, s.Kept → Run.Along exec Valid s calls →
      ∃ s', calls.foldlM exec s = .ok s' ∧ s'.Kept by
    obtain ⟨s, hrun, hs⟩ := h .new new_kept hvalid
    exact ⟨s, hrun, hs.ordered⟩
  clear hvalid
  induction calls with
  | nil => exact fun s hs _ => ⟨s, rfl, hs⟩
  | cons c calls ih =>
    intro s hs hvalid
    obtain ⟨s₁, hexec, hs₁⟩ := exec_kept hs hvalid.1
    obtain ⟨s', hrun, hs'⟩ := ih s₁ hs₁ (hvalid.2.of_ok hexec)
    refine ⟨s', ?_, hs'⟩
    rw [List.foldlM_cons, hexec]
    exact hrun

/-- The handler of event 1, dispatched at tick 5, schedules event 1 again and puts event 2 off;
then event 2 is taken back and event 1 is dispatched from inside a handler. -/
def reentrant : List Engine.Call :=
  [.allocateEvent, .allocateEvent, .allocateEvent, .scheduleEvent 2 5, .scheduleEvent 1 5,
    .scheduleEvent 2 6, .scheduleEvent 3 5, .doNextEvent, .scheduleEvent 1 6, .doNextEvent,
    .descheduleEvent 2, .doNextEvent, .handlerDone, .handlerDone, .handlerDone]

theorem run_ordered_reentrant : ∃ s, reentrant.foldlM exec .new = .ok s ∧ s.Ordered :=
  run_ordered reentrant (by decide)

/-! ### Calls of any kind -/

section Sound

variable {s s' : EngineHistory} {c : Engine.Call}

/-- A call that returns, whatever it was given, leaves a sound engine running. -/
theorem exec_sound (h : s.engine.Sound) (hrunning : s.engine.forceStop = false)
    (hexec : s.exec c = .ok s') : s'.engine.Sound ∧ s'.engine.forceStop = false := by
  cases c with
  | allocateEvent =>
    obtain ⟨engine, hcall, rfl⟩ := Except.map_eq_ok.mp hexec
    obtain ⟨hsound, hstop, -⟩ := h.allocated hcall
    exact ⟨hsound, hstop.trans hrunning⟩
  | scheduleEvent eid tick =>
    obtain ⟨engine, hcall, rfl⟩ := Except.map_eq_ok.mp hexec
    have heid : eid ∈ s.engine.eventList := by
      by_contra hmem
      rw [Engine.scheduleEvent, if_neg hmem] at hcall
      cases hcall
    obtain ⟨engine', hcall', hsound, hstop, -⟩ := h.scheduleEvent heid tick
    rw [hcall] at hcall'
    cases hcall'
    exact ⟨hsound, hstop.trans hrunning⟩
  | descheduleEvent eid =>
    obtain ⟨engine, hcall, rfl⟩ := Except.map_eq_ok.mp hexec
    have heid : eid ∈ s.engine.eventList := by
      by_contra hmem
      rw [Engine.descheduleEvent, if_neg hmem] at hcall
      cases hcall
    obtain ⟨engine', hcall', hsound, hstop, -⟩ := h.descheduleEvent heid
    rw [hcall] at hcall'
    cases hcall'
    exact ⟨hsound, hstop.trans hrunning⟩
  | doNextEvent =>
    obtain ⟨r, hcall, rfl⟩ := Except.map_eq_ok.mp hexec
    rcases h.doNextEvent with ⟨hcall', -⟩ | ⟨eid, tick, engine, hcall', -, hsound, hstop, -⟩
    · rw [hcall] at hcall'
      cases hcall'
      exact ⟨h, hrunning⟩
    · rw [hcall] at hcall'
      cases hcall'
      exact ⟨hsound, hstop⟩
  | handlerDone =>
    cases hexec
    exact ⟨⟨h.once, h.exists_mem⟩, hrunning⟩

end Sound

end EngineHistory

end SimpleSSD
