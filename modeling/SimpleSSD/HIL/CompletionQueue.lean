import SimpleSSD.Sim.Engine
import Mathlib.Data.List.Perm.Basic

/-!
# The completion queue of the HIL (hil/hil.cc)

A request that the ICL has served waits in `completionQueue` for the tick at which it is
finished, and one event of the engine calls back what is due. The event is scheduled
again only when the earliest finish tick is not the one it was scheduled for last.

The requests of the callbacks, and whatever the other handlers do, are further calls. A push
and a pop may order requests with one finish tick as they like. Statistics and the request
counter, which only debug prints read, are left out.
-/

namespace SimpleSSD.HIL

namespace Completion

/-- A request in `completionQueue`: the `context` that its function is called with, and
`finishedAt`. -/
structure Request where
  context : Nat
  finishedAt : Nat
deriving DecidableEq

/-- `completionQueue.push`: an earlier request is the new top. -/
def push (r : Request) : List Request → List Request
  | [] => [r]
  | top :: rest =>
    if r.finishedAt < top.finishedAt then r :: top :: rest else top :: r :: rest

/-- `completionQueue.pop`, after which the request at `k` of the others is the top. -/
def pop (k : Nat) (queue : List Request) : List Request :=
  match queue.tail[k]? with
  | some r => r :: queue.tail.eraseIdx k
  | none => queue.tail

/-- Where the handler `completion` is. It has read `tick` from `getTick` at its begin. -/
inductive Stage where
  | outside
  /-- at the head of the loop -/
  | loop (tick : Nat)
  /-- in the call of `req.function` -/
  | calling (tick : Nat)
deriving DecidableEq

end Completion

/-- The HIL on the event engine, with what was submitted and the callbacks, latest first. The
first request of `completionQueue` is its `top()`. -/
structure Completion where
  engine : EngineHistory
  completionEvent : Nat
  lastScheduled : Nat
  completionQueue : List Completion.Request
  stage : Completion.Stage
  submitted : List Completion.Request
  invoked : List (Completion.Request × Nat)

namespace Completion

/-- What may happen: a call of the engine, the end of `doRead`, `doWrite`, `doFlush` and so on,
a round of the loop of `completion`, and the return of a callback. -/
inductive Call where
  | engine (c : Engine.Call)
  | submit (r : Request)
  | completion
  | callbackDone (k : Nat)

/-- `HIL::HIL` (hil.cc:28–34). -/
def create (engine : EngineHistory) : Except Fault Completion :=
  (engine.exec .allocateEvent).map fun engine =>
    ⟨engine, engine.engine.counter, 0, [], .outside, [], []⟩

/-- `updateCompletion` (hil.cc:211–218). -/
def updateCompletion (s : Completion) : Except Fault Completion :=
  match s.completionQueue with
  | [] => .ok s
  | top :: _ =>
    if s.lastScheduled ≠ top.finishedAt then
      (s.engine.exec (.scheduleEvent s.completionEvent top.finishedAt)).map fun engine =>
        { s with engine := engine, lastScheduled := top.finishedAt }
    else .ok s

/-- The stage after a call of the engine: `doNextEvent` may have called `completion`. -/
def begun (s : Completion) : Engine.Call → Stage
  | .doNextEvent =>
    match s.engine.engine.doNextEvent with
    | .ok (some (eid, tick), _) => if eid = s.completionEvent then .loop tick else s.stage
    | _ => s.stage
  | _ => s.stage

/-- One call. -/
def exec (s : Completion) : Call → Except Fault Completion
  | .engine c =>
    (s.engine.exec c).map fun engine => { s with engine := engine, stage := s.begun c }
  | .submit r =>
    updateCompletion
      { s with
        completionQueue := push r s.completionQueue
        submitted := r :: s.submitted }
  | .completion =>
    match s.stage, s.completionQueue with
    | .loop _, [] => updateCompletion { s with stage := .outside }
    | .loop tick, top :: _ =>
      if top.finishedAt ≤ tick then
        .ok { s with stage := .calling tick, invoked := (top, tick) :: s.invoked }
      else updateCompletion { s with stage := .outside }
    | _, _ => .ok s
  | .callbackDone k =>
    match s.stage with
    | .calling tick =>
      .ok { s with
        stage := .loop tick
        completionQueue := pop k s.completionQueue }
    | _ => .ok s

/-- The request at `k` is one that may be the top of the queue. -/
def Earliest (queue : List Request) (k : Nat) : Prop :=
  match queue[k]? with
  | some r => ∀ r' ∈ queue, r.finishedAt ≤ r'.finishedAt
  | none => queue = []

instance (queue : List Request) (k : Nat) : Decidable (Earliest queue k) := by
  unfold Earliest
  split <;> infer_instance

/-- The call may come: no request is finished before the current tick; while the loop
is between two callbacks nothing else runs; and the event is the HIL's own. The main loop alone
calls `doNextEvent`. -/
def Valid (s : Completion) : Call → Prop
  | .engine c => s.engine.Valid c ∧
    match c with
    | .scheduleEvent eid _ => eid ≠ s.completionEvent
    | .descheduleEvent eid => eid ≠ s.completionEvent
    | .doNextEvent => s.stage = .outside
    | _ => True
  | .submit r => s.engine.engine.simTick ≤ r.finishedAt ∧ s.stage ≠ .loop s.engine.engine.simTick
  | .completion => s.stage = .loop s.engine.engine.simTick
  | .callbackDone k =>
    s.stage = .calling s.engine.engine.simTick ∧ Earliest s.completionQueue.tail k

instance (s : Completion) : (c : Call) → Decidable (s.Valid c)
  | .engine .allocateEvent =>
    inferInstanceAs (Decidable (s.engine.Valid .allocateEvent ∧ True))
  | .engine (.scheduleEvent eid tick) =>
    inferInstanceAs (Decidable (s.engine.Valid (.scheduleEvent eid tick) ∧ eid ≠ s.completionEvent))
  | .engine (.descheduleEvent eid) =>
    inferInstanceAs (Decidable (s.engine.Valid (.descheduleEvent eid) ∧ eid ≠ s.completionEvent))
  | .engine .doNextEvent =>
    inferInstanceAs (Decidable (s.engine.Valid .doNextEvent ∧ s.stage = .outside))
  | .engine .handlerDone =>
    inferInstanceAs (Decidable (s.engine.Valid .handlerDone ∧ True))
  | .submit r => inferInstanceAs (Decidable (s.engine.engine.simTick ≤ r.finishedAt ∧
      s.stage ≠ .loop s.engine.engine.simTick))
  | .completion => inferInstanceAs (Decidable (s.stage = .loop s.engine.engine.simTick))
  | .callbackDone k => inferInstanceAs (Decidable (s.stage = .calling s.engine.engine.simTick ∧
      Earliest s.completionQueue.tail k))

/-- The requests whose callback has not been invoked: while one is called back, it is still
the top of the queue. -/
def waiting (s : Completion) : List Request :=
  match s.stage with
  | .calling _ => s.completionQueue.tail
  | _ => s.completionQueue

/-- The completion event does what it is for. While a request waits and the handler is not
running, the event is scheduled no later than any request is finished; every callback came at the
request's finish tick; each request is called back once or waits, and none is late; and without
another submission, every one of them is called back. -/
structure Served (s : Completion) : Prop where
  attended : s.stage = .outside → s.completionQueue ≠ [] →
    ∃ tick, (s.completionEvent, tick) ∈ s.engine.engine.eventQueue ∧
      ∀ r ∈ s.completionQueue, tick ≤ r.finishedAt
  onTime : ∀ call ∈ s.invoked, call.2 = call.1.finishedAt
  once : s.submitted.Perm (s.invoked.map Prod.fst ++ s.waiting)
  notLate : ∀ r ∈ s.waiting, s.engine.engine.simTick ≤ r.finishedAt
  completes : ∃ (calls : List Call) (s' : Completion), Run.Along exec Valid s calls ∧
    calls.foldlM exec s = .ok s' ∧ s'.submitted = s.submitted ∧ s'.completionQueue = [] ∧
      s.submitted.Perm (s'.invoked.map Prod.fst)

/-- The call succeeds, and leaves the event doing what it is for. -/
def Serves (s : Completion) (c : Call) : Prop := ∃ s', s.exec c = .ok s' ∧ s'.Served

/-- A request that finds the queue empty, outside the handler, is not finished at the tick the
event was scheduled for last. -/
def Clear (s : Completion) : Call → Prop
  | .submit r =>
    s.stage = .outside → s.completionQueue = [] → r.finishedAt ≠ s.lastScheduled
  | _ => True

/-! ### What the calls keep -/

/-- The first request is the earliest. -/
def TopFirst (queue : List Request) : Prop :=
  ∀ top ∈ queue.head?, ∀ r ∈ queue, top.finishedAt ≤ r.finishedAt

theorem perm_push (r : Request) (queue : List Request) : (push r queue).Perm (r :: queue) := by
  cases queue with
  | nil => rfl
  | cons top rest =>
    rw [push]
    split
    · rfl
    · exact .swap r top rest

theorem topFirst_push {r : Request} {queue : List Request} (h : TopFirst queue) :
    TopFirst (push r queue) := by
  cases queue with
  | nil => simp [TopFirst, push]
  | cons top rest =>
    have htop := h top rfl
    rw [push]
    split
    · next hlt =>
      intro t ht r' hr'
      cases ht
      rcases List.mem_cons.mp hr' with rfl | hr'
      · exact le_rfl
      · exact hlt.le.trans (htop r' hr')
    · next hle =>
      intro t ht r' hr'
      cases ht
      simp only [List.mem_cons] at hr'
      rcases hr' with rfl | rfl | hr'
      · exact le_rfl
      · exact Nat.le_of_not_lt hle
      · exact htop r' (List.mem_cons_of_mem _ hr')

/-- What is left when the top is popped. -/
theorem pop_spec {queue : List Request} {k : Nat} (hk : Earliest queue.tail k) :
    (pop k queue).Perm queue.tail ∧ TopFirst (pop k queue) := by
  rw [Earliest] at hk
  rw [pop]
  split
  · next r hr =>
    simp only [hr] at hk
    obtain ⟨hlt, hget⟩ := List.getElem?_eq_some_iff.mp hr
    have hperm : (r :: queue.tail.eraseIdx k).Perm queue.tail := by
      rw [← hget]
      exact List.getElem_cons_eraseIdx_perm hlt
    refine ⟨hperm, fun t ht r' hr' => ?_⟩
    cases ht
    exact hk r' (hperm.subset hr')
  · next hnone =>
    simp only [hnone] at hk
    rw [hk]
    exact ⟨.refl _, by simp [TopFirst]⟩

/-- The event of the queue as `completion` and `updateCompletion` keep it: outside the handler it
is due when the top is finished, and in the handler it is not due and was scheduled last for the
current tick. -/
def EventKept (s : Completion) : Prop :=
  match s.stage with
  | .outside =>
    Agenda.due s.engine.log s.completionEvent = s.completionQueue.head?.map Request.finishedAt ∧
      ∀ top ∈ s.completionQueue.head?, s.lastScheduled = top.finishedAt
  | .loop tick =>
    Agenda.due s.engine.log s.completionEvent = none ∧ tick = s.engine.engine.simTick ∧
      s.lastScheduled = tick
  | .calling tick =>
    Agenda.due s.engine.log s.completionEvent = none ∧ tick = s.engine.engine.simTick ∧
      s.lastScheduled = tick ∧ ∃ top ∈ s.completionQueue.head?, top.finishedAt = tick

/-- What every call keeps. -/
structure Sound (s : Completion) : Prop where
  engine : s.engine.Kept
  allocated : s.completionEvent ∈ s.engine.engine.eventList
  topFirst : TopFirst s.completionQueue
  ahead : ∀ r ∈ s.completionQueue, s.engine.engine.simTick ≤ r.finishedAt
  onTime : ∀ call ∈ s.invoked, call.2 = call.1.finishedAt
  once : s.submitted.Perm (s.invoked.map Prod.fst ++ s.waiting)

/-- What every clear call keeps. -/
structure Kept (s : Completion) : Prop extends s.Sound where
  event : s.EventKept

section Calls

variable {s s' : Completion}

/-- `updateCompletion` outside the handler schedules the event when it has to. -/
theorem updateCompletion_kept (h : s.Sound) (hstage : s.stage = .outside)
    (hnil : s.completionQueue = [] → Agenda.due s.engine.log s.completionEvent = none)
    (hsame : ∀ top ∈ s.completionQueue.head?, s.lastScheduled = top.finishedAt →
      Agenda.due s.engine.log s.completionEvent = some top.finishedAt) :
    ∃ s', s.updateCompletion = .ok s' ∧ s'.Kept ∧ s'.stage = .outside ∧
      s'.completionQueue = s.completionQueue ∧ s'.submitted = s.submitted := by
  match hqueue : s.completionQueue with
  | [] =>
    refine ⟨s, by rw [updateCompletion, hqueue], ⟨h, ?_⟩, hstage, hqueue, rfl⟩
    simp [EventKept, hstage, hqueue, hnil hqueue]
  | top :: rest =>
    have hmem : top ∈ s.completionQueue.head? := by simp [hqueue]
    have hcall : s.updateCompletion = if s.lastScheduled ≠ top.finishedAt then
        (s.engine.exec (.scheduleEvent s.completionEvent top.finishedAt)).map fun engine =>
          { s with engine := engine, lastScheduled := top.finishedAt }
      else .ok s := by rw [updateCompletion, hqueue]
    rw [hcall]
    split
    · have hvalid : s.engine.Valid (.scheduleEvent s.completionEvent top.finishedAt) :=
        ⟨h.allocated, h.ahead top (by simp [hqueue])⟩
      obtain ⟨engine, hexec, hengine⟩ := EngineHistory.exec_kept h.engine hvalid
      rw [hexec]
      rw [EngineHistory.exec, Engine.scheduleEvent, if_pos hvalid.1,
        if_neg (Nat.not_lt_of_le hvalid.2)] at hexec
      cases hexec
      refine ⟨_, rfl, ⟨⟨hengine, h.allocated, h.topFirst, h.ahead, h.onTime, ?_⟩, ?_⟩, hstage,
        hqueue, rfl⟩
      · exact h.once
      · simp [EventKept, hstage, hqueue, Agenda.due]
    · next heq =>
      rw [not_not] at heq
      refine ⟨s, rfl, ⟨h, ?_⟩, hstage, hqueue, rfl⟩
      simp [EventKept, hstage, hqueue, hsame top hmem heq, heq]

/-- In a callback the top is the request called back, and the event is left alone. -/
theorem updateCompletion_calling {top : Request} (htop : top ∈ s.completionQueue.head?)
    (hlast : s.lastScheduled = top.finishedAt) : s.updateCompletion = .ok s := by
  match hqueue : s.completionQueue with
  | [] => rw [updateCompletion, hqueue]
  | top' :: rest =>
    rw [hqueue] at htop
    cases htop
    rw [updateCompletion, hqueue]
    exact if_neg (not_not_intro hlast)

/-- The other handlers' calls leave the event as it is. -/
theorem due_exec {s s' : EngineHistory} {c : Engine.Call} {e : Nat} (hexec : s.exec c = .ok s')
    (hother : match c with
      | .scheduleEvent eid _ => eid ≠ e
      | .descheduleEvent eid => eid ≠ e
      | .doNextEvent => False
      | _ => True) :
    Agenda.due s'.log e = Agenda.due s.log e ∧ s'.engine.simTick = s.engine.simTick ∧
      (e ∈ s.engine.eventList → e ∈ s'.engine.eventList) := by
  cases c with
  | allocateEvent =>
    rw [EngineHistory.exec, Engine.allocateEvent] at hexec
    split at hexec
    · cases hexec
    · cases hexec
      exact ⟨rfl, rfl, List.mem_cons_of_mem _⟩
  | scheduleEvent eid tick =>
    rw [EngineHistory.exec, Engine.scheduleEvent] at hexec
    split at hexec
    · cases hexec
      exact ⟨if_neg (Ne.symm hother), rfl, id⟩
    · cases hexec
  | descheduleEvent eid =>
    rw [EngineHistory.exec, Engine.descheduleEvent] at hexec
    split at hexec
    · cases hexec
      exact ⟨if_neg (Ne.symm hother), rfl, id⟩
    · cases hexec
  | doNextEvent => exact hother.elim
  | handlerDone =>
    cases hexec
    exact ⟨rfl, rfl, id⟩

/-- A call of the engine that dispatches nothing. -/
theorem engine_kept {c : Engine.Call} (h : s.Kept) (hvalid : s.Valid (.engine c))
    (hc : ∀ eid tick rest, c = .doNextEvent → s.engine.engine.eventQueue ≠ (eid, tick) :: rest) :
    ∃ s', s.exec (.engine c) = .ok s' ∧ s'.Kept := by
  obtain ⟨hcall, hother⟩ := hvalid
  obtain ⟨engine, hexec, hengine⟩ := EngineHistory.exec_kept h.engine hcall
  have hsame : Agenda.due engine.log s.completionEvent = Agenda.due s.engine.log s.completionEvent ∧
      engine.engine.simTick = s.engine.engine.simTick ∧
      (s.completionEvent ∈ s.engine.engine.eventList →
        s.completionEvent ∈ engine.engine.eventList) ∧ s.begun c = s.stage := by
    cases c with
    | doNextEvent =>
      -- the queue is empty
      match hqueue : s.engine.engine.eventQueue with
      | [] =>
        obtain ⟨hdo, hnil⟩ := h.engine.doNextEvent_nil hqueue
        rw [hnil] at hexec
        cases hexec
        exact ⟨rfl, rfl, id, by rw [begun, hdo]⟩
      | (eid, tick) :: rest => exact absurd hqueue (hc eid tick rest rfl)
    | allocateEvent =>
      obtain ⟨hdue, htick, hlist⟩ := due_exec (e := s.completionEvent) hexec trivial
      exact ⟨hdue, htick, hlist, rfl⟩
    | scheduleEvent eid tick =>
      obtain ⟨hdue, htick, hlist⟩ := due_exec (e := s.completionEvent) hexec hother
      exact ⟨hdue, htick, hlist, rfl⟩
    | descheduleEvent eid =>
      obtain ⟨hdue, htick, hlist⟩ := due_exec (e := s.completionEvent) hexec hother
      exact ⟨hdue, htick, hlist, rfl⟩
    | handlerDone =>
      obtain ⟨hdue, htick, hlist⟩ := due_exec (e := s.completionEvent) hexec trivial
      exact ⟨hdue, htick, hlist, rfl⟩
  obtain ⟨hdue, htick, hlist, hbegun⟩ := hsame
  refine ⟨{ s with engine := engine }, ?_, ⟨⟨hengine, hlist h.allocated, h.topFirst, ?_, h.onTime,
    h.once⟩, ?_⟩⟩
  · rw [exec, hexec, hbegun]
    rfl
  · rw [htick]
    exact h.ahead
  · have hevent := h.event
    simp only [EventKept, hdue, htick] at hevent ⊢
    exact hevent

/-- `doNextEvent` takes the next event; when it is the completion event, `completion` begins. -/
theorem doNextEvent_kept {eid tick : Nat} {rest : List (Nat × Nat)} (h : s.Kept)
    (hstage : s.stage = .outside) (hqueue : s.engine.engine.eventQueue = (eid, tick) :: rest) :
    ∃ s', s.exec (.engine .doNextEvent) = .ok s' ∧ s'.Kept ∧
      s'.engine.engine.eventQueue = rest ∧ s'.completionQueue = s.completionQueue ∧
      s'.submitted = s.submitted ∧
      s'.stage = if eid = s.completionEvent then .loop tick else .outside := by
  obtain ⟨hdo, hexec⟩ := h.engine.doNextEvent hqueue
  obtain ⟨engine, hok, hengine⟩ := EngineHistory.exec_kept h.engine (c := .doNextEvent) trivial
  rw [hexec] at hok
  cases hok
  have hbegun :
      s.begun .doNextEvent = if eid = s.completionEvent then .loop tick else .outside := by
    rw [begun, hdo, ← hstage]
  have hevent := h.event
  rw [EventKept, hstage] at hevent
  obtain ⟨hdue, hlast⟩ := hevent
  have hlists := h.engine.lists
  rw [hqueue] at hlists
  -- the event of the queue is not due before the one that is dispatched
  have hahead : ∀ r ∈ s.completionQueue, tick ≤ r.finishedAt := by
    match hcompletion : s.completionQueue with
    | [] => simp
    | top :: others =>
      intro r hr
      rw [hcompletion] at hdue
      have hmem : (s.completionEvent, top.finishedAt) ∈ (eid, tick) :: rest :=
        (hlists.mem _ _).mpr hdue
      have htop : tick ≤ top.finishedAt := by
        rcases List.mem_cons.mp hmem with heq | hmem
        · exact (congrArg Prod.snd heq).ge
        · exact (List.pairwise_cons.mp hlists.sorted_tick).1 _ hmem
      exact htop.trans (h.topFirst top (by simp [hcompletion]) r (by rw [hcompletion]; exact hr))
  have hrun : s.exec (.engine .doNextEvent) = .ok
      { s with
        engine := ⟨{ s.engine.engine with simTick := tick, eventQueue := rest },
          .dispatched eid tick :: s.engine.log⟩
        stage := s.begun .doNextEvent } := by
    rw [exec, hexec]
    rfl
  refine ⟨_, hrun, ⟨⟨hengine, h.allocated, h.topFirst, hahead, h.onTime, ?_⟩, ?_⟩, rfl, rfl, rfl,
    hbegun⟩
  · have honce := h.once
    rw [waiting, hstage] at honce
    simp only [waiting, hbegun]
    by_cases heid : eid = s.completionEvent
    · rw [if_pos heid]
      exact honce
    · rw [if_neg heid]
      exact honce
  · simp only [EventKept, hbegun]
    by_cases heid : eid = s.completionEvent
    · rw [if_pos heid]
      have hthis : Agenda.due s.engine.log s.completionEvent = some tick :=
        (hlists.mem _ _).mp (heid ▸ List.mem_cons_self)
      refine ⟨by simp [Agenda.due, heid], rfl, ?_⟩
      rw [hthis] at hdue
      obtain ⟨top, htop, heq⟩ := Option.map_eq_some_iff.mp hdue.symm
      rw [hlast top htop, heq]
    · rw [if_neg heid]
      exact ⟨by rw [Agenda.due, if_neg (Ne.symm heid), hdue], hlast⟩

/-- A submission that does not fall into the gap. -/
theorem submit_kept {r : Request} (h : s.Kept) (hvalid : s.Valid (.submit r))
    (hclear : s.Clear (.submit r)) : ∃ s', s.exec (.submit r) = .ok s' ∧ s'.Kept := by
  obtain ⟨htick, hloop⟩ := hvalid
  have hperm := perm_push r s.completionQueue
  have hahead : ∀ r' ∈ push r s.completionQueue, s.engine.engine.simTick ≤ r'.finishedAt := by
    intro r' hr'
    rcases List.mem_cons.mp (hperm.subset hr') with rfl | hr'
    · exact htick
    · exact h.ahead r' hr'
  have hevent := h.event
  rw [EventKept] at hevent
  match hstage : s.stage with
  | .outside =>
    rw [hstage] at hevent
    obtain ⟨hdue, hlast⟩ := hevent
    have honce := h.once
    rw [waiting, hstage] at honce
    let s₁ : Completion :=
      { s with completionQueue := push r s.completionQueue, submitted := r :: s.submitted }
    have hsound : s₁.Sound := by
      refine ⟨h.engine, h.allocated, topFirst_push h.topFirst, hahead, h.onTime, ?_⟩
      rw [waiting, hstage]
      exact ((honce.cons r).trans List.perm_middle.symm).trans (hperm.symm.append_left _)
    have hne : s₁.completionQueue ≠ [] :=
      List.ne_nil_of_length_pos (by simp [s₁, hperm.length_eq])
    -- the event is scheduled already only for a request that was the top before
    have hsame : ∀ top ∈ s₁.completionQueue.head?, s₁.lastScheduled = top.finishedAt →
        Agenda.due s₁.engine.log s₁.completionEvent = some top.finishedAt := by
      intro top htop heq
      match hqueue : s.completionQueue with
      | [] =>
        simp only [s₁, hqueue, push, List.head?_cons, Option.mem_def, Option.some.injEq] at htop
        subst htop
        exact absurd heq.symm (hclear hstage hqueue)
      | old :: rest =>
        rw [hqueue] at hdue
        have hold := hlast old (by simp [hqueue])
        rw [hdue, List.head?_cons, Option.map_some, ← hold, ← heq]
    obtain ⟨s', hexec, hs', -⟩ :=
      updateCompletion_kept hsound hstage (fun hnil => absurd hnil hne) hsame
    exact ⟨s', hexec, hs'⟩
  | .loop tick =>
    rw [hstage] at hevent
    exact absurd (hstage.trans (congrArg Stage.loop hevent.2.1)) hloop
  | .calling tick =>
    rw [hstage] at hevent
    obtain ⟨hdue, htickEq, hlast, top, htop, hfinished⟩ := hevent
    match hqueue : s.completionQueue with
    | [] => simp [hqueue] at htop
    | top' :: rest =>
      rw [hqueue] at htop
      cases htop
      have hpush : push r s.completionQueue = top :: r :: rest := by
        rw [hqueue, push, if_neg (by omega)]
      refine ⟨_, updateCompletion_calling (by simp [hpush]; rfl) (by simp [hlast, hfinished]),
        ⟨⟨h.engine, h.allocated, topFirst_push h.topFirst, hahead, h.onTime, ?_⟩, ?_⟩⟩
      · have honce := h.once
        simp only [waiting, hstage, hqueue, List.tail_cons] at honce
        simp only [waiting, hstage, hpush, List.tail_cons]
        exact (honce.cons r).trans List.perm_middle.symm
      · simp only [EventKept, hstage, hpush]
        exact ⟨hdue, htickEq, hlast, top, rfl, hfinished⟩

/-- A round of the loop: the next callback, or the end of the handler. -/
theorem completion_kept (h : s.Kept) (hvalid : s.Valid .completion) :
    ∃ s', s.exec .completion = .ok s' ∧ s'.Kept ∧ s'.completionQueue = s.completionQueue ∧
      s'.submitted = s.submitted ∧
      ((s'.stage = .outside ∧
          ∀ top ∈ s.completionQueue.head?, s.engine.engine.simTick < top.finishedAt) ∨
        s'.stage = .calling s'.engine.engine.simTick) := by
  have hstage : s.stage = .loop s.engine.engine.simTick := hvalid
  have hevent := h.event
  rw [EventKept, hstage] at hevent
  obtain ⟨hdue, -, hlast⟩ := hevent
  have honce := h.once
  rw [waiting, hstage] at honce
  -- the end of the loop
  have hleave : (∀ top ∈ s.completionQueue.head?, s.engine.engine.simTick < top.finishedAt) →
      s.exec .completion = updateCompletion { s with stage := .outside } →
      ∃ s', s.exec .completion = .ok s' ∧ s'.Kept ∧ s'.completionQueue = s.completionQueue ∧
        s'.submitted = s.submitted ∧ s'.stage = .outside := by
    intro hlater hexec
    have hsound : ({ s with stage := .outside } : Completion).Sound :=
      ⟨h.engine, h.allocated, h.topFirst, h.ahead, h.onTime, honce⟩
    obtain ⟨s', hok, hs', hout, hqueue, hsubmitted⟩ := updateCompletion_kept hsound rfl
      (fun _ => hdue) (fun top htop heq => absurd (hlast.symm.trans heq) (hlater top htop).ne)
    exact ⟨s', hexec.trans hok, hs', hqueue, hsubmitted, hout⟩
  match hqueue : s.completionQueue with
  | [] =>
    obtain ⟨s', hexec, hs', hsame, hsubmitted, hout⟩ :=
      hleave (by simp [hqueue]) (by rw [exec, hstage, hqueue])
    exact ⟨s', hexec, hs', hsame.trans hqueue, hsubmitted, .inl ⟨hout, by simp⟩⟩
  | top :: rest =>
    by_cases hle : top.finishedAt ≤ s.engine.engine.simTick
    · have hexec : s.exec .completion = .ok { s with
          stage := .calling s.engine.engine.simTick
          invoked := (top, s.engine.engine.simTick) :: s.invoked } := by
        rw [exec, hstage, hqueue]
        exact if_pos hle
      have hfinished : top.finishedAt = s.engine.engine.simTick :=
        hle.antisymm (h.ahead top (by simp [hqueue]))
      refine ⟨_, hexec, ⟨⟨h.engine, h.allocated, h.topFirst, h.ahead, ?_, ?_⟩, ?_⟩, hqueue, rfl,
        .inr rfl⟩
      · intro call hcall
        rcases List.mem_cons.mp hcall with rfl | hcall
        · exact hfinished.symm
        · exact h.onTime call hcall
      · simp only [waiting, hqueue, List.tail_cons, List.map_cons, List.cons_append]
        rw [hqueue] at honce
        exact honce.trans List.perm_middle
      · exact ⟨hdue, rfl, hlast, top, by simp [hqueue], hfinished⟩
    · obtain ⟨s', hexec, hs', hsame, hsubmitted, hout⟩ := hleave (by simpa [hqueue] using hle) (by
        rw [exec, hstage, hqueue]
        exact if_neg hle)
      exact ⟨s', hexec, hs', hsame.trans hqueue, hsubmitted, .inl ⟨hout, by simpa using hle⟩⟩

/-- The return of a callback. -/
theorem callbackDone_kept {k : Nat} (h : s.Kept) (hvalid : s.Valid (.callbackDone k)) :
    ∃ s', s.exec (.callbackDone k) = .ok s' ∧ s'.Kept ∧
      s'.completionQueue.length < s.completionQueue.length ∧ s'.submitted = s.submitted ∧
      s'.stage = .loop s'.engine.engine.simTick := by
  obtain ⟨hstage, hk⟩ := hvalid
  obtain ⟨hperm, htop⟩ := pop_spec hk
  have hexec : s.exec (.callbackDone k) = .ok { s with
      stage := .loop s.engine.engine.simTick
      completionQueue := pop k s.completionQueue } := by
    rw [exec, hstage]
  have hevent := h.event
  rw [EventKept, hstage] at hevent
  obtain ⟨hdue, -, hlast, top, htopMem, -⟩ := hevent
  have honce := h.once
  rw [waiting, hstage] at honce
  refine ⟨_, hexec, ⟨⟨h.engine, h.allocated, htop, fun r hr => ?_, h.onTime, ?_⟩, ?_⟩, ?_, rfl, rfl⟩
  · exact h.ahead r (List.mem_of_mem_tail (hperm.subset hr))
  · exact honce.trans (hperm.symm.append_left _)
  · exact ⟨hdue, rfl, hlast⟩
  · have hne : s.completionQueue ≠ [] := by
      intro hnil
      simp [hnil] at htopMem
    have hpos := List.length_pos_of_ne_nil hne
    simp only [hperm.length_eq, List.length_tail]
    omega

/-- One clear call. -/
theorem exec_kept {c : Call} (h : s.Kept) (hvalid : s.Valid c) (hclear : s.Clear c) :
    ∃ s', s.exec c = .ok s' ∧ s'.Kept := by
  cases c with
  | engine c =>
    by_cases hdispatch : c = .doNextEvent ∧ s.engine.engine.eventQueue ≠ []
    · obtain ⟨rfl, hne⟩ := hdispatch
      match hqueue : s.engine.engine.eventQueue with
      | [] => exact absurd hqueue hne
      | (eid, tick) :: rest =>
        obtain ⟨s', hexec, hs', -⟩ := doNextEvent_kept h hvalid.2 hqueue
        exact ⟨s', hexec, hs'⟩
    · refine engine_kept h hvalid fun eid tick rest hc hqueue => hdispatch ⟨hc, ?_⟩
      rw [hqueue]
      exact List.cons_ne_nil _ _
  | submit r => exact submit_kept h hvalid hclear
  | completion =>
    obtain ⟨s', hexec, hs', -⟩ := completion_kept h hvalid
    exact ⟨s', hexec, hs'⟩
  | callbackDone k =>
    obtain ⟨s', hexec, hs', -⟩ := callbackDone_kept h hvalid
    exact ⟨s', hexec, hs'⟩

/-! ### Every request is called back -/

/-- Some run without a submission leaves the handler and the queue empty. -/
def Drains (s : Completion) : Prop :=
  ∃ (calls : List Call) (s' : Completion), Run.Along exec Valid s calls ∧
    calls.foldlM exec s = .ok s' ∧ s'.submitted = s.submitted ∧ s'.Kept ∧
      s'.stage = .outside ∧ s'.completionQueue = []

theorem Drains.cons {c : Call} (hvalid : s.Valid c) (hexec : s.exec c = .ok s')
    (hsubmitted : s'.submitted = s.submitted) (h : s'.Drains) : s.Drains := by
  obtain ⟨calls, s'', halong, hrun, hsame, hrest⟩ := h
  refine ⟨c :: calls, s'', ⟨hvalid, ?_⟩, ?_, hsame.trans hsubmitted, hrest⟩
  · rw [hexec]
    exact halong
  · rw [List.foldlM_cons, hexec]
    exact hrun

theorem exists_earliest (queue : List Request) : ∃ k, Earliest queue k := by
  induction queue with
  | nil => exact ⟨0, rfl⟩
  | cons r queue ih =>
    obtain ⟨k, hk⟩ := ih
    rw [Earliest] at hk
    match hget : queue[k]? with
    | none =>
      rw [hget] at hk
      dsimp only at hk
      subst hk
      exact ⟨0, by simp [Earliest]⟩
    | some first =>
      rw [hget] at hk
      rcases le_or_gt r.finishedAt first.finishedAt with hle | hlt
      · refine ⟨0, ?_⟩
        simp only [Earliest, List.getElem?_cons_zero, List.mem_cons, forall_eq_or_imp]
        exact ⟨le_rfl, fun r' hr' => hle.trans (hk r' hr')⟩
      · refine ⟨k + 1, ?_⟩
        simp only [Earliest, List.getElem?_cons_succ, hget, List.mem_cons, forall_eq_or_imp]
        exact ⟨hlt.le, hk⟩

/-- From every state that clear calls reach the queue can be drained. -/
theorem Kept.drains (h : s.Kept) : s.Drains := by
  -- on the requests in the queue
  induction hn : s.completionQueue.length using Nat.strong_induction_on generalizing s with
  | _ n ih =>
    have hcalling : ∀ s : Completion, s.Kept → s.completionQueue.length = n →
        s.stage = .calling s.engine.engine.simTick → s.Drains := by
      intro s hs hlength hstage
      obtain ⟨k, hk⟩ := exists_earliest s.completionQueue.tail
      obtain ⟨s₁, hexec, hs₁, hless, hsame, -⟩ := callbackDone_kept hs ⟨hstage, hk⟩
      exact .cons (c := .callbackDone k) ⟨hstage, hk⟩ hexec hsame (ih _ (hlength ▸ hless) hs₁ rfl)
    have houtside : ∀ s : Completion, s.Kept → s.completionQueue.length = n →
        s.stage = .outside → s.Drains := by
      intro s hs hlength hstage
      -- on the events before the completion event
      induction hevents : s.engine.engine.eventQueue generalizing s with
      | nil =>
        refine ⟨[], s, trivial, rfl, rfl, hs, hstage, ?_⟩
        have hevent := hs.event
        rw [EventKept, hstage] at hevent
        match hqueue : s.completionQueue with
        | [] => rfl
        | top :: rest =>
          rw [hqueue] at hevent
          have hmem := (hs.engine.lists.mem _ _).mpr hevent.1
          rw [hevents] at hmem
          cases hmem
      | cons entry rest ihEvents =>
        obtain ⟨eid, tick⟩ := entry
        obtain ⟨s₁, hexec, hs₁, hrest, hqueue, hsame, hstage₁⟩ := doNextEvent_kept hs hstage hevents
        refine .cons (c := .engine .doNextEvent) ⟨trivial, hstage⟩ hexec hsame ?_
        by_cases heid : eid = s.completionEvent
        · -- the handler starts, and its first round calls back the top
          rw [if_pos heid] at hstage₁
          have hevent := hs₁.event
          rw [EventKept, hstage₁] at hevent
          have hloop : s₁.Valid .completion := hstage₁.trans (congrArg _ hevent.2.1)
          obtain ⟨s₂, hexec₂, hs₂, hqueue₂, hsame₂, ⟨-, hlater⟩ | hcall⟩ :=
            completion_kept hs₁ hloop
          · have hdue := hs.event
            rw [EventKept, hstage] at hdue
            have hthis := (hs.engine.lists.mem s.completionEvent tick).mp
              (by rw [hevents, heid]; exact List.mem_cons_self)
            obtain ⟨top, htop, heq⟩ := Option.map_eq_some_iff.mp (hdue.1.symm.trans hthis)
            have hlt := hlater top (hqueue ▸ htop)
            rw [← hevent.2.1, heq] at hlt
            exact absurd hlt (lt_irrefl _)
          · refine .cons hloop hexec₂ hsame₂ (hcalling s₂ hs₂ ?_ hcall)
            rw [hqueue₂, hqueue, hlength]
        · rw [if_neg heid] at hstage₁
          exact ihEvents s₁ hs₁ (hqueue ▸ hlength) hstage₁ hrest
    match hstage : s.stage with
    | .outside => exact houtside s h hn hstage
    | .loop tick =>
      have hevent := h.event
      rw [EventKept, hstage] at hevent
      have hloop : s.Valid .completion := hstage.trans (congrArg _ hevent.2.1)
      obtain ⟨s₁, hexec, hs₁, hqueue, hsame, ⟨hout, -⟩ | hcall⟩ := completion_kept h hloop
      · exact .cons hloop hexec hsame (houtside s₁ hs₁ (hqueue ▸ hn) hout)
      · exact .cons hloop hexec hsame (hcalling s₁ hs₁ (hqueue ▸ hn) hcall)
    | .calling tick =>
      have hevent := h.event
      rw [EventKept, hstage] at hevent
      exact hcalling s h hn (hstage.trans (congrArg _ hevent.2.1))

theorem mem_waiting {r : Request} (hr : r ∈ s.waiting) : r ∈ s.completionQueue := by
  rw [waiting] at hr
  split at hr
  · exact List.mem_of_mem_tail hr
  · exact hr

theorem Kept.served (h : s.Kept) : s.Served := by
  refine ⟨fun hstage hne => ?_, h.onTime, h.once, fun r hr => h.ahead r (mem_waiting hr), ?_⟩
  · have hevent := h.event
    rw [EventKept, hstage] at hevent
    match hqueue : s.completionQueue with
    | [] => exact absurd hqueue hne
    | top :: rest =>
      rw [hqueue] at hevent
      refine ⟨top.finishedAt, (h.engine.lists.mem _ _).mpr hevent.1, fun r hr => ?_⟩
      exact h.topFirst top (by simp [hqueue]) r (hqueue ▸ hr)
  · obtain ⟨calls, s', halong, hrun, hsame, hs', hstage, hqueue⟩ := h.drains
    refine ⟨calls, s', halong, hrun, hsame, hqueue, ?_⟩
    have honce := hs'.once
    rw [waiting, hstage, hsame] at honce
    simpa [hqueue] using honce

/-- In the gap the event is not scheduled. -/
theorem not_serves_submit {r : Request} (h : s.Kept) (hgap : ¬ s.Clear (.submit r)) :
    ¬ s.Serves (.submit r) := by
  rintro ⟨s', hexec, hserved⟩
  simp only [Clear, Classical.not_imp, ne_eq, not_not] at hgap
  obtain ⟨hstage, hqueue, hlast⟩ := hgap
  have hevent := h.event
  rw [EventKept, hstage, hqueue] at hevent
  have hstep : s.exec (.submit r) =
      .ok { s with completionQueue := [r], submitted := r :: s.submitted } := by
    rw [exec, hqueue, push]
    have htop : r ∈ [r].head? := rfl
    exact updateCompletion_calling htop hlast.symm
  rw [hstep] at hexec
  cases hexec
  obtain ⟨tick, hmem, -⟩ := hserved.attended hstage (by simp)
  have hdue := (h.engine.lists.mem _ _).mp hmem
  rw [hevent.1] at hdue
  cases hdue

theorem serves_iff_clear {c : Call} (h : s.Kept) (hvalid : s.Valid c) :
    s.Serves c ↔ s.Clear c := by
  constructor
  · intro hserves
    cases c with
    | submit r => exact not_not.mp fun hgap => not_serves_submit h hgap hserves
    | _ => trivial
  · intro hclear
    obtain ⟨s', hexec, hs'⟩ := exec_kept h hvalid hclear
    exact ⟨s', hexec, hs'.served⟩

theorem create_kept {engine : EngineHistory} (h : engine.Kept) (hs : create engine = .ok s) :
    s.Kept := by
  rw [create, Except.map_eq_ok] at hs
  obtain ⟨allocated, hexec, rfl⟩ := hs
  rw [EngineHistory.exec, Engine.allocateEvent] at hexec
  split at hexec
  · cases hexec
  · next hnew =>
    cases hexec
    -- an event that did not exist is not scheduled
    have hdue : Agenda.due engine.log ((engine.engine.counter + 1) % 2 ^ 64) = none := by
      refine Option.eq_none_iff_forall_ne_some.mpr fun tick hdue => hnew ?_
      exact h.exists_mem _ ((h.lists.mem _ _).mpr hdue)
    have hengine : EngineHistory.Kept ⟨{ engine.engine with
        counter := (engine.engine.counter + 1) % 2 ^ 64
        eventList := (engine.engine.counter + 1) % 2 ^ 64 :: engine.engine.eventList },
          engine.log⟩ :=
      ⟨h.lists, fun entry hentry => List.mem_cons_of_mem _ (h.exists_mem entry hentry), h.ahead,
        h.running, h.dispatches, h.simTick⟩
    refine ⟨⟨hengine, List.mem_cons_self, by simp [TopFirst], by simp, by simp, by simp [waiting]⟩,
      hdue, by simp⟩

end Calls

/-- A HIL that is made at any time, and any run of it whose calls may come: every call leaves
the completion event doing what it is for exactly when no request falls into the gap. -/
theorem run_served_iff {before : List Engine.Call} {engine : EngineHistory} {s : Completion}
    (hbefore : Run.Along EngineHistory.exec EngineHistory.Valid .new before)
    (hengine : before.foldlM EngineHistory.exec .new = .ok engine) (hs : create engine = .ok s)
    {calls : List Call} (hvalid : Run.Along exec Valid s calls) :
    s.Served ∧ (Run.Along exec Serves s calls ↔ Run.Along exec Clear s calls) := by
  have hkept : s.Kept := by
    refine create_kept (hbefore.foldlM_inv (fun e c e' he hc hexec => ?_)
      EngineHistory.new_kept hengine) hs
    obtain ⟨e'', hok, he''⟩ := EngineHistory.exec_kept he hc
    rw [hexec] at hok
    cases hok
    exact he''
  refine ⟨hkept.served, ?_⟩
  refine (hvalid.iff (I := Kept) hkept (fun s c hs hc hclear => ?_) fun s c hs hc =>
    (serves_iff_clear hs hc).symm).symm
  obtain ⟨s', hok, hs'⟩ := exec_kept hs hc hclear
  rw [hok]
  exact hs'

/-- Two requests with one finish tick and an earlier one; the first callback submits a request
that is finished at once. -/
def nested : List Call :=
  [.submit ⟨0, 5⟩, .submit ⟨1, 3⟩, .submit ⟨2, 5⟩, .engine .doNextEvent, .completion,
    .submit ⟨3, 3⟩, .callbackDone 0, .completion, .callbackDone 1, .completion]

theorem run_served_iff_nested : ∃ s : Completion, create .new = .ok s ∧
    (s.Served ∧ (Run.Along exec Serves s nested ↔ Run.Along exec Clear s nested)) :=
  ⟨_, rfl, @run_served_iff [] .new _ trivial rfl rfl nested (by decide)⟩

/-- The second request is submitted right after the handler has called back the first one, and is
finished at the same tick. -/
def stranded : List Call :=
  [.submit ⟨0, 5⟩, .engine .doNextEvent, .completion, .callbackDone 0, .completion,
    .submit ⟨1, 5⟩]

/-- Nothing is scheduled, and the request waits. -/
theorem not_serves_stranded : ∃ s s' : Completion, create .new = .ok s ∧
    Run.Along exec Valid s stranded ∧ stranded.foldlM exec s = .ok s' ∧ ¬ s'.Served ∧
    s'.engine.engine.eventQueue = [] ∧ s'.waiting = [⟨1, 5⟩] := by
  refine ⟨_, _, rfl, by decide, rfl, fun h => ?_, rfl, rfl⟩
  obtain ⟨tick, hmem, -⟩ := h.attended rfl (by decide)
  cases hmem

end Completion

end SimpleSSD.HIL
