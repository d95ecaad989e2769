import SimpleSSD.Lib.Run
import SimpleSSD.Lib.SingleServer
import SimpleSSD.Util.Def

/-!
# A core of the controller's CPU (cpu/cpu.cc:66–131)

A core keeps its jobs in a queue. The one in front is on the core; one event is scheduled for
its end, and its handler calls the completion function, takes the job out and starts the next
one. The completion function may submit further jobs, which are queued behind the others as
the core is still busy.

The core serves its jobs in turn (`SingleServer`), as long as the ends of the jobs are below
2^64: ticks have 64 bits.

The instruction counts of `CoreStat` are left out.
-/

namespace SimpleSSD.CPU

/-- What a job is submitted with: its function and context, the latency of its instructions, and
its delay. -/
structure Job where
  context : Nat
  latency : Nat
  delay : Nat
  deriving DecidableEq, Repr

/-- `JobEntry`. -/
structure JobEntry extends Job where
  submitAt : Nat
  deriving DecidableEq, Repr

/-- `CPU::Core`, with the tick of the simulation and the tick that `jobEvent` is scheduled for.
`submitted` and `finished` record the calls of `submitJob` and of the completion functions, and
`startedAt` the tick of the last `handleJob`. -/
structure Core where
  simTick : Nat
  jobEvent : Option Nat
  busy : Bool
  jobs : List JobEntry
  stat : Nat
  startedAt : Nat
  submitted : List JobEntry
  finished : List (SingleServer.Service JobEntry Nat)
  deriving DecidableEq, Repr

namespace Core

def new : Core := ⟨0, none, false, [], 0, 0, [], []⟩

/-- `schedule(jobEvent, tick)`. The engine schedules for now what should have been before. -/
def schedule (tick : Nat) (s : Core) : Core :=
  { s with jobEvent := some (if tick < s.simTick then s.simTick else tick) }

/-- `handleJob`. -/
def handleJob (s : Core) : Except Fault Core :=
  match s.jobs with
  | [] => .error (.badAccess "jobs.front()")
  | iter :: _ =>
    let now := s.simTick
    let diff := (now + 2 ^ 64 - iter.submitAt) % 2 ^ 64
    let finishedAt :=
      if iter.delay ≤ diff then (now + iter.latency) % 2 ^ 64
      else (now + iter.latency + iter.delay + 2 ^ 64 - diff) % 2 ^ 64
    .ok ({ s with busy := true, startedAt := now }.schedule finishedAt)

/-- `submitJob`. -/
def submitJob (s : Core) (job : Job) : Except Fault Core :=
  let entry := ⟨job, s.simTick⟩
  let s := { s with jobs := s.jobs ++ [entry], submitted := s.submitted ++ [entry] }
  if s.busy then .ok s else s.handleJob

/-- `jobDone`, whose completion function submits jobs. -/
def jobDone (resubmitted : List Job) (s : Core) : Except Fault Core :=
  match s.jobs with
  | [] => .error (.badAccess "jobs.front()")
  | iter :: _ => do
    let s := { s with finished := s.finished ++ [⟨iter, s.startedAt, s.simTick⟩] }
    let s ← resubmitted.foldlM submitJob s
    let s := { s with
      stat := (s.stat + iter.latency) % 2 ^ 64
      jobs := s.jobs.tail
      busy := false }
    if s.jobs ≠ [] then s.handleJob else .ok s

/-! ### Runs -/

/-- A job is submitted from outside of the core, or the event fires. -/
inductive Event where
  | submitJob (tick : Nat) (job : Job)
  | jobDone (resubmitted : List Job)
  deriving DecidableEq, Repr

def exec (s : Core) : Event → Except Fault Core
  | .submitJob tick job => { s with simTick := tick }.submitJob job
  | .jobDone resubmitted =>
    match s.jobEvent with
    | none => .ok s
    | some tick => { s with simTick := tick, jobEvent := none }.jobDone resubmitted

/-- The ticks do not go back, and the engine does not go past an event. -/
def InTime (s : Core) : Event → Prop
  | .submitJob tick _ => s.simTick ≤ tick ∧ ∀ f ∈ s.jobEvent, tick ≤ f
  | .jobDone _ => True

/-- The end of a job that is started at a tick. -/
def endOf (start : Nat) (e : JobEntry) : Nat := max start (e.submitAt + e.delay) + e.latency

/-- The entries of jobs that are submitted at a tick. -/
def entries (tick : Nat) (jobs : List Job) : List JobEntry := jobs.map fun job => ⟨job, tick⟩

/-- The job that the step starts, if any, ends below 2^64. -/
def Fits (s : Core) : Event → Prop
  | .submitJob tick job => s.jobs = [] → endOf tick ⟨job, tick⟩ < 2 ^ 64
  | .jobDone resubmitted => ∀ tick ∈ s.jobEvent,
    ∀ e ∈ (s.jobs.tail ++ entries tick resubmitted).head?, endOf tick e < 2 ^ 64

instance (s : Core) (e : Event) : Decidable (InTime s e) := by
  cases e <;> unfold InTime <;> infer_instance

instance (s : Core) (e : Event) : Decidable (Fits s e) := by
  cases e <;> unfold Fits <;> infer_instance

/-- The submitted jobs have been completed once each and in order, or are waiting with the event
scheduled, and are completed when it fires for each; no two of them overlap; and none was
completed before its delay and latency were over. -/
structure Ordered (s : Core) : Prop where
  calls : s.finished.map (·.job) ++ s.jobs = s.submitted
  scheduled : s.jobs ≠ [] → s.jobEvent.isSome = true
  drains : ∃ s', (List.replicate s.jobs.length (Event.jobDone [])).foldlM exec s = .ok s' ∧
    s'.finished.map (·.job) = s.submitted ∧ s'.submitted = s.submitted
  apart : s.finished.Pairwise fun a b => a.finishedAt ≤ b.startedAt
  late : ∀ a ∈ s.finished, a.startedAt ≤ a.finishedAt ∧
    a.job.submitAt + a.job.delay + a.job.latency ≤ a.finishedAt

/-! ### The queue -/

section Queue

variable {s s' : Core} {e : JobEntry} {rest : List JobEntry}

theorem handleJob_cons (hjobs : s.jobs = e :: rest) : ∃ f, s.handleJob = .ok { s with
    busy := true
    startedAt := s.simTick
    jobEvent := some f } := by
  rw [handleJob, hjobs]
  exact ⟨_, rfl⟩

/-- Jobs that are submitted to a busy core only wait. -/
theorem foldlM_submitJob (s : Core) (hbusy : s.busy = true) (jobs : List Job) :
    jobs.foldlM submitJob s = .ok { s with
      jobs := s.jobs ++ entries s.simTick jobs
      submitted := s.submitted ++ entries s.simTick jobs } := by
  induction jobs generalizing s with
  | nil =>
    rw [entries, List.map_nil, List.append_nil, List.append_nil]
    rfl
  | cons job jobs ih =>
    have hsubmit : s.submitJob job = .ok { s with
        jobs := s.jobs ++ [⟨job, s.simTick⟩]
        submitted := s.submitted ++ [⟨job, s.simTick⟩] } := by
      rw [submitJob]
      exact if_pos hbusy
    have hrest := ih { s with
      jobs := s.jobs ++ [⟨job, s.simTick⟩]
      submitted := s.submitted ++ [⟨job, s.simTick⟩] } hbusy
    rw [List.foldlM_cons, hsubmit, Except.ok_bind, hrest]
    dsimp only
    rw [List.append_assoc, List.append_assoc]
    rfl

/-- The core behind the completion of its front job. -/
def completed (s : Core) (e : JobEntry) (rest : List JobEntry) (resubmitted : List Job) : Core :=
  { s with
    finished := s.finished ++ [⟨e, s.startedAt, s.simTick⟩]
    submitted := s.submitted ++ entries s.simTick resubmitted
    stat := (s.stat + e.latency) % 2 ^ 64
    jobs := rest ++ entries s.simTick resubmitted
    busy := false }

theorem jobDone_eq (hbusy : s.busy = true) (hjobs : s.jobs = e :: rest) (resubmitted : List Job) :
    s.jobDone resubmitted =
      if (s.completed e rest resubmitted).jobs ≠ [] then
        (s.completed e rest resubmitted).handleJob
      else .ok (s.completed e rest resubmitted) := by
  rw [jobDone]
  split
  · next hnil => cases hnil.symm.trans hjobs
  · next e' rest' hcons =>
    obtain ⟨rfl, rfl⟩ := List.cons.inj (hcons.symm.trans hjobs)
    have hrun := foldlM_submitJob { s with
      finished := s.finished ++ [⟨e', s.startedAt, s.simTick⟩] } hbusy resubmitted
    dsimp only
    rw [hrun, Except.ok_bind]
    dsimp only
    rw [hjobs]
    rfl

/-- A core with jobs is busy and its event is scheduled. -/
def Awake (s : Core) : Prop :=
  match s.jobs with
  | [] => s.busy = false ∧ s.jobEvent = none
  | _ :: _ => s.busy = true ∧ s.jobEvent.isSome = true

theorem Awake.of_cons (h : s.Awake) (hjobs : s.jobs = e :: rest) :
    s.busy = true ∧ ∃ f, s.jobEvent = some f := by
  rw [Awake, hjobs] at h
  exact ⟨h.1, Option.isSome_iff_exists.mp h.2⟩

/-- The event completes the front job, and starts the next one if there is one. -/
theorem Awake.exec_jobDone (h : s.Awake) (hjobs : s.jobs = e :: rest) :
    ∃ s', exec s (.jobDone []) = .ok s' ∧ s'.Awake ∧ s'.jobs = rest ∧
      s'.finished.map (·.job) = s.finished.map (·.job) ++ [e] ∧ s'.submitted = s.submitted := by
  obtain ⟨hbusy, f, hf⟩ := h.of_cons hjobs
  rw [exec, hf]
  dsimp only
  rw [@jobDone_eq { s with simTick := f, jobEvent := none } e rest hbusy hjobs []]
  have hcompleted : (completed { s with simTick := f, jobEvent := none } e rest []).jobs = rest :=
    List.append_nil rest
  have hfinished : (s.finished ++ [SingleServer.Service.mk e s.startedAt f]).map (·.job) =
      s.finished.map (·.job) ++ [e] := List.map_append
  by_cases hrest : rest = []
  · rw [if_neg (by rw [hcompleted]; exact not_not.mpr hrest)]
    refine ⟨_, rfl, ?_, hcompleted, hfinished, List.append_nil _⟩
    rw [Awake, hcompleted, hrest]
    exact ⟨rfl, rfl⟩
  · obtain ⟨e', rest', hnext⟩ := List.exists_cons_of_ne_nil hrest
    obtain ⟨f', hhandle⟩ := handleJob_cons (hcompleted.trans hnext)
    rw [if_pos (by rw [hcompleted]; exact hrest), hhandle]
    refine ⟨_, rfl, ?_, hcompleted, hfinished, List.append_nil _⟩
    rw [Awake, hcompleted, hnext]
    exact ⟨rfl, rfl⟩

/-- With the event firing for each of them, all jobs are completed. -/
theorem Awake.drains (h : s.Awake) :
    ∃ s', (List.replicate s.jobs.length (Event.jobDone [])).foldlM exec s = .ok s' ∧
      s'.finished.map (·.job) = s.finished.map (·.job) ++ s.jobs ∧
        s'.submitted = s.submitted := by
  generalize hjobs : s.jobs = jobs
  induction jobs generalizing s with
  | nil => exact ⟨s, rfl, (List.append_nil _).symm, rfl⟩
  | cons e rest ih =>
    obtain ⟨s₁, hexec, hawake, hrest, hfinished, hsubmitted⟩ := h.exec_jobDone hjobs
    obtain ⟨s', hrun, hfinished', hsubmitted'⟩ := ih hawake hrest
    refine ⟨s', ?_, ?_, hsubmitted'.trans hsubmitted⟩
    · rw [List.length_cons, List.replicate_succ, List.foldlM_cons, hexec]
      exact hrun
    · rw [hfinished', hfinished, List.append_assoc]
      rfl

end Queue

/-! ### The server -/

theorem le_endOf (start : Nat) (e : JobEntry) : start ≤ endOf start e := by
  rw [endOf]
  omega

/-- The core as a server. -/
def discipline : SingleServer.Discipline JobEntry Nat where
  arrival e := e.submitAt
  finish := endOf
  le_finish := le_endOf

/-- The tick from which on the core is free behind the jobs that it has completed. -/
def free (s : Core) : Nat := discipline.freeAt 0 (s.finished.map (·.job))

/-- The front job is on the core, and the event is scheduled for its end. -/
def Running (s : Core) : Prop :=
  match s.jobs with
  | [] => s.busy = false ∧ s.jobEvent = none
  | e :: _ => s.busy = true ∧ ∃ f, s.jobEvent = some f ∧ s.simTick ≤ f ∧
    discipline.serve s.free e = ⟨e, s.startedAt, f⟩

/-- The completed jobs have been served in turn, and the others have arrived. -/
structure Inv (s : Core) : Prop where
  calls : s.finished.map (·.job) ++ s.jobs = s.submitted
  served : s.finished = discipline.services 0 (s.finished.map (·.job))
  free : s.free ≤ s.simTick
  arrived : ∀ e ∈ s.jobs, e.submitAt ≤ s.simTick
  running : s.Running

section Inv

variable {s s' : Core} {e : JobEntry} {rest : List JobEntry} {tick : Nat} {job : Job}

/-- A job that has arrived ends as the server says. -/
theorem handleJob_eq (hjobs : s.jobs = e :: rest) (harrived : e.submitAt ≤ s.simTick)
    (hfits : endOf s.simTick e < 2 ^ 64) : s.handleJob = .ok { s with
      busy := true
      startedAt := s.simTick
      jobEvent := some (endOf s.simTick e) } := by
  rw [endOf] at hfits
  have hdiff : (s.simTick + 2 ^ 64 - e.submitAt) % 2 ^ 64 = s.simTick - e.submitAt := by
    rw [show s.simTick + 2 ^ 64 - e.submitAt = s.simTick - e.submitAt + 2 ^ 64 by omega,
      Nat.add_mod_right]
    exact Nat.mod_eq_of_lt (by omega)
  have hend : (if e.delay ≤ s.simTick - e.submitAt then (s.simTick + e.latency) % 2 ^ 64
      else (s.simTick + e.latency + e.delay + 2 ^ 64 - (s.simTick - e.submitAt)) % 2 ^ 64) =
        endOf s.simTick e := by
    rw [endOf]
    split
    · rw [Nat.mod_eq_of_lt (by omega)]
      omega
    · rw [show s.simTick + e.latency + e.delay + 2 ^ 64 - (s.simTick - e.submitAt) =
        s.simTick + e.latency + e.delay - (s.simTick - e.submitAt) + 2 ^ 64 by omega,
        Nat.add_mod_right, Nat.mod_eq_of_lt (by omega)]
      omega
  rw [handleJob, hjobs]
  dsimp only
  rw [hdiff, hend, schedule, if_neg (Nat.not_lt.mpr (le_endOf _ e))]

theorem Inv.awake (h : s.Inv) : s.Awake := by
  have hrunning := h.running
  rw [Running] at hrunning
  rw [Awake]
  cases hjobs : s.jobs with
  | nil =>
    rw [hjobs] at hrunning
    exact hrunning
  | cons e rest =>
    rw [hjobs] at hrunning
    obtain ⟨hbusy, f, hf, -⟩ := hrunning
    rw [hf]
    exact ⟨hbusy, rfl⟩

theorem new_inv : new.Inv where
  calls := rfl
  served := rfl
  free := Nat.le_refl 0
  arrived e he := by cases he
  running := ⟨rfl, rfl⟩

/-- What is on the core. -/
theorem Inv.of_cons (h : s.Inv) (hjobs : s.jobs = e :: rest) :
    s.busy = true ∧ ∃ f, s.jobEvent = some f ∧ s.simTick ≤ f ∧
      discipline.serve s.free e = ⟨e, s.startedAt, f⟩ := by
  have hrunning := h.running
  rw [Running, hjobs] at hrunning
  exact hrunning

theorem Inv.of_nil (h : s.Inv) (hjobs : s.jobs = []) : s.busy = false ∧ s.jobEvent = none := by
  have hrunning := h.running
  rw [Running, hjobs] at hrunning
  exact hrunning

/-- Starting the front job of a free core. -/
theorem Inv.of_handleJob (hjobs : s.jobs = e :: rest) (hfits : endOf s.simTick e < 2 ^ 64)
    (hcalls : s.finished.map (·.job) ++ s.jobs = s.submitted)
    (hserved : s.finished = discipline.services 0 (s.finished.map (·.job)))
    (hfree : s.free ≤ s.simTick) (harrived : ∀ e ∈ s.jobs, e.submitAt ≤ s.simTick)
    (hstart : s.free = s.simTick ∨ e.submitAt = s.simTick) :
    ∃ s', s.handleJob = .ok s' ∧ s'.Inv := by
  have hle : e.submitAt ≤ s.simTick := harrived e (hjobs ▸ List.mem_cons_self)
  refine ⟨_, handleJob_eq hjobs hle hfits, hcalls, hserved, hfree, harrived, ?_⟩
  have hmax : max s.free e.submitAt = s.simTick := by omega
  have hserve : discipline.serve s.free e = ⟨e, s.simTick, endOf s.simTick e⟩ := by
    rw [SingleServer.Discipline.serve]
    show SingleServer.Service.mk e (max s.free e.submitAt) (endOf (max s.free e.submitAt) e) = _
    rw [hmax]
  rw [Running]
  dsimp only
  rw [hjobs]
  exact ⟨rfl, endOf s.simTick e, rfl, le_endOf _ e, hserve⟩

/-- A job from outside waits behind the others, or is started at once. -/
theorem Inv.submitJob (h : s.Inv) (htime : InTime s (.submitJob tick job))
    (hfits : Fits s (.submitJob tick job)) :
    ∃ s', exec s (.submitJob tick job) = .ok s' ∧ s'.Inv := by
  obtain ⟨htick, hevent⟩ := htime
  have hcalls : s.finished.map (·.job) ++ (s.jobs ++ [⟨job, tick⟩]) =
      s.submitted ++ [⟨job, tick⟩] := by
    rw [← List.append_assoc, h.calls]
  have harrived : ∀ e ∈ s.jobs ++ [⟨job, tick⟩], e.submitAt ≤ tick := by
    intro e he
    rcases List.mem_append.mp he with he | he
    · exact (h.arrived e he).trans htick
    · rw [List.mem_singleton.mp he]
  rw [exec, Core.submitJob]
  dsimp only
  cases hjobs : s.jobs with
  | nil =>
    -- the core is idle: the job is started as it arrives
    rw [hjobs] at hcalls harrived
    rw [(h.of_nil hjobs).1, if_neg Bool.false_ne_true]
    exact Inv.of_handleJob rfl (hfits hjobs) hcalls h.served (h.free.trans htick) harrived
      (.inr rfl)
  | cons e rest =>
    rw [hjobs] at hcalls harrived
    obtain ⟨hbusy, f, hf, -, hserve⟩ := h.of_cons hjobs
    rw [if_pos hbusy]
    exact ⟨_, rfl, hcalls, h.served, h.free.trans htick, harrived, hbusy, f, hf, hevent f hf,
      hserve⟩

/-- The core behind a completion is free from now on. -/
theorem Inv.completed (h : s.Inv) (hjobs : s.jobs = e :: rest) {f : Nat}
    (hf : s.jobEvent = some f) (resubmitted : List Job) {c : Core}
    (hc : c = Core.completed { s with simTick := f, jobEvent := none } e rest resubmitted) :
    c.finished.map (·.job) ++ c.jobs = c.submitted ∧
      c.finished = discipline.services 0 (c.finished.map (·.job)) ∧ c.free = f ∧
        ∀ e ∈ c.jobs, e.submitAt ≤ f := by
  obtain ⟨-, f', hf', hle, hserve⟩ := h.of_cons hjobs
  obtain rfl := Option.some.inj (hf.symm.trans hf')
  have hmap : c.finished.map (·.job) = s.finished.map (·.job) ++ [e] := by
    rw [hc]
    exact List.map_append
  have hfinished : c.finished = s.finished ++ [discipline.serve s.free e] := by
    rw [hc, hserve]
    rfl
  have hcalls := h.calls
  rw [hjobs] at hcalls
  refine ⟨?_, ?_, ?_, fun e' he' => ?_⟩
  · rw [hmap, hc]
    show s.finished.map (·.job) ++ [e] ++ (rest ++ entries f resubmitted) =
      s.submitted ++ entries f resubmitted
    rw [← hcalls, List.append_assoc, List.append_assoc]
    rfl
  · rw [hmap, SingleServer.Discipline.services_concat, ← h.served]
    exact hfinished
  · rw [Core.free, hmap, SingleServer.Discipline.freeAt_concat]
    exact congrArg SingleServer.Service.finishedAt hserve
  · rw [hc] at he'
    rcases List.mem_append.mp he' with he' | he'
    · exact (h.arrived e' (hjobs ▸ List.mem_cons_of_mem e he')).trans hle
    · obtain ⟨job, -, rfl⟩ := List.mem_map.mp he'
      exact Nat.le_refl f

/-- The event completes the front job, and the next one is started. -/
theorem Inv.jobDone (h : s.Inv) {resubmitted : List Job} (hfits : Fits s (.jobDone resubmitted)) :
    ∃ s', exec s (.jobDone resubmitted) = .ok s' ∧ s'.Inv := by
  rw [exec]
  cases hf : s.jobEvent with
  | none => exact ⟨s, rfl, h⟩
  | some f =>
    dsimp only
    have hne : s.jobs ≠ [] := fun hnil => by cases (h.of_nil hnil).2.symm.trans hf
    obtain ⟨e, rest, hjobs⟩ := List.exists_cons_of_ne_nil hne
    have hfits := hfits f hf
    rw [hjobs, List.tail_cons] at hfits
    rw [jobDone_eq (s := { s with simTick := f, jobEvent := none }) (h.of_cons hjobs).1 hjobs]
    generalize hc : Core.completed { s with simTick := f, jobEvent := none } e rest resubmitted = c
    obtain ⟨hcalls, hserved, hfree, harrived⟩ := h.completed hjobs hf resubmitted hc.symm
    have htick : c.simTick = f := by
      rw [← hc]
      rfl
    have hnext : c.jobs = rest ++ entries f resubmitted := by
      rw [← hc]
      rfl
    by_cases hrest : c.jobs = []
    · -- nothing is left, and the core is idle with no event
      rw [if_neg (not_not.mpr hrest)]
      refine ⟨c, rfl, hcalls, hserved, by rw [hfree, htick], by rwa [htick], ?_⟩
      rw [Running, hrest, ← hc]
      exact ⟨rfl, rfl⟩
    · -- the next job is started at the tick of the event, where the core has become free
      obtain ⟨e', rest', hcons⟩ := List.exists_cons_of_ne_nil hrest
      rw [if_pos hrest]
      rw [← hnext, hcons] at hfits
      refine Inv.of_handleJob hcons ?_ hcalls hserved (by rw [hfree, htick]) (by rwa [htick])
        (.inl (by rw [hfree, htick]))
      rw [htick]
      exact hfits e' rfl

theorem Inv.exec {ev : Event} (h : s.Inv) (htime : InTime s ev) (hfits : Fits s ev) :
    ∃ s', Core.exec s ev = .ok s' ∧ s'.Inv := by
  cases ev with
  | submitJob tick job => exact h.submitJob htime hfits
  | jobDone resubmitted => exact h.jobDone hfits

theorem Inv.run {events : List Event} (h : s.Inv)
    (hvalid : Run.Along Core.exec (fun s ev => InTime s ev ∧ Fits s ev) s events) :
    ∃ s', events.foldlM Core.exec s = .ok s' ∧ s'.Inv := by
  induction events generalizing s with
  | nil => exact ⟨s, rfl, h⟩
  | cons ev events ih =>
    obtain ⟨⟨htime, hfits⟩, hrest⟩ := hvalid
    obtain ⟨s₁, hexec, h₁⟩ := h.exec htime hfits
    obtain ⟨s', hrun, h'⟩ := ih h₁ (hrest.of_ok hexec)
    refine ⟨s', ?_, h'⟩
    rw [List.foldlM_cons, hexec]
    exact hrun

/-- Jobs that are served in turn are ordered. -/
theorem Inv.ordered (h : s.Inv) : s.Ordered := by
  refine ⟨h.calls, fun hne => ?_, ?_, ?_, fun a ha => ?_⟩
  · obtain ⟨e, rest, hjobs⟩ := List.exists_cons_of_ne_nil hne
    obtain ⟨-, f, hf, -⟩ := h.of_cons hjobs
    rw [hf]
    rfl
  · obtain ⟨s', hrun, hfinished, hsubmitted⟩ := h.awake.drains
    exact ⟨s', hrun, hfinished.trans h.calls, hsubmitted⟩
  · rw [h.served]
    exact discipline.pairwise_services 0 _
  · rw [h.served] at ha
    obtain ⟨t, -, hserve⟩ := SingleServer.Discipline.exists_serve ha
    rw [hserve]
    refine ⟨discipline.startedAt_le_finishedAt t a.job, ?_⟩
    show a.job.submitAt + a.job.delay + a.job.latency ≤ endOf _ a.job
    rw [endOf]
    omega

end Inv

/-- In every run whose ticks do not go back and whose jobs end below 2^64, the jobs are completed
once each and in order, without overlap, and after their delay and latency. -/
theorem run_callbacks_ordered (events : List Event)
    (hvalid : Run.Along exec (fun s e => InTime s e ∧ Fits s e) new events) :
    ∃ s, events.foldlM exec new = .ok s ∧ s.Ordered := by
  obtain ⟨s, hrun, h⟩ := new_inv.run hvalid
  exact ⟨s, hrun, h.ordered⟩

/-! ### Instances -/

/-- The completion function of the first job submits a third one before it returns. -/
def resubmitting : List Event :=
  [.submitJob 5 ⟨0, 10, 3⟩, .submitJob 7 ⟨1, 4, 100⟩, .jobDone [⟨2, 1, 0⟩], .jobDone [],
    .jobDone []]

theorem run_callbacks_ordered_resubmitting :
    Run.Along exec (fun s e => InTime s e ∧ Fits s e) new resubmitting ∧
      ∃ s, resubmitting.foldlM exec new = .ok s ∧ s.Ordered := by
  have hvalid : Run.Along exec (fun s e => InTime s e ∧ Fits s e) new resubmitting := by
    decide
  exact ⟨hvalid, run_callbacks_ordered resubmitting hvalid⟩

/-- A job with the greatest delay and a latency of one tick. -/
def longest : List Event := [.submitJob 0 ⟨0, 1, 2 ^ 64 - 1⟩, .jobDone []]

/-- It is done when it is submitted. -/
theorem not_ordered_longest : Run.Along exec InTime new longest ∧
    ∃ s, longest.foldlM exec new = .ok s ∧ ¬ s.Ordered := by
  refine ⟨by decide, ⟨0, none, false, [], 1, 0, [⟨⟨0, 1, 2 ^ 64 - 1⟩, 0⟩],
    [⟨⟨⟨0, 1, 2 ^ 64 - 1⟩, 0⟩, 0, 0⟩]⟩, by decide, fun h => ?_⟩
  have hlate := (h.late _ (List.mem_singleton.mpr rfl)).2
  exact absurd hlate (by decide)

end Core

end SimpleSSD.CPU
