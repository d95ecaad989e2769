import SimpleSSD.Sim.Engine

/-!
# I/O generators (igl/io_gen.hh, sim/main.cc:183–257)

A generator submits I/Os to the block layer from the handler of one event of the engine, and is
called back when an I/O has completed. The drivers complete an I/O from handlers of their own, never
within its submission, so that a run is any sequence of what the other components do to the engine,
of the events that it dispatches, and of completions. The end of a simulation is a call of
`endCallback`, which stops the engine.

What the other components do is unknown, but that the event of the generator is its own. The
handlers of a generator are described by what they do to its state, to the I/Os in flight and to
the event (`View`), whatever else is in the engine; `Keeps.run` makes an invariant of a run out of
that.
-/

namespace SimpleSSD.IGL

/-- `BIO_TYPE`, without `BIO_NUM`. -/
inductive BIOType where
  | read | write | flush | trim
  deriving DecidableEq, Repr

/-- `BIO`, without its callback. -/
structure BIO where
  id : Nat
  type : BIOType
  offset : Nat
  length : Nat
  deriving DecidableEq, Repr

/-- What can be seen of a generator. -/
inductive IOEvent where
  | submitted (bio : BIO)
  | completed (id : Nat)
  | ended
  deriving DecidableEq, Repr

/-- The I/Os that were submitted, in order. -/
def submitted (log : List IOEvent) : List BIO :=
  log.filterMap fun
    | .submitted bio => some bio
    | .completed _ | .ended => none

/-- A generator in the simulator: its state, the engine, the event of the periodic statistics if it
is used, the I/Os in flight, and what has happened. -/
structure World (σ : Type) where
  gen : σ
  engine : Engine
  statEvent : Option Nat
  inFlight : List Nat
  log : List IOEvent

namespace World

variable {σ : Type}

/-- `bioEntry.submitIO`. -/
def submitIO (bio : BIO) (w : World σ) : World σ :=
  { w with inFlight := w.inFlight ++ [bio.id], log := w.log ++ [.submitted bio] }

/-- The block layer is done with an I/O. -/
def complete (id : Nat) (w : World σ) : World σ :=
  { w with inFlight := w.inFlight.erase id, log := w.log ++ [.completed id] }

/-- `engine.scheduleEvent`. -/
def scheduleEvent (eid tick : Nat) (w : World σ) : Except Fault (World σ) :=
  (w.engine.scheduleEvent eid tick).map fun engine => { w with engine }

/-- `endCallback` (main.cc:186–194). -/
def endCallback (w : World σ) : Except Fault (World σ) := do
  let engine ← match w.statEvent with
    | some statEvent => w.engine.descheduleEvent statEvent
    | none => .ok w.engine
  .ok { w with engine := engine.stopEngine, log := w.log ++ [.ended] }

/-- The end has come once, as the last thing that happened, with no I/O in flight. -/
def EndedOnce (inFlight : List Nat) (log : List IOEvent) : Prop :=
  inFlight = [] ∧ ∃ before, log = before ++ [.ended] ∧ .ended ∉ before

end World

/-- A generator: the event in its state, and its handlers. An input stands for what a handler
takes from elsewhere. -/
structure Generator (σ ι : Type) where
  submitEvent : σ → Nat
  submitIO : ι → World σ → Except Fault (World σ)
  iocallback : World σ → Except Fault (World σ)

/-- What happens in the simulator. -/
inductive Action (ι : Type) where
  | allocateEvent
  | scheduleEvent (eid tick : Nat)
  | descheduleEvent (eid : Nat)
  | doNextEvent (input : ι)
  | complete (id : Nat)
  deriving Repr

/-- `main` up to the start of the simulation, with what else is done to the engine before. -/
def boot {σ : Type} (construct : Nat → σ) (statistics : Bool) (calls : List Engine.Call) :
    Except Fault (World σ) := do
  let history ← calls.foldlM EngineHistory.exec .new
  let engine ← history.engine.allocateEvent
  let gen := construct engine.counter
  if statistics then
    let engine ← engine.allocateEvent
    .ok ⟨gen, engine, some engine.counter, [], []⟩
  else .ok ⟨gen, engine, none, [], []⟩

namespace Generator

variable {σ ι : Type} (g : Generator σ ι)

/-- One action. Of a handler that is not the generator's, only the dispatch is seen here. -/
def exec (w : World σ) : Action ι → Except Fault (World σ)
  | .allocateEvent => w.engine.allocateEvent.map fun engine => { w with engine }
  | .scheduleEvent eid tick => w.scheduleEvent eid tick
  | .descheduleEvent eid => (w.engine.descheduleEvent eid).map fun engine => { w with engine }
  | .doNextEvent input => do
    let (next, engine) ← w.engine.doNextEvent
    let w := { w with engine }
    match next with
    | some (eid, _) => if eid = g.submitEvent w.gen then g.submitIO input w else .ok w
    | none => .ok w
  | .complete id => g.iocallback (w.complete id)

/-- The others use events that exist and are not the generator's, and complete I/Os that are in
flight. -/
def Possible (w : World σ) : Action ι → Prop
  | .allocateEvent => (w.engine.counter + 1) % 2 ^ 64 ∉ w.engine.eventList
  | .scheduleEvent eid _ | .descheduleEvent eid =>
    eid ∈ w.engine.eventList ∧ eid ≠ g.submitEvent w.gen
  | .doNextEvent _ => True
  | .complete id => id ∈ w.inFlight

instance (w : World σ) : ∀ a : Action ι, Decidable (g.Possible w a)
  | .allocateEvent => inferInstanceAs (Decidable (_ ∉ _))
  | .scheduleEvent _ _ => inferInstanceAs (Decidable (_ ∧ _))
  | .descheduleEvent _ => inferInstanceAs (Decidable (_ ∧ _))
  | .doNextEvent _ => instDecidableTrue
  | .complete _ => inferInstanceAs (Decidable (_ ∈ _))

/-- What a generator knows: its state, the I/Os in flight, what has happened, and whether its event
is scheduled. -/
structure View (σ : Type) where
  gen : σ
  inFlight : List Nat
  log : List IOEvent
  pending : Bool

def view (w : World σ) : View σ :=
  ⟨w.gen, w.inFlight, w.log, w.engine.Scheduled (g.submitEvent w.gen)⟩

/-- The events of the generator and of the statistics exist, and the engine is stopped by the end
of the simulation. -/
structure Attached (w : World σ) : Prop where
  sound : w.engine.Sound
  own : g.submitEvent w.gen ∈ w.engine.eventList
  stat : ∀ eid ∈ w.statEvent, eid ∈ w.engine.eventList ∧ eid ≠ g.submitEvent w.gen
  stopped : w.engine.forceStop = true ↔ .ended ∈ w.log

/-- The handlers go through and keep the invariant: that of the event with the event taken off the
queue, and that of a completion with the I/O taken off the I/Os in flight. -/
structure Keeps (I : View σ → Prop) (Admits : ι → Prop) : Prop where
  submitIO : ∀ w input, g.Attached w → .ended ∉ w.log → Admits input →
    I ⟨w.gen, w.inFlight, w.log, true⟩ → (g.view w).pending = false →
      ∃ w', g.submitIO input w = .ok w' ∧ g.Attached w' ∧ I (g.view w')
  iocallback : ∀ w id, g.Attached w → I (g.view w) → id ∈ w.inFlight →
    ∃ w', g.iocallback (w.complete id) = .ok w' ∧ g.Attached w' ∧ I (g.view w')

/-- The inputs of the handler are admitted. -/
def Takes (Admits : ι → Prop) : Action ι → Prop
  | .doNextEvent input => Admits input
  | _ => True

end Generator

/-! ### Calls of the engine -/

section Calls

variable {σ ι : Type} {g : Generator σ ι} {w : World σ} {I : Generator.View σ → Prop}
  {Admits : ι → Prop}

namespace Generator

/-- What others do to the engine leaves the view as it is. -/
theorem view_engine {engine : Engine}
    (hscheduled : engine.Scheduled (g.submitEvent w.gen) ↔
      w.engine.Scheduled (g.submitEvent w.gen)) : g.view { w with engine } = g.view w := by
  unfold view
  dsimp only
  rw [decide_eq_decide.mpr hscheduled]

theorem view_pending : (g.view w).pending = true ↔ w.engine.Scheduled (g.submitEvent w.gen) :=
  decide_eq_true_iff

/-- The generator changes its own state, but not which event is its own. -/
theorem Attached.setGen (h : g.Attached w) {gen : σ}
    (hgen : g.submitEvent gen = g.submitEvent w.gen) : g.Attached { w with gen } := by
  refine ⟨h.sound, ?_, ?_, h.stopped⟩
  · rw [hgen]
    exact h.own
  · rw [hgen]
    exact h.stat

/-- A call of the engine that forgets no event and does not stop it. -/
theorem Attached.setEngine (h : g.Attached w) {engine : Engine} (hsound : engine.Sound)
    (hlist : w.engine.eventList ⊆ engine.eventList)
    (hstop : engine.forceStop = w.engine.forceStop) : g.Attached { w with engine } := by
  refine ⟨hsound, hlist h.own, fun eid heid => ?_, ?_⟩
  · exact ⟨hlist (h.stat eid heid).1, (h.stat eid heid).2⟩
  · rw [hstop]
    exact h.stopped

/-- The event is scheduled, at whatever tick. -/
theorem Attached.scheduleEvent (h : g.Attached w) (tick : Nat) :
    ∃ w', w.scheduleEvent (g.submitEvent w.gen) tick = .ok w' ∧ g.Attached w' ∧
      g.view w' = ⟨w.gen, w.inFlight, w.log, true⟩ := by
  obtain ⟨engine, hcall, hsound, hstop, -, hlist, hscheduled⟩ :=
    h.sound.scheduleEvent h.own tick
  have hkept : w.engine.eventList ⊆ engine.eventList := by
    rw [hlist]
    exact List.Subset.refl _
  refine ⟨{ w with engine }, ?_, h.setEngine hsound hkept hstop, ?_⟩
  · rw [World.scheduleEvent, hcall]
    rfl
  · unfold view
    dsimp only
    rw [decide_eq_true ((hscheduled _).mpr (.inl rfl))]

/-- The end of the simulation. -/
theorem Attached.endCallback (h : g.Attached w) :
    ∃ w', w.endCallback = .ok w' ∧ g.Attached w' ∧
      g.view w' = { g.view w with log := w.log ++ [.ended] } := by
  unfold World.endCallback
  cases hstat : w.statEvent with
  | none =>
    refine ⟨_, rfl, ⟨⟨h.sound.once, h.sound.exists_mem⟩, h.own, ?_, ?_⟩, rfl⟩
    · intro eid heid
      cases heid
    · exact ⟨fun _ => List.mem_append_right _ List.mem_cons_self, fun _ => rfl⟩
  | some statEvent =>
    obtain ⟨hmem, hne⟩ := h.stat statEvent hstat
    obtain ⟨engine, hcall, hsound, -, -, hlist, hscheduled⟩ := h.sound.descheduleEvent hmem
    dsimp only
    rw [hcall]
    refine ⟨_, rfl, ⟨⟨hsound.once, hsound.exists_mem⟩, ?_, ?_, ?_⟩, ?_⟩
    · show g.submitEvent w.gen ∈ engine.eventList
      rw [hlist]
      exact h.own
    · intro eid heid
      show eid ∈ engine.eventList ∧ _
      obtain rfl := Option.some.inj heid
      rw [hlist]
      exact ⟨hmem, hne⟩
    · exact ⟨fun _ => List.mem_append_right _ List.mem_cons_self, fun _ => rfl⟩
    · unfold view
      congr 1
      exact decide_eq_decide.mpr (hscheduled _ hne.symm)

/-- Taking an I/O out of those in flight touches the engine not at all. -/
theorem Attached.complete (h : g.Attached w) (id : Nat) : g.Attached (w.complete id) := by
  refine ⟨h.sound, h.own, h.stat, h.stopped.trans ?_⟩
  show _ ↔ .ended ∈ w.log ++ [.completed id]
  simp

theorem Attached.submitIO (h : g.Attached w) (bio : BIO) : g.Attached (w.submitIO bio) := by
  refine ⟨h.sound, h.own, h.stat, h.stopped.trans ?_⟩
  show _ ↔ .ended ∈ w.log ++ [.submitted bio]
  simp

/-! ### Runs -/

/-- Where any input is admitted, a run takes none but admitted ones. -/
theorem takes_any (actions : List (Action ι)) : ∀ a ∈ actions, Takes (fun _ => True) a := by
  intro a _
  cases a <;> trivial

/-- One action goes through and keeps what the handlers keep. -/
theorem Keeps.exec (hkeeps : g.Keeps I Admits) {a : Action ι} (h : g.Attached w)
    (hI : I (g.view w)) (hpossible : g.Possible w a) (htakes : Takes Admits a) :
    ∃ w', g.exec w a = .ok w' ∧ g.Attached w' ∧ I (g.view w') := by
  cases a with
  | allocateEvent =>
    obtain ⟨engine, hcall, hsound, hstop, -, hqueue, hlist, -⟩ := h.sound.allocateEvent hpossible
    have hattached : g.Attached { w with engine } := by
      refine h.setEngine hsound ?_ hstop
      rw [hlist]
      exact List.subset_cons_self _ _
    refine ⟨{ w with engine }, ?_, hattached, ?_⟩
    · rw [Generator.exec, hcall]
      rfl
    · rw [view_engine (by unfold Engine.Scheduled; rw [hqueue])]
      exact hI
  | scheduleEvent eid tick =>
    obtain ⟨engine, hcall, hsound, hstop, -, hlist, hscheduled⟩ :=
      h.sound.scheduleEvent hpossible.1 tick
    have hkept : w.engine.eventList ⊆ engine.eventList := by
      rw [hlist]
      exact List.Subset.refl _
    refine ⟨{ w with engine }, ?_, h.setEngine hsound hkept hstop, ?_⟩
    · rw [Generator.exec, World.scheduleEvent, hcall]
      rfl
    · rw [view_engine ((hscheduled _).trans (or_iff_right hpossible.2.symm))]
      exact hI
  | descheduleEvent eid =>
    obtain ⟨engine, hcall, hsound, hstop, -, hlist, hscheduled⟩ :=
      h.sound.descheduleEvent hpossible.1
    have hkept : w.engine.eventList ⊆ engine.eventList := by
      rw [hlist]
      exact List.Subset.refl _
    refine ⟨{ w with engine }, ?_, h.setEngine hsound hkept hstop, ?_⟩
    · rw [Generator.exec, hcall]
      rfl
    · rw [view_engine (hscheduled _ hpossible.2.symm)]
      exact hI
  | doNextEvent input =>
    rw [Generator.exec]
    rcases h.sound.doNextEvent with ⟨hcall, -⟩ | ⟨eid, tick, engine, hcall, hrunning, hsound, hstop,
      -, hlist, hmem, hscheduled⟩
    · rw [hcall]
      exact ⟨w, rfl, h, hI⟩
    · have hlive : .ended ∉ w.log := fun hended => by
        rw [h.stopped.mpr hended] at hrunning
        cases hrunning
      have hattached : g.Attached { w with engine } := by
        refine h.setEngine hsound ?_ (hstop.trans hrunning.symm)
        rw [hlist]
        exact List.Subset.refl _
      rw [hcall, Except.ok_bind]
      dsimp only
      by_cases heid : eid = g.submitEvent w.gen
      · rw [if_pos heid]
        have hpending : (g.view w).pending = true := view_pending.mpr (heid ▸ hmem)
        have hI : I ⟨w.gen, w.inFlight, w.log, true⟩ := by
          rw [← hpending]
          exact hI
        refine hkeeps.submitIO _ input hattached hlive htakes hI ?_
        refine decide_eq_false fun hnow => ?_
        exact ((hscheduled _).mp hnow).1 heid.symm
      · rw [if_neg heid]
        refine ⟨_, rfl, hattached, ?_⟩
        rw [view_engine ((hscheduled _).trans (and_iff_right fun h => heid h.symm))]
        exact hI
  | complete id => exact hkeeps.iocallback w id h hI hpossible

/-- What the handlers keep, a run keeps, and it goes through. -/
theorem Keeps.run (hkeeps : g.Keeps I Admits) {actions : List (Action ι)} (h : g.Attached w)
    (hI : I (g.view w)) (hpossible : Run.Along g.exec g.Possible w actions)
    (htakes : ∀ a ∈ actions, Takes Admits a) :
    ∃ w', actions.foldlM g.exec w = .ok w' ∧ g.Attached w' ∧ I (g.view w') := by
  induction actions generalizing w with
  | nil => exact ⟨w, rfl, h, hI⟩
  | cons a actions ih =>
    obtain ⟨w₁, hexec, h₁, hI₁⟩ := hkeeps.exec h hI hpossible.1 (htakes a List.mem_cons_self)
    obtain ⟨w', hrun, hend⟩ := ih h₁ hI₁ (hpossible.2.of_ok hexec)
      fun b hb => htakes b (List.mem_cons_of_mem a hb)
    refine ⟨w', ?_, hend⟩
    rw [List.foldlM_cons, hexec]
    exact hrun

/-! ### The start -/

/-- Nothing has happened, and nothing is scheduled for the generator. -/
def Waiting (w : World σ) (gen : σ) : Prop := g.Attached w ∧ g.view w = ⟨gen, [], [], false⟩

/-- Before it begins, a generator only has an event. -/
theorem boot_waiting {construct : Nat → σ} {statistics : Bool} {calls : List Engine.Call}
    (hsubmitEvent : ∀ n, g.submitEvent (construct n) = n)
    (hboot : boot construct statistics calls = .ok w) : ∃ n, g.Waiting w (construct n) := by
  obtain ⟨history, hcalls, hboot⟩ := Except.bind_eq_ok.mp hboot
  obtain ⟨engine, hallocate, hboot⟩ := Except.bind_eq_ok.mp hboot
  have hhistory := Run.foldlM_inv (I := fun s => s.engine.Sound ∧ s.engine.forceStop = false)
    (fun s c s' hs hexec => EngineHistory.exec_sound hs.1 hs.2 hexec)
    ⟨Engine.new_sound, rfl⟩ hcalls
  obtain ⟨hsound, hstop, hqueue, hlist, hcounter⟩ := hhistory.1.allocated hallocate
  have hidle : ¬ engine.Scheduled engine.counter := by
    unfold Engine.Scheduled
    rw [hqueue]
    exact fun h => hcounter (hhistory.1.exists_mem _ h)
  have hown : engine.counter ∈ engine.eventList := by
    rw [hlist]
    exact List.mem_cons_self
  refine ⟨engine.counter, ?_⟩
  unfold Waiting view
  cases statistics with
  | false =>
    cases hboot
    refine ⟨⟨hsound, ?_, fun _ h => (by cases h), ?_⟩, ?_⟩
    · rw [hsubmitEvent]
      exact hown
    · rw [hstop, hhistory.2]
      exact ⟨fun h => (by cases h), fun h => (by cases h)⟩
    · rw [hsubmitEvent, decide_eq_false hidle]
  | true =>
    obtain ⟨engine₂, hallocate₂, hboot⟩ := Except.bind_eq_ok.mp hboot
    cases hboot
    obtain ⟨hsound₂, hstop₂, hqueue₂, hlist₂, hcounter₂⟩ := hsound.allocated hallocate₂
    refine ⟨⟨hsound₂, ?_, ?_, ?_⟩, ?_⟩
    · rw [hsubmitEvent, hlist₂]
      exact List.mem_cons_of_mem _ hown
    · intro eid heid
      obtain rfl := Option.some.inj heid
      rw [hsubmitEvent, hlist₂]
      refine ⟨List.mem_cons_self, fun heq => hcounter₂ ?_⟩
      rw [heq]
      exact hown
    · rw [hstop₂, hstop, hhistory.2]
      exact ⟨fun h => (by cases h), fun h => (by cases h)⟩
    · rw [hsubmitEvent]
      refine congrArg _ (decide_eq_false ?_)
      unfold Engine.Scheduled at hidle ⊢
      rwa [hqueue₂]

/-- It waits through whatever the others do. -/
theorem Waiting.run {gen : σ} (h : g.Waiting w gen) {actions : List (Action ι)}
    (hpossible : Run.Along g.exec g.Possible w actions) :
    ∃ w', actions.foldlM g.exec w = .ok w' ∧ g.Waiting w' gen := by
  have hkeeps : g.Keeps (fun v => v = ⟨gen, [], [], false⟩) fun _ => True := by
    constructor
    · intro w input _ _ _ hI
      have hpending : true = false := congrArg View.pending hI
      cases hpending
    · intro w id _ hI hid
      have hinFlight : w.inFlight = [] := congrArg View.inFlight hI
      rw [hinFlight] at hid
      cases hid
  exact hkeeps.run h.1 h.2 hpossible (takes_any actions)

end Generator

end Calls

end SimpleSSD.IGL
