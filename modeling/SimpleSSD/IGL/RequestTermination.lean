import SimpleSSD.IGL.IOGenerator
import SimpleSSD.IGL.RequestGenerator

/-!
# The end of the request generator (igl/request/request_generator.cc:217–302)

A submission and a completion both schedule the next submission, if the depth allows one, or find
that the end condition holds. From then on completions schedule nothing, and the last one ends the
simulation. A submission that is scheduled already stays so; it can still come, but only before the
end, which stops the engine.

The end condition is looked at by the two handlers only. With a number of bytes it cannot come to
hold in between. A running time can be over while no I/O is in flight and a submission is
scheduled: one more I/O is then submitted, and its completion ends the simulation.

The comparison of `rwmixread` with the ratio of reads, in floating point, is a parameter. It decides
between reads and writes only.
-/

namespace SimpleSSD.IGL

open Generator (View)

/-- `IO_MODE`. -/
inductive IOMode where
  | sync | async
  deriving DecidableEq, Repr

/-- What is read from the configuration. `mixesRead` says, for the number of reads and of all I/Os,
whether the mix asks for another read. -/
structure RequestOptions where
  request : RequestConfig
  mode : IOMode
  iodepth : UInt64
  io_size : UInt64
  time_based : Bool
  runtime : UInt64
  submissionLatency : UInt64
  completionLatency : UInt64
  mixesRead : Nat → Nat → Bool

/-- `iodepth`, as the constructor leaves it. -/
def RequestOptions.depth (o : RequestOptions) : Nat :=
  match o.mode with
  | .sync => 1
  | .async => o.iodepth.toNat

/-- The members of `RequestGenerator` that change. -/
structure RequestState where
  generator : RequestGenerator
  io_submitted : Nat
  read_count : Nat
  io_depth : Nat
  reserveTermination : Bool
  initTime : Nat
  submitEvent : Nat

namespace RequestState

/-- The constructor. -/
def new (o : RequestOptions) (submitEvent : Nat) : RequestState where
  generator := .new o.request
  io_submitted := 0
  read_count := 0
  io_depth := 0
  reserveTermination := false
  initTime := 0
  submitEvent := submitEvent

/-- `nextIOIsRead`, with `io_count` already increased. -/
def nextIOIsRead (o : RequestOptions) (s : RequestState) (io_count : Nat) : Bool :=
  match s.generator.type with
  | .readWrite | .randRW => o.mixesRead s.read_count io_count
  | .read | .randRead => true
  | .write | .randWrite => false

/-- The end condition at a tick. -/
def Done (o : RequestOptions) (s : RequestState) (tick : Nat) : Prop :=
  if o.time_based then o.runtime.toNat ≤ (tick + 2 ^ 64 - s.initTime) % 2 ^ 64
  else o.io_size.toNat ≤ s.io_submitted

instance (o : RequestOptions) (s : RequestState) (tick : Nat) : Decidable (s.Done o tick) := by
  unfold Done
  infer_instance

end RequestState

namespace RequestGenerator

section Handlers

variable (o : RequestOptions)

/-- `rescheduleSubmit`. -/
def rescheduleSubmit (breakTime : Nat) (w : World RequestState) :
    Except Fault (World RequestState) :=
  let tick := w.engine.simTick
  if w.gen.Done o tick then
    let w := { w with gen := { w.gen with reserveTermination := true } }
    if w.gen.io_depth = 0 then w.endCallback else .ok w
  else if w.gen.io_depth < o.depth then do
    let next := (tick + breakTime) % 2 ^ 64
    let scheduledTick ← w.engine.isScheduled w.gen.submitEvent
    -- an event that comes late enough is left where it is, an earlier one is put off
    let doSchedule := match scheduledTick with
      | some scheduledTick => decide (scheduledTick < next)
      | none => true
    if doSchedule then w.scheduleEvent w.gen.submitEvent next else .ok w
  else .ok w

/-- `_submitIO`. -/
def submitIO (draw : Nat) (w : World RequestState) : Except Fault (World RequestState) := do
  let s := w.gen
  let a ← s.generator.generateAddress draw
  let id := s.generator.io_count
  let io_count := (id + 1) % 2 ^ 64
  let isRead := s.nextIOIsRead o io_count
  let s := { s with
    generator := { s.generator with io_count }
    read_count := if isRead then (s.read_count + 1) % 2 ^ 64 else s.read_count
    io_submitted := (s.io_submitted + a.len) % 2 ^ 64
    io_depth := s.io_depth + 1 }
  let w := { w.submitIO ⟨id, if isRead then .read else .write, a.off, a.len⟩ with gen := s }
  rescheduleSubmit o o.submissionLatency.toNat w

/-- `_iocallback`. -/
def iocallback (w : World RequestState) : Except Fault (World RequestState) :=
  let w := { w with gen := { w.gen with io_depth := w.gen.io_depth - 1 } }
  if w.gen.reserveTermination then
    if w.gen.io_depth = 0 then w.endCallback else .ok w
  else
    rescheduleSubmit o ((o.submissionLatency.toNat + o.completionLatency.toNat) % 2 ^ 64) w

/-- `begin`. -/
def begin (draw : Nat) (w : World RequestState) : Except Fault (World RequestState) :=
  submitIO o draw { w with gen := { w.gen with initTime := w.engine.simTick } }

/-- `beginCallback` (main.cc:217–224). -/
def beginCallback (bytesize : UInt64) (bs : UInt32) (draw : Nat) (w : World RequestState) :
    Except Fault (World RequestState) := do
  let generator ← w.gen.generator.init bytesize bs
  begin o draw { w with gen := { w.gen with generator } }

/-- The handlers. The input is what `randgen` draws. -/
def handlers : Generator RequestState Nat :=
  ⟨RequestState.submitEvent, submitIO o, iocallback o⟩

/-! ### How a run ends -/

/-- The depth is kept; the end comes once and last, with no I/O in flight; and it has come where no
I/O is in flight and a number of bytes is submitted, or nothing is scheduled. -/
structure EndsOnce (w : World RequestState) : Prop where
  depth : w.inFlight.length ≤ o.depth
  once : .ended ∈ w.log → World.EndedOnce w.inFlight w.log
  done : o.time_based = false → w.gen.Done o w.engine.simTick → w.inFlight = [] → .ended ∈ w.log
  quiet : w.inFlight = [] → ¬ w.engine.Scheduled w.gen.submitEvent → .ended ∈ w.log

end Handlers

/-- An address is always made. -/
theorem Accepted.generateAddress_ok {s : RequestGenerator} (h : s.Accepted) (draw : Nat) :
    ∃ a, s.generateAddress draw = .ok a := by
  unfold generateAddress
  cases s.type.isRandom with
  | true => exact ⟨_, rfl⟩
  | false =>
    rw [if_neg Bool.false_ne_true]
    have hoff : s.io_count * s.blockalign % 2 ^ 64 < 2 ^ 64 := Nat.mod_lt _ (by decide)
    generalize s.io_count * s.blockalign % 2 ^ 64 = off at *
    by_cases hsum : off + s.blocksize < 2 ^ 64
    · rw [@limit_eq s.size (2 ^ 64 + 1) ⟨off, s.blocksize, false⟩ h.size_pos h.blocksize_pos hsum
        (show off + 2 ≤ 2 ^ 64 + 1 by omega)]
      exact ⟨_, rfl⟩
    · obtain ⟨a, hlimit, -⟩ := @limit_wraps s.size (2 ^ 64 + 1) ⟨off, s.blocksize, false⟩
        h.size_pos h.blocksize_lt hoff (Nat.le_of_not_lt hsum) (show off < 2 ^ 64 + 1 by omega)
      rw [hlimit]
      exact ⟨_, rfl⟩

/-! ### The invariant -/

/-- What holds when the next submission is about to be scheduled. -/
structure Counted (o : RequestOptions) (v : View RequestState) : Prop where
  accepted : v.gen.generator.Accepted
  depth : v.gen.io_depth = v.inFlight.length
  le : v.inFlight.length ≤ o.depth
  lt : v.pending = true → v.inFlight.length < o.depth

/-- What the handlers keep: something is to come as long as the end has not. -/
structure Kept (o : RequestOptions) (v : View RequestState) : Prop extends Counted o v where
  alive : v.inFlight = [] → .ended ∉ v.log → v.pending = true
  flagged : o.time_based = false → o.io_size.toNat ≤ v.gen.io_submitted →
    v.gen.reserveTermination = true
  terminated : v.gen.reserveTermination = true → v.inFlight = [] → .ended ∈ v.log
  once : .ended ∈ v.log → World.EndedOnce v.inFlight v.log

section Invariant

variable {o : RequestOptions} {w : World RequestState}

/-- The end of the simulation, once no I/O is in flight. -/
theorem endCallback_kept (h : (handlers o).Attached w) (hcounted : Counted o ((handlers o).view w))
    (hlive : .ended ∉ w.log) (hflag : w.gen.reserveTermination = true)
    (hzero : w.gen.io_depth = 0) :
    ∃ w', w.endCallback = .ok w' ∧ (handlers o).Attached w' ∧ Kept o ((handlers o).view w') := by
  obtain ⟨w', hcall, hattached, hview⟩ := h.endCallback
  have hended : IOEvent.ended ∈ w.log ++ [.ended] := List.mem_append_right _ List.mem_cons_self
  have hempty : w.inFlight = [] := List.length_eq_zero_iff.mp (hcounted.depth.symm.trans hzero)
  refine ⟨w', hcall, hattached, ?_⟩
  rw [hview]
  exact ⟨⟨hcounted.accepted, hcounted.depth, hcounted.le, hcounted.lt⟩,
    fun _ hnot => absurd hended hnot, fun _ _ => hflag, fun _ _ => hended,
    fun _ => ⟨hempty, w.log, rfl, hlive⟩⟩

/-- Scheduling the next submission, or finding the end. -/
theorem rescheduleSubmit_kept (hdepth : 0 < o.depth) (h : (handlers o).Attached w)
    (hcounted : Counted o ((handlers o).view w)) (hlive : .ended ∉ w.log)
    (hflag : w.gen.reserveTermination = true → w.inFlight ≠ []) (breakTime : Nat) :
    ∃ w', rescheduleSubmit o breakTime w = .ok w' ∧ (handlers o).Attached w' ∧
      Kept o ((handlers o).view w') := by
  have hlength : w.gen.io_depth = w.inFlight.length := hcounted.depth
  unfold rescheduleSubmit
  dsimp only
  by_cases hdone : w.gen.Done o w.engine.simTick
  · rw [if_pos hdone]
    have hattached : (handlers o).Attached
        { w with gen := { w.gen with reserveTermination := true } } := h.setGen rfl
    by_cases hzero : w.gen.io_depth = 0
    · rw [if_pos hzero]
      exact endCallback_kept hattached
        ⟨hcounted.accepted, hcounted.depth, hcounted.le, hcounted.lt⟩ hlive rfl hzero
    · rw [if_neg hzero]
      have hne : w.inFlight ≠ [] := fun hempty => hzero (hlength.trans (by rw [hempty]; rfl))
      exact ⟨_, rfl, hattached, ⟨hcounted.accepted, hcounted.depth, hcounted.le, hcounted.lt⟩,
        fun hempty => absurd hempty hne, fun _ _ => rfl, fun _ hempty => absurd hempty hne,
        fun hended => absurd hended hlive⟩
  · -- the end condition does not hold, which settles a generator with a number of bytes
    have hflagged : o.time_based = false → o.io_size.toNat ≤ w.gen.io_submitted →
        w.gen.reserveTermination = true := by
      intro hbytes hle
      refine absurd ?_ hdone
      unfold RequestState.Done
      rwa [hbytes, if_neg Bool.false_ne_true]
    have hterminated : w.gen.reserveTermination = true → w.inFlight = [] → .ended ∈ w.log :=
      fun hset hempty => absurd hempty (hflag hset)
    rw [if_neg hdone]
    by_cases hlt : w.gen.io_depth < o.depth
    · rw [if_pos hlt]
      have hroom : w.inFlight.length < o.depth := by rwa [← hlength]
      obtain ⟨w', hcall, hattached, hview⟩ :=
        h.scheduleEvent ((w.engine.simTick + breakTime) % 2 ^ 64)
      have hscheduled : Kept o ⟨w.gen, w.inFlight, w.log, true⟩ :=
        ⟨⟨hcounted.accepted, hcounted.depth, hcounted.le, fun _ => hroom⟩, fun _ _ => rfl,
          hflagged, hterminated, fun hended => absurd hended hlive⟩
      rw [Engine.isScheduled, if_pos (show w.gen.submitEvent ∈ w.engine.eventList from h.own),
        Except.ok_bind]
      -- the event is put off, or it is scheduled for the first time
      have hput : ∃ w', w.scheduleEvent w.gen.submitEvent
          ((w.engine.simTick + breakTime) % 2 ^ 64) = .ok w' ∧ (handlers o).Attached w' ∧
            Kept o ((handlers o).view w') := by
        refine ⟨w', hcall, hattached, ?_⟩
        rw [hview]
        exact hscheduled
      cases hfind : w.engine.eventQueue.find? fun entry => entry.1 = w.gen.submitEvent with
      | none => exact hput
      | some entry =>
        by_cases hearly : entry.2 < (w.engine.simTick + breakTime) % 2 ^ 64
        · rw [Option.map_some]
          dsimp only
          rw [if_pos (decide_eq_true hearly)]
          exact hput
        · -- it comes late enough, and stays where it is
          rw [Option.map_some]
          dsimp only
          rw [if_neg (by simpa using hearly)]
          have hmatched := List.find?_some hfind
          have heid : entry.1 = w.gen.submitEvent := of_decide_eq_true hmatched
          have hpending : ((handlers o).view w).pending = true := by
            refine Generator.view_pending.mpr ?_
            show w.gen.submitEvent ∈ _
            rw [← heid]
            exact List.mem_map_of_mem (List.mem_of_find?_eq_some hfind)
          have hview : (handlers o).view w = ⟨w.gen, w.inFlight, w.log, true⟩ := by
            rw [← hpending]
            rfl
          refine ⟨w, rfl, h, ?_⟩
          rw [hview]
          exact hscheduled
    · rw [if_neg hlt]
      refine ⟨w, rfl, h, hcounted, fun hempty => ?_, hflagged, hterminated,
        fun hended => absurd hended hlive⟩
      have hempty : w.inFlight.length = 0 := congrArg List.length hempty
      omega

/-- A submission with room for one more I/O, and with nothing scheduled. -/
theorem submitIO_kept (hdepth : 0 < o.depth) (h : (handlers o).Attached w) (hlive : .ended ∉ w.log)
    (haccepted : w.gen.generator.Accepted) (hlength : w.gen.io_depth = w.inFlight.length)
    (hroom : w.inFlight.length < o.depth) (hpending : ((handlers o).view w).pending = false)
    (draw : Nat) : ∃ w', submitIO o draw w = .ok w' ∧ (handlers o).Attached w' ∧
      Kept o ((handlers o).view w') := by
  obtain ⟨a, ha⟩ := haccepted.generateAddress_ok draw
  unfold submitIO
  dsimp only
  rw [ha, Except.ok_bind]
  refine rescheduleSubmit_kept hdepth ?_ ?_ ?_ ?_ _
  · exact (h.submitIO _).setGen rfl
  · refine ⟨haccepted.recount _, ?_, ?_, fun h => ?_⟩
    · show w.gen.io_depth + 1 = (w.inFlight ++ [_]).length
      rw [List.length_append, hlength]
      rfl
    · show (w.inFlight ++ [_]).length ≤ _
      rw [List.length_append]
      exact hroom
    · rw [show ((handlers o).view w).pending = true from h] at hpending
      cases hpending
  · show .ended ∉ w.log ++ [_]
    simpa using hlive
  · intro _
    show w.inFlight ++ [_] ≠ []
    simp

/-- A completion leaves room for one more I/O. -/
theorem Kept.complete (h : Kept o ((handlers o).view w)) {id : Nat} (hid : id ∈ w.inFlight) :
    Counted o ((handlers o).view { w.complete id with
      gen := { w.gen with io_depth := w.gen.io_depth - 1 } }) := by
  have hlength : w.gen.io_depth = w.inFlight.length := h.depth
  have herase : (w.inFlight.erase id).length = w.inFlight.length - 1 :=
    List.length_erase_of_mem hid
  have hle : w.inFlight.length ≤ o.depth := h.le
  refine ⟨h.accepted, ?_, ?_, fun hpending => ?_⟩
  · show w.gen.io_depth - 1 = (w.inFlight.erase id).length
    rw [herase, hlength]
  · show (w.inFlight.erase id).length ≤ _
    omega
  · have hlt : w.inFlight.length < o.depth := h.lt hpending
    show (w.inFlight.erase id).length < _
    omega

/-- A completion: the last one ends the simulation, if the end condition was found to hold. -/
theorem iocallback_kept (hdepth : 0 < o.depth) (h : (handlers o).Attached w)
    (hkept : Kept o ((handlers o).view w)) {id : Nat} (hid : id ∈ w.inFlight) :
    ∃ w', iocallback o (w.complete id) = .ok w' ∧ (handlers o).Attached w' ∧
      Kept o ((handlers o).view w') := by
  have hlive : .ended ∉ w.log := fun hended => by
    have hempty : w.inFlight = [] := (hkept.once hended).1
    rw [hempty] at hid
    cases hid
  have hcomplete : .ended ∉ (w.complete id).log := by
    show .ended ∉ w.log ++ [_]
    simpa using hlive
  have hattached : (handlers o).Attached { w.complete id with
      gen := { w.gen with io_depth := w.gen.io_depth - 1 } } := (h.complete id).setGen rfl
  have hcounted := hkept.complete hid
  unfold iocallback
  dsimp only
  by_cases hflag : w.gen.reserveTermination = true
  · rw [if_pos (show (w.complete id).gen.reserveTermination = true from hflag)]
    by_cases hzero : w.gen.io_depth - 1 = 0
    · rw [if_pos (show (w.complete id).gen.io_depth - 1 = 0 from hzero)]
      exact endCallback_kept hattached hcounted hcomplete hflag hzero
    · rw [if_neg (show ¬ (w.complete id).gen.io_depth - 1 = 0 from hzero)]
      have hne : w.inFlight.erase id ≠ [] := fun hempty => by
        have hlength : w.gen.io_depth - 1 = (w.inFlight.erase id).length := hcounted.depth
        rw [hempty] at hlength
        exact hzero hlength
      exact ⟨_, rfl, hattached, hcounted, fun hempty => absurd hempty hne, fun _ _ => hflag,
        fun _ hempty => absurd hempty hne, fun hended => absurd hended hcomplete⟩
  · rw [if_neg (show ¬ (w.complete id).gen.reserveTermination = true from hflag)]
    exact rescheduleSubmit_kept hdepth hattached hcounted hcomplete
      (fun hset => absurd hset hflag) _

/-- The two handlers keep the invariant. -/
theorem handlers_keep (hdepth : 0 < o.depth) :
    (handlers o).Keeps (Kept o) fun _ => True := by
  constructor
  · intro w draw h hlive _ hkept hpending
    exact submitIO_kept hdepth h hlive hkept.accepted hkept.depth (hkept.lt rfl) hpending draw
  · intro w id h hkept hid
    exact iocallback_kept hdepth h hkept hid

theorem Kept.endsOnce (h : Kept o ((handlers o).view w)) : EndsOnce o w := by
  refine ⟨h.le, h.once, fun hbytes hdone hempty => ?_, fun hempty hidle => ?_⟩
  · refine h.terminated (h.flagged hbytes ?_) hempty
    unfold RequestState.Done at hdone
    rwa [hbytes, if_neg Bool.false_ne_true] at hdone
  · by_contra hlive
    exact hidle (Generator.view_pending.mp (h.alive hempty hlive))

/-- The first submission. -/
theorem beginCallback_kept {bytesize : UInt64} {bs : UInt32} {s : RequestGenerator} {n : Nat}
    (hdepth : 0 < o.depth) (hinit : (new o.request).init bytesize bs = .ok s)
    (h : (handlers o).Waiting w (.new o n)) (draw : Nat) :
    ∃ w', beginCallback o bytesize bs draw w = .ok w' ∧ (handlers o).Attached w' ∧
      Kept o ((handlers o).view w') := by
  obtain ⟨hattached, hview⟩ := h
  have hgen : w.gen = .new o n := congrArg View.gen hview
  have hinFlight : w.inFlight = [] := congrArg View.inFlight hview
  have hlog : w.log = [] := congrArg View.log hview
  have hpending : decide (w.engine.Scheduled w.gen.submitEvent) = false :=
    congrArg View.pending hview
  unfold beginCallback begin
  rw [show w.gen.generator.init bytesize bs = .ok s by rw [hgen]; exact hinit, Except.ok_bind]
  have hattached : (handlers o).Attached { w with
      gen := { w.gen with generator := s, initTime := w.engine.simTick } } := hattached.setGen rfl
  refine submitIO_kept hdepth hattached ?_ (accepted_init hinit).1 ?_ ?_ hpending draw
  · show .ended ∉ w.log
    rw [hlog]
    exact List.not_mem_nil
  · show w.gen.io_depth = w.inFlight.length
    rw [hgen, hinFlight]
    rfl
  · show w.inFlight.length < o.depth
    rw [hinFlight]
    exact hdepth

end Invariant

/-- Whatever the configuration, the other components and the completions: the number of I/Os in
flight keeps to the depth, the end comes at most once and last, and it has come when no I/O is in
flight and either all bytes are submitted or no submission is scheduled. -/
theorem ends_once {o : RequestOptions} (hdepth : 0 < o.depth) {bytesize : UInt64} {bs : UInt32}
    {s : RequestGenerator} (hinit : (new o.request).init bytesize bs = .ok s) {statistics : Bool}
    {calls : List Engine.Call} {w : World RequestState}
    (hboot : boot (RequestState.new o) statistics calls = .ok w) {before : List (Action Nat)}
    (hbefore : Run.Along (handlers o).exec (handlers o).Possible w before) (draw : Nat) :
    ∃ w₁, before.foldlM (handlers o).exec w >>= beginCallback o bytesize bs draw = .ok w₁ ∧
      ∀ after, Run.Along (handlers o).exec (handlers o).Possible w₁ after →
        ∃ w₂, after.foldlM (handlers o).exec w₁ = .ok w₂ ∧ EndsOnce o w₂ := by
  obtain ⟨n, hwaiting⟩ := Generator.boot_waiting (g := handlers o) (fun _ => rfl) hboot
  obtain ⟨w₀, hrun₀, hwaiting₀⟩ := hwaiting.run hbefore
  obtain ⟨w₁, hbegin, hattached, hkept⟩ := beginCallback_kept hdepth hinit hwaiting₀ draw
  refine ⟨w₁, ?_, fun after hafter => ?_⟩
  · rw [hrun₀]
    exact hbegin
  · obtain ⟨w₂, hrun, -, hend⟩ :=
      (handlers_keep hdepth).run hattached hkept hafter (Generator.takes_any after)
    exact ⟨w₂, hrun, hend.endsOnce⟩

/-! ### A running time that ends between two I/Os -/

section Blocks

/-- Random reads for 15 ticks, one at a time, with 10 ticks before and behind each. -/
def timedReads : RequestOptions where
  request := blockRandomReads
  mode := .sync
  iodepth := 1
  io_size := 0
  time_based := true
  runtime := 15
  submissionLatency := 10
  completionLatency := 10
  mixesRead := fun _ _ => false

/-- The simulator with this generator. -/
def timedWorld : World RequestState :=
  ⟨.new timedReads 1, ⟨0, 1, false, [1], [], 0⟩, none, [], []⟩

theorem boot_timedWorld : boot (RequestState.new timedReads) false [] = .ok timedWorld := rfl

theorem ends_once_timedReads : ∃ w₁,
    [.allocateEvent].foldlM (handlers timedReads).exec timedWorld >>=
      beginCallback timedReads 8192 512 0 = .ok w₁ ∧
    ∀ after, Run.Along (handlers timedReads).exec (handlers timedReads).Possible w₁ after →
      ∃ w₂, after.foldlM (handlers timedReads).exec w₁ = .ok w₂ ∧ EndsOnce timedReads w₂ :=
  ends_once (s := new blockRandomReads) (by decide) rfl boot_timedWorld (by decide) 0

/-- The read completes at tick 5, the next one is scheduled for tick 25, and the driver is busy at
tick 17. -/
def betweenReads : List (Action Nat) :=
  [.scheduleEvent 2 5, .doNextEvent 0, .complete 0, .scheduleEvent 2 17, .doNextEvent 0]

/-- The running time is over, and no I/O is in flight, but the end has not come. -/
theorem not_ended_betweenReads : ∃ w₁ w₂,
    [.allocateEvent].foldlM (handlers timedReads).exec timedWorld >>=
      beginCallback timedReads 8192 512 0 = .ok w₁ ∧
    Run.Along (handlers timedReads).exec (handlers timedReads).Possible w₁ betweenReads ∧
    betweenReads.foldlM (handlers timedReads).exec w₁ = .ok w₂ ∧
    w₂.gen.Done timedReads w₂.engine.simTick ∧ w₂.inFlight = [] ∧ .ended ∉ w₂.log := by
  refine ⟨_, _, rfl, ?_, rfl, ?_, rfl, ?_⟩
  · decide
  · decide
  · decide

end Blocks

end RequestGenerator

end SimpleSSD.IGL
