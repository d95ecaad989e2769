import SimpleSSD.Lib.Intervals
import SimpleSSD.PAL.Timeline

/-!
# Busy times (PAL2.cc:399–637)

What `TimelineScheduling` records of a command that it has scheduled, besides the slots it
takes: `MergedTimeSlots`, a list of the ticks at which some die is busy, and `OpTimeStamp`,
a map from the first to the last tick of the commands of an operation. The flushes add both
up to busy times.

An iterator into `MergedTimeSlots` is an index here, and `end()` is `none`.
-/

namespace SimpleSSD.PAL

open Intervals

/-! ### MergedTimeSlots -/

/-- `inside(0), rightside(1)`: where a tick lies of the slot that has been found for it. -/
inductive Side where
  | inside | rightside
  deriving DecidableEq, Repr

/-- The loops that find the positions of `s` and `e` (PAL2.cc:412–458). A tick in front of
the first slot is taken to lie to the right of it, if it lies in front of the next. -/
def findPosition (tick : Nat) : List TimeSlot → Option (Nat × Side)
  | [] => none
  | cur :: rest =>
    if cur.StartTick ≤ tick ∧ tick ≤ cur.EndTick then some (0, .inside)
    else
      match rest with
      | [] => some (0, .rightside)
      | next :: _ =>
        if tick < next.StartTick then some (0, .rightside)
        else (findPosition tick rest).map fun pos => (pos.1 + 1, pos.2)

/-- `spos->EndTick` is set, and the slots behind `spos` are erased up to `epos`
(PAL2.cc:500–517). The loop that erases does not stop at the end of the list. -/
def closeSlot (slots : List TimeSlot) (spos : Nat) (epos : Nat) (epnt : Side) (e : Nat) :
    Except Fault (List TimeSlot) :=
  if epos ≤ spos then .error (.badAccess "MergedTimeSlots.end()")
  else
    let EndTick := match epnt with
      | .inside => (slots[epos]?.map TimeSlot.EndTick).getD e
      | .rightside => e
    .ok ((slots.take (spos + 1)).modify spos (fun ts => { ts with EndTick := EndTick }) ++
      slots.drop (epos + 1))

/-- The merge (PAL2.cc:400–519). Behind an insertion to the right of `spos`, `--tmp` is the
old `spos` again. -/
def mergeTimeSlot (slots : List TimeSlot) (tsMEM : TimeSlot) : Except Fault (List TimeSlot) :=
  let copy := TimeSlot.new tsMEM.StartTick
    (tickAdd (tickSub tsMEM.EndTick tsMEM.StartTick) 1)
  if slots = [] then .ok [copy]
  else
    let spos := findPosition tsMEM.StartTick slots
    let epos := findPosition tsMEM.EndTick slots
    -- if both side is in a merged slot, skip
    if spos = epos ∧ spos.map Prod.snd = some .inside then .ok slots
    else
      match spos, epos with
      | some (i, .rightside), none => .ok (slots.insertIdx (i + 1) copy)
      | some (i, .rightside), some (j, epnt) =>
        closeSlot (slots.insertIdx (i + 1) copy) i (if j < i then j else j + 1) epnt tsMEM.EndTick
      | _, none => .ok (copy :: slots)
      | _, some (j, epnt) =>
        closeSlot (TimeSlot.new tsMEM.StartTick 999 :: slots) 0 (j + 1) epnt tsMEM.EndTick

/-- `FlushATimeSlotBusyTime` (PAL2.cc:594–609): the slots that are kept, and the sum. -/
def flushATimeSlotBusyTime (currentTick : Nat) : List TimeSlot → Nat → List TimeSlot × Nat
  | [], TimeSum => ([], TimeSum)
  | cur :: rest, TimeSum =>
    if cur.EndTick < currentTick then
      flushATimeSlotBusyTime currentTick rest
        (tickAdd TimeSum (tickAdd (tickSub cur.EndTick cur.StartTick) 1))
    else (cur :: rest, TimeSum)

/-! ### OpTimeStamp -/

/-- `std::map<uint64_t, uint64_t>`, from the first tick of a command to its last. -/
structure TimeStamps where
  entries : List (Nat × Nat)
  ordered : Ordered entries

/-- `OpTimeStamp[req.operation]` for a command from `startTick` to `endTick`
(PAL2.cc:563–571): the later end of two commands with one first tick is kept. -/
def TimeStamps.record (m : TimeStamps) (startTick endTick : Nat) : TimeStamps where
  entries := insertSlot (startTick, endTick) <|
    m.entries.map fun e => if e.1 = startTick then (e.1, max e.2 endTick) else e
  ordered := by
    refine insertSlot_sorted _ (List.pairwise_map.mpr (m.ordered.imp fun {e f} h => ?_))
    split <;> split <;> exact h

def TimeStamps.empty : TimeStamps := ⟨[], List.Pairwise.nil⟩

/-- The loop of `FlushOpTimeStamp` over the entries of one operation, and what it does
behind the loop (PAL2.cc:616–635). -/
def sumTimeStamps (start_tick end_tick OpBusyTime : Nat) : List (Nat × Nat) → Nat
  | [] => tickAdd OpBusyTime (tickAdd (tickSub end_tick start_tick) 1)
  | e :: rest =>
    if start_tick = maxTick ∧ end_tick = maxTick then sumTimeStamps e.1 e.2 OpBusyTime rest
    else if e.1 < end_tick ∧ e.2 ≤ end_tick then
      sumTimeStamps start_tick end_tick OpBusyTime rest
    else if e.1 < end_tick ∧ end_tick < e.2 then sumTimeStamps start_tick e.2 OpBusyTime rest
    else sumTimeStamps e.1 e.2
      (tickAdd OpBusyTime (tickAdd (tickSub end_tick start_tick) 1)) rest

/-- The time stamps and the busy times of the operations. -/
structure OpTimes where
  OpTimeStamp : Operation → TimeStamps
  OpBusyTime : Operation → Nat

namespace OpTimes

variable (s : OpTimes)

def record (oper : Operation) (startTick endTick : Nat) : OpTimes :=
  let stamps := (s.OpTimeStamp oper).record startTick endTick
  { s with OpTimeStamp := Function.update s.OpTimeStamp oper stamps }

/-- `FlushOpTimeStamp` (PAL2.cc:611–637). -/
def flushOpTimeStamp : OpTimes where
  OpTimeStamp _ := .empty
  OpBusyTime oper := sumTimeStamps maxTick maxTick (s.OpBusyTime oper) (s.OpTimeStamp oper).entries

end OpTimes

/-! ### Commands -/

/-- What `PAL2` records of its commands. -/
structure Busy where
  MergedTimeSlots : List TimeSlot
  times : OpTimes

def Busy.start : Busy := ⟨[], ⟨fun _ => .empty, fun _ => 0⟩⟩

/-- What `TimelineScheduling` records of a command (PAL2.cc:399–572). -/
def Busy.record (s : Busy) (oper : Operation) (schedule : Schedule) : Except Fault Busy := do
  let MergedTimeSlots ← mergeTimeSlot s.MergedTimeSlots schedule.tsMEM
  .ok ⟨MergedTimeSlots,
    (s.times.record oper schedule.tsDMA0.StartTick schedule.tsDMA1.EndTick).flushOpTimeStamp⟩

/-- `PAL2` with the commands and their schedules so far, the last one first, and with what
it has recorded of them. -/
structure Recorder where
  pal : PAL2
  log : List (Command × Schedule)
  busy : Busy

def Recorder.start (flash : Flash) : Recorder := ⟨flash.start, [], .start⟩

/-- `submit` (PAL2.cc:590–592). -/
def Recorder.submit (flash : Flash) (s : Recorder) (cmd : Command) : Except Fault Recorder := do
  let (schedule, pal) ← s.pal.timelineScheduling flash cmd
  let busy ← s.busy.record cmd.operation schedule
  .ok ⟨pal, (cmd, schedule) :: s.log, busy⟩

/-! ### One merged slot -/

section Merge

variable {slots : List TimeSlot} {ts cur : TimeSlot}

/-- The first and the last tick of a slot. -/
def TimeSlot.interval (ts : TimeSlot) : Nat × Nat := (ts.StartTick, ts.EndTick)

/-- A slot of 64-bit ticks that is not empty. -/
structure TimeSlot.Nonempty (ts : TimeSlot) : Prop where
  le : ts.StartTick ≤ ts.EndTick
  word : ts.EndTick < 2 ^ 64

theorem TimeSlot.Nonempty.copy_eq (h : ts.Nonempty) :
    TimeSlot.new ts.StartTick (tickAdd (tickSub ts.EndTick ts.StartTick) 1) = ts := by
  obtain ⟨startTick, endTick⟩ := ts
  obtain ⟨hle, hword⟩ := h
  have hend : tickSub (tickAdd startTick (tickAdd (tickSub endTick startTick) 1)) 1 = endTick := by
    dsimp only at hle hword
    simp only [tickAdd, tickSub]
    omega
  rw [TimeSlot.new, hend]

theorem mergeTimeSlot_nil (h : ts.Nonempty) : mergeTimeSlot [] ts = .ok [ts] := by
  rw [mergeTimeSlot, if_pos rfl, h.copy_eq]

/-- What the merge makes of a single slot. -/
def mergedWith (cur ts : TimeSlot) : TimeSlot :=
  if cur.StartTick ≤ ts.StartTick ∧ ts.StartTick ≤ cur.EndTick then
    if cur.StartTick ≤ ts.EndTick ∧ ts.EndTick ≤ cur.EndTick then cur else ts
  else ⟨cur.StartTick, ts.EndTick⟩

/-- A single slot stays single. -/
theorem mergeTimeSlot_single (h : ts.Nonempty) :
    mergeTimeSlot [cur] ts = .ok [mergedWith cur ts] := by
  have hcopy := h.copy_eq
  rw [mergeTimeSlot, mergedWith, hcopy]
  by_cases hs : cur.StartTick ≤ ts.StartTick ∧ ts.StartTick ≤ cur.EndTick <;>
    by_cases he : cur.StartTick ≤ ts.EndTick ∧ ts.EndTick ≤ cur.EndTick
  · simp [findPosition, hs, he]
  · simp [findPosition, hs, he, closeSlot, TimeSlot.new]
  · simp [findPosition, hs, he, closeSlot]
  · simp [findPosition, hs, he, closeSlot]

/-- The slot lies in the kept one, begins with it or begins right behind it. -/
def Extends (slots : List TimeSlot) (ts : TimeSlot) : Prop :=
  ∀ cur ∈ slots, (cur.StartTick ≤ ts.StartTick ∧ ts.EndTick ≤ cur.EndTick) ∨
    ts.StartTick = cur.StartTick ∨ ts.StartTick = cur.EndTick + 1

/-- Only then do the ticks of the merged slot belong to one of the two. -/
theorem mergedWith_exact_iff (h : ts.Nonempty) (hcur : cur.StartTick ≤ cur.EndTick) :
    ((mergedWith cur ts).StartTick ≤ (mergedWith cur ts).EndTick ∧
      span (mergedWith cur ts).interval = span ts.interval ∪ span cur.interval) ↔
    Extends [cur] ts := by
  obtain ⟨hle, -⟩ := h
  rw [Extends, List.forall_mem_singleton]
  have hunion : ∀ m : TimeSlot, span m.interval = span ts.interval ∪ span cur.interval ↔
      ∀ x, (m.StartTick ≤ x ∧ x ≤ m.EndTick) ↔ (ts.StartTick ≤ x ∧ x ≤ ts.EndTick) ∨
        (cur.StartTick ≤ x ∧ x ≤ cur.EndTick) := by
    intro m
    simp only [Finset.ext_iff, Finset.mem_union, mem_span, TimeSlot.interval]
  rw [hunion, mergedWith]
  by_cases hs : cur.StartTick ≤ ts.StartTick ∧ ts.StartTick ≤ cur.EndTick
  · rw [if_pos hs]
    by_cases he : cur.StartTick ≤ ts.EndTick ∧ ts.EndTick ≤ cur.EndTick
    · rw [if_pos he]
      exact ⟨fun _ => .inl ⟨hs.1, he.2⟩, fun _ => ⟨hcur, fun x => by omega⟩⟩
    · rw [if_neg he]
      -- the first tick of the kept slot is lost, unless both have it
      refine ⟨fun ⟨_, hx⟩ => ?_, fun hext => ⟨hle, fun x => by omega⟩⟩
      have := hx cur.StartTick
      omega
  · rw [if_neg hs]
    dsimp only
    constructor
    · rintro ⟨hm, hx⟩
      -- the first tick is lost in front of the kept slot, and behind it a tick between is added
      have hfirst := hx ts.StartTick
      have hnext := hx (cur.EndTick + 1)
      omega
    · intro hext
      exact ⟨by omega, fun x => by omega⟩

theorem mergedWith_word (h : ts.Nonempty) (hcur : cur.EndTick < 2 ^ 64) :
    (mergedWith cur ts).EndTick < 2 ^ 64 := by
  have := h.word
  rw [mergedWith]
  split
  · split
    · exact hcur
    · exact this
  · exact this

/-- A flush erases the slots in front that have ended, and adds up their lengths. -/
theorem flushATimeSlotBusyTime_eq (currentTick : Nat) {TimeSum : Nat} (hsum : TimeSum < 2 ^ 64)
    (hslots : ∀ ts ∈ slots, ts.StartTick ≤ ts.EndTick ∧ ts.EndTick < 2 ^ 64) :
    flushATimeSlotBusyTime currentTick slots TimeSum =
      (slots.dropWhile fun ts => ts.EndTick < currentTick,
        (TimeSum + (((slots.takeWhile fun ts => ts.EndTick < currentTick).map
          TimeSlot.interval).map fun e => e.2 + 1 - e.1).sum) % 2 ^ 64) := by
  have hmod := Nat.mod_eq_of_lt hsum
  induction slots generalizing TimeSum with
  | nil => rw [flushATimeSlotBusyTime, List.takeWhile_nil, List.dropWhile_nil, List.map_nil,
      List.map_nil, List.sum_nil, Nat.add_zero, hmod]
  | cons cur rest ih =>
    obtain ⟨⟨hle, hword⟩, hrest⟩ := List.forall_mem_cons.mp hslots
    rw [flushATimeSlotBusyTime]
    split
    · next hended =>
      have hnew : tickAdd TimeSum (tickAdd (tickSub cur.EndTick cur.StartTick) 1) < 2 ^ 64 :=
        Nat.mod_lt _ (by decide)
      rw [ih hnew hrest (Nat.mod_eq_of_lt hnew), List.dropWhile_cons_of_pos (by simpa using hended),
        List.takeWhile_cons_of_pos (by simpa using hended)]
      congr 1
      simp only [List.map_cons, List.sum_cons, TimeSlot.interval, tickAdd, tickSub]
      omega
    · next hlate =>
      rw [List.dropWhile_cons_of_neg (by simpa using hlate),
        List.takeWhile_cons_of_neg (by simpa using hlate), List.map_nil, List.map_nil,
        List.sum_nil, Nat.add_zero, hmod]

end Merge

/-! ### The exact busy time -/

/-- The last tick of a slot is computed from its duration. -/
theorem assign_word (ch die : Resource) (lat : Latencies) (plan : Plan) :
    (assign ch die lat plan).All fun r => r.1.2.1.EndTick < 2 ^ 64 := by
  unfold assign
  refine Except.All.bind (Q := fun _ => True) (.of_forall fun _ => trivial) fun ch _ => ?_
  refine Except.All.bind (Q := fun _ => True) (.of_forall fun _ => trivial) fun ch _ => ?_
  refine Except.All.bind (Q := fun _ => True) (.of_forall fun _ => trivial) fun die _ => ?_
  have hword : ∀ startTick, (TimeSlot.new startTick plan.totalLat).EndTick < 2 ^ 64 :=
    fun _ => Nat.mod_lt _ (by decide)
  -- whether a slot is cut out for a later command does not matter
  dsimp only
  generalize tickAdd (if plan.tickDMA0 < plan.DMA0tickFrom then plan.DMA0tickFrom
    else plan.tickDMA0) lat.latDMA0 = tmpTick
  generalize ch.search (tickAdd lat.latANTI lat.latANTI) tmpTick = found
  rcases Decidable.em (found.1 = tmpTick) with h | h
  · rw [if_pos h]
    exact Except.All.bind (Q := fun _ => True) (.of_forall fun _ => trivial) fun _ _ => hword _
  · rw [if_neg h]
    exact hword _

theorem tsMEM_word {flash : Flash} {s s' : PAL2} {cmd : Command} {schedule : Schedule}
    (h : s.timelineScheduling flash cmd = .ok (schedule, s')) :
    schedule.tsMEM.EndTick < 2 ^ 64 := by
  rw [PAL2.timelineScheduling] at h
  split at h
  · cases h
  · obtain ⟨plan, -, h⟩ := Except.bind_eq_ok.mp h
    obtain ⟨r, hassign, hr⟩ := Except.bind_eq_ok.mp h
    cases hr
    exact (assign_word _ _ _ plan).of_ok hassign

namespace Recorder

variable {flash : Flash} {s s' : Recorder} {cmd : Command} {schedule : Schedule}

/-- The intervals of the memory operations so far. -/
def memIntervals (s : Recorder) : List (Nat × Nat) :=
  s.log.map fun entry => entry.2.tsMEM.interval

/-- The merged slots are in order and apart, they have the ticks of the memory operations, and
what a flush adds is the number of the ticks of the slots that it erases. -/
structure ExactBusyTime (s : Recorder) : Prop where
  apart : Apart (s.busy.MergedTimeSlots.map TimeSlot.interval)
  nonempty : ∀ ts ∈ s.busy.MergedTimeSlots, ts.StartTick ≤ ts.EndTick
  union : cover (s.busy.MergedTimeSlots.map TimeSlot.interval) = cover s.memIntervals
  flush : ∀ currentTick, ∀ TimeSum < 2 ^ 64,
    flushATimeSlotBusyTime currentTick s.busy.MergedTimeSlots TimeSum =
      (s.busy.MergedTimeSlots.dropWhile fun ts => ts.EndTick < currentTick,
        (TimeSum + (cover ((s.busy.MergedTimeSlots.takeWhile fun ts =>
          ts.EndTick < currentTick).map TimeSlot.interval)).card) % 2 ^ 64)

/-- The slot of the memory operation that is scheduled next begins with the merged slot, lies
in it or begins right behind it. -/
def ExtendsBusy (flash : Flash) (s : Recorder) (cmd : Command) : Prop :=
  (s.pal.timelineScheduling flash cmd).All fun r => Extends s.busy.MergedTimeSlots r.1.tsMEM

/-- What every run keeps: no more than one slot is merged. -/
structure Recorded (s : Recorder) : Prop where
  accounts : PAL2.Accounts (s.pal, s.log)
  single : (s.busy.MergedTimeSlots = [] ∧ s.log = []) ∨
    ∃ cur, s.busy.MergedTimeSlots = [cur] ∧ cur.EndTick < 2 ^ 64

theorem exact_start : ExactBusyTime (.start flash) where
  apart := List.Pairwise.nil
  nonempty _ h := by cases h
  union := rfl
  flush currentTick TimeSum hsum := flushATimeSlotBusyTime_eq currentTick hsum fun _ h => by cases h

theorem recorded_start : Recorded (.start flash) where
  accounts := PAL2.Accounts.start
  single := .inl ⟨rfl, rfl⟩

/-- A single slot is exact when it is not empty and has the ticks of the memory operations. -/
theorem exactBusyTime_single {cur : TimeSlot} (hslots : s.busy.MergedTimeSlots = [cur])
    (hword : cur.EndTick < 2 ^ 64) :
    s.ExactBusyTime ↔ cur.StartTick ≤ cur.EndTick ∧ span cur.interval = cover s.memIntervals := by
  constructor
  · rintro ⟨-, hnonempty, hunion, -⟩
    rw [hslots] at hnonempty hunion
    refine ⟨hnonempty cur List.mem_cons_self, ?_⟩
    rw [← hunion, List.map_singleton, cover, cover, Finset.union_empty]
  · rintro ⟨hle, hunion⟩
    have happart : Apart ([cur].map TimeSlot.interval) := List.pairwise_singleton _ _
    refine ⟨?_, ?_, ?_, fun currentTick TimeSum hsum => ?_⟩
    · rwa [hslots]
    · rw [hslots]
      exact List.forall_mem_singleton.mpr hle
    · rw [hslots, ← hunion, List.map_singleton, cover, cover, Finset.union_empty]
    · rw [hslots, flushATimeSlotBusyTime_eq currentTick hsum
        (List.forall_mem_singleton.mpr ⟨hle, hword⟩), sum_lengths]
      exact happart.sublist ((List.takeWhile_sublist _).map _)

/-- A command that fits has a slot for its memory operation. -/
theorem tsMEM_nonempty {pal : PAL2} (hserves : PAL2.Serves flash s.pal cmd schedule pal)
    (hfits : s.pal.Fits flash cmd)
    (hcall : s.pal.timelineScheduling flash cmd = .ok (schedule, pal)) :
    schedule.tsMEM.Nonempty where
  le := by
    have := hserves.timed.mem
    have := hfits.dma0
    omega
  word := tsMEM_word hcall

/-- A call leaves a single slot, which is exact if the slot of the call extends the old one. -/
theorem submit_spec (hs : s.Recorded) (hfits : s.pal.Fits flash cmd) :
    ∃ s', s.submit flash cmd = .ok s' ∧ s'.Recorded ∧
      (s.ExactBusyTime → (s'.ExactBusyTime ↔ s.ExtendsBusy flash cmd)) := by
  obtain ⟨schedule, pal, hcall, hserves⟩ :=
    PAL2.timelineScheduling_spec hs.accounts.valid hfits
  have hts : schedule.tsMEM.Nonempty := tsMEM_nonempty hserves hfits hcall
  have haccounts := hs.accounts.submit hserves
  have hextends : s.ExtendsBusy flash cmd ↔ Extends s.busy.MergedTimeSlots schedule.tsMEM := by
    rw [ExtendsBusy, hcall]
    rfl
  rw [submit, hcall, Except.ok_bind, hextends]
  dsimp only
  obtain ⟨hslots, hlog⟩ | ⟨cur, hslots, hcur⟩ := hs.single
  · rw [Busy.record, hslots, mergeTimeSlot_nil hts]
    refine ⟨_, rfl, ⟨haccounts, .inr ⟨_, rfl, hts.word⟩⟩, fun _ => ?_⟩
    rw [exactBusyTime_single rfl hts.word]
    refine iff_of_true ⟨hts.le, ?_⟩ (by simp [Extends])
    rw [memIntervals, hlog, List.map_cons, List.map_nil, cover, cover, Finset.union_empty]
  · rw [Busy.record, hslots, mergeTimeSlot_single hts]
    have hword := mergedWith_word hts hcur
    refine ⟨_, rfl, ⟨haccounts, .inr ⟨_, rfl, hword⟩⟩, fun hexact => ?_⟩
    obtain ⟨hle, hunion⟩ := (exactBusyTime_single hslots hcur).mp hexact
    rw [exactBusyTime_single rfl hword, ← mergedWith_exact_iff hts hle, hunion]
    rfl

/-- Over every run the merged slots are exact after each call exactly when the slot of each
call extends them. -/
theorem merged_exact_iff (flash : Flash) (cmds : List Command)
    (hfits : Run.Along (submit flash) (fun s cmd => s.pal.Fits flash cmd) (.start flash) cmds) :
    (∃ s, cmds.foldlM (submit flash) (.start flash) = .ok s) ∧
      (Run.Along (submit flash) (fun s cmd => (s.submit flash cmd).All ExactBusyTime)
          (.start flash) cmds ↔
        Run.Along (submit flash) (ExtendsBusy flash) (.start flash) cmds) := by
  have hstep : ∀ (s : Recorder) (cmd : Command), s.Recorded → s.pal.Fits flash cmd →
      (s.submit flash cmd).Sat Recorded fun _ => False := by
    intro s cmd hs hfits
    obtain ⟨s', hcall, hs', -⟩ := submit_spec hs hfits
    rw [hcall]
    exact hs'
  constructor
  · obtain ⟨s, hrun, -⟩ := (hfits.sat hstep recorded_start).exists_ok
    exact ⟨s, hrun⟩
  · refine hfits.iff (I := fun s => s.Recorded ∧ s.ExactBusyTime) ⟨recorded_start, exact_start⟩
      (fun s cmd hs hfits htime => ?_) fun s cmd hs hfits => ?_
    · obtain ⟨s', hcall, hs', -⟩ := submit_spec hs.1 hfits
      rw [hcall] at htime ⊢
      exact ⟨hs', htime⟩
    · obtain ⟨s', hcall, -, hexact⟩ := submit_spec hs.1 hfits
      rw [hcall]
      exact hexact hs.2

theorem merged_exact_fourDies :
    (∃ s, [Command.onDie 0 .read 0 0, .onDie 0 .read 0 0, .onDie 1000000000 .write 1 6].foldlM
        (submit fourDies) (.start fourDies) = .ok s) ∧
      (Run.Along (submit fourDies) (fun s cmd => (s.submit fourDies cmd).All ExactBusyTime)
          (.start fourDies)
          [.onDie 0 .read 0 0, .onDie 0 .read 0 0, .onDie 1000000000 .write 1 6] ↔
        Run.Along (submit fourDies) (ExtendsBusy fourDies) (.start fourDies)
          [.onDie 0 .read 0 0, .onDie 0 .read 0 0, .onDie 1000000000 .write 1 6]) :=
  merged_exact_iff fourDies _ (by decide +kernel)

/-- Between two reads of a die there is a second in which it is idle, and the merged slot has
it. Of two reads of different dies that overlap, the merged slot lacks the first tick. -/
theorem merged_not_exact :
    (∃ s, [Command.onDie 0 .read 0 0, .onDie 1000000000 .read 0 0].foldlM (submit fourDies)
        (.start fourDies) = .ok s ∧ ¬ s.ExactBusyTime) ∧
      ∃ s, [Command.onDie 0 .read 0 0, .onDie 0 .read 1 0].foldlM (submit fourDies)
        (.start fourDies) = .ok s ∧ ¬ s.ExactBusyTime := by
  constructor
  · obtain ⟨s, hrun, hslots, hlog⟩ := Except.exists_of_map
      (x := [Command.onDie 0 .read 0 0, .onDie 1000000000 .read 0 0].foldlM (submit fourDies)
        (.start fourDies))
      (p := fun s => s.busy.MergedTimeSlots = [⟨0, 1097591937⟩] ∧
        s.memIntervals = [(1000000000, 1097591937), (0, 97591937)])
      (by decide +kernel)
    refine ⟨s, hrun, fun h => ?_⟩
    have hx : 500000000 ∈ cover s.memIntervals := by
      rw [← h.union, hslots]
      exact mem_cover.mpr ⟨_, List.mem_cons_self, by decide, by decide⟩
    rw [hlog, mem_cover] at hx
    simp at hx
  · obtain ⟨s, hrun, hslots, hlog⟩ := Except.exists_of_map
      (x := [Command.onDie 0 .read 0 0, .onDie 0 .read 1 0].foldlM (submit fourDies)
        (.start fourDies))
      (p := fun s => s.busy.MergedTimeSlots = [⟨67431, 137116444⟩] ∧
        s.memIntervals = [(67431, 137116444), (0, 97591937)])
      (by decide +kernel)
    refine ⟨s, hrun, fun h => ?_⟩
    have hx : 0 ∈ cover (s.busy.MergedTimeSlots.map TimeSlot.interval) := by
      rw [h.union, hlog]
      exact mem_cover.mpr ⟨(0, 97591937), by simp, by decide, by decide⟩
    rw [hslots, mem_cover] at hx
    simp [TimeSlot.interval] at hx

end Recorder

/-! ### The busy times of the operations -/

section Sweep

variable {l : List (Nat × Nat)} {busy : Nat}

/-- The ticks of a running interval are added. -/
theorem tickAdd_length {s r : Nat} (hrun : s ≤ r + 1) :
    tickAdd busy (tickAdd (tickSub r s) 1) = (busy + (r + 1 - s)) % 2 ^ 64 := by
  simp only [tickAdd, tickSub]
  omega

/-- The loop is the sweep. -/
theorem sumTimeStamps_eq {s r : Nat} (hrun : s ≤ r + 1) (hr : r < 2 ^ 64)
    (hs : ∀ e ∈ l, s < e.1) (hl : Ordered l) (hproper : ∀ e ∈ l, Proper e)
    (hword : ∀ e ∈ l, e.1 < 2 ^ 64 ∧ e.2 < 2 ^ 64) :
    sumTimeStamps s r busy l = (busy + sweep s r l) % 2 ^ 64 := by
  induction l generalizing s r busy with
  | nil => exact tickAdd_length hrun
  | cons e l ih =>
    obtain ⟨he, htail⟩ := List.pairwise_cons.mp hl
    obtain ⟨hse, hstail⟩ := List.forall_mem_cons.mp hs
    obtain ⟨hpe, hptail⟩ := List.forall_mem_cons.mp hproper
    obtain ⟨hwe, hwtail⟩ := List.forall_mem_cons.mp hword
    have hlater : ∀ f ∈ l, s < f.1 := hstail
    -- the running interval is not the pair that stands for none
    have hnot : ¬ (s = maxTick ∧ r = maxTick) := by
      rw [maxTick]
      omega
    rw [sumTimeStamps, if_neg hnot, sweep]
    by_cases hlt : e.1 < r
    · rw [if_pos hlt]
      by_cases hinside : e.2 ≤ r
      · rw [if_pos ⟨hlt, hinside⟩, max_eq_left hinside]
        exact ih hrun hr hlater htail hptail hwtail
      · have hbehind := Nat.not_le.mp hinside
        rw [if_neg fun h => hinside h.2, if_pos ⟨hlt, hbehind⟩, max_eq_right hbehind.le]
        exact ih (by omega) hwe.2 hlater htail hptail hwtail
    · rw [if_neg hlt, if_neg fun h => hlt h.1, if_neg fun h => hlt h.1,
        ih hpe hwe.2 he htail hptail hwtail, tickAdd_length hrun]
      omega

/-- The loop and what stands behind it, for at least one interval. -/
theorem sumTimeStamps_cons {e : Nat × Nat} (hl : Ordered (e :: l))
    (hproper : ∀ f ∈ e :: l, Proper f) (hword : ∀ f ∈ e :: l, f.1 < 2 ^ 64 ∧ f.2 < 2 ^ 64) :
    sumTimeStamps maxTick maxTick busy (e :: l) =
      (busy + (cover (e :: l)).card + shared e.2 l) % 2 ^ 64 := by
  obtain ⟨he, htail⟩ := List.pairwise_cons.mp hl
  obtain ⟨hpe, hptail⟩ := List.forall_mem_cons.mp hproper
  obtain ⟨hwe, hwtail⟩ := List.forall_mem_cons.mp hword
  rw [sumTimeStamps, if_pos ⟨rfl, rfl⟩, sumTimeStamps_eq hpe hwe.2 he htail hptail hwtail,
    sweep_eq hpe he htail hptail, Nat.add_assoc]
  rfl

/-- An operation without an interval is busy for a tick. -/
theorem sumTimeStamps_nil : sumTimeStamps maxTick maxTick busy [] = (busy + 1) % 2 ^ 64 := by
  rw [sumTimeStamps, tickAdd_length (Nat.le_succ _)]
  rfl

/-- There are no more intervals than ticks at which they begin. -/
theorem length_le_of_ordered (hl : Ordered l) (hword : ∀ e ∈ l, e.1 < 2 ^ 64) :
    l.length ≤ 2 ^ 64 := by
  have hnodup : (l.map Prod.fst).Nodup := List.pairwise_map.mpr (hl.imp fun h => h.ne)
  have hsub : (l.map Prod.fst).toFinset ⊆ Finset.range (2 ^ 64) := by
    intro x hx
    obtain ⟨e, he, rfl⟩ := List.mem_map.mp (List.mem_toFinset.mp hx)
    exact Finset.mem_range.mpr (hword e he)
  have hcard := Finset.card_le_card hsub
  rwa [List.toFinset_card_of_nodup hnodup, List.length_map, Finset.card_range] at hcard

/-- The sum is the measure of the union iff there is an interval and no tick is shared. -/
theorem sumTimeStamps_exact_iff (busy : Nat) (hl : Ordered l) (hproper : ∀ e ∈ l, Proper e)
    (hword : ∀ e ∈ l, e.1 < 2 ^ 64 ∧ e.2 < 2 ^ 64) :
    sumTimeStamps maxTick maxTick busy l = (busy + (cover l).card) % 2 ^ 64 ↔
      l ≠ [] ∧ ¬ EndsBegin l := by
  cases l with
  | nil =>
    rw [sumTimeStamps_nil]
    refine iff_of_false ?_ (fun h => h.1 rfl)
    rw [cover, Finset.card_empty]
    omega
  | cons e l =>
    have hshared := shared_le_length e.2 l
    have hlength := length_le_of_ordered hl fun f hf => (hword f hf).1
    rw [List.length_cons] at hlength
    rw [sumTimeStamps_cons hl hproper hword, ← ends_begin_iff hl]
    constructor
    · intro heq
      exact ⟨List.cons_ne_nil e l, by omega⟩
    · rintro ⟨-, hzero⟩
      rw [hzero, Nat.add_zero]

end Sweep

namespace OpTimes

variable (s : OpTimes)

/-- The maps are replaced. -/
def load (stamps : Operation → TimeStamps) : OpTimes := { s with OpTimeStamp := stamps }

/-- The ticks have 64 bits, and no interval ends more than a tick before it begins. -/
structure WellFormed (s : OpTimes) : Prop where
  proper : ∀ oper, ∀ e ∈ (s.OpTimeStamp oper).entries, Proper e
  word : ∀ oper, ∀ e ∈ (s.OpTimeStamp oper).entries, e.1 < 2 ^ 64 ∧ e.2 < 2 ^ 64

/-- The flush adds to each operation the measure of the union of its intervals, which is 0 if
it has none, and empties the maps. -/
structure ExactFlush (s : OpTimes) : Prop where
  busy : ∀ oper, s.flushOpTimeStamp.OpBusyTime oper =
    (s.OpBusyTime oper + (cover (s.OpTimeStamp oper).entries).card) % 2 ^ 64
  emptied : ∀ oper, (s.flushOpTimeStamp.OpTimeStamp oper).entries = []

/-- Each operation has an interval, and no tick at which the intervals that begin earlier end
begins a nonempty one. -/
def NoneTouches (s : OpTimes) : Prop :=
  ∀ oper, (s.OpTimeStamp oper).entries ≠ [] ∧ ¬ EndsBegin (s.OpTimeStamp oper).entries

variable {s}

theorem exactFlush_iff (hs : s.WellFormed) : s.ExactFlush ↔ s.NoneTouches := by
  have hoper := fun oper => sumTimeStamps_exact_iff (s.OpBusyTime oper)
    (s.OpTimeStamp oper).ordered (hs.proper oper) (hs.word oper)
  exact ⟨fun h oper => (hoper oper).mp (h.busy oper),
    fun h => ⟨fun oper => (hoper oper).mpr (h oper), fun _ => rfl⟩⟩

/-- `joined` has the intervals of `first` and behind them those of `rest`, with a quiescent
point between. -/
structure Splits (joined first rest : Operation → TimeStamps) : Prop where
  entries : ∀ oper, (joined oper).entries = (first oper).entries ++ (rest oper).entries
  quiescent : ∀ oper, ∀ e ∈ (first oper).entries, ∀ f ∈ (rest oper).entries,
    e.1 < f.1 ∧ e.2 < f.1

/-- No interval of one part touches one of the other. -/
theorem Splits.noneTouches {joined first rest : Operation → TimeStamps}
    (h : Splits joined first rest) (hfirst : (s.load first).NoneTouches)
    (hrest : (s.load rest).NoneTouches) : (s.load joined).NoneTouches := by
  intro oper
  obtain ⟨hne, hfirst⟩ := hfirst oper
  obtain ⟨-, hrest⟩ := hrest oper
  have hquiet := h.quiescent oper
  show (joined oper).entries ≠ [] ∧ ¬ EndsBegin (joined oper).entries
  rw [h.entries]
  refine ⟨List.append_ne_nil_of_left_ne_nil hne _, fun ⟨e, he, hle, ⟨f, hf, hlt, hfe⟩, hall⟩ => ?_⟩
  rcases List.mem_append.mp he with he | he
  · rcases List.mem_append.mp hf with hf | hf
    · exact hfirst ⟨e, he, hle, ⟨f, hf, hlt, hfe⟩, fun g hg =>
        hall g (List.mem_append_left _ hg)⟩
    · have := hquiet e he f hf
      omega
  · rcases List.mem_append.mp hf with hf | hf
    · have := hquiet f hf e he
      omega
    · exact hrest ⟨e, he, hle, ⟨f, hf, hlt, hfe⟩, fun g hg =>
        hall g (List.mem_append_right _ hg)⟩

theorem Splits.card {joined first rest : Operation → TimeStamps} (h : Splits joined first rest)
    (oper : Operation) : (cover (joined oper).entries).card =
      (cover (first oper).entries).card + (cover (rest oper).entries).card := by
  rw [h.entries, cover_append]
  refine Finset.card_union_of_disjoint (Finset.disjoint_left.mpr fun x hx hx' => ?_)
  obtain ⟨e, he, -, hle⟩ := mem_cover.mp hx
  obtain ⟨f, hf, hge, -⟩ := mem_cover.mp hx'
  have := h.quiescent oper e he f hf
  omega

theorem Splits.wellFormed {joined first rest : Operation → TimeStamps}
    (h : Splits joined first rest) (hfirst : (s.load first).WellFormed)
    (hrest : (s.load rest).WellFormed) : (s.load joined).WellFormed := by
  refine ⟨fun oper e he => ?_, fun oper e he => ?_⟩ <;>
    rw [show ((s.load joined).OpTimeStamp oper).entries = _ from h.entries oper] at he
  · exact (List.mem_append.mp he).elim (hfirst.proper oper e) (hrest.proper oper e)
  · exact (List.mem_append.mp he).elim (hfirst.word oper e) (hrest.word oper e)

/-- The flush is exact iff every operation has an interval and none touches; then flushing the
parts before and behind a quiescent point comes to the same. -/
theorem flushOpTimeStamp_exact_iff (s : OpTimes) (hs : s.WellFormed) :
    (s.ExactFlush ↔ s.NoneTouches) ∧
      ∀ rest joined, Splits joined s.OpTimeStamp rest → (s.load rest).WellFormed →
        s.NoneTouches → (s.load rest).NoneTouches →
        (s.flushOpTimeStamp.load rest).flushOpTimeStamp.OpBusyTime =
          (s.load joined).flushOpTimeStamp.OpBusyTime := by
  refine ⟨exactFlush_iff hs, fun rest joined hsplit hrest hnone hnoneRest => ?_⟩
  have hjoined := (exactFlush_iff (hsplit.wellFormed hs hrest)).mpr
    (hsplit.noneTouches hnone hnoneRest)
  have hfirst := (exactFlush_iff hs).mpr hnone
  have hsecond := (exactFlush_iff (s := s.flushOpTimeStamp.load rest)
    ⟨hrest.proper, hrest.word⟩).mpr hnoneRest
  funext oper
  rw [hsecond.busy, hjoined.busy]
  show (s.flushOpTimeStamp.OpBusyTime oper + (cover (rest oper).entries).card) % 2 ^ 64 =
    (s.OpBusyTime oper + (cover (joined oper).entries).card) % 2 ^ 64
  rw [hfirst.busy, hsplit.card]
  omega

/-- Intervals of each operation: nested and overlapping ones, and an empty one. -/
def sample (tick : Nat) : OpTimes :=
  ((((Busy.start.times.record .read tick (tick + 10)).record .read (tick + 2) (tick + 7)).record
    .read (tick + 5) (tick + 20)).record .write (tick + 3) (tick + 4)).record .erase (tick + 6)
      (tick + 5)

instance (s : OpTimes) : Decidable s.WellFormed :=
  decidable_of_iff (∀ oper ∈ [Operation.read, .write, .erase],
      ∀ e ∈ (s.OpTimeStamp oper).entries, Proper e ∧ e.1 < 2 ^ 64 ∧ e.2 < 2 ^ 64)
    ⟨fun h => ⟨fun oper e he => (h oper (by cases oper <;> decide) e he).1,
      fun oper e he => (h oper (by cases oper <;> decide) e he).2⟩,
      fun h oper _ e he => ⟨h.proper oper e he, h.word oper e he⟩⟩

theorem flushOpTimeStamp_exact_sample :
    ((sample 0).ExactFlush ↔ (sample 0).NoneTouches) ∧
      ∀ rest joined, Splits joined (sample 0).OpTimeStamp rest →
        ((sample 0).load rest).WellFormed →
        (sample 0).NoneTouches → ((sample 0).load rest).NoneTouches →
        ((sample 0).flushOpTimeStamp.load rest).flushOpTimeStamp.OpBusyTime =
          ((sample 0).load joined).flushOpTimeStamp.OpBusyTime :=
  flushOpTimeStamp_exact_iff (sample 0) (by decide)

/-- A read makes the other operations busy for a tick each. And of two reads the second of
which begins with the last tick of the first, that tick counts twice. -/
theorem flushOpTimeStamp_not_exact :
    (¬ (Busy.start.times.record .read 0 9).ExactFlush ∧
      (Busy.start.times.record .read 0 9).flushOpTimeStamp.OpBusyTime .write = 1) ∧
    ¬ ((((Busy.start.times.record .read 0 5).record .read 5 9).record .write 0 5).record
      .erase 0 5).ExactFlush :=
  ⟨⟨fun h => absurd (h.busy .write) (by decide), by decide⟩,
    fun h => absurd (h.busy .read) (by decide)⟩

end OpTimes

end SimpleSSD.PAL
