import SimpleSSD.Lib.Ledger
import SimpleSSD.PAL.Scheduling

/-!
# Runs of the scheduler

What a run reserves on a channel or a die is a ledger: the free ticks of the resource and
the time slots handed out so far. Every call takes its slots out of the free ticks, and
the periodic flush only forgets free slots, so no tick is reserved twice. The phases of a
command are in order as well, except that the die may be released before the second
transfer ends: the rest of a slot behind the first transfer is forgotten when it is
shorter than every bucket, and the second transfer is then searched for again.
-/

namespace SimpleSSD.PAL

variable {flash : Flash}

/-- The time slots that a log reserves on channel `c`. -/
def channelSlots (log : List (Command × Schedule)) (c : Nat) : List TimeSlot :=
  log.flatMap fun entry => if entry.2.channel = c then [entry.2.tsDMA1, entry.2.tsDMA0] else []

/-- The time slots that a log reserves on die `d`. -/
def dieSlots (log : List (Command × Schedule)) (d : Nat) : List TimeSlot :=
  log.flatMap fun entry => if entry.2.die = d then [entry.2.tsMEM] else []

/-- A condition on the commands of a run. -/
def Step.Meets (C : PAL2 → Command → Prop) (acc : PAL2 × List (Command × Schedule)) : Step → Prop
  | .submit cmd => C acc.1 cmd
  | .flush _ => True

instance (C : PAL2 → Command → Prop) [∀ s cmd, Decidable (C s cmd)]
    (acc : PAL2 × List (Command × Schedule)) (step : Step) : Decidable (step.Meets C acc) :=
  match step with
  | .submit cmd => inferInstanceAs (Decidable (C acc.1 cmd))
  | .flush _ => .isTrue trivial

/-- The invariant of a run. -/
structure PAL2.Accounts (acc : PAL2 × List (Command × Schedule)) : Prop where
  valid : acc.1.Valid
  channels : ∀ c,
    Ledger.Sound ⟨(acc.1.channels c).free, (channelSlots acc.2 c).map TimeSlot.ticks⟩
  dies : ∀ d, Ledger.Sound ⟨(acc.1.dies d).free, (dieSlots acc.2 d).map TimeSlot.ticks⟩

namespace PAL2.Accounts

variable {s s' : PAL2} {log : List (Command × Schedule)} {cmd : Command} {schedule : Schedule}

theorem start : PAL2.Accounts (flash.start, []) where
  valid := ⟨fun _ => FreeSlots.valid_empty _, fun _ => FreeSlots.valid_empty _⟩
  channels _ := Ledger.Sound.nil
  dies _ := Ledger.Sound.nil

/-- A call takes its time slots out of the free ticks. -/
theorem submit (h : PAL2.Accounts (s, log)) (hserves : PAL2.Serves flash s cmd schedule s') :
    PAL2.Accounts (s', (cmd, schedule) :: log) := by
  refine ⟨hserves.valid, fun c => ?_, fun d => ?_⟩
  · rw [channelSlots, List.flatMap_cons, ← channelSlots]
    dsimp only
    split
    · next heq =>
      rw [← heq]
      have hdma0 := (h.channels schedule.channel).take hserves.dma0Free subset_rfl
      exact hdma0.take hserves.dma1Free hserves.freeCh
    · next hne =>
      rw [hserves.otherCh c (Ne.symm hne)]
      exact h.channels c
  · rw [dieSlots, List.flatMap_cons, ← dieSlots]
    dsimp only
    split
    · next heq =>
      rw [← heq]
      exact (h.dies schedule.die).take hserves.memFree hserves.freeDie
    · next hne =>
      rw [hserves.otherDie d (Ne.symm hne)]
      exact h.dies d

/-- The flush forgets free slots. -/
theorem flush (h : PAL2.Accounts (s, log)) (currentTick : Nat) :
    PAL2.Accounts (s.flushFreeSlots currentTick, log) where
  valid := ⟨fun c => (h.valid.channels c).flushAFreeSlot currentTick,
    fun d => (h.valid.dies d).flushAFreeSlot currentTick⟩
  channels c := (h.channels c).shrink
    (Set.union_subset_union_left _ (FreeSlots.ticks_flushAFreeSlot currentTick))
  dies d := (h.dies d).shrink
    (Set.union_subset_union_left _ (FreeSlots.ticks_flushAFreeSlot currentTick))

end PAL2.Accounts

/-- What a run keeps: the ledgers, and what every call of it guarantees of its schedule. -/
theorem runSteps_spec {C : PAL2 → Command → Prop} {P : Command → Schedule → Prop}
    (hfits : ∀ s cmd, C s cmd → s.Fits flash cmd)
    (hP : ∀ s cmd schedule s', C s cmd → PAL2.Serves flash s cmd schedule s' → P cmd schedule)
    {steps : List Step}
    (hsteps : Run.Along (Step.exec flash) (Step.Meets C) (flash.start, []) steps) :
    ∃ s log, runSteps flash steps = .ok (s, log) ∧ PAL2.Accounts (s, log) ∧
      ∀ entry ∈ log, P entry.1 entry.2 := by
  have hstep : ∀ (acc : PAL2 × List (Command × Schedule)) (step : Step),
      (PAL2.Accounts acc ∧ ∀ entry ∈ acc.2, P entry.1 entry.2) → step.Meets C acc →
      (Step.exec flash acc step).Sat
        (fun acc => PAL2.Accounts acc ∧ ∀ entry ∈ acc.2, P entry.1 entry.2) fun _ => False := by
    rintro ⟨s, log⟩ step ⟨haccounts, hlog⟩ hmeets
    cases step with
    | submit cmd =>
      obtain ⟨schedule, s', hcall, hserves⟩ :=
        PAL2.timelineScheduling_spec haccounts.valid (hfits s cmd hmeets)
      simp only [Step.exec, hcall, Bind.bind, Except.bind]
      refine ⟨haccounts.submit hserves, fun entry hentry => ?_⟩
      rcases List.mem_cons.mp hentry with rfl | hentry
      · exact hP s cmd schedule s' hmeets hserves
      · exact hlog entry hentry
    | flush currentTick => exact ⟨haccounts.flush currentTick, hlog⟩
  obtain ⟨⟨s, log⟩, hrun, haccounts, hlog⟩ :=
    (hsteps.sat hstep ⟨PAL2.Accounts.start, fun _ h => by cases h⟩).exists_ok
  exact ⟨s, log, hrun, haccounts, hlog⟩

/-- A device with four dies on one channel, at a DMA speed of 99 MT/s and with the default
timing of TLC. -/
def fourDies : Flash where
  param := ⟨1, 1, 4, 1, 16, 16, 64, 4096, 4096, 1⟩
  nandType := .tlc
  timing := {
    lsb := ⟨58000000, 558000000⟩
    csb := ⟨0, 0⟩
    msb := ⟨107000000, 5001000000⟩
    dma0 := ⟨67431, 39524508, 48165⟩
    dma1 := ⟨39457076, 9633, 9633⟩
    erase := 2274000000 }
  channelLengths := [100000, 200000, 46250000, 46350000, 1500000]
  dieLengths := [25100000, 300100000, 2000100000]

/-- An operation on a page of block 0 of a die of `fourDies`. -/
def Command.onDie (arrived : Nat) (operation : Operation) (die page : Nat) : Command :=
  ⟨arrived, operation, ⟨0, 0, die, 0, 0, page⟩⟩

/-! ### Exclusivity -/

/-- The free slots of a resource and the time slots reserved on it. -/
structure Resource.Exclusive (r : Resource) (busy : List TimeSlot) : Prop where
  reserved : busy.Pairwise fun ts ts' => Disjoint ts.ticks ts'.ticks
  slots : ∀ k s e k' s' e', r.freeSlots.Slot k s e → r.freeSlots.Slot k' s' e' →
    (k, s, e) ≠ (k', s', e') → Disjoint (Set.Icc s e) (Set.Icc s' e')
  apart : ∀ k s e, r.freeSlots.Slot k s e → ∀ ts ∈ busy, Disjoint (Set.Icc s e) ts.ticks
  below : ∀ k s e, r.freeSlots.Slot k s e → s ≤ e ∧ e < r.startPoint
  ends : ∀ ts ∈ busy, ∀ x ∈ ts.ticks, x < r.startPoint

theorem Resource.Valid.exclusive {r : Resource} {busy : List TimeSlot} (hr : r.Valid)
    (h : Ledger.Sound ⟨r.free, busy.map TimeSlot.ticks⟩) : r.Exclusive busy where
  reserved := List.pairwise_map.mp h.apart
  slots k s e k' s' e' hslot hslot' hne := by
    refine Set.disjoint_left.mpr fun x hx hx' => hne ?_
    obtain ⟨hk, hs, he⟩ := hr.apart hslot hslot' hx.1 hx.2 hx'.1 hx'.2
    rw [hk, hs, he]
  apart k s e hslot ts hts := by
    have hfree := h.notFree ts.ticks (List.mem_map_of_mem hts)
    exact (hfree.mono_right fun x hx => .inl ⟨k, s, e, hslot, hx.1, hx.2⟩).symm
  below k s e hslot := hr.bounds hslot
  ends ts hts x hx := by
    have hfree := h.notFree ts.ticks (List.mem_map_of_mem hts)
    exact Nat.not_le.mp fun hle => Set.disjoint_left.mp hfree hx (.inr hle)

/-- The durations of the slots of a schedule are the latencies of its command. -/
structure Schedule.Lasts (lat : Latencies) (schedule : Schedule) : Prop where
  dma0 : schedule.tsDMA0.EndTick + 1 = schedule.tsDMA0.StartTick + lat.latDMA0
  dma1 : schedule.tsDMA1.EndTick + 1 = schedule.tsDMA1.StartTick + lat.latDMA1
  mem : schedule.tsMEM.StartTick + lat.latDMA0 + lat.latMEM + lat.latDMA1 ≤
    schedule.tsMEM.EndTick + 1

/-- No tick of a channel or a die is reserved twice, in whatever order commands and flushes
come. -/
theorem timeline_exclusive (flash : Flash) (steps : List Step)
    (hsteps : Run.Along (Step.exec flash) (Step.Meets fun s cmd => s.Fits flash cmd)
      (flash.start, []) steps) :
    ∃ s log, runSteps flash steps = .ok (s, log) ∧
      (∀ entry ∈ log, entry.2.Lasts (flash.latencies entry.1)) ∧
      (∀ c, (s.channels c).Exclusive (channelSlots log c)) ∧
      ∀ d, (s.dies d).Exclusive (dieSlots log d) := by
  obtain ⟨s, log, hrun, haccounts, hlog⟩ := runSteps_spec
    (P := fun cmd schedule => schedule.Lasts (flash.latencies cmd)) (fun s cmd h => h)
    (fun s cmd schedule s' _ h => ⟨h.timed.dma0, h.timed.dma1, h.timed.mem⟩) hsteps
  exact ⟨s, log, hrun, hlog, fun c => (haccounts.valid.channels c).exclusive (haccounts.channels c),
    fun d => (haccounts.valid.dies d).exclusive (haccounts.dies d)⟩

theorem timeline_exclusive_fourDies :
    ∃ s log, runSteps fourDies [.submit (.onDie 0 .read 0 0), .submit (.onDie 5 .write 1 6),
        .flush 100000, .submit (.onDie 100 .erase 0 0)] = .ok (s, log) ∧
      (∀ entry ∈ log, entry.2.Lasts (fourDies.latencies entry.1)) ∧
      (∀ c, (s.channels c).Exclusive (channelSlots log c)) ∧
      ∀ d, (s.dies d).Exclusive (dieSlots log d) :=
  timeline_exclusive fourDies _ (by decide +kernel)

/-- The timing of a bus so wide that a command is sent in no time, with pages of 8 bytes. -/
def wideBus : Flash where
  param := ⟨1, 1, 4, 1, 16, 16, 64, 8, 8, 1⟩
  nandType := .tlc
  timing := { fourDies.timing with dma0 := ⟨0, 2, 0⟩, dma1 := ⟨1, 0, 0⟩ }
  channelLengths := [0, 0, 0, 0, 10]
  dieLengths := [25000000, 300000000, 2000000000]

/-- Ticks that wrap around, and a slot of no ticks behind a command that is sent in no time. -/
theorem ticks_reserved_twice :
    (∃ r, runSteps fourDies [.submit (.onDie (2 ^ 64 - 39524508) .write 0 0),
        .submit (.onDie (2 ^ 64 - 39524508) .write 1 0)] = .ok r ∧
      ¬ (channelSlots r.2 0).Pairwise fun ts ts' =>
        ts.EndTick < ts'.StartTick ∨ ts'.EndTick < ts.StartTick) ∧
    ∃ r, runSteps wideBus [.submit (.onDie 0 .write 0 0), .submit (.onDie 100 .write 1 0),
        .submit (.onDie 100 .write 2 0)] = .ok r ∧
      ∃ entry ∈ r.2, ∃ entry' ∈ r.2, entry.2.die = 1 ∧ entry'.2.die = 2 ∧
        entry.2.tsDMA0 = ⟨100, 101⟩ ∧ entry'.2.tsDMA0 = ⟨100, 101⟩ :=
  ⟨Except.exists_of_map (by decide +kernel), Except.exists_of_map (by decide +kernel)⟩

/-! ### Phase order -/

/-- The phases of a command are in order and the die is reserved for all of them. -/
structure Schedule.InOrder (lat : Latencies) (cmd : Command) (schedule : Schedule) : Prop where
  arrived : cmd.arrived ≤ schedule.tsDMA0.StartTick
  behind : schedule.tsDMA0.EndTick + 1 + lat.latMEM ≤ schedule.tsDMA1.StartTick
  begins : schedule.tsMEM.StartTick ≤ schedule.tsDMA0.StartTick
  ends : schedule.tsDMA1.EndTick ≤ schedule.tsMEM.EndTick
  finished : schedule.finished = schedule.tsDMA1.EndTick

/-- The phases are in order as long as no rest of a slot that has room for a whole operation
is forgotten. -/
theorem timeline_inOrder (flash : Flash) (steps : List Step)
    (hsteps : Run.Along (Step.exec flash)
      (Step.Meets fun s cmd => s.Fits flash cmd ∧ s.RestKept flash cmd) (flash.start, []) steps) :
    ∃ s log, runSteps flash steps = .ok (s, log) ∧
      ∀ entry ∈ log, entry.2.InOrder (flash.latencies entry.1) entry.1 := by
  obtain ⟨s, log, hrun, -, hlog⟩ := runSteps_spec
    (P := fun cmd schedule => schedule.InOrder (flash.latencies cmd) cmd) (fun s cmd h => h.1)
    (fun s cmd schedule s' hC h => ⟨h.timed.arrived, h.timed.behind, h.timed.begins.le,
      h.ends hC.2, h.timed.finished⟩) hsteps
  exact ⟨s, log, hrun, hlog⟩

/-- No rest is forgotten behind the transfer of a command whose memory operation is no shorter
than some bucket. -/
theorem PAL2.restKept_of_memory {s : PAL2} {cmd : Command}
    (h : ∃ k ∈ (s.channels cmd.addr.channel).freeSlots.lengths, k ≤ (flash.latencies cmd).latMEM) :
    s.RestKept flash cmd := by
  obtain ⟨k, hk, hle⟩ := h
  intro _ s e tick _ _ _ hroom _
  exact ⟨k, hk, by omega⟩

theorem timeline_inOrder_fourDies :
    ∃ s log, runSteps fourDies [.submit (.onDie 0 .read 0 0), .submit (.onDie 5 .write 1 0),
        .flush 100000, .submit (.onDie 100 .erase 0 0)] = .ok (s, log) ∧
      ∀ entry ∈ log, entry.2.InOrder (fourDies.latencies entry.1) entry.1 :=
  timeline_inOrder fourDies _ (Run.Along.mono
    (P := Step.Meets fun s cmd => s.Fits fourDies cmd ∧
      ∃ k ∈ (s.channels cmd.addr.channel).freeSlots.lengths, k ≤ (fourDies.latencies cmd).latMEM)
    (fun acc step h => by
      cases step with
      | submit cmd => exact ⟨h.1, PAL2.restKept_of_memory h.2⟩
      | flush currentTick => trivial) (by decide +kernel))

/-- Behind the first transfer of a write to a page without memory time, in the gap that a read
has left: the rest of the gap is forgotten, and the die is free before the second transfer. -/
theorem die_released_early :
    ∃ r, runSteps fourDies [.submit (.onDie 0 .read 0 0), .submit (.onDie 18533290 .write 1 6)] =
        .ok r ∧
      ∃ entry ∈ r.2, entry.2.tsMEM.EndTick < entry.2.tsDMA1.StartTick :=
  Except.exists_of_map (by decide +kernel)

end SimpleSSD.PAL
