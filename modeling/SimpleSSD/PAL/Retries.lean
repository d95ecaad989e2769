import SimpleSSD.PAL.Timeline

/-!
# The retry loops of `TimelineScheduling` (PAL2.cc:231–327)

`retry1` and `retry0` are the candidate tick with which `LOOP1` and `LOOP0` begin their next
round, when they do not leave.

- `LOOP1` ends whatever the slots are: a search never goes back, and a round that does not
  move leaves the loop.
- `LOOP0` goes on with the first tick of a slot of the die. Where no tick wraps around and
  sending a command takes time this is a later tick, since room for the whole operation
  would be room for its first part in the same slot.
- The candidates never pass the arrival tick and the start points, behind which the channel
  and the die are free.
-/

namespace SimpleSSD.PAL

/-! ### Rounds -/

section Rounds

variable (ch die : Resource) (lat : Latencies)

/-- Where `LOOP1` goes on after the round from `DMA0tickFrom`, unless it leaves. -/
def retry1 (DMA0tickFrom : Nat) : Option Nat :=
  let found0 := ch.search lat.latDMA0 DMA0tickFrom
  let foundM := die.search (tickAdd lat.latDMA0 lat.latMEM) found0.1
  if foundM.2 = found0.2 then none
  else if (ch.search lat.latDMA0 foundM.1).2 = found0.2 then none
  else some foundM.1

/-- Where `LOOP0` goes on after the round from `DMA0tickFrom`, unless it leaves. -/
def retry0 (DMA0tickFrom : Nat) : Option Nat :=
  match loop1 ch die lat (2 ^ 64) DMA0tickFrom with
  | .error _ => none
  | .ok found =>
    let found1 := ch.search (tickAdd lat.latDMA1 lat.latANTI)
      (tickAdd found.1 (tickAdd lat.latDMA0 lat.latMEM))
    let totalLat := tickSub (tickAdd (tickAdd found1.1 lat.latDMA1) lat.latANTI) found.1
    let tickMEM_vrfy := (die.search totalLat found.1).2
    if tickMEM_vrfy = found.2.2 then none else some tickMEM_vrfy

variable {ch die lat} {t t' : Nat}

/-- A round of `LOOP1` is one of its retries. -/
theorem loop1_retry (rounds : Nat) (h : retry1 ch die lat t = some t') :
    loop1 ch die lat (rounds + 1) t = loop1 ch die lat rounds t' := by
  unfold retry1 at h
  rw [loop1]
  dsimp only at h ⊢
  split at h
  · cases h
  · next hne =>
    split at h
    · cases h
    · next hne' =>
      cases h
      rw [if_neg hne, if_neg hne']

/-- A round of `LOOP1` without a retry is the last. -/
theorem loop1_leaves (rounds : Nat) (h : retry1 ch die lat t = none) :
    ∃ found, loop1 ch die lat (rounds + 1) t = .ok found := by
  unfold retry1 at h
  rw [loop1]
  dsimp only at h ⊢
  split at h
  · next heq =>
    rw [if_pos heq]
    exact ⟨_, rfl⟩
  · next hne =>
    split at h
    · next heq =>
      rw [if_neg hne, if_pos heq]
      exact ⟨_, rfl⟩
    · cases h

/-- A round of `LOOP0` is one of its retries. -/
theorem loop0_retry (rounds : Nat) (h : retry0 ch die lat t = some t') :
    loop0 ch die lat (rounds + 1) t = loop0 ch die lat rounds t' := by
  rw [retry0] at h
  rw [loop0]
  cases hloop : loop1 ch die lat (2 ^ 64) t with
  | error e =>
    rw [hloop] at h
    cases h
  | ok found =>
    rw [hloop] at h
    dsimp only at h
    simp only [Bind.bind, Except.bind]
    split at h
    · cases h
    · next hne =>
      cases h
      rw [if_neg hne]

/-- A candidate that comes back keeps `LOOP0` going for ever. -/
theorem loop0_diverges (h : retry0 ch die lat t = some t') (h' : retry0 ch die lat t' = some t')
    (rounds : Nat) :
    loop0 ch die lat rounds t = .error (.diverges "PAL2::TimelineScheduling") := by
  induction rounds generalizing t with
  | zero => rfl
  | succ rounds ih => rw [loop0_retry rounds h, ih h']

end Rounds

/-! ### Any slots -/

/-- The ticks at which a resource has free slots are 64-bit numbers. -/
structure Resource.Words (r : Resource) : Prop where
  startPoint : r.startPoint < 2 ^ 64
  slots : ∀ k s e, r.freeSlots.Slot k s e → s < 2 ^ 64

namespace FreeSlots

variable {fs : FreeSlots} {tickLen tickFrom tick : Nat}

/-- The tick is the beginning of a slot behind `tickFrom`. -/
def Later (fs : FreeSlots) (tickFrom tick : Nat) : Prop := tickFrom < tick ∧ ∃ k e, fs.Slot k tick e

theorem later_slotAfter {k : Nat} {f : Nat × Nat} (hk : k ∈ fs.lengths)
    (hf : fs.slotAfter k tickLen tickFrom = some f) : fs.Later tickFrom f.1 := by
  have hmem := List.mem_of_find?_eq_some hf
  rw [List.mem_filter, decide_eq_true_iff] at hmem
  exact ⟨hmem.2, k, f.2, hk, hmem.1⟩

theorem later_searchBuckets {l : List Nat} (hl : ∀ k ∈ l, k ∈ fs.lengths) (minTick : Nat)
    (hmin : minTick = maxTick ∨ fs.Later tickFrom minTick)
    (h : fs.searchBuckets tickLen tickFrom l minTick = some (tick, true)) :
    fs.Later tickFrom tick := by
  induction l generalizing minTick with
  | nil =>
    rw [searchBuckets] at h
    split at h
    · cases h
    · next hne =>
      cases h
      exact hmin.resolve_left hne
  | cons k l ih =>
    have hrest := fun k' hk' => hl k' (List.mem_cons_of_mem k hk')
    rw [searchBuckets] at h
    split at h
    · cases h
    · split at h
      · next f hf =>
        refine ih hrest _ ?_ h
        split
        · exact .inr (later_slotAfter (hl k List.mem_cons_self) hf)
        · exact hmin
      · exact ih hrest _ hmin h

/-- A search that conflicts ends at a later slot, whatever the slots are. -/
theorem later_findFreeTime (h : fs.findFreeTime tickLen tickFrom = some (tick, true)) :
    fs.Later tickFrom tick := by
  rw [findFreeTime] at h
  split at h
  · split at h
    · cases h
    · next k hlast =>
      split at h
      · cases h
      · obtain ⟨f, hf, heq⟩ := Option.map_eq_some_iff.mp h
        cases heq
        exact later_slotAfter (List.mem_of_getLast? hlast) hf
  · refine later_searchBuckets (fun k hk => ?_) maxTick (.inl rfl) h
    rw [bucketsFrom] at hk
    split at hk
    · exact (List.mem_filter.mp hk).1
    · exact hk

end FreeSlots

/-- A search never goes back. -/
theorem Resource.Words.search {r : Resource} (hr : r.Words) (tickLen : Nat) {tickFrom : Nat}
    (hfrom : tickFrom < 2 ^ 64) :
    tickFrom ≤ (r.search tickLen tickFrom).1 ∧ (r.search tickLen tickFrom).1 < 2 ^ 64 := by
  rw [Resource.search]
  cases hfind : r.freeSlots.findFreeTime tickLen tickFrom with
  | none =>
    dsimp only
    split
    · next hlt => exact ⟨hlt.le, hr.startPoint⟩
    · exact ⟨le_rfl, hfrom⟩
  | some f =>
    obtain ⟨tick, conflicts⟩ := f
    cases conflicts with
    | false => exact ⟨le_rfl, hfrom⟩
    | true =>
      obtain ⟨hlt, k, e, hslot⟩ := FreeSlots.later_findFreeTime hfind
      exact ⟨hlt.le, hr.slots k tick e hslot⟩

section AnySlots

variable {ch die : Resource}

/-- A retry of `LOOP1` is at a later tick. -/
theorem retry1_lt (hch : ch.Words) (hdie : die.Words) (lat : Latencies) {t t' : Nat}
    (ht : t < 2 ^ 64) (h : retry1 ch die lat t = some t') : t < t' ∧ t' < 2 ^ 64 := by
  unfold retry1 at h
  dsimp only at h
  obtain ⟨hle₀, hlt₀⟩ := hch.search lat.latDMA0 ht
  obtain ⟨hleM, hltM⟩ := hdie.search (tickAdd lat.latDMA0 lat.latMEM) hlt₀
  split at h
  · cases h
  · split at h
    · cases h
    · next hne =>
      cases h
      refine ⟨Nat.lt_of_le_of_ne (hle₀.trans hleM) fun heq => hne ?_, hltM⟩
      -- a round that has not moved verifies what it has just found
      rw [← heq]

/-- `LOOP1` ends, whatever the slots are. -/
theorem loop1_ends (hch : ch.Words) (hdie : die.Words) (lat : Latencies) (rounds t : Nat)
    (ht : t < 2 ^ 64) (hrounds : 2 ^ 64 ≤ t + rounds) :
    ∃ found, loop1 ch die lat rounds t = .ok found := by
  induction rounds generalizing t with
  | zero => omega
  | succ rounds ih =>
    cases hretry : retry1 ch die lat t with
    | none => exact loop1_leaves rounds hretry
    | some t' =>
      obtain ⟨hlt, ht'⟩ := retry1_lt hch hdie lat ht hretry
      rw [loop1_retry rounds hretry]
      exact ih t' ht' (by omega)

end AnySlots

/-! ### Runs -/

/-- The tick from which on a command that has arrived finds its resources free. -/
def freeFrom (ch die : Resource) (arrived : Nat) : Nat :=
  max arrived (max ch.startPoint die.startPoint)

/-- Both loops end for a command that arrives at `arrived`, and each of their retries moves
on, but not past the tick from which on everything is free. -/
structure LoopsEnd (ch die : Resource) (lat : Latencies) (arrived : Nat) : Prop where
  loop0 : ∃ plan, loop0 ch die lat (2 ^ 64) arrived = .ok plan
  loop1 : ∀ t ≤ freeFrom ch die arrived, ∃ found, loop1 ch die lat (2 ^ 64) t = .ok found
  retry0 : ∀ t ≤ freeFrom ch die arrived, ∀ t', retry0 ch die lat t = some t' →
    t < t' ∧ t' ≤ freeFrom ch die arrived
  retry1 : ∀ t ≤ freeFrom ch die arrived, ∀ t', retry1 ch die lat t = some t' →
    t < t' ∧ t' ≤ freeFrom ch die arrived

section Bounded

variable {ch die : Resource} {lat : Latencies} {bound t t' : Nat}

theorem retry1_spec (hch : ch.Valid) (hdie : die.Valid) (hb : Bound ch die lat bound)
    (ht : t ≤ bound) (h : retry1 ch die lat t = some t') : t < t' ∧ t' ≤ bound := by
  unfold retry1 at h
  dsimp only at h
  obtain ⟨-, -, hle, -, -, hlater⟩ := round1_spec hch hdie hb ht rfl rfl
  split at h
  · cases h
  · split at h
    · cases h
    · next hne =>
      cases h
      exact ⟨hlater hne, hle⟩

theorem retry0_spec (hch : ch.Valid) (hdie : die.Valid) (hb : Bound ch die lat bound)
    (ht : t ≤ bound) (h : retry0 ch die lat t = some t') : t < t' ∧ t' ≤ bound := by
  have hticks := hb.ticks
  obtain ⟨tick, td, tm, hloop, hle, hge, hroom0, hroomM⟩ :=
    loop1_spec hch hdie hb (2 ^ 64) t ht (by omega)
  rw [retry0, hloop] at h
  dsimp only at h
  obtain ⟨-, hlater⟩ := round0_spec hch hdie hb hge hroom0 hroomM rfl rfl
  split at h
  · cases h
  · next hne =>
    cases h
    obtain ⟨hlt, hle'⟩ := hlater hne
    exact ⟨hle.trans_lt hlt, hle'⟩

theorem PAL2.Valid.loopsEnd {flash : Flash} {s : PAL2} {cmd : Command} (hs : s.Valid)
    (h : s.Fits flash cmd) : LoopsEnd (s.channels cmd.addr.channel)
      (s.dies (flash.dieIdx cmd.addr)) (flash.latencies cmd) cmd.arrived := by
  obtain ⟨-, -, hticks, hdma0, hanti⟩ := h
  have hch := hs.channels cmd.addr.channel
  have hdie := hs.dies (flash.dieIdx cmd.addr)
  generalize s.channels cmd.addr.channel = ch at *
  generalize s.dies (flash.dieIdx cmd.addr) = die at *
  have hfree : freeFrom ch die cmd.arrived = max cmd.arrived (max ch.startPoint die.startPoint) :=
    rfl
  have hb : Bound ch die (flash.latencies cmd) (freeFrom ch die cmd.arrived) :=
    ⟨by omega, by omega, by omega, by omega, hdma0, hanti⟩
  refine ⟨?_, fun t ht => ?_, fun t ht t' h => retry0_spec hch hdie hb ht h,
    fun t ht t' h => retry1_spec hch hdie hb ht h⟩
  · obtain ⟨plan, hplan, -⟩ := loop0_spec hch hdie hb (2 ^ 64) cmd.arrived (by omega) (by omega)
    exact ⟨plan, hplan⟩
  · obtain ⟨tick, td, tm, hloop, -⟩ := loop1_spec hch hdie hb (2 ^ 64) t ht (by omega)
    exact ⟨_, hloop⟩

end Bounded

/-- `LOOP1` ends for every state of a channel and a die, each retry being at a later tick.
`LOOP0` ends in every state that a run reaches, for every command that fits. -/
theorem scheduling_terminates (flash : Flash) (steps : List Step)
    (hsteps : Run.Along (Step.exec flash) (Step.Meets fun s cmd => s.Fits flash cmd)
      (flash.start, []) steps) :
    (∀ ch die : Resource, ch.Words → die.Words → ∀ lat, ∀ t < 2 ^ 64,
      (∃ found, loop1 ch die lat (2 ^ 64) t = .ok found) ∧
        ∀ t', retry1 ch die lat t = some t' → t < t' ∧ t' < 2 ^ 64) ∧
    ∃ s log, runSteps flash steps = .ok (s, log) ∧ ∀ cmd, s.Fits flash cmd →
      LoopsEnd (s.channels cmd.addr.channel) (s.dies (flash.dieIdx cmd.addr))
        (flash.latencies cmd) cmd.arrived := by
  constructor
  · intro ch die hch hdie lat t ht
    exact ⟨loop1_ends hch hdie lat (2 ^ 64) t ht (by omega),
      fun t' h => retry1_lt hch hdie lat ht h⟩
  · obtain ⟨s, log, hrun, haccounts, -⟩ := runSteps_spec (P := fun _ _ => True)
      (fun s cmd h => h) (fun _ _ _ _ _ _ => trivial) hsteps
    exact ⟨s, log, hrun, fun cmd hfits => haccounts.valid.loopsEnd hfits⟩

theorem scheduling_terminates_fourDies :
    (∀ ch die : Resource, ch.Words → die.Words → ∀ lat, ∀ t < 2 ^ 64,
      (∃ found, loop1 ch die lat (2 ^ 64) t = .ok found) ∧
        ∀ t', retry1 ch die lat t = some t' → t < t' ∧ t' < 2 ^ 64) ∧
    ∃ s log, runSteps fourDies [.submit (.onDie 0 .read 0 0), .submit (.onDie 5 .write 1 6),
        .flush 100000, .submit (.onDie 100 .erase 0 0)] = .ok (s, log) ∧
      ∀ cmd, s.Fits fourDies cmd →
        LoopsEnd (s.channels cmd.addr.channel) (s.dies (fourDies.dieIdx cmd.addr))
          (fourDies.latencies cmd) cmd.arrived :=
  scheduling_terminates fourDies _ (by decide +kernel)

/-- The timing of a wide bus on which an erasure, and a read of a first page, take no time
before the second transfer. -/
def instantBus : Flash :=
  { wideBus with timing := { wideBus.timing with lsb := ⟨0, 0⟩, erase := 0 } }

/-- `LOOP0` never ends for a read of die 0 in this state. -/
def Stuck (flash : Flash) (s : PAL2) (arrived : Nat) : Prop :=
  ∀ rounds, loop0 (s.channels 0) (s.dies 0) (flash.latencies (.onDie arrived .read 0 0)) rounds
    arrived = .error (.diverges "PAL2::TimelineScheduling")

/-- A read whose end would wrap around, behind a short gap that another read has left: the
whole operation seems to fit into the gap, in which its first part does not fit. And a read
in no time where an erasure in no time has cut a slot in two: the tick between them belongs
to the first for the operation and to the second for the transfer. -/
theorem scheduling_diverges :
    (∃ r, runSteps fourDies [.submit (.onDie (2 ^ 64 - 305183876) .read 0 0),
        .submit (.onDie (2 ^ 64 - 177591938) .read 0 0)] = .ok r ∧
      Stuck fourDies r.1 (2 ^ 64 - 177591938)) ∧
    ∃ r, runSteps instantBus [.submit (.onDie 400000000 .read 0 0),
        .submit (.onDie 50000000 .erase 0 0)] = .ok r ∧ Stuck instantBus r.1 50000000 := by
  constructor
  · obtain ⟨r, hrun, hretry, hagain⟩ := Except.exists_of_map
      (x := runSteps fourDies [.submit (.onDie (2 ^ 64 - 305183876) .read 0 0),
        .submit (.onDie (2 ^ 64 - 177591938) .read 0 0)])
      (p := fun r => retry0 (r.1.channels 0) (r.1.dies 0)
          (fourDies.latencies (.onDie (2 ^ 64 - 177591938) .read 0 0)) (2 ^ 64 - 177591938) =
            some (2 ^ 64 - 207591938) ∧
        retry0 (r.1.channels 0) (r.1.dies 0)
          (fourDies.latencies (.onDie (2 ^ 64 - 177591938) .read 0 0)) (2 ^ 64 - 207591938) =
            some (2 ^ 64 - 207591938))
      (by decide +kernel)
    exact ⟨r, hrun, fun rounds => loop0_diverges hretry hagain rounds⟩
  · obtain ⟨r, hrun, hretry⟩ := Except.exists_of_map
      (x := runSteps instantBus [.submit (.onDie 400000000 .read 0 0),
        .submit (.onDie 50000000 .erase 0 0)])
      (p := fun r => retry0 (r.1.channels 0) (r.1.dies 0)
        (instantBus.latencies (.onDie 50000000 .read 0 0)) 50000000 = some 50000000)
      (by decide +kernel)
    exact ⟨r, hrun, fun rounds => loop0_diverges hretry hretry rounds⟩

end SimpleSSD.PAL
