import SimpleSSD.Lib.Run
import SimpleSSD.Lib.SingleServer
import SimpleSSD.Util.Def

/-!
# The DRAM of the controller (dram/simple.cc)

All accesses go over one bus. `updateDelay` lets an access wait until the one before it is
done, and the periodic refresh keeps the bus busy for `tRFC`. Two kinds of access are let
through at once: those at tick 0, which take no time, and those that come while the
scheduling is switched off.

The bus is a server that takes its jobs in turn (`SingleServer`), with a refresh as a job
of its own. How long the transfer of some pages takes is computed in floating point and is
a parameter; the power model is left out.
-/

namespace SimpleSSD.DRAM

/-- `REFRESH_PERIOD`. -/
def refreshPeriod : Nat := 64000000000

/-- What `SimpleDRAM` is configured with. `latency n` is the time for `n` pages. -/
structure Config where
  pageSize : Nat
  tRFC : Nat
  latency : Nat → Nat

/-- `SimpleDRAM::Stat`. -/
structure Stat where
  count : Nat
  size : Nat
  deriving DecidableEq, Repr

def Stat.add (stat : Stat) (size : Nat) : Stat :=
  ⟨(stat.count + 1) % 2 ^ 64, (stat.size + size) % 2 ^ 64⟩

/-- What the bus does. -/
inductive Job where
  | access (tick latency : Nat)
  | refresh (upTo : Nat)
  deriving DecidableEq, Repr

def Job.isAccess : Job → Bool
  | .access .. => true
  | .refresh _ => false

/-- `SimpleDRAM`. `autoRefresh` is the tick for which the event is scheduled; `services` records
what the bus has done, in order. -/
structure SimpleDRAM where
  lastDRAMAccess : Nat
  ignoreScheduling : Bool
  autoRefresh : Nat
  readStat : Stat
  writeStat : Stat
  services : List (SingleServer.Service Job Nat)
  deriving DecidableEq, Repr

namespace SimpleDRAM

/-- The constructor, at tick `now`. -/
def new (now : Nat) : SimpleDRAM :=
  ⟨0, false, (now + refreshPeriod) % 2 ^ 64, ⟨0, 0⟩, ⟨0, 0⟩, []⟩

/-- `updateDelay`: when the access begins, and the tick as the call leaves it. -/
def updateDelay (s : SimpleDRAM) (latency tick : Nat) : (Nat × Nat) × SimpleDRAM :=
  if 0 < tick then
    if s.ignoreScheduling then ((tick, (tick + latency) % 2 ^ 64), s)
    else
      let beginAt := if s.lastDRAMAccess ≤ tick then tick else s.lastDRAMAccess
      let lastDRAMAccess := (beginAt + latency) % 2 ^ 64
      ((beginAt, lastDRAMAccess), { s with
        lastDRAMAccess := lastDRAMAccess
        services := s.services ++ [⟨.access tick latency, beginAt, lastDRAMAccess⟩] })
  else ((tick, tick), s)

/-- The pages of a transfer. -/
def pageCount (cfg : Config) (size : Nat) : Nat :=
  if 0 < size then ((size - 1) / cfg.pageSize + 1) % 2 ^ 64 else 0

/-- `read`: the tick as the call leaves it. -/
def read (cfg : Config) (s : SimpleDRAM) (size tick : Nat) : Except Fault (Nat × SimpleDRAM) :=
  if cfg.pageSize = 0 then .error (.badAccess "(size - 1) / pageSize")
  else
    let (times, s) := s.updateDelay (cfg.latency (pageCount cfg size)) tick
    .ok (times.2, { s with readStat := s.readStat.add size })

/-- `write`. -/
def write (cfg : Config) (s : SimpleDRAM) (size tick : Nat) : Except Fault (Nat × SimpleDRAM) :=
  if cfg.pageSize = 0 then .error (.badAccess "(size - 1) / pageSize")
  else
    let (times, s) := s.updateDelay (cfg.latency (pageCount cfg size)) tick
    .ok (times.2, { s with writeStat := s.writeStat.add size })

/-- `setScheduling`. -/
def setScheduling (s : SimpleDRAM) (enable : Bool) : SimpleDRAM :=
  { s with ignoreScheduling := !enable }

/-- The handler of `autoRefresh`. -/
def refresh (cfg : Config) (s : SimpleDRAM) (now : Nat) : SimpleDRAM :=
  let upTo := (now + cfg.tRFC) % 2 ^ 64
  let lastDRAMAccess := if s.lastDRAMAccess > upTo then s.lastDRAMAccess else upTo
  { s with
    lastDRAMAccess := lastDRAMAccess
    autoRefresh := (now + refreshPeriod) % 2 ^ 64
    services := s.services ++ [⟨.refresh upTo, s.lastDRAMAccess, lastDRAMAccess⟩] }

/-! ### Runs -/

/-- What happens to the DRAM. -/
inductive Event where
  | read (size tick : Nat)
  | write (size tick : Nat)
  | setScheduling (enable : Bool)
  | refresh (now : Nat)
  deriving DecidableEq, Repr

/-- An access that has been answered: whether it was scheduled, when it came, how long its
transfer takes, and the answer. -/
structure Access where
  scheduled : Bool
  tick : Nat
  latency : Nat
  answer : Nat
  deriving DecidableEq, Repr

/-- The accesses that wait for the bus. -/
def Waits (s : SimpleDRAM) (tick : Nat) : Prop := 0 < tick ∧ s.ignoreScheduling = false

instance (s : SimpleDRAM) (tick : Nat) : Decidable (s.Waits tick) :=
  inferInstanceAs (Decidable (_ ∧ _))

/-- One event; the answers so far are in order. -/
def exec (cfg : Config) (acc : SimpleDRAM × List Access) :
    Event → Except Fault (SimpleDRAM × List Access)
  | .read size tick => do
    let (answer, s) ← acc.1.read cfg size tick
    .ok (s, acc.2 ++ [⟨acc.1.Waits tick, tick, cfg.latency (pageCount cfg size), answer⟩])
  | .write size tick => do
    let (answer, s) ← acc.1.write cfg size tick
    .ok (s, acc.2 ++ [⟨acc.1.Waits tick, tick, cfg.latency (pageCount cfg size), answer⟩])
  | .setScheduling enable => .ok (acc.1.setScheduling enable, acc.2)
  | .refresh now => .ok (acc.1.refresh cfg now, acc.2)

/-- No tick of the event wraps around. -/
def Fits (cfg : Config) (acc : SimpleDRAM × List Access) : Event → Prop
  | .read size tick | .write size tick => 0 < cfg.pageSize ∧
    max acc.1.lastDRAMAccess tick + cfg.latency (pageCount cfg size) < 2 ^ 64
  | .setScheduling _ => True
  | .refresh now => now + cfg.tRFC < 2 ^ 64

instance (cfg : Config) (acc : SimpleDRAM × List Access) (e : Event) :
    Decidable (Fits cfg acc e) := by
  cases e <;> unfold Fits <;> infer_instance

/-- The bus serves the accesses that wait one after the other, each for its latency and as
soon as it has come and the bus is free, and is not used during a refresh; the other accesses
are answered at once. -/
structure InTurn (services : List (SingleServer.Service Job Nat)) (accesses : List Access) :
    Prop where
  apart : services.Pairwise fun a b => a.finishedAt ≤ b.startedAt
  lasts : ∀ a ∈ services, ∀ tick latency, a.job = .access tick latency →
    tick ≤ a.startedAt ∧ a.finishedAt = a.startedAt + latency
  refreshed : ∀ a ∈ services, ∀ upTo, a.job = .refresh upTo → upTo ≤ a.finishedAt
  prompt : ∀ before a after tick latency, services = before ++ a :: after →
    a.job = .access tick latency → a.startedAt = tick ∨ ∃ b ∈ before, b.finishedAt = a.startedAt
  answers : (accesses.filter (·.scheduled)).map (fun a => (Job.access a.tick a.latency, a.answer)) =
    (services.filter fun a => a.job.isAccess).map fun a => (a.job, a.finishedAt)
  atOnce : ∀ a ∈ accesses, a.scheduled = false →
    a.answer = if a.tick = 0 then 0 else a.tick + a.latency
  window : ∀ b e, b ≤ e → ((services.filter fun a => b ≤ a.startedAt ∧ a.finishedAt ≤ e).map
    fun a => a.finishedAt - a.startedAt).sum ≤ e - b

/-! ### The bus -/

/-- The bus as a server. -/
def bus : SingleServer.Discipline Job Nat where
  arrival
    | .access tick _ => tick
    | .refresh _ => 0
  finish start
    | .access _ latency => start + latency
    | .refresh upTo => max start upTo
  le_finish start j := by
    cases j with
    | access tick latency => exact Nat.le_add_right _ _
    | refresh upTo => exact Nat.le_max_left _ _

/-- What has been served, and the answers, are those of the bus. -/
structure Inv (acc : SimpleDRAM × List Access) : Prop where
  services : acc.1.services = bus.services 0 (acc.1.services.map (·.job))
  free : acc.1.lastDRAMAccess = bus.freeAt 0 (acc.1.services.map (·.job))
  answers : (acc.2.filter (·.scheduled)).map (fun a => (Job.access a.tick a.latency, a.answer)) =
    (acc.1.services.filter fun a => a.job.isAccess).map fun a => (a.job, a.finishedAt)
  atOnce : ∀ a ∈ acc.2, a.scheduled = false →
    a.answer = if a.tick = 0 then 0 else a.tick + a.latency

section Inv

variable {cfg : Config} {acc acc' : SimpleDRAM × List Access} {e : Event}

theorem inv_new (now : Nat) : Inv (new now, []) := ⟨rfl, rfl, rfl, fun _ h => by cases h⟩

/-- A job is added at the end. -/
theorem Inv.serve (h : Inv acc) (j : Job) :
    acc.1.services ++ [bus.serve acc.1.lastDRAMAccess j] =
        bus.services 0 ((acc.1.services ++ [bus.serve acc.1.lastDRAMAccess j]).map (·.job)) ∧
      (bus.serve acc.1.lastDRAMAccess j).finishedAt =
        bus.freeAt 0 ((acc.1.services ++ [bus.serve acc.1.lastDRAMAccess j]).map (·.job)) := by
  rw [List.map_append, List.map_singleton, show (bus.serve _ j).job = j from rfl,
    SingleServer.Discipline.services_concat, SingleServer.Discipline.freeAt_concat, ← h.services,
    ← h.free]
  exact ⟨rfl, rfl⟩

/-- An access that waits is served by the bus. -/
theorem updateDelay_waits {s : SimpleDRAM} {tick latency : Nat} (hwaits : s.Waits tick)
    (hword : max s.lastDRAMAccess tick + latency < 2 ^ 64) :
    s.updateDelay latency tick =
      ((max s.lastDRAMAccess tick, max s.lastDRAMAccess tick + latency), { s with
        lastDRAMAccess := (bus.serve s.lastDRAMAccess (.access tick latency)).finishedAt
        services := s.services ++ [bus.serve s.lastDRAMAccess (.access tick latency)] }) := by
  obtain ⟨hpos, hon⟩ := hwaits
  have hbegin : (if s.lastDRAMAccess ≤ tick then tick else s.lastDRAMAccess) =
      max s.lastDRAMAccess tick := by
    split <;> omega
  rw [updateDelay, if_pos hpos, hon, if_neg Bool.false_ne_true]
  dsimp only
  rw [hbegin, Nat.mod_eq_of_lt hword]
  rfl

/-- The others change nothing. -/
theorem updateDelay_atOnce {s : SimpleDRAM} {tick latency : Nat} (hwaits : ¬ s.Waits tick)
    (hword : tick + latency < 2 ^ 64) :
    s.updateDelay latency tick = ((tick, if tick = 0 then 0 else tick + latency), s) := by
  rw [updateDelay]
  by_cases hpos : 0 < tick
  · have hoff : s.ignoreScheduling = true := by
      rw [← Bool.not_eq_false]
      exact fun hon => hwaits ⟨hpos, hon⟩
    rw [if_pos hpos, if_pos hoff, if_neg (by omega), Nat.mod_eq_of_lt hword]
  · obtain rfl : tick = 0 := by omega
    rw [if_neg hpos, if_pos rfl]

/-- What an access adds, whatever it does to the counters. -/
theorem Inv.access (h : Inv acc) {tick latency : Nat} {s : SimpleDRAM} {answer : Nat}
    (hword : max acc.1.lastDRAMAccess tick + latency < 2 ^ 64)
    (hs : s.services = (acc.1.updateDelay latency tick).2.services)
    (hlast : s.lastDRAMAccess = (acc.1.updateDelay latency tick).2.lastDRAMAccess)
    (hanswer : answer = (acc.1.updateDelay latency tick).1.2) :
    Inv (s, acc.2 ++ [⟨acc.1.Waits tick, tick, latency, answer⟩]) := by
  by_cases hwaits : acc.1.Waits tick
  · rw [updateDelay_waits hwaits hword] at hs hlast hanswer
    dsimp only at hs hlast hanswer
    obtain ⟨hservices, hfree⟩ := h.serve (.access tick latency)
    refine ⟨?_, ?_, ?_, fun a ha hunscheduled => ?_⟩
    · dsimp only
      rw [hs]
      exact hservices
    · dsimp only
      rw [hs, hlast]
      exact hfree
    · dsimp only
      rw [hs, List.filter_append, List.filter_append, List.map_append, List.map_append, h.answers,
        hanswer]
      simp only [hwaits, decide_true, List.filter_cons_of_pos, List.filter_nil, List.map_cons,
        List.map_nil]
      rfl
    · rcases List.mem_append.mp ha with ha | ha
      · exact h.atOnce a ha hunscheduled
      · rw [List.mem_singleton.mp ha] at hunscheduled
        simp [hwaits] at hunscheduled
  · rw [updateDelay_atOnce hwaits (by omega)] at hs hlast hanswer
    dsimp only at hs hlast hanswer
    refine ⟨?_, ?_, ?_, fun a ha hunscheduled => ?_⟩
    · dsimp only
      rw [hs]
      exact h.services
    · dsimp only
      rw [hs, hlast]
      exact h.free
    · dsimp only
      rw [hs, List.filter_append, List.map_append, h.answers]
      simp [hwaits]
    · rcases List.mem_append.mp ha with ha | ha
      · exact h.atOnce a ha hunscheduled
      · rw [List.mem_singleton.mp ha]
        exact hanswer

theorem Inv.exec (h : Inv acc) (hfits : Fits cfg acc e) :
    ∃ acc', SimpleDRAM.exec cfg acc e = .ok acc' ∧ Inv acc' := by
  cases e with
  | read size tick =>
    obtain ⟨hpage, hword⟩ := hfits
    rw [SimpleDRAM.exec, read, if_neg (by omega)]
    exact ⟨_, rfl, h.access hword rfl rfl rfl⟩
  | write size tick =>
    obtain ⟨hpage, hword⟩ := hfits
    rw [SimpleDRAM.exec, write, if_neg (by omega)]
    exact ⟨_, rfl, h.access hword rfl rfl rfl⟩
  | setScheduling enable => exact ⟨_, rfl, h.services, h.free, h.answers, h.atOnce⟩
  | refresh now =>
    have hword : now + cfg.tRFC < 2 ^ 64 := hfits
    obtain ⟨hservices, hfree⟩ := h.serve (.refresh (now + cfg.tRFC))
    -- the bus is idle for the refresh as soon as it is free
    have hlast : (if acc.1.lastDRAMAccess > now + cfg.tRFC then acc.1.lastDRAMAccess
        else now + cfg.tRFC) =
          (bus.serve acc.1.lastDRAMAccess (.refresh (now + cfg.tRFC))).finishedAt := by
      show _ = max (max acc.1.lastDRAMAccess 0) (now + cfg.tRFC)
      split <;> omega
    have hserve : (⟨.refresh (now + cfg.tRFC), acc.1.lastDRAMAccess,
        (bus.serve acc.1.lastDRAMAccess (.refresh (now + cfg.tRFC))).finishedAt⟩ :
          SingleServer.Service Job Nat) =
        bus.serve acc.1.lastDRAMAccess (.refresh (now + cfg.tRFC)) := by
      show _ = SingleServer.Service.mk _ (max acc.1.lastDRAMAccess 0) _
      rw [Nat.max_eq_left (Nat.zero_le _)]
      rfl
    refine ⟨_, rfl, ?_, ?_, ?_, h.atOnce⟩
    · dsimp only [refresh]
      rw [Nat.mod_eq_of_lt hword, hlast, hserve]
      exact hservices
    · dsimp only [refresh]
      rw [Nat.mod_eq_of_lt hword, hlast, hserve]
      exact hfree
    · dsimp only [refresh]
      rw [List.filter_append, List.map_append, h.answers]
      simp [Job.isAccess]

theorem Inv.inTurn (h : Inv acc) : InTurn acc.1.services acc.2 := by
  have hserve : ∀ a ∈ acc.1.services, ∃ t, a = bus.serve t a.job := by
    intro a ha
    rw [h.services] at ha
    obtain ⟨t, -, heq⟩ := SingleServer.Discipline.exists_serve ha
    exact ⟨t, heq⟩
  have hapart : acc.1.services.Pairwise fun a b => a.finishedAt ≤ b.startedAt := by
    rw [h.services]
    exact bus.pairwise_services 0 _
  refine ⟨hapart, ?_, ?_, ?_, h.answers, h.atOnce, fun b e hbe => ?_⟩
  · intro a ha tick latency hjob
    obtain ⟨t, heq⟩ := hserve a ha
    rw [hjob] at heq
    rw [heq]
    exact ⟨Nat.le_max_right _ _, rfl⟩
  · intro a ha upTo hjob
    obtain ⟨t, heq⟩ := hserve a ha
    rw [hjob] at heq
    rw [heq]
    exact Nat.le_max_right _ _
  · intro before a after tick latency hsplit hjob
    obtain ⟨t, heq⟩ := hserve a (hsplit ▸ List.mem_append_right _ List.mem_cons_self)
    rw [hjob] at heq
    have hle : tick ≤ a.startedAt := by
      rw [heq]
      exact Nat.le_max_right _ _
    rcases SingleServer.Discipline.startedAt_cases (h.services.symm.trans hsplit) with
      harrival | hfree | hbefore
    · rw [hjob] at harrival
      exact .inl harrival
    · exact .inl (by omega)
    · exact .inr hbefore
  · refine SingleServer.sum_durations_le (hapart.filter _) (fun a ha => ?_) hbe fun a ha => ?_
    · obtain ⟨t, heq⟩ := hserve a (List.mem_filter.mp ha).1
      rw [heq]
      exact bus.startedAt_le_finishedAt t a.job
    · exact of_decide_eq_true (List.mem_filter.mp ha).2

end Inv

/-- In every run of accesses, refreshes and switches of the scheduling, in any order and with any
ticks that do not wrap around, the bus is used in turn. -/
theorem accesses_inTurn (cfg : Config) (now : Nat) (events : List Event)
    (hfits : Run.Along (exec cfg) (Fits cfg) (new now, []) events) :
    ∃ s accesses, events.foldlM (exec cfg) (new now, []) = .ok (s, accesses) ∧
      InTurn s.services accesses := by
  obtain ⟨⟨s, accesses⟩, hrun, hinv⟩ := (hfits.sat (I := Inv) (E := fun _ => False)
    (fun acc e h he => by
      obtain ⟨acc', hexec, h'⟩ := h.exec he
      rw [hexec]
      exact h') (inv_new now)).exists_ok
  exact ⟨s, accesses, hrun, hinv.inTurn⟩

/-- Pages of 1 KiB at one tick a byte. -/
def sample : Config := ⟨1024, 350000, fun n => 1024 * n⟩

theorem accesses_inTurn_sample :
    ∃ s accesses, [Event.write 4096 10, .read 1 5, .refresh 64000000000, .setScheduling false,
        .read 512 64000000001, .setScheduling true, .read 0 64000000002].foldlM (exec sample)
          (new 0, []) = .ok (s, accesses) ∧ InTurn s.services accesses :=
  accesses_inTurn sample 0 _ (by decide)

end SimpleDRAM

end SimpleSSD.DRAM
