import Mathlib.Order.Interval.Finset.Nat
import SimpleSSD.Lib.Simulation
import SimpleSSD.PAL.Address
import SimpleSSD.PAL.Flush

/-!
# Requests of the flash layer (pal_old.cc:76–167)

`read`, `write` and `erase` submit one command for each page of a request. All of them
arrive with the request, whose answer is the tick at which the last one has finished.
From time to time `flushFunction` makes the scheduler forget what lies `FLUSH_RANGE`
behind.

- `flush_invisible`: the flush changes no answer, no schedule and no statistic, wherever
  it comes between the requests.
- `requests_bounded`: no answers are earlier than the transfers over one channel, or the
  operations of one die, allow.
-/

namespace SimpleSSD.PAL

/-- `FLUSH_RANGE`. -/
def flushRange : Nat := 10000000000

/-- `FLUSH_PERIOD`. -/
def flushPeriod : Nat := 100000000000

namespace PALOLD

/-- `stat`. -/
structure Stat where
  readCount : Nat
  writeCount : Nat
  eraseCount : Nat
  deriving DecidableEq, Repr

/-- The increment of one of the counters. -/
def Stat.count (stat : Stat) : Operation → Stat
  | .read => { stat with readCount := (stat.readCount + 1) % 2 ^ 64 }
  | .write => { stat with writeCount := (stat.writeCount + 1) % 2 ^ 64 }
  | .erase => { stat with eraseCount := (stat.eraseCount + 1) % 2 ^ 64 }

/-- What changes of the flash layer. `log` has the commands and their schedules so far, the
last one first; `flushEvent` is the tick for which the next flush is scheduled. -/
structure State where
  pal : PAL2
  stat : Stat
  flushEvent : Nat
  log : List (Command × Schedule)

/-- The state after the constructor, which runs at tick `now`. -/
def State.start (flash : Flash) (now : Nat) : State :=
  ⟨flash.start, ⟨0, 0, 0⟩, tickAdd now flushPeriod, []⟩

section

variable (flash : Flash) (pal : PALOLD)

/-- One iteration of the loop over the pages: the state, and `finishedAt`. -/
def submit (oper : Operation) (tick : Nat) (acc : State × Nat) (addr : CPDPBP) :
    Except Fault (State × Nat) := do
  let cmd : Command := ⟨tick, oper, addr⟩
  let (schedule, pal2) ← acc.1.pal.timelineScheduling flash cmd
  let s := { acc.1 with
    pal := pal2, stat := acc.1.stat.count oper, log := (cmd, schedule) :: acc.1.log }
  .ok (s, if acc.2 > schedule.finished then acc.2 else schedule.finished)

/-- What `read`, `write` and `erase` share: the state, the request and the tick as the call
leaves them. -/
def access (oper : Operation) (s : State) (req : Request) (tick : Nat) :
    Except Fault (State × Request × Nat) := do
  let (req, list) ← pal.convertCPDPBP req
  let (s, finishedAt) ← list.foldlM (submit flash oper tick) (s, tick)
  .ok (s, req, finishedAt)

/-- `PALOLD::read` (pal_old.cc:96–117). -/
def read (s : State) (req : Request) (tick : Nat) : Except Fault (State × Request × Nat) :=
  access flash pal .read s req tick

/-- `PALOLD::write` (pal_old.cc:119–139). -/
def write (s : State) (req : Request) (tick : Nat) : Except Fault (State × Request × Nat) :=
  access flash pal .write s req tick

/-- `PALOLD::erase` (pal_old.cc:141–167). -/
def erase (s : State) (req : Request) (tick : Nat) : Except Fault (State × Request × Nat) :=
  access flash pal .erase s req tick

/-- The call of an operation. -/
def call (oper : Operation) (s : State) (req : Request) (tick : Nat) :
    Except Fault (State × Request × Nat) :=
  match oper with
  | .read => read flash pal s req tick
  | .write => write flash pal s req tick
  | .erase => erase flash pal s req tick

end

/-- `flushFunction` (pal_old.cc:80–85); what it does to the merged slots is in `BusyTime`. -/
def flushFunction (s : State) (tick : Nat) : State :=
  { s with
    pal := s.pal.flushFreeSlots (tickSub tick flushRange)
    flushEvent := tickAdd tick flushPeriod }

/-- What happens to the flash layer. -/
inductive Event where
  | request (oper : Operation) (req : Request) (tick : Nat)
  | flush (tick : Nat)

/-- An event that the layers above see. -/
def Event.isRequest : Event → Bool
  | .request .. => true
  | .flush _ => false

/-- One event: the state, and the answers so far, the last one first. -/
def Event.exec (flash : Flash) (pal : PALOLD) (acc : State × List Nat) :
    Event → Except Fault (State × List Nat)
  | .request oper req tick => do
    let (s, _, finishedAt) ← call flash pal oper acc.1 req tick
    .ok (s, finishedAt :: acc.2)
  | .flush tick => .ok (flushFunction acc.1 tick, acc.2)

/-- A run of the flash layer that is constructed at tick `now`. -/
def run (flash : Flash) (pal : PALOLD) (now : Nat) (events : List Event) :
    Except Fault (State × List Nat) :=
  events.foldlM (Event.exec flash pal) (State.start flash now, [])

section Flush

variable {flash : Flash} {pal : PALOLD}

theorem call_eq (oper : Operation) (s : State) (req : Request) (tick : Nat) :
    call flash pal oper s req tick = access flash pal oper s req tick := by
  cases oper <;> rfl

/-- The command for a page fits, in the state in which it is submitted. -/
def FitsAt (flash : Flash) (oper : Operation) (tick : Nat) (acc : State × Nat) (addr : CPDPBP) :
    Prop :=
  acc.1.pal.Fits flash ⟨tick, oper, addr⟩

instance (oper : Operation) (tick : Nat) (acc : State × Nat) (addr : CPDPBP) :
    Decidable (FitsAt flash oper tick acc addr) :=
  inferInstanceAs (Decidable (acc.1.pal.Fits flash ⟨tick, oper, addr⟩))

/-- All commands of a request fit, and a flush is not so early that its range wraps around. -/
def Event.Fits (flash : Flash) (pal : PALOLD) (acc : State × List Nat) : Event → Prop
  | .request oper req tick => (pal.convertCPDPBP req).All fun r =>
      Run.Along (submit flash oper tick) (FitsAt flash oper tick) (acc.1, tick) r.2
  | .flush tick => flushRange ≤ tick ∧ tick < 2 ^ 64

instance Event.decidableFits (acc : State × List Nat) (event : Event) :
    Decidable (event.Fits flash pal acc) :=
  match event with
  | .request oper req tick => inferInstanceAs (Decidable ((pal.convertCPDPBP req).All fun r =>
      Run.Along (submit flash oper tick) (FitsAt flash oper tick) (acc.1, tick) r.2))
  | .flush tick => inferInstanceAs (Decidable (flushRange ≤ tick ∧ tick < 2 ^ 64))

/-- A request that comes behind a flush does not arrive before what the flush has forgotten. -/
def Event.InOrder : Event → Event → Prop
  | .flush tick, .request _ _ arrived => tick ≤ arrived + flushRange
  | _, _ => True

instance Event.decidableInOrder (a b : Event) : Decidable (a.InOrder b) :=
  match a, b with
  | .flush tick, .request _ _ arrived => inferInstanceAs (Decidable (tick ≤ arrived + flushRange))
  | .flush _, .flush _ => .isTrue trivial
  | .request .., .flush _ => .isTrue trivial
  | .request .., .request .. => .isTrue trivial

/-- The states agree from tick `t` on, in all that a request can see. -/
structure State.Agree (t : Nat) (s s' : State) : Prop where
  pal : PAL2.Agree t s.pal s'.pal
  valid : s.pal.Valid
  valid' : s'.pal.Valid
  stat : s.stat = s'.stat
  log : s.log = s'.log

/-- A page is scheduled alike. -/
theorem submit_agree {oper : Operation} {t tick : Nat} (hle : t ≤ tick) {acc acc' : State × Nat}
    (h : acc.1.Agree t acc'.1) (hsame : acc.2 = acc'.2) {addr : CPDPBP}
    (hfits : FitsAt flash oper tick acc addr) :
    Except.Same (fun a b => a.1.Agree t b.1 ∧ a.2 = b.2) (submit flash oper tick acc addr)
      (submit flash oper tick acc' addr) := by
  obtain ⟨schedule, s₁, s₁', hcall, hcall', hserves, hvalid', hagree⟩ :=
    h.pal.timelineScheduling h.valid h.valid' hfits hle
  rw [submit, submit, hcall, hcall']
  refine .ok ⟨⟨hagree, hserves.valid, hvalid', ?_, ?_⟩, ?_⟩
  · show acc.1.stat.count oper = acc'.1.stat.count oper
    rw [h.stat]
  · show _ :: acc.1.log = _ :: acc'.1.log
    rw [h.log]
  · show (if acc.2 > schedule.finished then acc.2 else _) = _
    rw [hsame]

/-- A request is answered alike. -/
theorem request_agree {oper : Operation} {req : Request} {t tick : Nat} (hle : t ≤ tick)
    {acc acc' : State × List Nat} (h : acc.1.Agree t acc'.1) (hsame : acc.2 = acc'.2)
    (hfits : (Event.request oper req tick).Fits flash pal acc) :
    Except.Same (fun a b => a.1.Agree t b.1 ∧ a.2 = b.2)
      (Event.exec flash pal acc (.request oper req tick))
      (Event.exec flash pal acc' (.request oper req tick)) := by
  rw [Event.exec, Event.exec, call_eq, call_eq, access, access]
  cases hconvert : pal.convertCPDPBP req with
  | error e => exact .error e
  | ok r =>
    have hloop := (hfits.of_ok hconvert).foldlM_same (g := submit flash oper tick)
      (R := fun a b => a.1.Agree t b.1 ∧ a.2 = b.2) (t := (acc'.1, tick))
      (fun a b addr hab hfits => submit_agree hle hab.1 hab.2 hfits) ⟨h, rfl⟩
    have hcalls : Except.Same (fun a b => a.1.Agree t b.1 ∧ a.2.2 = b.2.2)
        (r.2.foldlM (submit flash oper tick) (acc.1, tick) >>= fun a => .ok (a.1, r.1, a.2))
        (r.2.foldlM (submit flash oper tick) (acc'.1, tick) >>= fun a => .ok (a.1, r.1, a.2)) :=
      hloop.bind fun a b hab => .ok hab
    refine hcalls.bind fun a b hab => .ok ⟨hab.1, ?_⟩
    show a.2.2 :: acc.2 = b.2.2 :: acc'.2
    rw [hab.2, hsame]

/-- A flush forgets nothing that a later request can see. -/
theorem flushFunction_agree {t tick : Nat} {s s' : State} (h : s.Agree t s')
    (hrange : flushRange ≤ tick) (hword : tick < 2 ^ 64) :
    (flushFunction s tick).Agree (max t (tick - flushRange)) s' := by
  have hback : tickSub tick flushRange = tick - flushRange := tickSub_eq hrange hword
  refine ⟨?_, h.valid.flush _, h.valid', h.stat, h.log⟩
  show PAL2.Agree _ (s.pal.flushFreeSlots (tickSub tick flushRange)) s'.pal
  rw [hback]
  exact h.pal.flush (le_max_left _ _) (le_max_right _ _)

/-- The periodic flush is invisible: in whatever order requests and flushes come, all answers,
all schedules and the counters are those of the requests alone. -/
theorem flush_invisible (flash : Flash) (pal : PALOLD) (now : Nat) (events : List Event)
    (hfits : Run.Along (Event.exec flash pal) (Event.Fits flash pal) (State.start flash now, [])
      events)
    (horder : events.Pairwise Event.InOrder) :
    Except.Same (fun a b => a.2 = b.2 ∧ a.1.log = b.1.log ∧ a.1.stat = b.1.stat)
      (run flash pal now events) (run flash pal now (events.filter Event.isRequest)) := by
  -- what has been forgotten lies before every request to come
  let R (l : List Event) (a b : State × List Nat) : Prop :=
    ∃ t, a.1.Agree t b.1 ∧ a.2 = b.2 ∧ l.Pairwise Event.InOrder ∧
      ∀ oper req tick, Event.request oper req tick ∈ l → t ≤ tick
  have hstart : R events (State.start flash now, []) (State.start flash now, []) :=
    ⟨0, ⟨.refl 0 _, PAL2.Accounts.start.valid, PAL2.Accounts.start.valid, rfl, rfl⟩, rfl, horder,
      fun _ _ _ _ => Nat.zero_le _⟩
  refine (hfits.foldlM_silent Event.isRequest (R := R) ?_ ?_ hstart).mono ?_
  · rintro (⟨oper, req, tick⟩ | tick) l a b ⟨t, hagree, hsame, hin, hlater⟩ hev hvisible
    · have hle := hlater oper req tick List.mem_cons_self
      refine (request_agree hle hagree hsame hev).mono fun a' b' h => ⟨t, h.1, h.2, ?_, ?_⟩
      · exact hin.of_cons
      · exact fun oper' req' tick' hmem => hlater oper' req' tick' (List.mem_cons_of_mem _ hmem)
    · cases hvisible
  · rintro (⟨oper, req, tick⟩ | tick) l a b ⟨t, hagree, hsame, hin, hlater⟩ hev hvisible
    · cases hvisible
    · refine ⟨_, rfl, max t (tick - flushRange), flushFunction_agree hagree hev.1 hev.2, hsame,
        hin.of_cons, fun oper req arrived hmem => ?_⟩
      have hbehind : tick ≤ arrived + flushRange := List.rel_of_pairwise_cons hin hmem
      have := hlater oper req arrived (List.mem_cons_of_mem _ hmem)
      omega
  · rintro a b ⟨t, hagree, hsame, -⟩
    exact ⟨hsame, hagree.log, hagree.stat⟩

/-- The layer over `fourDies`, with its dies as blocks of the FTL. -/
def fourDies : PALOLD where
  param := PAL.fourDies.param
  pageAllocation := AddrIndex.all
  superblock _ := false
  useMultiplaneOP := false
  bRandomTweak := true

/-- A request for a page of a block, which is block 0 of one of the dies. -/
def Event.onDie (oper : Operation) (die page tick : Nat) : Event :=
  .request oper ⟨die, page, (Bitset.new 1).setAll⟩ tick

theorem flush_invisible_fourDies :
    Except.Same (fun a b => a.2 = b.2 ∧ a.1.log = b.1.log ∧ a.1.stat = b.1.stat)
      (run PAL.fourDies fourDies 0 [.onDie .read 0 0 30000000, .onDie .write 1 6 5,
        .flush 100000000000, .onDie .erase 0 0 90000000000])
      (run PAL.fourDies fourDies 0 ([.onDie .read 0 0 30000000, .onDie .write 1 6 5,
        .flush 100000000000, .onDie .erase 0 0 90000000000].filter Event.isRequest)) :=
  flush_invisible PAL.fourDies fourDies 0 _ (by decide +kernel) (by decide)

end Flush

/-! ### What the flash allows -/

section Bandwidth

variable {flash : Flash} {pal : PALOLD}

/-- The commands of an event. -/
def Event.commands (pal : PALOLD) : Event → List Command
  | .request oper req tick =>
    match pal.convertCPDPBP req with
    | .ok r => r.2.map fun addr => ⟨tick, oper, addr⟩
    | .error _ => []
  | .flush _ => []

/-- The ticks that the commands transfer over channel `c`. -/
def transferTime (flash : Flash) (c : Nat) (cmds : List Command) : Nat :=
  ((cmds.filter fun cmd => cmd.addr.channel = c).map fun cmd =>
    (flash.latencies cmd).latDMA0 + (flash.latencies cmd).latDMA1).sum

/-- The ticks that die `d` works for the commands, from their arrival there on. -/
def memoryTime (flash : Flash) (d : Nat) (cmds : List Command) : Nat :=
  ((cmds.filter fun cmd => flash.dieIdx cmd.addr = d).map fun cmd =>
    (flash.latencies cmd).latDMA0 + (flash.latencies cmd).latMEM).sum

/-- What a run has scheduled so far, for the commands `cmds`. -/
structure Scheduled (flash : Flash) (cmds : List Command) (s : State) : Prop where
  accounts : PAL2.Accounts (s.pal, s.log)
  commands : s.log.map Prod.fst = cmds.reverse
  timed : ∀ entry ∈ s.log, PAL2.Timed (flash.latencies entry.1) entry.1 entry.2
  placed : ∀ entry ∈ s.log, entry.2.channel = entry.1.addr.channel ∧
    entry.2.die = flash.dieIdx entry.1.addr

/-- What one page adds, and that the answer is no earlier. -/
theorem submit_scheduled {oper : Operation} {tick : Nat} {cmds : List Command}
    {acc acc' : State × Nat} {addr : CPDPBP} (h : Scheduled flash cmds acc.1)
    (hfits : FitsAt flash oper tick acc addr) (hcall : submit flash oper tick acc addr = .ok acc') :
    Scheduled flash (cmds ++ [⟨tick, oper, addr⟩]) acc'.1 ∧ acc.2 ≤ acc'.2 ∧
      ∃ entry, acc'.1.log = entry :: acc.1.log ∧ entry.2.finished ≤ acc'.2 := by
  obtain ⟨schedule, s', hsched, hserves⟩ := PAL2.timelineScheduling_spec h.accounts.valid hfits
  rw [submit, hsched] at hcall
  cases hcall
  refine ⟨⟨h.accounts.submit hserves, ?_, ?_, ?_⟩, ?_, (_, schedule), rfl, ?_⟩
  · show _ :: acc.1.log.map Prod.fst = _
    rw [h.commands, List.reverse_append]
    rfl
  · exact List.forall_mem_cons.mpr ⟨hserves.timed, h.timed⟩
  · exact List.forall_mem_cons.mpr ⟨⟨hserves.channel, hserves.die⟩, h.placed⟩
  · dsimp only
    split <;> omega
  · dsimp only
    split <;> omega

/-- What the loop over the pages adds. -/
theorem foldlM_submit_scheduled {oper : Operation} {tick : Nat} {list : List CPDPBP}
    {cmds : List Command} {acc acc' : State × Nat} (h : Scheduled flash cmds acc.1)
    (hfits : Run.Along (submit flash oper tick) (FitsAt flash oper tick) acc list)
    (hloop : list.foldlM (submit flash oper tick) acc = .ok acc') :
    Scheduled flash (cmds ++ list.map fun addr => ⟨tick, oper, addr⟩) acc'.1 ∧ acc.2 ≤ acc'.2 ∧
      ∀ entry ∈ acc'.1.log, entry ∈ acc.1.log ∨ entry.2.finished ≤ acc'.2 := by
  induction list generalizing cmds acc with
  | nil =>
    rw [List.foldlM_nil, Except.pure_eq_ok] at hloop
    subst hloop
    rw [List.map_nil, List.append_nil]
    exact ⟨h, le_rfl, fun entry hentry => .inl hentry⟩
  | cons addr list ih =>
    rw [List.foldlM_cons, Except.bind_eq_ok] at hloop
    obtain ⟨acc₁, hstep, hrest⟩ := hloop
    obtain ⟨h₁, hle₁, entry₁, hlog₁, hentry₁⟩ := submit_scheduled h hfits.1 hstep
    obtain ⟨h₂, hle₂, hnew⟩ := ih h₁ (hfits.2.of_ok hstep) hrest
    rw [List.append_assoc] at h₂
    refine ⟨h₂, hle₁.trans hle₂, fun entry hentry => ?_⟩
    rcases hnew entry hentry with hold | hdone
    · rw [hlog₁] at hold
      rcases List.mem_cons.mp hold with rfl | hold
      · exact .inr (hentry₁.trans hle₂)
      · exact .inl hold
    · exact .inr hdone

/-- What a run keeps: everything scheduled has finished when its request is answered. -/
structure Answered (flash : Flash) (cmds : List Command) (acc : State × List Nat) : Prop where
  scheduled : Scheduled flash cmds acc.1
  finished : ∀ entry ∈ acc.1.log, ∃ f ∈ acc.2, entry.2.finished ≤ f

theorem Event.exec_answered {cmds : List Command} {acc acc' : State × List Nat} {event : Event}
    (h : Answered flash cmds acc) (hfits : event.Fits flash pal acc)
    (hexec : event.exec flash pal acc = .ok acc') :
    Answered flash (cmds ++ event.commands pal) acc' := by
  cases event with
  | request oper req tick =>
    rw [Event.exec, call_eq, access] at hexec
    simp only [Except.bind_eq_ok] at hexec
    obtain ⟨⟨s, req', finishedAt⟩, ⟨r, hconvert, ⟨s', f⟩, hloop, hret⟩, hacc⟩ := hexec
    cases hret
    cases hacc
    obtain ⟨hsched, -, hnew⟩ := foldlM_submit_scheduled
      (show Scheduled flash cmds (acc.1, tick).1 from h.scheduled)
      (hfits.of_ok hconvert) hloop
    rw [Event.commands, hconvert]
    refine ⟨hsched, fun entry hentry => ?_⟩
    rcases hnew entry hentry with hold | hdone
    · obtain ⟨f', hf', hle⟩ := h.finished entry hold
      exact ⟨f', List.mem_cons_of_mem _ hf', hle⟩
    · exact ⟨_, List.mem_cons_self, hdone⟩
  | flush tick =>
    cases hexec
    rw [Event.commands, List.append_nil]
    exact ⟨⟨h.scheduled.accounts.flush _, h.scheduled.commands, h.scheduled.timed,
      h.scheduled.placed⟩, h.finished⟩

theorem run_answered {now : Nat} {events : List Event} {acc : State × List Nat}
    (hfits : Run.Along (Event.exec flash pal) (Event.Fits flash pal) (State.start flash now, [])
      events)
    (hrun : run flash pal now events = .ok acc) :
    Answered flash (events.flatMap fun event => event.commands pal) acc := by
  refine hfits.foldlM_done (I := fun done acc =>
    Answered flash (done.flatMap fun event => event.commands pal) acc) ?_
      (List.nil_append events).symm ?_ hrun
  · intro done event rest s s' _ h hev hexec
    rw [List.flatMap_append, List.flatMap_singleton]
    exact Event.exec_answered h hev hexec
  · exact ⟨⟨PAL2.Accounts.start, rfl, by simp [State.start], by simp [State.start]⟩,
      by simp [State.start]⟩

/-- The ticks of a time slot, as a finite set. -/
def TimeSlot.span (ts : TimeSlot) : Finset Nat := Finset.Icc ts.StartTick ts.EndTick

theorem TimeSlot.coe_span (ts : TimeSlot) : (TimeSlot.span ts : Set Nat) = ts.ticks :=
  Finset.coe_Icc _ _

theorem transferTime_cons (c : Nat) (cmd : Command) (cmds : List Command) :
    transferTime flash c (cmd :: cmds) = (if cmd.addr.channel = c then
      (flash.latencies cmd).latDMA0 + (flash.latencies cmd).latDMA1 else 0) +
        transferTime flash c cmds := by
  rw [transferTime, List.filter_cons]
  split <;> simp_all [transferTime]

/-- The transfers over a channel take the time of its commands. -/
theorem sum_channelSlots (c : Nat) {log : List (Command × Schedule)}
    (htimed : ∀ entry ∈ log, PAL2.Timed (flash.latencies entry.1) entry.1 entry.2)
    (hplaced : ∀ entry ∈ log, entry.2.channel = entry.1.addr.channel) :
    (((channelSlots log c).map TimeSlot.span).map Finset.card).sum =
      transferTime flash c (log.map Prod.fst) := by
  induction log with
  | nil => rfl
  | cons entry log ih =>
    obtain ⟨ht, htimed⟩ := List.forall_mem_cons.mp htimed
    obtain ⟨hp, hplaced⟩ := List.forall_mem_cons.mp hplaced
    have hrest := ih htimed hplaced
    have hdma0 := ht.dma0
    have hdma1 := ht.dma1
    rw [channelSlots, List.flatMap_cons, ← channelSlots, List.map_append, List.map_append,
      List.sum_append, hrest, List.map_cons, transferTime_cons, ← hp]
    by_cases hc : entry.2.channel = c
    · have hcard₀ : (TimeSlot.span entry.2.tsDMA0).card = (flash.latencies entry.1).latDMA0 := by
        rw [TimeSlot.span, Nat.card_Icc]
        omega
      have hcard₁ : (TimeSlot.span entry.2.tsDMA1).card = (flash.latencies entry.1).latDMA1 := by
        rw [TimeSlot.span, Nat.card_Icc]
        omega
      simp [hc, hcard₀, hcard₁]
      omega
    · simp [hc]

/-- The slots of a die are those of the commands for it. -/
theorem dieSlots_eq (log : List (Command × Schedule)) (d : Nat) :
    dieSlots log d = (log.filter fun entry => entry.2.die = d).map fun entry => entry.2.tsMEM := by
  induction log with
  | nil => rfl
  | cons entry log ih =>
    rw [dieSlots, List.flatMap_cons, ← dieSlots, ih, List.filter_cons]
    split <;> simp_all

theorem transferTime_reverse (c : Nat) (cmds : List Command) :
    transferTime flash c cmds.reverse = transferTime flash c cmds :=
  (((List.reverse_perm cmds).filter _).map _).sum_eq

theorem memoryTime_reverse (d : Nat) (cmds : List Command) :
    memoryTime flash d cmds.reverse = memoryTime flash d cmds :=
  (((List.reverse_perm cmds).filter _).map _).sum_eq

/-- The transfers over a channel fit between the first arrival and the last finish. -/
theorem Scheduled.transferTime_le {cmds : List Command} {s : State} (h : Scheduled flash cmds s)
    {a b : Nat} (ha : ∀ cmd ∈ cmds, a ≤ cmd.arrived)
    (hb : ∀ entry ∈ s.log, entry.2.finished ≤ b) (c : Nat) :
    transferTime flash c cmds ≤ b + 1 - a := by
  have hapart : ((channelSlots s.log c).map TimeSlot.span).Pairwise Disjoint := by
    refine List.pairwise_map.mpr ((List.pairwise_map.mp (h.accounts.channels c).apart).imp ?_)
    intro ts ts' hdisjoint
    rw [← Finset.disjoint_coe, TimeSlot.coe_span, TimeSlot.coe_span]
    exact hdisjoint
  have hsub : ∀ part ∈ (channelSlots s.log c).map TimeSlot.span, part ⊆ Finset.Ico a (b + 1) := by
    intro part hpart
    obtain ⟨ts, hts, rfl⟩ := List.mem_map.mp hpart
    obtain ⟨entry, hentry, hin⟩ := List.mem_flatMap.mp hts
    have ht := h.timed entry hentry
    have hfinished := hb entry hentry
    have harrived : a ≤ entry.1.arrived := by
      refine ha _ (List.mem_reverse.mp ?_)
      rw [← h.commands]
      exact List.mem_map_of_mem hentry
    obtain ⟨h₁, h₂, h₃, -, h₅, -, h₇⟩ := ht
    intro x hx
    obtain ⟨hx₁, hx₂⟩ := Finset.mem_Icc.mp hx
    rw [Finset.mem_Ico]
    split at hin
    · simp only [List.mem_cons, List.not_mem_nil, or_false] at hin
      rcases hin with rfl | rfl <;> omega
    · cases hin
  have hsum := Ledger.sum_card_le hapart hsub
  rw [sum_channelSlots c h.timed fun entry hentry => (h.placed entry hentry).1, h.commands,
    transferTime_reverse, Nat.card_Ico] at hsum
  exact hsum

/-- The operations of a die fit there as well. -/
theorem Scheduled.memoryTime_le {cmds : List Command} {s : State} (h : Scheduled flash cmds s)
    {a b : Nat} (ha : ∀ cmd ∈ cmds, a ≤ cmd.arrived)
    (hb : ∀ entry ∈ s.log, entry.2.finished ≤ b) (d : Nat) :
    memoryTime flash d cmds ≤ b + 1 - a := by
  -- of its slot on the die, the part up to the second transfer
  let part (entry : Command × Schedule) : Finset Nat :=
    Finset.Ico entry.2.tsMEM.StartTick (entry.2.tsMEM.StartTick +
      ((flash.latencies entry.1).latDMA0 + (flash.latencies entry.1).latMEM))
  have hpart : ∀ entry ∈ s.log, (part entry : Set Nat) ⊆ entry.2.tsMEM.ticks := by
    intro entry hentry x hx
    have hmem := (h.timed entry hentry).mem
    rw [Finset.coe_Ico] at hx
    obtain ⟨hx₁, hx₂⟩ := hx
    exact ⟨hx₁, by omega⟩
  have hslots := (h.accounts.dies d).apart
  rw [dieSlots_eq, List.map_map, List.pairwise_map] at hslots
  have hapart : ((s.log.filter fun entry => entry.2.die = d).map part).Pairwise Disjoint := by
    refine List.pairwise_map.mpr (hslots.imp_of_mem ?_)
    intro entry entry' hentry hentry' hdisjoint
    rw [← Finset.disjoint_coe]
    exact hdisjoint.mono (hpart entry (List.mem_filter.mp hentry).1)
      (hpart entry' (List.mem_filter.mp hentry').1)
  have hsub : ∀ p ∈ (s.log.filter fun entry => entry.2.die = d).map part,
      p ⊆ Finset.Ico a (b + 1) := by
    intro p hp
    obtain ⟨entry, hentry, rfl⟩ := List.mem_map.mp hp
    have hlog := (List.mem_filter.mp hentry).1
    have hfinished := hb entry hlog
    have harrived : a ≤ entry.1.arrived := by
      refine ha _ (List.mem_reverse.mp ?_)
      rw [← h.commands]
      exact List.mem_map_of_mem hlog
    obtain ⟨h₁, h₂, h₃, h₄, h₅, h₆, h₇⟩ := h.timed entry hlog
    refine Finset.Ico_subset_Ico (by omega) ?_
    omega
  have hsum := Ledger.sum_card_le hapart hsub
  have htime : (((s.log.filter fun entry => entry.2.die = d).map part).map Finset.card).sum =
      memoryTime flash d cmds := by
    have hsame : (s.log.filter fun entry => entry.2.die = d) =
        s.log.filter fun entry => flash.dieIdx entry.1.addr = d :=
      List.filter_congr fun entry hentry => by rw [(h.placed entry hentry).2]
    rw [← memoryTime_reverse, ← h.commands, memoryTime, List.filter_map, List.map_map,
      List.map_map, hsame]
    refine congrArg List.sum (List.map_congr_left fun entry _ => ?_)
    show (part entry).card = _
    rw [Nat.card_Ico, Nat.add_sub_cancel_left]
    rfl
  rw [htime, Nat.card_Ico] at hsum
  exact hsum

/-- No run answers its requests faster than the flash allows: from the first arrival to the
last answer there is time for all the transfers over any one channel, and for all the
operations of any one die. -/
theorem requests_bounded (flash : Flash) (pal : PALOLD) (now : Nat) (events : List Event)
    (hfits : Run.Along (Event.exec flash pal) (Event.Fits flash pal) (State.start flash now, [])
      events)
    {acc : State × List Nat} (hrun : run flash pal now events = .ok acc) {a b : Nat}
    (ha : ∀ cmd ∈ events.flatMap fun event => event.commands pal, a ≤ cmd.arrived)
    (hb : ∀ f ∈ acc.2, f ≤ b) :
    (∀ c, transferTime flash c (events.flatMap fun event => event.commands pal) ≤ b + 1 - a) ∧
      ∀ d, memoryTime flash d (events.flatMap fun event => event.commands pal) ≤ b + 1 - a := by
  obtain ⟨hsched, hfinished⟩ := run_answered hfits hrun
  have hlast : ∀ entry ∈ acc.1.log, entry.2.finished ≤ b := by
    intro entry hentry
    obtain ⟨f, hf, hle⟩ := hfinished entry hentry
    exact hle.trans (hb f hf)
  exact ⟨fun c => hsched.transferTime_le ha hlast c, fun d => hsched.memoryTime_le ha hlast d⟩

theorem requests_bounded_fourDies :
    ∃ acc, run PAL.fourDies fourDies 0 [.onDie .read 0 0 0, .onDie .write 1 6 5,
        .onDie .erase 0 0 100] = .ok acc ∧ (∀ f ∈ acc.2, f ≤ 2400000000) ∧
      (∀ c, transferTime PAL.fourDies c ([Event.onDie .read 0 0 0, .onDie .write 1 6 5,
        .onDie .erase 0 0 100].flatMap fun event => event.commands fourDies) ≤ 2400000001) ∧
      ∀ d, memoryTime PAL.fourDies d ([Event.onDie .read 0 0 0, .onDie .write 1 6 5,
        .onDie .erase 0 0 100].flatMap fun event => event.commands fourDies) ≤ 2400000001 := by
  obtain ⟨acc, hrun, hb⟩ := Except.exists_of_map
    (x := run PAL.fourDies fourDies 0 [.onDie .read 0 0 0, .onDie .write 1 6 5,
      .onDie .erase 0 0 100])
    (p := fun acc => ∀ f ∈ acc.2, f ≤ 2400000000) (by decide +kernel)
  exact ⟨acc, hrun, hb, requests_bounded PAL.fourDies fourDies 0 _ (by decide +kernel) hrun
    (a := 0) (fun _ _ => Nat.zero_le _) hb⟩

end Bandwidth

end PALOLD

end SimpleSSD.PAL
