import SimpleSSD.SIL.NVMe.PhaseTag

/-!
# One command at a time

The driver starts with a dialogue over its admin queues: the callback of a command reads the
response, and submits the next command (sil/nvme/nvme.cc:58–303). Between the two sides lie the
rings, the transfers by DMA, the FIFOs of the controller and the interrupt, and their steps come in
any order.

`Exchange` is the dialogue as a conversation: a command is answered as soon as it is submitted, and
its callback called. `Link` is the dialogue as it takes place. Whatever the order of the steps, a
link has got as far as some number of turns of the conversation (`Follows`), it stops with a fault
only where the conversation does, and every round of the six steps takes it a turn further.
-/

namespace SimpleSSD.SIL.NVMe

variable {C σ τ : Type}

/-! ### Conversations -/

/-- The two sides. The controller, with the memory of the host, takes commands when it is ready. It
answers a command, or it never does. The callback of a command may submit the next one. -/
structure Dialogue (C σ τ : Type) where
  ready : τ → Bool
  answer : τ → C → Except Fault (Option (BitVec 32 × BitVec 15) × τ)
  callback : σ → τ → BitVec 32 → BitVec 15 → Except Fault (σ × Option C)

/-- Where a conversation stands, with the command that is to be answered next. -/
structure Exchange (C σ τ : Type) where
  host : σ
  controller : τ
  next : Option C

/-- A command is answered, and its callback called. -/
def Dialogue.turn (D : Dialogue C σ τ) (x : Exchange C σ τ) : Except Fault (Exchange C σ τ) :=
  match x.next with
  | none => .ok x
  | some cmd => do
    let (reply, controller) ← D.answer x.controller cmd
    match reply with
    | none => .ok ⟨x.host, controller, none⟩
    | some (dw0, status) => do
      let (host, next) ← D.callback x.host controller dw0 status
      .ok ⟨host, controller, next⟩

section Turn

variable {D : Dialogue C σ τ} {host : σ} {controller controller' : τ} {cmd : C}

theorem Dialogue.turn_error {f : Fault} (h : D.answer controller cmd = .error f) :
    D.turn ⟨host, controller, some cmd⟩ = .error f := by
  show D.answer controller cmd >>= _ = _
  rw [h]
  rfl

theorem Dialogue.turn_never (h : D.answer controller cmd = .ok (none, controller')) :
    D.turn ⟨host, controller, some cmd⟩ = .ok ⟨host, controller', none⟩ := by
  show D.answer controller cmd >>= _ = _
  rw [h]
  rfl

theorem Dialogue.turn_answered (host : σ) {dw0 : BitVec 32} {status : BitVec 15}
    (h : D.answer controller cmd = .ok (some (dw0, status), controller')) :
    D.turn ⟨host, controller, some cmd⟩ =
      (D.callback host controller' dw0 status).map fun r => ⟨r.1, controller', r.2⟩ := by
  show D.answer controller cmd >>= _ = _
  rw [h]
  show D.callback host controller' dw0 status >>= _ = _
  cases D.callback host controller' dw0 status <;> rfl

end Turn

/-- So many turns. -/
def Dialogue.talk (D : Dialogue C σ τ) (x : Exchange C σ τ) : Nat → Except Fault (Exchange C σ τ)
  | 0 => .ok x
  | n + 1 => do
    let y ← D.talk x n
    D.turn y

/-- Answering keeps the controller ready. -/
def Dialogue.StaysReady (D : Dialogue C σ τ) : Prop :=
  ∀ controller cmd r, D.answer controller cmd = .ok r → D.ready controller = true →
    D.ready r.2 = true

/-! ### Links -/

/-- The queues of the driver, the two sides, the number of commands that the controller has taken,
and the responses that wait in `lCQFIFO`. -/
structure Link (C σ τ : Type) where
  driver : Driver C
  host : σ
  controller : τ
  executed : Nat
  responses : List (BitVec 32 × Nat × BitVec 15)

namespace Link

/-- What can happen on the admin queues. -/
inductive Event where
  | checkQueue
  | submitDMARead
  | execute
  | setData
  | submitDMAWrite
  | updateInterrupt
  deriving DecidableEq, Repr

def sq (s : Link C σ τ) : Submission C := s.driver.submission .admin

def cq (s : Link C σ τ) : Completion := s.driver.completion .admin

/-- A step of the queues. -/
def step (e : Driver.Event C) (s : Link C σ τ) : Except Fault (Link C σ τ) :=
  (s.driver.exec e).map fun driver => { s with driver }

/-- A callback has returned. -/
def resume (next : Option C) (s : Link C σ τ) : Link C σ τ :=
  match next with
  | none => s
  | some cmd => { s with driver := s.driver.submitCommand .admin cmd }

/-- The loop of `updateInterrupt` (sil/nvme/nvme.cc:568–611), for so many turns. A callback may only
submit, and commutes with the removal of its entry. -/
def interrupt (D : Dialogue C σ τ) : Nat → Link C σ τ → Except Fault (Link C σ τ)
  | 0, _ => .error (.diverges "Driver::updateInterrupt")
  | turns + 1, s =>
    let cqdata := s.cq.queue.peekData
    if cqdata.phase = s.driver.phase then do
      let s ← s.step (.updateInterrupt .admin)
      let (host, next) ← D.callback s.host s.controller cqdata.dw0 cqdata.status
      interrupt D turns ({ s with host }.resume next)
    else s.step (.updateInterrupt .admin)

/-- The controller collects commands when it is ready (controller.cc:1391–1393), and takes them in
their order. The loop of the driver ends behind the entries that have been written. -/
def exec (D : Dialogue C σ τ) (s : Link C σ τ) : Event → Except Fault (Link C σ τ)
  | .checkQueue => if D.ready s.controller then s.step (.checkQueue .admin) else .ok s
  | .submitDMARead => s.step (.submitDMARead .admin)
  | .execute =>
    match s.sq.fetched[s.executed]? with
    | none => .ok s
    | some (cid, cmd) => do
      let (reply, controller) ← D.answer s.controller cmd
      .ok { s with
        controller
        executed := s.executed + 1
        responses := s.responses ++ (reply.map fun r => (r.1, cid, r.2)).toList }
  | .setData =>
    match s.responses with
    | [] => .ok s
    | (dw0, cid, status) :: rest =>
      { s with responses := rest }.step (.setData .admin dw0 cid status)
  | .submitDMAWrite => s.step (.submitDMAWrite .admin)
  | .updateInterrupt => s.interrupt D (s.cq.written.length - s.cq.consumed.length + 1)

/-- The driver has submitted its first command. -/
def boot [Inhabited C] (cfg : DriverConfig) (host : σ) (controller : τ) (cmd : C) : Link C σ τ where
  driver := cfg.start.submitCommand .admin cmd
  host := host
  controller := controller
  executed := 0
  responses := []

/-! ### How far a link has got -/

/-- The queues are in order, and those for I/O are not in use. -/
structure Steady (d : Driver C) (executed : Nat) : Prop where
  ordered : d.Ordered
  tagged : d.Tagged
  slots : 1 < (d.submission .admin).queue.entries ∧ 1 < (d.completion .admin).queue.entries
  idle : (d.completion .io).consumed = []
  executed : executed ≤ (d.submission .admin).fetched.length

/-- The driver has announced what it has consumed. -/
structure Sound (s : Link C σ τ) : Prop where
  steady : Steady s.driver s.executed
  count : s.cq.count = 0

/-- What tells how far a link has got. -/
structure View (C σ τ : Type) where
  host : σ
  controller : τ
  executed : Nat
  responses : List (BitVec 32 × Nat × BitVec 15)
  submitted : List (Nat × C)
  posted : List CQEntry
  consumed : List CQEntry
  pendingCommandList : List (QueueID × Nat)

def view (s : Link C σ τ) : View C σ τ :=
  ⟨s.host, s.controller, s.executed, s.responses, s.sq.submitted, s.cq.posted, s.cq.consumed,
    s.driver.pendingCommandList⟩

/-- The link has got as far as the conversation: its command is on the way to the controller, or
its answer is on the way back, or there is nothing left to be done. -/
inductive Follows (D : Dialogue C σ τ) : View C σ τ → Exchange C σ τ → Prop
  | waiting {v : View C σ τ} {cid : Nat} {cmd : C} (done : List (Nat × C))
      (submitted : v.submitted = done ++ [(cid, cmd)])
      (executed : v.executed = done.length)
      (consumed : v.consumed.length = done.length)
      (posted : v.posted = v.consumed)
      (responses : v.responses = [])
      (pending : v.pendingCommandList = [(.admin, cid)]) :
      Follows D v ⟨v.host, v.controller, some cmd⟩
  | answered {v : View C σ τ} {cid : Nat} {cmd : C} {controller : τ} {dw0 : BitVec 32}
      {status : BitVec 15}
      (answer : D.answer controller cmd = .ok (some (dw0, status), v.controller))
      (executed : v.executed = v.submitted.length)
      (consumed : v.consumed.length + 1 = v.submitted.length)
      (reply : v.responses = [(dw0, cid, status)] ∧ v.posted = v.consumed ∨
        v.responses = [] ∧ ∃ phase, v.posted = v.consumed ++ [⟨dw0, cid, status, phase⟩])
      (pending : v.pendingCommandList = [(.admin, cid)]) :
      Follows D v ⟨v.host, controller, some cmd⟩
  | ended {v : View C σ τ}
      (executed : v.executed = v.submitted.length)
      (posted : v.posted = v.consumed)
      (responses : v.responses = []) :
      Follows D v ⟨v.host, v.controller, none⟩

/-- The steps that have been taken. -/
def progress (s : Link C σ τ) : Nat :=
  2 * s.sq.fetched.length + s.sq.dmaReadQueue.length + s.executed + s.cq.posted.length +
    s.cq.written.length + s.cq.consumed.length

/-- The place of a step in a round. -/
def Event.place : Event → Nat
  | .checkQueue => 0
  | .submitDMARead => 1
  | .execute => 2
  | .setData => 3
  | .submitDMAWrite => 4
  | .updateInterrupt => 5

/-- How much there is for a step to do. -/
def work (s : Link C σ τ) : Event → Nat
  | .checkQueue => s.sq.pSQueue.getItemCount
  | .submitDMARead => s.sq.dmaReadQueue.length
  | .execute => s.sq.fetched.length - s.executed
  | .setData => s.responses.length
  | .submitDMAWrite => s.cq.dmaWriteQueue.length
  | .updateInterrupt => s.cq.written.length - s.cq.consumed.length

/-- A step that takes the link from `x` to `y`: it goes on with the command, or it ends a turn. A
step whose turn it is gets the link further. -/
structure Went (D : Dialogue C σ τ) (e : Event) (x y : Exchange C σ τ) (s s' : Link C σ τ) :
    Prop where
  sound : Sound s'
  follows : Follows D s'.view y
  turn : y = x ∧ s'.cq.consumed.length = s.cq.consumed.length ∨
    D.turn x = .ok y ∧ (y.next ≠ none → s'.cq.consumed.length = s.cq.consumed.length + 1)
  progress : s.progress ≤ s'.progress
  due : D.ready s.controller = true → s.progress % 6 = e.place → y.next ≠ none →
    s.progress < s'.progress

section Steps

variable {D : Dialogue C σ τ} {x y : Exchange C σ τ} {s s' : Link C σ τ} {d : Driver C} {n : Nat}

/-! ### The queues -/

theorem Steady.submitted (h : Steady s.driver s.executed) : s.sq.submitted.length =
    s.sq.fetched.length + (s.sq.dmaReadQueue.length + s.sq.pSQueue.getItemCount) :=
  (h.ordered.submission .admin).intact.length

theorem Steady.posted (h : Steady s.driver s.executed) :
    s.cq.posted.length = s.cq.written.length + s.cq.dmaWriteQueue.length := by
  have hposted : s.cq.posted = _ := (h.tagged.completion .admin).posted
  rw [hposted, List.length_append, List.length_map]
  rfl

theorem Steady.consumed (h : Steady s.driver s.executed) :
    s.cq.consumed.length ≤ s.cq.written.length :=
  (h.tagged.completion .admin).consumed_le

theorem Steady.inStep (h : Steady d n) : d.InStep (.updateInterrupt .admin) := by
  show (d.completion .io).consumed.length / _ % 2 = 0
  rw [h.idle, List.length_nil, Nat.zero_div]

theorem Steady.setSubmission (h : Steady d n) {q : Submission C} (hq : q.Ordered)
    (hqueue : q.queue = (d.submission .admin).queue)
    (hfetched : (d.submission .admin).fetched.length ≤ q.fetched.length) :
    Steady (d.setSubmission .admin q) n where
  ordered := h.ordered.setSubmission .admin hq
  tagged := ⟨h.tagged.completion, h.tagged.phase, h.tagged.pending⟩
  slots := ⟨(congrArg Queue.entries hqueue).symm ▸ h.slots.1, h.slots.2⟩
  idle := h.idle
  executed := h.executed.trans hfetched

theorem Steady.setCompletion (h : Steady d n) {q : Completion}
    (htagged : (d.setCompletion .admin q).Tagged)
    (hentries : q.queue.entries = (d.completion .admin).queue.entries) :
    Steady (d.setCompletion .admin q) n where
  ordered := h.ordered.setCompletion .admin (htagged.completion .admin).ring
  tagged := htagged
  slots := ⟨h.slots.1, hentries.symm ▸ h.slots.2⟩
  idle := h.idle
  executed := h.executed

/-- A command is collected. -/
theorem collected_checkQueue (q : Submission C) : ∃ n, (0 < q.pSQueue.getItemCount → 0 < n) ∧
    q.checkQueue.queue = q.queue ∧ q.checkQueue.fetched = q.fetched ∧
    q.checkQueue.dmaReadQueue.length = q.dmaReadQueue.length + n := by
  rw [Submission.checkQueue]
  split
  · exact ⟨1, fun _ => Nat.one_pos, rfl, rfl, List.length_append⟩
  · next hnone => exact ⟨0, fun h => absurd h hnone, rfl, rfl, rfl⟩

/-- A command is read. -/
theorem fetched_submitDMARead (q : Submission C) : ∃ n, (0 < q.dmaReadQueue.length → 0 < n) ∧
    q.submitDMARead.queue = q.queue ∧ q.submitDMARead.fetched.length = q.fetched.length + n ∧
    q.submitDMARead.dmaReadQueue.length + n = q.dmaReadQueue.length := by
  rw [Submission.submitDMARead]
  split
  · next hnil => exact ⟨0, fun h => by rwa [hnil] at h, rfl, rfl, rfl⟩
  · next slot rest hcons =>
    exact ⟨1, fun _ => Nat.one_pos, rfl, List.length_append, by rw [hcons]; rfl⟩

/-- An entry is posted. -/
theorem posted_setData {q q' : Completion} {dw0 : BitVec 32} {cid : Nat} {status : BitVec 15}
    (h : q.setData dw0 cid status = .ok q') : ∃ phase, q'.queue = q.queue ∧ q'.count = q.count ∧
      q'.posted = q.posted ++ [⟨dw0, cid, status, phase⟩] ∧ q'.written = q.written ∧
      q'.consumed = q.consumed := by
  rw [Completion.setData, Except.map_eq_ok] at h
  obtain ⟨r, -, rfl⟩ := h
  exact ⟨r.1.2, rfl, rfl, rfl, rfl, rfl⟩

/-- An entry is written. -/
theorem written_submitDMAWrite (q : Completion) : ∃ n, (0 < q.dmaWriteQueue.length → 0 < n) ∧
    q.submitDMAWrite.queue.entries = q.queue.entries ∧ q.submitDMAWrite.count = q.count ∧
    q.submitDMAWrite.posted = q.posted ∧
    q.submitDMAWrite.written.length = q.written.length + n ∧
    q.submitDMAWrite.consumed = q.consumed := by
  rw [Completion.submitDMAWrite]
  split
  · next hnil => exact ⟨0, fun h => by rwa [hnil] at h, rfl, rfl, rfl, rfl, rfl⟩
  · exact ⟨1, fun _ => Nat.one_pos, rfl, rfl, rfl, List.length_append, rfl⟩

/-- The doorbell. -/
theorem ringHead_count (q : Completion) : q.ringHead.queue = q.queue ∧ q.ringHead.count = 0 ∧
    q.ringHead.posted = q.posted ∧ q.ringHead.written = q.written ∧
    q.ringHead.consumed = q.consumed := by
  rw [Completion.ringHead]
  split
  · exact ⟨rfl, rfl, rfl, rfl, rfl⟩
  · next hcount => exact ⟨rfl, Nat.eq_zero_of_not_pos hcount, rfl, rfl, rfl⟩

/-! ### Whose turn it is -/

/-- While there is a command, one more has been submitted than completions consumed. -/
theorem Follows.counts (h : Follows D s.view x) (hx : x.next ≠ none) :
    s.sq.submitted.length = s.cq.consumed.length + 1 ∧
      (s.executed = s.cq.consumed.length ∧ s.cq.posted.length = s.cq.consumed.length ∧
          s.responses = [] ∨
        s.executed = s.cq.consumed.length + 1 ∧
          s.responses.length + s.cq.posted.length = s.cq.consumed.length + 1) := by
  cases h with
  | waiting done submitted executed consumed posted responses pending =>
    have hlength := congrArg List.length submitted
    rw [List.length_append, ← consumed] at hlength
    exact ⟨hlength, .inl ⟨executed.trans consumed.symm, congrArg List.length posted, responses⟩⟩
  | answered answer executed consumed reply pending =>
    refine ⟨consumed.symm, .inr ⟨executed.trans consumed.symm, ?_⟩⟩
    rcases reply with ⟨hresponses, hposted⟩ | ⟨hresponses, phase, hposted⟩
    · rw [show s.responses = _ from hresponses, show s.cq.posted = _ from hposted]
      exact Nat.add_comm _ _
    · rw [show s.responses = _ from hresponses, show s.cq.posted = _ from hposted,
        List.length_append, List.length_nil, Nat.zero_add]
      rfl
  | ended executed posted responses => exact absurd rfl hx

/-- The steps have something to do in turn. -/
theorem Follows.work_pos (h : Follows D s.view x) (hs : Sound s) (hx : x.next ≠ none) {e : Event}
    (hplace : s.progress % 6 = e.place) : 0 < s.work e := by
  obtain ⟨hsubmitted, hcounts⟩ := h.counts hx
  have hlengths := hs.steady.submitted
  have hposted := hs.steady.posted
  have hle := hs.steady.consumed
  have hexecuted : s.executed ≤ s.sq.fetched.length := hs.steady.executed
  have hresponses : s.responses = [] → s.responses.length = 0 := congrArg List.length
  rw [progress] at hplace
  -- the counts fix where the command is, and the progress modulo 6 counts its steps so far
  cases e <;> simp only [work, Event.place] at hplace ⊢ <;> omega

/-! ### The steps -/

/-- A step goes on with the command. -/
theorem Went.keep {e : Event} (hs : Sound s) (h : Follows D s.view x) (hs' : Sound s')
    (h' : Follows D s'.view x) (hconsumed : s'.cq.consumed = s.cq.consumed)
    (hprogress : s'.progress = s.progress + n)
    (hn : D.ready s.controller = true → 0 < s.work e → 0 < n) : Went D e x x s s' where
  sound := hs'
  follows := h'
  turn := .inl ⟨rfl, congrArg List.length hconsumed⟩
  progress := by omega
  due hready hplace hx := by
    have := hn hready (h.work_pos hs hx hplace)
    omega

/-- There is nothing to do. -/
theorem Went.refl {e : Event} (hs : Sound s) (h : Follows D s.view x)
    (hwork : D.ready s.controller = true → s.work e = 0) : Went D e x x s s :=
  .keep hs h hs h rfl (n := 0) rfl fun hready hpos => hwork hready ▸ hpos

theorem Went.setSubmission {e : Event} (hs : Sound s) (h : Follows D s.view x) {q : Submission C}
    (hq : q.Ordered) (hqueue : q.queue = s.sq.queue) (hsubmitted : q.submitted = s.sq.submitted)
    (hfetched : s.sq.fetched.length ≤ q.fetched.length)
    (hprogress : 2 * q.fetched.length + q.dmaReadQueue.length =
      2 * s.sq.fetched.length + s.sq.dmaReadQueue.length + n)
    (hn : 0 < s.work e → 0 < n) :
    Went D e x x s { s with driver := s.driver.setSubmission .admin q } := by
  refine .keep hs h ⟨hs.steady.setSubmission hq hqueue hfetched, hs.count⟩ ?_ rfl ?_ fun _ => hn
  · show Follows D { s.view with submitted := q.submitted } x
    rw [hsubmitted]
    exact h
  · show 2 * q.fetched.length + q.dmaReadQueue.length + s.executed + s.cq.posted.length +
      s.cq.written.length + s.cq.consumed.length = s.progress + n
    rw [Link.progress]
    omega

theorem went_checkQueue (hs : Sound s) (h : Follows D s.view x) :
    ∃ s', s.exec D .checkQueue = .ok s' ∧ Went D .checkQueue x x s s' := by
  rw [exec]
  split
  · obtain ⟨n, hn, hqueue, hfetched, hlength⟩ := collected_checkQueue s.sq
    refine ⟨_, rfl, .setSubmission hs h (hs.steady.ordered.submission .admin).checkQueue hqueue
      (Submission.submitted_checkQueue _) (congrArg List.length hfetched).ge (n := n) ?_ hn⟩
    show 2 * s.sq.checkQueue.fetched.length + s.sq.checkQueue.dmaReadQueue.length = _
    rw [hfetched, hlength, Nat.add_assoc]
  · next hready => exact ⟨s, rfl, .refl hs h fun hr => absurd hr hready⟩

theorem went_submitDMARead (hs : Sound s) (h : Follows D s.view x) :
    ∃ s', s.exec D .submitDMARead = .ok s' ∧ Went D .submitDMARead x x s s' := by
  obtain ⟨n, hn, hqueue, hfetched, hlength⟩ := fetched_submitDMARead s.sq
  refine ⟨_, rfl, .setSubmission hs h (hs.steady.ordered.submission .admin).submitDMARead hqueue
    (Submission.submitted_submitDMARead _) (hfetched.ge.trans' (Nat.le_add_right _ _))
    (n := n) ?_ hn⟩
  show 2 * s.sq.submitDMARead.fetched.length + s.sq.submitDMARead.dmaReadQueue.length = _
  omega

/-- What the controller takes next is the command that waits. -/
theorem Steady.fetched (h : Steady s.driver s.executed) {done : List (Nat × C)} {last : Nat × C}
    (hsubmitted : s.sq.submitted = done ++ [last]) (hlt : done.length < s.sq.fetched.length) :
    s.sq.fetched[done.length]? = some last := by
  have hintact : s.sq.fetched ++ _ = s.sq.submitted := (h.ordered.submission .admin).intact
  rw [← List.getElem?_append_left hlt, hintact, hsubmitted]
  exact List.getElem?_concat_length

theorem went_execute (hs : Sound s) (h : Follows D s.view x) :
    (s.exec D .execute).Sat (fun s' => ∃ y, Went D .execute x y s s')
      fun f => D.turn x = .error f := by
  have hlengths := hs.steady.submitted
  rw [exec]
  split
  · next hnone =>
    refine ⟨x, .refl hs h fun _ => ?_⟩
    exact Nat.sub_eq_zero_of_le (List.getElem?_eq_none_iff.mp hnone)
  · next cid cmd hsome =>
    obtain ⟨hlt, -⟩ := List.getElem?_eq_some_iff.mp hsome
    have hall : s.executed ≠ s.sq.submitted.length := by omega
    have h₀ := h
    -- there is a command to take, so it is the one that waits
    cases h with
    | answered answer executed consumed reply pending => exact absurd executed hall
    | ended executed posted responses => exact absurd executed hall
    | waiting done submitted executed consumed posted responses pending =>
      have hdone : s.executed = done.length := executed
      have hlast := hs.steady.fetched submitted (hdone ▸ hlt)
      rw [← hdone, hsome] at hlast
      cases hlast
      have hlength : s.sq.submitted.length = s.executed + 1 := by
        rw [hdone, show s.sq.submitted = _ from submitted, List.length_append]
        rfl
      have hsound (controller : τ) (responses : List (BitVec 32 × Nat × BitVec 15)) :
          Sound { s with controller, executed := s.executed + 1, responses } :=
        ⟨⟨hs.steady.ordered, hs.steady.tagged, hs.steady.slots, hs.steady.idle, hlt⟩, hs.count⟩
      have hprogress (controller : τ) (responses : List (BitVec 32 × Nat × BitVec 15)) :
          progress { s with controller, executed := s.executed + 1, responses } =
            s.progress + 1 := by
        rw [progress, progress]
        show 2 * s.sq.fetched.length + s.sq.dmaReadQueue.length + (s.executed + 1) +
          s.cq.posted.length + s.cq.written.length + s.cq.consumed.length = _
        omega
      rw [show s.responses = [] from responses]
      cases hanswer : D.answer s.controller cmd with
      | error f => exact Dialogue.turn_error hanswer
      | ok r =>
        obtain ⟨reply, controller⟩ := r
        cases reply with
        | none =>
          -- the command is never answered
          exact ⟨⟨s.host, controller, none⟩, hsound _ _, .ended hlength.symm posted rfl,
            .inr ⟨Dialogue.turn_never hanswer, fun hne => absurd rfl hne⟩,
            (hprogress _ _).ge.trans' (Nat.le_succ _), fun _ _ hne => absurd rfl hne⟩
        | some r =>
          refine ⟨_, .keep hs h₀ (hsound _ _) (.answered hanswer hlength.symm ?_
            (.inl ⟨rfl, posted⟩) pending) rfl (hprogress _ _) fun _ _ => Nat.one_pos⟩
          show s.cq.consumed.length + 1 = s.sq.submitted.length
          rw [hlength, hdone]
          exact congrArg (· + 1) consumed

theorem went_setData (hs : Sound s) (h : Follows D s.view x) :
    ∃ s', s.exec D .setData = .ok s' ∧ Went D .setData x x s s' := by
  rw [exec]
  split
  · next hnil => exact ⟨s, rfl, .refl hs h fun _ => congrArg List.length hnil⟩
  · next dw0 cid status rest hcons =>
    have h₀ := h
    have hsome : s.responses ≠ [] := by
      rw [hcons]
      exact List.cons_ne_nil _ _
    cases h with
    | waiting done submitted executed consumed posted responses pending =>
      exact absurd responses hsome
    | ended executed posted responses => exact absurd responses hsome
    | answered answer executed consumed reply pending =>
      obtain ⟨hresponses, posted⟩ := reply.resolve_right fun hnone => hsome hnone.1
      obtain ⟨heq, rfl⟩ := List.cons.inj (hcons.symm.trans hresponses)
      cases heq
      -- nothing else is to be consumed, and there is room
      have hnone : s.cq.posted = s.cq.consumed := posted
      have hcount := hs.count
      have hroom : s.cq.outstanding + 1 < s.cq.queue.entries := by
        have hslots : 1 < s.cq.queue.entries := hs.steady.slots.2
        rw [Completion.outstanding, hnone]
        omega
      have hawaited : s.driver.Awaited (.setData .admin dw0 cid status) := by
        refine ⟨?_, hroom⟩
        show ((s.cq.posted.drop s.cq.consumed.length).map CQEntry.commandID).count cid <
          s.view.pendingCommandList.count _
        rw [pending, hnone, List.drop_length, List.count_singleton_self]
        exact Nat.one_pos
      obtain ⟨q, hq⟩ := (hs.steady.tagged.completion .admin).exists_setData hroom dw0 cid status
      have hexec : s.driver.exec (.setData .admin dw0 cid status) =
          .ok (s.driver.setCompletion .admin q) := by
        rw [Driver.exec, hq]
        rfl
      have htagged := Driver.exec_tagged hs.steady.tagged hawaited trivial hexec
      obtain ⟨phase, hqueue, hcount', hposted', hwritten', hconsumed'⟩ := posted_setData hq
      refine ⟨{ s with responses := [], driver := s.driver.setCompletion .admin q }, ?_,
        .keep hs h₀ ⟨hs.steady.setCompletion htagged (congrArg Queue.entries hqueue),
          hcount'.trans hcount⟩
        (.answered answer executed ?_ (.inr ⟨rfl, phase, ?_⟩) pending)
        hconsumed' (n := 1) ?_ fun _ _ => Nat.one_pos⟩
      · rw [step, hexec]
        rfl
      · show q.consumed.length + 1 = s.sq.submitted.length
        rw [hconsumed']
        exact consumed
      · show q.posted = q.consumed ++ _
        rw [hposted', hconsumed']
        exact congrArg (· ++ _) hnone
      · show 2 * s.sq.fetched.length + s.sq.dmaReadQueue.length + s.executed + q.posted.length +
          q.written.length + q.consumed.length = s.progress + 1
        rw [hposted', hwritten', hconsumed', List.length_append, progress]
        show _ + (s.cq.posted.length + 1) + s.cq.written.length + s.cq.consumed.length = _
        omega

theorem went_submitDMAWrite (hs : Sound s) (h : Follows D s.view x) :
    ∃ s', s.exec D .submitDMAWrite = .ok s' ∧ Went D .submitDMAWrite x x s s' := by
  obtain ⟨n, hn, hentries, hcount, hposted, hwritten, hconsumed⟩ := written_submitDMAWrite s.cq
  have htagged : (s.driver.setCompletion .admin s.cq.submitDMAWrite).Tagged :=
    Driver.exec_tagged (e := .submitDMAWrite .admin) hs.steady.tagged trivial trivial rfl
  refine ⟨_, rfl, .keep hs h ⟨hs.steady.setCompletion htagged hentries, hcount.trans hs.count⟩ ?_
    hconsumed (n := n) ?_ fun _ => hn⟩
  · show Follows D { s.view with
      posted := s.cq.submitDMAWrite.posted, consumed := s.cq.submitDMAWrite.consumed } x
    rw [hposted, hconsumed]
    exact h
  · show 2 * s.sq.fetched.length + s.sq.dmaReadQueue.length + s.executed +
      s.cq.submitDMAWrite.posted.length + s.cq.submitDMAWrite.written.length +
        s.cq.submitDMAWrite.consumed.length = s.progress + n
    rw [hposted, hwritten, hconsumed, progress]
    omega

/-- The loop of the driver ends when there is no entry left, and rings the doorbell. -/
theorem Steady.ring (h : Steady s.driver s.executed)
    (hnone : s.cq.written.length ≤ s.cq.consumed.length) (D : Dialogue C σ τ) (turns : Nat) :
    ∃ s', s.interrupt D (turns + 1) = .ok s' ∧ Sound s' ∧ s'.view = s.view ∧
      s'.progress = s.progress := by
  obtain ⟨hqueue, hcount, hposted, hwritten, hconsumed⟩ := ringHead_count s.cq
  have hphase : s.cq.queue.peekData.phase ≠ s.driver.phase := fun hphase => by
    have hlt : s.cq.consumed.length < s.cq.written.length :=
      (h.tagged.phase_peekData_iff h.inStep).mp hphase
    omega
  have hexec : s.driver.exec (.updateInterrupt .admin) =
      .ok (s.driver.setCompletion .admin s.cq.ringHead) := by
    rw [Driver.exec, Driver.updateInterrupt]
    exact if_neg hphase
  have htagged := Driver.exec_tagged (e := .updateInterrupt .admin) h.tagged trivial h.inStep hexec
  refine ⟨{ s with driver := s.driver.setCompletion .admin s.cq.ringHead }, ?_,
    ⟨h.setCompletion htagged (congrArg Queue.entries hqueue), hcount⟩, ?_, ?_⟩
  · rw [interrupt]
    dsimp only
    rw [if_neg hphase, step, hexec]
    rfl
  · show { s.view with posted := s.cq.ringHead.posted, consumed := s.cq.ringHead.consumed } = _
    rw [hposted, hconsumed]
    rfl
  · show 2 * s.sq.fetched.length + s.sq.dmaReadQueue.length + s.executed +
      s.cq.ringHead.posted.length + s.cq.ringHead.written.length +
        s.cq.ringHead.consumed.length = _
    rw [hposted, hwritten, hconsumed]
    rfl

/-- An entry is there only when the controller has answered, and then it is the answer. -/
theorem Follows.arrived (h : Follows D s.view x) (hs : Sound s)
    (hlt : s.cq.consumed.length < s.cq.written.length) :
    ∃ cmd controller, x = ⟨s.host, controller, some cmd⟩ ∧
      D.answer controller cmd =
        .ok (some (s.cq.queue.peekData.dw0, s.cq.queue.peekData.status), s.controller) ∧
      s.executed = s.sq.submitted.length ∧ s.cq.consumed.length + 1 = s.sq.submitted.length ∧
      s.responses = [] ∧
      s.driver.pendingCommandList = [(.admin, s.cq.queue.peekData.commandID)] ∧
      s.cq.posted = s.cq.consumed ++ [s.cq.queue.peekData] ∧
      s.cq.written.length = s.cq.consumed.length + 1 := by
  have hall := hs.steady.posted
  have hnotEmpty : s.cq.posted ≠ s.cq.consumed := fun heq => by
    have heq := congrArg List.length heq
    omega
  cases h with
  -- nothing is posted while the command waits, or when all has ended
  | waiting done submitted executed consumed posted responses pending =>
    exact absurd posted hnotEmpty
  | ended executed posted responses => exact absurd posted hnotEmpty
  | answered answer executed consumed reply pending =>
    obtain ⟨hresponses, phase, posted⟩ := reply.resolve_left fun hnone => hnotEmpty hnone.2
    have hpeek : s.cq.posted.drop s.cq.consumed.length = s.cq.queue.peekData :: _ :=
      Driver.drop_consumed (hs.steady.tagged.completion .admin) hlt
    have hposted : s.cq.posted = s.cq.consumed ++ _ := posted
    rw [hposted, List.drop_left] at hpeek
    obtain ⟨hentry, -⟩ := List.cons.inj hpeek
    have hlength := congrArg List.length hposted
    rw [List.length_append, List.length_singleton] at hlength
    rw [← hentry]
    exact ⟨_, _, rfl, answer, executed, consumed, hresponses, pending, hposted, by omega⟩

/-- The driver takes over the entry that is there. -/
theorem Steady.consume (h : Steady s.driver s.executed)
    (hlt : s.cq.consumed.length < s.cq.written.length)
    (hpending : s.driver.pendingCommandList = [(.admin, s.cq.queue.peekData.commandID)]) :
    ∃ d, s.driver.exec (.updateInterrupt .admin) = .ok d ∧ Steady d s.executed ∧
      d.submission = s.driver.submission ∧ d.completion .admin = s.cq.consume ∧
      d.pendingCommandList = [] := by
  have hexec : s.driver.exec (.updateInterrupt .admin) =
      .ok { s.driver.setCompletion .admin s.cq.consume with
        phase := if s.cq.consume.queue.head = 0 then !s.driver.phase else s.driver.phase
        pendingCommandList :=
          s.driver.pendingCommandList.erase (.admin, s.cq.queue.peekData.commandID) } := by
    rw [Driver.exec, Driver.updateInterrupt]
    dsimp only
    rw [if_pos ((h.tagged.phase_peekData_iff h.inStep).mpr hlt), if_pos (h.tagged.mem_pending hlt)]
    rfl
  refine ⟨_, hexec, ⟨?_, ?_, h.slots, h.idle, h.executed⟩, rfl, rfl, ?_⟩
  · exact Driver.exec_ordered (e := .updateInterrupt .admin) h.ordered trivial hexec
  · exact Driver.exec_tagged (e := .updateInterrupt .admin) h.tagged trivial h.inStep hexec
  · dsimp only
    rw [hpending]
    exact List.erase_cons_head ..

/-- The callback submits the next command, when all commands have been taken and answered. -/
theorem Steady.resume (h : Steady s.driver s.executed) (hall : s.executed = s.sq.submitted.length)
    (hconsumed : s.cq.consumed.length = s.sq.submitted.length)
    (hposted : s.cq.posted = s.cq.consumed) (hresponses : s.responses = [])
    (hpending : s.driver.pendingCommandList = []) (next : Option C) :
    Steady (s.resume next).driver (s.resume next).executed ∧
      Follows D (s.resume next).view ⟨s.host, s.controller, next⟩ ∧
      (s.resume next).cq = s.cq ∧ (s.resume next).progress = s.progress := by
  cases next with
  | none => exact ⟨h, .ended hall hposted hresponses, rfl, rfl⟩
  | some cmd =>
    have hroom : s.driver.HasRoom (.submitCommand .admin cmd) := by
      have hslots : 1 < s.sq.queue.entries := h.slots.1
      have hexecuted : s.executed ≤ s.sq.fetched.length := h.executed
      show s.sq.submitted.length + 1 < s.sq.fetched.length + s.sq.dmaReadQueue.length +
        s.sq.queue.entries ∧ s.sq.submitted.length < s.sq.fetched.length + s.sq.queue.entries
      omega
    refine ⟨⟨?_, ?_, h.slots, h.idle, h.executed⟩, ?_, rfl, rfl⟩
    · exact Driver.exec_ordered (e := .submitCommand .admin cmd) h.ordered hroom rfl
    · exact Driver.exec_tagged (e := .submitCommand .admin cmd) h.tagged trivial trivial rfl
    · refine .waiting s.sq.submitted rfl hall hconsumed hposted hresponses ?_
      show s.driver.pendingCommandList ++ [_] = _
      rw [hpending]
      rfl

/-- The callback of the last command has returned, and the loop of the driver ends. -/
theorem Steady.endTurn (h : Steady s.driver s.executed) (hall : s.executed = s.sq.submitted.length)
    (hconsumed : s.cq.consumed.length = s.sq.submitted.length)
    (hposted : s.cq.posted = s.cq.consumed) (hresponses : s.responses = [])
    (hpending : s.driver.pendingCommandList = [])
    (hwritten : s.cq.written.length ≤ s.cq.consumed.length) (D : Dialogue C σ τ)
    (next : Option C) (turns : Nat) :
    ∃ s', (s.resume next).interrupt D (turns + 1) = .ok s' ∧ Sound s' ∧
      Follows D s'.view ⟨s.host, s.controller, next⟩ ∧
      s'.cq.consumed = s.cq.consumed ∧ s'.progress = s.progress := by
  obtain ⟨hsteady, hfollows, hcq, hprogress⟩ :=
    h.resume (D := D) hall hconsumed hposted hresponses hpending next
  obtain ⟨s', hring, hsound, hview, hprogress'⟩ := hsteady.ring (hcq.symm ▸ hwritten) D turns
  refine ⟨s', hring, hsound, hview ▸ hfollows, ?_, hprogress'.trans hprogress⟩
  exact (congrArg View.consumed hview).trans (congrArg Completion.consumed hcq)

theorem went_updateInterrupt (hs : Sound s) (h : Follows D s.view x) :
    (s.exec D .updateInterrupt).Sat (fun s' => ∃ y, Went D .updateInterrupt x y s s')
      fun f => D.turn x = .error f := by
  rw [exec]
  rcases Nat.lt_or_ge s.cq.consumed.length s.cq.written.length with hlt | hge
  · obtain ⟨cmd, controller, rfl, hanswer, hexecuted, hconsumed, hresponses, hpending, hposted,
      hwritten⟩ := h.arrived hs hlt
    obtain ⟨d, hexec, hsteady, hsubmission, hcompletion, hnone⟩ := hs.steady.consume hlt hpending
    have hphase : s.cq.queue.peekData.phase = s.driver.phase :=
      (hs.steady.tagged.phase_peekData_iff hs.steady.inStep).mpr hlt
    have hturns : s.cq.written.length - s.cq.consumed.length + 1 = 0 + 1 + 1 := by omega
    have hturn := Dialogue.turn_answered s.host hanswer
    rw [hturns, interrupt]
    dsimp only
    rw [if_pos hphase, step, hexec, Except.map, Except.ok_bind]
    dsimp only
    cases hcallback : D.callback s.host s.controller s.cq.queue.peekData.dw0
        s.cq.queue.peekData.status with
    | error f =>
      rw [hcallback] at hturn
      exact hturn
    | ok r =>
      obtain ⟨host, next⟩ := r
      rw [hcallback] at hturn
      rw [Except.ok_bind]
      -- the driver has consumed the entry, called back, and rings the doorbell
      generalize ht : ({ s with driver := d, host } : Link C σ τ) = t
      have htcq : t.cq = s.cq.consume := by rw [← ht]; exact hcompletion
      have htsq : t.sq = s.sq := by rw [← ht]; exact congrFun hsubmission .admin
      have htsteady : Steady t.driver t.executed := by rw [← ht]; exact hsteady
      have htlength : t.cq.consumed.length = s.cq.consumed.length + 1 := by
        rw [htcq]
        exact List.length_append
      have htprogress : t.progress = s.progress + 1 := by
        rw [progress, htsq, htlength, htcq, ← ht, progress]
        show 2 * s.sq.fetched.length + s.sq.dmaReadQueue.length + s.executed +
          s.cq.posted.length + s.cq.written.length + (s.cq.consumed.length + 1) = _
        omega
      obtain ⟨s', hloop, hsound, hfollows, hconsumed', hprogress⟩ := htsteady.endTurn
        (by rw [htsq, ← ht]; exact hexecuted) (by rw [htlength, htsq, hconsumed])
        (by rw [htcq]; exact hposted) (by rw [← ht]; exact hresponses)
        (by rw [← ht]; exact hnone) (by rw [htlength, htcq]; exact hwritten.le) D next 0
      have hafter := hprogress.trans htprogress
      rw [hloop]
      refine ⟨⟨t.host, t.controller, next⟩, hsound, hfollows, .inr ⟨?_, fun _ => ?_⟩,
        hafter.ge.trans' (Nat.le_succ _), fun _ _ _ => hafter.ge⟩
      · rw [hturn, ← ht]
        rfl
      · rw [hconsumed', htlength]
  · have hturns : s.cq.written.length - s.cq.consumed.length + 1 = 0 + 1 := by omega
    obtain ⟨s', hloop, hsound, hview, hprogress⟩ := hs.steady.ring hge D 0
    rw [hturns, hloop]
    refine ⟨x, .keep hs h hsound (hview ▸ h) (congrArg View.consumed hview) (n := 0) hprogress ?_⟩
    exact fun _ hpos => absurd hpos (Nat.not_lt.mpr (Nat.sub_eq_zero_of_le hge).le)

theorem exec_went (hs : Sound s) (h : Follows D s.view x) (e : Event) :
    (s.exec D e).Sat (fun s' => ∃ y, Went D e x y s s') fun f => D.turn x = .error f := by
  have hkeep : (∃ s', s.exec D e = .ok s' ∧ Went D e x x s s') → (s.exec D e).Sat
      (fun s' => ∃ y, Went D e x y s s') fun f => D.turn x = .error f := by
    rintro ⟨s', hexec, hwent⟩
    rw [hexec]
    exact ⟨x, hwent⟩
  cases e with
  | checkQueue => exact hkeep (went_checkQueue hs h)
  | submitDMARead => exact hkeep (went_submitDMARead hs h)
  | execute => exact went_execute hs h
  | setData => exact hkeep (went_setData hs h)
  | submitDMAWrite => exact hkeep (went_submitDMAWrite hs h)
  | updateInterrupt => exact went_updateInterrupt hs h

/-! ### Runs -/

/-- A link that has got as far as `y`, which is `n` turns behind `x`. -/
structure Reached (D : Dialogue C σ τ) (x : Exchange C σ τ) (n : Nat) (y : Exchange C σ τ)
    (s : Link C σ τ) : Prop where
  sound : Sound s
  talk : D.talk x n = .ok y
  follows : Follows D s.view y
  turns : y.next ≠ none → s.cq.consumed.length = n

theorem turn_over {D : Dialogue C σ τ} {y z : Exchange C σ τ} (hy : y.next = none)
    (h : D.turn y = .ok z) : z = y := by
  rw [Dialogue.turn, hy] at h
  cases h
  rfl

theorem Went.reached {e : Event} {n : Nat} {y z : Exchange C σ τ} (h : Reached D x n y s)
    (hwent : Went D e y z s s') : ∃ m, Reached D x m z s' := by
  obtain ⟨hsound, hfollows, hturn, -, -⟩ := hwent
  rcases hturn with ⟨rfl, hconsumed⟩ | ⟨hturn, hconsumed⟩
  · exact ⟨n, hsound, h.talk, hfollows, fun hz => hconsumed.trans (h.turns hz)⟩
  · refine ⟨n + 1, hsound, ?_, hfollows, fun hz => ?_⟩
    · rw [Dialogue.talk, h.talk]
      exact hturn
    · rw [hconsumed hz, h.turns]
      intro hy
      exact hz (turn_over hy hturn ▸ hy)

theorem turn_ready (hstays : D.StaysReady) (hx : D.ready x.controller = true)
    (h : D.turn x = .ok y) : D.ready y.controller = true := by
  rw [Dialogue.turn] at h
  split at h
  · cases h
    exact hx
  · next cmd hnext =>
    simp only [Except.bind_eq_ok] at h
    obtain ⟨⟨reply, controller⟩, hanswer, h⟩ := h
    have hready := hstays _ _ _ hanswer hx
    cases reply with
    | none =>
      cases h
      exact hready
    | some r =>
      simp only [Except.bind_eq_ok] at h
      obtain ⟨⟨host, next⟩, -, h⟩ := h
      cases h
      exact hready

theorem talk_ready (hstays : D.StaysReady) (hx : D.ready x.controller = true) {n : Nat}
    (h : D.talk x n = .ok y) : D.ready y.controller = true := by
  induction n generalizing y with
  | zero =>
    cases h
    exact hx
  | succ n ih =>
    rw [Dialogue.talk, Except.bind_eq_ok] at h
    obtain ⟨z, hz, hturn⟩ := h
    exact turn_ready hstays (ih hz) hturn

theorem Follows.ready (h : Follows D s.view x) (hstays : D.StaysReady)
    (hx : D.ready x.controller = true) : D.ready s.controller = true := by
  cases h with
  | waiting => exact hx
  | answered answer => exact hstays _ _ _ answer hx
  | ended => exact hx

/-- The steps of rounds, from the `m`th step on. -/
def InRounds : Nat → List Event → Prop
  | _, [] => True
  | m, e :: events => m % 6 = e.place ∧ InRounds (m + 1) events

/-- A step of a run: what is done in rounds from the `m`th step on gets done. -/
theorem Went.done {e : Event} {n : Nat} {y z : Exchange C σ τ} (h : Reached D x n y s)
    (hwent : Went D e y z s s') (hready : D.ready s.controller = true) {m : Nat}
    (hm : y.next = none ∨ m ≤ s.progress) :
    (z.next = none ∨ m ≤ s'.progress) ∧
      (m % 6 = e.place → z.next = none ∨ m + 1 ≤ s'.progress) := by
  have hprogress := hwent.progress
  rcases hm with hover | hm
  · have hz : z.next = none := by
      rcases hwent.turn with ⟨rfl, -⟩ | ⟨hturn, -⟩
      · exact hover
      · rw [turn_over hover hturn]
        exact hover
    exact ⟨.inl hz, fun _ => .inl hz⟩
  -- the link is ahead of the round, or it is its turn
  · refine ⟨.inr (hm.trans hprogress), fun hplace => or_iff_not_imp_left.mpr fun hz => ?_⟩
    rcases Nat.lt_or_ge m s.progress with hlt | hge
    · exact hlt.trans_le hprogress
    · have heq : s.progress = m := by omega
      exact heq ▸ hwent.due hready (heq ▸ hplace) hz

theorem run_reached {n : Nat} (h : Reached D x n y s) (events : List Event) :
    (events.foldlM (exec D) s).Sat (fun s' => ∃ m z, Reached D x m z s' ∧
      (D.StaysReady → D.ready x.controller = true → ∀ k rounds, InRounds k rounds →
        rounds.Sublist events → (y.next = none ∨ k ≤ s.progress) →
          z.next = none ∨ k + rounds.length ≤ s'.progress))
      fun f => ∃ m z, D.talk x m = .ok z ∧ D.turn z = .error f := by
  -- the rounds need not be all of the run: a step is one of theirs, or it comes in between
  induction events generalizing s y n with
  | nil =>
    refine ⟨n, y, h, fun _ _ k rounds _ hsub hk => ?_⟩
    rw [List.sublist_nil.mp hsub]
    exact hk
  | cons e events ih =>
    rw [List.foldlM_cons]
    have hstep := exec_went h.sound h.follows e
    cases hexec : s.exec D e with
    | error f =>
      rw [hexec] at hstep
      exact ⟨n, y, h.talk, hstep⟩
    | ok s₁ =>
      rw [hexec] at hstep
      obtain ⟨z₁, hwent⟩ := hstep
      obtain ⟨m₁, hreached⟩ := hwent.reached h
      refine (ih hreached).mono ?_ fun f hf => hf
      rintro s' ⟨m, z, hz, hdone⟩
      refine ⟨m, z, hz, fun hstays hx k rounds hrounds hsub hk => ?_⟩
      have hready := h.follows.ready hstays (talk_ready hstays hx h.talk)
      obtain ⟨hkept, hnext⟩ := hwent.done h hready hk
      cases hsub with
      | cons _ hsub => exact hdone hstays hx k rounds hrounds hsub hkept
      | cons_cons _ hsub =>
        obtain ⟨hplace, hrounds⟩ := hrounds
        have hlast := hdone hstays hx (k + 1) _ hrounds hsub (hnext hplace)
        rwa [Nat.add_assoc, Nat.add_comm 1] at hlast

/-- The driver has submitted its first command, and the conversation has not begun. -/
theorem boot_reached [Inhabited C] {cfg : DriverConfig} (hslots : 1 < cfg.entries .admin)
    (D : Dialogue C σ τ) (host : σ) (controller : τ) (cmd : C) :
    Reached D ⟨host, controller, some cmd⟩ 0 ⟨host, controller, some cmd⟩
      (boot cfg host controller cmd) := by
  have hstart : Steady (cfg.start : Driver C) 0 :=
    ⟨Driver.start_ordered cfg, Driver.start_tagged cfg, ⟨hslots, hslots⟩, rfl, Nat.zero_le _⟩
  obtain ⟨hsteady, hfollows, -, -⟩ := Steady.resume (s := ⟨cfg.start, host, controller, 0, []⟩)
    (D := D) hstart rfl rfl rfl rfl rfl (some cmd)
  exact ⟨⟨hsteady, rfl⟩, rfl, hfollows, fun _ => rfl⟩

end Steps

/-- All steps in turn, so many times. -/
def rounds : Nat → List Event
  | 0 => []
  | n + 1 =>
    [.checkQueue, .submitDMARead, .execute, .setData, .submitDMAWrite, .updateInterrupt] ++ rounds n

theorem inRounds_rounds (m n : Nat) : InRounds (6 * m) (rounds n) := by
  induction n generalizing m with
  | zero => trivial
  | succ n ih =>
    have hnext := ih (m + 1)
    rw [Nat.mul_add, Nat.mul_one] at hnext
    refine ⟨?_, ?_, ?_, ?_, ?_, ?_, hnext⟩ <;> simp only [Event.place] <;> omega

theorem length_rounds (n : Nat) : (rounds n).length = 6 * n := by
  induction n with
  | zero => rfl
  | succ n ih =>
    rw [rounds, List.length_append, ih, Nat.mul_succ, Nat.add_comm]
    rfl

/-- The two sides are where they are in the conversation, or the controller has answered already
and the answer is on its way. -/
structure Agrees (D : Dialogue C σ τ) (y : Exchange C σ τ) (s : Link C σ τ) : Prop where
  host : s.host = y.host
  ended : y.next = none → s.controller = y.controller
  next : ∀ cmd, y.next = some cmd → s.controller = y.controller ∨
    ∃ reply, D.answer y.controller cmd = .ok (some reply, s.controller)

theorem Follows.agrees {D : Dialogue C σ τ} {y : Exchange C σ τ} {s : Link C σ τ}
    (h : Follows D s.view y) : Agrees D y s := by
  cases h with
  | waiting => exact ⟨rfl, fun _ => rfl, fun _ _ => .inl rfl⟩
  | answered answer =>
    refine ⟨rfl, fun hnone => absurd hnone (Option.some_ne_none _), fun cmd hcmd => ?_⟩
    cases hcmd
    exact .inr ⟨_, answer⟩
  | ended => exact ⟨rfl, fun _ => rfl, fun _ _ => .inl rfl⟩

/-- The link has made some turns of the conversation, as many as there were rounds of steps. -/
def Talked (D : Dialogue C σ τ) (x : Exchange C σ τ) (events : List Event) (s : Link C σ τ) :
    Prop :=
  ∃ n y, D.talk x n = .ok y ∧ Agrees D y s ∧
    (D.StaysReady → D.ready x.controller = true →
      ∀ k, (rounds k).Sublist events → y.next = none ∨ k ≤ n)

theorem Reached.le_turns {D : Dialogue C σ τ} {x y : Exchange C σ τ} {s : Link C σ τ} {n k : Nat}
    (h : Reached D x n y s) (hy : y.next ≠ none) (hk : 6 * k ≤ s.progress) : k ≤ n := by
  obtain ⟨hsubmitted, hcounts⟩ := h.follows.counts hy
  have hlengths := h.sound.steady.submitted
  have hposted := h.sound.steady.posted
  have hle := h.sound.steady.consumed
  have hexecuted : s.executed ≤ s.sq.fetched.length := h.sound.steady.executed
  have hturns := h.turns hy
  rw [progress] at hk
  omega

/-- One command at a time, the queues are a call of the controller: whatever steps are taken, and in
whatever order, the run has got as far as some number of turns of the conversation, and it ends with
a fault only where the conversation does. -/
theorem run_talks [Inhabited C] (D : Dialogue C σ τ) (cfg : DriverConfig)
    (hslots : 1 < cfg.entries .admin) (host : σ) (controller : τ) (cmd : C)
    (events : List Event) :
    (events.foldlM (exec D) (boot cfg host controller cmd)).Sat
      (Talked D ⟨host, controller, some cmd⟩ events)
      fun f => ∃ n y, D.talk ⟨host, controller, some cmd⟩ n = .ok y ∧ D.turn y = .error f := by
  refine (run_reached (boot_reached hslots D host controller cmd) events).mono ?_ fun f hf => hf
  rintro s ⟨n, y, hreached, hdone⟩
  refine ⟨n, y, hreached.talk, hreached.follows.agrees, fun hstays hready k hsub => ?_⟩
  refine or_iff_not_imp_left.mpr fun hy => ?_
  have hlast := hdone hstays hready 0 (rounds k) (inRounds_rounds 0 k) hsub (.inr (Nat.zero_le _))
  rw [length_rounds, Nat.zero_add] at hlast
  exact hreached.le_turns hy (hlast.resolve_left hy)

/-- The host counts down, and the controller adds. -/
def countdown : Dialogue Nat Nat Nat where
  ready _ := true
  answer sum n := .ok (some (BitVec.ofNat 32 sum, 0), sum + n)
  callback left _ _ _ := .ok (left - 1, if left = 0 then none else some left)

/-- Steps that come too early, two rounds of their own, and another one. -/
def crossed : List Event :=
  [.updateInterrupt, .execute, .setData] ++ rounds 1 ++ [.submitDMAWrite, .updateInterrupt] ++
    rounds 1 ++ [.checkQueue]

theorem run_talks_countdown :
    (crossed.foldlM (exec countdown) (boot Driver.smallConfig 2 0 5)).Sat
      (Talked countdown ⟨2, 0, some 5⟩ crossed)
      fun f => ∃ n y, countdown.talk ⟨2, 0, some 5⟩ n = .ok y ∧ countdown.turn y = .error f :=
  run_talks countdown Driver.smallConfig (by decide) 2 0 5 crossed

end Link

end SimpleSSD.SIL.NVMe
