import SimpleSSD.HIL.NVMe.Completion

/-!
# Commands in the pipeline of the controller (hil/nvme/controller.cc:548–657 and 1583–1821)

A command passes through the stages of the controller one after the other: its entry is read by
DMA, it waits in `lSQFIFO`, it waits for the CPU, the subsystem executes it, and its completion
waits in `lCQFIFO`. Each stage remembers a queue by its pointer or by its identifier. The commands
that delete queues look at `lSQFIFO` only.

The creation of a queue is answered from a callback of the `PRPList` that finds the memory of the
queue. It belongs to the queue, and is deleted with it (queue.cc:70–74).

A shutdown, which clears `lSQFIFO`, is not among the steps.
-/

namespace SimpleSSD.HIL.NVMe

/-- What tells the commands in the pipeline apart. -/
structure Ticket where
  sqID : Nat
  cqID : Nat
  commandID : BitVec 16
  sqUID : Nat
  deriving DecidableEq, Repr

def SQEntryWrapper.ticket (req : SQEntryWrapper) : Ticket :=
  ⟨req.sqID, req.cqID, req.commandID, req.sqUID⟩

def CQEntryWrapper.ticket (resp : CQEntryWrapper) : Ticket :=
  ⟨resp.sqID, resp.cqID, resp.commandID, resp.sqUID⟩

/-- `QueueContext` of `checkQueue`: an entry that is being read. The pointer to the queue stays
behind when the queue is deleted. -/
structure Reading where
  sqid : Nat
  deleted : Bool
  oldhead : Nat
  deriving DecidableEq, Repr

/-- What the subsystem looks at when it calls back for a command: for a creation the memory of
the new queue, which may have been freed. -/
inductive Memory where
  | none
  | squeue (i : Nat)
  | cqueue (i : Nat)
  | freed
  deriving DecidableEq, Repr

/-- The memory of a queue that is not in this table has been freed. -/
def Memory.leave (t : QueueTable) : Memory → Memory
  | .squeue i => if t.ppSQueue i = .none then .freed else .squeue i
  | .cqueue i => if t.ppCQueue i = .none then .freed else .cqueue i
  | m => m

/-- A command in the subsystem. -/
structure Executing extends SQEntryWrapper where
  memory : Memory
  deriving DecidableEq, Repr

/-- `Controller`, with the entries that are being read, the commands that wait for the CPU in
`handleRequest`, those in the subsystem, and what was fetched and posted so far. -/
structure Pipeline extends Completer where
  reading : List Reading
  lSQFIFO : List SQEntryWrapper
  submitted : List SQEntryWrapper
  executing : List Executing
  fetched : List Ticket
  posted : List Ticket

namespace Pipeline

open QueueTable (access qid entrySize highHalf)

/-! ### The functions -/

/-- `checkQueue` (controller.cc:1618–1655), up to the read of the entry. -/
def checkQueue (i : Nat) (s : Pipeline) : Pipeline :=
  match s.ppSQueue i with
  | none => s
  | some pQueue =>
    if 0 < pQueue.getItemCount then
      { s with
        ppSQueue := Function.update s.ppSQueue i (some { pQueue with toQueue := pQueue.advance })
        reading := s.reading ++ [⟨i, false, pQueue.head⟩] }
    else s

/-- `SQEntryWrapper(entry, sqid, cqid, sqhead, squid)`. -/
def wrap (entry : SQEntryWrapper) (pQueue : SQueue) (oldhead : Nat) : SQEntryWrapper :=
  { entry with sqID := pQueue.id, cqID := pQueue.cqID, sqHead := pQueue.head, sqUID := oldhead }

/-- `doRead` of `checkQueue` (controller.cc:1632–1641), for the `k`th entry that is being read. -/
def readDone (k : Nat) (entry : SQEntryWrapper) (s : Pipeline) : Except Fault Pipeline :=
  match s.reading[k]? with
  | none => .ok s
  | some r =>
    match s.ppSQueue r.sqid with
    | none => .error (.badAccess "pContext->pQueue")
    | some pQueue =>
      if r.deleted then .error (.badAccess "pContext->pQueue")
      else
        .ok { s with
          reading := s.reading.eraseIdx k
          lSQFIFO := s.lSQFIFO ++ [wrap entry pQueue r.oldhead]
          fetched := s.fetched ++ [(wrap entry pQueue r.oldhead).ticket] }

/-- `handleRequest` (controller.cc:1583–1616). -/
def handleRequest (s : Pipeline) : Pipeline :=
  match s.lSQFIFO with
  | [] => s
  | front :: rest => { s with lSQFIFO := rest, submitted := s.submitted ++ [front] }

/-- `submit` (controller.cc:1657–1679). -/
def submit (cfg : QueueConfig) (resp : CQEntryWrapper) (now : Nat) (s : Completer) :
    Except Fault Completer := do
  let _ ← QueueTable.submitQueue cfg s.toQueueTable resp.cqID
  .ok (s.submit resp now)

/-- The answer to a command that is taken out of `lSQFIFO`. -/
def abortResp (iter : SQEntryWrapper) (sqHead : Nat) (sc : StatusCode) : CQEntryWrapper :=
  { CQEntryWrapper.new iter with
    sqHead := sqHead
    status := ⟨true, false, .genericCommandStatus, sc⟩ }

/-- The loop of `deleteSQueue` (controller.cc:603–612): the commands that are left. After an
erasure the loop steps over the next command, or over the end of the list. -/
def abortAll (cfg : QueueConfig) (sqid sqHead now : Nat) :
    List SQEntryWrapper → Completer → Except Fault (List SQEntryWrapper × Completer)
  | [], s => .ok ([], s)
  | iter :: lSQFIFO, s =>
    if iter.sqID = sqid then do
      let s ← submit cfg (abortResp iter sqHead .abortDueToSqDelete) now s
      match lSQFIFO with
      | [] => .error (.badAccess "lSQFIFO.end()")
      | next :: lSQFIFO => do
        let (left, s) ← abortAll cfg sqid sqHead now lSQFIFO s
        .ok (next :: left, s)
    else do
      let (left, s) ← abortAll cfg sqid sqHead now lSQFIFO s
      .ok (iter :: left, s)

/-- `deleteSQueue` up to the deletion (controller.cc:593–615), and what becomes of the pointers
to the queue. -/
def leaveSQueue (cfg : QueueConfig) (sqid now : Nat) (s : Pipeline) : Except Fault Pipeline := do
  let slot ← access "ppSQueue" cfg.sqsize s.ppSQueue sqid
  match slot with
  | none => .ok s
  | some pQueue =>
    if sqid = 0 then .ok s
    else do
      let (left, c) ← abortAll cfg sqid pQueue.head now s.lSQFIFO s.toCompleter
      .ok { s with
        toCompleter := c
        lSQFIFO := left
        reading := s.reading.map fun r => if r.sqid = sqid then { r with deleted := true } else r }

/-- `abort` (controller.cc:627–657). -/
def abort (cfg : QueueConfig) (sqid : Nat) (cid : BitVec 16) (now : Nat) (s : Pipeline) :
    Except Fault (Bool × Pipeline) :=
  match s.lSQFIFO.find? fun iter => iter.sqID = sqid ∧ iter.commandID = cid with
  | none => .ok (false, s)
  | some iter => do
    let slot ← access "ppSQueue" cfg.sqsize s.ppSQueue sqid
    match slot with
    | none => .error (.badAccess "ppSQueue[sqid]")
    | some pQueue =>
      (submit cfg (abortResp iter pQueue.head .abortRequested) now s.toCompleter).map fun c =>
        (true, { s with toCompleter := c, lSQFIFO := s.lSQFIFO.erase iter })

/-- The commands on queues, as `Subsystem::submitCommand` finds them. -/
def command? (req : SQEntryWrapper) (w : QueueTable.Open) : Option QueueTable.Command :=
  if req.sqID = 0 then
    if req.opcode = 0x00 then some (.deleteSQueue req)
    else if req.opcode = 0x01 then some (.createSQueue req)
    else if req.opcode = 0x04 then some (.deleteCQueue req)
    else if req.opcode = 0x05 then some (.createCQueue req w)
    else none
  else none

/-- The Abort command. -/
def IsAbort (req : SQEntryWrapper) : Prop := req.sqID = 0 ∧ req.opcode = 0x08

instance (req : SQEntryWrapper) : Decidable (IsAbort req) := inferInstanceAs (Decidable (_ ∧ _))

/-- The fields of an Abort command: a submission queue and a command. -/
def abortTarget (req : SQEntryWrapper) : Nat × BitVec 16 :=
  (qid req, (req.dword10 >>> 16).setWidth 16)

/-- `getLogPage` answers for the SMART log of one namespace, and leaves the command to the
namespace (subsystem.cc:595–628). -/
def AnswersTwice (req : SQEntryWrapper) : Prop :=
  req.sqID = 0 ∧ req.opcode = 0x02 ∧ req.dword10.setWidth 16 = 0x02#16 ∧
    req.namespaceID.toNat ≠ nsidAll

instance (req : SQEntryWrapper) : Decidable (AnswersTwice req) :=
  inferInstanceAs (Decidable (_ ∧ _))

/-- `namespaceManagement` with a wrong field is done without an answer
(subsystem.cc:1017–1075). -/
def AnswersNever (req : SQEntryWrapper) : Prop :=
  req.sqID = 0 ∧ req.opcode = 0x0D ∧
    (req.dword10 &&& 0x0F = 0 ∧ req.namespaceID.toNat ≠ nsidNone ∨
      1 < (req.dword10 &&& 0x0F).toNat)

instance (req : SQEntryWrapper) : Decidable (AnswersNever req) :=
  inferInstanceAs (Decidable (_ ∧ _))

/-- The queues are those of `t` from now on. -/
def setQueues (t : QueueTable) (s : Pipeline) : Pipeline :=
  { s with
    toCompleter := s.toCompleter.setQueues t
    executing := s.executing.map fun req => { req with memory := req.memory.leave t } }

/-- The memory that a creation waits for. -/
def memoryOf : QueueTable.Command → Memory
  | .createSQueue req => .squeue (qid req)
  | .createCQueue req _ => .cqueue (qid req)
  | .deleteSQueue _ | .deleteCQueue _ => .none

/-- What a command on queues does before it looks at the tables. -/
def prepare (cfg : QueueConfig) (now : Nat) (s : Pipeline) :
    QueueTable.Command → Except Fault Pipeline
  | .deleteSQueue req => s.leaveSQueue cfg (qid req) now
  | .createSQueue _ | .deleteCQueue _ | .createCQueue _ _ => .ok s

/-- The answer to a command on queues. One whose creation fails is never answered, and one whose
queue is created when the memory of the queue has been found. -/
def reply (cfg : QueueConfig) (req : SQEntryWrapper) (memory : Memory) (now : Nat) (s : Pipeline) :
    QueueTable.Reply → Except Fault Pipeline
  | .sent resp => (submit cfg resp now s.toCompleter).map fun c => { s with toCompleter := c }
  | .awaited _ => .ok { s with executing := s.executing ++ [⟨req, memory⟩] }
  | .never => .ok s

/-- `Subsystem::submitCommand`, for the `k`th command that waits for the CPU. A command that looks
at no queue is answered later. -/
def submitCommand (cfg : QueueConfig) (k now : Nat) (w : QueueTable.Open) (s : Pipeline) :
    Except Fault Pipeline :=
  match s.submitted[k]? with
  | none => .ok s
  | some req =>
    let s := { s with submitted := s.submitted.eraseIdx k }
    match command? req w with
    | some c => do
      let s ← s.prepare cfg now c
      let (reply, t) ← QueueTable.answer cfg s.toQueueTable c
      (s.setQueues t).reply cfg req (memoryOf c) now reply
    | none =>
      if IsAbort req then do
        let (aborted, s) ← s.abort cfg (abortTarget req).1 (abortTarget req).2 now
        let resp := (CQEntryWrapper.new req).makeStatus true false .genericCommandStatus .success
        (submit cfg { resp with dword0 := if aborted then 0 else 1 } now s.toCompleter).map fun c =>
          { s with toCompleter := c }
      else if AnswersTwice req then
        (submit cfg (CQEntryWrapper.new req) now s.toCompleter).map fun c =>
          { s with toCompleter := c, executing := s.executing ++ [⟨req, .none⟩] }
      else if AnswersNever req then .ok s
      else .ok { s with executing := s.executing ++ [⟨req, .none⟩] }

/-- The subsystem calls back for the `k`th command in it, a creation from its `PRPList`
(dma.cc:39–43 and 147–188). -/
def answer (cfg : QueueConfig) (k : Nat) (dword0 : BitVec 32) (status : Status) (now : Nat)
    (s : Pipeline) : Except Fault Pipeline :=
  match s.executing[k]? with
  | none => .ok s
  | some req =>
    if req.memory = .freed then .error (.badAccess "pThis")
    else
      let resp :=
        { CQEntryWrapper.new req.toSQEntryWrapper with dword0 := dword0, status := status }
      (submit cfg resp now s.toCompleter).map fun c =>
        { s with toCompleter := c, executing := s.executing.eraseIdx k }

/-- `ringSQTailDoorbell` (controller.cc:445–460). -/
def ringSQTailDoorbell (i tail : Nat) (s : Pipeline) : Pipeline :=
  match s.ppSQueue i with
  | none => s
  | some pQueue => { s with
    ppSQueue := Function.update s.ppSQueue i (some { pQueue with tail := tail }) }

/-! ### Runs -/

/-- What can happen: an entry is read or has been read, a command is taken from `lSQFIFO`, reaches
the subsystem or is answered by it, the completion event fires, an entry of a round is written or
the round ends, a doorbell is rung, or the coalescing is set. -/
inductive Event where
  | checkQueue (i : Nat)
  | readDone (k : Nat) (entry : SQEntryWrapper)
  | handleRequest
  | submitCommand (k now : Nat) (w : QueueTable.Open)
  | answer (k : Nat) (dword0 : BitVec 32) (status : Status) (now : Nat)
  | completion (tick : Nat)
  | written (k j : Nat)
  | send (k now : Nat)
  | ringSQTailDoorbell (i tail : Nat)
  | ringCQHeadDoorbell (i head : Nat)
  | setCoalescing (iv : Nat) (enable : Bool)
  | setCoalescingParameter (aggregationTime aggregationThreshold : Nat)

/-- A step of the part that completes commands. -/
def complete (cfg : QueueConfig) (e : Completer.Event) (s : Pipeline) : Except Fault Pipeline :=
  (Completer.exec cfg s.toCompleter e).map fun c => { s with toCompleter := c }

def exec (cfg : QueueConfig) (s : Pipeline) : Event → Except Fault Pipeline
  | .checkQueue i => .ok (s.checkQueue i)
  | .readDone k entry => s.readDone k entry
  | .handleRequest => .ok s.handleRequest
  | .submitCommand k now w => s.submitCommand cfg k now w
  | .answer k dword0 status now => s.answer cfg k dword0 status now
  | .completion tick =>
    (s.complete cfg (.completion tick)).map fun s' => { s' with
      posted := s.posted ++ (s.entryToPost tick).map (·.resp.ticket) }
  | .written k j => s.complete cfg (.written k j)
  | .send k now => s.complete cfg (.send k now)
  | .ringSQTailDoorbell i tail => .ok (s.ringSQTailDoorbell i tail)
  | .ringCQHeadDoorbell i head => s.complete cfg (.ringCQHeadDoorbell i head)
  | .setCoalescing iv enable => s.complete cfg (.setCoalescing iv enable)
  | .setCoalescingParameter aggregationTime aggregationThreshold =>
    s.complete cfg (.setCoalescingParameter aggregationTime aggregationThreshold)

/-- The controller with its admin queues. -/
def start (cqEntries sqEntries : Nat) : Pipeline where
  toCompleter := .start cqEntries sqEntries
  reading := []
  lSQFIFO := []
  submitted := []
  executing := []
  fetched := []
  posted := []

/-- The faults for want of a queue, of its memory, or of a command of it. -/
def LacksQueue (e : Fault) : Prop :=
  e ∈ [.panic "Controller::submit" "Completion Queue not created!", .badAccess "pQueue",
    .badAccess "pContext->pQueue", .badAccess "ppSQueue[sqid]", .badAccess "ppSQueue",
    .badAccess "ppCQueue", .badAccess "aggregationMap.end()", .badAccess "lSQFIFO.end()",
    .badAccess "base", .badAccess "pThis"]

instance (e : Fault) : Decidable (LacksQueue e) := inferInstanceAs (Decidable (_ ∈ _))

/-! ### The tables -/

/-- The same queues are there, in the same order of pointers and with the same vectors. -/
structure SameQueues (t t' : QueueTable) : Prop where
  squeues : ∀ i, (t'.ppSQueue i).map (·.cqID) = (t.ppSQueue i).map (·.cqID)
  cqueues : ∀ i, (t'.ppCQueue i).map (·.interruptVector) = (t.ppCQueue i).map (·.interruptVector)
  vectors : ∀ iv, iv ∈ t.aggregationMap → iv ∈ t'.aggregationMap

namespace SameQueues

variable {cfg : QueueConfig} {t t' t'' : QueueTable}

theorem refl (t : QueueTable) : SameQueues t t := ⟨fun _ => rfl, fun _ => rfl, fun _ h => h⟩

theorem of_eq (h : t' = t) : SameQueues t t' := h ▸ refl t

theorem trans (h : SameQueues t t') (h' : SameQueues t' t'') : SameQueues t t'' :=
  ⟨fun i => (h'.squeues i).trans (h.squeues i), fun i => (h'.cqueues i).trans (h.cqueues i),
    fun iv hiv => h'.vectors iv (h.vectors iv hiv)⟩

theorem isSome_squeue (h : SameQueues t t') (i : Nat) :
    (t'.ppSQueue i).isSome = (t.ppSQueue i).isSome := by
  have hmap := congrArg Option.isSome (h.squeues i)
  rwa [Option.isSome_map, Option.isSome_map] at hmap

theorem isSome_cqueue (h : SameQueues t t') (i : Nat) :
    (t'.ppCQueue i).isSome = (t.ppCQueue i).isSome := by
  have hmap := congrArg Option.isSome (h.cqueues i)
  rwa [Option.isSome_map, Option.isSome_map] at hmap

/-- A queue of the new table has an old one in its place. -/
theorem exists_squeue (h : SameQueues t t') {i : Nat} {q : SQueue} (hq : t'.ppSQueue i = some q) :
    ∃ q', t.ppSQueue i = some q' ∧ q'.cqID = q.cqID := by
  have hmap := h.squeues i
  rw [hq] at hmap
  exact Option.map_eq_some_iff.mp hmap.symm

theorem exists_cqueue (h : SameQueues t t') {i : Nat} {q : CQueue} (hq : t'.ppCQueue i = some q) :
    ∃ q', t.ppCQueue i = some q' ∧ q'.interruptVector = q.interruptVector := by
  have hmap := h.cqueues i
  rw [hq] at hmap
  exact Option.map_eq_some_iff.mp hmap.symm

theorem linked (h : SameQueues t t') (hlinked : QueueTable.Linked cfg t) :
    QueueTable.Linked cfg t' := by
  refine ⟨fun i q hq => ?_, fun i hi => ?_, fun i hi => ?_, ?_, fun i q hi hq => ?_⟩
  · obtain ⟨q', hq', hcqID⟩ := h.exists_squeue hq
    rw [h.isSome_cqueue, ← hcqID]
    exact hlinked.completion i q' hq'
  · have hsome := h.isSome_squeue i
    rw [hlinked.squeues i hi] at hsome
    exact Option.not_isSome_iff_eq_none.mp (by rw [hsome]; exact Bool.false_ne_true)
  · have hsome := h.isSome_cqueue i
    rw [hlinked.cqueues i hi] at hsome
    exact Option.not_isSome_iff_eq_none.mp (by rw [hsome]; exact Bool.false_ne_true)
  · obtain ⟨q, hq, hzero⟩ := hlinked.admin
    have hsome := h.squeues 0
    rw [hq] at hsome
    obtain ⟨q', hq', hcqID⟩ := Option.map_eq_some_iff.mp hsome
    exact ⟨q', hq', hcqID.trans hzero⟩
  · obtain ⟨q', hq', hvector⟩ := h.exists_cqueue hq
    rw [← hvector]
    exact h.vectors _ (hlinked.vectors i q' hi hq')

end SameQueues

/-! ### Completion -/

section Completion

variable {cfg : QueueConfig} {c c' : Completer} {resp : CQEntryWrapper} {now tick : Nat}

theorem toQueueTable_submit (resp : CQEntryWrapper) (now : Nat) (c : Completer) :
    (c.submit resp now).toQueueTable = c.toQueueTable := by
  unfold Completer.submit Completer.reserveCompletion
  dsimp only
  split <;> rfl

theorem rounds_submit (resp : CQEntryWrapper) (now : Nat) (c : Completer) :
    (c.submit resp now).rounds = c.rounds :=
  (Completer.reserveCompletion_fields _ now).2.1

/-- The entry is put behind those that have waited longer. -/
theorem perm_submit (resp : CQEntryWrapper) (now : Nat) (c : Completer) :
    (c.submit resp now).lCQFIFO.Perm (⟨resp, now⟩ :: c.lCQFIFO) := by
  have hsplit : (c.lCQFIFO.takeWhile (·.submitAt ≤ now) ++
      ⟨resp, now⟩ :: c.lCQFIFO.dropWhile (·.submitAt ≤ now)).Perm (⟨resp, now⟩ :: c.lCQFIFO) := by
    refine List.perm_middle.trans ?_
    rw [List.takeWhile_append_dropWhile]
  unfold Completer.submit Completer.reserveCompletion
  dsimp only
  split <;> exact hsplit

/-- An entry whose queue is found is entered into `lCQFIFO`. -/
theorem submit_eq_ok {pQueue : CQueue} (now : Nat)
    (hqueue : QueueTable.submitQueue cfg c.toQueueTable resp.cqID = .ok pQueue) :
    submit cfg resp now c = .ok (c.submit resp now) := by
  rw [submit, hqueue]
  rfl

/-- An entry whose queue is there is entered into `lCQFIFO`. -/
theorem submit_spec (hlinked : QueueTable.Linked cfg c.toQueueTable)
    (hqueue : (c.ppCQueue resp.cqID).isSome = true) (now : Nat) :
    ∃ c', submit cfg resp now c = .ok c' ∧ c'.toQueueTable = c.toQueueTable ∧
      c'.rounds = c.rounds ∧ c'.lCQFIFO.Perm (⟨resp, now⟩ :: c.lCQFIFO) := by
  have hlt : resp.cqID < cfg.cqsize := by
    by_contra hge
    rw [hlinked.cqueues _ (Nat.le_of_not_lt hge)] at hqueue
    cases hqueue
  obtain ⟨pQueue, hlive⟩ := Option.isSome_iff_exists.mp hqueue
  have hsubmit : QueueTable.submitQueue cfg c.toQueueTable resp.cqID = .ok pQueue := by
    rw [QueueTable.submitQueue, access, if_pos hlt, hlive]
    rfl
  exact ⟨_, submit_eq_ok now hsubmit, toQueueTable_submit resp now c, rounds_submit resp now c,
    perm_submit resp now c⟩

theorem update_sameQueues {t : QueueTable} {i : Nat} {q : CQueue} (hq : t.ppCQueue i = some q)
    (q' : CQueue) (hvector : q'.interruptVector = q.interruptVector) :
    SameQueues t { t with ppCQueue := Function.update t.ppCQueue i (some q') } := by
  refine ⟨fun _ => rfl, fun j => ?_, fun _ h => h⟩
  show (Function.update t.ppCQueue i (some q') j).map _ = _
  rw [Function.update_apply]
  split
  · next heq =>
    rw [heq, hq, Option.map_some, Option.map_some, hvector]
  · rfl

/-- Coalescing changes entries of the map only. -/
theorem mem_coalesce {iv iv' : Nat} {iter : WaitingEntry} (h : iv' ∈ c.aggregationMap) :
    iv' ∈ (c.coalesce tick iv iter).2 := by
  unfold Completer.coalesce
  split
  · split
    · exact h
    · split
      · exact (UnorderedMap.mem_set 0 _).mpr (.inr h)
      · split
        · exact (UnorderedMap.mem_set 0 _).mpr (.inr h)
        · exact h
  · exact h

/-- An entry whose queue is there is posted, unless the queue is full. -/
theorem post_spec {acc : Completer × List Nat} {iter : WaitingEntry}
    (hqueue : (acc.1.ppCQueue iter.resp.cqID).isSome = true) :
    (Completer.post tick acc iter).Sat
      (fun acc' => SameQueues acc.1.toQueueTable acc'.1.toQueueTable ∧
        acc'.1.lCQFIFO = acc.1.lCQFIFO)
      fun fault => ¬ LacksQueue fault := by
  obtain ⟨pQueue, hlive⟩ := Option.isSome_iff_exists.mp hqueue
  unfold Completer.post CQueue.setData
  rw [hlive]
  dsimp only
  split
  · exact show ¬ LacksQueue _ by decide
  · rw [Except.ok_bind]
    dsimp only
    split
    · refine ⟨?_, rfl⟩
      refine (update_sameQueues hlive { pQueue with
        tail := pQueue.next pQueue.tail
        phase :=
          if (pQueue.tail + 1) % 2 ^ 16 = pQueue.size then !pQueue.phase else pQueue.phase } rfl).trans
        ⟨fun _ => rfl, fun _ => rfl, fun iv hiv => ?_⟩
      exact mem_coalesce (c := { acc.1 with ppCQueue := _ }) hiv
    · exact ⟨update_sameQueues hlive _ rfl, rfl⟩

/-- A round finds the queues of all entries that it takes. -/
theorem foldlM_post_spec (tick : Nat) {t : QueueTable} {entries : List WaitingEntry}
    (hqueues : ∀ iter ∈ entries, (t.ppCQueue iter.resp.cqID).isSome = true)
    (acc : Completer × List Nat) (hacc : SameQueues t acc.1.toQueueTable) :
    (entries.foldlM (Completer.post tick) acc).Sat
      (fun acc' => SameQueues t acc'.1.toQueueTable ∧ acc'.1.lCQFIFO = acc.1.lCQFIFO)
      fun fault => ¬ LacksQueue fault := by
  induction entries generalizing acc with
  | nil => exact ⟨hacc, rfl⟩
  | cons iter entries ih =>
    have hqueue : (acc.1.ppCQueue iter.resp.cqID).isSome = true := by
      rw [hacc.isSome_cqueue]
      exact hqueues iter List.mem_cons_self
    rw [List.foldlM_cons]
    refine (post_spec hqueue).bind fun acc' hacc' => ?_
    refine (ih (fun iter' h => hqueues iter' (List.mem_cons_of_mem iter h))
      acc' (hacc.trans hacc'.1)).mono (fun acc'' h => ⟨h.1, h.2.trans hacc'.2⟩) fun _ h => h

/-- A round finds all its queues, and takes what is due. -/
theorem completion_spec
    (hwaiting : ∀ iter ∈ c.lCQFIFO, (c.ppCQueue iter.resp.cqID).isSome = true) :
    (c.completion tick).Sat
      (fun c' => SameQueues c.toQueueTable c'.toQueueTable ∧
        c'.lCQFIFO = c.lCQFIFO.filter fun iter => ¬ iter.submitAt ≤ tick)
      fun fault => ¬ LacksQueue fault := by
  have hqueues : ∀ iter ∈ c.entryToPost tick, (c.ppCQueue iter.resp.cqID).isSome = true :=
    fun iter hiter => hwaiting iter (List.mem_filter.mp hiter).1
  have hposts := foldlM_post_spec tick hqueues (c.taken tick, []) (.refl _)
  rw [Completer.completion]
  refine hposts.bind fun acc hacc => ?_
  dsimp only
  have hexpired : SameQueues c.toQueueTable { acc.1.toQueueTable with
      aggregationMap := acc.1.aggregationMap.mapValues
        (Completer.expire acc.1.aggregationTime tick) } := by
    refine hacc.1.trans ⟨fun _ => rfl, fun _ => rfl, fun iv hiv => ?_⟩
    obtain ⟨v, hv⟩ := UnorderedMap.mem_iff.mp hiv
    exact UnorderedMap.mem_iff.mpr ⟨_, UnorderedMap.mem_entries_mapValues.mpr ⟨v, hv, rfl⟩⟩
  split
  · exact ⟨hexpired, hacc.2⟩
  · exact ⟨hexpired, hacc.2⟩

end Completion

end Pipeline

end SimpleSSD.HIL.NVMe
