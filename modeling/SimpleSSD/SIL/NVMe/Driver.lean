import Mathlib.Logic.Function.Basic
import SimpleSSD.HIL.NVMe.Ring
import SimpleSSD.Lib.Run

/-!
# The host driver and its queues (sil/nvme/nvme.cc:305–348 and 445–613, sil/nvme/queue.cc,
hil/nvme/queue.cc:106–177, hil/nvme/controller.cc:424–460 and 1618–1655)

The driver has two pairs of queues, for admin and for I/O commands, after its initialization.
The memory of a queue belongs to the host. The controller reads commands from it and writes
completions to it by DMA: a transfer is put in a queue when the controller moves its head or
tail, and takes place later. The transfers of one queue take place in order.

Either side has its own head and tail. The controller learns of the host's by the doorbells;
the host tells a new completion by its phase tag.
-/

namespace SimpleSSD.SIL.NVMe

/-- The two pairs of queues, by the queue identifier and the interrupt vector. -/
inductive QueueID where
  | admin | io
  deriving DecidableEq, Repr

namespace QueueID

def toNat : QueueID → Nat
  | admin => 0
  | io => 1

def other : QueueID → QueueID
  | admin => io
  | io => admin

instance {p : QueueID → Prop} [DecidablePred p] : Decidable (∀ iv, p iv) :=
  decidable_of_iff (p admin ∧ p io) ⟨fun h iv => by cases iv; exacts [h.1, h.2],
    fun h => ⟨h admin, h io⟩⟩

end QueueID

/-! ### Queues of the host -/

/-- `Queue` (sil/nvme/queue.hh), with its memory by slots. -/
structure Queue (α : Type) where
  memory : Nat → α
  entries : Nat
  head : Nat
  tail : Nat

namespace Queue

variable {α : Type}

def incrHead (q : Queue α) : Queue α :=
  { q with head := if q.head + 1 = q.entries then 0 else q.head + 1 }

def incrTail (q : Queue α) : Queue α :=
  { q with tail := if q.tail + 1 = q.entries then 0 else q.tail + 1 }

def peekData (q : Queue α) : α := q.memory q.head

def setData (q : Queue α) (data : α) : Queue α :=
  incrTail { q with memory := Function.update q.memory q.tail data }

end Queue

/-- What the driver reads of a completion: zero where nothing has been written. -/
structure CQEntry where
  dw0 : BitVec 32
  commandID : Nat
  status : BitVec 15
  phase : Bool
  deriving DecidableEq, Repr

/-- A submission queue: the command identifier, memory, head and tail of the host, the queue
of the controller, and the slots that wait for their transfer. The last two fields record what
has happened. -/
structure Submission (C : Type) where
  commandID : Nat
  queue : Queue (Nat × C)
  pSQueue : HIL.NVMe.Queue
  dmaReadQueue : List Nat
  submitted : List (Nat × C)
  fetched : List (Nat × C)

/-- A completion queue, with the entries that wait for their transfer. `count` is that of the
loop of `updateInterrupt`, and the last three fields record what has happened. -/
structure Completion where
  queue : Queue CQEntry
  pCQueue : HIL.NVMe.CQueue
  dmaWriteQueue : List (Nat × CQEntry)
  count : Nat
  posted : List CQEntry
  written : List CQEntry
  consumed : List CQEntry

namespace Submission

variable {C : Type}

/-- `increaseCommandID` (nvme.cc:340–348), in 16 bits. -/
def increaseCommandID (id : Nat) : Nat :=
  let id := (id + 1) % 2 ^ 16
  if 32767 < id then 1 else id

/-- The queue in `submitCommand` (nvme.cc:305–338), with `ringSQTailDoorbell`. A full queue is
not noticed. -/
def submitCommand (cmd : C) (q : Submission C) : Submission C :=
  let cid := increaseCommandID q.commandID
  let queue := q.queue.setData (cid, cmd)
  { q with
    commandID := cid
    queue := queue.incrHead
    pSQueue := { q.pSQueue with tail := queue.tail }
    submitted := q.submitted ++ [(cid, cmd)] }

/-- `checkQueue` (controller.cc:1618–1655) and `SQueue::getData`. -/
def checkQueue (q : Submission C) : Submission C :=
  if 0 < q.pSQueue.getItemCount then
    { q with
      pSQueue := q.pSQueue.advance
      dmaReadQueue := q.dmaReadQueue ++ [q.pSQueue.head] }
  else q

/-- The first command to be read is copied (`submitDMARead`, nvme.cc:477–491). -/
def submitDMARead (q : Submission C) : Submission C :=
  match q.dmaReadQueue with
  | [] => q
  | slot :: rest =>
    { q with
      dmaReadQueue := rest
      fetched := q.fetched ++ [q.queue.memory slot] }

end Submission

namespace Completion

/-- A command completes, and `Controller::completion` writes its entry (`CQueue::setData`). -/
def setData (dw0 : BitVec 32) (commandID : Nat) (status : BitVec 15) (q : Completion) :
    Except Fault Completion :=
  q.pCQueue.setData.map fun r =>
    let entry : CQEntry := ⟨dw0, commandID, status, r.1.2⟩
    { q with
      pCQueue := r.2
      dmaWriteQueue := q.dmaWriteQueue ++ [(r.1.1, entry)]
      posted := q.posted ++ [entry] }

/-- The first completion to be written is copied (`submitDMAWrite`, nvme.cc:533–547). -/
def submitDMAWrite (q : Completion) : Completion :=
  match q.dmaWriteQueue with
  | [] => q
  | (slot, entry) :: rest =>
    { q with
      queue := { q.queue with memory := Function.update q.queue.memory slot entry }
      dmaWriteQueue := rest
      written := q.written ++ [entry] }

/-- A completion is taken over (nvme.cc:576–598). -/
def consume (q : Completion) : Completion :=
  { q with
    queue := q.queue.incrTail.incrHead
    count := q.count + 1
    consumed := q.consumed ++ [q.queue.peekData] }

/-- The loop has ended (nvme.cc:604–610), with `ringCQHeadDoorbell`. -/
def ringHead (q : Completion) : Completion :=
  if 0 < q.count then { q with pCQueue := { q.pCQueue with head := q.queue.head }, count := 0 }
  else q

end Completion

/-- `Driver`, with the queues of its controller. An entry of `pendingCommandList` is a queue
and a command identifier. -/
structure Driver (C : Type) where
  submission : QueueID → Submission C
  completion : QueueID → Completion
  phase : Bool
  pendingCommandList : List (QueueID × Nat)

namespace Driver

variable {C : Type}

def setSubmission (s : Driver C) (iv : QueueID) (q : Submission C) : Driver C :=
  { s with submission := Function.update s.submission iv q }

def setCompletion (s : Driver C) (iv : QueueID) (q : Completion) : Driver C :=
  { s with completion := Function.update s.completion iv q }

/-- `submitCommand` (nvme.cc:305–338). -/
def submitCommand (iv : QueueID) (cmd : C) (s : Driver C) : Driver C :=
  let q := (s.submission iv).submitCommand cmd
  { s.setSubmission iv q with
    pendingCommandList := s.pendingCommandList ++ [(iv, q.commandID)] }

/-- One turn of the loop of `updateInterrupt` (nvme.cc:568–611). What the callback of the
command submits is a step of its own. -/
def updateInterrupt (iv : QueueID) (s : Driver C) : Except Fault (Driver C) :=
  let q := s.completion iv
  let cqdata := q.queue.peekData
  if cqdata.phase = s.phase then
    if (iv, cqdata.commandID) ∈ s.pendingCommandList then
      .ok { s.setCompletion iv q.consume with
        phase := if q.consume.queue.head = 0 then !s.phase else s.phase
        pendingCommandList := s.pendingCommandList.erase (iv, cqdata.commandID) }
    else .error (.panic "Driver::updateInterrupt" "Invalid interrupt")
  else .ok (s.setCompletion iv q.ringHead)

/-! ### Runs -/

/-- What can happen on a pair of queues. -/
inductive Event (C : Type) where
  | submitCommand (iv : QueueID) (cmd : C)
  | checkQueue (iv : QueueID)
  | submitDMARead (iv : QueueID)
  | setData (iv : QueueID) (dw0 : BitVec 32) (commandID : Nat) (status : BitVec 15)
  | submitDMAWrite (iv : QueueID)
  | updateInterrupt (iv : QueueID)

/-- The queue that the driver looks at. -/
def Event.looksAt : Event C → Option QueueID
  | .updateInterrupt iv => some iv
  | _ => none

def exec (s : Driver C) : Event C → Except Fault (Driver C)
  | .submitCommand iv cmd => .ok (s.submitCommand iv cmd)
  | .checkQueue iv => .ok (s.setSubmission iv (s.submission iv).checkQueue)
  | .submitDMARead iv => .ok (s.setSubmission iv (s.submission iv).submitDMARead)
  | .setData iv dw0 commandID status =>
    ((s.completion iv).setData dw0 commandID status).map (s.setCompletion iv)
  | .submitDMAWrite iv => .ok (s.setCompletion iv (s.completion iv).submitDMAWrite)
  | .updateInterrupt iv => s.updateInterrupt iv

end Driver

/-- The number of entries of either pair (nvme.cc:58–144, 248–253 and 277–282), and the
command identifiers, which the constructor leaves open. -/
structure DriverConfig where
  entries : QueueID → Nat
  commandID : QueueID → Nat
  entries_pos : ∀ iv, 0 < entries iv
  entries_lt : ∀ iv, entries iv < 2 ^ 16

namespace DriverConfig

variable {C : Type} [Inhabited C]

/-- The queues as they are created: the memory is zero, and the phase is 1 on either side. -/
def start (cfg : DriverConfig) : Driver C where
  submission iv :=
    { commandID := cfg.commandID iv
      queue := ⟨fun _ => (0, default), cfg.entries iv, 0, 0⟩
      pSQueue := ⟨iv.toNat, 0, 0, cfg.entries iv⟩
      dmaReadQueue := []
      submitted := []
      fetched := [] }
  completion iv :=
    { queue := ⟨fun _ => ⟨0, 0, 0, false⟩, cfg.entries iv, 0, 0⟩
      pCQueue := ⟨⟨iv.toNat, 0, 0, cfg.entries iv⟩, true, true, iv.toNat⟩
      dmaWriteQueue := []
      count := 0
      posted := []
      written := []
      consumed := [] }
  phase := true
  pendingCommandList := []

end DriverConfig

end SimpleSSD.SIL.NVMe
