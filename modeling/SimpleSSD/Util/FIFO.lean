import SimpleSSD.Lib.Pipeline
import SimpleSSD.Util.Def

/-!
# The DMA FIFO (util/fifo.cc)

The FIFO stands between a device and the interface below it. A write is first inserted into the
FIFO and then transferred, a read is first transferred and then inserted. Each direction has a
queue of what waits and a queue of what is in the FIFO.

The handlers of the events are the calls of the model, with the tick they read from the clock; they
may come in any order in which the events are scheduled and the interface below has something
to finish. A completion function may call `dmaRead` and `dmaWrite` again: what follows it in
the handler is a call of its own, `returned`, and what follows that in `transferReadDone` is
`transferNext`. The ids of the reads are not taken modulo `2 ^ 64`. The times at which an entry
arrived and its insertion began, which nothing reads, are left out.
-/

namespace SimpleSSD

/-- `FIFOParam`, as the constructor of the FIFO checks it. Whoever makes a FIFO gives it some
thousand bytes. -/
structure FIFOParam where
  rqSize : Nat
  wqSize : Nat
  transferUnit : Nat
  latency : Nat → Nat
  transferUnit_pos : 0 < transferUnit
  unit_le_rqSize : transferUnit ≤ rqSize
  unit_le_wqSize : transferUnit ≤ wqSize
  rqSize_lt : rqSize < 2 ^ 63
  wqSize_lt : wqSize < 2 ^ 63

/-- A DMA request: `func` is known by the `context` it is called with. -/
structure FIFORequest where
  addr : Nat
  size : Nat
  buffer : Option Nat
  context : Nat
deriving DecidableEq

/-- What the interface below is asked to do for an entry. -/
structure FIFOPiece where
  last : Bool
  addr : Nat
  size : Nat
  buffer : Option Nat
  context : Nat
deriving DecidableEq

/-- `FIFOEntry`. -/
structure FIFOEntry extends FIFOPiece where
  id : Nat
  insertEndAt : Nat

/-- `ReadEntry`. -/
structure ReadEntry where
  id : Nat
  dmaEndAt : Nat
  latency : Nat

namespace FIFORequest

/-- A request as one piece. -/
def whole (r : FIFORequest) : FIFOPiece := ⟨true, r.addr, r.size, r.buffer, r.context⟩

/-- The constructor of `FIFOEntry` (fifo.cc:37–48). -/
def entry (r : FIFORequest) : FIFOEntry := ⟨r.whole, 0, 0⟩

end FIFORequest

namespace FIFOParam

/-- `calcSize` (fifo.cc:99–107). -/
def calcSize (p : FIFOParam) (size : Nat) : Nat :=
  if size < p.transferUnit then size
  else ((size - 1) / p.transferUnit + 1) * p.transferUnit % 2 ^ 64

/-- The latency of an entry that is smaller than a unit, or of a unit. -/
def entryLatency (p : FIFOParam) (size : Nat) : Nat :=
  if size < p.transferUnit then p.latency size else p.latency p.transferUnit

/-- The first part of a large request, and `copy`, the rest of it. -/
def splitPiece (p : FIFOParam) (a : FIFOPiece) : FIFOPiece × FIFOPiece :=
  ({ a with last := false, size := p.transferUnit },
    { a with
      last := true
      addr := (a.addr + p.transferUnit) % 2 ^ 64
      size := a.size - p.transferUnit
      buffer := a.buffer.map (· + p.transferUnit) })

/-- "We need to split large request": the entries in front of the others. -/
def splitFront (p : FIFOParam) (limit : Nat) (iter : FIFOEntry) (rest : List FIFOEntry) :
    FIFOEntry × List FIFOEntry :=
  if limit < p.calcSize iter.size then
    let parts := p.splitPiece iter.toFIFOPiece
    ({ iter with toFIFOPiece := parts.1 }, { iter with toFIFOPiece := parts.2 } :: rest)
  else (iter, rest)

end FIFOParam

/-- `FIFO::Queue`. The events are kept as whether they are scheduled; the last five fields say
what was submitted, issued to the interface below and finished there, what has left the queue
and the contexts that were called back, in order. -/
structure FIFOQueue where
  capacity : Nat
  usage : Nat
  waitQueue : List FIFOEntry
  transferQueue : List FIFOEntry
  insertDone : Bool
  beginTransfer : Bool
  submitCompletion : Bool
  insertPending : Bool
  transferPending : Bool
  submitted : List FIFORequest
  issued : List FIFOPiece
  finished : Nat
  left : List FIFOPiece
  completed : List Nat

namespace FIFOQueue

def new (capacity : Nat) : FIFOQueue :=
  ⟨capacity, 0, [], [], false, false, false, false, false, [], [], 0, [], []⟩

/-- `push_back` on `waitQueue`. -/
def push (r : FIFORequest) (q : FIFOQueue) : FIFOQueue :=
  { q with waitQueue := q.waitQueue ++ [r.entry], submitted := q.submitted ++ [r] }

/-- `usage -= calcSize(iter.size)` and `pop`. -/
def release (p : FIFOParam) (q : FIFOQueue) : FIFOQueue :=
  match q.transferQueue with
  | [] => q
  | iter :: rest =>
    { q with
      usage := (q.usage + 2 ^ 64 - p.calcSize iter.size) % 2 ^ 64
      transferQueue := rest
      left := q.left ++ [iter.toFIFOPiece] }

/-- `insertWrite` (fifo.cc:109–162). -/
def insertWrite (p : FIFOParam) (now : Nat) (q : FIFOQueue) : FIFOQueue :=
  match q.waitQueue with
  | [] => q
  | front :: others =>
    if (q.insertPending ∨ q.capacity < (q.usage + p.calcSize front.size) % 2 ^ 64) ∧
        p.calcSize front.size ≤ p.wqSize then q
    else
      let (iter, rest) := p.splitFront p.wqSize front others
      let size := p.calcSize iter.size
      let iter := { iter with insertEndAt := now + p.latency size }
      { q with
        insertPending := true
        usage := (q.usage + size) % 2 ^ 64
        insertDone := true
        beginTransfer := true
        waitQueue := iter :: rest
        transferQueue := q.transferQueue ++ [iter] }

/-- `insertWriteDone` (fifo.cc:164–173) up to the call of `insertWrite`. -/
def popWait (q : FIFOQueue) : FIFOQueue :=
  { q with insertDone := false, waitQueue := q.waitQueue.tail, insertPending := false }

/-- `transferWrite` (fifo.cc:175–187). -/
def transferWrite (q : FIFOQueue) : Except Fault FIFOQueue :=
  match q.transferQueue with
  | [] => .error (.badAccess "transferQueue.front()")
  | iter :: _ =>
    if q.transferPending then .ok q
    else .ok { q with transferPending := true, issued := q.issued ++ [iter.toFIFOPiece] }

/-- `insertRead` (fifo.cc:315–334). -/
def insertRead (p : FIFOParam) (now : Nat) (q : FIFOQueue) : Except Fault FIFOQueue :=
  match q.transferQueue with
  | [] => .error (.badAccess "transferQueue.front()")
  | iter :: rest =>
    if q.insertPending then .ok q
    else .ok { q with
      insertPending := true
      transferQueue :=
        { iter with insertEndAt := now + p.latency (p.calcSize iter.size) } :: rest
      insertDone := true }

end FIFOQueue

/-- Where the handlers are: outside, at the completion function of a write or of a read, or at
the end of `transferReadDone`. A read may be completed from inside `transferReadDone`. -/
inductive FIFOStage where
  | outside
  | writeCalling
  | readCalling (transferring : Bool)
  | transferring
deriving DecidableEq

/-- The fields of `FIFO`. -/
structure FIFO where
  readQueue : FIFOQueue
  writeQueue : FIFOQueue
  counter : Nat
  readCompletion : List ReadEntry
  stage : FIFOStage

namespace FIFO

def new (p : FIFOParam) : FIFO := ⟨.new p.rqSize, .new p.wqSize, 0, [], .outside⟩

/-! ### Writes -/

/-- `transferWriteDoneNext` (fifo.cc:206–232) with the call of the completion function, if the
entry is the last of its request. -/
def transferWriteDoneNext (s : FIFO) : Except Fault FIFO :=
  match s.writeQueue.transferQueue with
  | [] => .error (.badAccess "transferQueue.front()")
  | iter :: _ => .ok { s with
      stage := .writeCalling
      writeQueue := { s.writeQueue with
        completed := s.writeQueue.completed ++ if iter.last then [iter.context] else [] } }

/-- `transferWriteDoneNext` after it. -/
def writeReturned (p : FIFOParam) (now : Nat) (s : FIFO) : Except Fault FIFO := do
  let q := { s.writeQueue.release p with transferPending := false }
  let q ← if q.transferQueue ≠ [] ∧ q.beginTransfer = false then q.transferWrite else .ok q
  .ok { s with writeQueue := q.insertWrite p now, stage := .outside }

/-- `transferWriteDone` (fifo.cc:189–204). -/
def transferWriteDone (p : FIFOParam) (now : Nat) (s : FIFO) : Except Fault FIFO :=
  match s.writeQueue.transferQueue with
  | [] => .error (.badAccess "transferQueue.front()")
  | iter :: _ =>
    let s := { s with writeQueue := { s.writeQueue with finished := s.writeQueue.finished + 1 } }
    if iter.insertEndAt + p.entryLatency iter.size ≤ now then s.transferWriteDoneNext
    else .ok { s with writeQueue := { s.writeQueue with submitCompletion := true } }

/-! ### Reads -/

/-- `transferRead` (fifo.cc:234–286). -/
def transferRead (p : FIFOParam) (s : FIFO) : FIFO :=
  let q := s.readQueue
  match q.waitQueue with
  | [] => s
  | front :: others =>
    if (q.transferPending ∨ q.capacity < (q.usage + p.calcSize front.size) % 2 ^ 64) ∧
        p.calcSize front.size ≤ p.rqSize then s
    else
      let (iter, rest) := p.splitFront p.rqSize front others
      let iter := { iter with id := s.counter }
      { s with
        counter := s.counter + 1
        readQueue := { q with
          transferPending := true
          usage := (q.usage + p.calcSize iter.size) % 2 ^ 64
          issued := q.issued ++ [iter.toFIFOPiece]
          beginTransfer := true
          waitQueue := iter :: rest
          transferQueue := q.transferQueue ++ [iter] } }

/-- The end of `transferReadDone` (fifo.cc:305–312). -/
def transferNext (p : FIFOParam) (s : FIFO) : FIFO :=
  transferRead p { s with
    stage := .outside
    readQueue := { s.readQueue with
      waitQueue := s.readQueue.waitQueue.tail
      transferPending := false } }

/-- The stage after the completion of a read. -/
def after (transferring : Bool) : FIFOStage := if transferring then .transferring else .outside

/-- `insertReadDoneNext` (fifo.cc:367–393) with the call of the completion function. -/
def insertReadDoneNext (transferring : Bool) (s : FIFO) : Except Fault FIFO :=
  match s.readQueue.transferQueue with
  | [] => .error (.badAccess "transferQueue.front()")
  | iter :: _ => .ok { s with
      stage := .readCalling transferring
      readQueue := { s.readQueue with
        completed := s.readQueue.completed ++ if iter.last then [iter.context] else [] } }

/-- `insertReadDoneNext` after it. -/
def readReturned (p : FIFOParam) (now : Nat) (transferring : Bool) (s : FIFO) :
    Except Fault FIFO := do
  let q := { s.readQueue.release p with insertPending := false }
  let q ← if q.transferQueue ≠ [] ∧ q.beginTransfer = false then q.insertRead p now else .ok q
  .ok (transferRead p { s with readQueue := q, stage := after transferring })

/-- `insertReadDoneMerge` (fifo.cc:351–365). The entry is erased after the call of
`insertReadDoneNext`, which does not look at it. -/
def insertReadDoneMerge (now : Nat) (transferring : Bool) (comp : ReadEntry) (s : FIFO) :
    Except Fault FIFO :=
  let s := { s with readCompletion := s.readCompletion.eraseP fun entry => entry.id = comp.id }
  if comp.dmaEndAt + comp.latency ≤ now then s.insertReadDoneNext transferring
  else .ok { s with
    stage := after transferring
    readQueue := { s.readQueue with submitCompletion := true } }

/-- `find` (fifo.cc:87–97). -/
def find (id : Nat) (s : FIFO) : Option ReadEntry :=
  s.readCompletion.find? fun entry => entry.id = id

/-- `transferReadDone` (fifo.cc:288–304). -/
def transferReadDone (p : FIFOParam) (now : Nat) (s : FIFO) : Except Fault FIFO :=
  match s.readQueue.waitQueue with
  | [] => .error (.badAccess "waitQueue.front()")
  | iter :: _ =>
    let s := { s with readQueue := { s.readQueue with finished := s.readQueue.finished + 1 } }
    match s.find iter.id with
    | none =>
      let comp : ReadEntry := ⟨iter.id, now, p.entryLatency iter.size⟩
      .ok { s with readCompletion := s.readCompletion ++ [comp], stage := .transferring }
    | some comp => s.insertReadDoneMerge now true { comp with dmaEndAt := now }

/-- `insertReadDone` (fifo.cc:336–349). -/
def insertReadDone (p : FIFOParam) (now : Nat) (s : FIFO) : Except Fault FIFO :=
  match s.readQueue.transferQueue with
  | [] => .error (.badAccess "transferQueue.front()")
  | iter :: _ =>
    let s := { s with readQueue := { s.readQueue with insertDone := false } }
    match s.find iter.id with
    | none =>
      let comp : ReadEntry := ⟨iter.id, 0, p.entryLatency iter.size⟩
      .ok { s with readCompletion := s.readCompletion ++ [comp] }
    | some comp => s.insertReadDoneMerge now false comp

/-! ### Runs -/

/-- What may happen: a request, a scheduled event, the end of what the interface below does, and
the return of a completion function. -/
inductive Call where
  | dmaWrite (now : Nat) (r : FIFORequest)
  | insertWriteDone (now : Nat)
  | transferWrite
  | transferWriteDone (now : Nat)
  | transferWriteDoneNext
  | dmaRead (r : FIFORequest)
  | transferReadDone (now : Nat)
  | insertRead (now : Nat)
  | insertReadDone (now : Nat)
  | insertReadDoneNext
  | returned (now : Nat)
  | transferNext
deriving DecidableEq

/-- One call. Requests of size 0 are ignored. -/
def exec (p : FIFOParam) (s : FIFO) : Call → Except Fault FIFO
  | .dmaWrite now r =>
    if r.size = 0 then .ok s
    else .ok { s with writeQueue := (s.writeQueue.push r).insertWrite p now }
  | .insertWriteDone now => .ok { s with writeQueue := s.writeQueue.popWait.insertWrite p now }
  | .transferWrite => do
    let q ← { s.writeQueue with beginTransfer := false }.transferWrite
    .ok { s with writeQueue := q }
  | .transferWriteDone now => s.transferWriteDone p now
  | .transferWriteDoneNext =>
    transferWriteDoneNext
      { s with writeQueue := { s.writeQueue with submitCompletion := false } }
  | .dmaRead r =>
    if r.size = 0 then .ok s
    else .ok (transferRead p { s with readQueue := s.readQueue.push r })
  | .transferReadDone now => s.transferReadDone p now
  | .insertRead now => do
    let q ← { s.readQueue with beginTransfer := false }.insertRead p now
    .ok { s with readQueue := q }
  | .insertReadDone now => s.insertReadDone p now
  | .insertReadDoneNext =>
    insertReadDoneNext false
      { s with readQueue := { s.readQueue with submitCompletion := false } }
  | .returned now =>
    match s.stage with
    | .writeCalling => s.writeReturned p now
    | .readCalling transferring => s.readReturned p now transferring
    | _ => .ok s
  | .transferNext => .ok (s.transferNext p)

/-- An event that is scheduled may fire, and the interface below may finish what it was asked to
do, one piece after the other; a completion function makes requests and returns. -/
def Valid (s : FIFO) : Call → Prop
  | .dmaWrite _ _ => s.stage ≠ .transferring
  | .insertWriteDone _ => s.stage = .outside ∧ s.writeQueue.insertDone = true
  | .transferWrite => s.stage = .outside ∧ s.writeQueue.beginTransfer = true
  | .transferWriteDone _ =>
    s.stage = .outside ∧ s.writeQueue.finished < s.writeQueue.issued.length
  | .transferWriteDoneNext => s.stage = .outside ∧ s.writeQueue.submitCompletion = true
  | .dmaRead _ => s.stage ≠ .transferring
  | .transferReadDone _ =>
    s.stage = .outside ∧ s.readQueue.finished < s.readQueue.issued.length
  | .insertRead _ => s.stage = .outside ∧ s.readQueue.beginTransfer = true
  | .insertReadDone _ => s.stage = .outside ∧ s.readQueue.insertDone = true
  | .insertReadDoneNext => s.stage = .outside ∧ s.readQueue.submitCompletion = true
  | .returned _ => s.stage ≠ .outside ∧ s.stage ≠ .transferring
  | .transferNext => s.stage = .transferring

instance (s : FIFO) (c : Call) : Decidable (s.Valid c) := by
  cases c <;> unfold Valid <;> infer_instance

end FIFO

end SimpleSSD
