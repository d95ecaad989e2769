import SimpleSSD.HIL.UFS.Device
import SimpleSSD.Lib.Run

/-!
# The UFS host controller (hil/ufs/host.cc)

The doorbell register, the queues and the requests in flight. A request in flight is
the context that its callbacks share; `pending` lists the callbacks that the DMA
interface, the CPU model and the HIL still owe it. The FIFO in front of the bus
ignores a DMA request of size zero and never calls back for it (fifo.cc:395–419), so
such a request adds no callback.

`exec` runs one event: a register write, the work event or one callback, which may
come in any order. `log` records, for each slot, the doorbell rung while clear, the
request taken from the queue, its descriptor written back and the doorbell cleared. The
contents of the response,
interrupts, times and counters other than those of the completions are left out.
-/

namespace SimpleSSD.HIL.UFS

open Buffer

/-- `UTPTransferReqDesc`, the fields that are read. -/
structure UTPTransferReqDesc where
  dw0 : UInt32
  respUPIULength : UInt16
  respUPIUOffset : UInt16
  prdtLength : UInt16
  deriving DecidableEq, Repr

/-- The callbacks of a request. -/
inductive Callback where
  /-- `doRead` of `handleRequest`: the descriptor is there. -/
  | descriptorRead
  /-- `doReqRead` of `processUTPCommand`. -/
  | reqRead
  /-- `doPRDTRead`. -/
  | prdtRead
  /-- A function of the device, or `done` behind the CPU model. -/
  | call
  /-- `dmaHandler` of the device. -/
  | transferred
  /-- `doWrite` of `processUTPCommand`: the response is written. -/
  | responseWritten
  /-- `doWrite` of `handleRequest`: the descriptor is written back. -/
  | descriptorWritten
  deriving DecidableEq, Repr

/-- A callback with what it brings: the contents of host memory at the place that was
read, or the time. -/
inductive Arrival where
  | descriptorRead (desc : UTPTransferReqDesc)
  | reqRead (mem : Nat → UInt8)
  | prdtRead (mem : Nat → PRDT)
  | call
  | transferred
  | responseWritten
  | descriptorWritten (now : Nat)

def Arrival.callback : Arrival → Callback
  | .descriptorRead _ => .descriptorRead
  | .reqRead _ => .reqRead
  | .prdtRead _ => .prdtRead
  | .call => .call
  | .transferred => .transferred
  | .responseWritten => .responseWritten
  | .descriptorWritten _ => .descriptorWritten

/-- `RequestContext` and `UTPCommandContext`, with the device's `DMAContext`. -/
structure RequestContext where
  index : Fin 32
  transferReqDesc : UTPTransferReqDesc
  cmd : UTPTransferCmd
  transferReq : List UInt8
  prdt : List PRDT
  reqDone : Bool
  prdtDone : Bool
  /-- What the device waits for; the first is under way. -/
  waits : List Wait
  /-- `DMAContext::counter`. -/
  counter : Nat
  pending : List Callback
  deriving DecidableEq

namespace RequestContext

/-- The context that `handleRequest` makes, with the read of its descriptor under way. -/
def new (index : Fin 32) : RequestContext where
  index := index
  transferReqDesc := ⟨0, 0, 0, 0⟩
  cmd := .scsi
  transferReq := []
  prdt := []
  reqDone := false
  prdtDone := false
  waits := []
  counter := 0
  pending := [.descriptorRead]

/-- A request of `size` bytes to the DMA interface. -/
def dma (size : Nat) (callback : Callback) (ctx : RequestContext) : RequestContext :=
  if size = 0 then ctx else { ctx with pending := callback :: ctx.pending }

/-- `done` of `processUTPCommand`: the response is written to the host. -/
def done (ctx : RequestContext) : RequestContext :=
  { ctx with waits := [] }.dma (ctx.transferReqDesc.respUPIULength.toNat * 4) .responseWritten

/-- What the device waits for is begun, then `done`. A transfer without an entry in
the PRDT is over at once. -/
def waitFor : List Wait → RequestContext → RequestContext
  | [], ctx => ctx.done
  | .call :: waits, ctx => { ctx with waits := .call :: waits, pending := .call :: ctx.pending }
  | .transfer [] :: waits, ctx => waitFor waits ctx
  | .transfer (size :: sizes) :: waits, ctx =>
    { ctx with
      waits := .transfer (size :: sizes) :: waits
      counter := (size :: sizes).length
      pending := ((size :: sizes).filter fun n => n ≠ 0).map (fun _ => .transferred) ++
        ctx.pending }

/-- `doRequest` of `processUTPCommand` (host.cc:235–313). What is read of a NOP or a
query makes no difference: `set` and `processQueryCommand` return. -/
def doRequest (lbaSize : Nat) (ctx : RequestContext) : Except Fault RequestContext := do
  let b ← fetch ctx.transferReq 0
  if b &&& 0x3F = UPIUOpcode.nopOut.code then .ok ctx.done
  else if b &&& 0x3F = UPIUOpcode.queryRequest.code then .ok (ctx.waitFor [.call])
  else if b &&& 0x3F = UPIUOpcode.command.code then do
    let (_, req) ← UPIUCommand.new.set ctx.transferReq
    match processCommand lbaSize ctx.cmd req ctx.prdt with
    | some waits => .ok (ctx.waitFor (waits ++ [.call]))
    | none => .ok ctx
  else .error (.panic "processUTPCommand" "Unapplicable UPIU command type")

/-- The command type of the descriptor. -/
def commandType (desc : UTPTransferReqDesc) : Option UTPTransferCmd :=
  if desc.dw0 >>> 28 = 0 then some .scsi
  else if desc.dw0 >>> 28 = 1 then some .nativeUFSCommand
  else if desc.dw0 >>> 28 = 2 then some .deviceMgmtFunction
  else none

/-- `processUTPCommand` (host.cc:182–352): the two fetches. -/
def processUTPCommand (ctx : RequestContext) : RequestContext :=
  let ctx := ctx.dma (ctx.transferReqDesc.respUPIUOffset.toNat * 4) .reqRead
  if 0 < ctx.transferReqDesc.prdtLength then
    ctx.dma (ctx.transferReqDesc.prdtLength.toNat * 16) .prdtRead
  else { ctx with prdtDone := true }

/-- `doReqRead`: the request, up to the offset of the response, is there. -/
def withReq (mem : Nat → UInt8) (ctx : RequestContext) : RequestContext :=
  { ctx with
    transferReq := (List.range (ctx.transferReqDesc.respUPIUOffset.toNat * 4)).map mem
    reqDone := true }

/-- `doPRDTRead`: the table is there. -/
def withPRDT (mem : Nat → PRDT) (ctx : RequestContext) : RequestContext :=
  { ctx with
    prdt := (List.range ctx.transferReqDesc.prdtLength.toNat).map mem
    prdtDone := true }

/-- The callback is no longer owed. -/
def called (callback : Callback) (ctx : RequestContext) : RequestContext :=
  { ctx with pending := ctx.pending.erase callback }

/-- What a callback does with the context. -/
def receive (lbaSize : Nat) (ctx : RequestContext) : Arrival → Except Fault RequestContext
  | .descriptorRead desc =>
    match commandType desc with
    | some cmd => .ok { ctx with transferReqDesc := desc, cmd := cmd }.processUTPCommand
    | none => .error (.panic "handleRequest" "Undefined UTP Transfer command type")
  | .reqRead mem =>
    if ctx.prdtDone then (ctx.withReq mem).doRequest lbaSize else .ok (ctx.withReq mem)
  | .prdtRead mem =>
    if ctx.reqDone then (ctx.withPRDT mem).doRequest lbaSize else .ok (ctx.withPRDT mem)
  | .call => .ok (ctx.waitFor ctx.waits.tail)
  | .transferred =>
    let ctx := { ctx with counter := ctx.counter - 1 }
    if ctx.counter = 0 then .ok (ctx.waitFor ctx.waits.tail) else .ok ctx
  | .responseWritten => .ok (ctx.dma 32 .descriptorWritten)
  | .descriptorWritten _ => .ok ctx

end RequestContext

/-! ### The controller -/

/-- `Completion`: `bitmask` is the bit of one slot. -/
structure Completion where
  index : Fin 32
  finishedAt : Nat
  deriving DecidableEq, Repr

/-- What happens to a slot. -/
inductive Event where
  /-- The host sets the doorbell bit while it is clear. -/
  | ring (index : Fin 32)
  /-- `handleRequest` takes the slot from the queue. -/
  | process (index : Fin 32)
  /-- The descriptor is written back: the request is done. -/
  | finish (index : Fin 32)
  /-- `completion` clears the doorbell bit. -/
  | complete (index : Fin 32)
  deriving DecidableEq, Repr

structure Host where
  /-- The work event is scheduled. -/
  working : Bool
  utrldbr : BitVec 32
  pendingInterrupt : BitVec 32
  lRequestQueue : List (Fin 32)
  contexts : List RequestContext
  lResponseQueue : List Completion
  log : List Event
  deriving DecidableEq

/-- The events that run the controller. -/
inductive Action where
  /-- `processUIC` with `DME_LINKSTARTUP`. -/
  | linkStartup
  /-- A write to `REG_UTRLDBR`. -/
  | writeDoorbell (data : BitVec 32)
  /-- The work event or the request event. -/
  | handleRequest
  /-- A callback of context `k`. -/
  | callback (k : Nat) (arrival : Arrival)
  /-- The completion event. -/
  | completion (tick : Nat)

namespace Host

def new : Host := ⟨false, 0, 0, [], [], [], []⟩

/-- `1 << i`. -/
def bit (i : Fin 32) : BitVec 32 := BitVec.twoPow 32 i

/-- The body of the loop of `processUTPTransfer`. -/
def push (s : Host) (i : Fin 32) : Host :=
  if s.utrldbr.getLsbD i ∧ ¬ s.pendingInterrupt.getLsbD i then
    { s with
      pendingInterrupt := s.pendingInterrupt ||| bit i
      lRequestQueue := s.lRequestQueue ++ [i] }
  else s

/-- `processUTPTransfer` (host.cc:168–180). -/
def processUTPTransfer (s : Host) : Host := (List.finRange 32).foldl push s

/-- The bits of `data` that are clear in the doorbell register. -/
def rung (s : Host) (data : BitVec 32) : List (Fin 32) :=
  (List.finRange 32).filter fun (i : Fin 32) => data.getLsbD i && !s.utrldbr.getLsbD i

/-- `writeRegister` for `REG_UTRLDBR` (host.cc:441–444). -/
def writeDoorbell (s : Host) (data : BitVec 32) : Host :=
  { s with
    utrldbr := s.utrldbr ||| data
    log := s.log ++ (s.rung data).map Event.ring }.processUTPTransfer

/-- `handleRequest` (host.cc:544–621), which schedules itself again. -/
def handleRequest (s : Host) : Host :=
  match s.lRequestQueue with
  | [] => s
  | i :: queue => { s with
      lRequestQueue := queue
      contexts := s.contexts ++ [.new i]
      log := s.log ++ [.process i] }

/-- The completion of a slot (host.cc:509–517). -/
def clear (s : Host) (c : Completion) : Host :=
  { s with
    utrldbr := s.utrldbr &&& ~~~bit c.index
    pendingInterrupt := s.pendingInterrupt &&& ~~~bit c.index
    log := s.log ++ [.complete c.index] }

/-- `completion` (host.cc:497–535): what is finished is taken from the queue. The
order of the queue, by time, makes no difference to what is finished. -/
def completion (s : Host) (tick : Nat) : Host :=
  (s.lResponseQueue.filter fun c => c.finishedAt ≤ tick).foldl clear
    { s with lResponseQueue := s.lResponseQueue.filter fun c => ¬ c.finishedAt ≤ tick }

/-- A callback. The last one gives the request to the completion queue. -/
def callback (lbaSize : Nat) (s : Host) (k : Nat) (arrival : Arrival) : Except Fault Host :=
  match s.contexts[k]? with
  | none => .ok s
  | some ctx => do
    let ctx ← (ctx.called arrival.callback).receive lbaSize arrival
    match arrival with
    | .descriptorWritten now => .ok { s with
        contexts := s.contexts.eraseIdx k
        lResponseQueue := s.lResponseQueue ++ [⟨ctx.index, now⟩]
        log := s.log ++ [.finish ctx.index] }
    | _ => .ok { s with contexts := s.contexts.set k ctx }

def exec (lbaSize : Nat) (s : Host) : Action → Except Fault Host
  | .linkStartup => .ok { s with working := true }
  | .writeDoorbell data => .ok (s.writeDoorbell data)
  | .handleRequest => .ok s.handleRequest
  | .callback k arrival => s.callback lbaSize k arrival
  | .completion tick => .ok (s.completion tick)

/-- The event can run: the work event is scheduled, the callback is owed. -/
def Valid (s : Host) : Action → Prop
  | .handleRequest => s.working = true
  | .callback k arrival => ∃ ctx ∈ s.contexts[k]?, arrival.callback ∈ ctx.pending
  | .linkStartup | .writeDoorbell _ | .completion _ => True

instance (s : Host) : ∀ a, Decidable (s.Valid a)
  | .handleRequest => inferInstanceAs (Decidable (s.working = true))
  | .callback k _ => inferInstanceAs (Decidable (∃ ctx ∈ s.contexts[k]?, _))
  | .linkStartup => instDecidableTrue
  | .writeDoorbell _ => instDecidableTrue
  | .completion _ => instDecidableTrue

end Host

end SimpleSSD.HIL.UFS
