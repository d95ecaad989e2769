import SimpleSSD.PAL.Address
import SimpleSSD.PAL.FreeSlots

/-!
# Scheduling of flash commands (PAL2.cc:24–396, Latency*.cc)

A command occupies its channel twice, for the transfer in front of the memory operation
and for the one behind it, and its die from the first to the second.
`timelineScheduling` looks for ticks at which all three are free, takes them, and cuts a
slot for a later command transfer out of the channel behind the first transfer. The merged
time slots and the time stamps of the operations are the subject of `BusyTime`; what else it
only counts is left out.
-/

namespace SimpleSSD.PAL

/-- `PAL_OPERATION`. -/
inductive Operation where
  | read | write | erase
  deriving DecidableEq, Repr

/-- `NAND_TYPE`. -/
inductive NandType where
  | slc | mlc | tlc
  deriving DecidableEq, Repr

/-- The page types. -/
inductive PageType where
  | lsb | csb | msb
  deriving DecidableEq, Repr

/-- `PAGETiming`. -/
structure PageTiming where
  read : Nat
  write : Nat

/-- The times of one of the two transfers. -/
structure DmaTiming where
  read : Nat
  write : Nat
  erase : Nat

/-- `NANDTiming`. -/
structure NandTiming where
  lsb : PageTiming
  csb : PageTiming
  msb : PageTiming
  dma0 : DmaTiming
  dma1 : DmaTiming
  erase : Nat

/-- `GetPageType` of the three latency classes. -/
def NandType.getPageType (type : NandType) (page : Nat) : PageType :=
  match type with
  | .slc => .lsb
  | .mlc => if page % 2 = 0 then .lsb else .msb
  | .tlc =>
    if page ≤ 5 then .lsb
    else if page ≤ 7 then .csb
    else
      match (page - 8) / 2 % 3 with
      | 0 => .lsb
      | 1 => .csb
      | _ => .msb

namespace NandTiming

/-- `GetLatency` for `BUSY_DMA0` or `BUSY_DMA1`. -/
def transfer (dma : DmaTiming) : Operation → Nat
  | .read => dma.read
  | .write => dma.write
  | .erase => dma.erase

/-- `GetLatency` for `BUSY_MEM`, which the classes differ in by the page type only. -/
def memory (timing : NandTiming) (type : PageType) (operation : Operation) : Nat :=
  let pTiming := match type with
    | .lsb => timing.lsb
    | .csb => timing.csb
    | .msb => timing.msb
  match operation with
  | .read => pTiming.read
  | .write => pTiming.write
  | .erase => timing.erase

end NandTiming

/-- The latencies that `TimelineScheduling` asks for. -/
structure Latencies where
  latDMA0 : Nat
  latMEM : Nat
  latDMA1 : Nat
  latANTI : Nat

/-- `TimeSlot` (PAL2_TimeSlot.cc). -/
structure TimeSlot where
  StartTick : Nat
  EndTick : Nat
  deriving DecidableEq, Repr

/-- `TimeSlot(startTick, duration)`. -/
def TimeSlot.new (startTick duration : Nat) : TimeSlot :=
  ⟨startTick, tickSub (tickAdd startTick duration) 1⟩

/-- A command and its address. -/
structure Command where
  arrived : Nat
  operation : Operation
  addr : CPDPBP

/-- The fixed part of `PAL2`. -/
structure Flash where
  param : Parameter
  nandType : NandType
  timing : NandTiming
  /-- The keys of `ChFreeSlots[i]`. -/
  channelLengths : List Nat
  /-- The keys of `DieFreeSlots[i]`. -/
  dieLengths : List Nat

/-- The state of `PAL2`. -/
structure PAL2 where
  channels : Nat → Resource
  dies : Nat → Resource

/-- What a call decides. -/
structure Schedule where
  channel : Nat
  die : Nat
  tsDMA0 : TimeSlot
  tsMEM : TimeSlot
  tsDMA1 : TimeSlot
  finished : Nat
  deriving DecidableEq, Repr

namespace Flash

variable (flash : Flash)

/-- `totalDie`. -/
def totalDie : Nat := flash.param.channel * flash.param.package * flash.param.die % 2 ^ 32

/-- `CPDPBPtoDieIdx`. -/
def dieIdx (addr : CPDPBP) : Nat :=
  (addr.die + addr.package * flash.param.die +
    addr.channel * flash.param.die * flash.param.package) % 2 ^ 32

/-- The latencies of a command (PAL2.cc:225–228). -/
def latencies (cmd : Command) : Latencies where
  latDMA0 := NandTiming.transfer flash.timing.dma0 cmd.operation
  latMEM := flash.timing.memory (flash.nandType.getPageType cmd.addr.page) cmd.operation
  latDMA1 := NandTiming.transfer flash.timing.dma1 cmd.operation
  latANTI := NandTiming.transfer flash.timing.dma0 .read

/-- The state after the constructor. -/
def start : PAL2 where
  channels _ := ⟨FreeSlots.empty flash.channelLengths, 0⟩
  dies _ := ⟨FreeSlots.empty flash.dieLengths, 0⟩

end Flash

/-- What the loops decide. -/
structure Plan where
  DMA0tickFrom : Nat
  tickDMA0 : Nat
  tickMEM : Nat
  DMA1tickFrom : Nat
  totalLat : Nat

section Loops

variable (ch die : Resource) (lat : Latencies)

/-- `LOOP1` (PAL2.cc:233–294): a tick at which the channel is free for the first transfer
and the die for the operation, the slot of the channel and that of the die. A round that
does not leave the loop is determined by its first tick, so a loop that makes more rounds
than there are ticks never ends. -/
def loop1 : Nat → Nat → Except Fault (Nat × Nat × Nat)
  | 0, _ => .error (.diverges "PAL2::TimelineScheduling")
  | rounds + 1, DMA0tickFrom =>
    let found0 := ch.search lat.latDMA0 DMA0tickFrom
    let foundM := die.search (tickAdd lat.latDMA0 lat.latMEM) found0.1
    if foundM.2 = found0.2 then .ok (found0.1, found0.2, foundM.2)
    else if (ch.search lat.latDMA0 foundM.1).2 = found0.2 then
      .ok (foundM.1, found0.2, foundM.2)
    else loop1 rounds foundM.1

/-- `LOOP0` (PAL2.cc:231–327): the second transfer is fitted behind the first, and the die
has to be free up to its end. -/
def loop0 : Nat → Nat → Except Fault Plan
  | 0, _ => .error (.diverges "PAL2::TimelineScheduling")
  | rounds + 1, DMA0tickFrom => do
    let found ← loop1 ch die lat (2 ^ 64) DMA0tickFrom
    let found1 := ch.search (tickAdd lat.latDMA1 lat.latANTI)
      (tickAdd found.1 (tickAdd lat.latDMA0 lat.latMEM))
    let totalLat := tickSub (tickAdd (tickAdd found1.1 lat.latDMA1) lat.latANTI) found.1
    let tickMEM_vrfy := (die.search totalLat found.1).2
    if tickMEM_vrfy = found.2.2 then
      .ok ⟨found.1, found.2.1, found.2.2, found1.1, totalLat⟩
    else loop0 rounds tickMEM_vrfy

/-- The assignment (PAL2.cc:329–396): the three time slots, and the channel and the die
that they have been taken out of. -/
def assign (plan : Plan) :
    Except Fault ((TimeSlot × TimeSlot × TimeSlot) × Resource × Resource) := do
  let ch ← ch.insertFreeSlot lat.latDMA0 plan.DMA0tickFrom plan.tickDMA0 false
  let found1 := ch.search (tickAdd lat.latDMA1 lat.latANTI) plan.DMA1tickFrom
  let ch ← ch.insertFreeSlot lat.latDMA1
    (tickAdd (if found1.2 < found1.1 then found1.1 else found1.2) lat.latANTI) found1.2 false
  let die ← die.insertFreeSlot plan.totalLat plan.DMA0tickFrom plan.tickMEM false
  let tsDMA0 := TimeSlot.new
    (if plan.DMA0tickFrom < plan.tickDMA0 then plan.tickDMA0 else plan.DMA0tickFrom) lat.latDMA0
  let tsDMA1 := TimeSlot.new
    (tickAdd (if found1.1 < found1.2 then found1.2 else found1.1) lat.latANTI) lat.latDMA1
  let tsMEM := TimeSlot.new
    (if plan.DMA0tickFrom < plan.tickMEM then plan.tickMEM else plan.DMA0tickFrom) plan.totalLat
  let tmpTick := tickAdd
    (if plan.tickDMA0 < plan.DMA0tickFrom then plan.DMA0tickFrom else plan.tickDMA0) lat.latDMA0
  let found := ch.search (tickAdd lat.latANTI lat.latANTI) tmpTick
  let ch ← if found.1 = tmpTick
    then ch.insertFreeSlot (tickAdd lat.latANTI lat.latANTI) found.1 found.2 true else .ok ch
  .ok ((tsDMA0, tsMEM, tsDMA1), ch, die)

end Loops

namespace PAL2

variable (flash : Flash)

/-- `TimelineScheduling` (PAL2.cc:207–396 and 560). -/
def timelineScheduling (s : PAL2) (cmd : Command) : Except Fault (Schedule × PAL2) :=
  let reqCh := cmd.addr.channel
  let reqDieIdx := flash.dieIdx cmd.addr
  let lat := flash.latencies cmd
  if ¬ (reqCh < flash.param.channel ∧ reqDieIdx < flash.totalDie) then
    .error (.badAccess "ChFreeSlots[reqCh]")
  else do
    let plan ← loop0 (s.channels reqCh) (s.dies reqDieIdx) lat (2 ^ 64) cmd.arrived
    let (ts, ch, die) ← assign (s.channels reqCh) (s.dies reqDieIdx) lat plan
    .ok (⟨reqCh, reqDieIdx, ts.1, ts.2.1, ts.2.2, ts.2.2.EndTick⟩,
      { channels := Function.update s.channels reqCh ch
        dies := Function.update s.dies reqDieIdx die })

/-- `FlushFreeSlots` (PAL2.cc:646–658). -/
def flushFreeSlots (s : PAL2) (currentTick : Nat) : PAL2 where
  channels c := { s.channels c with
    freeSlots := (s.channels c).freeSlots.flushAFreeSlot currentTick }
  dies d := { s.dies d with freeSlots := (s.dies d).freeSlots.flushAFreeSlot currentTick }

end PAL2

/-- What happens to `PAL2`: commands, and the periodic flush. -/
inductive Step where
  | submit (cmd : Command)
  | flush (currentTick : Nat)

/-- One step. The list has the commands and their schedules so far, the last one first. -/
def Step.exec (flash : Flash) (acc : PAL2 × List (Command × Schedule)) :
    Step → Except Fault (PAL2 × List (Command × Schedule))
  | .submit cmd => do
    let (schedule, s) ← acc.1.timelineScheduling flash cmd
    .ok (s, (cmd, schedule) :: acc.2)
  | .flush currentTick => .ok (acc.1.flushFreeSlots currentTick, acc.2)

/-- A run from the constructed state. -/
def runSteps (flash : Flash) (steps : List Step) :
    Except Fault (PAL2 × List (Command × Schedule)) :=
  steps.foldlM (Step.exec flash) (flash.start, [])

end SimpleSSD.PAL
