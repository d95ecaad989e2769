import SimpleSSD.Util.Def
import SimpleSSD.Lib.Run

/-!
# The SATA host bus adapter (hil/sata/hba.cc)

The response side of the HBA: the queue of responses, the FIS writes that are under
way, and the registers of the port that they change. `exec` runs one event: a
response of the device, the end of a FIS write, or a write of the host to `P0IS` or
`P0CI`; the events may come in any order. `log` and `reported` are kept for the
specification: `reported` are the responses that host memory holds, with the status bits
that the host has not written with one.

The contents of a FIS, other than the bytes that are read here, the global interrupt
status and the interrupt line are left out.
-/

namespace SimpleSSD.HIL.SATA

/-- The bytes of a FIS that are read: `data[0]`, `data[2]` and `sdb.payload`. -/
structure FIS where
  type : UInt8
  status : UInt8
  payload : BitVec 32
  deriving DecidableEq, Repr

def FIS_TYPE_REG_D2H : UInt8 := 0x34
def FIS_TYPE_DMA_SETUP : UInt8 := 0x41
def FIS_TYPE_PIO_SETUP : UInt8 := 0x5F
def FIS_TYPE_DEV_BITS : UInt8 := 0xA1

def PORT_IRQ_D2H_REG_FIS : BitVec 32 := 0x00000001
def PORT_IRQ_PIOS_FIS : BitVec 32 := 0x00000002
def PORT_IRQ_DMAS_FIS : BitVec 32 := 0x00000004
def PORT_IRQ_SDB_FIS : BitVec 32 := 0x00000008
def PORT_IRQ_UNK_FIS : BitVec 32 := 0x00000010
def PORT_IRQ_TF_ERR : BitVec 32 := 0x40000000

/-- `ATA_ERR`. -/
def ATA_ERR : UInt8 := 0x01

/-- `Completion`, without its function. -/
structure Completion where
  slotIndex : Fin 32
  maskIS : BitVec 32
  fis : FIS
  deriving DecidableEq, Repr

namespace Completion

/-- `Completion()`. -/
def new : Completion := ⟨0, 0, ⟨0, 0, 0⟩⟩

/-- The Register FIS of the command in a slot (device.cc:478–484 and its like). -/
def regD2H (slotIndex : Fin 32) (maskIS : BitVec 32) (status : UInt8) : Completion :=
  { new with slotIndex, maskIS, fis := ⟨FIS_TYPE_REG_D2H, status, 0⟩ }

/-- The DMA Setup FIS (device.cc:289–299, 354–363). -/
def dmaSetup : Completion := { new with fis := ⟨FIS_TYPE_DMA_SETUP, 0, 0⟩ }

/-- The mask that `submitFIS` completes. -/
def withMask (resp : Completion) : Completion :=
  let kind :=
    if resp.fis.type = FIS_TYPE_DMA_SETUP then PORT_IRQ_DMAS_FIS
    else if resp.fis.type = FIS_TYPE_PIO_SETUP then PORT_IRQ_PIOS_FIS
    else if resp.fis.type = FIS_TYPE_REG_D2H then PORT_IRQ_D2H_REG_FIS
    else if resp.fis.type = FIS_TYPE_DEV_BITS then PORT_IRQ_SDB_FIS
    else PORT_IRQ_UNK_FIS
  let error := if resp.fis.status &&& ATA_ERR ≠ 0 then PORT_IRQ_TF_ERR else 0#32
  { resp with maskIS := resp.maskIS ||| kind ||| error }

end Completion

/-- An entry of `lResponseQueue`. `id` counts the responses; `signal` marks the signature
of `submitSignal`, which belongs to no command. -/
structure Response extends Completion where
  id : Nat
  signal : Bool
  deriving DecidableEq, Repr

/-- The Register FIS of the command in slot `i`. -/
def Response.RegisterFIS (r : Response) (i : Fin 32) : Prop :=
  r.signal = false ∧ r.fis.type = FIS_TYPE_REG_D2H ∧ r.slotIndex = i

instance (r : Response) (i : Fin 32) : Decidable (r.RegisterFIS i) :=
  inferInstanceAs (Decidable (_ ∧ _))

/-- What happens to the response with the number. -/
inductive Event where
  /-- Its FIS is given to the host DMA. -/
  | write (id : Nat)
  /-- Its FIS is in host memory. -/
  | written (id : Nat)
  /-- The host has written ones to all its status bits. -/
  | acknowledged (id : Nat)
  /-- Its function is called. -/
  | called (id : Nat)
  deriving DecidableEq, Repr

structure HBA where
  /-- `PxIS`. -/
  interruptStatus : BitVec 32
  /-- `PxSACT`. -/
  active : BitVec 32
  /-- `PxCI`. -/
  commandIssue : BitVec 32
  lRequestQueue : List (Fin 32)
  lResponseQueue : List Response
  submitFISPending : Bool
  /-- The FIS writes under way, with the mask that `doCompletion` sets. -/
  writes : List (Nat × BitVec 32)
  submitted : Nat
  reported : List (Nat × BitVec 32)
  log : List Event
  deriving DecidableEq

/-- The events. -/
inductive Action where
  | submitFIS (resp : Completion)
  | submitSignal (resp : Completion)
  /-- `doCompletion` of the `k`-th write under way. -/
  | doCompletion (k : Nat)
  | writeP0IS (temp : BitVec 32)
  | writeP0CI (temp : BitVec 32)

namespace HBA

def new : HBA := ⟨0#32, 0#32, 0#32, [], [], false, [], 0, [], []⟩

/-- The bits of `PxIS` that a write of the host can keep. -/
def writeMask : BitVec 32 := 0x037FFF50

/-- `handleResponse` (hba.cc:446–495): the FIS of the first response is written. -/
def handleResponse (s : HBA) : HBA :=
  match s.lResponseQueue with
  | [] => s
  | r :: _ =>
    if s.submitFISPending then s
    else { s with writes := s.writes ++ [(r.id, r.maskIS)], log := s.log ++ [.write r.id] }

/-- `submitFIS` (hba.cc:384–414). -/
def submitFIS (s : HBA) (resp : Completion) : HBA :=
  { s with
    active :=
      if resp.fis.type = FIS_TYPE_DEV_BITS then s.active &&& ~~~resp.fis.payload else s.active
    lResponseQueue := s.lResponseQueue ++ [Response.mk resp.withMask s.submitted false]
    submitted := s.submitted + 1 }.handleResponse

/-- `submitSignal` (hba.cc:416–444), which writes its FIS at once. -/
def submitSignal (s : HBA) (resp : Completion) : Except Fault HBA :=
  if resp.fis.type = FIS_TYPE_REG_D2H then
    let mask := PORT_IRQ_TF_ERR ||| PORT_IRQ_D2H_REG_FIS
    .ok { s with
      lResponseQueue :=
        s.lResponseQueue ++ [Response.mk { resp with maskIS := mask } s.submitted true]
      submitted := s.submitted + 1
      writes := s.writes ++ [(s.submitted, mask)]
      log := s.log ++ [.write s.submitted] }
  else .error (.panic "submitSignal" "Invalid FIS to submitSignal")

/-- `doCompletion`: the FIS is in host memory. -/
def doCompletion (s : HBA) (k : Nat) : HBA :=
  match s.writes[k]? with
  | none => s
  | some (id, mask) => { s with
      interruptStatus := s.interruptStatus ||| mask
      writes := s.writes.eraseIdx k
      reported := s.reported ++ [(id, mask)]
      log := s.log ++ [.written id] }

/-- `interruptCleared` (hba.cc:497–526). -/
def interruptCleared (s : HBA) : HBA :=
  match s.lResponseQueue with
  | [] => s
  | r :: queue =>
    if s.interruptStatus &&& r.maskIS = 0#32 then
      let s := { s with
        commandIssue := s.commandIssue &&& ~~~BitVec.twoPow 32 r.slotIndex
        submitFISPending := false
        lResponseQueue := queue }
      let s := if queue = [] then s else s.handleResponse
      { s with log := s.log ++ [.called r.id] }
    else s

/-- What the host acknowledges with a write of `temp` to `PxIS`. -/
def acknowledge (s : HBA) (temp : BitVec 32) : HBA :=
  let left := s.reported.map fun p => (p.1, p.2 &&& ~~~temp)
  { s with
    reported := left.filter fun p => p.2 ≠ 0#32
    log := s.log ++ (left.filter fun p => p.2 = 0#32).map fun p => .acknowledged p.1 }

/-- `writeAHCIRegister` for `REG_P0IS` (hba.cc:233–237). -/
def writeP0IS (s : HBA) (temp : BitVec 32) : HBA :=
  { s.acknowledge temp with
    interruptStatus := s.interruptStatus &&& (~~~temp &&& writeMask) }.interruptCleared

/-- `processCommand` (hba.cc:330–340). -/
def processCommand (s : HBA) (ci : BitVec 32) : HBA :=
  { s with
    lRequestQueue := s.lRequestQueue ++
      (List.finRange 32).filter fun (i : Fin 32) => ci.getLsbD i }

/-- `writeAHCIRegister` for `REG_P0CI` (hba.cc:288–294). -/
def writeP0CI (s : HBA) (temp : BitVec 32) : HBA :=
  { s with commandIssue := s.commandIssue ||| temp }.processCommand
    (s.commandIssue ^^^ (s.commandIssue ||| temp))

def exec (s : HBA) : Action → Except Fault HBA
  | .submitFIS resp => .ok (s.submitFIS resp)
  | .submitSignal resp => s.submitSignal resp
  | .doCompletion k => .ok (s.doCompletion k)
  | .writeP0IS temp => .ok (s.writeP0IS temp)
  | .writeP0CI temp => .ok (s.writeP0CI temp)

end HBA

end SimpleSSD.HIL.SATA
