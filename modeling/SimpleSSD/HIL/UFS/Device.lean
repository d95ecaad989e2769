import Mathlib.Algebra.Ring.Nat
import SimpleSSD.HIL.UFS.UPIU

/-!
# SCSI commands of the UFS device (hil/ufs/device.cc)

`processCommand` answers a command at once, or after functions that the CPU model or
the HIL calls back, and after DMA transfers over the entries of the PRDT. The model
says for what it waits; the data that it moves is left out.
-/

namespace SimpleSSD.HIL.UFS

open Buffer

/-- `UTP_TRANSFER_CMD`. -/
inductive UTPTransferCmd where
  | scsi
  | nativeUFSCommand
  | deviceMgmtFunction
  deriving DecidableEq, Repr

/-- `SCSI_COMMAND`, the commands that are told apart. -/
inductive ScsiCommand where
  | inquiry
  | modeSense10
  | reportLuns
  | read6
  | read10
  | readCapacity10
  | readCapacity16
  | write6
  | write10
  | synchronizeCache10
  deriving DecidableEq, Repr

namespace ScsiCommand

def code : ScsiCommand → UInt8
  | inquiry => 0x12
  | modeSense10 => 0x5A
  | reportLuns => 0xA0
  | read6 => 0x08
  | read10 => 0x28
  | readCapacity10 => 0x25
  | readCapacity16 => 0x9E
  | write6 => 0x0A
  | write10 => 0x2A
  | synchronizeCache10 => 0x35

/-- The command with the opcode. The others, known or not, are answered at once. -/
def ofCode (opcode : UInt8) : Option ScsiCommand :=
  [inquiry, modeSense10, reportLuns, read6, read10, readCapacity10, readCapacity16, write6, write10,
    synchronizeCache10].find? fun c => c.code = opcode

end ScsiCommand

/-! ### Transfers over a PRDT -/

/-- `PRDT`: an entry, without its address. -/
structure PRDT where
  dw3 : UInt32
  deriving DecidableEq, Repr

/-- The bytes that an entry describes. -/
def PRDT.size (entry : PRDT) : Nat := (entry.dw3 &&& 0x3FFFF).toNat + 1

/-- The loop of `prdtRead` and `prdtWrite` over the entries, with `length` bytes left:
the sizes of the DMA requests. -/
def prdtSizes : List PRDT → Nat → List Nat
  | [], _ => []
  | entry :: table, length =>
    min entry.size length ::
      if length ≤ min entry.size length then []
      else prdtSizes table (length - min entry.size length)

/-- What has to happen before the next function is called. -/
inductive Wait where
  /-- A function given to the CPU model or a request given to the HIL. -/
  | call
  /-- DMA requests of these sizes, counted by `DMAContext`. -/
  | transfer (sizes : List Nat)
  deriving DecidableEq, Repr

/-- `prdtRead` and `prdtWrite` (device.cc:806–876): `length` is a `uint32_t`. -/
def prdtTransfer (prdt : List PRDT) (length : Nat) : List Wait :=
  [.call, .transfer (prdtSizes prdt (length % 2 ^ 32))]

/-- The length of a mode page with its header (device.cc:452–516). -/
def modePageSize (page : UInt8) : Option Nat :=
  if page = 0x0A then some 20
  else if page = 0x01 then some 20
  else if page = 0x08 then some 28
  else if page = 0x3F then some 52
  else none

/-- The LUNs that have inquiry data (device.cc:425–443). -/
def inquiryLuns : List UInt8 := [0x80 ||| 0x01, 0x80 ||| 0x50, 0x80 ||| 0x30, 0x80 ||| 0x44, 0x00]

/-- The byte of the CDB. -/
def UPIUCommand.cdbAt (req : UPIUCommand) (i : Nat) : UInt8 := req.cdb.1.getD i 0

/-- `nlb` of the six-byte commands: zero stands for 256 blocks. -/
def UPIUCommand.nlb6 (req : UPIUCommand) : Nat :=
  if req.cdbAt 4 = 0 then 256 else (req.cdbAt 4).toNat

/-- `nlb` of the ten-byte commands. -/
def UPIUCommand.nlb10 (req : UPIUCommand) : Nat := (ofBe16 (req.cdbAt 7) (req.cdbAt 8)).toNat

/-- A read of `nlb` blocks: the read itself, which the HIL calls back, then the
transfer to the host. -/
def readWaits (lbaSize : Nat) (prdt : List PRDT) (nlb : Nat) : List Wait :=
  if 0 < nlb then [.call, .call] ++ prdtTransfer prdt (nlb * lbaSize) else []

/-- A write of `nlb` blocks. -/
def writeWaits (lbaSize : Nat) (prdt : List PRDT) (nlb : Nat) : List Wait :=
  if 0 < nlb then prdtTransfer prdt (nlb * lbaSize) ++ [.call, .call] else []

/-- `processCommand` (device.cc:397–804) for a SCSI command: what it waits for before
it calls `func`. -/
def scsiWaits (lbaSize : Nat) (req : UPIUCommand) (prdt : List PRDT) : List Wait :=
  match ScsiCommand.ofCode (req.cdbAt 0) with
  | some .inquiry => if req.header.lun ∈ inquiryLuns then prdtTransfer prdt 36 else []
  | some .modeSense10 =>
    match modePageSize (req.cdbAt 2 &&& 0x3F) with
    | some size => prdtTransfer prdt size
    | none => []
  | some .reportLuns => prdtTransfer prdt 40
  | some .read6 => readWaits lbaSize prdt req.nlb6
  | some .read10 => readWaits lbaSize prdt req.nlb10
  | some .readCapacity10 => prdtTransfer prdt 8
  | some .readCapacity16 => prdtTransfer prdt 32
  | some .write6 => writeWaits lbaSize prdt req.nlb6
  | some .write10 => writeWaits lbaSize prdt req.nlb10
  | some .synchronizeCache10 => if req.cdbAt 1 &&& 0x10 = 0 then [.call, .call] else []
  | none => []

/-- `processCommand`. For the command types other than SCSI it never calls `func`. -/
def processCommand (lbaSize : Nat) (cmd : UTPTransferCmd) (req : UPIUCommand) (prdt : List PRDT) :
    Option (List Wait) :=
  match cmd with
  | .scsi => some (scsiWaits lbaSize req prdt)
  | .nativeUFSCommand | .deviceMgmtFunction => none

/-! ### Sizes -/

section Sizes

variable {prdt : List PRDT} {length : Nat}

theorem length_prdtSizes : (prdtSizes prdt length).length ≤ prdt.length := by
  induction prdt generalizing length with
  | nil => exact le_rfl
  | cons entry table ih =>
    rw [prdtSizes, List.length_cons, List.length_cons]
    split
    · simp
    · have hrest := @ih (length - min entry.size length)
      omega

/-- Only a transfer of no bytes has a DMA request of size zero. -/
theorem prdtSizes_pos (h : 0 < length) : ∀ size ∈ prdtSizes prdt length, 0 < size := by
  induction prdt generalizing length with
  | nil =>
    intro size hsize
    cases hsize
  | cons entry table ih =>
    have hentry : 0 < entry.size := Nat.succ_pos _
    intro size hsize
    rw [prdtSizes, List.mem_cons] at hsize
    rcases hsize with rfl | hsize
    · omega
    · split at hsize
      · cases hsize
      · exact ih (by omega) size hsize

end Sizes

end SimpleSSD.HIL.UFS
