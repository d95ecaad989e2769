import SimpleSSD.Util.Def

/-!
# Queue entries (hil/nvme/queue.hh, queue.cc:25–59, def.hh)

The entries that pass between the host and the device, with the fields that a
handler reads or writes, and the codes that they use.
-/

namespace SimpleSSD.HIL.NVMe

/-! ### Namespace identifiers -/

def nsidNone : Nat := 0x00000000
def nsidLowest : Nat := 0x00000001
def nsidAll : Nat := 0xFFFFFFFF

/-! ### Status codes -/

/-- `STATUS_CODE_TYPE`. -/
inductive StatusCodeType where
  | genericCommandStatus | commandSpecificStatus | mediaAndDataIntegrityError
  deriving DecidableEq, Repr

/-- The values of `STATUS_CODE` and `ERROR_CODE` in use. -/
inductive StatusCode where
  | success | invalidOpcode | invalidField | abortRequested | abortDueToSqDelete
  | abortInvalidNamespace | abortInvalidFormat
  | formatInProgress | invalidCompletionQueue | invalidQueueId | invalidQueueSize
  | invalidLogPage | invalidFormat | invalidQueueDelete | featureIdNotSaveable
  | namespaceInsufficientCapacity | namespaceIdUnavailable | namespaceAlreadyAttached
  | namespaceIsPrivate | namespaceNotAttached | controllerListInvalid | compareFailure
  deriving DecidableEq, Repr

/-- The status field of a completion queue entry. -/
structure Status where
  dnr : Bool
  more : Bool
  sct : StatusCodeType
  sc : StatusCode
  deriving DecidableEq, Repr

/-- The status of an entry that no `makeStatus` has touched: all bits zero. -/
def Status.zero : Status := ⟨false, false, .genericCommandStatus, .success⟩

/-! ### Entries -/

/-- `SQEntryWrapper`: a submission queue entry, and the queue it was fetched from. -/
structure SQEntryWrapper where
  opcode : BitVec 8
  commandID : BitVec 16
  namespaceID : BitVec 32
  data1 : BitVec 64
  data2 : BitVec 64
  dword10 : BitVec 32
  dword11 : BitVec 32
  dword12 : BitVec 32
  dword13 : BitVec 32
  sqID : Nat
  cqID : Nat
  sqHead : Nat
  sqUID : Nat
  useSGL : Bool
  deriving DecidableEq, Repr

/-- `CQEntryWrapper`. -/
structure CQEntryWrapper where
  dword0 : BitVec 32
  sqHead : Nat
  sqID : Nat
  commandID : BitVec 16
  status : Status
  cqID : Nat
  sqUID : Nat
  deriving DecidableEq, Repr

/-- `CQEntryWrapper(req)`. -/
def CQEntryWrapper.new (req : SQEntryWrapper) : CQEntryWrapper where
  dword0 := 0
  sqHead := req.sqHead
  sqID := req.sqID
  commandID := req.commandID
  status := .zero
  cqID := req.cqID
  sqUID := req.sqUID

/-- `makeStatus`. -/
def CQEntryWrapper.makeStatus (resp : CQEntryWrapper) (dnr more : Bool) (sct : StatusCodeType)
    (sc : StatusCode) : CQEntryWrapper :=
  { resp with status := ⟨dnr, more, sct, sc⟩ }

end SimpleSSD.HIL.NVMe
