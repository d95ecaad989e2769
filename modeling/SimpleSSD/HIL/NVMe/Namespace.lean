import SimpleSSD.HIL.NVMe.Queue

/-!
# Namespaces (hil/nvme/namespace.cc, subsystem.cc:34–235)

A namespace is a range of logical pages that is seen as blocks of one of four
sizes. The model leaves out the disk image, the health information and the
utilization, none of which decides what a command does to the logical pages.
-/

namespace SimpleSSD.HIL

/-- `HIL::Request`. -/
structure Request where
  range : LPNRange
  offset : Nat
  length : Nat
  deriving DecidableEq, Repr

namespace NVMe

/-- What `getLPNInfo` tells the subsystem of the layers below it. -/
structure LPNInfo where
  totalLogicalPages : Nat
  logicalPageSize : Nat
  totalLogicalPages_lt : totalLogicalPages < 2 ^ 64
  logicalPageSize_pos : 0 < logicalPageSize
  logicalPageSize_lt : logicalPageSize < 2 ^ 32

/-! ### Block sizes -/

def nLBAFormat : Nat := 4

/-- The table `lbaSize`. -/
def lbaSizes : List Nat := [512, 1024, 2048, 4096]

/-- `lbaSize[lbaFormatIndex]`. Nothing is known of what stands behind the table. -/
def lbaSize (lbaFormatIndex : Nat) : Except Fault Nat :=
  match lbaSizes[lbaFormatIndex]? with
  | some size => .ok size
  | none => .error (.badAccess "lbaSize")

/-- `Namespace::Information`. -/
structure Information where
  size : Nat
  capacity : Nat
  sizeInByteL : Nat
  sizeInByteH : Nat
  lbaFormatIndex : Nat
  dataProtectionSettings : Nat
  namespaceSharingCapabilities : Nat
  lbaSize : Nat
  range : LPNRange
  deriving DecidableEq, Repr

/-- `Namespace`. -/
structure Namespace where
  nsid : Nat
  info : Information
  attached : Bool
  formatFinishedAt : Nat
  deriving DecidableEq, Repr

/-- `setData` on a new namespace (namespace.cc:108–146). -/
def Namespace.new (nsid : Nat) (info : Information) : Namespace := ⟨nsid, info, false, 0⟩

/-! ### From blocks to logical pages -/

/-- `Subsystem::convertUnit` (subsystem.cc:106–135). -/
def convertUnit (dev : LPNInfo) (ns : Namespace) (slba nlblk : Nat) : Request :=
  let info := ns.info
  let lbaratio := dev.logicalPageSize / info.lbaSize
  if lbaratio = 0 then
    let lbaratio := info.lbaSize / dev.logicalPageSize
    let slpn := slba * lbaratio % 2 ^ 64
    let nlp := nlblk * lbaratio % 2 ^ 64
    ⟨⟨(slpn + info.range.slpn) % 2 ^ 64, nlp⟩, 0, nlblk * info.lbaSize % 2 ^ 64⟩
  else
    let slpn := slba / lbaratio
    let off := slba % lbaratio
    let nlp := (nlblk + off + lbaratio - 1) % 2 ^ 64 / lbaratio
    ⟨⟨(slpn + info.range.slpn) % 2 ^ 64, nlp⟩, off * info.lbaSize % 2 ^ 64,
      nlblk * info.lbaSize % 2 ^ 64⟩

/-! ### Commands of a namespace -/

/-- What a command does: it is answered at once, or it is executed and its answer
waits for the requests. -/
inductive Outcome where
  | rejected (resp : CQEntryWrapper)
  | executed (requests : List Request)
  deriving DecidableEq

/-- The requests that a command makes. -/
def Outcome.requests : Outcome → List Request
  | .rejected _ => []
  | .executed requests => requests

/-- The checks and the unit conversion that `read`, `write` and `compare` share
(namespace.cc:286–303, 380–397 and 463–480). A count of zero is what 2 ^ 16 blocks
come to in the 16-bit `nlb`. -/
def Namespace.transfer (dev : LPNInfo) (ns : Namespace) (req : SQEntryWrapper) : Outcome :=
  let slba := (req.dword11 ++ req.dword10).toNat
  let nlb := (req.dword12.setWidth 16 + 1).toNat
  let resp := CQEntryWrapper.new req
  if !ns.attached then
    .rejected (resp.makeStatus true false .commandSpecificStatus .namespaceNotAttached)
  else if nlb = 0 then .rejected resp
  else .executed [convertUnit dev ns slba nlb]

/-- `Namespace::write`: the request goes to `HIL::write`. -/
def Namespace.write (dev : LPNInfo) (ns : Namespace) (req : SQEntryWrapper) : Outcome :=
  ns.transfer dev req

/-- `Namespace::read`: the request goes to `HIL::read`. -/
def Namespace.read (dev : LPNInfo) (ns : Namespace) (req : SQEntryWrapper) : Outcome :=
  ns.transfer dev req

/-- `Namespace::compare`: the request goes to `HIL::read`. -/
def Namespace.compare (dev : LPNInfo) (ns : Namespace) (req : SQEntryWrapper) : Outcome :=
  ns.transfer dev req

/-- `DatasetManagementRange`. -/
structure DatasetManagementRange where
  nlb : BitVec 32
  slba : BitVec 64
  deriving DecidableEq, Repr

/-- `Namespace::datasetManagement` (namespace.cc:576–683), with the ranges that the
DMA reads: each goes to `HIL::trim`. -/
def Namespace.datasetManagement (dev : LPNInfo) (ns : Namespace) (req : SQEntryWrapper)
    (buffer : Nat → DatasetManagementRange) : Outcome :=
  let nr := (req.dword10 &&& 0xFF).toNat + 1
  let ad := req.dword11 &&& 0x04
  let resp := CQEntryWrapper.new req
  if !ns.attached then
    .rejected (resp.makeStatus true false .commandSpecificStatus .namespaceNotAttached)
  else if ad = 0 then .rejected resp
  else
    .executed ((List.range nr).map fun i =>
      convertUnit dev ns (buffer i).slba.toNat (buffer i).nlb.toNat)

end NVMe

end SimpleSSD.HIL
