import Mathlib.Data.List.Sort
import SimpleSSD.HIL.NVMe.Namespace
import SimpleSSD.Lib.Run

/-!
# The namespaces of the subsystem (hil/nvme/subsystem.cc:62–259, 950–1292)

The parts of the admin commands that read or change the list of namespaces. A
create command of Namespace Management has two of them: the identifier is chosen
when the command is submitted, and the namespace is made when its data has been
read by DMA. Commands in between may change the list.
-/

namespace SimpleSSD.HIL.NVMe

/-- The fields of `Subsystem` that describe its namespaces. -/
structure Subsystem where
  lNamespaces : List Namespace
  allocatedLogicalPages : Nat
  deriving DecidableEq, Repr

namespace Subsystem

/-- `Subsystem(ctrl, cfg)`. -/
def new : Subsystem := ⟨[], 0⟩

/-- The namespace that a loop over `lNamespaces` finds first. -/
def find? (s : Subsystem) (nsid : Nat) : Option Namespace := s.lNamespaces.find? (·.nsid = nsid)

/-! ### Creation -/

/-- The loop that inverts the allocated ranges (subsystem.cc:183–199). `last` is the
last item of `unallocated`. -/
def invert (last : LPNRange) : List LPNRange → Except Fault (List LPNRange)
  | [] => .ok [last]
  | iter :: allocated =>
    if last.slpn ≤ iter.slpn ∧ iter.stop ≤ last.stop then do
      let rest ← invert ⟨iter.stop, (last.stop + 2 ^ 64 - iter.stop) % 2 ^ 64⟩ allocated
      .ok (⟨last.slpn, iter.slpn - last.slpn⟩ :: rest)
    else .error (.panic "Subsystem::createNamespace" "BUG")

/-- The search for a range (subsystem.cc:151–214). The loop that would merge
neighbours leaves at its first test, `iter` not being the end. -/
def allocate (dev : LPNInfo) (s : Subsystem) (requestedLogicalPages : Nat) (range : LPNRange) :
    Except Fault LPNRange := do
  let allocated := (s.lNamespaces.map (·.info.range)).insertionSort fun a b => a.slpn ≤ b.slpn
  let unallocated ← invert ⟨0, dev.totalLogicalPages⟩ allocated
  match unallocated.find? fun iter => requestedLogicalPages ≤ iter.nlp with
  | some iter => .ok { iter with nlp := requestedLogicalPages }
  | none => .ok range

/-- The lines that enter a namespace into the list (subsystem.cc:220–234). -/
def insert (s : Subsystem) (ns : Namespace) : Subsystem where
  lNamespaces := (s.lNamespaces ++ [ns]).insertionSort fun lhs rhs => lhs.nsid ≤ rhs.nsid
  allocatedLogicalPages := (s.allocatedLogicalPages + ns.info.range.nlp) % 2 ^ 64

/-- `requestedLogicalPages`, for blocks of `lba` bytes. -/
def requestedPages (dev : LPNInfo) (size lba : Nat) : Nat :=
  size / dev.logicalPageSize * lba % 2 ^ 64

/-- `createNamespace` (subsystem.cc:137–235): `none` is `false`, else the `info` it
leaves behind. -/
def createNamespace (dev : LPNInfo) (nsid : Nat) (info : Information) (s : Subsystem) :
    Except Fault (Option (Information × Subsystem)) := do
  let lba ← lbaSize info.lbaFormatIndex
  let requestedLogicalPages := requestedPages dev info.size lba
  let unallocatedLogicalPages := (dev.totalLogicalPages + 2 ^ 64 - s.allocatedLogicalPages) % 2 ^ 64
  if unallocatedLogicalPages < requestedLogicalPages then .ok none
  else do
    let range ← allocate dev s requestedLogicalPages info.range
    if range.nlp = 0 then .ok none
    else
      let info := { info with
        range := range
        sizeInByteL := requestedLogicalPages * dev.logicalPageSize % 2 ^ 64
        sizeInByteH := 0 }
      .ok (some (info, s.insert (.new nsid info)))

/-- The data of a create command, as read from its buffer (subsystem.cc:972–977). -/
structure CreateData where
  size : BitVec 64
  capacity : BitVec 64
  lbaFormatIndex : BitVec 8
  dataProtectionSettings : BitVec 8
  namespaceSharingCapabilities : BitVec 8
  deriving DecidableEq, Repr

/-- The `info` of a create command, but for `lbaSize`. -/
def CreateData.info (data : CreateData) : Information where
  size := data.size.toNat
  capacity := data.capacity.toNat
  sizeInByteL := 0
  sizeInByteH := 0
  lbaFormatIndex := data.lbaFormatIndex.toNat
  dataProtectionSettings := data.dataProtectionSettings.toNat
  namespaceSharingCapabilities := data.namespaceSharingCapabilities.toNat
  lbaSize := 0
  range := ⟨0, 0⟩

/-- The checks of a create command (subsystem.cc:979–990). -/
def CreateData.check (data : CreateData) (resp : CQEntryWrapper) : CQEntryWrapper :=
  if nLBAFormat ≤ data.lbaFormatIndex.toNat then
    resp.makeStatus false false .genericCommandStatus .abortInvalidFormat
  else if data.namespaceSharingCapabilities ≠ 0 then
    resp.makeStatus false false .genericCommandStatus .invalidField
  else if data.dataProtectionSettings ≠ 0 then
    resp.makeStatus false false .genericCommandStatus .invalidField
  else resp

/-- `dmaDone` of a create command (subsystem.cc:967–1009). The checks do not keep the
namespace from being made. -/
def createDone (dev : LPNInfo) (nsid : Nat) (data : CreateData) (resp : CQEntryWrapper)
    (s : Subsystem) : Except Fault (CQEntryWrapper × Subsystem) := do
  let resp := data.check resp
  let lba ← lbaSize data.lbaFormatIndex.toNat
  let ret ← createNamespace dev nsid { data.info with lbaSize := lba } s
  match ret with
  | some (_, s) => .ok ({ resp with dword0 := BitVec.ofNat 32 nsid }, s)
  | none =>
    .ok (resp.makeStatus false false .commandSpecificStatus .namespaceInsufficientCapacity, s)

/-- The loop that picks the identifier of a new namespace (subsystem.cc:1027–1037). -/
def freeNsid (nsid : Nat) : List Namespace → Nat
  | [] => nsid
  | iter :: lNamespaces =>
    if iter.nsid = nsid then freeNsid ((nsid + 1) % 2 ^ 32) lNamespaces else nsid

/-! ### Deletion -/

/-- `destroyNamespace` (subsystem.cc:237–259). -/
def destroyNamespace (dev : LPNInfo) (nsid : Nat) (s : Subsystem) : Bool × Subsystem :=
  match s.find? nsid with
  | none => (false, s)
  | some ns =>
    let pages := ns.info.size * ns.info.lbaSize % 2 ^ 64 / dev.logicalPageSize
    (true, {
      lNamespaces := s.lNamespaces.eraseP (·.nsid = nsid)
      allocatedLogicalPages := (s.allocatedLogicalPages + 2 ^ 64 - pages) % 2 ^ 64 })

/-! ### Attachment -/

/-- The loop of an attach command, with what it does to `resp` (subsystem.cc:1121–1143). -/
def attach (nsid : Nat) (s : Subsystem) (resp : CQEntryWrapper) : CQEntryWrapper × Subsystem :=
  let here := s.lNamespaces.filter (·.nsid = nsid)
  let resp := if here.any (·.attached) then
    resp.makeStatus true false .commandSpecificStatus .namespaceAlreadyAttached else resp
  let resp := if here = [] then
    resp.makeStatus true false .genericCommandStatus .abortInvalidNamespace else resp
  (resp, { s with
    lNamespaces := s.lNamespaces.map fun iter =>
      if iter.nsid = nsid then { iter with attached := true } else iter })

/-- The loop of a detach command (subsystem.cc:1146–1158). -/
def detach (nsid : Nat) (s : Subsystem) (resp : CQEntryWrapper) : CQEntryWrapper × Subsystem :=
  let here := s.lNamespaces.filter (·.nsid = nsid)
  let resp := if here.any (fun iter => !iter.attached) then
    resp.makeStatus true false .commandSpecificStatus .namespaceNotAttached else resp
  (resp, { s with
    lNamespaces := s.lNamespaces.map fun iter =>
      if iter.nsid = nsid then { iter with attached := false } else iter })

/-! ### Format -/

/-- The first namespace that has the identifier is changed. -/
def update (nsid : Nat) (f : Namespace → Namespace) : List Namespace → List Namespace
  | [] => []
  | ns :: l => if ns.nsid = nsid then f ns :: l else ns :: update nsid f l

/-- The fields of a Format NVM command are in range (subsystem.cc:1219–1230). -/
def formatValid (req : SQEntryWrapper) : Bool :=
  let ses := (req.dword10 &&& 0x0E00) >>> 9
  let pil := req.dword10 &&& 0x0100
  let pi := (req.dword10 &&& 0xE0) >>> 5
  let mset := req.dword10 &&& 0x10
  (ses = 0 ∨ ses = 1) ∧ pil = 0 ∧ mset = 0 ∧ pi = 0 ∧ (req.dword10 &&& 0x0F).toNat < nLBAFormat

/-- What Format NVM makes of a namespace (subsystem.cc:1252–1263 and namespace.cc:164–173). -/
def formatted (dev : LPNInfo) (lbaf lba tick : Nat) (ns : Namespace) : Namespace :=
  let size := dev.totalLogicalPages * dev.logicalPageSize % 2 ^ 64 / lba
  { ns with
    info := { ns.info with lbaFormatIndex := lbaf, lbaSize := lba, size := size, capacity := size }
    formatFinishedAt := tick }

/-- `formatNVM` (subsystem.cc:1197–1292): the answer, or the range that is handed to
`HIL::format`. -/
def formatNVM (dev : LPNInfo) (tick : Nat) (req : SQEntryWrapper) (s : Subsystem) :
    Except Fault ((CQEntryWrapper ⊕ LPNRange) × Subsystem) :=
  let resp := CQEntryWrapper.new req
  let lbaf := (req.dword10 &&& 0x0F).toNat
  if !formatValid req then
    .ok (.inl (resp.makeStatus false false .genericCommandStatus .invalidFormat), s)
  else
    match s.find? req.namespaceID.toNat with
    | none =>
      .ok (.inl (resp.makeStatus false false .genericCommandStatus .abortInvalidNamespace), s)
    | some ns => do
      let lba ← lbaSize lbaf
      .ok (.inr ns.info.range, { s with
        lNamespaces := update req.namespaceID.toNat (formatted dev lbaf lba tick) s.lNamespaces })

/-! ### Initialization -/

/-- The index of the configured block size (subsystem.cc:74–85). -/
def formatIndexOf (lba : Nat) : Except Fault Nat :=
  match lbaSizes.findIdx? (· = lba) with
  | some lbaFormatIndex => .ok lbaFormatIndex
  | none => .error (.panic "Subsystem::init" "Failed to setting LBA size (512B ~ 4KB)")

/-- One default namespace (subsystem.cc:92–102); `info` keeps the range of the one
before. -/
def initNamespace (dev : LPNInfo) (size : Nat) (state : Information × Subsystem) (i : Nat) :
    Except Fault (Information × Subsystem) := do
  let info := { state.1 with size := size, capacity := size }
  let ret ← createNamespace dev (nsidLowest + i) info state.2
  match ret with
  | some (info, s) =>
    .ok (info, { s with
      lNamespaces := s.lNamespaces.modifyLast fun ns => { ns with attached := true } })
  | none => .error (.panic "Subsystem::init" "Failed to create namespace")

/-- `init` (subsystem.cc:62–104), with the number of default namespaces and their block
size. -/
def init (dev : LPNInfo) (nNamespaces lba : Nat) : Except Fault Subsystem :=
  if nNamespaces = 0 then .ok .new
  else do
    let lbaFormatIndex ← formatIndexOf lba
    let totalSize := dev.totalLogicalPages * dev.logicalPageSize % 2 ^ 64 / lba
    let info : Information := ⟨0, 0, 0, 0, lbaFormatIndex, 0, 0, lba, ⟨0, 0⟩⟩
    let state ← (List.range nNamespaces).foldlM (initNamespace dev (totalSize / nNamespaces))
      (info, .new)
    .ok state.2

/-! ### Runs -/

/-- The commands that change the namespaces. An identifier of a create command is
the one picked when the command was submitted. -/
inductive Command where
  | create (nsid : Nat) (data : CreateData) (resp : CQEntryWrapper)
  | delete (nsid : Nat)
  | attach (nsid : Nat) (resp : CQEntryWrapper)
  | detach (nsid : Nat) (resp : CQEntryWrapper)
  | format (tick : Nat) (req : SQEntryWrapper)

def exec (dev : LPNInfo) (s : Subsystem) : Command → Except Fault Subsystem
  | .create nsid data resp => (createDone dev nsid data resp s).map Prod.snd
  | .delete nsid => .ok (destroyNamespace dev nsid s).2
  | .attach nsid resp => .ok (s.attach nsid resp).2
  | .detach nsid resp => .ok (s.detach nsid resp).2
  | .format tick req => (formatNVM dev tick req s).map Prod.snd

/-- A run from the default namespaces on. -/
def run (dev : LPNInfo) (nNamespaces lba : Nat) (commands : List Command) :
    Except Fault Subsystem := do
  let s ← init dev nNamespaces lba
  commands.foldlM (exec dev) s

end Subsystem

end SimpleSSD.HIL.NVMe
