import SimpleSSD.HIL.NVMe.NamespaceRanges
import SimpleSSD.HIL.NVMe.Pipeline
import SimpleSSD.HIL.NVMe.Transfer

/-!
# Commands and the deletion of their namespace (hil/nvme/subsystem.cc:378–424, 435–493 and
hil/nvme/namespace.cc:47–106, 219–683)

A command of an I/O queue is handed to its namespace when the CPU gets to it. The namespace goes
on when the memory of the command has been found, and again when the DMA and the backend have
ended. Each continuation has the pointer to the namespace, which `destroyNamespace` deletes at
once, and the requests to the backend have its logical pages.

The data that a command moves is left out, and so are the SMART logs. A command whose DMA does not
end stays on its way. Every other one can be answered, with no more than the callbacks that it
waits for (`left`).
-/

namespace SimpleSSD.HIL.NVMe

open Transfer (Kind finalResp)

/-- A `Namespace`, with the number of those made before it for its address. -/
structure NamespaceObject where
  address : Nat
  ns : Namespace
  deriving DecidableEq, Repr

/-- A request to the backend: `HIL` gets to it some time after it is made. -/
structure BackendRequest where
  range : LPNRange
  begun : Bool
  deriving DecidableEq, Repr

/-- The commands that go on after the memory of the command has been found. -/
inductive Operation where
  | flush | transfer (kind : Kind) | trim
  deriving DecidableEq, Repr

/-- What a command waits for: the CPU, its memory, the ranges of a deallocation, the DMA and the
backend, or the backend. `eachTrimDone` deletes its counter with each call. A command that is lost
waits for a DMA that does not end. -/
inductive Stage where
  | submit
  | setup (op : Operation)
  | ranges
  | transfer (kind : Kind) (beginAt : Nat) (dma : Bool)
  | flush
  | trim (counter : Nat) (deleted : Bool)
  | lost
  deriving DecidableEq, Repr

/-- A command on its way, with the address of its namespace: there is none while it waits for the
CPU to be handed to the first namespace. -/
structure Task where
  req : SQEntryWrapper
  this : Option Nat
  stage : Stage
  backend : List BackendRequest
  deriving DecidableEq, Repr

/-- `Subsystem`, with the commands on their way and those that were submitted and answered. `made`
counts the objects, and `deleted` has the addresses of those that are gone, with the count by
then. -/
structure Dispatcher where
  lNamespaces : List NamespaceObject
  allocatedLogicalPages : Nat
  made : Nat
  deleted : List (Nat × Nat)
  tasks : List Task
  submitted : List Ticket
  answered : List CQEntryWrapper
  deriving DecidableEq

namespace Dispatcher

/-! ### The admin commands -/

/-- The subsystem without the addresses. -/
def subsystem (s : Dispatcher) : Subsystem := ⟨s.lNamespaces.map (·.ns), s.allocatedLogicalPages⟩

/-- The first namespace that has the identifier. -/
def find? (s : Dispatcher) (nsid : Nat) : Option NamespaceObject :=
  s.lNamespaces.find? (·.ns.nsid = nsid)

/-- The end of `createNamespace` (subsystem.cc:220–234). -/
def insert (s : Dispatcher) (ns : Namespace) (allocatedLogicalPages : Nat) : Dispatcher :=
  { s with
    lNamespaces := (s.lNamespaces ++ [(⟨s.made, ns⟩ : NamespaceObject)]).insertionSort
      fun lhs rhs => lhs.ns.nsid ≤ rhs.ns.nsid
    allocatedLogicalPages := allocatedLogicalPages
    made := s.made + 1 }

/-- `createNamespace`, as `dmaDone` of a create command calls it. -/
def createNamespace (dev : LPNInfo) (nsid : Nat) (data : Subsystem.CreateData) (s : Dispatcher) :
    Except Fault Dispatcher := do
  let lba ← lbaSize data.lbaFormatIndex.toNat
  let ret ← s.subsystem.createNamespace dev nsid { data.info with lbaSize := lba }
  match ret with
  | some (info, t) => .ok (s.insert (.new nsid info) t.allocatedLogicalPages)
  | none => .ok s

/-- `destroyNamespace` (subsystem.cc:237–259). -/
def destroyNamespace (dev : LPNInfo) (nsid : Nat) (s : Dispatcher) : Dispatcher :=
  match s.find? nsid with
  | none => s
  | some object =>
    { s with
      lNamespaces := s.lNamespaces.eraseP (·.ns.nsid = nsid)
      allocatedLogicalPages :=
        (Subsystem.destroyNamespace dev nsid s.subsystem).2.allocatedLogicalPages
      deleted := s.deleted ++ [(object.address, s.made)] }

/-- The other commands change the namespaces in their places. -/
def change (s : Dispatcher) (t : Subsystem) : Dispatcher :=
  { s with
    lNamespaces := s.lNamespaces.zipWith (fun object ns => ⟨object.address, ns⟩) t.lNamespaces
    allocatedLogicalPages := t.allocatedLogicalPages }

/-- The commands that change the namespaces. -/
def admin (dev : LPNInfo) (s : Dispatcher) : Subsystem.Command → Except Fault Dispatcher
  | .create nsid data _ => s.createNamespace dev nsid data
  | .delete nsid => .ok (s.destroyNamespace dev nsid)
  | .attach nsid resp => (Subsystem.exec dev s.subsystem (.attach nsid resp)).map s.change
  | .detach nsid resp => (Subsystem.exec dev s.subsystem (.detach nsid resp)).map s.change
  | .format tick req => (Subsystem.exec dev s.subsystem (.format tick req)).map s.change

/-! ### The commands of the I/O queues -/

/-- `Subsystem::submitCommand` (subsystem.cc:378–423). -/
def submitCommand (req : SQEntryWrapper) (s : Dispatcher) : Dispatcher :=
  let s := { s with submitted := s.submitted ++ [req.ticket] }
  let resp := (CQEntryWrapper.new req).makeStatus false false .genericCommandStatus
    .abortInvalidNamespace
  if req.namespaceID.toNat < nsidAll then
    match s.find? req.namespaceID.toNat with
    | some iter => { s with tasks := s.tasks ++ [⟨req, some iter.address, .submit, []⟩] }
    | none => { s with answered := s.answered ++ [resp] }
  else if 0 < s.lNamespaces.length then { s with tasks := s.tasks ++ [⟨req, none, .submit, []⟩] }
  else { s with answered := s.answered ++ [resp] }

/-- The object behind a pointer. -/
def deref (s : Dispatcher) (this : Option Nat) : Except Fault NamespaceObject :=
  match this with
  | some address =>
    match s.lNamespaces.find? (·.address = address) with
    | some object => .ok object
    | none => .error (.badAccess "this")
  | none =>
    match s.lNamespaces with
    | object :: _ => .ok object
    | [] => .error (.badAccess "lNamespaces.front()")

/-- The operation of a command and the answer when the namespace does not take it up
(namespace.cc:74–105, 219–231, 285–303, 379–397, 462–480 and 572–588). -/
def operation (dev : LPNInfo) (ns : Namespace) (req : SQEntryWrapper) :
    CQEntryWrapper ⊕ Operation :=
  let resp := CQEntryWrapper.new req
  let transfer (kind : Kind) : CQEntryWrapper ⊕ Operation :=
    match ns.transfer dev req with
    | .rejected resp => .inl resp
    | .executed _ => .inr (.transfer kind)
  if req.opcode = 0x00 then
    if ns.attached then .inr .flush
    else .inl (resp.makeStatus true false .commandSpecificStatus .namespaceNotAttached)
  else if req.opcode = 0x01 then transfer .write
  else if req.opcode = 0x02 then transfer .read
  else if req.opcode = 0x05 then transfer .compare
  else if req.opcode = 0x09 then
    match ns.datasetManagement dev req fun _ => ⟨0, 0⟩ with
    | .rejected resp => .inl resp
    | .executed _ => .inr .trim
  else .inl (resp.makeStatus true false .genericCommandStatus .invalidOpcode)

/-- The number of ranges of a deallocation. -/
def rangeCount (req : SQEntryWrapper) : Nat := (req.dword10 &&& 0xFF).toNat + 1

/-- What a command waits for has come, or its DMA does not end. -/
inductive Progress where
  | submit (tick : Nat)
  | setup
  | ranges (buffer : Nat → DatasetManagementRange)
  | dma (same : Bool)
  | lost
  | begin (j : Nat)
  | backend (j : Nat) (same : Bool)

/-- `iter->submitCommand` (namespace.cc:47–106). -/
def submitted? (dev : LPNInfo) (s : Dispatcher) (task : Task) (tick : Nat) :
    Except Fault (CQEntryWrapper ⊕ Task) := do
  let object ← s.deref task.this
  if tick < object.ns.formatFinishedAt then
    .ok (.inl ((CQEntryWrapper.new task.req).makeStatus false false .genericCommandStatus
      .formatInProgress))
  else
    .ok ((operation dev object.ns task.req).map id fun op =>
      { task with this := some object.address, stage := .setup op })

/-- `begin` of `flush`, `doRead` of the transfers, and `doTrim` of `datasetManagement`. -/
def setup (dev : LPNInfo) (s : Dispatcher) (task : Task) (op : Operation) : Except Fault Task := do
  let object ← s.deref task.this
  match op with
  | .flush => .ok { task with stage := .flush, backend := [⟨object.ns.info.range, false⟩] }
  | .transfer kind =>
    let request := convertUnit dev object.ns (Transfer.slba task.req)
      (Transfer.nlbField task.req + 1).toNat
    .ok { task with stage := .transfer kind 0 true, backend := [⟨request.range, false⟩] }
  | .trim => .ok { task with stage := .ranges }

/-- `dmaDone` of `datasetManagement`. -/
def rangesDone (dev : LPNInfo) (s : Dispatcher) (task : Task)
    (buffer : Nat → DatasetManagementRange) : Except Fault Task := do
  let object ← s.deref task.this
  let backend := (List.range (rangeCount task.req)).map fun i =>
    ⟨(convertUnit dev object.ns (buffer i).slba.toNat (buffer i).nlb.toNat).range, false⟩
  .ok { task with stage := .trim (rangeCount task.req) false, backend := backend }

/-- `dmaDone` of the transfers, with the DMA that is left to wait for. -/
def dmaDone (s : Dispatcher) (task : Task) (kind : Kind) (beginAt : Nat) (dma same : Bool) :
    Except Fault (CQEntryWrapper ⊕ Task) := do
  let _ ← s.deref task.this
  if beginAt + 1 = 2 then .ok (.inl (finalResp kind same (.new task.req)))
  else .ok (.inr { task with stage := .transfer kind (beginAt + 1) dma })

/-- `eachTrimDone`, with `trimDone` in the end. -/
def eachTrimDone (s : Dispatcher) (task : Task) (counter : Nat) (deleted : Bool) :
    Except Fault (CQEntryWrapper ⊕ Task) :=
  if deleted then .error (.badAccess "DMAContext")
  else if counter - 1 = 0 then do
    let _ ← s.deref task.this
    .ok (.inl (.new task.req))
  else .ok (.inr { task with stage := .trim (counter - 1) true })

/-- The backend calls back. -/
def backendDone (s : Dispatcher) (task : Task) (same : Bool) :
    Except Fault (CQEntryWrapper ⊕ Task) :=
  match task.stage with
  | .transfer kind beginAt dma => s.dmaDone task kind beginAt dma same
  | .flush => do
    let _ ← s.deref task.this
    .ok (.inl (.new task.req))
  | .trim counter deleted => s.eachTrimDone task counter deleted
  | .submit | .setup _ | .ranges | .lost => .ok (.inr task)

/-- A command goes on, when it waits for that: its answer, or what it waits for now. -/
def step (dev : LPNInfo) (s : Dispatcher) (task : Task) :
    Progress → Except Fault (CQEntryWrapper ⊕ Task)
  | .submit tick => if task.stage = .submit then s.submitted? dev task tick else .ok (.inr task)
  | .setup =>
    match task.stage with
    | .setup op => (s.setup dev task op).map .inr
    | _ => .ok (.inr task)
  | .ranges buffer =>
    if task.stage = .ranges then (s.rangesDone dev task buffer).map .inr else .ok (.inr task)
  | .dma same =>
    match task.stage with
    | .transfer kind beginAt true => s.dmaDone task kind beginAt false same
    | _ => .ok (.inr task)
  | .lost =>
    match task.stage with
    | .setup _ | .ranges => .ok (.inr { task with stage := .lost })
    | .transfer kind beginAt true => .ok (.inr { task with stage := .transfer kind beginAt false })
    | _ => .ok (.inr task)
  | .begin j =>
    match task.backend[j]? with
    | some request => .ok (.inr { task with
        backend := task.backend.set j { request with begun := true } })
    | none => .ok (.inr task)
  | .backend j same =>
    match task.backend[j]? with
    | some request =>
      if request.begun then s.backendDone { task with backend := task.backend.eraseIdx j } same
      else .ok (.inr task)
    | none => .ok (.inr task)

/-! ### Runs -/

/-- An admin command changes the namespaces, a command of an I/O queue comes, or the `k`th of those
on their way goes on. -/
inductive Event where
  | admin (command : Subsystem.Command)
  | submit (req : SQEntryWrapper)
  | progress (k : Nat) (progress : Progress)

/-- The `k`th command is answered or waits for something else. -/
def goOn (s : Dispatcher) (k : Nat) : CQEntryWrapper ⊕ Task → Dispatcher
  | .inl resp => { s with tasks := s.tasks.eraseIdx k, answered := s.answered ++ [resp] }
  | .inr task => { s with tasks := s.tasks.set k task }

def exec (dev : LPNInfo) (s : Dispatcher) : Event → Except Fault Dispatcher
  | .admin command => s.admin dev command
  | .submit req => .ok (s.submitCommand req)
  | .progress k progress =>
    match s.tasks[k]? with
    | none => .ok s
    | some task => (s.step dev task progress).map (s.goOn k)

/-- The subsystem as it starts. -/
def start (s : Subsystem) : Dispatcher where
  lNamespaces := s.lNamespaces.zipIdx.map fun (ns, address) => ⟨address, ns⟩
  allocatedLogicalPages := s.allocatedLogicalPages
  made := s.lNamespaces.length
  deleted := []
  tasks := []
  submitted := []
  answered := []

/-! ### What should hold -/

/-- The commands that were submitted are those on their way and those that are answered, and no
command is answered twice. -/
def Accounted (s : Dispatcher) : Prop :=
  s.submitted.Perm (s.tasks.map (·.req.ticket) ++ s.answered.map CQEntryWrapper.ticket)

instance (s : Dispatcher) : Decidable s.Accounted := inferInstanceAs (Decidable (List.Perm _ _))

/-- A continuation runs on an object that is gone. -/
def UsesDeleted (e : Fault) : Prop :=
  e ∈ [.badAccess "this", .badAccess "lNamespaces.front()", .badAccess "DMAContext"]

instance (e : Fault) : Decidable (UsesDeleted e) := inferInstanceAs (Decidable (_ ∈ _))

/-- When the backend begins with a request of a command whose namespace is gone, the pages are not
those of a namespace made since. -/
def Spares (s : Dispatcher) : Event → Prop
  | .progress k (.begin j) => ∀ task request, s.tasks[k]? = some task →
      task.backend[j]? = some request → ∀ address count, (address, count) ∈ s.deleted →
        task.this = some address → ∀ object ∈ s.lNamespaces, count ≤ object.address →
          Disjoint request.range.pages object.ns.info.range.pages
  | _ => True

/-- The commands are accounted for, before the step and after it, which uses nothing that is gone
and spares the pages of new namespaces. -/
structure Sound (dev : LPNInfo) (s : Dispatcher) (e : Event) : Prop where
  before : s.Accounted
  after : (exec dev s e).Sat Accounted fun fault => ¬ UsesDeleted fault
  spares : s.Spares e

/-- A namespace is deleted when no command on its way is for it, and the last namespace when none
is for the first. A deallocation has one range, and no DMA is lost. -/
def Safe (s : Dispatcher) : Event → Prop
  | .admin (.delete nsid) => ∀ object, s.find? nsid = some object →
      (∀ task ∈ s.tasks, task.this ≠ some object.address) ∧
        (s.lNamespaces.length = 1 → ∀ task ∈ s.tasks, task.this ≠ none)
  | .submit req => req.opcode = 0x09 → req.dword11 &&& 0x04 ≠ 0 → rangeCount req = 1
  | .progress _ .lost => False
  | _ => True

instance (s : Dispatcher) : ∀ e, Decidable (s.Safe e)
  | .admin (.delete nsid) => decidable_of_iff (∀ object ∈ s.find? nsid,
      (∀ task ∈ s.tasks, task.this ≠ some object.address) ∧
        (s.lNamespaces.length = 1 → ∀ task ∈ s.tasks, task.this ≠ none)) Iff.rfl
  | .submit _ => inferInstanceAs (Decidable (_ → _))
  | .progress _ .lost => inferInstanceAs (Decidable False)
  | .admin (.create _ _ _) | .admin (.attach _ _) | .admin (.detach _ _) | .admin (.format _ _)
  | .progress _ (.submit _) | .progress _ .setup | .progress _ (.ranges _) | .progress _ (.dma _)
  | .progress _ (.begin _) | .progress _ (.backend _ _) => inferInstanceAs (Decidable True)

/-- Safe steps lead to the answer of the `k`th command on its way, and to nothing else. -/
def CanAnswer (dev : LPNInfo) (s : Dispatcher) (k : Nat) (req : SQEntryWrapper) : Prop :=
  ∃ (s' : Dispatcher) (resp : CQEntryWrapper), Run.Reaches (exec dev) Safe s s' ∧
    resp.ticket = req.ticket ∧ s'.submitted = s.submitted ∧ s'.tasks = s.tasks.eraseIdx k ∧
      s'.answered = s.answered ++ [resp]

/-! ### The admin commands and the subsystem -/

section Admin

variable {dev : LPNInfo} {s s' : Dispatcher} {t t' : Subsystem}

theorem zipWith_objects (l : List NamespaceObject) (l' : List Namespace)
    (h : l'.length = l.length) :
    (l.zipWith (fun object ns => (⟨object.address, ns⟩ : NamespaceObject)) l').map (·.ns) = l' ∧
      (l.zipWith (fun object ns => (⟨object.address, ns⟩ : NamespaceObject)) l').map (·.address) =
        l.map (·.address) := by
  induction l generalizing l' with
  | nil =>
    rw [List.length_eq_zero_iff.mp h]
    exact ⟨rfl, rfl⟩
  | cons object l ih =>
    cases l' with
    | nil => cases h
    | cons ns l' =>
      obtain ⟨hns, haddress⟩ := ih l' (Nat.succ.inj h)
      exact ⟨congrArg (ns :: ·) hns, congrArg (object.address :: ·) haddress⟩

theorem subsystem_insert (s : Dispatcher) (ns : Namespace) (allocatedLogicalPages : Nat) :
    (s.insert ns allocatedLogicalPages).subsystem =
      { s.subsystem.insert ns with allocatedLogicalPages := allocatedLogicalPages } := by
  rw [subsystem, insert, Subsystem.insert, subsystem]
  dsimp only
  rw [List.map_insertionSort (fun lhs rhs : NamespaceObject => lhs.ns.nsid ≤ rhs.ns.nsid)
    (fun lhs rhs : Namespace => lhs.nsid ≤ rhs.nsid) (·.ns) _ fun _ _ _ _ => Iff.rfl,
    List.map_append]
  rfl

theorem find?_subsystem (s : Dispatcher) (nsid : Nat) :
    s.subsystem.find? nsid = (s.find? nsid).map (·.ns) := by
  rw [Subsystem.find?, subsystem, List.find?_map]
  rfl

theorem subsystem_destroyNamespace (nsid : Nat) :
    (s.destroyNamespace dev nsid).subsystem =
      (Subsystem.destroyNamespace dev nsid s.subsystem).2 := by
  have hfind := find?_subsystem s nsid
  rw [destroyNamespace]
  cases hobject : s.find? nsid with
  | none =>
    rw [hobject] at hfind
    rw [Subsystem.destroyNamespace, hfind]
    rfl
  | some object =>
    rw [hobject] at hfind
    rw [Subsystem.destroyNamespace, hfind]
    show (⟨(s.lNamespaces.eraseP _).map (·.ns), _⟩ : Subsystem) = _
    refine congrArg₂ Subsystem.mk ?_ rfl
    rw [subsystem, List.eraseP_map]
    rfl

/-- The commands that leave the objects in their places. -/
def InPlace : Subsystem.Command → Prop
  | .create _ _ _ | .delete _ => False
  | .attach _ _ | .detach _ _ | .format _ _ => True

theorem length_of_inPlace {c : Subsystem.Command} (hc : InPlace c)
    (h : Subsystem.exec dev t c = .ok t') : t'.lNamespaces.length = t.lNamespaces.length := by
  have hranges : t'.ranges = t.ranges := by
    cases Subsystem.exec_change h with
    | keep ranges => exact ranges
    | create nsid data resp lba info command =>
      rw [command] at hc
      exact hc.elim
    | delete nsid ns command =>
      rw [command] at hc
      exact hc.elim
    | format tick req ns lba command valid found size ranges => exact ranges
  have hlength := congrArg List.length hranges
  rwa [Subsystem.ranges, Subsystem.ranges, List.length_map, List.length_map] at hlength

theorem subsystem_change (s : Dispatcher) {c : Subsystem.Command} (hc : InPlace c) :
    ((Subsystem.exec dev s.subsystem c).map s.change).map subsystem =
      Subsystem.exec dev s.subsystem c := by
  cases hexec : Subsystem.exec dev s.subsystem c with
  | error fault => rfl
  | ok t =>
    have hlength : t.lNamespaces.length = s.lNamespaces.length :=
      (length_of_inPlace hc hexec).trans (List.length_map _)
    refine congrArg Except.ok ?_
    rw [subsystem, change, (zipWith_objects _ _ hlength).1]

/-- The admin commands are those of the subsystem without addresses. -/
theorem admin_subsystem (dev : LPNInfo) (s : Dispatcher) (c : Subsystem.Command) :
    (s.admin dev c).map subsystem = Subsystem.exec dev s.subsystem c := by
  cases c with
  | create nsid data resp =>
    rw [admin, createNamespace, Subsystem.exec, Subsystem.createDone]
    cases hlba : lbaSize data.lbaFormatIndex.toNat with
    | error fault => rfl
    | ok lba =>
      rw [Except.ok_bind]
      dsimp only
      rw [Except.ok_bind]
      cases hret : s.subsystem.createNamespace dev nsid { data.info with lbaSize := lba } with
      | error fault => rfl
      | ok ret =>
        cases ret with
        | none => rfl
        | some made =>
          obtain ⟨info, t⟩ := made
          obtain ⟨-, -, -, -, -, -, -, -, ht⟩ := Subsystem.createNamespace_spec hret
          refine congrArg Except.ok ?_
          show (s.insert (.new nsid info) t.allocatedLogicalPages).subsystem = t
          rw [subsystem_insert, ht]
  | delete nsid => exact congrArg Except.ok (subsystem_destroyNamespace nsid)
  | attach nsid resp => exact subsystem_change (c := .attach nsid resp) s trivial
  | detach nsid resp => exact subsystem_change (c := .detach nsid resp) s trivial
  | format tick req => exact subsystem_change (c := .format tick req) s trivial

end Admin

/-! ### The invariant -/

/-- The addresses of the namespaces that are there. -/
def addresses (s : Dispatcher) : List Nat := s.lNamespaces.map (·.address)

/-- A pointer leads to an object, and the first namespace is there. -/
def Live (addresses : List Nat) : Option Nat → Prop
  | some address => address ∈ addresses
  | none => addresses ≠ []

/-- A deallocation has one range, and its counter is there. -/
def Single (task : Task) : Prop :=
  match task.stage with
  | .submit => task.req.opcode = 0x09 → task.req.dword11 &&& 0x04 ≠ 0 → rangeCount task.req = 1
  | .setup .trim | .ranges => rangeCount task.req = 1
  | .trim counter deleted => counter = 1 ∧ deleted = false
  | .setup .flush | .setup (.transfer _) | .transfer _ _ _ | .flush | .lost => True

/-- The callbacks that a command waits for are to come, `n` of them from the backend. -/
def Waits (n : Nat) : Stage → Prop
  | .submit | .setup _ | .ranges => True
  | .transfer _ beginAt dma => beginAt < 2 ∧ beginAt + dma.toNat + n = 2
  | .flush => n = 1
  | .trim counter _ => n = counter
  | .lost => False

/-- What every step keeps of a command. -/
structure Cared (addresses : List Nat) (task : Task) : Prop where
  live : Live addresses task.this
  single : Single task
  waits : Waits task.backend.length task.stage

/-- What every step keeps. -/
structure Inv (s : Dispatcher) : Prop where
  accounted : s.Accounted
  tasks : ∀ task ∈ s.tasks, Cared s.addresses task
  nodup : s.addresses.Nodup
  made : ∀ address ∈ s.addresses, address < s.made
  deleted : ∀ gone ∈ s.deleted, gone.1 < s.made ∧ gone.1 ∉ s.addresses

section Steps

variable {dev : LPNInfo} {s s' : Dispatcher} {task : Task}

/-! ### A command goes on -/

theorem deref_spec {this : Option Nat} (h : Live s.addresses this) :
    ∃ object ∈ s.lNamespaces, s.deref this = .ok object := by
  unfold deref
  cases this with
  | some address =>
    obtain ⟨object, hobject, rfl⟩ := List.mem_map.mp h
    have hfound : (s.lNamespaces.find? (·.address = object.address)).isSome = true :=
      List.find?_isSome.mpr ⟨object, hobject, decide_eq_true rfl⟩
    obtain ⟨found, hfind⟩ := Option.isSome_iff_exists.mp hfound
    refine ⟨found, List.mem_of_find?_eq_some hfind, ?_⟩
    dsimp only
    rw [hfind]
  | none =>
    cases hobjects : s.lNamespaces with
    | nil =>
      refine absurd ?_ h
      rw [addresses, hobjects]
      rfl
    | cons object rest => exact ⟨object, List.mem_cons_self, rfl⟩

/-- The answer is to the command, or the command still has its namespace. -/
def GoesOn (s : Dispatcher) (task : Task) : CQEntryWrapper ⊕ Task → Prop
  | .inl resp => resp.ticket = task.req.ticket
  | .inr task' => task'.req = task.req ∧ Cared s.addresses task'

theorem ticket_finalResp (kind : Kind) (same : Bool) (req : SQEntryWrapper) :
    (finalResp kind same (.new req)).ticket = req.ticket := by
  rw [finalResp]
  split <;> rfl

/-- What an operation comes from: an answer to the command, or a command that deallocates when it
is `trim`. -/
def ComesFrom (req : SQEntryWrapper) : CQEntryWrapper ⊕ Operation → Prop
  | .inl resp => resp.ticket = req.ticket
  | .inr op => op = .trim → req.opcode = 0x09 ∧ req.dword11 &&& 0x04 ≠ 0

theorem transfer_comesFrom (ns : Namespace) (req : SQEntryWrapper) (kind : Kind) :
    ComesFrom req (match ns.transfer dev req with
      | .rejected resp => .inl resp
      | .executed _ => .inr (.transfer kind)) := by
  rw [Namespace.transfer]
  split
  · next hrejected =>
    split at hrejected
    · cases hrejected
      rfl
    · split at hrejected
      · cases hrejected
        rfl
      · cases hrejected
  · exact fun htrim => by cases htrim

theorem datasetManagement_comesFrom (ns : Namespace) {req : SQEntryWrapper}
    (hopcode : req.opcode = 0x09) :
    ComesFrom req (match ns.datasetManagement dev req fun _ => ⟨0, 0⟩ with
      | .rejected resp => .inl resp
      | .executed _ => .inr .trim) := by
  rw [Namespace.datasetManagement]
  split
  · next hrejected =>
    split at hrejected
    · cases hrejected
      rfl
    · split at hrejected
      · cases hrejected
        rfl
      · cases hrejected
  · next hexecuted =>
    split at hexecuted
    · cases hexecuted
    · split at hexecuted
      · cases hexecuted
      · next had => exact fun _ => ⟨hopcode, had⟩

theorem operation_comesFrom (ns : Namespace) (req : SQEntryWrapper) :
    ComesFrom req (operation dev ns req) := by
  rw [operation]
  dsimp only
  split_ifs with hflush hattached hwrite hread hcompare htrim
  · exact fun htrim => by cases htrim
  · rfl
  · exact transfer_comesFrom ns req .write
  · exact transfer_comesFrom ns req .read
  · exact transfer_comesFrom ns req .compare
  · exact datasetManagement_comesFrom ns htrim
  · rfl

theorem submitted?_spec (h : Cared s.addresses task) (hstage : task.stage = .submit) (tick : Nat) :
    ∃ r, s.submitted? dev task tick = .ok r ∧ GoesOn s task r := by
  obtain ⟨hlive, hsingle, -⟩ := h
  rw [Single, hstage] at hsingle
  obtain ⟨object, hobject, hderef⟩ := deref_spec hlive
  rw [submitted?, hderef, Except.ok_bind]
  split
  · exact ⟨_, rfl, rfl⟩
  · have hoperation : ComesFrom task.req (operation dev object.ns task.req) :=
      operation_comesFrom object.ns task.req
    cases hop : operation dev object.ns task.req with
    | inl resp =>
      rw [hop] at hoperation
      exact ⟨_, rfl, hoperation⟩
    | inr op =>
      rw [hop] at hoperation
      refine ⟨_, rfl, rfl, List.mem_map_of_mem hobject, ?_, trivial⟩
      cases op with
      | flush => trivial
      | transfer kind => trivial
      | trim => exact hsingle (hoperation rfl).1 (hoperation rfl).2

theorem setup_spec (dev : LPNInfo) {op : Operation} (h : Cared s.addresses task)
    (hstage : task.stage = .setup op) :
    ∃ task', s.setup dev task op = .ok task' ∧ GoesOn s task (.inr task') := by
  obtain ⟨hlive, hsingle, -⟩ := h
  rw [Single, hstage] at hsingle
  obtain ⟨object, hobject, hderef⟩ := deref_spec hlive
  rw [setup, hderef, Except.ok_bind]
  cases op with
  | flush => exact ⟨_, rfl, rfl, hlive, trivial, rfl⟩
  | transfer kind => exact ⟨_, rfl, rfl, hlive, trivial, Nat.zero_lt_two, rfl⟩
  | trim => exact ⟨_, rfl, rfl, hlive, hsingle, trivial⟩

theorem rangesDone_spec (dev : LPNInfo) (h : Cared s.addresses task) (hstage : task.stage = .ranges)
    (buffer : Nat → DatasetManagementRange) :
    ∃ task', s.rangesDone dev task buffer = .ok task' ∧ GoesOn s task (.inr task') := by
  obtain ⟨hlive, hsingle, -⟩ := h
  rw [Single, hstage] at hsingle
  obtain ⟨object, hobject, hderef⟩ := deref_spec hlive
  rw [rangesDone, hderef, Except.ok_bind]
  refine ⟨_, rfl, rfl, hlive, ⟨hsingle, rfl⟩, ?_⟩
  show (List.map _ _).length = _
  rw [List.length_map, List.length_range]

/-- One of the two callbacks of a transfer. -/
theorem dmaDone_spec (hlive : Live s.addresses task.this) (kind : Kind) {beginAt : Nat} {dma : Bool}
    (hwaits : beginAt < 2 ∧ beginAt + dma.toNat + task.backend.length + 1 = 2) (same : Bool) :
    ∃ r, s.dmaDone task kind beginAt dma same = .ok r ∧ GoesOn s task r := by
  obtain ⟨object, hobject, hderef⟩ := deref_spec hlive
  rw [dmaDone, hderef, Except.ok_bind]
  split
  · exact ⟨_, rfl, ticket_finalResp kind same task.req⟩
  · refine ⟨_, rfl, rfl, hlive, trivial, ?_⟩
    show beginAt + 1 < 2 ∧ beginAt + 1 + dma.toNat + task.backend.length = 2
    omega

/-- A callback of the backend, whose request is taken from the others. -/
theorem backendDone_spec (hlive : Live s.addresses task.this) (hsingle : Single task)
    (hwaits : Waits (task.backend.length + 1) task.stage) (same : Bool) :
    ∃ r, s.backendDone task same = .ok r ∧ GoesOn s task r := by
  obtain ⟨object, hobject, hderef⟩ := deref_spec hlive
  rw [backendDone]
  cases hstage : task.stage with
  | submit => exact ⟨_, rfl, rfl, hlive, hsingle, hstage ▸ trivial⟩
  | setup op => exact ⟨_, rfl, rfl, hlive, hsingle, hstage ▸ trivial⟩
  | ranges => exact ⟨_, rfl, rfl, hlive, hsingle, hstage ▸ trivial⟩
  | transfer kind beginAt dma =>
    rw [hstage] at hwaits
    exact dmaDone_spec hlive kind ⟨hwaits.1, hwaits.2⟩ same
  | flush =>
    dsimp only
    rw [hderef]
    exact ⟨_, rfl, rfl⟩
  | trim counter deleted =>
    rw [Single, hstage] at hsingle
    obtain ⟨rfl, rfl⟩ := hsingle
    dsimp only
    rw [eachTrimDone, if_neg Bool.false_ne_true, if_pos rfl, hderef]
    exact ⟨_, rfl, rfl⟩
  | lost =>
    rw [hstage] at hwaits
    exact hwaits.elim

/-- A command that loses no DMA goes on. -/
theorem step_spec (dev : LPNInfo) (h : Cared s.addresses task) {p : Progress} (hlost : p ≠ .lost) :
    ∃ r, s.step dev task p = .ok r ∧ GoesOn s task r := by
  have hstill : ∃ r, (.ok (.inr task) : Except Fault (CQEntryWrapper ⊕ Task)) = .ok r ∧
      GoesOn s task r := ⟨_, rfl, rfl, h⟩
  cases p with
  | submit tick =>
    rw [step]
    split
    · next hstage => exact submitted?_spec h hstage tick
    · exact hstill
  | setup =>
    rw [step]
    split
    · next op hstage =>
      obtain ⟨task', htask', hgoes⟩ := setup_spec dev h hstage
      rw [htask']
      exact ⟨_, rfl, hgoes⟩
    · exact hstill
  | ranges buffer =>
    rw [step]
    split
    · next hstage =>
      obtain ⟨task', htask', hgoes⟩ := rangesDone_spec dev h hstage buffer
      rw [htask']
      exact ⟨_, rfl, hgoes⟩
    · exact hstill
  | dma same =>
    rw [step]
    split
    · next kind beginAt hstage =>
      have hwaits := h.waits
      rw [hstage, Waits] at hwaits
      refine dmaDone_spec h.live kind ⟨hwaits.1, ?_⟩ same
      rw [← hwaits.2, Bool.toNat_true, Bool.toNat_false]
      omega
    · exact hstill
  | lost => exact absurd rfl hlost
  | begin j =>
    rw [step]
    split
    · refine ⟨_, rfl, rfl, h.live, h.single, ?_⟩
      show Waits (List.set _ _ _).length _
      rw [List.length_set]
      exact h.waits
    · exact hstill
  | backend j same =>
    rw [step]
    split
    · next request hrequest =>
      split
      · obtain ⟨hlt, -⟩ := List.getElem?_eq_some_iff.mp hrequest
        have hwaits : Waits ((task.backend.eraseIdx j).length + 1) task.stage := by
          rw [List.length_eraseIdx_add_one hlt]
          exact h.waits
        exact @backendDone_spec s { task with backend := task.backend.eraseIdx j } h.live h.single
          hwaits same
      · exact hstill
    · exact hstill

/-- The answer takes the command from those on their way. -/
theorem goOn_inv (h : Inv s) {k : Nat} (hk : s.tasks[k]? = some task)
    {r : CQEntryWrapper ⊕ Task} (hr : GoesOn s task r) : Inv (s.goOn k r) := by
  obtain ⟨hlt, rfl⟩ := List.getElem?_eq_some_iff.mp hk
  have hperm := (List.getElem_cons_eraseIdx_perm hlt).symm.map (·.req.ticket)
  cases r with
  | inl resp =>
    have hrest : ∀ task' ∈ s.tasks.eraseIdx k, Cared s.addresses task' :=
      fun task' htask' => h.tasks task' (List.mem_of_mem_eraseIdx htask')
    refine ⟨h.accounted.trans ?_, hrest, h.nodup, h.made, h.deleted⟩
    refine (hperm.append_right _).trans ?_
    have hticket : resp.ticket = (s.tasks[k]).req.ticket := hr
    show (_ :: _ : List Ticket).Perm (_ ++ (s.answered ++ [resp]).map CQEntryWrapper.ticket)
    rw [List.map_append, ← List.append_assoc, List.map_singleton, hticket]
    exact (List.perm_append_singleton _ _).symm
  | inr task' =>
    obtain ⟨hreq, hcared⟩ := hr
    refine ⟨h.accounted.trans ?_, fun task htask => ?_, h.nodup, h.made, h.deleted⟩
    · refine (hperm.trans ?_).append_right _
      have hset := ((List.set_perm_cons_eraseIdx hlt task').symm).map (·.req.ticket)
      rw [List.map_cons, hreq] at hset
      exact hset
    · rcases List.mem_or_eq_of_mem_set htask with htask | rfl
      · exact h.tasks task htask
      · exact hcared

/-! ### A command comes -/

/-- A command that is answered at once. -/
theorem answered_inv (h : Inv s) {req : SQEntryWrapper} {resp : CQEntryWrapper}
    (hticket : resp.ticket = req.ticket) : Inv { s with
      submitted := s.submitted ++ [req.ticket]
      answered := s.answered ++ [resp] } := by
  refine ⟨?_, h.tasks, h.nodup, h.made, h.deleted⟩
  show (s.submitted ++ [req.ticket]).Perm
    (_ ++ (s.answered ++ [resp]).map CQEntryWrapper.ticket)
  rw [List.map_append, List.map_singleton, hticket, ← List.append_assoc]
  exact h.accounted.append_right _

/-- A command that is handed to a namespace. -/
theorem handed_inv (h : Inv s) {req : SQEntryWrapper} {this : Option Nat}
    (hlive : Live s.addresses this)
    (hsingle : req.opcode = 0x09 → req.dword11 &&& 0x04 ≠ 0 → rangeCount req = 1) : Inv { s with
      submitted := s.submitted ++ [req.ticket]
      tasks := s.tasks ++ [⟨req, this, .submit, []⟩] } := by
  refine ⟨?_, fun task htask => ?_, h.nodup, h.made, h.deleted⟩
  · show (s.submitted ++ [req.ticket]).Perm
      ((s.tasks ++ [(⟨req, this, .submit, []⟩ : Task)]).map (fun task => task.req.ticket) ++ _)
    rw [List.map_append, List.map_singleton, List.append_assoc]
    refine (h.accounted.append_right _).trans ?_
    rw [List.append_assoc]
    exact List.perm_append_comm.append_left _
  · rcases List.mem_append.mp htask with htask | htask
    · exact h.tasks task htask
    · obtain rfl := List.mem_singleton.mp htask
      exact ⟨hlive, hsingle, trivial⟩

theorem submitCommand_inv (h : Inv s) {req : SQEntryWrapper}
    (hsingle : req.opcode = 0x09 → req.dword11 &&& 0x04 ≠ 0 → rangeCount req = 1) :
    Inv (s.submitCommand req) := by
  rw [submitCommand]
  dsimp only
  split
  · split
    · next iter hfind =>
      exact handed_inv h (List.mem_map_of_mem (List.mem_of_find?_eq_some hfind)) hsingle
    · exact answered_inv h rfl
  · split
    · next hpos =>
      refine handed_inv h (fun hnil => ?_) hsingle
      rw [addresses, List.map_eq_nil_iff] at hnil
      rw [hnil] at hpos
      cases hpos
    · exact answered_inv h rfl

/-! ### The namespaces change -/

theorem Live.mono {addresses addresses' : List Nat} {this : Option Nat} (h : Live addresses this)
    (hsubset : ∀ address ∈ addresses, address ∈ addresses') : Live addresses' this := by
  cases this with
  | some address => exact hsubset address h
  | none =>
    obtain ⟨address, haddress⟩ := List.exists_mem_of_ne_nil _ h
    exact List.ne_nil_of_mem (hsubset address haddress)

theorem insert_inv (h : Inv s) (ns : Namespace) (allocatedLogicalPages : Nat) :
    Inv (s.insert ns allocatedLogicalPages) := by
  have hperm : (s.insert ns allocatedLogicalPages).addresses.Perm (s.made :: s.addresses) := by
    refine ((List.perm_insertionSort _ _).map NamespaceObject.address).trans ?_
    rw [List.map_append]
    exact List.perm_append_singleton _ _
  have hfresh : s.made ∉ s.addresses := fun hmem => Nat.lt_irrefl _ (h.made _ hmem)
  refine ⟨h.accounted, fun task htask => ?_, ?_, fun address haddress => ?_, fun gone hgone => ?_⟩
  · obtain ⟨hlive, hsingle, hwaits⟩ := h.tasks task htask
    exact ⟨hlive.mono fun address haddress => hperm.mem_iff.mpr (List.mem_cons_of_mem _ haddress),
      hsingle, hwaits⟩
  · exact hperm.nodup_iff.mpr (List.nodup_cons.mpr ⟨hfresh, h.nodup⟩)
  · rcases List.mem_cons.mp (hperm.mem_iff.mp haddress) with rfl | haddress
    · exact Nat.lt_succ_self _
    · exact Nat.lt_succ_of_lt (h.made address haddress)
  · obtain ⟨hlt, habsent⟩ := h.deleted gone hgone
    refine ⟨Nat.lt_succ_of_lt hlt, fun hmem => ?_⟩
    rcases List.mem_cons.mp (hperm.mem_iff.mp hmem) with heq | hmem
    · exact Nat.ne_of_lt hlt heq
    · exact habsent hmem

theorem change_inv (h : Inv s) {t : Subsystem}
    (hlength : t.lNamespaces.length = s.lNamespaces.length) : Inv (s.change t) := by
  have heq : (s.change t).addresses = s.addresses := (zipWith_objects _ _ hlength).2
  refine ⟨h.accounted, ?_, ?_, ?_, ?_⟩
  · rw [heq]
    exact h.tasks
  · rw [heq]
    exact h.nodup
  · rw [heq]
    exact h.made
  · rw [heq]
    exact h.deleted

/-- An object goes when no command on its way is for it. -/
theorem destroyNamespace_inv (h : Inv s) {nsid : Nat}
    (hsafe : ∀ object, s.find? nsid = some object →
      (∀ task ∈ s.tasks, task.this ≠ some object.address) ∧
        (s.lNamespaces.length = 1 → ∀ task ∈ s.tasks, task.this ≠ none)) :
    Inv (s.destroyNamespace dev nsid) := by
  rw [destroyNamespace]
  cases hfind : s.find? nsid with
  | none => exact h
  | some object =>
    obtain ⟨hown, hlast⟩ := hsafe object hfind
    have hobjects := Subsystem.perm_cons_eraseP hfind
    have hperm : s.addresses.Perm (object.address ::
        (s.lNamespaces.eraseP (·.ns.nsid = nsid)).map (·.address)) :=
      hobjects.map NamespaceObject.address
    have hnodup := hperm.nodup_iff.mp h.nodup
    obtain ⟨hgone, hnodup⟩ := List.nodup_cons.mp hnodup
    refine ⟨h.accounted, fun task htask => ?_, hnodup, fun address haddress => ?_,
      fun gone hmem => ?_⟩
    · obtain ⟨hlive, hsingle, hwaits⟩ := h.tasks task htask
      refine ⟨?_, hsingle, hwaits⟩
      cases hthis : task.this with
      | some address =>
        rw [hthis] at hlive
        rcases List.mem_cons.mp (hperm.mem_iff.mp hlive) with rfl | haddress
        · exact absurd hthis (hown task htask)
        · exact haddress
      | none =>
        -- another namespace is there, since the command is for the first
        intro hnil
        have hrest : s.lNamespaces.eraseP (·.ns.nsid = nsid) = [] := List.map_eq_nil_iff.mp hnil
        refine hlast ?_ task htask hthis
        rw [hobjects.length_eq, hrest]
        rfl
    · exact h.made address (hperm.mem_iff.mpr (List.mem_cons_of_mem _ haddress))
    · rcases List.mem_append.mp hmem with hmem | hmem
      · obtain ⟨hlt, habsent⟩ := h.deleted gone hmem
        exact ⟨hlt, fun haddress => habsent (hperm.mem_iff.mpr (List.mem_cons_of_mem _ haddress))⟩
      · obtain rfl := List.mem_singleton.mp hmem
        exact ⟨h.made _ (hperm.mem_iff.mpr List.mem_cons_self), hgone⟩

/-! ### The faults of the admin commands -/

theorem lbaSize_sat (lbaFormatIndex : Nat) :
    (lbaSize lbaFormatIndex).Sat (fun _ => True) fun fault => ¬ UsesDeleted fault := by
  rw [lbaSize]
  split
  · trivial
  · exact show ¬ UsesDeleted _ by decide

theorem invert_sat (l : List LPNRange) (last : LPNRange) :
    (Subsystem.invert last l).Sat (fun _ => True) fun fault => ¬ UsesDeleted fault := by
  induction l generalizing last with
  | nil => trivial
  | cons iter l ih =>
    rw [Subsystem.invert]
    split
    · exact (ih _).bind fun _ _ => trivial
    · exact show ¬ UsesDeleted _ by decide

theorem createNamespace_sat (nsid : Nat) (info : Information) (t : Subsystem) :
    (t.createNamespace dev nsid info).Sat (fun _ => True) fun fault => ¬ UsesDeleted fault := by
  rw [Subsystem.createNamespace]
  refine (lbaSize_sat _).bind fun lba _ => ?_
  dsimp only
  split
  · trivial
  · have hallocate : (Subsystem.allocate dev t (Subsystem.requestedPages dev info.size lba)
        info.range).Sat (fun _ => True) fun fault => ¬ UsesDeleted fault := by
      rw [Subsystem.allocate]
      refine (invert_sat _ _).bind fun unallocated _ => ?_
      split <;> trivial
    refine hallocate.bind fun range _ => ?_
    split <;> trivial

theorem exec_sat (dev : LPNInfo) {c : Subsystem.Command} (hc : InPlace c) (t : Subsystem) :
    (Subsystem.exec dev t c).Sat (fun _ => True) fun fault => ¬ UsesDeleted fault := by
  cases c with
  | create nsid data resp => exact hc.elim
  | delete nsid => exact hc.elim
  | attach nsid resp => trivial
  | detach nsid resp => trivial
  | format tick req =>
    have hformat : (Subsystem.formatNVM dev tick req t).Sat (fun _ => True)
        fun fault => ¬ UsesDeleted fault := by
      rw [Subsystem.formatNVM]
      split
      · trivial
      · split
        · trivial
        · exact (lbaSize_sat _).bind fun lba _ => trivial
    rw [Subsystem.exec]
    cases hexec : Subsystem.formatNVM dev tick req t with
    | error fault => exact hformat.of_error hexec
    | ok r => trivial

theorem inPlace_inv (dev : LPNInfo) (h : Inv s) {c : Subsystem.Command} (hc : InPlace c) :
    ((Subsystem.exec dev s.subsystem c).map s.change).Sat Inv fun fault => ¬ UsesDeleted fault := by
  have hsat := exec_sat dev hc s.subsystem
  cases hexec : Subsystem.exec dev s.subsystem c with
  | error fault => exact hsat.of_error hexec
  | ok t => exact change_inv h ((length_of_inPlace hc hexec).trans (List.length_map _))

theorem admin_inv (h : Inv s) {c : Subsystem.Command} (hsafe : s.Safe (.admin c)) :
    (s.admin dev c).Sat Inv fun fault => ¬ UsesDeleted fault := by
  cases c with
  | create nsid data resp =>
    rw [admin, createNamespace]
    refine (lbaSize_sat _).bind fun lba _ => ?_
    refine (createNamespace_sat _ _ _).bind fun ret _ => ?_
    split
    · exact insert_inv h _ _
    · exact h
  | delete nsid => exact destroyNamespace_inv h hsafe
  | attach nsid resp => exact inPlace_inv dev (c := .attach nsid resp) h trivial
  | detach nsid resp => exact inPlace_inv dev (c := .detach nsid resp) h trivial
  | format tick req => exact inPlace_inv dev (c := .format tick req) h trivial

/-- Every step that is safe keeps the invariant and uses nothing that is gone. -/
theorem exec_spec {e : Event} (h : Inv s) (hsafe : s.Safe e) :
    (exec dev s e).Sat Inv fun fault => ¬ UsesDeleted fault := by
  cases e with
  | admin command => exact admin_inv h hsafe
  | submit req => exact submitCommand_inv h hsafe
  | progress k p =>
    rw [exec]
    cases hk : s.tasks[k]? with
    | none => exact h
    | some task =>
      have hlost : p ≠ .lost := by
        rintro rfl
        exact hsafe
      obtain ⟨r, hr, hgoes⟩ := step_spec dev (h.tasks task (List.mem_of_getElem? hk)) hlost
      dsimp only
      rw [hr]
      exact goOn_inv h hk hgoes

/-- No command on its way is for a namespace that is gone. -/
theorem Inv.spares (h : Inv s) (e : Event) : s.Spares e := by
  cases e with
  | admin command => trivial
  | submit req => trivial
  | progress k p =>
    cases p with
    | begin j =>
      intro task request hk hj address count hgone hthis
      have hlive := (h.tasks task (List.mem_of_getElem? hk)).live
      rw [hthis] at hlive
      exact absurd hlive (h.deleted _ hgone).2
    | submit tick => trivial
    | setup => trivial
    | ranges buffer => trivial
    | dma same => trivial
    | lost => trivial
    | backend j same => trivial

theorem start_inv (t : Subsystem) : Inv (start t) := by
  have haddresses : (start t).addresses = List.range t.lNamespaces.length := by
    rw [addresses, start, List.map_map, List.range_eq_range', ← List.zipIdx_map_snd]
    rfl
  refine ⟨.nil, fun _ h => ?_, ?_, fun address haddress => ?_, fun _ h => ?_⟩
  · cases h
  · rw [haddresses]
    exact List.nodup_range
  · rw [haddresses] at haddress
    exact List.mem_range.mp haddress
  · cases h

/-! ### The way to an answer -/

/-- The callbacks that the requests to the backend come to. -/
def requests (backend : List BackendRequest) : Nat :=
  (backend.map fun request => if request.begun then 1 else 2).sum

/-- The callbacks that lead to the answer, at most. -/
def left (task : Task) : Nat :=
  match task.stage with
  | .submit => 5
  | .setup _ => 4
  | .ranges => 3
  | .transfer _ _ dma => dma.toNat + requests task.backend
  | .flush | .trim _ _ => requests task.backend
  | .lost => 0

theorem stage_submitted? {task' : Task} {tick : Nat}
    (h : s.submitted? dev task tick = .ok (.inr task')) : ∃ op, task'.stage = .setup op := by
  rw [submitted?] at h
  obtain ⟨object, -, h⟩ := Except.bind_eq_ok.mp h
  split at h
  · cases h
  · cases hop : operation dev object.ns task.req with
    | inl resp =>
      rw [hop] at h
      cases h
    | inr op =>
      rw [hop] at h
      cases h
      exact ⟨op, rfl⟩

theorem left_setup {task' : Task} {op : Operation} (h : s.setup dev task op = .ok task') :
    left task' < 4 := by
  rw [setup] at h
  obtain ⟨object, -, h⟩ := Except.bind_eq_ok.mp h
  cases op with
  | flush =>
    cases h
    exact show 2 < 4 by decide
  | transfer kind =>
    cases h
    exact show 3 < 4 by decide
  | trim =>
    cases h
    exact show 3 < 4 by decide

theorem left_rangesDone {task' : Task} {buffer : Nat → DatasetManagementRange}
    (hsingle : rangeCount task.req = 1) (h : s.rangesDone dev task buffer = .ok task') :
    left task' < 3 := by
  rw [rangesDone, hsingle] at h
  obtain ⟨object, -, h⟩ := Except.bind_eq_ok.mp h
  cases h
  exact show 2 < 3 by decide

theorem left_dmaDone {task' : Task} {kind : Kind} {beginAt : Nat} {dma same : Bool}
    (h : s.dmaDone task kind beginAt dma same = .ok (.inr task')) :
    left task' = dma.toNat + requests task.backend := by
  rw [dmaDone] at h
  obtain ⟨object, -, h⟩ := Except.bind_eq_ok.mp h
  split at h
  · cases h
  · cases h
    rfl

/-- The backend is asked. -/
def Asks : Stage → Prop
  | .transfer _ _ _ | .flush | .trim _ _ => True
  | .submit | .setup _ | .ranges | .lost => False

theorem left_backendDone {task' : Task} {same : Bool} (hasks : Asks task.stage)
    (h : s.backendDone task same = .ok (.inr task')) : left task' = left task := by
  rw [backendDone] at h
  cases hstage : task.stage with
  | submit => exact (hstage ▸ hasks).elim
  | setup op => exact (hstage ▸ hasks).elim
  | ranges => exact (hstage ▸ hasks).elim
  | lost => exact (hstage ▸ hasks).elim
  | transfer kind beginAt dma =>
    rw [hstage] at h
    rw [left_dmaDone h, left, hstage]
  | flush =>
    rw [hstage] at h
    obtain ⟨object, -, h⟩ := Except.bind_eq_ok.mp h
    cases h
  | trim counter deleted =>
    rw [hstage] at h
    dsimp only at h
    rw [eachTrimDone] at h
    split at h
    · cases h
    · split at h
      · obtain ⟨object, -, h⟩ := Except.bind_eq_ok.mp h
        cases h
      · cases h
        rw [left, left, hstage]

/-- Fewer callbacks of the backend are left. -/
theorem left_lt_of_requests {backend : List BackendRequest} (hasks : Asks task.stage)
    (hlt : requests backend < requests task.backend) :
    left { task with backend := backend } < left task := by
  rw [left, left]
  cases hstage : task.stage with
  | submit => exact (hstage ▸ hasks).elim
  | setup op => exact (hstage ▸ hasks).elim
  | ranges => exact (hstage ▸ hasks).elim
  | lost => exact (hstage ▸ hasks).elim
  | transfer kind beginAt dma => exact Nat.add_lt_add_left hlt _
  | flush => exact hlt
  | trim counter deleted => exact hlt

/-- The first request goes on. -/
theorem exists_progress_backend {request : BackendRequest} {rest : List BackendRequest}
    (hbackend : task.backend = request :: rest) (hasks : Asks task.stage) :
    ∃ p, p ≠ .lost ∧ ∀ task', s.step dev task p = .ok (.inr task') → left task' < left task := by
  obtain ⟨range, begun⟩ := request
  have hless : requests rest < requests task.backend := by
    rw [hbackend, requests, requests, List.map_cons, List.sum_cons]
    split <;> omega
  cases begun with
  | false =>
    refine ⟨.begin 0, nofun, fun task' h => ?_⟩
    rw [step, hbackend] at h
    cases h
    refine left_lt_of_requests hasks ?_
    rw [hbackend]
    exact Nat.add_lt_add_right Nat.one_lt_two _
  | true =>
    refine ⟨.backend 0 true, nofun, fun task' h => ?_⟩
    rw [step, hbackend] at h
    have hdone : s.backendDone { task with backend := rest } true = .ok (.inr task') := h
    have hleft : left task' = left { task with backend := rest } := left_backendDone hasks hdone
    rw [hleft]
    exact left_lt_of_requests hasks hless

/-- Some callback that a command waits for leads nearer to its answer. -/
theorem exists_progress (dev : LPNInfo) (s : Dispatcher) (hsingle : Single task)
    (hwaits : Waits task.backend.length task.stage) :
    ∃ p, p ≠ .lost ∧ ∀ task', s.step dev task p = .ok (.inr task') → left task' < left task := by
  have hbackend : ∀ n, task.backend.length = n + 1 → Asks task.stage → ∃ p, p ≠ .lost ∧
      ∀ task', s.step dev task p = .ok (.inr task') → left task' < left task := fun n hn hasks => by
    obtain ⟨request, rest, hcons⟩ := List.exists_cons_of_length_eq_add_one hn
    exact exists_progress_backend hcons hasks
  cases hstage : task.stage with
  | submit =>
    refine ⟨.submit 0, nofun, fun task' h => ?_⟩
    rw [step, if_pos hstage] at h
    obtain ⟨op, hop⟩ := stage_submitted? h
    rw [left, left, hstage, hop]
    exact Nat.lt_succ_self 4
  | setup op =>
    refine ⟨.setup, nofun, fun task' h => ?_⟩
    rw [step, hstage] at h
    obtain ⟨task'', hsetup, h⟩ := Except.map_eq_ok.mp h
    obtain rfl := Sum.inr.inj h
    rw [left.eq_def task, hstage]
    exact left_setup hsetup
  | ranges =>
    refine ⟨.ranges fun _ => ⟨0, 0⟩, nofun, fun task' h => ?_⟩
    rw [step, if_pos hstage] at h
    obtain ⟨task'', hranges, h⟩ := Except.map_eq_ok.mp h
    obtain rfl := Sum.inr.inj h
    rw [Single, hstage] at hsingle
    rw [left.eq_def task, hstage]
    exact left_rangesDone hsingle hranges
  | transfer kind beginAt dma =>
    rw [hstage] at hwaits
    obtain ⟨hbegin, hcount⟩ := hwaits
    cases dma with
    | true =>
      refine ⟨.dma true, nofun, fun task' h => ?_⟩
      rw [step, hstage] at h
      rw [left_dmaDone h, left, hstage]
      exact Nat.add_lt_add_right Nat.zero_lt_one _
    | false =>
      rw [Bool.toNat_false] at hcount
      exact hbackend (1 - beginAt) (by omega) (hstage ▸ trivial)
  | flush =>
    rw [hstage] at hwaits
    exact hbackend 0 hwaits (hstage ▸ trivial)
  | trim counter deleted =>
    rw [hstage] at hwaits
    rw [Single, hstage] at hsingle
    exact hbackend 0 (hwaits.trans hsingle.1) (hstage ▸ trivial)
  | lost =>
    rw [hstage] at hwaits
    exact hwaits.elim

theorem safe_progress {k : Nat} {p : Progress} (hlost : p ≠ .lost) : s.Safe (.progress k p) := by
  cases p with
  | lost => exact absurd rfl hlost
  | submit tick => trivial
  | setup => trivial
  | ranges buffer => trivial
  | dma same => trivial
  | begin j => trivial
  | backend j same => trivial

/-- Every command on its way can be answered, by induction on the callbacks that are left. -/
theorem can_answer (dev : LPNInfo) {k n : Nat} (h : Inv s) (hk : s.tasks[k]? = some task)
    (hleft : left task = n) : CanAnswer dev s k task.req := by
  induction n using Nat.strong_induction_on generalizing s task with
  | _ n ih =>
    have hcared := h.tasks task (List.mem_of_getElem? hk)
    obtain ⟨p, hlost, hless⟩ := exists_progress dev s hcared.single hcared.waits
    obtain ⟨r, hr, hgoes⟩ := step_spec dev hcared hlost
    have hexec : exec dev s (.progress k p) = .ok (s.goOn k r) := by
      rw [exec, hk]
      dsimp only
      rw [hr]
      rfl
    have hreach : Run.Reaches (exec dev) Safe s (s.goOn k r) := .step (safe_progress hlost) hexec
    have hinv := goOn_inv h hk hgoes
    cases r with
    | inl resp => exact ⟨_, resp, hreach, hgoes, rfl, rfl, rfl⟩
    | inr task' =>
      obtain ⟨hlt, -⟩ := List.getElem?_eq_some_iff.mp hk
      have hk' : (s.tasks.set k task')[k]? = some task' := List.getElem?_set_self hlt
      obtain ⟨s', resp, hreach', hticket, hsubmitted, htasks, hanswered⟩ :=
        ih (left task') (hleft ▸ hless task' hr) hinv hk' rfl
      refine ⟨s', resp, hreach.trans hreach', hticket.trans (congrArg _ hgoes.1), hsubmitted, ?_,
        hanswered⟩
      rw [htasks]
      exact List.eraseIdx_set_eq

end Steps

/-- In every run in which no namespace is deleted while a command on its way is for it, every
deallocation has one range and no DMA is lost: no continuation uses what is gone, the pages of new
namespaces are spared, and the commands that were submitted are those on their way and those that
are answered. From where such a run has come, every command on its way can be answered. -/
theorem run_outlives (dev : LPNInfo) (t : Subsystem) (events : List Event)
    (hsafe : Run.Along (exec dev) Safe (start t) events) :
    Run.Along (exec dev) (Sound dev) (start t) events ∧
      ∀ s, events.foldlM (exec dev) (start t) = .ok s →
        ∀ k task, s.tasks[k]? = some task → CanAnswer dev s k task.req := by
  have hstep : ∀ s e s', Inv s → s.Safe e → exec dev s e = .ok s' → Inv s' :=
    fun _ _ _ h hsafe hexec => (exec_spec h hsafe).of_ok hexec
  constructor
  · refine hsafe.imp (I := Inv) hstep (fun s e h hsafe => ?_) (start_inv t)
    exact ⟨h.accounted, (exec_spec h hsafe).mono (fun _ h => h.accounted) fun _ h => h,
      h.spares e⟩
  · intro s hrun k task hk
    exact can_answer dev (hsafe.foldlM_inv (I := Inv) hstep (start_inv t) hrun) hk rfl

/-- A read of the first block of namespace 1. -/
def readCommand : SQEntryWrapper := { Subsystem.adminCommand 0x02 1 0 with sqID := 1, cqID := 1 }

/-- The read has its answer when the namespace is deleted and its identifier is used again. While
it waits for its memory, it can be answered. -/
theorem run_outlives_answered :
    Run.Along (exec Subsystem.smallDevice) (Sound Subsystem.smallDevice)
        (start Subsystem.wholeDevice)
          [.submit readCommand, .progress 0 (.submit 0), .progress 0 .setup, .progress 0 (.begin 0),
            .progress 0 (.dma true), .progress 0 (.backend 0 true), .admin (.delete 1),
            .admin (.create 1 ⟨4096, 4096, 0, 0, 0⟩ Subsystem.createResp)] ∧
      ∃ s, [Event.submit readCommand, .progress 0 (.submit 0)].foldlM
          (exec Subsystem.smallDevice) (start Subsystem.wholeDevice) = .ok s ∧
        CanAnswer Subsystem.smallDevice s 0 readCommand := by
  constructor
  · exact (run_outlives Subsystem.smallDevice Subsystem.wholeDevice _ (by decide +kernel)).1
  · refine ⟨_, rfl, ?_⟩
    exact (run_outlives Subsystem.smallDevice Subsystem.wholeDevice
      [.submit readCommand, .progress 0 (.submit 0)] (by decide +kernel)).2 _ rfl 0 _ rfl

/-- It waits for its memory when the namespace is deleted. -/
theorem not_sound_deleted : ¬ Run.Along (exec Subsystem.smallDevice) (Sound Subsystem.smallDevice)
    (start Subsystem.wholeDevice)
      [.submit readCommand, .progress 0 (.submit 0), .admin (.delete 1), .progress 0 .setup] := by
  intro h
  have hafter := h.mono fun _ _ h => h.after
  revert hafter
  decide +kernel

/-- It waits for the backend: the request is for the pages of the new namespace. -/
example : ∃ s, [Event.submit readCommand, .progress 0 (.submit 0), .progress 0 .setup,
    .admin (.delete 1), .admin (.create 1 ⟨4096, 4096, 0, 0, 0⟩ Subsystem.createResp)].foldlM
      (exec Subsystem.smallDevice) (start Subsystem.wholeDevice) = .ok s ∧
        (s.tasks.map fun task => task.backend.map (·.range.slpn)) = [[0]] ∧
          s.lNamespaces.map (·.ns.info.range.slpn) = [0] :=
  Except.exists_of_map (by decide +kernel)

end Dispatcher

end SimpleSSD.HIL.NVMe
