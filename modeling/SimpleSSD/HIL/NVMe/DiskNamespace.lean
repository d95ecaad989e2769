import SimpleSSD.HIL.NVMe.Subsystem
import SimpleSSD.HIL.NVMe.Transfer
import SimpleSSD.Util.Disk

/-!
# Namespaces with a disk image (hil/nvme/namespace.cc:112–173, 285–574)

The data of a namespace is in its image, which is opened with the namespace and given up by Format
NVM. A write reads the host's data by DMA and changes the image when both the DMA and the backend
have ended; a read and a comparison take the data from the image before they start the two.

The data of the host is what the DMA brings or takes as a whole.
-/

namespace SimpleSSD.HIL.NVMe

open Blocks (Store)
open Transfer (Kind finalResp)

/-- The configuration of the image of a namespace. -/
structure ImageConfig where
  filename : String
  useCoWDisk : Bool
  strictDiskSize : Bool

/-- `Namespace`, with `pDisk`. -/
structure ImageNamespace where
  ns : Namespace
  pDisk : Option DiskImage

/-- What a handler hands to `function`, and the data that a read has brought to the host. -/
structure Answer where
  resp : CQEntryWrapper
  data : List UInt8
  deriving DecidableEq

/-- `IOContext` and `CompareContext`, with the calls of `function`. -/
structure IOContext where
  resp : CQEntryWrapper
  slba : Nat
  nlb : Nat
  beginAt : Nat
  buffer : Option (List UInt8)
  hostContent : List UInt8
  answers : List Answer

/-- The two that a command waits for. -/
inductive Part where
  | dma | backend
  deriving DecidableEq

namespace ImageNamespace

/-- The image that `setData` opens. -/
def openDisk (cfg : ImageConfig) (file : Option ImageFile) (size lbaSize : Nat) : DiskImage :=
  if cfg.filename.length = 0 then .mem (MemDisk.openFile size lbaSize)
  else if cfg.useCoWDisk then .cow ⟨Disk.openFile file size lbaSize, Store.empty⟩
  else .disk (Disk.openFile file size lbaSize)

/-- `setData` with images enabled. -/
def setData (cfg : ImageConfig) (file : Option ImageFile) (nsid : Nat) (info : Information) :
    Except Fault ImageNamespace :=
  let size := info.size * info.lbaSize % 2 ^ 64
  let pDisk := openDisk cfg file size info.lbaSize
  if pDisk.diskSize = 0 then .error (.panic "Namespace::setData" "Failed to open disk image")
  else if pDisk.diskSize ≠ size ∧ cfg.strictDiskSize then
    .error (.panic "Namespace::setData" "Disk size not match")
  else .ok ⟨.new nsid info, some pDisk⟩

/-- `attach`. -/
def attach (s : ImageNamespace) (attach : Bool) : ImageNamespace :=
  { s with ns := { s.ns with attached := attach } }

/-- A new buffer for `nlb` blocks. -/
def calloc (s : ImageNamespace) (nlb : Nat) : List UInt8 :=
  List.replicate (nlb * s.ns.info.lbaSize) 0

/-- The buffer of a read: zeros without an image. -/
def readDisk (s : ImageNamespace) (slba nlb : Nat) : List UInt8 :=
  match s.pDisk with
  | some d => d.read slba nlb
  | none => s.calloc nlb

/-- `doRead`, before the DMA and the backend are started. -/
def doRead (kind : Kind) (s : ImageNamespace) (resp : CQEntryWrapper) (slba nlb : Nat) :
    IOContext where
  resp := resp
  slba := slba
  nlb := nlb
  beginAt := 0
  buffer :=
    match kind with
    | .write => s.pDisk.map fun _ => s.calloc nlb
    | .read | .compare => some (s.readDisk slba nlb)
  hostContent := s.calloc nlb
  answers := []

/-- What the DMA does to the buffers. -/
def transferred (kind : Kind) (data : List UInt8) (c : IOContext) : IOContext :=
  match kind with
  | .write => { c with buffer := c.buffer.map fun _ => data }
  | .read => c
  | .compare => { c with hostContent := data }

/-- The buffers agree, or there is no image. -/
def same (s : ImageNamespace) (c : IOContext) : Bool :=
  s.pDisk.isNone || decide (c.buffer = some c.hostContent)

/-- The buffer of a write goes to the image. -/
def writeDisk (s : ImageNamespace) (c : IOContext) : Except Fault ImageNamespace :=
  match c.buffer with
  | none => .ok s
  | some buffer =>
    match s.pDisk with
    | none => .error (.badAccess "pDisk")
    | some d => .ok { s with pDisk := some (d.write c.slba c.nlb buffer) }

/-- `dmaDone`. -/
def dmaDone (kind : Kind) (s : ImageNamespace) (c : IOContext) :
    Except Fault (ImageNamespace × IOContext) :=
  let c := { c with beginAt := c.beginAt + 1 }
  if c.beginAt = 2 then
    let answer := ⟨finalResp kind (s.same c) c.resp, c.buffer.getD []⟩
    let c := { c with answers := c.answers ++ [answer] }
    match kind with
    | .write => (s.writeDisk c).map fun s => (s, c)
    | .read | .compare => .ok (s, c)
  else .ok (s, c)

/-- One of the two ends. -/
def step (kind : Kind) (data : List UInt8) (j : ImageNamespace × IOContext) :
    Part → Except Fault (ImageNamespace × IOContext)
  | .dma => dmaDone kind j.1 (transferred kind data j.2)
  | .backend => dmaDone kind j.1 j.2

/-- The order in which the two end. -/
def order : Part → List Part
  | .dma => [.dma, .backend]
  | .backend => [.backend, .dma]

/-- `write`, `read` and `compare`, from `submitCommand` on, with nothing else going on. -/
def transfer (dev : LPNInfo) (kind : Kind) (tick : Nat) (req : SQEntryWrapper) (data : List UInt8)
    (first : Part) (s : ImageNamespace) : Except Fault (ImageNamespace × List Answer) :=
  let resp := CQEntryWrapper.new req
  if tick < s.ns.formatFinishedAt then
    .ok (s, [⟨resp.makeStatus false false .genericCommandStatus .formatInProgress, []⟩])
  else
    match s.ns.transfer dev req with
    | .rejected resp => .ok (s, [⟨resp, []⟩])
    | .executed _ => do
      let c := s.doRead kind resp (Transfer.slba req) (Transfer.nlbField req + 1).toNat
      let j ← (order first).foldlM (step kind data) (s, c)
      .ok (j.1, j.2.answers)

/-- `Subsystem::formatNVM` for the namespace that it finds, with `Namespace::format`. -/
def formatNVM (dev : LPNInfo) (tick : Nat) (req : SQEntryWrapper) (s : ImageNamespace) :
    Except Fault (ImageNamespace × List Answer) :=
  let resp := CQEntryWrapper.new req
  if !Subsystem.formatValid req then
    .ok (s, [⟨resp.makeStatus false false .genericCommandStatus .invalidFormat, []⟩])
  else do
    let lbaf := (req.dword10 &&& 0x0F).toNat
    let lba ← lbaSize lbaf
    .ok (⟨Subsystem.formatted dev lbaf lba tick s.ns, none⟩, [⟨resp, []⟩])

/-- The commands, with the host's data and the part that ends first. -/
inductive Command where
  | write (tick : Nat) (req : SQEntryWrapper) (data : List UInt8) (first : Part)
  | read (tick : Nat) (req : SQEntryWrapper) (first : Part)
  | compare (tick : Nat) (req : SQEntryWrapper) (data : List UInt8) (first : Part)
  | format (tick : Nat) (req : SQEntryWrapper)

def exec (dev : LPNInfo) (s : ImageNamespace) :
    Command → Except Fault (ImageNamespace × List Answer)
  | .write tick req data first => s.transfer dev .write tick req data first
  | .read tick req first => s.transfer dev .read tick req [] first
  | .compare tick req data first => s.transfer dev .compare tick req data first
  | .format tick req => s.formatNVM dev tick req

/-! ### What the handlers do -/

section Transfer

variable {s : ImageNamespace} {tick : Nat} {req : SQEntryWrapper}

/-- The command is taken up: nothing is being formatted, the namespace is attached, and the number
of blocks does not come to zero. -/
structure Ready (s : ImageNamespace) (tick : Nat) (req : SQEntryWrapper) : Prop where
  formatted : s.ns.formatFinishedAt ≤ tick
  attached : s.ns.attached = true
  nlb : (Transfer.nlbField req + 1).toNat ≠ 0

theorem Ready.transfer_eq (h : s.Ready tick req) (dev : LPNInfo) (kind : Kind) (data : List UInt8)
    (first : Part) :
      s.transfer dev kind tick req data first = ((order first).foldlM (step kind data)
      (s, s.doRead kind (.new req) (Transfer.slba req) (Transfer.nlbField req + 1).toNat)).map
        fun j => (j.1, j.2.answers) := by
  obtain ⟨hformatted, hattached, hnlb⟩ := h
  have hexec : s.ns.transfer dev req = .executed [convertUnit dev s.ns (Transfer.slba req)
      (Transfer.nlbField req + 1).toNat] := by
    rw [Namespace.transfer, hattached]
    exact if_neg hnlb
  rw [transfer]
  dsimp only
  rw [if_neg (Nat.not_lt.mpr hformatted), hexec]
  rfl

/-- The image, if there is one, after a write. -/
def written (s : ImageNamespace) (slba nlb : Nat) (data : List UInt8) : ImageNamespace :=
  { s with pDisk := s.pDisk.map fun d => d.write slba nlb data }

/-- A write changes the image, if there is one. -/
theorem Ready.write (h : s.Ready tick req) (dev : LPNInfo) (data : List UInt8) (first : Part) :
    s.transfer dev .write tick req data first = .ok
      (s.written (Transfer.slba req) (Transfer.nlbField req + 1).toNat data,
        [⟨.new req, (s.pDisk.map fun _ => data).getD []⟩]) := by
  rw [h.transfer_eq]
  obtain ⟨ns, pDisk⟩ := s
  cases first with
  | dma => cases pDisk <;> rfl
  | backend => cases pDisk <;> rfl

/-- A read returns what the image has, or zeros. -/
theorem Ready.read (h : s.Ready tick req) (dev : LPNInfo) (first : Part) :
    s.transfer dev .read tick req [] first = .ok (s,
      [⟨.new req, s.readDisk (Transfer.slba req) (Transfer.nlbField req + 1).toNat⟩]) := by
  rw [h.transfer_eq]
  cases first with
  | dma => rfl
  | backend => rfl

/-- A comparison is with the image, or it succeeds. -/
theorem Ready.compare (h : s.Ready tick req) (dev : LPNInfo) (data : List UInt8) (first : Part) :
    ∃ answer, s.transfer dev .compare tick req data first = .ok (s, [answer]) ∧
      (answer.resp.status = .zero ↔ s.pDisk = none ∨
        s.readDisk (Transfer.slba req) (Transfer.nlbField req + 1).toNat = data) := by
  have heq : ∃ c : IOContext, s.transfer dev .compare tick req data first = .ok (s,
      [⟨finalResp .compare (s.same c) (.new req), c.buffer.getD []⟩]) ∧ c.hostContent = data ∧
        c.buffer = some (s.readDisk (Transfer.slba req) (Transfer.nlbField req + 1).toNat) := by
    rw [h.transfer_eq]
    cases first with
    | dma => exact ⟨_, rfl, rfl, rfl⟩
    | backend => exact ⟨_, rfl, rfl, rfl⟩
  obtain ⟨c, hc, hdata, hbuffer⟩ := heq
  refine ⟨_, hc, ?_⟩
  have hsame : s.same c = true ↔ s.pDisk = none ∨
      s.readDisk (Transfer.slba req) (Transfer.nlbField req + 1).toNat = data := by
    rw [same, hbuffer, hdata]
    simp
  rw [← hsame, finalResp]
  cases s.same c with
  | true => exact iff_of_true rfl rfl
  | false => exact iff_of_false (fun hzero => by cases hzero) Bool.false_ne_true

end Transfer

end ImageNamespace

end SimpleSSD.HIL.NVMe
