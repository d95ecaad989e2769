import SimpleSSD.HIL.NVMe.DiskNamespace
import SimpleSSD.Lib.Run

/-!
# Data integrity

Beside a namespace with an image runs what its host has been told: the data of the last successful
write to each block, since the namespace was created or last formatted. As long as there is an
image it holds just that, and a read shows it as far as the image does; after Format NVM there is no
image, so writes are lost, reads are of zeros and comparisons succeed.
-/

namespace SimpleSSD.HIL.NVMe

open Blocks (Store joined)
open ImageNamespace (Command Ready setData)

/-- A namespace, and what was last written to its blocks. -/
structure Session where
  device : ImageNamespace
  store : Store UInt8

namespace Session

variable {s : Session} {c : Command} {tick slba n : Nat} {req : SQEntryWrapper}
  {data : List UInt8}

def blockSize (s : Session) : Nat := s.device.ns.info.lbaSize

/-- The command has succeeded. -/
def Succeeded (answers : List Answer) : Prop := ∃ a ∈ answers, a.resp.status = .zero

instance (answers : List Answer) : Decidable (Succeeded answers) :=
  inferInstanceAs (Decidable (∃ a ∈ answers, _))

/-- What was last written, after a command. -/
def record (s : Session) (c : Command) (answers : List Answer) : Store UInt8 :=
  if Succeeded answers then
    match c with
    | .write _ req data _ =>
      s.store.write s.blockSize (Transfer.slba req) (Transfer.nlbField req + 1).toNat data
    | .read _ _ _ | .compare _ _ _ _ => s.store
    | .format _ _ => Store.empty
  else s.store

def exec (dev : LPNInfo) (s : Session) (c : Command) : Except Fault Session := do
  let r ← s.device.exec dev c
  .ok ⟨r.1, s.record c r.2⟩

/-- A namespace that has just been created and attached. -/
def new (device : ImageNamespace) : Session := ⟨device.attach true, Store.empty⟩

/-- The data of blocks, as they were last written, and zeros where nothing was. -/
def lastWritten (s : Session) (slba n : Nat) : List UInt8 :=
  joined (s.store.block s.blockSize 0) slba n

/-- The command is in range, of at most 65535 blocks, and not issued before the last Format. -/
def InRange (s : Session) (tick : Nat) (req : SQEntryWrapper) : Prop :=
  s.device.ns.formatFinishedAt ≤ tick ∧ (Transfer.nlbField req + 1).toNat ≠ 0 ∧
    Transfer.slba req + (Transfer.nlbField req + 1).toNat ≤ s.device.ns.info.size

instance (s : Session) (tick : Nat) (req : SQEntryWrapper) : Decidable (s.InRange tick req) :=
  inferInstanceAs (Decidable (_ ∧ _ ∧ _))

def Valid (s : Session) : Command → Prop
  | .write tick req data _ | .compare tick req data _ =>
    s.InRange tick req ∧ data.length = (Transfer.nlbField req + 1).toNat * s.blockSize
  | .read tick req _ => s.InRange tick req
  | .format _ _ => True

instance (s : Session) : (c : Command) → Decidable (s.Valid c)
  | .write tick req data _ => inferInstanceAs (Decidable
      (s.InRange tick req ∧ data.length = (Transfer.nlbField req + 1).toNat * s.blockSize))
  | .compare tick req data _ => inferInstanceAs (Decidable
      (s.InRange tick req ∧ data.length = (Transfer.nlbField req + 1).toNat * s.blockSize))
  | .read tick req _ => inferInstanceAs (Decidable (s.InRange tick req))
  | .format _ _ => .isTrue trivial

/-- The command is answered once; a successful read has brought what was last written, and a
comparison succeeds exactly when the host's data is that. -/
def Intact (dev : LPNInfo) (s : Session) (c : Command) : Prop :=
  ∃ r a, s.device.exec dev c = .ok (r, [a]) ∧
    match c with
    | .read _ req _ => a.resp.status = .zero →
        a.data = s.lastWritten (Transfer.slba req) (Transfer.nlbField req + 1).toNat
    | .compare _ req data _ => a.resp.status = .zero ↔
        data = s.lastWritten (Transfer.slba req) (Transfer.nlbField req + 1).toNat
    | .write _ _ _ _ | .format _ _ => True

/-! ### What a namespace shows -/

/-- What the namespace shows of the content of a block: without an image only zeros. -/
def shown (s : Session) (lba : Nat) (content : List UInt8) : List UInt8 :=
  match s.device.pDisk with
  | some d => d.shown lba content
  | none => List.replicate s.blockSize 0

/-- What a read of blocks shows. -/
def visible (s : Session) (slba n : Nat) : List UInt8 :=
  joined (fun lba => s.shown lba (s.store.block s.blockSize 0 lba)) slba n

/-- What was last written to the blocks is shown as it is. -/
def Shows (s : Session) (slba n : Nat) : Prop :=
  ∀ i < n, s.shown (slba + i) (s.store.block s.blockSize 0 (slba + i)) =
    s.store.block s.blockSize 0 (slba + i)

instance (s : Session) (slba n : Nat) : Decidable (s.Shows slba n) :=
  inferInstanceAs (Decidable (∀ i < n, _))

/-- A read is of blocks that are shown as they were written. A comparison without an image is with
what was written; with one, its blocks are shown so, or its data differs from both. -/
def Respects (s : Session) : Command → Prop
  | .read _ req _ => s.Shows (Transfer.slba req) (Transfer.nlbField req + 1).toNat
  | .compare _ req data _ =>
    if s.device.pDisk.isNone then
      data = s.lastWritten (Transfer.slba req) (Transfer.nlbField req + 1).toNat
    else
      s.Shows (Transfer.slba req) (Transfer.nlbField req + 1).toNat ∨
        data ≠ s.lastWritten (Transfer.slba req) (Transfer.nlbField req + 1).toNat ∧
          data ≠ s.visible (Transfer.slba req) (Transfer.nlbField req + 1).toNat
  | .write _ _ _ _ | .format _ _ => True

/-- The image holds what was last written. -/
structure Sound (s : Session) : Prop where
  attached : s.device.ns.attached = true
  sized : s.store.Sized s.blockSize
  bytes : s.device.ns.info.size * s.blockSize < 2 ^ 64
  sector : ∀ d, s.device.pDisk = some d → d.sectorSize = s.blockSize
  holds : ∀ d, s.device.pDisk = some d → d.Holds s.store

theorem Sound.ready (h : s.Sound) (hrange : s.InRange tick req) : s.device.Ready tick req :=
  ⟨hrange.1, h.attached, hrange.2.1⟩

theorem Sound.fits (h : s.Sound) (hrange : s.InRange tick req) :
    (Transfer.slba req + (Transfer.nlbField req + 1).toNat) * s.blockSize < 2 ^ 64 :=
  (Nat.mul_le_mul_right _ hrange.2.2).trans_lt h.bytes

/-- A read gives what the namespace shows. -/
theorem Sound.readDisk_eq (h : s.Sound) (hfit : (slba + n) * s.blockSize < 2 ^ 64) :
    s.device.readDisk slba n = s.visible slba n := by
  rw [ImageNamespace.readDisk, visible]
  cases hdisk : s.device.pDisk with
  | some d =>
    have hsector := h.sector d hdisk
    simp only [shown, hdisk]
    rw [← hsector] at hfit ⊢
    exact DiskImage.read_eq (h.holds d hdisk) hfit
  | none =>
    simp only [shown, hdisk]
    refine (List.eq_replicate_iff.mpr ⟨?_, fun b hb => ?_⟩).symm
    · exact Blocks.length_joined fun _ => List.length_replicate
    · obtain ⟨i, -, hi⟩ := List.mem_flatMap.mp hb
      exact List.eq_of_mem_replicate hi

theorem Sound.length_shown (h : s.Sound) (lba : Nat) :
    (s.shown lba (s.store.block s.blockSize 0 lba)).length = s.blockSize := by
  rw [shown]
  cases hdisk : s.device.pDisk with
  | none => exact List.length_replicate
  | some d =>
    cases d with
    | disk d =>
      have hsector := h.sector _ hdisk
      show ((List.range d.sectorSize).map _).length = _
      rw [List.length_map, List.length_range]
      exact hsector
    | cow d => exact h.sized.length_block lba
    | mem d => exact h.sized.length_block lba

theorem Sound.visible_eq_iff (h : s.Sound) (slba n : Nat) :
    s.visible slba n = s.lastWritten slba n ↔ s.Shows slba n :=
  Blocks.joined_inj h.length_shown h.sized.length_block

/-! ### Steps -/

/-- A write is recorded as the image takes it. -/
theorem Sound.write (h : s.Sound) (dev : LPNInfo) (first : Part) (hrange : s.InRange tick req)
    (hdata : data.length = (Transfer.nlbField req + 1).toNat * s.blockSize) :
    Intact dev s (.write tick req data first) ∧
      ∃ s', s.exec dev (.write tick req data first) = .ok s' ∧ s'.Sound := by
  have hwrite := (h.ready hrange).write dev data first
  have hfit := h.fits hrange
  generalize hn : (Transfer.nlbField req + 1).toNat = n at hwrite hdata hfit
  generalize hslba : Transfer.slba req = slba at hwrite hfit
  have hexec : s.exec dev (.write tick req data first) =
      .ok ⟨s.device.written slba n data, s.store.write s.blockSize slba n data⟩ := by
    rw [exec, ImageNamespace.exec, hwrite, ← hn, ← hslba]
    show Except.ok (Session.mk _ (s.record _ _)) = _
    rw [record, if_pos ⟨_, List.mem_singleton_self _, rfl⟩]
  refine ⟨⟨_, _, hwrite, trivial⟩, _, hexec, h.attached, h.sized.write hdata, h.bytes,
    fun d hd => ?_, fun d hd => ?_⟩
  · obtain ⟨d₀, hd₀, rfl⟩ := Option.map_eq_some_iff.mp hd
    have hsector := h.sector d₀ hd₀
    cases d₀ <;> exact hsector
  · obtain ⟨d₀, hd₀, rfl⟩ := Option.map_eq_some_iff.mp hd
    have hsector := h.sector d₀ hd₀
    show DiskImage.Holds (s.store.write s.blockSize slba n data) (d₀.write slba n data)
    rw [← hsector] at hfit ⊢
    exact DiskImage.Holds.write (h.holds d₀ hd₀) hfit data

/-- A read leaves everything as it is. -/
theorem Sound.read (h : s.Sound) (dev : LPNInfo) (first : Part) (hrange : s.InRange tick req) :
    s.exec dev (.read tick req first) = .ok s ∧
      (Intact dev s (.read tick req first) ↔ Respects s (.read tick req first)) := by
  have hread := (h.ready hrange).read dev first
  rw [h.readDisk_eq (h.fits hrange)] at hread
  constructor
  · rw [exec, ImageNamespace.exec, hread]
    show Except.ok (Session.mk _ (s.record _ _)) = _
    rw [record, ite_self]
  · rw [Respects, ← h.visible_eq_iff]
    constructor
    · rintro ⟨r, a, hexec, hdata⟩
      rw [ImageNamespace.exec, hread] at hexec
      cases hexec
      exact hdata rfl
    · intro hshows
      exact ⟨_, _, hread, fun _ => hshows⟩

/-- A comparison leaves everything as it is. -/
theorem Sound.compare (h : s.Sound) (dev : LPNInfo) (data : List UInt8) (first : Part)
    (hrange : s.InRange tick req) :
    s.exec dev (.compare tick req data first) = .ok s ∧
      (Intact dev s (.compare tick req data first) ↔
        Respects s (.compare tick req data first)) := by
  obtain ⟨answer, hcompare, hstatus⟩ := (h.ready hrange).compare dev data first
  rw [h.readDisk_eq (h.fits hrange)] at hstatus
  constructor
  · rw [exec, ImageNamespace.exec, hcompare]
    show Except.ok (Session.mk _ (s.record _ _)) = _
    rw [record, ite_self]
  · have hintact : Intact dev s (.compare tick req data first) ↔ (answer.resp.status = .zero ↔
        data = s.lastWritten (Transfer.slba req) (Transfer.nlbField req + 1).toNat) := by
      constructor
      · rintro ⟨r, a, hexec, hdata⟩
        rw [ImageNamespace.exec, hcompare] at hexec
        cases hexec
        exact hdata
      · intro hdata
        exact ⟨_, _, hcompare, hdata⟩
    rw [hintact, hstatus, Respects, ← h.visible_eq_iff]
    cases hdisk : s.device.pDisk with
    | none => simp
    | some d =>
      rw [if_neg (by simp)]
      have hsome : (some d = none ∨ s.visible (Transfer.slba req)
          (Transfer.nlbField req + 1).toNat = data) ↔ s.visible (Transfer.slba req)
          (Transfer.nlbField req + 1).toNat = data := by simp
      rw [hsome]
      constructor
      · intro hiff
        by_cases hdata : data = s.lastWritten (Transfer.slba req) (Transfer.nlbField req + 1).toNat
        · exact .inl ((hiff.mpr hdata).trans hdata)
        · exact .inr ⟨hdata, fun hvisible => hdata (hiff.mp hvisible.symm)⟩
      · rintro (hshows | ⟨hlast, hvisible⟩)
        · rw [hshows]
          exact eq_comm
        · exact iff_of_false (fun heq => hvisible heq.symm) hlast

/-- The formats of the table have a size. -/
theorem lbaSize_of_lt {lbaf : Nat} (h : lbaf < nLBAFormat) : ∃ lba, lbaSize lbaf = .ok lba := by
  have hlt : lbaf < lbaSizes.length := h
  exact ⟨lbaSizes[lbaf], by rw [lbaSize, List.getElem?_eq_getElem hlt]⟩

/-- Format NVM gives up the image, and what was written. -/
theorem Sound.format (h : s.Sound) (dev : LPNInfo) (tick : Nat) (req : SQEntryWrapper) :
    Intact dev s (.format tick req) ∧ ∃ s', s.exec dev (.format tick req) = .ok s' ∧ s'.Sound := by
  by_cases hformat : Subsystem.formatValid req = true
  · have hlt : (req.dword10 &&& 0x0F).toNat < nLBAFormat := by
      have hfields := of_decide_eq_true hformat
      exact hfields.2.2.2.2
    obtain ⟨lba, hlba⟩ := lbaSize_of_lt hlt
    have hexec : s.device.formatNVM dev tick req =
        .ok (⟨Subsystem.formatted dev (req.dword10 &&& 0x0F).toNat lba tick s.device.ns, none⟩,
          [⟨.new req, []⟩]) := by
      rw [ImageNamespace.formatNVM, hformat]
      dsimp only
      rw [hlba]
      rfl
    have hstore : s.exec dev (.format tick req) = .ok
        ⟨⟨Subsystem.formatted dev (req.dword10 &&& 0x0F).toNat lba tick s.device.ns, none⟩,
          Store.empty⟩ := by
      rw [exec, ImageNamespace.exec, hexec]
      show Except.ok (Session.mk _ (s.record _ _)) = _
      rw [record, if_pos ⟨_, List.mem_singleton_self _, rfl⟩]
    refine ⟨⟨_, _, hexec, trivial⟩, _, hstore, h.attached, Store.sized_empty, ?_, ?_, ?_⟩
    rotate_left
    · intro d hd
      cases hd
    · intro d hd
      cases hd
    show dev.totalLogicalPages * dev.logicalPageSize % 2 ^ 64 / lba * lba < 2 ^ 64
    exact (Nat.div_mul_le_self _ _).trans_lt (Nat.mod_lt _ (by decide))
  · have hexec :
        s.device.formatNVM dev tick req = .ok (s.device, [⟨(CQEntryWrapper.new req).makeStatus
        false false .genericCommandStatus .invalidFormat, []⟩]) := by
      rw [ImageNamespace.formatNVM, Bool.eq_false_iff.mpr hformat]
      rfl
    refine ⟨⟨_, _, hexec, trivial⟩, s, ?_, h⟩
    rw [exec, ImageNamespace.exec, hexec]
    show Except.ok (Session.mk _ (s.record _ _)) = _
    rw [record, if_neg]
    rintro ⟨a, ha, hzero⟩
    rw [List.mem_singleton.mp ha] at hzero
    cases hzero

/-- A command keeps the image in step with what was written, and is answered as it should be
exactly under the condition. -/
theorem Sound.exec (h : s.Sound) (dev : LPNInfo) (hvalid : s.Valid c) :
    (∃ s', s.exec dev c = .ok s' ∧ s'.Sound) ∧ (Intact dev s c ↔ s.Respects c) := by
  cases c with
  | write tick req data first =>
    obtain ⟨hintact, hs'⟩ := h.write dev first hvalid.1 hvalid.2
    exact ⟨hs', iff_of_true hintact trivial⟩
  | read tick req first =>
    obtain ⟨hexec, hiff⟩ := h.read dev first hvalid
    exact ⟨⟨s, hexec, h⟩, hiff⟩
  | compare tick req data first =>
    obtain ⟨hexec, hiff⟩ := h.compare dev data first hvalid.1
    exact ⟨⟨s, hexec, h⟩, hiff⟩
  | format tick req =>
    obtain ⟨hintact, hs'⟩ := h.format dev tick req
    exact ⟨hs', iff_of_true hintact trivial⟩

/-! ### Runs -/

theorem new_sound {cfg : ImageConfig} {file : Option ImageFile} {nsid : Nat} {info : Information}
    {device : ImageNamespace} (hopen : setData cfg file nsid info = .ok device)
    (hblank : Blank file) (hbytes : info.size * info.lbaSize < 2 ^ 64) : (new device).Sound := by
  rw [setData] at hopen
  split at hopen
  · cases hopen
  · split at hopen
    · cases hopen
    · cases hopen
      have hdisk : ∀ d, some (ImageNamespace.openDisk cfg file
          (info.size * info.lbaSize % 2 ^ 64) info.lbaSize) = some d →
            d.sectorSize = info.lbaSize ∧ d.Holds Store.empty := by
        rintro d hd
        cases hd
        rw [ImageNamespace.openDisk]
        split
        · exact ⟨rfl, rfl⟩
        · split
          · exact ⟨Disk.openFile_sectorSize file _ _, DiskImage.holds_cow hblank _ _⟩
          · exact ⟨Disk.openFile_sectorSize file _ _, DiskImage.holds_disk hblank _ _⟩
      exact ⟨rfl, Store.sized_empty, hbytes, fun d hd => (hdisk d hd).1, fun d hd => (hdisk d hd).2⟩

/-- Over every run on an empty image the commands are answered as they should be exactly under the
condition. -/
theorem run_intact_iff {dev : LPNInfo} {cfg : ImageConfig} {file : Option ImageFile} {nsid : Nat}
    {info : Information} {device : ImageNamespace} {commands : List Command}
    (hopen : setData cfg file nsid info = .ok device) (hblank : Blank file)
    (hbytes : info.size * info.lbaSize < 2 ^ 64)
    (hvalid : Run.Along (exec dev) Valid (new device) commands) :
    Run.Along (exec dev) (Intact dev) (new device) commands ↔
      Run.Along (exec dev) Respects (new device) commands := by
  refine hvalid.iff (I := Sound) (new_sound hopen hblank hbytes) (fun s c hs hc _ => ?_)
    fun s c hs hc => (hs.exec dev hc).2
  obtain ⟨s', hok, hs'⟩ := (hs.exec dev hc).1
  rw [hok]
  exact hs'

/-- The image is in memory. -/
def inMemory : ImageConfig := ⟨"", false, true⟩

/-- Blocks of 512 bytes on the whole of a small device. -/
def blocks512 : Information := ⟨8192, 8192, 4194304, 0, 0, 0, 0, 512, ⟨0, 1024⟩⟩

/-- The namespace with the image just opened. -/
def opened : ImageNamespace where
  ns := .new 1 blocks512
  pDisk := some (.mem (MemDisk.openFile 4194304 512))

theorem opened_eq : setData inMemory none 1 blocks512 = .ok opened := rfl

/-- A block of ones. -/
def ones : List UInt8 := List.replicate 512 1

def formatCommand : SQEntryWrapper := Subsystem.adminCommand 0x80 1 0

/-- A block is written, read and compared; after a format it is read as zeros. -/
def rewritten : List Command :=
  [.write 0 (Transfer.command 0) ones .dma, .read 1 (Transfer.command 0) .backend,
    .compare 2 (Transfer.command 0) ones .dma, .format 3 formatCommand,
    .read 4 (Transfer.command 0) .dma]

theorem run_intact_iff_rewritten :
    Run.Along (exec Subsystem.smallDevice) (Intact Subsystem.smallDevice) (new opened) rewritten ↔
      Run.Along (exec Subsystem.smallDevice) Respects (new opened) rewritten :=
  run_intact_iff opened_eq blank_none (by decide) (by decide +kernel)

/-- After a format a block is written and read. -/
def lost : List Command :=
  [.format 0 formatCommand, .write 1 (Transfer.command 0) ones .dma,
    .read 2 (Transfer.command 0) .dma]

/-- The read succeeds, and gives zeros. -/
theorem not_intact_lost :
    Run.Along (exec Subsystem.smallDevice) Valid (new opened) lost ∧
      ¬ Run.Along (exec Subsystem.smallDevice) (Intact Subsystem.smallDevice)
        (new opened) lost := by
  refine ⟨by decide +kernel, ?_⟩
  rintro ⟨-, h⟩
  obtain ⟨-, h⟩ := h
  obtain ⟨⟨r, a, hexec, hdata⟩, -⟩ := h
  cases hexec
  exact absurd (hdata rfl) (by decide +kernel)

end Session

end SimpleSSD.HIL.NVMe
