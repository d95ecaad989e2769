import SimpleSSD.HIL.Ranges
import SimpleSSD.HIL.SATA.HBA

/-!
# ATA commands that name blocks (hil/sata/device.cc)

Reads, writes and their queued forms compare their range with nothing. A verification compares the
number of pages that it touches with the number that the device has, wherever it begins. The
capacity that IDENTIFY DEVICE reports is rounded before it is multiplied.

An outcome is what is left when the DMA is over, if it ever is: the status of the FIS that ends the
command, and what the backend was asked for. The other commands, and the data that is moved, are
left out.
-/

namespace SimpleSSD.HIL.SATA

/-- `ATA_ABORTED`, in the error field of a FIS. -/
def ATA_ABORTED : UInt8 := 0x04

/-- What the device takes from the HIL and the configuration. -/
structure Geometry where
  totalLogicalPages : UInt64
  logicalPageSize : UInt32
  lbaSize : UInt32
  deriving DecidableEq, Repr

/-- The logical blocks of the device. -/
def Geometry.capacity (g : Geometry) : Nat :=
  capacityOf g.totalLogicalPages g.logicalPageSize g.lbaSize.toNat

/-- `RegisterH2D`, the fields that name a command and its blocks. -/
structure RegisterH2D where
  command : UInt8
  featureL : UInt8
  lbaL : Vector UInt8 3
  lbaH : Vector UInt8 3
  featureH : UInt8
  countL : UInt8
  countH : UInt8
  deriving DecidableEq, Repr

/-- `RegisterD2H`, the fields that say how a command has ended. -/
structure RegisterD2H where
  status : UInt8 := 0
  error : UInt8 := 0
  deriving DecidableEq, Repr

/-- A command that ends with the FIS. -/
def RegisterD2H.result (fis : RegisterD2H) (accesses : List BackendAccess) : CommandResult :=
  ⟨fis.status &&& ATA_ERR != 0, accesses⟩

/-! ### Ranges -/

/-- `MAKE_LBA`. -/
def makeLba (req : RegisterH2D) : UInt64 :=
  req.lbaL[0].toUInt64 ||| req.lbaL[1].toUInt64 <<< 8 ||| req.lbaL[2].toUInt64 <<< 16

/-- `MAKE_LBA_EXT`. -/
def makeLbaExt (req : RegisterH2D) : UInt64 :=
  req.lbaH[0].toUInt64 <<< 24 ||| req.lbaH[1].toUInt64 <<< 32 ||| req.lbaH[2].toUInt64 <<< 40 |||
    makeLba req

def makeCount (req : RegisterH2D) : UInt32 :=
  let count := req.countL.toUInt32
  if count = 0 then 0x100 else count

def makeCountExt (req : RegisterH2D) : UInt32 :=
  let count := (req.countH.toUInt16 <<< 8 ||| req.countL.toUInt16).toUInt32
  if count = 0 then 0x10000 else count

/-- `nlb` of the queued commands. -/
def makeCountNCQ (req : RegisterH2D) : UInt32 :=
  let nlb := req.featureL.toUInt32 ||| req.featureH.toUInt32 <<< 8
  if nlb = 0 then 0x10000 else nlb

/-! ### Commands -/

/-- `OPCODE`, the commands that name blocks. -/
inductive Opcode where
  | readDMA | readDMAExt | readFPDMAQueued | readSector | readSectorExt
  | readVerifySector | readVerifySectorExt
  | writeDMA | writeDMAExt | writeFPDMAQueued | writeSector | writeSectorExt
  deriving DecidableEq, Repr

namespace Opcode

def code : Opcode → UInt8
  | readDMA => 0xC8
  | readDMAExt => 0x25
  | readFPDMAQueued => 0x60
  | readSector => 0x20
  | readSectorExt => 0x24
  | readVerifySector => 0x40
  | readVerifySectorExt => 0x42
  | writeDMA => 0xCA
  | writeDMAExt => 0x35
  | writeFPDMAQueued => 0x61
  | writeSector => 0x30
  | writeSectorExt => 0x34

def all : List Opcode :=
  [readDMA, readDMAExt, readFPDMAQueued, readSector, readSectorExt, readVerifySector,
    readVerifySectorExt, writeDMA, writeDMAExt, writeFPDMAQueued, writeSector, writeSectorExt]

def ofCode (command : UInt8) : Option Opcode := all.find? fun op => op.code = command

def kind : Opcode → AccessKind
  | readDMA | readDMAExt | readFPDMAQueued | readSector | readSectorExt => .read
  | readVerifySector | readVerifySectorExt => .verify
  | writeDMA | writeDMAExt | writeFPDMAQueued | writeSector | writeSectorExt => .write

/-- The first block and the number of blocks that a command names. -/
def range (req : RegisterH2D) : Opcode → UInt64 × UInt32
  | readDMA | readSector | readVerifySector | writeDMA | writeSector => (makeLba req, makeCount req)
  | readDMAExt | readSectorExt | readVerifySectorExt | writeDMAExt | writeSectorExt =>
    (makeLbaExt req, makeCountExt req)
  | readFPDMAQueued | writeFPDMAQueued => (makeLbaExt req, makeCountNCQ req)

end Opcode

section Handlers

variable (g : Geometry) (prdtLength : Nat) (req : RegisterH2D)

/-- `Device::read` or `Device::write`, the DMA, and the FIS without an error that ends the
command. -/
def transfer (kind : AccessKind) (slba : UInt64) (nlb : UInt32) : Except Fault CommandResult := do
  let access ← transferBlocks prdtLength g.logicalPageSize g.lbaSize.toUInt64 kind slba nlb.toUInt64
  .ok (RegisterD2H.result {} [access])

/-- `readVerify` (device.cc:536–569). -/
def readVerify : Except Fault CommandResult := do
  let (slba, nlb) :=
    if req.command = Opcode.readVerifySector.code then (makeLba req, makeCount req)
    else (makeLbaExt req, makeCountExt req)
  let reqInternal ← convertUnit g.logicalPageSize g.lbaSize.toUInt64 slba nlb.toUInt64
  let fis : RegisterD2H :=
    if g.totalLogicalPages ≤ reqInternal.nlp then { status := ATA_ERR, error := ATA_ABORTED }
    else {}
  .ok (fis.result [])

/-- `readDMA` (device.cc:571–638). -/
def readDMA : Except Fault CommandResult :=
  let (slba, nlb) :=
    if req.command = Opcode.readSector.code ∨ req.command = Opcode.readDMA.code then
      (makeLba req, makeCount req)
    else (makeLbaExt req, makeCountExt req)
  transfer g prdtLength .read slba nlb

/-- `readNCQ` (device.cc:640–678) and `_readDMASetup`. -/
def readNCQ : Except Fault CommandResult :=
  transfer g prdtLength .read (makeLbaExt req) (makeCountNCQ req)

/-- `writeDMA` (device.cc:680–747). -/
def writeDMA : Except Fault CommandResult :=
  let (slba, nlb) :=
    if req.command = Opcode.writeSector.code ∨ req.command = Opcode.writeDMA.code then
      (makeLba req, makeCount req)
    else (makeLbaExt req, makeCountExt req)
  transfer g prdtLength .write slba nlb

/-- `writeNCQ` (device.cc:749–795), `_writeDMASetup` and `_writeDMADone`. -/
def writeNCQ : Except Fault CommandResult :=
  transfer g prdtLength .write (makeLbaExt req) (makeCountNCQ req)

/-- The branch of `submitCommand` (device.cc:825–887) for the command. -/
def Opcode.handle : Opcode → Except Fault CommandResult
  | .readDMA | .readDMAExt | .readSector | .readSectorExt => SATA.readDMA g prdtLength req
  | .readFPDMAQueued => readNCQ g prdtLength req
  | .readVerifySector | .readVerifySectorExt => readVerify g req
  | .writeDMA | .writeDMAExt | .writeSector | .writeSectorExt => SATA.writeDMA g prdtLength req
  | .writeFPDMAQueued => writeNCQ g prdtLength req

/-- `identifyDevice` (device.cc:398–489): the words from `ATA_ID_LBA_CAPACITY` on, and those from
`ATA_ID_LBA_CAPACITY_2` on. -/
def identifyDevice : Except Fault (UInt32 × UInt64) :=
  if g.lbaSize = 0 then .error (.badAccess "division by zero")
  else
    let sectors := g.totalLogicalPages / g.lbaSize.toUInt64 * g.logicalPageSize.toUInt64
    .ok (if sectors < 0x0FFFFFFF then sectors.toUInt32 else 0x0FFFFFFF, sectors)

/-! ### What the device enforces -/

/-- The device enforces its capacity on the command, if it is one that names blocks. -/
def Enforces : Prop :=
  ∀ op ∈ Opcode.ofCode req.command,
    Enforced g.capacity op.kind (op.range req).1.toNat (op.range req).2.toNat
      (op.handle g prdtLength req)

/-- The logical pages that blocks touch. -/
def Geometry.pages (slba nlb : Nat) : Nat :=
  let lbaratio := g.logicalPageSize.toNat / g.lbaSize.toNat
  (nlb + slba % lbaratio + lbaratio - 1) / lbaratio

/-- Blocks fit pages, and a transfer stays in the capacity and its DMA ends; a verification
touches all pages of the device, or more, iff it does not stay in the capacity. -/
def WithinCapacity : Prop :=
  ∀ op ∈ Opcode.ofCode req.command,
    (0 < g.lbaSize.toNat ∧ g.lbaSize.toNat ≤ g.logicalPageSize.toNat) ∧
      if op.kind = .verify then
        g.totalLogicalPages.toNat ≤ g.pages (op.range req).1.toNat (op.range req).2.toNat ↔
          g.capacity < (op.range req).1.toNat + (op.range req).2.toNat
      else (op.range req).1.toNat + (op.range req).2.toNat ≤ g.capacity ∧
        DMAEnds prdtLength ((op.range req).2.toNat * g.lbaSize.toNat)

/-- IDENTIFY DEVICE reports the capacity: in the words for 48-bit commands, and in those for 28-bit
commands up to what they can address. -/
def ReportsCapacity : Prop :=
  ∃ words, identifyDevice g = .ok words ∧ words.2.toNat = g.capacity ∧
    words.1.toNat = min g.capacity 0x0FFFFFFF

end Handlers

/-! ### Decoding -/

theorem Opcode.code_of_mem {op : Opcode} {command : UInt8} (h : op ∈ ofCode command) :
    command = op.code := by
  have hfind : all.find? (fun op => op.code = command) = some op := h
  have := List.find?_some hfind
  exact (of_decide_eq_true this).symm

section Counts

variable (req : RegisterH2D)

/-- A count of zero stands for the greatest number of blocks. -/
theorem count_pos {count greatest : UInt32} (h : 0 < greatest.toNat) :
    0 < (if count = 0 then greatest else count).toNat := by
  by_cases hzero : count = 0
  · rw [if_pos hzero]
    exact h
  · rw [if_neg hzero]
    exact Nat.pos_of_ne_zero fun h => hzero (UInt32.toNat_inj.mp h)

theorem Opcode.range_pos (op : Opcode) : 0 < (op.range req).2.toNat := by
  cases op with
  | readDMA | readSector | readVerifySector | writeDMA | writeSector =>
    exact @count_pos req.countL.toUInt32 0x100 (by decide)
  | readDMAExt | readSectorExt | readVerifySectorExt | writeDMAExt | writeSectorExt =>
    exact @count_pos (req.countH.toUInt16 <<< 8 ||| req.countL.toUInt16).toUInt32 0x10000
      (by decide)
  | readFPDMAQueued | writeFPDMAQueued =>
    exact @count_pos (req.featureL.toUInt32 ||| req.featureH.toUInt32 <<< 8) 0x10000 (by decide)

end Counts

/-! ### Commands -/

section Commands

variable {g : Geometry} {prdtLength : Nat} {req : RegisterH2D} {op : Opcode}

/-- Every read and write has its range transferred. -/
theorem handle_transfer (hop : op ∈ Opcode.ofCode req.command) (hkind : op.kind ≠ .verify) :
    op.handle g prdtLength req = transfer g prdtLength op.kind (op.range req).1
      (op.range req).2 := by
  have hcode := Opcode.code_of_mem hop
  cases op with
  | readVerifySector | readVerifySectorExt => exact absurd rfl hkind
  | readFPDMAQueued | writeFPDMAQueued => rfl
  | readDMA | readDMAExt | readSector | readSectorExt =>
    show readDMA g prdtLength req = _
    unfold readDMA
    rw [hcode]
    rfl
  | writeDMA | writeDMAExt | writeSector | writeSectorExt =>
    show writeDMA g prdtLength req = _
    unfold writeDMA
    rw [hcode]
    rfl

/-- A verification fails iff it touches as many pages as there are. -/
theorem handle_verify (hop : op ∈ Opcode.ofCode req.command) (hkind : op.kind = .verify) :
    op.handle g prdtLength req = (do
      let reqInternal ← convertUnit g.logicalPageSize g.lbaSize.toUInt64 (op.range req).1
        (op.range req).2.toUInt64
      .ok ⟨g.totalLogicalPages ≤ reqInternal.nlp, []⟩) := by
  have hcode := Opcode.code_of_mem hop
  have hfis : ∀ p : Prop, [Decidable p] →
      ((if p then { status := ATA_ERR, error := ATA_ABORTED } else {} : RegisterD2H).result []) =
        ⟨p, []⟩ := by
    intro p hp
    unfold RegisterD2H.result
    by_cases h : p
    · simp only [h, if_true]
      rfl
    · simp only [h, if_false]
      rfl
  cases op with
  | readVerifySector | readVerifySectorExt =>
    show readVerify g req = _
    unfold readVerify
    rw [hcode]
    simp only [hfis]
    rfl
  | readDMA | readDMAExt | readFPDMAQueued | readSector | readSectorExt | writeDMA | writeDMAExt
  | writeFPDMAQueued | writeSector | writeSectorExt => cases hkind

/-- The device enforces its capacity on a command iff the command keeps to it. -/
theorem enforces_iff_withinCapacity (g : Geometry) (prdtLength : Nat) (req : RegisterH2D) :
    Enforces g prdtLength req ↔ WithinCapacity g prdtLength req := by
  unfold Enforces WithinCapacity
  refine forall₂_congr fun op hop => ?_
  have hlba : g.lbaSize.toUInt64.toNat = g.lbaSize.toNat := UInt32.toNat_toUInt64 _
  have hnlb : (op.range req).2.toUInt64.toNat = (op.range req).2.toNat := UInt32.toNat_toUInt64 _
  have hpos := op.range_pos req
  by_cases hkind : op.kind = .verify
  · rw [if_pos hkind, handle_verify hop hkind, hkind]
    have hok := @convertUnit_ok_iff g.logicalPageSize g.lbaSize.toUInt64 (op.range req).1
      (op.range req).2.toUInt64
    rw [hlba] at hok
    rw [← hok]
    cases hconvert : convertUnit g.logicalPageSize g.lbaSize.toUInt64 (op.range req).1
      (op.range req).2.toUInt64 with
    | error e => exact ⟨False.elim, fun ⟨⟨_, h⟩, _⟩ => by cases h⟩
    | ok reqInternal =>
      have hnlp := convertUnit_nlp (by
        rw [hnlb]
        exact (UInt32.toNat_lt _).trans (by decide)) hconvert
      rw [hlba, hnlb] at hnlp
      have hpages : g.totalLogicalPages ≤ reqInternal.nlp ↔ g.totalLogicalPages.toNat ≤
          g.pages (op.range req).1.toNat (op.range req).2.toNat := by
        rw [UInt64.le_iff_toNat_le, hnlp]
        rfl
      rw [← hpages]
      refine Iff.trans enforced_verify_iff ?_
      rw [decide_eq_true_iff]
      exact ⟨fun h => ⟨⟨_, rfl⟩, h⟩, fun h => h.2⟩
  · rw [if_neg hkind, handle_transfer hop hkind, ← hnlb]
    have hunchecked := @enforced_unchecked_iff g.logicalPageSize g.lbaSize.toUInt64
      (op.range req).1 (op.range req).2.toUInt64 op.kind g.capacity prdtLength hkind (by
        rw [hnlb]
        exact hpos)
    rw [hlba] at hunchecked
    exact hunchecked.trans and_left_comm

/-! ### The reported capacity -/

/-- The quotient that is rounded before it is multiplied loses nothing iff the rest of the pages is
less than a block. -/
theorem div_mul_eq_iff {pages size lba : Nat} (hlba : 0 < lba) :
    pages / lba * size = pages * size / lba ↔ pages % lba * size < lba := by
  have hsplit : pages * size / lba = pages / lba * size + pages % lba * size / lba := by
    have hpages : pages * size = lba * (pages / lba * size) + pages % lba * size := by
      calc pages * size = (lba * (pages / lba) + pages % lba) * size := by
            rw [Nat.div_add_mod]
        _ = lba * (pages / lba * size) + pages % lba * size := by
            rw [Nat.add_mul, Nat.mul_assoc]
    rw [hpages, Nat.mul_add_div hlba]
  rw [hsplit, ← Nat.div_eq_zero_iff_lt hlba]
  omega

/-- The capacity is reported iff it is a number of 64 bits, and the rest of the pages, once blocks
are counted in whole groups of pages, is less than a block. -/
theorem reportsCapacity_iff (g : Geometry) :
    ReportsCapacity g ↔ 0 < g.lbaSize.toNat ∧ g.capacity < 2 ^ 64 ∧
      g.totalLogicalPages.toNat % g.lbaSize.toNat * g.logicalPageSize.toNat < g.lbaSize.toNat := by
  unfold ReportsCapacity identifyDevice
  by_cases hlba : g.lbaSize = 0
  · rw [if_pos hlba]
    refine ⟨fun ⟨_, h, _⟩ => (by cases h), fun ⟨hpos, _⟩ => ?_⟩
    rw [hlba] at hpos
    exact absurd hpos (Nat.lt_irrefl 0)
  · have hpos : 0 < g.lbaSize.toNat := Nat.pos_of_ne_zero fun h => hlba (UInt32.toNat_inj.mp h)
    have hsectors : (g.totalLogicalPages / g.lbaSize.toUInt64 * g.logicalPageSize.toUInt64).toNat =
        g.totalLogicalPages.toNat / g.lbaSize.toNat * g.logicalPageSize.toNat % 2 ^ 64 := by
      rw [UInt64.toNat_mul, UInt64.toNat_div, UInt32.toNat_toUInt64, UInt32.toNat_toUInt64]
    -- the words for 28-bit commands follow the others
    have hwords : ∀ sectors : UInt64,
        (if sectors < 0x0FFFFFFF then sectors.toUInt32 else 0x0FFFFFFF : UInt32).toNat =
          min sectors.toNat 0x0FFFFFFF := by
      intro sectors
      have hconst : (0x0FFFFFFF : UInt64).toNat = 0x0FFFFFFF := rfl
      split
      · next hlt =>
        have := UInt64.lt_iff_toNat_lt.mp hlt
        rw [UInt64.toNat_toUInt32, Nat.mod_eq_of_lt (by omega)]
        omega
      · next hge =>
        rw [UInt64.lt_iff_toNat_lt] at hge
        show 0x0FFFFFFF = _
        omega
    have hle :
        g.totalLogicalPages.toNat / g.lbaSize.toNat * g.logicalPageSize.toNat ≤ g.capacity := by
      unfold Geometry.capacity capacityOf
      rw [Nat.le_div_iff_mul_le hpos, Nat.mul_right_comm]
      exact Nat.mul_le_mul_right _ (Nat.div_mul_le_self ..)
    rw [if_neg hlba, ← div_mul_eq_iff hpos]
    constructor
    · rintro ⟨words, hwords, hcapacity, -⟩
      cases hwords
      rw [hsectors] at hcapacity
      have hlt : g.capacity < 2 ^ 64 := by
        rw [← hcapacity]
        exact Nat.mod_lt _ (by decide)
      rw [Nat.mod_eq_of_lt (hle.trans_lt hlt)] at hcapacity
      exact ⟨hpos, hlt, hcapacity⟩
    · rintro ⟨-, hlt, heq⟩
      have hcapacity : (g.totalLogicalPages / g.lbaSize.toUInt64 *
          g.logicalPageSize.toUInt64).toNat = g.capacity := by
        rw [hsectors, Nat.mod_eq_of_lt (hle.trans_lt hlt)]
        exact heq
      exact ⟨_, rfl, hcapacity, by rw [hwords, hcapacity]⟩

end Commands

end SimpleSSD.HIL.SATA
