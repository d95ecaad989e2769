import SimpleSSD.HIL.SATA.Device
import SimpleSSD.HIL.UFS.Device

/-!
# SCSI commands that name blocks, and range checks (hil/ufs/device.cc)

READ and WRITE compare their range with nothing, and do nothing for no blocks. VERIFY compares
blocks with bytes, after an addition of 32 bits; where it finds a range too long it fills in sense
data, but the status that it sets is that of a command without an error. READ CAPACITY reports the
last block, in 32 or in 64 bits.

For both devices, `rangeChecks_iff` says which commands are treated as the capacity asks for, and
which capacities are reported.
-/

namespace SimpleSSD.HIL

namespace UFS

open Buffer

/-- What the device takes from the HIL and the configuration. -/
structure Geometry where
  totalLogicalPages : UInt64
  logicalPageSize : UInt32
  lbaSize : UInt64
  deriving DecidableEq, Repr

/-- The logical blocks of the device. -/
def Geometry.capacity (g : Geometry) : Nat :=
  capacityOf g.totalLogicalPages g.logicalPageSize g.lbaSize.toNat

/-- `slba` of the six-byte commands. -/
def UPIUCommand.slba6 (req : UPIUCommand) : UInt32 :=
  ((req.cdbAt 1).toUInt64 &&& 0x1F) <<< 16 ||| (req.cdbAt 2).toUInt64 <<< 8 |||
    (req.cdbAt 3).toUInt64 |>.toUInt32

/-- `slba` of the ten-byte commands. -/
def UPIUCommand.slba10 (req : UPIUCommand) : UInt32 :=
  (req.cdbAt 2).toUInt32 <<< 24 ||| (req.cdbAt 3).toUInt32 <<< 16 |||
    (req.cdbAt 4).toUInt32 <<< 8 ||| (req.cdbAt 5).toUInt32

/-- The SCSI commands that name blocks. -/
inductive BlockCommand where
  | read6 | read10 | verify10 | write6 | write10
  deriving DecidableEq, Repr

namespace BlockCommand

def code : BlockCommand → UInt8
  | read6 => 0x08
  | read10 => 0x28
  | verify10 => 0x2F
  | write6 => 0x0A
  | write10 => 0x2A

def ofCode (opcode : UInt8) : Option BlockCommand :=
  [read6, read10, verify10, write6, write10].find? fun c => c.code = opcode

def kind : BlockCommand → AccessKind
  | read6 | read10 => .read
  | verify10 => .verify
  | write6 | write10 => .write

/-- The first block and the number of blocks that a command names. -/
def range (req : UPIUCommand) : BlockCommand → UInt32 × Nat
  | read6 | write6 => (req.slba6, req.nlb6)
  | read10 | verify10 | write10 => (req.slba10, req.nlb10)

end BlockCommand

section Handlers

variable (g : Geometry) (prdtLength : Nat) (req : UPIUCommand)

/-- The response to a VERIFY that ends behind the device (device.cc:615–624). -/
def checkCondition (resp : UPIUResponse) : UPIUResponse :=
  { resp with
    header := { resp.header with status := 0x0, dataSegmentLength := 20 }
    senseLength := 18
    senseData := ⟨((resp.senseData.1.set 0 0x70).set 2 0x05).set 7 0x0A, by
      rw [List.length_set, List.length_set, List.length_set]
      exact resp.senseData.2⟩ }

/-- A transfer of blocks, if there are any. -/
def transfer (kind : AccessKind) (slba : UInt32) (nlb : Nat) (resp : UPIUResponse) :
    Except Fault (UPIUResponse × List BackendAccess) :=
  if 0 < nlb then do
    let access ←
      transferBlocks prdtLength g.logicalPageSize g.lbaSize kind slba.toUInt64 (UInt64.ofNat nlb)
    .ok (resp, [access])
  else .ok (resp, [])

/-- `processCommand` (device.cc:397–804) for a command that names blocks. -/
def BlockCommand.process (resp : UPIUResponse) :
    BlockCommand → Except Fault (UPIUResponse × List BackendAccess) :=
  let resp := { resp with header := { resp.header with lun := req.header.lun } }
  fun
  | .read6 => transfer g prdtLength .read req.slba6 req.nlb6 resp
  | .read10 => transfer g prdtLength .read req.slba10 req.nlb10 resp
  | .verify10 =>
    let slba := req.slba10
    let nlb := UInt32.ofNat req.nlb10
    if g.totalLogicalPages * g.logicalPageSize.toUInt64 < (slba + nlb).toUInt64 then
      .ok (checkCondition resp, [])
    else .ok (resp, [])
  | .write6 => transfer g prdtLength .write req.slba6 req.nlb6 resp
  | .write10 => transfer g prdtLength .write req.slba10 req.nlb10 resp

/-- What the command comes to, as the host sees it. -/
def BlockCommand.result (c : BlockCommand) : Except Fault CommandResult := do
  let (resp, accesses) ← c.process g prdtLength req .new
  .ok ⟨resp.header.status != 0, accesses⟩

/-- READ CAPACITY (10): the last block and the size of a block (device.cc:532–547). -/
def readCapacity10 : Except Fault (UInt32 × UInt32) :=
  if g.lbaSize = 0 then .error (.badAccess "division by zero")
  else
    .ok ((g.totalLogicalPages * g.logicalPageSize.toUInt64 / g.lbaSize - 1).toUInt32,
      g.lbaSize.toUInt32)

/-- READ CAPACITY (16) (device.cc:548–563). -/
def readCapacity16 : Except Fault (UInt64 × UInt32) :=
  if g.lbaSize = 0 then .error (.badAccess "division by zero")
  else
    .ok (g.totalLogicalPages * g.logicalPageSize.toUInt64 / g.lbaSize - 1, g.lbaSize.toUInt32)

/-! ### What the device enforces -/

/-- The device enforces its capacity on the command, if it is one that names blocks. -/
def Enforces : Prop :=
  ∀ c ∈ BlockCommand.ofCode (req.cdbAt 0),
    Enforced g.capacity c.kind (c.range req).1.toNat (c.range req).2 (c.result g prdtLength req)

/-- The blocks are all in the capacity; and where some are transferred, blocks fit pages and the
DMA ends. -/
def WithinCapacity : Prop :=
  ∀ c ∈ BlockCommand.ofCode (req.cdbAt 0),
    (c.range req).1.toNat + (c.range req).2 ≤ g.capacity ∧
      (c.kind ≠ .verify → 0 < (c.range req).2 →
        (0 < g.lbaSize.toNat ∧ g.lbaSize.toNat ≤ g.logicalPageSize.toNat) ∧
          DMAEnds prdtLength ((c.range req).2 * g.lbaSize.toNat))

/-- READ CAPACITY reports the capacity, in both forms: it is one more than the last block. -/
def ReportsCapacity : Prop :=
  ∃ ten sixteen, readCapacity10 g = .ok ten ∧ readCapacity16 g = .ok sixteen ∧
    ten.1.toNat + 1 = g.capacity ∧ sixteen.1.toNat + 1 = g.capacity

end Handlers

/-! ### Commands -/

section Commands

variable {g : Geometry} {prdtLength : Nat} {req : UPIUCommand} {resp : UPIUResponse}

theorem nlb6_lt (req : UPIUCommand) : req.nlb6 < 2 ^ 16 := by
  unfold UPIUCommand.nlb6
  split
  · decide
  · exact (UInt8.toNat_lt _).trans (by decide)

theorem nlb10_lt (req : UPIUCommand) : req.nlb10 < 2 ^ 16 := UInt16.toNat_lt _

/-- A transfer leaves the status as it is, and is right about the blocks of the device. -/
theorem enforced_transfer_iff {kind : AccessKind} {slba : UInt32} {nlb : Nat}
    (hkind : kind ≠ .verify) (hnlb : nlb < 2 ^ 16) (hstatus : resp.header.status = 0) :
    Enforced g.capacity kind slba.toNat nlb (do
        let (resp, accesses) ← transfer g prdtLength kind slba nlb resp
        .ok ⟨resp.header.status != 0, accesses⟩) ↔
      slba.toNat + nlb ≤ g.capacity ∧
        (0 < nlb → (0 < g.lbaSize.toNat ∧ g.lbaSize.toNat ≤ g.logicalPageSize.toNat) ∧
          DMAEnds prdtLength (nlb * g.lbaSize.toNat)) := by
  have hslba : slba.toUInt64.toNat = slba.toNat := UInt32.toNat_toUInt64 _
  have hofNat : (UInt64.ofNat nlb).toNat = nlb := UInt64.toNat_ofNat_of_lt (hnlb.trans (by decide))
  unfold transfer
  by_cases hpos : 0 < nlb
  · have hunchecked := @enforced_unchecked_iff g.logicalPageSize g.lbaSize slba.toUInt64
      (UInt64.ofNat nlb) kind g.capacity prdtLength hkind (by rw [hofNat]; exact hpos)
    rw [hslba, hofNat] at hunchecked
    rw [if_pos hpos, bind_assoc]
    refine Iff.trans (Eq.to_iff ?_) (hunchecked.trans ⟨fun h => ⟨h.1, fun _ => h.2⟩, fun h =>
      ⟨h.1, h.2 hpos⟩⟩)
    congr 2
    funext access
    show Except.ok (CommandResult.mk (resp.header.status != 0) [access]) = _
    rw [hstatus]
    rfl
  · -- no blocks: nothing is accessed, and nothing is refused
    have hcarried : Carried kind slba.toNat nlb [] := by
      unfold Carried
      rw [if_pos (.inr (Nat.eq_zero_of_not_pos hpos))]
      rfl
    rw [if_neg hpos, Except.ok_bind]
    show Enforced _ _ _ _ (.ok ⟨resp.header.status != 0, []⟩) ↔ _
    rw [hstatus]
    constructor
    · rintro ⟨hiff, -⟩
      exact ⟨hiff.mp ⟨rfl, hcarried⟩, fun h => absurd h hpos⟩
    · rintro ⟨hle, -⟩
      exact ⟨⟨fun _ => hle, fun _ => ⟨rfl, hcarried⟩⟩, fun hlt => absurd hle (by omega)⟩

/-- A VERIFY always ends with the status of a command without an error. -/
theorem result_verify10 (g : Geometry) (prdtLength : Nat) (req : UPIUCommand) :
    BlockCommand.verify10.result g prdtLength req = .ok ⟨false, []⟩ := by
  unfold BlockCommand.result BlockCommand.process
  dsimp only
  split <;> rfl

/-- The device enforces its capacity on a command iff the command keeps to it. -/
theorem enforces_iff_withinCapacity (g : Geometry) (prdtLength : Nat) (req : UPIUCommand) :
    Enforces g prdtLength req ↔ WithinCapacity g prdtLength req := by
  unfold Enforces WithinCapacity
  refine forall₂_congr fun c _ => ?_
  have htransfer : c.kind ≠ .verify →
      c.result g prdtLength req = (do
        let (resp, accesses) ← transfer g prdtLength c.kind (c.range req).1 (c.range req).2
          { UPIUResponse.new with header := { UPIUHeader.new with lun := req.header.lun } }
        .ok ⟨resp.header.status != 0, accesses⟩) := by
    intro hkind
    cases c with
    | verify10 => exact absurd rfl hkind
    | read6 | read10 | write6 | write10 => rfl
  have hnlb : (c.range req).2 < 2 ^ 16 := by
    cases c with
    | read6 | write6 => exact nlb6_lt req
    | read10 | verify10 | write10 => exact nlb10_lt req
  by_cases hkind : c.kind = .verify
  · have hc : c = .verify10 := by
      cases c with
      | verify10 => rfl
      | read6 | read10 | write6 | write10 => cases hkind
    subst hc
    rw [result_verify10]
    refine enforced_verify_iff.trans ?_
    constructor
    · intro h
      refine ⟨Nat.le_of_not_lt fun hlt => ?_, fun h => absurd rfl h⟩
      cases h.mpr hlt
    · rintro ⟨hle, -⟩
      exact ⟨fun h => (by cases h), fun hlt => absurd hle (by omega)⟩
  · rw [htransfer hkind, enforced_transfer_iff hkind hnlb rfl]
    exact ⟨fun h => ⟨h.1, fun _ => h.2⟩, fun h => ⟨h.1, h.2 hkind⟩⟩

/-! ### The reported capacity -/

/-- Both forms are right iff there are blocks, at most as many as 32 bits can number, and their
bytes are a number of 64 bits. -/
theorem reportsCapacity_iff (g : Geometry) :
    ReportsCapacity g ↔ (0 < g.capacity ∧ g.capacity ≤ 2 ^ 32) ∧
      g.totalLogicalPages.toNat * g.logicalPageSize.toNat < 2 ^ 64 := by
  have hquotient : (g.totalLogicalPages * g.logicalPageSize.toUInt64 / g.lbaSize).toNat =
      g.totalLogicalPages.toNat * g.logicalPageSize.toNat % 2 ^ 64 / g.lbaSize.toNat := by
    rw [UInt64.toNat_div, UInt64.toNat_mul, UInt32.toNat_toUInt64]
  have hlba_lt := g.lbaSize.toNat_lt
  unfold ReportsCapacity readCapacity10 readCapacity16
  by_cases hlba : g.lbaSize = 0
  · have hcapacity : g.capacity = 0 := by
      unfold Geometry.capacity capacityOf
      rw [hlba]
      exact Nat.div_zero _
    rw [if_pos hlba]
    refine ⟨fun ⟨_, _, h, _⟩ => (by cases h), fun ⟨⟨hpos, _⟩, _⟩ => ?_⟩
    omega
  · have hpos : 0 < g.lbaSize.toNat := Nat.pos_of_ne_zero fun h => hlba (UInt64.toNat_inj.mp h)
    rw [if_neg hlba, if_neg hlba]
    constructor
    · rintro ⟨ten, sixteen, hten, hsixteen, hten_capacity, hsixteen_capacity⟩
      cases hten
      cases hsixteen
      have hle : g.capacity ≤ 2 ^ 32 := by
        rw [← hten_capacity]
        exact UInt32.toNat_lt _
      refine ⟨⟨by omega, hle⟩, Nat.lt_of_not_le fun hge => ?_⟩
      -- a product that has wrapped around is short of at least one block
      have hless : g.totalLogicalPages.toNat * g.logicalPageSize.toNat % 2 ^ 64 / g.lbaSize.toNat +
          1 ≤ g.capacity := by
        have hmod : g.totalLogicalPages.toNat * g.logicalPageSize.toNat % 2 ^ 64 + g.lbaSize.toNat ≤
            g.totalLogicalPages.toNat * g.logicalPageSize.toNat := by
          have := Nat.div_add_mod (g.totalLogicalPages.toNat * g.logicalPageSize.toNat) (2 ^ 64)
          have := Nat.div_pos hge (by decide)
          omega
        have := Nat.div_le_div_right (c := g.lbaSize.toNat) hmod
        rwa [Nat.add_div_right _ hpos] at this
      rw [← hquotient] at hless
      have hsub := UInt64.toNat_sub (g.totalLogicalPages * g.logicalPageSize.toUInt64 / g.lbaSize) 1
      dsimp only at hsixteen_capacity
      rw [hsub, show (1 : UInt64).toNat = 1 from rfl] at hsixteen_capacity
      omega
    · rintro ⟨⟨hcap, hle⟩, hlt⟩
      have hcapacity : (g.totalLogicalPages * g.logicalPageSize.toUInt64 / g.lbaSize).toNat =
          g.capacity := by
        rw [hquotient, Nat.mod_eq_of_lt hlt]
        rfl
      have hlast : (g.totalLogicalPages * g.logicalPageSize.toUInt64 / g.lbaSize - 1).toNat =
          g.capacity - 1 := by
        rw [UInt64.toNat_sub_of_le _ _ (by
          rw [UInt64.le_iff_toNat_le, hcapacity]
          exact hcap), hcapacity]
        rfl
      refine ⟨_, _, rfl, rfl, ?_, ?_⟩
      · dsimp only
        rw [UInt64.toNat_toUInt32, hlast, Nat.mod_eq_of_lt (by omega)]
        omega
      · dsimp only
        rw [hlast]
        omega

end Commands

end UFS

/-! ### The two devices -/

/-- Which commands are carried out or refused as the capacity asks for, and which capacities are
reported, on both devices. -/
theorem rangeChecks_iff (s : SATA.Geometry) (fis : SATA.RegisterH2D) (u : UFS.Geometry)
    (req : UFS.UPIUCommand) (prdtLength : Nat) :
    (SATA.Enforces s prdtLength fis ↔ SATA.WithinCapacity s prdtLength fis) ∧
      (UFS.Enforces u prdtLength req ↔ UFS.WithinCapacity u prdtLength req) ∧
      (SATA.ReportsCapacity s ↔ 0 < s.lbaSize.toNat ∧ s.capacity < 2 ^ 64 ∧
        s.totalLogicalPages.toNat % s.lbaSize.toNat * s.logicalPageSize.toNat < s.lbaSize.toNat) ∧
      (UFS.ReportsCapacity u ↔ (0 < u.capacity ∧ u.capacity ≤ 2 ^ 32) ∧
        u.totalLogicalPages.toNat * u.logicalPageSize.toNat < 2 ^ 64) :=
  ⟨SATA.enforces_iff_withinCapacity s prdtLength fis,
    UFS.enforces_iff_withinCapacity u prdtLength req,
    SATA.reportsCapacity_iff s, UFS.reportsCapacity_iff u⟩

/-- A READ DMA of the block behind a device of eight blocks is executed, a VERIFY (10) of it is not
refused, and of a device of 1000 pages IDENTIFY DEVICE reports 4096 blocks out of 8000. -/
theorem not_rangeChecks :
    ¬ SATA.Enforces ⟨1, 4096, 512⟩ 1 ⟨0xC8, 0, #v[8, 0, 0], #v[0, 0, 0], 0, 1, 0⟩ ∧
      ¬ UFS.Enforces ⟨1, 4096, 512⟩ 0
        ⟨.new, 0, ⟨[0x2F, 0, 0, 0, 0, 8, 0, 0, 1, 0, 0, 0, 0, 0, 0, 0],
        rfl⟩⟩ ∧
      ¬ SATA.ReportsCapacity ⟨1000, 4096, 512⟩ := by
  refine ⟨fun h => ?_, fun h => ?_, fun h => ?_⟩
  · have hread := h .readDMA rfl
    exact absurd (hread.2 (by decide)).1 (by decide)
  · have hverify := h .verify10 rfl
    exact absurd (hverify.2 (by decide)).1 (by decide)
  · obtain ⟨words, hwords, hcapacity, -⟩ := h
    cases hwords
    exact absurd hcapacity (by decide)

end SimpleSSD.HIL
