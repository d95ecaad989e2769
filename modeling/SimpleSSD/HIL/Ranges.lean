import SimpleSSD.Lib.Run
import SimpleSSD.Util.Def
import Mathlib.Tactic.Common

/-!
# Commands that name blocks (hil/sata/device.cc, hil/ufs/device.cc)

Both devices take a range of logical blocks apart in the same way and hand it to the disk image
and, in logical pages, to the HIL. `Enforced` says what a device that knows its capacity does with
such a command, whatever it computes on the way.
-/

namespace SimpleSSD.HIL

/-- What a command does with its blocks. -/
inductive AccessKind where
  | read | write | verify
  deriving DecidableEq, Repr

/-- The fields of `Request` that `convertUnit` sets. -/
structure UnitRequest where
  slpn : UInt64
  nlp : UInt64
  offset : UInt64
  length : UInt64
  deriving DecidableEq, Repr

/-- `lbaratio`, kept in a `uint32_t`. -/
def lbaratio (logicalPageSize : UInt32) (lbaSize : UInt64) : UInt64 :=
  (logicalPageSize.toUInt64 / lbaSize).toUInt32.toUInt64

/-- `convertUnit` (sata/device.cc:209–223, ufs/device.cc:878–893). -/
def convertUnit (logicalPageSize : UInt32) (lbaSize slba nlblk : UInt64) :
    Except Fault UnitRequest :=
  if lbaSize = 0 then .error (.badAccess "division by zero")
  else if lbaratio logicalPageSize lbaSize = 0 then .error (.badAccess "division by zero")
  else
    let lbaratio := lbaratio logicalPageSize lbaSize
    let slpn := slba / lbaratio
    let off := slba % lbaratio
    let nlp := (nlblk + off + lbaratio - 1) / lbaratio
    .ok ⟨slpn, nlp, off * lbaSize, nlblk * lbaSize⟩

/-- An access of the backend: the blocks of the disk image, and the request to the HIL. -/
structure BackendAccess where
  kind : AccessKind
  slba : UInt64
  nlb : UInt64
  req : UnitRequest
  deriving DecidableEq, Repr

/-- `Device::read` and `Device::write`. -/
def accessBlocks (logicalPageSize : UInt32) (lbaSize : UInt64) (kind : AccessKind)
    (slba nlb : UInt64) : Except Fault BackendAccess := do
  let req ← convertUnit logicalPageSize lbaSize slba nlb
  .ok ⟨kind, slba, nlb, req⟩

/-- The DMA of a transfer ends: there is no PRDT, or the length is not zero in 32 bits, as
a DMA request for no bytes is ignored. -/
def DMAEnds (prdtLength length : Nat) : Prop := prdtLength = 0 ∨ length % 2 ^ 32 ≠ 0

instance (prdtLength length : Nat) : Decidable (DMAEnds prdtLength length) :=
  inferInstanceAs (Decidable (_ ∨ _))

/-- The access of a command whose data goes through `prdtRead` or `prdtWrite`. -/
def transferBlocks (prdtLength : Nat) (logicalPageSize : UInt32) (lbaSize : UInt64)
    (kind : AccessKind) (slba nlb : UInt64) : Except Fault BackendAccess := do
  let access ← accessBlocks logicalPageSize lbaSize kind slba nlb
  if DMAEnds prdtLength (nlb.toNat * lbaSize.toNat) then .ok access
  else .error (.diverges "dmaHandler")

/-- What a command has come to: whether it has completed with an error, and its accesses. -/
structure CommandResult where
  failed : Bool
  accesses : List BackendAccess
  deriving DecidableEq, Repr

/-! ### Ranges enforced -/

/-- A verification moves no data, and neither does a command for no blocks; any other accesses its
blocks, once. -/
def Carried (kind : AccessKind) (slba nlb : Nat) (accesses : List BackendAccess) : Prop :=
  accesses.map (fun a => (a.kind, a.slba.toNat, a.nlb.toNat)) =
    if kind = .verify ∨ nlb = 0 then [] else [(kind, slba, nlb)]

/-- A command for blocks of the device is carried out; another one completes with an error and
accesses nothing. -/
def Enforced (capacity : Nat) (kind : AccessKind) (slba nlb : Nat) :
    Except Fault CommandResult → Prop
  | .error _ => False
  | .ok result =>
    (result.failed = false ∧ Carried kind slba nlb result.accesses ↔ slba + nlb ≤ capacity) ∧
      (capacity < slba + nlb → result.failed = true ∧ result.accesses = [])

/-- The logical blocks of a device. -/
def capacityOf (totalLogicalPages : UInt64) (logicalPageSize : UInt32) (lbaSize : Nat) : Nat :=
  totalLogicalPages.toNat * logicalPageSize.toNat / lbaSize

/-! ### Conversions -/

section Conversion

variable {logicalPageSize : UInt32} {lbaSize slba nlb : UInt64} {kind : AccessKind}

/-- The blocks in a page are counted exactly. -/
theorem toNat_lbaratio (logicalPageSize : UInt32) (lbaSize : UInt64) :
    (lbaratio logicalPageSize lbaSize).toNat = logicalPageSize.toNat / lbaSize.toNat := by
  have hlt : logicalPageSize.toNat / lbaSize.toNat < 2 ^ 32 :=
    (Nat.div_le_self ..).trans_lt logicalPageSize.toNat_lt
  unfold lbaratio
  rw [UInt32.toNat_toUInt64, UInt64.toNat_toUInt32, UInt64.toNat_div, UInt32.toNat_toUInt64,
    Nat.mod_eq_of_lt hlt]

/-- Some block is in a page iff blocks have a size, and no larger one than pages. -/
theorem lbaratio_pos_iff :
    0 < (lbaratio logicalPageSize lbaSize).toNat ↔
      0 < lbaSize.toNat ∧ lbaSize.toNat ≤ logicalPageSize.toNat := by
  rw [toNat_lbaratio, Nat.div_pos_iff]

/-- The conversion divides by numbers that are not zero iff a page holds a block. -/
theorem convertUnit_ok_iff :
    (∃ req, convertUnit logicalPageSize lbaSize slba nlb = .ok req) ↔
      0 < lbaSize.toNat ∧ lbaSize.toNat ≤ logicalPageSize.toNat := by
  rw [← lbaratio_pos_iff]
  unfold convertUnit
  constructor
  · rintro ⟨req, h⟩
    split at h
    · cases h
    · split at h
      · cases h
      · next hne => exact Nat.pos_of_ne_zero fun hzero => hne (UInt64.toNat_inj.mp hzero)
  · intro hpos
    have hlba := (lbaratio_pos_iff.mp hpos).1
    rw [if_neg fun h => absurd hlba (by rw [h]; exact Nat.lt_irrefl 0),
      if_neg fun h => absurd hpos (by rw [h]; exact Nat.lt_irrefl 0)]
    exact ⟨_, rfl⟩

/-- The pages that blocks touch are counted without an overflow. -/
theorem convertUnit_nlp {req : UnitRequest} (hnlb : nlb.toNat < 2 ^ 63)
    (h : convertUnit logicalPageSize lbaSize slba nlb = .ok req) :
    req.nlp.toNat = (nlb.toNat + slba.toNat % (logicalPageSize.toNat / lbaSize.toNat) +
      logicalPageSize.toNat / lbaSize.toNat - 1) / (logicalPageSize.toNat / lbaSize.toNat) := by
  have hlt : logicalPageSize.toNat / lbaSize.toNat < 2 ^ 32 :=
    (Nat.div_le_self ..).trans_lt logicalPageSize.toNat_lt
  have hratio := toNat_lbaratio logicalPageSize lbaSize
  have hpos : 0 < logicalPageSize.toNat / lbaSize.toNat := by
    rw [← hratio]
    exact lbaratio_pos_iff.mpr (convertUnit_ok_iff.mp ⟨req, h⟩)
  have hoff : slba.toNat % (logicalPageSize.toNat / lbaSize.toNat) <
      logicalPageSize.toNat / lbaSize.toNat := Nat.mod_lt _ hpos
  unfold convertUnit at h
  split at h
  · cases h
  · split at h
    · cases h
    · cases h
      have hsum : (nlb + slba % lbaratio logicalPageSize lbaSize +
          lbaratio logicalPageSize lbaSize).toNat = nlb.toNat +
            slba.toNat % (logicalPageSize.toNat / lbaSize.toNat) +
              logicalPageSize.toNat / lbaSize.toNat := by
        rw [UInt64.toNat_add, UInt64.toNat_add, UInt64.toNat_mod, hratio,
          Nat.mod_eq_of_lt (by omega), Nat.mod_eq_of_lt (by omega)]
      have hone : (1 : UInt64) ≤ nlb + slba % lbaratio logicalPageSize lbaSize +
          lbaratio logicalPageSize lbaSize := by
        rw [UInt64.le_iff_toNat_le, hsum]
        show 1 ≤ _
        omega
      rw [UInt64.toNat_div, UInt64.toNat_sub_of_le _ _ hone, hsum, hratio]
      rfl

/-- A command that compares its range with nothing is right about the blocks of the device, as long
as its range can be converted and its DMA ends. -/
theorem enforced_unchecked_iff {capacity prdtLength : Nat} (hkind : kind ≠ .verify)
    (hnlb : 0 < nlb.toNat) :
    Enforced capacity kind slba.toNat nlb.toNat
        (do let a ← transferBlocks prdtLength logicalPageSize lbaSize kind slba nlb
            .ok ⟨false, [a]⟩) ↔
      slba.toNat + nlb.toNat ≤ capacity ∧ (0 < lbaSize.toNat ∧
        lbaSize.toNat ≤ logicalPageSize.toNat) ∧
          DMAEnds prdtLength (nlb.toNat * lbaSize.toNat) := by
  rw [← @convertUnit_ok_iff logicalPageSize lbaSize slba nlb]
  unfold transferBlocks accessBlocks
  cases hconvert : convertUnit logicalPageSize lbaSize slba nlb with
  | error e => exact ⟨False.elim, fun ⟨_, ⟨_, h⟩, _⟩ => by cases h⟩
  | ok req =>
    rw [Except.ok_bind, Except.ok_bind]
    by_cases hends : DMAEnds prdtLength (nlb.toNat * lbaSize.toNat)
    swap
    · rw [if_neg hends]
      exact ⟨False.elim, fun h => hends h.2.2⟩
    rw [if_pos hends]
    have hcarried : Carried kind slba.toNat nlb.toNat [⟨kind, slba, nlb, req⟩] := by
      unfold Carried
      rw [if_neg (by simp [hkind]; omega)]
      rfl
    constructor
    · rintro ⟨hiff, -⟩
      exact ⟨hiff.mp ⟨rfl, hcarried⟩, ⟨req, rfl⟩, hends⟩
    · rintro ⟨hle, -⟩
      exact ⟨⟨fun _ => hle, fun _ => ⟨rfl, hcarried⟩⟩, fun hlt => absurd hle (by omega)⟩

/-- A verification accesses nothing: it has to fail for the right ranges. -/
theorem enforced_verify_iff {capacity slba nlb : Nat} {failed : Bool} :
    Enforced capacity .verify slba nlb (.ok ⟨failed, []⟩) ↔
      (failed = true ↔ capacity < slba + nlb) := by
  have hcarried : Carried .verify slba nlb [] := by
    unfold Carried
    rw [if_pos (.inl rfl)]
    rfl
  constructor
  · rintro ⟨hiff, hreject⟩
    refine ⟨fun hfailed => Nat.lt_of_not_le fun hle => ?_, fun hlt => (hreject hlt).1⟩
    have hok : failed = false := (hiff.mpr hle).1
    rw [hfailed] at hok
    cases hok
  · intro hfailed
    refine ⟨⟨fun ⟨hok, _⟩ => ?_, fun hle => ⟨?_, hcarried⟩⟩, fun hlt => ⟨hfailed.mpr hlt, rfl⟩⟩
    · have hok : failed = false := hok
      refine Nat.le_of_not_lt fun hlt => ?_
      rw [hfailed.mpr hlt] at hok
      cases hok
    · exact Bool.eq_false_iff.mpr fun h => absurd (hfailed.mp h) (by omega)

end Conversion

end SimpleSSD.HIL
