import SimpleSSD.BIL.Entry
import SimpleSSD.HIL.NVMe.Transfer

/-!
# Block I/O through the NVMe driver (sil/nvme/nvme.cc:355–411)

A block I/O becomes one command, whatever its length. The blocks are counted from the length
alone, and the count goes into the command as it is: the device reads 16 bits of it for a read or
a write, and the bits above are flags. The range of a trim has 32 bits for it. The blocks are the
right ones exactly when neither loses anything (`command_exact_iff`).
-/

namespace SimpleSSD.SIL.NVMe

open BIL ( BIO BIOType divCeil)
open HIL.NVMe (SQEntryWrapper DatasetManagementRange)
open HIL.NVMe.Transfer (slba nlbField)

/-- What `_init1` and `_init2` find out (nvme.cc:146–217). -/
structure BlockDriver where
  namespaceID : BitVec 32
  LBAsize : Nat
  capacity : Nat
  LBAsize_pos : 0 < LBAsize

/-- `memset(cmd, 0, 64)`, with the pointers to the data. -/
def clearedCommand (ptr1 ptr2 : BitVec 64) : SQEntryWrapper :=
  ⟨0, 0, 0, ptr1, ptr2, 0, 0, 0, 0, 0, 0, 0, 0, false⟩

namespace BlockDriver

/-- `slba`. -/
def slba (drv : BlockDriver) (bio : BIO) : BitVec 64 := BitVec.ofNat 64 (bio.offset / drv.LBAsize)

/-- `nlb`, in 32 bits. -/
def nlb (drv : BlockDriver) (bio : BIO) : BitVec 32 :=
  BitVec.ofNat 32 (divCeil bio.length drv.LBAsize)

/-- A read or write (nvme.cc:370–387). -/
def transferCommand (drv : BlockDriver) (opcode : BitVec 8) (bio : BIO) (cmd : SQEntryWrapper) :
    SQEntryWrapper :=
  { cmd with
    opcode := opcode
    dword10 := (drv.slba bio).setWidth 32
    dword11 := (drv.slba bio >>> 32).setWidth 32
    dword12 := drv.nlb bio - 1 }

/-- `submitIO`: the command, and the range of a trim, which the device reads from memory. -/
def submitIO (drv : BlockDriver) (ptr1 ptr2 : BitVec 64) (bio : BIO) :
    SQEntryWrapper × Option DatasetManagementRange :=
  let cmd := { clearedCommand ptr1 ptr2 with namespaceID := drv.namespaceID }
  match bio.type with
  | .read => (drv.transferCommand 0x02 bio cmd, none)
  | .write => (drv.transferCommand 0x01 bio cmd, none)
  | .flush => ({ cmd with opcode := 0x00 }, none)
  | .trim =>
    ({ cmd with opcode := 0x09, dword10 := 0, dword11 := 0x04 }, some ⟨drv.nlb bio, drv.slba bio⟩)

/-- The device finds the blocks that the range of bytes meets. -/
def Addresses (drv : BlockDriver) (bio : BIO) (first n : Nat) : Prop :=
  Units.Covers drv.LBAsize bio.offset bio.length first n

/-- What a read or write needs: its blocks are the right ones, as the device reads them, and the
number of them, counted from zero, leaves the other fields of the dword alone. -/
structure ExactTransfer (drv : BlockDriver) (bio : BIO) (cmd : SQEntryWrapper) : Prop where
  blocks : drv.Addresses bio (HIL.NVMe.Transfer.slba cmd) ((nlbField cmd).toNat + 1)
  field : cmd.dword12.toNat < 2 ^ 16

/-- The command is about the blocks that the block I/O meets. A flush is about none. -/
def Exact (drv : BlockDriver) (bio : BIO)
    (command : SQEntryWrapper × Option DatasetManagementRange) : Prop :=
  command.1.namespaceID = drv.namespaceID ∧
    match bio.type with
    | .read | .write => drv.ExactTransfer bio command.1
    | .flush => True
    | .trim => ∃ range, command.2 = some range ∧
        drv.Addresses bio range.slba.toNat range.nlb.toNat

/-- The blocks that one command can name. -/
def maxBlocks : BIOType → Nat
  | .trim => 2 ^ 32 - 1
  | _ => 2 ^ 16

section Fields

variable {drv : BlockDriver} {bio : BIO}

theorem halves_append (x : BitVec 64) : (x >>> 32).setWidth 32 ++ x.setWidth 32 = x := by
  apply BitVec.eq_of_toNat_eq
  have hlt := x.isLt
  rw [BitVec.toNat_append, BitVec.toNat_setWidth, BitVec.toNat_setWidth, BitVec.toNat_ushiftRight,
    Nat.shiftRight_eq_div_pow, ← Nat.shiftLeft_add_eq_or_of_lt (Nat.mod_lt _ (by decide)),
    Nat.shiftLeft_eq]
  omega

theorem slba_toNat (drv : BlockDriver) (bio : BIO) :
    (drv.slba bio).toNat = bio.offset / drv.LBAsize := by
  have hlt := bio.offset_lt
  have hle := Nat.div_le_self bio.offset drv.LBAsize
  rw [slba, BitVec.toNat_ofNat, Nat.mod_eq_of_lt (by omega)]

theorem nlb_toNat (hpos : 0 < bio.length) :
    (drv.nlb bio).toNat = ((bio.length - 1) / drv.LBAsize + 1) % 2 ^ 32 := by
  rw [nlb, BIL.divCeil_eq hpos bio.length_lt, BitVec.toNat_ofNat]

theorem nlb_pred_toNat (hpos : 0 < bio.length) :
    (drv.nlb bio - 1).toNat = (bio.length - 1) / drv.LBAsize % 2 ^ 32 := by
  have hone : (1 : BitVec 32).toNat = 1 := rfl
  rw [BitVec.toNat_sub, nlb_toNat hpos, hone]
  omega

/-- The range begins with the right block, so the count decides. -/
theorem addresses_iff (hpos : 0 < bio.length) {n : Nat}
    (hle : n ≤ (bio.length - 1) / drv.LBAsize + 1) :
    drv.Addresses bio (bio.offset / drv.LBAsize) n ↔
      bio.offset % drv.LBAsize + (bio.length - 1) % drv.LBAsize < drv.LBAsize ∧
        n = (bio.length - 1) / drv.LBAsize + 1 := by
  constructor
  · intro h
    have hlast := ((Units.covers_iff drv.LBAsize_pos hpos).mp h).2
    have hcount : bio.offset / drv.LBAsize + ((bio.length - 1) / drv.LBAsize + 1) ≤
        (bio.offset + bio.length - 1) / drv.LBAsize + 1 := Units.divCeil_le hpos
    obtain rfl : n = (bio.length - 1) / drv.LBAsize + 1 := by omega
    exact ⟨(Units.divCeil_covers_iff drv.LBAsize_pos hpos).mp h, rfl⟩
  · rintro ⟨haligned, rfl⟩
    exact (Units.divCeil_covers_iff drv.LBAsize_pos hpos).mpr haligned

theorem exactTransfer_iff (hpos : 0 < bio.length) (opcode : BitVec 8) (cmd : SQEntryWrapper) :
    drv.ExactTransfer bio (drv.transferCommand opcode bio cmd) ↔
      bio.offset % drv.LBAsize + (bio.length - 1) % drv.LBAsize < drv.LBAsize ∧
        (bio.length - 1) / drv.LBAsize + 1 ≤ 2 ^ 16 := by
  have hslba : HIL.NVMe.Transfer.slba (drv.transferCommand opcode bio cmd) =
      bio.offset / drv.LBAsize := by
    rw [← slba_toNat, ← halves_append (drv.slba bio)]
    rfl
  have hdword : (drv.transferCommand opcode bio cmd).dword12.toNat =
      (bio.length - 1) / drv.LBAsize % 2 ^ 32 := nlb_pred_toNat hpos
  have hfield : (nlbField (drv.transferCommand opcode bio cmd)).toNat =
      (bio.length - 1) / drv.LBAsize % 2 ^ 32 % 2 ^ 16 := by
    rw [nlbField, BitVec.toNat_setWidth, hdword]
  have hfits : ∀ k : Nat, k % 2 ^ 32 % 2 ^ 16 + 1 ≤ k + 1 ∧
      (k % 2 ^ 32 % 2 ^ 16 + 1 = k + 1 ∧ k % 2 ^ 32 < 2 ^ 16 ↔ k + 1 ≤ 2 ^ 16) := by omega
  obtain ⟨hle, hcount⟩ := hfits ((bio.length - 1) / drv.LBAsize)
  rw [← hcount, ← and_assoc, ← addresses_iff hpos hle, ← hfield, ← hdword, ← hslba]
  constructor
  · rintro ⟨hblocks, hlt⟩
    exact ⟨hblocks, hlt⟩
  · rintro ⟨hblocks, hlt⟩
    exact ⟨hblocks, hlt⟩

/-- The range of a trim. -/
theorem range_iff (hpos : 0 < bio.length) :
    drv.Addresses bio (drv.slba bio).toNat (drv.nlb bio).toNat ↔
      bio.offset % drv.LBAsize + (bio.length - 1) % drv.LBAsize < drv.LBAsize ∧
        (bio.length - 1) / drv.LBAsize + 1 ≤ 2 ^ 32 - 1 := by
  have hfits : ∀ k : Nat, (k + 1) % 2 ^ 32 ≤ k + 1 ∧
      ((k + 1) % 2 ^ 32 = k + 1 ↔ k + 1 ≤ 2 ^ 32 - 1) := by omega
  obtain ⟨hle, hcount⟩ := hfits ((bio.length - 1) / drv.LBAsize)
  rw [slba_toNat, nlb_toNat hpos, addresses_iff hpos hle, hcount]

end Fields

/-- For every block I/O inside of the namespace, the command is about the right blocks exactly
when it is a flush, or when the last byte is not pushed over the border of a block and the command
can name as many blocks. -/
theorem command_exact_iff (drv : BlockDriver) (ptr1 ptr2 : BitVec 64) (bio : BIO)
    (hpos : 0 < bio.length) (_hin : bio.offset + bio.length ≤ drv.capacity) :
    drv.Exact bio ( drv.submitIO ptr1 ptr2 bio) ↔
      bio.type = .flush ∨
        bio.offset % drv.LBAsize + (bio.length - 1) % drv.LBAsize < drv.LBAsize ∧
          (bio.length - 1) / drv.LBAsize + 1 ≤ maxBlocks bio.type := by
  unfold Exact submitIO
  cases bio.type with
  | read =>
    rw [or_iff_right BIOType.noConfusion]
    exact (and_iff_right rfl).trans (exactTransfer_iff hpos _ _)
  | write =>
    rw [or_iff_right BIOType.noConfusion]
    exact (and_iff_right rfl).trans (exactTransfer_iff hpos _ _)
  | flush => exact iff_of_true ⟨rfl, trivial⟩ (.inl rfl)
  | trim =>
    rw [or_iff_right BIOType.noConfusion]
    refine (and_iff_right rfl).trans (Iff.trans ?_ (range_iff hpos))
    constructor
    · rintro ⟨range, hrange, hblocks⟩
      cases hrange
      exact hblocks
    · intro hblocks
      exact ⟨_, rfl, hblocks⟩

/-! ### Instances -/

/-- A namespace of 512 MiB in blocks of 512 bytes. -/
def smallBlocks : BlockDriver := ⟨1, 512, 2 ^ 29, by decide⟩

/-- 32 MiB have as many blocks as a command can name. -/
theorem command_exact_largest : smallBlocks.Exact ⟨.write, 4096, 2 ^ 25, by decide, by decide⟩
    ( smallBlocks.submitIO 0x1000 0x2000 ⟨.write, 4096, 2 ^ 25, by decide, by decide⟩) :=
  (command_exact_iff smallBlocks 0x1000 0x2000 ⟨.write, 4096, 2 ^ 25, by decide, by decide⟩
    (by decide) (by decide)).mpr (.inr (by decide))

/-- A block more, and the command writes one block and sets a reserved bit. A range of one block
that begins in the middle of another has two, and one of them is read. -/
theorem not_exact_large :
    (nlbField ( smallBlocks.submitIO 0x1000 0x2000
        ⟨.write, 4096, 2 ^ 25 + 512, by decide, by decide⟩).1).toNat = 0 ∧
      ¬ smallBlocks.Exact ⟨.write, 4096, 2 ^ 25 + 512, by decide, by decide⟩
        ( smallBlocks.submitIO 0x1000 0x2000 ⟨.write, 4096, 2 ^ 25 + 512, by decide, by decide⟩) ∧
      ¬ smallBlocks.Exact ⟨.read, 256, 512, by decide, by decide⟩
        ( smallBlocks.submitIO 0x1000 0x2000 ⟨.read, 256, 512, by decide, by decide⟩) := by
  refine ⟨by decide, fun h => ?_, fun h => ?_⟩
  · have hcovers := (Units.covers_iff (by decide) (by decide)).mp h.2.blocks
    exact absurd hcovers.2 (by decide)
  · have hcovers := (Units.covers_iff (by decide) (by decide)).mp h.2.blocks
    exact absurd hcovers.2 (by decide)

end BlockDriver

end SimpleSSD.SIL.NVMe
