import Mathlib.Algebra.Ring.Nat
import SimpleSSD.Lib.Blocks

/-!
# Disk images (util/disk.hh, disk.cc)

An image keeps the data of a namespace: in a file of the host, in memory over such a file, or in
memory alone. It stands for what was last written to each block, but a file that was there before
keeps its size, and what is written behind its end is not read again.

The file is open, and nothing but the image changes it. The numbers of blocks that `read`, `write`
and `erase` return are left out.
-/

namespace SimpleSSD

open Blocks (Store joined slice)

/-- A file of the host. -/
structure ImageFile where
  size : Nat
  byte : Nat → UInt8

/-- `Disk`. The file grows by zeros. -/
structure Disk where
  diskSize : Nat
  sectorSize : Nat
  disk : Nat → UInt8

/-- `CoWDisk`. -/
structure CoWDisk extends Disk where
  table : Store UInt8

/-- `MemDisk`, whose file stays closed. -/
structure MemDisk where
  diskSize : Nat
  sectorSize : Nat
  table : Store UInt8

namespace Disk

/-- `Disk::open`. A file that is not there is made, with the desired size. -/
def openFile (file : Option ImageFile) (desiredSize lbaSize : Nat) : Disk :=
  match file with
  | some file => ⟨file.size, lbaSize, file.byte⟩
  | none => ⟨desiredSize, lbaSize, fun _ => 0⟩

/-- `Disk::read`. -/
def read (d : Disk) (slba nlblk : Nat) : List UInt8 :=
  let slba := slba * d.sectorSize % 2 ^ 64
  let avail := nlblk * d.sectorSize
  let avail :=
    if d.diskSize < slba + avail then if d.diskSize ≤ slba then 0 else d.diskSize - slba
    else avail
  (List.range avail).map (fun i => d.disk (slba + i)) ++
    List.replicate (nlblk * d.sectorSize - avail) 0

/-- `Disk::write`. -/
def write (d : Disk) (slba nlblk : Nat) (buffer : List UInt8) : Disk :=
  let slba := slba * d.sectorSize % 2 ^ 64
  { d with disk := fun i =>
      if slba ≤ i ∧ i < slba + d.sectorSize * nlblk then buffer.getD (i - slba) 0 else d.disk i }

/-- `Disk::erase`, which does nothing. -/
def erase (d : Disk) (_slba _nlblk : Nat) : Disk := d

end Disk

/-- The loop of `CoWDisk::write` and `MemDisk::write`. -/
def insertBlocks (sectorSize : Nat) (table : Store UInt8) (slba nlblk : Nat) (buffer : List UInt8) :
    Store UInt8 :=
  (List.range nlblk).foldl
    (fun table i => Function.update table (slba + i) (some (slice sectorSize i buffer))) table

/-- `CoWDisk::read`. -/
def CoWDisk.read (d : CoWDisk) (slba nlblk : Nat) : List UInt8 :=
  (List.range nlblk).flatMap fun i =>
    match d.table (slba + i) with
    | some block => block
    | none => d.toDisk.read (slba + i) 1

/-- `CoWDisk::write`. -/
def CoWDisk.write (d : CoWDisk) (slba nlblk : Nat) (buffer : List UInt8) : CoWDisk :=
  { d with table := insertBlocks d.sectorSize d.table slba nlblk buffer }

/-- `CoWDisk` has the `erase` of `Disk`. -/
def CoWDisk.erase (d : CoWDisk) (slba nlblk : Nat) : CoWDisk :=
  { d with toDisk := d.toDisk.erase slba nlblk }

/-- `MemDisk::open`. -/
def MemDisk.openFile (size lbaSize : Nat) : MemDisk := ⟨size, lbaSize, Store.empty⟩

/-- `MemDisk::read`. -/
def MemDisk.read (d : MemDisk) (slba nlblk : Nat) : List UInt8 :=
  (List.range nlblk).flatMap fun i =>
    match d.table (slba + i) with
    | some block => block
    | none => List.replicate d.sectorSize 0

/-- `MemDisk::write`. -/
def MemDisk.write (d : MemDisk) (slba nlblk : Nat) (buffer : List UInt8) : MemDisk :=
  { d with table := insertBlocks d.sectorSize d.table slba nlblk buffer }

/-- `MemDisk::erase`. -/
def MemDisk.erase (d : MemDisk) (slba nlblk : Nat) : MemDisk :=
  let table := (List.range nlblk).foldl
    (fun (table : Store UInt8) i => Function.update table (slba + i) none) d.table
  { d with table := table }

/-- What a `Disk *` points to. -/
inductive DiskImage where
  | disk (d : Disk)
  | cow (d : CoWDisk)
  | mem (d : MemDisk)

namespace DiskImage

def diskSize : DiskImage → Nat
  | disk d => d.diskSize
  | cow d => d.diskSize
  | mem d => d.diskSize

def sectorSize : DiskImage → Nat
  | disk d => d.sectorSize
  | cow d => d.sectorSize
  | mem d => d.sectorSize

def read : DiskImage → Nat → Nat → List UInt8
  | disk d => d.read
  | cow d => d.read
  | mem d => d.read

def write : DiskImage → Nat → Nat → List UInt8 → DiskImage
  | disk d, slba, nlblk, buffer => disk (d.write slba nlblk buffer)
  | cow d, slba, nlblk, buffer => cow (d.write slba nlblk buffer)
  | mem d, slba, nlblk, buffer => mem (d.write slba nlblk buffer)

def erase : DiskImage → Nat → Nat → DiskImage
  | disk d, slba, nlblk => disk (d.erase slba nlblk)
  | cow d, slba, nlblk => cow (d.erase slba nlblk)
  | mem d, slba, nlblk => mem (d.erase slba nlblk)

/-! ### What an image stands for -/

/-- The image holds what was last written to each block. -/
def Holds (store : Store UInt8) : DiskImage → Prop
  | disk d => ∀ lba j, j < d.sectorSize →
      d.disk (lba * d.sectorSize + j) = (store.block d.sectorSize 0 lba).getD j 0
  | cow d => d.table = store ∧ ∀ i, d.disk i = 0
  | mem d => d.table = store

/-- What the image shows of the content of a block: a file shows nothing behind its end. -/
def shown (lba : Nat) (content : List UInt8) : DiskImage → List UInt8
  | disk d => (List.range d.sectorSize).map fun j =>
      if lba * d.sectorSize + j < d.diskSize then content.getD j 0 else 0
  | cow _ => content
  | mem _ => content

end DiskImage

section Read

variable {store : Store UInt8} {slba n : Nat}

/-- The bytes behind the end of the file read as zeros. -/
theorem Disk.read_eq_map (d : Disk) (slba n : Nat) :
    d.read slba n = (List.range (n * d.sectorSize)).map fun i =>
      if slba * d.sectorSize % 2 ^ 64 + i < d.diskSize then
        d.disk (slba * d.sectorSize % 2 ^ 64 + i) else 0 := by
  obtain ⟨avail, havail, hle, hheld⟩ : ∃ avail,
      d.read slba n = (List.range avail).map (fun i => d.disk (slba * d.sectorSize % 2 ^ 64 + i)) ++
        List.replicate (n * d.sectorSize - avail) 0 ∧ avail ≤ n * d.sectorSize ∧
      ∀ i < n * d.sectorSize, slba * d.sectorSize % 2 ^ 64 + i < d.diskSize ↔ i < avail := by
    refine ⟨_, rfl, ?_, ?_⟩
    · split
      · split <;> omega
      · exact Nat.le_refl _
    · intro i hi
      split
      · split <;> omega
      · omega
  obtain ⟨rest, hrest⟩ := Nat.exists_eq_add_of_le hle
  rw [havail, hrest, Nat.add_sub_cancel_left, List.range_add, List.map_append, List.map_map]
  congr 1
  · refine List.map_congr_left fun i hi => ?_
    have hlt := List.mem_range.mp hi
    rw [if_pos ((hheld i (by omega)).mpr hlt)]
  · refine (List.eq_replicate_iff.mpr ⟨by simp, fun b hb => ?_⟩).symm
    obtain ⟨i, hi, rfl⟩ := List.mem_map.mp hb
    have hlt := List.mem_range.mp hi
    refine if_neg fun hshown => ?_
    exact absurd ((hheld (avail + i) (by omega)).mp hshown) (by omega)

theorem Disk.read_blank {d : Disk} (h : ∀ i, d.disk i = 0) (slba n : Nat) :
    d.read slba n = List.replicate (n * d.sectorSize) 0 := by
  rw [Disk.read_eq_map]
  refine List.eq_replicate_iff.mpr ⟨by simp, fun b hb => ?_⟩
  obtain ⟨i, -, rfl⟩ := List.mem_map.mp hb
  rw [h, ite_self]

/-- A read gives what the image shows of what was last written. -/
theorem DiskImage.read_eq {d : DiskImage} (h : d.Holds store)
    (hfit : (slba + n) * d.sectorSize < 2 ^ 64) : d.read slba n =
      joined (fun lba => d.shown lba (store.block d.sectorSize 0 lba)) slba n := by
  cases d with
  | disk d =>
    replace hfit : (slba + n) * d.sectorSize < 2 ^ 64 := hfit
    rw [Nat.add_mul] at hfit
    show d.read slba n = _
    rw [Disk.read_eq_map, Nat.mod_eq_of_lt (by omega), Blocks.map_range_mul, joined]
    refine congrArg (List.flatMap · _) (funext fun i => ?_)
    refine List.map_congr_left fun j hj => ?_
    have hbyte := h (slba + i) j (List.mem_range.mp hj)
    rw [Nat.add_mul, Nat.add_assoc] at hbyte
    show _ = if (slba + i) * d.sectorSize + j < d.diskSize then
      (store.block d.sectorSize 0 (slba + i)).getD j 0 else 0
    rw [Nat.add_mul, Nat.add_assoc, hbyte]
  | cow d =>
    obtain ⟨rfl, hblank⟩ := h
    refine congrArg (List.flatMap · _) (funext fun i => ?_)
    dsimp only [shown]
    rw [Store.block]
    cases d.table (slba + i) with
    | some block => rfl
    | none =>
      dsimp only
      rw [Disk.read_blank hblank, Nat.one_mul]
      rfl
  | mem d =>
    cases h
    refine congrArg (List.flatMap · _) (funext fun i => ?_)
    dsimp only [shown]
    rw [Store.block]
    cases d.table (slba + i) <;> rfl

end Read

section Write

variable {store : Store UInt8} {slba n size lbaSize : Nat} {buffer : List UInt8}
  {file : Option ImageFile}

/-- The offset of a byte of a block lies in a range of blocks exactly when the block does. -/
theorem offset_in_range {lba j size : Nat} (hj : j < size) (slba n : Nat) :
    slba * size ≤ lba * size + j ∧ lba * size + j < slba * size + size * n ↔
      slba ≤ lba ∧ lba < slba + n := by
  have hpos : 0 < size := Nat.lt_of_le_of_lt (Nat.zero_le j) hj
  rw [Nat.mul_comm size n, ← Nat.add_mul]
  constructor
  · rintro ⟨hle, hlt⟩
    constructor
    · by_contra hnot
      have hmul := Nat.mul_le_mul_right size (Nat.lt_of_not_le hnot)
      rw [Nat.succ_mul] at hmul
      omega
    · exact Nat.lt_of_mul_lt_mul_right (Nat.lt_of_le_of_lt (Nat.le_add_right _ _) hlt)
  · rintro ⟨hle, hlt⟩
    have hle' := Nat.mul_le_mul_right size hle
    have hlt' := Nat.mul_le_mul_right size hlt
    rw [Nat.succ_mul] at hlt'
    omega

/-- A byte after a write is one of the buffer, or the one that was there. -/
theorem Disk.write_byte {d : Disk} (hfit : (slba + n) * d.sectorSize < 2 ^ 64) (buffer : List UInt8)
    {lba j : Nat} (hj : j < d.sectorSize) :
    (d.write slba n buffer).disk (lba * d.sectorSize + j) =
      if slba ≤ lba ∧ lba < slba + n then
        (Blocks.slice d.sectorSize (lba - slba) buffer).getD j 0
      else d.disk (lba * d.sectorSize + j) := by
  rw [Nat.add_mul] at hfit
  have hslba : slba * d.sectorSize % 2 ^ 64 = slba * d.sectorSize :=
    Nat.mod_eq_of_lt (by omega)
  show (if slba * d.sectorSize % 2 ^ 64 ≤ lba * d.sectorSize + j ∧
      lba * d.sectorSize + j < slba * d.sectorSize % 2 ^ 64 + d.sectorSize * n then
      buffer.getD (lba * d.sectorSize + j - slba * d.sectorSize % 2 ^ 64) 0
    else d.disk (lba * d.sectorSize + j)) = _
  rw [hslba, if_congr (offset_in_range hj slba n) rfl rfl]
  split
  · next hrange =>
    obtain ⟨k, rfl⟩ := Nat.exists_eq_add_of_le hrange.1
    rw [Blocks.getD_slice hj, Nat.add_sub_cancel_left, Nat.add_mul, Nat.add_assoc,
      Nat.add_sub_cancel_left]
  · rfl

/-- A write changes the blocks it is about. -/
theorem DiskImage.Holds.write {d : DiskImage} (h : d.Holds store)
    (hfit : (slba + n) * d.sectorSize < 2 ^ 64) (buffer : List UInt8) :
    (d.write slba n buffer).Holds (store.write d.sectorSize slba n buffer) := by
  cases d with
  | disk d =>
    intro lba j hj
    replace hj : j < d.sectorSize := hj
    show (d.write slba n buffer).disk (lba * d.sectorSize + j) =
      ((store.write d.sectorSize slba n buffer).block d.sectorSize 0 lba).getD j 0
    rw [Disk.write_byte hfit buffer hj, Store.block, Store.write]
    split
    · rfl
    · exact h lba j hj
  | cow d =>
    obtain ⟨rfl, hblank⟩ := h
    exact ⟨Store.foldl_update _ _ _ _ _, hblank⟩
  | mem d =>
    cases h
    exact Store.foldl_update _ _ _ _ _

/-- The file is not there, or holds only zeros. -/
def Blank (file : Option ImageFile) : Prop := ∀ f, file = some f → ∀ i, f.byte i = 0

theorem blank_none : Blank none := by
  intro f hf
  cases hf

theorem Disk.openFile_blank (h : Blank file) (size lbaSize i : Nat) :
    (Disk.openFile file size lbaSize).disk i = 0 := by
  cases file with
  | none => rfl
  | some file => exact h file rfl i

theorem Disk.openFile_sectorSize (file : Option ImageFile) (size lbaSize : Nat) :
    (Disk.openFile file size lbaSize).sectorSize = lbaSize := by
  cases file <;> rfl

/-- In a blank file nothing is written. -/
theorem DiskImage.holds_disk (h : Blank file) (size lbaSize : Nat) :
    (disk (Disk.openFile file size lbaSize)).Holds Store.empty := by
  intro lba j hj
  rw [Disk.openFile_blank h, Store.block, Store.empty, Option.getD_none,
    List.getD_eq_getElem?_getD, List.getElem?_replicate_of_lt hj, Option.getD_some]

theorem DiskImage.holds_cow (h : Blank file) (size lbaSize : Nat) :
    (cow ⟨Disk.openFile file size lbaSize, Store.empty⟩).Holds Store.empty :=
  ⟨rfl, Disk.openFile_blank h size lbaSize⟩

end Write

end SimpleSSD
