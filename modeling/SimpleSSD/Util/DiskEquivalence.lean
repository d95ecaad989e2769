import Mathlib.Data.List.GetD
import Mathlib.Data.List.Induction
import SimpleSSD.Util.Disk

/-!
# The three kinds of disk images

The same calls are made on a file, on memory over the file and on memory alone. All of them are to
read as if each sector held what was last written to it, zeros since it was erased, and in the
beginning what the file had there, or zeros for memory alone.

`content` carries the induction: what each sector should read as. `Keeps` says how an image stands
for it. The file has no `erase`, and the memory over it does not have one of its own, so the two
are right as long as no sector is erased that holds anything but zeros (`images_agree_iff`).
-/

namespace SimpleSSD

open Blocks (joined slice)

/-- A sector of the file of a disk. -/
def Disk.sector (d : Disk) (lba : Nat) : List UInt8 :=
  (List.range d.sectorSize).map fun j => d.disk (lba * d.sectorSize + j)

/-- A file, and the size of the sectors, of up to 4096 bytes. -/
structure Medium where
  file : ImageFile
  sectorSize : Nat
  sectorSize_pos : 0 < sectorSize
  sectorSize_le : sectorSize ≤ 4096
  size_lt : file.size < 2 ^ 64

/-- The calls on an image. -/
inductive DiskCall where
  | read (slba nlblk : Nat)
  | write (slba nlblk : Nat) (buffer : List UInt8)
  | erase (slba nlblk : Nat)

namespace Medium

variable (m : Medium)

/-- `Disk`, opened. -/
def opened : Disk := .openFile (some m.file) m.file.size m.sectorSize

/-- The images as they are opened. -/
def disk : DiskImage := .disk m.opened

def cow : DiskImage := .cow ⟨m.opened, Blocks.Store.empty⟩

def mem : DiskImage := .mem (.openFile m.file.size m.sectorSize)

def zeros : List UInt8 := List.replicate m.sectorSize 0

/-- The sectors are those of the disk, and can be counted in 16 bits. -/
def Range (slba nlblk : Nat) : Prop :=
  nlblk < 2 ^ 16 ∧ (slba + nlblk) * m.sectorSize ≤ m.file.size

/-- A call on sectors of the disk. -/
def Within : DiskCall → Prop
  | .read slba nlblk => m.Range slba nlblk
  | .write slba nlblk buffer => m.Range slba nlblk ∧ buffer.length = nlblk * m.sectorSize
  | .erase slba nlblk => m.Range slba nlblk

/-! ### What the sectors should hold -/

/-- What the sectors should hold after a call. -/
def expect (content : Nat → List UInt8) : DiskCall → Nat → List UInt8
  | .read _ _ => content
  | .write slba nlblk buffer => fun lba =>
      if slba ≤ lba ∧ lba < slba + nlblk then slice m.sectorSize (lba - slba) buffer
      else content lba
  | .erase slba nlblk => fun lba =>
      if slba ≤ lba ∧ lba < slba + nlblk then m.zeros else content lba

/-- What they should hold after some calls, with what they held in the beginning. -/
def content (first : Nat → List UInt8) (calls : List DiskCall) : Nat → List UInt8 :=
  calls.foldl m.expect first

end Medium

/-- One call. A read leaves the image as it is. -/
def DiskImage.call (d : DiskImage) : DiskCall → DiskImage
  | .read _ _ => d
  | .write slba nlblk buffer => d.write slba nlblk buffer
  | .erase slba nlblk => d.erase slba nlblk

/-- The image reads as the sectors should. -/
def DiskImage.Shows (m : Medium) (content : Nat → List UInt8) (d : DiskImage) : Prop :=
  ∀ slba nlblk, m.Range slba nlblk → d.read slba nlblk = joined content slba nlblk

/-- The three images after some calls: each reads as its sectors should, and all alike when the
file has held nothing but zeros. -/
structure Agree (m : Medium) (calls : List DiskCall) : Prop where
  disk : (calls.foldl DiskImage.call m.disk).Shows m (m.content m.opened.sector calls)
  cow : (calls.foldl DiskImage.call m.cow).Shows m (m.content m.opened.sector calls)
  mem : (calls.foldl DiskImage.call m.mem).Shows m (m.content (fun _ => m.zeros) calls)
  same : (∀ i, m.file.byte i = 0) → ∀ slba nlblk, m.Range slba nlblk →
    (calls.foldl DiskImage.call m.disk).read slba nlblk =
        (calls.foldl DiskImage.call m.mem).read slba nlblk ∧
      (calls.foldl DiskImage.call m.cow).read slba nlblk =
        (calls.foldl DiskImage.call m.mem).read slba nlblk

/-! ### Single calls -/

/-- The image stands for the sectors. -/
def DiskImage.Keeps (m : Medium) (content : Nat → List UInt8) : DiskImage → Prop
  | disk d => d.diskSize = m.file.size ∧ d.sectorSize = m.sectorSize ∧
    ∀ lba, d.sector lba = content lba
  | cow d => d.toDisk = m.opened ∧ ∀ lba, (d.table lba).getD (m.opened.sector lba) = content lba
  | mem d => d.sectorSize = m.sectorSize ∧ ∀ lba, (d.table lba).getD m.zeros = content lba

section Calls

variable {m : Medium} {content : Nat → List UInt8} {d : DiskImage} {slba n : Nat}

theorem Disk.read_within {d : Disk} (hin : (slba + n) * d.sectorSize ≤ d.diskSize)
    (hlt : d.diskSize < 2 ^ 64) : d.read slba n = joined d.sector slba n := by
  rw [Nat.add_mul] at hin
  rw [Disk.read_eq_map, Nat.mod_eq_of_lt (by omega), Blocks.map_range_mul, joined]
  refine List.flatMap_congr fun i hi => List.map_congr_left fun j hj => ?_
  have hmul := Nat.mul_le_mul_right d.sectorSize (List.mem_range.mp hi)
  rw [Nat.succ_mul] at hmul
  have hj := List.mem_range.mp hj
  rw [if_pos (by omega), Nat.add_mul, Nat.add_assoc]

theorem joined_one (content : Nat → List UInt8) (lba : Nat) :
    joined content lba 1 = content lba := by
  rw [joined, List.range_one, List.flatMap_singleton, Nat.add_zero]

theorem opened_read (m : Medium) (lba : Nat) (hin : m.Range lba 1) :
    m.opened.read lba 1 = m.opened.sector lba := by
  have hread := Disk.read_within (d := m.opened) hin.2 m.size_lt
  rwa [joined_one] at hread

theorem Medium.Range.one (h : m.Range slba n) {i : Nat} (hi : i < n) : m.Range (slba + i) 1 := by
  have hmul := Nat.mul_le_mul_right m.sectorSize (show slba + i + 1 ≤ slba + n by omega)
  exact ⟨by decide, Nat.le_trans hmul h.2⟩

/-- An image that stands for the sectors reads as them. -/
theorem DiskImage.Keeps.shows (h : d.Keeps m content) : d.Shows m content := by
  intro slba n hrange
  cases d with
  | disk d =>
    obtain ⟨hsize, hsector, hcontent⟩ := h
    show d.read slba n = _
    rw [Disk.read_within (by rw [hsector, hsize]; exact hrange.2) (by rw [hsize]; exact m.size_lt),
      funext hcontent]
  | cow d =>
    obtain ⟨hopened, hcontent⟩ := h
    show (List.range n).flatMap _ = _
    refine List.flatMap_congr fun i hi => ?_
    rw [← hcontent, hopened]
    cases d.table (slba + i) with
    | some block => rfl
    | none => exact opened_read m _ (hrange.one (List.mem_range.mp hi))
  | mem d =>
    obtain ⟨hsector, hcontent⟩ := h
    show (List.range n).flatMap _ = _
    refine List.flatMap_congr fun i _ => ?_
    rw [← hcontent, hsector]
    cases d.table (slba + i) with
    | some block => rfl
    | none => rfl

theorem insertBlocks_getD (size : Nat) (table : Blocks.Store UInt8) (buffer blank : List UInt8)
    (lba : Nat) : (insertBlocks size table slba n buffer lba).getD blank =
      if slba ≤ lba ∧ lba < slba + n then slice size (lba - slba) buffer
      else (table lba).getD blank := by
  rw [insertBlocks, Blocks.Store.foldl_update, Blocks.Store.write]
  split <;> rfl

/-- A write stays within its sectors. -/
theorem DiskImage.Keeps.write (h : d.Keeps m content) {buffer : List UInt8}
    (hin : m.Within (.write slba n buffer)) :
    (d.write slba n buffer).Keeps m (m.expect content (.write slba n buffer)) := by
  obtain ⟨hrange, hlength⟩ := hin
  cases d with
  | disk d =>
    obtain ⟨hsize, hsector, hcontent⟩ := h
    refine ⟨hsize, hsector, fun lba => ?_⟩
    have hfit : (slba + n) * d.sectorSize < 2 ^ 64 := by
      rw [hsector]
      exact Nat.lt_of_le_of_lt hrange.2 m.size_lt
    have hbytes : (d.write slba n buffer).sector lba = (List.range d.sectorSize).map fun j =>
        if slba ≤ lba ∧ lba < slba + n then (slice d.sectorSize (lba - slba) buffer).getD j 0
        else d.disk (lba * d.sectorSize + j) :=
      List.map_congr_left fun j hj => Disk.write_byte hfit buffer (List.mem_range.mp hj)
    rw [hbytes, Medium.expect]
    dsimp only
    split
    · next hlba =>
      rw [hsector]
      have hslice := Blocks.length_slice hlength (show lba - slba < n by omega)
      refine List.ext_getElem (by simp [hslice]) fun j hj hj' => ?_
      rw [List.getElem_map, List.getElem_range, List.getD_eq_getElem _ _ hj']
    · exact hcontent lba
  | cow d =>
    obtain ⟨hopened, hcontent⟩ := h
    refine ⟨hopened, fun lba => ?_⟩
    have hsector : d.sectorSize = m.sectorSize := by rw [hopened]; rfl
    show (insertBlocks d.sectorSize d.table slba n buffer lba).getD _ = _
    rw [insertBlocks_getD, hcontent, hsector]
    rfl
  | mem d =>
    obtain ⟨hsector, hcontent⟩ := h
    refine ⟨hsector, fun lba => ?_⟩
    show (insertBlocks d.sectorSize d.table slba n buffer lba).getD _ = _
    rw [insertBlocks_getD, hcontent, hsector]
    rfl

theorem foldl_update_none (table : Blocks.Store UInt8) (slba n lba : Nat) :
    (List.range n).foldl (fun (table : Blocks.Store UInt8) i =>
      Function.update table (slba + i) none) table lba =
        if slba ≤ lba ∧ lba < slba + n then none else table lba := by
  induction n with
  | zero =>
    rw [if_neg (by omega)]
    rfl
  | succ n ih =>
    rw [List.range_succ, List.foldl_append, List.foldl_cons, List.foldl_nil]
    by_cases hlast : lba = slba + n
    · subst hlast
      rw [Function.update_self, if_pos (by omega)]
    · rw [Function.update_of_ne hlast, ih]
      exact if_congr (by omega) rfl rfl

/-- Erasing sectors of zeros changes nothing. -/
theorem expect_erase (h : ∀ lba, slba ≤ lba → lba < slba + n → content lba = m.zeros) :
    m.expect content (.erase slba n) = content := by
  funext lba
  rw [Medium.expect]
  dsimp only
  split
  · next hlba => exact (h lba hlba.1 hlba.2).symm
  · rfl

/-- The image gives up what is erased. -/
def DiskImage.forgets : DiskImage → Bool
  | disk _ => false
  | cow _ => false
  | mem _ => true

theorem DiskImage.forgets_call (d : DiskImage) (c : DiskCall) : (d.call c).forgets = d.forgets := by
  cases c <;> cases d <;> rfl

/-- An erase leaves zeros in memory alone, and elsewhere when they are there already. -/
theorem DiskImage.Keeps.erase (h : d.Keeps m content)
    (hzeros : d.forgets = true ∨
      ∀ lba, slba ≤ lba → lba < slba + n → content lba = m.zeros) :
    (d.erase slba n).Keeps m (m.expect content (.erase slba n)) := by
  cases d with
  | disk d =>
    rw [expect_erase (hzeros.resolve_left Bool.false_ne_true)]
    exact h
  | cow d =>
    rw [expect_erase (hzeros.resolve_left Bool.false_ne_true)]
    exact h
  | mem d =>
    obtain ⟨hsector, hcontent⟩ := h
    refine ⟨hsector, fun lba => ?_⟩
    show ((List.range n).foldl _ d.table lba).getD _ = _
    rw [foldl_update_none, Medium.expect]
    dsimp only
    split
    · rfl
    · exact hcontent lba

end Calls

/-! ### Runs -/

section Runs

variable {m : Medium} {first : Nat → List UInt8} {d : DiskImage} {calls : List DiskCall}

theorem content_concat (m : Medium) (first : Nat → List UInt8) (calls : List DiskCall)
    (c : DiskCall) : m.content first (calls ++ [c]) = m.expect (m.content first calls) c := by
  rw [Medium.content, List.foldl_append]
  rfl

theorem call_concat (d : DiskImage) (calls : List DiskCall) (c : DiskCall) :
    (calls ++ [c]).foldl DiskImage.call d = (calls.foldl DiskImage.call d).call c := by
  rw [List.foldl_append]
  rfl

/-- Sectors are erased only when they hold zeros. -/
def ErasesZeros (m : Medium) (first : Nat → List UInt8) (calls : List DiskCall) : Prop :=
  ∀ before slba n, before ++ [.erase slba n] <+: calls →
    ∀ lba, slba ≤ lba → lba < slba + n → m.content first before lba = m.zeros

theorem forgets_foldl (d : DiskImage) (calls : List DiskCall) :
    (calls.foldl DiskImage.call d).forgets = d.forgets := by
  induction calls generalizing d with
  | nil => rfl
  | cons c calls ih => rw [List.foldl_cons, ih, DiskImage.forgets_call]

/-- A run: an image that stands for its sectors in the beginning does so in the end. -/
theorem run_keeps (hd : d.Keeps m first) (hcalls : ∀ c ∈ calls, m.Within c)
    (herase : d.forgets = true ∨ ErasesZeros m first calls) :
    (calls.foldl DiskImage.call d).Keeps m (m.content first calls) := by
  induction calls using List.reverseRecOn with
  | nil => exact hd
  | append_singleton calls c ih =>
    have hbefore := ih (fun c' hc' => hcalls c' (List.mem_append_left _ hc')) <|
      herase.imp_right fun hzeros before slba n hfront =>
        hzeros before slba n (hfront.trans (List.prefix_append _ _))
    have hc := hcalls c (List.mem_append_right _ List.mem_cons_self)
    rw [content_concat, call_concat]
    cases c with
    | read slba n => exact hbefore
    | write slba n buffer => exact hbefore.write hc
    | erase slba n =>
      refine hbefore.erase ?_
      rw [forgets_foldl]
      exact herase.imp_right fun hzeros => hzeros calls slba n (List.prefix_refl _)

/-! ### The images as they are opened -/

theorem keeps_disk (m : Medium) : m.disk.Keeps m m.opened.sector :=
  ⟨rfl, rfl, fun _ => rfl⟩

theorem keeps_cow (m : Medium) : m.cow.Keeps m m.opened.sector :=
  ⟨rfl, fun _ => rfl⟩

theorem keeps_mem (m : Medium) : m.mem.Keeps m fun _ => m.zeros :=
  ⟨rfl, fun _ => rfl⟩

/-- The sectors of a file of zeros. -/
theorem opened_sector (hfile : ∀ i, m.file.byte i = 0) : m.opened.sector = fun _ => m.zeros := by
  funext lba
  refine List.eq_replicate_iff.mpr ⟨by simp [Disk.sector, Medium.opened, Disk.openFile], ?_⟩
  intro b hb
  obtain ⟨j, -, rfl⟩ := List.mem_map.mp hb
  exact hfile _

/-- When zeros alone are erased, the images agree after every call. -/
theorem agree_of_erasesZeros (hcalls : ∀ c ∈ calls, m.Within c)
    (herase : ErasesZeros m m.opened.sector calls) : Agree m calls := by
  have hdisk := (run_keeps (keeps_disk m) hcalls (.inr herase)).shows
  have hcow := (run_keeps (keeps_cow m) hcalls (.inr herase)).shows
  have hmem := (run_keeps (keeps_mem m) hcalls (.inl rfl)).shows
  refine ⟨hdisk, hcow, hmem, fun hfile slba n hrange => ?_⟩
  rw [hdisk slba n hrange, hcow slba n hrange, hmem slba n hrange, opened_sector hfile]
  exact ⟨rfl, rfl⟩

/-- The file holds the same after an erase as before it. -/
theorem call_erase_disk (before : List DiskCall) (slba n : Nat) :
    (before.foldl DiskImage.call m.disk).call (.erase slba n) =
      before.foldl DiskImage.call m.disk := by
  have hforgets := forgets_foldl m.disk before
  cases hd : before.foldl DiskImage.call m.disk with
  | disk d => rfl
  | cow d => rfl
  | mem d =>
    rw [hd] at hforgets
    cases hforgets

/-- The three images agree after every call exactly when no sector is erased that holds anything
but zeros. -/
theorem images_agree_iff (m : Medium) (calls : List DiskCall) (hcalls : ∀ c ∈ calls, m.Within c) :
    (∀ before, before <+: calls → Agree m before) ↔ ErasesZeros m m.opened.sector calls := by
  constructor
  · intro hagree before slba n hfront lba hle hlt
    have hin : m.Range (slba + (lba - slba)) 1 :=
      Medium.Range.one (hcalls _ (hfront.subset (List.mem_append_right _ List.mem_cons_self)))
        (by omega)
    rw [Nat.add_sub_cancel' hle] at hin
    -- the same data is read before the erase and after it
    have hbefore := (hagree before ((List.prefix_append _ _).trans hfront)).disk lba 1 hin
    have hafter := (hagree _ hfront).disk lba 1 hin
    rw [call_concat, call_erase_disk, hbefore, joined_one, joined_one, content_concat,
      Medium.expect] at hafter
    dsimp only at hafter
    rwa [if_pos ⟨hle, hlt⟩] at hafter
  · intro herase before hfront
    exact agree_of_erasesZeros (fun c hc => hcalls c (hfront.subset hc))
      fun before' slba n hfront' => herase before' slba n (hfront'.trans hfront)

/-- A file of two sectors of one byte. -/
def smallFile : Medium where
  file := ⟨2, fun _ => 0⟩
  sectorSize := 1
  sectorSize_pos := Nat.one_pos
  sectorSize_le := by decide
  size_lt := by decide

theorem images_agree_other_sector :
    (∀ before, before <+: [DiskCall.write 0 1 [5], .erase 1 1] → Agree smallFile before) ↔
      ErasesZeros smallFile smallFile.opened.sector [.write 0 1 [5], .erase 1 1] := by
  have hwrite : smallFile.Within (.write 0 1 [5]) := ⟨⟨by decide, by decide⟩, rfl⟩
  have herase : smallFile.Within (.erase 1 1) := ⟨by decide, by decide⟩
  exact images_agree_iff smallFile [.write 0 1 [5], .erase 1 1]
    (List.forall_mem_cons.mpr ⟨hwrite, List.forall_mem_singleton.mpr herase⟩)

/-- What was written is read again from the file after it is erased, and from memory alone it is
not. -/
theorem not_agree_erase : ¬ ∀ (m : Medium) (calls : List DiskCall), (∀ c ∈ calls, m.Within c) →
    Agree m calls := by
  intro hall
  have hwrite : smallFile.Within (.write 0 1 [5]) := ⟨⟨by decide, by decide⟩, rfl⟩
  have herase : smallFile.Within (.erase 0 1) := ⟨by decide, by decide⟩
  have hagree := hall smallFile [.write 0 1 [5], .erase 0 1]
    (List.forall_mem_cons.mpr ⟨hwrite, List.forall_mem_singleton.mpr herase⟩)
  have hread := (hagree.same (fun _ => rfl) 0 1 ⟨by decide, by decide⟩).1
  revert hread
  decide

end Runs

end SimpleSSD
