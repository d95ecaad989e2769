import SimpleSSD.HIL.DMA
import SimpleSSD.HIL.NVMe.ChunkReport
import SimpleSSD.Util.Disk

/-!
# The data of Open-Channel SSDs (ocssd.cc:297–342, 766–1129 and 2205–2472)

The flash only takes time; the data is kept in a memory image. The handlers of the two versions of
the device write to it and read from it, block by block, and the commands are issued one after
another.

A read is to bring to the host what was last written to each block since its chunk was reset, and
nothing else. It does in every run in which no reset or erase leaves data of its chunk in the image,
a write with refused blocks is one whose answer is right, and the buffer of a vector read is no
longer than its blocks (`data_kept`).
-/

namespace SimpleSSD.HIL.NVMe

open Blocks (Store slice)
open Batch (Verdict)
open PAL (CPDPBP)

/-! ### The image and the host -/

/-- The calls `pDisk->write(lbaList.at(i), 1, buffer + i * LBA_SIZE)` for some places `i`. -/
def writeBlocks (d : MemDisk) (lbaList : List Nat) (buffer : List UInt8) (places : List Nat) :
    MemDisk :=
  places.foldl (fun d i => d.write (lbaList.getD i 0) 1 (buffer.drop (i * ocssdLbaSize))) d

/-- The calls `pDisk->read(lba, 1, buffer + i * LBA_SIZE)`. -/
def readBlocks (d : MemDisk) (lbaList : List Nat) : List UInt8 :=
  lbaList.flatMap fun lba => d.read lba 1

/-- What the host finds in its memory after `dma->write(0, size, buffer)`: as much of the buffer as
the chunks take. -/
def toHost (chunkList : List Chunk) (buffer : List UInt8) : List UInt8 :=
  buffer.take (Chunk.requests buffer.length chunkList).sum

/-- What a read is to bring to the host. -/
def content (written : Store UInt8) (lbaList : List Nat) : List UInt8 :=
  lbaList.flatMap fun lba => written.block ocssdLbaSize 0 lba

/-- A list of logical blocks in a command. -/
def ListValid (lbaList : List Nat) : Prop := 0 < lbaList.length ∧ lbaList.length ≤ 64

/-- The memory of the host that a read is to fill: there is no chunk without data, and room for all
blocks. -/
def HostValid (n : Nat) (chunkList : List Chunk) : Prop :=
  (∀ c ∈ chunkList, c.ignore = false ∧ 0 < c.length) ∧
    n * ocssdLbaSize ≤ (chunkList.map Chunk.length).sum

/-- The image holds what was last written to each block. -/
structure KeepsData (d : MemDisk) (written : Store UInt8) : Prop where
  size : d.sectorSize = ocssdLbaSize
  table : d.table = written
  sized : written.Sized ocssdLbaSize

theorem openFile_keepsData (size : Nat) :
    KeepsData (MemDisk.openFile size ocssdLbaSize) Store.empty := ⟨rfl, rfl, Store.sized_empty⟩

section Image

variable {d : MemDisk} {lbaList : List Nat} {buffer : List UInt8} {places : List Nat}

theorem write_one (hsize : d.sectorSize = ocssdLbaSize) (lba i : Nat) :
    d.write lba 1 (buffer.drop (i * ocssdLbaSize)) =
      { d with table := Function.update d.table lba (some (slice ocssdLbaSize i buffer)) } := by
  rw [MemDisk.write, insertBlocks, hsize]
  simp [slice]

theorem writeBlocks_eq (hsize : d.sectorSize = ocssdLbaSize) :
    writeBlocks d lbaList buffer places = { d with
      table := d.table.scatter ocssdLbaSize (fun i => lbaList.getD i 0) places buffer } := by
  induction places generalizing d with
  | nil => rfl
  | cons i places ih =>
    have hrest := ih (d := d.write (lbaList.getD i 0) 1 (buffer.drop (i * ocssdLbaSize))) hsize
    rw [write_one hsize] at hrest
    rw [writeBlocks, List.foldl_cons, write_one hsize]
    exact hrest

theorem readBlocks_eq (hsize : d.sectorSize = ocssdLbaSize) :
    readBlocks d lbaList = content d.table lbaList := by
  refine List.flatMap_congr fun lba _ => ?_
  rw [MemDisk.read, hsize, List.range_one, List.flatMap_singleton, Nat.add_zero, Store.block]
  cases d.table lba with
  | none => rfl
  | some block => rfl

theorem length_content {written : Store UInt8} (lbaList : List Nat)
    (h : written.Sized ocssdLbaSize) :
    (content written lbaList).length = lbaList.length * ocssdLbaSize := by
  induction lbaList with
  | nil => rw [content, List.flatMap_nil, List.length_nil, List.length_nil, Nat.zero_mul]
  | cons lba lbaList ih =>
    rw [content, List.flatMap_cons, List.length_append, h.length_block, List.length_cons,
      Nat.succ_mul, Nat.add_comm]
    exact congrArg (· + ocssdLbaSize) ih

theorem writeBlocks_written {written : Store UInt8} (h : KeepsData d written)
    (hbuffer : buffer.length = lbaList.length * ocssdLbaSize)
    (hplaces : ∀ i ∈ places, i < lbaList.length) :
    KeepsData (writeBlocks d lbaList buffer places)
      (written.scatter ocssdLbaSize (fun i => lbaList.getD i 0) places buffer) := by
  rw [writeBlocks_eq h.size]
  refine ⟨h.size, ?_, h.sized.scatter hbuffer hplaces⟩
  exact congrArg (Store.scatter · ocssdLbaSize (fun i => lbaList.getD i 0) places buffer) h.table

/-- A buffer that begins with the blocks of a read, and memory that takes them and no more. -/
theorem toHost_content {written : Store UInt8} (h : KeepsData d written) {chunkList : List Chunk}
    (hvalid : HostValid lbaList.length chunkList) (more : List UInt8)
    (hroom : min (lbaList.length * ocssdLbaSize + more.length) (chunkList.map Chunk.length).sum ≤
      lbaList.length * ocssdLbaSize) :
    toHost chunkList (readBlocks d lbaList ++ more) = content written lbaList ∧
      (content written lbaList).length = lbaList.length * ocssdLbaSize := by
  have hlength := length_content lbaList h.sized
  refine ⟨?_, hlength⟩
  have hle := hvalid.2
  rw [toHost, readBlocks_eq h.size, h.table, Chunk.sum_requests fun c hc => (hvalid.1 c hc).1,
    List.length_append, hlength, le_antisymm hroom (by omega), ← hlength]
  exact List.take_left

end Image

/-! ### Version 2.0 -/

/-- `OpenChannelSSD20`, with `pDisk`. -/
structure VectorSSD extends OpenChannelSSD where
  pDisk : MemDisk

/-- The vector commands: with the data of the host, or with its memory. -/
inductive VectorCommand where
  | write (lbaList : List Nat) (data : List UInt8)
  | read (lbaList : List Nat) (chunkList : List Chunk)
  | reset (lbaList : List Nat)

namespace VectorSSD

variable {p : OCSSDParameter} {undef : Nat → BitVec 64} {s : VectorSSD} {written : Store UInt8}

def init (size : Nat) : VectorSSD := ⟨OpenChannelSSD.init, MemDisk.openFile size ocssdLbaSize⟩

/-- `vectorChunkRead` (ocssd.cc:2205–2299). The buffer has room for a block more than is read. -/
def vectorChunkRead (s : VectorSSD) (lbaList : List Nat) (chunkList : List Chunk) : List UInt8 :=
  toHost chunkList (readBlocks s.pDisk lbaList ++ List.replicate ocssdLbaSize 0)

/-- The device after a command. A reset leaves `pDisk` alone. -/
def exec (p : OCSSDParameter) (undef : Nat → BitVec 64) (s : VectorSSD) : VectorCommand → VectorSSD
  | .write lbaList data =>
    let r := s.writeInternal p lbaList
    ⟨r.2, writeBlocks s.pDisk lbaList data (writtenToDisk undef r.1 lbaList.length)⟩
  | .read _ _ => s
  | .reset lbaList => ⟨(s.eraseInternal p lbaList).2, s.pDisk⟩

/-- What was last written to each block: the blocks that a write does not refuse hold their data,
and those of a chunk that is reset hold nothing. -/
def specify (p : OCSSDParameter) (s : OpenChannelSSD) (written : Store UInt8) :
    VectorCommand → Store UInt8
  | .write lbaList data => written.scatter ocssdLbaSize (fun i => lbaList.getD i 0)
      (keptPlaces (writeVerdict p s.pDescriptor lbaList).refused) data
  | .read _ _ => written
  | .reset lbaList => written.clear fun lba =>
      ∃ page ∈ (resetVerdict p s.pDescriptor lbaList).taken, SamePage true page (p.pageOf lba)

/-- A device, and what was last written to each of its blocks. -/
abbrev Session := VectorSSD × Store UInt8

def step (p : OCSSDParameter) (undef : Nat → BitVec 64) (σ : Session) (c : VectorCommand) :
    Except Fault Session :=
  .ok (σ.1.exec p undef c, specify p σ.1.toOpenChannelSSD σ.2 c)

/-- The command is one of the host. -/
def Valid (_ : Session) : VectorCommand → Prop
  | .write lbaList data => ListValid lbaList ∧ data.length = lbaList.length * ocssdLbaSize
  | .read lbaList chunkList => ListValid lbaList ∧ HostValid lbaList.length chunkList
  | .reset lbaList => ListValid lbaList

/-- No block of a write is refused, or its answer is right; a read has no room for more than its
blocks; a chunk that is reset has no data in the image. -/
def Safe (p : OCSSDParameter) (σ : Session) : VectorCommand → Prop
  | .write lbaList _ =>
    (∀ b ∈ (writeVerdict p σ.1.pDescriptor lbaList).refused, b = false) ∨
      RefusedLast false (lbaList.map p.pageOf) (writeVerdict p σ.1.pDescriptor lbaList) ∧
        lbaList.length ≤ 32
  | .read lbaList chunkList => (chunkList.map Chunk.length).sum ≤ lbaList.length * ocssdLbaSize
  | .reset lbaList => ∀ lba,
      (∃ page ∈ (resetVerdict p σ.1.pDescriptor lbaList).taken, SamePage true page (p.pageOf lba)) →
        σ.1.pDisk.table lba = none

/-- A read brings to the host what was last written to its blocks, and no more. -/
def ReadsRight (σ : Session) : VectorCommand → Prop
  | .read lbaList chunkList =>
    σ.1.vectorChunkRead lbaList chunkList = content σ.2 lbaList ∧
      (σ.1.vectorChunkRead lbaList chunkList).length = lbaList.length * ocssdLbaSize
  | _ => True

theorem step_keepsData {σ σ' : Session} {c : VectorCommand} (h : KeepsData σ.1.pDisk σ.2)
    (hvalid : Valid σ c) (hsafe : Safe p σ c) (hstep : step p undef σ c = .ok σ') :
    KeepsData σ'.1.pDisk σ'.2 := by
  cases hstep
  cases c with
  | write lbaList data =>
    have hplaces := writtenToDisk_eq hvalid.1.2 hsafe undef
    show KeepsData (writeBlocks _ _ _ _) _
    rw [hplaces]
    refine writeBlocks_written h hvalid.2 fun i hi => ?_
    rw [← writeVerdict_length p σ.1.pDescriptor lbaList]
    exact List.mem_range.mp (List.mem_filter.mp hi).1
  | read lbaList chunkList => exact h
  | reset lbaList =>
    refine ⟨h.size, ?_, h.sized.clear _⟩
    have hempty := hsafe
    rw [Safe, h.table] at hempty
    exact h.table.trans (Store.clear_eq_self _ hempty).symm

theorem readsRight_of_keepsData {σ : Session} {c : VectorCommand} (h : KeepsData σ.1.pDisk σ.2)
    (hvalid : Valid σ c) (hsafe : Safe p σ c) : ReadsRight σ c := by
  cases c with
  | write lbaList data => trivial
  | reset lbaList => trivial
  | read lbaList chunkList =>
    obtain ⟨hread, hlength⟩ := toHost_content h hvalid.2 (List.replicate ocssdLbaSize 0)
      ((Nat.min_le_right _ _).trans hsafe)
    exact ⟨hread, (congrArg List.length hread).trans hlength⟩

end VectorSSD

/-! ### Version 1.2 -/

namespace OCSSDParameter

/-- `parsePPA` and `convertUnit` (ocssd.cc:297–325): the flash address, unless the bits that have no
meaning are set. The masks are those of `init` (ocssd.cc:127–157). -/
def parsePPA (p : OCSSDParameter) (ppa : Nat) : Option CPDPBP :=
  let bits := BitVec.ofNat 64 ppa
  let sector := generateMask (p.superPageSize / ocssdLbaSize) 0
  let page := generateMask p.page sector.2
  let block := generateMask p.chunk page.2
  let way := generateMask p.parallelUnit block.2
  let channel := generateMask p.group way.2
  if bits &&& ~~~(sector.1 ^^^ page.1 ^^^ block.1 ^^^ way.1 ^^^ channel.1) = 0 then
    some (p.convert
      ⟨((bits &&& channel.1) >>> way.2).toNat % 2 ^ 32,
        ((bits &&& way.1) >>> block.2).toNat % 2 ^ 32,
        ((bits &&& block.1) >>> page.2).toNat % 2 ^ 32⟩
      (((bits &&& page.1) >>> sector.2).toNat % 2 ^ 32))
  else none

/-- The block of the flash that holds an address. -/
def blockOf (p : OCSSDParameter) (ppa : Nat) : Option CPDPBP :=
  (p.parsePPA ppa).map fun addr => { addr with page := 0 }

/-- The address is one of the list, or in a block with one. -/
def erases (p : OCSSDParameter) (ppaList : List Nat) (ppa : Nat) : Bool :=
  ppaList.any fun ppa' => ppa' == ppa || (p.blockOf ppa').isSome && p.blockOf ppa' == p.blockOf ppa

/-- `mergeList` (ocssd.cc:327–350). -/
def mergeList (p : OCSSDParameter) (block : Bool) (lbaList : List Nat) : List CPDPBP :=
  (lbaList.filterMap p.parsePPA).foldl (fun list temp =>
    match list.getLast? with
    | none => list ++ [temp]
    | some back =>
      if (if block then { back with page := temp.page } else back) = temp then list
      else list ++ [temp]) []

end OCSSDParameter

/-- `OpenChannelSSD12`: what was written to the flash and erased, and `pDisk`. -/
structure OpenChannelSSD12 where
  flash : List (ZoneOp CPDPBP)
  pDisk : MemDisk

/-- The commands for physical addresses. -/
inductive PhysicalCommand where
  | write (ppaList : List Nat) (data : List UInt8)
  | read (ppaList : List Nat) (chunkList : List Chunk)
  | erase (ppaList : List Nat)

namespace OpenChannelSSD12

variable {p : OCSSDParameter} {s : OpenChannelSSD12}

def init (size : Nat) : OpenChannelSSD12 := ⟨[], MemDisk.openFile size ocssdLbaSize⟩

/-- `physicalPageRead` (ocssd.cc:1005–1129). -/
def physicalPageRead (s : OpenChannelSSD12) (ppaList : List Nat) (chunkList : List Chunk) :
    List UInt8 :=
  toHost chunkList (readBlocks s.pDisk ppaList)

/-- The device after a command. `physicalBlockErase` (ocssd.cc:766–877) erases the blocks of the
flash that hold the addresses of the list, and from `pDisk` the addresses themselves. -/
def exec (p : OCSSDParameter) (s : OpenChannelSSD12) : PhysicalCommand → OpenChannelSSD12
  | .write ppaList data =>
    ⟨s.flash ++ (p.mergeList false ppaList).map OpenChannelSSD.palWrite,
      writeBlocks s.pDisk ppaList data (List.range ppaList.length)⟩
  | .read _ _ => s
  | .erase ppaList =>
    ⟨s.flash ++ (p.mergeList true ppaList).map OpenChannelSSD.palErase,
      ppaList.foldl (fun d ppa => d.erase ppa 1) s.pDisk⟩

/-- What was last written to each address: those in a block that is erased hold nothing. -/
def specify (p : OCSSDParameter) (written : Store UInt8) : PhysicalCommand → Store UInt8
  | .write ppaList data => written.scatter ocssdLbaSize (fun i => ppaList.getD i 0)
      (List.range ppaList.length) data
  | .read _ _ => written
  | .erase ppaList => written.clear fun ppa => p.erases ppaList ppa = true

/-- A device, and what was last written to each of its addresses. -/
abbrev Session := OpenChannelSSD12 × Store UInt8

def step (p : OCSSDParameter) (σ : Session) (c : PhysicalCommand) : Except Fault Session :=
  .ok (σ.1.exec p c, specify p σ.2 c)

/-- The command is one of the host. -/
def Valid (_ : Session) : PhysicalCommand → Prop
  | .write ppaList data => ListValid ppaList ∧ data.length = ppaList.length * ocssdLbaSize
  | .read ppaList chunkList => ListValid ppaList ∧ HostValid ppaList.length chunkList
  | .erase ppaList => ListValid ppaList

/-- Of the blocks that are erased, only addresses of the list have data in the image. -/
def Safe (p : OCSSDParameter) (σ : Session) : PhysicalCommand → Prop
  | .erase ppaList => ∀ ppa, p.erases ppaList ppa = true → ppa ∉ ppaList →
      σ.1.pDisk.table ppa = none
  | _ => True

/-- A read brings to the host what was last written to its addresses, and no more. -/
def ReadsRight (σ : Session) : PhysicalCommand → Prop
  | .read ppaList chunkList =>
    σ.1.physicalPageRead ppaList chunkList = content σ.2 ppaList ∧
      (σ.1.physicalPageRead ppaList chunkList).length = ppaList.length * ocssdLbaSize
  | _ => True

/-- The addresses of the list are given up. -/
theorem foldl_erase (d : MemDisk) (ppaList : List Nat) :
    ppaList.foldl (fun d ppa => d.erase ppa 1) d =
      { d with table := d.table.clear fun ppa => ppaList.contains ppa = true } := by
  induction ppaList generalizing d with
  | nil => rfl
  | cons ppa ppaList ih =>
    rw [List.foldl_cons, ih]
    have htable : (Store.clear (d.erase ppa 1).table fun b => ppaList.contains b = true) =
        d.table.clear fun b => (ppa :: ppaList).contains b = true := by
      funext b
      rw [Store.clear, Store.clear]
      show (if ppaList.contains b = true then none
        else Function.update d.table (ppa + 0) none b) = _
      rw [List.contains_cons, Nat.add_zero]
      by_cases heq : b = ppa
      · subst heq
        simp
      · simp [Function.update_of_ne heq, beq_eq_false_iff_ne.mpr heq]
    rw [htable]
    rfl

theorem erase_keepsData {d : MemDisk} {written : Store UInt8} (h : KeepsData d written)
    (ppaList : List Nat) : KeepsData (ppaList.foldl (fun d ppa => d.erase ppa 1) d)
      (written.clear fun ppa => ppaList.contains ppa = true) := by
  rw [foldl_erase]
  refine ⟨h.size, ?_, h.sized.clear _⟩
  exact congrArg (Store.clear · fun ppa => ppaList.contains ppa = true) h.table

theorem step_keepsData {σ σ' : Session} {c : PhysicalCommand} (h : KeepsData σ.1.pDisk σ.2)
    (hvalid : Valid σ c) (hsafe : Safe p σ c) (hstep : step p σ c = .ok σ') :
    KeepsData σ'.1.pDisk σ'.2 := by
  cases hstep
  cases c with
  | write ppaList data =>
    exact writeBlocks_written h hvalid.2 fun i hi => List.mem_range.mp hi
  | read ppaList chunkList => exact h
  | erase ppaList =>
    have hclear : (σ.2.clear fun ppa => p.erases ppaList ppa = true) =
        σ.2.clear fun ppa => ppaList.contains ppa = true := by
      funext b
      rw [Store.clear, Store.clear]
      by_cases hb : b ∈ ppaList
      · have herases : p.erases ppaList b = true :=
          List.any_eq_true.mpr ⟨b, hb, by rw [beq_self_eq_true, Bool.true_or]⟩
        rw [if_pos (List.contains_iff_mem.mpr hb), if_pos herases]
      · rw [if_neg (mt List.contains_iff_mem.mp hb)]
        split
        · next hgone =>
          rw [← h.table]
          exact (hsafe b hgone hb).symm
        · rfl
    show KeepsData _ (σ.2.clear fun ppa => p.erases ppaList ppa = true)
    rw [hclear]
    exact erase_keepsData h ppaList

theorem readsRight_of_keepsData {σ : Session} {c : PhysicalCommand} (h : KeepsData σ.1.pDisk σ.2)
    (hvalid : Valid σ c) : ReadsRight σ c := by
  cases c with
  | write ppaList data => trivial
  | erase ppaList => trivial
  | read ppaList chunkList =>
    obtain ⟨hread, hlength⟩ := toHost_content h hvalid.2 []
      (by rw [List.length_nil, Nat.add_zero]; exact Nat.min_le_left _ _)
    rw [List.append_nil] at hread
    exact ⟨hread, (congrArg List.length hread).trans hlength⟩

end OpenChannelSSD12

/-! ### Runs -/

/-- In every run of commands on a new device of either version, all of them within the limits and
without the defects, each read brings to the host what was last written to its blocks since they
were reset or erased, zeros if nothing was, and no more. -/
theorem data_kept (p : OCSSDParameter) (size : Nat) :
    (∀ (undef : Nat → BitVec 64) (commands : List VectorCommand),
      Run.Along (VectorSSD.step p undef) (fun σ c => VectorSSD.Valid σ c ∧ VectorSSD.Safe p σ c)
        (VectorSSD.init size, Store.empty) commands →
      Run.Along (VectorSSD.step p undef) VectorSSD.ReadsRight
        (VectorSSD.init size, Store.empty) commands) ∧
    ∀ commands : List PhysicalCommand,
      Run.Along (OpenChannelSSD12.step p)
        (fun σ c => OpenChannelSSD12.Valid σ c ∧ OpenChannelSSD12.Safe p σ c)
        (OpenChannelSSD12.init size, Store.empty) commands →
      Run.Along (OpenChannelSSD12.step p) OpenChannelSSD12.ReadsRight
        (OpenChannelSSD12.init size, Store.empty) commands := by
  constructor
  · intro undef commands hsafe
    exact hsafe.imp (I := fun σ => KeepsData σ.1.pDisk σ.2)
      (fun σ c σ' h hc hstep => VectorSSD.step_keepsData h hc.1 hc.2 hstep)
      (fun σ c h hc => VectorSSD.readsRight_of_keepsData h hc.1 hc.2) (openFile_keepsData size)
  · intro commands hsafe
    exact hsafe.imp (I := fun σ => KeepsData σ.1.pDisk σ.2)
      (fun σ c σ' h hc hstep => OpenChannelSSD12.step_keepsData h hc.1 hc.2 hstep)
      (fun σ c h hc => OpenChannelSSD12.readsRight_of_keepsData h hc.1) (openFile_keepsData size)

/-! Two chunks of two blocks of the flash, and a host with room for a block. -/

open OpenChannelSSD (twoChunks)

/-- The data of a block. -/
def ones : List UInt8 := List.replicate ocssdLbaSize 1

/-- The memory of the host for one block. -/
def oneBlock : List Chunk := [⟨0, ocssdLbaSize, false⟩]

section One

variable (lba : Nat)

theorem length_ones : ones.length = [lba].length * ocssdLbaSize := by
  rw [ones, List.length_replicate, List.length_singleton, Nat.one_mul]

theorem listValid_one : ListValid [lba] := ⟨Nat.one_pos, by rw [List.length_singleton]; decide⟩

theorem oneBlock_eq : (oneBlock.map Chunk.length).sum = [lba].length * ocssdLbaSize := by
  rw [List.length_singleton]
  decide

theorem hostValid_one : HostValid [lba].length oneBlock := ⟨by decide, (oneBlock_eq lba).ge⟩

end One

/-- A device of each version, with a block that is written, given up and read. The chunk of the
first one is still open and cannot be reset. -/
theorem data_kept_first :
    Run.Along (VectorSSD.step twoChunks fun _ => 0) VectorSSD.ReadsRight
      (VectorSSD.init 0, Store.empty) [.write [0] ones, .reset [0], .read [0] oneBlock] ∧
    Run.Along (OpenChannelSSD12.step twoChunks) OpenChannelSSD12.ReadsRight
      (OpenChannelSSD12.init 0, Store.empty) [.write [0] ones, .erase [0], .read [0] oneBlock] := by
  have hlist := listValid_one 0
  refine ⟨(data_kept twoChunks 0).1 _ _ ?_, (data_kept twoChunks 0).2 _ ?_⟩
  · refine ⟨⟨⟨hlist, length_ones 0⟩, .inl (by decide +kernel)⟩, ⟨hlist, ?_⟩,
      ⟨⟨hlist, hostValid_one 0⟩, (oneBlock_eq 0).le⟩, trivial⟩
    rintro lba ⟨page, hpage, -⟩
    have htaken : (resetVerdict twoChunks
        (OpenChannelSSD.init.writeInternal twoChunks [0]).2.pDescriptor [0]).taken = [] := by
      decide +kernel
    exact absurd (htaken ▸ hpage) List.not_mem_nil
  · refine ⟨⟨⟨hlist, length_ones 0⟩, trivial⟩, ⟨hlist, ?_⟩, ⟨⟨hlist, hostValid_one 0⟩, trivial⟩,
      trivial⟩
    intro ppa _ hmem
    show (writeBlocks (OpenChannelSSD12.init 0).pDisk [0] _ [0]).table ppa = none
    rw [writeBlocks_eq rfl]
    exact Function.update_of_ne (List.ne_of_not_mem_cons hmem) _ _

/-- A block that is still in the image though it was given up. -/
theorem toHost_ne_content {d : MemDisk} {old new : Store UInt8} {lba : Nat} (h : KeepsData d old)
    (hold : old lba = some ones) (hnew : new lba = none) (more : List UInt8) :
    toHost oneBlock (readBlocks d [lba] ++ more) ≠ content new [lba] := by
  have hread : toHost oneBlock (readBlocks d [lba] ++ more) = content old [lba] :=
    (toHost_content h (hostValid_one lba) more
      ((Nat.min_le_right _ _).trans (oneBlock_eq lba).le)).1
  intro heq
  rw [hread, content, content, List.flatMap_singleton, List.flatMap_singleton, Store.block,
    Store.block, hold, hnew] at heq
  exact absurd ((List.replicate_right_inj (by decide)).mp heq) (by decide)

theorem slice_ones : slice ocssdLbaSize 0 ones = ones := by
  rw [slice, Nat.zero_mul, List.drop_zero, ones, List.take_replicate, Nat.min_self]

theorem VectorSSD.specify_write_one {p : OCSSDParameter} {s : OpenChannelSSD} {lba : Nat}
    (written : Store UInt8)
    (h : keptPlaces (writeVerdict p s.pDescriptor [lba]).refused = [0]) :
    VectorSSD.specify p s written (.write [lba] ones) =
      Function.update written lba (some ones) := by
  rw [VectorSSD.specify, h, Store.scatter, List.foldl_cons, List.foldl_nil, slice_ones]
  rfl

/-- The chunk of two blocks is written, reset and read: its first block is still there. Memory for
two blocks gets two, though one is read. And the block of the flash that holds two addresses is
erased by one of them: the other one is still there. -/
theorem data_not_kept :
    (Run.Along (VectorSSD.step twoChunks fun _ => 0) VectorSSD.Valid (VectorSSD.init 0, Store.empty)
        [.write [0] ones, .write [1] ones, .reset [0], .read [0] oneBlock] ∧
      ¬ Run.Along (VectorSSD.step twoChunks fun _ => 0) VectorSSD.ReadsRight
        (VectorSSD.init 0, Store.empty)
        [.write [0] ones, .write [1] ones, .reset [0], .read [0] oneBlock]) ∧
    (Run.Along (VectorSSD.step twoChunks fun _ => 0) VectorSSD.Valid (VectorSSD.init 0, Store.empty)
        [.read [0] (oneBlock ++ oneBlock)] ∧
      ¬ Run.Along (VectorSSD.step twoChunks fun _ => 0) VectorSSD.ReadsRight
        (VectorSSD.init 0, Store.empty) [.read [0] (oneBlock ++ oneBlock)]) ∧
    Run.Along (OpenChannelSSD12.step twoChunks) OpenChannelSSD12.Valid
        (OpenChannelSSD12.init 0, Store.empty)
        [.write [1] ones, .erase [0], .read [1] oneBlock] ∧
      ¬ Run.Along (OpenChannelSSD12.step twoChunks) OpenChannelSSD12.ReadsRight
        (OpenChannelSSD12.init 0, Store.empty)
        [.write [1] ones, .erase [0], .read [1] oneBlock] := by
  have hlist := listValid_one
  refine ⟨⟨⟨⟨hlist 0, length_ones 0⟩, ⟨hlist 1, length_ones 1⟩, hlist 0, ⟨hlist 0, hostValid_one 0⟩,
    trivial⟩, ?_⟩, ⟨⟨⟨hlist 0, by decide, by decide⟩, trivial⟩, ?_⟩,
    ⟨⟨hlist 1, length_ones 1⟩, hlist 0, ⟨hlist 1, hostValid_one 1⟩, trivial⟩, ?_⟩
  · rintro ⟨-, -, -, hread, -⟩
    have hwrites : Run.Along (VectorSSD.step twoChunks fun _ => 0)
        (fun σ c => VectorSSD.Valid σ c ∧ VectorSSD.Safe twoChunks σ c)
        (VectorSSD.init 0, Store.empty) [.write [0] ones, .write [1] ones] :=
      ⟨⟨⟨hlist 0, length_ones 0⟩, .inl (by decide +kernel)⟩,
        ⟨⟨hlist 1, length_ones 1⟩, .inl (by decide +kernel)⟩, trivial⟩
    have hkept := hwrites.foldlM_inv (I := fun σ => KeepsData σ.1.pDisk σ.2)
      (fun σ c σ' h hc hstep => VectorSSD.step_keepsData h hc.1 hc.2 hstep)
      (openFile_keepsData 0) rfl
    have hreset (written : Store UInt8) : VectorSSD.specify twoChunks
        ((OpenChannelSSD.init.writeInternal twoChunks [0]).2.writeInternal twoChunks [1]).2
        written (.reset [0]) 0 = none := by
      rw [VectorSSD.specify]
      exact Store.clear_of_gone (by decide +kernel)
    refine toHost_ne_content hkept ?_ (hreset _) _ hread.1
    show VectorSSD.specify twoChunks (OpenChannelSSD.init.writeInternal twoChunks [0]).2
      (VectorSSD.specify twoChunks OpenChannelSSD.init Store.empty (.write [0] ones))
      (.write [1] ones) 0 = _
    rw [VectorSSD.specify_write_one _ (by decide +kernel),
      VectorSSD.specify_write_one _ (by decide +kernel), Function.update_of_ne (by decide),
      Function.update_self]
  · rintro ⟨⟨-, hlength⟩, -⟩
    have hblocks :
        (readBlocks (VectorSSD.init 0).pDisk [0]).length = [0].length * ocssdLbaSize := by
      rw [readBlocks_eq rfl]
      exact length_content [0] Store.sized_empty
    rw [VectorSSD.vectorChunkRead] at hlength
    generalize readBlocks _ _ = buffer at hblocks hlength
    rw [toHost, List.length_take, Chunk.sum_requests (by decide), List.length_append,
      List.length_replicate, hblocks] at hlength
    exact absurd hlength (by decide)
  · rintro ⟨-, -, hread, -⟩
    have hkept : KeepsData (writeBlocks (OpenChannelSSD12.init 0).pDisk [1] ones [0])
        (Store.scatter Store.empty ocssdLbaSize (fun i => [1].getD i 0) [0] ones) := by
      refine writeBlocks_written (openFile_keepsData 0) ?_ (by decide)
      exact length_ones 1
    have herase (written : Store UInt8) :
        OpenChannelSSD12.specify twoChunks written (.erase [0]) 1 = none := by
      rw [OpenChannelSSD12.specify]
      exact Store.clear_of_gone (by decide +kernel)
    have hread := hread.1
    rw [OpenChannelSSD12.physicalPageRead, ← List.append_nil (readBlocks _ _)] at hread
    refine toHost_ne_content (OpenChannelSSD12.erase_keepsData hkept [0]) ?_ (herase _) [] hread
    show Function.update Store.empty 1 (some (slice ocssdLbaSize 0 ones)) 1 = some ones
    rw [Function.update_self, slice_ones]

end SimpleSSD.HIL.NVMe
