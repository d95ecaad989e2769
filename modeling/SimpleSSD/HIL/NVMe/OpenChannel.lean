import Mathlib.Logic.Function.Basic
import SimpleSSD.Lib.Zones
import SimpleSSD.PAL.Address
import SimpleSSD.Util.Def

/-!
# Chunks of an Open-Channel SSD 2.0 (hil/nvme/ocssd.cc:1183–1790)

The host writes and resets the chunks of the flash itself, and the descriptors of the chunks say
how far each is written. A command is turned into the pages it is about, each page is admitted or
refused by the descriptor of its chunk, the bits of the refused ones are set in the answer, and
the pages whose bits are not set go to the flash.

The CPU model knows no cycle counts for these functions and stops when it has a core to run them
on; without one it calls them at once, so a command is done with the flash before the next one
begins. The data, the disk image and the latencies are left out, and so is Dataset Management,
which hands its own context to `eraseInternal` as if it were the one of a read or write.
-/

namespace SimpleSSD.HIL.NVMe

open PAL (CPDPBP)

/-- The bytes of a logical block: `LBA_SIZE`. -/
def ocssdLbaSize : Nat := 4096

theorem ocssdLbaSize_lt : ocssdLbaSize < 2 ^ 32 := by decide

/-- `generateMask` (util/algorithm.hh:83–102): the mask, and the count after it. -/
def generateMask (val count : Nat) : BitVec 64 × Nat :=
  let tmp := if val = 0 then 0 else if 2 ^ val.log2 = val then val.log2 else val.log2 + 1
  (~~~(BitVec.allOnes 64 <<< tmp) <<< count, count + tmp)

/-- The parameters of the flash. A page holds a logical block, and the blocks can be counted
in 32 bits. -/
structure OCSSDParameter where
  channel : Nat
  package : Nat
  die : Nat
  plane : Nat
  block : Nat
  page : Nat
  pageSize : Nat
  useMP : Bool
  page_pos : 0 < page
  pageSize_lt : pageSize < 2 ^ 32
  lbaSize_le : ocssdLbaSize ≤ if useMP then pageSize * plane % 2 ^ 32 else pageSize
  blocks_lt : channel * package * die * plane * block < 2 ^ 32

/-- Where a chunk is: its group, its parallel unit and its number there. -/
structure ChunkAddress where
  group : Nat
  parallelUnit : Nat
  chunk : Nat
deriving DecidableEq

/-- `ChunkUpdateEntry`, with the index of the descriptor. -/
structure ChunkUpdateEntry where
  desc : Nat
  pageIdx : Nat
deriving DecidableEq

/-- A page of a command: its flash address and its chunk. -/
abbrev ChunkPage := CPDPBP × ChunkUpdateEntry

namespace OCSSDParameter

/-- The super block includes the planes. -/
def superPageSize (p : OCSSDParameter) : Nat :=
  if p.useMP then p.pageSize * p.plane % 2 ^ 32 else p.pageSize

/-! ### `structure` (ocssd.cc:1218–1224) -/

def group (p : OCSSDParameter) : Nat := p.channel

def parallelUnit (p : OCSSDParameter) : Nat := p.package * p.die

def chunk (p : OCSSDParameter) : Nat := p.block * if p.useMP then 1 else p.plane

def chunkSize (p : OCSSDParameter) : Nat := p.page * p.superPageSize % 2 ^ 32 / ocssdLbaSize

def writeSize (p : OCSSDParameter) : Nat := p.superPageSize / ocssdLbaSize

/-! ### Addresses -/

/-- `parseLBA` (ocssd.cc:1421–1427): the chunk and the logical block in it. -/
def parseLBA (p : OCSSDParameter) (lba : Nat) : ChunkAddress × Nat :=
  let bits := BitVec.ofNat 64 lba
  let sector := generateMask p.chunkSize 0
  let block := generateMask p.chunk sector.2
  let way := generateMask p.parallelUnit block.2
  let channel := generateMask p.group way.2
  (⟨((bits &&& channel.1) >>> way.2).toNat % 2 ^ 32, ((bits &&& way.1) >>> block.2).toNat % 2 ^ 32,
    ((bits &&& block.1) >>> sector.2).toNat % 2 ^ 32⟩, (bits &&& sector.1).toNat % 2 ^ 32)

/-- The index of the descriptor, in 32 bits: `getChunkDescriptor`. -/
def getChunkDescriptor (p : OCSSDParameter) (a : ChunkAddress) : Nat :=
  (a.group * p.parallelUnit * p.chunk + a.parallelUnit * p.chunk + a.chunk) % 2 ^ 32

/-- The flash address of a page of a chunk. -/
def convert (p : OCSSDParameter) (a : ChunkAddress) (page : Nat) : CPDPBP where
  channel := a.group
  package := a.parallelUnit / p.die
  die := a.parallelUnit % p.die
  plane := if p.useMP then 0 else a.chunk % p.plane
  block := if p.useMP then a.chunk else a.chunk / p.plane
  page := page

/-- The page of a logical block. -/
def pageOf (p : OCSSDParameter) (lba : Nat) : ChunkPage :=
  let (a, l) := p.parseLBA lba
  let page := l / p.writeSize
  (p.convert a page, ⟨p.getChunkDescriptor a, page⟩)

/-- `push_back`, unless the page is the one before, or of the same block. -/
def push (block : Bool) (pages : List ChunkPage) (page : ChunkPage) : List ChunkPage :=
  match pages.getLast? with
  | none => pages ++ [page]
  | some back =>
    if (if block then { back.1 with page := page.1.page } else back.1) = page.1 then pages
    else pages ++ [page]

/-- `convertUnit` (ocssd.cc:1429–1488): its two vectors, which are filled together. -/
def convertUnit (p : OCSSDParameter) (block : Bool) (lbaList : List Nat) : List ChunkPage :=
  lbaList.foldl (fun pages lba => push block pages (p.pageOf lba)) []

end OCSSDParameter

/-- `CHUNK_STATE`. -/
inductive ChunkState where
  | free | closed | opened | offline
deriving DecidableEq

/-- The fields of `ChunkDescriptor` that change. -/
structure ChunkDescriptor where
  chunkState : ChunkState
  writePointer : Nat
deriving DecidableEq

/-- The answer to a command: the bits of the pages, and the status code of an error of the media. -/
structure ChunkResponse where
  dword0 : BitVec 32
  reserved : BitVec 32
  status : Option Nat
deriving DecidableEq

/-- What the loop over the pages of a command works on. -/
structure ChunkUpdate where
  pDescriptor : Nat → ChunkDescriptor
  err : Bool
  idx : BitVec 64
  resp : ChunkResponse

namespace ChunkUpdate

def start (pDescriptor : Nat → ChunkDescriptor) : ChunkUpdate :=
  ⟨pDescriptor, false, 1, ⟨0, 0, none⟩⟩

/-- The end of a round: the bit of the page is set if there was an error. -/
def next (u : ChunkUpdate) : ChunkUpdate :=
  let resp :=
    if u.err then
      if u.idx ≤ 0xFFFFFFFF then { u.resp with dword0 := u.resp.dword0 ||| u.idx.setWidth 32 }
      else { u.resp with reserved := u.resp.reserved ||| (u.idx >>> 32).setWidth 32 }
    else u.resp
  { u with idx := u.idx <<< 1, resp := resp }

/-- The bits of the answer. -/
def mask (u : ChunkUpdate) : BitVec 64 :=
  u.resp.reserved.setWidth 64 <<< 32 ||| u.resp.dword0.setWidth 64

/-- "Remove invalid LBAs". -/
def removeInvalid (mask : BitVec 64) (idx : BitVec 64) : List CPDPBP → List CPDPBP
  | [] => []
  | addr :: rest =>
    if mask &&& idx ≠ 0 then removeInvalid mask (idx <<< 1) rest
    else addr :: removeInvalid mask (idx <<< 1) rest

/-- The pages that go to the flash, and the answer. -/
def finish (u : ChunkUpdate) (list : List CPDPBP) : ChunkResponse × List CPDPBP :=
  if u.err then (u.resp, removeInvalid u.mask 1 list)
  else ({ u.resp with dword0 := 0xFFFFFFFF, reserved := 0xFFFFFFFF }, list)

/-! ### Writes -/

/-- The page is refused: the chunk is dead or closed, or the page is behind the write pointer. -/
def writeRefused (p : OCSSDParameter) (desc : ChunkDescriptor) (pageIdx : Nat) : Prop :=
  desc.chunkState = .offline ∨ desc.chunkState = .closed ∨
    desc.chunkState = .opened ∧ pageIdx < desc.writePointer / p.writeSize

instance (p : OCSSDParameter) (desc : ChunkDescriptor) (pageIdx : Nat) :
    Decidable (writeRefused p desc pageIdx) := inferInstanceAs (Decidable (_ ∨ _ ∨ _ ∧ _))

/-- The descriptor after the page is written. -/
def advance (p : OCSSDParameter) (pageIdx : Nat) : ChunkDescriptor where
  chunkState := if pageIdx = p.page - 1 then .closed else .opened
  writePointer := (pageIdx + 1) * p.writeSize % 2 ^ 32

/-- A round of the loop of `writeInternal` (ocssd.cc:1592–1633): an error stays. -/
def writePage (p : OCSSDParameter) (u : ChunkUpdate) (e : ChunkUpdateEntry) : ChunkUpdate :=
  if u.err ∨ writeRefused p (u.pDescriptor e.desc) e.pageIdx then
    next { u with err := true, resp := { u.resp with status := some 0xF2 } }
  else
    next { u with pDescriptor := Function.update u.pDescriptor e.desc (advance p e.pageIdx) }

/-! ### Resets -/

/-- The status code with which a reset is refused. -/
def eraseRefused (desc : ChunkDescriptor) : Option Nat :=
  match desc.chunkState with
  | .offline => some 0xC0
  | .free | .opened => some 0xC1
  | .closed => none

/-- A round of the loop of `eraseInternal` (ocssd.cc:1706–1740): a chunk that can be reset is,
also after an error. -/
def erasePage (u : ChunkUpdate) (e : ChunkUpdateEntry) : ChunkUpdate :=
  match eraseRefused (u.pDescriptor e.desc) with
  | some sc => next { u with err := true, resp := { u.resp with status := some sc } }
  | none => next { u with pDescriptor := Function.update u.pDescriptor e.desc ⟨.free, 0⟩ }

end ChunkUpdate

/-- The device: the descriptors, and what was done to the flash, in order. A block of the flash is
named by the address of its page 0. -/
structure OpenChannelSSD where
  pDescriptor : Nat → ChunkDescriptor
  flash : List (ZoneOp CPDPBP)

namespace OpenChannelSSD

def init : OpenChannelSSD := ⟨fun _ => ⟨.free, 0⟩, []⟩

/-- `PALOLD::write`. -/
def palWrite (addr : CPDPBP) : ZoneOp CPDPBP := .write { addr with page := 0 } addr.page

/-- `PALOLD::erase`. -/
def palErase (addr : CPDPBP) : ZoneOp CPDPBP := .reset { addr with page := 0 }

/-- `writeInternal` (ocssd.cc:1577–1686). -/
def writeInternal (p : OCSSDParameter) (lbaList : List Nat) (s : OpenChannelSSD) :
    ChunkResponse × OpenChannelSSD :=
  let pages := p.convertUnit false lbaList
  let u := (pages.map Prod.snd).foldl (ChunkUpdate.writePage p) (.start s.pDescriptor)
  let (resp, list) := u.finish (pages.map Prod.fst)
  (resp, ⟨u.pDescriptor, s.flash ++ list.map palWrite⟩)

/-- `eraseInternal` (ocssd.cc:1688–1790). -/
def eraseInternal (p : OCSSDParameter) (lbaList : List Nat) (s : OpenChannelSSD) :
    ChunkResponse × OpenChannelSSD :=
  let pages := p.convertUnit true lbaList
  let u := (pages.map Prod.snd).foldl ChunkUpdate.erasePage (.start s.pDescriptor)
  let (resp, list) := u.finish (pages.map Prod.fst)
  (resp, ⟨u.pDescriptor, s.flash ++ list.map palErase⟩)

/-- The commands, with the fields of `dword10` to `dword12`. -/
inductive Command where
  | write (slba nlb : Nat)
  | vectorChunkWrite (lbaList : List Nat)
  | vectorChunkReset (lbaList : List Nat)
deriving DecidableEq

/-- The logical blocks of a command. The list of a scalar write is `{slba, nlb}`, and the loop of
`convertUnit` goes from the one to the other. -/
def Command.lbaList : Command → List Nat
  | .write slba nlb => List.range' slba ((nlb + 1) % 2 ^ 16 - slba)
  | .vectorChunkWrite lbaList => lbaList
  | .vectorChunkReset lbaList => lbaList

/-- One command. A scalar write of 0 blocks is answered at once. -/
def exec (p : OCSSDParameter) (s : OpenChannelSSD) (c : Command) : Except Fault OpenChannelSSD :=
  match c with
  | .write _ nlb =>
    if (nlb + 1) % 2 ^ 16 = 0 then .ok s else .ok (s.writeInternal p c.lbaList).2
  | .vectorChunkWrite _ => .ok (s.writeInternal p c.lbaList).2
  | .vectorChunkReset _ => .ok (s.eraseInternal p c.lbaList).2

/-- The logical block is within the geometry. -/
def InGeometry (p : OCSSDParameter) (lba : Nat) : Prop :=
  (p.parseLBA lba).1.group < p.group ∧ (p.parseLBA lba).1.parallelUnit < p.parallelUnit ∧
    (p.parseLBA lba).1.chunk < p.chunk ∧ (p.parseLBA lba).2 < p.chunkSize

instance (p : OCSSDParameter) (lba : Nat) : Decidable (InGeometry p lba) :=
  inferInstanceAs (Decidable (_ ∧ _ ∧ _ ∧ _))

/-- The list of a vector command has up to 64 logical blocks. -/
def Valid (p : OCSSDParameter) (_ : OpenChannelSSD) (c : Command) : Prop :=
  (∀ lba ∈ c.lbaList, InGeometry p lba) ∧
    match c with
    | .write _ _ => True
    | .vectorChunkWrite lbaList => lbaList.length ≤ 64
    | .vectorChunkReset lbaList => lbaList.length ≤ 64

instance (p : OCSSDParameter) (s : OpenChannelSSD) : (c : Command) → Decidable (Valid p s c)
  | .write slba nlb => inferInstanceAs (Decidable
      ((∀ lba ∈ (Command.write slba nlb).lbaList, InGeometry p lba) ∧ True))
  | .vectorChunkWrite lbaList => inferInstanceAs (Decidable
      ((∀ lba ∈ lbaList, InGeometry p lba) ∧ lbaList.length ≤ 64))
  | .vectorChunkReset lbaList => inferInstanceAs (Decidable
      ((∀ lba ∈ lbaList, InGeometry p lba) ∧ lbaList.length ≤ 64))

end OpenChannelSSD

end SimpleSSD.HIL.NVMe
