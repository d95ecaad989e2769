import SimpleSSD.HIL.NVMe.OpenChannelAddress
import SimpleSSD.HIL.NVMe.ScalarCommands

/-!
# The checks of addresses (hil/nvme/ocssd.cc:297–342, 1403–1488)

The host may put any number into the fields of an address. Version 1.2 skips an address with bits
outside of the fields, without an error; apart from that neither version checks anything. So a
number that its field can hold but that is not below its count goes to the flash, and in version 2.0
to the table of the descriptors. `addresses_validated_iff` says which addresses the devices can take
in any command.

What a command sends to the flash is the list of pages that it hands over to `PALOLD`.
-/

namespace SimpleSSD.HIL.NVMe

open PAL (CPDPBP)

inductive Version where
  | v12
  | v20
deriving DecidableEq

namespace OCSSDParameter

/-- `descriptorLength`. -/
def descriptorLength (p : OCSSDParameter) : Nat := p.group * p.parallelUnit * p.chunk % 2 ^ 32

/-- The masks of version 1.2. -/
def ppaMask12 (p : OCSSDParameter) : Mask :=
  .init12 p.group p.parallelUnit p.chunk p.page p.writeSize

/-- The address is one of the flash. -/
structure InCounts (p : OCSSDParameter) (addr : CPDPBP) : Prop where
  channel : addr.channel < p.channel
  package : addr.package < p.package
  die : addr.die < p.die
  plane : addr.plane < p.plane
  block : addr.block < p.block
  page : addr.page < p.page

end OCSSDParameter

/-- The page of the flash stands for another one: it is the same, or one of the same block. -/
def StandsFor (block : Bool) (addr addr' : CPDPBP) : Prop :=
  (if block then { addr with page := addr'.page } else addr) = addr'

instance (block : Bool) : DecidableRel (StandsFor block) := fun addr addr' =>
  inferInstanceAs (Decidable ((if block then { addr with page := addr'.page } else addr) = addr'))

/-! ### Version 2.0 -/

/-- The commands of version 2.0 with addresses. -/
inductive LogicalCommand where
  | read (slba nlb : Nat)
  | write (slba nlb : Nat)
  | deallocate (slba nlb : Nat)
  | vectorChunkRead (lbaList : List Nat)
  | vectorChunkWrite (lbaList : List Nat)
  | vectorChunkReset (lbaList : List Nat)

namespace LogicalCommand

/-- The addresses that `convertUnit` goes through. -/
def lbaList : LogicalCommand → List Nat
  | read slba nlb => List.range' slba (nlb - slba)
  | write slba nlb => List.range' slba (nlb - slba)
  | deallocate slba nlb => List.range' slba (nlb - slba)
  | vectorChunkRead lbaList => lbaList
  | vectorChunkWrite lbaList => lbaList
  | vectorChunkReset lbaList => lbaList

/-- A vector has 1 to 64 addresses. -/
def Valid : LogicalCommand → Prop
  | vectorChunkRead lbaList => ListValid lbaList
  | vectorChunkWrite lbaList => ListValid lbaList
  | vectorChunkReset lbaList => ListValid lbaList
  | _ => True

/-- The command is for whole blocks. -/
def block : LogicalCommand → Bool
  | deallocate _ _ => true
  | vectorChunkReset _ => true
  | _ => false

end LogicalCommand

namespace OpenChannelSSD

/-- The answer of `writeInternal` and the pages that it writes. -/
def written (p : OCSSDParameter) (lbaList : List Nat) (s : OpenChannelSSD) :
    ChunkResponse × List CPDPBP :=
  let pages := p.convertUnit false lbaList
  ((pages.map Prod.snd).foldl (ChunkUpdate.writePage p) (.start s.pDescriptor)).finish
    (pages.map Prod.fst)

/-- The answer of `eraseInternal` and the blocks that it erases. -/
def erased (p : OCSSDParameter) (lbaList : List Nat) (s : OpenChannelSSD) :
    ChunkResponse × List CPDPBP :=
  let pages := p.convertUnit true lbaList
  ((pages.map Prod.snd).foldl ChunkUpdate.erasePage (.start s.pDescriptor)).finish
    (pages.map Prod.fst)

/-- Every page has its descriptor looked at, which may be outside of the table. -/
def lookUp (p : OCSSDParameter) (block : Bool) (lbaList : List Nat)
    (result : ChunkResponse × List CPDPBP) : Except Fault (ChunkResponse × List CPDPBP) :=
  if ∀ page ∈ p.convertUnit block lbaList, page.2.desc < p.descriptorLength then .ok result
  else .error (.badAccess "pDescriptor")

/-- A command: the answer, and what goes to the flash. A deallocation fails before it looks at a
descriptor, on the context that it takes for one of a read or write. -/
def submit (p : OCSSDParameter) (s : OpenChannelSSD) :
    LogicalCommand → Except Fault (ChunkResponse × List CPDPBP)
  | .read slba nlb =>
    lookUp p false (List.range' slba (nlb - slba))
      (s.readInternal p (List.range' slba (nlb - slba)))
  | .write slba nlb =>
    lookUp p false (List.range' slba (nlb - slba)) (s.written p (List.range' slba (nlb - slba)))
  | .deallocate _ _ => .error (.badAccess "IOContext")
  | .vectorChunkRead lbaList => lookUp p false lbaList (s.readInternal p lbaList)
  | .vectorChunkWrite lbaList => lookUp p false lbaList (s.written p lbaList)
  | .vectorChunkReset lbaList => lookUp p true lbaList (s.erased p lbaList)

/-- No descriptor outside of the table is looked at, the pages that go to the flash are pages of it,
and each address of the command is among them or is refused with an error. -/
structure Validated (p : OCSSDParameter) (s : OpenChannelSSD) (c : LogicalCommand) : Prop where
  table : s.submit p c ≠ .error (.badAccess "pDescriptor")
  sent : ∀ resp list, s.submit p c = .ok (resp, list) → (∀ addr ∈ list, p.InCounts addr) ∧
    ∀ lba ∈ c.lbaList, resp.status ≠ none ∨ ∃ addr ∈ list, StandsFor c.block addr (p.pageOf lba).1

end OpenChannelSSD

/-! ### Version 1.2 -/

/-- The commands of version 1.2 with addresses, all of them vectors. -/
inductive PhysicalVector where
  | physicalPageRead (ppaList : List Nat)
  | physicalPageWrite (ppaList : List Nat)
  | physicalBlockErase (ppaList : List Nat)

namespace PhysicalVector

def ppaList : PhysicalVector → List Nat
  | physicalPageRead ppaList => ppaList
  | physicalPageWrite ppaList => ppaList
  | physicalBlockErase ppaList => ppaList

def block : PhysicalVector → Bool
  | physicalBlockErase _ => true
  | _ => false

/-- What goes to the flash. The answer is success. -/
def submit (p : OCSSDParameter) (c : PhysicalVector) : List CPDPBP := p.mergeList c.block c.ppaList

/-- The pages that go to the flash are pages of it, and each address is among them. -/
structure Validated (p : OCSSDParameter) (c : PhysicalVector) : Prop where
  sent : ∀ addr ∈ c.submit p, p.InCounts addr
  complete : ∀ ppa ∈ c.ppaList, ∃ addr ∈ c.submit p, ∃ addr' ∈ p.parsePPA ppa,
    StandsFor c.block addr addr'

end PhysicalVector

/-- The addresses of a command are all from a set. -/
def From (addresses : Set (BitVec 64)) (l : List Nat) : Prop :=
  ∀ a ∈ l, ∃ x ∈ addresses, x.toNat = a

/-- Every command with addresses from the set is validated, in whatever state it comes. -/
def Validates (p : OCSSDParameter) : Version → Set (BitVec 64) → Prop
  | .v12, addresses => ∀ c : PhysicalVector, ListValid c.ppaList → From addresses c.ppaList →
      c.Validated p
  | .v20, addresses => ∀ (s : OpenChannelSSD) (c : LogicalCommand), c.Valid →
      From addresses c.lbaList → s.Validated p c

/-! ### The addresses that are in order -/

/-- How many bits the fields of the counts have. -/
def addressBits (counts : List Nat) : Nat := (counts.map (Nat.clog 2)).sum

/-- The number in the field of a count, behind the fields of other ones, in 32 bits. -/
def fieldAt (address : BitVec 64) (below : List Nat) (count : Nat) : Nat :=
  address.toNat / 2 ^ addressBits below % 2 ^ Nat.clog 2 count % 2 ^ 32

/-- The numbers in the fields are below their counts, and there are no bits behind the fields of
version 1.2. -/
def AddressInOrder (p : OCSSDParameter) : Version → BitVec 64 → Prop
  | .v12, ppa =>
    ppa.toNat < 2 ^ addressBits [p.writeSize, p.page, p.chunk, p.parallelUnit, p.group] ∧
      fieldAt ppa [p.writeSize] p.page < p.page ∧
      fieldAt ppa [p.writeSize, p.page] p.chunk < p.chunk ∧
      fieldAt ppa [p.writeSize, p.page, p.chunk] p.parallelUnit < p.parallelUnit ∧
      fieldAt ppa [p.writeSize, p.page, p.chunk, p.parallelUnit] p.group < p.group
  | .v20, lba =>
    fieldAt lba [] p.chunkSize < p.page * p.writeSize ∧
      fieldAt lba [p.chunkSize] p.chunk < p.chunk ∧
      fieldAt lba [p.chunkSize, p.chunk] p.parallelUnit < p.parallelUnit ∧
      fieldAt lba [p.chunkSize, p.chunk, p.parallelUnit] p.group < p.group

section Addresses

variable {p : OCSSDParameter}

theorem toNat_field {f : BitField} (below : List Nat) (count : Nat)
    (hshift : f.shift = addressBits below) (hwidth : f.width = Nat.clog 2 count)
    (address : BitVec 64) :
    ((address &&& f.mask 64) >>> f.shift).toNat % 2 ^ 32 = fieldAt address below count := by
  show (f.get address).toNat % 2 ^ 32 = _
  rw [BitField.toNat_get, hshift, hwidth]
  rfl

theorem inCounts_convert (p : OCSSDParameter) (a : ChunkAddress) (page : Nat) :
    p.InCounts (p.convert a page) ↔ p.Contains a ∧ page < p.page := by
  -- a number below a product, and its quotient and remainder
  have hsplit : ∀ x m n : Nat, x < m * n ↔ x / n < m ∧ x % n < n := by
    intro x m n
    rcases Nat.eq_zero_or_pos n with rfl | hpos
    · simp
    · rw [Nat.div_lt_iff_lt_mul hpos, and_iff_left (Nat.mod_lt x hpos)]
  have hchunk : a.chunk < p.chunk ↔ (p.convert a page).block < p.block ∧
      (p.convert a page).plane < p.plane := by
    rw [OCSSDParameter.chunk, OCSSDParameter.convert]
    dsimp only
    split
    · next hmp =>
      have hlba := p.lbaSize_le
      rw [if_pos hmp] at hlba
      have hplane : 0 < p.plane := by
        rcases Nat.eq_zero_or_pos p.plane with hzero | hpos
        · rw [hzero, Nat.mul_zero] at hlba
          exact absurd hlba (by decide)
        · exact hpos
      rw [Nat.mul_one, and_iff_left hplane]
    · exact hsplit a.chunk p.block p.plane
  have hunit := hsplit a.parallelUnit p.package p.die
  constructor
  · rintro ⟨hchannel, hpackage, hdie, hplane, hblock, hpage⟩
    exact ⟨⟨hchannel, hunit.mpr ⟨hpackage, hdie⟩, hchunk.mpr ⟨hblock, hplane⟩⟩, hpage⟩
  · rintro ⟨⟨hgroup, hparallel, hin⟩, hpage⟩
    obtain ⟨hpackage, hdie⟩ := hunit.mp hparallel
    obtain ⟨hblock, hplane⟩ := hchunk.mp hin
    exact ⟨hgroup, hpackage, hdie, hplane, hblock, hpage⟩

/-- Version 2.0: the page of an address is one of the flash when the address is in order. -/
theorem inCounts_pageOf (lba : BitVec 64) :
    p.InCounts (p.pageOf lba.toNat).1 ↔ AddressInOrder p .v20 lba := by
  have hparse : p.parseLBA lba.toNat =
      (⟨fieldAt lba [p.chunkSize, p.chunk, p.parallelUnit] p.group,
        fieldAt lba [p.chunkSize, p.chunk] p.parallelUnit, fieldAt lba [p.chunkSize] p.chunk⟩,
        fieldAt lba [] p.chunkSize) := by
    rw [OCSSDParameter.parseLBA_eq, Mask.init20_eq, BitVec.ofNat_toNat, BitVec.setWidth_eq]
    simp only [Mask.parseLBA, BitVec.toNat_setWidth]
    rw [toNat_field [p.chunkSize, p.chunk, p.parallelUnit] p.group
        (by simp [addressBits, BitField.stop, Nat.add_assoc]) rfl,
      toNat_field [p.chunkSize, p.chunk] p.parallelUnit
        (by simp [addressBits, BitField.stop]) rfl,
      toNat_field [p.chunkSize] p.chunk
        (by simp [addressBits, BitField.stop]) rfl,
      ← toNat_field [] p.chunkSize (f := ⟨0, Nat.clog 2 p.chunkSize⟩) rfl rfl,
      BitVec.ushiftRight_zero]
  rw [OCSSDParameter.pageOf, hparse]
  dsimp only
  rw [inCounts_convert, Nat.div_lt_iff_lt_mul p.writeSize_pos]
  constructor
  · rintro ⟨⟨hgroup, hunit, hchunk⟩, hpage⟩
    exact ⟨hpage, hchunk, hunit, hgroup⟩
  · rintro ⟨hpage, hchunk, hunit, hgroup⟩
    exact ⟨⟨hgroup, hunit, hchunk⟩, hpage⟩

/-- `parsePPA`, as the fields of the address. -/
theorem parsePPA_fields (p : OCSSDParameter) (ppa : BitVec 64) : p.ppaMask12.parsePPA ppa =
    if ppa.toNat < 2 ^ addressBits [p.writeSize, p.page, p.chunk, p.parallelUnit, p.group] then
      some ⟨fieldAt ppa [p.writeSize, p.page, p.chunk, p.parallelUnit] p.group,
        fieldAt ppa [p.writeSize, p.page, p.chunk] p.parallelUnit, 0, 0,
        fieldAt ppa [p.writeSize, p.page] p.chunk, fieldAt ppa [p.writeSize] p.page⟩
    else none := by
  have hpadding := BitField.and_not_union_layout ppa
    ([p.writeSize, p.page, p.chunk, p.parallelUnit, p.group].map (Nat.clog 2))
  rw [OCSSDParameter.ppaMask12, Mask.init12_eq]
  unfold Mask.parsePPA
  rw [← toNat_field [p.writeSize] p.page
      (f := ⟨0 + Nat.clog 2 p.writeSize, Nat.clog 2 p.page⟩) (by simp [addressBits]) rfl,
    ← toNat_field [p.writeSize, p.page] p.chunk
      (f := ⟨0 + Nat.clog 2 p.writeSize + Nat.clog 2 p.page, Nat.clog 2 p.chunk⟩)
      (by simp [addressBits]) rfl,
    ← toNat_field [p.writeSize, p.page, p.chunk] p.parallelUnit
      (f := ⟨0 + Nat.clog 2 p.writeSize + Nat.clog 2 p.page + Nat.clog 2 p.chunk,
        Nat.clog 2 p.parallelUnit⟩) (by simp [addressBits, Nat.add_assoc]) rfl,
    ← toNat_field [p.writeSize, p.page, p.chunk, p.parallelUnit] p.group
      (f := ⟨0 + Nat.clog 2 p.writeSize + Nat.clog 2 p.page + Nat.clog 2 p.chunk +
        Nat.clog 2 p.parallelUnit, Nat.clog 2 p.group⟩) (by simp [addressBits, Nat.add_assoc]) rfl]
  exact if_congr hpadding rfl rfl

/-- Version 1.2: an address is parsed to a page of the flash when it is in order. -/
theorem inCounts_parsePPA (ppa : BitVec 64) :
    (∃ addr ∈ p.parsePPA ppa.toNat, p.InCounts addr) ↔ AddressInOrder p .v12 ppa := by
  have hparse : p.parsePPA ppa.toNat = (p.ppaMask12.parsePPA ppa).map fun addr =>
      p.convert ⟨addr.channel, addr.package, addr.block⟩ addr.page := by
    rw [OCSSDParameter.parsePPA_eq, BitVec.ofNat_toNat, BitVec.setWidth_eq]
    rfl
  rw [hparse, parsePPA_fields]
  split
  · next hlt =>
    simp only [Option.map_some, Option.mem_some_iff, exists_eq_left', inCounts_convert]
    constructor
    · rintro ⟨⟨hgroup, hunit, hchunk⟩, hpage⟩
      exact ⟨hlt, hpage, hchunk, hunit, hgroup⟩
    · rintro ⟨-, hpage, hchunk, hunit, hgroup⟩
      exact ⟨⟨hgroup, hunit, hchunk⟩, hpage⟩
  · next hlt =>
    refine iff_of_false ?_ fun h => hlt h.1
    rintro ⟨addr, haddr, -⟩
    cases haddr

end Addresses

/-! ### What goes to the flash -/

section Sent

variable {p : OCSSDParameter} {s : OpenChannelSSD} {block : Bool} {l : List Nat}

/-- `convertUnit` gives pages of the addresses, and one for each of them. -/
theorem convertUnit_keep (p : OCSSDParameter) (block : Bool) (l : List Nat) :
    (∀ page ∈ p.convertUnit block l, ∃ lba ∈ l, page = p.pageOf lba) ∧
      ∀ lba ∈ l, ∃ page ∈ p.convertUnit block l, StandsFor block page.1 (p.pageOf lba).1 := by
  have hfold : p.convertUnit block l =
      (l.map p.pageOf).foldl (Batch.keep (SamePage block)) [] := by
    have hpush : ∀ pages page, OCSSDParameter.push block pages page =
        Batch.keep (SamePage block) pages page := by
      intro pages page
      rw [OCSSDParameter.push, Batch.keep]
      cases pages.getLast? <;> rfl
    rw [OCSSDParameter.convertUnit, List.foldl_map]
    simp only [hpush]
  obtain ⟨hmem, hlike⟩ := Batch.foldl_keep (SamePage block)
    (fun a => by cases block <;> rfl) (l.map p.pageOf)
  rw [hfold]
  refine ⟨fun page hpage => ?_, fun lba hlba => hlike _ (List.mem_map_of_mem hlba)⟩
  obtain ⟨lba, hlba, heq⟩ := List.mem_map.mp (hmem page hpage)
  exact ⟨lba, hlba, heq.symm⟩

/-- So does `mergeList`, but for the addresses that it skips. -/
theorem mergeList_keep (p : OCSSDParameter) (block : Bool) (l : List Nat) :
    (∀ addr ∈ p.mergeList block l, ∃ ppa ∈ l, addr ∈ p.parsePPA ppa) ∧
      ∀ ppa ∈ l, ∀ addr' ∈ p.parsePPA ppa, ∃ addr ∈ p.mergeList block l,
        StandsFor block addr addr' := by
  have hfold : p.mergeList block l =
      (l.filterMap p.parsePPA).foldl (Batch.keep (StandsFor block)) [] := by
    rw [OCSSDParameter.mergeList]
    congr 1
    funext acc temp
    rw [Batch.keep]
    cases acc.getLast? <;> rfl
  obtain ⟨hmem, hlike⟩ := Batch.foldl_keep (StandsFor block)
    (fun a => by cases block <;> rfl) (l.filterMap p.parsePPA)
  rw [hfold]
  refine ⟨fun addr haddr => ?_, fun ppa hppa addr' haddr' => ?_⟩
  · exact List.mem_filterMap.mp (hmem addr haddr)
  · exact hlike addr' (List.mem_filterMap.mpr ⟨ppa, hppa, haddr'⟩)

/-- No page is added to the list. -/
theorem removeInvalid_sublist (mask idx : BitVec 64) (list : List CPDPBP) :
    (ChunkUpdate.removeInvalid mask idx list).Sublist list := by
  induction list generalizing idx with
  | nil => exact List.Sublist.refl _
  | cons addr rest ih =>
    rw [ChunkUpdate.removeInvalid]
    split
    · exact (ih _).cons addr
    · exact (ih _).cons_cons addr

/-- The error and the status go together. -/
def ErrorReported (u : ChunkUpdate) : Prop := u.err = true → u.resp.status ≠ none

theorem errorReported_next {u : ChunkUpdate} (h : ErrorReported u) : ErrorReported u.next := by
  intro herr
  unfold ChunkUpdate.next
  dsimp only
  split
  · split <;> exact h herr
  · exact h herr

theorem errorReported_write (u : ChunkUpdate) (e : ChunkUpdateEntry) :
    ErrorReported (ChunkUpdate.writePage p u e) := by
  unfold ChunkUpdate.writePage
  split
  · exact errorReported_next fun _ => Option.some_ne_none _
  · next hno =>
    rw [not_or] at hno
    exact errorReported_next fun herr => absurd herr hno.1

theorem errorReported_erase {u : ChunkUpdate} (h : ErrorReported u) (e : ChunkUpdateEntry) :
    ErrorReported (ChunkUpdate.erasePage u e) := by
  unfold ChunkUpdate.erasePage
  split
  · exact errorReported_next fun _ => Option.some_ne_none _
  · exact errorReported_next h

/-- All pages go to the flash, or there is an error. -/
theorem finish_cases {u : ChunkUpdate} (h : ErrorReported u) (list : List CPDPBP) :
    (u.finish list).2.Sublist list ∧
      ((u.finish list).1.status ≠ none ∨ (u.finish list).2 = list) := by
  unfold ChunkUpdate.finish
  split
  · next herr => exact ⟨removeInvalid_sublist _ _ _, .inl (h herr)⟩
  · exact ⟨List.Sublist.refl _, .inr rfl⟩

theorem written_cases (p : OCSSDParameter) (l : List Nat) (s : OpenChannelSSD) :
    (s.written p l).2.Sublist ((p.convertUnit false l).map Prod.fst) ∧
      ((s.written p l).1.status ≠ none ∨
        (s.written p l).2 = (p.convertUnit false l).map Prod.fst) :=
  finish_cases (List.foldlRecOn _ _ (fun herr => absurd herr Bool.false_ne_true)
    fun u _ e _ => errorReported_write u e) _

theorem erased_cases (p : OCSSDParameter) (l : List Nat) (s : OpenChannelSSD) :
    (s.erased p l).2.Sublist ((p.convertUnit true l).map Prod.fst) ∧
      ((s.erased p l).1.status ≠ none ∨
        (s.erased p l).2 = (p.convertUnit true l).map Prod.fst) :=
  finish_cases (List.foldlRecOn _ _ (fun herr => absurd herr Bool.false_ne_true)
    fun _ h e _ => errorReported_erase h e) _

/-! ### Commands -/

/-- The addresses of a list are in order, so their descriptors are in the table. -/
theorem lookUp_in_order {addresses : Set (BitVec 64)} (hl : From addresses l)
    (horder : ∀ a ∈ addresses, AddressInOrder p .v20 a) (result : ChunkResponse × List CPDPBP) :
    OpenChannelSSD.lookUp p block l result = .ok result ∧
      ∀ page ∈ p.convertUnit block l, p.InCounts page.1 := by
  have hpages : ∀ page ∈ p.convertUnit block l, ∃ lba : BitVec 64,
      page = p.pageOf lba.toNat ∧ AddressInOrder p .v20 lba := by
    intro page hpage
    obtain ⟨lba, hlba, rfl⟩ := (convertUnit_keep p block l).1 page hpage
    obtain ⟨a, ha, rfl⟩ := hl lba hlba
    exact ⟨a, rfl, horder a ha⟩
  refine ⟨if_pos fun page hpage => ?_, fun page hpage => ?_⟩
  · obtain ⟨lba, rfl, hlba⟩ := hpages page hpage
    have hin := (inCounts_convert p _ _).mp ((inCounts_pageOf lba).mpr hlba)
    rw [OCSSDParameter.descriptorLength, Nat.mod_eq_of_lt p.chunks_lt]
    exact (OCSSDParameter.getChunkDescriptor_eq hin.1).2
  · obtain ⟨lba, rfl, hlba⟩ := hpages page hpage
    exact (inCounts_pageOf lba).mpr hlba

/-- What is handed over is a part of the pages, and all of it unless there is an error. -/
theorem sent_of_cases {resp : ChunkResponse} {list : List CPDPBP}
    (hsub : list.Sublist ((p.convertUnit block l).map Prod.fst))
    (hall : resp.status ≠ none ∨ list = (p.convertUnit block l).map Prod.fst)
    (hin : ∀ page ∈ p.convertUnit block l, p.InCounts page.1) :
    (∀ addr ∈ list, p.InCounts addr) ∧
      ∀ lba ∈ l, resp.status ≠ none ∨ ∃ addr ∈ list, StandsFor block addr (p.pageOf lba).1 := by
  refine ⟨fun addr haddr => ?_, fun lba hlba => ?_⟩
  · obtain ⟨page, hpage, rfl⟩ := List.mem_map.mp (hsub.subset haddr)
    exact hin page hpage
  · refine hall.imp_right fun heq => ?_
    obtain ⟨page, hpage, hstands⟩ := (convertUnit_keep p block l).2 lba hlba
    rw [heq]
    exact ⟨page.1, List.mem_map_of_mem hpage, hstands⟩

/-- Version 2.0: a command with addresses that are in order. -/
theorem validated_of_in_order {addresses : Set (BitVec 64)} (s : OpenChannelSSD)
    (c : LogicalCommand) (hc : From addresses c.lbaList)
    (horder : ∀ a ∈ addresses, AddressInOrder p .v20 a) : s.Validated p c := by
  have hresult : ∀ result, OpenChannelSSD.lookUp p c.block c.lbaList result = .ok result :=
    fun result => (lookUp_in_order hc horder result).1
  have hin : ∀ page ∈ p.convertUnit c.block c.lbaList, p.InCounts page.1 :=
    (lookUp_in_order hc horder (s.readInternal p [])).2
  -- all but the deallocation come down to a list of pages and what is left out of it
  suffices hcases : s.submit p c = .error (.badAccess "IOContext") ∨
      ∃ result, s.submit p c = OpenChannelSSD.lookUp p c.block c.lbaList result ∧
        result.2.Sublist ((p.convertUnit c.block c.lbaList).map Prod.fst) ∧
        (result.1.status ≠ none ∨
          result.2 = (p.convertUnit c.block c.lbaList).map Prod.fst) by
    rcases hcases with herror | ⟨result, heq, hsub, hall⟩
    · refine ⟨fun htable => ?_, fun resp list h => ?_⟩
      · exact absurd (herror.symm.trans htable) (by decide)
      · cases herror.symm.trans h
    · rw [hresult] at heq
      refine ⟨fun htable => ?_, fun resp list h => ?_⟩
      · cases heq.symm.trans htable
      · cases heq.symm.trans h
        exact sent_of_cases hsub hall hin
  cases c with
  | read slba nlb => exact .inr ⟨_, rfl, List.Sublist.refl _, .inr rfl⟩
  | write slba nlb => exact .inr ⟨_, rfl, written_cases p _ s⟩
  | deallocate slba nlb => exact .inl rfl
  | vectorChunkRead lbaList => exact .inr ⟨_, rfl, List.Sublist.refl _, .inr rfl⟩
  | vectorChunkWrite lbaList => exact .inr ⟨_, rfl, written_cases p _ s⟩
  | vectorChunkReset lbaList => exact .inr ⟨_, rfl, erased_cases p _ s⟩

theorem from_singleton {addresses : Set (BitVec 64)} {a : BitVec 64} (ha : a ∈ addresses) :
    From addresses [a.toNat] := by
  intro x hx
  rw [List.mem_singleton.mp hx]
  exact ⟨a, ha, rfl⟩

/-- A read of version 2.0 refuses nothing. -/
theorem inCounts_of_read {a : Nat} (h : OpenChannelSSD.init.Validated p (.vectorChunkRead [a])) :
    p.InCounts (p.pageOf a).1 := by
  have htable := h.table
  have hsent := h.sent
  rw [OpenChannelSSD.submit, OpenChannelSSD.lookUp] at htable hsent
  split at htable
  · next hin =>
    rw [if_pos hin] at hsent
    exact (hsent _ _ rfl).1 _ List.mem_cons_self
  · exact absurd rfl htable

/-- The devices check no address: those with which every command is validated are the ones that are
in order. -/
theorem addresses_validated_iff (p : OCSSDParameter) (v : Version) (addresses : Set (BitVec 64)) :
    Validates p v addresses ↔ ∀ a ∈ addresses, AddressInOrder p v a := by
  cases v with
  | v12 =>
    constructor
    · intro h a ha
      have hread := h (.physicalPageRead [a.toNat]) (listValid_one _) (from_singleton ha)
      obtain ⟨addr, haddr, addr', haddr', hstands⟩ := hread.complete _ List.mem_cons_self
      have hsame : addr = addr' := hstands
      exact (inCounts_parsePPA a).mp ⟨addr', haddr', hsame ▸ hread.sent addr haddr⟩
    · intro horder c _ hc
      refine ⟨fun addr haddr => ?_, fun ppa hppa => ?_⟩
      · obtain ⟨ppa, hppa, hparse⟩ := (mergeList_keep p c.block c.ppaList).1 addr haddr
        obtain ⟨a, ha, rfl⟩ := hc ppa hppa
        obtain ⟨addr', haddr', hin⟩ := (inCounts_parsePPA a).mpr (horder a ha)
        rwa [Option.mem_unique hparse haddr']
      · obtain ⟨a, ha, rfl⟩ := hc ppa hppa
        obtain ⟨addr', haddr', -⟩ := (inCounts_parsePPA a).mpr (horder a ha)
        obtain ⟨addr, haddr, hstands⟩ :=
          (mergeList_keep p c.block c.ppaList).2 _ hppa addr' haddr'
        exact ⟨addr, haddr, addr', haddr', hstands⟩
  | v20 =>
    constructor
    · intro h a ha
      refine (inCounts_pageOf a).mp (inCounts_of_read ?_)
      exact h .init (.vectorChunkRead [a.toNat]) (listValid_one _) (from_singleton ha)
    · intro horder s c _ hc
      exact validated_of_in_order s c hc horder

end Sent

/-- Three channels, and one of everything else. -/
def threeChannels : OCSSDParameter := ⟨3, 1, 1, 1, 1, 1, 4096, true, Nat.one_pos, ocssdLbaSize_lt,
  Nat.le_refl ocssdLbaSize, by decide⟩

/-- The field of the channel has two bits, and channel 3 is not there. A read of version 1.2 goes to
the flash for it, and one of version 2.0 looks behind the table. -/
theorem not_validated_channel : ¬ Validates threeChannels .v12 {3} ∧
    ¬ Validates threeChannels .v20 {3} := by
  constructor
  · intro h
    have hread := h (.physicalPageRead [3]) (listValid_one 3) (from_singleton (a := 3) rfl)
    have hchannel := (hread.sent ⟨3, 0, 0, 0, 0, 0⟩ (by decide +kernel)).channel
    exact absurd hchannel (by decide)
  · intro h
    have hread := h .init (.vectorChunkRead [3]) (listValid_one 3)
      (from_singleton (a := 3) rfl)
    exact hread.table (by decide +kernel)

end SimpleSSD.HIL.NVMe
