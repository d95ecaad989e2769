import SimpleSSD.HIL.NVMe.AddressValidation
import SimpleSSD.HIL.NVMe.Queue
import SimpleSSD.Lib.HashMap
import SimpleSSD.Lib.Latest

/-!
# The table of bad blocks (hil/nvme/ocssd.cc:587–764)

The host marks blocks as bad, by any addresses of them, and reads the marks of a parallel unit back.
The device keeps one entry for an address, not for a block. So two addresses of a block may have two
entries, of which the one that comes last in the hash table is reported, and clearing a block
through one address leaves the entry of another. The loop that takes the list of the addresses
counts in 8 bits, and does not end for more than 255 of them. `bad_block_table_iff` says for
which commands the host reads what it has set.

The order of the hash table is open: a report is about every order of its entries.
-/

namespace SimpleSSD.HIL.NVMe

open Latest

/-- `BlockData`. -/
structure BlockData where
  index : Nat
  value : UInt8
deriving DecidableEq

/-- `badBlocks`. -/
abbrev BadBlocks := UnorderedMap (BitVec 64) BlockData

/-- A Set Bad Block Table command, and the list that its DMA reads. -/
structure SetBadBlocks where
  dword10 : BitVec 32
  dword11 : BitVec 32
  dword12 : BitVec 32
  buffer : Nat → BitVec 64

namespace SetBadBlocks

variable (c : SetBadBlocks)

/-- The count, in 16 bits. -/
def nppa : Nat := ((c.dword12 &&& 0xFFFF).toNat + 1) % 2 ^ 16

def val : UInt8 := .ofNat ((c.dword12 &&& 0xFF0000) >>> 16).toNat

def ppa : BitVec 64 := c.dword11.setWidth 64 <<< 32 ||| c.dword10.setWidth 64

/-- The addresses that the host lists. -/
def addresses : List (BitVec 64) :=
  if c.nppa = 1 then [c.ppa] else (List.range c.nppa).map c.buffer

/-- The loop that takes the list, with its counter. `none` stands for a loop that has not ended. -/
def listLoop (nlb : Nat) (buffer : Nat → BitVec 64) :
    Nat → BitVec 8 → List (BitVec 64) → Option (List (BitVec 64))
  | 0, _, _ => none
  | fuel + 1, i, ppaList =>
    if i.toNat < nlb then listLoop nlb buffer fuel (i + 1) (ppaList ++ [buffer i.toNat])
    else some ppaList

def ppaList (fuel : Nat) : Option (List (BitVec 64)) :=
  if c.nppa = 1 then some [c.ppa] else listLoop c.nppa c.buffer fuel 0 []

/-- The addresses with the value. -/
def updates : List (BitVec 64 × UInt8) := c.addresses.map (·, c.val)

end SetBadBlocks

namespace OCSSDParameter

variable (p : OCSSDParameter)

/-- A round of the loop over the addresses. -/
def setBlock (val : UInt8) (badBlocks : BadBlocks) (ppa : BitVec 64) : BadBlocks :=
  match p.ppaMask12.parsePPA ppa with
  | none => badBlocks
  | some addr =>
    match badBlocks.find? ppa with
    | none => if val ≠ 0 then badBlocks.emplace 0 ppa ⟨addr.block, val⟩ else badBlocks
    | some _ =>
      if val = 0 then badBlocks.erase ppa else badBlocks.set 0 ppa ⟨addr.block, val⟩

/-- `setBadBlockTable` (ocssd.cc:587–682). -/
def setBadBlockTable (fuel : Nat) (badBlocks : BadBlocks) (c : SetBadBlocks) :
    Option (StatusCode × BadBlocks) :=
  if c.nppa < 1 then some (.invalidField, badBlocks)
  else (c.ppaList fuel).map fun ppaList => (.success, ppaList.foldl (p.setBlock c.val) badBlocks)

/-- Commands one after the other. -/
def setAll (fuel : Nat) (badBlocks : BadBlocks) (cmds : List SetBadBlocks) : Option BadBlocks :=
  cmds.foldlM (fun m c => (p.setBadBlockTable fuel m c).map Prod.snd) badBlocks

/-- The first 64 bytes of a table. -/
def tableHeader : List UInt8 :=
  [0x42, 0x42, 0x4C, 0x54, 1, 0] ++ List.replicate 6 0 ++
    (List.range 4).map (fun i => .ofNat (p.chunk / 256 ^ i)) ++ List.replicate 48 0

/-- A round of the loop over the entries. -/
def reportBlock (ppa : BitVec 64) (data : List UInt8) (iter : BitVec 64 × BlockData) :
    Except Fault (List UInt8) :=
  let mask := p.ppaMask12.channelMask ||| p.ppaMask12.wayMask
  if iter.1 &&& mask = ppa &&& mask then
    if 64 + iter.2.index < data.length then .ok (data.set (64 + iter.2.index) iter.2.value)
    else .error (.badAccess "data")
  else .ok data

/-- `getBadBlockTable` (ocssd.cc:684–764): what is sent to the host, with the entries in the order
of the hash table, or `none` for an invalid field. -/
def getBadBlockTable (order : List (BitVec 64 × BlockData)) (ppa : BitVec 64) :
    Except Fault (Option (List UInt8)) :=
  let prpsize := (64 + p.chunk) % 2 ^ 32
  match p.ppaMask12.parsePPA ppa with
  | none => .ok none
  | some _ =>
    if prpsize < 64 then .error (.badAccess "data")
    else (order.foldlM (p.reportBlock ppa)
      (p.tableHeader ++ List.replicate (prpsize - 64) 0)).map some

/-- The block of an address. -/
def physicalBlock (ppa : BitVec 64) : ChunkAddress where
  group := fieldAt ppa [p.writeSize, p.page, p.chunk, p.parallelUnit] p.group
  parallelUnit := fieldAt ppa [p.writeSize, p.page, p.chunk] p.parallelUnit
  chunk := fieldAt ppa [p.writeSize, p.page] p.chunk

/-- The report has the values that the blocks of the parallel unit were set to last, and is a table
of these. -/
def Reports (updates : List (BitVec 64 × UInt8)) (ppa : BitVec 64)
    (result : Except Fault (Option (List UInt8))) : Prop :=
  ∃ data, result = .ok (some data) ∧ data.length = 64 + p.chunk ∧ data.take 64 = p.tableHeader ∧
    ∀ b < p.chunk, data[64 + b]? =
      some (latest p.physicalBlock 0 updates { p.physicalBlock ppa with chunk := b })

/-- Each command ends with the addresses of its list, and after every one of them each report is
right. -/
structure RoundTrips (cmds : List SetBadBlocks) : Prop where
  processed : ∀ c ∈ cmds, ∃ fuel, c.ppaList fuel = some c.addresses
  reported : ∀ before, before <+: cmds → ∃ fuel badBlocks,
    p.setAll fuel .empty before = some badBlocks ∧
      ∀ ppa, AddressInOrder p .v12 ppa → ∀ order, order.Perm badBlocks.entries →
        p.Reports (before.flatMap SetBadBlocks.updates) ppa (p.getBadBlockTable order ppa)

/-- The list of a command has not more than 255 addresses, and no other address of one of its blocks
was last set to a different value, unless that is 0. -/
structure SetsWhole (before : List SetBadBlocks) (c : SetBadBlocks) : Prop where
  count : c.nppa ≤ 255
  others : ∀ a ∈ c.addresses, ∀ e, p.physicalBlock e = p.physicalBlock a → e ∉ c.addresses →
    latest id 0 (before.flatMap SetBadBlocks.updates) e = 0 ∨
      latest id 0 (before.flatMap SetBadBlocks.updates) e = c.val

end OCSSDParameter

/-! ### The list of the addresses -/

section Lists

open SetBadBlocks

variable {c : SetBadBlocks} {nlb : Nat} {buffer : Nat → BitVec 64}

/-- The loop gets to the end of a list that its counter can count. -/
theorem listLoop_eq (hnlb : nlb ≤ 255) {fuel i : Nat} (hi : i ≤ nlb) (hfuel : nlb - i < fuel)
    (acc : List (BitVec 64)) : listLoop nlb buffer fuel (.ofNat 8 i) acc =
      some (acc ++ (List.range' i (nlb - i)).map buffer) := by
  induction fuel generalizing i acc with
  | zero => omega
  | succ fuel ih =>
    have htoNat : (BitVec.ofNat 8 i).toNat = i := by
      rw [BitVec.toNat_ofNat]
      omega
    rw [listLoop, htoNat]
    split
    · next hlt =>
      have hsplit : nlb - i = nlb - (i + 1) + 1 := by omega
      have hnext : BitVec.ofNat 8 i + 1 = BitVec.ofNat 8 (i + 1) :=
        (BitVec.ofNat_add i 1).symm
      rw [hnext, ih hlt (by omega), hsplit, List.range'_succ, List.map_cons, List.append_assoc]
      rfl
    · next hlt =>
      have hzero : nlb - i = 0 := by omega
      rw [hzero, List.range'_zero, List.map_nil, List.append_nil]

/-- And goes on for ever over a longer one. -/
theorem listLoop_none (hnlb : 256 ≤ nlb) (fuel : Nat) (i : BitVec 8) (acc : List (BitVec 64)) :
    listLoop nlb buffer fuel i acc = none := by
  induction fuel generalizing i acc with
  | zero => rfl
  | succ fuel ih =>
    have hi := i.isLt
    rw [listLoop, if_pos (by omega), ih]

/-- It makes no difference how long one waits for the end of the loop. -/
theorem listLoop_unique {fuel fuel' : Nat} {i : BitVec 8} {acc l l' : List (BitVec 64)}
    (h : listLoop nlb buffer fuel i acc = some l) (h' : listLoop nlb buffer fuel' i acc = some l') :
    l = l' := by
  induction fuel generalizing fuel' i acc with
  | zero => cases h
  | succ fuel ih =>
    cases fuel' with
    | zero => cases h'
    | succ fuel' =>
      rw [listLoop] at h h'
      split at h
      · next hlt =>
        rw [if_pos hlt] at h'
        exact ih h h'
      · next hlt =>
        rw [if_neg hlt] at h'
        exact Option.some_inj.mp (h.symm.trans h')

theorem ppaList_unique {fuel fuel' : Nat} {l l' : List (BitVec 64)}
    (h : c.ppaList fuel = some l) (h' : c.ppaList fuel' = some l') : l = l' := by
  rw [ppaList] at h h'
  split at h
  · next hone =>
    rw [if_pos hone] at h'
    exact Option.some_inj.mp (h.symm.trans h')
  · next hone =>
    rw [if_neg hone] at h'
    exact listLoop_unique h h'

theorem ppaList_eq (h : c.nppa ≤ 255) : c.ppaList 256 = some c.addresses := by
  rw [ppaList, addresses]
  split
  · rfl
  · have hloop : listLoop c.nppa c.buffer 256 (.ofNat 8 0) [] =
        some ([] ++ (List.range' 0 (c.nppa - 0)).map c.buffer) :=
      listLoop_eq h (Nat.zero_le _) (by omega) []
    rwa [List.nil_append, ← List.range_eq_range'] at hloop

theorem processed_iff : (∃ fuel, c.ppaList fuel = some c.addresses) ↔ c.nppa ≤ 255 := by
  constructor
  · rintro ⟨fuel, hlist⟩
    by_contra hmany
    rw [ppaList, if_neg (by omega), listLoop_none (by omega)] at hlist
    cases hlist
  · exact fun h => ⟨256, ppaList_eq h⟩

end Lists

/-! ### Addresses in order -/

section Addresses

variable {p : OCSSDParameter} {ppa ppa' : BitVec 64}

theorem parsePPA_in_order (h : AddressInOrder p .v12 ppa) :
    ∃ addr, p.ppaMask12.parsePPA ppa = some addr ∧ addr.block = (p.physicalBlock ppa).chunk := by
  rw [parsePPA_fields, if_pos h.1]
  exact ⟨_, rfl, rfl⟩

/-- There are addresses in order only if the counts can be counted in 32 bits. -/
theorem counts_lt (h : AddressInOrder p .v12 ppa) :
    p.group < 2 ^ 32 ∧ p.parallelUnit < 2 ^ 32 ∧ p.chunk < 2 ^ 32 := by
  obtain ⟨-, -, hchunk, hunit, hgroup⟩ := h
  have hlt := p.chunks_lt
  have hchunkPos := Nat.zero_lt_of_lt hchunk
  have hunitPos := Nat.zero_lt_of_lt hunit
  have hgroupPos := Nat.zero_lt_of_lt hgroup
  refine ⟨lt_of_le_of_lt ?_ hlt, lt_of_le_of_lt ?_ hlt, lt_of_le_of_lt ?_ hlt⟩
  · rw [Nat.mul_assoc]
    exact Nat.le_mul_of_pos_right _ (Nat.mul_pos hunitPos hchunkPos)
  · rw [Nat.mul_comm p.group, Nat.mul_assoc]
    exact Nat.le_mul_of_pos_right _ (Nat.mul_pos hgroupPos hchunkPos)
  · exact Nat.le_mul_of_pos_left _ (Nat.mul_pos hgroupPos hunitPos)

/-- Two words have the same number in a field of up to 32 bits. -/
theorem and_mask_eq_iff_fieldAt {f : BitField} (below : List Nat) {count : Nat}
    (hshift : f.shift = addressBits below) (hwidth : f.width = Nat.clog 2 count)
    (hcount : count < 2 ^ 32) (x y : BitVec 64) :
    x &&& f.mask 64 = y &&& f.mask 64 ↔ fieldAt x below count = fieldAt y below count := by
  have hsmall : ∀ z : BitVec 64, (f.get z).toNat = fieldAt z below count := by
    intro z
    have hwide : 2 ^ f.width ≤ 2 ^ 32 :=
      Nat.pow_le_pow_right (by decide) (hwidth ▸ Nat.clog_le_of_le_pow hcount.le)
    have hlt : (f.get z).toNat < 2 ^ 32 := by
      rw [BitField.toNat_get]
      exact (Nat.mod_lt _ (Nat.two_pow_pos _)).trans_le hwide
    rw [← toNat_field below count hshift hwidth z]
    exact (Nat.mod_eq_of_lt hlt).symm
  rw [BitField.and_mask_eq_iff, ← BitVec.toNat_inj, hsmall, hsmall]

/-- The addresses are of one parallel unit. -/
theorem same_unit_iff (h : AddressInOrder p .v12 ppa) (ppa' : BitVec 64) :
    ppa' &&& (p.ppaMask12.channelMask ||| p.ppaMask12.wayMask) =
        ppa &&& (p.ppaMask12.channelMask ||| p.ppaMask12.wayMask) ↔
      (p.physicalBlock ppa').group = (p.physicalBlock ppa).group ∧
        (p.physicalBlock ppa').parallelUnit = (p.physicalBlock ppa).parallelUnit := by
  obtain ⟨hgroup, hunit, -⟩ := counts_lt h
  rw [BitField.and_or_eq_iff, OCSSDParameter.ppaMask12, Mask.init12_eq]
  dsimp only
  rw [and_mask_eq_iff_fieldAt [p.writeSize, p.page, p.chunk, p.parallelUnit] _ rfl hgroup,
    and_mask_eq_iff_fieldAt [p.writeSize, p.page, p.chunk] _ rfl hunit]
  · rfl
  · simp [addressBits, BitField.stop, Nat.add_assoc]
  · simp [addressBits, BitField.stop, Nat.add_assoc]

end Addresses

/-! ### What the table holds -/

namespace OCSSDParameter

/-- The entry of an address with a value. -/
def entryOf (p : OCSSDParameter) (ppa : BitVec 64) (val : UInt8) : Option BlockData :=
  if val = 0 then none else some ⟨(p.physicalBlock ppa).chunk, val⟩

/-- The table has the last values of the addresses. -/
def Holds (p : OCSSDParameter) (updates : List (BitVec 64 × UInt8)) (badBlocks : BadBlocks) :
    Prop :=
  ∀ k, badBlocks.find? k = p.entryOf k (latest id 0 updates k)

end OCSSDParameter

section Table

variable {p : OCSSDParameter} {updates : List (BitVec 64 × UInt8)} {badBlocks : BadBlocks}

theorem holds_empty (p : OCSSDParameter) : p.Holds [] .empty := fun _ => rfl

theorem find?_setBlock {ppa : BitVec 64} (horder : AddressInOrder p .v12 ppa) (val : UInt8)
    (badBlocks : BadBlocks) (k : BitVec 64) : (p.setBlock val badBlocks ppa).find? k =
      if k = ppa then p.entryOf ppa val else badBlocks.find? k := by
  obtain ⟨addr, hparse, hblock⟩ := parsePPA_in_order horder
  rw [OCSSDParameter.setBlock, hparse, OCSSDParameter.entryOf, ← hblock]
  dsimp only
  cases hold : badBlocks.find? ppa with
  | none =>
    have hnew : ppa ∉ badBlocks := UnorderedMap.find?_eq_none_iff.mp hold
    by_cases hval : val = 0
    · rcases eq_or_ne k ppa with rfl | hk
      · simp [hval, hold]
      · simp [hval, hk]
    · simp [hval, UnorderedMap.find?_emplace hnew]
  | some data => by_cases hval : val = 0 <;> simp [hval]

theorem OCSSDParameter.Holds.setBlock (h : p.Holds updates badBlocks) {ppa : BitVec 64}
    (horder : AddressInOrder p .v12 ppa) (val : UInt8) :
    p.Holds (updates ++ [(ppa, val)]) (p.setBlock val badBlocks ppa) := by
  intro k
  rw [find?_setBlock horder, latest_concat]
  dsimp only [id]
  rcases eq_or_ne k ppa with rfl | hk
  · rw [if_pos rfl, if_pos rfl]
  · rw [if_neg hk, if_neg hk.symm, h k]

theorem setBadBlockTable_unique {fuel fuel' : Nat} {c : SetBadBlocks}
    {out out' : StatusCode × BadBlocks}
    (h : p.setBadBlockTable fuel badBlocks c = some out)
    (h' : p.setBadBlockTable fuel' badBlocks c = some out') : out = out' := by
  rw [OCSSDParameter.setBadBlockTable] at h h'
  split at h
  · next hnone =>
    rw [if_pos hnone] at h'
    exact Option.some_inj.mp (h.symm.trans h')
  · next hnone =>
    rw [if_neg hnone] at h'
    obtain ⟨l, hl, rfl⟩ := Option.map_eq_some_iff.mp h
    obtain ⟨l', hl', rfl⟩ := Option.map_eq_some_iff.mp h'
    rw [ppaList_unique hl hl']

theorem setAll_unique {fuel fuel' : Nat} {cmds : List SetBadBlocks} {m m' : BadBlocks}
    (h : p.setAll fuel badBlocks cmds = some m) (h' : p.setAll fuel' badBlocks cmds = some m') :
    m = m' := by
  induction cmds generalizing badBlocks with
  | nil => exact Option.some_inj.mp (h.symm.trans h')
  | cons c cmds ih =>
    rw [OCSSDParameter.setAll, List.foldlM_cons] at h h'
    obtain ⟨next, hnext, hrest⟩ := Option.bind_eq_some_iff.mp h
    obtain ⟨next', hnext', hrest'⟩ := Option.bind_eq_some_iff.mp h'
    obtain ⟨out, hout, rfl⟩ := Option.map_eq_some_iff.mp hnext
    obtain ⟨out', hout', rfl⟩ := Option.map_eq_some_iff.mp hnext'
    cases setBadBlockTable_unique hout hout'
    exact ih hrest hrest'

/-- A whole list of addresses. -/
theorem OCSSDParameter.Holds.setBlocks (h : p.Holds updates badBlocks) {l : List (BitVec 64)}
    (horder : ∀ a ∈ l, AddressInOrder p .v12 a) (val : UInt8) :
    p.Holds (updates ++ l.map (·, val)) (l.foldl (p.setBlock val) badBlocks) := by
  induction l generalizing updates badBlocks with
  | nil => rwa [List.map_nil, List.append_nil]
  | cons a l ih =>
    have hstep := h.setBlock (horder a List.mem_cons_self) val
    have hrest := ih hstep fun a' ha' => horder a' (List.mem_cons_of_mem a ha')
    rwa [List.append_assoc, List.singleton_append] at hrest

/-- A command. -/
theorem OCSSDParameter.Holds.setBadBlockTable (h : p.Holds updates badBlocks) {c : SetBadBlocks}
    (horder : ∀ a ∈ c.addresses, AddressInOrder p .v12 a) (hcount : c.nppa ≤ 255) :
    ∃ out, p.setBadBlockTable 256 badBlocks c = some out ∧
      p.Holds (updates ++ c.updates) out.2 := by
  rw [OCSSDParameter.setBadBlockTable]
  split
  · next hnone =>
    have haddresses : c.addresses = [] := by
      rw [SetBadBlocks.addresses, if_neg (by omega), Nat.lt_one_iff.mp hnone]
      rfl
    refine ⟨_, rfl, ?_⟩
    rwa [SetBadBlocks.updates, haddresses, List.map_nil, List.append_nil]
  · rw [ppaList_eq hcount]
    exact ⟨_, rfl, h.setBlocks horder c.val⟩

/-- Commands one after the other. -/
theorem holds_setAll {cmds : List SetBadBlocks}
    (horder : ∀ c ∈ cmds, ∀ a ∈ c.addresses, AddressInOrder p .v12 a)
    (hcount : ∀ c ∈ cmds, c.nppa ≤ 255) :
    ∃ badBlocks, p.setAll 256 .empty cmds = some badBlocks ∧
      p.Holds (cmds.flatMap SetBadBlocks.updates) badBlocks := by
  induction cmds using List.reverseRecOn with
  | nil => exact ⟨.empty, rfl, holds_empty p⟩
  | append_singleton cmds c ih =>
    obtain ⟨badBlocks, hrun, hholds⟩ := ih
      (fun c' hc' => horder c' (List.mem_append_left _ hc'))
      (fun c' hc' => hcount c' (List.mem_append_left _ hc'))
    obtain ⟨out, hset, hnext⟩ := hholds.setBadBlockTable (horder c (by simp)) (hcount c (by simp))
    refine ⟨out.2, ?_, ?_⟩
    · rw [OCSSDParameter.setAll] at hrun ⊢
      rw [List.foldlM_append, hrun]
      simp [hset]
    · rwa [List.flatMap_append, List.flatMap_singleton]

/-- An entry has the last value of its address, and is that of its block. -/
theorem mem_entries_iff (h : p.Holds updates badBlocks) (e : BitVec 64 × BlockData) :
    e ∈ badBlocks.entries ↔ latest id 0 updates e.1 ≠ 0 ∧
      e.2 = ⟨(p.physicalBlock e.1).chunk, latest id 0 updates e.1⟩ := by
  have hmem : e ∈ badBlocks.entries ↔ badBlocks.find? e.1 = some e.2 :=
    UnorderedMap.find?_eq_some_iff.symm
  rw [hmem, h e.1, OCSSDParameter.entryOf]
  split
  · next hzero => simp [hzero]
  · next hzero =>
    rw [Option.some_inj, eq_comm]
    exact (and_iff_right hzero).symm

end Table

/-! ### Reports -/

section Report

variable {p : OCSSDParameter} {ppa : BitVec 64} {data : List UInt8}

/-- A round of the loop writes behind the header, and there what the class of the entry has. -/
theorem reportBlock_eq (hppa : AddressInOrder p .v12 ppa) (hlength : 64 + p.chunk ≤ data.length)
    {e : BitVec 64 × BlockData} (horder : AddressInOrder p .v12 e.1)
    (hindex : e.2.index = (p.physicalBlock e.1).chunk) :
    ∃ data', p.reportBlock ppa data e = .ok data' ∧ data'.length = data.length ∧
      data'.take 64 = data.take 64 ∧ ∀ b, data'[64 + b]? = data[64 + b]?.map fun d =>
        if p.physicalBlock e.1 = { p.physicalBlock ppa with chunk := b } then e.2.value else d := by
  have hchunk : (p.physicalBlock e.1).chunk < p.chunk := horder.2.2.1
  have hblock : ∀ b, p.physicalBlock e.1 = { p.physicalBlock ppa with chunk := b } ↔
      ((p.physicalBlock e.1).group = (p.physicalBlock ppa).group ∧
        (p.physicalBlock e.1).parallelUnit = (p.physicalBlock ppa).parallelUnit) ∧
          e.2.index = b := by
    intro b
    rw [hindex, and_assoc, ← ChunkAddress.mk.injEq]
  rw [OCSSDParameter.reportBlock]
  dsimp only
  by_cases hunit : e.1 &&& (p.ppaMask12.channelMask ||| p.ppaMask12.wayMask) =
      ppa &&& (p.ppaMask12.channelMask ||| p.ppaMask12.wayMask)
  · rw [if_pos hunit, if_pos (by omega)]
    refine ⟨_, rfl, List.length_set, List.take_set_of_le (Nat.le_add_right 64 _), fun b => ?_⟩
    rw [List.getElem?_set]
    simp only [hblock, and_iff_right ((same_unit_iff hppa e.1).mp hunit), Nat.add_left_cancel_iff]
    by_cases hb : e.2.index = b
    · have hlt : 64 + b < data.length := by omega
      rw [if_pos hb, if_pos (by omega), List.getElem?_eq_getElem hlt, Option.map_some, if_pos hb]
    · simp [hb]
  · rw [if_neg hunit]
    refine ⟨data, rfl, rfl, rfl, fun b => ?_⟩
    simp only [hblock, mt (same_unit_iff hppa e.1).mpr hunit, false_and, if_false, Option.map_id']

/-- All the rounds. -/
theorem reportBlocks_eq (hppa : AddressInOrder p .v12 ppa) (hlength : 64 + p.chunk ≤ data.length)
    {order : List (BitVec 64 × BlockData)} (horder : ∀ e ∈ order, AddressInOrder p .v12 e.1 ∧
      e.2.index = (p.physicalBlock e.1).chunk) :
    ∃ data', order.foldlM (p.reportBlock ppa) data = .ok data' ∧ data'.length = data.length ∧
      data'.take 64 = data.take 64 ∧ ∀ b, data'[64 + b]? = data[64 + b]?.map fun d =>
        latest p.physicalBlock d (order.map fun e => (e.1, e.2.value))
          { p.physicalBlock ppa with chunk := b } := by
  induction order generalizing data with
  | nil => exact ⟨data, rfl, rfl, rfl, fun b => by simp⟩
  | cons e order ih =>
    obtain ⟨hin, hindex⟩ := horder e List.mem_cons_self
    obtain ⟨next, hnext, hlen, htake, hbytes⟩ := reportBlock_eq hppa hlength hin hindex
    obtain ⟨data', hrest, hlen', htake', hbytes'⟩ := ih (hlen ▸ hlength)
      fun e' he' => horder e' (List.mem_cons_of_mem e he')
    refine ⟨data', ?_, hlen'.trans hlen, htake'.trans htake, fun b => ?_⟩
    · rw [List.foldlM_cons, hnext]
      exact hrest
    · rw [hbytes', hbytes, Option.map_map]
      rfl

variable {updates : List (BitVec 64 × UInt8)} {badBlocks : BadBlocks}
  {order : List (BitVec 64 × BlockData)}

theorem length_tableHeader (p : OCSSDParameter) : p.tableHeader.length = 64 := by
  simp [OCSSDParameter.tableHeader]

/-- A report is a table, and its bytes are from the entries in their order. -/
theorem getBadBlockTable_reports_iff (hppa : AddressInOrder p .v12 ppa)
    (horder : ∀ e ∈ order, AddressInOrder p .v12 e.1 ∧ e.2.index = (p.physicalBlock e.1).chunk) :
    p.Reports updates ppa (p.getBadBlockTable order ppa) ↔ 64 + p.chunk < 2 ^ 32 ∧ ∀ b < p.chunk,
      latest p.physicalBlock 0 (order.map fun e => (e.1, e.2.value))
          { p.physicalBlock ppa with chunk := b } =
        latest p.physicalBlock 0 updates { p.physicalBlock ppa with chunk := b } := by
  obtain ⟨addr, hparse, -⟩ := parsePPA_in_order hppa
  have hchunk := (counts_lt hppa).2.2
  rw [OCSSDParameter.getBadBlockTable, hparse]
  dsimp only
  by_cases hfit : 64 + p.chunk < 2 ^ 32
  · have hsize : (64 + p.chunk) % 2 ^ 32 = 64 + p.chunk := Nat.mod_eq_of_lt hfit
    have hheader := length_tableHeader p
    rw [hsize, if_neg (by omega), Nat.add_sub_cancel_left, and_iff_right hfit]
    have hlength : (p.tableHeader ++ List.replicate p.chunk 0).length = 64 + p.chunk := by
      rw [List.length_append, hheader, List.length_replicate]
    have hzero : ∀ b < p.chunk, (p.tableHeader ++ List.replicate p.chunk 0)[64 + b]? =
        some (0 : UInt8) := by
      intro b hb
      rw [List.getElem?_append_right (by omega), hheader, Nat.add_sub_cancel_left,
        List.getElem?_replicate, if_pos hb]
    obtain ⟨data, hdata, hlen, htake, hbytes⟩ := reportBlocks_eq hppa hlength.ge horder
    rw [hdata]
    constructor
    · rintro ⟨data', heq, -, -, hlatest⟩ b hb
      cases heq
      have hbyte := hlatest b hb
      rw [hbytes, hzero b hb] at hbyte
      exact Option.some_inj.mp hbyte
    · intro hlatest
      refine ⟨data, rfl, hlen.trans hlength, ?_, fun b hb => ?_⟩
      · rw [htake, List.take_append_of_le_length hheader.ge, List.take_of_length_le hheader.le]
      · rw [hbytes, hzero b hb, Option.map_some, hlatest b hb]
  · rw [if_pos (by omega)]
    refine iff_of_false ?_ fun h => hfit h.1
    rintro ⟨data, heq, -⟩
    cases heq

/-- All the reports are right when no address keeps a value that its block has no longer. -/
theorem all_reported_iff (hholds : p.Holds updates badBlocks)
    (horder : ∀ u ∈ updates, AddressInOrder p .v12 u.1) :
    (∀ ppa, AddressInOrder p .v12 ppa → ∀ order, order.Perm badBlocks.entries →
        p.Reports updates ppa (p.getBadBlockTable order ppa)) ↔
      ((∃ ppa, AddressInOrder p .v12 ppa) → 64 + p.chunk < 2 ^ 32) ∧
        Current p.physicalBlock 0 updates := by
  have hset : ∀ k, latest id 0 updates k ≠ 0 → AddressInOrder p .v12 k := by
    intro k hk
    obtain ⟨u, hu, rfl⟩ := List.mem_map.mp (mem_of_latest_key hk)
    exact horder u hu
  have hentries : ∀ order : List (BitVec 64 × BlockData), order.Perm badBlocks.entries →
      ∀ e ∈ order, AddressInOrder p .v12 e.1 ∧ e.2.index = (p.physicalBlock e.1).chunk := by
    intro order hperm e he
    obtain ⟨hvalue, hdata⟩ := (mem_entries_iff hholds e).mp (hperm.mem_iff.mp he)
    exact ⟨hset _ hvalue, by rw [hdata]⟩
  have hmem : ∀ k, latest id 0 updates k ≠ 0 →
      (k, ⟨(p.physicalBlock k).chunk, latest id 0 updates k⟩) ∈ badBlocks.entries :=
    fun k hk => (mem_entries_iff hholds _).mpr ⟨hk, rfl⟩
  constructor
  · intro h
    constructor
    · rintro ⟨ppa, hppa⟩
      exact ((getBadBlockTable_reports_iff hppa (hentries _ (List.Perm.refl _))).mp
        (h ppa hppa _ (List.Perm.refl _))).1
    · intro k hk
      have hlatest : ∀ order : List (BitVec 64 × BlockData), order.Perm badBlocks.entries →
          latest p.physicalBlock 0 (order.map fun e => (e.1, e.2.value)) (p.physicalBlock k) =
            latest p.physicalBlock 0 updates (p.physicalBlock k) := fun order hperm =>
        ((getBadBlockTable_reports_iff (hset k hk) (hentries order hperm)).mp
          (h k (hset k hk) order hperm)).2
          (p.physicalBlock k).chunk (hset k hk).2.2.1
      exact ((latest_perm_iff _).mp hlatest).1 _ (hmem k hk) rfl
  · rintro ⟨hfit, hcurrent⟩ ppa hppa order hperm
    refine (getBadBlockTable_reports_iff hppa (hentries order hperm)).mpr
      ⟨hfit ⟨ppa, hppa⟩, fun b _ => ?_⟩
    refine (latest_perm_iff (fun e : BitVec 64 × BlockData => (e.1, e.2.value))).mpr
      ⟨fun e he hcls => ?_, ?_⟩ order hperm
    · obtain ⟨hvalue, hdata⟩ := (mem_entries_iff hholds e).mp he
      rw [hdata]
      exact (hcurrent e.1 hvalue).trans (congrArg _ hcls)
    · by_cases hzero : latest p.physicalBlock 0 updates { p.physicalBlock ppa with chunk := b } = 0
      · exact .inl hzero
      · obtain ⟨k, hk, heq⟩ := exists_latest_key hzero
        exact .inr ⟨_, hmem k (heq ▸ hzero), hk⟩

end Report

/-! ### Sequences of commands -/

section Sequences

variable {p : OCSSDParameter} {before cmds : List SetBadBlocks} {c : SetBadBlocks}

/-- The blocks keep one value through a command when it is for the whole of them. -/
theorem current_command_iff (h : Current p.physicalBlock 0 (before.flatMap SetBadBlocks.updates)) :
    Current p.physicalBlock 0 ((before ++ [c]).flatMap SetBadBlocks.updates) ↔
      ∀ a ∈ c.addresses, ∀ e, p.physicalBlock e = p.physicalBlock a → e ∉ c.addresses →
        latest id 0 (before.flatMap SetBadBlocks.updates) e = 0 ∨
          latest id 0 (before.flatMap SetBadBlocks.updates) e = c.val := by
  rw [List.flatMap_append, List.flatMap_singleton]
  exact current_append_iff h c.addresses c.val

/-- The host reads what it has set when there are addresses only in devices with a table of less
than 4 GiB, no command is for more than 255 addresses, and each is for the whole of its blocks. -/
theorem bad_block_table_iff (p : OCSSDParameter) (cmds : List SetBadBlocks)
    (horder : ∀ c ∈ cmds, ∀ a ∈ c.addresses, AddressInOrder p .v12 a) :
    p.RoundTrips cmds ↔ ((∃ ppa, AddressInOrder p .v12 ppa) → 64 + p.chunk < 2 ^ 32) ∧
      ∀ before c, before ++ [c] <+: cmds → p.SetsWhole before c := by
  have hkeys : ∀ before, before <+: cmds → ∀ u ∈ before.flatMap SetBadBlocks.updates,
      AddressInOrder p .v12 u.1 := by
    intro before hbefore u hu
    obtain ⟨c, hc, hmem⟩ := List.mem_flatMap.mp hu
    obtain ⟨a, ha, rfl⟩ := List.mem_map.mp hmem
    exact horder c (hbefore.subset hc) a ha
  have hrun : ∀ before, before <+: cmds → (∀ c ∈ cmds, c.nppa ≤ 255) → ∃ badBlocks,
      p.setAll 256 .empty before = some badBlocks ∧
        p.Holds (before.flatMap SetBadBlocks.updates) badBlocks := fun before hbefore hcount =>
    holds_setAll (fun c hc => horder c (hbefore.subset hc)) fun c hc => hcount c (hbefore.subset hc)
  constructor
  · intro h
    have hcount : ∀ c ∈ cmds, c.nppa ≤ 255 := fun c hc => processed_iff.mp (h.processed c hc)
    have hcurrent : ∀ before, before <+: cmds →
        ((∃ ppa, AddressInOrder p .v12 ppa) → 64 + p.chunk < 2 ^ 32) ∧
          Current p.physicalBlock 0 (before.flatMap SetBadBlocks.updates) := by
      intro before hbefore
      obtain ⟨fuel, badBlocks, hset, hreports⟩ := h.reported before hbefore
      obtain ⟨badBlocks', hset', hholds⟩ := hrun before hbefore hcount
      cases setAll_unique hset hset'
      exact (all_reported_iff hholds (hkeys before hbefore)).mp hreports
    refine ⟨(hcurrent [] List.nil_prefix).1, fun before c hbefore => ⟨?_, ?_⟩⟩
    · exact hcount c (hbefore.subset (by simp))
    · have hstart := (List.prefix_append before [c]).trans hbefore
      exact (current_command_iff (hcurrent before hstart).2).mp (hcurrent _ hbefore).2
  · rintro ⟨hfit, hwhole⟩
    have hcount : ∀ c ∈ cmds, c.nppa ≤ 255 := by
      intro c hc
      obtain ⟨front, rest, rfl⟩ := List.append_of_mem hc
      exact (hwhole front c ⟨rest, by simp⟩).count
    refine ⟨fun c hc => ⟨256, ppaList_eq (hcount c hc)⟩, fun before hbefore => ?_⟩
    have hcurrent : Current p.physicalBlock 0 (before.flatMap SetBadBlocks.updates) := by
      induction before using List.reverseRecOn with
      | nil => exact current_nil
      | append_singleton before c ih =>
        have hstart := (List.prefix_append before [c]).trans hbefore
        exact (current_command_iff (ih hstart)).mpr (hwhole before c hbefore).others
    obtain ⟨badBlocks, hset, hholds⟩ := hrun before hbefore hcount
    exact ⟨256, badBlocks, hset, (all_reported_iff hholds (hkeys before hbefore)).mpr
      ⟨hfit, hcurrent⟩⟩

/-- One channel with two pages. Its addresses are the pages of the one block. -/
def twoPages : OCSSDParameter := ⟨1, 1, 1, 1, 1, 2, 4096, true, Nat.two_pos, ocssdLbaSize_lt,
  Nat.le_refl ocssdLbaSize, by decide⟩

/-- A command for one address. -/
def SetBadBlocks.one (ppa : BitVec 32) (val : BitVec 8) : SetBadBlocks :=
  ⟨ppa, 0, val.setWidth 32 <<< 16, fun _ => 0⟩

theorem fieldAt_one (ppa : BitVec 64) (below : List Nat) : fieldAt ppa below 1 = 0 := by
  rw [fieldAt, Nat.clog_one_right, Nat.pow_zero, Nat.mod_one, Nat.zero_mod]

theorem twoPages_in_order {ppa : BitVec 64} (h : ppa.toNat < 2) :
    AddressInOrder twoPages .v12 ppa := by
  have htwo : Nat.clog 2 2 = 1 := Nat.clog_eq_one le_rfl le_rfl
  have hbits : addressBits [1, 2, 1, 1, 1] = 1 := by simp [addressBits, htwo]
  have hpage : fieldAt ppa [1] 2 = ppa.toNat % 2 % 2 ^ 32 := by simp [fieldAt, addressBits, htwo]
  show ppa.toNat < 2 ^ addressBits [1, 2, 1, 1, 1] ∧ fieldAt ppa [1] 2 < 2 ∧
    fieldAt ppa [1, 2] 1 < 1 ∧ fieldAt ppa [1, 2, 1] 1 < 1 ∧ fieldAt ppa [1, 2, 1, 1] 1 < 1
  rw [hbits, hpage, fieldAt_one, fieldAt_one, fieldAt_one]
  omega

theorem twoPages_block (ppa : BitVec 64) : twoPages.physicalBlock ppa = ⟨0, 0, 0⟩ := by
  show (⟨fieldAt ppa [1, 2, 1, 1] 1, fieldAt ppa [1, 2, 1] 1, fieldAt ppa [1, 2] 1⟩ :
    ChunkAddress) = _
  rw [fieldAt_one, fieldAt_one, fieldAt_one]

/-- A command for both pages. -/
def SetBadBlocks.both (val : BitVec 8) : SetBadBlocks :=
  ⟨0, 0, val.setWidth 32 <<< 16 ||| 1, BitVec.ofNat 64⟩

theorem bad_block_table_both : twoPages.RoundTrips [.both 1, .both 0] := by
  have haddresses : ∀ c ∈ [SetBadBlocks.both 1, .both 0], c.addresses = [0, 1] := by
    intro c hc
    rcases List.mem_pair.mp hc with rfl | rfl <;> decide
  have horder : ∀ c ∈ [SetBadBlocks.both 1, .both 0], ∀ a ∈ c.addresses,
      AddressInOrder twoPages .v12 a := by
    intro c hc a ha
    rw [haddresses c hc] at ha
    rcases List.mem_pair.mp ha with rfl | rfl <;> exact twoPages_in_order (by decide)
  refine (bad_block_table_iff twoPages _ horder).mpr ⟨fun _ => by decide, ?_⟩
  rintro before c ⟨rest, hrest⟩
  rcases before with _ | ⟨c₁, _ | ⟨c₂, before⟩⟩
  · cases hrest
    exact ⟨by decide, fun a _ e _ _ => .inl rfl⟩
  · cases hrest
    refine ⟨by decide, fun a _ e _ he => .inl ?_⟩
    -- the first command has set no other address
    have he : e ∉ [0, 1] := he
    rw [List.mem_cons, List.mem_singleton, not_or] at he
    show (if (1 : BitVec 64) = e then (1 : UInt8) else if (0 : BitVec 64) = e then 1 else 0) = 0
    rw [if_neg (Ne.symm he.2), if_neg (Ne.symm he.1)]
  · simp at hrest

/-- The block is marked through one page and cleared through the other. The host still reads the
mark. -/
theorem not_round_trips_page : ¬ twoPages.RoundTrips [.one 0 1, .one 1 0] := by
  intro h
  obtain ⟨fuel, badBlocks, hset, hreports⟩ := h.reported _ (List.prefix_refl _)
  have hrun : (twoPages.setAll 256 .empty [.one 0 1, .one 1 0]).map
      (fun m => (twoPages.getBadBlockTable m.entries 0).toOption) =
        some (some (some (twoPages.tableHeader ++ [1]))) := by
    decide +kernel
  obtain ⟨badBlocks', hset', hget⟩ := Option.map_eq_some_iff.mp hrun
  cases setAll_unique hset hset'
  obtain ⟨data, hdata, -, -, hbytes⟩ :=
    hreports 0 (twoPages_in_order (by decide)) _ (List.Perm.refl _)
  rw [hdata] at hget
  cases hget
  have hcleared : latest twoPages.physicalBlock 0
      ([SetBadBlocks.one 0 1, .one 1 0].flatMap SetBadBlocks.updates) ⟨0, 0, 0⟩ = 0 := by
    show latest twoPages.physicalBlock 0 [(0, 1), (1, 0)] ⟨0, 0, 0⟩ = 0
    simp [latest, twoPages_block]
  have hbyte := hbytes 0 (by decide)
  rw [twoPages_block, hcleared] at hbyte
  exact absurd hbyte (by decide)

end Sequences

end SimpleSSD.HIL.NVMe
