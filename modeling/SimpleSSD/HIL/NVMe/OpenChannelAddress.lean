import SimpleSSD.HIL.NVMe.ChunkData
import SimpleSSD.Lib.BitFields

/-!
# The addresses of Open-Channel SSDs (hil/nvme/ocssd.cc:127–157, 297–310, 1249–1258, 1409–1427)

The fields of an address are as wide as their counts need, one behind the other. Both versions take
an address apart in 64 bits. Version 2.0 puts one together from numbers of 32 bits, which it shifts
before they are extended, so a field that ends behind bit 32 is cut off there (`codecs_iff`).

The language gives no result for a shift of 32 bits by 32 or more, so such shifts are left open:
`shl` is any function that shifts by less as it should.
-/

namespace SimpleSSD.HIL.NVMe

open PAL (CPDPBP)

/-- `Mask` (ocssd.hh:79–94). The masks of plane and die are 0. -/
structure Mask where
  padding : BitVec 64
  channelMask : BitVec 64
  channelShift : Nat
  wayMask : BitVec 64
  wayShift : Nat
  blockMask : BitVec 64
  blockShift : Nat
  pageMask : BitVec 64
  pageShift : Nat
  sectorMask : BitVec 64

namespace Mask

/-- `OpenChannelSSD20::init` (ocssd.cc:1249–1258), which leaves out the pages. -/
def init20 (group parallelUnit chunk chunkSize : Nat) : Mask :=
  let sector := generateMask chunkSize 0
  let block := generateMask chunk sector.2
  let way := generateMask parallelUnit block.2
  let channel := generateMask group way.2
  { padding := 0, channelMask := channel.1, channelShift := way.2, wayMask := way.1,
    wayShift := block.2, blockMask := block.1, blockShift := sector.2, pageMask := 0,
    pageShift := 0, sectorMask := sector.1 }

/-- `OpenChannelSSD12::init` (ocssd.cc:127–157). -/
def init12 (group parallelUnit chunk page sectorPerPage : Nat) : Mask :=
  let sector := generateMask sectorPerPage 0
  let page := generateMask page sector.2
  let block := generateMask chunk page.2
  let way := generateMask parallelUnit block.2
  let channel := generateMask group way.2
  { padding := ~~~(sector.1 ^^^ page.1 ^^^ block.1 ^^^ way.1 ^^^ channel.1),
    channelMask := channel.1, channelShift := way.2, wayMask := way.1, wayShift := block.2,
    blockMask := block.1, blockShift := page.2, pageMask := page.1, pageShift := sector.2,
    sectorMask := sector.1 }

end Mask

/-- The arguments `g`, `p`, `c` and `l`. -/
structure LogicalAddress where
  g : BitVec 32
  p : BitVec 32
  c : BitVec 32
  l : BitVec 32
deriving DecidableEq

namespace Mask

/-- `makeLBA` (ocssd.cc:1409–1419). -/
def makeLBA (shl : BitVec 32 → Nat → BitVec 32) (m : Mask) (a : LogicalAddress) : BitVec 64 :=
  let ret := a.l.setWidth 64 &&& m.sectorMask
  let ret := ret ||| (shl a.c m.blockShift).setWidth 64 &&& m.blockMask
  let ret := ret ||| (shl a.p m.wayShift).setWidth 64 &&& m.wayMask
  ret ||| (shl a.g m.channelShift).setWidth 64 &&& m.channelMask

/-- `parseLBA` (ocssd.cc:1421–1427). -/
def parseLBA (m : Mask) (lba : BitVec 64) : LogicalAddress where
  l := (lba &&& m.sectorMask).setWidth 32
  c := ((lba &&& m.blockMask) >>> m.blockShift).setWidth 32
  p := ((lba &&& m.wayMask) >>> m.wayShift).setWidth 32
  g := ((lba &&& m.channelMask) >>> m.channelShift).setWidth 32

/-- `parsePPA` (ocssd.cc:297–310). -/
def parsePPA (m : Mask) (ppa : BitVec 64) : Option CPDPBP :=
  if ppa &&& m.padding = 0 then
    some {
      channel := ((ppa &&& m.channelMask) >>> m.channelShift).toNat % 2 ^ 32
      package := ((ppa &&& m.wayMask) >>> m.wayShift).toNat % 2 ^ 32
      die := 0
      plane := 0
      block := ((ppa &&& m.blockMask) >>> m.blockShift).toNat % 2 ^ 32
      page := ((ppa &&& m.pageMask) >>> m.pageShift).toNat % 2 ^ 32 }
  else none

end Mask

/-- `generateMask` makes the mask of a field as wide as the count needs. -/
theorem generateMask_eq (val count : Nat) : generateMask val count =
    ((⟨count, Nat.clog 2 val⟩ : BitField).mask 64, count + Nat.clog 2 val) := by
  have hwidth : (if val = 0 then 0 else if 2 ^ val.log2 = val then val.log2 else val.log2 + 1) =
      Nat.clog 2 val := by
    split
    · next h => rw [h, Nat.clog_zero_right]
    · next h =>
      split
      · next hpow =>
        conv_rhs => rw [← hpow]
        rw [Nat.clog_pow 2 _ (by decide)]
      · next hpow =>
        have hle := Nat.log2_self_le h
        have hlt : val < 2 ^ (val.log2 + 1) := Nat.lt_log2_self
        refine le_antisymm ?_ (Nat.clog_le_of_le_pow hlt.le)
        exact (Nat.lt_clog_iff_pow_lt (by decide)).mpr (lt_of_le_of_ne hle hpow)
  rw [generateMask, hwidth]
  rfl

namespace Mask

theorem init20_eq (group parallelUnit chunk chunkSize : Nat) :
    init20 group parallelUnit chunk chunkSize =
      let sector : BitField := ⟨0, Nat.clog 2 chunkSize⟩
      let block : BitField := ⟨sector.stop, Nat.clog 2 chunk⟩
      let way : BitField := ⟨block.stop, Nat.clog 2 parallelUnit⟩
      let channel : BitField := ⟨way.stop, Nat.clog 2 group⟩
      { padding := 0, channelMask := channel.mask 64, channelShift := channel.shift,
        wayMask := way.mask 64, wayShift := way.shift, blockMask := block.mask 64,
        blockShift := block.shift, pageMask := 0, pageShift := 0,
          sectorMask := sector.mask 64 } := by
  simp only [init20, generateMask_eq]
  rfl

theorem init12_eq (group parallelUnit chunk page sectorPerPage : Nat) :
    init12 group parallelUnit chunk page sectorPerPage =
      let sector : BitField := ⟨0, Nat.clog 2 sectorPerPage⟩
      let page : BitField := ⟨sector.stop, Nat.clog 2 page⟩
      let block : BitField := ⟨page.stop, Nat.clog 2 chunk⟩
      let way : BitField := ⟨block.stop, Nat.clog 2 parallelUnit⟩
      let channel : BitField := ⟨way.stop, Nat.clog 2 group⟩
      { padding := ~~~BitField.union [sector, page, block, way, channel] 64,
        channelMask := channel.mask 64, channelShift := channel.shift, wayMask := way.mask 64,
        wayShift := way.shift, blockMask := block.mask 64, blockShift := block.shift,
        pageMask := page.mask 64, pageShift := page.shift, sectorMask := sector.mask 64 } := by
  have hunion : ∀ f₁ f₂ f₃ f₄ f₅ : BitField, BitField.union [f₁, f₂, f₃, f₄, f₅] 64 =
      f₁.mask 64 ^^^ f₂.mask 64 ^^^ f₃.mask 64 ^^^ f₄.mask 64 ^^^ f₅.mask 64 := by
    intro f₁ f₂ f₃ f₄ f₅
    unfold BitField.union
    dsimp only [List.foldr]
    rw [show (0 : BitVec 64) = 0#64 from rfl, BitVec.xor_zero]
    simp only [BitVec.xor_assoc]
  dsimp only
  rw [hunion]
  simp only [init12, generateMask_eq]
  rfl

end Mask

namespace OCSSDParameter

theorem parseLBA_eq (p : OCSSDParameter) (lba : Nat) : p.parseLBA lba =
    let a := (Mask.init20 p.group p.parallelUnit p.chunk p.chunkSize).parseLBA (.ofNat 64 lba)
    (⟨a.g.toNat, a.p.toNat, a.c.toNat⟩, a.l.toNat) := by
  simp only [parseLBA, Mask.parseLBA, BitVec.toNat_setWidth]
  rfl

theorem parsePPA_eq (p : OCSSDParameter) (ppa : Nat) : p.parsePPA ppa =
    ((Mask.init12 p.group p.parallelUnit p.chunk p.page (p.superPageSize / ocssdLbaSize)).parsePPA
      (.ofNat 64 ppa)).map fun addr =>
        p.convert ⟨addr.channel, addr.package, addr.block⟩ addr.page := by
  unfold parsePPA Mask.parsePPA
  rw [apply_ite (Option.map _)]
  rfl

end OCSSDParameter

/-! ### Geometries -/

/-- `Geometry` (ocssd.hh) and `param.page`. -/
structure Geometry where
  group : BitVec 32
  parallelUnit : BitVec 32
  chunk : BitVec 32
  chunkSize : BitVec 32
  writeSize : BitVec 32
  page : BitVec 32

/-- The fields of an address of version 1.2. -/
structure PhysicalAddress where
  channel : BitVec 32
  way : BitVec 32
  block : BitVec 32
  page : BitVec 32
  sector : BitVec 32
deriving DecidableEq

/-- The fields at their places, as a host puts them. -/
def PhysicalAddress.ppa (m : Mask) (a : PhysicalAddress) : BitVec 64 :=
  a.sector.setWidth 64 ||| a.page.setWidth 64 <<< m.pageShift |||
    a.block.setWidth 64 <<< m.blockShift ||| a.way.setWidth 64 <<< m.wayShift |||
    a.channel.setWidth 64 <<< m.channelShift

namespace Geometry

variable (s : Geometry)

def mask20 : Mask :=
  .init20 s.group.toNat s.parallelUnit.toNat s.chunk.toNat s.chunkSize.toNat

def mask12 : Mask :=
  .init12 s.group.toNat s.parallelUnit.toNat s.chunk.toNat s.page.toNat s.writeSize.toNat

/-- The widths of the fields, and of the addresses. -/
def widths20 : List Nat :=
  [s.chunkSize, s.chunk, s.parallelUnit, s.group].map fun count => Nat.clog 2 count.toNat

def widths12 : List Nat :=
  [s.writeSize, s.page, s.chunk, s.parallelUnit, s.group].map fun count => Nat.clog 2 count.toNat

def width20 : Nat := s.widths20.sum

def width12 : Nat := s.widths12.sum

def Within20 (a : LogicalAddress) : Prop :=
  a.g < s.group ∧ a.p < s.parallelUnit ∧ a.c < s.chunk ∧ a.l < s.chunkSize

def Within12 (a : PhysicalAddress) : Prop :=
  a.channel < s.group ∧ a.way < s.parallelUnit ∧ a.block < s.chunk ∧ a.page < s.page ∧
    a.sector < s.writeSize

end Geometry

/-! ### What an address should do -/

/-- No two masks have a bit in common. -/
def MasksDisjoint (masks : List (BitVec 64)) : Prop := masks.Pairwise fun a b => a &&& b = 0

/-- A field holds the numbers below its count. -/
def Wide (mask : BitVec 64) (shift : Nat) (count : BitVec 32) : Prop :=
  ∀ v < count, (v.setWidth 64 <<< shift &&& mask) >>> shift = v.setWidth 64

/-- Version 2.0: an address that is put together is taken apart again. -/
structure Codec20 (shl : BitVec 32 → Nat → BitVec 32) (s : Geometry) : Prop where
  disjoint : MasksDisjoint
    [s.mask20.sectorMask, s.mask20.blockMask, s.mask20.wayMask, s.mask20.channelMask]
  sector : Wide s.mask20.sectorMask 0 s.chunkSize
  block : Wide s.mask20.blockMask s.mask20.blockShift s.chunk
  way : Wide s.mask20.wayMask s.mask20.wayShift s.parallelUnit
  channel : Wide s.mask20.channelMask s.mask20.channelShift s.group
  parse_make : ∀ a, s.Within20 a → s.mask20.parseLBA (s.mask20.makeLBA shl a) = a
  injective : ∀ a b, s.Within20 a → s.Within20 b →
    s.mask20.makeLBA shl a = s.mask20.makeLBA shl b → a = b

/-- Version 1.2. The sector is not one of the fields of a `CPDPBP`. -/
structure Codec12 (s : Geometry) : Prop where
  disjoint : MasksDisjoint [s.mask12.sectorMask, s.mask12.pageMask, s.mask12.blockMask,
    s.mask12.wayMask, s.mask12.channelMask]
  sector : Wide s.mask12.sectorMask 0 s.writeSize
  page : Wide s.mask12.pageMask s.mask12.pageShift s.page
  block : Wide s.mask12.blockMask s.mask12.blockShift s.chunk
  way : Wide s.mask12.wayMask s.mask12.wayShift s.parallelUnit
  channel : Wide s.mask12.channelMask s.mask12.channelShift s.group
  parse : ∀ a, s.Within12 a → s.mask12.parsePPA (a.ppa s.mask12) =
    some ⟨a.channel.toNat, a.way.toNat, 0, 0, a.block.toNat, a.page.toNat⟩
  injective : ∀ a b, s.Within12 a → s.Within12 b → a.ppa s.mask12 = b.ppa s.mask12 → a = b

/-! ### The fields -/

section Fields

theorem lt_pow_width {v count : BitVec 32} (h : v < count) : v.toNat < 2 ^ Nat.clog 2 count.toNat :=
  (BitVec.lt_def.mp h).trans_le (Nat.le_pow_clog (by decide) _)

theorem toNat_setWidth_32 (v : BitVec 32) : (v.setWidth 64).toNat = v.toNat := by
  rw [BitVec.toNat_setWidth, Nat.mod_eq_of_lt (by have := v.isLt; omega)]

theorem setWidth_setWidth_32 (v : BitVec 32) : (v.setWidth 64).setWidth 32 = v := by
  refine BitVec.eq_of_toNat_eq ?_
  rw [BitVec.toNat_setWidth, toNat_setWidth_32, Nat.mod_eq_of_lt v.isLt]

/-- A field of 64 bits holds the numbers below its count. -/
theorem wide_field {f : BitField} {count : BitVec 32} (hwidth : f.width = Nat.clog 2 count.toNat)
    (hfit : f.stop ≤ 64) : Wide (f.mask 64) f.shift count := by
  intro v hv
  refine BitField.get_shiftLeft ?_ hfit
  rw [toNat_setWidth_32, hwidth]
  exact lt_pow_width hv

/-- A number of 32 bits is shifted to its field, if that ends in them. -/
theorem get_shl {shl : BitVec 32 → Nat → BitVec 32} (hshl : ∀ x n, n < 32 → shl x n = x <<< n)
    {f : BitField} {v : BitVec 32} (hv : v.toNat < 2 ^ f.width) (hfit : f.stop ≤ 32) :
    f.get ((shl v f.shift).setWidth 64) = v.setWidth 64 := by
  refine BitVec.eq_of_getLsbD_eq fun i hi => ?_
  rw [BitField.getLsbD_get, BitVec.getLsbD_setWidth, BitVec.getLsbD_setWidth]
  rw [BitField.stop] at hfit
  by_cases hwidth : i < f.width
  · rw [hshl v _ (by omega), BitVec.getLsbD_shiftLeft, decide_eq_true hwidth,
      decide_eq_true (p := f.shift + i < 64) (by omega),
      decide_eq_true (p := f.shift + i < 32) (by omega), decide_eq_false (by omega),
      decide_eq_true hi, Nat.add_sub_cancel_left]
    simp
  · have hbit : v.getLsbD i = false :=
      Nat.testBit_lt_two_pow (hv.trans_le (Nat.pow_le_pow_right (by decide) (by omega)))
    rw [decide_eq_false hwidth, hbit, Bool.false_and, Bool.and_false]

/-- What is behind bit 32 is lost: the highest number below the count is not read again. -/
theorem get_lost {f : BitField} {count : BitVec 32} (hwidth : f.width = Nat.clog 2 count.toNat)
    (hlost : 32 < f.stop) (hpos : 0 < f.width) (x : BitVec 32) :
    (f.get (x.setWidth 64)).setWidth 32 ≠ count - 1 := by
  intro heq
  have hcount : 2 ^ (f.width - 1) < count.toNat :=
    (Nat.lt_clog_iff_pow_lt (by decide)).mp (by omega)
  have hpow := Nat.two_pow_pos (f.width - 1)
  have htop : (count - 1).toNat = count.toNat - 1 := by
    have := count.isLt
    rw [BitVec.toNat_sub]
    show (2 ^ 32 - 1 + count.toNat) % 2 ^ 32 = count.toNat - 1
    omega
  have hle : count.toNat - 1 < 2 ^ f.width := by
    have := Nat.le_pow_clog (b := 2) (by decide) count.toNat
    rw [← hwidth] at this
    have := count.isLt
    omega
  -- the highest bit of the field is set in the number, and not in the word
  have hset : (count - 1).getLsbD (f.width - 1) = true := by
    rw [BitVec.getLsbD, htop, Nat.testBit_eq_decide_div_mod_eq, decide_eq_true_eq]
    have hsplit : 2 ^ f.width = 2 * 2 ^ (f.width - 1) := by
      rw [← Nat.pow_succ', Nat.succ_eq_add_one, Nat.sub_add_cancel hpos]
    have hdiv : (count.toNat - 1) / 2 ^ (f.width - 1) = 1 := by
      refine Nat.div_eq_of_lt_le (by omega) (by omega)
    rw [hdiv]
  have hclear : ((f.get (x.setWidth 64)).setWidth 32).getLsbD (f.width - 1) = false := by
    rw [BitField.stop] at hlost
    rw [BitVec.getLsbD_setWidth, BitField.getLsbD_get, BitVec.getLsbD_setWidth,
      BitVec.getLsbD_of_ge x _ (by omega)]
    simp
  rw [heq, hset] at hclear
  cases hclear

end Fields

/-! ### Version 2.0 -/

namespace Geometry

section Version20

variable {s : Geometry} {shl : BitVec 32 → Nat → BitVec 32} {a b : LogicalAddress}

def sector20 (s : Geometry) : BitField := ⟨0, Nat.clog 2 s.chunkSize.toNat⟩

def block20 (s : Geometry) : BitField := ⟨s.sector20.stop, Nat.clog 2 s.chunk.toNat⟩

def way20 (s : Geometry) : BitField := ⟨s.block20.stop, Nat.clog 2 s.parallelUnit.toNat⟩

def channel20 (s : Geometry) : BitField := ⟨s.way20.stop, Nat.clog 2 s.group.toNat⟩

def fields20 (s : Geometry) : List BitField := [s.sector20, s.block20, s.way20, s.channel20]

theorem fields20_eq (s : Geometry) : s.fields20 = BitField.layout 0 s.widths20 := rfl

theorem mask20_eq (s : Geometry) : s.mask20 = {
    padding := 0, channelMask := s.channel20.mask 64, channelShift := s.channel20.shift,
    wayMask := s.way20.mask 64, wayShift := s.way20.shift, blockMask := s.block20.mask 64,
    blockShift := s.block20.shift, pageMask := 0, pageShift := 0,
    sectorMask := s.sector20.mask 64 } :=
  Mask.init20_eq _ _ _ _

theorem fields20_apart (s : Geometry) : s.fields20.Pairwise BitField.Apart :=
  BitField.layout_apart 0 s.widths20

theorem stop_le_width20 {f : BitField} (hf : f ∈ s.fields20) : f.stop ≤ s.width20 := by
  have hstop := (BitField.layout_bounds (fields20_eq s ▸ hf)).2
  rwa [Nat.zero_add] at hstop

/-- The four words that `makeLBA` takes bits from. -/
def words20 (shl : BitVec 32 → Nat → BitVec 32) (s : Geometry) (a : LogicalAddress) :
    List (BitField × BitVec 64) :=
  [(s.sector20, a.l.setWidth 64), (s.block20, (shl a.c s.block20.shift).setWidth 64),
    (s.way20, (shl a.p s.way20.shift).setWidth 64),
    (s.channel20, (shl a.g s.channel20.shift).setWidth 64)]

theorem makeLBA_eq (s : Geometry) (shl : BitVec 32 → Nat → BitVec 32) (a : LogicalAddress) :
    s.mask20.makeLBA shl a = BitField.pack (s.words20 shl a) := by
  rw [mask20_eq]
  unfold Mask.makeLBA BitField.pack words20
  dsimp only [List.foldr]
  rw [BitVec.or_assoc, BitVec.or_assoc, show (0 : BitVec 64) = 0#64 from rfl, BitVec.or_zero]

theorem get_makeLBA (s : Geometry) (shl : BitVec 32 → Nat → BitVec 32) (a : LogicalAddress) :
    ∀ p ∈ s.words20 shl a, p.1.get (s.mask20.makeLBA shl a) = p.1.get p.2 := by
  intro p hp
  have hapart : ((s.words20 shl a).map Prod.fst).Pairwise BitField.Apart := fields20_apart s
  rw [makeLBA_eq]
  exact BitField.get_pack (List.pairwise_map.mp hapart) hp

/-- What is read from the fields of an address that was put together. -/
theorem parseLBA_makeLBA (s : Geometry) (shl : BitVec 32 → Nat → BitVec 32) (a : LogicalAddress) :
    s.mask20.parseLBA (s.mask20.makeLBA shl a) =
      ⟨(s.channel20.get ((shl a.g s.channel20.shift).setWidth 64)).setWidth 32,
        (s.way20.get ((shl a.p s.way20.shift).setWidth 64)).setWidth 32,
        (s.block20.get ((shl a.c s.block20.shift).setWidth 64)).setWidth 32,
        (s.sector20.get (a.l.setWidth 64)).setWidth 32⟩ := by
  have hget := get_makeLBA s shl a
  simp only [words20, List.forall_mem_cons] at hget
  obtain ⟨hl, hc, hp, hg, -⟩ := hget
  rw [← hl, ← hc, ← hp, ← hg]
  generalize s.mask20.makeLBA shl a = lba
  rw [mask20_eq]
  rfl

/-- The first field is in the low bits. -/
theorem get_sector20 (h : a.l < s.chunkSize) (hfit : s.width20 ≤ 64) :
    s.sector20.get (a.l.setWidth 64) = a.l.setWidth 64 := by
  have hget := BitField.get_shiftLeft (f := s.sector20) (x := a.l.setWidth 64)
    (by rw [toNat_setWidth_32]; exact lt_pow_width h)
    ((stop_le_width20 List.mem_cons_self).trans hfit)
  rwa [show s.sector20.shift = 0 from rfl, BitVec.shiftLeft_zero] at hget

/-- Addresses of up to 32 bits. -/
theorem parse_make_of_le (hshl : ∀ x n, n < 32 → shl x n = x <<< n) (hwidth : s.width20 ≤ 32)
    (ha : s.Within20 a) : s.mask20.parseLBA (s.mask20.makeLBA shl a) = a := by
  obtain ⟨hg, hp, hc, hl⟩ := ha
  have hstop : ∀ f ∈ s.fields20, f.stop ≤ 32 := fun f hf => (stop_le_width20 hf).trans hwidth
  rw [parseLBA_makeLBA,
    get_shl hshl (lt_pow_width hg) (hstop s.channel20 (by simp [fields20])),
    get_shl hshl (lt_pow_width hp) (hstop s.way20 (by simp [fields20])),
    get_shl hshl (lt_pow_width hc) (hstop s.block20 (by simp [fields20])),
    get_sector20 hl (hwidth.trans (by decide))]
  simp only [setWidth_setWidth_32]

theorem sub_one_lt {count : BitVec 32} (h : count ≠ 0) : count - 1 < count := by
  have hpos : count.toNat ≠ 0 := fun hzero => h (BitVec.eq_of_toNat_eq hzero)
  have := count.isLt
  rw [BitVec.lt_def, BitVec.toNat_sub]
  show (2 ^ 32 - 1 + count.toNat) % 2 ^ 32 < count.toNat
  omega

/-- Wider addresses lose the highest bit of a field. -/
theorem width20_le_of_parse_make
    (h : ∀ a, s.Within20 a → s.mask20.parseLBA (s.mask20.makeLBA shl a) = a) (hg : s.group ≠ 0)
    (hp : s.parallelUnit ≠ 0) (hc : s.chunk ≠ 0) (hl : s.chunkSize ≠ 0) : s.width20 ≤ 32 := by
  have hg' := (BitVec.pos_iff_ne_zero _).mpr hg
  have hp' := (BitVec.pos_iff_ne_zero _).mpr hp
  have hc' := (BitVec.pos_iff_ne_zero _).mpr hc
  have hl' := (BitVec.pos_iff_ne_zero _).mpr hl
  have hsector : s.sector20.stop ≤ 32 := by
    have hle : Nat.clog 2 s.chunkSize.toNat ≤ 32 := Nat.clog_le_of_le_pow s.chunkSize.isLt.le
    exact (Nat.zero_add _).trans_le hle
  have hblock : s.block20.stop ≤ 32 := by
    by_contra hlost
    have hpos : s.block20.stop = s.sector20.stop + s.block20.width := rfl
    have heq := h ⟨0, 0, s.chunk - 1, 0⟩ ⟨hg', hp', sub_one_lt hc, hl'⟩
    rw [parseLBA_makeLBA] at heq
    exact get_lost rfl (by omega) (by omega) _ (congrArg LogicalAddress.c heq)
  have hway : s.way20.stop ≤ 32 := by
    by_contra hlost
    have hpos : s.way20.stop = s.block20.stop + s.way20.width := rfl
    have heq := h ⟨0, s.parallelUnit - 1, 0, 0⟩ ⟨hg', sub_one_lt hp, hc', hl'⟩
    rw [parseLBA_makeLBA] at heq
    exact get_lost rfl (by omega) (by omega) _ (congrArg LogicalAddress.p heq)
  have hchannel : s.channel20.stop ≤ 32 := by
    by_contra hlost
    have hpos : s.channel20.stop = s.way20.stop + s.channel20.width := rfl
    have heq := h ⟨s.group - 1, 0, 0, 0⟩ ⟨sub_one_lt hg, hp', hc', hl'⟩
    rw [parseLBA_makeLBA] at heq
    exact get_lost rfl (by omega) (by omega) _ (congrArg LogicalAddress.g heq)
  have htotal : s.width20 = s.channel20.stop := by
    simp only [width20, widths20, List.map_cons, List.map_nil, List.sum_cons, List.sum_nil,
      channel20, way20, block20, sector20, BitField.stop]
    omega
  omega

theorem codec20_of_parse_make (hwidth : s.width20 ≤ 64)
    (h : ∀ a, s.Within20 a → s.mask20.parseLBA (s.mask20.makeLBA shl a) = a) : Codec20 shl s := by
  have hstop : ∀ f ∈ s.fields20, f.stop ≤ 64 := fun f hf => (stop_le_width20 hf).trans hwidth
  have hdisjoint : MasksDisjoint (s.fields20.map (·.mask 64)) :=
    List.pairwise_map.mpr ((fields20_apart s).imp fun hapart => hapart.mask_and 64)
  refine ⟨?_, ?_, ?_, ?_, ?_, h, fun a b ha hb heq => ?_⟩
  · rw [mask20_eq]
    exact hdisjoint
  · rw [mask20_eq]
    exact wide_field rfl (hstop s.sector20 (by simp [fields20]))
  · rw [mask20_eq]
    exact wide_field rfl (hstop s.block20 (by simp [fields20]))
  · rw [mask20_eq]
    exact wide_field rfl (hstop s.way20 (by simp [fields20]))
  · rw [mask20_eq]
    exact wide_field rfl (hstop s.channel20 (by simp [fields20]))
  · rw [← h a ha, heq, h b hb]

/-- Version 2.0 is right exactly when its addresses have up to 32 bits, or there are none. -/
theorem codec20_iff (hshl : ∀ x n, n < 32 → shl x n = x <<< n) (hwidth : s.width20 ≤ 64) :
    Codec20 shl s ↔ s.width20 ≤ 32 ∨ s.group = 0 ∨ s.parallelUnit = 0 ∨ s.chunk = 0 ∨
      s.chunkSize = 0 := by
  constructor
  · intro h
    by_contra hnot
    simp only [not_or] at hnot
    obtain ⟨hlt, hg, hp, hc, hl⟩ := hnot
    exact hlt (width20_le_of_parse_make h.parse_make hg hp hc hl)
  · intro h
    refine codec20_of_parse_make hwidth fun a ha => ?_
    rcases h with hle | hg | hp | hc | hl
    · exact parse_make_of_le hshl hle ha
    · exact absurd (hg ▸ ha.1) BitVec.not_lt_zero
    · exact absurd (hp ▸ ha.2.1) BitVec.not_lt_zero
    · exact absurd (hc ▸ ha.2.2.1) BitVec.not_lt_zero
    · exact absurd (hl ▸ ha.2.2.2) BitVec.not_lt_zero

end Version20

/-! ### Version 1.2 -/

section Version12

variable {s : Geometry} {a b : PhysicalAddress}

def sector12 (s : Geometry) : BitField := ⟨0, Nat.clog 2 s.writeSize.toNat⟩

def page12 (s : Geometry) : BitField := ⟨s.sector12.stop, Nat.clog 2 s.page.toNat⟩

def block12 (s : Geometry) : BitField := ⟨s.page12.stop, Nat.clog 2 s.chunk.toNat⟩

def way12 (s : Geometry) : BitField := ⟨s.block12.stop, Nat.clog 2 s.parallelUnit.toNat⟩

def channel12 (s : Geometry) : BitField := ⟨s.way12.stop, Nat.clog 2 s.group.toNat⟩

def fields12 (s : Geometry) : List BitField :=
  [s.sector12, s.page12, s.block12, s.way12, s.channel12]

theorem fields12_eq (s : Geometry) : s.fields12 = BitField.layout 0 s.widths12 := rfl

theorem mask12_eq (s : Geometry) : s.mask12 = {
    padding := ~~~BitField.union s.fields12 64, channelMask := s.channel12.mask 64,
    channelShift := s.channel12.shift, wayMask := s.way12.mask 64, wayShift := s.way12.shift,
    blockMask := s.block12.mask 64, blockShift := s.block12.shift, pageMask := s.page12.mask 64,
    pageShift := s.page12.shift, sectorMask := s.sector12.mask 64 } :=
  Mask.init12_eq _ _ _ _ _

theorem fields12_apart (s : Geometry) : s.fields12.Pairwise BitField.Apart :=
  BitField.layout_apart 0 s.widths12

theorem stop_le_width12 {f : BitField} (hf : f ∈ s.fields12) : f.stop ≤ s.width12 := by
  have hstop := (BitField.layout_bounds (fields12_eq s ▸ hf)).2
  rwa [Nat.zero_add] at hstop

/-- The numbers at their places. -/
def words12 (s : Geometry) (a : PhysicalAddress) : List (BitField × BitVec 64) :=
  [(s.sector12, a.sector.setWidth 64 <<< s.sector12.shift),
    (s.page12, a.page.setWidth 64 <<< s.page12.shift),
    (s.block12, a.block.setWidth 64 <<< s.block12.shift),
    (s.way12, a.way.setWidth 64 <<< s.way12.shift),
    (s.channel12, a.channel.setWidth 64 <<< s.channel12.shift)]

theorem ppa_eq (ha : s.Within12 a) : a.ppa s.mask12 = BitField.pack (s.words12 a) := by
  obtain ⟨hchannel, hway, hblock, hpage, hsector⟩ := ha
  have hand : ∀ {v count : BitVec 32} {f : BitField}, f.width = Nat.clog 2 count.toNat → v < count →
      v.setWidth 64 <<< f.shift &&& f.mask 64 = v.setWidth 64 <<< f.shift := by
    intro v count f hwidth hv
    refine BitField.shiftLeft_and_mask ?_
    rw [toNat_setWidth_32, hwidth]
    exact lt_pow_width hv
  rw [mask12_eq]
  unfold PhysicalAddress.ppa BitField.pack words12
  dsimp only [List.foldr]
  rw [hand rfl hchannel, hand rfl hway, hand rfl hblock, hand rfl hpage, hand rfl hsector,
    show (0 : BitVec 64) = 0#64 from rfl, BitVec.or_zero,
    show s.sector12.shift = 0 from rfl, BitVec.shiftLeft_zero]
  simp only [BitVec.or_assoc]

/-- Each number is read from its field. -/
theorem get_ppa (hwidth : s.width12 ≤ 64) (ha : s.Within12 a) :
    s.sector12.get (a.ppa s.mask12) = a.sector.setWidth 64 ∧
      s.page12.get (a.ppa s.mask12) = a.page.setWidth 64 ∧
      s.block12.get (a.ppa s.mask12) = a.block.setWidth 64 ∧
      s.way12.get (a.ppa s.mask12) = a.way.setWidth 64 ∧
      s.channel12.get (a.ppa s.mask12) = a.channel.setWidth 64 := by
  have hapart : ((s.words12 a).map Prod.fst).Pairwise BitField.Apart := fields12_apart s
  have hget := fun p hp => BitField.get_pack (List.pairwise_map.mp hapart) (p := p) hp
  rw [ppa_eq ha]
  simp only [words12, List.forall_mem_cons] at hget
  obtain ⟨hsector, hpage, hblock, hway, hchannel, -⟩ := hget
  obtain ⟨hchannel', hway', hblock', hpage', hsector'⟩ := ha
  have hnumber : ∀ {v count : BitVec 32} {f : BitField}, f.width = Nat.clog 2 count.toNat →
      f ∈ s.fields12 → v < count → f.get (v.setWidth 64 <<< f.shift) = v.setWidth 64 := by
    intro v count f hf hmem hv
    refine BitField.get_shiftLeft ?_ ((stop_le_width12 hmem).trans hwidth)
    rw [toNat_setWidth_32, hf]
    exact lt_pow_width hv
  refine ⟨hsector.trans (hnumber rfl (by simp [fields12]) hsector'),
    hpage.trans (hnumber rfl (by simp [fields12]) hpage'),
    hblock.trans (hnumber rfl (by simp [fields12]) hblock'),
    hway.trans (hnumber rfl (by simp [fields12]) hway'),
    hchannel.trans (hnumber rfl (by simp [fields12]) hchannel')⟩

theorem parsePPA_ppa (hwidth : s.width12 ≤ 64) (ha : s.Within12 a) :
    s.mask12.parsePPA (a.ppa s.mask12) =
      some ⟨a.channel.toNat, a.way.toNat, 0, 0, a.block.toNat, a.page.toNat⟩ := by
  obtain ⟨-, hpage, hblock, hway, hchannel⟩ := get_ppa hwidth ha
  have hpadding : a.ppa s.mask12 &&& s.mask12.padding = 0 := by
    rw [ppa_eq ha, mask12_eq]
    exact BitField.pack_and_not_union (l := s.words12 a) (fields12_apart s)
  have hnumber : ∀ v : BitVec 32, (v.setWidth 64).toNat % 2 ^ 32 = v.toNat := by
    intro v
    rw [toNat_setWidth_32, Nat.mod_eq_of_lt v.isLt]
  rw [Mask.parsePPA, if_pos hpadding, ← hnumber a.channel, ← hnumber a.way, ← hnumber a.block,
    ← hnumber a.page, ← hpage, ← hblock, ← hway, ← hchannel]
  generalize a.ppa s.mask12 = ppa
  rw [mask12_eq]
  rfl

/-- Version 1.2 is right for addresses of up to 64 bits. -/
theorem codec12 (hwidth : s.width12 ≤ 64) : Codec12 s := by
  have hstop : ∀ f ∈ s.fields12, f.stop ≤ 64 := fun f hf => (stop_le_width12 hf).trans hwidth
  have hdisjoint : MasksDisjoint (s.fields12.map (·.mask 64)) :=
    List.pairwise_map.mpr ((fields12_apart s).imp fun hapart => hapart.mask_and 64)
  refine ⟨?_, ?_, ?_, ?_, ?_, ?_, fun a ha => parsePPA_ppa hwidth ha, fun a b ha hb heq => ?_⟩
  · rw [mask12_eq]
    exact hdisjoint
  · rw [mask12_eq]
    exact wide_field rfl (hstop s.sector12 (by simp [fields12]))
  · rw [mask12_eq]
    exact wide_field rfl (hstop s.page12 (by simp [fields12]))
  · rw [mask12_eq]
    exact wide_field rfl (hstop s.block12 (by simp [fields12]))
  · rw [mask12_eq]
    exact wide_field rfl (hstop s.way12 (by simp [fields12]))
  · rw [mask12_eq]
    exact wide_field rfl (hstop s.channel12 (by simp [fields12]))
  · obtain ⟨hsector, hpage, hblock, hway, hchannel⟩ := get_ppa hwidth ha
    obtain ⟨hsector', hpage', hblock', hway', hchannel'⟩ := get_ppa hwidth hb
    have hinj : ∀ {v w : BitVec 32}, v.setWidth 64 = w.setWidth 64 → v = w := by
      intro v w h
      rw [← setWidth_setWidth_32 v, h, setWidth_setWidth_32]
    rw [heq] at hsector hpage hblock hway hchannel
    cases a
    cases b
    rw [PhysicalAddress.mk.injEq]
    exact ⟨hinj (hchannel.symm.trans hchannel'), hinj (hway.symm.trans hway'),
      hinj (hblock.symm.trans hblock'), hinj (hpage.symm.trans hpage'),
      hinj (hsector.symm.trans hsector')⟩

end Version12

/-- For addresses of up to 64 bits: the code of version 2.0 is right exactly when they have up to
32 bits, or there are none, and the code of version 1.2 always is. -/
theorem codecs_iff (shl : BitVec 32 → Nat → BitVec 32) (hshl : ∀ x n, n < 32 → shl x n = x <<< n)
    (s : Geometry) :
    (s.width20 ≤ 64 → (Codec20 shl s ↔ s.width20 ≤ 32 ∨ s.group = 0 ∨ s.parallelUnit = 0 ∨
      s.chunk = 0 ∨ s.chunkSize = 0)) ∧ (s.width12 ≤ 64 → Codec12 s) :=
  ⟨codec20_iff hshl, codec12⟩

/-- A shift that takes the low five bits of its operand. -/
def shl32 (x : BitVec 32) (n : Nat) : BitVec 32 := x <<< (n % 32)

/-- Counts that are not powers of two: 5 groups, 3 parallel units, 1000 chunks of 6 pages of
3 blocks. -/
def oddGeometry : Geometry := ⟨5, 3, 1000, 18, 3, 6⟩

theorem codecs_odd : Codec20 shl32 oddGeometry ∧ Codec12 oddGeometry := by
  obtain ⟨h20, h12⟩ :=
    codecs_iff shl32 (fun x n hn => by rw [shl32, Nat.mod_eq_of_lt hn]) oddGeometry
  exact ⟨(h20 (by decide +kernel)).mpr (.inl (by decide +kernel)), h12 (by decide +kernel)⟩

/-- 8 groups of 8 parallel units, 32768 chunks of 1024 pages of 4 blocks: 33 bits. -/
def wideGeometry : Geometry := ⟨8, 8, 32768, 4096, 4, 1024⟩

/-- The highest bit of the group is lost. -/
theorem not_codecs_wide : wideGeometry.width20 ≤ 64 ∧ wideGeometry.width12 ≤ 64 ∧
    ∀ shl, ¬ (Codec20 shl wideGeometry ∧ Codec12 wideGeometry) := by
  refine ⟨by decide +kernel, by decide +kernel, fun shl h => ?_⟩
  have hwidth := width20_le_of_parse_make h.1.parse_make (by decide) (by decide) (by decide)
    (by decide)
  revert hwidth
  decide +kernel

end Geometry

end SimpleSSD.HIL.NVMe
