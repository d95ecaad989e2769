import SimpleSSD.BIL.Entry
import SimpleSSD.HIL.NVMe.Namespace

/-!
# The driver without an interface (sil/none/none.cc)

A block I/O becomes a request to the host interface layer. The first page is the one of the
offset, but the pages are counted from the length alone, so a range that is not aligned may lose
its last page.

The test on the first page is against the number of the superpages, which the FTL leaves in a
global variable. The driver's pages are smaller when the FTL works on I/O units, and then those
behind that number are folded back (`submitIO_exact_iff`).
-/

namespace SimpleSSD.SIL.None

open BIL ( BIO BIOType divCeil)

/-- The parameters of the FTL (ftl.cc:35–45), with the switch that makes I/O units of the pages. -/
structure Device where
  nTotalLogicalPages : Nat
  pageSize : Nat
  ioUnitInPage : Nat
  useRandomIOTweak : Bool
  nTotalLogicalPages_pos : 0 < nTotalLogicalPages
  ioUnitInPage_pos : 0 < ioUnitInPage
  ioUnitInPage_le : ioUnitInPage ≤ pageSize

namespace Device

/-- The logical pages of `getLPNInfo` (icl.cc:49–58). -/
def totalLogicalPages (dev : Device) : Nat :=
  if dev.useRandomIOTweak then dev.nTotalLogicalPages * dev.ioUnitInPage
  else dev.nTotalLogicalPages

def logicalPageSize (dev : Device) : Nat :=
  if dev.useRandomIOTweak then dev.pageSize / dev.ioUnitInPage else dev.pageSize

/-- The global variable, set by `PageMapping::initialize` (page_mapping.cc:245). -/
def nlogicalpagesinSSD (dev : Device) : Nat := dev.nTotalLogicalPages

/-- `bytesize` of `getInfo` (none.cc:54–57). -/
def bytesize (dev : Device) : Nat := dev.totalLogicalPages * dev.logicalPageSize

theorem logicalPageSize_pos (dev : Device) : 0 < dev.logicalPageSize := by
  have hle := dev.ioUnitInPage_le
  have hpos := dev.ioUnitInPage_pos
  unfold logicalPageSize
  split
  · exact Nat.div_pos hle hpos
  · omega

end Device

/-- `submitIO` (none.cc:59–137): the function of `HIL` that is called, and its request. `log2` is
the logarithm of the mathematics library, without its fraction. -/
def submitIO (log2 : Nat → Nat) (dev : Device) (bio : BIO) : BIOType × HIL.Request :=
  let incomingRequestAddress := bio.offset / dev.logicalPageSize
  let mask := log2 dev.nlogicalpagesinSSD + 1
  if incomingRequestAddress ≤ dev.nlogicalpagesinSSD then
    (bio.type, ⟨⟨incomingRequestAddress, divCeil bio.length dev.logicalPageSize⟩,
      bio.offset % dev.logicalPageSize, bio.length⟩)
  else
    let extractMask := 2 ^ mask - 1
    let extractedBits := incomingRequestAddress &&& extractMask
    (bio.type, ⟨⟨extractedBits % dev.nlogicalpagesinSSD, divCeil bio.length dev.logicalPageSize⟩,
      0, bio.length⟩)

/-- The request is for the pages that the block I/O meets, from its first byte on, and ends within
the device. -/
structure Exact (dev : Device) (bio : BIO) (call : BIOType × HIL.Request) : Prop where
  function : call.1 = bio.type
  pages : Units.Covers dev.logicalPageSize bio.offset bio.length call.2.range.slpn
    call.2.range.nlp
  start : call.2.range.slpn * dev.logicalPageSize + call.2.offset = bio.offset
  inside : call.2.range.slpn + call.2.range.nlp ≤ dev.totalLogicalPages

section Range

variable {log2 : Nat → Nat} {dev : Device} {bio : BIO}

theorem submitIO_near (h : bio.offset / dev.logicalPageSize ≤ dev.nlogicalpagesinSSD)
    (hpos : 0 < bio.length) : submitIO log2 dev bio =
      (bio.type, ⟨⟨bio.offset / dev.logicalPageSize, (bio.length - 1) / dev.logicalPageSize + 1⟩,
        bio.offset % dev.logicalPageSize, bio.length⟩) := by
  rw [ submitIO, BIL.divCeil_eq hpos bio.length_lt]
  exact if_pos h

/-- A page that is folded back is one of the superpages. -/
theorem submitIO_far (h : dev.nlogicalpagesinSSD < bio.offset / dev.logicalPageSize) :
    ( submitIO log2 dev bio).2.range.slpn < dev.nlogicalpagesinSSD := by
  rw [ submitIO]
  dsimp only
  rw [if_neg (Nat.not_le_of_lt h)]
  exact Nat.mod_lt _ dev.nTotalLogicalPages_pos

theorem submitIO_nlp (hpos : 0 < bio.length) : ( submitIO log2 dev bio).2.range.nlp =
    (bio.length - 1) / dev.logicalPageSize + 1 := by
  rw [ submitIO, BIL.divCeil_eq hpos bio.length_lt]
  dsimp only
  split <;> rfl

/-- The pages are always pages of the device, also where they are the wrong ones. -/
theorem submitIO_inside (hpos : 0 < bio.length) (hin : bio.offset + bio.length ≤ dev.bytesize) :
    ( submitIO log2 dev bio).2.range.slpn + ( submitIO log2 dev bio).2.range.nlp ≤
      dev.totalLogicalPages := by
  have hlast := Units.last_lt dev.logicalPageSize_pos hpos hin
  have hcount : bio.offset / dev.logicalPageSize + ((bio.length - 1) / dev.logicalPageSize + 1) ≤
      (bio.offset + bio.length - 1) / dev.logicalPageSize + 1 := Units.divCeil_le hpos
  by_cases hnear : bio.offset / dev.logicalPageSize ≤ dev.nlogicalpagesinSSD
  · rw [submitIO_near hnear hpos]
    dsimp only
    omega
  · have hfar : ( submitIO log2 dev bio).2.range.slpn < dev.nlogicalpagesinSSD :=
      submitIO_far (Nat.lt_of_not_le hnear)
    rw [submitIO_nlp hpos]
    omega

/-- For every block I/O inside of the device, the request is exact as long as the first page is
not behind the number of the superpages, and the last byte is not pushed over the border of a
page. -/
theorem submitIO_exact_iff (log2 : Nat → Nat) (dev : Device) (bio : BIO) (hpos : 0 < bio.length)
    (hin : bio.offset + bio.length ≤ dev.bytesize) :
    Exact dev bio ( submitIO log2 dev bio) ↔
      bio.offset / dev.logicalPageSize ≤ dev.nlogicalpagesinSSD ∧
        bio.offset % dev.logicalPageSize + (bio.length - 1) % dev.logicalPageSize <
          dev.logicalPageSize := by
  have hpage := dev.logicalPageSize_pos
  by_cases hnear : bio.offset / dev.logicalPageSize ≤ dev.nlogicalpagesinSSD
  · have hinside : ( submitIO log2 dev bio).2.range.slpn + ( submitIO log2 dev bio).2.range.nlp ≤
        dev.totalLogicalPages := submitIO_inside hpos hin
    rw [submitIO_near hnear hpos] at hinside ⊢
    rw [← Units.divCeil_covers_iff hpage hpos, and_iff_right hnear]
    constructor
    · intro h
      exact h.pages
    · intro h
      refine ⟨rfl, h, ?_, hinside⟩
      rw [Nat.mul_comm]
      exact Nat.div_add_mod _ _
  · refine iff_of_false (fun h => ?_) fun h => hnear h.1
    have hfar : ( submitIO log2 dev bio).2.range.slpn < dev.nlogicalpagesinSSD :=
      submitIO_far (Nat.lt_of_not_le hnear)
    have hfirst := ((Units.covers_iff hpage hpos).mp h.pages).1
    omega

end Range

/-! ### Instances -/

/-- Sixteen superpages of four units of 4096 bytes. -/
def fourUnits (useRandomIOTweak : Bool) : Device :=
  ⟨16, 16384, 4, useRandomIOTweak, by decide, by decide, by decide⟩

/-- Two whole units. -/
theorem submitIO_exact_aligned :
    Exact (fourUnits true) ⟨.read, 8192, 8192, by decide, by decide⟩
      ( submitIO Nat.log2 (fourUnits true) ⟨.read, 8192, 8192, by decide, by decide⟩) :=
  (submitIO_exact_iff Nat.log2 (fourUnits true) ⟨.read, 8192, 8192, by decide, by decide⟩
    (by decide) (by decide)).mpr (by decide)

/-- A page from its second sector on reaches into the next page, which is not asked for. The unit
17 is the second one of the fifth superpage, and the unit 1 is asked for. -/
theorem not_exact_straddling :
    ( submitIO Nat.log2 (fourUnits false) ⟨.read, 512, 16384, by decide, by decide⟩).2 =
        ⟨⟨0, 1⟩, 512, 16384⟩ ∧
      ¬ Exact (fourUnits false) ⟨.read, 512, 16384, by decide, by decide⟩
        ( submitIO Nat.log2 (fourUnits false) ⟨.read, 512, 16384, by decide, by decide⟩) ∧
      ( submitIO Nat.log2 (fourUnits true) ⟨.write, 69632, 4096, by decide, by decide⟩).2 =
        ⟨⟨1, 1⟩, 0, 4096⟩ ∧
      ¬ Exact (fourUnits true) ⟨.write, 69632, 4096, by decide, by decide⟩
        ( submitIO Nat.log2 (fourUnits true) ⟨.write, 69632, 4096, by decide, by decide⟩) := by
  refine ⟨by decide, fun h => ?_, by decide, fun h => ?_⟩
  · have hcovers := (Units.covers_iff (by decide) (by decide)).mp h.pages
    exact absurd hcovers.2 (by decide)
  · have hcovers := (Units.covers_iff (by decide) (by decide)).mp h.pages
    exact absurd hcovers.1 (by decide)

end SimpleSSD.SIL.None
