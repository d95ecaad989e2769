import Mathlib.Order.Bounds.Basic
import Mathlib.Tactic.Ring
import SimpleSSD.HIL.NVMe.NamespaceIsolation

/-!
# Unit conversion and deallocation

`convertUnit` turns blocks into the logical pages that cover them. As long as its
numbers stay in 64 bits the pages are exactly those that the bytes of the blocks
touch (`convertUnit_exact_iff`). A deallocation uses the same conversion, so it
trims every page that a range touches, along with what else lies on it
(`deallocation_spares_iff`).
-/

namespace SimpleSSD.HIL.NVMe

variable {dev : LPNInfo} {ns : Namespace} {slba nlblk : Nat}

/-! ### Bytes -/

/-- The request is for the bytes of the blocks: it begins at the first of them, has
their length and no more pages than it needs. -/
structure Exact (dev : LPNInfo) (ns : Namespace) (slba nlblk : Nat) (req : Request) : Prop where
  start : ∃ slpn, req.range.slpn = ns.info.range.slpn + slpn ∧
    slpn * dev.logicalPageSize + req.offset = slba * ns.info.lbaSize
  length : req.length = nlblk * ns.info.lbaSize
  offset_lt : req.offset < dev.logicalPageSize
  least : IsLeast {n | req.offset + req.length ≤ n * dev.logicalPageSize} req.range.nlp

/-- The first page, the bytes and the sum that is rounded up are numbers of 64 bits. -/
structure Fits (dev : LPNInfo) (ns : Namespace) (slba nlblk : Nat) : Prop where
  first : ns.info.range.slpn + slba * ns.info.lbaSize / dev.logicalPageSize < 2 ^ 64
  bytes : nlblk * ns.info.lbaSize < 2 ^ 64
  rounded : ns.info.lbaSize ∣ dev.logicalPageSize →
    nlblk + slba % (dev.logicalPageSize / ns.info.lbaSize) +
      dev.logicalPageSize / ns.info.lbaSize - 1 < 2 ^ 64

theorem isLeast_pages {r : Nat} (hr : 0 < r) (k : Nat) :
    IsLeast {n | k ≤ n * r} ((k + r - 1) / r) := by
  constructor
  · have := Nat.lt_div_mul_add hr (a := k + r - 1)
    show k ≤ (k + r - 1) / r * r
    omega
  · intro n hn
    have hn : k ≤ n * r := hn
    rw [Nat.div_le_iff_le_mul_add_pred hr, Nat.mul_comm]
    omega

theorem convertUnit_slpn_lt : (convertUnit dev ns slba nlblk).range.slpn < 2 ^ 64 := by
  rw [convertUnit]
  dsimp only
  split <;> exact Nat.mod_lt _ (by decide)

theorem convertUnit_length :
    (convertUnit dev ns slba nlblk).length = nlblk * ns.info.lbaSize % 2 ^ 64 := by
  rw [convertUnit]
  dsimp only
  split <;> rfl

/-- A request that is exact begins at a page of 64 bits and has a length of 64 bits. -/
theorem Exact.fits (h : Exact dev ns slba nlblk (convertUnit dev ns slba nlblk)) :
    ns.info.range.slpn + slba * ns.info.lbaSize / dev.logicalPageSize < 2 ^ 64 ∧
      nlblk * ns.info.lbaSize < 2 ^ 64 := by
  obtain ⟨slpn, hslpn, hstart⟩ := h.start
  have hdiv : slba * ns.info.lbaSize / dev.logicalPageSize = slpn := by
    rw [← hstart, Nat.mul_comm, Nat.mul_add_div dev.logicalPageSize_pos,
      Nat.div_eq_of_lt h.offset_lt, Nat.add_zero]
  constructor
  · rw [hdiv, ← hslpn]
    exact convertUnit_slpn_lt
  · rw [← h.length, convertUnit_length]
    exact Nat.mod_lt _ (by decide)

/-- Blocks of whole pages. -/
theorem convertUnit_exact_blocks (hratio : dev.logicalPageSize / ns.info.lbaSize = 0)
    (hdvd : dev.logicalPageSize ∣ ns.info.lbaSize) (h : Fits dev ns slba nlblk) :
    Exact dev ns slba nlblk (convertUnit dev ns slba nlblk) := by
  have hpage := dev.logicalPageSize_pos
  obtain ⟨hfirst, hbytes, -⟩ := h
  rw [convertUnit, if_pos hratio]
  obtain ⟨r, hr⟩ := hdvd
  rw [hr, Nat.mul_left_comm, Nat.mul_div_cancel_left _ hpage] at hfirst
  rw [hr, Nat.mul_left_comm] at hbytes
  have hcount : nlblk * r < 2 ^ 64 := (Nat.le_mul_of_pos_left _ hpage).trans_lt hbytes
  dsimp only
  rw [hr, Nat.mul_div_cancel_left _ hpage, Nat.mul_left_comm, Nat.mod_eq_of_lt hbytes,
    Nat.mod_eq_of_lt hcount, Nat.mod_eq_of_lt (show slba * r < 2 ^ 64 by omega),
    Nat.mod_eq_of_lt (show slba * r + ns.info.range.slpn < 2 ^ 64 by omega)]
  refine ⟨⟨slba * r, Nat.add_comm _ _, ?_⟩, ?_, hpage, ?_, ?_⟩
  · rw [hr, Nat.add_zero, Nat.mul_comm, Nat.mul_left_comm]
  · rw [hr, Nat.mul_left_comm]
  · show 0 + dev.logicalPageSize * (nlblk * r) ≤ nlblk * r * dev.logicalPageSize
    rw [Nat.zero_add, Nat.mul_comm]
  · intro n hn
    have hn : 0 + dev.logicalPageSize * (nlblk * r) ≤ n * dev.logicalPageSize := hn
    rw [Nat.zero_add, Nat.mul_comm n] at hn
    exact Nat.le_of_mul_le_mul_left hn hpage

section Parts

variable {r : Nat} (hr : dev.logicalPageSize = ns.info.lbaSize * r)

include hr

theorem offset_mul_lt (slba : Nat) (hpos : 0 < r) (hlba : 0 < ns.info.lbaSize) :
    slba % r * ns.info.lbaSize < dev.logicalPageSize := by
  rw [hr, Nat.mul_comm]
  exact Nat.mul_lt_mul_of_pos_left (Nat.mod_lt _ hpos) hlba

/-- The bytes of parts of a page, in whole pages. -/
theorem parts_le_iff (hlba : 0 < ns.info.lbaSize) (n : Nat) :
    slba % r * ns.info.lbaSize + nlblk * ns.info.lbaSize ≤ n * dev.logicalPageSize ↔
      nlblk + slba % r ≤ n * r := by
  rw [hr, ← Nat.add_mul, Nat.mul_left_comm, Nat.mul_comm _ ns.info.lbaSize,
    Nat.mul_le_mul_left_iff hlba, Nat.add_comm]

end Parts

/-- Blocks of a part of a page. -/
theorem convertUnit_exact_parts (hlba : 0 < ns.info.lbaSize)
    (hratio : dev.logicalPageSize / ns.info.lbaSize ≠ 0)
    (hdvd : ns.info.lbaSize ∣ dev.logicalPageSize) (h : Fits dev ns slba nlblk) :
    Exact dev ns slba nlblk (convertUnit dev ns slba nlblk) := by
  obtain ⟨hfirst, hbytes, hrounded⟩ := h
  replace hrounded := hrounded hdvd
  have hr : dev.logicalPageSize = ns.info.lbaSize * (dev.logicalPageSize / ns.info.lbaSize) :=
    (Nat.mul_div_cancel' hdvd).symm
  rw [convertUnit, if_neg hratio]
  generalize dev.logicalPageSize / ns.info.lbaSize = r at *
  have hpos : 0 < r := Nat.pos_of_ne_zero hratio
  have hoff := offset_mul_lt hr slba hpos hlba
  have hdiv : slba * ns.info.lbaSize / dev.logicalPageSize = slba / r := by
    rw [hr, Nat.mul_comm, Nat.mul_div_mul_left _ _ hlba]
  rw [hdiv] at hfirst
  dsimp only
  rw [Nat.mod_eq_of_lt hbytes, Nat.mod_eq_of_lt hrounded,
    Nat.mod_eq_of_lt (hoff.trans (dev.logicalPageSize_lt.trans (by decide))),
    Nat.mod_eq_of_lt (show slba / r + ns.info.range.slpn < 2 ^ 64 by omega)]
  refine ⟨⟨slba / r, Nat.add_comm _ _, ?_⟩, rfl, hoff, ?_⟩
  · calc slba / r * dev.logicalPageSize + slba % r * ns.info.lbaSize
      _ = (r * (slba / r) + slba % r) * ns.info.lbaSize := by rw [hr]; ring
      _ = slba * ns.info.lbaSize := by rw [Nat.div_add_mod]
  · have hleast := isLeast_pages hpos (nlblk + slba % r)
    simp only [parts_le_iff hr hlba]
    exact hleast

/-- The sum that is rounded up did not wrap around, or the pages are too few. -/
theorem Exact.rounded (hlba : 0 < ns.info.lbaSize)
    (hdvd : ns.info.lbaSize ∣ dev.logicalPageSize)
    (h : Exact dev ns slba nlblk (convertUnit dev ns slba nlblk)) :
    nlblk + slba % (dev.logicalPageSize / ns.info.lbaSize) +
      dev.logicalPageSize / ns.info.lbaSize - 1 < 2 ^ 64 := by
  have hbytes := h.fits.2
  have hcover : (convertUnit dev ns slba nlblk).offset + (convertUnit dev ns slba nlblk).length ≤
      (convertUnit dev ns slba nlblk).range.nlp * dev.logicalPageSize := h.least.1
  have hr : dev.logicalPageSize = ns.info.lbaSize * (dev.logicalPageSize / ns.info.lbaSize) :=
    (Nat.mul_div_cancel' hdvd).symm
  have hratio : dev.logicalPageSize / ns.info.lbaSize ≠ 0 := by
    rintro hzero
    rw [hzero, Nat.mul_zero] at hr
    exact dev.logicalPageSize_pos.ne' hr
  have hlt : dev.logicalPageSize / ns.info.lbaSize < 2 ^ 32 :=
    (Nat.div_le_self _ _).trans_lt dev.logicalPageSize_lt
  rw [convertUnit, if_neg hratio] at hcover
  generalize dev.logicalPageSize / ns.info.lbaSize = r at *
  have hpos : 0 < r := Nat.pos_of_ne_zero hratio
  have hoff := offset_mul_lt hr slba hpos hlba
  dsimp only at hcover
  rw [Nat.mod_eq_of_lt hbytes,
    Nat.mod_eq_of_lt (hoff.trans (dev.logicalPageSize_lt.trans (by decide))),
    parts_le_iff hr hlba] at hcover
  have hfloor := Nat.div_mul_le_self ((nlblk + slba % r + r - 1) % 2 ^ 64) r
  have hmod : slba % r < r := Nat.mod_lt _ hpos
  omega

/-- The request is for exactly the bytes of the blocks as long as no number of the
conversion leaves 64 bits. -/
theorem convertUnit_exact_iff (dev : LPNInfo) (ns : Namespace) (slba nlblk : Nat)
    (hlba : 0 < ns.info.lbaSize)
    (hdvd : dev.logicalPageSize ∣ ns.info.lbaSize ∨ ns.info.lbaSize ∣ dev.logicalPageSize) :
    Exact dev ns slba nlblk (convertUnit dev ns slba nlblk) ↔ Fits dev ns slba nlblk := by
  constructor
  · intro h
    exact ⟨h.fits.1, h.fits.2, fun hdvd => h.rounded hlba hdvd⟩
  · intro h
    by_cases hratio : dev.logicalPageSize / ns.info.lbaSize = 0
    · refine convertUnit_exact_blocks hratio ?_ h
      rcases hdvd with hdvd | hdvd
      · exact hdvd
      · -- a block that divides a page is no longer than one
        have hle := Nat.le_of_dvd dev.logicalPageSize_pos hdvd
        exact absurd hratio (Nat.div_pos hle hlba).ne'
    · refine convertUnit_exact_parts hlba hratio ?_ h
      rcases hdvd with hdvd | hdvd
      · have hle := Nat.le_of_dvd hlba hdvd
        have heq : dev.logicalPageSize = ns.info.lbaSize := by
          refine le_antisymm hle (not_lt.mp fun hlt => hratio ?_)
          exact Nat.div_eq_of_lt hlt
        rw [heq]
      · exact hdvd

/-- Six blocks of 512 bytes from the fourth one of a page on. -/
theorem convertUnit_exact_iff_unaligned : ∃ ns ∈ Subsystem.wholeDevice.lNamespaces,
    (Exact Subsystem.smallDevice ns 3 6 (convertUnit Subsystem.smallDevice ns 3 6) ↔
      Fits Subsystem.smallDevice ns 3 6) :=
  ⟨_, List.mem_singleton_self _,
    convertUnit_exact_iff Subsystem.smallDevice _ 3 6 (by decide) (.inr (by decide))⟩

/-- A device of 4096 pages of 2048 bytes. -/
def fineDevice : LPNInfo := ⟨4096, 2048, by decide, Nat.two_pow_pos 11, by decide⟩

/-- Blocks of two pages: the number of the first page of block `2 ^ 63` wraps around to
the begin of the namespace. -/
theorem not_exact_wrapped : ∃ s, Subsystem.run fineDevice 1 4096 [] = .ok s ∧
    ∃ ns ∈ s.lNamespaces, ns.info.lbaSize = 4096 ∧
      ¬ Exact fineDevice ns (2 ^ 63) 1 (convertUnit fineDevice ns (2 ^ 63) 1) := by
  have hrun : ∃ s, Subsystem.run fineDevice 1 4096 [] = .ok s ∧ ∃ ns ∈ s.lNamespaces,
      ns.info.lbaSize = 4096 ∧
        ¬ ns.info.range.slpn + 2 ^ 63 * ns.info.lbaSize / fineDevice.logicalPageSize < 2 ^ 64 :=
    Except.exists_of_map (by decide +kernel)
  obtain ⟨s, hs, ns, hns, hlba, hfirst⟩ := hrun
  exact ⟨s, hs, ns, hns, hlba, fun h => hfirst h.fits.1⟩

/-! ### Deallocation -/

/-- The blocks that the pages of a namespace hold. -/
def Namespace.blocks (dev : LPNInfo) (ns : Namespace) : Nat :=
  let lbaratio := dev.logicalPageSize / ns.info.lbaSize
  if lbaratio = 0 then ns.info.range.nlp / (ns.info.lbaSize / dev.logicalPageSize)
  else ns.info.range.nlp * lbaratio

/-- A part of the block lies on the page. -/
def OnPage (dev : LPNInfo) (ns : Namespace) (b p : Nat) : Prop :=
  p ∈ (convertUnit dev ns b 1).range.pages

section Inside

variable (hns : ns.info.range.slpn + ns.info.range.nlp < 2 ^ 64)
  (hinside : slba + nlblk ≤ ns.blocks dev)

include hns hinside

theorem convertUnit_range_blocks (hratio : dev.logicalPageSize / ns.info.lbaSize = 0) :
    (convertUnit dev ns slba nlblk).range =
      ⟨ns.info.range.slpn + slba * (ns.info.lbaSize / dev.logicalPageSize),
        nlblk * (ns.info.lbaSize / dev.logicalPageSize)⟩ := by
  rw [Namespace.blocks, if_pos hratio] at hinside
  rw [convertUnit, if_pos hratio]
  generalize ns.info.lbaSize / dev.logicalPageSize = r at *
  have hle : (slba + nlblk) * r ≤ ns.info.range.nlp :=
    (Nat.mul_le_mul_right r hinside).trans (Nat.div_mul_le_self _ _)
  rw [Nat.add_mul] at hle
  dsimp only
  rw [Nat.mod_eq_of_lt (show slba * r < 2 ^ 64 by omega),
    Nat.mod_eq_of_lt (show nlblk * r < 2 ^ 64 by omega),
    Nat.mod_eq_of_lt (show slba * r + ns.info.range.slpn < 2 ^ 64 by omega), Nat.add_comm]

theorem convertUnit_range_parts (hnlblk : nlblk < 2 ^ 32)
    (hratio : dev.logicalPageSize / ns.info.lbaSize ≠ 0) :
    (convertUnit dev ns slba nlblk).range =
      ⟨ns.info.range.slpn + slba / (dev.logicalPageSize / ns.info.lbaSize),
        (nlblk + slba % (dev.logicalPageSize / ns.info.lbaSize) +
          dev.logicalPageSize / ns.info.lbaSize - 1) /
        (dev.logicalPageSize / ns.info.lbaSize)⟩ := by
  have hlt : dev.logicalPageSize / ns.info.lbaSize < 2 ^ 32 :=
    (Nat.div_le_self _ _).trans_lt dev.logicalPageSize_lt
  rw [Namespace.blocks, if_neg hratio] at hinside
  rw [convertUnit, if_neg hratio]
  generalize dev.logicalPageSize / ns.info.lbaSize = r at *
  have hpos : 0 < r := Nat.pos_of_ne_zero hratio
  have hmod : slba % r < r := Nat.mod_lt _ hpos
  have hfirst : slba / r ≤ ns.info.range.nlp :=
    Nat.div_le_of_le_mul (by rw [Nat.mul_comm]; omega)
  dsimp only
  rw [Nat.mod_eq_of_lt (show nlblk + slba % r + r - 1 < 2 ^ 64 by omega),
    Nat.mod_eq_of_lt (show slba / r + ns.info.range.slpn < 2 ^ 64 by omega), Nat.add_comm]

end Inside

/-- The pages from the one where `slba` lies up to the end of the last block. -/
theorem mem_parts_iff {r : Nat} (hr : 0 < r) (first q : Nat) :
    first + q ∈ (LPNRange.mk (first + slba / r) ((nlblk + slba % r + r - 1) / r)).pages ↔
      slba / r ≤ q ∧ q * r < slba + nlblk := by
  have hsum : slba / r + (nlblk + slba % r + r - 1) / r = (slba + nlblk + r - 1) / r := by
    have hsplit := Nat.div_add_mod slba r
    have hnum : slba + nlblk + r - 1 = nlblk + slba % r + r - 1 + r * (slba / r) := by omega
    rw [hnum, Nat.add_mul_div_left _ _ hr, Nat.add_comm]
  have hstop : q < (slba + nlblk + r - 1) / r ↔ q * r < slba + nlblk := by
    rw [← Nat.succ_le_iff, Nat.le_div_iff_mul_le hr, Nat.succ_mul]
    omega
  rw [LPNRange.pages, Finset.mem_Ico, ← hstop]
  dsimp only
  omega

/-- The blocks on those pages: the range, widened to whole pages. -/
theorem on_parts_iff {r : Nat} (hr : 0 < r) (b : Nat) :
    slba / r ≤ b / r ∧ b / r * r < slba + nlblk ↔
      slba / r * r ≤ b ∧ b < (slba + nlblk + r - 1) / r * r := by
  have hstop : b / r * r < slba + nlblk ↔ b / r < (slba + nlblk + r - 1) / r := by
    rw [← Nat.succ_le_iff (m := b / r), Nat.le_div_iff_mul_le hr, Nat.succ_mul]
    omega
  rw [Nat.le_div_iff_mul_le hr, hstop, Nat.div_lt_iff_lt_mul hr]

/-- A block of a part of a page lies on one page. -/
theorem onPage_parts_iff {b p : Nat} (hns : ns.info.range.slpn + ns.info.range.nlp < 2 ^ 64)
    (hb : b < ns.blocks dev) (hratio : dev.logicalPageSize / ns.info.lbaSize ≠ 0) :
    OnPage dev ns b p ↔
      p = ns.info.range.slpn + b / (dev.logicalPageSize / ns.info.lbaSize) := by
  rw [OnPage, convertUnit_range_parts hns hb (by decide) hratio, LPNRange.pages, Finset.mem_Ico]
  generalize dev.logicalPageSize / ns.info.lbaSize = r at *
  have hpos : 0 < r := Nat.pos_of_ne_zero hratio
  have hone : (1 + b % r + r - 1) / r = 1 := by
    have hmod : b % r < r := Nat.mod_lt _ hpos
    rw [Nat.div_eq_iff hpos]
    omega
  dsimp only
  rw [hone]
  omega

/-- A block lies on the pages that its bytes touch. -/
theorem onPage_iff_bytes {b q : Nat} (hlba : 0 < ns.info.lbaSize)
    (hdvd : dev.logicalPageSize ∣ ns.info.lbaSize ∨ ns.info.lbaSize ∣ dev.logicalPageSize)
    (hns : ns.info.range.slpn + ns.info.range.nlp < 2 ^ 64) (hb : b < ns.blocks dev) :
    OnPage dev ns b (ns.info.range.slpn + q) ↔
      q * dev.logicalPageSize < (b + 1) * ns.info.lbaSize ∧
        b * ns.info.lbaSize < (q + 1) * dev.logicalPageSize := by
  have hpage := dev.logicalPageSize_pos
  by_cases hratio : dev.logicalPageSize / ns.info.lbaSize = 0
  · have hr : ns.info.lbaSize = ns.info.lbaSize / dev.logicalPageSize * dev.logicalPageSize := by
      rcases hdvd with hdvd | hdvd
      · exact (Nat.div_mul_cancel hdvd).symm
      · exact absurd hratio (Nat.div_pos (Nat.le_of_dvd hpage hdvd) hlba).ne'
    rw [OnPage, convertUnit_range_blocks hns hb hratio, LPNRange.pages, Finset.mem_Ico]
    generalize ns.info.lbaSize / dev.logicalPageSize = r at *
    rw [hr, ← Nat.mul_assoc, ← Nat.mul_assoc, Nat.mul_lt_mul_right hpage,
      Nat.mul_lt_mul_right hpage, Nat.add_mul]
    dsimp only
    omega
  · have hr : dev.logicalPageSize =
        dev.logicalPageSize / ns.info.lbaSize * ns.info.lbaSize := by
      rcases hdvd with hdvd | hdvd
      · have heq : dev.logicalPageSize = ns.info.lbaSize := by
          refine le_antisymm (Nat.le_of_dvd hlba hdvd) (not_lt.mp fun hlt => hratio ?_)
          exact Nat.div_eq_of_lt hlt
        rw [heq, Nat.div_self hlba, Nat.one_mul]
      · exact (Nat.div_mul_cancel hdvd).symm
    have hpos : 0 < dev.logicalPageSize / ns.info.lbaSize := Nat.pos_of_ne_zero hratio
    rw [OnPage, convertUnit_range_parts hns hb (by decide) hratio, mem_parts_iff hpos]
    generalize dev.logicalPageSize / ns.info.lbaSize = r at *
    rw [hr, ← Nat.mul_assoc, ← Nat.mul_assoc, Nat.mul_lt_mul_right hlba,
      Nat.mul_lt_mul_right hlba, ← Nat.lt_succ_iff, Nat.div_lt_iff_lt_mul hpos, and_comm]

/-- The pages of a block are pages of its namespace. -/
theorem onPage_inside {b p : Nat} (hns : ns.info.range.slpn + ns.info.range.nlp < 2 ^ 64)
    (hb : b < ns.blocks dev) (h : OnPage dev ns b p) : p ∈ ns.info.range.pages := by
  by_cases hratio : dev.logicalPageSize / ns.info.lbaSize = 0
  · rw [OnPage, convertUnit_range_blocks hns hb hratio] at h
    rw [Namespace.blocks, if_pos hratio] at hb
    simp only [LPNRange.pages, Finset.mem_Ico] at h ⊢
    generalize ns.info.lbaSize / dev.logicalPageSize = r at *
    have hle : (b + 1) * r ≤ ns.info.range.nlp :=
      (Nat.mul_le_mul_right r hb).trans (Nat.div_mul_le_self _ _)
    rw [Nat.add_mul] at hle
    omega
  · obtain rfl := (onPage_parts_iff hns hb hratio).mp h
    rw [Namespace.blocks, if_neg hratio, Nat.mul_comm] at hb
    have hq := Nat.div_lt_of_lt_mul hb
    rw [LPNRange.pages, Finset.mem_Ico]
    exact ⟨Nat.le_add_right _ _, Nat.add_lt_add_left hq _⟩

/-- One of the ranges of the command names the block. -/
def Listed (req : SQEntryWrapper) (buffer : Nat → DatasetManagementRange) (b : Nat) : Prop :=
  ∃ i < (req.dword10 &&& 0xFF).toNat + 1,
    (buffer i).slba.toNat ≤ b ∧ b < (buffer i).slba.toNat + (buffer i).nlb.toNat

/-- The blocks in front of a range, on the page where it begins, are listed as well,
and so are the blocks behind it on the page where it ends. -/
def EdgesListed (dev : LPNInfo) (ns : Namespace) (listed : Nat → Prop) (slba nlblk : Nat) : Prop :=
  let lbaratio := dev.logicalPageSize / ns.info.lbaSize
  lbaratio ≠ 0 →
    (∀ b, slba / lbaratio * lbaratio ≤ b → b < slba → listed b) ∧
      ∀ b, slba + nlblk ≤ b → b < (slba + nlblk + lbaratio - 1) / lbaratio * lbaratio → listed b

/-- A range of whole pages has no edges. -/
theorem EdgesListed.of_dvd {listed : Nat → Prop}
    (hslba : dev.logicalPageSize / ns.info.lbaSize ∣ slba)
    (hnlblk : dev.logicalPageSize / ns.info.lbaSize ∣ nlblk) :
    EdgesListed dev ns listed slba nlblk := by
  rw [EdgesListed]
  generalize dev.logicalPageSize / ns.info.lbaSize = r at *
  intro hr
  obtain ⟨m, hm⟩ := Nat.dvd_add hslba hnlblk
  have hstop : (slba + nlblk + r - 1) / r * r = slba + nlblk := by
    have hlast : (r - 1) / r = 0 := Nat.div_eq_of_lt (by omega)
    rw [hm, Nat.add_sub_assoc (by omega), Nat.mul_add_div (by omega), hlast, Nat.add_zero,
      Nat.mul_comm]
  rw [Nat.div_mul_cancel hslba, hstop]
  constructor
  · intro b hle hlt
    omega
  · intro b hle hlt
    omega

section Range

variable {listed : Nat → Prop} (hns : ns.info.range.slpn + ns.info.range.nlp < 2 ^ 64)
  (hinside : slba + nlblk ≤ ns.blocks dev)
  (hlisted : ∀ b, slba ≤ b → b < slba + nlblk → listed b)

include hns hinside hlisted

/-- Blocks of whole pages have their pages for themselves. -/
theorem range_spares_blocks (hratio : dev.logicalPageSize / ns.info.lbaSize = 0) :
    ∀ b < ns.blocks dev,
      (∃ p ∈ (convertUnit dev ns slba nlblk).range.pages, OnPage dev ns b p) → listed b := by
  rintro b hb ⟨p, hp, hon⟩
  rw [convertUnit_range_blocks hns hinside hratio] at hp
  rw [OnPage, convertUnit_range_blocks hns hb hratio] at hon
  simp only [LPNRange.pages, Finset.mem_Ico] at hp hon
  generalize ns.info.lbaSize / dev.logicalPageSize = r at *
  have hfirst : slba * r < (b + 1) * r := by
    rw [Nat.add_mul]
    omega
  have hlast : b * r < (slba + nlblk) * r := by
    rw [Nat.add_mul]
    omega
  exact hlisted b (Nat.lt_succ_iff.mp (Nat.lt_of_mul_lt_mul_right hfirst))
    (Nat.lt_of_mul_lt_mul_right hlast)

omit hlisted in
/-- The blocks on the pages that a range trims: the range, widened to whole pages. -/
theorem trimmed_parts_iff (hnlblk : nlblk < 2 ^ 32)
    (hratio : dev.logicalPageSize / ns.info.lbaSize ≠ 0) {b : Nat} (hb : b < ns.blocks dev) :
    (∃ p ∈ (convertUnit dev ns slba nlblk).range.pages, OnPage dev ns b p) ↔
      slba / (dev.logicalPageSize / ns.info.lbaSize) * (dev.logicalPageSize / ns.info.lbaSize) ≤ b ∧
        b < (slba + nlblk + dev.logicalPageSize / ns.info.lbaSize - 1) /
          (dev.logicalPageSize / ns.info.lbaSize) * (dev.logicalPageSize / ns.info.lbaSize) := by
  have hpos : 0 < dev.logicalPageSize / ns.info.lbaSize := Nat.pos_of_ne_zero hratio
  rw [← on_parts_iff hpos, ← mem_parts_iff hpos ns.info.range.slpn,
    convertUnit_range_parts hns hinside hnlblk hratio]
  constructor
  · rintro ⟨p, hp, hon⟩
    rwa [(onPage_parts_iff hns hb hratio).mp hon] at hp
  · intro hp
    exact ⟨_, hp, (onPage_parts_iff hns hb hratio).mpr rfl⟩

/-- Blocks of a part of a page share the first page and the last one. -/
theorem range_spares_parts (hnlblk : nlblk < 2 ^ 32)
    (hratio : dev.logicalPageSize / ns.info.lbaSize ≠ 0) :
    (∀ b < ns.blocks dev,
      (∃ p ∈ (convertUnit dev ns slba nlblk).range.pages, OnPage dev ns b p) → listed b) ↔
        EdgesListed dev ns listed slba nlblk := by
  have htrimmed : ∀ b < ns.blocks dev, _ := fun b hb =>
    trimmed_parts_iff hns hinside hnlblk hratio hb
  have hblocks : ns.blocks dev = ns.info.range.nlp * (dev.logicalPageSize / ns.info.lbaSize) :=
    if_neg hratio
  rw [EdgesListed]
  generalize dev.logicalPageSize / ns.info.lbaSize = r at *
  have hpos : 0 < r := Nat.pos_of_ne_zero hratio
  -- the page where the range ends is a page of the namespace
  have hend : (slba + nlblk + r - 1) / r * r ≤ ns.blocks dev := by
    rw [hblocks] at hinside ⊢
    refine Nat.mul_le_mul_right r ?_
    rw [Nat.div_le_iff_le_mul_add_pred hpos, Nat.mul_comm]
    omega
  have hround : slba + nlblk ≤ (slba + nlblk + r - 1) / r * r := (isLeast_pages hpos _).1
  constructor
  · intro h _
    constructor
    · intro b hle hlt
      exact h b (by omega) ((htrimmed b (by omega)).mpr ⟨hle, by omega⟩)
    · intro b hle hlt
      have hfloor := Nat.div_mul_le_self slba r
      exact h b (by omega) ((htrimmed b (by omega)).mpr ⟨by omega, hlt⟩)
  · intro h b hb hp
    obtain ⟨hfront, hback⟩ := h hratio
    obtain ⟨hle, hlt⟩ := (htrimmed b hb).mp hp
    rcases Nat.lt_or_ge b slba with hbefore | hbegin
    · exact hfront b hle hbefore
    · rcases Nat.lt_or_ge b (slba + nlblk) with hmid | hbehind
      · exact hlisted b hbegin hmid
      · exact hback b hbehind hlt

/-- What one range trims is listed exactly when its edges are. -/
theorem range_spares_iff (hnlblk : nlblk < 2 ^ 32) :
    (∀ b < ns.blocks dev,
      (∃ p ∈ (convertUnit dev ns slba nlblk).range.pages, OnPage dev ns b p) → listed b) ↔
        EdgesListed dev ns listed slba nlblk := by
  by_cases hratio : dev.logicalPageSize / ns.info.lbaSize = 0
  · refine iff_of_true (range_spares_blocks hns hinside hlisted hratio) ?_
    rw [EdgesListed]
    intro hne
    exact absurd hratio hne
  · exact range_spares_parts hns hinside hlisted hnlblk hratio

end Range

/-- A range of blocks of the namespace ends inside its pages. -/
theorem blocksInside_of_le (h : slba + nlblk ≤ ns.blocks dev)
    (hns : ns.info.range.slpn + ns.info.range.nlp < 2 ^ 64) : BlocksInside dev ns slba nlblk := by
  rw [Namespace.blocks] at h
  rw [BlocksInside]
  split
  · next hratio =>
    rw [if_pos hratio] at h
    generalize ns.info.lbaSize / dev.logicalPageSize = r at *
    have hle : (slba + nlblk) * r ≤ ns.info.range.nlp :=
      (Nat.mul_le_mul_right r h).trans (Nat.div_mul_le_self _ _)
    rw [Nat.add_mul] at hle
    rw [Nat.mod_eq_of_lt (by omega)]
    exact .inr hle
  · next hratio =>
    rw [if_neg hratio] at h
    exact .inr h

namespace Subsystem

/-- The pages that the command trims hold no block, of any namespace, but those that
it lists. -/
def Spares (dev : LPNInfo) (s : Subsystem) (ns : Namespace) (req : SQEntryWrapper)
    (buffer : Nat → DatasetManagementRange) : Prop :=
  ∀ r ∈ (ns.datasetManagement dev req buffer).requests, ∀ p ∈ r.range.pages,
    ∀ ns' ∈ s.lNamespaces, ∀ b < ns'.blocks dev, OnPage dev ns' b p →
      ns' = ns ∧ Listed req buffer b

/-- The ranges of the command lie in the namespace. -/
def RangesInside (dev : LPNInfo) (ns : Namespace) (req : SQEntryWrapper)
    (buffer : Nat → DatasetManagementRange) : Prop :=
  ∀ i < (req.dword10 &&& 0xFF).toNat + 1,
    (buffer i).slba.toNat + (buffer i).nlb.toNat ≤ ns.blocks dev

/-- A command that trims anything spares the neighbours of its ranges exactly when each
range has its first and its last page for itself, or shares them with other ranges of
the command. -/
theorem deallocation_spares_iff (dev : LPNInfo) (nNamespaces lba : Nat) (commands : List Command)
    (s : Subsystem) (hrun : run dev nNamespaces lba commands = .ok s) (ns : Namespace)
    (hmem : ns ∈ s.lNamespaces) (req : SQEntryWrapper) (buffer : Nat → DatasetManagementRange)
    (hinside : RangesInside dev ns req buffer) :
    Spares dev s ns req buffer ↔ (ns.attached → req.dword11 &&& 0x04 ≠ 0 →
      ∀ i < (req.dword10 &&& 0xFF).toNat + 1, EdgesListed dev ns (Listed req buffer)
        (buffer i).slba.toNat (buffer i).nlb.toNat) := by
  have hns : ns.info.range.slpn + ns.info.range.nlp < 2 ^ 64 :=
    (run_placed hrun).lt (List.mem_map_of_mem hmem)
  have hin : BlockCommand.Inside dev ns (.datasetManagement req buffer) :=
    fun _ _ i hi => blocksInside_of_le (hinside i hi) hns
  have hrange : ∀ i < (req.dword10 &&& 0xFF).toNat + 1,
      (∀ b < ns.blocks dev, (∃ p ∈ (convertUnit dev ns (buffer i).slba.toNat
        (buffer i).nlb.toNat).range.pages, OnPage dev ns b p) → Listed req buffer b) ↔
        EdgesListed dev ns (Listed req buffer) (buffer i).slba.toNat (buffer i).nlb.toNat :=
    fun i hi => range_spares_iff hns (hinside i hi) (fun b hle hlt => ⟨i, hi, hle, hlt⟩)
      (buffer i).nlb.isLt
  constructor
  · intro h hattached had i hi
    rw [← hrange i hi]
    rintro b hb ⟨p, hp, hon⟩
    refine (h _ ?_ p hp ns hmem b hb hon).2
    rw [Namespace.datasetManagement, hattached, if_neg (by decide), if_neg had]
    exact List.mem_map_of_mem (List.mem_range.mpr hi)
  · intro h r hr p hp ns' hns' b hb hon
    have heq : ns' = ns := by
      by_contra hne
      have hdisjoint := isolated_disjoint hrun hmem hns' (Ne.symm hne) hin r hr
      have hns'lt : ns'.info.range.slpn + ns'.info.range.nlp < 2 ^ 64 :=
        (run_placed hrun).lt (List.mem_map_of_mem hns')
      exact Finset.disjoint_left.mp hdisjoint hp (onPage_inside hns'lt hb hon)
    subst heq
    refine ⟨rfl, ?_⟩
    rw [Namespace.datasetManagement] at hr
    split at hr
    · cases hr
    · next hattached =>
      split at hr
      · cases hr
      · next had =>
        obtain ⟨i, hi, rfl⟩ := List.mem_map.mp hr
        rw [List.mem_range] at hi
        exact (hrange i hi).mpr (h (by simpa using hattached) had i hi) b hb ⟨p, hp, hon⟩

/-- A deallocation of one range. -/
def deallocateOne : SQEntryWrapper := ⟨0x09, 0, 1, 0, 0, 0, 0x04, 0, 0, 1, 1, 0, 0, false⟩

/-- Sixteen blocks of 512 bytes on two pages of their own. -/
theorem deallocation_spares_aligned : ∃ ns ∈ wholeDevice.lNamespaces,
    Spares smallDevice wholeDevice ns deallocateOne fun _ => ⟨16, 8⟩ := by
  have hrun : run smallDevice 1 512 [] = .ok wholeDevice := by decide +kernel
  refine ⟨_, List.mem_singleton_self _, ?_⟩
  refine (deallocation_spares_iff smallDevice 1 512 [] wholeDevice hrun _
    (List.mem_singleton_self _) deallocateOne (fun _ => ⟨16, 8⟩) ?_).mpr ?_
  · intro i _
    dsimp only
    decide
  · intro _ _ i _
    exact EdgesListed.of_dvd (by decide) (by decide)

/-- The second block of a page is trimmed, and the first one with it. -/
theorem not_spares_neighbour : ∃ s, run smallDevice 1 512 [] = .ok s ∧ ∃ ns ∈ s.lNamespaces,
    RangesInside smallDevice ns deallocateOne (fun _ => ⟨1, 1⟩) ∧
      ¬ Spares smallDevice s ns deallocateOne fun _ => ⟨1, 1⟩ := by
  have hrun : run smallDevice 1 512 [] = .ok wholeDevice := by decide +kernel
  refine ⟨wholeDevice, hrun, _, List.mem_singleton_self _, fun i _ => ?_, fun h => ?_⟩
  · dsimp only
    decide
  have hmem := List.mem_singleton_self (a := wholeDevice.lNamespaces.head (by decide))
  obtain ⟨-, i, -, hle, -⟩ := h _ (List.mem_singleton_self _) 0 (by decide) _ hmem 0 (by decide)
    (show 0 ∈ (convertUnit smallDevice _ 0 1).range.pages by decide)
  exact absurd (show 1 ≤ 0 from hle) (by decide)

end Subsystem

end SimpleSSD.HIL.NVMe
