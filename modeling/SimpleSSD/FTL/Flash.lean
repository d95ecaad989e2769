import SimpleSSD.FTL.Flags
import SimpleSSD.PAL.AddressMapping

/-!
# The FTL over the flash layer (ftl.cc:30–52)

The FTL takes its geometry from the PAL: super blocks are its blocks, and the pages
of a super page are its I/O units. A flash request of the FTL then has a flag of the
size that `convertCPDPBP` checks for, and the addresses of the super blocks are
those of the flash, each once.
-/

namespace SimpleSSD

namespace FTL

/-- The FTL is constructed over this PAL. -/
structure Config.Over (cfg : Config) (pal : PAL.PALOLD) : Prop where
  totalPhysicalBlocks : cfg.totalPhysicalBlocks = pal.param.superBlock
  pagesInBlock : cfg.pagesInBlock = pal.param.page
  ioUnitInPage : cfg.ioUnitInPage = pal.param.pageInSuperPage
  pageCountToMaxPerf : cfg.pageCountToMaxPerf = pal.param.superBlock / pal.param.block
  randomIOTweak : cfg.randomIOTweak = pal.bRandomTweak

end FTL

namespace PAL.PALOLD

/-- The pages of a super block are the addresses of the flash within the configured
numbers, each once, where multi-plane operation leaves plane 0 only; and the FTL
never asks for a flag of another size when the tweak is on. Without it a flag of any
size passes. -/
theorem convertCPDPBP_bijection {cfg : Config} {bRandomTweak : Bool} {pal : PALOLD}
    (hnew : new cfg bRandomTweak = .ok pal) (hfits : pal.Fits) :
    (∀ page, Set.BijOn (fun p : Nat × Nat => pal.slot p.1 p.2 page)
      {p | p.1 < pal.param.superBlock ∧ p.2 < pal.param.pageInSuperPage}
      {addr | pal.InBounds addr ∧ addr.page = page}) ∧
    (∀ req : Request, req.blockIndex < pal.param.superBlock →
      req.ioFlag.dataSize = pal.param.pageInSuperPage →
      pal.convertCPDPBP req = .ok (req,
        (selected req.ioFlag 0 pal.param.pageInSuperPage).map fun i =>
          pal.slot req.blockIndex i req.pageIndex)) ∧
    ∀ (ftl : FTL.Config) (env : FTL.Env) (warmUp : Option FTL.World) (s₀ s : FTL.PageMapping)
      (calls : List (FTL.World × FTL.Op)), ftl.Over pal →
      FTL.PageMapping.start ftl env warmUp = .ok s₀ →
      (ftl.randomIOTweak = true → ∀ call ∈ calls, call.2.Flagged ftl.ioUnitInPage) →
      FTL.run ftl env s₀ calls = .ok s →
      ∀ e ∈ s.trace, ∀ r ∈ e.palRequest, ∀ m,
        pal.convertCPDPBP r ≠ .error (.panic "PALOLD::convertCPDPBP" m) := by
  have hs : pal.Sized := new_sized hnew hfits
  refine ⟨hs.bijOn_slot, fun req hb hflag => hs.convertCPDPBP_eq hb hflag, ?_⟩
  intro ftl env warmUp s₀ s calls hover hstart hcalls hrun e he r hr m
  refine convertCPDPBP_checked hs.nodup hs.pageInSuperPage.symm (fun htweak => ?_) m
  rw [← hover.randomIOTweak] at htweak
  have hflagged := FTL.run_flagged (FTL.start_flagged hstart) (hcalls htweak) hrun
  rw [← hover.ioUnitInPage]
  exact hflagged e he r hr

/-- Flash of two channels in a super block, with `n` planes a die. -/
def planes (n : Nat) (useMultiPlaneOperation : Bool) : Config where
  channel := 2
  package := 1
  die := 1
  plane := n
  block := 3
  page := 4
  pageSize := 4096
  useMultiPlaneOperation := useMultiPlaneOperation
  dmaWidth := 8
  superblockString := ['C']
  pageAllocationString := ['C', 'W', 'D', 'P']

/-- Flash of `2 ^ 16` blocks on each of `2 ^ 16` dies. -/
def manyDies : Config := { planes 1 false with die := 2 ^ 16, block := 2 ^ 16 }

/-- The FTL over this flash without multi-plane operation. -/
def overPlanes : FTL.Config :=
  { FTL.Config.small 6 with pagesInBlock := 4, ioUnitInPage := 2, pageCountToMaxPerf := 2 }

/-- A request for the second page of super block 1. -/
def secondPage : Request := ⟨1, 0, Bitset.single 2 1⟩

/-- Two planes and no multi-plane operation: six super blocks of two pages. A write with
a flag of one bit passes, since the tweak is off. -/
theorem convertCPDPBP_bijection_planes : ∃ pal, new (planes 2 false) false = .ok pal ∧
    Set.BijOn (fun p : Nat × Nat => pal.slot p.1 p.2 0)
      {p | p.1 < pal.param.superBlock ∧ p.2 < pal.param.pageInSuperPage}
      {addr | pal.InBounds addr ∧ addr.page = 0} ∧
    pal.convertCPDPBP secondPage = .ok (secondPage,
      (selected secondPage.ioFlag 0 pal.param.pageInSuperPage).map fun i => pal.slot 1 i 0) ∧
    ∃ s₀ s, FTL.PageMapping.start overPlanes .zero none = .ok s₀ ∧
      FTL.run overPlanes .zero s₀ (FTL.calls [.write (.page 0)]) = .ok s ∧
      ∀ e ∈ s.trace, ∀ r ∈ e.palRequest, ∀ m,
        pal.convertCPDPBP r ≠ .error (.panic "PALOLD::convertCPDPBP" m) := by
  obtain ⟨pal, hnew, hfits, hblocks, hpages, hpage, hblock, htweak⟩ := Except.exists_of_map
    (x := new (planes 2 false) false) (p := fun pal => pal.Fits ∧ pal.param.superBlock = 6 ∧
      pal.param.pageInSuperPage = 2 ∧ pal.param.page = 4 ∧ pal.param.block = 3 ∧
      pal.bRandomTweak = false) (by decide +kernel)
  obtain ⟨s₀, hstart, hrun⟩ := Except.exists_of_map
    (x := FTL.PageMapping.start overPlanes .zero none) (p := fun s₀ =>
      (FTL.run overPlanes .zero s₀ (FTL.calls [.write (.page 0)])).map (fun _ => decide True) =
        .ok true) (by decide +kernel)
  obtain ⟨s, hs, -⟩ := Except.exists_of_map hrun
  have hover : overPlanes.Over pal :=
    ⟨hblocks.symm, hpage.symm, hpages.symm, by rw [hblocks, hblock]; rfl, htweak.symm⟩
  obtain ⟨hbij, hconvert, hflags⟩ := convertCPDPBP_bijection hnew hfits
  refine ⟨pal, hnew, hbij 0, hconvert secondPage ?_ ?_, s₀, s, hstart, hs, ?_⟩
  · rw [hblocks]
    decide
  · rw [hpages]
    rfl
  · exact hflags overPlanes .zero none s₀ s _ hover hstart
      (fun h => absurd h Bool.false_ne_true) hs

/-- An address within the configured numbers that no request reaches. -/
def LeavesOut (cfg : Config) : Prop := ∃ pal, ∃ addr : CPDPBP,
  new cfg false = .ok pal ∧ addr.channel < cfg.channel ∧ addr.package < cfg.package ∧
    addr.die < cfg.die ∧ addr.plane < cfg.plane ∧ addr.block < cfg.block ∧
    ∀ req r, req.blockIndex < pal.param.superBlock →
      req.ioFlag.dataSize = pal.param.pageInSuperPage → pal.convertCPDPBP req = .ok r → addr ∉ r.2

/-- Two accepted configurations leave addresses out: those on the second plane under
multi-plane operation, and all of them when the number of super blocks wraps to zero. -/
theorem not_onto : LeavesOut (planes 2 true) ∧ LeavesOut manyDies := by
  constructor
  · obtain ⟨pal, hnew, hfits, hmulti⟩ := Except.exists_of_map
      (x := new (planes 2 true) false) (p := fun pal => pal.Fits ∧ pal.useMultiplaneOP = true)
      (by decide +kernel)
    refine ⟨pal, ⟨0, 0, 0, 1, 0, 0⟩, hnew, by decide, by decide, by decide, by decide, by decide,
      fun req r hb hflag hr hmem => ?_⟩
    have hs : pal.Sized := new_sized hnew hfits
    rw [hs.convertCPDPBP_eq hb hflag] at hr
    cases hr
    obtain ⟨i, hi, haddr⟩ := List.mem_map.mp hmem
    have hlt : i < pal.param.pageInSuperPage :=
      List.mem_range.mp (List.mem_of_mem_filter hi)
    have hplane :=
      (hs.slot_inBounds hb hlt : pal.InBounds (pal.slot req.blockIndex i req.pageIndex)).2.2.2.1
    rw [haddr, if_pos hmulti] at hplane
    cases hplane
  · obtain ⟨pal, hnew, hzero⟩ := Except.exists_of_map (x := new manyDies false)
      (p := fun pal => pal.param.superBlock = 0) (by decide +kernel)
    refine ⟨pal, ⟨0, 0, 0, 0, 0, 0⟩, hnew, by decide, by decide, by decide, by decide, by decide,
      fun req r hb _ _ _ => ?_⟩
    rw [hzero] at hb
    exact Nat.not_lt_zero _ hb

end PAL.PALOLD

end SimpleSSD
