import Mathlib.Data.Set.Function
import SimpleSSD.PAL.Address

/-!
# The address mapping is a bijection

`Sized` collects what the constructors leave behind when no product of counts
overflows: the super blocks are counted by the outer places and the pages of one by
the inner places. Under multi-plane operation the planes are neither: one command
drives all planes of a die, and every address has plane 0.
-/

namespace SimpleSSD.PAL

namespace PALOLD

/-- Neither product of the constructor overflows 32 bits. -/
def Fits (pal : PALOLD) : Prop :=
  pal.param.block * MixedRadix.size pal.param.count
      (AddrIndex.all.filter fun idx => !pal.superblock idx) < 2 ^ 32 ∧
    pal.param.pageSize * MixedRadix.size pal.param.count
      (AddrIndex.all.filter fun idx => pal.superblock idx) < 2 ^ 32

instance (pal : PALOLD) : Decidable pal.Fits := inferInstanceAs (Decidable (_ ∧ _))

/-- An address within the configured numbers, on the first plane under multi-plane
operation. -/
def InBounds (pal : PALOLD) (addr : CPDPBP) : Prop :=
  addr.channel < pal.param.channel ∧ addr.package < pal.param.package ∧
    addr.die < pal.param.die ∧
    (if pal.useMultiplaneOP then addr.plane = 0 else addr.plane < pal.param.plane) ∧
    addr.block < pal.param.block

instance (pal : PALOLD) (addr : CPDPBP) : Decidable (pal.InBounds addr) :=
  inferInstanceAs (Decidable (_ ∧ _))

theorem inBounds_iff {pal : PALOLD} {addr : CPDPBP} : pal.InBounds addr ↔
    (∀ idx, if pal.skips idx then addr.coord idx = 0 else addr.coord idx < pal.param.count idx) ∧
      addr.block < pal.param.block := by
  constructor
  · rintro ⟨hchannel, hpackage, hdie, hplane, hblock⟩
    refine ⟨fun idx => ?_, hblock⟩
    cases idx with
    | channel => simpa [skips, CPDPBP.coord, Parameter.count] using hchannel
    | package => simpa [skips, CPDPBP.coord, Parameter.count] using hpackage
    | die => simpa [skips, CPDPBP.coord, Parameter.count] using hdie
    | plane => simpa [skips, CPDPBP.coord, Parameter.count] using hplane
  · rintro ⟨h, hblock⟩
    refine ⟨?_, ?_, ?_, ?_, hblock⟩
    · simpa [skips, CPDPBP.coord, Parameter.count] using h .channel
    · simpa [skips, CPDPBP.coord, Parameter.count] using h .package
    · simpa [skips, CPDPBP.coord, Parameter.count] using h .die
    · simpa [skips, CPDPBP.coord, Parameter.count] using h .plane

theorem InBounds.coord_lt {pal : PALOLD} {addr : CPDPBP} (h : pal.InBounds addr) :
    (∀ idx ∈ pal.outer, addr.coord idx < pal.param.count idx) ∧
      ∀ idx ∈ pal.inner, addr.coord idx < pal.param.count idx := by
  have hlt : ∀ idx, pal.skips idx = false → addr.coord idx < pal.param.count idx := by
    intro idx hskip
    simpa [hskip] using (inBounds_iff.mp h).1 idx
  constructor
  · intro idx hidx
    rw [outer, List.mem_filter, Bool.and_eq_true, Bool.not_eq_true'] at hidx
    exact hlt idx hidx.2.1
  · intro idx hidx
    rw [inner, List.mem_filter, Bool.and_eq_true, Bool.not_eq_true'] at hidx
    exact hlt idx hidx.2.1

/-- What the constructors leave behind. -/
structure Sized (pal : PALOLD) : Prop where
  perm : pal.pageAllocation.Perm AddrIndex.all
  superBlock : pal.param.superBlock =
    MixedRadix.size pal.param.count pal.outer * pal.param.block
  pageInSuperPage : pal.param.pageInSuperPage = MixedRadix.size pal.param.count pal.inner

/-! ### The products of the constructor -/

/-- `x` is computed as `e` is, in 32 bits. -/
def Computes (x e : Nat) : Prop := x % 2 ^ 32 = e % 2 ^ 32 ∧ (x = e ∨ x < 2 ^ 32)

theorem Computes.refl (x : Nat) : Computes x x := ⟨rfl, .inl rfl⟩

theorem Computes.mul {x e : Nat} (h : Computes x e) (n : Nat) :
    Computes (x * n % 2 ^ 32) (e * n) := by
  refine ⟨?_, .inr (Nat.mod_lt _ (by decide))⟩
  rw [Nat.mod_mod, Nat.mul_mod, h.1, ← Nat.mul_mod]

theorem Computes.eq {x e : Nat} (h : Computes x e) (he : e < 2 ^ 32) : x = e := by
  obtain ⟨hmod, heq | hlt⟩ := h
  · exact heq
  · rwa [Nat.mod_eq_of_lt hlt, Nat.mod_eq_of_lt he] at hmod

/-- The constructor computes the two products. -/
theorem foldl_includeIndex (cfg : Config) (settings : Settings) (l : List AddrIndex)
    {x y d e : Nat} (hx : Computes x d) (hy : Computes y e) :
    Computes (l.foldl (includeIndex cfg settings) (x, y)).1
        (d * MixedRadix.size cfg.count (l.filter fun idx => !settings.superblock idx)) ∧
      Computes (l.foldl (includeIndex cfg settings) (x, y)).2
        (e * MixedRadix.size cfg.count (l.filter fun idx => settings.superblock idx)) := by
  induction l generalizing x y d e with
  | nil => simpa using ⟨hx, hy⟩
  | cons idx l ih =>
    rw [List.foldl_cons, includeIndex]
    by_cases h : settings.superblock idx
    · have := ih hx (hy.mul (cfg.count idx))
      simpa [h, Nat.mul_assoc] using this
    · have := ih (hx.mul (cfg.count idx)) hy
      simpa [h, Nat.mul_assoc] using this

section New

variable {cfg : Config} {bRandomTweak : Bool} {pal : PALOLD}

/-- The two constructors, taken apart. -/
theorem new_spec (h : new cfg bRandomTweak = .ok pal) :
    pal.pageAllocation.Perm AddrIndex.all ∧
    (pal.useMultiplaneOP = true → pal.superblock .plane = true) ∧
    (pal.useMultiplaneOP = true → 0 < pal.param.plane) ∧
    0 < pal.param.pageSize ∧
    Computes pal.param.superBlock (pal.param.block * MixedRadix.size pal.param.count
      (AddrIndex.all.filter fun idx => !pal.superblock idx)) ∧
    ∃ superPageSize, Computes superPageSize (pal.param.pageSize * MixedRadix.size pal.param.count
        (AddrIndex.all.filter fun idx => pal.superblock idx)) ∧
      pal.param.pageInSuperPage = if pal.useMultiplaneOP
        then superPageSize / pal.param.pageSize / pal.param.plane
        else superPageSize / pal.param.pageSize := by
  rw [new, Except.bind_eq_ok] at h
  obtain ⟨settings, hupdate, h⟩ := h
  rw [Except.bind_eq_ok] at h
  obtain ⟨param, hparam, h⟩ := h
  cases h
  have hperm := Config.update_perm hupdate
  have hplane : cfg.useMultiPlaneOperation = true → settings.superblock .plane = true := by
    intro hmulti
    rw [Config.update] at hupdate
    split at hupdate
    · cases hupdate
    · dsimp only at hupdate
      split at hupdate
      · cases hupdate
      · cases hupdate
        simp [hmulti]
  have hfold := foldl_includeIndex cfg settings AddrIndex.all
    (Computes.refl cfg.block) (Computes.refl cfg.pageSize)
  rw [← Parameter.count_of_new hparam] at hfold
  rw [Parameter.new] at hparam
  dsimp only at hparam
  split at hparam
  · cases hparam
  · next hpageSize =>
    split at hparam
    · cases hparam
    · next hzero =>
      cases hparam
      refine ⟨hperm, hplane, fun hmulti => ?_, Nat.pos_of_ne_zero hpageSize, hfold.1, _, hfold.2,
        rfl⟩
      exact Nat.pos_of_ne_zero fun h0 => hzero ⟨hmulti, h0⟩

/-- Every index of the page allocation is skipped, outer or inner. -/
theorem mem_places (hperm : pal.pageAllocation.Perm AddrIndex.all) (idx : AddrIndex) :
    (pal.skips idx ∧ idx ∉ pal.outer ∧ idx ∉ pal.inner) ∨
    (¬ pal.skips idx ∧ idx ∈ pal.outer ∧ idx ∉ pal.inner) ∨
    (¬ pal.skips idx ∧ idx ∉ pal.outer ∧ idx ∈ pal.inner) := by
  have hmem : idx ∈ pal.pageAllocation := hperm.mem_iff.mpr (AddrIndex.mem_all idx)
  by_cases hskip : pal.skips idx
  · exact .inl (by simp [outer, inner, hskip])
  · by_cases hsuper : pal.superblock idx
    · exact .inr (.inr (by simp [outer, inner, hskip, hsuper, hmem]))
    · exact .inr (.inl (by simp [outer, inner, hskip, hsuper, hmem]))

theorem new_sized (h : new cfg bRandomTweak = .ok pal) (hfits : pal.Fits) : pal.Sized := by
  obtain ⟨hperm, hplane, hpos, hpageSize, hblocks, superPageSize, hsize, hpages⟩ := new_spec h
  have houter : MixedRadix.size pal.param.count pal.outer = MixedRadix.size pal.param.count
      (AddrIndex.all.filter fun idx => !pal.superblock idx) := by
    rw [← MixedRadix.size_perm _ (hperm.filter _), outer]
    congr 1
    refine List.filter_congr fun idx _ => ?_
    -- a place that is skipped belongs to the super block
    by_cases hskip : pal.skips idx
    · obtain ⟨hmulti, rfl⟩ : pal.useMultiplaneOP = true ∧ idx = .plane := by
        simpa [skips] using hskip
      simp [hplane hmulti]
    · simp [hskip]
  have hinner : MixedRadix.size pal.param.count
      (AddrIndex.all.filter fun idx => pal.superblock idx) =
        (if pal.useMultiplaneOP then pal.param.plane else 1) *
          MixedRadix.size pal.param.count pal.inner := by
    rw [← MixedRadix.size_perm _ (hperm.filter _)]
    by_cases hmulti : pal.useMultiplaneOP
    · have hsplit : (pal.pageAllocation.filter fun idx => pal.superblock idx).Perm
          (.plane :: pal.inner) := by
        have hmem : .plane ∈ pal.pageAllocation.filter fun idx => pal.superblock idx :=
          List.mem_filter.mpr ⟨hperm.mem_iff.mpr (AddrIndex.mem_all _), hplane hmulti⟩
        have hnodup := (hperm.nodup_iff.mpr AddrIndex.nodup_all).filter fun idx =>
          pal.superblock idx
        have herase : (pal.pageAllocation.filter fun idx => pal.superblock idx).erase .plane =
            pal.inner := by
          rw [hnodup.erase_eq_filter, List.filter_filter, inner]
          simp [skips, hmulti, bne, beq_eq_decide]
        exact herase ▸ List.perm_cons_erase hmem
      rw [MixedRadix.size_perm _ hsplit, MixedRadix.size_cons, if_pos hmulti]
      rfl
    · rw [if_neg hmulti, Nat.one_mul, inner]
      simp [skips, hmulti]
  refine ⟨hperm, ?_, ?_⟩
  · rw [houter, Nat.mul_comm]
    exact hblocks.eq hfits.1
  · rw [hpages, hsize.eq hfits.2, Nat.mul_div_cancel_left _ hpageSize, hinner]
    split
    · next hmulti => exact Nat.mul_div_cancel_left _ (hpos hmulti)
    · exact Nat.one_mul _

end New

/-! ### The slots are the addresses in bounds -/

namespace Sized

variable {pal : PALOLD} (hs : pal.Sized)
include hs

theorem nodup : pal.pageAllocation.Nodup := hs.perm.nodup_iff.mpr AddrIndex.nodup_all

theorem nodup_outer : pal.outer.Nodup := hs.nodup.filter _

theorem nodup_inner : pal.inner.Nodup := hs.nodup.filter _

/-- The block index and the flag bit of an address. -/
theorem slot_inv {b i page : Nat} (hi : i < pal.param.pageInSuperPage) :
    MixedRadix.value pal.param.count pal.outer (pal.slot b i page).coord (pal.slot b i page).block
        = b ∧
      MixedRadix.value pal.param.count pal.inner (pal.slot b i page).coord 0 = i := by
  rw [slot, CPDPBP.coord_ofCoord]
  constructor
  · rw [MixedRadix.value_congr fun idx hidx => MixedRadix.digits_of_notMem ?_]
    · exact MixedRadix.value_digits hs.nodup_outer
    · rcases mem_places hs.perm idx with ⟨_, h, _⟩ | ⟨_, _, h⟩ | ⟨_, h, _⟩
      · exact absurd hidx h
      · exact h
      · exact absurd hidx h
  · have hrest : (MixedRadix.digits pal.param.count pal.inner
        (MixedRadix.digits pal.param.count pal.outer (fun _ => 0) b).1 i).2 = 0 := by
      rw [MixedRadix.digits_snd, ← hs.pageInSuperPage]
      exact Nat.div_eq_of_lt hi
    exact (congrArg _ hrest).symm.trans (MixedRadix.value_digits hs.nodup_inner)

/-- An address in bounds is the slot of its block index and flag bit. -/
theorem slot_value {addr : CPDPBP} (h : pal.InBounds addr) :
    pal.slot (MixedRadix.value pal.param.count pal.outer addr.coord addr.block)
      (MixedRadix.value pal.param.count pal.inner addr.coord 0) addr.page = addr := by
  obtain ⟨hcoord, -⟩ := inBounds_iff.mp h
  obtain ⟨houter, hinner⟩ := h.coord_lt
  rw [slot, MixedRadix.digits_value hs.nodup_outer houter]
  dsimp only
  rw [MixedRadix.digits_value hs.nodup_inner hinner]
  have hcoords : (fun idx => if idx ∈ pal.inner then addr.coord idx else
      if idx ∈ pal.outer then addr.coord idx else 0) = addr.coord := by
    funext idx
    rcases mem_places hs.perm idx with ⟨hskip, ho, hi⟩ | ⟨_, ho, hi⟩ | ⟨_, ho, hi⟩
    · have hzero := hcoord idx
      rw [if_pos hskip] at hzero
      rw [if_neg hi, if_neg ho, hzero]
    · rw [if_neg hi, if_pos ho]
    · rw [if_pos hi]
  rw [hcoords, CPDPBP.ofCoord_coord]

/-- A slot is in bounds. -/
theorem slot_inBounds {b i page : Nat} (hb : b < pal.param.superBlock)
    (hi : i < pal.param.pageInSuperPage) : pal.InBounds (pal.slot b i page) := by
  rw [hs.superBlock] at hb
  rw [hs.pageInSuperPage] at hi
  have houter : ∀ idx ∈ pal.outer, 0 < pal.param.count idx :=
    MixedRadix.radix_pos (Nat.pos_of_ne_zero fun h => by simp [h] at hb)
  have hinner : ∀ idx ∈ pal.inner, 0 < pal.param.count idx := MixedRadix.radix_pos (by omega)
  refine inBounds_iff.mpr ⟨fun idx => ?_, ?_⟩
  · rw [slot, CPDPBP.coord_ofCoord]
    rcases mem_places hs.perm idx with ⟨hskip, ho, hi⟩ | ⟨hskip, ho, hi⟩ | ⟨hskip, ho, hi⟩
    · rw [if_pos hskip, MixedRadix.digits_of_notMem hi, MixedRadix.digits_of_notMem ho]
    · rw [if_neg hskip, MixedRadix.digits_of_notMem hi]
      exact MixedRadix.digits_lt houter ho
    · rw [if_neg hskip]
      exact MixedRadix.digits_lt hinner hi
  · show (MixedRadix.digits pal.param.count pal.outer (fun _ => 0) b).2 < pal.param.block
    rw [MixedRadix.digits_snd]
    exact Nat.div_lt_of_lt_mul hb

/-- A request for a super block that exists is answered with the slots of the bits set. -/
theorem convertCPDPBP_eq {req : Request} (hb : req.blockIndex < pal.param.superBlock)
    (hflag : req.ioFlag.dataSize = pal.param.pageInSuperPage) :
    pal.convertCPDPBP req = .ok (req,
      (selected req.ioFlag 0 pal.param.pageInSuperPage).map fun i =>
        pal.slot req.blockIndex i req.pageIndex) := by
  rw [hs.superBlock] at hb
  have houter : ∀ idx ∈ pal.outer, 0 < pal.param.count idx :=
    MixedRadix.radix_pos (Nat.pos_of_ne_zero fun h => by simp [h] at hb)
  exact PALOLD.convertCPDPBP_eq hs.nodup houter hs.pageInSuperPage.symm req hflag

/-- The slots of the super blocks are exactly the addresses in bounds, each once. -/
theorem bijOn_slot (page : Nat) :
    Set.BijOn (fun p : Nat × Nat => pal.slot p.1 p.2 page)
      {p | p.1 < pal.param.superBlock ∧ p.2 < pal.param.pageInSuperPage}
      {addr | pal.InBounds addr ∧ addr.page = page} := by
  let index (addr : CPDPBP) : Nat × Nat :=
    (MixedRadix.value pal.param.count pal.outer addr.coord addr.block,
      MixedRadix.value pal.param.count pal.inner addr.coord 0)
  have hinv : Set.InvOn index (fun p : Nat × Nat => pal.slot p.1 p.2 page)
      {p | p.1 < pal.param.superBlock ∧ p.2 < pal.param.pageInSuperPage}
      {addr | pal.InBounds addr ∧ addr.page = page} := by
    constructor
    · rintro ⟨b, i⟩ ⟨-, hi⟩
      exact Prod.ext (hs.slot_inv hi).1 (hs.slot_inv hi).2
    · rintro addr ⟨haddr, rfl⟩
      exact hs.slot_value haddr
  refine hinv.bijOn ?_ ?_
  · rintro ⟨b, i⟩ ⟨hb, hi⟩
    exact ⟨hs.slot_inBounds hb hi, rfl⟩
  · rintro addr ⟨haddr, -⟩
    obtain ⟨houter, hinner⟩ := haddr.coord_lt
    constructor
    · show MixedRadix.value _ _ _ _ < pal.param.superBlock
      rw [hs.superBlock]
      exact (MixedRadix.value_lt_iff houter).mpr (inBounds_iff.mp haddr).2
    · show MixedRadix.value _ _ _ _ < pal.param.pageInSuperPage
      rw [hs.pageInSuperPage, ← Nat.mul_one (MixedRadix.size _ _)]
      exact (MixedRadix.value_lt_iff hinner).mpr Nat.one_pos

end Sized

end PALOLD

end SimpleSSD.PAL
