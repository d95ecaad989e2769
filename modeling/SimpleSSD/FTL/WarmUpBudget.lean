import Mathlib.Algebra.Order.Floor.Ring
import Mathlib.Data.Rat.Floor
import Mathlib.Tactic.FieldSimp
import Mathlib.Tactic.Linarith
import SimpleSSD.FTL.WarmUp

/-!
# The budget of the warm-up

`initialize` computes `maxPagesBeforeGC`, the writes after which a collection
would fall due, and lowers `nPagesToInvalidate` when the pages to fill and the
pages to invalidate exceed it ("Too high filling ratio. Adjusting
invalidPageRatio."). It assumes that the pages to fill alone fit: if they do
not, the unsigned subtraction wraps. `warmUpSafe_iff` says exactly when the
warm-up is safe.
-/

namespace SimpleSSD.FTL

open RoundRobin

namespace Config

variable (cfg : Config)

def nTotalLogicalPages : Nat := cfg.totalLogicalBlocks * cfg.pagesInBlock

def nPagesToWarmup : Nat := ⌊(cfg.nTotalLogicalPages : Rat) * cfg.fillingRatio⌋.toNat

/-- `nPagesToInvalidate` as the configuration asks for it. -/
def nPagesToInvalidate : Nat := ⌊(cfg.nTotalLogicalPages : Rat) * cfg.invalidRatio⌋.toNat

/-- The product that `maxPagesBeforeGC` is converted from. -/
def budget : Rat :=
  (cfg.pagesInBlock : Rat) * ((cfg.totalPhysicalBlocks : Rat) * (1 - cfg.gcThreshold) -
    (cfg.pageCountToMaxPerf : Rat))

def maxPagesBeforeGC : Nat := ⌊cfg.budget⌋.toNat

/-- The checks of `FTL::Config::update` and of the constructor of `FTL`
(ftl/config.cc:107–123, ftl.cc:33–52). The blocks are those of all lanes
together, and a page has at least one unit. -/
structure Accepted : Prop where
  lanes : 0 < cfg.pageCountToMaxPerf
  units : 0 < cfg.ioUnitInPage
  whole : cfg.pageCountToMaxPerf ∣ cfg.totalPhysicalBlocks
  overProvision : cfg.totalLogicalBlocks + cfg.pageCountToMaxPerf < cfg.totalPhysicalBlocks
  fill : 0 ≤ cfg.fillingRatio ∧ cfg.fillingRatio ≤ 1
  invalid : 0 ≤ cfg.invalidRatio ∧ cfg.invalidRatio ≤ 1

/-- `maxPagesBeforeGC` is a value of `uint64_t`: the conversion of the product
truncates towards zero and is undefined outside the range of the type. -/
def BudgetDefined : Prop := -1 < cfg.budget ∧ cfg.budget < 2 ^ 64

end Config

/-- The warm-up of a device: the budget is a page count, the adjusted number of pages
to invalidate does not wrap, the writes stay within the budget, and the constructor
stops with neither of the two panics. -/
structure WarmUpSafe (cfg : Config) (env : Env) (w : World) : Prop where
  budgetDefined : cfg.BudgetDefined
  noWrap : cfg.maxPagesBeforeGC < cfg.nPagesToWarmup + cfg.nPagesToInvalidate →
    cfg.nPagesToWarmup ≤ cfg.maxPagesBeforeGC
  within : (PageMapping.warmupPages cfg env).length ≤ cfg.maxPagesBeforeGC
  noPanic : ∀ f, PageMapping.boot cfg env w = .error f →
    f ≠ gcTriggered ∧ f ≠ BlockPool.noFreeBlock

section Budget

variable {cfg : Config} {env : Env} {w : World}

theorem length_warmupPages : (PageMapping.warmupPages cfg env).length =
    cfg.nPagesToWarmup +
      if cfg.maxPagesBeforeGC < cfg.nPagesToWarmup + cfg.nPagesToInvalidate
      then (cfg.maxPagesBeforeGC + 2 ^ 64 - cfg.nPagesToWarmup) % 2 ^ 64
      else cfg.nPagesToInvalidate := by
  unfold PageMapping.warmupPages
  simp only [List.length_append, List.length_map, List.length_range]
  rfl

/-- When the pages to fill fit, the pages to invalidate take at most the rest. -/
theorem length_warmupPages_eq (env : Env) (hdef : cfg.BudgetDefined)
    (hfit : cfg.nPagesToWarmup ≤ cfg.maxPagesBeforeGC) :
    (PageMapping.warmupPages cfg env).length =
      min (cfg.nPagesToWarmup + cfg.nPagesToInvalidate) cfg.maxPagesBeforeGC := by
  have hmax : cfg.maxPagesBeforeGC < 2 ^ 64 := by
    have hfloor : ⌊cfg.budget⌋ < 2 ^ 64 := Int.floor_lt.mpr (by exact_mod_cast hdef.2)
    unfold Config.maxPagesBeforeGC
    omega
  have hdiff : cfg.maxPagesBeforeGC + 2 ^ 64 - cfg.nPagesToWarmup =
      cfg.maxPagesBeforeGC - cfg.nPagesToWarmup + 2 ^ 64 := by omega
  rw [length_warmupPages, hdiff, Nat.add_mod_right, Nat.mod_eq_of_lt (by omega)]
  split <;> omega

/-- The device as the constructor leaves it before the first write. -/
theorem init_warm (env : Env) (hcfg : cfg.Accepted) :
    ∃ s, PageMapping.init cfg env = .ok s ∧ Warm cfg 0 s := by
  have hblocks : cfg.pageCountToMaxPerf < cfg.totalPhysicalBlocks := by
    have h := hcfg.overProvision
    omega
  obtain ⟨p, hp, hopen⟩ := BlockPool.init_constructed env hcfg.units hblocks
  refine ⟨_, by rw [PageMapping.init, hp, Except.ok_bind], ⟨⟨⟨hopen.partitioned, hopen.formatted,
    ?_, hopen.erased, by rw [hopen.iomap]; rfl, by rw [hopen.index]; exact hcfg.lanes⟩, ?_, ?_⟩,
    fun l vec hvec => ?_, rfl, rfl⟩⟩
  · have hfill : cfg.laneFill 0 = fun _ => 0 := by
      funext l
      rw [Config.laneFill, uses_zero, filled_zero]
    rw [hfill]
    exact hopen.lanes
  · rw [Config.blocksRenewed, renewals, Nat.add_zero]
    exact hopen.free
  · -- nothing has been written: the tweak stays on lane 0, otherwise lane 1 is next
    have hany : p.lastFreeBlockIOMap.any = false := by
      rw [hopen.iomap]
      rfl
    rw [BlockPool.nextLane, hopen.index, hany, turn, Config.firstLane]
    cases cfg.randomIOTweak with
    | true => simp
    | false =>
      have hlanes := hcfg.lanes
      by_cases hone : 0 + 1 = cfg.pageCountToMaxPerf
      · simp [← hone]
      · rw [if_neg (by simp), if_neg hone, if_neg (by simp), Nat.mod_eq_of_lt (by omega)]
  · rw [UnorderedMap.find?_empty] at hvec
    cases hvec

theorem Config.Fits.mono {m n : Nat} (h : cfg.Fits n) (hmn : m ≤ n) : cfg.Fits m := by
  have hle : cfg.blocksRenewed m ≤ cfg.blocksRenewed n := renewals_mono hmn
  rw [Config.Fits] at h ⊢
  omega

theorem Config.Low.mono {m n : Nat} (h : cfg.Low m) (hmn : m ≤ n) : cfg.Low n := by
  have hle : (cfg.blocksRenewed m : Rat) ≤ cfg.blocksRenewed n := by
    exact_mod_cast renewals_mono hmn
  rw [Config.Low] at h ⊢
  refine lt_of_le_of_lt ?_ h
  gcongr

/-- The warm-up writes as long as blocks are free and their share is high enough. -/
theorem Warm.writes (env : Env) (w : World) (hcfg : cfg.Shaped) (l : List Nat) {n : Nat}
    {s : PageMapping}
    (hs : Warm cfg n s) :
    (l.foldlM
      (fun (s : PageMapping) lpn => s.writeInternal cfg env w (Request.full cfg lpn) false) s).Sat
      (Warm cfg (n + l.length)) fun f =>
        (f = BlockPool.noFreeBlock ∧ ¬ cfg.Fits (n + l.length)) ∨
          (f = gcTriggered ∧ cfg.Low (n + l.length) ∧ 0 < l.length) := by
  induction l generalizing n s with
  | nil => exact hs
  | cons lpn l ih =>
    have hlen : n + (lpn :: l).length = n + 1 + l.length := by
      rw [List.length_cons, Nat.add_comm l.length, Nat.add_assoc]
    have hle : n + 1 ≤ n + 1 + l.length := Nat.le_add_right _ _
    rw [List.foldlM_cons, hlen]
    have hhead : (s.writeInternal cfg env w (Request.full cfg lpn) false).Sat (Warm cfg (n + 1))
        fun f => (f = BlockPool.noFreeBlock ∧ ¬ cfg.Fits (n + 1 + l.length)) ∨
          (f = gcTriggered ∧ cfg.Low (n + 1 + l.length) ∧ 0 < (lpn :: l).length) := by
      refine (hs.writeInternal env w hcfg lpn).mono (fun _ h => h) ?_
      rintro f (⟨h, hfits⟩ | ⟨h, hlow⟩)
      · exact .inl ⟨h, fun hfits' => hfits (hfits'.mono hle)⟩
      · exact .inr ⟨h, hlow.mono hle, Nat.succ_pos _⟩
    refine hhead.bind fun s' hs' => (ih hs').mono (fun _ h => h) ?_
    rintro f (h | ⟨h, hlow, -⟩)
    · exact .inl h
    · exact .inr ⟨h, hlow, Nat.succ_pos _⟩

/-- The free blocks last until every page of the device has been written. -/
theorem fits_iff (hcfg : cfg.Accepted) (hpages : 0 < cfg.pagesInBlock) (n : Nat) :
    cfg.Fits n ↔ n ≤ cfg.totalPhysicalBlocks * cfg.pagesInBlock := by
  obtain ⟨k, hk⟩ := hcfg.whole
  have hpos : 0 < k := by
    have h := hcfg.overProvision
    rcases Nat.eq_zero_or_pos k with rfl | hpos
    · omega
    · exact hpos
  rw [Config.Fits, Config.blocksRenewed, hk, Nat.mul_comm cfg.pageCountToMaxPerf k]
  exact renewals_add_le_iff hcfg.lanes hpages hpos n

/-- Within the budget the share of free blocks does not fall below the threshold. -/
theorem not_low_of_le_budget (hcfg : cfg.Accepted) (hpages : 0 < cfg.pagesInBlock) {n : Nat}
    (hn : (n : Rat) ≤ cfg.budget) : ¬ cfg.Low n := by
  have hphys : (0 : Rat) < cfg.totalPhysicalBlocks := by
    have h := hcfg.overProvision
    exact_mod_cast (by omega : 0 < cfg.totalPhysicalBlocks)
  have hsize : (0 : Rat) < cfg.pagesInBlock := by exact_mod_cast hpages
  have hrenewed : (cfg.pagesInBlock : Rat) * cfg.blocksRenewed n ≤ n := by
    exact_mod_cast size_mul_renewals_le hcfg.lanes hpages n
  have hblocks : (cfg.blocksRenewed n : Rat) ≤
      cfg.totalPhysicalBlocks * (1 - cfg.gcThreshold) - cfg.pageCountToMaxPerf :=
    le_of_mul_le_mul_left (hrenewed.trans hn) hsize
  rw [Config.Low, not_lt, le_div_iff₀ hphys]
  linarith

/-- A device without pages in its blocks has nothing to write. -/
theorem pagesInBlock_pos (h : 0 < cfg.nPagesToWarmup + cfg.nPagesToInvalidate) :
    0 < cfg.pagesInBlock := by
  refine Nat.pos_of_ne_zero fun hzero => ?_
  have htotal : cfg.nTotalLogicalPages = 0 := by rw [Config.nTotalLogicalPages, hzero, Nat.mul_zero]
  rw [Config.nPagesToWarmup, Config.nPagesToInvalidate, htotal] at h
  simp at h

/-- What the warm-up leaves, and why it stops if it does. -/
theorem boot_sat (env : Env) (w : World) (hcfg : cfg.Accepted) (hpages : 0 < cfg.pagesInBlock) :
    (PageMapping.boot cfg env w).Sat (Warm cfg (PageMapping.warmupPages cfg env).length) fun f =>
      (f = BlockPool.noFreeBlock ∧ ¬ cfg.Fits (PageMapping.warmupPages cfg env).length) ∨
        (f = gcTriggered ∧ cfg.Low (PageMapping.warmupPages cfg env).length ∧
          0 < (PageMapping.warmupPages cfg env).length) := by
  obtain ⟨s, hinit, hs⟩ := init_warm env hcfg
  have hwrites := hs.writes env w ⟨hcfg.lanes, hcfg.units, hpages⟩ (PageMapping.warmupPages cfg env)
  rw [Nat.zero_add] at hwrites
  rw [PageMapping.boot, hinit, Except.ok_bind]
  exact hwrites

/-- The warm-up of an accepted device is safe iff its budget is a page count that
covers the pages to fill, and no more pages are written than the device has. -/
theorem warmUpSafe_iff (cfg : Config) (env : Env) (w : World) (hcfg : cfg.Accepted) :
    WarmUpSafe cfg env w ↔ cfg.BudgetDefined ∧ cfg.nPagesToWarmup ≤ cfg.maxPagesBeforeGC ∧
      min (cfg.nPagesToWarmup + cfg.nPagesToInvalidate) cfg.maxPagesBeforeGC ≤
        cfg.totalPhysicalBlocks * cfg.pagesInBlock := by
  constructor
  · intro h
    have hfit : cfg.nPagesToWarmup ≤ cfg.maxPagesBeforeGC := by
      rcases Nat.lt_or_ge cfg.maxPagesBeforeGC (cfg.nPagesToWarmup + cfg.nPagesToInvalidate) with
        hlt | hge
      · exact h.noWrap hlt
      · omega
    refine ⟨h.budgetDefined, hfit, ?_⟩
    have hlen := length_warmupPages_eq env h.budgetDefined hfit
    rcases Nat.eq_zero_or_pos (cfg.nPagesToWarmup + cfg.nPagesToInvalidate) with hzero | hpos
    · omega
    · have hpages := pagesInBlock_pos hpos
      rw [← hlen, ← fits_iff hcfg hpages]
      cases hboot : PageMapping.boot cfg env w with
      | ok s => exact ((boot_sat env w hcfg hpages).of_ok hboot).fits
      | error f =>
        rcases (boot_sat env w hcfg hpages).of_error hboot with ⟨hf, -⟩ | ⟨hf, -⟩
        · exact absurd hf (h.noPanic f hboot).2
        · exact absurd hf (h.noPanic f hboot).1
  · rintro ⟨hdef, hfit, hphys⟩
    have hlen := length_warmupPages_eq env hdef hfit
    refine ⟨hdef, fun _ => hfit, by omega, fun f hboot => ?_⟩
    rcases Nat.eq_zero_or_pos (PageMapping.warmupPages cfg env).length with hzero | hpos
    · -- nothing is written
      obtain ⟨s, hinit, -⟩ := init_warm env hcfg
      rw [PageMapping.boot, hinit, Except.ok_bind, PageMapping.initializeDevice,
        List.eq_nil_of_length_eq_zero hzero] at hboot
      cases hboot
    · have hpages : 0 < cfg.pagesInBlock := pagesInBlock_pos (by omega)
      have hbudget : ((PageMapping.warmupPages cfg env).length : Rat) ≤ cfg.budget := by
        have hfloor : ((PageMapping.warmupPages cfg env).length : Int) ≤ ⌊cfg.budget⌋ := by
          rw [Config.maxPagesBeforeGC] at hlen
          omega
        exact_mod_cast Int.le_floor.mp hfloor
      rcases (boot_sat env w hcfg hpages).of_error hboot with ⟨-, hfits⟩ | ⟨-, hlow, -⟩
      · exact absurd ((fits_iff hcfg hpages _).mpr (by omega)) hfits
      · exact absurd hlow (not_low_of_le_budget hcfg hpages hbudget)

end Budget

/-! ### A device that is filled beyond its budget -/

/-- Six blocks of two pages, four of them for the host, to be filled completely; half
of the blocks are to stay free. -/
def Config.overfilled : Config :=
  { Config.small 6 with totalLogicalBlocks := 4, gcThreshold := 1 / 2, fillingRatio := 1 }

/-- The sequential modes fill the pages in order, and then invalidate. -/
theorem warmupPages_sequential (cfg : Config) (env : Env) (hmode : cfg.fillingMode ≠ .mode2) :
    ∃ rest, PageMapping.warmupPages cfg env = List.range cfg.nPagesToWarmup ++ rest := by
  unfold PageMapping.warmupPages
  simp only [if_neg hmode, List.map_id']
  exact ⟨_, rfl⟩

/-- The configuration is accepted, the pages to fill exceed the budget, and the
constructor stops at a collection that falls due while it fills. -/
theorem not_warmUpSafe_overfilled : Config.overfilled.Accepted ∧
    PageMapping.boot .overfilled .zero .zero = .error gcTriggered ∧
      ¬ WarmUpSafe .overfilled .zero .zero := by
  have hboot : PageMapping.boot .overfilled .zero .zero = .error gcTriggered := by
    have hpages : Config.overfilled.nPagesToWarmup = 8 := by decide +kernel
    obtain ⟨rest, hrest⟩ := warmupPages_sequential .overfilled .zero (by decide)
    -- a collection falls due before the last of the eight pages
    have hfill : (PageMapping.init .overfilled .zero >>= fun s => (List.range 8).foldlM
        (fun (s : PageMapping) lpn => s.writeInternal .overfilled .zero .zero
          (Request.full .overfilled lpn) false) s).Sat (fun _ => False) (· = gcTriggered) := by
      decide +kernel
    have hsplit : PageMapping.boot .overfilled .zero .zero =
        (PageMapping.init .overfilled .zero >>= fun s => (List.range 8).foldlM
          (fun (s : PageMapping) lpn => s.writeInternal .overfilled .zero .zero
            (Request.full .overfilled lpn) false) s) >>= fun s => rest.foldlM
          (fun (s : PageMapping) lpn => s.writeInternal .overfilled .zero .zero
            (Request.full .overfilled lpn) false) s := by
      rw [bind_assoc, PageMapping.boot]
      simp only [PageMapping.initializeDevice, hrest, hpages, List.foldlM_append]
      rfl
    rw [hsplit, hfill.eq_error]
    rfl
  refine ⟨⟨by decide, by decide, by decide, by decide, by decide, by decide⟩, hboot, fun h => ?_⟩
  exact (h.noPanic _ hboot).1 rfl

/-- With a quarter of the pages to fill it is safe. -/
theorem warmUpSafe_iff_quarter :
    WarmUpSafe { Config.overfilled with fillingRatio := 1 / 4 } .zero .zero :=
  (warmUpSafe_iff { Config.overfilled with fillingRatio := 1 / 4 } .zero .zero
    ⟨by decide, by decide, by decide, by decide, by decide +kernel, by decide⟩).mpr
    ⟨⟨by decide +kernel, by decide +kernel⟩, by decide +kernel, by decide +kernel⟩

end SimpleSSD.FTL
