import Mathlib.Algebra.Order.BigOperators.Group.Finset
import SimpleSSD.FTL.Mapping
import SimpleSSD.FTL.OpenLanes
import SimpleSSD.Lib.RoundRobin

/-!
# Blocks for the pages of a collection

A collection programs the valid pages of its victims round robin over the lanes,
and each lane opens a free block when its open block is full or is listed in
`erased_block_id`. `blocksFor` counts the free blocks that `n` pages can take: one
for each page when `erased_block_id` lists a free block, which then takes one page
only, and otherwise one for each `pagesInBlock` pages of a lane.

`Supply` is the invariant of the allocations; under it `getLastFreeBlock` returns a
block with a page left, as long as the count does not exceed the free blocks
(`Supply.getLastFreeBlock`).
-/

namespace SimpleSSD.FTL

open RoundRobin

namespace BlockPool

/-- The page that a block in use takes next, with one I/O unit a page. -/
def nextPage (p : BlockPool) (k : Nat) : Option Nat :=
  (p.blocks.find? k).map fun b => b.pNextWritePageIndex 0

/-- The pool when the lane of the next full page has been chosen. -/
def chooseLane (cfg : Config) (p : BlockPool) : BlockPool :=
  { p with
    lastFreeBlockIndex := p.nextLane cfg
    lastFreeBlockIOMap := (Bitset.new cfg.ioUnitInPage).setAll }

/-- Every lane has an open block that is in use, or that waits to be replaced because
it was erased and is open in no other lane. -/
structure LanesUsable (cfg : Config) (p : BlockPool) : Prop where
  length : p.lastFreeBlock.length = cfg.pageCountToMaxPerf
  index : p.lastFreeBlockIndex < cfg.pageCountToMaxPerf
  usable : ∀ l k : Nat, p.lastFreeBlock[l]? = some k → k ∈ p.blocks ∨
    (k ∈ p.erasedBlockId ∧ ∀ l' : Nat, p.lastFreeBlock[l']? = some k → l' = l)

/-- `getLastFreeBlock` has opened block `b` in the next lane, where `cur` was open. -/
structure Opens (cfg : Config) (p : BlockPool) (cur : Nat) (b : Block) (p' : BlockPool) : Prop where
  takes : (p.chooseLane cfg).Takes p' b
  lanes : p'.lastFreeBlock = p.lastFreeBlock.set (p.nextLane cfg) b.idx
  index : p'.lastFreeBlockIndex = p.nextLane cfg
  erased : p'.erasedBlockId = p.erasedBlockId.filter fun k => k ≠ cur

/-- One page of block `k` has been programmed, and other blocks may have been touched. -/
structure Advances (p : BlockPool) (k : Nat) (p' : BlockPool) : Prop where
  next : ∀ j, p'.nextPage j = if j = k then (p.nextPage k).map (· + 1) else p.nextPage j
  lanes : p'.lastFreeBlock = p.lastFreeBlock
  index : p'.lastFreeBlockIndex = p.lastFreeBlockIndex
  iomap : p'.lastFreeBlockIOMap = p.lastFreeBlockIOMap
  erased : p'.erasedBlockId = p.erasedBlockId
  free : p'.freeBlocks = p.freeBlocks
  count : p'.nFreeBlocks = p.nFreeBlocks

section Allocate

variable {cfg : Config} {env : Env} {p p' p'' : BlockPool} {k cur : Nat} {b : Block}

theorem mem_blocks_iff : k ∈ p.blocks ↔ ∃ m, p.nextPage k = some m := by
  rw [UnorderedMap.mem_iff_find?]
  constructor
  · rintro ⟨b, hb⟩
    exact ⟨_, by rw [nextPage, hb]; rfl⟩
  · rintro ⟨m, hm⟩
    obtain ⟨b, hb, -⟩ := Option.map_eq_some_iff.mp hm
    exact ⟨b, hb⟩

theorem selectLane_full (hsize : cfg.randomIOTweak = true →
    p.lastFreeBlockIOMap.dataSize = cfg.ioUnitInPage) :
    p.selectLane cfg (Bitset.new cfg.ioUnitInPage).setAll = .ok (p.chooseLane cfg) := by
  cases htweak : cfg.randomIOTweak with
  | true => exact selectLane_all (hsize htweak)
  | false => simp [selectLane, chooseLane, nextLane, htweak]

/-- What `getLastFreeBlock` does for a full page. -/
theorem getLastFreeBlock_cases (env : Env) (hwf : p.WellFormed cfg) (hlanes : p.LanesUsable cfg)
    (hone : cfg.ioUnitInPage = 1) (hpages : 0 < cfg.pagesInBlock) :
    ∃ cur, p.lastFreeBlock[p.nextLane cfg]? = some cur ∧
      ((cur ∉ p.erasedBlockId ∧ (∃ m < cfg.pagesInBlock, p.nextPage cur = some m) ∧
          p.getLastFreeBlock cfg env (Bitset.new cfg.ioUnitInPage).setAll =
            .ok (cur, p.chooseLane cfg)) ∨
        ((cur ∈ p.erasedBlockId ∨ p.nextPage cur = some cfg.pagesInBlock) ∧
          (0 < p.nFreeBlocks → ∃ b p',
            p.getLastFreeBlock cfg env (Bitset.new cfg.ioUnitInPage).setAll = .ok (b.idx, p') ∧
              p.Opens cfg cur b p'))) := by
  have hlane := nextLane_lt hlanes.index
  obtain ⟨cur, hcur⟩ : ∃ cur, p.lastFreeBlock[p.nextLane cfg]? = some cur :=
    ⟨_, List.getElem?_eq_getElem (by rw [hlanes.length]; exact hlane)⟩
  have hat :
      (p.chooseLane cfg).lastFreeBlockAt (p.chooseLane cfg).lastFreeBlockIndex = .ok cur := by
    rw [lastFreeBlockAt,
      show (p.chooseLane cfg).lastFreeBlock[(p.chooseLane cfg).lastFreeBlockIndex]? =
      some cur from hcur]
  have hpart : (p.chooseLane cfg).Partitioned cfg := hwf.toPartitioned.congr rfl rfl rfl rfl
  -- the columns of a free block stand at the first page
  have hfresh : ∀ b ∈ p.freeBlocks, b.getNextWritePageIndex ≠ cfg.pagesInBlock := by
    intro b hb
    obtain ⟨-, hunits, -, hnext⟩ := hwf.free b hb
    rw [Block.getNextWritePageIndex_one (hunits.trans hone), hnext]
    exact hpages.ne
  refine ⟨cur, hcur, ?_⟩
  rw [getLastFreeBlock, selectLane_full hwf.lane_size, Except.ok_bind, replaceErased, hat,
    Except.ok_bind]
  by_cases herased : cur ∈ (p.chooseLane cfg).erasedBlockId
  · refine .inr ⟨.inl herased, fun hfree => ?_⟩
    rw [if_pos herased, openBlock]
    obtain ⟨⟨k, r⟩, hget⟩ := hpart.getFreeBlock_ok env hlane hfree
    obtain ⟨b, rfl, ht, hlast, hindex, herased'⟩ := getFreeBlock_spec hget
    have hset : r.lastFreeBlock.set r.lastFreeBlockIndex b.idx =
        p.lastFreeBlock.set (p.nextLane cfg) b.idx := by
      rw [hlast, hindex]
      rfl
    have hr : r.lastFreeBlockIndex = p.nextLane cfg := hindex
    generalize hq : ({ r with
      lastFreeBlock := r.lastFreeBlock.set r.lastFreeBlockIndex b.idx
      erasedBlockId := r.erasedBlockId.filter fun k => k ≠ cur } : BlockPool) = q
    have htakes : (p.chooseLane cfg).Takes q b := by
      subst hq
      exact ⟨ht.free, ht.fresh, ht.used, ht.count, ht.retired, ht.iomap⟩
    have hnew : q.lastFreeBlockAt q.lastFreeBlockIndex = .ok b.idx := by
      rw [← hq, lastFreeBlockAt, hset, hr,
        List.getElem?_set_self (by rw [hlanes.length]; exact hlane)]
    have hmem : b ∈ p.freeBlocks := ht.free.mem_iff.mpr List.mem_cons_self
    refine ⟨b, q, ?_, htakes, by rw [← hq, hset], by rw [← hq, hr], by rw [← hq, herased']; rfl⟩
    rw [show (p.chooseLane cfg).lastFreeBlockIndex = p.nextLane cfg from rfl, hget, Except.ok_bind,
      Except.ok_bind, Except.ok_bind, hq, replaceFull, hnew, Except.ok_bind, htakes.find?,
        if_pos rfl]
    simp only
    rw [if_neg (hfresh b hmem)]
  · rw [if_neg herased, Except.ok_bind, replaceFull, hat, Except.ok_bind]
    rcases hlanes.usable _ _ hcur with hused | ⟨hlisted, -⟩
    · obtain ⟨c, hc⟩ := UnorderedMap.mem_iff_find?.mp hused
      obtain ⟨hcount, hunits⟩ := hwf.used cur c hc
      have hnext := Block.getNextWritePageIndex_one (hunits.trans hone)
      have hc' : (p.chooseLane cfg).blocks.find? cur = some c := hc
      have hpage : p.nextPage cur = some (c.pNextWritePageIndex 0) := by
        rw [nextPage, hc]
        rfl
      simp only [hc', hnext]
      by_cases hfull : c.pNextWritePageIndex 0 = cfg.pagesInBlock
      · refine .inr ⟨.inr (by rw [hpage, hfull]), fun hfree => ?_⟩
        rw [if_pos hfull, openBlock]
        obtain ⟨⟨k, r⟩, hget⟩ := hpart.getFreeBlock_ok env hlane hfree
        obtain ⟨b, rfl, ht, hlast, hindex, herased'⟩ := getFreeBlock_spec hget
        refine ⟨b, { r with
          lastFreeBlock := r.lastFreeBlock.set r.lastFreeBlockIndex b.idx
          bReclaimMore := true }, ?_,
          ⟨ht.free, ht.fresh, ht.used, ht.count, ht.retired, ht.iomap⟩, ?_, hindex, ?_⟩
        · rw [show (p.chooseLane cfg).lastFreeBlockIndex = p.nextLane cfg from rfl, hget]
          rfl
        · show r.lastFreeBlock.set r.lastFreeBlockIndex b.idx = _
          rw [hlast, hindex]
          rfl
        · refine herased'.trans (List.filter_eq_self.mpr fun k hk => ?_).symm
          rw [decide_eq_true_eq]
          rintro rfl
          exact herased hk
      · rw [if_neg hfull]
        refine .inl ⟨herased, ⟨_, ?_, hpage⟩, rfl⟩
        have hle := c.next_le 0
        rw [hcount] at hle
        exact lt_of_le_of_ne hle hfull
    · exact absurd hlisted herased

/-! ### What an allocation leaves -/

theorem LanesUsable.chooseLane (h : p.LanesUsable cfg) : (p.chooseLane cfg).LanesUsable cfg :=
  ⟨h.length, nextLane_lt h.index, h.usable⟩

theorem Advances.used (h : p.Advances k p') : ∀ j ∈ p.blocks, j ∈ p'.blocks := by
  intro j hj
  obtain ⟨m, hm⟩ := mem_blocks_iff.mp hj
  refine mem_blocks_iff.mpr ?_
  rw [h.next]
  split
  · next hjk =>
    rw [← hjk, hm]
    exact ⟨_, rfl⟩
  · exact ⟨m, hm⟩

theorem LanesUsable.advances (h : p.LanesUsable cfg) (ha : p.Advances k p') :
    p'.LanesUsable cfg := by
  refine ⟨by rw [ha.lanes]; exact h.length, by rw [ha.index]; exact h.index, fun l j hj => ?_⟩
  rw [ha.lanes] at hj
  rw [ha.lanes, ha.erased]
  exact (h.usable l j hj).imp_left (ha.used j)

theorem Opens.lane_self (h : p.Opens cfg cur b p') (hlanes : p.LanesUsable cfg) :
    p'.lastFreeBlock[p.nextLane cfg]? = some b.idx := by
  rw [h.lanes, List.getElem?_set_self (by rw [hlanes.length]; exact nextLane_lt hlanes.index)]

theorem Opens.lane_other (h : p.Opens cfg cur b p') {l : Nat} (hl : l ≠ p.nextLane cfg) :
    p'.lastFreeBlock[l]? = p.lastFreeBlock[l]? := by
  rw [h.lanes, List.getElem?_set_ne (Ne.symm hl)]

theorem Opens.next (h : p.Opens cfg cur b p') (hwf : p.WellFormed cfg) (j : Nat) :
    p'.nextPage j = if j = b.idx then some 0 else p.nextPage j := by
  rw [nextPage, h.takes.find?]
  split
  · obtain ⟨-, -, -, hnext⟩ := hwf.free b (h.takes.free.mem_iff.mpr List.mem_cons_self)
    rw [Option.map_some, hnext]
  · rfl

theorem LanesUsable.opens (hlanes : p.LanesUsable cfg)
    (hcur : p.lastFreeBlock[p.nextLane cfg]? = some cur) (h : p.Opens cfg cur b p') :
    p'.LanesUsable cfg := by
  have hb : b.idx ∈ p'.blocks := by
    refine UnorderedMap.mem_iff_find?.mpr ⟨b, ?_⟩
    rw [h.takes.find?, if_pos rfl]
  have hlane := nextLane_lt hlanes.index
  refine ⟨by rw [h.lanes, List.length_set, hlanes.length], by rw [h.index]; exact hlane, ?_⟩
  intro l k hk
  by_cases hkb : k = b.idx
  · exact .inl (hkb ▸ hb)
  have hback : ∀ l' : Nat, p'.lastFreeBlock[l']? = some k → p.lastFreeBlock[l']? = some k := by
    intro l' hl'
    by_cases hll : l' = p.nextLane cfg
    · rw [hll, h.lane_self hlanes] at hl'
      cases hl'
      exact absurd rfl hkb
    · rw [← h.lane_other hll]
      exact hl'
  rcases hlanes.usable l k (hback l hk) with hused | ⟨hlisted, honly⟩
  · obtain ⟨c, hc⟩ := UnorderedMap.mem_iff_find?.mp hused
    refine .inl (UnorderedMap.mem_iff_find?.mpr ⟨c, ?_⟩)
    rw [h.takes.find?, if_neg hkb]
    exact hc
  · refine .inr ⟨?_, fun l' hl' => honly l' (hback l' hl')⟩
    -- the id that is taken out of the list is open in no other lane
    have hne : k ≠ cur := by
      rintro rfl
      have heq : p.nextLane cfg = l := honly _ hcur
      rw [← heq, h.lane_self hlanes] at hk
      cases hk
      exact hkb rfl
    rw [h.erased]
    exact List.mem_filter.mpr ⟨hlisted, decide_eq_true hne⟩

end Allocate

/-! ### The supply -/

/-- `erased_block_id` lists a free block. -/
def ListsFree (p : BlockPool) : Prop := ∃ b ∈ p.freeBlocks, b.idx ∈ p.erasedBlockId

instance (p : BlockPool) : Decidable p.ListsFree :=
  inferInstanceAs (Decidable (∃ b ∈ p.freeBlocks, _))

/-- The free blocks that `n` full pages can take. -/
def blocksFor (cfg : Config) (p : BlockPool) (n : Nat) : Nat :=
  if p.ListsFree then n
  else n / (cfg.pageCountToMaxPerf * cfg.pagesInBlock) * cfg.pageCountToMaxPerf +
    min (n % (cfg.pageCountToMaxPerf * cfg.pagesInBlock)) cfg.pageCountToMaxPerf

/-- Lane `l` has opened `opened l` free blocks for its share of `n` pages, since the
pool was `p₀`, when `erased_block_id` listed none of them. -/
structure Dealing (cfg : Config) (p₀ : BlockPool) (opened : Nat → Nat) (n : Nat) (p : BlockPool) :
    Prop where
  next : p.nextLane cfg = turn cfg.pageCountToMaxPerf (p₀.nextLane cfg) n
  lanes : ∀ l < cfg.pageCountToMaxPerf, 0 < opened l → ∃ k m, p.lastFreeBlock[l]? = some k ∧
    k ∉ p.erasedBlockId ∧ p.nextPage k = some m ∧ 0 < m ∧
      cfg.pagesInBlock * opened l + m ≤
        uses cfg.pageCountToMaxPerf (p₀.nextLane cfg) l n + cfg.pagesInBlock
  distinct : ∀ l < cfg.pageCountToMaxPerf, ∀ l' < cfg.pageCountToMaxPerf, 0 < opened l →
    p.lastFreeBlock[l]? = p.lastFreeBlock[l']? → l = l'
  count : p.nFreeBlocks + (Finset.range cfg.pageCountToMaxPerf).sum opened = p₀.nFreeBlocks
  free : ∀ b ∈ p.freeBlocks, b ∈ p₀.freeBlocks
  erased : ∀ k ∈ p.erasedBlockId, k ∈ p₀.erasedBlockId

/-- The free blocks that are left after `n` pages, since the pool was `p₀`. -/
structure Supply (cfg : Config) (p₀ : BlockPool) (n : Nat) (p : BlockPool) : Prop where
  listed : p₀.ListsFree → p₀.nFreeBlocks ≤ p.nFreeBlocks + n
  dealt : ¬ p₀.ListsFree → ∃ opened, Dealing cfg p₀ opened n p

section Supply

variable {cfg : Config} {env : Env} {p₀ p p' p'' : BlockPool} {k cur n total : Nat} {b : Block}
  {opened : Nat → Nat}

theorem Supply.start (hindex : p₀.lastFreeBlockIndex < cfg.pageCountToMaxPerf) :
    Supply cfg p₀ 0 p₀ := by
  refine ⟨fun _ => le_rfl, fun _ => ⟨fun _ => 0, ?_, ?_, ?_, ?_, fun _ h => h, fun _ h => h⟩⟩
  · rw [turn, Nat.zero_add, Nat.mod_eq_of_lt (nextLane_lt hindex)]
  · intro l _ h
    exact absurd h (lt_irrefl 0)
  · intro l _ l' _ h
    exact absurd h (lt_irrefl 0)
  · rw [Finset.sum_const_zero, Nat.add_zero]

/-- After a full page in lane `turn n` it is the turn of the next lane. -/
theorem nextLane_turn (hone : cfg.ioUnitInPage = 1) (hlanes : 0 < cfg.pageCountToMaxPerf)
    {shift : Nat} (hiomap : p.lastFreeBlockIOMap = (Bitset.new cfg.ioUnitInPage).setAll)
    (hindex : p.lastFreeBlockIndex = turn cfg.pageCountToMaxPerf shift n) :
    p.nextLane cfg = turn cfg.pageCountToMaxPerf shift (n + 1) := by
  have hnot : ¬ (cfg.randomIOTweak = true ∧ p.lastFreeBlockIOMap.any = false) := by
    rintro ⟨-, h⟩
    rw [hiomap, hone] at h
    cases h
  rw [nextLane, if_neg hnot, hindex, turn, turn, Nat.add_right_comm]
  rcases succ_div_mod hlanes (n + shift) with ⟨hlast, -, hmod⟩ | ⟨hlast, -, hmod⟩
  · rw [if_pos hlast, hmod]
  · rw [if_neg hlast.ne, hmod]

/-- A lane has not opened more blocks than its pages need. -/
theorem Dealing.opened_le (hpages : 0 < cfg.pagesInBlock) (h : Dealing cfg p₀ opened n p) {l : Nat}
    (hl : l < cfg.pageCountToMaxPerf) :
    opened l ≤ (uses cfg.pageCountToMaxPerf (p₀.nextLane cfg) l n + cfg.pagesInBlock - 1) /
      cfg.pagesInBlock := by
  rcases Nat.eq_zero_or_pos (opened l) with hzero | hpos
  · rw [hzero]
    exact Nat.zero_le _
  · obtain ⟨k, m, -, -, -, hm, hle⟩ := h.lanes l hl hpos
    rw [Nat.le_div_iff_mul_le hpages, Nat.mul_comm]
    omega

/-- A lane that needs a block has opened one for each `pagesInBlock` of its pages. -/
theorem Dealing.opened_full (h : Dealing cfg p₀ opened n p) {l : Nat}
    (hl : l < cfg.pageCountToMaxPerf) (hcur : p.lastFreeBlock[l]? = some cur)
    (hneeds : cur ∈ p.erasedBlockId ∨ p.nextPage cur = some cfg.pagesInBlock) :
    cfg.pagesInBlock * opened l ≤ uses cfg.pageCountToMaxPerf (p₀.nextLane cfg) l n := by
  rcases Nat.eq_zero_or_pos (opened l) with hzero | hpos
  · rw [hzero, Nat.mul_zero]
    exact Nat.zero_le _
  · obtain ⟨k, m, hk, hnot, hm, -, hle⟩ := h.lanes l hl hpos
    rw [hcur] at hk
    cases hk
    rcases hneeds with hlisted | hfull
    · exact absurd hlisted hnot
    · rw [hm] at hfull
      cases hfull
      omega

/-- The blocks that the next page calls for, with those opened so far. -/
theorem Dealing.sum_succ_le (hpages : 0 < cfg.pagesInBlock) (h : Dealing cfg p₀ opened n p)
    (hindex : p.lastFreeBlockIndex < cfg.pageCountToMaxPerf)
    (hcur : p.lastFreeBlock[p.nextLane cfg]? = some cur)
    (hneeds : cur ∈ p.erasedBlockId ∨ p.nextPage cur = some cfg.pagesInBlock) :
    (Finset.range cfg.pageCountToMaxPerf).sum opened + 1 ≤
      renewals cfg.pageCountToMaxPerf cfg.pagesInBlock (n + 1) +
        min (n + 1) cfg.pageCountToMaxPerf := by
  have hlane := nextLane_lt hindex
  have hfull := h.opened_full hlane hcur hneeds
  have hsum : (Finset.range cfg.pageCountToMaxPerf).sum
      (Function.update opened (p.nextLane cfg) (opened (p.nextLane cfg) + 1)) =
        (Finset.range cfg.pageCountToMaxPerf).sum opened + 1 := by
    rw [Finset.sum_update_of_mem (Finset.mem_range.mpr hlane), Finset.sdiff_singleton_eq_erase,
      ← Finset.add_sum_erase _ opened (Finset.mem_range.mpr hlane)]
    omega
  rw [← hsum, ← sum_uses_div (Nat.zero_lt_of_lt hlane) hpages (p₀.nextLane cfg)]
  refine Finset.sum_le_sum fun l hl => ?_
  rw [uses_succ, ← h.next]
  by_cases hll : l = p.nextLane cfg
  · subst hll
    rw [Function.update_self, if_pos rfl, Nat.le_div_iff_mul_le hpages, Nat.mul_comm, Nat.mul_succ]
    omega
  · rw [Function.update_of_ne hll, if_neg (Ne.symm hll)]
    exact h.opened_le hpages (Finset.mem_range.mp hl)

/-- A page goes to the block that is open in the next lane. -/
theorem Dealing.keep (hone : cfg.ioUnitInPage = 1) (hlanes : p.LanesUsable cfg)
    (h : Dealing cfg p₀ opened n p) (hcur : p.lastFreeBlock[p.nextLane cfg]? = some cur)
    (ha : (p.chooseLane cfg).Advances cur p') : Dealing cfg p₀ opened (n + 1) p' := by
  have hlane := nextLane_lt hlanes.index
  have hsame : p'.lastFreeBlock = p.lastFreeBlock := ha.lanes
  refine ⟨?_, fun l hl hpos => ?_, ?_, ?_, ?_, ?_⟩
  · exact nextLane_turn hone (Nat.zero_lt_of_lt hlane) ha.iomap (ha.index.trans h.next)
  · obtain ⟨k, m, hk, hnot, hm, hm0, hle⟩ := h.lanes l hl hpos
    have huses := @uses_succ cfg.pageCountToMaxPerf (p₀.nextLane cfg) l n
    rw [← h.next] at huses
    have hm' : (p.chooseLane cfg).nextPage k = some m := hm
    rw [hsame, ha.erased]
    by_cases hkc : k = cur
    · -- the lane's own turn
      have hturn : l = p.nextLane cfg := by
        refine h.distinct l hl _ hlane hpos ?_
        rw [hk, hcur, hkc]
      refine ⟨k, m + 1, hk, hnot, ?_, m.succ_pos, ?_⟩
      · rw [ha.next, if_pos hkc, ← hkc, hm']
        rfl
      · rw [if_pos hturn.symm] at huses
        omega
    · refine ⟨k, m, hk, hnot, ?_, hm0, ?_⟩
      · rw [ha.next, if_neg hkc]
        exact hm
      · rw [huses]
        omega
  · rw [hsame]
    exact h.distinct
  · rw [ha.count]
    exact h.count
  · rw [ha.free]
    exact h.free
  · rw [ha.erased]
    exact h.erased

/-- A page goes to a free block that the next lane opens. -/
theorem Dealing.opens (hone : cfg.ioUnitInPage = 1) (hwf : p.WellFormed cfg)
    (hlanes : p.LanesUsable cfg) (hunlisted : ¬ p₀.ListsFree) (h : Dealing cfg p₀ opened n p)
    (hcur : p.lastFreeBlock[p.nextLane cfg]? = some cur)
    (hneeds : cur ∈ p.erasedBlockId ∨ p.nextPage cur = some cfg.pagesInBlock)
    (hfree : 0 < p.nFreeBlocks) (ho : p.Opens cfg cur b p') (ha : p'.Advances b.idx p'') :
    Dealing cfg p₀ (Function.update opened (p.nextLane cfg) (opened (p.nextLane cfg) + 1)) (n + 1)
      p'' := by
  have hlane := nextLane_lt hlanes.index
  have hmem : b ∈ p.freeBlocks := ho.takes.free.mem_iff.mpr List.mem_cons_self
  have hnot : b.idx ∉ p.erasedBlockId := fun hlisted =>
    hunlisted ⟨b, h.free b hmem, h.erased _ hlisted⟩
  have herased : ∀ k ∈ p''.erasedBlockId, k ∈ p.erasedBlockId := by
    intro k hk
    rw [ha.erased, ho.erased] at hk
    exact (List.mem_filter.mp hk).1
  have hfull := h.opened_full hlane hcur hneeds
  -- no lane has pointed to the block that is opened
  have hnew : ∀ l : Nat, p.lastFreeBlock[l]? ≠ some b.idx := by
    intro l hl
    rcases hlanes.usable l _ hl with hused | ⟨hlisted, -⟩
    · exact ho.takes.fresh hused
    · exact hnot hlisted
  have hself : p''.lastFreeBlock[p.nextLane cfg]? = some b.idx := by
    rw [ha.lanes]
    exact ho.lane_self hlanes
  have hother : ∀ l, l ≠ p.nextLane cfg → p''.lastFreeBlock[l]? = p.lastFreeBlock[l]? := by
    intro l hl
    rw [ha.lanes]
    exact ho.lane_other hl
  refine ⟨?_, fun l hl hpos => ?_, fun l hl l' hl' hpos heq => ?_, ?_, ?_, ?_⟩
  · refine nextLane_turn hone (Nat.zero_lt_of_lt hlane) ?_ (ha.index.trans (ho.index.trans h.next))
    exact ha.iomap.trans ho.takes.iomap
  · have huses := @uses_succ cfg.pageCountToMaxPerf (p₀.nextLane cfg) l n
    rw [← h.next] at huses
    by_cases hll : l = p.nextLane cfg
    · subst hll
      rw [if_pos rfl] at huses
      refine ⟨b.idx, 1, hself, fun hk => hnot (herased _ hk), ?_, Nat.one_pos, ?_⟩
      · rw [ha.next, if_pos rfl, ho.next hwf, if_pos rfl]
        rfl
      · rw [Function.update_self, huses, Nat.mul_succ]
        omega
    · rw [Function.update_of_ne hll] at hpos ⊢
      obtain ⟨k, m, hk, hknot, hm, hm0, hle⟩ := h.lanes l hl hpos
      have hkb : k ≠ b.idx := by
        rintro rfl
        exact hnew l hk
      refine ⟨k, m, (hother l hll).trans hk, fun hk => hknot (herased _ hk), ?_, hm0, ?_⟩
      · rw [ha.next, if_neg hkb, ho.next hwf, if_neg hkb]
        exact hm
      · rw [huses]
        omega
  · by_cases hll : l = p.nextLane cfg
    · by_cases hll' : l' = p.nextLane cfg
      · rw [hll, hll']
      · rw [hll, hself, hother l' hll'] at heq
        exact absurd heq.symm (hnew l')
    · rw [Function.update_of_ne hll] at hpos
      by_cases hll' : l' = p.nextLane cfg
      · rw [hll', hself, hother l hll] at heq
        exact absurd heq (hnew l)
      · rw [hother l hll, hother l' hll'] at heq
        exact h.distinct l hl l' hl' hpos heq
  · have hcount := h.count
    have htaken := ho.takes.count
    rw [Finset.sum_update_of_mem (Finset.mem_range.mpr hlane), ha.count]
    rw [← Finset.add_sum_erase _ _ (Finset.mem_range.mpr hlane), ← Finset.sdiff_singleton_eq_erase]
      at hcount
    rw [htaken]
    show p.nFreeBlocks - 1 + _ = _
    omega
  · intro c hc
    rw [ha.free] at hc
    exact h.free c (ho.takes.free.mem_iff.mpr (List.mem_cons_of_mem _ hc))
  · exact fun k hk => h.erased k (herased k hk)

/-- As long as the free blocks are enough for all pages, `getLastFreeBlock` returns a
block with a page left. -/
theorem Supply.getLastFreeBlock (env : Env) (hone : cfg.ioUnitInPage = 1)
    (hpages : 0 < cfg.pagesInBlock) (hwf : p.WellFormed cfg) (hlanes : p.LanesUsable cfg)
    (h : Supply cfg p₀ n p) (henough : p₀.blocksFor cfg total ≤ p₀.nFreeBlocks) (hn : n < total) :
    ∃ k p', p.getLastFreeBlock cfg env (Bitset.new cfg.ioUnitInPage).setAll = .ok (k, p') ∧
      (∃ m < cfg.pagesInBlock, p'.nextPage k = some m) ∧
      (∀ j m, p.nextPage j = some m → p'.nextPage j = some m) ∧
      ∀ p'', p'.Advances k p'' → p''.LanesUsable cfg ∧ Supply cfg p₀ (n + 1) p'' := by
  have hlane := nextLane_lt hlanes.index
  obtain ⟨cur, hcur, ⟨-, hroom, hget⟩ | ⟨hneeds, hget⟩⟩ :=
    getLastFreeBlock_cases env hwf hlanes hone hpages
  · refine ⟨cur, p.chooseLane cfg, hget, hroom, fun _ _ h => h, fun p'' ha => ?_⟩
    refine ⟨hlanes.chooseLane.advances ha, fun hlisted => ?_, fun hunlisted => ?_⟩
    · have hcount : p''.nFreeBlocks = p.nFreeBlocks := ha.count
      have hle := h.listed hlisted
      omega
    · obtain ⟨opened, hdeal⟩ := h.dealt hunlisted
      exact ⟨opened, hdeal.keep hone hlanes hcur ha⟩
  · -- the free blocks that are left
    have hfree : 0 < p.nFreeBlocks := by
      rw [blocksFor] at henough
      split at henough
      · next hlisted =>
        have hle := h.listed hlisted
        omega
      · next hunlisted =>
        obtain ⟨opened, hdeal⟩ := h.dealt hunlisted
        have hlanes' := Nat.zero_lt_of_lt hlane
        have hsum := hdeal.sum_succ_le hpages hlanes.index hcur hneeds
        have hall := renewals_add_min hlanes' hpages total
        have hmono : renewals cfg.pageCountToMaxPerf cfg.pagesInBlock (n + 1) ≤
            renewals cfg.pageCountToMaxPerf cfg.pagesInBlock total := renewals_mono hn
        have hcount := hdeal.count
        omega
    obtain ⟨b, p', hget, ho⟩ := hget hfree
    refine ⟨b.idx, p', hget, ⟨0, hpages, ?_⟩, fun j m hj => ?_, fun p'' ha => ?_⟩
    · rw [ho.next hwf, if_pos rfl]
    · rw [ho.next hwf, if_neg]
      · exact hj
      · rintro rfl
        exact ho.takes.fresh (mem_blocks_iff.mpr ⟨m, hj⟩)
    · refine ⟨(hlanes.opens hcur ho).advances ha, fun hlisted => ?_, fun hunlisted => ?_⟩
      · have hcount : p''.nFreeBlocks = p.nFreeBlocks - 1 := ha.count.trans ho.takes.count
        have hle := h.listed hlisted
        omega
      · obtain ⟨opened, hdeal⟩ := h.dealt hunlisted
        exact ⟨_, hdeal.opens hone hwf hlanes hunlisted hcur hneeds hfree ho ha⟩

end Supply

end BlockPool

end SimpleSSD.FTL
