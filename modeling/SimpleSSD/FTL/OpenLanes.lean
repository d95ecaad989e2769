import SimpleSSD.FTL.Partition

/-!
# The open block of each lane

Each lane has one block of its own open for writing (`Open`), and no two lanes
share one. As long as `erased_block_id` is empty and the free list lasts,
`getLastFreeBlock` never stops: it goes to the next lane and opens a free block
there if the lane's block is full (`getLastFreeBlock_open`).
-/

namespace SimpleSSD.FTL

/-- The columns that the unit loops use stand at page `c`, the others at the first. -/
def Block.StandsAt (cfg : Config) (c : Nat) (b : Block) : Prop :=
  ∀ i < cfg.ioUnitInPage, b.pNextWritePageIndex i = if i < cfg.bitsetSize then c else 0

/-- The furthest column is one that the unit loops use. -/
theorem Block.StandsAt.getNextWritePageIndex {cfg : Config} {c : Nat} {b : Block}
    (h : b.StandsAt cfg c) (hunits : b.ioUnitInPage = cfg.ioUnitInPage)
    (hpos : 0 < cfg.ioUnitInPage) : b.getNextWritePageIndex = c := by
  refine le_antisymm (Finset.sup_le fun i hi => ?_) ?_
  · rw [Finset.mem_range, hunits] at hi
    rw [h i hi]
    split
    · exact le_rfl
    · exact Nat.zero_le _
  · have hfirst :=
      Block.next_le_getNextWritePageIndex (b := b) (i := 0) (by rw [hunits]; exact hpos)
    rwa [h 0 hpos, if_pos (Config.bitsetSize_pos hpos)] at hfirst

namespace BlockPool

/-- The lanes below `n` have a block of their own open, that of lane `l` with its
columns at page `fill l`. -/
structure Open (cfg : Config) (n : Nat) (fill : Nat → Nat) (p : BlockPool) : Prop where
  length : p.lastFreeBlock.length = cfg.pageCountToMaxPerf
  block : ∀ l < n, ∃ k b, p.lastFreeBlock[l]? = some k ∧ p.blocks.find? k = some b ∧
    b.StandsAt cfg (fill l)
  distinct : ∀ l < n, ∀ l' < n, p.lastFreeBlock[l]? = p.lastFreeBlock[l']? → l = l'

/-- The lane that `selectLane` chooses for a request of all units. -/
def nextLane (cfg : Config) (p : BlockPool) : Nat :=
  if cfg.randomIOTweak ∧ p.lastFreeBlockIOMap.any = false then p.lastFreeBlockIndex
  else if p.lastFreeBlockIndex + 1 = cfg.pageCountToMaxPerf then 0 else p.lastFreeBlockIndex + 1

section Open

variable {cfg : Config} {env : Env} {p p' : BlockPool} {n l : Nat} {fill : Nat → Nat}

/-- Only the blocks and the open blocks matter. -/
theorem Open.congr (hp : p.Open cfg n fill) (hb : p'.blocks = p.blocks)
    (hl : p'.lastFreeBlock = p.lastFreeBlock) : p'.Open cfg n fill := by
  refine ⟨?_, ?_, ?_⟩
  · rw [hl]
    exact hp.length
  · rw [hb, hl]
    exact hp.block
  · rw [hl]
    exact hp.distinct

theorem Open.touch (cfg : Config) (n : Nat) (fill : Nat → Nat) : TouchClosed (Open cfg n fill) := by
  intro p k b b' hp hb ha
  refine ⟨hp.length, fun l hl => ?_, hp.distinct⟩
  obtain ⟨k', c, hk', hc, hfill⟩ := hp.block l hl
  by_cases hk : k' = k
  · subst hk
    rw [hb] at hc
    cases hc
    refine ⟨k', b', hk', ?_, fun i hi => ?_⟩
    · rw [putBlock, UnorderedMap.find?_set, if_pos rfl]
    · rw [ha.2]
      exact hfill i hi
  · refine ⟨k', c, hk', ?_, hfill⟩
    rw [putBlock, UnorderedMap.find?_set, if_neg hk]
    exact hc

/-- A free block becomes the open block of lane `l`. -/
theorem Open.takes {m : Nat} {b : Block} (hp : p.Open cfg m fill) (hf : p.Formatted cfg)
    (ht : p.Takes p' b) (hset : p'.lastFreeBlock = p.lastFreeBlock.set l b.idx)
    (hl : l < cfg.pageCountToMaxPerf) (hm : ∀ l' < n, l' ≠ l → l' < m) :
    p'.Open cfg n (Function.update fill l 0) := by
  have hself : p'.lastFreeBlock[l]? = some b.idx := by
    rw [hset, List.getElem?_set_self (by rw [hp.length]; exact hl)]
  have hother : ∀ l', l' ≠ l → p'.lastFreeBlock[l']? = p.lastFreeBlock[l']? := by
    intro l' hl'
    rw [hset, List.getElem?_set_ne (Ne.symm hl')]
  -- a block that a lane has open is in use, so it is not the one taken
  have hfresh : ∀ l' < m, p.lastFreeBlock[l']? ≠ some b.idx := by
    intro l' hl' heq
    obtain ⟨k, c, hk, hc, -⟩ := hp.block l' hl'
    rw [hk] at heq
    cases heq
    exact ht.fresh (UnorderedMap.mem_of_find? hc)
  refine ⟨by rw [hset, List.length_set, hp.length], fun l' hl' => ?_, fun l₁ h₁ l₂ h₂ heq => ?_⟩
  · by_cases hll : l' = l
    · subst hll
      refine ⟨b.idx, b, hself, by rw [ht.find?, if_pos rfl], fun i _ => ?_⟩
      rw [(hf.free b (ht.free.mem_iff.mpr List.mem_cons_self)).2.2.2 i, Function.update_self]
      split <;> rfl
    · obtain ⟨k, c, hk, hc, hfill⟩ := hp.block l' (hm l' hl' hll)
      have hne : k ≠ b.idx := by
        rintro rfl
        exact hfresh l' (hm l' hl' hll) hk
      refine ⟨k, c, by rw [hother l' hll, hk], by rw [ht.find?, if_neg hne, hc], ?_⟩
      rw [Function.update_of_ne hll]
      exact hfill
  · by_cases hl₁ : l₁ = l
    · by_cases hl₂ : l₂ = l
      · rw [hl₁, hl₂]
      · rw [hl₁, hself, hother l₂ hl₂] at heq
        exact absurd heq.symm (hfresh l₂ (hm l₂ h₂ hl₂))
    · by_cases hl₂ : l₂ = l
      · rw [hl₂, hself, hother l₁ hl₁] at heq
        exact absurd heq (hfresh l₁ (hm l₁ h₁ hl₁))
      · rw [hother l₁ hl₁, hother l₂ hl₂] at heq
        exact hp.distinct l₁ (hm l₁ h₁ hl₁) l₂ (hm l₂ h₂ hl₂) heq

/-! ### When a block can be opened -/

/-- The panic of `getFreeBlock` on an empty free list. -/
def noFreeBlock : Fault := .panic "getFreeBlock" "No free block left"

/-- `getFreeBlock` returns as long as a block is free. -/
theorem Partitioned.getFreeBlock_ok (env : Env) (hp : p.Partitioned cfg)
    (hl : l < cfg.pageCountToMaxPerf)
    (hfree : 0 < p.nFreeBlocks) : ∃ r, p.getFreeBlock cfg env l = .ok r := by
  rw [hp.count] at hfree
  have hpos : (p.freeBlocks.findIdx? fun b => b.idx % cfg.pageCountToMaxPerf = l).getD 0 <
      p.freeBlocks.length := by
    cases hfind : p.freeBlocks.findIdx? fun b => b.idx % cfg.pageCountToMaxPerf = l with
    | none => exact hfree
    | some i => exact (List.findIdx?_eq_some_iff_getElem.mp hfind).1
  obtain ⟨b, hb⟩ : ∃ b, p.freeBlocks[(p.freeBlocks.findIdx? fun b =>
      b.idx % cfg.pageCountToMaxPerf = l).getD 0]? = some b :=
    ⟨_, List.getElem?_eq_getElem hpos⟩
  rw [BlockPool.getFreeBlock, if_neg (Nat.not_le_of_lt hl), if_neg (by rw [hp.count]; omega)]
  simp only [hb, if_neg (hp.free_fresh (List.mem_of_getElem? hb))]
  exact ⟨_, rfl⟩

theorem getFreeBlock_empty (hl : l < cfg.pageCountToMaxPerf) (hfree : p.nFreeBlocks = 0) :
    p.getFreeBlock cfg env l = .error noFreeBlock := by
  rw [getFreeBlock, if_neg (Nat.not_le_of_lt hl), if_pos hfree]
  rfl

/-! ### The next block for a full page -/

theorem nextLane_lt (hlanes : p.lastFreeBlockIndex < cfg.pageCountToMaxPerf) :
    p.nextLane cfg < cfg.pageCountToMaxPerf := by
  unfold nextLane
  split
  · exact hlanes
  · split <;> omega

/-- A request of all units goes to the next lane. -/
theorem selectLane_all (hsize : p.lastFreeBlockIOMap.dataSize = cfg.ioUnitInPage) :
    p.selectLane cfg (Bitset.new cfg.ioUnitInPage).setAll =
      .ok { p with
        lastFreeBlockIndex := p.nextLane cfg
        lastFreeBlockIOMap := (Bitset.new cfg.ioUnitInPage).setAll } := by
  have hsize' : ¬ p.lastFreeBlockIOMap.dataSize ≠ (Bitset.new cfg.ioUnitInPage).setAll.dataSize :=
    not_not.mpr hsize
  have hsub : p.lastFreeBlockIOMap.bits ⊆ Finset.range cfg.ioUnitInPage := by
    intro i hi
    rw [Finset.mem_range, ← hsize]
    exact p.lastFreeBlockIOMap.bits_lt i hi
  rw [selectLane, nextLane]
  cases htweak : cfg.randomIOTweak with
  | false => simp
  | true =>
    -- the units that the open superpage has served are among those of the request
    have hcommon : p.lastFreeBlockIOMap.bits ∩ Finset.range cfg.ioUnitInPage =
        p.lastFreeBlockIOMap.bits := Finset.inter_eq_left.mpr hsub
    have hand : p.lastFreeBlockIOMap.and (Bitset.new cfg.ioUnitInPage).setAll =
        .ok p.lastFreeBlockIOMap := by
      rw [Bitset.and, if_neg hsize']
      exact congrArg Except.ok (by
        cases hmap : p.lastFreeBlockIOMap with
        | mk size bits hlt =>
          rw [hmap] at hcommon
          simp only [Bitset.setAll, Bitset.new, hcommon])
    rw [if_pos rfl, hand, Except.ok_bind]
    cases hany : p.lastFreeBlockIOMap.any with
    | true => simp
    | false =>
      have hempty : p.lastFreeBlockIOMap.bits = ∅ := by simpa [Bitset.any] using hany
      have hor : p.lastFreeBlockIOMap.or (Bitset.new cfg.ioUnitInPage).setAll =
          .ok (Bitset.new cfg.ioUnitInPage).setAll := by
        rw [Bitset.or, dif_neg hsize']
        simp only [hempty, Finset.empty_union, hsize]
        rfl
      rw [if_neg (by simp), hor, Except.ok_bind]
      simp

/-- The pool has lanes open as `fill` says, no block waits to be replaced because it
was erased, and the map of the units that the open superpage has served fits. -/
structure Streaming (cfg : Config) (fill : Nat → Nat) (p : BlockPool) : Prop where
  partitioned : p.Partitioned cfg
  formatted : p.Formatted cfg
  lanes : p.Open cfg cfg.pageCountToMaxPerf fill
  erased : p.erasedBlockId = []
  iomap : p.lastFreeBlockIOMap.dataSize = cfg.ioUnitInPage
  index : p.lastFreeBlockIndex < cfg.pageCountToMaxPerf

/-- The fill of the lanes when lane `l` is about to take a page. -/
def renew (cfg : Config) (fill : Nat → Nat) (l : Nat) : Nat → Nat :=
  if fill l = cfg.pagesInBlock then Function.update fill l 0 else fill

/-- What `getLastFreeBlock` does with a request of all units: lane `l` is ready to
take it in block `k`. -/
structure Ready (cfg : Config) (fill : Nat → Nat) (p : BlockPool) (k : Nat) (p' : BlockPool) :
    Prop where
  streaming : p'.Streaming cfg (renew cfg fill (p.nextLane cfg))
  block : p'.lastFreeBlock[p.nextLane cfg]? = some k
  index : p'.lastFreeBlockIndex = p.nextLane cfg
  iomap : p'.lastFreeBlockIOMap = (Bitset.new cfg.ioUnitInPage).setAll
  free :
    p'.nFreeBlocks + (if fill (p.nextLane cfg) = cfg.pagesInBlock then 1 else 0) = p.nFreeBlocks

/-- `getLastFreeBlock` stops only if the lane's block is full and no block is free. -/
theorem Streaming.getLastFreeBlock (env : Env) (hp : p.Streaming cfg fill)
    (hunits : 0 < cfg.ioUnitInPage) :
    (fill (p.nextLane cfg) = cfg.pagesInBlock ∧ p.nFreeBlocks = 0 ∧
      p.getLastFreeBlock cfg env (Bitset.new cfg.ioUnitInPage).setAll = .error noFreeBlock) ∨
    ∃ k p', p.getLastFreeBlock cfg env (Bitset.new cfg.ioUnitInPage).setAll = .ok (k, p') ∧
      Ready cfg fill p k p' := by
  have hl := nextLane_lt hp.index
  rw [BlockPool.getLastFreeBlock, selectLane_all hp.iomap, Except.ok_bind]
  generalize hq : ({ p with
    lastFreeBlockIndex := p.nextLane cfg
    lastFreeBlockIOMap := (Bitset.new cfg.ioUnitInPage).setAll } : BlockPool) = q
  have hlast : q.lastFreeBlock = p.lastFreeBlock := by rw [← hq]
  have hindex : q.lastFreeBlockIndex = p.nextLane cfg := by rw [← hq]
  have hiomap : q.lastFreeBlockIOMap = (Bitset.new cfg.ioUnitInPage).setAll := by rw [← hq]
  have hcount : q.nFreeBlocks = p.nFreeBlocks := by rw [← hq]
  have hstream : q.Streaming cfg fill := by
    subst hq
    exact ⟨hp.partitioned.congr rfl rfl rfl rfl, hp.formatted.congr rfl rfl, hp.lanes.congr rfl rfl,
      hp.erased, rfl, hl⟩
  obtain ⟨k, b, hk, hb, hfill⟩ := hstream.lanes.block _ hl
  have hat : q.lastFreeBlockAt q.lastFreeBlockIndex = .ok k := by
    rw [lastFreeBlockAt, hindex, hk]
  have hkeep : q.replaceErased cfg env = .ok q := by
    rw [replaceErased, hat, Except.ok_bind, hstream.erased, if_neg List.not_mem_nil]
  have hnext := hfill.getNextWritePageIndex (hstream.formatted.used k b hb).2 hunits
  rw [hkeep, Except.ok_bind, replaceFull, hat, Except.ok_bind]
  simp only [hb, hnext]
  by_cases hfull : fill (p.nextLane cfg) = cfg.pagesInBlock
  · rw [if_pos hfull, openBlock, hindex]
    rcases Nat.eq_zero_or_pos p.nFreeBlocks with hnone | hsome
    · refine .inl ⟨hfull, hnone, ?_⟩
      rw [getFreeBlock_empty hl (hcount.trans hnone)]
      rfl
    · obtain ⟨⟨k', r⟩, hget⟩ := hstream.partitioned.getFreeBlock_ok env hl
        (by rw [hcount]; exact hsome)
      obtain ⟨c, rfl, ht, hlast', hindex', herased'⟩ := getFreeBlock_spec hget
      generalize hr : ({ r with
        lastFreeBlock := r.lastFreeBlock.set r.lastFreeBlockIndex c.idx
        bReclaimMore := true } : BlockPool) = r'
      have ht' : q.Takes r' c := by
        subst hr
        exact ⟨ht.free, ht.fresh, ht.used, ht.count, ht.retired, ht.iomap⟩
      have hset : r'.lastFreeBlock = q.lastFreeBlock.set (p.nextLane cfg) c.idx := by
        rw [← hr, ← hlast', ← hindex, ← hindex']
      have hopen := hstream.lanes.takes hstream.formatted ht' hset hl fun l' hl' _ => hl'
      have hcount' := ht'.count
      refine .inr ⟨c.idx, r', by rw [hget, ← hr]; rfl, ?_⟩
      refine ⟨⟨hstream.partitioned.takes ht', hstream.formatted.takes ht', ?_, ?_, ?_, ?_⟩, ?_, ?_,
        ?_, ?_⟩
      · rw [renew, if_pos hfull]
        exact hopen
      · rw [← hr]
        exact herased'.trans hstream.erased
      · rw [ht'.iomap]
        exact hstream.iomap
      · rw [← hr]
        exact (hindex'.trans hindex).trans_lt hl
      · rw [hset, List.getElem?_set_self (by rw [hstream.lanes.length]; exact hl)]
      · rw [← hr]
        exact hindex'.trans hindex
      · rw [ht'.iomap, hiomap]
      · rw [if_pos hfull]
        omega
  · rw [if_neg hfull]
    refine .inr ⟨k, q, rfl, ?_, by rw [← hk], hindex, hiomap, by rw [if_neg hfull, hcount]; rfl⟩
    rw [renew, if_neg hfull]
    exact hstream

/-! ### The constructor -/

/-- The constructor after it has opened the lanes below `i`. -/
structure Constructed (cfg : Config) (i : Nat) (p : BlockPool) : Prop where
  partitioned : p.Partitioned cfg
  formatted : p.Formatted cfg
  lanes : p.Open cfg i fun _ => 0
  erased : p.erasedBlockId = []
  iomap : p.lastFreeBlockIOMap = Bitset.new cfg.ioUnitInPage
  index : p.lastFreeBlockIndex = 0
  free : p.nFreeBlocks + i = cfg.totalPhysicalBlocks

/-- The constructor returns when there are more blocks than lanes. -/
theorem init_constructed (env : Env) (hunits : 0 < cfg.ioUnitInPage)
    (hblocks : cfg.pageCountToMaxPerf < cfg.totalPhysicalBlocks) :
    ∃ p, init cfg env = .ok p ∧ p.Constructed cfg cfg.pageCountToMaxPerf := by
  rw [init, if_neg fun h => hunits.ne' h.1]
  refine Run.foldlM_range_ok (I := Constructed cfg) (fun i q hi hq => ?_) ?_
  · have hfree := hq.free
    obtain ⟨⟨k, r⟩, hget⟩ := hq.partitioned.getFreeBlock_ok env hi (by omega)
    obtain ⟨b, rfl, ht, hlast, hindex, herased⟩ := getFreeBlock_spec hget
    generalize hr : ({ r with lastFreeBlock := r.lastFreeBlock.set i b.idx } : BlockPool) = r'
    have ht' : q.Takes r' b := by
      subst hr
      exact ⟨ht.free, ht.fresh, ht.used, ht.count, ht.retired, ht.iomap⟩
    have hset : r'.lastFreeBlock = q.lastFreeBlock.set i b.idx := by rw [← hr, ← hlast]
    refine ⟨r', by rw [openLane, hget, ← hr]; rfl, hq.partitioned.takes ht', hq.formatted.takes ht',
      ?_, ?_, ht'.iomap.trans hq.iomap, ?_, ?_⟩
    · have hopen := hq.lanes.takes (n := i + 1) hq.formatted ht' hset hi fun l' hl' hne => by omega
      rwa [Function.update_eq_self] at hopen
    · rw [← hr]
      exact herased.trans hq.erased
    · rw [← hr]
      exact hindex.trans hq.index
    · rw [ht'.count]
      omega
  · exact ⟨partitioned_fresh cfg, formatted_fresh cfg,
      ⟨List.length_replicate, fun l hl => absurd hl l.not_lt_zero,
        fun l hl => absurd hl l.not_lt_zero⟩,
      rfl, rfl, rfl, rfl⟩

end Open

end BlockPool

end SimpleSSD.FTL
