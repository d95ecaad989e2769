import SimpleSSD.FTL.Bijection
import SimpleSSD.FTL.Supply

/-!
# Collections in default mode lose no page

Outside `cachedGC` mode, a collection of full blocks whose pages the mapping names
returns when the free blocks are enough for the valid pages (`blocksFor`): every
page that was mapped into a victim is then mapped to a valid page of another block,
the rest of the mapping is as before, and the victims are free or retired
(`doGarbageCollection_preserves`). No destination is a victim, since a victim is
full and `getLastFreeBlock` hands out blocks with a page left.

`iclCount` beyond `SimlationIORequests` turns collections off.
-/

namespace SimpleSSD.FTL

namespace BlockPool

/-- The pages of the blocks that validly store a logical page. -/
def validPages (cfg : Config) (p : BlockPool) (victims : List Nat) : Nat :=
  (victims.map fun v =>
    ((Finset.range cfg.pagesInBlock).filter fun i => (p.content (v, i)).isSome = true).card).sum

section Count

variable {cfg : Config} {p p' : BlockPool} {victims : List Nat} {v i : Nat}

theorem sum_map_update {f f' : Nat → Nat} (hnodup : victims.Nodup) (hv : v ∈ victims)
    (hself : f' v + 1 = f v) (hother : ∀ u, u ≠ v → f' u = f u) :
    (victims.map f').sum + 1 = (victims.map f).sum := by
  induction victims with
  | nil => cases hv
  | cons u victims ih =>
    rw [List.nodup_cons] at hnodup
    rw [List.map_cons, List.map_cons, List.sum_cons, List.sum_cons]
    rcases List.mem_cons.mp hv with rfl | hv
    · have hrest : victims.map f' = victims.map f := by
        refine List.map_congr_left fun u hu => hother u ?_
        rintro rfl
        exact hnodup.1 hu
      rw [hrest]
      omega
    · have hne : u ≠ v := by
        rintro rfl
        exact hnodup.1 hv
      have hsum := ih hnodup.2 hv
      rw [hother u hne]
      omega

/-- A valid page goes from a victim to a block that is none. -/
theorem validPages_move {new : Nat × Nat} {lpn : Nat} (hnodup : victims.Nodup) (hv : v ∈ victims)
    (hi : i < cfg.pagesInBlock) (hvalid : (p.content (v, i)).isSome = true) (hnew : new.1 ∉ victims)
    (hcontent : p'.content =
      Function.update (Function.update p.content (v, i) none) new (some lpn)) :
    validPages cfg p' victims + 1 = validPages cfg p victims := by
  have hsame : ∀ u ∈ victims, ∀ j, (u, j) ≠ (v, i) → p'.content (u, j) = p.content (u, j) := by
    intro u hu j hne
    rw [hcontent, Function.update_of_ne, Function.update_of_ne hne]
    rintro rfl
    exact hnew hu
  have hcard : ∀ u ∈ victims, u ≠ v →
      ((Finset.range cfg.pagesInBlock).filter fun j => (p'.content (u, j)).isSome = true) =
        (Finset.range cfg.pagesInBlock).filter fun j => (p.content (u, j)).isSome = true := by
    intro u hu hne
    refine Finset.filter_congr fun j _ => ?_
    rw [hsame u hu j fun h => hne (congrArg Prod.fst h)]
  have hself : ((Finset.range cfg.pagesInBlock).filter fun j => (p'.content (v, j)).isSome = true) =
      ((Finset.range cfg.pagesInBlock).filter fun j =>
        (p.content (v, j)).isSome = true).erase i := by
    ext j
    rw [Finset.mem_erase, Finset.mem_filter, Finset.mem_filter]
    by_cases hj : j = i
    · subst hj
      have hne : (v, j) ≠ new := by
        rintro rfl
        exact hnew hv
      rw [hcontent, Function.update_of_ne hne, Function.update_self]
      simp
    · rw [hsame v hv j fun h => hj (congrArg Prod.snd h)]
      simp [hj]
  -- a function that agrees with the counts on the victims
  have hmap : validPages cfg p' victims = (victims.map fun u =>
      if u = v then ((Finset.range cfg.pagesInBlock).filter fun j =>
        (p.content (v, j)).isSome = true).card - 1
      else ((Finset.range cfg.pagesInBlock).filter fun j =>
        (p.content (u, j)).isSome = true).card).sum := by
    refine congrArg List.sum (List.map_congr_left fun u hu => ?_)
    by_cases huv : u = v
    · subst huv
      rw [if_pos rfl, hself, Finset.card_erase_of_mem]
      exact Finset.mem_filter.mpr ⟨Finset.mem_range.mpr hi, hvalid⟩
    · rw [if_neg huv, hcard u hu huv]
  have hpos : 0 < ((Finset.range cfg.pagesInBlock).filter fun j =>
      (p.content (v, j)).isSome = true).card :=
    Finset.card_pos.mpr ⟨i, Finset.mem_filter.mpr ⟨Finset.mem_range.mpr hi, hvalid⟩⟩
  rw [hmap]
  refine sum_map_update hnodup hv ?_ fun u hu => if_neg hu
  rw [if_pos rfl]
  omega

/-- A victim with a valid page is counted. -/
theorem validPages_pos (hv : v ∈ victims) (hi : i < cfg.pagesInBlock)
    (hvalid : (p.content (v, i)).isSome = true) : 0 < validPages cfg p victims := by
  have hpos : 0 < ((Finset.range cfg.pagesInBlock).filter fun j =>
      (p.content (v, j)).isSome = true).card :=
    Finset.card_pos.mpr ⟨i, Finset.mem_filter.mpr ⟨Finset.mem_range.mpr hi, hvalid⟩⟩
  exact hpos.trans_le (List.single_le_sum (fun _ _ => Nat.zero_le _) _ (List.mem_map_of_mem hv))

end Count

end BlockPool

namespace PageMapping

section Copy

variable {cfg : Config} {env : Env} {w : World} {victim pageIndex lpn : Nat}
  {locals locals' : GcLocals} {s s' : PageMapping}

/-- The copy of a valid page returns when the allocator hands out a block with a page
left that is not the victim. -/
theorem copyPage_ok {bit : Bitset} {relocateCmt : Bool} {k m : Nat} {pool : BlockPool}
    (hone : cfg.ioUnitInPage = 1) (hbit : bit.test 0 = true) (hs : s.Mapped cfg)
    (hcontent : s.pool.content (victim, pageIndex) = some lpn)
    (hwf : pool.WellFormed cfg) (hget : s.pool.getLastFreeBlock cfg env bit = .ok (k, pool))
    (hroom : m < cfg.pagesInBlock) (hnext : pool.nextPage k = some m) (hk : k ≠ victim) :
    ∃ r, copyPage cfg env victim pageIndex [lpn] bit relocateCmt (locals, s) = .ok r := by
  obtain ⟨b, hb, hlpn⟩ := Option.bind_eq_some_iff.mp hcontent
  have hb' : pool.blocks.find? victim = some b := BlockPool.find?_getLastFreeBlock hget hb
  have htable : s.table.find? lpn = some [(victim, pageIndex)] :=
    (find?_of_lookup hone hs.shape).mp ((hs.linked _ _).mpr hcontent)
  obtain ⟨c, hc, rfl⟩ := Option.map_eq_some_iff.mp hnext
  have hc' : (pool.putBlock victim (b.invalidate pageIndex 0)).blocks.find? k = some c := by
    rw [BlockPool.putBlock, UnorderedMap.find?_set, if_neg hk]
    exact hc
  obtain ⟨hcount, hunits⟩ := hwf.used k c hc
  obtain ⟨c', hwrite⟩ : ∃ c', c.write (c.pNextWritePageIndex 0) lpn 0 = .ok c' := Block.write_next
    (by rw [hunits, hone]; exact Nat.one_pos) (by rw [hcount]; exact hroom)
  rw [copyPage]
  simp only [hget, Except.ok_bind, Config.bitsetSize_one hone]
  rw [show List.range 1 = [0] from rfl, List.foldlM_cons, copyUnit]
  simp only [hbit, if_true, BlockPool.onBlock, hb', Except.ok_bind, List.getElem?_cons_zero,
    htable, mappingAt, log_pool, hc', hwrite, List.foldlM_nil]
  exact ⟨_, rfl⟩

/-- The copy programs one page of the block that the allocator hands out. -/
theorem copyPage_advances {lpns : List Nat} {bit : Bitset} {relocateCmt : Bool}
    (hone : cfg.ioUnitInPage = 1) (hbit : bit.test 0 = true)
    (h : copyPage cfg env victim pageIndex lpns bit relocateCmt (locals, s) = .ok (locals', s')) :
    ∃ k pool, s.pool.getLastFreeBlock cfg env bit = .ok (k, pool) ∧
      (k ≠ victim → pool.Advances k s'.pool) := by
  obtain ⟨k, pool, hget, hunit⟩ := copyPage_unit hone h
  refine ⟨k, pool, hget, fun hk => ?_⟩
  obtain ⟨l, vec, v, c, c', -, -, -, hv, hc, hwrite, hpool, -⟩ := copyUnit_spec hbit hunit
  have hv : pool.blocks.find? victim = some v := hv
  have hc : (pool.putBlock victim (v.invalidate pageIndex 0)).blocks.find? k = some c := hc
  rw [BlockPool.putBlock, UnorderedMap.find?_set, if_neg hk] at hc
  obtain ⟨-, -, -, -, -, -, -, -, hstep, -⟩ := Block.write_spec hwrite
  rw [hpool]
  refine ⟨fun j => ?_, rfl, rfl, rfl, rfl, rfl, rfl⟩
  rw [BlockPool.nextPage, BlockPool.putBlock, UnorderedMap.find?_set]
  by_cases hj : j = k
  · rw [if_pos hj, if_pos hj, BlockPool.nextPage, hc, Option.map_some, hstep,
      Function.update_self]
    rfl
  · rw [if_neg hj, if_neg hj, BlockPool.putBlock, UnorderedMap.find?_set, BlockPool.nextPage]
    split
    · next hjv =>
      rw [hjv, hv]
      rfl
    · rfl

/-- A page scan of the default loop returns if the copy of a valid page does. -/
theorem reclaimPage_ok (hone : cfg.ioUnitInPage = 1) (hs : s.Mapped cfg) {b : Block}
    (hb : s.pool.blocks.find? victim = some b)
    (halloc : (pageIndex, 0) ∈ b.validBits → ∃ k pool m,
      s.pool.getLastFreeBlock cfg env (Bitset.new cfg.ioUnitInPage).setAll = .ok (k, pool) ∧
        pool.WellFormed cfg ∧ m < cfg.pagesInBlock ∧ pool.nextPage k = some m ∧ k ≠ victim) :
    ∃ r, reclaimPage cfg env victim (locals, s) pageIndex = .ok r := by
  have hunit : b.ioUnitInPage = 1 := (hs.wf.used _ _ hb).2.trans hone
  rw [reclaimPage]
  simp only [hb, getPageInfo_one hone hunit, Except.ok_bind, fullMap_any hone, if_true,
    Block.isPageValid, hunit]
  by_cases hvalid : (pageIndex, 0) ∈ b.validBits
  · obtain ⟨k, pool, m, hget, hwf, hm, hnext, hk⟩ := halloc hvalid
    rw [decide_eq_true hvalid, if_pos rfl, fullFlag_eq]
    exact copyPage_ok hone (fullMap_test hone) hs (content_of_valid hb hvalid) hwf hget hm hnext hk
  · rw [decide_eq_false hvalid, if_neg Bool.false_ne_true]
    exact ⟨_, rfl⟩

/-- What a page scan of the default loop does to the pool. -/
theorem reclaimPage_advances (hone : cfg.ioUnitInPage = 1) (hwf : s.pool.WellFormed cfg)
    (h : reclaimPage cfg env victim (locals, s) pageIndex = .ok (locals', s')) :
    ∃ b, s.pool.blocks.find? victim = some b ∧ ((pageIndex, 0) ∈ b.validBits → ∃ k pool,
      s.pool.getLastFreeBlock cfg env (Bitset.new cfg.ioUnitInPage).setAll = .ok (k, pool) ∧
        (k ≠ victim → pool.Advances k s'.pool)) := by
  rw [reclaimPage] at h
  split at h
  · cases h
  · next b hb =>
    refine ⟨b, hb, fun hvalid => ?_⟩
    have hunit : b.ioUnitInPage = 1 := (hwf.used _ _ hb).2.trans hone
    have hany : (Bitset.new cfg.ioUnitInPage).setAll.any = true := by
      rw [hone]
      rfl
    rw [Block.getPageInfo, if_pos ⟨hunit, hone⟩, Except.ok_bind] at h
    simp only [hany, if_true, Block.isPageValid, hunit, Except.ok_bind, hvalid, decide_true,
      fullFlag_eq] at h
    exact copyPage_advances hone (fullMap_test hone) h

end Copy

/-! ### The page loops -/

/-- In the middle of a collection of `victims` that began in `s₀` and has copied `n`
pages. -/
structure Reclaiming (cfg : Config) (w : World) (victims done : List Nat) (s₀ : PageMapping)
    (n : Nat) (locals : GcLocals) (s : PageMapping) (P : Nat × Nat → Prop) : Prop where
  scanning : Scanning cfg w locals s P
  scanned : locals.scanned = done
  lanes : s.pool.LanesUsable cfg
  supply : BlockPool.Supply cfg s₀.pool n s.pool
  full : ∀ v ∈ victims, s.pool.nextPage v = some cfg.pagesInBlock
  count : n + BlockPool.validPages cfg s.pool victims = BlockPool.validPages cfg s₀.pool victims
  kept : ∀ l, (∀ page, s₀.lookup l = some page → page.1 ∉ victims) →
    s.table.find? l = s₀.table.find? l
  keys : ∀ l, l ∈ s.table ↔ l ∈ s₀.table

section Reclaim

variable {cfg : Config} {env : Env} {w : World} {victims done : List Nat} {victim pageIndex n : Nat}
  {locals : GcLocals} {s₀ s : PageMapping}

/-- A full block is no destination, so the scan of a page is harmless. -/
theorem Reclaiming.scanKeeps (hone : cfg.ioUnitInPage = 1) (hmode : cfg.evictPolicy ≠ .cachedGC)
    {P : Nat × Nat → Prop} (h : Reclaiming cfg w victims done s₀ n locals s P)
    (hdone : ∀ v ∈ done, v ∈ victims) : ScanKeeps cfg w victim (locals, s) pageIndex := by
  intro b hb
  refine ⟨fun _ => Except.all_iff.mpr fun q hq cur hcur hscanned => .inr fun c hc => ?_,
    fun hcached => absurd hcached hmode⟩
  obtain ⟨i, m, rfl⟩ := BlockPool.selectLane_spec hq
  rw [h.scanned] at hscanned
  have hnext := h.full cur (hdone cur hscanned)
  rw [BlockPool.nextPage, show s.pool.blocks.find? cur = some c from hc] at hnext
  obtain ⟨-, hunits⟩ := h.scanning.mapped.wf.used cur c hc
  rw [Block.getNextWritePageIndex_one (hunits.trans hone)]
  exact Option.some.inj hnext

/-- One page of a victim: the scan returns, and copies the page if it is valid. -/
theorem Reclaiming.page (env : Env) (hone : cfg.ioUnitInPage = 1)
    (hmode : cfg.evictPolicy ≠ .cachedGC) (hnodup : victims.Nodup) (hdone : ∀ v ∈ done, v ∈ victims)
    (henough : s₀.pool.blocksFor cfg (s₀.pool.validPages cfg victims) ≤ s₀.pool.nFreeBlocks)
    (hvictim : victim ∈ victims) (hi : pageIndex < cfg.pagesInBlock)
    (h : Reclaiming cfg w victims done s₀ n locals s (locals.Passed victim pageIndex)) :
    ∃ acc n', scanPage cfg env w victim (locals, s) pageIndex = .ok acc ∧
      Reclaiming cfg w victims done s₀ n' acc.1 acc.2 (acc.1.Passed victim (pageIndex + 1)) := by
  have hs := h.scanning.mapped
  have hpages : 0 < cfg.pagesInBlock := Nat.zero_lt_of_lt hi
  obtain ⟨b, hb, -⟩ := Option.map_eq_some_iff.mp (h.full victim hvictim)
  have hscan : scanPage cfg env w victim (locals, s) pageIndex =
      reclaimPage cfg env victim (locals, s) pageIndex := if_neg hmode
  have hkeeps : ScanKeeps cfg w victim (locals, s) pageIndex := h.scanKeeps hone hmode hdone
  have hvalid_content : (pageIndex, 0) ∈ b.validBits →
      (s.pool.content (victim, pageIndex)).isSome = true := by
    intro hvalid
    rw [content_of_valid hb hvalid]
    rfl
  -- a valid page finds a block
  have halloc : (pageIndex, 0) ∈ b.validBits → ∃ k pool m,
      s.pool.getLastFreeBlock cfg env (Bitset.new cfg.ioUnitInPage).setAll = .ok (k, pool) ∧
        pool.WellFormed cfg ∧ m < cfg.pagesInBlock ∧ pool.nextPage k = some m ∧ k ∉ victims ∧
        (∀ j m, s.pool.nextPage j = some m → pool.nextPage j = some m) ∧
        ∀ p'', pool.Advances k p'' → p''.LanesUsable cfg ∧
          BlockPool.Supply cfg s₀.pool (n + 1) p'' := by
    intro hvalid
    have hpos := BlockPool.validPages_pos hvictim hi (hvalid_content hvalid)
    have hcount := h.count
    obtain ⟨k, pool, hget, ⟨m, hm, hnext⟩, hframe, hafter⟩ :=
      h.supply.getLastFreeBlock env hone hpages hs.wf h.lanes henough (by omega)
    have hwf : pool.WellFormed cfg :=
      ((BlockPool.wellFormed_invariant cfg env).allocate hs.wf trivial).of_ok hget
    refine ⟨k, pool, m, hget, hwf, hm, hnext, fun hk => ?_, hframe, hafter⟩
    have hfull := hframe k _ (h.full k hk)
    rw [hnext] at hfull
    cases hfull
    exact lt_irrefl _ hm
  obtain ⟨⟨locals', s'⟩, hr⟩ :=
    @reclaimPage_ok cfg env victim pageIndex locals s hone hs b hb fun hvalid => by
    obtain ⟨k, pool, m, hget, hwf, hm, hnext, hk, -⟩ := halloc hvalid
    exact ⟨k, pool, m, hget, hwf, hm, hnext, fun heq => hk (heq ▸ hvictim)⟩
  have hscanning := h.scanning.scanPage hone hkeeps (hscan.trans hr)
  obtain ⟨b', hb', requests, writes, lpns, rfl, hcases⟩ := reclaimPage_spec hone hs.wf hs.shape hr
  rw [hb] at hb'
  cases hb'
  rcases hcases with ⟨-, rfl⟩ | ⟨hvalid, new, hm⟩
  · exact ⟨_, n, hscan.trans hr, hscanning, h.scanned, h.lanes, h.supply, h.full, h.count, h.kept,
      h.keys⟩
  · obtain ⟨k, pool, m, hget, hwf, -, -, hk, hframe, hafter⟩ := halloc hvalid
    obtain ⟨pool', hdest⟩ := hm.dest
    rw [hget] at hdest
    obtain ⟨rfl, rfl⟩ := Prod.mk.inj (Except.ok.inj hdest)
    obtain ⟨b', hb', hadv⟩ := reclaimPage_advances hone hs.wf hr
    rw [hb] at hb'
    cases hb'
    obtain ⟨k', pool', hget', hadv⟩ := hadv hvalid
    rw [hget] at hget'
    obtain ⟨rfl, rfl⟩ := Prod.mk.inj (Except.ok.inj hget')
    have hadv := hadv fun heq => hk (heq ▸ hvictim)
    obtain ⟨hlanes, hsupply⟩ := hafter _ hadv
    have hcontent := content_of_valid hb hvalid
    have hlook : s.lookup (b.lpns (pageIndex, 0)) = some (victim, pageIndex) :=
      (hs.linked _ _).mpr hcontent
    refine ⟨_, n + 1, hscan.trans hr, hscanning, h.scanned, hlanes, hsupply, fun u hu => ?_, ?_,
      fun l hl => ?_, fun l => ?_⟩
    · show s'.pool.nextPage u = _
      rw [hadv.next, if_neg fun heq => hk (by rw [← heq]; exact hu)]
      exact hframe u _ (h.full u hu)
    · have hmove :=
        BlockPool.validPages_move hnodup hvictim hi (hvalid_content hvalid) hk hm.content
      have hcount := h.count
      show n + 1 + BlockPool.validPages cfg s'.pool victims = _
      omega
    · have hsame := h.kept l hl
      rw [hm.table, if_neg, hsame]
      -- a page that moves was mapped into a victim
      rintro rfl
      refine hl (victim, pageIndex) ?_ hvictim
      rw [lookup, tableMapping, ← hsame]
      exact hlook
    · rw [← h.keys, UnorderedMap.mem_iff_find?, UnorderedMap.mem_iff_find?, hm.table]
      split
      · next hl =>
        refine iff_of_true ⟨_, rfl⟩ ?_
        rw [hl]
        exact UnorderedMap.mem_iff_find?.mp hm.mapped
      · rfl

/-- One victim. -/
theorem Reclaiming.reclaimVictim (env : Env) (hone : cfg.ioUnitInPage = 1)
    (hmode : cfg.evictPolicy ≠ .cachedGC) (hnodup : victims.Nodup) (hdone : ∀ v ∈ done, v ∈ victims)
    (henough : s₀.pool.blocksFor cfg (s₀.pool.validPages cfg victims) ≤ s₀.pool.nFreeBlocks)
    (hvictim : victim ∈ victims)
    (h : Reclaiming cfg w victims done s₀ n locals s fun x => x.1 ∈ locals.scanned) :
    ∃ acc n', scanVictim cfg env w (locals, s) victim = .ok acc ∧
      Reclaiming cfg w victims (done ++ [victim]) s₀ n' acc.1 acc.2
        fun x => x.1 ∈ acc.1.scanned := by
  have hused : victim ∈ s.pool.blocks := BlockPool.mem_blocks_iff.mpr ⟨_, h.full victim hvictim⟩
  have hstart : ∃ n', Reclaiming cfg w victims done s₀ n' (locals, s).1 (locals, s).2
      ((locals, s).1.Passed victim 0) := by
    refine ⟨n, h.scanning.of_passed fun x => ?_, h.scanned, h.lanes, h.supply, h.full, h.count,
      h.kept,
      h.keys⟩
    simp [GcLocals.Passed]
  obtain ⟨⟨locals', s'⟩, hloop, n', hend⟩ := Run.foldlM_range_ok
    (f := scanPage cfg env w victim) (n := cfg.pagesInBlock)
    (I := fun i acc => ∃ n', Reclaiming cfg w victims done s₀ n' acc.1 acc.2
      (acc.1.Passed victim i))
    (fun i acc hi hacc => by
      obtain ⟨n', hacc⟩ := hacc
      obtain ⟨acc', n'', hscan, hacc'⟩ := hacc.page env hone hmode hnodup hdone henough hvictim hi
      exact ⟨acc', hscan, n'', hacc'⟩)
    hstart
  have hused' : victim ∈ s'.pool.blocks :=
    BlockPool.mem_blocks_iff.mpr ⟨_, hend.full victim hvictim⟩
  refine ⟨({ locals' with
    eraseRequests := locals'.eraseRequests ++ [⟨victim, 0, (Bitset.new cfg.ioUnitInPage).setAll⟩] },
    s'), n', ?_, hend.scanning.victim_done hused', ?_, hend.lanes, hend.supply, hend.full,
    hend.count, hend.kept, hend.keys⟩
  · rw [scanVictim, if_neg (not_not.mpr hused), hloop]
    rfl
  · rw [← hend.scanned]
    simp [GcLocals.scanned]

/-- All victims. -/
theorem foldlM_scanVictim_ok (env : Env) (w : World) (hone : cfg.ioUnitInPage = 1)
    (hmode : cfg.evictPolicy ≠ .cachedGC) (hs : s.Mapped cfg) (hlanes : s.pool.LanesUsable cfg)
    (hnodup : victims.Nodup)
    (hfull : ∀ v ∈ victims, s.pool.nextPage v = some cfg.pagesInBlock)
    (henough : s.pool.blocksFor cfg (s.pool.validPages cfg victims) ≤ s.pool.nFreeBlocks) :
    ∃ acc n, victims.foldlM (scanVictim cfg env w) (GcLocals.empty, s) = .ok acc ∧
      Reclaiming cfg w victims victims s n acc.1 acc.2 fun x => x.1 ∈ acc.1.scanned := by
  obtain ⟨acc, hloop, -, n, hend⟩ := Run.foldlM_of_ready
    (f := scanVictim cfg env w) (P := fun v => v ∈ victims)
    (I := fun done acc => (∀ v ∈ done, v ∈ victims) ∧ ∃ n,
      Reclaiming cfg w victims done s n acc.1 acc.2 fun x => x.1 ∈ acc.1.scanned)
    (fun done v acc hacc hv => by
      obtain ⟨hdone, n, hacc⟩ := hacc
      obtain ⟨acc', n', hscan, hacc'⟩ :=
        hacc.reclaimVictim env hone hmode hnodup hdone henough hv
      refine ⟨acc', hscan, fun u hu => ?_, n', hacc'⟩
      rcases List.mem_append.mp hu with hu | hu
      · exact hdone u hu
      · rw [List.mem_singleton.mp hu]
        exact hv)
    (s := (GcLocals.empty, s))
    ⟨fun v hv => absurd hv List.not_mem_nil, 0, hs.scanning, rfl, hlanes,
      BlockPool.Supply.start hlanes.index, hfull, Nat.zero_add _, fun _ _ => rfl, fun _ => Iff.rfl⟩
    (fun v hv => hv)
  exact ⟨acc, n, hloop, hend⟩

end Reclaim

/-! ### The erases -/

section Erase

variable {cfg : Config} {env : Env} {w : World} {victims : List Nat} {s s' : PageMapping}

/-- Distinct blocks in use can be erased one after the other, and each ends up free or
retired. -/
theorem foldlM_eraseInternal_ok (reqs : List PAL.Request)
    (hnodup : (reqs.map (·.blockIndex)).Nodup)
    (hused : ∀ v ∈ reqs.map (·.blockIndex), v ∈ s.pool.blocks) :
    ∃ s', reqs.foldlM (eraseInternal cfg) s = .ok s' ∧
      (∀ c ∈ s.pool.freeBlocks, c ∈ s'.pool.freeBlocks) ∧
      (∀ c ∈ s.pool.retired, c ∈ s'.pool.retired) ∧
      ∀ v ∈ reqs.map (·.blockIndex), ∃ b, s.pool.blocks.find? v = some b ∧
        (b.erase ∈ s'.pool.freeBlocks ∨ b.erase ∈ s'.pool.retired) := by
  induction reqs generalizing s with
  | nil => exact ⟨s, rfl, fun _ h => h, fun _ h => h, fun v hv => absurd hv List.not_mem_nil⟩
  | cons req reqs ih =>
    rw [List.map_cons, List.nodup_cons] at hnodup
    obtain ⟨b, hb⟩ := UnorderedMap.mem_iff_find?.mp (hused req.blockIndex List.mem_cons_self)
    obtain ⟨p, hp⟩ : ∃ p, BlockPool.eraseBlock cfg
        { s.pool with erasedBlockId := s.pool.erasedBlockId ++ [req.blockIndex] } req.blockIndex =
          .ok p := by
      rw [BlockPool.eraseBlock]
      simp only [hb]
      split <;> exact ⟨_, rfl⟩
    obtain ⟨b', hb', hblocks, -, -, -, hcases⟩ := BlockPool.eraseBlock_spec hp
    have hbb : b = b' := Option.some.inj (hb.symm.trans hb')
    subst hbb
    have hfree : ∀ c ∈ s.pool.freeBlocks, c ∈ p.freeBlocks := by
      intro c hc
      rcases hcases with ⟨hperm, -⟩ | ⟨hsame, -⟩
      · exact hperm.mem_iff.mpr (List.mem_cons_of_mem _ hc)
      · rw [hsame]
        exact hc
    have hretired : ∀ c ∈ s.pool.retired, c ∈ p.retired := by
      intro c hc
      rcases hcases with ⟨-, -, hsame⟩ | ⟨-, -, hcons⟩
      · rw [hsame]
        exact hc
      · rw [hcons]
        exact List.mem_cons_of_mem _ hc
    have hplace : b.erase ∈ p.freeBlocks ∨ b.erase ∈ p.retired := by
      rcases hcases with ⟨hperm, -⟩ | ⟨-, -, hcons⟩
      · exact .inl (hperm.mem_iff.mpr List.mem_cons_self)
      · rw [hcons]
        exact .inr List.mem_cons_self
    -- the other blocks are still in use
    have hrest : ∀ v, v ≠ req.blockIndex → p.blocks.find? v = s.pool.blocks.find? v := by
      intro v hv
      rw [hblocks, UnorderedMap.find?_erase, if_neg hv]
    have hne : ∀ v ∈ reqs.map (·.blockIndex), v ≠ req.blockIndex := by
      rintro v hv rfl
      exact hnodup.1 hv
    obtain ⟨s', hloop, hfree', hretired', herased⟩ :=
      ih (s := { s with pool := p }.log (.palErase req)) hnodup.2 fun v hv => by
        rw [log_pool, UnorderedMap.mem_iff_find?]
        simp only
        rw [hrest v (hne v hv)]
        exact UnorderedMap.mem_iff_find?.mp (hused v (List.mem_cons_of_mem _ hv))
    refine ⟨s', ?_, fun c hc => hfree' c (hfree c hc), fun c hc => hretired' c (hretired c hc),
      fun v hv => ?_⟩
    · rw [List.foldlM_cons, eraseInternal, hp]
      exact hloop
    · rw [List.map_cons, List.mem_cons] at hv
      rcases hv with rfl | hv
      · exact ⟨b, hb, hplace.imp (hfree' _) (hretired' _)⟩
      · obtain ⟨c, hc, hplace⟩ := herased v hv
        exact ⟨c, (hrest v (hne v hv)).symm.trans hc, hplace⟩

/-- The victims of a collection are reclaimed: their pages moved, the rest of the
mapping as it was, and the blocks erased. -/
structure Reclaimed (victims : List Nat) (s s' : PageMapping) : Prop where
  moved : ∀ lpn page, s.lookup lpn = some page → page.1 ∈ victims →
    ∃ page', s'.lookup lpn = some page' ∧ page'.1 ∉ victims ∧ s'.pool.content page' = some lpn
  kept : ∀ lpn, (∀ page, s.lookup lpn = some page → page.1 ∉ victims) →
    s'.table.find? lpn = s.table.find? lpn
  keys : ∀ lpn, lpn ∈ s'.table ↔ lpn ∈ s.table
  erased : ∀ v ∈ victims, v ∉ s'.pool.blocks ∧ ∃ b : Block, b.idx = v ∧ b.getValidPageCount = 0 ∧
    (b ∈ s'.pool.freeBlocks ∨ b ∈ s'.pool.retired)

theorem Reclaimed.nil : Reclaimed [] s s := by
  refine ⟨?_, fun _ _ => rfl, fun _ => Iff.rfl, ?_⟩
  · rintro lpn page - ⟨⟩
  · rintro v ⟨⟩

/-- After the last victim has been scanned, the erases complete the collection. -/
theorem Reclaiming.finish {n : Nat} {locals : GcLocals} {s₁ : PageMapping}
    (hone : cfg.ioUnitInPage = 1) (hmode : cfg.evictPolicy ≠ .cachedGC) (hnodup : victims.Nodup)
    (h : Reclaiming cfg w victims victims s n locals s₁ fun x => x.1 ∈ locals.scanned) :
    ∃ s', finishCollection cfg locals s₁ = .ok s' ∧ Reclaimed victims s s' := by
  have hmapped := h.scanning.mapped
  have hscanned : locals.eraseRequests.map (·.blockIndex) = victims := h.scanned
  obtain ⟨s', hloop, -, -, herased⟩ := @foldlM_eraseInternal_ok cfg
    (locals.writeRequests.foldl (fun s r => s.log (.palWrite r))
      (locals.readRequests.foldl (fun s r => s.log (.palRead r)) s₁)) locals.eraseRequests
    (by rw [hscanned]; exact hnodup)
    (by rw [foldl_log, foldl_log]; exact h.scanning.used)
  have hfinish : finishCollection cfg locals s₁ = .ok s' := hloop
  rw [foldl_log, foldl_log, hscanned] at herased
  obtain ⟨htable, -, hblocks⟩ := finishCollection_spec hfinish
  rw [h.scanned] at hblocks
  -- no victim stores a page any more
  have hclean : ∀ x : Nat × Nat, x.1 ∈ victims → s₁.pool.content x = none := by
    intro x hx
    cases hcontent : s₁.pool.content x with
    | none => rfl
    | some l =>
      have hqueue := h.scanning.passed x (by rw [h.scanned]; exact hx) l hcontent
      rw [h.scanning.default hmode] at hqueue
      cases hqueue
  have hlookup : ∀ lpn, s'.lookup lpn = s₁.lookup lpn := by
    intro lpn
    rw [lookup, lookup, tableMapping, tableMapping, htable]
  refine ⟨s', hfinish, fun lpn page hlook hpage => ?_, fun lpn hlpn => ?_, fun lpn => ?_,
    fun v hv => ⟨?_, ?_⟩⟩
  · -- the page is still mapped, and no longer into a victim
    have hmem : lpn ∈ s.table := by
      obtain ⟨vec, hvec, -⟩ := Option.bind_eq_some_iff.mp hlook
      exact UnorderedMap.mem_of_find? hvec
    obtain ⟨vec, hvec⟩ := UnorderedMap.mem_iff_find?.mp ((h.keys lpn).mpr hmem)
    obtain ⟨page', hpage'⟩ : ∃ page', s₁.lookup lpn = some page' := by
      refine Option.ne_none_iff_exists'.mp fun hnone => ?_
      rw [lookup_eq_none hone hmapped.shape, hvec] at hnone
      cases hnone
    have hcontent := (hmapped.linked lpn page').mp hpage'
    have hnot : page'.1 ∉ victims := by
      intro hin
      rw [hclean page' hin] at hcontent
      cases hcontent
    refine ⟨page', (hlookup lpn).trans hpage', hnot, ?_⟩
    rw [content_of_erased hblocks, if_neg hnot]
    exact hcontent
  · rw [htable]
    exact h.kept lpn hlpn
  · rw [← h.keys, UnorderedMap.mem_iff_find?, UnorderedMap.mem_iff_find?, htable]
  · rw [UnorderedMap.mem_iff_find?, hblocks, if_pos hv]
    rintro ⟨b, ⟨⟩⟩
  · obtain ⟨b, hb, hplace⟩ := herased v hv
    have hidx : b.idx = v := hmapped.wf.key_idx v b hb
    exact ⟨b.erase, hidx, rfl, hplace⟩

end Erase

section Preserved

variable {cfg : Config} {env : Env} {w : World} {victims : List Nat} {s s' : PageMapping}

/-- With one I/O unit a page and outside `cachedGC` mode, a collection of distinct full
blocks in a state whose mapping is a bijection returns when the free blocks are enough
for their valid pages. It reclaims the victims unless `iclCount` is beyond
`SimlationIORequests`, and then changes nothing. -/
theorem doGarbageCollection_preserves (env : Env) (w : World) (hone : cfg.ioUnitInPage = 1)
    (hmode : cfg.evictPolicy ≠ .cachedGC)
    (hs : s.Mapped cfg) (hlanes : s.pool.LanesUsable cfg) (hnodup : victims.Nodup)
    (hfull : ∀ v ∈ victims, s.pool.nextPage v = some cfg.pagesInBlock)
    (henough : s.pool.blocksFor cfg (s.pool.validPages cfg victims) ≤ s.pool.nFreeBlocks) :
    ∃ s', doGarbageCollection cfg env w victims s = .ok s' ∧
      if cfg.simlationIORequests < w.iclCount then s' = s else Reclaimed victims s s' := by
  rw [doGarbageCollection]
  split
  · exact ⟨s, rfl, rfl⟩
  · split
    · next hnil =>
      subst hnil
      exact ⟨s, rfl, .nil⟩
    · obtain ⟨⟨locals, s₁⟩, n, hloop, hend⟩ :=
        foldlM_scanVictim_ok env w hone hmode hs hlanes hnodup hfull henough
      obtain ⟨s', hfinish, hreclaimed⟩ := hend.finish hone hmode hnodup
      refine ⟨s', ?_, hreclaimed⟩
      rw [hloop, Except.ok_bind]
      exact hfinish

/-- The writes after which block 0 is full and stores page 1 alone. -/
def fullBlock : List (World × Op) :=
  calls [.write (.page 0), .write (.page 1), .write (.page 0)]

/-- The collection of block 0 moves page 1 to block 1. -/
theorem doGarbageCollection_preserves_full :
    ∃ s₀ s s', PageMapping.start (.small 3) .zero none = .ok s₀ ∧
      run (.small 3) .zero s₀ fullBlock = .ok s ∧
      doGarbageCollection (.small 3) .zero .zero [0] s = .ok s' ∧
      s.lookup 1 = some (0, 1) ∧ Reclaimed [0] s s' := by
  obtain ⟨s₀, hstart, hmeets, hrun⟩ := Except.exists_of_map
    (p := fun s₀ => Run.Along (Op.exec (.small 3) .zero)
      (Op.Meets (.small 3) .zero (MappingConditions (.small 3))) s₀ fullBlock ∧
      (run (.small 3) .zero s₀ fullBlock).map (fun s => decide (s.pool.lastFreeBlock = [1] ∧
        s.pool.lastFreeBlockIndex = 0 ∧ 1 ∈ s.pool.blocks ∧ s.pool.nextPage 0 = some 2 ∧
        s.lookup 1 = some (0, 1) ∧ BlockPool.blocksFor (.small 3) s.pool
          (BlockPool.validPages (.small 3) s.pool [0]) ≤ s.pool.nFreeBlocks)) = .ok true)
    (by decide +kernel : (PageMapping.start (.small 3) .zero none).map _ = .ok true)
  obtain ⟨s, hs, hlanes, hindex, hused, hfull, hlook, henough⟩ := Except.exists_of_map hrun
  have husable : s.pool.LanesUsable (.small 3) := by
    refine ⟨by rw [hlanes]; rfl, by rw [hindex]; decide, fun l k hk => .inl ?_⟩
    rw [hlanes] at hk
    cases l with
    | zero =>
      cases hk
      exact hused
    | succ l => cases hk
  obtain ⟨s', hcollect, hreclaimed⟩ := doGarbageCollection_preserves .zero .zero (by decide)
    (by decide) (run_mapped (by decide) hstart hmeets hs) husable (List.nodup_singleton 0)
    (fun v hv => by rw [List.mem_singleton.mp hv]; exact hfull) henough
  rw [if_neg (by decide)] at hreclaimed
  exact ⟨s₀, s, s', hstart, hs, hcollect, hlook, hreclaimed⟩

/-- After more requests than are simulated a collection leaves block 0 in use. -/
theorem not_reclaimed_beyond :
    ∃ s₀ s, PageMapping.start (.small 3) .zero none = .ok s₀ ∧
      run (.small 3) .zero s₀ fullBlock = .ok s ∧ s.pool.nextPage 0 = some 2 ∧
      BlockPool.blocksFor (.small 3) s.pool (BlockPool.validPages (.small 3) s.pool [0]) ≤
        s.pool.nFreeBlocks ∧
      doGarbageCollection (.small 3) .zero ⟨1001, fun _ => 0⟩ [0] s = .ok s ∧
      ¬ Reclaimed [0] s s := by
  obtain ⟨s₀, hstart, hrun⟩ := Except.exists_of_map
    (p := fun s₀ => (run (.small 3) .zero s₀ fullBlock).map (fun s => decide (
      s.pool.nextPage 0 = some 2 ∧ BlockPool.blocksFor (.small 3) s.pool
        (BlockPool.validPages (.small 3) s.pool [0]) ≤ s.pool.nFreeBlocks)) = .ok true)
    (by decide +kernel : (PageMapping.start (.small 3) .zero none).map _ = .ok true)
  obtain ⟨s, hs, hfull, henough⟩ := Except.exists_of_map hrun
  refine ⟨s₀, s, hstart, hs, hfull, henough, if_pos (by decide), fun hreclaimed => ?_⟩
  exact (hreclaimed.erased 0 List.mem_cons_self).1 (BlockPool.mem_blocks_iff.mpr ⟨_, hfull⟩)

end Preserved

end PageMapping

end SimpleSSD.FTL
