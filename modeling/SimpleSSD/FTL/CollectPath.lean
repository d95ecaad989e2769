import SimpleSSD.FTL.WritePath

/-!
# What a collection does to the table and the flash

With one I/O unit a page. A page scan moves a valid page to the block that
`getLastFreeBlock` hands out (`Moves`), or leaves the flash as it is; in
`cachedGC` mode a valid page can stay behind, queued for the cache or not.
`reclaimPage_spec` and `reclaimCachedPage_spec` list the cases of the two page
loops.
-/

namespace SimpleSSD.FTL

namespace PageMapping

/-- A valid page goes from `(victim, pageIndex)` to `new`, with its table entry
and, in the default page loop, its entry in `cmt`. -/
structure Moves (cfg : Config) (env : Env) (victim pageIndex lpn : Nat) (bit : Bitset)
    (relocateCmt : Bool) (s : PageMapping) (new : Nat × Nat) (s' : PageMapping) : Prop where
  dest : ∃ pool, s.pool.getLastFreeBlock cfg env bit = .ok (new.1, pool)
  free : Function.update s.pool.content (victim, pageIndex) none new = none
  beyond : new.1 = victim → s.pool.content (victim, pageIndex) ≠ none → pageIndex < new.2
  content : s'.pool.content =
    Function.update (Function.update s.pool.content (victim, pageIndex) none) new (some lpn)
  mapped : lpn ∈ s.table
  table : ∀ l, s'.table.find? l = if l = lpn then some [new] else s.table.find? l
  cache : s'.cache = if relocateCmt then s.cache.relocate lpn new else s.cache
  queued : s'.movePagesToCache = s.movePagesToCache
  used : ∀ k ∈ s.pool.blocks, k ∈ s'.pool.blocks

section Collect

variable {cfg : Config} {env : Env} {w : World} {victim pageIndex blk lpn : Nat}
  {bit : Bitset} {relocateCmt : Bool} {locals locals' : GcLocals} {s s' : PageMapping}

/-- One unit of a page is invalidated in the victim and programmed in the block
`blk` at its write pointer. -/
theorem copyUnit_spec {lpns : List Nat} {idx : Nat} (hbit : bit.test idx = true)
    (h : copyUnit cfg victim pageIndex blk lpns bit relocateCmt (locals, s) idx =
      .ok (locals', s')) :
    ∃ lpn vec v b b', lpns[idx]? = some lpn ∧ s.table.find? lpn = some vec ∧ idx < vec.length ∧
      s.pool.blocks.find? victim = some v ∧
      (s.pool.putBlock victim (v.invalidate pageIndex idx)).blocks.find? blk = some b ∧
      b.write (b.pNextWritePageIndex idx) lpn idx = .ok b' ∧
      s'.pool = (s.pool.putBlock victim (v.invalidate pageIndex idx)).putBlock blk b' ∧
      s'.table = s.table.set 0 lpn (vec.set idx (blk, b.pNextWritePageIndex idx)) ∧
      s'.cache = (if relocateCmt then s.cache.relocate lpn (blk, b.pNextWritePageIndex idx)
        else s.cache) ∧
      s'.movePagesToCache = s.movePagesToCache ∧
      locals' = { locals with
        writeRequests := locals.writeRequests ++
          [⟨blk, b.pNextWritePageIndex idx, palFlag cfg bit idx⟩] } ∧
      s'.trace = .dram :: s.trace := by
  rw [copyUnit] at h
  simp only [hbit, if_true] at h
  rw [Except.bind_eq_ok] at h
  obtain ⟨pool, hpool, h⟩ := h
  rw [BlockPool.onBlock] at hpool
  split at hpool
  · next v hv =>
    cases hpool
    split at h
    · cases h
    · next lpn hlpn =>
      split at h
      · cases h
      · next vec hvec =>
        rw [Except.bind_eq_ok] at h
        obtain ⟨old, hold, h⟩ := h
        simp only [log_pool] at h
        split at h
        · cases h
        · next b hb =>
          rw [Except.bind_eq_ok] at h
          obtain ⟨b', hb', h⟩ := h
          cases h
          have hlen := (List.getElem?_eq_some_iff.mp ((mappingAt_sat vec idx).of_ok hold)).1
          exact ⟨lpn, vec, v, b, b', hlpn, hvec, hlen, hv, hb, hb', rfl, rfl, rfl, rfl, rfl, rfl⟩
  · cases hpool

/-- With one unit a page, a copy is an allocation and one `copyUnit`. -/
theorem copyPage_unit {lpns : List Nat} {acc' : GcLocals × PageMapping}
    (hone : cfg.ioUnitInPage = 1)
    (h : copyPage cfg env victim pageIndex lpns bit relocateCmt (locals, s) = .ok acc') :
    ∃ blk pool, s.pool.getLastFreeBlock cfg env bit = .ok (blk, pool) ∧
      copyUnit cfg victim pageIndex blk lpns bit relocateCmt (locals, { s with pool := pool }) 0 =
        .ok acc' := by
  rw [copyPage, Except.bind_eq_ok] at h
  obtain ⟨⟨blk, pool⟩, halloc, h⟩ := h
  simp only at h
  rw [Config.bitsetSize_one hone, show List.range 1 = [0] from rfl, List.foldlM_cons,
    Except.bind_eq_ok] at h
  obtain ⟨acc, hunit, h⟩ := h
  cases h
  exact ⟨blk, pool, halloc, hunit⟩

theorem copyPage_spec (hone : cfg.ioUnitInPage = 1) (hbit : bit.test 0 = true)
    (hwf : s.pool.WellFormed cfg) (hshape : TableShape cfg s)
    (h : copyPage cfg env victim pageIndex [lpn] bit relocateCmt (locals, s) =
      .ok (locals', s')) :
    ∃ new, Moves cfg env victim pageIndex lpn bit relocateCmt s new s' ∧
      ∃ requests, locals' = { locals with writeRequests := requests } := by
  obtain ⟨blk, pool, halloc, hunit⟩ := copyPage_unit hone h
  obtain ⟨l, vec, v, b, b', hl, hvec, hlen, hv, hb, hwrite, hpool, htable, hcache, hmoved,
    hlocals, -⟩ := copyUnit_spec hbit hunit
  cases hl
  have hcontent : pool.content = s.pool.content :=
    BlockPool.content_getLastFreeBlock hwf.toFormatted halloc
  have hinvalid : (pool.putBlock victim (v.invalidate pageIndex 0)).content =
      Function.update s.pool.content (victim, pageIndex) none := by
    rw [BlockPool.content_putBlock_update hv Block.contentAt_invalidate, hcontent]
  refine ⟨(blk, b.pNextWritePageIndex 0),
    ⟨⟨pool, halloc⟩, ?_, ?_, ?_, ?_, ?_, hcache, hmoved, ?_⟩, _, hlocals⟩
  · rw [← hinvalid, BlockPool.content, hb]
    exact Block.contentAt_of_next_le le_rfl
  · rintro rfl hvalid
    -- a victim that is open takes the page behind the page that it loses
    rw [BlockPool.putBlock, UnorderedMap.find?_set, if_pos rfl] at hb
    cases hb
    rw [← hcontent, BlockPool.content, hv] at hvalid
    by_contra hle
    exact hvalid (Block.contentAt_of_next_le (not_lt.mp hle))
  · rw [hpool, BlockPool.content_putBlock_update hb (Block.contentAt_write hwrite), hinvalid]
  · exact UnorderedMap.mem_of_find? hvec
  · intro l
    rw [htable, UnorderedMap.find?_set]
    have hvec1 : vec.length = 1 := by rw [hshape _ _ hvec, Config.bitsetSize_one hone]
    obtain ⟨page, rfl⟩ := List.length_eq_one_iff.mp hvec1
    rfl
  · intro k hk
    obtain ⟨c, hc⟩ := UnorderedMap.mem_iff_find?.mp hk
    have hk := UnorderedMap.mem_of_find? (BlockPool.find?_getLastFreeBlock halloc hc)
    rw [hpool]
    exact (UnorderedMap.mem_set _ _).mpr (.inr ((UnorderedMap.mem_set _ _).mpr (.inr hk)))

/-- The LPNs that a collection in `cachedGC` mode will hand to the cache. -/
def GcLocals.queue (cfg : Config) (locals : GcLocals) : List Nat :=
  if cfg.blockToBlockMovement then locals.lpnListForCache else locals.lpa_list

/-- The victims whose pages have all been scanned. -/
def GcLocals.scanned (locals : GcLocals) : List Nat := locals.eraseRequests.map (·.blockIndex)

/-- The page map of a page is full with one unit a page. -/
theorem fullMap_test (hone : cfg.ioUnitInPage = 1) :
    (Bitset.new cfg.ioUnitInPage).setAll.test 0 = true := by
  rw [hone]
  rfl

theorem fullMap_any (hone : cfg.ioUnitInPage = 1) :
    (Bitset.new cfg.ioUnitInPage).setAll.any = true := by
  rw [hone]
  rfl

/-- The flag of the reads is full too, with the tweak and without it. -/
theorem fullFlag_eq (cfg : Config) :
    (if cfg.randomIOTweak then (Bitset.new cfg.ioUnitInPage).setAll
      else (Bitset.new cfg.ioUnitInPage).setAll.setAll) = (Bitset.new cfg.ioUnitInPage).setAll := by
  split <;> rfl

/-- A valid page of a block stores its LPN. -/
theorem content_of_valid {b : Block} (hb : s.pool.blocks.find? victim = some b)
    (h : (pageIndex, 0) ∈ b.validBits) :
    s.pool.content (victim, pageIndex) = some (b.lpns (pageIndex, 0)) := by
  rw [BlockPool.content, hb, Option.bind_some, Block.contentAt, if_pos h]

theorem content_of_invalid {b : Block} (hb : s.pool.blocks.find? victim = some b)
    (h : (pageIndex, 0) ∉ b.validBits) : s.pool.content (victim, pageIndex) = none := by
  rw [BlockPool.content, hb, Option.bind_some, Block.contentAt, if_neg h]

/-- A page of one unit reports its LPN, valid or not. -/
theorem getPageInfo_one {b : Block} (hone : cfg.ioUnitInPage = 1) (hunit : b.ioUnitInPage = 1) :
    b.getPageInfo pageIndex (Bitset.new cfg.ioUnitInPage) =
      .ok ([b.lpns (pageIndex, 0)], (Bitset.new cfg.ioUnitInPage).setAll) := by
  rw [Block.getPageInfo, if_pos ⟨hunit, hone⟩]

/-- One page of the default loop: it is moved if it is valid. -/
theorem reclaimPage_spec (hone : cfg.ioUnitInPage = 1) (hwf : s.pool.WellFormed cfg)
    (hshape : TableShape cfg s)
    (h : reclaimPage cfg env victim (locals, s) pageIndex = .ok (locals', s')) :
    ∃ b, s.pool.blocks.find? victim = some b ∧
      ∃ requests writes lpns, locals' =
        { locals with readRequests := requests, writeRequests := writes, lpns := lpns } ∧
      (((pageIndex, 0) ∉ b.validBits ∧ s' = s) ∨
        ((pageIndex, 0) ∈ b.validBits ∧ ∃ new, Moves cfg env victim pageIndex
          (b.lpns (pageIndex, 0)) (Bitset.new cfg.ioUnitInPage).setAll true s new s')) := by
  rw [reclaimPage] at h
  split at h
  · cases h
  · next b hb =>
    refine ⟨b, hb, ?_⟩
    have hunit : b.ioUnitInPage = 1 := (hwf.used _ _ hb).2.trans hone
    rw [Except.bind_eq_ok] at h
    obtain ⟨r, hr, h⟩ := h
    obtain ⟨-, rfl⟩ := (b.getPageInfo_sat pageIndex _).of_ok hr hunit
    simp only at h
    split at h
    · rw [Except.bind_eq_ok] at h
      obtain ⟨v, hv, h⟩ := h
      obtain ⟨-, rfl⟩ := (b.isPageValid_sat pageIndex).of_ok hv
      split at h
      · next hvalid =>
        rw [fullFlag_eq] at h
        obtain ⟨new, hmoves, requests, rfl⟩ :=
          copyPage_spec hone (fullMap_test hone) hwf hshape h
        exact ⟨_, _, _, rfl, .inr ⟨of_decide_eq_true hvalid, new, hmoves⟩⟩
      · next hvalid =>
        cases h
        exact ⟨_, _, _, rfl, .inl ⟨by simpa using hvalid, rfl⟩⟩
    · next hany => exact absurd (fullMap_any hone) hany

/-- One page of the `cachedGC` loop: a cached page adds a stale LPN to
`cachedValidLPN`; a valid page that is not cached is copied or queued. -/
theorem reclaimCachedPage_cases (hone : cfg.ioUnitInPage = 1) (hwf : s.pool.WellFormed cfg)
    (h : reclaimCachedPage cfg env w victim (locals, s) pageIndex = .ok (locals', s')) :
    ∃ b, s.pool.blocks.find? victim = some b ∧
      ((pageIndex ∈ b.pCachedBits ∧ s' = s ∧ ∃ m, locals.lpns[0]? = some m ∧
          locals' = { locals with cachedValidLPN := locals.cachedValidLPN ++ [m] }) ∨
        (pageIndex ∉ b.pCachedBits ∧ (pageIndex, 0) ∉ b.validBits ∧ s' = s ∧ locals' = locals) ∨
        (pageIndex ∉ b.pCachedBits ∧ (pageIndex, 0) ∈ b.validBits ∧
          ∃ l₁, l₁.lpns = [b.lpns (pageIndex, 0)] ∧ l₁.cachedValidLPN = locals.cachedValidLPN ∧
            l₁.scanned = locals.scanned ∧
          ((b.Copies cfg w pageIndex ∧ l₁.queue cfg = locals.queue cfg ∧
              copyPage cfg env victim pageIndex [b.lpns (pageIndex, 0)]
                (Bitset.new cfg.ioUnitInPage).setAll false (l₁, s) = .ok (locals', s')) ∨
            (¬ (cfg.blockToBlockMovement = true ∧
                w.lbaEvictionFrequency (b.lpns (pageIndex, 0)) ≤ 2) ∧ s' = s ∧ locals' = l₁ ∧
              l₁.queue cfg = locals.queue cfg ++ [b.lpns (pageIndex, 0)])))) := by
  rw [reclaimCachedPage] at h
  split at h
  · cases h
  · next b hb =>
    refine ⟨b, hb, ?_⟩
    have hunit : b.ioUnitInPage = 1 := (hwf.used _ _ hb).2.trans hone
    rw [Except.bind_eq_ok] at h
    obtain ⟨c, hc, h⟩ := h
    obtain ⟨-, rfl⟩ := (b.isCached_sat pageIndex).of_ok hc
    split at h
    · next hcached =>
      -- `lpns` is that of an earlier page, and empty before the first
      split at h
      · cases h
      · next m hm =>
        cases h
        exact .inl ⟨of_decide_eq_true hcached, rfl, m, hm, rfl⟩
    · next hcached =>
      have hcached : pageIndex ∉ b.pCachedBits := by simpa using hcached
      rw [Except.bind_eq_ok] at h
      obtain ⟨v, hv, h⟩ := h
      obtain ⟨-, rfl⟩ := (b.isPageValid_sat pageIndex).of_ok hv
      split at h
      · next hvalid =>
        have hvalid := of_decide_eq_true hvalid
        rw [Except.bind_eq_ok] at h
        obtain ⟨r, hr, h⟩ := h
        obtain ⟨-, rfl⟩ := (b.getPageInfo_sat pageIndex _).of_ok hr hunit
        simp only [fullFlag_eq, List.getElem?_cons_zero] at h
        refine .inr (.inr ⟨hcached, hvalid, ?_⟩)
        split at h
        · split at h
          · next hmove =>
            split at h
            · next hfreq =>
              refine ⟨_, ?_, ?_, ?_, .inl ⟨⟨hvalid, fun _ => ⟨hcached, hmove, hfreq⟩⟩, ?_, h⟩⟩
              · rfl
              · rfl
              · rfl
              · simp [GcLocals.queue, hmove]
            · next hfreq =>
              cases h
              refine ⟨_, ?_, ?_, ?_, .inr ⟨fun hboth => hfreq hboth.2, rfl, rfl, ?_⟩⟩
              · rfl
              · rfl
              · rfl
              · simp [GcLocals.queue, hmove]
          · next hmove =>
            cases h
            refine ⟨_, ?_, ?_, ?_, .inr ⟨fun hboth => hmove hboth.1, rfl, rfl, ?_⟩⟩
            · rfl
            · rfl
            · rfl
            · simp [GcLocals.queue, hmove]
        · next hany => exact absurd (fullMap_any hone) hany
      · next hvalid =>
        cases h
        exact .inr (.inl ⟨hcached, by simpa using hvalid, rfl, rfl⟩)

/-- The same, with a copy as a move. -/
theorem reclaimCachedPage_spec (hone : cfg.ioUnitInPage = 1) (hwf : s.pool.WellFormed cfg)
    (hshape : TableShape cfg s)
    (h : reclaimCachedPage cfg env w victim (locals, s) pageIndex = .ok (locals', s')) :
    ∃ b, s.pool.blocks.find? victim = some b ∧ locals'.scanned = locals.scanned ∧
      ((pageIndex ∈ b.pCachedBits ∧ s' = s ∧ ∃ m, locals.lpns[0]? = some m ∧
          locals' = { locals with cachedValidLPN := locals.cachedValidLPN ++ [m] }) ∨
        (pageIndex ∉ b.pCachedBits ∧ (pageIndex, 0) ∉ b.validBits ∧ s' = s ∧ locals' = locals) ∨
        (pageIndex ∉ b.pCachedBits ∧ (pageIndex, 0) ∈ b.validBits ∧
          locals'.lpns = [b.lpns (pageIndex, 0)] ∧ locals'.cachedValidLPN = locals.cachedValidLPN ∧
          ((b.Copies cfg w pageIndex ∧ locals'.queue cfg = locals.queue cfg ∧
              ∃ new, Moves cfg env victim pageIndex (b.lpns (pageIndex, 0))
                (Bitset.new cfg.ioUnitInPage).setAll false s new s') ∨
            (¬ (cfg.blockToBlockMovement = true ∧
                w.lbaEvictionFrequency (b.lpns (pageIndex, 0)) ≤ 2) ∧ s' = s ∧
              locals'.queue cfg = locals.queue cfg ++ [b.lpns (pageIndex, 0)])))) := by
  obtain ⟨b, hb, hcases⟩ := reclaimCachedPage_cases hone hwf h
  refine ⟨b, hb, ?_⟩
  rcases hcases with ⟨hcached, rfl, m, hm, rfl⟩ | ⟨hcached, hvalid, rfl, rfl⟩ |
    ⟨hcached, hvalid, l₁, hlpns, hmarked, hscanned, ⟨hcopy, hqueue, h⟩ | ⟨hstay, rfl, rfl, hqueue⟩⟩
  · exact ⟨rfl, .inl ⟨hcached, rfl, m, hm, rfl⟩⟩
  · exact ⟨rfl, .inr (.inl ⟨hcached, hvalid, rfl, rfl⟩)⟩
  · obtain ⟨new, hmoves, requests, rfl⟩ := copyPage_spec hone (fullMap_test hone) hwf hshape h
    exact ⟨hscanned,
      .inr (.inr ⟨hcached, hvalid, hlpns, hmarked, .inl ⟨hcopy, hqueue, new, hmoves⟩⟩)⟩
  · exact ⟨hscanned, .inr (.inr ⟨hcached, hvalid, hlpns, hmarked, .inr ⟨hstay, rfl, hqueue⟩⟩)⟩

/-! ### The end of a collection -/

/-- Erasing a list of blocks takes them out of use. -/
theorem foldlM_eraseInternal (reqs : List PAL.Request)
    (h : reqs.foldlM (eraseInternal cfg) s = .ok s') :
    s'.table = s.table ∧ s'.cache = s.cache ∧ s'.movePagesToCache = s.movePagesToCache ∧
      ∀ k, s'.pool.blocks.find? k =
        if k ∈ reqs.map (·.blockIndex) then none else s.pool.blocks.find? k := by
  induction reqs generalizing s with
  | nil =>
    cases h
    exact ⟨rfl, rfl, rfl, fun k => by simp⟩
  | cons req reqs ih =>
    rw [List.foldlM_cons, Except.bind_eq_ok] at h
    obtain ⟨s₁, h₁, h⟩ := h
    rw [eraseInternal, Except.bind_eq_ok] at h₁
    obtain ⟨p, hp, h₁⟩ := h₁
    cases h₁
    obtain ⟨htable, hcache, hmoved, hblocks⟩ := ih h
    refine ⟨htable, hcache, hmoved, fun k => ?_⟩
    obtain ⟨b, -, herase, -⟩ := BlockPool.eraseBlock_spec hp
    rw [hblocks, log_pool, herase, UnorderedMap.find?_erase, List.map_cons]
    by_cases hk : k = req.blockIndex <;> by_cases hks : k ∈ reqs.map (·.blockIndex) <;>
      simp [hk, hks]

/-- A collection in default mode ends with the victims erased. -/
theorem finishCollection_spec (h : finishCollection cfg locals s = .ok s') :
    s'.table = s.table ∧ s'.cache = s.cache ∧
      ∀ k, s'.pool.blocks.find? k =
        if k ∈ locals.scanned then none else s.pool.blocks.find? k := by
  simp only [finishCollection, foldl_log] at h
  obtain ⟨htable, hcache, -, hblocks⟩ := foldlM_eraseInternal _ h
  exact ⟨htable, hcache, hblocks⟩

/-- In `cachedGC` mode the pages queued for the cache and those believed to be in
the cache also lose their table entries. -/
theorem finishCachedCollection_spec (h : finishCachedCollection cfg locals s = .ok s') :
    (∀ l, s'.table.find? l = if l ∈ locals.queue cfg ∨ l ∈ locals.cachedValidLPN then none
        else s.table.find? l) ∧
      s'.cache = s.cache ∧
      (∀ k, s'.pool.blocks.find? k =
        if k ∈ locals.scanned then none else s.pool.blocks.find? k) ∧
      s'.movePagesToCache = s.movePagesToCache ++ locals.queue cfg := by
  obtain ⟨trace, hdirty⟩ := foldl_markDirty locals.cachedValidLPN s
  simp only [finishCachedCollection, foldl_log, hdirty] at h
  rw [Except.bind_eq_ok] at h
  obtain ⟨s₁, herase, h⟩ := h
  obtain ⟨trace', hmove⟩ := foldl_handToCache
    (if cfg.blockToBlockMovement then locals.lpnListForCache else locals.lpa_list) s₁
  rw [hmove] at h
  cases h
  obtain ⟨htable, hcache, hmoved, hblocks⟩ := foldlM_eraseInternal _ herase
  refine ⟨fun l => ?_, hcache.trans ?_, fun k => (hblocks k).trans ?_, ?_⟩
  · show ((locals.queue cfg).foldl UnorderedMap.erase s₁.table).find? l = _
    have hfind : s₁.table.find? l =
        if l ∈ locals.cachedValidLPN then none else s.table.find? l := by
      rw [htable, ← UnorderedMap.find?_foldl_erase]
      split <;> rfl
    rw [UnorderedMap.find?_foldl_erase, hfind]
    by_cases hq : l ∈ locals.queue cfg <;> by_cases hc : l ∈ locals.cachedValidLPN <;>
      simp [hq, hc]
  · split <;> rfl
  · refine if_congr Iff.rfl rfl ?_
    split <;> rfl
  · show s₁.movePagesToCache ++ locals.queue cfg = _
    rw [hmoved]
    split <;> rfl

/-- Blocks that are erased store nothing. -/
theorem content_of_erased {erased : List Nat} (hblocks : ∀ k, s'.pool.blocks.find? k =
    if k ∈ erased then none else s.pool.blocks.find? k) (x : Nat × Nat) :
    s'.pool.content x = if x.1 ∈ erased then none else s.pool.content x := by
  rw [BlockPool.content, hblocks]
  split <;> rfl

end Collect

end PageMapping

end SimpleSSD.FTL
