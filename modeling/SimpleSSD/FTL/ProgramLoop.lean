import SimpleSSD.FTL.CacheEntries
import SimpleSSD.FTL.WritePath

/-!
# A write of all units of a page

With several I/O units a page, a write of all units programs them at the same
page of one block, because the columns of every block stand at the same page
(`Aligned`) as long as every write asks for all units. The vector that the write
sets then names one page for all units.
-/

namespace SimpleSSD.FTL

/-- The columns that the unit loops use stand at the same page. -/
def Block.Aligned (cfg : Config) (b : Block) : Prop :=
  ∀ i < cfg.bitsetSize, b.pNextWritePageIndex i = b.pNextWritePageIndex 0

namespace BlockPool

/-- Every block in use is aligned. -/
def Aligned (cfg : Config) (p : BlockPool) : Prop :=
  ∀ k b, p.blocks.find? k = some b → b.Aligned cfg

section Aligned

variable {cfg : Config} {env : Env} {p p' : BlockPool}

/-- One column is aligned. -/
theorem aligned_of_one (h : cfg.bitsetSize = 1) (p : BlockPool) : p.Aligned cfg := by
  intro k b _ i hi
  obtain rfl : i = 0 := by omega
  rfl

theorem Aligned.putBlock {k : Nat} {b : Block} (hp : p.Aligned cfg) (hb : b.Aligned cfg) :
    (p.putBlock k b).Aligned cfg := by
  intro k' c hc
  rw [BlockPool.putBlock, UnorderedMap.find?_set] at hc
  split at hc
  · cases hc
    exact hb
  · exact hp k' c hc

theorem aligned_touch (cfg : Config) : TouchClosed (Aligned cfg) := by
  intro p k b b' hp hb ha
  refine hp.putBlock fun i hi => ?_
  rw [ha.2]
  exact hp k b hb i hi

/-- A block taken into use has all columns at its first page. -/
theorem Aligned.takes {b : Block} (hp : p.Aligned cfg) (hf : p.Formatted cfg)
    (ht : p.Takes p' b) : p'.Aligned cfg := by
  intro k c hc i _
  rw [ht.find?] at hc
  split at hc
  · cases hc
    have hfree := hf.free b (ht.free.mem_iff.mpr List.mem_cons_self)
    rw [hfree.2.2.2, hfree.2.2.2]
  · exact hp k c hc i ‹_›

theorem Aligned.getLastFreeBlock {iomap : Bitset} {k : Nat} (hp : p.Aligned cfg)
    (hf : p.Formatted cfg) (h : p.getLastFreeBlock cfg env iomap = .ok (k, p')) :
    p'.Aligned cfg := by
  have hboth : p'.Aligned cfg ∧ p'.Formatted cfg :=
    getLastFreeBlock_rule (P := fun q => q.Aligned cfg ∧ q.Formatted cfg)
      (fun hq => ⟨hq.1, hq.2.congr rfl rfl⟩)
      (fun hq ht => ⟨hq.1.takes hq.2 ht, hq.2.takes ht⟩) ⟨hp, hf⟩ h
  exact hboth.1

end Aligned

end BlockPool

namespace PageMapping

section Program

variable {cfg : Config} {env : Env} {w : World} {req : Request} {send : Bool}
  {s s₁ s' : PageMapping}

/-- The lookup of a write, whatever the number of units: the key, and a table in
which the page is mapped unless it was found in the mapping caches. -/
theorem lookupForWrite_table (hsend : send = true ∨ s.cachedMapping cfg req.lpn = none)
    {key : Option Nat} {hit : Bool}
    (h : s.lookupForWrite cfg env req send = .ok (key, hit, s₁)) :
    key = s.writtenKey cfg req.lpn ∧
      (∀ l, l ≠ req.lpn ∨ l ∈ s.table → s₁.table.find? l = s.table.find? l) ∧
      (TableShape cfg s → TableShape cfg s₁) ∧
      (s.cachedMapping cfg req.lpn = none → req.lpn ∈ s₁.table) := by
  have hcached : s.cachedMapping cfg req.lpn =
      ((s.cmtHit cfg req.lpn).map MappingEntry.page).or
        ((s.shadowHit cfg req.lpn).map ShadowCacheEntry.page) := rfl
  cases lookupForWrite_cases h with
  | @hit e p hcmt hp =>
    rw [hcmt, Option.map_some, Option.some_or] at hcached
    have htable : (if send = true then s.touchCmt env req.lpn e else s).table = s.table := by
      split <;> rfl
    refine ⟨by rw [writtenKey, hcached]; rfl, fun l _ => by rw [htable], fun hshape l vec h => ?_,
      fun hnone => by rw [hcached] at hnone; cases hnone⟩
    exact hshape l vec (by rw [← htable]; exact h)
  | promoted hcmt hshadow =>
    rw [hcmt, hshadow, Option.map_none, Option.none_or, Option.map_some] at hcached
    exact ⟨by rw [writtenKey, hcached]; rfl, fun l _ => rfl, fun hshape => hshape,
      fun hnone => by rw [hcached] at hnone; cases hnone⟩
  | skipped hcmt hshadow hwarm =>
    rw [hcmt, hshadow, Option.map_none, Option.none_or, Option.map_some] at hcached
    simp [hwarm, hcached] at hsend
  | mapped hcmt hshadow htable =>
    rw [hcmt, hshadow, Option.map_none, Option.none_or, Option.map_none] at hcached
    exact ⟨by rw [writtenKey, hcached]; rfl, fun l _ => rfl, fun hshape => hshape,
      fun _ => UnorderedMap.mem_of_find? htable⟩
  | added hcmt hshadow htable =>
    rw [hcmt, hshadow, Option.map_none, Option.none_or, Option.map_none] at hcached
    have hnot := UnorderedMap.find?_eq_none_iff.mp htable
    refine ⟨by rw [writtenKey, hcached]; rfl, fun l hl => ?_, fun hshape l vec hvec => ?_,
      fun _ => ?_⟩
    · show (s.table.emplace _ _ _).find? l = _
      rw [UnorderedMap.find?_emplace hnot, if_neg]
      rintro rfl
      exact hl.elim (fun h => h rfl) hnot
    · have hvec : (s.table.emplace _ _ _).find? l = some vec := hvec
      rw [UnorderedMap.find?_emplace hnot] at hvec
      split at hvec
      · cases hvec
        exact List.length_replicate
      · exact hshape l vec hvec
    · exact UnorderedMap.mem_iff_find?.mpr
        ⟨_, (UnorderedMap.find?_emplace hnot _ _ _).trans (if_pos rfl)⟩

/-- Without a hit in the shadow table the lookup at most renews an entry of
`cmt`. -/
theorem lookupForWrite_cache (hshadow : s.shadowHit cfg req.lpn = none) {key : Option Nat}
    {hit : Bool} (h : s.lookupForWrite cfg env req send = .ok (key, hit, s₁)) :
    ∃ cmt, s₁.cache = { s.cache with cmt := cmt } ∧
      ∀ l e', cmt.find? l = some e' → ∃ e, s.cache.cmt.find? l = some e ∧ e'.page = e.page := by
  have hsame : ∀ l e', s.cache.cmt.find? l = some e' →
      ∃ e, s.cache.cmt.find? l = some e ∧ e'.page = e.page := fun l e' h => ⟨e', h, rfl⟩
  cases lookupForWrite_cases h with
  | @hit e p hcmt hp =>
    cases send with
    | false => exact ⟨_, rfl, hsame⟩
    | true =>
      refine ⟨_, rfl, fun l e' he' => ?_⟩
      rw [UnorderedMap.find?_set] at he'
      split at he'
      · next hl =>
        cases he'
        refine ⟨e, ?_, rfl⟩
        rw [cmtHit] at hcmt
        split at hcmt
        · rw [hl]
          exact hcmt
        · cases hcmt
      · exact hsame l e' he'
  | promoted _ hhit => cases hshadow.symm.trans hhit
  | skipped _ hhit => cases hshadow.symm.trans hhit
  | mapped => exact ⟨_, rfl, hsame⟩
  | added => exact ⟨_, rfl, hsame⟩

/-- The state of the program loop before unit `i`: the columns below `i` have
been programmed at the page `new`, where the other columns still stand, the
units below `i` of the vector name `new`, and from the first unit on the mapping
caches are right if `new` is. -/
structure Looping (cfg : Config) (s : PageMapping) (send : Bool) (key blk page lpn i : Nat)
    (locals : WriteLocals) (s' : PageMapping) : Prop where
  block : ∃ b, s'.pool.blocks.find? blk = some b ∧
    ∀ j < cfg.bitsetSize, b.pNextWritePageIndex j = if j < i then page + 1 else page
  others : ∀ k, k ≠ blk → s'.pool.blocks.find? k = s.pool.blocks.find? k
  vector : ∃ vec, s'.table.find? key = some vec ∧ vec.length = cfg.bitsetSize ∧
    ∀ j < i, vec[j]? = some (blk, page)
  table : ∀ l, l ≠ key → s'.table.find? l = s.table.find? l
  cache_zero : i = 0 → s'.cache = s.cache ∧ locals.deadonArrival = false
  cache : 0 < i → send = true → cfg.enableCMT = true → ∀ N N' : Nat → Nat × Nat → Prop,
    s.cache.Within cfg N → (∀ k p, k ≠ lpn → N k p → N' k p) → N' lpn (blk, page) →
    (s.cache.deadOnArrival cfg lpn = true → lpn ∉ s.cache.cmt) →
    (cfg.useDeadOnArrivalPredictor = true → lpn ∉ s.cache.shadowwCache) →
    s'.cache.Within cfg N'

/-- One unit of the program loop. -/
theorem Looping.step {key blk page idx : Nat} {locals locals' : WriteLocals}
    {s₂ : PageMapping} (hwant : req.wants cfg idx = true) (hidx : idx < cfg.bitsetSize)
    (hs : Looping cfg s send key blk page req.lpn idx locals s₂)
    (h : programUnit cfg env w req send (some key) blk (locals, s₂) idx = .ok (locals', s')) :
    Looping cfg s send key blk page req.lpn (idx + 1) locals' s' := by
  obtain ⟨key', vec', b, b', hkey, hvec', -, hb, hwrite, hpool, htable, hsent, -⟩ :=
    programUnit_spec hwant h
  cases hkey
  obtain ⟨vec, hvec, hlen, hset⟩ := hs.vector
  obtain ⟨b₀, hb₀, hnext⟩ := hs.block
  rw [hb] at hb₀
  cases hb₀
  obtain rfl : vec' = vec := Option.some.inj (hvec'.symm.trans hvec)
  have hpage : b.pNextWritePageIndex idx = page := by
    rw [hnext idx hidx, if_neg (lt_irrefl _)]
  rw [hpage] at hwrite htable hsent
  refine ⟨⟨b', ?_, fun j hj => ?_⟩, fun k hk => ?_,
    ⟨vec'.set idx (blk, page), ?_, ?_, fun j hj => ?_⟩,
    fun l hl => ?_, fun h => absurd h (Nat.succ_ne_zero _), fun _ hsend hcmt => ?_⟩
  · rw [hpool, BlockPool.putBlock, UnorderedMap.find?_set, if_pos rfl]
  · obtain ⟨-, -, -, -, -, -, -, -, hnext', -⟩ := Block.write_spec hwrite
    rw [hnext']
    by_cases hji : j = idx
    · subst hji
      rw [Function.update_self, if_pos (Nat.lt_succ_self _)]
    · rw [Function.update_of_ne hji, hnext j hj]
      have hlt : j < idx ↔ j < idx + 1 := by omega
      simp only [hlt]
  · rw [hpool, BlockPool.putBlock, UnorderedMap.find?_set, if_neg hk]
    exact hs.others k hk
  · rw [htable, UnorderedMap.find?_set, if_pos rfl]
  · rw [List.length_set, hlen]
  · by_cases hji : j = idx
    · subst hji
      rw [List.getElem?_set_self (by rw [hlen]; exact hidx)]
    · rw [List.getElem?_set_ne (Ne.symm hji)]
      exact hset j (by omega)
  · rw [htable, UnorderedMap.find?_set, if_neg hl]
    exact hs.table l hl
  · intro N N' hN hother hnew hdead hshadow
    obtain ⟨-, tick, count, hload⟩ := hsent hsend
    rw [if_pos hcmt] at hload
    have hcache : s'.cache = (s₂.cache.load cfg env w.iclCount req.lpn (blk, page) tick count
        locals.deadonArrival).2 := by
      rw [← hload]
    rw [hcache]
    rcases Nat.eq_zero_or_pos idx with rfl | hpos
    · -- the first unit: the other of the two tables must not know the page
      obtain ⟨hcache₀, hdead₀⟩ := hs.cache_zero rfl
      rw [hcache₀, hdead₀]
      refine hN.load hother hnew (fun hverdict e he => ?_) fun _ hpred e he => ?_
      · exact absurd (UnorderedMap.mem_of_find? he) (hdead (by simpa using hverdict))
      · exact absurd (UnorderedMap.mem_of_find? he) (hshadow hpred)
    · exact (hs.cache hpos hsend hcmt N N' hN hother hnew hdead hshadow).load_same hnew

/-- What a write of all units does to `table`, the columns and the mapping caches,
when the entry that it sets is that of the written page. -/
structure ProgramsAll (cfg : Config) (s : PageMapping) (send : Bool) (lpn : Nat)
    (new : Nat × Nat) (s' : PageMapping) : Prop where
  vector : ∃ vec, s'.table.find? lpn = some vec ∧ vec.length = cfg.bitsetSize ∧
    ∀ j < cfg.bitsetSize, vec[j]? = some new
  table : ∀ l, l ≠ lpn → s'.table.find? l = s.table.find? l
  aligned : s'.pool.Aligned cfg
  cache : 0 < cfg.bitsetSize → send = true → cfg.enableCMT = true →
    s.shadowHit cfg lpn = none → ∀ N N' : Nat → Nat × Nat → Prop, s.cache.Within cfg N →
      (∀ k p, k ≠ lpn → N k p → N' k p) → N' lpn new →
      (s.cache.deadOnArrival cfg lpn = true → lpn ∉ s.cache.cmt) →
      (cfg.useDeadOnArrivalPredictor = true → lpn ∉ s.cache.shadowwCache) →
      s'.cache.Within cfg N'

theorem programPage_all (hwant : ∀ idx < cfg.bitsetSize, req.wants cfg idx = true)
    (hwf : s.pool.WellFormed cfg) (hshape : TableShape cfg s) (haligned : s.pool.Aligned cfg)
    (hsend : send = true ∨ s.cachedMapping cfg req.lpn = none)
    (hkey : s.writtenKey cfg req.lpn = some req.lpn)
    (h : s.programPage cfg env w req send = .ok s') :
    ∃ new, ProgramsAll cfg s send req.lpn new s' := by
  obtain ⟨key, hit, s₁, blk, pool, locals, hlook, halloc, hused, hloop⟩ := programPage_cases h
  obtain ⟨rfl, htable₁, hshape₁, hmapped⟩ := lookupForWrite_table hsend hlook
  have hwf₁ : s₁.pool.WellFormed cfg :=
    ((BlockPool.wellFormed_access cfg).touch.lookupForWrite hwf).of_ok hlook
  have haligned₁ : s₁.pool.Aligned cfg :=
    ((BlockPool.aligned_touch cfg).lookupForWrite haligned).of_ok hlook
  obtain ⟨vec, hvec⟩ : ∃ vec, s₁.table.find? req.lpn = some vec := by
    refine UnorderedMap.mem_iff_find?.mp ?_
    cases hcached : s.cachedMapping cfg req.lpn with
    | none => exact hmapped hcached
    | some page =>
      -- the first entry of `table` is that of the page
      rw [writtenKey, hcached, Option.isSome_some, if_pos rfl] at hkey
      obtain ⟨⟨l, vec⟩, hfirst, rfl⟩ := Option.map_eq_some_iff.mp hkey
      have hmem := UnorderedMap.mem_of_find? (UnorderedMap.find?_of_begin? hfirst)
      obtain ⟨vec', hvec'⟩ := UnorderedMap.mem_iff_find?.mp hmem
      exact UnorderedMap.mem_iff_find?.mpr ⟨vec', (htable₁ _ (.inr hmem)).trans hvec'⟩
  rw [hkey] at hloop
  have hpool₂ : (s₁.programStart send pool).pool = pool := programStart_pool pool
  have htable₂ : (s₁.programStart send pool).table = s₁.table := programStart_table pool
  have hcache₂ : (s₁.programStart send pool).cache = s₁.cache := programStart_cache pool
  generalize s₁.programStart send pool = s₂ at hloop hpool₂ htable₂ hcache₂
  obtain ⟨b, hb⟩ := UnorderedMap.mem_iff_find?.mp hused
  have hpool : pool.Aligned cfg := haligned₁.getLastFreeBlock hwf₁.toFormatted halloc
  have hend : Looping cfg s₂ send req.lpn blk (b.pNextWritePageIndex 0) req.lpn
      cfg.bitsetSize locals s' := by
    refine Run.foldlM_range (I := fun i acc => Looping cfg s₂ send req.lpn blk
      (b.pNextWritePageIndex 0) req.lpn i acc.1 acc.2)
      (fun i acc acc' hi hacc h => hacc.step (hwant i hi) hi h) ?_ hloop
    refine ⟨⟨b, by rw [hpool₂]; exact hb, fun j hj => ?_⟩, fun _ _ => rfl,
      ⟨vec, by rw [htable₂]; exact hvec, hshape₁ hshape _ _ hvec, fun j hj => absurd hj
        (Nat.not_lt_zero j)⟩, fun _ _ => rfl, fun _ => ⟨rfl, rfl⟩, fun h => absurd h (lt_irrefl _)⟩
    rw [if_neg (Nat.not_lt_zero j)]
    exact hpool blk b hb j hj
  refine ⟨(blk, b.pNextWritePageIndex 0), hend.vector, fun l hl => ?_, fun k c hc => ?_,
    fun hpos hpal hcmt hshadow N N' hN hother hnew hdead hmiss => ?_⟩
  · rw [hend.table l hl, htable₂]
    exact htable₁ l (.inl hl)
  · by_cases hk : k = blk
    · obtain ⟨b', hb', hnext⟩ := hend.block
      rw [hk, hb'] at hc
      cases hc
      intro j hj
      have hpos : 0 < cfg.bitsetSize := by omega
      rw [hnext j hj, hnext 0 hpos, if_pos hj, if_pos hpos]
    · rw [hend.others k hk, hpool₂] at hc
      exact hpool k c hc
  · obtain ⟨cmt, hcache₁, hpages⟩ := lookupForWrite_cache hshadow hlook
    refine hend.cache hpos hpal hcmt N N' ?_ hother hnew ?_ ?_
    · rw [hcache₂, hcache₁]
      refine ⟨fun l e he => ?_, hN.shadow⟩
      obtain ⟨e₀, he₀, hpage⟩ := hpages l e he
      rw [hpage]
      exact hN.cmt l e₀ he₀
    · rw [hcache₂, hcache₁]
      intro hverdict hmem
      obtain ⟨e, he⟩ := UnorderedMap.mem_iff_find?.mp hmem
      obtain ⟨e₀, he₀, -⟩ := hpages _ e he
      exact hdead hverdict (UnorderedMap.mem_of_find? he₀)
    · rw [hcache₂, hcache₁]
      exact hmiss

end Program

end PageMapping

end SimpleSSD.FTL
