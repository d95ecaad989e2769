import SimpleSSD.FTL.Bijection
import SimpleSSD.FTL.ProgramLoop

/-!
# The mapping caches agree with the table

A cached mapping is right when `table` maps the page, and every I/O unit of it,
to the page that the cached entry gives (`Coherent`). Neither `trim` nor `format`
looks at the mapping caches; a collection updates `cmt` in the default page loop
only and the shadow table never; and a write updates one of the two caches.
`CoherenceConditions` says that none of this meets a cached page.
-/

namespace SimpleSSD.FTL

namespace PageMapping

/-- `table` maps every I/O unit of a page to `page`. -/
def Names (cfg : Config) (s : PageMapping) (l : Nat) (page : Nat × Nat) : Prop :=
  ∃ vec, s.table.find? l = some vec ∧ ∀ idx < cfg.bitsetSize, vec[idx]? = some page

/-- Every cached mapping is the one in `table`, for each I/O unit. -/
def Coherent (cfg : Config) (s : PageMapping) : Prop := s.cache.Within cfg (s.Names cfg)

/-- A write keeps the caches right when it asks for all units, sets the entry of
its own page if that is in `cmt`, and leaves its mapping in one of the caches
only. -/
def WriteCoheres (cfg : Config) (req : Request) (s : PageMapping) : Prop :=
  (∀ idx < cfg.bitsetSize, req.wants cfg idx = true) ∧
    (req.lpn ∈ s.cache.cmt → s.table.begin?.map Prod.fst = some req.lpn) ∧
    (s.cache.deadOnArrival cfg req.lpn = true → req.lpn ∉ s.cache.cmt) ∧
    (cfg.useDeadOnArrivalPredictor = true → req.lpn ∉ s.cache.shadowwCache)

instance (cfg : Config) (req : Request) (s : PageMapping) : Decidable (s.WriteCoheres cfg req) :=
  inferInstanceAs (Decidable (_ ∧ _ ∧ _ ∧ _))

/-- A page scan keeps the caches right when the page that it takes out of the
victim is not cached, or is in `cmt` and the default page loop updates it. -/
def ScanCoheres (cfg : Config) (_w : World) (victim : Nat) (acc : GcLocals × PageMapping)
    (pageIndex : Nat) : Prop :=
  ∀ b ∈ acc.2.pool.blocks.find? victim, (pageIndex, 0) ∈ b.validBits →
    (cfg.evictPolicy = .cachedGC → pageIndex ∉ b.pCachedBits →
      acc.2.cache.Absent cfg (b.lpns (pageIndex, 0))) ∧
    (cfg.evictPolicy ≠ .cachedGC → cfg.useDeadOnArrivalPredictor = true →
      b.lpns (pageIndex, 0) ∉ acc.2.cache.shadowwCache)

instance (cfg : Config) (w : World) (victim : Nat) (acc : GcLocals × PageMapping)
    (pageIndex : Nat) : Decidable (ScanCoheres cfg w victim acc pageIndex) :=
  inferInstanceAs (Decidable (∀ b ∈ acc.2.pool.blocks.find? victim, _))

end PageMapping

/-- No call leaves a stale entry in the mapping caches. -/
@[reducible] def CoherenceConditions (cfg : Config) : StepConditions where
  write := fun _ req s => s.WriteCoheres cfg req
  scan := PageMapping.ScanCoheres cfg
  trim := fun req s => req.lpn ∈ s.table → s.cache.Absent cfg req.lpn
  format := fun range s => ∀ l ∈ s.table.keys, range.contains l = true → s.cache.Absent cfg l

namespace PageMapping

/-- The inductive form of `Coherent`: every vector of `table` names one page for
all units, and the columns of every block stand at the same page. -/
structure Coheres (cfg : Config) (s : PageMapping) : Prop where
  wf : s.pool.WellFormed cfg
  shape : TableShape cfg s
  uniform : ∀ l ∈ s.table, ∃ page, s.Names cfg l page
  aligned : s.pool.Aligned cfg
  coherent : s.Coherent cfg

section Calls

variable {cfg : Config} {env : Env} {w : World} {req : Request} {victim pageIndex lpn : Nat}
  {locals locals' : GcLocals} {s s' : PageMapping}

/-- Pages that lose or change their entry must not be cached. -/
theorem Coheres.of_table (hs : s.Coheres cfg) (hwf : s'.pool.WellFormed cfg)
    (haligned : s'.pool.Aligned cfg) (hcache : s'.cache = s.cache)
    (htable : ∀ l vec, s'.table.find? l = some vec → s.table.find? l = some vec)
    (hkeep : ∀ l, ¬ s.cache.Absent cfg l → s'.table.find? l = s.table.find? l) :
    s'.Coheres cfg := by
  refine ⟨hwf, fun l vec hvec => hs.shape l vec (htable l vec hvec), fun l hl => ?_, haligned, ?_⟩
  · obtain ⟨vec, hvec⟩ := UnorderedMap.mem_iff_find?.mp hl
    have hold := htable l vec hvec
    obtain ⟨page, vec', hvec', hall⟩ := hs.uniform l (UnorderedMap.mem_of_find? hold)
    rw [hold] at hvec'
    cases hvec'
    exact ⟨page, vec, hvec, hall⟩
  · rw [Coherent, hcache]
    refine hs.coherent.mono fun l page hcached ⟨vec, hvec, hall⟩ => ⟨vec, ?_, hall⟩
    rw [hkeep l hcached]
    exact hvec

/-! ### Reads and evictions of the cache -/

/-- The unit loop of a read loads mappings of `table`. -/
theorem readUnits_within {N : Nat → Nat × Nat → Prop} {mapping : Nat → Except Fault (Nat × Nat)}
    {fill : Bool} (l : List Nat)
    (hmap : fill = true → ∀ idx ∈ l, ∀ page, mapping idx = .ok page → N req.lpn page)
    (beginAt : Nat) (dead : Bool) (hs : s.cache.Within cfg N)
    (h : readUnits cfg env w req mapping fill l beginAt dead s = .ok s') :
    s'.cache.Within cfg N := by
  have hfill : ∀ {idx : Nat} {page : Nat × Nat} {s : PageMapping} (beginAt : Nat) (dead : Bool),
      idx ∈ l → mapping idx = .ok page → s.cache.Within cfg N →
      (s.fillMapping cfg env w fill req.lpn page beginAt dead).2.cache.Within cfg N := by
    intro idx page s beginAt dead hidx hpage hs
    rw [fillMapping]
    split
    · next hfill =>
      rw [loadMapping]
      split
      · exact hs.load_same (hmap hfill idx hidx page hpage)
      · exact hs
    · exact hs
  induction l generalizing beginAt dead s with
  | nil =>
    cases h
    exact hs
  | cons idx rest ih =>
    have hmap' : fill = true → ∀ idx ∈ rest, ∀ page, mapping idx = .ok page → N req.lpn page :=
      fun hf i hi => hmap hf i (List.mem_cons_of_mem _ hi)
    have hfill' : ∀ {idx : Nat} {page : Nat × Nat} {s : PageMapping} (beginAt : Nat) (dead : Bool),
        idx ∈ rest → mapping idx = .ok page → s.cache.Within cfg N →
        (s.fillMapping cfg env w fill req.lpn page beginAt dead).2.cache.Within cfg N :=
      fun beginAt dead hidx => hfill beginAt dead (List.mem_cons_of_mem _ hidx)
    rcases readUnits_cons cfg env w h with
      ⟨-, h⟩ | ⟨-, page, hpage, ⟨-, h⟩ | ⟨-, -, rfl⟩ | ⟨-, -, b, r, beginAt', dead', -, -, h⟩⟩
    · exact ih hmap' _ _ hs h hfill'
    · exact ih hmap' _ _ hs h hfill'
    · exact hfill _ _ List.mem_cons_self hpage hs
    · refine ih hmap' _ _ ?_ h hfill'
      exact hfill _ _ List.mem_cons_self hpage hs

theorem Coheres.readInternal (hs : s.Coheres cfg)
    (h : s.readInternal cfg env w req = .ok s') : s'.Coheres cfg := by
  have hwf := ((BlockPool.wellFormed_access cfg).touch.readInternal hs.wf).of_ok h
  have haligned := ((BlockPool.aligned_touch cfg).readInternal hs.aligned).of_ok h
  obtain ⟨htable, -⟩ := readInternal_frame h
  have hcache : s'.cache.Within cfg (s.Names cfg) := by
    rw [PageMapping.readInternal] at h
    split at h
    · next e he =>
      refine readUnits_within _ (fun hfill => by cases hfill) _ _ ?_ h
      -- the entry touched keeps its page
      refine ⟨fun l e' he' => ?_, hs.coherent.shadow⟩
      have he' : (s.cache.cmt.set 0 req.lpn _).find? l = some e' := he'
      rw [UnorderedMap.find?_set] at he'
      split at he'
      · next hl =>
        cases he'
        rw [cmtHit] at he
        split at he
        · have hright := hs.coherent.cmt _ e he
          rw [hl]
          exact hright
        · cases he
      · exact hs.coherent.cmt _ _ he'
    · split at h
      · next e he =>
        refine readUnits_within _ (fun hfill => by cases hfill) _ _ ?_ h
        refine hs.coherent.promote ?_
        rw [shadowHit] at he
        split at he
        · next hon =>
          rw [Bool.and_eq_true] at hon
          exact hs.coherent.shadow hon.1 _ _ he
        · cases he
      · split at h
        · next vec hvec =>
          refine readUnits_within _ (fun _ idx hidx page hpage => ?_) _ _ ?_ h
          · obtain ⟨page', vec', hvec', hall⟩ := hs.uniform _ (UnorderedMap.mem_of_find? hvec)
            rw [hvec] at hvec'
            cases hvec'
            have hsame := hall idx (List.mem_range.mp hidx)
            rw [(mappingAt_sat vec idx).of_ok hpage] at hsame
            cases hsame
            exact ⟨vec, hvec, hall⟩
          · exact hs.coherent
        · cases h
          exact hs.coherent
  refine ⟨hwf, fun l vec hvec => hs.shape l vec (htable ▸ hvec), fun l hl => ?_, haligned, ?_⟩
  · obtain ⟨page, vec, hvec, hall⟩ := hs.uniform l (htable ▸ hl)
    exact ⟨page, vec, htable ▸ hvec, hall⟩
  · refine hcache.mono fun l page _ hnames => ?_
    obtain ⟨vec, hvec, hall⟩ := hnames
    exact ⟨vec, htable ▸ hvec, hall⟩

theorem undoCached_cache {l : Nat} (h : s.undoCached cfg l = .ok s') : s'.cache = s.cache := by
  obtain ⟨pool, rfl⟩ := undoCached_pool h
  rfl

/-! ### Writes -/

theorem ProgramsAll.coheres {send : Bool} {new : Nat × Nat} (hs : s.Coheres cfg)
    (hwf : s'.pool.WellFormed cfg) (hp : ProgramsAll cfg s send lpn new s')
    (hcache : s'.cache.Within cfg fun l page =>
      if l = lpn then page = new else s.Names cfg l page) : s'.Coheres cfg := by
  obtain ⟨vec, hvec, hlen, hall⟩ := hp.vector
  have hother : ∀ l page, l ≠ lpn → s.Names cfg l page → s'.Names cfg l page :=
    fun l page hl ⟨vec', hvec', hall'⟩ => ⟨vec', (hp.table l hl).trans hvec', hall'⟩
  refine ⟨hwf, fun l vec' hvec' => ?_, fun l hl => ?_, hp.aligned, ?_⟩
  · by_cases hl : l = lpn
    · rw [hl, hvec] at hvec'
      cases hvec'
      exact hlen
    · rw [hp.table l hl] at hvec'
      exact hs.shape l vec' hvec'
  · by_cases hl' : l = lpn
    · rw [hl']
      exact ⟨new, vec, hvec, hall⟩
    · obtain ⟨vec', hvec'⟩ := UnorderedMap.mem_iff_find?.mp hl
      rw [hp.table l hl'] at hvec'
      obtain ⟨page, hpage⟩ := hs.uniform l (UnorderedMap.mem_of_find? hvec')
      exact ⟨page, hother l page hl' hpage⟩
  · refine hcache.mono fun l page _ hN => ?_
    split at hN
    · next hl =>
      rw [hl, hN]
      exact ⟨vec, hvec, hall⟩
    · next hl => exact hother l page hl hN

/-- Some unit of a request that is written exists. -/
theorem bitsetSize_pos (hcount : 0 < req.ioFlag.count)
    (hsize : cfg.randomIOTweak = true → req.ioFlag.dataSize = cfg.ioUnitInPage) :
    0 < cfg.bitsetSize := by
  unfold Config.bitsetSize
  split
  · next htweak =>
    obtain ⟨i, hi⟩ := Finset.card_pos.mp hcount
    have hlt := req.ioFlag.bits_lt i hi
    rw [hsize htweak] at hlt
    omega
  · exact Nat.one_pos

theorem Coheres.programPage (hcmt : cfg.enableCMT = true) (hs : s.Coheres cfg)
    (hcount : 0 < req.ioFlag.count) (hw : s.WriteCoheres cfg req)
    (h : s.programPage cfg env w req true = .ok s') : s'.Coheres cfg := by
  obtain ⟨hall, hfirst, hdead, hshadow⟩ := hw
  have hwf : s'.pool.WellFormed cfg :=
    ((BlockPool.wellFormed_invariant cfg env).programPage hs.wf trivial).of_ok h
  have hmiss : s.shadowHit cfg req.lpn = none := by
    rw [shadowHit]
    split
    · next hon =>
      rw [Bool.and_eq_true] at hon
      exact UnorderedMap.find?_eq_none_iff.mpr (hshadow hon.1)
    · rfl
  have hkey : s.writtenKey cfg req.lpn = some req.lpn := by
    rw [writtenKey]
    split
    · next hcached =>
      rw [cachedMapping, hmiss, Option.map_none, Option.or_none, Option.isSome_map, cmtHit,
        if_pos hcmt] at hcached
      obtain ⟨e, he⟩ := Option.isSome_iff_exists.mp hcached
      exact hfirst (UnorderedMap.mem_of_find? he)
    · rfl
  have hpos := bitsetSize_pos hcount (programPage_size hs.wf h)
  obtain ⟨new, hp⟩ := programPage_all hall hs.wf hs.shape hs.aligned (.inl rfl) hkey h
  refine hp.coheres hs hwf (hp.cache hpos rfl hcmt hmiss _ _ hs.coherent (fun k p hk hN => ?_) ?_
    hdead hshadow)
  · rw [if_neg hk]
    exact hN
  · rw [if_pos rfl]

/-! ### Trim and format -/

theorem Coheres.trim (hs : s.Coheres cfg)
    (habsent : req.lpn ∈ s.table → s.cache.Absent cfg req.lpn)
    (h : s.trim cfg req = .ok s') : s'.Coheres cfg := by
  have hwf := ((BlockPool.wellFormed_access cfg).touch.trim hs.wf).of_ok h
  have haligned := ((BlockPool.aligned_touch cfg).trim hs.aligned).of_ok h
  rcases trim_cases h with ⟨-, rfl⟩ | ⟨vec, pool, hvec, -, rfl⟩
  · exact hs
  · refine hs.of_table hwf haligned rfl (fun l vec' h => MappingCache.find?_of_erase h)
      fun l hcached => ?_
    show (s.table.erase req.lpn).find? l = _
    rw [UnorderedMap.find?_erase, if_neg]
    rintro rfl
    exact hcached (habsent (UnorderedMap.mem_of_find? hvec))

theorem Coheres.formatEntries {range : LPNRange} (hs : s.Coheres cfg)
    (habsent : ∀ l ∈ s.table.keys, range.contains l = true → s.cache.Absent cfg l)
    {acc : PageMapping × List Nat}
    (h : s.table.entries.foldlM (formatEntry cfg range) (s, []) = .ok acc) :
    acc.1.Coheres cfg := by
  have hloop : acc.1.Coheres cfg ∧ acc.1.cache = s.cache := by
    refine formatEntries_inv (I := fun acc => acc.1.Coheres cfg ∧ acc.1.cache = s.cache)
      (fun l vec acc acc' hl _ hacc h => ?_) ⟨hs, rfl⟩ h
    have hwf := ((BlockPool.wellFormed_access cfg).touch.formatEntry acc (l, vec)
      hacc.1.wf).of_ok h
    have haligned := ((BlockPool.aligned_touch cfg).formatEntry acc (l, vec)
      hacc.1.aligned).of_ok h
    rcases formatEntry_cases h with ⟨-, rfl⟩ | ⟨pool, hrange, -, rfl⟩
    · exact hacc
    · refine ⟨hacc.1.of_table hwf haligned rfl (fun l' vec' h => MappingCache.find?_of_erase h)
        fun l' hcached => ?_, hacc.2⟩
      show (acc.1.table.erase l).find? l' = _
      rw [UnorderedMap.find?_erase, if_neg]
      rintro rfl
      have hcache : acc.1.cache = s.cache := hacc.2
      rw [hcache] at hcached
      exact hcached (habsent l' hl hrange)
  exact hloop.1

/-! ### Collections -/

/-- A scan that moves its page: the table entry changes, and the caches know the
page in `cmt` only, where the default loop updates it. -/
theorem Coheres.moves {relocateCmt : Bool} {bit : Bitset} {new : Nat × Nat}
    (hone : cfg.ioUnitInPage = 1) (hs : s.Coheres cfg) (hwf : s'.pool.WellFormed cfg)
    (hm : Moves cfg env victim pageIndex lpn bit relocateCmt s new s')
    (hcmt : relocateCmt = false → lpn ∉ s.cache.cmt)
    (hshadow : cfg.useDeadOnArrivalPredictor = true → lpn ∉ s.cache.shadowwCache) :
    s'.Coheres cfg := by
  have hbits := Config.bitsetSize_one hone
  have hnew : s'.Names cfg lpn new := by
    refine ⟨[new], by rw [hm.table, if_pos rfl], fun idx hidx => ?_⟩
    obtain rfl : idx = 0 := by omega
    rfl
  have hother : ∀ l page, l ≠ lpn → s.Names cfg l page → s'.Names cfg l page :=
    fun l page hl ⟨vec, hvec, hall⟩ => ⟨vec, by rw [hm.table, if_neg hl]; exact hvec, hall⟩
  refine ⟨hwf, fun l vec hvec => ?_, fun l hl => ?_, BlockPool.aligned_of_one hbits _, ?_⟩
  · rw [hm.table] at hvec
    split at hvec
    · cases hvec
      exact hbits.symm
    · exact hs.shape l vec hvec
  · by_cases hl' : l = lpn
    · rw [hl']
      exact ⟨new, hnew⟩
    · obtain ⟨vec, hvec⟩ := UnorderedMap.mem_iff_find?.mp hl
      rw [hm.table, if_neg hl'] at hvec
      obtain ⟨page, hpage⟩ := hs.uniform l (UnorderedMap.mem_of_find? hvec)
      exact ⟨page, hother l page hl' hpage⟩
  · rw [Coherent, hm.cache]
    cases relocateCmt with
    | true => exact hs.coherent.relocate hother hnew hshadow
    | false =>
      refine hs.coherent.mono fun l page hcached hN => hother l page ?_ hN
      rintro rfl
      exact hcached ⟨hcmt rfl, hshadow⟩

/-- In the middle of a collection: what the `cachedGC` mode will take out of the
table is not cached. -/
structure ScanningCoherent (cfg : Config) (locals : GcLocals) (s : PageMapping) : Prop where
  coheres : s.Coheres cfg
  absent : cfg.evictPolicy = .cachedGC → ∀ l, l ∈ locals.queue cfg ∨ l ∈ locals.cachedValidLPN ∨
    locals.lpns[0]? = some l → s.cache.Absent cfg l

/-- Blocks of several units a page have no valid bits to test, so a page that the
default loop returns from was left alone. -/
theorem reclaimPage_multi (hunit : cfg.ioUnitInPage ≠ 1) (hwf : s.pool.WellFormed cfg)
    (h : reclaimPage cfg env victim (locals, s) pageIndex = .ok (locals', s')) : s' = s := by
  rw [reclaimPage] at h
  split at h
  · cases h
  · next b hb =>
    rw [Except.bind_eq_ok] at h
    obtain ⟨r, -, h⟩ := h
    simp only at h
    split at h
    · rw [Except.bind_eq_ok] at h
      obtain ⟨v, hv, -⟩ := h
      have hone := ((b.isPageValid_sat pageIndex).of_ok hv).1
      exact absurd ((hwf.used _ _ hb).2.symm.trans hone) hunit
    · cases h
      rfl

theorem ScanningCoherent.scanPage (hs : ScanningCoherent cfg locals s)
    (hkeeps : ScanCoheres cfg w victim (locals, s) pageIndex)
    (h : PageMapping.scanPage cfg env w victim (locals, s) pageIndex = .ok (locals', s')) :
    ScanningCoherent cfg locals' s' := by
  have hwf : s'.pool.WellFormed cfg :=
    ((BlockPool.wellFormed_invariant cfg env).scanPage (locals, s) pageIndex hs.coheres.wf
      (fun _ _ _ => trivial)).of_ok h
  rw [PageMapping.scanPage] at h
  split at h
  · next hmode =>
    have hone : cfg.ioUnitInPage = 1 := by
      rw [PageMapping.reclaimCachedPage] at h
      split at h
      · cases h
      · next b hb =>
        rw [Except.bind_eq_ok] at h
        obtain ⟨c, hc, -⟩ := h
        exact (hs.coheres.wf.used _ _ hb).2.symm.trans ((b.isCached_sat pageIndex).of_ok hc).1
    obtain ⟨b, hb, -, hcases⟩ :=
      reclaimCachedPage_spec hone hs.coheres.wf hs.coheres.shape h
    rcases hcases with ⟨-, rfl, m, hm, rfl⟩ | ⟨-, -, rfl, rfl⟩ |
      ⟨hcached, hvalid, hlpns, hsame, hcases⟩
    · refine ⟨hs.coheres, fun hmode l hl => hs.absent hmode l ?_⟩
      rcases hl with hl | hl | hl
      · exact .inl hl
      · rcases List.mem_append.mp hl with hl | hl
        · exact .inr (.inl hl)
        · rw [List.mem_singleton.mp hl]
          exact .inr (.inr hm)
      · exact .inr (.inr hl)
    · exact hs
    · have hpage := (hkeeps b hb hvalid).1 hmode hcached
      rcases hcases with ⟨-, hqueue, new, hm⟩ | ⟨-, rfl, hqueue⟩
      · refine ⟨hs.coheres.moves hone hwf hm (fun _ => hpage.1) hpage.2, fun _ l hl => ?_⟩
        rw [hm.cache]
        rcases hl with hl | hl | hl
        · rw [hqueue] at hl
          exact hs.absent hmode l (.inl hl)
        · rw [hsame] at hl
          exact hs.absent hmode l (.inr (.inl hl))
        · rw [hlpns] at hl
          cases hl
          exact hpage
      · refine ⟨hs.coheres, fun _ l hl => ?_⟩
        rcases hl with hl | hl | hl
        · rw [hqueue] at hl
          rcases List.mem_append.mp hl with hl | hl
          · exact hs.absent hmode l (.inl hl)
          · rw [List.mem_singleton.mp hl]
            exact hpage
        · rw [hsame] at hl
          exact hs.absent hmode l (.inr (.inl hl))
        · rw [hlpns] at hl
          cases hl
          exact hpage
  · next hmode =>
    refine ⟨?_, fun h => absurd h hmode⟩
    by_cases hone : cfg.ioUnitInPage = 1
    · obtain ⟨b, hb, _, _, _, -, ⟨-, rfl⟩ | ⟨hvalid, new, hm⟩⟩ :=
        reclaimPage_spec hone hs.coheres.wf hs.coheres.shape h
      · exact hs.coheres
      · exact hs.coheres.moves hone hwf hm (fun h => by cases h) ((hkeeps b hb hvalid).2 hmode)
    · rw [reclaimPage_multi hone hs.coheres.wf h]
      exact hs.coheres

theorem ScanningCoherent.scanVictim {acc acc' : GcLocals × PageMapping}
    (hs : ScanningCoherent cfg acc.1 acc.2)
    (hkeeps : Run.Along (PageMapping.scanPage cfg env w victim) (ScanCoheres cfg w victim) acc
      (List.range cfg.pagesInBlock))
    (h : PageMapping.scanVictim cfg env w acc victim = .ok acc') :
    ScanningCoherent cfg acc'.1 acc'.2 := by
  obtain ⟨-, locals, s, hloop, rfl⟩ := scanVictim_ok h
  have hend : ScanningCoherent cfg locals s :=
    hkeeps.foldlM_inv (I := fun acc => ScanningCoherent cfg acc.1 acc.2)
      (fun acc page acc' hacc hk h => hacc.scanPage hk h) hs hloop
  exact ⟨hend.coheres, hend.absent⟩

/-- Erasing blocks keeps the others aligned. -/
theorem aligned_of_erased {erased : List Nat} (hs : s.pool.Aligned cfg)
    (hblocks : ∀ k, s'.pool.blocks.find? k =
      if k ∈ erased then none else s.pool.blocks.find? k) : s'.pool.Aligned cfg := by
  intro k b hb
  rw [hblocks] at hb
  split at hb
  · cases hb
  · exact hs k b hb

/-- A collection keeps the caches right when its scans do. -/
theorem Coheres.doGarbageCollection {victims : List Nat} (hs : s.Coheres cfg)
    (hkeeps : s.Scans cfg env (ScanCoheres cfg) w victims)
    (h : PageMapping.doGarbageCollection cfg env w victims s = .ok s') : s'.Coheres cfg := by
  have hwf := doGarbageCollection_wellFormed hs.wf h
  rcases doGarbageCollection_cases h with rfl | ⟨locals, s₁, hlim, -, hloop, h⟩
  · exact hs
  · have hstart : ScanningCoherent cfg .empty s := by
      refine ⟨hs, fun _ l hl => ?_⟩
      have hqueue : GcLocals.empty.queue cfg = [] := by
        unfold GcLocals.queue
        split <;> rfl
      rw [hqueue] at hl
      rcases hl with hl | hl | hl <;> cases hl
    have hend : ScanningCoherent cfg locals s₁ :=
      (hkeeps hlim).foldlM_inv (I := fun acc => ScanningCoherent cfg acc.1 acc.2)
        (fun acc victim acc' hacc hpages h => hacc.scanVictim hpages h) hstart hloop
    rcases h with ⟨hmode, h⟩ | ⟨-, h⟩
    · obtain ⟨htable, hcache, hblocks, -⟩ := finishCachedCollection_spec h
      refine hend.coheres.of_table hwf (aligned_of_erased hend.coheres.aligned hblocks) hcache
        (fun l vec hvec => ?_) fun l hcached => ?_
      · rw [htable] at hvec
        split at hvec
        · cases hvec
        · exact hvec
      · rw [htable, if_neg]
        exact fun hl => hcached (hend.absent hmode l (hl.imp_right .inl))
    · obtain ⟨htable, hcache, hblocks⟩ := finishCollection_spec h
      exact hend.coheres.of_table hwf (aligned_of_erased hend.coheres.aligned hblocks) hcache
        (fun l vec hvec => by rw [htable] at hvec; exact hvec) fun l _ => by rw [htable]

/-! ### Runs -/

theorem Coheres.log (hs : s.Coheres cfg) (e : Event) : (s.log e).Coheres cfg :=
  ⟨hs.wf, hs.shape, hs.uniform, hs.aligned, hs.coherent⟩

theorem Coheres.collectIfNeeded (hs : s.Coheres cfg)
    (hkeeps : s.pool.freeBlockRatio cfg < cfg.gcThreshold →
      (s.selectVictimBlock cfg env).All fun r => r.2.Scans cfg env (ScanCoheres cfg) w r.1)
    (h : s.collectIfNeeded cfg env w true = .ok s') : s'.Coheres cfg := by
  rcases collectIfNeeded_cases h with rfl | ⟨victims, hratio, hselect, h⟩
  · exact hs
  · have hs₁ : Coheres cfg { s with pool := { s.pool with bReclaimMore := false } } :=
      ⟨(BlockPool.wellFormed_invariant cfg env).select hs.wf, hs.shape, hs.uniform, hs.aligned,
        hs.coherent⟩
    exact hs₁.doGarbageCollection ((hkeeps hratio).of_ok hselect) h

theorem Coheres.exec (hcmt : cfg.enableCMT = true) (hs : s.Coheres cfg) {call : World × Op}
    (hmeets : Op.Meets cfg env (CoherenceConditions cfg) s call)
    (h : Op.exec cfg env s call = .ok s') : s'.Coheres cfg := by
  obtain ⟨w, op⟩ := call
  have hs₀ := hs.log .request
  cases op with
  | read req =>
    rw [Op.exec] at h
    simp only [PageMapping.read] at h
    split at h
    · exact hs₀.readInternal h
    · cases h
      exact hs₀
  | write req =>
    rw [Op.exec] at h
    simp only [PageMapping.write] at h
    split at h
    · next hcount =>
      obtain ⟨hw, hgc⟩ := hmeets hcount
      rw [writeInternal, Except.bind_eq_ok] at h
      obtain ⟨s₁, hprog, h⟩ := h
      exact (hs₀.programPage hcmt hcount hw hprog).collectIfNeeded (hgc.of_ok hprog) h
    · cases h
      exact hs₀
  | trim req => exact hs₀.trim hmeets h
  | format range =>
    rw [Op.exec] at h
    simp only [PageMapping.format] at h
    rw [Except.bind_eq_ok] at h
    obtain ⟨acc, hentries, h⟩ := h
    exact (hs₀.formatEntries hmeets.1 hentries).doGarbageCollection (hmeets.2.of_ok hentries) h
  | undoCached l =>
    obtain ⟨htable, -⟩ := undoCached_frame h
    exact hs₀.of_table (((BlockPool.wellFormed_access cfg).touch.undoCached hs₀.wf).of_ok h)
      (((BlockPool.aligned_touch cfg).undoCached hs₀.aligned).of_ok h) (undoCached_cache h)
      (fun l vec hvec => by rw [htable] at hvec; exact hvec) fun l _ => by rw [htable]

/-- The warm-up writes ask for all units. -/
theorem wants_setAll {idx : Nat} (hidx : idx < cfg.bitsetSize) :
    (⟨lpn, (Bitset.new cfg.ioUnitInPage).setAll⟩ : Request).wants cfg idx = true := by
  unfold Config.bitsetSize at hidx
  unfold Request.wants
  split at hidx
  · simpa [Bitset.test, Bitset.setAll, Bitset.new] using .inl hidx
  · next htweak => simp [htweak]

theorem init_coheres (h : init cfg env = .ok s) : s.Coheres cfg := by
  have hmapped := init_mapped h
  obtain ⟨p, hp, rfl⟩ := init_eq h
  have haligned : p.Aligned cfg ∧ p.Formatted cfg := by
    refine BlockPool.init_rule (P := fun p => p.Aligned cfg ∧ p.Formatted cfg)
      ⟨?_, BlockPool.formatted_fresh cfg⟩ (fun hp ht => ⟨hp.1.takes hp.2 ht, hp.2.takes ht⟩) hp
    intro k b hb
    cases hb
  refine ⟨hmapped.wf, hmapped.shape, ?_, haligned.1, MappingCache.within_empty⟩
  rintro l ⟨⟩

theorem start_coheres {warmUp : Option World} (h : start cfg env warmUp = .ok s) :
    s.Coheres cfg := by
  refine start_rule init_coheres (fun {s s' w lpn} hs hempty hprog => ?_) h
  have hmiss : s.cachedMapping cfg lpn = none := cachedMapping_empty hempty lpn
  have hcache := programPage_cache hprog
  have hwf : s'.pool.WellFormed cfg :=
    ((BlockPool.wellFormed_invariant cfg env).programPage hs.wf trivial).of_ok hprog
  obtain ⟨new, hp⟩ := programPage_all (fun idx hidx => wants_setAll hidx) hs.wf hs.shape
    hs.aligned (.inr hmiss) (by rw [writtenKey, hmiss]; rfl) hprog
  refine hp.coheres hs hwf ?_
  rw [hcache, hempty]
  exact MappingCache.within_empty

end Calls

end PageMapping

section Reachable

variable {cfg : Config} {env : Env}

theorem run_coheres (hcmt : cfg.enableCMT = true) {warmUp : Option World}
    {calls : List (World × Op)} {s₀ s : PageMapping}
    (hstart : PageMapping.start cfg env warmUp = .ok s₀)
    (hmeets : Run.Along (Op.exec cfg env) (Op.Meets cfg env (CoherenceConditions cfg)) s₀ calls)
    (hrun : run cfg env s₀ calls = .ok s) : s.Coheres cfg :=
  hmeets.foldlM_inv (fun _ _ _ hs hm h => PageMapping.Coheres.exec hcmt hs hm h)
    (PageMapping.start_coheres hstart) hrun

/-- In every state of a run whose steps meet `CoherenceConditions`, every page in
`cmt`, and in the shadow table when it is in use, is mapped in `table`, and each
of its I/O units to the page that the cached entry gives. -/
theorem cached_mapping_coherent (hcmt : cfg.enableCMT = true) (warmUp : Option World)
    (calls : List (World × Op)) (s₀ s : PageMapping)
    (hstart : PageMapping.start cfg env warmUp = .ok s₀)
    (hmeets : Run.Along (Op.exec cfg env) (Op.Meets cfg env (CoherenceConditions cfg)) s₀ calls)
    (hrun : run cfg env s₀ calls = .ok s) : s.Coherent cfg :=
  (run_coheres hcmt hstart hmeets hrun).coherent

/-- Page 0 is written twice through `cmt` before page 1 enters `table`. -/
theorem cached_mapping_coherent_cached :
    ∃ s₀ s, PageMapping.start (.cached 3) .zero none = .ok s₀ ∧
      run (.cached 3) .zero s₀ (calls [.write (.page 0), .write (.page 0), .write (.page 1),
        .read (.page 0), .trim (.page 2)]) = .ok s ∧ s.Coherent (.cached 3) := by
  obtain ⟨s₀, hstart, hmeets, hrun⟩ := Except.exists_of_map
    (p := fun s₀ => Run.Along (Op.exec (.cached 3) .zero)
      (Op.Meets (.cached 3) .zero (CoherenceConditions (.cached 3))) s₀
        (calls [.write (.page 0), .write (.page 0), .write (.page 1),
          .read (.page 0), .trim (.page 2)]) ∧
      (run (.cached 3) .zero s₀ (calls [.write (.page 0), .write (.page 0), .write (.page 1),
        .read (.page 0), .trim (.page 2)])).map (fun _ => decide True) = .ok true)
    (by decide +kernel : (PageMapping.start (.cached 3) .zero none).map _ = .ok true)
  obtain ⟨s, hs, -⟩ := Except.exists_of_map hrun
  exact ⟨s₀, s, hstart, hs, cached_mapping_coherent (by decide) none _ s₀ s hstart hmeets hs⟩

/-- A page that is trimmed stays in `cmt`. -/
theorem cached_mapping_stale :
    ∃ s₀ s, PageMapping.start (.cached 3) .zero none = .ok s₀ ∧
      run (.cached 3) .zero s₀ (calls [.write (.page 0), .trim (.page 0)]) = .ok s ∧
      ¬ s.Coherent (.cached 3) := by
  obtain ⟨s₀, hstart, hrun⟩ := Except.exists_of_map
    (p := fun s₀ => (run (.cached 3) .zero s₀ (calls [.write (.page 0), .trim (.page 0)])).map
      (fun s => decide (0 ∈ s.cache.cmt ∧ 0 ∉ s.table)) = .ok true)
    (by decide +kernel : (PageMapping.start (.cached 3) .zero none).map _ = .ok true)
  obtain ⟨s, hs, hmem, htrimmed⟩ := Except.exists_of_map hrun
  refine ⟨s₀, s, hstart, hs, fun hcoherent => ?_⟩
  obtain ⟨e, he⟩ := UnorderedMap.mem_iff_find?.mp hmem
  obtain ⟨vec, hvec, -⟩ := hcoherent.cmt 0 e he
  exact htrimmed (UnorderedMap.mem_of_find? hvec)

end Reachable

end SimpleSSD.FTL
