import SimpleSSD.FTL.Reclaim
import SimpleSSD.FTL.VictimSampling

/-!
# The victims of a collection (page_mapping.cc:779–969)

`selectVictimBlock` lists `min(n, full)` blocks when all goes well: distinct, programmed to their
last page and, under the policies that count valid pages, with the fewest of them. Such a list is
safe to collect (`doGarbageCollection_found`): no victim is out of use when its scan begins, nor
when it is erased, because a scan only takes further blocks into use, and an erase takes only its
own block out.

Two things go wrong. The policies that look at the cache call `findVictimBlock` once for each
victim, and it leaves its answer in the vector, so all victims are the same block
(`findVictimBlocks_eq`). And the random policies sample a number of entries of `weight` that has
nothing to do with how many there are.
-/

namespace SimpleSSD.FTL

/-- The environment in which a selection draws the given numbers. -/
def Env.drawing (env : Env) (draws : List Nat) : Env := { env with draws := fun _ => draws }

namespace PageMapping

variable {cfg : Config} {env : Env} {w : World} {s : PageMapping} {n : Nat} {victims : List Nat}

/-! ### A collection of distinct blocks in use -/

/-- The scan of a page leaves the queue of erases as it is and every block in use. -/
theorem scan_rule (cfg : Config) (env : Env) (done used : List Nat) :
    ScanRule cfg env (fun _ _ => True) Fault.Found
      fun acc => acc.1.scanned = done ∧ ∀ k ∈ used, k ∈ acc.2.pool.blocks where
  copyPage := by
    intro victim pageIndex lpns bit relocateCmt acc hacc _
    obtain ⟨locals, s⟩ := acc
    obtain ⟨hdone, hused⟩ := hacc
    have halloc : (s.pool.getLastFreeBlock cfg env bit).Sat
        (fun r => ∀ k ∈ used, k ∈ r.2.blocks) Fault.Found := by
      refine (BlockPool.getLastFreeBlock_faults bit).with_eq.mono (fun r hr k hk => ?_)
        fun _ he => he.2
      obtain ⟨b, hb⟩ := UnorderedMap.mem_iff_find?.mp (hused k hk)
      exact UnorderedMap.mem_of_find? (BlockPool.find?_getLastFreeBlock hr.2 hb)
    refine halloc.bind fun q hq => ?_
    have hclosed : AccessClosed fun p => ∀ k ∈ used, k ∈ p.blocks := by
      intro p k b b' hp hb _ k' hk'
      exact (UnorderedMap.mem_set _ _).mpr (.inr (hp k' hk'))
    refine Run.foldlM_sat (I := fun acc : GcLocals × PageMapping =>
      acc.1.scanned = done ∧ ∀ k ∈ used, k ∈ acc.2.pool.blocks) (fun acc idx hacc => ?_) ⟨hdone, hq⟩
    refine (hclosed.copyUnit acc idx hacc.2).mono (fun r hr => ⟨?_, hr.1⟩) fun _ he => he.2
    rw [GcLocals.scanned, hr.2]
    exact hacc.1
  locals := by
    intro locals locals' s h heq
    refine ⟨?_, h.2⟩
    rw [GcLocals.scanned, heq]
    exact h.1
  plain := fun he => he.1.2

/-- The scan of victims in use queues an erase for each. -/
theorem foldlM_scanVictim_found (used : List Nat) (hused : ∀ k ∈ victims, k ∈ used) :
    ∀ acc : GcLocals × PageMapping, (∀ k ∈ used, k ∈ acc.2.pool.blocks) →
      (victims.foldlM (scanVictim cfg env w) acc).Sat
        (fun r => r.1.scanned = acc.1.scanned ++ victims ∧ ∀ k ∈ used, k ∈ r.2.pool.blocks)
        Fault.Found := by
  induction victims with
  | nil =>
    intro acc hacc
    exact ⟨(List.append_nil _).symm, hacc⟩
  | cons v victims ih =>
    intro acc hacc
    have hv : v ∈ acc.2.pool.blocks := hacc v (hused v List.mem_cons_self)
    rw [List.foldlM_cons, scanVictim, if_neg (not_not.mpr hv)]
    refine Except.Sat.bind (Q := fun r : GcLocals × PageMapping =>
      r.1.scanned = acc.1.scanned ++ [v] ∧ ∀ k ∈ used, k ∈ r.2.pool.blocks) ?_ fun r hr => ?_
    · -- the pages of the victim, then its erase
      refine (Run.foldlM_sat (fun acc' page hacc' => (scan_rule cfg env acc.1.scanned used).scanPage
        acc' page hacc' fun _ _ _ => trivial) ⟨rfl, hacc⟩).bind fun r hr => ⟨?_, hr.2⟩
      rw [← hr.1]
      simp [GcLocals.scanned]
    · refine (ih (fun k hk => hused k (List.mem_cons_of_mem _ hk)) r hr.2).mono (fun r' hr' => ?_)
        fun _ he => he
      rw [hr'.1, hr.1, List.append_assoc]
      exact ⟨rfl, hr'.2⟩

/-- A collection of distinct blocks in use finds each of them, when it scans it and when it erases
it. -/
theorem doGarbageCollection_found (w : World) (hnodup : victims.Nodup)
    (hused : ∀ v ∈ victims, v ∈ s.pool.blocks) :
    (doGarbageCollection cfg env w victims s).Sat (fun _ => True) Fault.Found := by
  rw [doGarbageCollection]
  split
  · trivial
  · split
    · trivial
    · refine (@foldlM_scanVictim_found cfg env w victims victims (fun _ h => h)
        (.empty, s) hused).bind fun r hr => ?_
      obtain ⟨locals, s₁⟩ := r
      have hscanned : locals.eraseRequests.map (·.blockIndex) = victims := hr.1
      -- the erases are those of the victims, all of them still in use
      have herase : ∀ s₂ : PageMapping, s₂.pool = s₁.pool →
          (locals.eraseRequests.foldlM (eraseInternal cfg) s₂).Sat (fun _ => True) Fault.Found := by
        intro s₂ hpool
        obtain ⟨s₃, h, -⟩ := @foldlM_eraseInternal_ok cfg s₂ locals.eraseRequests
          (hscanned ▸ hnodup) fun v hv => hpool ▸ hr.2 v (hscanned ▸ hv)
        rw [h]
        trivial
      dsimp only
      split
      · obtain ⟨trace, hdirty⟩ := foldl_markDirty locals.cachedValidLPN s₁
        simp only [finishCachedCollection, foldl_log, hdirty]
        refine Except.Sat.bind (Q := fun _ => True) ?_ fun _ _ => trivial
        split
        · exact herase _ rfl
        · exact herase _ rfl
      · simp only [finishCollection, foldl_log]
        exact herase _ rfl

/-! ### The lists of the two ways to select -/

/-- The cache-aware order is total and transitive: the lexicographic order of valid pages and, the
other way around, cached pages. -/
instance : Std.Total fun a b => cachedBefore a b = true where
  total a b := by
    simp only [cachedBefore]
    split <;> split <;> simp_all <;> omega

instance : IsTrans (Nat × Nat × Nat) fun a b => cachedBefore a b = true where
  trans a b c hab hbc := by
    simp only [cachedBefore] at hab hbc ⊢
    split at hab <;> split at hbc <;> split <;> simp_all <;> omega

/-- `findVictimBlock` names the same block every time: one with the fewest valid pages. -/
theorem findVictimBlocks_eq {weight : List (Nat × Nat × Nat)} (hweight : weight ≠ []) :
    ∃ v ∈ weight, (∀ u ∈ weight, v.2.2 ≤ u.2.2) ∧
      ∀ m, findVictimBlocks m weight = List.replicate m v.1 := by
  have hperm := List.perm_insertionSort (fun a b => cachedBefore a b = true) weight
  have hsorted := List.pairwise_insertionSort (fun a b => cachedBefore a b = true) weight
  cases hsort : weight.insertionSort fun a b => cachedBefore a b = true with
  | nil =>
    rw [hsort] at hperm
    exact absurd hperm.nil_eq.symm hweight
  | cons v rest =>
    rw [hsort] at hperm hsorted
    refine ⟨v, hperm.subset List.mem_cons_self, fun u hu => ?_, fun m => ?_⟩
    · rcases List.mem_cons.mp (hperm.symm.subset hu) with rfl | hu
      · exact le_rfl
      · have hbefore := List.rel_of_pairwise_cons hsorted hu
        rw [cachedBefore] at hbefore
        split at hbefore
        · next heq => exact heq.le
        · exact of_decide_eq_true hbefore
    · -- the second call sorts what the first one has sorted
      have hagain : ∀ m, findVictimBlocks m (v :: rest) = List.replicate m v.1 := by
        intro m
        induction m with
        | zero => rfl
        | succ m ih =>
          rw [findVictimBlocks, hsorted.insertionSort_eq]
          dsimp only
          rw [ih, List.replicate_succ]
      cases m with
      | zero => rfl
      | succ m =>
        rw [findVictimBlocks, hsort]
        dsimp only
        rw [hagain, List.replicate_succ]

/-! ### Valid lists -/

/-- The valid pages of a block as the policy counts them. -/
def countedPages (cfg : Config) (b : Block) : Nat :=
  if byCache cfg then b.getValidPageCount else b.getValidPageCountRaw

/-- A list of victims as `selectVictimBlock` is meant to return it for `n` blocks to reclaim. -/
structure ValidVictims (cfg : Config) (s : PageMapping) (n : Nat) (victims : List Nat) : Prop where
  length : victims.length = min n (s.fullBlocks cfg).length
  nodup : victims.Nodup
  full : s.FullIn cfg victims
  fewest : cfg.evictPolicy = .greedy ∨ byCache cfg → ∀ v ∈ s.fullBlocks cfg, v.1 ∈ victims →
    ∀ e ∈ s.fullBlocks cfg, e.1 ∉ victims → countedPages cfg v.2 ≤ countedPages cfg e.2

/-- Victims are in use. -/
theorem ValidVictims.used (h : ValidVictims cfg s n victims) :
    ∀ v ∈ victims, v ∈ s.pool.blocks := by
  intro v hv
  obtain ⟨b, hb⟩ := h.full v hv
  exact UnorderedMap.mem_iff.mpr ⟨b, (List.mem_filter.mp hb).1⟩

theorem nodup_fullBlocks : ((s.fullBlocks cfg).map Prod.fst).Nodup :=
  s.pool.blocks.nodupKeys.sublist (List.filter_sublist.map Prod.fst)

/-- Full blocks with one id are one block. -/
theorem fullBlocks_unique {k : Nat} {b b' : Block} (h : (k, b) ∈ s.fullBlocks cfg)
    (h' : (k, b') ∈ s.fullBlocks cfg) : b = b' :=
  UnorderedMap.value_unique (List.mem_filter.mp h).1 (List.mem_filter.mp h').1

/-- The list of a policy that looks at the cache has one block again and again. -/
theorem valid_byCache_iff (hcache : byCache cfg) :
    ValidVictims cfg s n (findVictimBlocks (min n (s.fullBlocks cfg).length)
      (s.calculateVictimCachedWeight cfg)) ↔ min n (s.fullBlocks cfg).length ≤ 1 := by
  by_cases hempty : s.fullBlocks cfg = []
  · have hzero : min n (s.fullBlocks cfg).length = 0 := by rw [hempty]; exact Nat.min_zero n
    rw [hzero]
    refine iff_of_true ⟨hzero.symm, List.nodup_nil, fun k hk => ?_, fun _ v hv => ?_⟩
      (Nat.zero_le 1)
    · cases hk
    · rw [hempty] at hv
      cases hv
  have hweight : s.calculateVictimCachedWeight cfg ≠ [] := by
    rw [calculateVictimCachedWeight, Ne, List.map_eq_nil_iff]
    exact hempty
  obtain ⟨v, hv, hleast, hlist⟩ := findVictimBlocks_eq hweight
  rw [hlist]
  constructor
  · intro h
    exact List.nodup_replicate.mp h.nodup
  · intro hle
    obtain ⟨e, he, rfl⟩ := List.mem_map.mp hv
    refine ⟨List.length_replicate, List.nodup_replicate.mpr hle, fun k hk => ?_,
      fun _ u hu hsel o ho _ => ?_⟩
    · obtain rfl := List.eq_of_mem_replicate hk
      exact ⟨e.2, he⟩
    · have hid : u.1 = e.1 := List.eq_of_mem_replicate hsel
      have hsame : u.2 = e.2 := fullBlocks_unique (k := u.1) hu (hid ▸ he)
      rw [countedPages, countedPages, if_pos hcache, if_pos hcache, hsame]
      exact hleast _ (List.mem_map_of_mem ho)

/-- So is the order of the weights, with a zero denominator last. -/
instance : Std.Total fun a b : Weighed => lighter a.2 b.2 = true where
  total a b := by
    cases ha : a.2 <;> cases hb : b.2 <;> simp [lighter, le_total]

instance : IsTrans Weighed fun a b => lighter a.2 b.2 = true where
  trans a b c hab hbc := by
    cases ha : a.2 <;> cases hb : b.2 <;> cases hc : c.2 <;> simp_all [lighter]
    exact hab.trans hbc

/-- The first `m` entries of `weight` in the order of their weights. -/
def lightest (m : Nat) (weight : List Weighed) : List Weighed :=
  (weight.insertionSort fun a b => lighter a.2 b.2).take m

theorem lightest_subperm (m : Nat) (weight : List Weighed) : (lightest m weight).Subperm weight :=
  (List.take_sublist _ _).subperm.trans (List.perm_insertionSort _ weight).subperm

/-- No entry that is left out is lighter than one that is not. -/
theorem lightest_le {m : Nat} {weight : List Weighed} {a b : Weighed} (ha : a ∈ lightest m weight)
    (hb : b ∈ weight) (hout : b ∉ lightest m weight) : lighter a.2 b.2 = true := by
  have hsorted := List.pairwise_insertionSort (fun a b : Weighed => lighter a.2 b.2 = true) weight
  rw [← List.take_append_drop m (weight.insertionSort _), List.pairwise_append] at hsorted
  refine hsorted.2.2 a ha b ?_
  have hmem := (List.mem_insertionSort fun a b : Weighed => lighter a.2 b.2 = true).mpr hb
  rw [← List.take_append_drop m (weight.insertionSort _), List.mem_append] at hmem
  exact hmem.resolve_left hout

/-- A list from `weight` has distinct blocks, and as many as it should if the sample is large
enough. -/
theorem valid_byWeight_iff (hcache : ¬ byCache cfg) {weight sample : List Weighed}
    (hids : weight.map Prod.fst = (s.fullBlocks cfg).map Prod.fst) (hsub : sample.Subperm weight)
    (hgreedy : cfg.evictPolicy = .greedy → sample =
      (s.fullBlocks cfg).map fun e => (e.1, some (e.2.getValidPageCountRaw : Rat))) :
    ValidVictims cfg s n ((lightest (min n sample.length) sample).map Prod.fst) ↔
      min n sample.length = min n (s.fullBlocks cfg).length := by
  have hlen : ((lightest (min n sample.length) sample).map Prod.fst).length =
      min n sample.length := by
    rw [List.length_map, lightest, List.length_take, List.length_insertionSort]
    omega
  constructor
  · intro h
    rw [← h.length, hlen]
  · intro hcount
    obtain ⟨l, hperm, hsublist⟩ := (lightest_subperm (min n sample.length) sample).trans hsub
    have hchosen : (l.map Prod.fst).Sublist ((s.fullBlocks cfg).map Prod.fst) :=
      hids ▸ hsublist.map Prod.fst
    have hperm := hperm.map Prod.fst
    refine ⟨hlen.trans hcount, hperm.nodup_iff.mp (nodup_fullBlocks.sublist hchosen),
      fullIn_of_subset fun k hk => hchosen.subset (hperm.mem_iff.mpr hk),
      fun hpolicy v hv hsel e he hout => ?_⟩
    have hsample := hgreedy (hpolicy.resolve_right hcache)
    obtain ⟨a, ha, hav⟩ := List.mem_map.mp hsel
    have hmem : a ∈ sample := (lightest_subperm _ _).subset ha
    rw [hsample] at hmem
    obtain ⟨u, hu, rfl⟩ := List.mem_map.mp hmem
    have hsame : u.2 = v.2 := fullBlocks_unique (k := v.1) (hav ▸ hu) hv
    have hin : (e.1, some (e.2.getValidPageCountRaw : Rat)) ∈ sample := by
      rw [hsample]
      exact List.mem_map_of_mem he
    have hle := lightest_le ha hin fun h => hout (List.mem_map_of_mem h)
    rw [countedPages, countedPages, if_neg hcache, if_neg hcache, ← hsame]
    exact_mod_cast of_decide_eq_true hle

/-! ### What `selectVictimBlock` returns -/

theorem selectVictimBlock_byCache (hcache : byCache cfg) (htarget : s.reclaimTarget cfg = .ok n)
    {r : List Weighed} (hr : s.sampleWeight cfg env n [] = .ok r) :
    s.selectVictimBlock cfg env =
      .ok (findVictimBlocks (min n (s.fullBlocks cfg).length) (s.calculateVictimCachedWeight cfg),
        { s with pool := { s.pool with bReclaimMore := false } }) := by
  have hweight : s.victimWeight cfg env = .ok [] := if_pos hcache
  have hcached : cachedWeight cfg { s with pool := { s.pool with bReclaimMore := false } } =
      s.calculateVictimCachedWeight cfg := if_pos hcache
  have hlen : (s.calculateVictimCachedWeight cfg).length = (s.fullBlocks cfg).length :=
    List.length_map _
  rw [selectVictimBlock, htarget, hweight, ← hlen]
  simp only [Except.ok_bind, hr, hcached]
  split
  · rfl
  · next hno =>
    -- the policy is `cachedGC`, and no block is full
    have hmode : cfg.evictPolicy = .cachedGC := hcache.resolve_right fun h => hno (.inr h)
    have hempty : s.calculateVictimCachedWeight cfg = [] := by
      by_contra hne
      exact hno (.inl ⟨hmode, hne⟩)
    rw [sampleWeight, if_neg (by rw [sampled, hmode]; decide)] at hr
    cases hr
    rw [hempty, List.insertionSort_nil, List.length_nil, List.length_nil, Nat.min_zero]
    rfl

theorem selectVictimBlock_byWeight (hcache : ¬ byCache cfg) (htarget : s.reclaimTarget cfg = .ok n)
    {weight sample : List Weighed} (hweight : s.calculateVictimWeight cfg env = .ok weight)
    (hsample : s.sampleWeight cfg env n weight = .ok sample) :
    s.selectVictimBlock cfg env =
      .ok ((lightest (min n sample.length) sample).map Prod.fst,
        { s with pool := { s.pool with bReclaimMore := false } }) := by
  have hweight' : s.victimWeight cfg env = .ok weight := (if_neg hcache).trans hweight
  have hno : ¬ ((cfg.evictPolicy = .cachedGC ∧
      cachedWeight cfg { s with pool := { s.pool with bReclaimMore := false } } ≠ []) ∨
        cfg.pageAwareofCache = true) :=
    fun h => hcache (h.imp And.left id)
  rw [selectVictimBlock, htarget, hweight']
  simp only [Except.ok_bind, hsample]
  rw [if_neg hno, List.length_insertionSort]
  rfl

/-- A list comes back only if the loop has found its sample. -/
theorem sampleWeight_length (hrandom : sampled cfg) {weight r : List Weighed}
    (hr : s.sampleWeight cfg env n weight = .ok r) :
    r.length = randomRange cfg n ∧ randomRange cfg n ≤ weight.length := by
  rw [sampleWeight, if_pos hrandom] at hr
  obtain ⟨hlen, w', hw'⟩ := Sampling.start.of_ok (Nat.zero_le _) hr
  refine ⟨hlen, ?_⟩
  have hspec := hw'.spec
  have hle := List.countP_le_length (p := unselected) (l := weight)
  omega

/-- A sample has each entry at most as often as `weight`. -/
theorem sampleWeight_subperm {weight r : List Weighed}
    (hr : s.sampleWeight cfg env n weight = .ok r) : r.Subperm weight := by
  rw [sampleWeight] at hr
  split at hr
  · obtain ⟨-, w', hw'⟩ := Sampling.start.of_ok (Nat.zero_le _) hr
    have hsubperm := (List.sublist_append_left r _).subperm.trans hw'.perm.subperm
    exact hsubperm.trans List.filter_sublist.subperm
  · cases hr
    exact List.Subperm.refl _

/-- Whatever the random policies draw, a selection returns a valid list, which is safe to
collect. -/
def SelectsValid (cfg : Config) (env : Env) (s : PageMapping) (n : Nat) : Prop :=
  ∀ draws, Recurrent (s.fullBlocks cfg).length draws → ∃ k victims s',
    s.selectVictimBlock cfg (env.drawing ((List.range k).map draws)) = .ok (victims, s') ∧
    ValidVictims cfg s n victims ∧
    ∀ w, (doGarbageCollection cfg env w victims s').Sat (fun _ => True) Fault.Found

/-- Counting hits every position again and again. -/
theorem recurrent_id (m : Nat) : Recurrent m id := by
  intro t i hi
  refine ⟨m * t + i, ?_, ?_⟩
  · have hle : t ≤ m * t := Nat.le_mul_of_pos_left t (by omega)
    omega
  · rw [id, Nat.mul_add_mod, Nat.mod_eq_of_lt hi]

/-- Valid lists are safe to collect. -/
theorem SelectsValid.of_valid
    (h : ∀ draws, Recurrent (s.fullBlocks cfg).length draws → ∃ k victims,
      s.selectVictimBlock cfg (env.drawing ((List.range k).map draws)) =
        .ok (victims, { s with pool := { s.pool with bReclaimMore := false } }) ∧
      ValidVictims cfg s n victims) : SelectsValid cfg env s n := by
  intro draws hdraws
  obtain ⟨k, victims, hselect, hvalid⟩ := h draws hdraws
  exact ⟨k, victims, _, hselect, hvalid,
    fun w => doGarbageCollection_found w hvalid.nodup hvalid.used⟩

/-- The sample is found when there are enough entries. -/
theorem sampleWeight_exits {weight : List Weighed} (hweight : ∀ v ∈ weight, unselected v = true)
    (hrange : sampled cfg → randomRange cfg n ≤ weight.length) {draws : Nat → Nat}
    (hdraws : Recurrent weight.length draws) :
    ∃ k r, s.sampleWeight cfg (env.drawing ((List.range k).map draws)) n weight = .ok r := by
  by_cases hrandom : sampled cfg
  · have hcount : weight.countP unselected = weight.length := List.countP_eq_length.mpr hweight
    obtain ⟨k, r, hr⟩ := sampleVictims_exits hdraws (randomRange cfg n) 0 weight [] rfl
      (Nat.le_add_left _ _) (hcount ▸ hrange hrandom)
    refine ⟨k, r, ?_⟩
    rw [sampleWeight, if_pos hrandom]
    rw [← List.range_eq_range'] at hr
    exact hr
  · refine ⟨0, weight, ?_⟩
    rw [sampleWeight, if_neg hrandom]

/-- A selection that returns has found its sample. -/
theorem selectVictimBlock_samples {weight : List Weighed} {r : List Nat × PageMapping}
    (htarget : s.reclaimTarget cfg = .ok n) (hweight : s.victimWeight cfg env = .ok weight)
    (h : s.selectVictimBlock cfg env = .ok r) :
    ∃ sample, s.sampleWeight cfg env n weight = .ok sample := by
  rw [selectVictimBlock, htarget, Except.ok_bind, hweight, Except.ok_bind, Except.bind_eq_ok] at h
  obtain ⟨sample, hsample, -⟩ := h
  exact ⟨sample, hsample⟩

/-- Without the cache every policy weighs the full blocks, `greedy` by their valid pages. -/
theorem calculateVictimWeight_ok (hcache : ¬ byCache cfg) (hpolicy : cfg.evictPolicy ≠ .other) :
    ∃ weight, s.calculateVictimWeight cfg env = .ok weight ∧
      weight.map Prod.fst = (s.fullBlocks cfg).map Prod.fst ∧
      (cfg.evictPolicy = .greedy →
        weight = (s.fullBlocks cfg).map fun e => (e.1, some (e.2.getValidPageCountRaw : Rat))) := by
  rw [calculateVictimWeight]
  split
  · exact ⟨_, rfl, by rw [List.map_map]; rfl, fun _ => rfl⟩
  · exact ⟨_, rfl, by rw [List.map_map]; rfl, fun _ => rfl⟩
  · exact ⟨_, rfl, by rw [List.map_map]; rfl, fun _ => rfl⟩
  · next hmode => exact ⟨_, rfl, by rw [List.map_map]; rfl, fun h => by rw [hmode] at h; cases h⟩
  · next hmode => exact ⟨_, rfl, by rw [List.map_map]; rfl, fun h => by rw [hmode] at h; cases h⟩
  · next hmode => exact absurd (.inl hmode) hcache
  · next hmode => exact absurd hmode hpolicy

/-- The conditions under which a selection of `n` blocks goes well. -/
structure SelectsWell (cfg : Config) (s : PageMapping) (n : Nat) : Prop where
  byCache : byCache cfg → min n (s.fullBlocks cfg).length ≤ 1 ∧
    (sampled cfg → randomRange cfg n = 0)
  byWeight : ¬ PageMapping.byCache cfg → sampled cfg →
    randomRange cfg n ≤ (s.fullBlocks cfg).length ∧
      min n (randomRange cfg n) = min n (s.fullBlocks cfg).length

/-- In every pool of a run and for every policy and number of blocks to reclaim: a selection
returns a valid list if and only if a policy that looks at the cache needs one block at most and
samples none, and another that samples has a range between the victims it needs and the full
blocks. -/
theorem selects_valid_iff (hpolicy : cfg.evictPolicy ≠ .other)
    (hblocks : cfg.totalPhysicalBlocks < 2 ^ 32) (hs : s.pool.Reachable cfg env)
    (htarget : s.reclaimTarget cfg = .ok n) :
    SelectsValid cfg env s n ↔ SelectsWell cfg s n := by
  by_cases hcache : byCache cfg
  · have hvalid := valid_byCache_iff (s := s) (n := n) hcache
    constructor
    · intro h
      obtain ⟨k, victims, s', hselect, hlist, -⟩ := h id (recurrent_id _)
      obtain ⟨r, hr⟩ := selectVictimBlock_samples htarget (if_pos hcache) hselect
      rw [selectVictimBlock_byCache hcache htarget hr] at hselect
      cases hselect
      exact ⟨fun _ =>
        ⟨hvalid.mp hlist, fun hrandom => Nat.le_zero.mp (sampleWeight_length hrandom hr).2⟩,
        fun hno => absurd hcache hno⟩
    · intro h
      obtain ⟨hfew, hrange⟩ := h.byCache hcache
      refine SelectsValid.of_valid fun draws hdraws => ?_
      obtain ⟨k, r, hr⟩ :=
        @sampleWeight_exits cfg env s n [] (fun v hv => absurd hv List.not_mem_nil)
        (fun hrandom => (hrange hrandom).le) draws fun m i hi => absurd hi (Nat.not_lt_zero i)
      exact ⟨k, _, selectVictimBlock_byCache hcache htarget hr, hvalid.mpr hfew⟩
  · obtain ⟨weight, hweight, hids, hgreedy⟩ := @calculateVictimWeight_ok cfg env s hcache hpolicy
    have hlen : weight.length = (s.fullBlocks cfg).length := by
      simpa using congrArg List.length hids
    have hfresh : ∀ v ∈ weight, unselected v = true :=
      unselected_of_ids hblocks hs.partitioned fun k hk => hids ▸ hk
    -- the draws do not matter for the weights
    have hweights : ∀ draws, s.calculateVictimWeight cfg (env.drawing draws) = .ok weight :=
      fun _ => hweight
    have hvalid : ∀ {draws sample}, s.sampleWeight cfg (env.drawing draws) n weight = .ok sample →
        (ValidVictims cfg s n ((lightest (min n sample.length) sample).map Prod.fst) ↔
          min n sample.length = min n (s.fullBlocks cfg).length) := by
      intro draws sample hsample
      refine valid_byWeight_iff hcache hids (sampleWeight_subperm hsample) fun hmode => ?_
      rw [sampleWeight, if_neg (by rw [sampled, hmode]; decide)] at hsample
      cases hsample
      exact hgreedy hmode
    constructor
    · intro h
      obtain ⟨k, victims, s', hselect, hlist, -⟩ := h id (recurrent_id _)
      obtain ⟨r, hr⟩ := selectVictimBlock_samples htarget
        ((if_neg hcache).trans (hweights _)) hselect
      rw [selectVictimBlock_byWeight hcache htarget (hweights _) hr] at hselect
      cases hselect
      refine ⟨fun hyes => absurd hyes hcache, fun _ hrandom => ?_⟩
      obtain ⟨hcount, hle⟩ := sampleWeight_length hrandom hr
      exact ⟨hlen ▸ hle, hcount ▸ (hvalid hr).mp hlist⟩
    · intro h
      have hwell := h.byWeight hcache
      refine SelectsValid.of_valid fun draws hdraws => ?_
      obtain ⟨k, r, hr⟩ := @sampleWeight_exits cfg env s n weight hfresh
        (fun hrandom => hlen ▸ (hwell hrandom).1) draws (hlen ▸ hdraws)
      refine ⟨k, _, selectVictimBlock_byWeight hcache htarget (hweights _) hr, (hvalid hr).mpr ?_⟩
      by_cases hrandom : sampled cfg
      · rw [(sampleWeight_length hrandom hr).1]
        exact (hwell hrandom).2
      · rw [sampleWeight, if_neg hrandom] at hr
        cases hr
        rw [hlen]

/-- A block that two writes fill is a valid list, whatever is drawn. -/
theorem selects_valid_one : ∃ s₀ s, PageMapping.start randomBlocks .zero none = .ok s₀ ∧
    run randomBlocks .zero s₀ twoWrites = .ok s ∧ SelectsValid randomBlocks .zero s 1 := by
  obtain ⟨s₀, s, hstart, hs, hfull⟩ := twoWrites_full
  have hiff := @selects_valid_iff randomBlocks _ _ 1 (by decide) (by decide)
    (BlockPool.run_reachable hstart hs) rfl
  refine ⟨s₀, s, hstart, hs, hiff.mpr ⟨fun hcache => absurd hcache (by decide), fun _ _ => ?_⟩⟩
  rw [hfull]
  decide

/-- Four blocks whose victims are selected with an eye on the cache, two at a time. -/
def awareBlocks : Config := { Config.small 4 with pageAwareofCache := true, reclaimBlock := 2 }

/-- Two blocks are full. Both victims are block 1, and the second erase does not find it. -/
theorem selects_block_twice : ∃ s₀ s s', PageMapping.start awareBlocks .zero none = .ok s₀ ∧
    run awareBlocks .zero s₀ (calls ((List.range 4).map fun lpn => .write (.page lpn))) = .ok s ∧
    s.reclaimTarget awareBlocks = .ok 2 ∧ (s.fullBlocks awareBlocks).map Prod.fst = [1, 0] ∧
    s.selectVictimBlock awareBlocks .zero = .ok ([1, 1], s') ∧
    ¬ ValidVictims awareBlocks s 2 [1, 1] ∧
    doGarbageCollection awareBlocks .zero .zero [1, 1] s' =
      .error (.panic "eraseInternal" "No such block") := by
  obtain ⟨s₀, hstart, hrun⟩ := Except.exists_of_map
    (x := PageMapping.start awareBlocks .zero none)
    (p := fun s₀ =>
      (run awareBlocks .zero s₀ (calls ((List.range 4).map fun lpn => .write (.page lpn)))).map
        (fun s => decide ((s.fullBlocks awareBlocks).map Prod.fst = [1, 0] ∧
          (s.selectVictimBlock awareBlocks .zero).map (fun r => decide (r.1 = [1, 1] ∧
            (doGarbageCollection awareBlocks .zero .zero [1, 1] r.2).Sat (fun _ => False)
              (· = .panic "eraseInternal" "No such block"))) = .ok true)) = .ok true)
    (by decide +kernel)
  obtain ⟨s, hs, hfull, hselect⟩ := Except.exists_of_map hrun
  obtain ⟨⟨_, s'⟩, hs', rfl, hcollect⟩ := Except.exists_of_map hselect
  exact ⟨s₀, s, s', hstart, hs, rfl, hfull, hs',
    fun h => absurd h.nodup (by decide), hcollect.eq_error⟩

end PageMapping

end SimpleSSD.FTL
