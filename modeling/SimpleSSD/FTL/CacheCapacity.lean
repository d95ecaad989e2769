import SimpleSSD.FTL.Coherence
import SimpleSSD.FTL.CacheUse
import SimpleSSD.FTL.OptimalReplacement

/-!
# The size of the mapping caches

Every page that enters `cmt` or the shadow table is preceded by an eviction when
the table is full. The scan for the victim starts from key 0, and takes key 0 to
mean that it found nothing, so it never evicts page 0: once page 0 is the least
recently used entry of a full table, every new page makes the table larger.

`Op.FindsRoom` says that a call does not get there, and `run_bounded` that the
caches then keep to their sizes.
-/

namespace SimpleSSD.FTL

namespace MappingCache

/-- The caches keep to their sizes; for a shadow table of size 0 nothing is said. -/
structure Bounded (cfg : Config) (c : MappingCache) : Prop where
  cmt : c.cmt.size ≤ cfg.cmtCapacity
  shadow : 1 ≤ cfg.shadowwCacheSize → c.shadowwCache.size ≤ cfg.shadowwCacheSize

instance (cfg : Config) (c : MappingCache) : Decidable (c.Bounded cfg) :=
  decidable_of_iff (c.cmt.size ≤ cfg.cmtCapacity ∧
    (1 ≤ cfg.shadowwCacheSize → c.shadowwCache.size ≤ cfg.shadowwCacheSize))
    ⟨fun h => ⟨h.1, h.2⟩, fun h => ⟨h.1, h.2⟩⟩

/-- The entries of `cmt` as the scan for the least recently used one reads them. -/
def ages (c : MappingCache) : List (Nat × Nat × Nat) :=
  c.cmt.entries.map fun e => (e.1, e.2.lastAccessedTime, e.2.cmtEntryAccessCount)

def shadowAges (c : MappingCache) : List (Nat × Nat × Nat) :=
  c.shadowwCache.entries.map fun e => (e.1, e.2.lastAccessedTime, 0)

/-- The least recently used of the entries, the first of several, is not page 0,
and not older than the scan can tell. -/
def HasVictim (entries : List (Nat × Nat × Nat)) : Prop :=
  ∃ e, FirstMin (fun e => e.2.1) entries e ∧ e.1 ≠ 0 ∧ e.2.1 < 2 ^ 64 - 1

/-- `cmt` has room, or its least recently used page is not page 0. -/
def LruFindsRoom (cfg : Config) (c : MappingCache) : Prop :=
  c.cmt.size < cfg.cmtCapacity ∨ HasVictim c.ages

/-- The same under the policy of `load`. The optimal policy drops the pages whose
future accesses are known, and page 0 when there are none. -/
def CmtFindsRoom (cfg : Config) (c : MappingCache) : Prop :=
  if cfg.optimalreplacementPolicy then
    c.cmt.size < cfg.cmtCapacity ∨ 0 ∈ c.cmt ∨ ∃ l ∈ c.cmt.keys, l ∈ c.optMap
  else c.LruFindsRoom cfg

/-- The shadow table has room, or its least recently used page is not page 0. -/
def ShadowFindsRoom (cfg : Config) (c : MappingCache) : Prop :=
  1 ≤ cfg.shadowwCacheSize → c.shadowwCache.size < cfg.shadowwCacheSize ∨ HasVictim c.shadowAges

/-- Page `lpn` can be loaded, into the table that the predictor chooses. With
several I/O units a page, a later unit may be predicted dead on arrival. -/
def LoadFindsRoom (cfg : Config) (c : MappingCache) (lpn : Nat) : Prop :=
  (c.deadOnArrival cfg lpn = false → lpn ∉ c.cmt → c.CmtFindsRoom cfg) ∧
    (c.deadOnArrival cfg lpn = true ∨
        1 < cfg.bitsetSize ∧ cfg.useDeadOnArrivalPredictor = true →
      lpn ∉ c.shadowwCache → c.ShadowFindsRoom cfg)

/-- What the scan for the least recently used entry finds. -/
theorem oldest_eq {entries : List (Nat × Nat × Nat)} {e : Nat × Nat × Nat}
    (h : FirstMin (fun e => e.2.1) entries e) (hlt : e.2.1 < 2 ^ 64 - 1) : oldest entries = e :=
  scanMin_eq h hlt

theorem hasVictim_iff {entries : List (Nat × Nat × Nat)} :
    HasVictim entries ↔ (oldest entries).1 ≠ 0 := by
  constructor
  · rintro ⟨e, hmin, hkey, hlt⟩
    rw [oldest_eq hmin hlt]
    exact hkey
  · intro hkey
    rcases scanMin_cases (fun e : Nat × Nat × Nat => e.2.1) (0, 2 ^ 64 - 1, 0) entries with
      ⟨hnone, -⟩ | ⟨hmin, hlt⟩
    · exact absurd (congrArg Prod.fst hnone) hkey
    · exact ⟨_, hmin, hkey, hlt⟩

instance (entries : List (Nat × Nat × Nat)) : Decidable (HasVictim entries) :=
  decidable_of_iff _ hasVictim_iff.symm

instance (cfg : Config) (c : MappingCache) : Decidable (c.LruFindsRoom cfg) :=
  inferInstanceAs (Decidable (_ ∨ _))

instance (cfg : Config) (c : MappingCache) : Decidable (c.CmtFindsRoom cfg) :=
  inferInstanceAs (Decidable (ite _ _ _))

instance (cfg : Config) (c : MappingCache) : Decidable (c.ShadowFindsRoom cfg) :=
  inferInstanceAs (Decidable (_ → _))

instance (cfg : Config) (c : MappingCache) (lpn : Nat) : Decidable (c.LoadFindsRoom cfg lpn) :=
  inferInstanceAs (Decidable (_ ∧ _))

/-! ### Evicting -/

section Evict

variable {cfg : Config} {env : Env} {iclCount lpn : Nat} {c c' : MappingCache}

theorem HasVictim.mem_cmt (h : HasVictim c.ages) : (oldest c.ages).1 ∈ c.cmt := by
  obtain ⟨e, hmin, -, hlt⟩ := h
  rw [oldest_eq hmin hlt]
  obtain ⟨x, hx, rfl⟩ := List.mem_map.mp hmin.mem
  exact UnorderedMap.mem_iff.mpr ⟨x.2, hx⟩

theorem HasVictim.mem_shadow (h : HasVictim c.shadowAges) :
    (oldest c.shadowAges).1 ∈ c.shadowwCache := by
  obtain ⟨e, hmin, -, hlt⟩ := h
  rw [oldest_eq hmin hlt]
  obtain ⟨x, hx, rfl⟩ := List.mem_map.mp hmin.mem
  exact UnorderedMap.mem_iff.mpr ⟨x.2, hx⟩

theorem Shrinks.cmt_subset (h : c.Shrinks c') : ∀ l ∈ c'.cmt, l ∈ c.cmt := by
  intro l hl
  obtain ⟨e, he⟩ := UnorderedMap.mem_iff_find?.mp hl
  exact UnorderedMap.mem_of_find? (h.cmt l e he)

theorem Shrinks.shadow_subset (h : c.Shrinks c') : ∀ l ∈ c'.shadowwCache, l ∈ c.shadowwCache := by
  intro l hl
  obtain ⟨e, he⟩ := UnorderedMap.mem_iff_find?.mp hl
  exact UnorderedMap.mem_of_find? (h.shadow l e he)

/-- A full `cmt` that finds a victim has room afterwards. -/
theorem evictEntryFromCMT_lt (hc : c.Bounded cfg) (hroom : c.LruFindsRoom cfg) :
    (c.evictEntryFromCMT cfg).cmt.size < cfg.cmtCapacity := by
  have hshrinks : c.Shrinks (c.evictEntryFromCMT cfg) := evictEntryFromCMT_shrinks
  by_cases hfull : cfg.cmtCapacity ≤ c.cmt.size
  · have hvictim : HasVictim c.ages := hroom.resolve_left (Nat.not_lt_of_le hfull)
    refine (UnorderedMap.size_lt_of_subset hshrinks.cmt_subset hvictim.mem_cmt ?_).trans_le hc.cmt
    have hkey := hasVictim_iff.mp hvictim
    rw [ages] at hkey ⊢
    rw [evictEntryFromCMT, if_pos hfull]
    simp only
    rw [if_pos hkey]
    exact fun h => (UnorderedMap.mem_erase.mp h).1 rfl
  · rw [evictEntryFromCMT, if_neg hfull]
    exact Nat.lt_of_not_le hfull

theorem evictFromShadowCache_lt (hc : c.Bounded cfg) (hsize : 1 ≤ cfg.shadowwCacheSize)
    (hroom : c.ShadowFindsRoom cfg) :
    (c.evictFromShadowCache cfg).shadowwCache.size < cfg.shadowwCacheSize := by
  have hshrinks : c.Shrinks (c.evictFromShadowCache cfg) := evictFromShadowCache_shrinks
  by_cases hfull : cfg.shadowwCacheSize ≤ c.shadowwCache.size
  · have hvictim : HasVictim c.shadowAges := (hroom hsize).resolve_left (Nat.not_lt_of_le hfull)
    refine (UnorderedMap.size_lt_of_subset hshrinks.shadow_subset hvictim.mem_shadow ?_).trans_le
      (hc.shadow hsize)
    have hkey := hasVictim_iff.mp hvictim
    rw [shadowAges] at hkey ⊢
    rw [evictFromShadowCache, if_pos hfull]
    simp only
    rw [if_pos hkey]
    exact fun h => (UnorderedMap.mem_erase.mp h).1 rfl
  · rw [evictFromShadowCache, if_neg hfull]
    exact Nat.lt_of_not_le hfull

/-- The optimal policy drops a page that is there. -/
theorem optimalRepalcementPolicy_lt (hc : c.Bounded cfg)
    (hroom : c.cmt.size < cfg.cmtCapacity ∨ 0 ∈ c.cmt ∨ ∃ l ∈ c.cmt.keys, l ∈ c.optMap) :
    (c.optimalRepalcementPolicy cfg iclCount).cmt.size < cfg.cmtCapacity := by
  have hshrinks : c.Shrinks (c.optimalRepalcementPolicy cfg iclCount) :=
    optimalRepalcementPolicy_shrinks
  by_cases hfull : cfg.cmtCapacity ≤ c.cmt.size
  · have hlt : ∀ l ∈ c.cmt, l ∈ c.evicted iclCount →
        (c.optimalRepalcementPolicy cfg iclCount).cmt.size < cfg.cmtCapacity := by
      intro l hl hevicted
      refine (UnorderedMap.size_lt_of_subset hshrinks.cmt_subset hl fun h => ?_).trans_le hc.cmt
      obtain ⟨e, he⟩ := UnorderedMap.mem_iff_find?.mp h
      rw [optimal_find? hfull, if_pos hevicted] at he
      cases he
    rcases (c.optimalScan_scanned iclCount).furthest with ⟨hkey, -, hnone⟩ | ⟨hfurthest, -⟩
    · -- no page is accessed again, and those with a record are all dropped
      rcases hroom.resolve_left (Nat.not_lt_of_le hfull) with hzero | ⟨l, hl, hrecord⟩
      · exact hlt 0 hzero ((mem_evicted c iclCount hzero).mpr (.inr hkey.symm))
      · exact hlt l hl ((mem_evicted c iclCount hl).mpr (.inl ⟨hrecord, hnone l hl⟩))
    · have hmem : (c.optimalScan iclCount).lruKey ∈ c.cmt := hfurthest.2.mem
      exact hlt _ hmem ((mem_evicted c iclCount hmem).mpr (.inr rfl))
  · rw [optimalRepalcementPolicy, if_neg hfull]
    exact Nat.lt_of_not_le hfull

/-- An eviction from `cmt` leaves the shadow table alone. -/
theorem evictEntryFromCMT_shadow : (c.evictEntryFromCMT cfg).shadowwCache = c.shadowwCache := by
  rw [evictEntryFromCMT]
  split
  · simp only
    split <;> rfl
  · rfl

theorem optimalRepalcementPolicy_shadow :
    (c.optimalRepalcementPolicy cfg iclCount).shadowwCache = c.shadowwCache := by
  rw [optimalRepalcementPolicy]
  split
  · exact List.foldlRecOn (motive := fun c' : MappingCache => c'.shadowwCache = c.shadowwCache)
      _ _ rfl fun _ h _ _ => h
  · rfl

/-! ### Entering a page -/

/-- A page enters `cmt` after an eviction that left room for it, or that it survived
or was the victim of. -/
theorem setCmt_bounded {page : Nat × Nat} {tick : Nat} {count : Option Nat} (hc : c.Bounded cfg)
    (hshrinks : c.Shrinks c') (hroom : lpn ∈ c.cmt ∨ c'.cmt.size < cfg.cmtCapacity) :
    (c'.setCmt env lpn page tick count).Bounded cfg := by
  have hle : c'.cmt.size ≤ c.cmt.size := UnorderedMap.size_le_of_subset hshrinks.cmt_subset
  have hcmt := hc.cmt
  refine ⟨?_, fun hsize => ?_⟩
  · show (c'.cmt.set _ lpn _).size ≤ _
    rw [UnorderedMap.size_set]
    split
    · omega
    · next hnot =>
      rcases hroom with hmem | hlt
      · have hlt : c'.cmt.size < c.cmt.size :=
          UnorderedMap.size_lt_of_subset hshrinks.cmt_subset hmem hnot
        omega
      · exact hlt
  · exact (UnorderedMap.size_le_of_subset hshrinks.shadow_subset).trans (hc.shadow hsize)

theorem setShadow_bounded {page : Nat × Nat} {tick : Nat} (hc : c.Bounded cfg)
    (hshrinks : c.Shrinks c') (hroom : lpn ∈ c.shadowwCache ∨
      (1 ≤ cfg.shadowwCacheSize → c'.shadowwCache.size < cfg.shadowwCacheSize)) :
    (c'.setShadow env lpn page tick).Bounded cfg := by
  have hle : c'.shadowwCache.size ≤ c.shadowwCache.size :=
    UnorderedMap.size_le_of_subset hshrinks.shadow_subset
  refine ⟨(UnorderedMap.size_le_of_subset hshrinks.cmt_subset).trans hc.cmt, fun hsize => ?_⟩
  have hshadow := hc.shadow hsize
  show (c'.shadowwCache.set _ lpn _).size ≤ _
  rw [UnorderedMap.size_set]
  split
  · omega
  · next hnot =>
    rcases hroom with hmem | hlt
    · have hlt : c'.shadowwCache.size < c.shadowwCache.size :=
        UnorderedMap.size_lt_of_subset hshrinks.shadow_subset hmem hnot
      omega
    · exact hlt hsize

theorem touch_bounded {e : MappingEntry} {tick : Nat} (hc : c.Bounded cfg) (hmem : lpn ∈ c.cmt) :
    (c.touch lpn e tick).Bounded cfg := by
  refine ⟨?_, hc.shadow⟩
  show (c.cmt.set 0 lpn _).size ≤ _
  rw [UnorderedMap.size_set, if_pos hmem]
  exact hc.cmt

/-- What `clearPrediction` leaves alone. -/
theorem clearPrediction_frame (c : MappingCache) (lpn : Nat) : (c.clearPrediction lpn).cmt = c.cmt ∧
    (c.clearPrediction lpn).shadowwCache = c.shadowwCache := by
  rw [clearPrediction]
  split <;> exact ⟨rfl, rfl⟩

theorem promote_shadow {e : ShadowCacheEntry} {tick : Nat} :
    (c.promote cfg env lpn e tick).shadowwCache = c.shadowwCache :=
  evictEntryFromCMT_shadow.trans (clearPrediction_frame c lpn).2

theorem promote_bounded {e : ShadowCacheEntry} {tick : Nat} (hc : c.Bounded cfg)
    (hroom : c.LruFindsRoom cfg) : (c.promote cfg env lpn e tick).Bounded cfg := by
  have hclear := clearPrediction_frame c lpn
  have hc' : (c.clearPrediction lpn).Bounded cfg :=
    ⟨by rw [hclear.1]; exact hc.cmt, by rw [hclear.2]; exact hc.shadow⟩
  have hroom' : (c.clearPrediction lpn).LruFindsRoom cfg := by
    rw [LruFindsRoom, ages, hclear.1]
    exact hroom
  exact setCmt_bounded hc' evictEntryFromCMT_shrinks (.inr (evictEntryFromCMT_lt hc' hroom'))

/-- A page that is in one of the tables, or for which the table finds room. -/
structure ReadyFor (cfg : Config) (lpn n : Nat) (dead : Bool) (c : MappingCache) :
    Prop where
  cmt : 0 < n → (dead || c.deadOnArrival cfg lpn) = false →
    lpn ∈ c.cmt ∨ c.CmtFindsRoom cfg
  shadow : 0 < n → (dead || c.deadOnArrival cfg lpn) = true →
    lpn ∈ c.shadowwCache ∨ c.ShadowFindsRoom cfg
  later : 1 < n → cfg.useDeadOnArrivalPredictor = true →
    lpn ∈ c.shadowwCache ∨ c.ShadowFindsRoom cfg

theorem load_spec {page : Nat × Nat} {tick n : Nat} {count : Option Nat} {dead : Bool}
    (hc : c.Bounded cfg) (hready : c.ReadyFor cfg lpn (n + 1) dead) :
    (c.load cfg env iclCount lpn page tick count dead).2.Bounded cfg ∧
      ReadyFor cfg lpn n (c.load cfg env iclCount lpn page tick count dead).1
        (c.load cfg env iclCount lpn page tick count dead).2 := by
  rw [load]
  cases hdead : dead || c.deadOnArrival cfg lpn with
  | true =>
    rw [if_pos rfl]
    have hmem : lpn ∈ ((c.evictFromShadowCache cfg).setShadow env lpn page tick).shadowwCache :=
      (UnorderedMap.mem_set _ _).mpr (.inl rfl)
    refine ⟨setShadow_bounded hc evictFromShadowCache_shrinks ?_,
      ⟨fun _ h => ?_, fun _ _ => .inl hmem,
      fun _ _ => .inl hmem⟩⟩
    · exact (hready.shadow n.succ_pos hdead).imp_right fun hroom hsize =>
        evictFromShadowCache_lt hc hsize hroom
    · cases h
  | false =>
    rw [if_neg Bool.false_ne_true]
    have hroom := hready.cmt n.succ_pos hdead
    simp only
    generalize hc' : (if cfg.optimalreplacementPolicy = true
      then c.optimalRepalcementPolicy cfg iclCount else c.evictEntryFromCMT cfg) = c'
    have hevict : c.Shrinks c' ∧ c'.shadowwCache = c.shadowwCache ∧
        (c.CmtFindsRoom cfg → c'.cmt.size < cfg.cmtCapacity) := by
      subst hc'
      rw [CmtFindsRoom]
      split
      · exact ⟨optimalRepalcementPolicy_shrinks, optimalRepalcementPolicy_shadow,
          optimalRepalcementPolicy_lt hc⟩
      · exact ⟨evictEntryFromCMT_shrinks, evictEntryFromCMT_shadow, evictEntryFromCMT_lt hc⟩
    have hmem : lpn ∈ (c'.setCmt env lpn page tick count).cmt :=
      (UnorderedMap.mem_set _ _).mpr (.inl rfl)
    have hlater : 0 < n → cfg.useDeadOnArrivalPredictor = true →
        lpn ∈ (c'.setCmt env lpn page tick count).shadowwCache ∨
          (c'.setCmt env lpn page tick count).ShadowFindsRoom cfg := by
      intro hn hpred
      have hroom := hready.later (Nat.succ_lt_succ hn) hpred
      rw [ShadowFindsRoom, shadowAges] at hroom ⊢
      rw [← hevict.2.1] at hroom
      exact hroom
    refine ⟨setCmt_bounded hc hevict.1 (hroom.imp_right hevict.2.2), ⟨fun _ _ => .inl hmem,
      fun hn hverdict => hlater hn ?_, fun hn => hlater (Nat.lt_of_succ_lt hn)⟩⟩
    -- only the predictor sends a page to the shadow table
    rw [Bool.false_or, deadOnArrival, Bool.and_eq_true] at hverdict
    exact hverdict.1

theorem Loads.bounded {Stamp : Nat → Prop} {n : Nat} {dead : Bool}
    (h : Loads cfg env iclCount lpn Stamp n dead c c') (hc : c.Bounded cfg)
    (hready : c.ReadyFor cfg lpn n dead) : c'.Bounded cfg := by
  induction h with
  | done => exact hc
  | load _ _ ih =>
    obtain ⟨hc, hready⟩ := load_spec hc hready
    exact ih hc hready

theorem LoadFindsRoom.ready (h : c.LoadFindsRoom cfg lpn) :
    c.ReadyFor cfg lpn cfg.bitsetSize false := by
  refine ⟨fun _ hdead => ?_, fun _ hdead => ?_, fun hmulti hpred => ?_⟩
  · by_cases hmem : lpn ∈ c.cmt
    · exact .inl hmem
    · exact .inr (h.1 hdead hmem)
  · by_cases hmem : lpn ∈ c.shadowwCache
    · exact .inl hmem
    · exact .inr (h.2 (.inl hdead) hmem)
  · by_cases hmem : lpn ∈ c.shadowwCache
    · exact .inl hmem
    · exact .inr (h.2 (.inr ⟨hmulti, hpred⟩) hmem)

theorem Relocated.bounded (h : c.Relocated c') (hc : c.Bounded cfg) : c'.Bounded cfg := by
  refine ⟨?_, by rw [h.shadow]; exact hc.shadow⟩
  rw [← UnorderedMap.length_keys, h.keys, UnorderedMap.length_keys]
  exact hc.cmt

end Evict

end MappingCache

/-- A request for page `lpn` that misses both caches loads the page; one that hits
the shadow table moves the page into `cmt`. -/
def PageMapping.FindsRoom (cfg : Config) (s : PageMapping) (lpn : Nat) : Prop :=
  if lpn ∉ s.cache.cmt ∧ cfg.useDeadOnArrivalPredictor = true ∧ lpn ∈ s.cache.shadowwCache
  then s.cache.LruFindsRoom cfg else s.cache.LoadFindsRoom cfg lpn

/-- No page enters a full cache whose least recently used page is page 0. A read
enters a page only if it misses `cmt` and the page is mapped. -/
def Op.FindsRoom (cfg : Config) (s : PageMapping) (call : World × Op) : Prop :=
  match call.2 with
  | .read req => cfg.enableCMT = true → req.lpn ∉ s.cache.cmt →
      req.lpn ∈ s.table ∨ req.lpn ∈ s.cache.shadowwCache → s.FindsRoom cfg req.lpn
  | .write req => cfg.enableCMT = true → 0 < req.ioFlag.count → s.FindsRoom cfg req.lpn
  | _ => True

instance (cfg : Config) (s : PageMapping) (lpn : Nat) : Decidable (s.FindsRoom cfg lpn) :=
  inferInstanceAs (Decidable (ite _ _ _))

instance (cfg : Config) (s : PageMapping) :
    ∀ call : World × Op, Decidable (Op.FindsRoom cfg s call)
  | (_, .read _) => inferInstanceAs (Decidable (_ → _))
  | (_, .write _) => inferInstanceAs (Decidable (_ → _))
  | (_, .trim _) => .isTrue trivial
  | (_, .format _) => .isTrue trivial
  | (_, .undoCached _) => .isTrue trivial

/-! ### Runs -/

section Run

open MappingCache

variable {cfg : Config} {env : Env} {s s' : PageMapping}

/-- The lookup of a request that finds room keeps the caches to their sizes and
leaves them ready for the loads that may follow. -/
theorem PageMapping.Looking.bounded {lpn : Nat} {c : MappingCache}
    (hlook : s.Looking cfg env lpn c) (hc : s.cache.Bounded cfg) (hroom : s.FindsRoom cfg lpn) :
    c.Bounded cfg ∧ c.ReadyFor cfg lpn cfg.bitsetSize false := by
  rw [PageMapping.FindsRoom] at hroom
  cases hlook with
  | hit he htick =>
    have hmem := UnorderedMap.mem_of_find? he
    rw [if_neg fun h => h.1 hmem] at hroom
    have hready := hroom.ready
    refine ⟨touch_bounded hc hmem, ⟨fun _ _ => .inl ?_, hready.shadow, hready.later⟩⟩
    exact (UnorderedMap.mem_set _ _).mpr (.inl rfl)
  | @promote e tick hmiss hpred he htick =>
    have hmem := UnorderedMap.mem_of_find? he
    rw [if_pos ⟨hmiss, hpred, hmem⟩] at hroom
    -- the page is in both tables afterwards
    have hshadow : (s.cache.promote cfg env lpn e tick).shadowwCache = s.cache.shadowwCache :=
      promote_shadow
    refine ⟨promote_bounded hc hroom, ⟨fun _ _ => .inl ?_, fun _ _ => .inl ?_, fun _ _ => .inl ?_⟩⟩
    · exact (UnorderedMap.mem_set _ _).mpr (.inl rfl)
    · rw [hshadow]
      exact hmem
    · rw [hshadow]
      exact hmem
  | miss hmiss =>
    rw [if_neg fun h => hmiss.2 h.2.1 h.2.2] at hroom
    exact ⟨hc, hroom.ready⟩

/-- A call that finds room keeps the caches to their sizes. -/
theorem Op.exec_bounded {call : World × Op} (hs : s.cache.Bounded cfg)
    (hroom : Op.FindsRoom cfg s call) (h : Op.exec cfg env s call = .ok s') :
    s'.cache.Bounded cfg := by
  obtain ⟨w, op⟩ := call
  cases op with
  | read req =>
    rw [Op.exec] at h
    cases hcmt : cfg.enableCMT with
    | false =>
      rw [PageMapping.read_cache_off hcmt h]
      exact hs
    | true =>
      have hroom := hroom hcmt
      have hread := PageMapping.read_cache hcmt h
      generalize s'.cache = c' at hread
      cases hread with
      | idle => exact hs
      | found hlook hhit =>
        cases hlook with
        | hit he => exact touch_bounded hs (UnorderedMap.mem_of_find? he)
        | promote hmiss hpred he htick =>
          have hmem := UnorderedMap.mem_of_find? he
          have hlook := PageMapping.Looking.promote hmiss hpred he htick
          exact (hlook.bounded hs (hroom hmiss (.inr hmem))).1
        | miss hmiss => exact absurd hmiss hhit
      | load hmiss htable hload =>
        have hlook : (s.log .request).Looking cfg env req.lpn s.cache := .miss hmiss
        obtain ⟨-, hready⟩ := hlook.bounded hs (hroom hmiss.1 (.inl htable))
        exact hload.bounded hs hready
  | write req =>
    rw [Op.exec] at h
    cases hcmt : cfg.enableCMT with
    | false => exact (PageMapping.write_cache_off hcmt h).bounded hs
    | true =>
      by_cases hcount : 0 < req.ioFlag.count
      · rcases PageMapping.write_cache hcmt h with ⟨-, hidle⟩ | ⟨c₁, c₂, hlook, hload, hmoved⟩
        · rw [hidle]
          exact hs
        · obtain ⟨hc₁, hready⟩ := hlook.bounded hs (hroom hcmt hcount)
          exact hmoved.bounded (hload.bounded hc₁ hready)
      · simp only [PageMapping.write, if_neg hcount] at h
        cases h
        exact hs
  | trim req =>
    rw [Op.exec] at h
    rw [PageMapping.trim_cache h]
    exact hs
  | format range =>
    rw [Op.exec] at h
    exact (PageMapping.format_cache h).bounded hs
  | undoCached l =>
    rw [Op.exec] at h
    rw [PageMapping.undoCached_cache h]
    exact hs

end Run

section Reachable

variable {cfg : Config} {env : Env}

/-- The device starts with empty caches. -/
theorem start_cache {warmUp : Option World} {s : PageMapping}
    (h : PageMapping.start cfg env warmUp = .ok s) :
    s.cache = .init env :=
  PageMapping.start_rule (I := fun s => s.cache = .init env)
    (fun h => by
      obtain ⟨p, -, rfl⟩ := PageMapping.init_eq h
      rfl)
    (fun _ hempty hprog => (PageMapping.programPage_cache hprog).trans hempty) h

/-- In every run of calls that find room, from empty caches, `cmt` never holds more
than `cmtSize` entries, and a shadow table of at least one entry never more than
`shadowwCacheSize`. -/
theorem run_bounded (calls : List (World × Op)) (s₀ s : PageMapping)
    (hcmt : s₀.cache.cmt = .empty) (hshadow : s₀.cache.shadowwCache = .empty)
    (hroom : Run.Along (Op.exec cfg env) (Op.FindsRoom cfg) s₀ calls)
    (hrun : run cfg env s₀ calls = .ok s) : s.cache.Bounded cfg := by
  refine hroom.foldlM_inv (I := fun s : PageMapping => s.cache.Bounded cfg)
    (fun _ _ _ hs hroom h => Op.exec_bounded hs hroom h) ?_ hrun
  constructor
  · rw [hcmt]
    exact Nat.zero_le _
  · rw [hshadow]
    exact fun _ => Nat.zero_le _

end Reachable

/-- The small device with `n` blocks and `size` entries in `cmt`. -/
def Config.entries (n size : Nat) : Config := { Config.cached n with cmtSize := size }

/-- The environment whose tick grows with every event. -/
def Env.ticking : Env := { Env.zero with tick := List.length }

/-- The same device with the optimal policy. -/
def Config.foreseen (n size : Nat) : Config :=
  { Config.entries n size with optimalreplacementPolicy := true }

/-- The environment that knows when pages 1 and 2 are accessed again. -/
def Env.foreseeing : Env :=
  { Env.ticking with optMap := (UnorderedMap.empty.set 0 1 [7]).set 0 2 [9] }

/-- With LRU, page 0 is read before page 2 enters, so page 1 makes room. With the optimal
policy page 2 makes room for page 0, since page 1 is accessed before it. -/
theorem run_bounded_two :
    (∃ s₀ s, PageMapping.start (.entries 3 2) .ticking none = .ok s₀ ∧
      run (.entries 3 2) .ticking s₀ (calls [.write (.page 0), .write (.page 1),
        .read (.page 0), .write (.page 2), .read (.page 0)]) = .ok s ∧
      s.cache.Bounded (.entries 3 2)) ∧
    ∃ s₀ s, PageMapping.start (.foreseen 3 2) .foreseeing none = .ok s₀ ∧
      run (.foreseen 3 2) .foreseeing s₀ (calls [.write (.page 1), .write (.page 2),
        .write (.page 0)]) = .ok s ∧ s.cache.Bounded (.foreseen 3 2) := by
  constructor
  · obtain ⟨s₀, hstart, hroom, hrun⟩ := Except.exists_of_map
      (p := fun s₀ => Run.Along (Op.exec (.entries 3 2) .ticking) (Op.FindsRoom (.entries 3 2)) s₀
          (calls [.write (.page 0), .write (.page 1), .read (.page 0), .write (.page 2),
            .read (.page 0)]) ∧
        (run (.entries 3 2) .ticking s₀ (calls [.write (.page 0), .write (.page 1),
          .read (.page 0), .write (.page 2), .read (.page 0)])).map (fun _ => decide True) =
            .ok true)
      (by decide +kernel : (PageMapping.start (.entries 3 2) .ticking none).map _ = .ok true)
    obtain ⟨s, hs, -⟩ := Except.exists_of_map hrun
    refine ⟨s₀, s, hstart, hs, run_bounded _ s₀ s ?_ ?_ hroom hs⟩
    · rw [start_cache hstart]
      rfl
    · rw [start_cache hstart]
      rfl
  · obtain ⟨s₀, hstart, hroom, hrun⟩ := Except.exists_of_map
      (p := fun s₀ => Run.Along (Op.exec (.foreseen 3 2) .foreseeing)
          (Op.FindsRoom (.foreseen 3 2)) s₀
          (calls [.write (.page 1), .write (.page 2), .write (.page 0)]) ∧
        (run (.foreseen 3 2) .foreseeing s₀ (calls [.write (.page 1), .write (.page 2),
          .write (.page 0)])).map (fun _ => decide True) = .ok true)
      (by decide +kernel : (PageMapping.start (.foreseen 3 2) .foreseeing none).map _ = .ok true)
    obtain ⟨s, hs, -⟩ := Except.exists_of_map hrun
    refine ⟨s₀, s, hstart, hs, run_bounded _ s₀ s ?_ ?_ hroom hs⟩
    · rw [start_cache hstart]
      rfl
    · rw [start_cache hstart]
      rfl

/-- Page 0 fills a table of one entry, and stays when page 1 enters. -/
theorem not_bounded_zero :
    ∃ s₀ s, PageMapping.start (.entries 3 1) .ticking none = .ok s₀ ∧
      run (.entries 3 1) .ticking s₀ (calls [.write (.page 0), .write (.page 1)]) = .ok s ∧
      ¬ s.cache.Bounded (.entries 3 1) := by
  obtain ⟨s₀, hstart, hrun⟩ := Except.exists_of_map
    (p := fun s₀ => (run (.entries 3 1) .ticking s₀ (calls [.write (.page 0),
      .write (.page 1)])).map (fun s => decide (¬ s.cache.Bounded (.entries 3 1))) = .ok true)
    (by decide +kernel : (PageMapping.start (.entries 3 1) .ticking none).map _ = .ok true)
  obtain ⟨s, hs, hnot⟩ := Except.exists_of_map hrun
  exact ⟨s₀, s, hstart, hs, hnot⟩

end SimpleSSD.FTL
