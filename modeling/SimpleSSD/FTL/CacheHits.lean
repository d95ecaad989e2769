import SimpleSSD.FTL.CacheCapacity

/-!
# What a hit in `cmt` does to its keys (page_mapping.cc:1542–1641 and 1842–2067)

A hit needs no room. The read of a page that is in `cmt` stamps the entry and stops there. The write
of such a page stamps it as well, but then, for each I/O unit that it programs, it makes room and
enters the page, as it does for a page that has missed: `cmtWriteHit` spares the page its count, and
nothing else. So a full table loses the entry that the policy picks, unless that is the entry of the
page itself, which is entered again (`write_keys_iff`).
-/

namespace SimpleSSD.FTL

namespace MappingCache

/-- The step of the replacement policy. -/
def makeRoom (cfg : Config) (iclCount : Nat) (c : MappingCache) : MappingCache :=
  if cfg.optimalreplacementPolicy then c.optimalRepalcementPolicy cfg iclCount
  else c.evictEntryFromCMT cfg

/-- The page that LRU evicts from a full table: the first of those with the least stamp. Page 0
stays, and so does a page stamped with the last tick. -/
def LruTakes (c : MappingCache) (k : Nat) : Prop :=
  k ≠ 0 ∧ ∃ e, FirstMin (fun e => e.2.1) c.ages e ∧ e.1 = k ∧ e.2.1 < 2 ^ 64 - 1

/-- A page that the optimal policy evicts: one with a record that is not accessed again, the first
of those whose next access is furthest away, or page 0 when no page is accessed again. -/
def OptimalTakes (c : MappingCache) (iclCount k : Nat) : Prop :=
  k ∈ c.optMap ∧ c.futureAccess iclCount k = none ∨ c.Furthest iclCount c.cmt.keys k ∨
    k = 0 ∧ ∀ j ∈ c.cmt, c.futureAccess iclCount j = none

/-- The policy evicts page `k` when the table is full. -/
def Takes (cfg : Config) (iclCount : Nat) (c : MappingCache) (k : Nat) : Prop :=
  if cfg.optimalreplacementPolicy then c.OptimalTakes iclCount k else c.LruTakes k

variable {cfg : Config} {env : Env} {iclCount lpn k : Nat} {c : MappingCache}

theorem lruTakes_iff : c.LruTakes k ↔ (oldest c.ages).1 = k ∧ k ≠ 0 := by
  constructor
  · rintro ⟨hzero, e, hmin, hkey, hlt⟩
    rw [oldest_eq hmin hlt]
    exact ⟨hkey, hzero⟩
  · rintro ⟨rfl, hzero⟩
    rcases scanMin_cases (fun e : Nat × Nat × Nat => e.2.1) (0, 2 ^ 64 - 1, 0) c.ages with
      ⟨hnone, -⟩ | ⟨hmin, hlt⟩
    · exact absurd (congrArg Prod.fst hnone) hzero
    · exact ⟨hzero, oldest c.ages, hmin, rfl, hlt⟩

theorem optimalTakes_iff (hk : k ∈ c.cmt) : c.OptimalTakes iclCount k ↔ k ∈ c.evicted iclCount := by
  rw [mem_evicted c iclCount hk, OptimalTakes]
  refine or_congr_right ?_
  rcases (c.optimalScan_scanned iclCount).furthest with ⟨hkey, -, hnone⟩ | ⟨hfurthest, -⟩
  · rw [hkey]
    constructor
    · rintro (hk' | ⟨rfl, -⟩)
      · exact absurd (hnone k hk) hk'.1
      · rfl
    · rintro rfl
      exact .inr ⟨rfl, hnone⟩
  · constructor
    · rintro (hk' | ⟨-, hnone⟩)
      · exact hk'.2.unique hfurthest.2
      · exact absurd (hnone _ hfurthest.2.mem) hfurthest.1
    · rintro rfl
      exact .inl hfurthest

theorem makeRoom_shrinks : c.Shrinks (c.makeRoom cfg iclCount) := by
  rw [makeRoom]
  split
  · exact optimalRepalcementPolicy_shrinks
  · exact evictEntryFromCMT_shrinks

/-- Without the predictor a page is entered in `cmt`, after room has been made. -/
theorem load_eq (hpred : cfg.useDeadOnArrivalPredictor = false) (page : Nat × Nat) (tick : Nat)
    (count : Option Nat) : c.load cfg env iclCount lpn page tick count false =
      (false, (c.makeRoom cfg iclCount).setCmt env lpn page tick count) := by
  rw [load, deadOnArrival, hpred]
  rfl

theorem mem_setCmt {page : Nat × Nat} {tick : Nat} {count : Option Nat} {l : Nat} :
    l ∈ (c.setCmt env lpn page tick count).cmt ↔ l = lpn ∨ l ∈ c.cmt :=
  UnorderedMap.mem_set _ _

/-- Nothing goes when there is room. -/
theorem makeRoom_of_lt (hroom : c.cmt.size < cfg.cmtCapacity) : c.makeRoom cfg iclCount = c := by
  rw [makeRoom, optimalRepalcementPolicy, evictEntryFromCMT, if_neg (not_le.mpr hroom),
    if_neg (not_le.mpr hroom), ite_self]

/-- A full table loses what the policy takes. -/
theorem mem_makeRoom (hfull : cfg.cmtCapacity ≤ c.cmt.size) :
    k ∈ (c.makeRoom cfg iclCount).cmt ↔ k ∈ c.cmt ∧ ¬ c.Takes cfg iclCount k := by
  rw [makeRoom, Takes]
  split
  · constructor
    · intro hk
      have hmem := optimalRepalcementPolicy_shrinks.cmt_subset k hk
      refine ⟨hmem, fun htakes => ?_⟩
      obtain ⟨e, he⟩ := UnorderedMap.mem_iff_find?.mp hk
      rw [optimal_find? hfull, if_pos ((optimalTakes_iff hmem).mp htakes)] at he
      cases he
    · rintro ⟨hmem, hstays⟩
      obtain ⟨e, he⟩ := UnorderedMap.mem_iff_find?.mp hmem
      refine UnorderedMap.mem_iff_find?.mpr ⟨e, ?_⟩
      rw [optimal_find? hfull, if_neg (mt (optimalTakes_iff hmem).mpr hstays), he]
  · rw [evictEntryFromCMT, if_pos hfull, lruTakes_iff]
    dsimp only
    split
    · next hkey =>
      show k ∈ c.cmt.erase _ ↔ _
      rw [UnorderedMap.mem_erase, and_comm]
      refine and_congr_right fun _ => ⟨fun hne heq => hne heq.1.symm, fun h heq => ?_⟩
      rw [heq] at h
      exact h ⟨rfl, hkey⟩
    · next hkey =>
      refine (and_iff_left fun h => h.2 ?_).symm
      rw [← h.1]
      exact not_not.mp hkey

end MappingCache

namespace PageMapping

open MappingCache

variable {cfg : Config} {env : Env} {w : World} {req : Request} {s s₁ s' : PageMapping}

/-- The same pages are in `cmt`. -/
def SameKeys (s s' : PageMapping) : Prop := ∀ l, l ∈ s'.cache.cmt ↔ l ∈ s.cache.cmt

/-- There is room before the write, or the policy takes no page but the one that is written, at each
I/O unit that the write programs. Between two units only the stamp of that page and its place in
the order of the table change. -/
def WriteSpares (cfg : Config) (env : Env) (w : World) (req : Request) (s : PageMapping) : Prop :=
  s.cache.cmt.size < cfg.cmtCapacity ∨
    (s.lookupForWrite cfg env req true).All fun r =>
      (r.2.2.pool.getLastFreeBlock cfg env req.ioFlag).All fun q =>
        Run.Along (programUnit cfg env w req true r.1 q.1)
          (fun acc idx => req.wants cfg idx = true →
            ∀ k ∈ acc.2.cache.cmt, acc.2.cache.Takes cfg w.iclCount k → k = req.lpn)
          (⟨false, r.2.1⟩, ({ r.2.2 with pool := q.2 }.log .dram).log .dram)
          (List.range cfg.bitsetSize)

theorem SameKeys.size_eq (h : s.SameKeys s') : s'.cache.cmt.size = s.cache.cmt.size :=
  (UnorderedMap.size_le_of_subset fun k hk => (h k).mp hk).antisymm
    (UnorderedMap.size_le_of_subset fun k hk => (h k).mpr hk)

/-! ### The program loop -/

/-- One unit of a page that is in `cmt`: it is left alone, or room is made and the page entered. -/
theorem programUnit_keys (hcmt : cfg.enableCMT = true)
    (hpred : cfg.useDeadOnArrivalPredictor = false) {key : Option Nat} {blk idx : Nat}
    {locals locals₁ : WriteLocals} (hdead : locals.deadonArrival = false)
    (h : programUnit cfg env w req true key blk (locals, s) idx = .ok (locals₁, s₁)) :
    locals₁.deadonArrival = false ∧
      if req.wants cfg idx = true then
        ∀ k, k ∈ s₁.cache.cmt ↔ k = req.lpn ∨ k ∈ (s.cache.makeRoom cfg w.iclCount).cmt
      else s.SameKeys s₁ := by
  rcases programUnit_load hcmt h with ⟨hskip, rfl, rfl⟩ | ⟨hwant, ⟨page, tick, count, -, hload⟩, -⟩
  · rw [if_neg (Bool.eq_false_iff.mp hskip)]
    exact ⟨hdead, fun _ => Iff.rfl⟩
  · rw [hdead, load_eq hpred] at hload
    obtain ⟨hdead₁, hcache₁⟩ := Prod.mk.inj hload
    rw [if_pos hwant, hcache₁]
    exact ⟨hdead₁, fun k => mem_setCmt⟩

theorem programUnit_subset (hcmt : cfg.enableCMT = true)
    (hpred : cfg.useDeadOnArrivalPredictor = false) {key : Option Nat} {blk idx : Nat}
    {locals locals₁ : WriteLocals} (hdead : locals.deadonArrival = false)
    (hmem : req.lpn ∈ s.cache.cmt)
    (h : programUnit cfg env w req true key blk (locals, s) idx = .ok (locals₁, s₁)) :
    req.lpn ∈ s₁.cache.cmt ∧ ∀ k ∈ s₁.cache.cmt, k ∈ s.cache.cmt := by
  have hkeys := (programUnit_keys hcmt hpred hdead h).2
  split at hkeys
  · refine ⟨(hkeys _).mpr (.inl rfl), fun k hk => ?_⟩
    rcases (hkeys k).mp hk with rfl | hk
    · exact hmem
    · exact makeRoom_shrinks.cmt_subset k hk
  · exact ⟨(hkeys _).mpr hmem, fun k hk => (hkeys k).mp hk⟩

/-- With room, a unit keeps the pages of `cmt`. -/
theorem programUnit_room (hcmt : cfg.enableCMT = true)
    (hpred : cfg.useDeadOnArrivalPredictor = false) {key : Option Nat} {blk idx : Nat}
    {locals locals₁ : WriteLocals} (hdead : locals.deadonArrival = false)
    (hmem : req.lpn ∈ s.cache.cmt) (hroom : s.cache.cmt.size < cfg.cmtCapacity)
    (h : programUnit cfg env w req true key blk (locals, s) idx = .ok (locals₁, s₁)) :
    s.SameKeys s₁ := by
  have hkeys := (programUnit_keys hcmt hpred hdead h).2
  split at hkeys
  · intro k
    rw [hkeys, makeRoom_of_lt hroom]
    refine or_iff_right_of_imp ?_
    rintro rfl
    exact hmem
  · exact hkeys

/-- From a full table, a unit keeps the pages if and only if the policy takes no other page. -/
theorem programUnit_keys_iff (hcmt : cfg.enableCMT = true)
    (hpred : cfg.useDeadOnArrivalPredictor = false) {key : Option Nat} {blk idx : Nat}
    {locals locals₁ : WriteLocals} (hdead : locals.deadonArrival = false)
    (hmem : req.lpn ∈ s.cache.cmt) (hfull : cfg.cmtCapacity ≤ s.cache.cmt.size)
    (h : programUnit cfg env w req true key blk (locals, s) idx = .ok (locals₁, s₁)) :
    s.SameKeys s₁ ↔ (req.wants cfg idx = true →
      ∀ k ∈ s.cache.cmt, s.cache.Takes cfg w.iclCount k → k = req.lpn) := by
  have hkeys := (programUnit_keys hcmt hpred hdead h).2
  split at hkeys
  · next hwant =>
    rw [forall_prop_of_true hwant]
    constructor
    · intro hsame k hk htakes
      by_contra hne
      have hstays := ((hkeys k).mp ((hsame k).mpr hk)).resolve_left hne
      exact ((mem_makeRoom hfull).mp hstays).2 htakes
    · intro hspares k
      refine ⟨(programUnit_subset hcmt hpred hdead hmem h).2 k, fun hk => (hkeys k).mpr ?_⟩
      by_cases hne : k = req.lpn
      · exact .inl hne
      · exact .inr ((mem_makeRoom hfull).mpr ⟨hk, fun htakes => hne (hspares k hk htakes)⟩)
  · next hskip => exact iff_of_true hkeys fun hwant => absurd hwant hskip

theorem programUnits_subset (hcmt : cfg.enableCMT = true)
    (hpred : cfg.useDeadOnArrivalPredictor = false) {key : Option Nat} {blk : Nat} {l : List Nat}
    {locals locals' : WriteLocals} (hdead : locals.deadonArrival = false)
    (hmem : req.lpn ∈ s.cache.cmt)
    (h : l.foldlM (programUnit cfg env w req true key blk) (locals, s) = .ok (locals', s')) :
    ∀ k ∈ s'.cache.cmt, k ∈ s.cache.cmt := by
  induction l generalizing s locals with
  | nil =>
    cases h
    exact fun _ hk => hk
  | cons idx l ih =>
    rw [List.foldlM_cons, Except.bind_eq_ok] at h
    obtain ⟨⟨locals₁, s₁⟩, hunit, h⟩ := h
    have hdead₁ := (programUnit_keys hcmt hpred hdead hunit).1
    obtain ⟨hmem₁, hsub⟩ := programUnit_subset hcmt hpred hdead hmem hunit
    exact fun k hk => hsub k (ih hdead₁ hmem₁ h k hk)

/-- With room, the loop keeps the pages of `cmt`. -/
theorem programUnits_room (hcmt : cfg.enableCMT = true)
    (hpred : cfg.useDeadOnArrivalPredictor = false) {key : Option Nat} {blk : Nat} {l : List Nat}
    {locals locals' : WriteLocals} (hdead : locals.deadonArrival = false)
    (hmem : req.lpn ∈ s.cache.cmt) (hroom : s.cache.cmt.size < cfg.cmtCapacity)
    (h : l.foldlM (programUnit cfg env w req true key blk) (locals, s) = .ok (locals', s')) :
    s.SameKeys s' := by
  induction l generalizing s locals with
  | nil =>
    cases h
    exact fun _ => Iff.rfl
  | cons idx l ih =>
    rw [List.foldlM_cons, Except.bind_eq_ok] at h
    obtain ⟨⟨locals₁, s₁⟩, hunit, h⟩ := h
    have hdead₁ := (programUnit_keys hcmt hpred hdead hunit).1
    have hsame := programUnit_room hcmt hpred hdead hmem hroom hunit
    have hrest := ih hdead₁ ((hsame _).mpr hmem) (hsame.size_eq ▸ hroom) h
    exact fun k => (hrest k).trans (hsame k)

/-- From a full table, the loop keeps the pages if and only if the policy takes no other page at
any unit. -/
theorem programUnits_keys_iff (hcmt : cfg.enableCMT = true)
    (hpred : cfg.useDeadOnArrivalPredictor = false) {key : Option Nat} {blk : Nat} {l : List Nat}
    {locals locals' : WriteLocals} (hdead : locals.deadonArrival = false)
    (hmem : req.lpn ∈ s.cache.cmt) (hfull : cfg.cmtCapacity ≤ s.cache.cmt.size)
    (h : l.foldlM (programUnit cfg env w req true key blk) (locals, s) = .ok (locals', s')) :
    s.SameKeys s' ↔
      Run.Along (programUnit cfg env w req true key blk)
        (fun acc idx => req.wants cfg idx = true →
          ∀ k ∈ acc.2.cache.cmt, acc.2.cache.Takes cfg w.iclCount k → k = req.lpn)
        (locals, s) l := by
  induction l generalizing s locals with
  | nil =>
    cases h
    exact iff_of_true (fun _ => Iff.rfl) trivial
  | cons idx l ih =>
    rw [List.foldlM_cons, Except.bind_eq_ok] at h
    obtain ⟨⟨locals₁, s₁⟩, hunit, h⟩ := h
    have hdead₁ := (programUnit_keys hcmt hpred hdead hunit).1
    obtain ⟨hmem₁, hsub₁⟩ := programUnit_subset hcmt hpred hdead hmem hunit
    have hsub := programUnits_subset hcmt hpred hdead₁ hmem₁ h
    rw [Run.Along, hunit, ← programUnit_keys_iff hcmt hpred hdead hmem hfull hunit]
    constructor
    · intro hsame
      -- a page that leaves the table at this unit is not entered at a later one
      have hsame₁ : s.SameKeys s₁ := fun k => ⟨hsub₁ k, fun hk => hsub k ((hsame k).mpr hk)⟩
      refine ⟨hsame₁, (ih hdead₁ hmem₁ (hsame₁.size_eq ▸ hfull) h).mp fun k => ?_⟩
      exact (hsame k).trans (hsame₁ k).symm
    · rintro ⟨hsame₁, halong⟩ k
      exact ((ih hdead₁ hmem₁ (hsame₁.size_eq ▸ hfull) h).mpr halong k).trans (hsame₁ k)

/-! ### One request -/

theorem touch_keys {lpn tick : Nat} {e : MappingEntry} {c : MappingCache}
    (he : c.cmt.find? lpn = some e) (l : Nat) : l ∈ (c.touch lpn e tick).cmt ↔ l ∈ c.cmt := by
  show l ∈ c.cmt.set 0 lpn _ ↔ _
  rw [UnorderedMap.mem_set]
  constructor
  · rintro (rfl | h)
    · exact UnorderedMap.mem_of_find? he
    · exact h
  · exact .inr

theorem relocated_keys {c c' : MappingCache} (h : c.Relocated c') (l : Nat) :
    l ∈ c'.cmt ↔ l ∈ c.cmt := by
  show l ∈ c'.cmt.keys ↔ l ∈ c.cmt.keys
  rw [h.keys]

/-- The lookup of a page that is in `cmt` keeps the keys. -/
theorem Looking.sameKeys {lpn : Nat} {c : MappingCache} (hlook : s.Looking cfg env lpn c)
    (hmem : lpn ∈ s.cache.cmt) (l : Nat) : l ∈ c.cmt ↔ l ∈ s.cache.cmt := by
  cases hlook with
  | hit he => exact touch_keys he l
  | promote hmiss => exact absurd hmem hmiss
  | miss hmiss => exact absurd hmem hmiss.1

/-- A read that hits keeps the keys. -/
theorem read_sameKeys (hcmt : cfg.enableCMT = true) (hmem : req.lpn ∈ s.cache.cmt)
    (h : s.read cfg env w req = .ok s') : s.SameKeys s' := by
  have hread := read_cache hcmt h
  intro l
  generalize s'.cache = c at hread ⊢
  cases hread with
  | idle => exact Iff.rfl
  | found hlook => exact hlook.sameKeys hmem l
  | load hmiss => exact absurd hmem hmiss.1

/-- A write that hits keeps the keys if and only if it spares them whenever it enters the page. The
collection that may follow does not matter. -/
theorem write_keys_iff (hcmt : cfg.enableCMT = true)
    (hpred : cfg.useDeadOnArrivalPredictor = false) (hmem : req.lpn ∈ s.cache.cmt)
    (hcount : 0 < req.ioFlag.count) (h : s.write cfg env w req = .ok s') :
    s.SameKeys s' ↔ WriteSpares cfg env w req s := by
  rw [write, if_pos hcount, writeInternal, Except.bind_eq_ok] at h
  obtain ⟨s₂, hprogram, hcollect⟩ := h
  have hcollect := relocated_keys (collectIfNeeded_cache hcollect)
  obtain ⟨key, hit, s₁, blk, pool, locals, hlook, hfree, -, hloop⟩ := programPage_cases hprogram
  have hkeys := (lookupForWrite_looking hcmt hlook).1.sameKeys hmem
  have hmem₁ : req.lpn ∈ s₁.cache.cmt := (hkeys _).mpr hmem
  have hsize : s₁.cache.cmt.size = s.cache.cmt.size := SameKeys.size_eq hkeys
  have hsame : s.SameKeys s' ↔ s₁.SameKeys s₂ :=
    forall_congr' fun k => iff_congr (hcollect k) (hkeys k).symm
  rw [hsame, WriteSpares]
  by_cases hroom : s.cache.cmt.size < cfg.cmtCapacity
  · refine iff_of_true ?_ (.inl hroom)
    exact programUnits_room (s := s₁.programStart true pool) hcmt hpred rfl hmem₁ (hsize ▸ hroom)
      hloop
  · rw [or_iff_right hroom, hlook]
    show _ ↔ (s₁.pool.getLastFreeBlock cfg env req.ioFlag).All _
    rw [hfree]
    exact programUnits_keys_iff (s := s₁.programStart true pool) hcmt hpred rfl hmem₁
      (hsize ▸ not_lt.mp hroom) hloop

end PageMapping

/-- The call is a read or a write of a page that is in `cmt`. -/
def Op.Hits (s : PageMapping) : Op → Prop
  | .read req => req.lpn ∈ s.cache.cmt
  | .write req => req.lpn ∈ s.cache.cmt
  | _ => False

/-- A read needs no room. A write spares the other pages whenever it enters its own. -/
def Op.Spares (cfg : Config) (env : Env) (s : PageMapping) : World × Op → Prop
  | (w, .write req) => 0 < req.ioFlag.count → s.WriteSpares cfg env w req
  | _ => True

/-- In every state, a read or a write that hits keeps the pages of `cmt` if and only if it makes
room without taking one of the others. -/
theorem hit_keeps_keys_iff {cfg : Config} {env : Env} (hcmt : cfg.enableCMT = true)
    (hpred : cfg.useDeadOnArrivalPredictor = false) {s s' : PageMapping} {call : World × Op}
    (hhit : call.2.Hits s) (h : Op.exec cfg env s call = .ok s') :
    s.SameKeys s' ↔ Op.Spares cfg env (s.log .request) call := by
  obtain ⟨w, op⟩ := call
  cases op with
  | read req =>
    exact iff_of_true (PageMapping.read_sameKeys (s := s.log .request) hcmt hhit h) trivial
  | write req =>
    by_cases hcount : 0 < req.ioFlag.count
    · rw [Op.Spares, forall_prop_of_true hcount]
      exact PageMapping.write_keys_iff (s := s.log .request) hcmt hpred hhit hcount h
    · refine iff_of_true ?_ fun h => absurd h hcount
      simp only [Op.exec, PageMapping.write, if_neg hcount] at h
      cases h
      exact fun _ => Iff.rfl
  | trim req => exact hhit.elim
  | format range => exact hhit.elim
  | undoCached lpn => exact hhit.elim

/-- With room for three entries, the second write of page 2 keeps page 1. -/
theorem hit_keeps_keys_with_room : ∃ s₀ s s', PageMapping.start (.entries 3 3) .ticking none =
      .ok s₀ ∧
    run (.entries 3 3) .ticking s₀ (calls [.write (.page 1), .write (.page 2)]) = .ok s ∧
    Op.exec (.entries 3 3) .ticking s (.zero, .write (.page 2)) = .ok s' ∧
    (s.SameKeys s' ↔
      Op.Spares (.entries 3 3) .ticking (s.log .request) (.zero, .write (.page 2))) ∧
    s.SameKeys s' := by
  obtain ⟨s₀, hstart, hrun⟩ := Except.exists_of_map
    (x := PageMapping.start (.entries 3 3) .ticking none)
    (p := fun s₀ => (run (.entries 3 3) .ticking s₀ (calls [.write (.page 1),
      .write (.page 2)])).map (fun s => decide (2 ∈ s.cache.cmt ∧
        (Op.exec (.entries 3 3) .ticking s (.zero, .write (.page 2))).map
          (fun s' => decide (s'.cache.cmt.keys = s.cache.cmt.keys)) = .ok true)) = .ok true)
    (by decide +kernel)
  obtain ⟨s, hs, hhit, hwrite⟩ := Except.exists_of_map hrun
  obtain ⟨s', hs', hkeys⟩ := Except.exists_of_map hwrite
  refine ⟨s₀, s, s', hstart, hs, hs', hit_keeps_keys_iff rfl rfl hhit hs', fun l => ?_⟩
  show l ∈ s'.cache.cmt.keys ↔ l ∈ s.cache.cmt.keys
  rw [hkeys]

/-- Pages 1 and 2 fill the table. The second write of page 2 hits it, and evicts page 1. -/
theorem hit_evicts_other : ∃ s₀ s s', PageMapping.start (.entries 3 2) .ticking none = .ok s₀ ∧
    run (.entries 3 2) .ticking s₀ (calls [.write (.page 1), .write (.page 2)]) = .ok s ∧
    Op.exec (.entries 3 2) .ticking s (.zero, .write (.page 2)) = .ok s' ∧
    (Op.write (.page 2)).Hits s ∧ 1 ∈ s.cache.cmt ∧ s'.cache.cmt.keys = [2] ∧
    ¬ s.SameKeys s' := by
  obtain ⟨s₀, hstart, hrun⟩ := Except.exists_of_map
    (x := PageMapping.start (.entries 3 2) .ticking none)
    (p := fun s₀ => (run (.entries 3 2) .ticking s₀ (calls [.write (.page 1),
      .write (.page 2)])).map (fun s => decide (2 ∈ s.cache.cmt ∧ 1 ∈ s.cache.cmt ∧
        (Op.exec (.entries 3 2) .ticking s (.zero, .write (.page 2))).map
          (fun s' => decide (s'.cache.cmt.keys = [2])) = .ok true)) = .ok true)
    (by decide +kernel)
  obtain ⟨s, hs, hhit, hother, hwrite⟩ := Except.exists_of_map hrun
  obtain ⟨s', hs', hkeys⟩ := Except.exists_of_map hwrite
  refine ⟨s₀, s, s', hstart, hs, hs', hhit, hother, hkeys, fun hsame => ?_⟩
  have hmem : 1 ∈ s'.cache.cmt.keys := (hsame 1).mpr hother
  rw [hkeys] at hmem
  exact absurd hmem (by decide)

end SimpleSSD.FTL
