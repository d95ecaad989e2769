import SimpleSSD.FTL.Bijection
import SimpleSSD.FTL.ProgramLoop

/-!
# The device with and without the mapping caches

Two devices of the same geometry, one with the cached mapping table and one
without it, are in lockstep when they have the same `table` and the same blocks
(`SameFlash`). Calls keep them so if every mapping that the caches give is the
one in `table`, and if the two devices choose the same victims. In `cachedGC`
mode the choice depends on the blocks only, so the clocks of the two devices may
differ.
-/

namespace SimpleSSD.FTL

/-- The configuration with the cached mapping table switched off. -/
def Config.withoutCMT (cfg : Config) : Config := { cfg with enableCMT := false }

namespace PageMapping

/-- Two states with the same `table` and the same blocks. -/
structure SameFlash (s t : PageMapping) : Prop where
  table : s.table = t.table
  pool : s.pool = t.pool

/-- A write that finds its page in the mapping caches finds what `table` has, and
the first entry of `table` is its own. -/
def WriteAgrees (cfg : Config) (req : Request) (s : PageMapping) : Prop :=
  ∀ page ∈ s.cachedMapping cfg req.lpn, ∃ e ∈ s.table.begin?, e.1 = req.lpn ∧
    ∀ idx < cfg.bitsetSize, req.wants cfg idx = true → e.2[idx]? = some page

instance (cfg : Config) (req : Request) (s : PageMapping) : Decidable (s.WriteAgrees cfg req) :=
  inferInstanceAs (Decidable (∀ page ∈ s.cachedMapping cfg req.lpn, _))

/-- A read finds what `table` has. -/
def ReadAgrees (cfg : Config) (req : Request) (s : PageMapping) : Prop :=
  ∀ idx < cfg.bitsetSize, req.wants cfg idx = true →
    s.readMapping cfg req.lpn idx = s.tableMapping req.lpn idx

instance (cfg : Config) (req : Request) (s : PageMapping) : Decidable (s.ReadAgrees cfg req) :=
  inferInstanceAs (Decidable (∀ idx < cfg.bitsetSize, _))

section Lockstep

variable {cfg : Config} {env₁ env₂ : Env} {w : World} {req : Request} {s t : PageMapping}

theorem cachedMapping_withoutCMT (l : Nat) : t.cachedMapping cfg.withoutCMT l = none := by
  simp [cachedMapping, cmtHit, shadowHit, Config.withoutCMT]

/-! ### Reads -/

/-- A unit loop that asks for no unit does nothing. -/
theorem readUnits_idle {mapping : Nat → Except Fault (Nat × Nat)} {fill : Bool} (l : List Nat)
    (hidle : ∀ idx ∈ l, req.wants cfg idx = false) (beginAt : Nat) (dead : Bool) :
    readUnits cfg env₁ w req mapping fill l beginAt dead s = .ok s := by
  induction l with
  | nil => rfl
  | cons idx rest ih =>
    rw [readUnits, hidle idx List.mem_cons_self]
    exact ih fun i hi => hidle i (List.mem_cons_of_mem _ hi)

/-- Two unit loops that read the same pages. -/
theorem readUnits_lockstep {m₁ m₂ : Nat → Except Fault (Nat × Nat)} {f₁ f₂ : Bool} (l : List Nat)
    (hm : ∀ idx ∈ l, req.wants cfg idx = true → (m₁ idx).Rel (m₂ idx) Eq) :
    ∀ (b₁ b₂ : Nat) (d₁ d₂ : Bool) (s t : PageMapping), s.SameFlash t →
      (readUnits cfg env₁ w req m₁ f₁ l b₁ d₁ s).Rel
        (readUnits cfg.withoutCMT env₂ w req m₂ f₂ l b₂ d₂ t) SameFlash := by
  induction l with
  | nil => exact fun _ _ _ _ _ _ hst => Except.rel_ok.mpr hst
  | cons idx rest ih =>
    intro b₁ b₂ d₁ d₂ s t hst s' t' hs ht
    have ih := ih fun i hi => hm i (List.mem_cons_of_mem _ hi)
    rcases readUnits_cons _ _ _ hs with ⟨hskip, hs⟩ | ⟨hwant, page, hpage, hs⟩
    · rcases readUnits_cons _ _ _ ht with ⟨-, ht⟩ | ⟨hwant, -⟩
      · exact ih _ _ _ _ _ _ hst _ _ hs ht
      · exact absurd (hskip.symm.trans hwant) (by simp)
    · rcases readUnits_cons _ _ _ ht with ⟨hskip, -⟩ | ⟨-, page', hpage', ht⟩
      · exact absurd (hwant.symm.trans hskip) (by simp)
      obtain rfl : page = page' := hm idx List.mem_cons_self hwant _ _ hpage hpage'
      rw [← hst.pool] at ht
      -- both skip the page, both stop at its block, or both read it
      rcases hs with ⟨hrange, hs⟩ | ⟨hrange, hmem, rfl⟩ | ⟨hrange, hmem, b, r, _, _, hb, hr, hs⟩
      · rcases ht with ⟨-, ht⟩ | ⟨hrange', -⟩ | ⟨hrange', -⟩
        · exact ih _ _ _ _ _ _ hst _ _ hs ht
        · exact absurd hrange' hrange
        · exact absurd hrange' hrange
      · rcases ht with ⟨hrange', -⟩ | ⟨-, -, rfl⟩ | ⟨-, hmem', -⟩
        · exact absurd hrange hrange'
        · exact ⟨by simp [hst.table], by simp [hst.pool]⟩
        · exact absurd hmem hmem'
      · rcases ht with ⟨hrange', -⟩ | ⟨-, hmem', -⟩ | ⟨-, -, b', r', _, _, hb', hr', ht⟩
        · exact absurd hrange hrange'
        · exact absurd hmem' hmem
        · rw [hb] at hb'
          cases hb'
          rw [hr] at hr'
          cases hr'
          refine ih _ _ _ _ _ _ ⟨?_, ?_⟩ _ _ hs ht
          · simp [afterRead, hst.table]
          · simp [afterRead, hst.pool]

theorem read_lockstep (hst : s.SameFlash t) (hread : s.ReadAgrees cfg req) :
    (s.read cfg env₁ w req).Rel (t.read cfg.withoutCMT env₂ w req) SameFlash := by
  rw [read, read]
  split
  · intro s' t' hs ht
    cases hvec : s.table.find? req.lpn with
    | some vec =>
      have hvec' : t.table.find? req.lpn = some vec := hst.table ▸ hvec
      obtain ⟨s₁, _, m₁, f₁, b₁, heq₁, hpool₁, htable₁, -, -, hmap₁⟩ :=
        readInternal_eq cfg env₁ w hvec
      obtain ⟨t₁, _, m₂, f₂, b₂, heq₂, hpool₂, htable₂, -, -, hmap₂⟩ :=
        readInternal_eq cfg.withoutCMT env₂ w hvec'
      rw [heq₁] at hs
      rw [heq₂] at ht
      refine readUnits_lockstep _ (fun idx hidx hwant p₁ p₂ h₁ h₂ => ?_) _ _ _ _ _ _ ?_ _ _ hs ht
      · rw [hmap₁, hread idx (List.mem_range.mp hidx) hwant] at h₁
        rw [hmap₂, readMapping, cachedMapping_withoutCMT, Option.none_or, tableMapping,
          ← hst.table] at h₂
        exact Option.some.inj (h₁.symm.trans h₂)
      · exact ⟨by rw [htable₁, htable₂, hst.table], by rw [hpool₁, hpool₂, hst.pool]⟩
    | none =>
      have htable : ∀ idx, s.tableMapping req.lpn idx = none := fun idx => by
        rw [tableMapping, hvec]
        rfl
      have ht : t = t' := by
        have hvec' : t.table.find? req.lpn = none := hst.table ▸ hvec
        have hcmt : t.cmtHit cfg.withoutCMT req.lpn = none := rfl
        have hshadow : t.shadowHit cfg.withoutCMT req.lpn = none := by
          simp [shadowHit, Config.withoutCMT]
        rw [readInternal, hcmt] at ht
        simp only [hshadow, hvec'] at ht
        exact Except.ok.inj ht
      -- a page that is only cached is not asked for
      have hidle : s.cachedMapping cfg req.lpn ≠ none →
          ∀ idx ∈ List.range cfg.bitsetSize, req.wants cfg idx = false := by
        intro hcached idx hidx
        by_contra hwant
        have hboth := hread idx (List.mem_range.mp hidx) (by simpa using hwant)
        rw [htable, readMapping, htable, Option.or_none] at hboth
        exact hcached hboth
      have hsame : s'.table = s.table ∧ s'.pool = s.pool := by
        rw [readInternal] at hs
        cases hcmt : s.cmtHit cfg req.lpn with
        | some e =>
          have hcached : s.cachedMapping cfg req.lpn ≠ none := by simp [cachedMapping, hcmt]
          simp only [hcmt] at hs
          rw [readUnits_idle _ (hidle hcached)] at hs
          cases hs
          exact ⟨rfl, rfl⟩
        | none =>
          simp only [hcmt] at hs
          cases hshadow : s.shadowHit cfg req.lpn with
          | some e =>
            have hcached : s.cachedMapping cfg req.lpn ≠ none := by
              simp [cachedMapping, hcmt, hshadow]
            simp only [hshadow] at hs
            rw [readUnits_idle _ (hidle hcached)] at hs
            cases hs
            exact ⟨rfl, rfl⟩
          | none =>
            simp only [hshadow, hvec] at hs
            cases hs
            exact ⟨rfl, rfl⟩
      exact ⟨by rw [hsame.1, ← ht, hst.table], by rw [hsame.2, ← ht, hst.pool]⟩
  · exact Except.rel_ok.mpr hst

/-! ### Writes -/

/-- Only the units asked for matter to the loop that invalidates the old page. -/
theorem invalidateUnits_rel {m₁ m₂ : Nat → Except Fault (Nat × Nat)}
    (hm : ∀ idx < cfg.bitsetSize, req.wants cfg idx = true → (m₁ idx).Rel (m₂ idx) Eq)
    (p : BlockPool) :
    (invalidateUnits cfg req m₁ p).Rel (invalidateUnits cfg.withoutCMT req m₂ p) Eq := by
  refine Run.foldlM_rel (fun p q idx hidx hpq => ?_) rfl
  subst hpq
  show (if req.wants cfg idx = true then _ else _ : Except Fault BlockPool).Rel
    (if req.wants cfg idx = true then _ else _) Eq
  split
  · next hwant =>
    refine (hm idx (List.mem_range.mp hidx) hwant).bind fun page page' hpage => ?_
    subst hpage
    exact Except.rel_ok.mpr rfl
  · exact Except.rel_ok.mpr rfl

theorem lookupForWrite_lockstep {send : Bool} (hplace : env₁.place = env₂.place)
    (hst : s.SameFlash t) (hwrite : s.WriteAgrees cfg req)
    (hsend : send = true ∨ s.cachedMapping cfg req.lpn = none) :
    (s.lookupForWrite cfg env₁ req send).Rel (t.lookupForWrite cfg.withoutCMT env₂ req send)
      fun r q => r.1 = q.1 ∧ r.2.2.SameFlash q.2.2 := by
  have hcmt' : t.cmtHit cfg.withoutCMT req.lpn = none := rfl
  have hshadow' : t.shadowHit cfg.withoutCMT req.lpn = none := by
    simp [shadowHit, Config.withoutCMT]
  have hcached : s.cachedMapping cfg req.lpn =
      ((s.cmtHit cfg req.lpn).map MappingEntry.page).or
        ((s.shadowHit cfg req.lpn).map ShadowCacheEntry.page) := rfl
  -- a page found in the caches: the other device finds it in `table`
  have hfound : ∀ page, s.cachedMapping cfg req.lpn = some page →
      ∃ vec, s.table.begin? = some (req.lpn, vec) ∧ t.table.find? req.lpn = some vec ∧
        (invalidateUnits cfg req (fun _ => .ok page) s.pool).Rel
          (invalidateUnits cfg.withoutCMT req (mappingAt vec) t.pool) Eq := by
    intro page hpage
    obtain ⟨⟨l, vec⟩, hfirst, rfl, hall⟩ := hwrite page hpage
    refine ⟨vec, hfirst, ?_, ?_⟩
    · rw [← hst.table]
      exact UnorderedMap.find?_of_begin? hfirst
    · rw [← hst.pool]
      refine invalidateUnits_rel (fun idx hidx hwant p₁ p₂ h₁ h₂ => ?_) _
      cases h₁
      exact Option.some.inj ((hall idx hidx hwant).symm.trans ((mappingAt_sat vec idx).of_ok h₂))
  intro r q hr hq
  rw [lookupForWrite] at hq
  simp only [hcmt', hshadow'] at hq
  obtain ⟨key, hit, s₁⟩ := r
  cases lookupForWrite_cases hr with
  | @hit e p hcmt hp =>
    rw [hcmt, Option.map_some, Option.some_or] at hcached
    obtain ⟨vec, hfirst, hvec, hpools⟩ := hfound _ hcached
    simp only [hvec] at hq
    rw [Except.bind_eq_ok] at hq
    obtain ⟨p', hp', hq⟩ := hq
    have htable : (if send = true then s.touchCmt env₁ req.lpn e else s).table = s.table := by
      split <;> rfl
    cases hq
    exact ⟨by rw [hfirst]; rfl, htable.trans hst.table, hpools _ _ hp hp'⟩
  | promoted hcmt hshadow _ hp =>
    rw [hcmt, hshadow, Option.map_none, Option.none_or, Option.map_some] at hcached
    obtain ⟨vec, hfirst, hvec, hpools⟩ := hfound _ hcached
    simp only [hvec] at hq
    rw [Except.bind_eq_ok] at hq
    obtain ⟨p', hp', hq⟩ := hq
    cases hq
    exact ⟨by rw [hfirst]; rfl, hst.table, hpools _ _ hp hp'⟩
  | skipped hcmt hshadow hwarm =>
    rw [hcmt, hshadow, Option.map_none, Option.none_or, Option.map_some] at hcached
    simp [hwarm, hcached] at hsend
  | mapped _ _ hvec hp =>
    rw [← hst.table, ← hst.pool] at hq
    simp only [hvec] at hq
    rw [Except.bind_eq_ok] at hq
    obtain ⟨p', hp', hq⟩ := hq
    cases hq
    exact ⟨rfl, rfl, Except.ok.inj (hp.symm.trans hp')⟩
  | added _ _ hvec =>
    rw [← hst.table, ← hst.pool] at hq
    simp only [hvec] at hq
    cases hq
    refine ⟨rfl, ?_, rfl⟩
    show s.table.emplace (env₁.place .table s.table.keys req.lpn) _ _ = _
    rw [hplace]
    rfl

/-- Blocks are allocated without looking at the mapping caches. -/
theorem getFreeBlock_withoutCMT (hplace : env₁.place = env₂.place) (p : BlockPool) (i : Nat) :
    p.getFreeBlock cfg.withoutCMT env₂ i = p.getFreeBlock cfg env₁ i := by
  rw [BlockPool.getFreeBlock, BlockPool.getFreeBlock, hplace]
  rfl

theorem getLastFreeBlock_withoutCMT (hplace : env₁.place = env₂.place) (p : BlockPool)
    (iomap : Bitset) :
    p.getLastFreeBlock cfg.withoutCMT env₂ iomap = p.getLastFreeBlock cfg env₁ iomap := by
  have hopen : ∀ p : BlockPool, p.openBlock cfg.withoutCMT env₂ = p.openBlock cfg env₁ := by
    intro p
    rw [BlockPool.openBlock, BlockPool.openBlock, getFreeBlock_withoutCMT hplace]
  have herased :
      ∀ p : BlockPool, p.replaceErased cfg.withoutCMT env₂ = p.replaceErased cfg env₁ := by
    intro p
    simp only [BlockPool.replaceErased, hopen]
  have hfull : ∀ p : BlockPool, p.replaceFull cfg.withoutCMT env₂ = p.replaceFull cfg env₁ := by
    intro p
    simp only [BlockPool.replaceFull, hopen]
    rfl
  simp only [BlockPool.getLastFreeBlock, herased, hfull]
  rfl

theorem programUnit_lockstep {send : Bool} {key : Option Nat} {blk idx : Nat}
    {acc acc' : WriteLocals × PageMapping} (hst : acc.2.SameFlash acc'.2) :
    (programUnit cfg env₁ w req send key blk acc idx).Rel
      (programUnit cfg.withoutCMT env₂ w req send key blk acc' idx)
      fun r q => r.2.SameFlash q.2 := by
  by_cases hwant : req.wants cfg idx = true
  · have hwant' : req.wants cfg.withoutCMT idx = true := hwant
    intro r q hr hq
    obtain ⟨k, vec, b, b', hkey, hvec, -, hb, hwrite, hpool, htable, -⟩ :=
      programUnit_spec hwant hr
    obtain ⟨k', vec', c, c', hkey', hvec', -, hc, hwrite', hpool', htable', -⟩ :=
      programUnit_spec hwant' hq
    -- the two units program the same block and set the same vector
    rw [hkey] at hkey'
    cases hkey'
    rw [← hst.table, hvec] at hvec'
    cases hvec'
    rw [← hst.pool, hb] at hc
    cases hc
    rw [hwrite] at hwrite'
    cases hwrite'
    exact ⟨by rw [htable, htable', hst.table], by rw [hpool, hpool', hst.pool]⟩
  · rw [programUnit, programUnit]
    have hwant : req.wants cfg idx = false := by simpa using hwant
    have hwant' : req.wants cfg.withoutCMT idx = false := hwant
    simp only [hwant, hwant']
    exact Except.rel_ok.mpr hst

theorem programPage_lockstep {send : Bool} (hplace : env₁.place = env₂.place)
    (hst : s.SameFlash t) (hwrite : s.WriteAgrees cfg req)
    (hsend : send = true ∨ s.cachedMapping cfg req.lpn = none) :
    (s.programPage cfg env₁ w req send).Rel (t.programPage cfg.withoutCMT env₂ w req send)
      SameFlash := by
  refine (lookupForWrite_lockstep hplace hst hwrite hsend).bind fun r q hrq => ?_
  obtain ⟨key, hit, s₁⟩ := r
  obtain ⟨key', hit', t₁⟩ := q
  obtain rfl : key = key' := hrq.1
  have hst₁ : s₁.SameFlash t₁ := hrq.2
  simp only [getLastFreeBlock_withoutCMT hplace, hst₁.pool]
  refine Except.Rel.bind_same fun a => ?_
  obtain ⟨blk, pool⟩ := a
  simp only
  split
  · exact Except.rel_error_left
  · have hstart : SameFlash
        (if send = true then (({ s₁ with pool := pool } : PageMapping).log .dram).log .dram
          else { s₁ with pool := pool })
        (if send = true then (({ t₁ with pool := pool } : PageMapping).log .dram).log .dram
          else { t₁ with pool := pool }) := by
      split <;> exact ⟨hst₁.table, rfl⟩
    have hloop := Run.foldlM_rel
      (f := programUnit cfg env₁ w req send key blk)
      (g := programUnit cfg.withoutCMT env₂ w req send key blk)
      (R := fun a b => a.2.SameFlash b.2) (l := List.range cfg.bitsetSize)
      (fun a b idx _ hab => programUnit_lockstep hab) (s := (⟨false, hit⟩, _))
      (t := (⟨false, hit'⟩, _)) hstart
    exact hloop.bind fun a b hab => Except.rel_ok.mpr hab

/-! ### Collections -/

/-- A collection looks at neither the mapping caches nor the clock. -/
theorem doGarbageCollection_withoutCMT (hplace : env₁.place = env₂.place) :
    doGarbageCollection cfg.withoutCMT env₂ w = doGarbageCollection cfg env₁ w := by
  have hcopy : ∀ victim pageIndex lpns bit relocateCmt acc,
      copyPage cfg.withoutCMT env₂ victim pageIndex lpns bit relocateCmt acc =
        copyPage cfg env₁ victim pageIndex lpns bit relocateCmt acc := by
    intro victim pageIndex lpns bit relocateCmt acc
    simp only [copyPage, getLastFreeBlock_withoutCMT hplace]
    rfl
  have hscan : scanPage cfg.withoutCMT env₂ w = scanPage cfg env₁ w := by
    funext victim acc pageIndex
    simp only [scanPage, reclaimPage, reclaimCachedPage, hcopy]
    rfl
  have hvictim : scanVictim cfg.withoutCMT env₂ w = scanVictim cfg env₁ w := by
    funext acc victim
    simp only [scanVictim, hscan]
    rfl
  funext victims s
  simp only [doGarbageCollection, hvictim]
  rfl

variable {env : Env}

/-- Two collections at the same point, with the same locals. -/
def SameScan (acc acc' : GcLocals × PageMapping) : Prop := acc.1 = acc'.1 ∧ acc.2.SameFlash acc'.2

theorem copyPage_lockstep {victim pageIndex : Nat} {lpns : List Nat} {bit : Bitset}
    {relocateCmt : Bool} {acc acc' : GcLocals × PageMapping} (hacc : SameScan acc acc') :
    (copyPage cfg env victim pageIndex lpns bit relocateCmt acc).Rel
      (copyPage cfg env victim pageIndex lpns bit relocateCmt acc') SameScan := by
  obtain ⟨locals, s⟩ := acc
  obtain ⟨locals', t⟩ := acc'
  obtain ⟨rfl, htable, hpool⟩ : locals = locals' ∧ s.table = t.table ∧ s.pool = t.pool :=
    ⟨hacc.1, hacc.2.table, hacc.2.pool⟩
  rw [copyPage, copyPage]
  simp only [hpool]
  refine Except.Rel.bind_same fun a =>
    Run.foldlM_rel (fun acc acc' idx _ hacc => ?_) ⟨rfl, htable, rfl⟩
  obtain ⟨locals, s⟩ := acc
  obtain ⟨locals', t⟩ := acc'
  obtain ⟨rfl, htable, hpool⟩ : locals = locals' ∧ s.table = t.table ∧ s.pool = t.pool :=
    ⟨hacc.1, hacc.2.table, hacc.2.pool⟩
  rw [copyUnit, copyUnit]
  simp only [htable, hpool]
  split
  · refine Except.Rel.bind_same fun p => ?_
    split
    · exact Except.rel_error_left
    · split
      · exact Except.rel_error_left
      · refine Except.Rel.bind_same fun _ => ?_
        simp only [log_pool, log_table]
        split
        · exact Except.rel_error_left
        · exact Except.Rel.bind_same fun b => Except.rel_ok.mpr ⟨rfl, rfl, rfl⟩
  · exact Except.rel_ok.mpr hacc

theorem scanPage_lockstep {victim pageIndex : Nat} {acc acc' : GcLocals × PageMapping}
    (hacc : SameScan acc acc') :
    (scanPage cfg env w victim acc pageIndex).Rel (scanPage cfg env w victim acc' pageIndex)
      SameScan := by
  obtain ⟨locals, s⟩ := acc
  obtain ⟨locals', t⟩ := acc'
  obtain ⟨rfl, htable, hpool⟩ : locals = locals' ∧ s.table = t.table ∧ s.pool = t.pool :=
    ⟨hacc.1, hacc.2.table, hacc.2.pool⟩
  have hsame : s.SameFlash t := ⟨htable, hpool⟩
  rw [scanPage, scanPage]
  split
  · rw [reclaimCachedPage, reclaimCachedPage]
    simp only [hpool]
    split
    · exact Except.rel_error_left
    · refine Except.Rel.bind_same fun cached => ?_
      split
      · split
        · exact Except.rel_error_left
        · exact Except.rel_ok.mpr ⟨rfl, hsame⟩
      · refine Except.Rel.bind_same fun valid => ?_
        split
        · refine Except.Rel.bind_same fun info => ?_
          split
          · split
            · exact Except.rel_error_left
            · split
              · split
                · exact copyPage_lockstep ⟨rfl, hsame⟩
                · exact Except.rel_ok.mpr ⟨rfl, hsame⟩
              · exact Except.rel_ok.mpr ⟨rfl, hsame⟩
          · exact Except.rel_ok.mpr ⟨rfl, hsame⟩
        · exact Except.rel_ok.mpr ⟨rfl, hsame⟩
  · rw [reclaimPage, reclaimPage]
    simp only [hpool]
    split
    · exact Except.rel_error_left
    · refine Except.Rel.bind_same fun info => ?_
      split
      · refine Except.Rel.bind_same fun valid => ?_
        split
        · exact copyPage_lockstep ⟨rfl, hsame⟩
        · exact Except.rel_ok.mpr ⟨rfl, hsame⟩
      · exact Except.rel_ok.mpr ⟨rfl, hsame⟩

/-- The erases at the end of a collection. -/
theorem foldlM_eraseInternal_lockstep (reqs : List PAL.Request) (hst : s.SameFlash t) :
    (reqs.foldlM (eraseInternal cfg) s).Rel (reqs.foldlM (eraseInternal cfg) t) SameFlash := by
  refine Run.foldlM_rel (fun s t req _ hst => ?_) hst
  rw [eraseInternal, eraseInternal, hst.pool]
  exact Except.Rel.bind_same fun p => Except.rel_ok.mpr ⟨hst.table, rfl⟩

theorem doGarbageCollection_lockstep {victims : List Nat} (hst : s.SameFlash t) :
    (doGarbageCollection cfg env w victims s).Rel (doGarbageCollection cfg env w victims t)
      SameFlash := by
  rw [doGarbageCollection, doGarbageCollection]
  split
  · exact Except.rel_ok.mpr hst
  · split
    · exact Except.rel_ok.mpr hst
    · have hloop : (victims.foldlM (scanVictim cfg env w) (GcLocals.empty, s)).Rel
          (victims.foldlM (scanVictim cfg env w) (GcLocals.empty, t)) SameScan := by
        refine Run.foldlM_rel (fun acc acc' victim _ hacc => ?_) ⟨rfl, hst⟩
        rw [scanVictim, scanVictim, hacc.2.pool]
        split
        · exact Except.rel_error_left
        · have hpages : ((List.range cfg.pagesInBlock).foldlM (scanPage cfg env w victim) acc).Rel
              ((List.range cfg.pagesInBlock).foldlM (scanPage cfg env w victim) acc') SameScan :=
            Run.foldlM_rel (f := scanPage cfg env w victim) (g := scanPage cfg env w victim)
              (fun _ _ _ _ hacc => scanPage_lockstep hacc) hacc
          refine hpages.bind fun a b hab => ?_
          obtain ⟨locals, s⟩ := a
          obtain ⟨locals', t⟩ := b
          obtain rfl : locals = locals' := hab.1
          exact Except.rel_ok.mpr ⟨rfl, hab.2⟩
      refine hloop.bind fun a b hab => ?_
      obtain ⟨locals, s⟩ := a
      obtain ⟨locals', t⟩ := b
      obtain rfl : locals = locals' := hab.1
      have hst : s.SameFlash t := hab.2
      simp only
      split
      · obtain ⟨trace, hdirty⟩ := foldl_markDirty locals.cachedValidLPN s
        obtain ⟨trace', hdirty'⟩ := foldl_markDirty locals.cachedValidLPN t
        simp only [finishCachedCollection, foldl_log, hdirty, hdirty']
        refine (foldlM_eraseInternal_lockstep _ ?_).bind fun s₁ t₁ hst₁ => ?_
        · split <;> exact ⟨by rw [hst.table], hst.pool⟩
        · obtain ⟨trace, hmove⟩ := foldl_handToCache
            (if cfg.blockToBlockMovement then locals.lpnListForCache else locals.lpa_list) s₁
          obtain ⟨trace', hmove'⟩ := foldl_handToCache
            (if cfg.blockToBlockMovement then locals.lpnListForCache else locals.lpa_list) t₁
          rw [hmove, hmove']
          exact Except.rel_ok.mpr ⟨by simp only [hst₁.table], hst₁.pool⟩
      · simp only [finishCollection, foldl_log]
        exact foldlM_eraseInternal_lockstep _ ⟨hst.table, hst.pool⟩

/-- In `cachedGC` mode the victims depend on the blocks only. -/
theorem selectVictimBlock_lockstep (hmode : cfg.evictPolicy = .cachedGC) (hst : s.SameFlash t) :
    (s.selectVictimBlock cfg env₁).Rel (t.selectVictimBlock cfg.withoutCMT env₂)
      fun r q => r.1 = q.1 ∧ r.2.SameFlash q.2 := by
  have hcache : byCache cfg := .inl hmode
  have htarget : t.reclaimTarget cfg.withoutCMT = s.reclaimTarget cfg := by
    rw [reclaimTarget, reclaimTarget, hst.pool]
    rfl
  have hweight : s.victimWeight cfg env₁ = .ok [] := if_pos hcache
  have hweight' : t.victimWeight cfg.withoutCMT env₂ = .ok [] := if_pos hcache
  have hcached : ∀ p : BlockPool, cachedWeight cfg.withoutCMT { t with pool := p } =
      cachedWeight cfg { s with pool := p } := fun p => rfl
  rw [selectVictimBlock, selectVictimBlock, htarget, hweight, hweight', hst.pool]
  simp only [hcached]
  refine Except.Rel.bind_same fun nBlocks => Except.Rel.bind_same fun weight => ?_
  refine Except.Rel.bind (R := Eq) ?_ fun weight weight' hw => ?_
  · simp only [sampleWeight, sampled, Config.withoutCMT, hmode]
    exact Except.rel_ok.mpr rfl
  · subst hw
    simp only [Config.withoutCMT]
    split
    · next hsort =>
      refine Eq.mpr (congrArg (fun x => Except.Rel _ x _) (if_pos hsort)) (Except.rel_ok.mpr ?_)
      exact ⟨rfl, hst.table, rfl⟩
    · next hsort =>
      refine Eq.mpr (congrArg (fun x => Except.Rel _ x _) (if_neg hsort)) (Except.rel_ok.mpr ?_)
      exact ⟨rfl, hst.table, rfl⟩

theorem write_lockstep (hplace : env₁.place = env₂.place) (hmode : cfg.evictPolicy = .cachedGC)
    (hst : s.SameFlash t) (hwrite : 0 < req.ioFlag.count → s.WriteAgrees cfg req) :
    (s.write cfg env₁ w req).Rel (t.write cfg.withoutCMT env₂ w req) SameFlash := by
  rw [write, write]
  split
  · next hcount =>
    refine (programPage_lockstep hplace hst (hwrite hcount) (.inl rfl)).bind fun s t hst => ?_
    have hratio : t.pool.freeBlockRatio cfg.withoutCMT = s.pool.freeBlockRatio cfg := by
      rw [hst.pool]
      rfl
    rw [collectIfNeeded, collectIfNeeded, hratio]
    show (if s.pool.freeBlockRatio cfg < cfg.gcThreshold then _ else _ : Except Fault _).Rel
      (if s.pool.freeBlockRatio cfg < cfg.gcThreshold then _ else _) _
    split
    · rw [if_pos rfl, if_pos rfl]
      refine (selectVictimBlock_lockstep hmode hst).bind fun r q hrq => ?_
      obtain ⟨victims, s⟩ := r
      obtain ⟨victims', t⟩ := q
      obtain rfl : victims = victims' := hrq.1
      rw [doGarbageCollection_withoutCMT hplace]
      exact doGarbageCollection_lockstep hrq.2
    · exact Except.rel_ok.mpr hst
  · exact Except.rel_ok.mpr hst

/-! ### Trim, format and evictions of the cache -/

theorem trim_lockstep (hst : s.SameFlash t) :
    (s.trim cfg req).Rel (t.trim cfg.withoutCMT req) SameFlash := by
  rw [trim, trim, hst.table]
  split
  · exact Except.rel_ok.mpr hst
  · simp only [log_pool, log_table, hst.pool, hst.table]
    exact Except.Rel.bind_same fun p => Except.rel_ok.mpr ⟨rfl, rfl⟩

theorem format_lockstep {range : LPNRange} (hplace : env₁.place = env₂.place)
    (hst : s.SameFlash t) :
    (s.format cfg env₁ w range).Rel (t.format cfg.withoutCMT env₂ w range) SameFlash := by
  rw [format, format, hst.table]
  have hloop : (t.table.entries.foldlM (formatEntry cfg range) (s, [])).Rel
      (t.table.entries.foldlM (formatEntry cfg.withoutCMT range) (t, []))
      fun r q => r.2 = q.2 ∧ r.1.SameFlash q.1 := by
    refine Run.foldlM_rel (fun r q entry _ hrq => ?_) ⟨rfl, hst⟩
    obtain ⟨s, list⟩ := r
    obtain ⟨t, list'⟩ := q
    obtain ⟨rfl, htable, hpool⟩ : list = list' ∧ s.table = t.table ∧ s.pool = t.pool :=
      ⟨hrq.1, hrq.2.table, hrq.2.pool⟩
    rw [formatEntry, formatEntry]
    simp only [htable, hpool]
    split
    · exact Except.Rel.bind_same fun p => Except.rel_ok.mpr ⟨rfl, rfl, rfl⟩
    · exact Except.rel_ok.mpr ⟨rfl, htable, hpool⟩
  refine hloop.bind fun r q hrq => ?_
  obtain ⟨s, list⟩ := r
  obtain ⟨t, list'⟩ := q
  obtain rfl : list = list' := hrq.1
  rw [doGarbageCollection_withoutCMT hplace]
  exact doGarbageCollection_lockstep hrq.2

theorem undoCached_lockstep {l : Nat} (hst : s.SameFlash t) :
    (s.undoCached cfg l).Rel (t.undoCached cfg.withoutCMT l) SameFlash := by
  rw [undoCached, undoCached, hst.table]
  split
  · exact Except.rel_ok.mpr hst
  · rw [hst.pool]
    exact Except.Rel.bind_same fun p => Except.rel_ok.mpr ⟨rfl, rfl⟩

/-! ### Runs -/

/-- A call finds in the mapping caches what `table` has. -/
def Agrees (cfg : Config) (s : PageMapping) (call : World × Op) : Prop :=
  match call.2 with
  | .read req => s.ReadAgrees cfg req
  | .write req => 0 < req.ioFlag.count → s.WriteAgrees cfg req
  | _ => True

instance (cfg : Config) (s : PageMapping) (call : World × Op) : Decidable (s.Agrees cfg call) :=
  match call with
  | (_, .read req) => inferInstanceAs (Decidable (s.ReadAgrees cfg req))
  | (_, .write req) => inferInstanceAs (Decidable (_ → s.WriteAgrees cfg req))
  | (_, .trim _) => .isTrue trivial
  | (_, .format _) => .isTrue trivial
  | (_, .undoCached _) => .isTrue trivial

theorem exec_lockstep (hplace : env₁.place = env₂.place) (hmode : cfg.evictPolicy = .cachedGC)
    (hst : s.SameFlash t) {call : World × Op} (hcall : s.Agrees cfg call) :
    (Op.exec cfg env₁ s call).Rel (Op.exec cfg.withoutCMT env₂ t call) SameFlash := by
  obtain ⟨w, op⟩ := call
  have hst : (s.log .request).SameFlash (t.log .request) := ⟨hst.table, hst.pool⟩
  cases op with
  | read req => exact read_lockstep hst hcall
  | write req => exact write_lockstep hplace hmode hst hcall
  | trim req => exact trim_lockstep hst
  | format range => exact format_lockstep hplace hst
  | undoCached l => exact undoCached_lockstep hst

/-- The two devices are constructed and warmed up alike. -/
theorem start_lockstep (hplace : env₁.place = env₂.place) (hwarmup : env₁.warmup = env₂.warmup)
    (warmUp : Option World) :
    (start cfg env₁ warmUp).Rel (start cfg.withoutCMT env₂ warmUp) SameFlash := by
  have hpool : BlockPool.init cfg.withoutCMT env₂ = BlockPool.init cfg env₁ := by
    have hlane : BlockPool.openLane cfg.withoutCMT env₂ = BlockPool.openLane cfg env₁ := by
      funext p i
      rw [BlockPool.openLane, BlockPool.openLane, getFreeBlock_withoutCMT hplace]
    rw [BlockPool.init, BlockPool.init, hlane]
    rfl
  have hinit : (init cfg env₁).Rel (init cfg.withoutCMT env₂)
      fun s t => s.SameFlash t ∧ s.cache = .init env₁ := by
    rw [init, init, hpool]
    exact Except.Rel.bind_same fun p => Except.rel_ok.mpr ⟨⟨rfl, rfl⟩, rfl⟩
  have hpages : warmupPages cfg.withoutCMT env₂ = warmupPages cfg env₁ := by
    simp only [warmupPages, drawBelow, hwarmup]
    rfl
  cases warmUp with
  | none => exact hinit.mono fun _ _ h => h.1
  | some w =>
    show (init cfg env₁ >>= _).Rel (init cfg.withoutCMT env₂ >>= _) _
    refine hinit.bind fun s t hst => ?_
    rw [initializeDevice, initializeDevice, hpages]
    refine Except.Rel.mono (Run.foldlM_rel (R := fun s t => s.SameFlash t ∧
      s.cache = .init env₁) (fun s t l _ hst => ?_) hst) fun _ _ h => h.1
    have hmiss : s.cachedMapping cfg l = none := cachedMapping_empty hst.2 l
    have hprog : (s.programPage cfg env₁ w ⟨l, (Bitset.new cfg.ioUnitInPage).setAll⟩ false).Rel
        (t.programPage cfg.withoutCMT env₂ w ⟨l, (Bitset.new cfg.ioUnitInPage).setAll⟩ false)
        fun s' t' => s'.SameFlash t' ∧ s'.cache = .init env₁ := by
      intro s' t' hs ht
      refine ⟨programPage_lockstep hplace hst.1 (fun page hpage => ?_) (.inr hmiss) _ _ hs ht, ?_⟩
      · rw [hmiss] at hpage
        cases hpage
      · rw [programPage_cache hs, hst.2]
    refine hprog.bind fun s' t' hst' => ?_
    rw [collectIfNeeded, collectIfNeeded]
    split
    · exact Except.rel_error_left
    · split
      · exact Except.rel_error_right
      · exact Except.rel_ok.mpr hst'

end Lockstep

end PageMapping

end SimpleSSD.FTL
