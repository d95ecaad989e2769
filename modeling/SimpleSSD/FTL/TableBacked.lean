import SimpleSSD.FTL.Bijection

/-!
# Mapped pages are stored where `table` says

The half of `Mapped` that reads depend on, for any number of I/O units a page: with
one mapping a page, the flash page that `table` names for a logical page validly
stores it (`TableBacked`). A valid page that no entry names any more does no harm
here, so the LPNs that `cachedGC` drops wrongly do not matter.
-/

namespace SimpleSSD.FTL

namespace PageMapping

structure TableBacked (cfg : Config) (s : PageMapping) : Prop where
  wf : s.pool.WellFormed cfg
  units : 0 < cfg.totalPhysicalBlocks → 0 < cfg.ioUnitInPage
  pages : (∃ l, l ∈ s.table) → 0 < cfg.pagesInBlock
  shape : cfg.bitsetSize = 1 → TableShape cfg s
  stored : cfg.bitsetSize = 1 → Backed s.lookup s.pool.content

section Invariant

variable {cfg : Config} {env : Env} {w : World} {req : Request} {s s' : PageMapping}

theorem TableBacked.congr (hs : s.TableBacked cfg) (hwf : s'.pool.WellFormed cfg)
    (htable : s'.table = s.table) (hcontent : s'.pool.content = s.pool.content) :
    s'.TableBacked cfg := by
  refine ⟨hwf, hs.units, ?_, fun hone l vec hvec => ?_, fun hone => ?_⟩
  · rw [htable]
    exact hs.pages
  · rw [htable] at hvec
    exact hs.shape hone l vec hvec
  · rw [lookup_congr htable, hcontent]
    exact hs.stored hone

/-! ### Writes -/

/-- A write programs a unit, so its block has a page. -/
theorem TableBacked.pages_of_programPage {send : Bool} (hs : s.TableBacked cfg)
    (hwant : 0 < cfg.bitsetSize → ∃ idx < cfg.bitsetSize, req.wants cfg idx = true)
    (h : s.programPage cfg env w req send = .ok s') : 0 < cfg.pagesInBlock := by
  obtain ⟨key, hit, s₁, blk, pool, locals, hlook, halloc, hblk, hloop⟩ := programPage_cases h
  have hwf₁ : s₁.pool.WellFormed cfg :=
    ((BlockPool.wellFormed_access cfg).touch.lookupForWrite hs.wf).of_ok hlook
  have hwf₂ : pool.WellFormed cfg :=
    ((BlockPool.wellFormed_invariant cfg env).allocate hwf₁ trivial).of_ok halloc
  -- there is a block, so its pages have units
  have hsize : 0 < cfg.bitsetSize := by
    have hunits := hs.units (Nat.zero_lt_of_lt (hwf₂.lt_of_mem hblk))
    unfold Config.bitsetSize
    split <;> omega
  have hend := Run.foldlM_range (I := fun n acc => acc.2.pool.WellFormed cfg ∧
    ((∃ idx < n, req.wants cfg idx = true) → 0 < cfg.pagesInBlock)) ?_ ⟨?_, ?_⟩ hloop
  · exact hend.2 (hwant hsize)
  · rintro idx ⟨locals, s₂⟩ ⟨locals', s₃⟩ hidx ⟨hwf₂, hdone⟩ hstep
    refine ⟨((BlockPool.wellFormed_access cfg).programUnit (locals, s₂) idx hwf₂).of_ok hstep, ?_⟩
    rintro ⟨i, hi, hwant⟩
    rcases Nat.lt_succ_iff_lt_or_eq.mp hi with hi | rfl
    · exact hdone ⟨i, hi, hwant⟩
    · obtain ⟨-, -, b, b', -, -, -, hb, hwrite, -⟩ := programUnit_spec hwant hstep
      have hpage := (b.erased_mem _ (Block.write_spec hwrite).2.1).1
      rw [(hwf₂.used _ _ hb).1] at hpage
      omega
  · rw [programStart_pool]
    exact hwf₂
  · rintro ⟨idx, hidx, -⟩
    exact absurd hidx (Nat.not_lt_zero idx)

/-- The program path keeps the entries backed when its hit is harmless. -/
theorem TableBacked.programPage {send : Bool} (hs : s.TableBacked cfg)
    (hwant : 0 < cfg.bitsetSize → ∃ idx < cfg.bitsetSize, req.wants cfg idx = true)
    (hhit : cfg.bitsetSize = 1 → WriteHitsFirst cfg req s)
    (hsend : send = true ∨ s.cachedMapping cfg req.lpn = none)
    (h : s.programPage cfg env w req send = .ok s') : s'.TableBacked cfg := by
  have hwf : s'.pool.WellFormed cfg :=
    ((BlockPool.wellFormed_invariant cfg env).programPage hs.wf trivial).of_ok h
  have hone : cfg.bitsetSize = 1 → ∃ new, Programs cfg s req req.lpn new s' := by
    intro hone
    have hwant₀ : req.wants cfg 0 = true := by
      obtain ⟨idx, hidx, hidx'⟩ := hwant (by omega)
      obtain rfl : idx = 0 := by omega
      exact hidx'
    obtain ⟨key, new, hp, -⟩ :=
      programPage_spec hone hwant₀ hs.wf (hs.shape hone) hsend h
    obtain rfl : key = req.lpn := by
      have hkey := hp.key_eq
      rw [(hhit hone).writtenKey_eq] at hkey
      exact (Option.some.inj hkey).symm
    exact ⟨new, hp⟩
  refine ⟨hwf, hs.units, fun _ => hs.pages_of_programPage hwant h, fun h1 => ?_,
    fun h1 => ?_⟩
  · obtain ⟨new, hp⟩ := hone h1
    exact hp.shape h1 (hs.shape h1)
  · obtain ⟨new, hp⟩ := hone h1
    rw [hp.lookup_eq, hp.content, (hhit h1).readMapping_eq]
    refine (hs.stored h1).move (fun b hb a' ha' => (hs.stored h1).injective hb ha') ?_
    rw [clear, hp.fresh, ite_self]

end Invariant

/-! ### Collections -/

section Collection

variable {cfg : Config} {env : Env} {w : World} {victim pageIndex lpn : Nat}
  {locals locals' : GcLocals} {s s' : PageMapping}

/-- A page scan loses no page when a copy avoids the victims already scanned and,
in `cachedGC` mode, a cached page is not valid. -/
def ScanSpares (cfg : Config) (w : World) (victim : Nat) (acc : GcLocals × PageMapping)
    (pageIndex : Nat) : Prop :=
  ∀ b ∈ acc.2.pool.blocks.find? victim,
    (b.Copies cfg w pageIndex → acc.2.pool.AvoidsVictims cfg
      (Bitset.new cfg.ioUnitInPage).setAll acc.1.scanned) ∧
    (cfg.evictPolicy = .cachedGC → pageIndex ∈ b.pCachedBits → (pageIndex, 0) ∉ b.validBits)

instance (cfg : Config) (w : World) (victim : Nat) (acc : GcLocals × PageMapping)
    (pageIndex : Nat) : Decidable (ScanSpares cfg w victim acc pageIndex) :=
  inferInstanceAs (Decidable (∀ b ∈ acc.2.pool.blocks.find? victim, _))

/-- In the middle of a collection: the entries are backed, and an entry that names a
page passed is one of a page queued for the cache. -/
structure Passing (cfg : Config) (locals : GcLocals) (s : PageMapping)
    (P : Nat × Nat → Prop) : Prop where
  backed : s.TableBacked cfg
  used : ∀ v ∈ locals.scanned, v ∈ s.pool.blocks
  passed : cfg.bitsetSize = 1 → ∀ x, P x → ∀ l, s.lookup l = some x → l ∈ locals.queue cfg
  default : cfg.evictPolicy ≠ .cachedGC → locals.queue cfg = []

theorem Passing.of_passed {P Q : Nat × Nat → Prop} (hs : Passing cfg locals s P)
    (h : ∀ x, Q x → P x) : Passing cfg locals s Q :=
  ⟨hs.backed, hs.used, fun hone x hx => hs.passed hone x (h x hx), hs.default⟩

/-- A scan that moves a page. -/
theorem Passing.moves {relocateCmt : Bool} {bit : Bitset} {new : Nat × Nat}
    (hone : cfg.ioUnitInPage = 1) (hs : Passing cfg locals s (locals.Passed victim pageIndex))
    (hwf : s'.pool.WellFormed cfg) (hcontent : s.pool.content (victim, pageIndex) = some lpn)
    (hm : Moves cfg env victim pageIndex lpn bit relocateCmt s new s')
    (hdest : new.1 ∉ locals.scanned) (hscanned : locals'.scanned = locals.scanned)
    (hqueue : locals'.queue cfg = locals.queue cfg) :
    Passing cfg locals' s' (locals'.Passed victim (pageIndex + 1)) := by
  have hsize := Config.bitsetSize_one hone
  have hstored := hs.backed.stored hsize
  have hlookup : s'.lookup = Function.update s.lookup lpn (some new) := lookup_update hm.table
  -- the new page is neither passed nor the page scanned
  have hnew : ¬ (locals.Passed victim pageIndex new ∨ new = (victim, pageIndex)) := by
    rintro ((hmem | ⟨heq, hlt⟩) | heq)
    · exact hdest hmem
    · have hbeyond := hm.beyond heq (by rw [hcontent]; simp)
      omega
    · have hbeyond := hm.beyond (by rw [heq]) (by rw [hcontent]; simp)
      rw [heq] at hbeyond
      exact lt_irrefl _ hbeyond
  refine ⟨⟨hwf, hs.backed.units, fun _ => hs.backed.pages ⟨lpn, hm.mapped⟩,
    fun _ => shape_update (hs.backed.shape hsize) hm.table fun vec hvec => ?_, fun _ => ?_⟩,
    fun v hv => ?_, fun _ x hx l hl => ?_, hqueue ▸ hs.default⟩
  · cases hvec
    rw [hsize]
    rfl
  · rw [hlookup, hm.content, ← clear_some]
    refine hstored.move (fun b hb a ha => ?_) (by rw [clear_some]; exact hm.free)
    cases hb
    exact Option.some.inj ((hstored a _ ha).symm.trans hcontent)
  · rw [hscanned] at hv
    exact hm.used v (hs.used v hv)
  · have hx : locals.Passed victim pageIndex x ∨ x = (victim, pageIndex) := by
      rw [GcLocals.passed_succ] at hx
      simpa only [GcLocals.Passed, hscanned] using hx
    rw [hlookup] at hl
    rw [hqueue]
    by_cases hne : l = lpn
    · subst hne
      rw [Function.update_self] at hl
      cases hl
      exact absurd hx hnew
    · rw [Function.update_of_ne hne] at hl
      rcases hx with hx | rfl
      · exact hs.passed hsize x hx l hl
      · rw [hstored l _ hl] at hcontent
        exact absurd (Option.some.inj hcontent) hne

/-- A scan that leaves the flash as it is. -/
theorem Passing.stays (hs : Passing cfg locals s (locals.Passed victim pageIndex))
    (hscanned : locals'.scanned = locals.scanned)
    (hsub : ∀ l ∈ locals.queue cfg, l ∈ locals'.queue cfg)
    (hhere : cfg.bitsetSize = 1 → ∀ l, s.pool.content (victim, pageIndex) = some l →
      l ∈ locals'.queue cfg)
    (hdefault : cfg.evictPolicy ≠ .cachedGC → locals'.queue cfg = []) :
    Passing cfg locals' s (locals'.Passed victim (pageIndex + 1)) := by
  refine ⟨hs.backed, hscanned ▸ hs.used, fun hone x hx l hl => ?_, hdefault⟩
  have hx : locals.Passed victim pageIndex x ∨ x = (victim, pageIndex) := by
    rw [GcLocals.passed_succ] at hx
    simpa only [GcLocals.Passed, hscanned] using hx
  rcases hx with hx | rfl
  · exact hsub l (hs.passed hone x hx l hl)
  · exact hhere hone l (hs.backed.stored hone l _ hl)

/-- With several units a page only a page without valid units gets past
`isPageValid`, and no page past `isCached`. -/
theorem scanPage_of_ne_one (hne : cfg.ioUnitInPage ≠ 1) (hpos : 0 < cfg.ioUnitInPage)
    (hwf : s.pool.WellFormed cfg)
    (h : PageMapping.scanPage cfg env w victim (locals, s) pageIndex = .ok (locals', s')) :
    s' = s ∧ locals'.scanned = locals.scanned ∧ locals'.queue cfg = locals.queue cfg ∧
      s.pool.content (victim, pageIndex) = none := by
  rw [scanPage] at h
  split at h
  · rw [PageMapping.reclaimCachedPage] at h
    split at h
    · cases h
    next b hb =>
    rw [Except.bind_eq_ok] at h
    obtain ⟨c, hc, -⟩ := h
    have hunit := ((b.isCached_sat pageIndex).of_ok hc).1
    exact absurd ((hwf.used _ _ hb).2.symm.trans hunit) hne
  · rw [PageMapping.reclaimPage] at h
    split at h
    · cases h
    next b hb =>
    have hunits : b.ioUnitInPage = cfg.ioUnitInPage := (hwf.used _ _ hb).2
    rw [Except.bind_eq_ok] at h
    obtain ⟨r, hr, h⟩ := h
    have hmap : r.2.bits = {i ∈ Finset.range cfg.ioUnitInPage | (pageIndex, i) ∈ b.validBits} := by
      rw [Block.getPageInfo, if_neg (fun h => hne (hunits.symm.trans h.1)),
        if_pos (show (Bitset.new cfg.ioUnitInPage).dataSize = _ from hunits.symm)] at hr
      cases hr
      simp only [hunits]
    simp only at h
    split at h
    · rw [Except.bind_eq_ok] at h
      obtain ⟨v, hv, -⟩ := h
      have hunit := ((b.isPageValid_sat pageIndex).of_ok hv).1
      exact absurd (hunits.symm.trans hunit) hne
    · next hany =>
      cases h
      refine ⟨rfl, rfl, rfl, content_of_invalid hb fun hvalid => hany ?_⟩
      have hmem : 0 ∈ r.2.bits := by
        rw [hmap]
        exact Finset.mem_filter.mpr ⟨Finset.mem_range.mpr hpos, hvalid⟩
      simpa [Bitset.any] using Finset.ne_empty_of_mem hmem

/-- One page scan, with one case for each outcome of the page loops. -/
theorem Passing.scanPage (hs : Passing cfg locals s (locals.Passed victim pageIndex))
    (hspares : ScanSpares cfg w victim (locals, s) pageIndex) (hvictim : victim ∈ s.pool.blocks)
    (h : PageMapping.scanPage cfg env w victim (locals, s) pageIndex = .ok (locals', s')) :
    Passing cfg locals' s' (locals'.Passed victim (pageIndex + 1)) ∧ victim ∈ s'.pool.blocks := by
  have hwf : s'.pool.WellFormed cfg :=
    ((BlockPool.wellFormed_invariant cfg env).scanPage (locals, s) pageIndex hs.backed.wf
      (fun _ _ _ => trivial)).of_ok h
  by_cases hone : cfg.ioUnitInPage = 1
  · have hshape := hs.backed.shape (Config.bitsetSize_one hone)
    rw [PageMapping.scanPage] at h
    split at h
    · next hmode =>
      obtain ⟨b, hb, hscanned, hcases⟩ := reclaimCachedPage_spec hone hs.backed.wf hshape h
      rcases hcases with ⟨hcached, rfl, m, -, rfl⟩ | ⟨-, hinvalid, rfl, rfl⟩ |
        ⟨-, hvalid, -, -, ⟨hcopies, hqueue, new, hm⟩ | ⟨-, rfl, hqueue⟩⟩
      · -- a cached page stays behind: by the condition it stores nothing
        have hinvalid := (hspares b hb).2 hmode hcached
        refine ⟨hs.stays rfl (fun l hl => hl) (fun _ l hl => ?_) hs.default, hvictim⟩
        rw [content_of_invalid hb hinvalid] at hl
        cases hl
      · refine ⟨hs.stays rfl (fun l hl => hl) (fun _ l hl => ?_) hs.default, hvictim⟩
        rw [content_of_invalid hb hinvalid] at hl
        cases hl
      · obtain ⟨pool, hdest⟩ := hm.dest
        exact ⟨hs.moves hone hwf (content_of_valid hb hvalid) hm
          (((hspares b hb).1 hcopies).dest hs.used hdest) hscanned hqueue, hm.used victim hvictim⟩
      · refine ⟨hs.stays hscanned (fun l hl => ?_) (fun _ l hl => ?_) fun h => absurd hmode h,
          hvictim⟩
        · rw [hqueue]
          exact List.mem_append_left _ hl
        · rw [content_of_valid hb hvalid] at hl
          cases hl
          rw [hqueue]
          simp
    · next hmode =>
      obtain ⟨b, hb, _, _, _, rfl, hcases⟩ := reclaimPage_spec hone hs.backed.wf hshape h
      rcases hcases with ⟨hinvalid, rfl⟩ | ⟨hvalid, new, hm⟩
      · refine ⟨hs.stays rfl (fun l hl => hl) (fun _ l hl => ?_) hs.default, hvictim⟩
        rw [content_of_invalid hb hinvalid] at hl
        cases hl
      · have hcopies : b.Copies cfg w pageIndex := ⟨hvalid, fun h => absurd h hmode⟩
        obtain ⟨pool, hdest⟩ := hm.dest
        exact ⟨hs.moves hone hwf (content_of_valid hb hvalid) hm
          (((hspares b hb).1 hcopies).dest hs.used hdest) rfl rfl, hm.used victim hvictim⟩
  · have hpos := hs.backed.units (Nat.zero_lt_of_lt (hs.backed.wf.lt_of_mem hvictim))
    obtain ⟨rfl, hscanned, hqueue, hnone⟩ := scanPage_of_ne_one hone hpos hs.backed.wf h
    refine ⟨hs.stays hscanned (fun l hl => hqueue ▸ hl) (fun _ l hl => ?_) (hqueue ▸ hs.default),
      hvictim⟩
    rw [hnone] at hl
    cases hl

/-- One victim: after its page loop it has been passed as a whole. -/
theorem Passing.scanVictim {acc acc' : GcLocals × PageMapping}
    (hs : Passing cfg acc.1 acc.2 fun x => x.1 ∈ acc.1.scanned)
    (hspares : Run.Along (PageMapping.scanPage cfg env w victim) (ScanSpares cfg w victim) acc
      (List.range cfg.pagesInBlock))
    (h : PageMapping.scanVictim cfg env w acc victim = .ok acc') :
    Passing cfg acc'.1 acc'.2 fun x => x.1 ∈ acc'.1.scanned := by
  obtain ⟨hused, locals, s, hloop, rfl⟩ := scanVictim_ok h
  obtain ⟨hend, hmem⟩ : Passing cfg locals s (locals.Passed victim cfg.pagesInBlock) ∧
      victim ∈ s.pool.blocks := by
    refine hspares.foldlM_range (I := fun i acc =>
      Passing cfg acc.1 acc.2 (acc.1.Passed victim i) ∧ victim ∈ acc.2.pool.blocks)
      (fun i acc acc' _ hacc hk h => hacc.1.scanPage hk hacc.2 h) ⟨?_, hused⟩ hloop
    refine hs.of_passed fun x hx => ?_
    simpa [GcLocals.Passed] using hx
  have hscanned : ({ locals with
      eraseRequests := locals.eraseRequests ++
        [⟨victim, 0, (Bitset.new cfg.ioUnitInPage).setAll⟩] } : GcLocals).scanned =
      locals.scanned ++ [victim] := by simp [GcLocals.scanned]
  refine ⟨hend.backed, fun v hv => ?_, fun hone x hx l hl => ?_, hend.default⟩
  · rw [hscanned] at hv
    rcases List.mem_append.mp hv with hv | hv
    · exact hend.used v hv
    · rw [List.mem_singleton.mp hv]
      exact hmem
  · rw [hscanned] at hx
    refine hend.passed hone x ?_ l hl
    rcases List.mem_append.mp hx with hx | hx
    · exact .inl hx
    · refine .inr ⟨List.mem_singleton.mp hx, ?_⟩
      -- beyond the last page nothing is stored
      by_contra hge
      have hstored := hend.backed.stored hone l x hl
      rw [BlockPool.content_of_not_inRange hend.backed.wf fun hr => hge hr.2] at hstored
      cases hstored

/-- Erasing the victims and dropping the entries of the queued pages. -/
theorem Passing.finish (dropped : Nat → Prop) [DecidablePred dropped]
    (hs : Passing cfg locals s fun x => x.1 ∈ locals.scanned) (hwf : s'.pool.WellFormed cfg)
    (hqueue : ∀ l ∈ locals.queue cfg, dropped l)
    (htable : ∀ l, s'.table.find? l = if dropped l then none else s.table.find? l)
    (hcontent : ∀ x, s'.pool.content x =
      if x.1 ∈ locals.scanned then none else s.pool.content x) : s'.TableBacked cfg := by
  refine ⟨hwf, hs.backed.units, ?_, fun hone l vec hvec => ?_, fun hone => ?_⟩
  · rintro ⟨l, hl⟩
    obtain ⟨vec, hvec⟩ := UnorderedMap.mem_iff_find?.mp hl
    rw [htable] at hvec
    split at hvec
    · cases hvec
    · exact hs.backed.pages ⟨l, UnorderedMap.mem_of_find? hvec⟩
  · rw [htable] at hvec
    split at hvec
    · cases hvec
    · exact hs.backed.shape hone l vec hvec
  · have hrest := (hs.backed.stored hone).restrict (A := dropped)
      (B := fun x => x.1 ∈ locals.scanned)
      fun l x hl hx => hqueue l (hs.passed hone x hx l hl)
    intro l x hl
    rw [hcontent]
    refine hrest l x ?_
    rw [lookup, tableMapping, htable] at hl
    simp only
    split
    · next hd =>
      rw [if_pos hd] at hl
      cases hl
    · next hd =>
      rw [if_neg hd] at hl
      exact hl

/-- A collection keeps the entries backed when its scans lose no page. -/
theorem TableBacked.doGarbageCollection {victims : List Nat} (hs : s.TableBacked cfg)
    (hspares : s.Scans cfg env (ScanSpares cfg) w victims)
    (h : PageMapping.doGarbageCollection cfg env w victims s = .ok s') : s'.TableBacked cfg := by
  have hwf := doGarbageCollection_wellFormed hs.wf h
  rcases doGarbageCollection_cases h with rfl | ⟨locals, s₁, hlim, -, hloop, h⟩
  · exact hs
  have hstart : Passing cfg .empty s fun x => x.1 ∈ GcLocals.empty.scanned := by
    refine ⟨hs, ?_, ?_, fun _ => ?_⟩
    · rintro v ⟨⟩
    · rintro - x ⟨⟩
    · rw [GcLocals.queue]
      split <;> rfl
  have hend : Passing cfg locals s₁ fun x => x.1 ∈ locals.scanned :=
    (hspares hlim).foldlM_inv (I := fun acc =>
      Passing cfg acc.1 acc.2 fun x => x.1 ∈ acc.1.scanned)
      (fun acc victim acc' hacc hpages h => hacc.scanVictim hpages h) hstart hloop
  rcases h with ⟨-, h⟩ | ⟨hmode, h⟩
  · obtain ⟨htable, -, hblocks, -⟩ := finishCachedCollection_spec h
    exact hend.finish _ hwf (fun l hl => .inl hl) htable (content_of_erased hblocks)
  · obtain ⟨htable, -, hblocks⟩ := finishCollection_spec h
    refine hend.finish (fun l => l ∈ locals.queue cfg) hwf (fun l hl => hl) (fun l => ?_)
      (content_of_erased hblocks)
    rw [htable, hend.default hmode, if_neg List.not_mem_nil]

end Collection

/-! ### Trim and format -/

section Remove

variable {cfg : Config} {env : Env} {w : World} {req : Request} {s s' : PageMapping}

/-- Invalidating the page of an entry and removing the entry. -/
theorem TableBacked.remove (hs : s.TableBacked cfg) {function : String} {l : Nat}
    {vec : List (Nat × Nat)} {p : BlockPool} (hvec : s.table.find? l = some vec)
    (h : invalidateMapping cfg function vec s.pool = .ok p) (hwf : s'.pool.WellFormed cfg)
    (htable : s'.table = s.table.erase l) (hpool : s'.pool = p) : s'.TableBacked cfg := by
  have hfind : ∀ l', s'.table.find? l' = if l' = l then none else s.table.find? l' := by
    intro l'
    rw [htable, UnorderedMap.find?_erase]
  refine ⟨hwf, hs.units, fun _ => hs.pages ⟨l, UnorderedMap.mem_of_find? hvec⟩,
    fun hone => shape_update (hs.shape hone) hfind (by simp), fun hone => ?_⟩
  · obtain ⟨page, hpage, hcontent⟩ := invalidateMapping_one hone h
    have hlook : s.lookup l = some page := by
      rw [lookup, tableMapping, hvec]
      exact hpage
    have hdrop := (hs.stored hone).drop (a := l) (o := some page) fun b hb a' ha' => by
      cases hb
      exact (hs.stored hone).injective hlook ha'
    have hlookup : s'.lookup = Function.update s.lookup l none := lookup_update hfind
    rw [hlookup, hpool, hcontent]
    rwa [clear_some] at hdrop

theorem TableBacked.trim (hs : s.TableBacked cfg) (h : s.trim cfg req = .ok s') :
    s'.TableBacked cfg := by
  have hwf : s'.pool.WellFormed cfg :=
    ((BlockPool.wellFormed_access cfg).touch.trim hs.wf).of_ok h
  rcases trim_cases h with ⟨-, rfl⟩ | ⟨vec, pool, hvec, hpool, rfl⟩
  · exact hs
  · exact hs.remove hvec hpool hwf rfl rfl

/-- The loop of `format`. A block is listed only if an entry names it. -/
theorem TableBacked.formatEntries (hs : s.TableBacked cfg) {range : LPNRange}
    {acc : PageMapping × List Nat}
    (h : s.table.entries.foldlM (formatEntry cfg range) (s, []) = .ok acc) :
    acc.1.TableBacked cfg ∧ (acc.2 ≠ [] → 0 < cfg.pagesInBlock) := by
  refine formatEntries_inv
    (I := fun acc => acc.1.TableBacked cfg ∧ (acc.2 ≠ [] → 0 < cfg.pagesInBlock))
    (fun l vec acc acc' _ hvec hacc h => ?_) ⟨hs, fun hne => absurd rfl hne⟩ h
  have hwf : acc'.1.pool.WellFormed cfg :=
    ((BlockPool.wellFormed_access cfg).touch.formatEntry acc (l, vec) hacc.1.wf).of_ok h
  rcases formatEntry_cases h with ⟨-, rfl⟩ | ⟨pool, -, hpool, rfl⟩
  · exact hacc
  · exact ⟨hacc.1.remove hvec hpool hwf rfl rfl,
      fun _ => hacc.1.pages ⟨l, UnorderedMap.mem_of_find? hvec⟩⟩

/-! ### The constructed device -/

/-- A request that passes the size check and has a unit asks for a unit. -/
theorem exists_wants (hcount : 0 < req.ioFlag.count)
    (hsize : cfg.randomIOTweak = true → req.ioFlag.dataSize = cfg.ioUnitInPage)
    (hpos : 0 < cfg.bitsetSize) : ∃ idx < cfg.bitsetSize, req.wants cfg idx = true := by
  by_cases htweak : cfg.randomIOTweak = true
  · obtain ⟨i, hi⟩ := Finset.card_pos.mp hcount
    refine ⟨i, ?_, by simp [Request.wants, Bitset.test, hi]⟩
    rw [Config.bitsetSize, if_pos htweak, ← hsize htweak]
    exact req.ioFlag.bits_lt i hi
  · exact ⟨0, hpos, by simp [Request.wants, htweak]⟩

theorem init_backed (h : init cfg env = .ok s) : s.TableBacked cfg := by
  have hmapped := init_mapped h
  obtain ⟨p, hp, rfl⟩ := init_eq h
  refine ⟨hmapped.wf, fun htotal => ?_, ?_, fun _ => hmapped.shape,
    fun _ l x => (hmapped.linked l x).mp⟩
  · by_contra hzero
    rw [BlockPool.init, if_pos ⟨by omega, htotal⟩] at hp
    cases hp
  · rintro ⟨l, hl⟩
    exact absurd hl (UnorderedMap.find?_eq_none_iff.mp rfl)

theorem start_backed {warmUp : Option World} (h : start cfg env warmUp = .ok s) :
    s.TableBacked cfg := by
  refine start_rule init_backed (fun {s s' w lpn} hs hempty hprog => ?_) h
  have hmiss : s.cachedMapping cfg lpn = none := cachedMapping_empty hempty lpn
  refine hs.programPage (fun hpos => ⟨0, hpos, ?_⟩) (fun _ page hpage => ?_) (.inr hmiss) hprog
  · by_cases htweak : cfg.randomIOTweak = true
    · rw [Config.bitsetSize, if_pos htweak] at hpos
      simp [Request.wants, Bitset.test, Bitset.setAll, Bitset.new, hpos]
    · simp [Request.wants, htweak]
  · rw [hmiss] at hpage
    cases hpage

end Remove

end PageMapping

end SimpleSSD.FTL
