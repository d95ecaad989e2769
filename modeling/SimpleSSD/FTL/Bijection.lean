import SimpleSSD.FTL.Mapping

/-!
# The mapping is a bijection with the valid pages

Every call keeps `Mapped` when the conditions of `MappingConditions` hold at its
steps, and a device that is constructed and warmed up has it. The conditions
cannot be dropped: `mapping_broken` is a run of three writes.
-/

namespace SimpleSSD.FTL

/-- A write hits the mapping caches harmlessly, and a page scan loses and
forgets no page. -/
@[reducible] def MappingConditions (cfg : Config) : StepConditions where
  write := fun _ req s => s.WriteHitsFirst cfg req
  scan := PageMapping.ScanKeeps cfg
  trim := fun _ _ => True
  format := fun _ _ => True

namespace PageMapping

section Calls

variable {cfg : Config} {env : Env} {w : World} {req : Request} {s s' : PageMapping}

/-! ### Trim and format -/

/-- With one mapping a page, one page is invalidated. -/
theorem invalidateMapping_one (hone : cfg.bitsetSize = 1) {function : String}
    {vec : List (Nat × Nat)} {p p' : BlockPool}
    (h : invalidateMapping cfg function vec p = .ok p') :
    ∃ page, vec[0]? = some page ∧ p'.content = Function.update p.content page none := by
  rw [invalidateMapping, hone, show List.range 1 = [0] from rfl, List.foldlM_cons,
    Except.bind_eq_ok] at h
  obtain ⟨q, hq, h⟩ := h
  cases h
  rw [Except.bind_eq_ok] at hq
  obtain ⟨page, hpage, hq⟩ := hq
  refine ⟨page, (mappingAt_sat vec 0).of_ok hpage, ?_⟩
  split at hq
  · cases hq
  · next b hb =>
    cases hq
    exact BlockPool.content_putBlock_update hb Block.contentAt_invalidate

/-- Invalidating the page of an entry and removing the entry. -/
theorem Mapped.remove (hone : cfg.ioUnitInPage = 1) (hs : s.Mapped cfg) {function : String}
    {l : Nat} {vec : List (Nat × Nat)} {p : BlockPool} (hvec : s.table.find? l = some vec)
    (h : invalidateMapping cfg function vec s.pool = .ok p) (hwf : s'.pool.WellFormed cfg)
    (htable : s'.table = s.table.erase l) (hpool : s'.pool = p) : s'.Mapped cfg := by
  obtain ⟨page, hpage, hcontent⟩ := invalidateMapping_one (Config.bitsetSize_one hone) h
  have hlook : s.lookup l = some page := by
    rw [lookup, tableMapping, hvec]
    exact hpage
  have hfind : ∀ l', s'.table.find? l' = if l' = l then none else s.table.find? l' := by
    intro l'
    rw [htable, UnorderedMap.find?_erase]
  refine ⟨hwf, shape_update hs.shape hfind (by simp), ?_⟩
  rw [lookup_update hfind, hpool, hcontent]
  exact hs.linked.drop hlook

theorem Mapped.trim (hone : cfg.ioUnitInPage = 1) (hs : s.Mapped cfg)
    (h : s.trim cfg req = .ok s') : s'.Mapped cfg := by
  have hwf : s'.pool.WellFormed cfg :=
    ((BlockPool.wellFormed_access cfg).touch.trim hs.wf).of_ok h
  rcases trim_cases h with ⟨-, rfl⟩ | ⟨vec, pool, hvec, hpool, rfl⟩
  · exact hs
  · exact hs.remove hone hvec hpool hwf rfl rfl

theorem Mapped.formatEntries (hone : cfg.ioUnitInPage = 1) (hs : s.Mapped cfg) {range : LPNRange}
    {acc : PageMapping × List Nat}
    (h : s.table.entries.foldlM (formatEntry cfg range) (s, []) = .ok acc) :
    acc.1.Mapped cfg := by
  refine formatEntries_inv (I := fun acc => acc.1.Mapped cfg)
    (fun l vec acc acc' _ hvec hacc h => ?_) hs h
  have hwf : acc'.1.pool.WellFormed cfg :=
    ((BlockPool.wellFormed_access cfg).touch.formatEntry acc (l, vec) hacc.wf).of_ok h
  rcases formatEntry_cases h with ⟨-, rfl⟩ | ⟨pool, -, hpool, rfl⟩
  · exact hacc
  · exact hacc.remove hone hvec hpool hwf rfl rfl

/-! ### One call -/

theorem Mapped.collectIfNeeded (hone : cfg.ioUnitInPage = 1) (hs : s.Mapped cfg)
    (hkeeps : s.pool.freeBlockRatio cfg < cfg.gcThreshold →
      (s.selectVictimBlock cfg env).All fun r => r.2.Scans cfg env (ScanKeeps cfg) w r.1)
    (h : s.collectIfNeeded cfg env w true = .ok s') : s'.Mapped cfg := by
  rcases collectIfNeeded_cases h with rfl | ⟨victims, hratio, hselect, h⟩
  · exact hs
  · have hs₁ : Mapped cfg { s with pool := { s.pool with bReclaimMore := false } } :=
      hs.congr ((BlockPool.wellFormed_invariant cfg env).select hs.wf) rfl rfl
    exact hs₁.doGarbageCollection hone ((hkeeps hratio).of_ok hselect) h

theorem Mapped.write (hone : cfg.ioUnitInPage = 1) (hs : s.Mapped cfg)
    (hmeets : 0 < req.ioFlag.count → WriteHitsFirst cfg req s ∧
      (s.programPage cfg env w req true).All fun s₁ =>
        s₁.pool.freeBlockRatio cfg < cfg.gcThreshold →
          (s₁.selectVictimBlock cfg env).All fun r => r.2.Scans cfg env (ScanKeeps cfg) w r.1)
    (h : s.write cfg env w req = .ok s') : s'.Mapped cfg := by
  rw [PageMapping.write] at h
  split at h
  · next hcount =>
    obtain ⟨hhit, hgc⟩ := hmeets hcount
    rw [writeInternal, Except.bind_eq_ok] at h
    obtain ⟨s₁, hprog, h⟩ := h
    have hwant := wants_of_count hone hcount (programPage_size hs.wf hprog)
    exact (hs.programPage hone hwant hhit (.inl rfl) hprog).collectIfNeeded hone
      (hgc.of_ok hprog) h
  · cases h
    exact hs

theorem Mapped.exec (hone : cfg.ioUnitInPage = 1) (hs : s.Mapped cfg) {call : World × Op}
    (hmeets : Op.Meets cfg env (MappingConditions cfg) s call)
    (h : Op.exec cfg env s call = .ok s') : s'.Mapped cfg := by
  obtain ⟨w, op⟩ := call
  have hs₀ : (s.log .request).Mapped cfg := hs.congr hs.wf rfl rfl
  cases op with
  | read req =>
    rw [Op.exec] at h
    simp only [PageMapping.read] at h
    split at h
    · obtain ⟨htable, hcontent⟩ := readInternal_frame h
      exact hs₀.congr (((BlockPool.wellFormed_access cfg).touch.readInternal hs₀.wf).of_ok h) htable
        hcontent
    · cases h
      exact hs₀
  | write req => exact hs₀.write hone hmeets h
  | trim req => exact hs₀.trim hone h
  | format range =>
    rw [Op.exec] at h
    simp only [PageMapping.format] at h
    rw [Except.bind_eq_ok] at h
    obtain ⟨acc, hentries, h⟩ := h
    exact (hs₀.formatEntries hone hentries).doGarbageCollection hone
      (hmeets.2.of_ok hentries) h
  | undoCached lpn =>
    have hwf : s'.pool.WellFormed cfg :=
      ((BlockPool.wellFormed_access cfg).touch.undoCached (s := s.log .request) hs.wf).of_ok h
    obtain ⟨htable, hcontent⟩ := undoCached_frame h
    exact hs₀.congr hwf htable hcontent

/-! ### The constructed device -/

/-- During warm-up nothing enters the mapping caches. -/
theorem programPage_cache (h : s.programPage cfg env w req false = .ok s') :
    s'.cache = s.cache := by
  obtain ⟨key, hit, s₁, blk, pool, locals, hlook, -, -, hloop⟩ := programPage_cases h
  have hs₁ : s₁.cache = s.cache := by
    cases lookupForWrite_cases hlook with
    | promoted _ _ hsend => cases hsend
    | _ => rfl
  refine Run.foldlM_inv (I := fun acc : WriteLocals × PageMapping => acc.2.cache = s.cache)
    (fun acc idx acc' hacc h => ?_) hs₁ hloop
  by_cases hwant : req.wants cfg idx = true
  · obtain ⟨-, -, -, -, -, -, -, -, -, -, -, -, hcache⟩ := programUnit_spec hwant h
    exact (hcache rfl).trans hacc
  · rw [programUnit] at h
    simp only [hwant] at h
    cases h
    exact hacc

/-- The constructor opens blocks and touches nothing else. -/
theorem init_eq (h : init cfg env = .ok s) : ∃ p, BlockPool.init cfg env = .ok p ∧
    s = ⟨.empty, p, .init env, [], false, []⟩ := by
  rw [init, Except.bind_eq_ok] at h
  obtain ⟨p, hp, h⟩ := h
  cases h
  exact ⟨p, hp, rfl⟩

theorem cachedMapping_empty (hcache : s.cache = .init env) (lpn : Nat) :
    s.cachedMapping cfg lpn = none := by
  unfold cachedMapping cmtHit shadowHit
  rw [hcache]
  split <;> split <;> rfl

/-- The rule for the start of the device: the warm-up programs full pages one after
the other, and finds the mapping caches empty each time. -/
theorem start_rule {I : PageMapping → Prop} (hinit : ∀ {s}, init cfg env = .ok s → I s)
    (hprog : ∀ {s s' : PageMapping} {w : World} {lpn : Nat}, I s →
      s.cache = .init env →
      s.programPage cfg env w ⟨lpn, (Bitset.new cfg.ioUnitInPage).setAll⟩ false = .ok s' → I s')
    {warmUp : Option World} (h : start cfg env warmUp = .ok s) : I s := by
  cases warmUp with
  | none => exact hinit h
  | some w =>
    rw [start, boot, Except.bind_eq_ok] at h
    obtain ⟨s₀, hs₀, h⟩ := h
    have hempty : s₀.cache = .init env := by
      obtain ⟨p, -, rfl⟩ := init_eq hs₀
      rfl
    have hloop : I s ∧ s.cache = .init env := by
      refine Run.foldlM_inv (I := fun s : PageMapping =>
        I s ∧ s.cache = .init env)
        (fun s lpn s' hs h => ?_) ⟨hinit hs₀, hempty⟩ h
      rw [writeInternal, Except.bind_eq_ok] at h
      obtain ⟨s₁, hs₁, h⟩ := h
      -- a collection during the warm-up is a fault
      rw [PageMapping.collectIfNeeded] at h
      split at h
      · cases h
      · cases h
        exact ⟨hprog hs.1 hs.2 hs₁, (programPage_cache hs₁).trans hs.2⟩
    exact hloop.1

theorem init_mapped (h : init cfg env = .ok s) : s.Mapped cfg := by
  obtain ⟨p, hp, rfl⟩ := init_eq h
  have hpool : p.WellFormed cfg ∧ p.content = fun _ => none := by
    refine BlockPool.init_rule (P := fun p => p.WellFormed cfg ∧ p.content = fun _ => none)
      ⟨⟨BlockPool.partitioned_fresh cfg, BlockPool.formatted_fresh cfg, fun _ => rfl⟩, rfl⟩
      (fun {p p' b} hp ht => ⟨⟨hp.1.toPartitioned.takes ht, hp.1.toFormatted.takes ht, ?_⟩, ?_⟩) hp
    · rw [ht.iomap]
      exact hp.1.lane_size
    · rw [BlockPool.content_takes hp.1.toFormatted ht, hp.2]
  refine ⟨hpool.1, ?_, ?_⟩
  · rintro l vec ⟨⟩
  · show Linked _ p.content
    rw [hpool.2]
    rintro l x
    exact ⟨nofun, nofun⟩

theorem start_mapped (hone : cfg.ioUnitInPage = 1) {warmUp : Option World}
    (h : start cfg env warmUp = .ok s) : s.Mapped cfg := by
  refine start_rule init_mapped (fun {s s' w lpn} hs hcache hprog => ?_) h
  have hmiss : s.cachedMapping cfg lpn = none := cachedMapping_empty hcache lpn
  refine hs.programPage hone ?_ ?_ (.inr hmiss) hprog
  · refine wants_of_count hone ?_ fun _ => rfl
    show 0 < (Bitset.new cfg.ioUnitInPage).setAll.count
    rw [hone]
    decide
  · intro page hpage
    rw [hmiss] at hpage
    cases hpage

end Calls

end PageMapping

section Reachable

variable {cfg : Config} {env : Env}

theorem run_mapped (hone : cfg.ioUnitInPage = 1) {warmUp : Option World}
    {calls : List (World × Op)} {s₀ s : PageMapping}
    (hstart : PageMapping.start cfg env warmUp = .ok s₀)
    (hmeets : Run.Along (Op.exec cfg env) (Op.Meets cfg env (MappingConditions cfg)) s₀ calls)
    (hrun : run cfg env s₀ calls = .ok s) : s.Mapped cfg :=
  hmeets.foldlM_inv (fun _ _ _ hs hm h => PageMapping.Mapped.exec hone hs hm h)
    (PageMapping.start_mapped hone hstart) hrun

/-- With one I/O unit a page, in every state of a run whose steps meet
`MappingConditions`, the mapping is a bijection between the mapped pages and the
valid pages of the blocks in use. -/
theorem mapping_bijective (hone : cfg.ioUnitInPage = 1) (warmUp : Option World)
    (calls : List (World × Op)) (s₀ s : PageMapping)
    (hstart : PageMapping.start cfg env warmUp = .ok s₀)
    (hmeets : Run.Along (Op.exec cfg env) (Op.Meets cfg env (MappingConditions cfg)) s₀ calls)
    (hrun : run cfg env s₀ calls = .ok s) : s.Consistent :=
  (run_mapped hone hstart hmeets hrun).consistent hone

/-- A run with the cached mapping table on: the second write of page 0 hits `cmt`
when page 0 is the only entry of `table`. -/
theorem mapping_bijective_cached : ∃ s₀ s, PageMapping.start (.cached 3) .zero none = .ok s₀ ∧
    run (.cached 3) .zero s₀ (calls [.write (.page 0), .write (.page 0), .write (.page 1),
      .read (.page 0), .trim (.page 0), .format ⟨1, 1⟩]) = .ok s ∧ s.Consistent := by
  obtain ⟨s₀, hstart, hmeets, hrun⟩ := Except.exists_of_map
    (p := fun s₀ => Run.Along (Op.exec (.cached 3) .zero)
      (Op.Meets (.cached 3) .zero (MappingConditions (.cached 3))) s₀
        (calls [.write (.page 0), .write (.page 0), .write (.page 1),
          .read (.page 0), .trim (.page 0), .format ⟨1, 1⟩]) ∧
      (run (.cached 3) .zero s₀ (calls [.write (.page 0), .write (.page 0), .write (.page 1),
        .read (.page 0), .trim (.page 0), .format ⟨1, 1⟩])).map (fun _ => decide True) = .ok true)
    (by decide +kernel : (PageMapping.start (.cached 3) .zero none).map _ = .ok true)
  obtain ⟨s, hs, -⟩ := Except.exists_of_map hrun
  exact ⟨s₀, s, hstart, hs, mapping_bijective (by decide) none _ s₀ s hstart hmeets hs⟩

/-- The second write of page 0 hits `cmt` when page 1 is the first entry of
`table`: the entry of page 1 then names the flash page that stores page 0. -/
theorem mapping_broken : ∃ s₀ s, PageMapping.start (.cached 3) .zero none = .ok s₀ ∧
    run (.cached 3) .zero s₀ (calls [.write (.page 0), .write (.page 1), .write (.page 0)]) =
      .ok s ∧ ¬ s.Consistent := by
  obtain ⟨s₀, hstart, hrun⟩ := Except.exists_of_map
    (p := fun s₀ => (run (.cached 3) .zero s₀
      (calls [.write (.page 0), .write (.page 1), .write (.page 0)])).map
        (fun s => decide (s.table.find? 1 = some [(1, 0)] ∧ s.pool.content (1, 0) = some 0)) =
          .ok true)
    (by decide +kernel : (PageMapping.start (.cached 3) .zero none).map _ = .ok true)
  obtain ⟨s, hs, hentry, hcontent⟩ := Except.exists_of_map hrun
  refine ⟨s₀, s, hstart, hs, fun hconsistent => ?_⟩
  obtain ⟨k, i, b, hentry', hb, hvalid, hlpn⟩ :=
    hconsistent.mapped_valid 1 (UnorderedMap.mem_of_find? hentry)
  rw [hentry] at hentry'
  cases hentry'
  rw [PageMapping.content_of_valid hb hvalid, hlpn] at hcontent
  cases hcontent

end Reachable

end SimpleSSD.FTL
