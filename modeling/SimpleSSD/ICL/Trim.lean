import SimpleSSD.FTL.Trim
import SimpleSSD.ICL.CachedCollection

/-!
# Trimming through the cache (icl/generic_cache.cc:2345–2373)

`GenericCache::trim` walks the lines of the cache: each line whose tag is in the range,
valid or not, is trimmed in the FTL with its whole superpage and then invalidated. So the
superpages of these tags are what loses its mapping, and nothing else is.
-/

namespace SimpleSSD

namespace FTL

namespace PageMapping

variable {cfg : Config}

variable {s s' : PageMapping} {req : Request}

/-- What `trim` needs of the entry it removes. -/
def Trimmable (cfg : Config) (s : PageMapping) (lpn : Nat) : Prop :=
  ∀ vec ∈ s.table.find? lpn, InUse cfg s.pool vec

/-- What a call of `trim` leaves behind. -/
structure Untabled (lpn : Nat) (s s' : PageMapping) : Prop where
  table : ∀ l, s'.table.find? l = if l = lpn then none else s.table.find? l
  blocks : SameBlocks s.pool s'.pool
  marked : Marks s [] s'

/-- `trim` ends iff the blocks of the entry are in use. -/
theorem exec_trim_spec (cfg : Config) (env : Env) (w : World) (s : PageMapping) (req : Request) :
    (Trimmable cfg s req.lpn → ∃ s', Op.exec cfg env s (w, .trim req) = .ok s' ∧
        Untabled req.lpn s s') ∧
      ∀ s', Op.exec cfg env s (w, .trim req) = .ok s' → Trimmable cfg s req.lpn := by
  have hexec : Op.exec cfg env s (w, .trim req) = (s.log .request).trim cfg req := rfl
  rw [hexec, trim, log_table, Trimmable]
  cases hvec : s.table.find? req.lpn with
  | none =>
    refine ⟨fun _ => ⟨_, rfl, fun l => ?_, fun _ => rfl, ⟨[.request], rfl, rfl⟩⟩,
      fun _ _ vec hvec => by cases hvec⟩
    split
    · next h => rw [h]; exact hvec
    · rfl
  | some vec =>
    obtain ⟨hready, hready'⟩ := invalidateMapping_spec cfg "trimInternal" vec s.pool
    simp only [Option.mem_def, Option.some.injEq, forall_eq', Bind.bind, Except.bind, log_pool]
    constructor
    · intro h
      obtain ⟨pool, hpool, hblocks⟩ := hready h
      rw [hpool]
      exact ⟨_, rfl, fun l => UnorderedMap.find?_erase l, hblocks, ⟨[.dram, .request], rfl, rfl⟩⟩
    · intro s' hs'
      cases hpool : invalidateMapping cfg "trimInternal" vec s.pool with
      | error e =>
        rw [hpool] at hs'
        cases hs'
      | ok pool => exact hready' pool hpool

end PageMapping

end FTL

namespace ICL

open FTL (PageMapping)

variable {cfg : Config} {ftl : FTL.Config} {env : FTL.Env} {range : LPNRange}

namespace GenericCache

variable {s s' s₀ : GenericCache PageMapping}

/-- The page of the FTL's table for an LCA, unless the table only has a placeholder. -/
def mappingOf (cfg : Config) (ftl : FTL.Config) (s : GenericCache PageMapping) (lca : Nat) :
    Option (Nat × Nat) :=
  (s.pFTL.tableMapping (lca / cfg.lineCountInSuperPage) (lca % cfg.lineCountInSuperPage)).filter
    fun page => ftl.InRange page

/-- One of these lines has a tag in the range and in the superpage. -/
def TrimsIn (cfg : Config) (range : LPNRange) (s : GenericCache PageMapping)
    (lines : List (Nat × Nat)) (lpn : Nat) : Prop :=
  ∃ pos ∈ lines, range.contains (s.cacheData pos).tag = true ∧
    (s.cacheData pos).tag / cfg.lineCountInSuperPage = lpn

/-- What the loop over the lines has done after some of them. -/
structure TrimLoop (cfg : Config) (ftl : FTL.Config) (range : LPNRange)
    (s₀ : GenericCache PageMapping)
    (done : List (Nat × Nat)) (s : GenericCache PageMapping) : Prop where
  ready : ∀ lpn, TrimsIn cfg range s₀ done lpn → PageMapping.Trimmable ftl s₀.pFTL lpn
  gone : ∀ lpn, TrimsIn cfg range s₀ done lpn → s.pFTL.table.find? lpn = none
  kept : ∀ lpn, ¬ TrimsIn cfg range s₀ done lpn →
    s.pFTL.table.find? lpn = s₀.pFTL.table.find? lpn
  blocks : PageMapping.SameBlocks s₀.pFTL.pool s.pFTL.pool
  invalid : ∀ pos ∈ done, range.contains (s₀.cacheData pos).tag = true →
    (s.cacheData pos).valid = false
  lines : ∀ pos, ¬ (pos ∈ done ∧ range.contains (s₀.cacheData pos).tag = true) →
    s.cacheData pos = s₀.cacheData pos
  tags : ∀ pos, (s.cacheData pos).tag = (s₀.cacheData pos).tag

/-- A call of the FTL's `trim`. -/
theorem call_trim_spec (cfg : Config) (ftl : FTL.Config) (env : FTL.Env)
    (s : GenericCache PageMapping) (ioFlag : Bitset) (lpn : Nat) :
    (PageMapping.Trimmable ftl s.pFTL lpn →
      ∃ s', s.call cfg (pageMapping ftl env) (.trim ⟨lpn, ioFlag⟩) = .ok s' ∧
        s'.cacheData = s.cacheData ∧ PageMapping.Untabled lpn s.pFTL s'.pFTL) ∧
      ∀ s', s.call cfg (pageMapping ftl env) (.trim ⟨lpn, ioFlag⟩) = .ok s' →
        PageMapping.Trimmable ftl s.pFTL lpn := by
  obtain ⟨hready, hready'⟩ := PageMapping.exec_trim_spec ftl env s.world s.pFTL ⟨lpn, ioFlag⟩
  rw [call]
  constructor
  · intro h
    obtain ⟨pFTL, hexec, huntabled⟩ := hready h
    simp only [pageMapping, hexec, Except.map, Bind.bind, Except.bind,
      markedBy_of_marks huntabled.marked,
      List.foldl_nil]
    exact ⟨_, rfl, rfl, huntabled⟩
  · intro s' hs'
    cases hexec : FTL.Op.exec ftl env s.pFTL (s.world, .trim ⟨lpn, ioFlag⟩) with
    | error e =>
      simp only [pageMapping, hexec, Except.map, Bind.bind, Except.bind] at hs'
      cases hs'
    | ok pFTL => exact hready' pFTL hexec

/-- The entries that are left need no more than they did. -/
theorem TrimLoop.trimmable_iff {done : List (Nat × Nat)} (h : TrimLoop cfg ftl range s₀ done s)
    {lpn : Nat} (hlpn : ¬ TrimsIn cfg range s₀ done lpn) :
    PageMapping.Trimmable ftl s.pFTL lpn ↔ PageMapping.Trimmable ftl s₀.pFTL lpn := by
  simp only [PageMapping.Trimmable, FTL.InUse, h.kept lpn hlpn, h.blocks _]

theorem TrimLoop.trimmable {done : List (Nat × Nat)} (h : TrimLoop cfg ftl range s₀ done s)
    {lpn : Nat} (hlpn : TrimsIn cfg range s₀ done lpn) : PageMapping.Trimmable ftl s.pFTL lpn := by
  intro vec hvec
  rw [h.gone lpn hlpn] at hvec
  cases hvec

theorem trimsIn_append {done : List (Nat × Nat)} {pos : Nat × Nat} {lpn : Nat} :
    TrimsIn cfg range s (done ++ [pos]) lpn ↔ TrimsIn cfg range s done lpn ∨
      range.contains (s.cacheData pos).tag = true ∧
        (s.cacheData pos).tag / cfg.lineCountInSuperPage = lpn := by
  simp only [TrimsIn, List.mem_append, List.mem_singleton, or_and_right, exists_or, exists_eq_left]

/-- A line whose tag is out of the range is left alone. -/
theorem TrimLoop.skip {done : List (Nat × Nat)} {pos : Nat × Nat}
    (h : TrimLoop cfg ftl range s₀ done s) (hout : ¬ range.contains (s₀.cacheData pos).tag = true) :
    TrimLoop cfg ftl range s₀ (done ++ [pos]) s where
  ready lpn hlpn := h.ready lpn ((trimsIn_append.mp hlpn).resolve_right fun hin => hout hin.1)
  gone lpn hlpn := h.gone lpn ((trimsIn_append.mp hlpn).resolve_right fun hin => hout hin.1)
  kept lpn hlpn := h.kept lpn fun hin => hlpn (trimsIn_append.mpr (.inl hin))
  blocks := h.blocks
  invalid pos' hpos' hin := by
    rcases List.mem_append.mp hpos' with hpos' | hpos'
    · exact h.invalid pos' hpos' hin
    · rw [List.mem_singleton.mp hpos'] at hin
      exact absurd hin hout
  lines pos' hpos' := h.lines pos' fun hin =>
    hpos' ⟨List.mem_append.mpr (.inl hin.1), hin.2⟩
  tags := h.tags

/-- A line whose tag is in the range is trimmed and invalidated. -/
theorem TrimLoop.trim {done : List (Nat × Nat)} {pos : Nat × Nat}
    (h : TrimLoop cfg ftl range s₀ done s) (hin : range.contains (s₀.cacheData pos).tag = true)
    (hready : PageMapping.Trimmable ftl s₀.pFTL
      ((s₀.cacheData pos).tag / cfg.lineCountInSuperPage))
    (hlines : s'.cacheData = s.cacheData)
    (htable : PageMapping.Untabled ((s₀.cacheData pos).tag / cfg.lineCountInSuperPage) s.pFTL
      s'.pFTL) :
    TrimLoop cfg ftl range s₀ (done ++ [pos]) (s'.invalidateLine pos) where
  ready lpn hlpn := by
    rcases trimsIn_append.mp hlpn with hlpn | ⟨-, rfl⟩
    · exact h.ready lpn hlpn
    · exact hready
  gone lpn hlpn := by
    show s'.pFTL.table.find? lpn = none
    rw [htable.table]
    split
    · rfl
    · next hne =>
      exact h.gone lpn ((trimsIn_append.mp hlpn).resolve_right fun heq => hne heq.2.symm)
  kept lpn hlpn := by
    show s'.pFTL.table.find? lpn = _
    rw [trimsIn_append, not_or] at hlpn
    rw [htable.table, if_neg fun heq => hlpn.2 ⟨hin, heq.symm⟩]
    exact h.kept lpn hlpn.1
  blocks k := (htable.blocks k).trans (h.blocks k)
  invalid pos' hpos' hin' := by
    rcases eq_or_ne pos' pos with rfl | hne
    · rw [invalidateLine, putLine_self]
    · rw [invalidateLine, putLine_of_ne hne, hlines]
      have hpos' := (List.mem_append.mp hpos').resolve_right fun heq =>
        hne (List.mem_singleton.mp heq)
      exact h.invalid pos' hpos' hin'
  lines pos' hpos' := by
    have hne : pos' ≠ pos := by
      rintro rfl
      exact hpos' ⟨List.mem_append.mpr (.inr List.mem_cons_self), hin⟩
    rw [invalidateLine, putLine_of_ne hne, hlines]
    exact h.lines pos' fun hin' => hpos' ⟨List.mem_append.mpr (.inl hin'.1), hin'.2⟩
  tags pos' := by
    rcases eq_or_ne pos' pos with rfl | hne
    · rw [invalidateLine, putLine_self, hlines]
      exact h.tags pos'
    · rw [invalidateLine, putLine_of_ne hne, hlines]
      exact h.tags pos'

/-- One line. -/
theorem TrimLoop.step {done : List (Nat × Nat)} {pos : Nat × Nat}
    {acc : Bitset × GenericCache PageMapping}
    (h : TrimLoop cfg ftl range s₀ done acc.2)
    (hready : range.contains (s₀.cacheData pos).tag = true →
      PageMapping.Trimmable ftl s₀.pFTL ((s₀.cacheData pos).tag / cfg.lineCountInSuperPage)) :
    ∃ acc', trimLine cfg (pageMapping ftl env) range acc pos = .ok acc' ∧
      TrimLoop cfg ftl range s₀ (done ++ [pos]) acc'.2 := by
  obtain ⟨ioFlag, s⟩ := acc
  rw [trimLine]
  dsimp only at h ⊢
  rw [h.tags pos]
  by_cases hin : range.contains (s₀.cacheData pos).tag = true
  · have htrimmable : PageMapping.Trimmable ftl s.pFTL
        ((s₀.cacheData pos).tag / cfg.lineCountInSuperPage) := by
      by_cases hbefore : TrimsIn cfg range s₀ done
          ((s₀.cacheData pos).tag / cfg.lineCountInSuperPage)
      · exact h.trimmable hbefore
      · exact (h.trimmable_iff hbefore).mpr (hready hin)
    obtain ⟨s', hcall, hlines, htable⟩ := (call_trim_spec cfg ftl env s
      (ioFlag.insert ((s₀.cacheData pos).tag % cfg.lineCountInSuperPage)) _).1 htrimmable
    rw [if_pos hin, hcall]
    exact ⟨_, rfl, h.trim hin (hready hin) hlines htable⟩
  · rw [if_neg hin]
    exact ⟨_, rfl, h.skip hin⟩

/-- The start of the loop. -/
theorem TrimLoop.start : TrimLoop cfg ftl range s₀ [] s₀ where
  ready lpn hlpn := by
    obtain ⟨pos, hpos, -⟩ := hlpn
    cases hpos
  gone lpn hlpn := by
    obtain ⟨pos, hpos, -⟩ := hlpn
    cases hpos
  kept _ _ := rfl
  blocks _ := rfl
  invalid pos hpos := by cases hpos
  lines _ _ := rfl
  tags _ := rfl

/-- The loop over the lines ends iff the entries it removes name blocks in use. -/
theorem trimLoop_spec (cfg : Config) (ftl : FTL.Config) (env : FTL.Env) (range : LPNRange)
    (s₀ : GenericCache PageMapping) (ioFlag : Bitset) (lines : List (Nat × Nat)) :
    ((∀ pos ∈ lines, range.contains (s₀.cacheData pos).tag = true →
        PageMapping.Trimmable ftl s₀.pFTL ((s₀.cacheData pos).tag / cfg.lineCountInSuperPage)) →
      ∃ acc, lines.foldlM (trimLine cfg (pageMapping ftl env) range) (ioFlag, s₀) = .ok acc ∧
        TrimLoop cfg ftl range s₀ lines acc.2) ∧
      ∀ acc, lines.foldlM (trimLine cfg (pageMapping ftl env) range) (ioFlag, s₀) = .ok acc →
        ∀ pos ∈ lines, range.contains (s₀.cacheData pos).tag = true →
          PageMapping.Trimmable ftl s₀.pFTL
            ((s₀.cacheData pos).tag / cfg.lineCountInSuperPage) := by
  have hstep : ∀ (done : List (Nat × Nat)) pos (acc : Bitset × GenericCache PageMapping),
      TrimLoop cfg ftl range s₀ done acc.2 →
      (range.contains (s₀.cacheData pos).tag = true → PageMapping.Trimmable ftl s₀.pFTL
        ((s₀.cacheData pos).tag / cfg.lineCountInSuperPage)) →
      ∃ acc', trimLine cfg (pageMapping ftl env) range acc pos = .ok acc' ∧
        TrimLoop cfg ftl range s₀ (done ++ [pos]) acc'.2 := fun _ _ _ h => h.step
  constructor
  · intro hready
    exact Run.foldlM_of_ready (I := fun done (acc : Bitset × GenericCache PageMapping) =>
      TrimLoop cfg ftl range s₀ done acc.2) hstep TrimLoop.start hready
  · intro acc hacc
    refine Run.ready_of_foldlM (I := fun done (acc : Bitset × GenericCache PageMapping) =>
      TrimLoop cfg ftl range s₀ done acc.2) hstep (fun done pos acc acc' h hline hin => ?_)
      TrimLoop.start hacc
    by_cases hbefore : TrimsIn cfg range s₀ done
        ((s₀.cacheData pos).tag / cfg.lineCountInSuperPage)
    · exact h.ready _ hbefore
    · refine (h.trimmable_iff hbefore).mp ?_
      obtain ⟨ioFlag, s⟩ := acc
      rw [trimLine] at hline
      dsimp only at h hline
      rw [h.tags pos, if_pos hin, Except.bind_eq_ok] at hline
      obtain ⟨s', hcall, -⟩ := hline
      exact (call_trim_spec cfg ftl env s _ _).2 s' hcall

/-! ### What a trim is for -/

/-- The LCA is in the range. -/
def InRange (range : LPNRange) (lca : Nat) : Prop :=
  range.slpn ≤ lca ∧ lca < range.slpn + range.nlp

instance (range : LPNRange) (lca : Nat) : Decidable (InRange range lca) :=
  inferInstanceAs (Decidable (_ ∧ _))

/-- The LCAs of the range are neither mapped nor cached, and all others are as before. -/
structure TrimKeeps (cfg : Config) (ftl : FTL.Config) (range : LPNRange)
    (s s' : GenericCache PageMapping) : Prop where
  unmapped : ∀ lca, InRange range lca → s'.mappingOf cfg ftl lca = none
  uncached : ∀ pos ∈ cfg.positions, InRange range (s'.cacheData pos).tag →
    (s'.cacheData pos).valid = false
  mapping : ∀ lca, ¬ InRange range lca → s'.mappingOf cfg ftl lca = s.mappingOf cfg ftl lca
  lines : ∀ pos ∈ cfg.positions, ¬ InRange range (s.cacheData pos).tag →
    s'.cacheData pos = s.cacheData pos

/-- A line of the cache has a tag in the range and in the superpage of the LCA. -/
def Trims (cfg : Config) (range : LPNRange) (s : GenericCache PageMapping) (lca : Nat) : Prop :=
  (cfg.useReadCaching || cfg.useWriteCaching) = true ∧
    TrimsIn cfg range s cfg.positions (lca / cfg.lineCountInSuperPage)

/-- The condition under which a trim does what it is for. -/
structure TrimSafe (cfg : Config) (ftl : FTL.Config) (range : LPNRange)
    (s : GenericCache PageMapping) : Prop where
  inside : ∀ lca, InRange range lca → s.mappingOf cfg ftl lca ≠ none → Trims cfg range s lca
  outside : ∀ lca, ¬ InRange range lca → s.mappingOf cfg ftl lca ≠ none → ¬ Trims cfg range s lca
  cached : ∀ pos ∈ cfg.positions, InRange range (s.cacheData pos).tag →
    (s.cacheData pos).valid = true →
    (cfg.useReadCaching || cfg.useWriteCaching) = true ∧
      range.contains (s.cacheData pos).tag = true
  blocks : ∀ lca, Trims cfg range s lca →
    PageMapping.Trimmable ftl s.pFTL (lca / cfg.lineCountInSuperPage)

/-- What `trim` does: the superpages of the tags in the range lose their mapping. -/
structure Trimmed (cfg : Config) (ftl : FTL.Config) (range : LPNRange)
    (s s' : GenericCache PageMapping) : Prop where
  gone : ∀ lca, Trims cfg range s lca → s'.mappingOf cfg ftl lca = none
  kept : ∀ lca, ¬ Trims cfg range s lca → s'.mappingOf cfg ftl lca = s.mappingOf cfg ftl lca
  invalid : ∀ pos ∈ cfg.positions, (cfg.useReadCaching || cfg.useWriteCaching) = true →
    range.contains (s.cacheData pos).tag = true → (s'.cacheData pos).valid = false
  lines : ∀ pos, ¬ ((cfg.useReadCaching || cfg.useWriteCaching) = true ∧
    range.contains (s.cacheData pos).tag = true) → s'.cacheData pos = s.cacheData pos
  tags : ∀ pos, (s'.cacheData pos).tag = (s.cacheData pos).tag

/-- A trim without caching does nothing. -/
theorem Trimmed.of_off (hoff : ¬ (cfg.useReadCaching || cfg.useWriteCaching) = true) :
    Trimmed cfg ftl range s (s.log (.trim range)) where
  gone _ h := absurd h.1 hoff
  kept _ _ := rfl
  invalid _ _ hon := absurd hon hoff
  lines _ _ := rfl
  tags _ := rfl

theorem TrimLoop.trimmed (hon : (cfg.useReadCaching || cfg.useWriteCaching) = true)
    (h : TrimLoop cfg ftl range s cfg.positions s') : Trimmed cfg ftl range s s' where
  gone lca hlca := by
    rw [mappingOf, PageMapping.tableMapping, h.gone _ hlca.2]
    rfl
  kept lca hlca := by
    rw [mappingOf, PageMapping.tableMapping, h.kept _ fun hin => hlca ⟨hon, hin⟩]
    rfl
  invalid pos hpos _ hin := h.invalid pos hpos hin
  lines pos hpos := h.lines pos fun hin => hpos ⟨hon, hin.2⟩
  tags := h.tags

theorem trim_spec (cfg : Config) (ftl : FTL.Config) (env : FTL.Env) (range : LPNRange)
    (s : GenericCache PageMapping) :
    ((∀ lca, Trims cfg range s lca →
        PageMapping.Trimmable ftl s.pFTL (lca / cfg.lineCountInSuperPage)) →
      ∃ s', s.trim cfg (pageMapping ftl env) range = .ok s' ∧ Trimmed cfg ftl range s s') ∧
      ∀ s', s.trim cfg (pageMapping ftl env) range = .ok s' → ∀ lca, Trims cfg range s lca →
        PageMapping.Trimmable ftl s.pFTL (lca / cfg.lineCountInSuperPage) := by
  rw [GenericCache.trim]
  dsimp only
  by_cases hon : (cfg.useReadCaching || cfg.useWriteCaching) = true
  · rw [if_pos hon]
    obtain ⟨hready, hready'⟩ := trimLoop_spec cfg ftl env range (s.log (.trim range))
      (Bitset.new cfg.lineCountInSuperPage) cfg.positions
    constructor
    · intro h
      obtain ⟨acc, hloop, hdone⟩ := hready fun pos hpos hin => h _ ⟨hon, pos, hpos, hin, rfl⟩
      rw [hloop]
      exact ⟨acc.2, rfl, TrimLoop.trimmed hon ⟨hdone.ready, hdone.gone, hdone.kept, hdone.blocks,
        hdone.invalid, hdone.lines, hdone.tags⟩⟩
    · rintro s' hs' lca ⟨-, pos, hpos, hin, hlca⟩
      rw [Except.bind_eq_ok] at hs'
      obtain ⟨acc, hloop, -⟩ := hs'
      rw [← hlca]
      exact hready' acc hloop pos hpos hin
  · rw [if_neg hon]
    exact ⟨fun _ => ⟨_, rfl, Trimmed.of_off hon⟩, fun _ _ lca hlca => absurd hlca.1 hon⟩

/-- The test of the code fails on an LCA of the range only when the range wraps around. -/
theorem inRange_of_contains {lca : Nat} (h : range.contains lca = true) : InRange range lca := by
  rw [LPNRange.contains, decide_eq_true_iff] at h
  exact ⟨h.1, h.2.trans_le (Nat.mod_le _ _)⟩

/-- A trim does what it is for exactly under `TrimSafe`, in every state of the cache and the FTL. -/
theorem trim_exact_iff (cfg : Config) (ftl : FTL.Config) (env : FTL.Env) (range : LPNRange)
    (s : GenericCache PageMapping) :
    (∃ s', s.trim cfg (pageMapping ftl env) range = .ok s' ∧ TrimKeeps cfg ftl range s s') ↔
      TrimSafe cfg ftl range s := by
  obtain ⟨hready, hready'⟩ := trim_spec cfg ftl env range s
  constructor
  · rintro ⟨s', hs', hkeeps⟩
    have hblocks := hready' s' hs'
    obtain ⟨s₁, hs₁, hdone⟩ := hready hblocks
    obtain rfl : s' = s₁ := by
      rw [hs'] at hs₁
      exact Except.ok.inj hs₁
    refine ⟨fun lca hin hmapped => ?_, fun lca hout hmapped htrims => ?_,
      fun pos hpos hin hvalid => ?_, hblocks⟩
    · by_contra htrims
      rw [← hdone.kept lca htrims] at hmapped
      exact hmapped (hkeeps.unmapped lca hin)
    · rw [← hkeeps.mapping lca hout] at hmapped
      exact hmapped (hdone.gone lca htrims)
    · by_contra hleft
      have hline := hdone.lines pos hleft
      have hgone := hkeeps.uncached pos hpos (hline ▸ hin)
      rw [hline, hvalid] at hgone
      cases hgone
  · rintro ⟨hinside, houtside, hcached, hblocks⟩
    obtain ⟨s', hs', hdone⟩ := hready hblocks
    refine ⟨s', hs', fun lca hin => ?_, fun pos hpos hin => ?_, fun lca hout => ?_,
      fun pos hpos hout => ?_⟩
    · by_cases htrims : Trims cfg range s lca
      · exact hdone.gone lca htrims
      · rw [hdone.kept lca htrims]
        by_contra hmapped
        exact htrims (hinside lca hin hmapped)
    · rw [hdone.tags pos] at hin
      by_cases hleft : (cfg.useReadCaching || cfg.useWriteCaching) = true ∧
          range.contains (s.cacheData pos).tag = true
      · exact hdone.invalid pos hpos hleft.1 hleft.2
      · rw [hdone.lines pos hleft]
        by_contra hvalid
        exact hleft (hcached pos hpos hin (by simpa using hvalid))
    · by_cases htrims : Trims cfg range s lca
      · rw [hdone.gone lca htrims]
        by_contra hmapped
        exact houtside lca hout (Ne.symm hmapped) htrims
      · exact hdone.kept lca htrims
    · exact hdone.lines pos fun hleft => hout (inRange_of_contains hleft.2)

/-- Page 0 is written back when pages 1 and 2 come, and stays mapped when it is trimmed. -/
theorem trim_leaves_uncached : ∃ pFTL s s', smallDevice 8 = .ok pFTL ∧
    smallRun 8 [.write (.line 0), .write (.line 1), .write (.line 2)] pFTL = .ok s ∧
    s.trim .small (smallPort 8) ⟨0, 1⟩ = .ok s' ∧
    ¬ TrimKeeps .small (.small 8) ⟨0, 1⟩ s s' := by
  obtain ⟨pFTL, hinit, hrun⟩ := Except.exists_of_map (x := smallDevice 8)
    (p := fun pFTL =>
      (smallRun 8 [.write (.line 0), .write (.line 1), .write (.line 2)] pFTL).map (fun s =>
        decide ((s.trim .small (smallPort 8) ⟨0, 1⟩).map (fun s' =>
          decide (s'.mappingOf .small (.small 8) 0 = some (0, 0))) = .ok true)) = .ok true)
    (by decide +kernel)
  obtain ⟨s, hs, htrim⟩ := Except.exists_of_map hrun
  obtain ⟨s', hs', hmapped⟩ := Except.exists_of_map htrim
  refine ⟨pFTL, s, s', hinit, hs, hs', fun hkeeps => ?_⟩
  have hgone := hkeeps.unmapped 0 ⟨Nat.le_refl 0, Nat.zero_lt_one⟩
  rw [hmapped] at hgone
  cases hgone

end GenericCache

end ICL

end SimpleSSD
