import SimpleSSD.ICL.CachedCollection
import SimpleSSD.ICL.Lines
import SimpleSSD.ICL.Tags

/-!
# A write to a full set (icl/generic_cache.cc:1182–1267 and 1427–1513)

A write that finds no empty way in its set evicts a line for each I/O position, and then
looks for an empty way again. One of the lines has to be in the set: either the lines that
were collected over all sets have one of it, or one is added. That a line counts for a set by
its tag, while the set needs the line itself, does not matter as long as valid lines are in the
set of their tags.
-/

namespace SimpleSSD.ICL

open GenericCache

variable {F : Type} {cfg : Config} {env : Env} {port : FTLPort F} {s s' : GenericCache F}

/-! ### Valid lines are in the set of their tags -/

/-- Valid lines are in the set of their tags, but for those of a read in progress, which are in
the set of the tag that they get. -/
structure InSets (cfg : Config) (R : List (Nat × Nat × Nat)) (s : GenericCache F) : Prop where
  in_set : ∀ pos, (s.cacheData pos).valid = true → Unreserved R pos →
    cfg.calcSetIndex (s.cacheData pos).tag = pos.1
  pending : ∀ entry ∈ R, entry.2.1 = cfg.calcSetIndex entry.1

namespace InSets

variable {R : List (Nat × Nat × Nat)} {lca way : Nat} {pos : Nat × Nat} {line : Line}

theorem fewer (h : InSets cfg R s) (hf : s.Fewer s') : InSets cfg R s' where
  in_set pos hv hun := by
    rw [(hf pos hv).2]
    exact h.in_set pos (hf pos hv).1 hun
  pending := h.pending

theorem congr (h : InSets cfg R s) (hlines : s'.cacheData = s.cacheData) : InSets cfg R s' :=
  h.fewer fun pos hv => by
    rw [hlines] at hv ⊢
    exact ⟨hv, rfl⟩

/-- A line may get a tag of its set. -/
theorem put (h : InSets cfg R s) (htag : cfg.calcSetIndex line.tag = pos.1) :
    InSets cfg R (s.putLine pos line) where
  in_set p hv hun := by
    by_cases hp : p = pos
    · rw [hp, putLine_self]
      exact htag
    · rw [putLine_of_ne hp] at hv ⊢
      exact h.in_set p hv hun
  pending := h.pending

/-- A reserved line may be anything. -/
theorem reserve (h : InSets cfg R s) :
    InSets cfg (R ++ [(lca, cfg.calcSetIndex lca, way)])
      (s.putLine (cfg.calcSetIndex lca, way) line) where
  in_set p hv hun := by
    have hp : p ≠ (cfg.calcSetIndex lca, way) := fun heq =>
      hun (lca, cfg.calcSetIndex lca, way) (by simp) heq.symm
    rw [putLine_of_ne hp] at hv ⊢
    exact h.in_set p hv hun.of_append
  pending entry hentry := by
    rcases List.mem_append.mp hentry with hentry | hentry
    · exact h.pending entry hentry
    · rw [List.mem_singleton.mp hentry]

/-- The first reserved line gets its tag. -/
theorem load (h : InSets cfg ((lca, pos) :: R) s) (htag : line.tag = lca) :
    InSets cfg R (s.putLine pos line) where
  in_set p hv hun := by
    by_cases hp : p = pos
    · rw [hp, putLine_self, htag]
      exact (h.pending (lca, pos) List.mem_cons_self).symm
    · rw [putLine_of_ne hp] at hv ⊢
      refine h.in_set p hv fun entry hentry => ?_
      rcases List.mem_cons.mp hentry with rfl | hentry
      · exact Ne.symm hp
      · exact hun entry hentry
  pending entry hentry := h.pending entry (List.mem_cons_of_mem _ hentry)

theorem call {op : FTL.Op} (h : InSets cfg R s) : (s.call cfg port op).All (InSets cfg R) :=
  (call_fewer cfg port op s).mono fun _ hf => h.fewer hf

theorem writeDirect {direct : Bool} {e : Event} (h : InSets cfg R s) :
    (s.writeDirect cfg port direct e lca).All (InSets cfg R) :=
  ((lasting_fewer cfg port s).writeDirect (.refl s)).mono fun _ hf => h.fewer hf

end InSets

/-- Unlike the uniqueness of tags, this needs no condition on insertions. -/
theorem inSets_invariant : CacheInvariant cfg env port (noConditions F) False (InSets cfg)
    (fun _ => InSets (F := F) cfg []) where
  count h := h.congr rfl
  detect h := h.congr rfl
  trigger h := h.congr rfl
  aim h := h.congr rfl
  touch h hv := h.fewer (fewer_putLine fun _ => ⟨hv, rfl⟩)
  evictLine h _ _ _ := (evictLine_all env port cfg _ _ _).mono fun _ hf => h.fewer hf.1
  reserve h _ _ _ _ := h.reserve
  load h := h.call.bind fun _ hs => (InSets.load hs rfl).congr rfl
  readThrough _ h := h.call
  store h _ _ _ _ := (InSets.put h rfl).congr rfl
  insert h _ _ _ := (InSets.put h rfl).congr rfl
  insert_fresh h := h.elim
  overwrite h hway := by
    refine (h.fewer (fewer_putLine fun _ => ⟨(getValidWay_eq_some hway).2.1, ?_⟩)).congr rfl
    rfl
  writeThrough _ h := h.writeDirect
  pass_miss h _ := h
  pass_hit h hway := by
    refine (h.fewer (fewer_putLine fun _ => ⟨(getValidWay_eq_some hway).2.1, ?_⟩)).congr rfl
    rfl
  writeUncached _ h := h.writeDirect
  rewrite h _ := h.writeDirect
  flushLine h _ _ _ := ((lasting_fewer cfg port _).flushLine (.refl _)).mono fun _ hf => h.fewer hf
  trim h := ((lasting_fewer cfg port _).trim (.refl _)).mono fun _ hf => h.fewer hf
  format h := ((lasting_fewer cfg port _).format (.refl _)).mono fun _ hf => h.fewer hf

theorem run_inSets {pFTL : F} {calls : List (Nat × Op)}
    (h : run cfg env port (.init pFTL) calls = .ok s) : InSets cfg [] s := by
  have hstart : InSets cfg [] (GenericCache.init pFTL) := by
    refine ⟨fun _ hv => ?_, fun _ hentry => ?_⟩
    · cases hv
    · cases hentry
  exact ((inSets_invariant.run ⟨hstart, fun _ => rfl⟩ (meets_noConditions _ _ _ _ _)).of_ok h).1

namespace GenericCache

/-! ### Empty ways -/

/-- A way that the search does not find is valid, or was invalidated in the last tick. -/
theorem getEmptyWay_eq_none {setIdx : Nat} (h : s.getEmptyWay cfg setIdx = none) :
    ∀ way < cfg.waySize, (s.cacheData (setIdx, way)).valid = true ∨
      2 ^ 64 - 1 ≤ (s.cacheData (setIdx, way)).insertedAt := by
  have hfold : ∀ (l : List Nat) (acc : Option Nat × Nat),
      (l.foldl (fun (acc : Option Nat × Nat) way =>
        let line := s.cacheData (setIdx, way)
        if !line.valid && line.insertedAt < acc.2 then (some way, line.insertedAt) else acc)
        acc).1 = none →
      acc.1 = none ∧ ∀ way ∈ l, (s.cacheData (setIdx, way)).valid = true ∨
        acc.2 ≤ (s.cacheData (setIdx, way)).insertedAt := by
    intro l
    induction l with
    | nil => exact fun acc hacc => ⟨hacc, fun _ h => by cases h⟩
    | cons way l ih =>
      intro acc hacc
      rw [List.foldl_cons] at hacc
      obtain ⟨hnone, hrest⟩ := ih _ hacc
      dsimp only at hnone hrest
      split at hnone
      · cases hnone
      · next hnot =>
        rw [if_neg hnot] at hrest
        refine ⟨hnone, List.forall_mem_cons.mpr ⟨?_, hrest⟩⟩
        rw [Bool.and_eq_true, Bool.not_eq_true', decide_eq_true_iff] at hnot
        cases hv : (s.cacheData (setIdx, way)).valid with
        | true => exact .inl rfl
        | false => exact .inr (Nat.not_lt.mp fun hlt => hnot ⟨hv, hlt⟩)
  rw [getEmptyWay] at h
  exact fun way hway => (hfold _ _ h).2 way (List.mem_range.mpr hway)

/-- All lines got their last ticks before the greatest tick. -/
abbrev Stamped (s : GenericCache F) : Prop :=
  LineRule.Holds (fun line => line.insertedAt < 2 ^ 64 - 1) s

theorem stamped_rule (htick : ∀ n, env.tick n < 2 ^ 64 - 1) :
    LineRule env fun line => line.insertedAt < 2 ^ 64 - 1 where
  fresh := by decide
  marked h := h
  touched h := h
  evicted n := htick n
  reserved _ := htick _
  loaded _ := htick _
  overwritten _ := htick _
  stored n _ _ _ := htick n
  invalidated h := h

theorem Stamped.valid {setIdx way : Nat} (hs : Stamped s) (h : s.getEmptyWay cfg setIdx = none)
    (hway : way < cfg.waySize) : (s.cacheData (setIdx, way)).valid = true := by
  rcases getEmptyWay_eq_none h way hway with hv | hle
  · exact hv
  · have hlt : (s.cacheData (setIdx, way)).insertedAt < 2 ^ 64 - 1 := hs (setIdx, way)
    omega

/-! ### The lines that are collected -/

/-- Every entry of `evictData` points at a valid line. -/
def Live (s : GenericCache F) (evictData : Nat × Nat → Option (Nat × Nat)) : Prop :=
  ∀ slot pos, evictData slot = some pos → (s.cacheData pos).valid = true

theorem Live.update {evictData : Nat × Nat → Option (Nat × Nat)} (h : Live s evictData)
    {slot : Nat × Nat} {entry : Option (Nat × Nat)}
    (hentry : ∀ pos, entry = some pos → (s.cacheData pos).valid = true) :
    Live s (Function.update evictData slot entry) := by
  intro slot' pos hslot
  by_cases heq : slot' = slot
  · rw [heq, Function.update_self] at hslot
    exact hentry pos hslot
  · rw [Function.update_of_ne heq] at hslot
    exact h slot' pos hslot

theorem collectEvictData_live (hclear : s.Cleared) : Live s (s.collectEvictData cfg env) := by
  have hstart : Live s s.evictData := by
    intro slot pos hslot
    rw [hclear slot] at hslot
    cases hslot
  refine List.foldlRecOn _ _ hstart fun evictData hlive pos _ => ?_
  dsimp only
  split
  · next hvalid =>
    refine hlive.update fun p hp => ?_
    rcases compareFunction_eq_some env hp with hp | hp
    · exact hlive _ p hp
    · cases hp
      exact hvalid
  · exact hlive

theorem foldRows_live {evictData : Nat × Nat → Option (Nat × Nat)} (h : Live s evictData) :
    Live s (s.foldRows cfg env evictData) := by
  refine List.foldlRecOn _ _ h fun evictData hlive slot _ => ?_
  refine Live.update (hlive.update fun p hp => ?_) fun p hp => by cases hp
  rcases compareFunction_eq_some env hp with hp | hp
  · exact hlive _ p hp
  · exact hlive _ p hp

/-- The line that is added is a valid line of the set, if there is one. -/
theorem pLineToFlush_isSome (env : Env) {setIdx way : Nat} (hway : way < cfg.waySize)
    (hvalid : (s.cacheData (setIdx, way)).valid = true) :
    ∃ pos, s.pLineToFlush cfg env setIdx = some pos ∧ pos.1 = setIdx ∧
      (s.cacheData pos).valid = true := by
  have hfold : ∀ l : List Nat, ∀ best : Option (Nat × Nat),
      (∀ pos ∈ best, pos.1 = setIdx ∧ (s.cacheData pos).valid = true) →
      (best ≠ none ∨ way ∈ l) →
      ∃ pos, l.foldl (fun best way =>
        if (s.cacheData (setIdx, way)).valid then
          s.compareFunction cfg env [s.clock, 2, way] best (some (setIdx, way))
        else best) best = some pos ∧ pos.1 = setIdx ∧ (s.cacheData pos).valid = true := by
    intro l
    induction l with
    | nil =>
      intro best hbest hsome
      cases best with
      | none => exact (hsome.elim (fun h => h rfl) (fun h => by cases h)).elim
      | some pos => exact ⟨pos, rfl, hbest pos rfl⟩
    | cons w l ih =>
      intro best hbest hsome
      rw [List.foldl_cons]
      by_cases hw : (s.cacheData (setIdx, w)).valid = true
      · rw [if_pos hw]
        refine ih _ (fun pos hpos => ?_) (.inl fun hnone => ?_)
        · rcases compareFunction_eq_some env hpos with hpos | hpos
          · exact hbest pos hpos
          · cases hpos
            exact ⟨rfl, hw⟩
        · cases best with
          | none => cases hnone
          | some pos =>
            rw [compareFunction] at hnone
            split at hnone <;> cases hnone
      · rw [if_neg hw]
        refine ih best hbest (hsome.imp_right fun hmem => ?_)
        rcases List.mem_cons.mp hmem with rfl | hmem
        · exact absurd hvalid hw
        · exact hmem
  exact hfold _ none (fun _ h => by cases h) (.inr (List.mem_range.mpr hway))

/-- One of the entries is a valid line whose tag belongs to the set. -/
theorem fillEvictData_hits (env : Env) {setIdx way : Nat} (hclear : s.Cleared)
    (hsets : InSets cfg [] s) (hway : way < cfg.waySize)
    (hvalid : (s.cacheData (setIdx, way)).valid = true) :
    ∃ slot pos, (s.fillEvictData cfg env setIdx).evictData slot = some pos ∧ pos.1 = setIdx ∧
      (s.cacheData pos).valid = true := by
  have hlive : Live s (if cfg.evictMode = .superpage then
      s.foldRows cfg env (s.collectEvictData cfg env) else s.collectEvictData cfg env) := by
    split
    · exact foldRows_live (collectEvictData_live hclear)
    · exact collectEvictData_live hclear
  rw [fillEvictData]
  dsimp only
  generalize (if cfg.evictMode = .superpage then
      s.foldRows cfg env (s.collectEvictData cfg env) else s.collectEvictData cfg env) = evictData
    at hlive ⊢
  rw [addLineOf]
  split
  · next hhas =>
    obtain ⟨slot, -, hslot⟩ := List.any_eq_true.mp hhas
    cases hentry : evictData slot with
    | none => simp [hentry] at hslot
    | some pos =>
      rw [hentry] at hslot
      have htag : cfg.calcSetIndex (s.cacheData pos).tag = setIdx := beq_iff_eq.mp hslot
      have hv := hlive slot pos hentry
      exact ⟨slot, pos, hentry, (hsets.in_set pos hv (unreserved_nil pos)).symm.trans htag, hv⟩
  · obtain ⟨pos, hpos, hset, hv⟩ := pLineToFlush_isSome env hway hvalid
    rw [hpos]
    exact ⟨_, pos, Function.update_self _ _ _, hset, hv⟩

/-- `evictCache` evicts every line that has an entry. -/
theorem evictCache_evicts (haims : s.Aims cfg s.evictData) {slot pos : Nat × Nat}
    (hslot : s.evictData slot = some pos) :
    (s.evictCache cfg env port).All fun s' => (s'.cacheData pos).valid = false := by
  refine Except.all_iff.mpr fun s' h => ?_
  have hloop := Run.foldlM_done (f := evictSlot cfg env port)
    (I := fun done s₁ => (∀ slot' ∉ done, s₁.evictData slot' = s.evictData slot') ∧
      (slot ∈ done → (s₁.cacheData pos).valid = false)) ?_ ⟨fun _ _ => rfl, by simp⟩ h
  · exact hloop.2 (haims slot pos hslot).1
  · rintro done next rest s₁ s₂ - ⟨hkept, hdone⟩ hstep
    rw [evictSlot] at hstep
    split at hstep
    · next hnull =>
      cases hstep
      refine ⟨fun slot' hmem => hkept slot' fun h => hmem (List.mem_append_left _ h),
        fun hmem => ?_⟩
      rcases List.mem_append.mp hmem with hmem | hmem
      · exact hdone hmem
      · by_cases hin : slot ∈ done
        · exact hdone hin
        · rw [← List.mem_singleton.mp hmem, hkept slot hin, hslot] at hnull
          cases hnull
    · next pos' hpos' =>
      obtain ⟨s₃, h₃, h₂⟩ := Except.bind_eq_ok.mp hstep
      cases h₂
      obtain ⟨hfewer, hinvalid, hdata⟩ := (evictLine_all env port cfg next.1 pos' s₁).of_ok h₃
      refine ⟨fun slot' hmem => ?_, fun hmem => ?_⟩
      · have hne : slot' ≠ next := fun heq => hmem (by simp [heq])
        show Function.update s₃.evictData next none slot' = _
        rw [Function.update_of_ne hne, hdata]
        exact hkept slot' fun h => hmem (List.mem_append_left _ h)
      · by_cases hin : slot ∈ done
        · -- an invalid line stays invalid
          by_contra hv
          have := (hfewer pos (by simpa using hv)).1
          rw [hdone hin] at this
          cases this
        · rcases List.mem_append.mp hmem with hmem | hmem
          · exact absurd hmem hin
          · rw [← List.mem_singleton.mp hmem, hkept slot hin, hslot] at hpos'
            cases hpos'
            exact hinvalid

/-! ### The write -/

/-- The eviction pass for a full set invalidates a line of it and resets `evictData`, and
after it the set has an empty way; so `insertLine` stops only where that pass does. -/
structure FreesWay (cfg : Config) (env : Env) (port : FTLPort F) (s : GenericCache F)
    (lca : Nat) : Prop where
  pass : ((s.fillEvictData cfg env (cfg.calcSetIndex lca)).evictCache cfg env port).All fun s' =>
    (∃ way < cfg.waySize, (s.cacheData (cfg.calcSetIndex lca, way)).valid = true ∧
      (s'.cacheData (cfg.calcSetIndex lca, way)).valid = false) ∧
    s'.getEmptyWay cfg (cfg.calcSetIndex lca) ≠ none ∧ s'.Cleared
  stops (function : String) (dirty : Bool) (stored : Nat × Nat → Event) (e : Fault) :
    s.insertLine cfg env port function lca dirty stored = .error e →
      (s.fillEvictData cfg env (cfg.calcSetIndex lca)).evictCache cfg env port = .error e

theorem freesWay {lca : Nat} (htick : ∀ n, env.tick n < 2 ^ 64 - 1) (hpos : 0 < cfg.waySize)
    (hclear : s.Cleared) (hsets : InSets cfg [] s) (hstamped : Stamped s)
    (hfull : s.getEmptyWay cfg (cfg.calcSetIndex lca) = none) : FreesWay cfg env port s lca := by
  obtain ⟨slot, pos, hslot, hset, hv⟩ :=
    fillEvictData_hits env hclear hsets hpos (hstamped.valid hfull hpos)
  have haims : (s.fillEvictData cfg env (cfg.calcSetIndex lca)).Aims cfg
      (s.fillEvictData cfg env (cfg.calcSetIndex lca)).evictData := by
    refine fillEvictData_aims env (cfg.calcSetIndex_lt lca) fun slot pos hslot => ?_
    rw [hclear slot] at hslot
    cases hslot
  have hway : pos.2 < cfg.waySize := (cfg.mem_positions.mp (haims slot pos hslot).2.1).2
  have hmem : (cfg.calcSetIndex lca, pos.2) = pos := by rw [← hset]
  have hevicted : ((s.fillEvictData cfg env (cfg.calcSetIndex lca)).evictCache cfg env port).All
      fun s' => (s'.cacheData pos).valid = false ∧ Stamped s' ∧ s'.Cleared := by
    have hcleared : ((s.fillEvictData cfg env (cfg.calcSetIndex lca)).evictCache cfg env port).All
        fun s' => True ∧ Fewer _ s' ∧ s'.Cleared :=
      evictCache_all env port haims (fun _ => trivial)
        (fun _ _ _ => Except.All.of_forall fun _ => trivial) trivial
    refine (evictCache_evicts haims hslot).and (Except.All.and ?_ ?_)
    · exact (stamped_rule htick).evictCache (s := s.fillEvictData cfg env _) hstamped
    · exact hcleared.mono fun _ h => h.2.2
  have hpass : ((s.fillEvictData cfg env (cfg.calcSetIndex lca)).evictCache cfg env port).All
      fun s' => (∃ way < cfg.waySize, (s.cacheData (cfg.calcSetIndex lca, way)).valid = true ∧
        (s'.cacheData (cfg.calcSetIndex lca, way)).valid = false) ∧
      s'.getEmptyWay cfg (cfg.calcSetIndex lca) ≠ none ∧ s'.Cleared := by
    refine hevicted.mono fun s' ⟨hinvalid, hstamped', hclear'⟩ => ⟨?_, fun hnone => ?_, hclear'⟩
    · exact ⟨pos.2, hway, by rwa [hmem], by rwa [hmem]⟩
    · have hvalid := hstamped'.valid hnone hway
      rw [hmem, hinvalid] at hvalid
      cases hvalid
  refine ⟨hpass, fun function dirty stored e he => ?_⟩
  rw [insertLine] at he
  dsimp only at he
  rw [hfull] at he
  cases hevict : (s.fillEvictData cfg env (cfg.calcSetIndex lca)).evictCache cfg env port with
  | error e' =>
    have he : (Except.error e' : Except Fault (Bool × GenericCache F)) = .error e := by
      rw [← he, hevict]
      rfl
    cases he
    rfl
  | ok s' =>
    obtain ⟨-, hsome, -⟩ := hpass.of_ok hevict
    simp only [hevict, Except.ok_bind] at he
    split at he
    · next hnone => exact absurd hnone hsome
    · cases he

end GenericCache

/-- A write to a full set, after any run: with `write` and with `writeVictimPagesToCache`,
whether the data goes to the FTL first (`direct`) or not. -/
theorem full_set_frees_way (cfg : Config) (env : Env) (port : FTLPort F) (pFTL : F)
    (calls : List (Nat × Op)) {s : GenericCache F} (hpos : 0 < cfg.waySize)
    (htick : ∀ n, env.tick n < 2 ^ 64 - 1)
    (h : run cfg env port (.init pFTL) calls = .ok s) (iclCount : Nat) (direct : Bool) (e : Event)
    (lca : Nat) :
    (({ s with iclCount := iclCount } : GenericCache F).writeDirect cfg port direct e lca).All
      fun s₁ => s₁.getEmptyWay cfg (cfg.calcSetIndex lca) = none →
        FreesWay cfg env port s₁ lca := by
  generalize hs' : ({ s with iclCount := iclCount } : GenericCache F) = s'
  have hlines : s'.cacheData = s.cacheData := by rw [← hs']
  have hclear : s'.Cleared := by
    rw [← hs']
    exact (run_cleared h : s.Cleared)
  have hsets : InSets cfg [] s' := (run_inSets h).congr hlines
  have hstamped : Stamped s' := by
    intro pos
    rw [hlines]
    exact (stamped_rule htick).run h pos
  refine Except.All.mono (((lasting_cleared port cfg).writeDirect hclear).and
    (hsets.writeDirect.and ((stamped_rule htick).lasting.writeDirect hstamped))) ?_
  rintro s₁ ⟨hclear₁, hsets₁, hstamped₁⟩ hfull
  exact freesWay htick hpos hclear₁ hsets₁ hstamped₁ hfull

/-! ### A small full set, and two caches without an empty way -/

/-- All ticks are the same. -/
def Env.constant (t : Nat) : Env := ⟨fun _ => t, fun _ => 0, 100⟩

/-- Two writes fill the small cache, and a third one finds a way. -/
theorem full_set_frees_way_small : ∃ pFTL s, smallDevice 4 = .ok pFTL ∧
    run .small (.constant 1) (smallPort 4) (.init pFTL)
      [(0, .write (.line 1)), (0, .write (.line 2))] = .ok s ∧
    s.getEmptyWay .small 0 = none ∧ FreesWay .small (.constant 1) (smallPort 4) s 3 := by
  obtain ⟨pFTL, hinit, hrun⟩ := Except.exists_of_map (x := smallDevice 4)
    (p := fun pFTL => (run .small (.constant 1) (smallPort 4) (.init pFTL)
      [(0, .write (.line 1)), (0, .write (.line 2))]).map (fun s =>
        decide (s.getEmptyWay .small 0 = none ∧ s.iclCount = 0)) = .ok true)
    (by decide +kernel)
  obtain ⟨s, hs, hfull, hcount⟩ := Except.exists_of_map hrun
  refine ⟨pFTL, s, hinit, hs, hfull, ?_⟩
  have hsame : ({ s with iclCount := 0 } : GenericCache FTL.PageMapping) = s := by rw [← hcount]
  have hfrees := full_set_frees_way .small (.constant 1) (smallPort 4) pFTL _ (by decide)
    (fun _ => (by decide : 1 < 2 ^ 64 - 1)) hs 0 false (.writeThrough 3) 3
  rw [hsame] at hfrees
  exact hfrees.of_ok (a := s) rfl hfull

/-- A fully associative cache of 2^32 lines, which are 0 ways in 32 bits. -/
def Config.wayless : Config :=
  { Config.small with cacheSize := 2 ^ 44, cacheWaySize := 0, setSize_pos := Nat.one_pos }

/-- The panic is reached where there is no way at all, and where lines are invalidated in
the tick that the search for an empty way starts from. -/
theorem full_set_panics : ∃ pFTL, smallDevice 4 = .ok pFTL ∧
    run .wayless .ticking (smallPort 4) (.init pFTL) [(0, .write (.line 1))] =
      .error (.panic "write" "Cache corrupted!") ∧
    run .small (.constant (2 ^ 64 - 1)) (smallPort 4) (.init pFTL)
      [(0, .write (.line 1)), (0, .write (.line 2)), (0, .write (.line 3))] =
      .error (.panic "write" "Cache corrupted!") := by
  obtain ⟨pFTL, hinit, hway, htick⟩ := Except.exists_of_map (x := smallDevice 4)
    (p := fun pFTL =>
      (run .wayless .ticking (smallPort 4) (.init pFTL) [(0, .write (.line 1))]).map (fun _ => ()) =
        .error (.panic "write" "Cache corrupted!") ∧
      (run .small (.constant (2 ^ 64 - 1)) (smallPort 4) (.init pFTL)
        [(0, .write (.line 1)), (0, .write (.line 2)), (0, .write (.line 3))]).map (fun _ => ()) =
        .error (.panic "write" "Cache corrupted!"))
    (by decide +kernel)
  exact ⟨pFTL, hinit, Except.map_eq_error.mp hway, Except.map_eq_error.mp htick⟩

end SimpleSSD.ICL
