import SimpleSSD.ICL.Steps

/-!
# The tags of valid lines

Within a set no two valid lines have one tag, and a valid line is in the set
that `calcSetIndex` names for its tag. A read in progress breaks both for the
lines it has reserved, which are valid with an old tag; `Tagged` leaves them
out and says what they will be.

`writeVictimPagesToCache` goes straight for an empty way. It keeps the property
only when the cache holds no valid line of the LCA.
-/

namespace SimpleSSD.ICL

open GenericCache

variable {F : Type} {cfg : Config} {env : Env} {port : FTLPort F}

/-- Tags of valid lines are unique in their set and belong to it. -/
structure UniqueTags (cfg : Config) (s : GenericCache F) : Prop where
  unique (setIdx way way' : Nat) : (s.cacheData (setIdx, way)).valid = true →
    (s.cacheData (setIdx, way')).valid = true →
    (s.cacheData (setIdx, way)).tag = (s.cacheData (setIdx, way')).tag → way = way'
  in_set (setIdx way : Nat) : (s.cacheData (setIdx, way)).valid = true →
    cfg.calcSetIndex (s.cacheData (setIdx, way)).tag = setIdx

/-- The position is not reserved by the read in progress. -/
def Unreserved (R : List (Nat × Nat × Nat)) (pos : Nat × Nat) : Prop := ∀ entry ∈ R, entry.2 ≠ pos

instance (R : List (Nat × Nat × Nat)) (pos : Nat × Nat) : Decidable (Unreserved R pos) :=
  inferInstanceAs (Decidable (∀ entry ∈ R, _))

theorem unreserved_nil (pos : Nat × Nat) : Unreserved [] pos := by
  simp [Unreserved]

theorem Unreserved.of_append {R R' : List (Nat × Nat × Nat)} {pos : Nat × Nat}
    (h : Unreserved (R ++ R') pos) : Unreserved R pos :=
  fun entry hentry => h entry (List.mem_append_left R' hentry)

/-- The tags while the lines of `R` are reserved. -/
structure Tagged (cfg : Config) (R : List (Nat × Nat × Nat)) (s : GenericCache F) : Prop where
  within (pos : Nat × Nat) : (s.cacheData pos).valid = true → pos ∈ cfg.positions
  in_set (pos : Nat × Nat) : (s.cacheData pos).valid = true → Unreserved R pos →
    cfg.calcSetIndex (s.cacheData pos).tag = pos.1
  unique (pos pos' : Nat × Nat) : (s.cacheData pos).valid = true →
    (s.cacheData pos').valid = true → Unreserved R pos → Unreserved R pos' →
    (s.cacheData pos).tag = (s.cacheData pos').tag → pos = pos'
  /-- A reserved line lies in the set of its LCA, of which there is no line. -/
  pending (entry : Nat × Nat × Nat) : entry ∈ R → entry.2.1 = cfg.calcSetIndex entry.1 ∧
    entry.2 ∈ cfg.positions ∧ ∀ pos, (s.cacheData pos).valid = true → Unreserved R pos →
      (s.cacheData pos).tag ≠ entry.1
  nodup : (R.map Prod.fst).Nodup

namespace Tagged

variable {R : List (Nat × Nat × Nat)} {s s' : GenericCache F} {lca way : Nat} {pos : Nat × Nat}

theorem uniqueTags (h : Tagged cfg [] s) : UniqueTags cfg s where
  unique setIdx way way' hv hv' htag := by
    have heq := h.unique (setIdx, way) (setIdx, way') hv hv' (unreserved_nil _) (unreserved_nil _)
      htag
    cases heq
    rfl
  in_set setIdx way hv := h.in_set (setIdx, way) hv (unreserved_nil _)

theorem init (pFTL : F) : Tagged cfg [] (GenericCache.init pFTL) where
  within := by rintro _ ⟨⟩
  in_set := by rintro _ ⟨⟩
  unique := by rintro _ _ ⟨⟩
  pending := by rintro _ ⟨⟩
  nodup := List.nodup_nil

/-- Lines may lose validity. -/
theorem fewer (h : Tagged cfg R s) (hf : s.Fewer s') : Tagged cfg R s' where
  within pos hv := h.within pos (hf pos hv).1
  in_set pos hv hR := by
    rw [(hf pos hv).2]
    exact h.in_set pos (hf pos hv).1 hR
  unique pos pos' hv hv' hR hR' htag := by
    rw [(hf pos hv).2, (hf pos' hv').2] at htag
    exact h.unique pos pos' (hf pos hv).1 (hf pos' hv').1 hR hR' htag
  pending entry hentry := by
    obtain ⟨hset, hpos, htag⟩ := h.pending entry hentry
    refine ⟨hset, hpos, fun pos hv hR => ?_⟩
    rw [(hf pos hv).2]
    exact htag pos (hf pos hv).1 hR
  nodup := h.nodup

/-- Only the lines matter. -/
theorem congr (h : Tagged cfg R s) (hlines : s'.cacheData = s.cacheData) : Tagged cfg R s' :=
  h.fewer fun pos hv => by
    rw [hlines] at hv ⊢
    exact ⟨hv, rfl⟩

theorem log {e : Event} (h : Tagged cfg R s) : Tagged cfg R (s.log e) := h.congr rfl

/-- No valid line has the LCA as its tag when its set has none. -/
theorem tag_ne (h : Tagged cfg R s) (hnone : s.getValidWay cfg lca = none)
    (hv : (s.cacheData pos).valid = true) (hR : Unreserved R pos) :
    (s.cacheData pos).tag ≠ lca := by
  intro htag
  have hset := h.in_set pos hv hR
  obtain ⟨set, way⟩ := pos
  rw [htag] at hset
  subst hset
  have hway := (cfg.mem_positions.mp (h.within _ hv)).2
  exact getValidWay_eq_none.mp hnone way hway hv htag

/-- A line that is valid with the LCA as its tag is the one that is found. -/
theorem eq_of_tag (h : Tagged cfg [] s) (hway : s.getValidWay cfg lca = some way)
    (hv : (s.cacheData pos).valid = true) (htag : (s.cacheData pos).tag = lca) :
    pos = (cfg.calcSetIndex lca, way) := by
  obtain ⟨-, hv', htag'⟩ := getValidWay_eq_some hway
  exact h.unique _ _ hv hv' (unreserved_nil _) (unreserved_nil _) (htag.trans htag'.symm)

end Tagged

namespace Tagged

variable {R : List (Nat × Nat × Nat)} {s s' : GenericCache F} {lca way : Nat} {pos : Nat × Nat}

/-- A way may be reserved for an LCA that has no line and no reservation. -/
theorem announce (h : Tagged cfg R s) (hnone : s.getValidWay cfg lca = none)
    (hR : ∀ entry ∈ R, entry.1 ≠ lca) (hway : way < cfg.waySize) :
    Tagged cfg (R ++ [(lca, cfg.calcSetIndex lca, way)]) s where
  within := h.within
  in_set pos hv hun := h.in_set pos hv hun.of_append
  unique pos pos' hv hv' hun hun' heq :=
    h.unique pos pos' hv hv' hun.of_append hun'.of_append heq
  pending entry hentry := by
    rcases List.mem_append.mp hentry with hentry | hentry
    · obtain ⟨hset, hmem, htag⟩ := h.pending entry hentry
      exact ⟨hset, hmem, fun pos hv hun => htag pos hv hun.of_append⟩
    · cases List.mem_singleton.mp hentry
      exact ⟨rfl, cfg.mem_positions.mpr ⟨cfg.calcSetIndex_lt lca, hway⟩,
        fun pos hv hun => h.tag_ne hnone hv hun.of_append⟩
  nodup := by
    rw [List.map_append, List.nodup_append]
    refine ⟨h.nodup, List.nodup_singleton _, fun a ha b hb => ?_⟩
    obtain ⟨entry, hentry, rfl⟩ := List.mem_map.mp ha
    cases List.mem_singleton.mp hb
    exact hR entry hentry

/-- A reserved line may be anything. -/
theorem putReserved {line : Line} (h : Tagged cfg R s) (entry : Nat × Nat × Nat)
    (hentry : entry ∈ R) : Tagged cfg R (s.putLine entry.2 line) := by
  have hne : ∀ {pos}, Unreserved R pos → pos ≠ entry.2 := fun hun heq =>
    hun entry hentry heq.symm
  refine ⟨fun pos hv => ?_, fun pos hv hun => ?_, fun pos pos' hv hv' hun hun' heq => ?_,
    fun other hother => ?_, h.nodup⟩
  · by_cases hp : pos = entry.2
    · rw [hp]
      exact (h.pending entry hentry).2.1
    · rw [putLine_of_ne hp] at hv
      exact h.within pos hv
  · rw [putLine_of_ne (hne hun)] at hv ⊢
    exact h.in_set pos hv hun
  · rw [putLine_of_ne (hne hun)] at hv heq
    rw [putLine_of_ne (hne hun')] at hv' heq
    exact h.unique pos pos' hv hv' hun hun' heq
  · obtain ⟨hset, hmem, htag⟩ := h.pending other hother
    refine ⟨hset, hmem, fun pos hv hun => ?_⟩
    rw [putLine_of_ne (hne hun)] at hv ⊢
    exact htag pos hv hun

theorem reserve {line : Line} (h : Tagged cfg R s) (hnone : s.getValidWay cfg lca = none)
    (hR : ∀ entry ∈ R, entry.1 ≠ lca) (hway : way < cfg.waySize) :
    Tagged cfg (R ++ [(lca, cfg.calcSetIndex lca, way)])
      (s.putLine (cfg.calcSetIndex lca, way) line) :=
  (h.announce hnone hR hway).putReserved (lca, cfg.calcSetIndex lca, way) (by simp)

/-- The first reserved line may be filled: no other line has its LCA. -/
theorem load (h : Tagged cfg ((lca, pos) :: R) s) (line : Line) (htag : line.tag = lca) :
    Tagged cfg R (s.putLine pos line) := by
  obtain ⟨hset, hpos, hfree⟩ := h.pending (lca, pos) List.mem_cons_self
  have hun : ∀ {p}, p ≠ pos → Unreserved R p → Unreserved ((lca, pos) :: R) p := by
    intro p hp hR entry hentry
    rcases List.mem_cons.mp hentry with rfl | hentry
    · exact hp.symm
    · exact hR entry hentry
  have hother : ∀ p, p ≠ pos → Unreserved R p → ((s.putLine pos line).cacheData p).valid = true →
      ((s.putLine pos line).cacheData p).tag ≠ lca := by
    intro p hp hR hv
    rw [putLine_of_ne hp] at hv ⊢
    exact hfree p hv (hun hp hR)
  have hnodup := List.nodup_cons.mp h.nodup
  refine ⟨fun p hv => ?_, fun p hv hR => ?_, fun p p' hv hv' hR hR' heq => ?_,
    fun entry hentry => ?_, hnodup.2⟩
  · by_cases hp : p = pos
    · rw [hp]
      exact hpos
    · rw [putLine_of_ne hp] at hv
      exact h.within p hv
  · by_cases hp : p = pos
    · subst hp
      rw [putLine_self, htag]
      exact hset.symm
    · rw [putLine_of_ne hp] at hv ⊢
      exact h.in_set p hv (hun hp hR)
  · by_cases hp : p = pos <;> by_cases hp' : p' = pos
    · rw [hp, hp']
    · subst hp
      rw [putLine_self, htag] at heq
      exact absurd heq.symm (hother p' hp' hR' hv')
    · subst hp'
      rw [putLine_self, htag] at heq
      exact absurd heq (hother p hp hR hv)
    · rw [putLine_of_ne hp] at hv heq
      rw [putLine_of_ne hp'] at hv' heq
      exact h.unique p p' hv hv' (hun hp hR) (hun hp' hR') heq
  · obtain ⟨hset', hmem, hfree'⟩ := h.pending entry (List.mem_cons_of_mem _ hentry)
    refine ⟨hset', hmem, fun p hv hR => ?_⟩
    by_cases hp : p = pos
    · subst hp
      rw [putLine_self, htag]
      have hmem' : entry.1 ∈ R.map Prod.fst := List.mem_map_of_mem hentry
      intro heq
      rw [← heq] at hmem'
      exact hnodup.1 hmem'
    · rw [putLine_of_ne hp] at hv ⊢
      exact hfree' p hv (hun hp hR)

/-- A line may be put into a way for an LCA that has none. -/
theorem store {line : Line} (h : Tagged cfg [] s) (hnone : s.getValidWay cfg lca = none)
    (hway : way < cfg.waySize) (htag : line.tag = lca) :
    Tagged cfg [] (s.putLine (cfg.calcSetIndex lca, way) line) :=
  (h.announce hnone (by simp) hway).load line htag

end Tagged

/-! ### The invariant -/

/-- Garbage collection inserts only pages of which the cache holds no valid line. -/
def tagConditions (cfg : Config) : StepConditions F where
  insert req s := s.getValidWay cfg req.slpn = none
  evict _ _ _ := True
  flush _ _ _ := True

instance (cfg : Config) (req : Request) (s : GenericCache F) :
    Decidable ((tagConditions cfg).insert req s) := inferInstanceAs (Decidable (_ = _))

instance (cfg : Config) (R : List (Nat × Nat × Nat)) (pos : Nat × Nat) (s : GenericCache F) :
    Decidable ((tagConditions cfg).evict R pos s) := .isTrue trivial

instance (cfg : Config) (range : LPNRange) (acc : Bitset × GenericCache F) (pos : Nat × Nat) :
    Decidable ((tagConditions cfg).flush range acc pos) := .isTrue trivial

theorem Tagged.call {R : List (Nat × Nat × Nat)} {s : GenericCache F} {op : FTL.Op}
    (h : Tagged cfg R s) : (s.call cfg port op).All (Tagged cfg R) :=
  (call_fewer cfg port op s).mono fun _ hf => h.fewer hf

theorem Tagged.writeDirect {R : List (Nat × Nat × Nat)} {s : GenericCache F} {direct : Bool}
    {e : Event} {lca : Nat} (h : Tagged cfg R s) :
    (s.writeDirect cfg port direct e lca).All (Tagged cfg R) :=
  ((lasting_fewer cfg port s).writeDirect (.refl s)).mono fun _ hf => h.fewer hf

theorem Tagged.loadLine {R : List (Nat × Nat × Nat)} {s : GenericCache F} {lca : Nat}
    {pos : Nat × Nat} (h : Tagged cfg ((lca, pos) :: R) s) :
    (s.loadLine cfg env port (lca, pos)).All (Tagged cfg R) :=
  h.call.bind fun _ hs => (hs.load ⟨lca, _, _, _, true, 1⟩ rfl).log

/-- What the steps of the cache do to the tags. -/
theorem tagged_invariant : CacheInvariant cfg env port (tagConditions cfg) True (Tagged cfg)
    (fun _ => Tagged (F := F) cfg []) where
  count h := h.congr rfl
  detect h := h.congr rfl
  trigger h := h.congr rfl
  aim h := h.congr rfl
  touch h hv := h.fewer (fewer_putLine fun _ => ⟨hv, rfl⟩)
  evictLine h _ _ _ := (evictLine_all env port cfg _ _ _).mono fun _ hf => h.fewer hf.1
  reserve h hnone hR hway _ := h.reserve hnone hR hway
  load h := h.loadLine
  readThrough _ h := h.call
  store h hnone hway _ _ := (h.store hnone hway rfl).log
  insert h hnone hway _ := (h.store (hnone trivial) hway rfl).log
  insert_fresh _ h := h
  overwrite h hway := by
    refine (h.fewer (fewer_putLine fun _ => ⟨(getValidWay_eq_some hway).2.1, ?_⟩)).log
    rfl
  writeThrough _ h := h.writeDirect
  pass_miss h _ := h
  pass_hit h hway := by
    refine (h.fewer (fewer_putLine fun _ => ⟨(getValidWay_eq_some hway).2.1, ?_⟩)).log
    rfl
  writeUncached _ h := h.writeDirect
  rewrite h _ := h.writeDirect
  flushLine h _ _ _ := ((lasting_fewer cfg port _).flushLine (.refl _)).mono fun _ hf => h.fewer hf
  trim h := ((lasting_fewer cfg port _).trim (.refl _)).mono fun _ hf => h.fewer hf
  format h := ((lasting_fewer cfg port _).format (.refl _)).mono fun _ hf => h.fewer hf

/-- Tags stay unique in every run in which garbage collection inserts only pages
that the cache does not hold. -/
theorem tags_unique (cfg : Config) (env : Env) (port : FTLPort F) (pFTL : F)
    (calls : List (Nat × Op)) {s : GenericCache F}
    (hmeets : Run.Along (Op.exec cfg env port) (Op.Meets cfg env port (tagConditions cfg))
      (GenericCache.init pFTL) calls)
    (h : run cfg env port (GenericCache.init pFTL) calls = .ok s) : UniqueTags cfg s := by
  have hstart : Tagged cfg [] (GenericCache.init pFTL) ∧ (GenericCache.init pFTL).Cleared :=
    ⟨Tagged.init pFTL, fun _ => rfl⟩
  have hfinal := (tagged_invariant.run hstart hmeets).of_ok h
  exact hfinal.1.uniqueTags

/-- Three host writes to a cache of two lines, and an insertion. -/
theorem tags_unique_small : ∃ pFTL s, smallDevice 4 = .ok pFTL ∧
    smallRun 4 [.write (.line 1), .write (.line 2), .write (.line 3),
      .writeVictimPagesToCache (.line 1)] pFTL = .ok s ∧ UniqueTags .small s := by
  obtain ⟨pFTL, hinit, hmeets, hrun⟩ := Except.exists_of_map (x := smallDevice 4)
    (p := fun pFTL => Run.Along (Op.exec .small .ticking (smallPort 4))
        (Op.Meets .small .ticking (smallPort 4) (tagConditions .small)) (.init pFTL)
        ([.write (.line 1), .write (.line 2), .write (.line 3),
          .writeVictimPagesToCache (.line 1)].map fun op => (0, op)) ∧
      (smallRun 4 [.write (.line 1), .write (.line 2), .write (.line 3),
        .writeVictimPagesToCache (.line 1)] pFTL).map (fun _ => true) = .ok true)
    (by decide +kernel)
  obtain ⟨s, hs, -⟩ := Except.map_eq_ok.mp hrun
  exact ⟨pFTL, s, hinit, hs, tags_unique .small .ticking (smallPort 4) pFTL _ hmeets hs⟩

/-- A page inserted while the host's line of it is valid has two lines. -/
theorem tags_not_unique : ∃ pFTL s, smallDevice 4 = .ok pFTL ∧
    smallRun 4 [.write (.line 1), .writeVictimPagesToCache (.line 1)] pFTL = .ok s ∧
      ¬ UniqueTags .small s := by
  obtain ⟨pFTL, hinit, hrun⟩ := Except.exists_of_map (x := smallDevice 4)
    (p := fun pFTL =>
      (smallRun 4 [.write (.line 1), .writeVictimPagesToCache (.line 1)] pFTL).map (fun s =>
        decide ((s.cacheData (0, 0)).valid = true ∧ (s.cacheData (0, 1)).valid = true ∧
          (s.cacheData (0, 0)).tag = (s.cacheData (0, 1)).tag)) = .ok true)
    (by decide +kernel)
  obtain ⟨s, hs, hlines⟩ := Except.exists_of_map hrun
  refine ⟨pFTL, s, hinit, hs, fun hunique => ?_⟩
  have := hunique.unique 0 0 1 hlines.1 hlines.2.1 hlines.2.2
  cases this

end SimpleSSD.ICL
