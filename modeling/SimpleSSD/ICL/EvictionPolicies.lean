import Mathlib.Data.Prod.Lex
import SimpleSSD.ICL.Steps
import SimpleSSD.Lib.FirstMin

/-!
# The eviction policies (icl/generic_cache.cc:126–327)

Each policy is written twice: `evictFunction` scans the ways of a set for a read, and
`compareFunction` compares two lines, which a write folds over the ways. `EvictPolicy.rank` is
the order that both are meant to follow.

They agree for FIFO, LRU and LFU. The scan of the policy that prefers clean lines stops at
the first clean line, where the comparison goes on to the one that was used least recently.
-/

namespace SimpleSSD.ICL

/-- What a policy orders lines by; the line of least rank goes first. -/
def EvictPolicy.rank : EvictPolicy → Line → Nat ×ₗ Nat
  | .random, _ => toLex (0, 0)
  | .fifo, line => toLex (line.insertedAt, 0)
  | .leastRecentlyUsed, line => toLex (line.lastAccessed, 0)
  | .lruClean, line => toLex (line.dirty.toNat, line.lastAccessed)
  | .lfu, line => toLex (line.accessCount, line.lastAccessed)

namespace GenericCache

variable {F : Type} {cfg : Config} {env : Env} {s : GenericCache F} {setIdx : Nat}

/-- A full set of lines with 64-bit keys, each of which tells the lines apart. -/
structure FullSet (cfg : Config) (s : GenericCache F) (setIdx : Nat) : Prop where
  valid : ∀ way < cfg.waySize, (s.cacheData (setIdx, way)).valid = true
  words : ∀ way < cfg.waySize, (s.cacheData (setIdx, way)).insertedAt < 2 ^ 64 ∧
    (s.cacheData (setIdx, way)).lastAccessed < 2 ^ 64 ∧
    (s.cacheData (setIdx, way)).accessCount < 2 ^ 64
  distinct : ∀ way < cfg.waySize, ∀ way' < cfg.waySize, way ≠ way' →
    (s.cacheData (setIdx, way)).insertedAt ≠ (s.cacheData (setIdx, way')).insertedAt ∧
    (s.cacheData (setIdx, way)).lastAccessed ≠ (s.cacheData (setIdx, way')).lastAccessed ∧
    (s.cacheData (setIdx, way)).accessCount ≠ (s.cacheData (setIdx, way')).accessCount

/-- The way is one of the set, and no line of the set has a lower rank. -/
def LeastWay (cfg : Config) (s : GenericCache F) (setIdx way : Nat) : Prop :=
  way < cfg.waySize ∧ ∀ way' < cfg.waySize,
    cfg.policy.rank (s.cacheData (setIdx, way)) ≤ cfg.policy.rank (s.cacheData (setIdx, way'))

/-- The scan and the fold name the same line, which is the least of the set. -/
structure PoliciesAgree (cfg : Config) (env : Env) (s : GenericCache F) (setIdx : Nat) : Prop where
  agree : s.pLineToFlush cfg env setIdx = some (setIdx, s.evictFunction cfg env setIdx)
  least : LeastWay cfg s setIdx (s.evictFunction cfg env setIdx)

/-- The first clean way of the set. -/
def firstClean (cfg : Config) (s : GenericCache F) (setIdx : Nat) : Option Nat :=
  (List.range cfg.waySize).find? fun way => !(s.cacheData (setIdx, way)).dirty

/-- The first clean line is the one that was used least recently of the clean ones. -/
def FirstCleanIsOldest (cfg : Config) (s : GenericCache F) (setIdx : Nat) : Prop :=
  ∀ way ∈ firstClean cfg s setIdx, ∀ way' < cfg.waySize,
    (s.cacheData (setIdx, way')).dirty = false →
      (s.cacheData (setIdx, way)).lastAccessed ≤ (s.cacheData (setIdx, way')).lastAccessed

/-! ### The comparison -/

theorem evictsFirst_iff (hpolicy : cfg.policy ≠ .random) {place : List Nat} {a b : Line} :
    evictsFirst cfg env place a b = true ↔ cfg.policy.rank a < cfg.policy.rank b := by
  unfold evictsFirst EvictPolicy.rank
  cases h : cfg.policy with
  | random => exact absurd h hpolicy
  | fifo => simp [Prod.Lex.toLex_lt_toLex]
  | leastRecentlyUsed => simp [Prod.Lex.toLex_lt_toLex]
  | lruClean =>
    rw [Prod.Lex.toLex_lt_toLex]
    cases a.dirty <;> cases b.dirty <;> simp
  | lfu =>
    rw [Prod.Lex.toLex_lt_toLex]
    by_cases heq : a.accessCount = b.accessCount
    · simp [heq]
    · simp [heq]

/-- Folding the comparison over the ways of a full set finds a least line. -/
theorem pLineToFlush_spec (env : Env) (hpolicy : cfg.policy ≠ .random)
    (hvalid : ∀ way < cfg.waySize, (s.cacheData (setIdx, way)).valid = true)
    (hpos : 0 < cfg.waySize) :
    ∃ way, s.pLineToFlush cfg env setIdx = some (setIdx, way) ∧ LeastWay cfg s setIdx way := by
  have hfold : ∀ n ≤ cfg.waySize, ∀ step : Option (Nat × Nat) → Nat → Option (Nat × Nat),
      (∀ best, ∀ way < cfg.waySize, step best way =
        s.compareFunction cfg env [s.clock, 2, way] best (some (setIdx, way))) →
      (n = 0 ∧ (List.range n).foldl step none = none) ∨
        ∃ way < n, (List.range n).foldl step none = some (setIdx, way) ∧ ∀ way' < n,
          cfg.policy.rank (s.cacheData (setIdx, way)) ≤
            cfg.policy.rank (s.cacheData (setIdx, way')) := by
    intro n hn step hstep
    induction n with
    | zero => exact .inl ⟨rfl, rfl⟩
    | succ n ih =>
      right
      rw [List.range_succ, List.foldl_append, List.foldl_cons, List.foldl_nil, hstep _ n hn]
      rcases ih (by omega) with ⟨rfl, hnone⟩ | ⟨way, hlt, hsome, hle⟩
      · refine ⟨0, Nat.one_pos, by rw [hnone]; rfl, fun way' hway' => ?_⟩
        obtain rfl : way' = 0 := by omega
        exact le_rfl
      · rw [hsome, compareFunction]
        split
        · next hfirst =>
          rw [evictsFirst_iff hpolicy] at hfirst
          refine ⟨way, by omega, rfl, fun way' hway' => ?_⟩
          rcases Nat.lt_succ_iff_lt_or_eq.mp hway' with hlt' | rfl
          · exact hle way' hlt'
          · exact hfirst.le
        · next hlast =>
          rw [evictsFirst_iff hpolicy, not_lt] at hlast
          refine ⟨n, Nat.lt_succ_self n, rfl, fun way' hway' => ?_⟩
          rcases Nat.lt_succ_iff_lt_or_eq.mp hway' with hlt' | rfl
          · exact hlast.trans (hle way' hlt')
          · exact le_rfl
  rcases hfold cfg.waySize le_rfl _ fun best way hway => if_pos (hvalid way hway) with
    ⟨hzero, -⟩ | ⟨way, hlt, hsome, hle⟩
  · omega
  · exact ⟨way, hsome, hlt, hle⟩

/-! ### The scans -/

/-- A scan for the least key, from a default that no key exceeds. -/
theorem scan_spec {β : Type*} [LinearOrder β] {n : Nat} (hpos : 0 < n) (key : Nat → β) (top : β)
    (htop : ∀ way < n, key way ≤ top) :
    (scanMin Prod.snd (0, top) ((List.range n).map fun way => (way, key way))).1 < n ∧
      ∀ way < n, key (scanMin Prod.snd (0, top)
        ((List.range n).map fun way => (way, key way))).1 ≤ key way := by
  rcases scanMin_cases Prod.snd (0, top) ((List.range n).map fun way => (way, key way)) with
    ⟨hinit, hle⟩ | ⟨hmin, -⟩
  · rw [hinit]
    refine ⟨hpos, fun way hway => (htop 0 hpos).trans ?_⟩
    exact hle (way, key way) (List.mem_map.mpr ⟨way, List.mem_range.mpr hway, rfl⟩)
  · obtain ⟨way, hway, heq⟩ := List.mem_map.mp hmin.mem
    have hle := hmin.le
    rw [← heq] at hle ⊢
    refine ⟨List.mem_range.mp hway, fun way' hway' => ?_⟩
    exact hle (way', key way') (List.mem_map.mpr ⟨way', List.mem_range.mpr hway', rfl⟩)

theorem minWay_spec (hpos : 0 < cfg.waySize) (key : Line → Nat)
    (hwords : ∀ way < cfg.waySize, key (s.cacheData (setIdx, way)) < 2 ^ 64) :
    s.minWay cfg key setIdx < cfg.waySize ∧ ∀ way < cfg.waySize,
      key (s.cacheData (setIdx, s.minWay cfg key setIdx)) ≤ key (s.cacheData (setIdx, way)) := by
  have hscan := scan_spec hpos (fun way => key (s.cacheData (setIdx, way))) (2 ^ 64 - 1)
    fun way hway => Nat.le_pred_of_lt (hwords way hway)
  rw [scanMin, List.foldl_map] at hscan
  exact hscan

theorem leastFrequentWay_spec (hpos : 0 < cfg.waySize) (hset : FullSet cfg s setIdx) :
    s.leastFrequentWay cfg setIdx < cfg.waySize ∧ ∀ way < cfg.waySize,
      EvictPolicy.lfu.rank (s.cacheData (setIdx, s.leastFrequentWay cfg setIdx)) ≤
        EvictPolicy.lfu.rank (s.cacheData (setIdx, way)) := by
  have hscan := scan_spec hpos (fun way => EvictPolicy.lfu.rank (s.cacheData (setIdx, way)))
    (toLex (2 ^ 64 - 1, 2 ^ 64 - 1)) fun way hway => by
      obtain ⟨-, hlast, hcount⟩ := hset.words way hway
      rw [EvictPolicy.rank, Prod.Lex.toLex_le_toLex]
      dsimp only
      omega
  -- the scan keeps the pair of the keys apart
  have hstep : s.leastFrequentWay cfg setIdx = (scanMin Prod.snd (0, toLex (2 ^ 64 - 1, 2 ^ 64 - 1))
      ((List.range cfg.waySize).map fun way =>
        (way, EvictPolicy.lfu.rank (s.cacheData (setIdx, way))))).1 := by
    rw [leastFrequentWay, scanMin, List.foldl_map]
    have hfold : ∀ (l : List Nat) (acc : Nat × Nat × Nat),
        l.foldl (fun (acc : Nat × Nat × Nat) way =>
          let line := s.cacheData (setIdx, way)
          if line.accessCount < acc.2.1 then (way, line.accessCount, line.lastAccessed)
          else if line.accessCount = acc.2.1 ∧ line.lastAccessed < acc.2.2 then
            (way, acc.2.1, line.lastAccessed)
          else acc) acc =
        l.foldl (fun (acc : Nat × (Nat ×ₗ Nat)) way =>
          if EvictPolicy.lfu.rank (s.cacheData (setIdx, way)) < acc.2 then
            (way, EvictPolicy.lfu.rank (s.cacheData (setIdx, way)))
          else acc) (acc.1, toLex acc.2) := by
      intro l
      induction l with
      | nil => exact fun acc => rfl
      | cons way l ih =>
        intro acc
        rw [List.foldl_cons, List.foldl_cons, ih]
        congr 1
        have hless : EvictPolicy.lfu.rank (s.cacheData (setIdx, way)) < toLex acc.2 ↔
            (s.cacheData (setIdx, way)).accessCount < acc.2.1 ∨
              (s.cacheData (setIdx, way)).accessCount = acc.2.1 ∧
                (s.cacheData (setIdx, way)).lastAccessed < acc.2.2 := Prod.Lex.toLex_lt_toLex
        dsimp only
        split
        · next hlt => rw [if_pos (hless.mpr (.inl hlt)), EvictPolicy.rank]
        · next hnot =>
          split
          · next heq => rw [if_pos (hless.mpr (.inr heq)), EvictPolicy.rank, heq.1]
          · next hne => rw [if_neg fun h => (hless.mp h).elim hnot hne]
    exact congrArg Prod.fst (hfold _ (0, 2 ^ 64 - 1, 2 ^ 64 - 1))
  rw [hstep]
  exact hscan

/-! ### Agreement -/

/-- The keys tell the ranks of a full set apart. -/
theorem FullSet.way_eq (hset : FullSet cfg s setIdx) (hpolicy : cfg.policy ≠ .random)
    {way way' : Nat} (hway : LeastWay cfg s setIdx way) (hway' : LeastWay cfg s setIdx way') :
    way = way' := by
  by_contra hne
  obtain ⟨hinserted, hlast, hcount⟩ := hset.distinct way hway.1 way' hway'.1 hne
  have heq : cfg.policy.rank (s.cacheData (setIdx, way)) =
      cfg.policy.rank (s.cacheData (setIdx, way')) :=
    le_antisymm (hway.2 way' hway'.1) (hway'.2 way hway.1)
  unfold EvictPolicy.rank at heq
  cases h : cfg.policy with
  | random => exact hpolicy h
  | fifo =>
    rw [h, toLex_inj, Prod.mk.injEq] at heq
    exact hinserted heq.1
  | leastRecentlyUsed =>
    rw [h, toLex_inj, Prod.mk.injEq] at heq
    exact hlast heq.1
  | lruClean =>
    rw [h, toLex_inj, Prod.mk.injEq] at heq
    exact hlast heq.2
  | lfu =>
    rw [h, toLex_inj, Prod.mk.injEq] at heq
    exact hcount heq.1

/-- The scan finds a least line, if the first clean line is the right one. -/
theorem evictFunction_least (env : Env) (hset : FullSet cfg s setIdx)
    (hpolicy : cfg.policy ≠ .random) (hpos : 0 < cfg.waySize)
    (hclean : cfg.policy = .lruClean → FirstCleanIsOldest cfg s setIdx) :
    LeastWay cfg s setIdx (s.evictFunction cfg env setIdx) := by
  have hsimple : ∀ {a b : Nat}, a ≤ b → toLex (a, 0) ≤ toLex (b, 0) := by
    intro a b hle
    rw [Prod.Lex.toLex_le_toLex]
    dsimp only
    omega
  rw [evictFunction, LeastWay]
  cases h : cfg.policy with
  | random => exact absurd h hpolicy
  | fifo =>
    obtain ⟨hlt, hle⟩ := minWay_spec hpos Line.insertedAt fun way hway =>
      (hset.words way hway).1
    exact ⟨hlt, fun way hway => hsimple (hle way hway)⟩
  | leastRecentlyUsed =>
    obtain ⟨hlt, hle⟩ := minWay_spec hpos Line.lastAccessed fun way hway =>
      (hset.words way hway).2.1
    exact ⟨hlt, fun way hway => hsimple (hle way hway)⟩
  | lruClean =>
    have holdest := hclean h
    rw [FirstCleanIsOldest, firstClean] at holdest
    dsimp only [EvictPolicy.rank]
    cases hfind : (List.range cfg.waySize).find? fun way => !(s.cacheData (setIdx, way)).dirty with
    | none =>
      -- all lines are dirty
      have hdirty : ∀ way < cfg.waySize, (s.cacheData (setIdx, way)).dirty = true := by
        intro way hway
        simpa using List.find?_eq_none.mp hfind way (List.mem_range.mpr hway)
      obtain ⟨hlt, hle⟩ := minWay_spec hpos Line.lastAccessed fun way hway =>
        (hset.words way hway).2.1
      rw [Option.getD_none]
      refine ⟨hlt, fun way hway => ?_⟩
      rw [hdirty _ hlt, hdirty way hway, Prod.Lex.toLex_le_toLex]
      exact .inr ⟨rfl, hle way hway⟩
    | some first =>
      have hfirst : (s.cacheData (setIdx, first)).dirty = false := by
        simpa using List.find?_some hfind
      rw [Option.getD_some]
      refine ⟨List.mem_range.mp (List.mem_of_find?_eq_some hfind), fun way hway => ?_⟩
      rw [hfirst, Prod.Lex.toLex_le_toLex]
      cases hd : (s.cacheData (setIdx, way)).dirty with
      | true => exact .inl Nat.one_pos
      | false => exact .inr ⟨rfl, holdest first hfind way hway hd⟩
  | lfu => exact leastFrequentWay_spec hpos hset

/-- On a full set with distinct keys the two agree for every deterministic policy but the one
that prefers clean lines, and for that one iff the first clean line is the oldest. -/
theorem policies_agree_iff (cfg : Config) (env : Env) (s : GenericCache F) (setIdx : Nat)
    (hpolicy : cfg.policy ≠ .random) (hset : FullSet cfg s setIdx) :
    PoliciesAgree cfg env s setIdx ↔
      0 < cfg.waySize ∧ (cfg.policy = .lruClean → FirstCleanIsOldest cfg s setIdx) := by
  constructor
  · rintro ⟨-, hlt, hleast⟩
    refine ⟨by omega, fun hclean first hfirst way hway hdirty => ?_⟩
    -- the scan returns the first clean line
    have hscan : s.evictFunction cfg env setIdx = first := by
      have hfind : ((List.range cfg.waySize).find? fun way =>
        !(s.cacheData (setIdx, way)).dirty) = some first := hfirst
      simp only [evictFunction, hclean, hfind, Option.getD_some]
    have hfirst : (s.cacheData (setIdx, first)).dirty = false := by
      simpa using List.find?_some hfirst
    have hle := hleast way hway
    rw [hscan, hclean, EvictPolicy.rank, EvictPolicy.rank, hfirst, hdirty,
      Prod.Lex.toLex_le_toLex] at hle
    dsimp only at hle
    omega
  · rintro ⟨hpos, hclean⟩
    have hscan := evictFunction_least env hset hpolicy hpos hclean
    obtain ⟨way, hfold, hway⟩ := pLineToFlush_spec env hpolicy hset.valid hpos
    refine ⟨?_, hscan⟩
    rw [hfold, hset.way_eq hpolicy hscan hway]

/-! ### Two reads in a cache of two lines -/

instance (cfg : Config) (s : GenericCache F) (setIdx : Nat) : Decidable (FullSet cfg s setIdx) :=
  decidable_of_iff ((∀ way < cfg.waySize, (s.cacheData (setIdx, way)).valid = true) ∧
      (∀ way < cfg.waySize, (s.cacheData (setIdx, way)).insertedAt < 2 ^ 64 ∧
        (s.cacheData (setIdx, way)).lastAccessed < 2 ^ 64 ∧
        (s.cacheData (setIdx, way)).accessCount < 2 ^ 64) ∧
      ∀ way < cfg.waySize, ∀ way' < cfg.waySize, way ≠ way' →
        (s.cacheData (setIdx, way)).insertedAt ≠ (s.cacheData (setIdx, way')).insertedAt ∧
        (s.cacheData (setIdx, way)).lastAccessed ≠ (s.cacheData (setIdx, way')).lastAccessed ∧
        (s.cacheData (setIdx, way)).accessCount ≠ (s.cacheData (setIdx, way')).accessCount)
    ⟨fun ⟨h₁, h₂, h₃⟩ => ⟨h₁, h₂, h₃⟩, fun ⟨h₁, h₂, h₃⟩ => ⟨h₁, h₂, h₃⟩⟩

/-- The small cache with another policy. -/
def smallWith (policy : EvictPolicy) : Config := { Config.small with policy := policy }

/-- Two pages are read, and the first again. -/
def readTwice (policy : EvictPolicy) (pFTL : FTL.PageMapping) :
    Except Fault (GenericCache FTL.PageMapping) :=
  run (smallWith policy) .ticking (smallPort 4) (.init pFTL)
    ([.read (.line 1), .read (.line 2), .read (.line 1)].map fun op => (0, op))

theorem policies_agree_lfu : ∃ pFTL s, smallDevice 4 = .ok pFTL ∧ readTwice .lfu pFTL = .ok s ∧
    (PoliciesAgree (smallWith .lfu) .ticking s 0 ↔ 0 < (smallWith .lfu).waySize ∧
      ((smallWith .lfu).policy = .lruClean → FirstCleanIsOldest (smallWith .lfu) s 0)) := by
  obtain ⟨pFTL, hinit, hrun⟩ := Except.exists_of_map (x := smallDevice 4)
    (p := fun pFTL => (readTwice .lfu pFTL).map (fun s =>
      decide (FullSet (smallWith .lfu) s 0)) = .ok true) (by decide +kernel)
  obtain ⟨s, hs, hset⟩ := Except.exists_of_map hrun
  exact ⟨pFTL, s, hinit, hs, policies_agree_iff _ _ s 0 (by decide) hset⟩

/-- Both lines are clean, and the first was used last. A read evicts it, a write the other. -/
theorem policies_disagree : ∃ pFTL s, smallDevice 4 = .ok pFTL ∧
    readTwice .lruClean pFTL = .ok s ∧ FullSet (smallWith .lruClean) s 0 ∧
    ¬ PoliciesAgree (smallWith .lruClean) .ticking s 0 := by
  obtain ⟨pFTL, hinit, hrun⟩ := Except.exists_of_map (x := smallDevice 4)
    (p := fun pFTL => (readTwice .lruClean pFTL).map (fun s =>
      decide (FullSet (smallWith .lruClean) s 0 ∧
        s.pLineToFlush (smallWith .lruClean) .ticking 0 = some (0, 1) ∧
        s.evictFunction (smallWith .lruClean) .ticking 0 = 0)) = .ok true) (by decide +kernel)
  obtain ⟨s, hs, hset, hfold, hscan⟩ := Except.exists_of_map hrun
  refine ⟨pFTL, s, hinit, hs, hset, fun h => ?_⟩
  have hagree := h.agree
  rw [hfold, hscan] at hagree
  cases hagree

end GenericCache

end SimpleSSD.ICL
