import SimpleSSD.FTL.FreeList

/-!
# The sampling loop of the random policies (page_mapping.cc:845–862)

`POLICY_RANDOM` and `POLICY_DCHOICE` draw entries of `weight` until `randomRange` of them are
selected, and draw again when an entry has been selected before. The range comes from the
configuration, the entries are the blocks that are programmed to their last page, and under
`pageAwareofCache` there are none: `weight` stays empty. The loop ends if and only if there are as
many entries as it wants.
-/

namespace SimpleSSD.FTL

namespace BlockPool

/-- The blocks of a pool that a run meets are those of the device. -/
theorem Reachable.partitioned {cfg : Config} {env : Env} {p : BlockPool}
    (h : Reachable cfg env p) : p.Partitioned cfg := by
  have hinv := partitioned_invariant cfg env
  induction h with
  | init h => exact (init_sat cfg env).of_ok h
  | access h hb ha ih => exact hinv.access ih hb ha
  | allocate h hr ih => exact (hinv.allocate ih trivial).of_ok hr
  | erase h he ih => exact (hinv.erase ih).of_ok he
  | select h ih => exact hinv.select ih

end BlockPool

namespace PageMapping

/-- An entry of `weight` with the block and its weight. -/
abbrev Weighed := Nat × Option Rat

/-- The entry does not carry the mark of a selected one. -/
def unselected (v : Weighed) : Bool := v.1 < 2 ^ 32 - 1

/-- The states of the loop after some draws: `weight` and `selected`. A draw of a selected entry
changes neither. -/
inductive Sampling (range : Nat) (weight : List Weighed) : List Weighed → List Weighed → Prop where
  | start : Sampling range weight weight []
  | select {w selected : List Weighed} {i : Nat} {v : Weighed}
    (h : Sampling range weight w selected)
      (hlt : selected.length < range) (hv : w[i]? = some v) (hnew : unselected v = true) :
      Sampling range weight (w.set i (2 ^ 32 - 1, v.2)) (selected ++ [v])

/-- Draws that hit every position of a list again and again. -/
def Recurrent (n : Nat) (draws : Nat → Nat) : Prop :=
  ∀ m, ∀ i < n, ∃ k, m ≤ k ∧ draws k % n = i

/-- The bound of the distribution does not underflow; while entries are missing, there is one that
is not selected; and the loop exits. -/
structure Terminates (range : Nat) (weight : List Weighed) : Prop where
  bound : 0 < weight.length
  progress : ∀ w selected, Sampling range weight w selected → selected.length < range →
    ∃ v ∈ w, unselected v = true
  exits : ∀ draws, Recurrent weight.length draws →
    ∃ n r, sampleVictims range ((List.range n).map draws) weight [] = .ok r

variable {cfg : Config} {env : Env} {s : PageMapping} {range : Nat}
    {weight w selected : List Weighed}

/-! ### One draw -/

/-- A draw of an entry that is not selected takes it out of those. -/
theorem filter_select {i : Nat} {v : Weighed} (hv : w[i]? = some v) (hnew : unselected v = true) :
    (v :: (w.set i (2 ^ 32 - 1, v.2)).filter unselected).Perm (w.filter unselected) := by
  have hmark : unselected (2 ^ 32 - 1, v.2) = false := by simp [unselected]
  induction w generalizing i with
  | nil => cases hv
  | cons u w ih =>
    cases i with
    | zero =>
      obtain rfl : u = v := Option.some.inj hv
      rw [List.set_cons_zero, List.filter_cons_of_neg (Bool.eq_false_iff.mp hmark),
        List.filter_cons_of_pos hnew]
    | succ i =>
      have hperm := ih (i := i) hv
      rw [List.set_cons_succ, List.filter_cons, List.filter_cons]
      split
      · exact (List.Perm.swap u v _).trans (hperm.cons u)
      · exact hperm

theorem countP_select {i : Nat} {v : Weighed} (hv : w[i]? = some v) (hnew : unselected v = true) :
    (w.set i (2 ^ 32 - 1, v.2)).countP unselected + 1 = w.countP unselected := by
  have hlen := (filter_select hv hnew).length_eq
  rwa [List.length_cons, ← List.countP_eq_length_filter, ← List.countP_eq_length_filter] at hlen

/-- The selected entries and those that are not make up the entries of the start. -/
theorem Sampling.perm (h : Sampling range weight w selected) :
    (selected ++ w.filter unselected).Perm (weight.filter unselected) := by
  induction h with
  | start => exact .refl _
  | @select w selected i v h hlt hv hnew ih =>
    rw [List.append_assoc]
    exact ((filter_select hv hnew).append_left selected).trans ih

theorem Sampling.spec (h : Sampling range weight w selected) :
    selected.length + w.countP unselected = weight.countP unselected := by
  have hlen := h.perm.length_eq
  rwa [List.length_append, ← List.countP_eq_length_filter, ← List.countP_eq_length_filter] at hlen

/-- As many entries can be selected as there are and the range wants. -/
theorem Sampling.exists {n : Nat} (hn : n ≤ weight.countP unselected) (hrange : n ≤ range) :
    ∃ w selected, Sampling range weight w selected ∧ selected.length = n := by
  induction n with
  | zero => exact ⟨weight, [], .start, rfl⟩
  | succ n ih =>
    obtain ⟨w, selected, h, hlen⟩ := ih (by omega) (by omega)
    have hspec := h.spec
    obtain ⟨v, hv, hnew⟩ := List.countP_pos_iff.mp (show 0 < w.countP unselected by omega)
    obtain ⟨i, hi⟩ := List.mem_iff_getElem?.mp hv
    refine ⟨_, _, h.select (by omega) hi hnew, ?_⟩
    rw [List.length_append, List.length_singleton, hlen]

/-! ### The loop -/

/-- The loop returns a selection of `range` entries. -/
theorem Sampling.of_ok {draws : List Nat} {r : List Weighed} (h : Sampling range weight w selected)
    (hlen : selected.length ≤ range) (hr : sampleVictims range draws w selected = .ok r) :
    r.length = range ∧ ∃ w', Sampling range weight w' r := by
  induction draws generalizing w selected with
  | nil =>
    rw [sampleVictims] at hr
    split at hr
    · next hle =>
      cases hr
      exact ⟨Nat.le_antisymm hlen hle, w, h⟩
    · cases hr
  | cons draw draws ih =>
    rw [sampleVictims] at hr
    split at hr
    · next hle =>
      cases hr
      exact ⟨Nat.le_antisymm hlen hle, w, h⟩
    · next hlt =>
      split at hr
      · cases hr
      · next v hv =>
        split at hr
        · next hnew =>
          refine ih (h.select (not_le.mp hlt) hv (decide_eq_true hnew)) ?_ hr
          rw [List.length_append, List.length_singleton]
          exact not_le.mp hlt
        · exact ih h hlen hr

/-- The loop exits when `k` more entries are wanted and there are at least as many: within the
draws from `m` on, one hits an entry that is not selected. -/
theorem sampleVictims_exits {draws : Nat → Nat} {n : Nat} (hdraws : Recurrent n draws) (k : Nat) :
    ∀ (m : Nat) (w selected : List Weighed), w.length = n → range ≤ selected.length + k →
      k ≤ w.countP unselected →
      ∃ j r, sampleVictims range ((List.range' m j).map draws) w selected = .ok r := by
  induction k with
  | zero =>
    intro m w selected _ hrange _
    refine ⟨0, selected, ?_⟩
    show sampleVictims range [] w selected = .ok selected
    rw [sampleVictims, if_pos (by omega)]
  | succ k ih =>
    intro m w selected hlen hrange hcount
    -- a draw that hits an entry that is not selected leaves `k` of them
    have hselect : ∀ m v, w[draws m % n]? = some v → unselected v = true →
        ∃ j r, sampleVictims range ((List.range' m j).map draws) w selected = .ok r := by
      intro m v hget hnew
      obtain ⟨j, r, hr⟩ := ih (m + 1) (w.set (draws m % n) (2 ^ 32 - 1, v.2)) (selected ++ [v])
        (by rw [List.length_set, hlen])
        (by rw [List.length_append, List.length_singleton]; omega)
        (by have := countP_select hget hnew; omega)
      refine ⟨j + 1, ?_⟩
      rw [List.range'_succ, List.map_cons, sampleVictims]
      split
      · exact ⟨_, rfl⟩
      · refine ⟨r, ?_⟩
        rw [hlen, hget]
        dsimp only
        rw [if_pos (of_decide_eq_true hnew)]
        exact hr
    obtain ⟨v, hv, hnew⟩ := List.countP_pos_iff.mp (show 0 < w.countP unselected by omega)
    obtain ⟨i, hi⟩ := List.mem_iff_getElem?.mp hv
    have hlt : i < n := hlen ▸ (List.getElem?_eq_some_iff.mp hi).1
    obtain ⟨t, hmt, ht⟩ := hdraws m i hlt
    -- the draws up to that of entry `i`
    induction hd : t - m generalizing m with
    | zero =>
      obtain rfl : t = m := by omega
      exact hselect t v (by rw [ht, hi]) hnew
    | succ d ihd =>
      by_cases hfirst : ∃ u, w[draws m % n]? = some u ∧ unselected u = true
      · -- another entry is selected before
        obtain ⟨u, hu, hunew⟩ := hfirst
        exact hselect m u hu hunew
      · obtain ⟨j, r, hr⟩ := ihd (m + 1) (by omega) (by omega)
        refine ⟨j + 1, ?_⟩
        rw [List.range'_succ, List.map_cons, sampleVictims]
        split
        · exact ⟨_, rfl⟩
        · refine ⟨r, ?_⟩
          have hin : draws m % n < w.length := by
            rw [hlen]
            exact Nat.mod_lt _ (Nat.zero_lt_of_lt hlt)
          have hget : w[draws m % n]? = some (w.get ⟨draws m % n, hin⟩) :=
            List.getElem?_eq_getElem hin
          rw [hlen, hget]
          dsimp only
          rw [if_neg fun hu => hfirst ⟨_, hget, decide_eq_true hu⟩]
          exact hr

/-- The loop terminates if and only if there is an entry, and there are as many as it wants. -/
theorem terminates_iff (hweight : ∀ v ∈ weight, unselected v = true) :
    Terminates range weight ↔ 0 < weight.length ∧ range ≤ weight.length := by
  have hcount : weight.countP unselected = weight.length :=
    List.countP_eq_length.mpr hweight
  constructor
  · intro h
    refine ⟨h.bound, ?_⟩
    by_contra hshort
    -- all entries get selected, and more are wanted
    have hall : ∃ w selected, Sampling range weight w selected ∧
        selected.length = weight.length := Sampling.exists (by omega) (by omega)
    obtain ⟨w, selected, hsampling, hlen⟩ := hall
    obtain ⟨v, hv, hnew⟩ := h.progress w selected hsampling (by omega)
    have hpos : 0 < w.countP unselected := List.countP_pos_iff.mpr ⟨v, hv, hnew⟩
    have hspec := hsampling.spec
    omega
  · rintro ⟨hpos, hrange⟩
    refine ⟨hpos, fun w selected hsampling hlt => ?_, fun draws hdraws => ?_⟩
    · have hspec := hsampling.spec
      exact List.countP_pos_iff.mp (show 0 < w.countP unselected by omega)
    · have hexits : ∃ j r,
          sampleVictims range ((List.range' 0 j).map draws) weight [] = .ok r :=
        sampleVictims_exits hdraws weight.length 0 weight [] rfl (by simpa using hrange) (by omega)
      obtain ⟨j, r, hr⟩ := hexits
      refine ⟨j, r, ?_⟩
      rw [List.range_eq_range']
      exact hr

/-- No draws make the loop return more entries than there are. -/
theorem sampleVictims_short (hrange : weight.countP unselected < range) (draws : List Nat)
    (r : List Weighed) : sampleVictims range draws weight [] ≠ .ok r := by
  intro hr
  obtain ⟨hlen, w', hw'⟩ := (@Sampling.start range weight).of_ok (Nat.zero_le _) hr
  have hspec := hw'.spec
  omega

/-! ### The entries -/

/-- Under these policies `weight` has the full blocks, or stays empty if the cache is looked at. -/
theorem victimWeight_eq (hpolicy : cfg.evictPolicy = .random ∨ cfg.evictPolicy = .dChoice) :
    ∃ weight, s.victimWeight cfg env = .ok weight ∧
      weight.map Prod.fst =
        if cfg.pageAwareofCache = true then [] else (s.fullBlocks cfg).map Prod.fst := by
  have hcached : cfg.evictPolicy ≠ .cachedGC := by
    rcases hpolicy with h | h <;> rw [h] <;> decide
  have hby : byCache cfg ↔ cfg.pageAwareofCache = true := or_iff_right hcached
  rw [victimWeight]
  by_cases hcache : cfg.pageAwareofCache = true
  · rw [if_pos (hby.mpr hcache), if_pos hcache]
    exact ⟨[], rfl, rfl⟩
  · rw [if_neg fun h => hcache (hby.mp h), if_neg hcache, calculateVictimWeight]
    rcases hpolicy with h | h <;> rw [h] <;>
      exact ⟨_, rfl, by rw [List.map_map]; rfl⟩

/-- The ids of blocks are smaller than the mark. -/
theorem unselected_of_ids (hblocks : cfg.totalPhysicalBlocks < 2 ^ 32)
    (hs : s.pool.Partitioned cfg)
    (hids : ∀ k ∈ weight.map Prod.fst, k ∈ (s.fullBlocks cfg).map Prod.fst) :
    ∀ v ∈ weight, unselected v = true := by
  intro v hv
  obtain ⟨e, he, heq⟩ := List.mem_map.mp (hids v.1 (List.mem_map_of_mem hv))
  have hin : v.1 ∈ s.pool.blocks :=
    UnorderedMap.mem_iff.mpr ⟨e.2, heq ▸ (List.mem_filter.mp he).1⟩
  have hlt := hs.lt_of_mem hin
  exact decide_eq_true (by omega)

/-- Whenever a random policy selects victims from a pool of a run, for every number of blocks to
reclaim: the sampling loop terminates exactly when the cache is not looked at, some block is full,
and there are as many full blocks as the loop wants. -/
theorem sampling_terminates_iff
    (hpolicy : cfg.evictPolicy = .random ∨ cfg.evictPolicy = .dChoice)
    (hblocks : cfg.totalPhysicalBlocks < 2 ^ 32) (hs : s.pool.Reachable cfg env) (nBlocks : Nat) :
    ∃ weight, s.victimWeight cfg env = .ok weight ∧
      s.sampleWeight cfg env nBlocks weight =
        sampleVictims (randomRange cfg nBlocks) (env.draws s.trace) weight [] ∧
      (Terminates (randomRange cfg nBlocks) weight ↔ cfg.pageAwareofCache = false ∧
        0 < (s.fullBlocks cfg).length ∧
          randomRange cfg nBlocks ≤ (s.fullBlocks cfg).length) := by
  obtain ⟨weight, hweight, hids⟩ := @victimWeight_eq cfg env s hpolicy
  refine ⟨weight, hweight, if_pos hpolicy, ?_⟩
  have hlen := congrArg List.length hids
  rw [List.length_map] at hlen
  have hfresh : ∀ v ∈ weight, unselected v = true := by
    refine unselected_of_ids hblocks hs.partitioned fun k hk => ?_
    rw [hids] at hk
    split at hk
    · cases hk
    · exact hk
  rw [terminates_iff hfresh, hlen]
  cases hcache : cfg.pageAwareofCache with
  | true => simp
  | false => simp

/-- Three blocks whose victims are sampled at random. -/
def randomBlocks : Config := { Config.small 3 with evictPolicy := .random }

/-- Two writes of one page fill a block. -/
def twoWrites : List (World × Op) := calls (.replicate 2 (.write (.page 0)))

theorem twoWrites_full : ∃ s₀ s, PageMapping.start randomBlocks .zero none = .ok s₀ ∧
    run randomBlocks .zero s₀ twoWrites = .ok s ∧ (s.fullBlocks randomBlocks).length = 1 := by
  obtain ⟨s₀, hstart, hrun⟩ := Except.exists_of_map
    (x := PageMapping.start randomBlocks .zero none)
    (p := fun s₀ => (run randomBlocks .zero s₀ twoWrites).map
      (fun s => decide ((s.fullBlocks randomBlocks).length = 1)) = .ok true)
    (by decide +kernel)
  obtain ⟨s, hs, hfull⟩ := Except.exists_of_map hrun
  exact ⟨s₀, s, hstart, hs, hfull⟩

/-- The block can be sampled. -/
theorem sampling_terminates_one :
    ∃ s₀ s weight, PageMapping.start randomBlocks .zero none = .ok s₀ ∧
    run randomBlocks .zero s₀ twoWrites = .ok s ∧ s.victimWeight randomBlocks .zero = .ok weight ∧
    Terminates 1 weight := by
  obtain ⟨s₀, s, hstart, hs, hfull⟩ := twoWrites_full
  obtain ⟨weight, hweight, -, hiff⟩ := @sampling_terminates_iff randomBlocks _ _ (.inl rfl)
    (by decide) (BlockPool.run_reachable hstart hs) 1
  refine ⟨s₀, s, weight, hstart, hs, hweight, hiff.mpr ⟨rfl, ?_, ?_⟩⟩
  · rw [hfull]
    exact one_pos
  · rw [hfull]
    exact le_rfl

/-- Three blocks that are collected when fewer than half are free, with two choices for a victim. -/
def twoChoices : Config :=
  { Config.small 3 with evictPolicy := .dChoice, dChoiceParam := 2, gcThreshold := 1 / 2 }

/-- The third write takes the second block while the first is the only one that is full: the
collection wants a sample of two, and whatever it draws, never has one. -/
theorem sampling_one_of_two : ∃ s₀ s s' weight, PageMapping.start twoChoices .zero none = .ok s₀ ∧
    run twoChoices .zero s₀ (calls [.write (.page 0), .write (.page 1)]) = .ok s ∧
    s.programPage twoChoices .zero .zero (.page 2) true = .ok s' ∧
    s'.pool.freeBlockRatio twoChoices < twoChoices.gcThreshold ∧
    s'.victimWeight twoChoices .zero = .ok weight ∧
    ¬ Terminates (randomRange twoChoices twoChoices.reclaimBlock) weight ∧
    ∀ draws r, sampleVictims (randomRange twoChoices twoChoices.reclaimBlock) draws weight [] ≠
      .ok r := by
  obtain ⟨s₀, hstart, hrun⟩ := Except.exists_of_map
    (x := PageMapping.start twoChoices .zero none)
    (p := fun s₀ => (run twoChoices .zero s₀ (calls [.write (.page 0), .write (.page 1)])).map
      (fun s => decide ((s.programPage twoChoices .zero .zero (.page 2) true).map
        (fun s' => decide (s'.pool.freeBlockRatio twoChoices < twoChoices.gcThreshold ∧
          (s'.victimWeight twoChoices .zero).map (fun weight => decide (weight = [(0, some 2)])) =
            .ok true)) = .ok true)) = .ok true)
    (by decide +kernel)
  obtain ⟨s, hs, hprogram⟩ := Except.exists_of_map hrun
  obtain ⟨s', hs', hratio, hselect⟩ := Except.exists_of_map hprogram
  obtain ⟨weight, hweight, rfl⟩ := Except.exists_of_map hselect
  refine ⟨s₀, s, s', _, hstart, hs, hs', hratio, hweight, ?_, ?_⟩
  · rw [terminates_iff (by decide)]
    decide
  · exact sampleVictims_short (by decide)

end PageMapping

end SimpleSSD.FTL
