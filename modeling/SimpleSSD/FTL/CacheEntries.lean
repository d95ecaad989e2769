import SimpleSSD.FTL.MappingCache

/-!
# The entries of the mapping caches

What the operations of the mapping caches do to the set of cached mappings:
evictions only remove entries, and a page that is loaded enters one of the two
tables (`Within.load`). `Within N` says that every cached mapping satisfies `N`;
the shadow table counts when the dead-on-arrival predictor is on, since nothing
looks at it otherwise.
-/

namespace SimpleSSD.FTL

namespace MappingCache

/-- Every cached mapping satisfies `N`. -/
structure Within (cfg : Config) (N : Nat → Nat × Nat → Prop) (c : MappingCache) : Prop where
  cmt : ∀ l e, c.cmt.find? l = some e → N l e.page
  shadow : cfg.useDeadOnArrivalPredictor = true →
    ∀ l e, c.shadowwCache.find? l = some e → N l e.page

/-- No cached mapping is one of page `l`. -/
def Absent (cfg : Config) (c : MappingCache) (l : Nat) : Prop :=
  l ∉ c.cmt ∧ (cfg.useDeadOnArrivalPredictor = true → l ∉ c.shadowwCache)

instance (cfg : Config) (c : MappingCache) (l : Nat) : Decidable (c.Absent cfg l) :=
  inferInstanceAs (Decidable (_ ∧ _))

/-- Entries are only removed. -/
structure Shrinks (c c' : MappingCache) : Prop where
  cmt : ∀ l e, c'.cmt.find? l = some e → c.cmt.find? l = some e
  shadow : ∀ l e, c'.shadowwCache.find? l = some e → c.shadowwCache.find? l = some e

section Evict

variable {cfg : Config} {c c' c'' : MappingCache}

theorem Shrinks.refl (c : MappingCache) : c.Shrinks c := ⟨fun _ _ h => h, fun _ _ h => h⟩

theorem Shrinks.trans (h : c.Shrinks c') (h' : c'.Shrinks c'') : c.Shrinks c'' :=
  ⟨fun l e he => h.cmt l e (h'.cmt l e he), fun l e he => h.shadow l e (h'.shadow l e he)⟩

/-- Removing one entry of a map. -/
theorem find?_of_erase {V : Type*} {m : UnorderedMap Nat V} {k l : Nat} {v : V}
    (h : (m.erase k).find? l = some v) : m.find? l = some v := by
  rw [UnorderedMap.find?_erase] at h
  split at h
  · cases h
  · exact h

theorem evictFromShadowCache_shrinks : c.Shrinks (c.evictFromShadowCache cfg) := by
  rw [evictFromShadowCache]
  split
  · simp only
    split
    · exact ⟨fun _ _ h => h, fun _ _ h => find?_of_erase h⟩
    · exact .refl c
  · exact .refl c

theorem evictEntryFromCMT_shrinks : c.Shrinks (c.evictEntryFromCMT cfg) := by
  rw [evictEntryFromCMT]
  split
  · simp only
    split
    · exact ⟨fun _ _ h => find?_of_erase h, fun _ _ h => h⟩
    · exact .refl c
  · exact .refl c

theorem optimalRepalcementPolicy_shrinks {iclCount : Nat} :
    c.Shrinks (c.optimalRepalcementPolicy cfg iclCount) := by
  rw [optimalRepalcementPolicy]
  split
  · simp only
    -- the entries dropped one after the other
    have hloop : ∀ (entries : List Nat) (count : Nat) (c : MappingCache),
        c.Shrinks (entries.foldl (fun c entry =>
          { c with
            evictedCmtEntries := c.evictedCmtEntries.set 0 entry count
            cmt := c.cmt.erase entry }) c) := by
      intro entries count
      induction entries with
      | nil => exact Shrinks.refl
      | cons entry entries ih =>
        intro c
        rw [List.foldl_cons]
        refine Shrinks.trans ?_ (ih _)
        exact ⟨fun _ _ h => find?_of_erase h, fun _ _ h => h⟩
    refine Shrinks.trans ?_ (hloop _ _ _)
    exact ⟨fun _ _ h => h, fun _ _ h => h⟩
  · exact .refl c

theorem clearPrediction_shrinks {l : Nat} : c.Shrinks (c.clearPrediction l) := by
  rw [clearPrediction]
  split
  · exact ⟨fun _ _ h => h, fun _ _ h => h⟩
  · exact .refl c

end Evict

section Within

variable {cfg : Config} {env : Env} {N N' : Nat → Nat × Nat → Prop} {c c' : MappingCache}
  {l : Nat} {page : Nat × Nat} {tick : Nat} {count : Option Nat}

theorem within_empty : (init env).Within cfg N := by
  constructor
  · rintro l e ⟨⟩
  · rintro - l e ⟨⟩

theorem Within.shrinks (hc : c.Within cfg N) (h : c.Shrinks c') : c'.Within cfg N :=
  ⟨fun l e he => hc.cmt l e (h.cmt l e he),
    fun hpred l e he => hc.shadow hpred l e (h.shadow l e he)⟩

/-- The property may change for pages that are not cached. -/
theorem Within.mono (hc : c.Within cfg N)
    (hN : ∀ l page, ¬ c.Absent cfg l → N l page → N' l page) : c.Within cfg N' := by
  constructor
  · intro l e he
    exact hN l _ (fun habsent => habsent.1 (UnorderedMap.mem_of_find? he)) (hc.cmt l e he)
  · intro hpred l e he
    exact hN l _ (fun habsent => habsent.2 hpred (UnorderedMap.mem_of_find? he))
      (hc.shadow hpred l e he)

theorem find?_setCmt (env : Env) (c : MappingCache) (l : Nat) (page : Nat × Nat) (tick : Nat)
    (count : Option Nat) (k : Nat) : ∃ e, e.page = page ∧
    (c.setCmt env l page tick count).cmt.find? k = if k = l then some e else c.cmt.find? k :=
  ⟨_, rfl, UnorderedMap.find?_set ..⟩

theorem find?_setShadow (env : Env) (c : MappingCache) (l : Nat) (page : Nat × Nat) (tick : Nat)
    (k : Nat) : ∃ e, e.page = page ∧
    (c.setShadow env l page tick).shadowwCache.find? k =
      if k = l then some e else c.shadowwCache.find? k :=
  ⟨_, rfl, UnorderedMap.find?_set ..⟩

/-- The two tables after a page has entered one of them. The table that it did
not enter must not have kept another mapping of the page. -/
theorem Within.load {iclCount : Nat} {dead : Bool} (hc : c.Within cfg N)
    (hother : ∀ k p, k ≠ l → N k p → N' k p) (hpage : N' l page)
    (hcmt : (dead || c.deadOnArrival cfg l) = true →
      ∀ e, c.cmt.find? l = some e → N' l e.page)
    (hshadow : (dead || c.deadOnArrival cfg l) = false → cfg.useDeadOnArrivalPredictor = true →
      ∀ e, c.shadowwCache.find? l = some e → N' l e.page) :
    (c.load cfg env iclCount l page tick count dead).2.Within cfg N' := by
  rw [MappingCache.load]
  split
  · next hdead =>
    have hshrinks : c.Shrinks (c.evictFromShadowCache cfg) := evictFromShadowCache_shrinks
    constructor
    · intro k e he
      have he := hshrinks.cmt k e he
      by_cases hk : k = l
      · rw [hk] at he ⊢
        exact hcmt hdead e he
      · exact hother k _ hk (hc.cmt k e he)
    · intro hpred k e he
      obtain ⟨e', hpage', hfind⟩ :=
        find?_setShadow env (c.evictFromShadowCache cfg) l page tick k
      rw [hfind] at he
      split at he
      · next hk =>
        cases he
        rw [hk, hpage']
        exact hpage
      · next hk => exact hother k _ hk (hc.shadow hpred k e (hshrinks.shadow k e he))
  · next hdead =>
    simp only [Bool.not_eq_true] at hdead
    simp only
    have hshrinks : ∀ c' : MappingCache, c' = (if cfg.optimalreplacementPolicy
        then c.optimalRepalcementPolicy cfg iclCount else c.evictEntryFromCMT cfg) →
        c.Shrinks c' := by
      rintro c' rfl
      split
      · exact optimalRepalcementPolicy_shrinks
      · exact evictEntryFromCMT_shrinks
    generalize hc' : (if cfg.optimalreplacementPolicy then c.optimalRepalcementPolicy cfg iclCount
      else c.evictEntryFromCMT cfg) = c'
    have hshrinks := hshrinks c' hc'.symm
    constructor
    · intro k e he
      obtain ⟨e', hpage', hfind⟩ := find?_setCmt env c' l page tick count k
      rw [hfind] at he
      split at he
      · next hk =>
        cases he
        rw [hk, hpage']
        exact hpage
      · next hk => exact hother k _ hk (hc.cmt k e (hshrinks.cmt k e he))
    · intro hpred k e he
      have he := hshrinks.shadow k e he
      by_cases hk : k = l
      · rw [hk] at he ⊢
        exact hshadow hdead hpred e he
      · exact hother k _ hk (hc.shadow hpred k e he)

/-- A page that is loaded with a mapping in `N`. -/
theorem Within.load_same {iclCount : Nat} {dead : Bool} (hc : c.Within cfg N) (hpage : N l page) :
    (c.load cfg env iclCount l page tick count dead).2.Within cfg N :=
  hc.load (fun _ _ _ h => h) hpage (fun _ e he => hc.cmt l e he)
    fun _ hpred e he => hc.shadow hpred l e he

theorem Within.promote {e : ShadowCacheEntry} (hc : c.Within cfg N) (hpage : N l e.page) :
    (c.promote cfg env l e tick).Within cfg N := by
  have hevict : (c.clearPrediction l).Shrinks ((c.clearPrediction l).evictEntryFromCMT cfg) :=
    evictEntryFromCMT_shrinks
  have hc' := hc.shrinks (clearPrediction_shrinks.trans hevict)
  refine ⟨fun k e' he => ?_, hc'.shadow⟩
  obtain ⟨e'', hpage', hfind⟩ :=
    find?_setCmt env ((c.clearPrediction l).evictEntryFromCMT cfg) l e.page tick (some 1) k
  rw [MappingCache.promote, hfind] at he
  split at he
  · next hk =>
    cases he
    rw [hk, hpage']
    exact hpage
  · exact hc'.cmt k e' he

/-- A relocated page keeps a right mapping in `cmt`; in the shadow table it must
not be cached. -/
theorem Within.relocate (hc : c.Within cfg N) (hother : ∀ k p, k ≠ l → N k p → N' k p)
    (hpage : N' l page) (hshadow : cfg.useDeadOnArrivalPredictor = true → l ∉ c.shadowwCache) :
    (c.relocate l page).Within cfg N' := by
  have hcmt : ∀ k e, (c.relocate l page).cmt.find? k = some e → N' k e.page := by
    intro k e he
    rw [MappingCache.relocate] at he
    split at he
    · simp only [UnorderedMap.find?_set] at he
      split at he
      · next hk =>
        cases he
        rw [hk]
        exact hpage
      · next hk => exact hother k _ hk (hc.cmt k e he)
    · next hmiss =>
      refine hother k _ ?_ (hc.cmt k e he)
      rintro rfl
      rw [hmiss] at he
      cases he
  refine ⟨hcmt, fun hpred k e he => ?_⟩
  have hfind : c.shadowwCache.find? k = some e := by
    rw [MappingCache.relocate] at he
    split at he <;> exact he
  refine hother k _ ?_ (hc.shadow hpred k e hfind)
  rintro rfl
  exact hshadow hpred (UnorderedMap.mem_of_find? hfind)

end Within

end MappingCache

end SimpleSSD.FTL
