import SimpleSSD.FTL.CacheCapacity

/-!
# The order in which `cmt` evicts

The scan for a victim compares the ticks in the entries. They follow the order of
the accesses when each request comes later than the ticks that the entries carry,
and when the local that stamps a mapping loaded from `table` has been set:
`readInternal` enters the mapping before it assigns `beginAt`.

A `Session` adds to the device when each page was last accessed. `EvictsOldest`
compares what a request evicts with that, and `run_evicts_oldest` proves it of
every request of a run whose requests are `Timely`.
-/

namespace SimpleSSD.FTL

namespace MappingCache

/-- The tick in the entry of page `l`. -/
def stamp (c : MappingCache) (l : Nat) : Option Nat :=
  (c.cmt.find? l).map MappingEntry.lastAccessedTime

/-- What a request for page `lpn` at `tick` makes of the stamps: none of the pages
that it evicts is newer than a page that stays. -/
structure Evicting (tick lpn : Nat) (c c' : MappingCache) : Prop where
  kept : ∀ l, l ≠ lpn → ∀ t, c'.stamp l = some t → c.stamp l = some t
  fresh : ∀ t, c'.stamp lpn = some t → tick ≤ t
  older : ∀ v, v ≠ lpn → ∀ t, c.stamp v = some t → c'.stamp v = none →
    ∀ r, r ≠ lpn → ∀ u, c'.stamp r = some u → t ≤ u
  stays : c.stamp lpn ≠ none → c'.stamp lpn ≠ none

section Evict

variable {cfg : Config} {env : Env} {iclCount tick lpn : Nat} {c c' c'' : MappingCache}

theorem stamp_ne_none {l : Nat} : c.stamp l ≠ none ↔ l ∈ c.cmt := by
  rw [stamp, Ne, Option.map_eq_none_iff, UnorderedMap.find?_eq_none_iff, not_not]

theorem stamp_eq_none {l : Nat} : c.stamp l = none ↔ l ∉ c.cmt := by
  rw [stamp, Option.map_eq_none_iff, UnorderedMap.find?_eq_none_iff]

theorem stamp_setCmt {page : Nat × Nat} {count : Option Nat} (l : Nat) :
    (c.setCmt env lpn page tick count).stamp l = if l = lpn then some tick else c.stamp l := by
  rw [stamp, setCmt, UnorderedMap.find?_set]
  split
  · rfl
  · rfl

/-- An eviction drops a page whose stamp is least, or nothing. -/
theorem stamp_evictEntryFromCMT (cfg : Config) (c : MappingCache) :
    (∀ l, (c.evictEntryFromCMT cfg).stamp l = c.stamp l) ∨
      ∃ v t, c.stamp v = some t ∧ (∀ l u, c.stamp l = some u → t ≤ u) ∧
        ∀ l, (c.evictEntryFromCMT cfg).stamp l = if l = v then none else c.stamp l := by
  by_cases hvictim : cfg.cmtCapacity ≤ c.cmt.size ∧ (oldest c.ages).1 ≠ 0
  · obtain ⟨hfull, hkey⟩ := hvictim
    obtain ⟨e, hmin, -, hlt⟩ := hasVictim_iff.mpr hkey
    have holdest := oldest_eq hmin hlt
    obtain ⟨x, hx, rfl⟩ := List.mem_map.mp hmin.mem
    refine .inr ⟨x.1, x.2.lastAccessedTime, ?_, fun l u hl => ?_, fun l => ?_⟩
    · rw [stamp, UnorderedMap.find?_eq_some_iff.mpr hx]
      rfl
    · obtain ⟨e, he, rfl⟩ := Option.map_eq_some_iff.mp hl
      exact hmin.le _ (List.mem_map.mpr ⟨(l, e), UnorderedMap.find?_eq_some_iff.mp he, rfl⟩)
    · rw [evictEntryFromCMT, if_pos hfull]
      simp only
      rw [← ages, if_pos hkey, holdest, stamp, UnorderedMap.find?_erase]
      split
      · rfl
      · rfl
  · refine .inl fun l => ?_
    rw [evictEntryFromCMT]
    split
    · next hfull =>
      simp only
      rw [← ages, if_neg fun hkey => hvictim ⟨hfull, hkey⟩]
    · rfl

/-- An eviction followed by the page that it makes room for. -/
theorem Evicting.enter {page : Nat × Nat} {t : Nat} {count : Option Nat}
    (h : Evicting tick lpn c c') (hevict : c'' = c'.evictEntryFromCMT cfg) (ht : tick ≤ t) :
    Evicting tick lpn c (c''.setCmt env lpn page t count) := by
  have hself : (c''.setCmt env lpn page t count).stamp lpn = some t := by
    rw [stamp_setCmt, if_pos rfl]
  have hother : ∀ l, l ≠ lpn → (c''.setCmt env lpn page t count).stamp l = c''.stamp l := by
    intro l hl
    rw [stamp_setCmt, if_neg hl]
  -- the stamps that are left are those before
  have hleft : ∀ l u, c''.stamp l = some u → c'.stamp l = some u := by
    intro l u hu
    rcases stamp_evictEntryFromCMT cfg c' with hsame | ⟨v, t', -, -, hdrop⟩
    · rw [← hsame l, ← hevict]
      exact hu
    · rw [hevict, hdrop l] at hu
      split at hu
      · cases hu
      · exact hu
  refine ⟨fun l hl u hu => ?_, fun u hu => ?_, ?_,
    fun _ => by rw [hself]; exact Option.some_ne_none t⟩
  · rw [hother l hl] at hu
    exact h.kept l hl u (hleft l u hu)
  · rw [hself] at hu
    cases hu
    exact ht
  · intro v hv t' ht' hnone r hr u hu
    rw [hother v hv] at hnone
    rw [hother r hr] at hu
    have hr' := hleft r u hu
    cases hgone : c'.stamp v with
    | none => exact h.older v hv t' ht' hgone r hr u hr'
    | some t₁ =>
      -- the page that this eviction has dropped
      have ht₁ := h.kept v hv t₁ hgone
      rw [ht'] at ht₁
      cases ht₁
      rcases stamp_evictEntryFromCMT cfg c' with hsame | ⟨v', t₂, hv', hmin, hdrop⟩
      · rw [hevict, hsame v, hgone] at hnone
        cases hnone
      · rw [hevict, hdrop v] at hnone
        split at hnone
        · next heq =>
          rw [← heq, hgone] at hv'
          cases hv'
          exact hmin r u hr'
        · rw [hgone] at hnone
          cases hnone

theorem Evicting.of_stamp (h : Evicting tick lpn c c') (hsame : ∀ l, c''.stamp l = c'.stamp l) :
    Evicting tick lpn c c'' := by
  refine ⟨fun l hl t ht => h.kept l hl t ?_, fun t ht => h.fresh t ?_,
    fun v hv t ht hnone r hr u hu => h.older v hv t ht ?_ r hr u ?_, fun hmem => ?_⟩
  · rw [← hsame]
    exact ht
  · rw [← hsame]
    exact ht
  · rw [← hsame]
    exact hnone
  · rw [← hsame]
    exact hu
  · rw [hsame]
    exact h.stays hmem

/-- A request that has not found its page in `cmt`, before it evicts. -/
theorem Evicting.start (hmiss : lpn ∉ c.cmt) : Evicting tick lpn c c := by
  have hnone : c.stamp lpn = none := stamp_eq_none.mpr hmiss
  refine ⟨fun _ _ _ h => h, fun t ht => ?_, fun v _ t ht hnone => ?_, fun h => h⟩
  · rw [hnone] at ht
    cases ht
  · rw [hnone] at ht
    cases ht

theorem evictFromShadowCache_cmt : (c.evictFromShadowCache cfg).cmt = c.cmt := by
  rw [evictFromShadowCache]
  split
  · simp only
    split <;> rfl
  · rfl

/-- A page that is predicted dead on arrival does not enter `cmt`. -/
theorem load_of_dead {page : Nat × Nat} {t : Nat} {count : Option Nat} {dead : Bool}
    (hdead : (dead || c.deadOnArrival cfg lpn) = true) :
    c.load cfg env iclCount lpn page t count dead =
      (true, (c.evictFromShadowCache cfg).setShadow env lpn page t) := by
  rw [load, if_pos hdead]

theorem setShadow_cmt {page : Nat × Nat} {t : Nat} :
    ((c.evictFromShadowCache cfg).setShadow env lpn page t).cmt = c.cmt :=
  evictFromShadowCache_cmt

theorem Loads.dead_cmt {Stamp : Nat → Prop} {n : Nat}
    (h : Loads cfg env iclCount lpn Stamp n true c c') : c'.cmt = c.cmt := by
  generalize hdead : true = dead at h
  induction h with
  | done => rfl
  | @load n dead c c' page tick count htick hrest ih =>
    subst hdead
    rw [load_of_dead (Bool.true_or _)] at ih
    exact (ih rfl).trans setShadow_cmt

theorem Evicting.loads {c₀ : MappingCache} {Stamp : Nat → Prop} {n : Nat} {dead : Bool}
    (hopt : cfg.optimalreplacementPolicy = false) (hstamp : ∀ t, Stamp t → tick ≤ t)
    (h : Loads cfg env iclCount lpn Stamp n dead c c') (hc : Evicting tick lpn c₀ c) :
    Evicting tick lpn c₀ c' := by
  induction h with
  | done => exact hc
  | @load n dead c c' page t count ht hrest ih =>
    refine ih ?_
    cases hdead : dead || c.deadOnArrival cfg lpn with
    | true =>
      refine hc.of_stamp fun l => ?_
      rw [load_of_dead hdead, stamp, setShadow_cmt]
      rfl
    | false =>
      rw [MappingCache.load, if_neg (by rw [hdead]; exact Bool.false_ne_true)]
      simp only
      rw [if_neg (by rw [hopt]; exact Bool.false_ne_true)]
      exact hc.enter rfl (hstamp t ht)

/-- A page that misses both caches is loaded from `table`. Nothing is asked of the
ticks when it is predicted dead on arrival. -/
theorem Evicting.load_miss {Stamp : Nat → Prop} {n : Nat}
    (hopt : cfg.optimalreplacementPolicy = false) (hmiss : lpn ∉ c.cmt)
    (hstamp : c.deadOnArrival cfg lpn = false → ∀ t, Stamp t → tick ≤ t)
    (h : Loads cfg env iclCount lpn Stamp n false c c') : Evicting tick lpn c c' := by
  cases hdead : c.deadOnArrival cfg lpn with
  | false => exact .loads hopt (hstamp hdead) h (.start hmiss)
  | true =>
    cases h with
    | done => exact .start hmiss
    | load ht hrest =>
      rw [load_of_dead ((Bool.false_or _).trans hdead)] at hrest
      refine Evicting.of_stamp (.start hmiss) fun l => ?_
      rw [stamp, hrest.dead_cmt, setShadow_cmt]
      rfl

end Evict

/-- The stamps of the resident pages follow the order in which the pages were last
accessed. -/
structure Ordered (last : Nat → Nat) (c : MappingCache) : Prop where
  le : ∀ l t, c.stamp l = some t → last l ≤ t
  lt : ∀ l l', l ≠ l' → ∀ t t', c.stamp l = some t → c.stamp l' = some t' →
    t < last l' ∨ t' < last l

section Ordered

variable {tick lpn : Nat} {last : Nat → Nat} {c c' : MappingCache}

theorem ordered_empty (hcmt : c.cmt = .empty) : c.Ordered last := by
  have hstamp : ∀ l, c.stamp l = none := by
    intro l
    rw [stamp, hcmt]
    rfl
  constructor
  · intro l t ht
    rw [hstamp] at ht
    cases ht
  · intro l l' _ t t' ht
    rw [hstamp] at ht
    cases ht

theorem Ordered.of_stamp (h : c.Ordered last) (hsame : ∀ l, c'.stamp l = c.stamp l) :
    c'.Ordered last := by
  constructor
  · intro l t ht
    rw [hsame] at ht
    exact h.le l t ht
  · intro l l' hne t t' ht ht'
    rw [hsame] at ht ht'
    exact h.lt l l' hne t t' ht ht'

/-- A request that comes after all stamps puts its page last. -/
theorem Ordered.access (h : c.Ordered last) (hlater : ∀ l t, c.stamp l = some t → t < tick)
    (hevict : Evicting tick lpn c c') : c'.Ordered (Function.update last lpn tick) := by
  constructor
  · intro l t ht
    by_cases hl : l = lpn
    · subst hl
      rw [Function.update_self]
      exact hevict.fresh t ht
    · rw [Function.update_of_ne hl]
      exact h.le l t (hevict.kept l hl t ht)
  · intro l l' hne t t' ht ht'
    by_cases hl : l = lpn
    · subst hl
      rw [Function.update_self]
      exact .inr (hlater l' t' (hevict.kept l' hne.symm t' ht'))
    · by_cases hl' : l' = lpn
      · subst hl'
        rw [Function.update_self]
        exact .inl (hlater l t (hevict.kept l hl t ht))
      · rw [Function.update_of_ne hl, Function.update_of_ne hl']
        exact h.lt l l' hne t t' (hevict.kept l hl t ht) (hevict.kept l' hl' t' ht')

/-- A request that leaves its page out of `cmt`. -/
theorem Ordered.pass (h : c.Ordered last) (hgone : c'.stamp lpn = none)
    (hevict : Evicting tick lpn c c') : c'.Ordered last := by
  have hkept : ∀ l t, c'.stamp l = some t → c.stamp l = some t := by
    intro l t ht
    refine hevict.kept l ?_ t ht
    rintro rfl
    rw [hgone] at ht
    cases ht
  constructor
  · intro l t ht
    exact h.le l t (hkept l t ht)
  · intro l l' hne t t' ht ht'
    exact h.lt l l' hne t t' (hkept l t ht) (hkept l' t' ht')

/-- An evicted page was accessed before the pages that stay. -/
theorem Ordered.evicted_lt (h : c.Ordered last) (hevict : Evicting tick lpn c c') {v r : Nat}
    (hv : v ∈ c.cmt) (hgone : v ∉ c'.cmt) (hr : r ∈ c'.cmt) (hne : r ≠ lpn) : last v < last r := by
  obtain ⟨t, ht⟩ := Option.ne_none_iff_exists'.mp (stamp_ne_none.mpr hv)
  obtain ⟨u, hu⟩ := Option.ne_none_iff_exists'.mp (stamp_ne_none.mpr hr)
  have hvl : v ≠ lpn := by
    rintro rfl
    exact hgone (stamp_ne_none.mp (hevict.stays (stamp_ne_none.mpr hv)))
  have hvr : v ≠ r := by
    rintro rfl
    exact hgone hr
  have htu : t ≤ u := hevict.older v hvl t ht (stamp_eq_none.mpr hgone) r hne u hu
  have hlast := h.le v t ht
  rcases h.lt v r hvr t u ht (hevict.kept r hne u hu) with hlt | hlt
  · omega
  · omega

end Ordered

end MappingCache

/-! ### Sessions -/

/-- The device, with the tick of the request that last accessed each page. -/
structure Session where
  ssd : PageMapping
  last : Nat → Nat

/-- The page that a call has loaded into `cmt` or found there. -/
def accessed (s' : PageMapping) : Op → Option Nat
  | .read req => if 0 < req.ioFlag.count ∧ req.lpn ∈ s'.cache.cmt then some req.lpn else none
  | .write req => if 0 < req.ioFlag.count ∧ req.lpn ∈ s'.cache.cmt then some req.lpn else none
  | _ => none

namespace Session

variable (cfg : Config) (env : Env)

/-- The tick at which the next request arrives. -/
def tick (S : Session) : Nat := env.tick (.request :: S.ssd.trace)

/-- The record after a request that has accessed a page, or none. -/
def note (S : Session) : Option Nat → Nat → Nat
  | some l => Function.update S.last l (S.tick env)
  | none => S.last

def exec (S : Session) (call : World × Op) : Except Fault Session := do
  let ssd ← Op.exec cfg env S.ssd call
  .ok ⟨ssd, S.note env (accessed ssd call.2)⟩

/-- The pages that a call evicts from `cmt` were last accessed before every page that
it leaves there, and the page that it accesses is stamped with its tick or a later
one. -/
structure EvictsOldest (S : Session) (call : World × Op) (S' : Session) : Prop where
  victims : ∀ v ∈ S.ssd.cache.cmt, v ∉ S'.ssd.cache.cmt → ∀ r ∈ S'.ssd.cache.cmt,
    S'.last v < S'.last r
  stamped : ∀ l, accessed S'.ssd call.2 = some l → ∀ e, S'.ssd.cache.cmt.find? l = some e →
    S.tick env ≤ e.lastAccessedTime

/-- A request arrives after the ticks that the entries of `cmt` carry. -/
def Arrives (S : Session) : Prop :=
  ∀ e ∈ S.ssd.cache.cmt.entries, e.2.lastAccessedTime < S.tick env

/-- A request arrives after the stamps, and when it reads a page that `cmt` is to
take from `table`, the unset local holds no earlier tick. -/
def Timely (S : Session) (call : World × Op) : Prop :=
  match call.2 with
  | .read req => 0 < req.ioFlag.count → S.Arrives env ∧
      (S.ssd.cache.Absent cfg req.lpn → req.lpn ∈ S.ssd.table →
        S.ssd.cache.deadOnArrival cfg req.lpn = false →
        S.tick env ≤ env.stack (.dram :: .request :: S.ssd.trace))
  | .write req => 0 < req.ioFlag.count → S.Arrives env
  | _ => True

instance (S : Session) : Decidable (S.Arrives env) :=
  inferInstanceAs (Decidable (∀ e ∈ S.ssd.cache.cmt.entries, _))

instance (S : Session) : ∀ call : World × Op, Decidable (S.Timely cfg env call)
  | (_, .read _) => inferInstanceAs (Decidable (_ → _ ∧ _))
  | (_, .write _) => inferInstanceAs (Decidable (_ → _))
  | (_, .trim _) => .isTrue trivial
  | (_, .format _) => .isTrue trivial
  | (_, .undoCached _) => .isTrue trivial

end Session

/-! ### Requests -/

section Requests

open MappingCache

variable {cfg : Config} {env : Env}

/-- Time does not run backwards within a request. -/
theorem PageMapping.Later.le {s : PageMapping} {t : Nat}
    (hclock : ∀ e trace, e ≠ Event.request → env.tick trace ≤ env.tick (e :: trace))
    (h : s.Later env t) : env.tick s.trace ≤ t := by
  obtain ⟨events, hevents, rfl⟩ := h
  induction events with
  | nil => exact le_rfl
  | cons e events ih =>
    have he : e ≠ Event.request := by
      rintro rfl
      exact hevents List.mem_cons_self
    exact (ih fun h => hevents (List.mem_cons_of_mem _ h)).trans (hclock e _ he)

/-- The lookup of a request evicts at most to move its page out of the shadow table. -/
theorem PageMapping.Looking.evicting {s : PageMapping} {lpn tick : Nat} {c : MappingCache}
    (hlook : s.Looking cfg env lpn c) (hlater : ∀ t, s.Later env t → tick ≤ t) :
    Evicting tick lpn s.cache c := by
  cases hlook with
  | @hit e t he ht =>
    have hstamp : ∀ l, (s.cache.touch lpn e t).stamp l =
        if l = lpn then some t else s.cache.stamp l := by
      intro l
      rw [stamp, touch, UnorderedMap.find?_set]
      split
      · rfl
      · rfl
    have hmem : s.cache.stamp lpn ≠ none := stamp_ne_none.mpr (UnorderedMap.mem_of_find? he)
    refine ⟨fun l hl u hu => ?_, fun u hu => ?_, fun v hv u hu hnone => ?_, fun _ => ?_⟩
    · rw [hstamp, if_neg hl] at hu
      exact hu
    · rw [hstamp, if_pos rfl] at hu
      cases hu
      exact hlater t ht
    · rw [hstamp, if_neg hv, hu] at hnone
      cases hnone
    · rw [hstamp, if_pos rfl]
      exact Option.some_ne_none t
  | @promote e t hmiss hpred he ht =>
    have hclear : Evicting tick lpn s.cache (s.cache.clearPrediction lpn) := by
      refine Evicting.of_stamp (.start hmiss) fun l => ?_
      rw [stamp, (clearPrediction_frame _ _).1]
      rfl
    exact hclear.enter rfl (hlater t ht)
  | miss hmiss => exact .start hmiss.1

namespace Session

variable {S S' : Session} {s' : PageMapping}

/-- A request that evicts in the order of the stamps keeps the record and the stamps
in step. -/
theorem request_spec {req : Request} (hs : S.ssd.cache.Ordered S.last) (harrives : S.Arrives env)
    (hcount : 0 < req.ioFlag.count)
    (hevict : Evicting (S.tick env) req.lpn S.ssd.cache s'.cache) {op : Op}
    (hop : accessed s' op =
      if 0 < req.ioFlag.count ∧ req.lpn ∈ s'.cache.cmt then some req.lpn else none) {w : World} :
    s'.cache.Ordered (S.note env (accessed s' op)) ∧
      EvictsOldest env S (w, op) ⟨s', S.note env (accessed s' op)⟩ := by
  have hlater : ∀ l t, S.ssd.cache.stamp l = some t → t < S.tick env := by
    intro l t ht
    obtain ⟨e, he, rfl⟩ := Option.map_eq_some_iff.mp ht
    exact harrives (l, e) (UnorderedMap.find?_eq_some_iff.mp he)
  by_cases hmem : req.lpn ∈ s'.cache.cmt
  · rw [if_pos ⟨hcount, hmem⟩] at hop
    have hnote : S.note env (accessed s' op) = Function.update S.last req.lpn (S.tick env) := by
      rw [hop]
      rfl
    rw [hnote]
    refine ⟨hs.access hlater hevict, fun v hv hgone r hr => ?_, fun l hl e he => ?_⟩
    · have hvl : v ≠ req.lpn := by
        rintro rfl
        exact hgone hmem
      show Function.update S.last req.lpn (S.tick env) v <
        Function.update S.last req.lpn (S.tick env) r
      rw [Function.update_of_ne hvl]
      by_cases hrl : r = req.lpn
      · obtain ⟨t, ht⟩ := Option.ne_none_iff_exists'.mp (stamp_ne_none.mpr hv)
        rw [hrl, Function.update_self]
        exact (hs.le v t ht).trans_lt (hlater v t ht)
      · rw [Function.update_of_ne hrl]
        exact hs.evicted_lt hevict hv hgone hr hrl
    · rw [hop] at hl
      cases hl
      refine hevict.fresh _ ?_
      rw [stamp, he]
      rfl
  · rw [if_neg fun h => hmem h.2] at hop
    have hnote : S.note env (accessed s' op) = S.last := by
      rw [hop]
      rfl
    rw [hnote]
    refine ⟨hs.pass (stamp_eq_none.mpr hmem) hevict, fun v hv hgone r hr => ?_, fun l hl => ?_⟩
    · refine hs.evicted_lt hevict hv hgone hr ?_
      rintro rfl
      exact hmem hr
    · rw [hop] at hl
      cases hl

/-- A call that keeps the stamps accesses no page. -/
theorem idle_spec (s' : PageMapping) (op : Op) (hs : S.ssd.cache.Ordered S.last)
    (hsame : ∀ l, s'.cache.stamp l = S.ssd.cache.stamp l) (hop : accessed s' op = none)
    {w : World} :
    s'.cache.Ordered (S.note env (accessed s' op)) ∧
      EvictsOldest env S (w, op) ⟨s', S.note env (accessed s' op)⟩ := by
  rw [hop]
  refine ⟨hs.of_stamp hsame, fun v hv hgone => ?_, fun l hl => ?_⟩
  · exact absurd (stamp_ne_none.mp (by rw [hsame]; exact stamp_ne_none.mpr hv)) hgone
  · rw [hop] at hl
    cases hl

theorem exec_spec (hcmt : cfg.enableCMT = true) (hopt : cfg.optimalreplacementPolicy = false)
    (hclock : ∀ e trace, e ≠ Event.request → env.tick trace ≤ env.tick (e :: trace))
    {call : World × Op} (hs : S.ssd.cache.Ordered S.last) (htimely : Timely cfg env S call)
    (h : exec cfg env S call = .ok S') :
    S'.ssd.cache.Ordered S'.last ∧ EvictsOldest env S call S' := by
  obtain ⟨w, op⟩ := call
  rw [exec, Except.bind_eq_ok] at h
  obtain ⟨s', h, hS'⟩ := h
  cases hS'
  have hlater : ∀ t, (S.ssd.log .request).Later env t → S.tick env ≤ t :=
    fun t ht => ht.le hclock
  cases op with
  | read req =>
    rw [Op.exec] at h
    have hread := PageMapping.read_cache hcmt h
    by_cases hcount : 0 < req.ioFlag.count
    · obtain ⟨harrives, hunset⟩ := htimely hcount
      refine request_spec hs harrives hcount ?_ rfl
      generalize s'.cache = c' at hread
      cases hread with
      | idle hidle =>
        rcases hidle with hzero | hmiss
        · exact absurd hzero (Nat.ne_of_gt hcount)
        · exact .start hmiss.1
      | found hlook hhit => exact hlook.evicting hlater
      | load hmiss htable hload =>
        refine .load_miss hopt hmiss.1 (fun hdead t ht => ?_) hload
        rcases ht with rfl | ht
        · exact hunset hmiss htable hdead
        · exact hlater t ht
    · simp only [PageMapping.read, if_neg hcount] at h
      cases h
      exact idle_spec (S.ssd.log .request) (.read req) hs (fun _ => rfl)
        (if_neg fun h => hcount h.1)
  | write req =>
    rw [Op.exec] at h
    by_cases hcount : 0 < req.ioFlag.count
    · have harrives : S.Arrives env := htimely hcount
      rcases PageMapping.write_cache hcmt h with ⟨hzero, -⟩ | ⟨c₁, c₂, hlook, hload, hmoved⟩
      · exact absurd hzero (Nat.ne_of_gt hcount)
      · refine request_spec hs harrives hcount ?_ rfl
        exact (Evicting.loads hopt hlater hload (hlook.evicting hlater)).of_stamp hmoved.stamps
    · simp only [PageMapping.write, if_neg hcount] at h
      cases h
      exact idle_spec (S.ssd.log .request) (.write req) hs (fun _ => rfl)
        (if_neg fun h => hcount h.1)
  | trim req =>
    rw [Op.exec] at h
    refine idle_spec s' (.trim req) hs (fun l => ?_) rfl
    rw [PageMapping.trim_cache h]
    rfl
  | format range =>
    rw [Op.exec] at h
    exact idle_spec s' (.format range) hs (PageMapping.format_cache h).stamps rfl
  | undoCached l =>
    rw [Op.exec] at h
    refine idle_spec s' (.undoCached l) hs (fun l => ?_) rfl
    rw [PageMapping.undoCached_cache h]
    rfl

end Session

/-- In every run of timely requests, from empty caches and without the optimal
policy, each request evicts the pages of `cmt` that were accessed longest ago, and
stamps the page that it accesses with its own tick or a later one. -/
theorem run_evicts_oldest (hcmt : cfg.enableCMT = true)
    (hopt : cfg.optimalreplacementPolicy = false)
    (hclock : ∀ e trace, e ≠ Event.request → env.tick trace ≤ env.tick (e :: trace))
    (calls : List (World × Op)) (S : Session)
    (hempty : S.ssd.cache.cmt = .empty)
    (htimely : Run.Along (Session.exec cfg env) (Session.Timely cfg env) S calls) :
    Run.Along (Session.exec cfg env)
      (fun S call => (Session.exec cfg env S call).All (Session.EvictsOldest env S call)) S
      calls := by
  refine htimely.imp (I := fun S => S.ssd.cache.Ordered S.last)
    (fun S call S' hs hcall h => (Session.exec_spec hcmt hopt hclock hs hcall h).1)
    (fun S call hs hcall => Except.all_iff.mpr fun S' h =>
      (Session.exec_spec hcmt hopt hclock hs hcall h).2) ?_
  exact ordered_empty hempty

end Requests

/-- The environment in which the unset local holds the current tick. -/
def Env.assigned : Env := { Env.ticking with stack := List.length }

/-- A session that begins with a device that has just been started. -/
def Session.new (s : PageMapping) : Session := ⟨s, fun _ => 0⟩

/-- Page 2 makes room for page 3, since page 1 is read before, and page 1 for page 2. -/
theorem run_evicts_oldest_two : ∃ s₀, PageMapping.start (.entries 3 2) .assigned none = .ok s₀ ∧
    Run.Along (Session.exec (.entries 3 2) .assigned)
      (fun S call => (Session.exec (.entries 3 2) .assigned S call).All
        (Session.EvictsOldest .assigned S call)) (Session.new s₀)
      (calls [.write (.page 1), .write (.page 2), .read (.page 1), .write (.page 3),
        .read (.page 2)]) := by
  obtain ⟨s₀, hstart, htimely⟩ := Except.exists_of_map
    (p := fun s₀ => Run.Along (Session.exec (.entries 3 2) .assigned)
      (Session.Timely (.entries 3 2) .assigned) (Session.new s₀)
      (calls [.write (.page 1), .write (.page 2), .read (.page 1), .write (.page 3),
        .read (.page 2)]))
    (by decide +kernel : (PageMapping.start (.entries 3 2) .assigned none).map _ = .ok true)
  refine ⟨s₀, hstart, run_evicts_oldest (by decide) (by decide) ?_ _ _ ?_ htimely⟩
  · intro e trace _
    exact Nat.le_succ trace.length
  · rw [Session.new, start_cache hstart]
    rfl

/-- Page 1 comes back from `table` with the tick 0, and is evicted at the next
request, before page 3. -/
theorem not_evicts_oldest_unset :
    ∃ s₀ S S', PageMapping.start (.entries 4 2) .ticking none = .ok s₀ ∧
      (calls [.write (.page 1), .write (.page 2), .write (.page 3), .read (.page 1)]).foldlM
        (Session.exec (.entries 4 2) .ticking) (Session.new s₀) = .ok S ∧
      Session.exec (.entries 4 2) .ticking S (World.zero, .write (.page 2)) = .ok S' ∧
      ¬ Session.EvictsOldest .ticking S (World.zero, .write (.page 2)) S' := by
  obtain ⟨s₀, hstart, hrun⟩ := Except.exists_of_map
    (p := fun s₀ => ((calls [.write (.page 1), .write (.page 2), .write (.page 3),
      .read (.page 1)]).foldlM (Session.exec (.entries 4 2) .ticking) (Session.new s₀)).map
        (fun S => decide ((Session.exec (.entries 4 2) .ticking S
          (World.zero, .write (.page 2))).map (fun S' => decide (1 ∈ S.ssd.cache.cmt ∧
            1 ∉ S'.ssd.cache.cmt ∧ 3 ∈ S'.ssd.cache.cmt ∧ ¬ S'.last 1 < S'.last 3)) = .ok true)) =
        .ok true)
    (by decide +kernel : (PageMapping.start (.entries 4 2) .ticking none).map _ = .ok true)
  obtain ⟨S, hS, hstep⟩ := Except.exists_of_map hrun
  obtain ⟨S', hS', hmem, hgone, hstays, hnewer⟩ := Except.exists_of_map hstep
  exact ⟨s₀, S, S', hstart, hS, hS', fun h => hnewer (h.victims 1 hmem hgone 3 hstays)⟩

end SimpleSSD.FTL
