import SimpleSSD.FTL.CacheEntries
import SimpleSSD.FTL.WritePath

/-!
# What a call does to the mapping caches

With the cached mapping table on, a request for a page looks it up (`Looking`),
and enters a mapping of it for each I/O unit that it reads out of `table` or
programs (`Loads`). A collection only writes new pages into entries that are
there (`Relocated`). The lemmas here reduce `read`, `write` and the other calls
to these, with the tick that each entry is stamped with.
-/

namespace SimpleSSD.FTL

namespace MappingCache

/-- A hit in `cmt` stamps the entry and counts the access. -/
def touch (c : MappingCache) (lpn : Nat) (e : MappingEntry) (tick : Nat) : MappingCache :=
  { c with
    cmt := c.cmt.set 0 lpn
      { e with lastAccessedTime := tick, cmtEntryAccessCount := e.cmtEntryAccessCount + 1 } }

/-- At most `n` mappings of page `lpn` are entered one after the other, each
stamped with a tick of `Stamp`; `dead` is the local `deadonArrival`. -/
inductive Loads (cfg : Config) (env : Env) (iclCount lpn : Nat) (Stamp : Nat → Prop) :
    Nat → Bool → MappingCache → MappingCache → Prop where
  | done {n : Nat} {dead : Bool} {c : MappingCache} : Loads cfg env iclCount lpn Stamp n dead c c
  | load {n : Nat} {dead : Bool} {c c' : MappingCache} {page : Nat × Nat} {tick : Nat}
      {count : Option Nat} (htick : Stamp tick)
      (hrest : Loads cfg env iclCount lpn Stamp n
        (c.load cfg env iclCount lpn page tick count dead).1
        (c.load cfg env iclCount lpn page tick count dead).2 c') :
      Loads cfg env iclCount lpn Stamp (n + 1) dead c c'

/-- Entries have taken new pages, and nothing else has changed. -/
structure Relocated (c c' : MappingCache) : Prop where
  keys : c'.cmt.keys = c.cmt.keys
  stamps : ∀ l, (c'.cmt.find? l).map MappingEntry.lastAccessedTime =
    (c.cmt.find? l).map MappingEntry.lastAccessedTime
  shadow : c'.shadowwCache = c.shadowwCache

section Use

variable {cfg : Config} {env : Env} {iclCount lpn : Nat} {Stamp Stamp' : Nat → Prop}
  {n m : Nat} {dead : Bool} {c c' c'' : MappingCache}

theorem Loads.mono (h : Loads cfg env iclCount lpn Stamp n dead c c') (hnm : n ≤ m)
    (hstamp : ∀ t, Stamp t → Stamp' t) : Loads cfg env iclCount lpn Stamp' m dead c c' := by
  induction h generalizing m with
  | done => exact .done
  | load htick _ ih =>
    obtain ⟨m, rfl⟩ : ∃ k, m = k + 1 := ⟨m - 1, by omega⟩
    exact .load (hstamp _ htick) (ih (by omega))

theorem Relocated.refl (c : MappingCache) : c.Relocated c := ⟨rfl, fun _ => rfl, rfl⟩

theorem Relocated.trans (h : c.Relocated c') (h' : c'.Relocated c'') : c.Relocated c'' :=
  ⟨h'.keys.trans h.keys, fun l => (h'.stamps l).trans (h.stamps l), h'.shadow.trans h.shadow⟩

theorem relocate_relocated (c : MappingCache) (page : Nat × Nat) :
    c.Relocated (c.relocate lpn page) := by
  rw [relocate]
  split
  · next e he =>
    refine ⟨UnorderedMap.map_set 0 Prod.fst he rfl, fun l => ?_, rfl⟩
    rw [UnorderedMap.find?_set]
    split
    · next hl => rw [hl, he]; rfl
    · rfl
  · exact .refl c

end Use

end MappingCache

namespace PageMapping

open MappingCache

/-- The ticks that the environment can give after the history of `s`, before the
next request. -/
def Later (env : Env) (s : PageMapping) (tick : Nat) : Prop :=
  ∃ events, Event.request ∉ events ∧ tick = env.tick (events ++ s.trace)

/-- The lookup of page `lpn`, and what it leaves in the caches. -/
inductive Looking (cfg : Config) (env : Env) (s : PageMapping) (lpn : Nat) :
    MappingCache → Prop where
  | hit {e : MappingEntry} {tick : Nat} (he : s.cache.cmt.find? lpn = some e)
      (htick : s.Later env tick) : Looking cfg env s lpn (s.cache.touch lpn e tick)
  | promote {e : ShadowCacheEntry} {tick : Nat} (hmiss : lpn ∉ s.cache.cmt)
      (hpred : cfg.useDeadOnArrivalPredictor = true)
      (he : s.cache.shadowwCache.find? lpn = some e) (htick : s.Later env tick) :
      Looking cfg env s lpn (s.cache.promote cfg env lpn e tick)
  | miss (hmiss : s.cache.Absent cfg lpn) : Looking cfg env s lpn s.cache

variable {cfg : Config} {env : Env} {w : World} {req : Request} {s s₁ s' : PageMapping}

theorem Later.now : s.Later env (env.tick s.trace) := ⟨[], List.not_mem_nil, rfl⟩

/-- What is later than a state that the same request has reached. -/
theorem Later.trans {tick : Nat} {events : List Event} (htrace : s₁.trace = events ++ s.trace)
    (hevents : Event.request ∉ events) (h : s₁.Later env tick) : s.Later env tick := by
  obtain ⟨events', hevents', rfl⟩ := h
  refine ⟨events' ++ events, ?_, by rw [htrace, List.append_assoc]⟩
  intro hmem
  rcases List.mem_append.mp hmem with h | h
  · exact hevents' h
  · exact hevents h

theorem cmtHit_of_enabled (hcmt : cfg.enableCMT = true) (lpn : Nat) :
    s.cmtHit cfg lpn = s.cache.cmt.find? lpn := by
  rw [cmtHit, if_pos hcmt]

theorem shadowHit_of_enabled (hcmt : cfg.enableCMT = true) (lpn : Nat) :
    s.shadowHit cfg lpn =
      if cfg.useDeadOnArrivalPredictor then s.cache.shadowwCache.find? lpn else none := by
  rw [shadowHit, hcmt, Bool.and_true]

/-- A page found in neither table. -/
theorem absent_of_miss (hcmt : cfg.enableCMT = true) {lpn : Nat} (hhit : s.cmtHit cfg lpn = none)
    (hshadow : s.shadowHit cfg lpn = none) : s.cache.Absent cfg lpn := by
  rw [cmtHit_of_enabled hcmt] at hhit
  rw [shadowHit_of_enabled hcmt] at hshadow
  refine ⟨UnorderedMap.find?_eq_none_iff.mp hhit, fun hpred => ?_⟩
  rw [if_pos hpred] at hshadow
  exact UnorderedMap.find?_eq_none_iff.mp hshadow

/-! ### Reading -/

/-- The unit loop of a read that found its page in the caches leaves them alone. -/
theorem readUnits_cache {mapping : Nat → Except Fault (Nat × Nat)} {l : List Nat} {beginAt : Nat}
    {dead : Bool} (h : readUnits cfg env w req mapping false l beginAt dead s = .ok s') :
    s'.cache = s.cache := by
  induction l generalizing s beginAt dead with
  | nil =>
    cases h
    rfl
  | cons idx l ih =>
    rcases readUnits_cons cfg env w h with ⟨-, h⟩ | ⟨-, page, -, ⟨-, h⟩ | ⟨-, -, rfl⟩ |
      ⟨-, -, b, r, beginAt', dead', -, -, h⟩⟩
    · exact ih h
    · exact ih h
    · rfl
    · have hrest := ih h
      exact hrest

/-- The unit loop of a read that found its page in `table`. -/
theorem readUnits_loads (hcmt : cfg.enableCMT = true) {mapping : Nat → Except Fault (Nat × Nat)}
    {l : List Nat} {beginAt : Nat} {dead : Bool}
    (h : readUnits cfg env w req mapping true l beginAt dead s = .ok s') :
    Loads cfg env w.iclCount req.lpn (fun t => t = beginAt ∨ s.Later env t) l.length dead
      s.cache s'.cache := by
  induction l generalizing s beginAt dead with
  | nil =>
    cases h
    exact .done
  | cons idx l ih =>
    rw [readUnits] at h
    split at h
    · rw [Except.bind_eq_ok] at h
      obtain ⟨page, -, h⟩ := h
      split at h
      · have hload : (s.fillMapping cfg env w true req.lpn page beginAt dead).1 =
              (s.cache.load cfg env w.iclCount req.lpn page beginAt (some 1) dead).1 ∧
            (s.fillMapping cfg env w true req.lpn page beginAt dead).2.cache =
              (s.cache.load cfg env w.iclCount req.lpn page beginAt (some 1) dead).2 := by
          simp [fillMapping, loadMapping, hcmt]
        simp only [fillMapping_pool] at h
        split at h
        · cases h
          rw [hload.2]
          exact .load (.inl rfl) .done
        · split at h
          · cases h
          · rw [Except.bind_eq_ok] at h
            obtain ⟨r, -, h⟩ := h
            have hrest := ih h
            simp only [log, hload.1, hload.2, fillMapping_trace] at hrest
            refine .load (.inl rfl) (hrest.mono le_rfl ?_)
            have hread : ∀ r, Event.request ∉ [Event.palRead r] := by simp
            rintro t (rfl | hlater)
            · exact .inr ⟨[_], hread _, rfl⟩
            · exact .inr (Later.trans rfl (hread _) hlater)
      · exact (ih h).mono (Nat.le_succ _) fun _ h => h
    · exact (ih h).mono (Nat.le_succ _) fun _ h => h

/-- What `read` leaves in the caches: a mapping that it finds in `table` is stamped
with the unset local `beginAt` first. -/
inductive Reading (cfg : Config) (env : Env) (w : World) (s : PageMapping) (req : Request) :
    MappingCache → Prop where
  | idle (hidle : req.ioFlag.count = 0 ∨ s.cache.Absent cfg req.lpn) :
      Reading cfg env w s req s.cache
  | found {c : MappingCache} (hlook : s.Looking cfg env req.lpn c)
      (hhit : ¬ s.cache.Absent cfg req.lpn) : Reading cfg env w s req c
  | load {c : MappingCache} (hmiss : s.cache.Absent cfg req.lpn) (htable : req.lpn ∈ s.table)
      (hload : Loads cfg env w.iclCount req.lpn
        (fun t => t = env.stack (.dram :: s.trace) ∨ s.Later env t) cfg.bitsetSize false
        s.cache c) :
      Reading cfg env w s req c

theorem readInternal_cache (hcmt : cfg.enableCMT = true)
    (h : s.readInternal cfg env w req = .ok s') : Reading cfg env w s req s'.cache := by
  rw [readInternal] at h
  simp only at h
  split at h
  · next e he =>
    rw [readUnits_cache h]
    rw [cmtHit_of_enabled hcmt] at he
    refine .found (.hit he ⟨[.dram], by simp, rfl⟩) fun habsent => ?_
    exact habsent.1 (UnorderedMap.mem_of_find? he)
  · next hhit =>
    split at h
    · next e he =>
      have hmiss := hhit
      rw [cmtHit_of_enabled hcmt] at hmiss
      rw [shadowHit_of_enabled hcmt] at he
      split at he
      · next hpred =>
        rw [readUnits_cache h]
        refine .found (.promote (UnorderedMap.find?_eq_none_iff.mp hmiss) hpred he .now)
          fun habsent => ?_
        exact habsent.2 hpred (UnorderedMap.mem_of_find? he)
      · cases he
    · next hshadow =>
      split at h
      · next vec hvec =>
        have hload := readUnits_loads hcmt h
        rw [List.length_range] at hload
        refine .load (absent_of_miss hcmt hhit hshadow) (UnorderedMap.mem_of_find? hvec)
          (hload.mono le_rfl ?_)
        have hdram : Event.request ∉ [Event.dram] := by simp
        rintro t (rfl | hlater)
        · exact .inl rfl
        · exact .inr (Later.trans rfl hdram hlater)
      · cases h
        exact .idle (.inr (absent_of_miss hcmt hhit hshadow))

theorem read_cache (hcmt : cfg.enableCMT = true) (h : s.read cfg env w req = .ok s') :
    Reading cfg env w s req s'.cache := by
  rw [read] at h
  split at h
  · exact readInternal_cache hcmt h
  · next hcount =>
    cases h
    exact .idle (.inl (Nat.eq_zero_of_not_pos hcount))

/-! ### Writing -/

theorem lookupForWrite_looking (hcmt : cfg.enableCMT = true) {key : Option Nat} {hit : Bool}
    (h : s.lookupForWrite cfg env req true = .ok (key, hit, s₁)) :
    s.Looking cfg env req.lpn s₁.cache ∧ s₁.trace = s.trace := by
  cases lookupForWrite_cases h with
  | hit he =>
    rw [cmtHit_of_enabled hcmt] at he
    exact ⟨.hit he .now, rfl⟩
  | promoted hhit he =>
    rw [cmtHit_of_enabled hcmt] at hhit
    rw [shadowHit_of_enabled hcmt] at he
    split at he
    · next hpred =>
      exact ⟨.promote (UnorderedMap.find?_eq_none_iff.mp hhit) hpred he .now, rfl⟩
    · cases he
  | skipped _ _ hwarm => cases hwarm
  | mapped hhit hshadow => exact ⟨.miss (absent_of_miss hcmt hhit hshadow), rfl⟩
  | added hhit hshadow => exact ⟨.miss (absent_of_miss hcmt hhit hshadow), rfl⟩

/-- One unit of the program loop enters the page it programs. -/
theorem programUnit_load (hcmt : cfg.enableCMT = true) {key : Option Nat} {blk idx : Nat}
    {locals locals' : WriteLocals}
    (h : programUnit cfg env w req true key blk (locals, s) idx = .ok (locals', s')) :
    (req.wants cfg idx = false ∧ locals' = locals ∧ s' = s) ∨ (req.wants cfg idx = true ∧
      (∃ page tick count, s.Later env tick ∧ (locals'.deadonArrival, s'.cache) =
        s.cache.load cfg env w.iclCount req.lpn page tick count locals.deadonArrival) ∧
      ∃ events, Event.request ∉ events ∧ s'.trace = events ++ s.trace) := by
  rw [programUnit] at h
  simp only [if_true] at h
  split at h
  · next hwant =>
    split at h
    · cases h
    · next b hb =>
      rw [Except.bind_eq_ok] at h
      obtain ⟨⟨key, vec⟩, -, h⟩ := h
      rw [Except.bind_eq_ok] at h
      obtain ⟨old, -, h⟩ := h
      rw [Except.bind_eq_ok] at h
      obtain ⟨b', -, h⟩ := h
      obtain ⟨events, hread, hevents⟩ :=
        readOldUnits_eq cfg req old { s with pool := s.pool.putBlock blk b' }
      have hnot : Event.request ∉ events := by
        intro hmem
        obtain ⟨r, hr⟩ := hevents _ hmem
        cases hr
      simp only [hread, loadMapping, hcmt, if_true] at h
      cases h
      refine .inr ⟨hwant, ⟨_, _, _, ⟨events, hnot, rfl⟩, rfl⟩, _ :: events, ?_, rfl⟩
      simpa using hnot
  · next hwant =>
    cases h
    exact .inl ⟨Bool.eq_false_iff.mpr hwant, rfl, rfl⟩

/-- The program loop. -/
theorem programUnits_loads (hcmt : cfg.enableCMT = true) {key : Option Nat} {blk : Nat}
    {l : List Nat} {locals locals' : WriteLocals}
    (h : l.foldlM (programUnit cfg env w req true key blk) (locals, s) = .ok (locals', s')) :
    Loads cfg env w.iclCount req.lpn (s.Later env) l.length locals.deadonArrival
      s.cache s'.cache := by
  induction l generalizing s locals with
  | nil =>
    cases h
    exact .done
  | cons idx l ih =>
    rw [List.foldlM_cons, Except.bind_eq_ok] at h
    obtain ⟨⟨locals₁, s₁⟩, hunit, h⟩ := h
    have hrest := ih h
    rcases programUnit_load hcmt hunit with ⟨-, rfl, rfl⟩ |
      ⟨-, ⟨page, tick, count, htick, hload⟩, evs, hnot, hevs⟩
    · exact hrest.mono (Nat.le_succ _) fun _ h => h
    · obtain ⟨hdead, hcache⟩ := Prod.mk.inj hload
      rw [hdead, hcache] at hrest
      exact .load htick (hrest.mono le_rfl fun _ hlater => .trans hevs hnot hlater)

/-! ### Collecting -/

theorem copyUnit_cache {victim pageIndex blk idx : Nat} {lpns : List Nat} {bit : Bitset}
    {relocateCmt : Bool} {acc acc' : GcLocals × PageMapping}
    (h : copyUnit cfg victim pageIndex blk lpns bit relocateCmt acc idx = .ok acc') :
    acc.2.cache.Relocated acc'.2.cache := by
  obtain ⟨locals, s⟩ := acc
  rw [copyUnit] at h
  simp only at h
  split at h
  · rw [Except.bind_eq_ok] at h
    obtain ⟨pool, -, h⟩ := h
    split at h
    · cases h
    · split at h
      · cases h
      · rw [Except.bind_eq_ok] at h
        obtain ⟨old, -, h⟩ := h
        split at h
        · cases h
        · rw [Except.bind_eq_ok] at h
          obtain ⟨b, -, h⟩ := h
          cases h
          cases relocateCmt with
          | true => exact relocate_relocated _ _
          | false => exact .refl _
  · cases h
    exact .refl _

theorem copyPage_cache {victim pageIndex : Nat} {lpns : List Nat} {bit : Bitset}
    {relocateCmt : Bool} {acc acc' : GcLocals × PageMapping}
    (h : copyPage cfg env victim pageIndex lpns bit relocateCmt acc = .ok acc') :
    acc.2.cache.Relocated acc'.2.cache := by
  obtain ⟨locals, s⟩ := acc
  rw [copyPage] at h
  simp only at h
  rw [Except.bind_eq_ok] at h
  obtain ⟨⟨blk, pool⟩, -, h⟩ := h
  exact Run.foldlM_inv (I := fun acc : GcLocals × PageMapping => s.cache.Relocated acc.2.cache)
    (fun _ _ _ hacc hunit => hacc.trans (copyUnit_cache hunit)) (.refl _) h

theorem scanPage_cache {victim pageIndex : Nat} {acc acc' : GcLocals × PageMapping}
    (h : scanPage cfg env w victim acc pageIndex = .ok acc') :
    acc.2.cache.Relocated acc'.2.cache := by
  obtain ⟨locals, s⟩ := acc
  rw [scanPage] at h
  split at h
  · rw [reclaimCachedPage] at h
    simp only at h
    split at h
    · cases h
    · rw [Except.bind_eq_ok] at h
      obtain ⟨c, -, h⟩ := h
      split at h
      · split at h
        · cases h
        · cases h
          exact .refl _
      · rw [Except.bind_eq_ok] at h
        obtain ⟨v, -, h⟩ := h
        split at h
        · rw [Except.bind_eq_ok] at h
          obtain ⟨r, -, h⟩ := h
          split at h
          · split at h
            · cases h
            · split at h
              · split at h
                · have hcopy := copyPage_cache h
                  exact hcopy
                · cases h
                  exact .refl _
              · cases h
                exact .refl _
          · cases h
            exact .refl _
        · cases h
          exact .refl _
  · rw [reclaimPage] at h
    simp only at h
    split at h
    · cases h
    · rw [Except.bind_eq_ok] at h
      obtain ⟨r, -, h⟩ := h
      split at h
      · rw [Except.bind_eq_ok] at h
        obtain ⟨v, -, h⟩ := h
        split at h
        · have hcopy := copyPage_cache h
          exact hcopy
        · cases h
          exact .refl _
      · cases h
        exact .refl _

theorem scanVictim_cache {victim : Nat} {acc acc' : GcLocals × PageMapping}
    (h : scanVictim cfg env w acc victim = .ok acc') : acc.2.cache.Relocated acc'.2.cache := by
  obtain ⟨-, locals, s, hloop, rfl⟩ := scanVictim_ok h
  have hpages := Run.foldlM_inv
    (I := fun r : GcLocals × PageMapping => acc.2.cache.Relocated r.2.cache)
    (fun _ _ _ hacc hpage => hacc.trans (scanPage_cache hpage)) (.refl _) hloop
  exact hpages

theorem eraseInternal_cache {r : PAL.Request} (h : eraseInternal cfg s r = .ok s') :
    s'.cache = s.cache := by
  rw [eraseInternal, Except.bind_eq_ok] at h
  obtain ⟨p, -, h⟩ := h
  cases h
  rfl

theorem eraseAll_cache {l : List PAL.Request} (h : l.foldlM (eraseInternal cfg) s = .ok s') :
    s'.cache = s.cache :=
  Run.foldlM_inv (I := fun s' : PageMapping => s'.cache = s.cache)
    (fun _ _ _ hs herase => (eraseInternal_cache herase).trans hs) rfl h

theorem doGarbageCollection_cache {victims : List Nat}
    (h : doGarbageCollection cfg env w victims s = .ok s') : s.cache.Relocated s'.cache := by
  rcases doGarbageCollection_cases h with rfl | ⟨locals, s₁, -, -, hscan, h⟩
  · exact .refl _
  · have hs₁ : s.cache.Relocated s₁.cache :=
      Run.foldlM_inv (I := fun r : GcLocals × PageMapping => s.cache.Relocated r.2.cache)
        (fun _ _ _ hacc hvictim => hacc.trans (scanVictim_cache hvictim)) (.refl _) hscan
    have hsame : s'.cache = s₁.cache := by
      rcases h with ⟨-, h⟩ | ⟨-, h⟩
      · obtain ⟨trace, hdirty⟩ := foldl_markDirty locals.cachedValidLPN s₁
        simp only [finishCachedCollection, foldl_log, hdirty] at h
        rw [Except.bind_eq_ok] at h
        obtain ⟨s₂, herase, h⟩ := h
        obtain ⟨trace', hmove⟩ := foldl_handToCache
          (if cfg.blockToBlockMovement then locals.lpnListForCache else locals.lpa_list) s₂
        rw [hmove] at h
        cases h
        have hs₂ := eraseAll_cache herase
        split at hs₂ <;> exact hs₂
      · simp only [finishCollection, foldl_log] at h
        have herase := eraseAll_cache h
        exact herase
    rw [hsame]
    exact hs₁

theorem collectIfNeeded_cache (h : s.collectIfNeeded cfg env w true = .ok s') :
    s.cache.Relocated s'.cache := by
  rcases collectIfNeeded_cases h with rfl | ⟨victims, -, -, h⟩
  · exact .refl _
  · have hcollect := doGarbageCollection_cache h
    exact hcollect

/-- What `write` leaves in the caches. -/
theorem write_cache (hcmt : cfg.enableCMT = true) (h : s.write cfg env w req = .ok s') :
    (req.ioFlag.count = 0 ∧ s'.cache = s.cache) ∨ ∃ c₁ c₂, s.Looking cfg env req.lpn c₁ ∧
      Loads cfg env w.iclCount req.lpn (s.Later env) cfg.bitsetSize false c₁ c₂ ∧
      c₂.Relocated s'.cache := by
  rw [write] at h
  split at h
  · rw [writeInternal, Except.bind_eq_ok] at h
    obtain ⟨s₂, hprogram, h⟩ := h
    refine .inr ?_
    obtain ⟨key, hit, s₁, blk, pool, locals, hlook, -, -, hloop⟩ := programPage_cases hprogram
    obtain ⟨hlooking, htrace⟩ := lookupForWrite_looking hcmt hlook
    have hloads := programUnits_loads hcmt hloop
    rw [List.length_range] at hloads
    refine ⟨s₁.cache, s₂.cache, hlooking, hloads.mono le_rfl ?_, collectIfNeeded_cache h⟩
    intro t hlater
    refine Later.trans (s := s) (show _ = [.dram, .dram] ++ s.trace from ?_) (by simp) hlater
    rw [← htrace]
    rfl
  · next hcount =>
    cases h
    exact .inl ⟨Nat.eq_zero_of_not_pos hcount, rfl⟩

/-! ### The other calls -/

theorem trim_cache (h : s.trim cfg req = .ok s') : s'.cache = s.cache := by
  rcases trim_cases h with ⟨-, rfl⟩ | ⟨vec, pool, -, -, rfl⟩ <;> rfl

theorem format_cache {range : LPNRange} (h : s.format cfg env w range = .ok s') :
    s.cache.Relocated s'.cache := by
  rw [format, Except.bind_eq_ok] at h
  obtain ⟨⟨s₁, list⟩, hentries, h⟩ := h
  have hsame : s₁.cache = s.cache := by
    refine Run.foldlM_inv (I := fun acc : PageMapping × List Nat => acc.1.cache = s.cache)
      (fun acc entry acc' hacc hentry => ?_) rfl hentries
    rcases formatEntry_cases hentry with ⟨-, rfl⟩ | ⟨pool, -, -, rfl⟩
    · exact hacc
    · exact hacc
  have hcollect := doGarbageCollection_cache h
  rw [hsame] at hcollect
  exact hcollect

/-! ### Without the cached mapping table -/

theorem read_cache_off (hcmt : cfg.enableCMT = false) (h : s.read cfg env w req = .ok s') :
    s'.cache = s.cache := by
  have hunits : ∀ {mapping : Nat → Except Fault (Nat × Nat)} {fill : Bool} {l : List Nat}
      {beginAt : Nat} {dead : Bool} {s : PageMapping},
      readUnits cfg env w req mapping fill l beginAt dead s = .ok s' → s'.cache = s.cache := by
    intro mapping fill l
    induction l with
    | nil =>
      intro beginAt dead s h
      cases h
      rfl
    | cons idx l ih =>
      intro beginAt dead s h
      have hfill : ∀ page, (s.fillMapping cfg env w fill req.lpn page beginAt dead).2.cache =
          s.cache := by
        intro page
        cases fill <;> simp [fillMapping, loadMapping, hcmt]
      rcases readUnits_cons cfg env w h with ⟨-, h⟩ | ⟨-, page, -, ⟨-, h⟩ | ⟨-, -, rfl⟩ |
        ⟨-, -, b, r, beginAt', dead', -, -, h⟩⟩
      · exact ih h
      · exact ih h
      · exact hfill page
      · exact (ih h).trans (hfill page)
  have hhit : s.cmtHit cfg req.lpn = none := by simp [cmtHit, hcmt]
  have hshadow : s.shadowHit cfg req.lpn = none := by simp [shadowHit, hcmt]
  rw [read] at h
  split at h
  · rw [readInternal] at h
    simp only [hhit, hshadow] at h
    split at h
    · have hsame := hunits h
      exact hsame
    · cases h
      rfl
  · cases h
    rfl

theorem write_cache_off (hcmt : cfg.enableCMT = false) (h : s.write cfg env w req = .ok s') :
    s.cache.Relocated s'.cache := by
  have hhit : s.cmtHit cfg req.lpn = none := by simp [cmtHit, hcmt]
  have hshadow : s.shadowHit cfg req.lpn = none := by simp [shadowHit, hcmt]
  rw [write] at h
  split at h
  · rw [writeInternal, Except.bind_eq_ok] at h
    obtain ⟨s₂, hprogram, h⟩ := h
    have hsame : s₂.cache = s.cache := by
      obtain ⟨key, hit, s₁, blk, pool, locals, hlook, -, -, hloop⟩ := programPage_cases hprogram
      have hs₁ : s₁.cache = s.cache := by
        cases lookupForWrite_cases hlook with
        | hit he => cases hhit.symm.trans he
        | promoted _ he => cases hshadow.symm.trans he
        | _ => rfl
      refine Run.foldlM_inv (I := fun acc : WriteLocals × PageMapping => acc.2.cache = s.cache)
        (fun acc idx acc' hacc hunit => ?_) hs₁ hloop
      obtain ⟨locals₁, s₄⟩ := acc
      obtain ⟨locals₂, s₅⟩ := acc'
      by_cases hwant : req.wants cfg idx = true
      · obtain ⟨key', vec, b, b', -, -, -, -, -, -, -, hload, -⟩ := programUnit_spec hwant hunit
        obtain ⟨-, tick, count, hload⟩ := hload rfl
        rw [hcmt, if_neg Bool.false_ne_true] at hload
        exact (Prod.mk.inj hload).2.trans hacc
      · rw [programUnit] at hunit
        simp only [if_neg hwant] at hunit
        cases hunit
        exact hacc
    rw [← hsame]
    exact collectIfNeeded_cache h
  · cases h
    exact .refl _

end PageMapping

end SimpleSSD.FTL
