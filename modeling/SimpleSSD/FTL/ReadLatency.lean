import SimpleSSD.FTL.CacheCapacity
import SimpleSSD.FTL.ReadPath

/-!
# The tick that a read returns (page_mapping.cc:1576–1822)

`readInternal` takes the arrival tick by reference and hands back the tick at which the read is
done. Each of its three branches moves the tick past the DRAM access, starts every flash read
there, and folds the ticks at which these are done into `finishedAt`; only the branch of `table`
writes `finishedAt` back (page_mapping.cc:1816–1817). `timedRead` is `readInternal` with these two
locals (`timedRead_state`), and `read_covers_iff` says when the tick it returns covers the flash
reads it has issued.
-/

namespace SimpleSSD.FTL

/-- The ticks at which the flash reads of a call are done, given the events before it. -/
def completions (env : Env) (before : List Event) : List Event → List Nat
  | [] => []
  | .palRead req :: events => env.tick (.palRead req :: (events ++ before)) ::
      completions env before events
  | .request :: events | .dram :: events | .palWrite _ :: events | .palErase _ :: events
  | .updateDirty _ :: events => completions env before events

namespace PageMapping

section Timed

variable (cfg : Config) (env : Env) (w : World)

/-- The unit loop with the local `finishedAt`; `none` when a listed block ends the call. -/
def timedUnits (req : Request) (mapping : Nat → Except Fault (Nat × Nat)) (fill : Bool) :
    List Nat → Nat → Bool → Nat → PageMapping → Except Fault (Option Nat × PageMapping)
  | [], _, _, finishedAt, s => .ok (some finishedAt, s)
  | idx :: rest, beginAt, dead, finishedAt, s =>
    if req.wants cfg idx then do
      let page ← mapping idx
      if cfg.InRange page then
        let loaded := s.fillMapping cfg env w fill req.lpn page beginAt dead
        let s := loaded.2
        if page.1 ∈ s.pool.erasedBlockId then .ok (none, s)
        else
          match s.pool.blocks.find? page.1 with
          | none => .error (.panic "readInternal" "Block is not in use")
          | some b => do
            let (_, b) ← b.read page.2 idx
            let s := { s with pool := s.pool.putBlock page.1 b }
            let s := s.log (.palRead ⟨page.1, page.2, palFlag cfg req.ioFlag idx⟩)
            let beginAt := env.tick s.trace
            timedUnits req mapping fill rest beginAt loaded.1 (max finishedAt beginAt) s
      else timedUnits req mapping fill rest beginAt dead finishedAt s
    else timedUnits req mapping fill rest beginAt dead finishedAt s

/-- `readInternal` with its tick, where `latency` is that of `CPU::READ_INTERNAL`. -/
def timedRead (latency : Nat) (req : Request) (tick : Nat) (s : PageMapping) :
    Except Fault (Nat × PageMapping) :=
  let finishedAt := tick
  let units := List.range cfg.bitsetSize
  match s.cmtHit cfg req.lpn with
  | some e => do
    let s := s.log .dram
    let tick := env.tick s.trace
    let s := s.touchCmt env req.lpn e
    let (_, s) ← timedUnits cfg env w req (fun _ => .ok e.page) false units (env.stack s.trace)
      false finishedAt s
    .ok (tick, s)
  | none =>
    match s.shadowHit cfg req.lpn with
    | some e => do
      let s := { s with cache := s.cache.promote cfg env req.lpn e (env.tick s.trace) }
      let s := s.log .dram
      let tick := env.tick s.trace
      let (_, s) ← timedUnits cfg env w req (fun _ => .ok e.page) false units (env.stack s.trace)
        false finishedAt s
      .ok (tick, s)
    | none =>
      match s.table.find? req.lpn with
      | some vec => do
        let s := s.log .dram
        let tick := env.tick s.trace
        let (finishedAt, s) ← timedUnits cfg env w req (mappingAt vec) true units
          (env.stack s.trace) false finishedAt s
        match finishedAt with
        | some finishedAt => .ok (finishedAt + latency, s)
        | none => .ok (tick, s)
      | none => .ok (tick, s)

end Timed

variable {cfg : Config} {env : Env} {w : World} {req : Request} {s s' : PageMapping}

/-! ### The timed read is the read -/

theorem timedUnits_state {mapping : Nat → Except Fault (Nat × Nat)} {fill : Bool} (l : List Nat)
    (beginAt : Nat) (dead : Bool) (finishedAt : Nat) (s : PageMapping) :
    (timedUnits cfg env w req mapping fill l beginAt dead finishedAt s).map Prod.snd =
      readUnits cfg env w req mapping fill l beginAt dead s := by
  induction l generalizing beginAt dead finishedAt s with
  | nil => rfl
  | cons idx rest ih =>
    rw [timedUnits, readUnits]
    split
    · rw [Except.map_bind]
      refine congrArg _ (funext fun page => ?_)
      dsimp only
      split
      · split
        · rfl
        · generalize (UnorderedMap.find? _ page.1 : Option Block) = found
          cases found with
          | none => rfl
          | some b =>
            dsimp only
            rw [Except.map_bind]
            exact congrArg _ (funext fun r => ih _ _ _ _)
      · exact ih _ _ _ _
    · exact ih _ _ _ _

/-- `timedRead` does to the FTL what `readInternal` does. -/
theorem timedRead_state (latency tick : Nat) (s : PageMapping) :
    (s.timedRead cfg env w latency req tick).map Prod.snd = s.readInternal cfg env w req := by
  rw [timedRead, readInternal]
  dsimp only
  cases s.cmtHit cfg req.lpn with
  | some e =>
    dsimp only
    rw [← timedUnits_state _ _ _ tick]
    cases timedUnits cfg env w req _ false _ _ false tick _ <;> rfl
  | none =>
    cases s.shadowHit cfg req.lpn with
    | some e =>
      dsimp only
      rw [← timedUnits_state _ _ _ tick]
      cases timedUnits cfg env w req _ false _ _ false tick _ <;> rfl
    | none =>
      cases s.table.find? req.lpn with
      | some vec =>
        dsimp only
        rw [← timedUnits_state _ _ _ tick]
        rcases timedUnits cfg env w req _ true _ _ false tick _ with _ | ⟨_ | _, _⟩ <;> rfl
      | none => rfl

/-! ### Ticks of flash reads -/

theorem completions_append (before events₁ events₂ : List Event) :
    completions env before (events₂ ++ events₁) =
      completions env (events₁ ++ before) events₂ ++ completions env before events₁ := by
  induction events₂ with
  | nil => rfl
  | cons e events ih =>
    cases e with
    | palRead r =>
      rw [List.cons_append, completions, completions, ih, List.cons_append, List.append_assoc]
    | _ => exact ih

/-- A loop that runs to its end has folded the ticks of its flash reads into `finishedAt`. -/
theorem timedUnits_covers {mapping : Nat → Except Fault (Nat × Nat)} {fill : Bool} (l : List Nat)
    (beginAt : Nat) (dead : Bool) (finishedAt t : Nat) (s : PageMapping)
    (h : timedUnits cfg env w req mapping fill l beginAt dead finishedAt s = .ok (some t, s')) :
    finishedAt ≤ t ∧ ∃ events, s'.trace = events ++ s.trace ∧
      ∀ c ∈ completions env s.trace events, c ≤ t := by
  induction l generalizing beginAt dead finishedAt s with
  | nil =>
    cases h
    exact ⟨le_rfl, [], rfl, by simp [completions]⟩
  | cons idx rest ih =>
    rw [timedUnits] at h
    split at h
    · rw [Except.bind_eq_ok] at h
      obtain ⟨page, -, h⟩ := h
      dsimp only at h
      split at h
      · split at h
        · cases h
        · split at h
          · cases h
          · rw [Except.bind_eq_ok] at h
            obtain ⟨r, -, h⟩ := h
            obtain ⟨hle, events, htrace, hall⟩ := ih _ _ _ _ h
            rw [max_le_iff] at hle
            rw [log, fillMapping_trace] at hle htrace hall
            refine ⟨hle.1, events ++ [_], by rw [htrace, List.append_assoc]; rfl, fun c hc => ?_⟩
            rw [completions_append, List.mem_append] at hc
            rcases hc with hc | hc
            · exact hall c hc
            · rw [List.mem_singleton.mp hc]
              exact hle.2
      · exact ih _ _ _ _ h
    · exact ih _ _ _ _ h

/-! ### When the returned tick covers the flash reads -/

/-- The flash read for the only unit of a page. -/
def unitRead (cfg : Config) (req : Request) (page : Nat × Nat) : Event :=
  .palRead ⟨page.1, page.2, palFlag cfg req.ioFlag 0⟩

/-- The flash reads that the call from `s` to `s'` has issued are done when its tick is reached. -/
def Covers (env : Env) (s s' : PageMapping) (tick : Nat) : Prop :=
  ∀ events, s'.trace = events ++ s.trace → ∀ c ∈ completions env s.trace events, c ≤ tick

/-- The call from `s` to `s'` has issued flash reads. -/
def Issues (s s' : PageMapping) : Prop := (palReads s.trace).length < (palReads s'.trace).length

instance (s s' : PageMapping) : Decidable (Issues s s') := inferInstanceAs (Decidable (_ < _))

/-- A unit loop issues one flash read at most: beyond one unit a page, reading a block faults. -/
theorem readUnits_trace (hf : s.pool.Formatted cfg) {mapping : Nat → Except Fault (Nat × Nat)}
    {fill : Bool} {beginAt : Nat} {dead : Bool}
    (h : readUnits cfg env w req mapping fill (List.range cfg.bitsetSize) beginAt dead s =
      .ok s') :
    s'.trace = s.trace ∨ cfg.bitsetSize = 1 ∧ ∃ page, mapping 0 = .ok page ∧
      s'.trace = unitRead cfg req page :: s.trace := by
  by_cases hunit : cfg.ioUnitInPage = 1
  · have hone := Config.bitsetSize_one hunit
    rw [hone, show List.range 1 = [0] from rfl] at h
    cases hwant : req.wants cfg 0 with
    | false =>
      rcases readUnits_cons cfg env w h with ⟨-, h⟩ | ⟨hyes, -⟩
      · cases h
        exact .inl rfl
      · rw [hwant] at hyes
        cases hyes
    | true =>
      obtain ⟨page, hpage, ⟨-, htrace⟩ | ⟨-, htrace⟩ | ⟨-, -, htrace, -⟩⟩ :=
        readUnits_single hwant h
      · exact .inl htrace
      · exact .inl htrace
      · exact .inr ⟨hone, page, hpage, htrace⟩
  · refine .inl (readUnits_multi (fun k b hb => ?_) _ _ _ h)
    rw [(hf.used k b hb).2]
    exact hunit

/-- A loop over one unit that a listed block ends has read nothing. -/
theorem timedUnits_stopped {mapping : Nat → Except Fault (Nat × Nat)} {fill : Bool} {idx : Nat}
    {beginAt : Nat} {dead : Bool} {finishedAt : Nat}
    (h : timedUnits cfg env w req mapping fill [idx] beginAt dead finishedAt s = .ok (none, s')) :
    s'.trace = s.trace := by
  rw [timedUnits] at h
  split at h
  · rw [Except.bind_eq_ok] at h
    obtain ⟨page, -, h⟩ := h
    dsimp only at h
    split at h
    · split at h
      · cases h
        exact fillMapping_trace ..
      · split at h
        · cases h
        · rw [Except.bind_eq_ok] at h
          obtain ⟨r, -, h⟩ := h
          cases h
    · cases h
  · cases h

/-- After the DRAM access nothing else has been issued. -/
theorem not_issues {s₁ : PageMapping} (hstart : s₁.trace = .dram :: s.trace)
    (h : s'.trace = s₁.trace) : ¬ Issues s s' := by
  rw [Issues, h, hstart]
  exact lt_irrefl _

/-- In the branches of a cached mapping the tick is that of the DRAM access, when the flash read
begins. -/
theorem covers_cached_iff {s₁ : PageMapping} {page : Nat × Nat} {beginAt : Nat} {dead : Bool}
    (hf : s₁.pool.Formatted cfg) (hstart : s₁.trace = .dram :: s.trace)
    (h : readUnits cfg env w req (fun _ => .ok page) false (List.range cfg.bitsetSize) beginAt dead
      s₁ = .ok s') (hissued : Issues s s') :
    Covers env s s' (env.tick (.dram :: s.trace)) ↔
      env.tick (unitRead cfg req page :: .dram :: s.trace) ≤ env.tick (.dram :: s.trace) := by
  rcases readUnits_trace hf h with htrace | ⟨-, page', hpage, htrace⟩
  · exact absurd hissued (not_issues hstart htrace)
  cases hpage
  rw [hstart] at htrace
  have hcompletions : completions env s.trace [unitRead cfg req page, .dram] =
      [env.tick (unitRead cfg req page :: .dram :: s.trace)] := rfl
  constructor
  · intro hcovers
    refine hcovers [unitRead cfg req page, .dram] htrace _ ?_
    rw [hcompletions]
    exact List.mem_singleton_self _
  · intro hle events hevents c hc
    rw [htrace] at hevents
    obtain rfl : events = [unitRead cfg req page, .dram] :=
      List.append_cancel_right hevents.symm
    rw [hcompletions, List.mem_singleton] at hc
    rw [hc]
    exact hle

/-- A read that issues flash reads returns a tick that covers them if and only if the mapping
comes from `table`, or the flash answers the read in the tick in which it begins. -/
theorem timedRead_covers_iff (hf : s.pool.Formatted cfg) {latency tick t : Nat}
    (h : s.timedRead cfg env w latency req tick = .ok (t, s')) (hissued : Issues s s') :
    Covers env s s' t ↔ ∀ page ∈ s.cachedMapping cfg req.lpn,
      env.tick (unitRead cfg req page :: .dram :: s.trace) ≤ env.tick (.dram :: s.trace) := by
  rw [timedRead] at h
  rw [cachedMapping]
  cases hcmt : s.cmtHit cfg req.lpn with
  | some e =>
    rw [hcmt, Except.bind_eq_ok] at h
    obtain ⟨⟨f, s₂⟩, hunits, h⟩ := h
    cases h
    have hread := congrArg (Except.map Prod.snd) hunits
    rw [timedUnits_state] at hread
    rw [Option.map_some, Option.some_or]
    simp only [Option.mem_some_iff, forall_eq']
    refine covers_cached_iff ?_ ?_ hread hissued
    · exact hf
    · rfl
  | none =>
    rw [hcmt] at h
    dsimp only at h
    rw [Option.map_none, Option.none_or]
    cases hshadow : s.shadowHit cfg req.lpn with
    | some e =>
      rw [hshadow, Except.bind_eq_ok] at h
      obtain ⟨⟨f, s₂⟩, hunits, h⟩ := h
      cases h
      have hread := congrArg (Except.map Prod.snd) hunits
      rw [timedUnits_state] at hread
      rw [Option.map_some]
      simp only [Option.mem_some_iff, forall_eq']
      refine covers_cached_iff ?_ ?_ hread hissued
      · exact hf
      · rfl
    | none =>
      rw [hshadow] at h
      dsimp only at h
      refine iff_of_true ?_ fun page hpage => absurd hpage (Option.not_mem_none page)
      cases htable : s.table.find? req.lpn with
      | some vec =>
        rw [htable, Except.bind_eq_ok] at h
        obtain ⟨⟨f, s₂⟩, hunits, h⟩ := h
        cases f with
        | some finishedAt =>
          cases h
          obtain ⟨-, events, htrace, hall⟩ := timedUnits_covers _ _ _ _ _ _ hunits
          intro events' hevents c hc
          have hsplit : (events ++ [.dram]) ++ s.trace = events' ++ s.trace := by
            rw [← hevents, htrace, List.append_assoc]
            rfl
          obtain rfl : events ++ [.dram] = events' := List.append_cancel_right hsplit
          rw [completions_append] at hc
          exact (hall c (List.mem_append.mp hc |>.resolve_right List.not_mem_nil)).trans
            (Nat.le_add_right _ _)
        | none =>
          -- a listed block has ended the call before its first flash read
          cases h
          have hread := congrArg (Except.map Prod.snd) hunits
          rw [timedUnits_state] at hread
          have hnone : s₂.trace = (s.log .dram).trace := by
            rcases readUnits_trace (s := s.log .dram) hf hread with htrace | ⟨hone, -⟩
            · exact htrace
            · rw [hone, show List.range 1 = [0] from rfl] at hunits
              exact timedUnits_stopped hunits
          exact absurd hissued (not_issues rfl hnone)
      | none =>
        rw [htable] at h
        cases h
        exact absurd hissued (lt_irrefl _)

end PageMapping

/-- In every state of a run, for every read: `timedRead` is `readInternal` with its tick, and the
tick of a read that issues flash reads covers them if and only if the mapping comes from `table`,
or the flash answers the read in the tick in which it begins. -/
theorem read_covers_iff {cfg : Config} {env : Env} {warmUp : Option World}
    {calls : List (World × Op)} {s₀ s : PageMapping}
    (hstart : PageMapping.start cfg env warmUp = .ok s₀) (hrun : run cfg env s₀ calls = .ok s)
    (w : World) (latency : Nat) (req : Request) (tick : Nat) :
    (s.timedRead cfg env w latency req tick).map Prod.snd = s.readInternal cfg env w req ∧
    ∀ t s', s.timedRead cfg env w latency req tick = .ok (t, s') → s.Issues s' →
      (PageMapping.Covers env s s' t ↔ ∀ page ∈ s.cachedMapping cfg req.lpn,
        env.tick (PageMapping.unitRead cfg req page :: .dram :: s.trace) ≤
          env.tick (.dram :: s.trace)) :=
  ⟨PageMapping.timedRead_state latency tick s, fun _ _ h hissued =>
    PageMapping.timedRead_covers_iff (run_formatted hstart hrun) h hissued⟩

/-- Without a mapping cache, the read of a page that has been written waits for the flash. -/
theorem read_covers_table : ∃ s₀ s t s', PageMapping.start (.small 3) .ticking none = .ok s₀ ∧
    run (.small 3) .ticking s₀ (calls [.write (.page 0)]) = .ok s ∧
    s.timedRead (.small 3) .ticking .zero 5 (.page 0) 0 = .ok (t, s') ∧ s.Issues s' ∧
    PageMapping.Covers .ticking s s' t := by
  obtain ⟨s₀, hstart, hrun⟩ := Except.exists_of_map
    (x := PageMapping.start (.small 3) .ticking none)
    (p := fun s₀ => (run (.small 3) .ticking s₀ (calls [.write (.page 0)])).map
      (fun s => decide ((s.timedRead (.small 3) .ticking .zero 5 (.page 0) 0).map
        (fun r => decide (s.Issues r.2)) = .ok true)) = .ok true)
    (by decide +kernel)
  obtain ⟨s, hs, hread⟩ := Except.exists_of_map hrun
  obtain ⟨⟨t, s'⟩, ht, hissued⟩ := Except.exists_of_map hread
  refine ⟨s₀, s, t, s', hstart, hs, ht, hissued, ?_⟩
  refine ((read_covers_iff hstart hs .zero 5 (.page 0) 0).2 t s' ht hissued).mpr ?_
  intro page hpage
  cases hpage

/-- The write has left the page in the mapping cache. The read that hits it is done with the DRAM
access, one tick before the flash read that it issues. -/
theorem read_ahead_of_flash : ∃ s₀ s t s', PageMapping.start (.cached 3) .ticking none = .ok s₀ ∧
    run (.cached 3) .ticking s₀ (calls [.write (.page 0)]) = .ok s ∧
    s.timedRead (.cached 3) .ticking .zero 5 (.page 0) 0 = .ok (t, s') ∧ s.Issues s' ∧
    completions .ticking s.trace (s'.trace.take 2) = [t + 1] ∧
    ¬ PageMapping.Covers .ticking s s' t := by
  obtain ⟨s₀, hstart, hrun⟩ := Except.exists_of_map
    (x := PageMapping.start (.cached 3) .ticking none)
    (p := fun s₀ => (run (.cached 3) .ticking s₀ (calls [.write (.page 0)])).map
      (fun s => decide (s.cachedMapping (.cached 3) 0 = some (0, 0) ∧
        (s.timedRead (.cached 3) .ticking .zero 5 (.page 0) 0).map
          (fun r : Nat × PageMapping => decide (s.Issues r.2 ∧
            completions .ticking s.trace (r.2.trace.take 2) = [r.1 + 1])) = .ok true)) = .ok true)
    (by decide +kernel)
  obtain ⟨s, hs, hcached, hread⟩ := Except.exists_of_map hrun
  obtain ⟨⟨t, s'⟩, ht, hissued, hdone⟩ := Except.exists_of_map hread
  refine ⟨s₀, s, t, s', hstart, hs, ht, hissued, hdone, fun hcovers => ?_⟩
  have hle := (PageMapping.timedRead_covers_iff (run_formatted hstart hs) ht hissued).mp hcovers
    (0, 0) hcached
  -- the flash read is one event longer than the DRAM access
  exact absurd hle (Nat.not_succ_le_self _)

end SimpleSSD.FTL
