import SimpleSSD.FTL.Requests

/-!
# Trim and format (page_mapping.cc:413–455, 2303–2331)

Both walk the mapping vector of a logical page and invalidate what it names, unit by unit, in
whatever block `blocks` has under that number. Neither looks at the range of a mapping first, as
reads and writes do: a unit that was never written still has the placeholder
`{totalPhysicalBlocks, pagesInBlock}`, and no block has that number.
-/

namespace SimpleSSD.FTL

/-- The blocks that a mapping vector names are in use. -/
def InUse (cfg : Config) (p : BlockPool) (vec : List (Nat × Nat)) : Prop :=
  ∀ idx < cfg.bitsetSize, ∃ page, vec[idx]? = some page ∧ (p.blocks.find? page.1).isSome = true

namespace PageMapping

variable {cfg : Config} {vec : List (Nat × Nat)} {p p' : BlockPool} {function : String}

/-- The same blocks are in use. -/
def SameBlocks (p p' : BlockPool) : Prop :=
  ∀ k, (p'.blocks.find? k).isSome = (p.blocks.find? k).isSome

theorem SameBlocks.putBlock {k : Nat} {b b' : Block} (hb : p.blocks.find? k = some b) :
    SameBlocks p (p.putBlock k b') := by
  intro k'
  rw [BlockPool.putBlock, UnorderedMap.find?_set]
  split
  · next h => rw [h, hb]; rfl
  · rfl

/-- One turn of the loop over a mapping vector. -/
def invalidateAt (function : String) (vec : List (Nat × Nat)) (p : BlockPool) (idx : Nat) :
    Except Fault BlockPool := do
  let page ← mappingAt vec idx
  match p.blocks.find? page.1 with
  | none => .error (.panic function "Block is not in use")
  | some b => .ok (p.putBlock page.1 (b.invalidate page.2 idx))

theorem invalidateAt_ok_iff {idx : Nat} :
    (∃ page, vec[idx]? = some page ∧ (p.blocks.find? page.1).isSome = true) ↔
      ∃ p', invalidateAt function vec p idx = .ok p' := by
  rw [invalidateAt, mappingAt]
  cases hvec : vec[idx]? with
  | none => simp
  | some page =>
    simp only [Option.some.injEq, exists_eq_left', Bind.bind, Except.bind]
    cases hb : p.blocks.find? page.1 with
    | none => simp
    | some b => simp

theorem SameBlocks.invalidateAt {idx : Nat} (h : invalidateAt function vec p idx = .ok p') :
    SameBlocks p p' := by
  rw [PageMapping.invalidateAt, Except.bind_eq_ok] at h
  obtain ⟨page, -, h⟩ := h
  cases hb : p.blocks.find? page.1 with
  | none =>
    rw [hb] at h
    cases h
  | some b =>
    rw [hb] at h
    cases h
    exact SameBlocks.putBlock hb

/-- The loop over a mapping vector ends iff the blocks it names are in use, and these stay. -/
theorem invalidateMapping_spec (cfg : Config) (function : String) (vec : List (Nat × Nat))
    (p : BlockPool) :
    (InUse cfg p vec → ∃ p', invalidateMapping cfg function vec p = .ok p' ∧ SameBlocks p p') ∧
      ∀ p', invalidateMapping cfg function vec p = .ok p' → InUse cfg p vec := by
  have hloop : invalidateMapping cfg function vec p =
      (List.range cfg.bitsetSize).foldlM (invalidateAt function vec) p := rfl
  have hready : ∀ idx q, SameBlocks p q →
      ((∃ page, vec[idx]? = some page ∧ (p.blocks.find? page.1).isSome = true) ↔
        ∃ q', invalidateAt function vec q idx = .ok q') := by
    intro idx q hq
    simp only [← invalidateAt_ok_iff, hq _]
  have hstep : ∀ (done : List Nat) idx q, SameBlocks p q →
      (∃ page, vec[idx]? = some page ∧ (p.blocks.find? page.1).isSome = true) →
      ∃ q', invalidateAt function vec q idx = .ok q' ∧ SameBlocks p q' := by
    intro _ idx q hq hpage
    obtain ⟨q', hq'⟩ := (hready idx q hq).mp hpage
    exact ⟨q', hq', fun k => (SameBlocks.invalidateAt hq' k).trans (hq k)⟩
  rw [hloop]
  constructor
  · intro h
    exact Run.foldlM_of_ready (I := fun _ q => SameBlocks p q) hstep (fun _ => rfl)
      fun idx hidx => h idx (List.mem_range.mp hidx)
  · intro p' hp' idx hidx
    exact Run.ready_of_foldlM (I := fun _ q => SameBlocks p q) hstep
      (fun _ idx q q' hq hq' => (hready idx q hq).mpr ⟨q', hq'⟩) (fun _ => rfl) hp' idx
      (List.mem_range.mpr hidx)

/-! ### What the loops invalidate -/

/-- Unit `u` of block `k` holds a copy that counts. -/
def ValidUnit (p : BlockPool) (k : Nat) (u : Nat × Nat) : Prop :=
  ∃ b ∈ p.blocks.find? k, u ∈ b.validBits

/-- The mapping vector names unit `u` of block `k`. -/
def NamesUnit (cfg : Config) (vec : List (Nat × Nat)) (k : Nat) (u : Nat × Nat) : Prop :=
  u.2 < cfg.bitsetSize ∧ vec[u.2]? = some (k, u.1)

theorem ValidUnit.putBlock_iff {k k' pageIndex idx : Nat} {b : Block} {u : Nat × Nat}
    (hb : p.blocks.find? k = some b) :
    ValidUnit (p.putBlock k (b.invalidate pageIndex idx)) k' u ↔
      ValidUnit p k' u ∧ ¬ (k' = k ∧ u = (pageIndex, idx)) := by
  simp only [ValidUnit, BlockPool.putBlock, UnorderedMap.find?_set, Option.mem_def]
  by_cases hk : k' = k
  · subst hk
    simp [hb, Block.invalidate, and_comm]
  · simp [hk]

/-- The loop over a mapping vector after the units `done`. -/
structure Cleared (vec : List (Nat × Nat)) (p : BlockPool) (done : List Nat) (q : BlockPool) :
    Prop where
  blocks : SameBlocks p q
  rest : q = { p with blocks := q.blocks }
  valid : ∀ k u, ValidUnit q k u ↔ ValidUnit p k u ∧ ¬ (u.2 ∈ done ∧ vec[u.2]? = some (k, u.1))

theorem Cleared.start : Cleared vec p [] p where
  blocks _ := rfl
  rest := rfl
  valid k u := by simp

/-- One turn invalidates the unit that the vector names there. -/
theorem Cleared.step {done : List Nat} {idx : Nat} {q : BlockPool} (h : Cleared vec p done q)
    (hin : ∃ page, vec[idx]? = some page ∧ (p.blocks.find? page.1).isSome = true) :
    ∃ q', invalidateAt function vec q idx = .ok q' ∧ Cleared vec p (done ++ [idx]) q' := by
  obtain ⟨page, hpage, hsome⟩ := hin
  rw [← h.blocks] at hsome
  obtain ⟨b, hb⟩ := Option.isSome_iff_exists.mp hsome
  have hturn : invalidateAt function vec q idx =
      .ok (q.putBlock page.1 (b.invalidate page.2 idx)) := by
    rw [invalidateAt, mappingAt, hpage]
    simp only [Bind.bind, Except.bind, hb]
  refine ⟨_, hturn, fun k => ?_, ?_, fun k u => ?_⟩
  · exact (SameBlocks.putBlock hb k).trans (h.blocks k)
  · rw [BlockPool.putBlock, h.rest]
  · rw [ValidUnit.putBlock_iff hb, h.valid, and_assoc, List.mem_append, List.mem_singleton]
    -- the unit is named by the turns before, or by this one
    have hunit : (k = page.1 ∧ u = (page.2, idx)) ↔ (u.2 = idx ∧ vec[u.2]? = some (k, u.1)) := by
      constructor
      · rintro ⟨rfl, rfl⟩
        exact ⟨rfl, hpage⟩
      · rintro ⟨rfl, hvec⟩
        rw [hpage] at hvec
        cases hvec
        exact ⟨rfl, rfl⟩
    rw [hunit]
    tauto

/-- The loop over a mapping vector whose blocks are in use invalidates what the vector names. -/
theorem invalidateMapping_clears (function : String) (h : InUse cfg p vec) :
    ∃ q, invalidateMapping cfg function vec p = .ok q ∧
      Cleared vec p (List.range cfg.bitsetSize) q := by
  have hloop : invalidateMapping cfg function vec p =
      (List.range cfg.bitsetSize).foldlM (invalidateAt function vec) p := rfl
  rw [hloop]
  exact Run.foldlM_of_ready (fun _ _ _ hq hin => hq.step hin) Cleared.start
    fun idx hidx => h idx (List.mem_range.mp hidx)

/-! ### Trim and format -/

variable {s s' : PageMapping} {P : Nat → Prop}

/-- The logical pages of `P` lose their mappings, exactly the units that these name are
invalidated, and nothing else of the mapping changes. -/
structure Unmaps (cfg : Config) (P : Nat → Prop) (s s' : PageMapping) : Prop where
  gone : ∀ l, P l → s'.table.find? l = none
  kept : ∀ l, ¬ P l → s'.table.find? l = s.table.find? l
  valid : ∀ k u, ValidUnit s'.pool k u ↔
    ValidUnit s.pool k u ∧ ¬ ∃ l vec, P l ∧ s.table.find? l = some vec ∧ NamesUnit cfg vec k u
  blocks : SameBlocks s.pool s'.pool
  rest : s'.pool = { s.pool with blocks := s'.pool.blocks }
  cache : s'.cache = s.cache

/-- Every I/O unit of the mappings of `P` names a block in use. -/
def AllInUse (cfg : Config) (P : Nat → Prop) (s : PageMapping) : Prop :=
  ∀ l, P l → ∀ vec ∈ s.table.find? l, InUse cfg s.pool vec

/-- `trim` unmaps its page exactly when all units of its mapping name blocks in use. -/
theorem trim_unmaps_iff (req : Request) :
    (∃ s', s.trim cfg req = .ok s' ∧ Unmaps cfg (· = req.lpn) s s') ↔
      AllInUse cfg (· = req.lpn) s := by
  rw [trim]
  cases hvec : s.table.find? req.lpn with
  | none =>
    refine iff_of_true ⟨s, rfl, ?_⟩ ?_
    · refine ⟨?_, fun _ _ => rfl, fun k u => ?_, fun _ => rfl, rfl, rfl⟩
      · rintro l rfl
        exact hvec
      · simp [hvec]
    · rintro l rfl vec hl
      rw [hvec] at hl
      cases hl
  | some vec =>
    constructor
    · rintro ⟨s', hs', -⟩ l rfl vec' hvec'
      rw [hvec] at hvec'
      cases hvec'
      rw [Except.bind_eq_ok] at hs'
      obtain ⟨pool, hpool, -⟩ := hs'
      exact (invalidateMapping_spec cfg "trimInternal" vec s.pool).2 pool hpool
    · intro h
      obtain ⟨q, hq, hcleared⟩ :=
        invalidateMapping_clears "trimInternal" (h req.lpn rfl vec hvec)
      refine ⟨{ s.log .dram with pool := q, table := s.table.erase req.lpn }, ?_, ?_⟩
      · simp only [log_pool, hq, Bind.bind, Except.bind, log_table]
      · refine ⟨?_, fun l hl => ?_, fun k u => ?_, hcleared.blocks, hcleared.rest, rfl⟩
        · rintro l rfl
          exact (UnorderedMap.find?_erase _).trans (if_pos rfl)
        · exact (UnorderedMap.find?_erase _).trans (if_neg hl)
        · simp [hcleared.valid, hvec, NamesUnit]

/-- The loop of `format` over the table. -/
def unmapRange (cfg : Config) (range : LPNRange) (s : PageMapping) :
    Except Fault (PageMapping × List Nat) :=
  s.table.entries.foldlM (formatEntry cfg range) (s, [])

/-- The loop of `format` after the entries `done`. -/
structure Formatting (cfg : Config) (range : LPNRange) (s : PageMapping)
    (done : List (Nat × List (Nat × Nat))) (s' : PageMapping) : Prop where
  gone : ∀ l ∈ done.map Prod.fst, range.contains l = true → s'.table.find? l = none
  kept : ∀ l, ¬ (l ∈ done.map Prod.fst ∧ range.contains l = true) →
    s'.table.find? l = s.table.find? l
  valid : ∀ k u, ValidUnit s'.pool k u ↔
    ValidUnit s.pool k u ∧ ¬ ∃ e ∈ done, range.contains e.1 = true ∧ NamesUnit cfg e.2 k u
  blocks : SameBlocks s.pool s'.pool
  rest : s'.pool = { s.pool with blocks := s'.pool.blocks }
  cache : s'.cache = s.cache

theorem InUse.congr (h : SameBlocks p p') : InUse cfg p' vec ↔ InUse cfg p vec := by
  simp only [InUse, h _]

/-- One entry. -/
theorem Formatting.step {range : LPNRange} {done : List (Nat × List (Nat × Nat))}
    {entry : Nat × List (Nat × Nat)} {acc : PageMapping × List Nat}
    (h : Formatting cfg range s done acc.1)
    (hin : range.contains entry.1 = true → InUse cfg s.pool entry.2) :
    ∃ acc', formatEntry cfg range acc entry = .ok acc' ∧
      Formatting cfg range s (done ++ [entry]) acc'.1 := by
  obtain ⟨q, list⟩ := acc
  have hmem : ∀ l, l ∈ (done ++ [entry]).map Prod.fst ↔ l ∈ done.map Prod.fst ∨ l = entry.1 := by
    simp
  rw [formatEntry]
  dsimp only at h ⊢
  by_cases hrange : range.contains entry.1 = true
  · obtain ⟨pool, hpool, hcleared⟩ :=
      invalidateMapping_clears "format" ((InUse.congr h.blocks).mpr (hin hrange))
    rw [if_pos hrange, hpool]
    refine ⟨_, rfl, fun l hl hcontains => ?_, fun l hl => ?_, fun k u => ?_, ?_, ?_, h.cache⟩
    · refine (UnorderedMap.find?_erase l).trans ?_
      rw [hmem] at hl
      split
      · rfl
      · next hne => exact h.gone l (hl.resolve_right hne) hcontains
    · rw [hmem] at hl
      refine (UnorderedMap.find?_erase l).trans ?_
      rw [if_neg fun heq => hl ⟨.inr heq, heq ▸ hrange⟩]
      exact h.kept l fun hin => hl ⟨.inl hin.1, hin.2⟩
    · refine (hcleared.valid k u).trans ?_
      rw [h.valid, and_assoc]
      refine and_congr_right fun _ => ?_
      rw [List.mem_range, ← not_or]
      refine not_congr ?_
      simp only [List.mem_append, List.mem_singleton, or_and_right, exists_or, exists_eq_left,
        hrange, true_and]
      exact Iff.rfl
    · exact fun k => (hcleared.blocks k).trans (h.blocks k)
    · exact hcleared.rest.trans (by rw [h.rest])
  · rw [if_neg hrange]
    refine ⟨_, rfl, fun l hl hcontains => ?_, fun l hl => ?_, fun k u => ?_, h.blocks, h.rest,
      h.cache⟩
    · rw [hmem] at hl
      refine h.gone l (hl.resolve_right ?_) hcontains
      rintro rfl
      exact hrange hcontains
    · rw [hmem] at hl
      exact h.kept l fun hin => hl ⟨.inl hin.1, hin.2⟩
    · rw [h.valid]
      simp [or_and_right, exists_or, hrange]

/-- The loop of `format` unmaps the range exactly when all units of the mappings in the range
name blocks in use. -/
theorem unmapRange_unmaps_iff (range : LPNRange) :
    (∃ r, s.unmapRange cfg range = .ok r ∧ Unmaps cfg (range.contains · = true) s r.1) ↔
      AllInUse cfg (range.contains · = true) s := by
  have hstart : Formatting cfg range s [] s :=
    ⟨by simp, fun _ _ => rfl, fun k u => by simp, fun _ => rfl, rfl, rfl⟩
  have hstep : ∀ done entry (acc : PageMapping × List Nat), Formatting cfg range s done acc.1 →
      (range.contains entry.1 = true → InUse cfg s.pool entry.2) →
      ∃ acc', formatEntry cfg range acc entry = .ok acc' ∧
        Formatting cfg range s (done ++ [entry]) acc'.1 := fun _ _ _ h hin => h.step hin
  have hready : ∀ done entry (acc acc' : PageMapping × List Nat),
      Formatting cfg range s done acc.1 → formatEntry cfg range acc entry = .ok acc' →
      range.contains entry.1 = true → InUse cfg s.pool entry.2 := by
    intro done entry acc acc' hacc h hrange
    rw [formatEntry, if_pos hrange, Except.bind_eq_ok] at h
    obtain ⟨pool, hpool, -⟩ := h
    exact (InUse.congr hacc.blocks).mp
      ((invalidateMapping_spec cfg "format" entry.2 acc.1.pool).2 pool hpool)
  have hall : AllInUse cfg (range.contains · = true) s ↔
      ∀ e ∈ s.table.entries, range.contains e.1 = true → InUse cfg s.pool e.2 := by
    constructor
    · intro h e he hrange
      exact h e.1 hrange e.2 (UnorderedMap.find?_eq_some_iff.mpr he)
    · intro h l hl vec hvec
      exact h (l, vec) (UnorderedMap.find?_eq_some_iff.mp hvec) hl
  rw [hall, unmapRange]
  constructor
  · rintro ⟨r, hr, -⟩
    exact Run.ready_of_foldlM (I := fun done acc => Formatting cfg range s done acc.1) hstep hready
      hstart hr
  · intro h
    obtain ⟨r, hr, hdone⟩ := Run.foldlM_of_ready
      (I := fun done acc => Formatting cfg range s done acc.1) hstep (s := (s, [])) hstart h
    refine ⟨r, hr, fun l hl => ?_, fun l hl => ?_, fun k u => ?_, hdone.blocks, hdone.rest,
      hdone.cache⟩
    · by_cases hmem : l ∈ s.table.entries.map Prod.fst
      · exact hdone.gone l hmem hl
      · -- a page without an entry has none afterwards
        rw [hdone.kept l fun h => hmem h.1]
        exact UnorderedMap.find?_eq_none_iff.mpr hmem
    · exact hdone.kept l fun h => hl h.2
    · rw [hdone.valid]
      refine and_congr_right fun _ => not_congr ?_
      constructor
      · rintro ⟨e, he, hrange, hunit⟩
        exact ⟨e.1, e.2, hrange, UnorderedMap.find?_eq_some_iff.mpr he, hunit⟩
      · rintro ⟨l, vec, hl, hvec, hunit⟩
        exact ⟨(l, vec), UnorderedMap.find?_eq_some_iff.mp hvec, hl, hunit⟩

end PageMapping

open PageMapping (Unmaps AllInUse)

/-- A trim and the loop of a format return, and unmap their pages exactly. -/
def Op.UnmapsExactly (cfg : Config) (s : PageMapping) (call : World × Op) : Prop :=
  let s := s.log .request
  match call.2 with
  | .trim req => ∃ s', s.trim cfg req = .ok s' ∧ Unmaps cfg (· = req.lpn) s s'
  | .format range =>
    ∃ r, s.unmapRange cfg range = .ok r ∧ Unmaps cfg (range.contains · = true) s r.1
  | .read _ | .write _ | .undoCached _ => True

/-- All I/O units that the mappings of the trimmed or formatted pages name are in blocks in use. -/
def Op.UnitsInUse (cfg : Config) (s : PageMapping) (call : World × Op) : Prop :=
  match call.2 with
  | .trim req => AllInUse cfg (· = req.lpn) s
  | .format range => AllInUse cfg (range.contains · = true) s
  | .read _ | .write _ | .undoCached _ => True

theorem Op.unmapsExactly_iff (cfg : Config) (s : PageMapping) (call : World × Op) :
    Op.UnmapsExactly cfg s call ↔ Op.UnitsInUse cfg s call := by
  obtain ⟨w, op⟩ := call
  cases op with
  | trim req => exact PageMapping.trim_unmaps_iff req
  | format range => exact PageMapping.unmapRange_unmaps_iff range
  | read | write | undoCached => exact Iff.rfl

/-- In a run, every trim and every format unmaps exactly its pages, without a panic, if and only
if each finds all units of their mappings in blocks in use. -/
theorem run_unmapsExactly_iff (cfg : Config) (env : Env) (s : PageMapping)
    (calls : List (World × Op)) :
    Run.Along (Op.exec cfg env) (Op.UnmapsExactly cfg) s calls ↔
      Run.Along (Op.exec cfg env) (Op.UnitsInUse cfg) s calls :=
  (Run.Along.of_forall (fun _ _ => trivial) calls s).iff (I := fun _ => True) trivial
    (fun _ _ _ _ _ => .of_forall fun _ => trivial) fun s call _ _ => Op.unmapsExactly_iff cfg s call

/-- Two units a page, mapped on their own. -/
def Config.pairedTweak (n : Nat) : Config :=
  { Config.small n with ioUnitInPage := 2, randomIOTweak := true }

/-- One unit of page 0 has been written: neither a trim nor a format gets past the other. -/
theorem partly_written_panics : ∃ s₀ s, PageMapping.start (.pairedTweak 3) .zero none = .ok s₀ ∧
    run (.pairedTweak 3) .zero s₀ (calls [.write ⟨0, (Bitset.new 2).insert 0⟩]) = .ok s ∧
    s.trim (.pairedTweak 3) ⟨0, (Bitset.new 2).setAll⟩ =
      .error (.panic "trimInternal" "Block is not in use") ∧
    s.format (.pairedTweak 3) .zero .zero ⟨0, 1⟩ =
      .error (.panic "format" "Block is not in use") := by
  obtain ⟨s₀, hstart, hrun⟩ := Except.exists_of_map
    (x := PageMapping.start (.pairedTweak 3) .zero none)
    (p := fun s₀ =>
      (run (.pairedTweak 3) .zero s₀ (calls [.write ⟨0, (Bitset.new 2).insert 0⟩])).map
        (fun s => decide ((s.trim (.pairedTweak 3) ⟨0, (Bitset.new 2).setAll⟩).Sat (fun _ => False)
            (· = .panic "trimInternal" "Block is not in use") ∧
          (s.format (.pairedTweak 3) .zero .zero ⟨0, 1⟩).Sat (fun _ => False)
            (· = .panic "format" "Block is not in use"))) = .ok true)
    (by decide +kernel)
  obtain ⟨s, hs, htrim, hformat⟩ := Except.exists_of_map hrun
  exact ⟨s₀, s, hstart, hs, htrim.eq_error, hformat.eq_error⟩

end SimpleSSD.FTL
