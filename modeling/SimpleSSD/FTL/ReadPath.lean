import SimpleSSD.FTL.Partition

/-!
# Which reads reach the flash

`readInternal` looks a page up in `cmt`, in the shadow table and in `table`, in
this order, and each of the three branches ends the call as soon as it meets a
block that `erased_block_id` lists (page_mapping.cc:1617–1623, 1690–1696 and
1786–1793). The ids stay in that list when their blocks are taken into use
again, so the test also drops reads of live pages. `Readable` is the exact
condition under which a mapped page is read.
-/

namespace SimpleSSD.FTL

/-- The flash reads among the events of a call. -/
def palReads (events : List Event) : List PAL.Request :=
  events.filterMap fun
    | .palRead req => some req
    | _ => none

@[simp] theorem palReads_cons (req : PAL.Request) (events : List Event) :
    palReads (.palRead req :: events) = req :: palReads events := rfl

namespace PageMapping

section Read

variable (cfg : Config) (env : Env) (w : World)

/-- The request reads unit `idx` of `page`: the call returns, it has issued
exactly one flash read for the unit, and `Block::read` was reached. -/
def Serves (s : PageMapping) (req : Request) (idx : Nat) (page : Nat × Nat) : Prop :=
  ∃ s' events, s.readInternal cfg env w req = .ok s' ∧ s'.trace = events ++ s.trace ∧
    (palReads events).count ⟨page.1, page.2, palFlag cfg req.ioFlag idx⟩ = 1 ∧
    ∃ b b', s.pool.blocks.find? page.1 = some b ∧ s'.pool.blocks.find? page.1 = some b' ∧
      b.blockAccessCount < b'.blockAccessCount ∧ page.2 ∈ b'.pCachedBits

/-- The page lies on the device, the branch that `readInternal` takes finds it as
`table` names it, and its block has one unit a page, is in use, and is not listed
in `erased_block_id`. -/
def Readable (s : PageMapping) (lpn idx : Nat) (page : Nat × Nat) : Prop :=
  cfg.InRange page ∧ cfg.ioUnitInPage = 1 ∧
    s.readMapping cfg lpn idx = s.tableMapping lpn idx ∧
    page.1 ∈ s.pool.blocks ∧ page.1 ∉ s.pool.erasedBlockId

instance (s : PageMapping) (lpn idx : Nat) (page : Nat × Nat) :
    Decidable (s.Readable cfg lpn idx page) :=
  inferInstanceAs (Decidable (_ ∧ _ ∧ _ ∧ _ ∧ _))

variable {cfg env w} {req : Request} {s s' : PageMapping}

/-- A read of a mapped page is one run of the unit loop, after bookkeeping that
touches neither the pool nor the table and reads no flash. -/
theorem readInternal_eq (cfg : Config) (env : Env) (w : World) {vec : List (Nat × Nat)}
    (hvec : s.table.find? req.lpn = some vec) :
    ∃ s₁ events mapping fill beginAt,
      s.readInternal cfg env w req =
        readUnits cfg env w req mapping fill (List.range cfg.bitsetSize) beginAt false s₁ ∧
      s₁.pool = s.pool ∧ s₁.table = s.table ∧ s₁.trace = events ++ s.trace ∧
      palReads events = [] ∧
      ∀ idx page, mapping idx = .ok page ↔ s.readMapping cfg req.lpn idx = some page := by
  unfold readInternal readMapping cachedMapping
  cases hcmt : s.cmtHit cfg req.lpn with
  | some e =>
    exact ⟨_, [.dram], _, _, _, rfl, rfl, rfl, rfl, rfl, fun _ page => by simp [eq_comm]⟩
  | none =>
    cases hshadow : s.shadowHit cfg req.lpn with
    | some e =>
      exact ⟨_, [.dram], _, _, _, rfl, rfl, rfl, rfl, rfl, fun _ page => by simp [eq_comm]⟩
    | none =>
      simp only [hvec]
      refine ⟨_, [.dram], _, _, _, rfl, rfl, rfl, rfl, rfl, fun idx page => ?_⟩
      rw [mappingAt, tableMapping, hvec, Option.bind_some]
      cases vec[idx]? <;> simp

/-- Blocks of several units a page have no cached bits to set, so a unit loop
that returns has read nothing. -/
theorem readUnits_multi {mapping : Nat → Except Fault (Nat × Nat)} {fill : Bool}
    (hunits : ∀ k b, s.pool.blocks.find? k = some b → b.ioUnitInPage ≠ 1) (l : List Nat)
    (beginAt : Nat) (dead : Bool)
    (h : readUnits cfg env w req mapping fill l beginAt dead s = .ok s') :
    s'.trace = s.trace := by
  induction l generalizing beginAt dead s with
  | nil =>
    cases h
    rfl
  | cons idx rest ih =>
    rcases readUnits_cons cfg env w h with
      ⟨-, h⟩ | ⟨-, page, -, ⟨-, h⟩ | ⟨-, -, rfl⟩ | ⟨-, -, b, r, _, _, hb, hr, -⟩⟩
    · exact ih hunits _ _ h
    · exact ih hunits _ _ h
    · exact fillMapping_trace ..
    · exact absurd (Block.read_spec (v := r.1) hr).1 (hunits _ b hb)

/-- With one unit a page, a unit loop over that unit either skips, stops at a
listed block, or reads. -/
theorem readUnits_single {mapping : Nat → Except Fault (Nat × Nat)} {fill : Bool}
    {beginAt : Nat} {dead : Bool} (hwant : req.wants cfg 0 = true)
    (h : readUnits cfg env w req mapping fill [0] beginAt dead s = .ok s') :
    ∃ page, mapping 0 = .ok page ∧
      ((¬ cfg.InRange page ∧ s'.trace = s.trace) ∨
        (page.1 ∈ s.pool.erasedBlockId ∧ s'.trace = s.trace) ∨
        (cfg.InRange page ∧ page.1 ∉ s.pool.erasedBlockId ∧
          s'.trace = .palRead ⟨page.1, page.2, palFlag cfg req.ioFlag 0⟩ :: s.trace ∧
          ∃ b r, s.pool.blocks.find? page.1 = some b ∧ b.read page.2 0 = .ok r ∧
            s'.pool = s.pool.putBlock page.1 r.2)) := by
  rcases readUnits_cons cfg env w h with
    ⟨hskip, -⟩ |
      ⟨-, page, hpage, ⟨hrange, h⟩ | ⟨-, hmem, rfl⟩ | ⟨hrange, hmem, b, r, _, _, hb, hr, h⟩⟩
  · rw [hwant] at hskip
    cases hskip
  · cases h
    exact ⟨page, hpage, .inl ⟨hrange, rfl⟩⟩
  · exact ⟨page, hpage, .inr (.inl ⟨hmem, fillMapping_trace ..⟩)⟩
  · cases h
    refine ⟨page, hpage, .inr (.inr ⟨hrange, hmem, ?_, b, r, hb, hr, ?_⟩)⟩
    · simp [afterRead, log]
    · simp [afterRead]

/-- A unit loop over one unit reads a page in range of a block in use that is
not listed. -/
theorem readUnits_reads {mapping : Nat → Except Fault (Nat × Nat)} {fill : Bool} {beginAt : Nat}
    {dead : Bool} {page : Nat × Nat} {b : Block} {r : Bool × Block}
    (hwant : req.wants cfg 0 = true) (hpage : mapping 0 = .ok page) (hrange : cfg.InRange page)
    (hmem : page.1 ∉ s.pool.erasedBlockId) (hb : s.pool.blocks.find? page.1 = some b)
    (hr : b.read page.2 0 = .ok r) :
    (readUnits cfg env w req mapping fill [0] beginAt dead s).Sat
      (fun s' => s'.trace = .palRead ⟨page.1, page.2, palFlag cfg req.ioFlag 0⟩ :: s.trace ∧
        s'.pool = s.pool.putBlock page.1 r.2) fun _ => False := by
  rw [readUnits, if_pos hwant, hpage]
  show (ite _ _ _ : Except Fault PageMapping).Sat _ _
  rw [if_pos hrange]
  simp only [fillMapping_pool, hmem, if_false, hb, hr]
  refine ⟨?_, rfl⟩
  show _ :: (fillMapping ..).2.trace = _
  rw [fillMapping_trace]

theorem Serves.readable (hf : s.pool.Formatted cfg) {idx : Nat} {page : Nat × Nat}
    (hpage : s.tableMapping req.lpn idx = some page) (hidx : idx < cfg.bitsetSize)
    (hwant : req.wants cfg idx = true) (h : s.Serves cfg env w req idx page) :
    s.Readable cfg req.lpn idx page := by
  obtain ⟨vec, hvec, -⟩ := Option.bind_eq_some_iff.mp hpage
  obtain ⟨s', events, hread, htrace, hcount, -⟩ := h
  obtain ⟨s₁, events₁, mapping, fill, beginAt, heq, hpool, -, htrace₁, hnone, hmap⟩ :=
    readInternal_eq cfg env w hvec
  rw [heq] at hread
  have hquiet : s'.trace ≠ s₁.trace := by
    intro hsame
    have : events = events₁ := List.append_cancel_right (htrace.symm.trans (hsame.trans htrace₁))
    simp [this, hnone] at hcount
  by_cases hunit : cfg.ioUnitInPage = 1
  · rw [Config.bitsetSize_one hunit] at hread hidx
    obtain rfl : idx = 0 := by omega
    obtain ⟨page', hpage', hcases⟩ := readUnits_single hwant hread
    rcases hcases with ⟨-, hsame⟩ | ⟨-, hsame⟩ | ⟨hrange, hmem, htrace', b, r, hb, -, -⟩
    · exact absurd hsame hquiet
    · exact absurd hsame hquiet
    · rw [hpool] at hmem hb
      have hevents : events = .palRead ⟨page'.1, page'.2, palFlag cfg req.ioFlag 0⟩ :: events₁ := by
        refine List.append_cancel_right (htrace.symm.trans (htrace'.trans ?_))
        rw [htrace₁, List.cons_append]
      have hsame : page' = page := by
        rw [hevents, palReads_cons, hnone, List.count_singleton] at hcount
        by_contra hne
        rw [if_neg] at hcount
        · omega
        · simp only [beq_iff_eq, PAL.Request.mk.injEq, and_true, not_and]
          exact fun h₁ h₂ => hne (Prod.ext h₁ h₂)
      subst hsame
      exact ⟨hrange, hunit, ((hmap 0 page').mp hpage').trans hpage.symm,
        UnorderedMap.mem_of_find? hb, hmem⟩
  · refine absurd (readUnits_multi (fun k b hb => ?_) _ _ _ hread) hquiet
    rw [hpool] at hb
    rw [(hf.used k b hb).2]
    exact hunit

theorem Readable.serves (hf : s.pool.Formatted cfg) {idx : Nat} {page : Nat × Nat}
    (hpage : s.tableMapping req.lpn idx = some page) (hidx : idx < cfg.bitsetSize)
    (hwant : req.wants cfg idx = true) (h : s.Readable cfg req.lpn idx page) :
    s.Serves cfg env w req idx page := by
  obtain ⟨hrange, hunit, hmapping, hused, hmem⟩ := h
  obtain ⟨vec, hvec, -⟩ := Option.bind_eq_some_iff.mp hpage
  obtain ⟨s₁, events₁, mapping, fill, beginAt, heq, hpool, -, htrace₁, hnone, hmap⟩ :=
    readInternal_eq cfg env w hvec
  rw [Config.bitsetSize_one hunit] at hidx
  obtain rfl : idx = 0 := by omega
  obtain ⟨b, hb⟩ := UnorderedMap.mem_iff_find?.mp hused
  have hone : b.ioUnitInPage = 1 := (hf.used _ b hb).2.trans hunit
  obtain ⟨r, hr⟩ : ∃ r, b.read page.2 0 = .ok r := by
    simp [Block.read, hone]
  have hloop : (readUnits cfg env w req mapping fill [0] beginAt false s₁).Sat _ _ :=
    readUnits_reads hwant ((hmap 0 page).mpr (hmapping.trans hpage)) hrange (hpool ▸ hmem)
      (hpool ▸ hb) hr
  obtain ⟨s', hs', htrace', hpool'⟩ := hloop.exists_ok
  rw [Config.bitsetSize_one hunit] at heq
  rw [htrace₁, ← List.cons_append] at htrace'
  refine ⟨s', _, heq.trans hs', htrace', ?_, b, r.2, hb, ?_, ?_, ?_⟩
  · rw [palReads_cons, hnone, List.count_singleton, if_pos]
    simp
  · rw [hpool', hpool, BlockPool.putBlock, UnorderedMap.find?_set, if_pos rfl]
  · rw [(Block.read_spec (v := r.1) hr).2.2.2]
    exact Nat.lt_succ_self _
  · rw [(Block.read_spec (v := r.1) hr).2.2.2]
    exact Finset.mem_insert_self _ _

end Read

end PageMapping

section Reachable

variable {cfg : Config} {env : Env}

/-- In every reachable state, a requested unit of a mapped page is read exactly
when it names a page of the device, the branch taken finds the page that `table`
names, and its block has one unit a page, is in use, and is not listed in
`erased_block_id`. -/
theorem mapped_read_served (warmUp : Option World) (calls : List (World × Op))
    (s₀ s : PageMapping) (hstart : PageMapping.start cfg env warmUp = .ok s₀)
    (hrun : run cfg env s₀ calls = .ok s) (w : World) (req : Request) (idx : Nat)
    (page : Nat × Nat) (hpage : s.tableMapping req.lpn idx = some page)
    (hidx : idx < cfg.bitsetSize) (hwant : req.wants cfg idx = true) :
    s.Serves cfg env w req idx page ↔ s.Readable cfg req.lpn idx page := by
  have hf := run_formatted hstart hrun
  exact ⟨PageMapping.Serves.readable hf hpage hidx hwant,
    PageMapping.Readable.serves hf hpage hidx hwant⟩

theorem mapped_read_served_small : ∃ s₀ s, PageMapping.start (.small 3) .zero none = .ok s₀ ∧
    run (.small 3) .zero s₀ (calls [.write (.page 6)]) = .ok s ∧
    s.Serves (.small 3) .zero .zero (.page 6) 0 (0, 0) := by
  obtain ⟨s₀, hstart, hrun⟩ := Except.exists_of_map
    (p := fun s₀ => (run (.small 3) .zero s₀ (calls [.write (.page 6)])).map
      (fun s => decide (s.tableMapping 6 0 = some (0, 0) ∧ s.Readable (.small 3) 6 0 (0, 0))) =
        .ok true)
    (by decide +kernel : (PageMapping.start (.small 3) .zero none).map _ = .ok true)
  obtain ⟨s, hs, hpage, hreadable⟩ := Except.exists_of_map hrun
  exact ⟨s₀, s, hstart, hs, (mapped_read_served none _ s₀ s hstart hs .zero (.page 6) 0 (0, 0)
    hpage (by decide) (by decide)).mpr hreadable⟩

/-- Block 0 is erased while it is full and taken into use again for page 6. -/
def reusingCalls : List (World × Op) :=
  calls [.write (.page 0), .write (.page 1), .write (.page 2), .format ⟨0, 2⟩,
    .write (.page 3), .write (.page 4), .write (.page 5), .write (.page 6)]

/-- The read of page 6 is dropped: `erased_block_id` still lists its block. -/
theorem mapped_read_dropped : ∃ s₀ s, PageMapping.start (.small 3) .zero none = .ok s₀ ∧
    run (.small 3) .zero s₀ reusingCalls = .ok s ∧ s.tableMapping 6 0 = some (0, 0) ∧
    (Request.page 6).wants (.small 3) 0 = true ∧
    ¬ s.Serves (.small 3) .zero .zero (.page 6) 0 (0, 0) := by
  obtain ⟨s₀, hstart, hrun⟩ := Except.exists_of_map
    (p := fun s₀ => (run (.small 3) .zero s₀ reusingCalls).map
      (fun s => decide (s.tableMapping 6 0 = some (0, 0) ∧ ¬ s.Readable (.small 3) 6 0 (0, 0))) =
        .ok true)
    (by decide +kernel : (PageMapping.start (.small 3) .zero none).map _ = .ok true)
  obtain ⟨s, hs, hpage, hreadable⟩ := Except.exists_of_map hrun
  refine ⟨s₀, s, hstart, hs, hpage, by decide, fun hserves => hreadable ?_⟩
  exact hserves.readable (run_formatted hstart hs) hpage (by decide) (by decide)

end Reachable

end SimpleSSD.FTL
