import SimpleSSD.FTL.MappedSet

/-!
# The mapping caches are transparent

Two devices of the same geometry get the same calls, one with the cached mapping
table and one without it. They map the same logical pages and read the same data
when the mappings that the caches give are those of `table` (`Op.Transparent`).

In `cachedGC` mode the two devices stay in lockstep. In the other modes their
victims may differ, with the clocks that a latency of the caches has moved. There
both refine `Op.maps`, and the bijection between `table` and the valid pages
gives what a mapped page stores.
-/

namespace SimpleSSD.FTL

/-- The caches give what `table` has, and outside `cachedGC` mode a page scan
loses no page. -/
def Op.Transparent (cfg : Config) (env : Env) (s : PageMapping) (call : World × Op) : Prop :=
  s.Agrees cfg call ∧ Op.Meets cfg env
    { write := fun _ _ _ => True
      scan := fun w victim acc pageIndex =>
        cfg.evictPolicy ≠ .cachedGC → PageMapping.ScanKeeps cfg w victim acc pageIndex
      trim := fun _ _ => True
      format := fun _ _ => True } s call

instance (cfg : Config) (env : Env) (s : PageMapping) (call : World × Op) :
    Decidable (Op.Transparent cfg env s call) :=
  inferInstanceAs (Decidable (_ ∧ _))

namespace PageMapping

/-- A read finds what `table` has, and every mapped unit that it asks for can be
read. -/
def ReadConditions (cfg : Config) (req : Request) (s : PageMapping) : Prop :=
  s.ReadAgrees cfg req ∧ ∀ idx < cfg.bitsetSize, req.wants cfg idx = true → req.lpn ∈ s.table →
    ∃ page ∈ s.tableMapping req.lpn idx, s.Readable cfg req.lpn idx page

instance (cfg : Config) (req : Request) (s : PageMapping) :
    Decidable (s.ReadConditions cfg req) :=
  inferInstanceAs (Decidable (_ ∧ _))

/-- The request reads, for unit `idx`, a flash page that stores the logical page
`l`. -/
def Returns (cfg : Config) (env : Env) (w : World) (s : PageMapping) (req : Request)
    (idx l : Nat) : Prop :=
  ∃ page b, s.Serves cfg env w req idx page ∧ s.pool.blocks.find? page.1 = some b ∧
    b.lpns (page.2, idx) = l

/-- The request finds its page unmapped and reads nothing. -/
def FindsUnmapped (cfg : Config) (env : Env) (w : World) (s : PageMapping) (req : Request) : Prop :=
  req.lpn ∉ s.table ∧ s.readInternal cfg env w req = .ok s

/-- On the two devices the request finds its page unmapped, or reads for each
unit flash pages that store the same logical page. -/
def SameRead (cfg : Config) (env₁ env₂ : Env) (w : World) (req : Request) (s t : PageMapping) :
    Prop :=
  (s.FindsUnmapped cfg env₁ w req ∧ t.FindsUnmapped cfg.withoutCMT env₂ w req) ∨
    ∀ idx < cfg.bitsetSize, req.wants cfg idx = true →
      ∃ l, s.Returns cfg env₁ w req idx l ∧ t.Returns cfg.withoutCMT env₂ w req idx l

section Reads

variable {cfg : Config} {env env₁ env₂ : Env} {w : World} {req : Request} {idx : Nat}
  {s t : PageMapping}

/-- An unmapped page that the caches do not know is not read. -/
theorem ReadAgrees.findsUnmapped (h : s.ReadAgrees cfg req) (hidx : idx < cfg.bitsetSize)
    (hwant : req.wants cfg idx = true) (hmem : req.lpn ∉ s.table) :
    s.FindsUnmapped cfg env w req := by
  have hnone : s.table.find? req.lpn = none := UnorderedMap.find?_eq_none_iff.mpr hmem
  have hread := h idx hidx hwant
  rw [readMapping, tableMapping, hnone, Option.bind_none, Option.or_none, cachedMapping,
    Option.or_eq_none_iff, Option.map_eq_none_iff, Option.map_eq_none_iff] at hread
  refine ⟨hmem, ?_⟩
  unfold readInternal
  simp only [hread.1, hread.2, hnone]

/-- A mapped page that can be read is read from where `table` names it. -/
theorem ReadConditions.serves (env : Env) (w : World) (h : s.ReadConditions cfg req)
    (hf : s.pool.Formatted cfg) (hidx : idx < cfg.bitsetSize) (hwant : req.wants cfg idx = true)
    (hmem : req.lpn ∈ s.table) :
    ∃ page b, s.tableMapping req.lpn idx = some page ∧ s.Serves cfg env w req idx page ∧
      s.pool.blocks.find? page.1 = some b ∧ cfg.ioUnitInPage = 1 := by
  obtain ⟨page, hpage, hreadable⟩ := h.2 idx hidx hwant hmem
  obtain ⟨b, hb⟩ := UnorderedMap.mem_iff_find?.mp hreadable.2.2.2.1
  exact ⟨page, b, hpage, hreadable.serves hf hpage hidx hwant, hb, hreadable.2.1⟩

/-- Under the bijection the page read stores the page asked for. -/
theorem ReadConditions.returns (h : s.ReadConditions cfg req) (hf : s.pool.Formatted cfg)
    (hs : cfg.ioUnitInPage = 1 → s.Mapped cfg) (hidx : idx < cfg.bitsetSize)
    (hwant : req.wants cfg idx = true) (hmem : req.lpn ∈ s.table) :
    s.Returns cfg env w req idx req.lpn := by
  obtain ⟨page, b, hpage, hserves, hb, hone⟩ := h.serves env w hf hidx hwant hmem
  obtain rfl : idx = 0 := by
    rw [Config.bitsetSize_one hone] at hidx
    omega
  have hcontent := ((hs hone).linked req.lpn page).mp hpage
  rw [BlockPool.content, hb, Option.bind_some, Block.contentAt] at hcontent
  split at hcontent
  · exact ⟨page, b, hserves, hb, Option.some.inj hcontent⟩
  · cases hcontent

/-- Reads agree when the mapped pages are the same and mapped pages return the
same data. -/
theorem sameRead_of_returns (hmapped : s.mapped = t.mapped) (hs : s.ReadAgrees cfg req)
    (ht : t.ReadAgrees cfg.withoutCMT req)
    (hreturns : req.lpn ∈ s.table → ∀ idx < cfg.bitsetSize, req.wants cfg idx = true →
      ∃ l, s.Returns cfg env₁ w req idx l ∧ t.Returns cfg.withoutCMT env₂ w req idx l) :
    SameRead cfg env₁ env₂ w req s t := by
  by_cases hmem : req.lpn ∈ s.table
  · exact .inr (hreturns hmem)
  · have hmem' : req.lpn ∉ t.table := by
      intro h
      have : req.lpn ∈ t.mapped := h
      rw [← hmapped] at this
      exact hmem this
    by_cases hidle : ∃ idx < cfg.bitsetSize, req.wants cfg idx = true
    · obtain ⟨idx, hidx, hwant⟩ := hidle
      exact .inl ⟨hs.findsUnmapped hidx hwant hmem, ht.findsUnmapped hidx hwant hmem'⟩
    · exact .inr fun idx hidx hwant => absurd ⟨idx, hidx, hwant⟩ hidle

/-- In lockstep the same flash page is read. -/
theorem SameFlash.sameRead (hst : s.SameFlash t) (hf : s.pool.Formatted cfg)
    (hf' : t.pool.Formatted cfg.withoutCMT) (hs : s.ReadConditions cfg req)
    (ht : t.ReadConditions cfg.withoutCMT req) : SameRead cfg env₁ env₂ w req s t := by
  refine sameRead_of_returns (by rw [mapped, mapped, hst.table]) hs.1 ht.1
    fun hmem idx hidx hwant => ?_
  obtain ⟨page, b, hpage, hserves, hb, -⟩ := hs.serves env₁ w hf hidx hwant hmem
  obtain ⟨page', b', hpage', hserves', hb', -⟩ :=
    ht.serves env₂ w hf' hidx hwant (hst.table ▸ hmem)
  obtain rfl : page = page' := by
    rw [tableMapping, hst.table] at hpage
    exact Option.some.inj (hpage.symm.trans hpage')
  obtain rfl : b = b' := by
    rw [hst.pool] at hb
    exact Option.some.inj (hb.symm.trans hb')
  exact ⟨_, ⟨page, b, hserves, hb, rfl⟩, page, b, hserves', hb', rfl⟩

end Reads

section Runs

variable {cfg : Config} {env : Env} {s s' : PageMapping}

/-- With one mapping a page, a write that agrees with the caches hits them
harmlessly. -/
theorem WriteAgrees.hitsFirst {req : Request} (hone : cfg.ioUnitInPage = 1)
    (hshape : TableShape cfg s) (hwant : req.wants cfg 0 = true) (h : s.WriteAgrees cfg req) :
    s.WriteHitsFirst cfg req := by
  intro page hpage
  obtain ⟨⟨l, vec⟩, hfirst, rfl, hunits⟩ := h page hpage
  have hlen : vec.length = 1 := by
    rw [hshape _ _ (UnorderedMap.find?_of_begin? hfirst), Config.bitsetSize_one hone]
  obtain ⟨page', rfl⟩ := List.length_eq_one_iff.mp hlen
  obtain rfl : page' = page := by
    simpa using hunits 0 (by rw [Config.bitsetSize_one hone]; exact Nat.one_pos) hwant
  exact hfirst

/-- The bijection survives a transparent call. -/
theorem Mapped.exec_transparent (hone : cfg.ioUnitInPage = 1) (hmode : cfg.evictPolicy ≠ .cachedGC)
    (hs : s.Mapped cfg) {call : World × Op} (hcall : Op.Transparent cfg env s call)
    (h : Op.exec cfg env s call = .ok s') : s'.Mapped cfg := by
  obtain ⟨hagrees, hmeets⟩ := hcall
  have hscans : Op.Meets cfg env ⟨fun _ _ _ => True, ScanKeeps cfg, fun _ _ => True,
      fun _ _ => True⟩ s call := by
    refine Op.Meets.mono cfg env ?_ ?_ ?_ ?_ hmeets
    · exact fun _ _ _ h => h
    · exact fun _ _ _ _ h => h hmode
    · exact fun _ _ h => h
    · exact fun _ _ h => h
  obtain ⟨w, op⟩ := call
  refine hs.exec hone ?_ h
  cases op with
  | read req => trivial
  | write req =>
    intro hcount
    refine ⟨?_, (hscans hcount).2⟩
    -- a write that returns has passed the size check of its request
    simp only [Op.exec, PageMapping.write, if_pos hcount] at h
    rw [writeInternal, Except.bind_eq_ok] at h
    obtain ⟨s₁, hprog, -⟩ := h
    exact (hagrees hcount).hitsFirst hone hs.shape
      (wants_of_count hone hcount (programPage_size (s := s.log .request) hs.wf hprog))
  | trim req => trivial
  | format range => exact ⟨trivial, hscans.2⟩
  | undoCached l => trivial

theorem run_transparent (hmode : cfg.evictPolicy ≠ .cachedGC) {warmUp : Option World}
    {calls : List (World × Op)} {s₀ : PageMapping} (hstart : start cfg env warmUp = .ok s₀)
    (hmeets : Run.Along (Op.exec cfg env) (Op.Transparent cfg env) s₀ calls)
    (hrun : run cfg env s₀ calls = .ok s) :
    s.mapped = (calls.map Prod.snd).foldl Op.maps s₀.mapped ∧
      (cfg.ioUnitInPage = 1 → s.Mapped cfg) := by
  constructor
  · rw [List.foldl_map]
    exact Run.Along.foldlM_abs (fun s call s' hcall h => exec_mapped hmode hcall.1 h) hmeets hrun
  · intro hone
    exact hmeets.foldlM_inv (fun _ _ _ hs hcall h => hs.exec_transparent hone hmode hcall h)
      (start_mapped hone hstart) hrun

end Runs

end PageMapping

section Reachable

variable {cfg : Config} {env₁ env₂ : Env}

/-- In two runs of the same calls whose steps are all transparent, with the cached
mapping table and without it, the same pages are mapped, and every further read
that can be served returns the same data. -/
theorem cmt_transparent (hplace : env₁.place = env₂.place) (hwarmup : env₁.warmup = env₂.warmup)
    (warmUp : Option World) (calls : List (World × Op)) (s₀ t₀ s t : PageMapping)
    (hs₀ : PageMapping.start cfg env₁ warmUp = .ok s₀)
    (ht₀ : PageMapping.start cfg.withoutCMT env₂ warmUp = .ok t₀)
    (hmeets : Run.Along (Op.exec cfg env₁) (Op.Transparent cfg env₁) s₀ calls)
    (hmeets' :
      Run.Along (Op.exec cfg.withoutCMT env₂) (Op.Transparent cfg.withoutCMT env₂) t₀ calls)
    (hs : run cfg env₁ s₀ calls = .ok s) (ht : run cfg.withoutCMT env₂ t₀ calls = .ok t) :
    s.mapped = t.mapped ∧ ∀ w req, s.ReadConditions cfg req → t.ReadConditions cfg.withoutCMT req →
      PageMapping.SameRead cfg env₁ env₂ w req s t := by
  have hst₀ : s₀.SameFlash t₀ := PageMapping.start_lockstep hplace hwarmup warmUp s₀ t₀ hs₀ ht₀
  have hf := run_formatted hs₀ hs
  have hf' := run_formatted ht₀ ht
  by_cases hmode : cfg.evictPolicy = .cachedGC
  · have hst : s.SameFlash t := by
      refine hmeets.foldlM_rel (g := Op.exec cfg.withoutCMT env₂) (R := PageMapping.SameFlash)
        (fun s t call hst hcall => ?_) hst₀ s t hs ht
      exact PageMapping.exec_lockstep hplace hmode hst hcall.1
    exact ⟨by rw [PageMapping.mapped, PageMapping.mapped, hst.table],
      fun w req hread hread' => hst.sameRead hf hf' hread hread'⟩
  · obtain ⟨hmapped, hone⟩ := PageMapping.run_transparent hmode hs₀ hmeets hs
    have hmode' : cfg.withoutCMT.evictPolicy ≠ .cachedGC := hmode
    obtain ⟨hmapped', hone'⟩ := PageMapping.run_transparent hmode' ht₀ hmeets' ht
    have hsame : s.mapped = t.mapped := by
      rw [hmapped, hmapped', PageMapping.mapped, PageMapping.mapped, hst₀.table]
    refine ⟨hsame, fun w req hread hread' => ?_⟩
    refine PageMapping.sameRead_of_returns hsame hread.1 hread'.1 fun hmem idx hidx hwant =>
      ⟨req.lpn, hread.returns hf hone hidx hwant hmem, hread'.returns hf' hone' hidx hwant ?_⟩
    have : req.lpn ∈ s.mapped := hmem
    rw [hsame] at this
    exact this

/-- Page 0 is written through `cmt`, and read from it, while it is the first page
of `table`. -/
def agreeingCalls : List (World × Op) :=
  calls [.write (.page 0), .write (.page 0), .read (.page 0), .write (.page 1), .trim (.page 2)]

theorem cmt_transparent_cached :
    ∃ s₀ t₀ s t, PageMapping.start (.cached 3) .zero none = .ok s₀ ∧
      PageMapping.start (Config.cached 3).withoutCMT .zero none = .ok t₀ ∧
      run (.cached 3) .zero s₀ agreeingCalls = .ok s ∧
      run (Config.cached 3).withoutCMT .zero t₀ agreeingCalls = .ok t ∧ s.mapped = t.mapped ∧
      PageMapping.SameRead (.cached 3) .zero .zero .zero (.page 0) s t := by
  obtain ⟨s₀, hs₀, hmeets, hrun⟩ := Except.exists_of_map
    (p := fun s₀ => Run.Along (Op.exec (.cached 3) .zero) (Op.Transparent (.cached 3) .zero) s₀
        agreeingCalls ∧
      (run (.cached 3) .zero s₀ agreeingCalls).map
        (fun s => decide (s.ReadConditions (.cached 3) (.page 0))) = .ok true)
    (by decide +kernel : (PageMapping.start (.cached 3) .zero none).map _ = .ok true)
  obtain ⟨t₀, ht₀, hmeets', hrun'⟩ := Except.exists_of_map
    (p := fun t₀ => Run.Along (Op.exec (Config.cached 3).withoutCMT .zero)
        (Op.Transparent (Config.cached 3).withoutCMT .zero) t₀ agreeingCalls ∧
      (run (Config.cached 3).withoutCMT .zero t₀ agreeingCalls).map
        (fun t => decide (t.ReadConditions (Config.cached 3).withoutCMT (.page 0))) = .ok true)
    (by decide +kernel :
      (PageMapping.start (Config.cached 3).withoutCMT .zero none).map _ = .ok true)
  obtain ⟨s, hs, hread⟩ := Except.exists_of_map hrun
  obtain ⟨t, ht, hread'⟩ := Except.exists_of_map hrun'
  obtain ⟨hmapped, hsame⟩ :=
    cmt_transparent rfl rfl none agreeingCalls s₀ t₀ s t hs₀ ht₀ hmeets hmeets' hs ht
  exact ⟨s₀, t₀, s, t, hs₀, ht₀, hs, ht, hmapped, hsame .zero (.page 0) hread hread'⟩

/-- Page 0 is trimmed and stays in `cmt`. The next write of it hits there and sets
the entry of page 1: with the cached mapping table page 0 stays unmapped. -/
theorem cmt_not_transparent :
    ∃ s₀ t₀ s t, PageMapping.start (.cached 3) .zero none = .ok s₀ ∧
      PageMapping.start (Config.cached 3).withoutCMT .zero none = .ok t₀ ∧
      run (.cached 3) .zero s₀
        (calls [.write (.page 0), .write (.page 1), .trim (.page 0), .write (.page 0)]) = .ok s ∧
      run (Config.cached 3).withoutCMT .zero t₀
        (calls [.write (.page 0), .write (.page 1), .trim (.page 0), .write (.page 0)]) = .ok t ∧
      s.mapped ≠ t.mapped := by
  obtain ⟨s₀, hs₀, hrun⟩ := Except.exists_of_map
    (p := fun s₀ => (run (.cached 3) .zero s₀
      (calls [.write (.page 0), .write (.page 1), .trim (.page 0), .write (.page 0)])).map
        (fun s => decide (0 ∉ s.table)) = .ok true)
    (by decide +kernel : (PageMapping.start (.cached 3) .zero none).map _ = .ok true)
  obtain ⟨t₀, ht₀, hrun'⟩ := Except.exists_of_map
    (p := fun t₀ => (run (Config.cached 3).withoutCMT .zero t₀
      (calls [.write (.page 0), .write (.page 1), .trim (.page 0), .write (.page 0)])).map
        (fun t => decide (0 ∈ t.table)) = .ok true)
    (by decide +kernel :
      (PageMapping.start (Config.cached 3).withoutCMT .zero none).map _ = .ok true)
  obtain ⟨s, hs, hlost⟩ := Except.exists_of_map hrun
  obtain ⟨t, ht, hmem⟩ := Except.exists_of_map hrun'
  refine ⟨s₀, t₀, s, t, hs₀, ht₀, hs, ht, fun hsame => hlost ?_⟩
  have : (0 : Nat) ∈ t.mapped := hmem
  rw [← hsame] at this
  exact this

end Reachable

end SimpleSSD.FTL
