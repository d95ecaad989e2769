import SimpleSSD.FTL.CollectPath
import SimpleSSD.FTL.FlashArray
import SimpleSSD.FTL.Mapping

/-!
# What the functions of the FTL do to the flash array

A function of the page mapping takes the array along a path of `FlashArray.Step`.
Collections do so unconditionally: they read pages that are valid and program
pages at the write pointer. A read and the read of an old page by a partial write
follow a mapping, and need that the page it names is programmed.
-/

namespace SimpleSSD.FTL

open FlashArray (Path Step)

namespace PageMapping

/-- The flash array that the metadata of an FTL describe, between two calls. -/
def flash (cfg : Config) (s : PageMapping) : FlashArray := s.pool.flash cfg [] s.trace

/-- The blocks stay as they are and the flash is not called. -/
def Quiet (s s' : PageMapping) : Prop :=
  s'.pool.blocks = s.pool.blocks ∧
    ∃ events, s'.trace = events ++ s.trace ∧ ∀ e ∈ events, e.palRequest = none

section Quiet

variable {cfg : Config} {s s₁ s' : PageMapping}

theorem Quiet.refl (s : PageMapping) : Quiet s s := ⟨rfl, [], rfl, by simp⟩

theorem Quiet.trans (h : Quiet s s₁) (h' : Quiet s₁ s') : Quiet s s' := by
  obtain ⟨hpool, events, htrace, hevents⟩ := h
  obtain ⟨hpool', events', htrace', hevents'⟩ := h'
  refine ⟨hpool'.trans hpool, events' ++ events, by rw [htrace', htrace, List.append_assoc], ?_⟩
  intro e he
  exact (List.mem_append.mp he).elim (hevents' e) (hevents e)

theorem Quiet.log {e : Event} (he : e.palRequest = none) (s : PageMapping) : Quiet s (s.log e) :=
  ⟨rfl, [e], rfl, by simpa using he⟩

/-- Nothing happens to the array but the calls to other devices. -/
theorem Quiet.path (due : List PAL.Request) (h : Quiet s s') :
    Path cfg (s.pool.flash cfg due s.trace) (s'.pool.flash cfg due s'.trace) := by
  obtain ⟨hpool, events, htrace, hevents⟩ := h
  rw [BlockPool.flash_congr hpool, htrace]
  exact Path.others (a := s.pool.flash cfg due s.trace) hevents

theorem Quiet.foldl {α : Type} {g : PageMapping → α → PageMapping} (hg : ∀ s a, Quiet s (g s a))
    (l : List α) (s : PageMapping) : Quiet s (l.foldl g s) := by
  induction l generalizing s with
  | nil => exact .refl s
  | cons a l ih => exact (hg s a).trans (ih (g s a))

theorem quiet_markDirty (s : PageMapping) (lpn : Nat) : Quiet s (s.markDirty lpn) :=
  ⟨rfl, [.dram, .updateDirty lpn], rfl, by simp [Event.palRequest]⟩

theorem quiet_handToCache (s : PageMapping) (lpn : Nat) : Quiet s (s.handToCache lpn) :=
  ⟨rfl, [.dram], rfl, by simp [Event.palRequest]⟩

end Quiet

section Read

variable {cfg : Config} {env : Env} {w : World} {req : Request} {s s' : PageMapping}

/-- The unit loop of a read. Only a device with one unit a page gets past
`Block::read`. -/
theorem readUnits_path {mapping : Nat → Except Fault (Nat × Nat)} {fill : Bool} {l : List Nat}
    {beginAt : Nat} {dead : Bool} (hwf : s.pool.WellFormed cfg)
    (hl : ∀ idx ∈ l, idx < cfg.bitsetSize)
    (hread : cfg.ioUnitInPage = 1 → ∀ page, mapping 0 = .ok page → cfg.InRange page →
      page.1 ∉ s.pool.erasedBlockId → (page, 0) ∈ s.pool.programmed cfg)
    (h : readUnits cfg env w req mapping fill l beginAt dead s = .ok s') :
    Path cfg (s.flash cfg) (s'.flash cfg) := by
  induction l generalizing s beginAt dead with
  | nil =>
    cases h
    exact .refl
  | cons idx rest ih =>
    have hrest :
        ∀ idx ∈ rest, idx < cfg.bitsetSize := fun i hi => hl i (List.mem_cons_of_mem idx hi)
    rcases readUnits_cons cfg env w h with
      ⟨-, h⟩ | ⟨hwant, page, hpage, ⟨-, h⟩ | ⟨-, -, rfl⟩ |
        ⟨hrange, hmem, b, r, beginAt', dead', hb, hr, h⟩⟩
    · exact ih hwf hrest hread h
    · exact ih hwf hrest hread h
    · rw [flash, flash, fillMapping_pool, fillMapping_trace]
    · have htouch : b.Touch r.2 := (b.read_sat page.2 idx).of_ok hr
      have hone : cfg.ioUnitInPage = 1 :=
        (hwf.used _ _ hb).2.symm.trans (Block.read_spec (v := r.1) hr).1
      have hsize := Config.bitsetSize_one hone
      obtain rfl : idx = 0 := by
        have hlt := hl idx List.mem_cons_self
        omega
      have hpool : (s.afterRead cfg env w req fill page 0 beginAt dead r.2).pool =
          s.pool.putBlock page.1 r.2 := by simp [afterRead]
      have htrace : (s.afterRead cfg env w req fill page 0 beginAt dead r.2).trace =
          .palRead ⟨page.1, page.2, palFlag cfg req.ioFlag 0⟩ :: s.trace := by
        simp [afterRead, log]
      have hflash : ∀ trace, (s.pool.putBlock page.1 r.2).flash cfg [] trace =
          s.pool.flash cfg [] trace := fun trace => BlockPool.flash_touch [] trace hb htouch
      have hholds : s.pool.Holds cfg ⟨page.1, page.2, palFlag cfg req.ioFlag 0⟩ := by
        refine .of_units (BlockPool.units_palFlag _ (by omega) fun htweak => ?_)
          (hread hone page hpage hrange hmem)
        simpa [Request.wants, htweak] using hwant
      have hstep : Step cfg (s.flash cfg)
          ((s.afterRead cfg env w req fill page 0 beginAt dead r.2).flash cfg) := by
        rw [flash, flash, hpool, htrace, hflash]
        exact hholds.read hwf
      refine .head hstep (ih ?_ hrest ?_ h)
      · rw [hpool]
        exact BlockPool.wellFormed_access cfg hwf hb htouch.1
      · have hsame : (s.pool.putBlock page.1 r.2).programmed cfg = s.pool.programmed cfg :=
          congrArg FlashArray.programmed (hflash [])
        rw [hpool, hsame]
        exact hread

/-- A read whose page is programmed, wherever it is found. -/
theorem readInternal_path (hwf : s.pool.WellFormed cfg)
    (hread : cfg.ioUnitInPage = 1 → ∀ page, s.readMapping cfg req.lpn 0 = some page →
      cfg.InRange page → page.1 ∉ s.pool.erasedBlockId → (page, 0) ∈ s.pool.programmed cfg)
    (h : s.readInternal cfg env w req = .ok s') :
    Path cfg (s.flash cfg) (s'.flash cfg) := by
  -- the three branches run the unit loop after one DRAM access
  have hunits : ∀ {s₁ : PageMapping} {mapping : Nat → Except Fault (Nat × Nat)} {fill : Bool}
      {beginAt : Nat},
      readUnits cfg env w req mapping fill (List.range cfg.bitsetSize) beginAt false s₁ = .ok s' →
      s₁.pool = s.pool → s₁.trace = .dram :: s.trace →
      (∀ page, mapping 0 = .ok page → s.readMapping cfg req.lpn 0 = some page) →
      Path cfg (s.flash cfg) (s'.flash cfg) := by
    intro s₁ mapping fill beginAt h hpool htrace hmapping
    have hdram : Quiet s s₁ :=
      ⟨congrArg BlockPool.blocks hpool, [.dram], htrace, by simp [Event.palRequest]⟩
    refine (hdram.path []).trans (readUnits_path (hpool ▸ hwf) (fun i => List.mem_range.mp) ?_ h)
    rw [hpool]
    exact fun hone page hpage => hread hone page (hmapping page hpage)
  have hcached : s.cachedMapping cfg req.lpn =
      ((s.cmtHit cfg req.lpn).map MappingEntry.page).or
        ((s.shadowHit cfg req.lpn).map ShadowCacheEntry.page) := rfl
  rw [readInternal] at h
  cases hcmt : s.cmtHit cfg req.lpn with
  | some e =>
    simp only [hcmt] at h
    refine hunits h rfl rfl fun page hpage => ?_
    cases hpage
    rw [readMapping, hcached, hcmt]
    rfl
  | none =>
    simp only [hcmt] at h
    cases hshadow : s.shadowHit cfg req.lpn with
    | some e =>
      simp only [hshadow] at h
      refine hunits h rfl rfl fun page hpage => ?_
      cases hpage
      rw [readMapping, hcached, hcmt, hshadow]
      rfl
    | none =>
      simp only [hshadow] at h
      cases hvec : s.table.find? req.lpn with
      | some vec =>
        simp only [hvec] at h
        refine hunits h rfl rfl fun page hpage => ?_
        rw [readMapping, hcached, hcmt, hshadow, tableMapping, hvec]
        exact (mappingAt_sat vec 0).of_ok hpage
      | none =>
        simp only [hvec] at h
        cases h
        exact .refl

end Read

section Write

variable {cfg : Config} {env : Env} {w : World} {req : Request} {s s' : PageMapping}

/-- The lookup of a write calls no device. -/
theorem lookupForWrite_trace {send : Bool} :
    (s.lookupForWrite cfg env req send).All fun r => r.2.2.trace = s.trace := by
  refine Except.all_iff.mpr fun ⟨key, hit, s₁⟩ h => ?_
  cases lookupForWrite_cases h with
  | hit => cases send <;> rfl
  | _ => rfl

/-- A unit is programmed in the metadata, the rest of the page is read from the old
page if the request leaves it out, and the write follows. -/
theorem programUnit_path {mappingList : Option Nat} {blk idx : Nat}
    {locals locals' : WriteLocals} (hwf : s.pool.WellFormed cfg) (hidx : idx < cfg.bitsetSize)
    (hold : cfg.randomIOTweak = false → req.ioFlag.all = false → ∀ key vec old,
      mappingList = some key → s.table.find? key = some vec → vec[idx]? = some old →
        (old, idx) ∈ s.pool.programmed cfg)
    (h : programUnit cfg env w req true mappingList blk (locals, s) idx = .ok (locals', s')) :
    Path cfg (s.flash cfg) (s'.flash cfg) := by
  by_cases hwant : req.wants cfg idx = true
  · obtain ⟨key, vec, b, b', hkey, hvec, -, hb, hwrite, hpool, -, hsend, -⟩ :=
      programUnit_spec hwant h
    obtain ⟨⟨old, hget, htrace⟩, -⟩ := hsend rfl
    have hunits : cfg.units ⟨blk, b.pNextWritePageIndex idx, palFlag cfg req.ioFlag idx⟩ =
        {((blk, b.pNextWritePageIndex idx), idx)} :=
      BlockPool.units_palFlag (blk, b.pNextWritePageIndex idx) hidx fun htweak => by
        simpa [Request.wants, htweak] using hwant
    have hprogrammed := BlockPool.programmed_write hb hwrite hidx
    have hwf' : (s.pool.putBlock blk b').WellFormed cfg :=
      BlockPool.wellFormed_access cfg hwf hb (.write hwrite)
    have hprogram : Step cfg (s.flash cfg) ((s.pool.putBlock blk b').flash cfg
        [⟨blk, b.pNextWritePageIndex idx, palFlag cfg req.ioFlag idx⟩] s.trace) :=
      BlockPool.step_write [] s.trace hb hwrite hidx rfl hunits
    have hread : Path cfg ((s.pool.putBlock blk b').flash cfg
          [⟨blk, b.pNextWritePageIndex idx, palFlag cfg req.ioFlag idx⟩] s.trace)
        ((s.pool.putBlock blk b').flash cfg
          [⟨blk, b.pNextWritePageIndex idx, palFlag cfg req.ioFlag idx⟩]
          (s.readOldUnits cfg req old).trace) := by
      rw [readOldUnits]
      split
      · next hpartial =>
        obtain ⟨htweak, hall⟩ : cfg.randomIOTweak = false ∧ req.ioFlag.all = false := by
          simpa using hpartial
        have hone : cfg.bitsetSize = 1 := by simp [Config.bitsetSize, htweak]
        obtain rfl : idx = 0 := by omega
        have hmem : (old, 0) ∈ (s.pool.putBlock blk b').programmed cfg := by
          rw [hprogrammed]
          exact .inl (hold htweak hall key vec old hkey hvec hget)
        have hholds : (s.pool.putBlock blk b').Holds cfg ⟨old.1, old.2, req.ioFlag.flip⟩ :=
          .of_units (BlockPool.units_one _ hone fun h => by simp [htweak] at h) hmem
        exact .single (hholds.read hwf')
      · exact .refl
    have hflush : Path cfg ((s.pool.putBlock blk b').flash cfg
          [⟨blk, b.pNextWritePageIndex idx, palFlag cfg req.ioFlag idx⟩]
          (s.readOldUnits cfg req old).trace) (s'.flash cfg) := by
      rw [flash, hpool, htrace]
      refine BlockPool.path_flush hwf' fun r hr => ?_
      obtain rfl := List.mem_singleton.mp hr
      refine .of_units hunits ?_
      rw [hprogrammed]
      exact .inr rfl
    exact .head hprogram (hread.trans hflush)
  · rw [programUnit] at h
    simp only [hwant] at h
    cases h
    exact .refl

/-- The vector that a harmless lookup ends at is that of the written page. -/
theorem LooksUp.entry_eq {key : Option Nat} {s₁ : PageMapping} {page : Nat × Nat} {k : Nat}
    {vec : List (Nat × Nat)} (hs₁ : LooksUp cfg s req.lpn key s₁) (hhit : WriteHitsFirst cfg req s)
    (hpage : s.lookup req.lpn = some page) (hkey : key = some k)
    (hvec : s₁.table.find? k = some vec) : vec[0]? = some page := by
  have hk : k = req.lpn := by
    have hwritten := hs₁.key_eq
    rw [hhit.writtenKey_eq, hkey] at hwritten
    exact Option.some.inj hwritten
  have hentry : s.table.find? req.lpn = some vec := by
    rw [hk, hs₁.table, hhit.readMapping_eq, hpage, if_neg (by simp)] at hvec
    exact hvec
  rw [lookup, tableMapping, hentry, Option.bind_some] at hpage
  exact hpage

/-- A write whose old page is programmed, if it has to be read. -/
theorem programPage_path (hwf : s.pool.WellFormed cfg)
    (hold : cfg.randomIOTweak = false → req.ioFlag.all = false → WriteHitsFirst cfg req s ∧
      ∃ page, s.lookup req.lpn = some page ∧ (page, 0) ∈ s.pool.programmed cfg)
    (h : s.programPage cfg env w req true = .ok s') :
    Path cfg (s.flash cfg) (s'.flash cfg) := by
  obtain ⟨key, hit, s₁, blk, pool, locals, hlook, halloc, -, hloop⟩ := programPage_cases h
  have hwf₁ : s₁.pool.WellFormed cfg :=
    ((BlockPool.wellFormed_access cfg).touch.lookupForWrite hwf).of_ok hlook
  have hflash₁ : s₁.pool.flash cfg [] s.trace = s.flash cfg :=
    ((BlockPool.describes_touch (s.flash cfg)).lookupForWrite (s := s) rfl).of_ok hlook
  have hprogrammed₁ : s₁.pool.programmed cfg = s.pool.programmed cfg :=
    congrArg FlashArray.programmed hflash₁
  have htrace₁ : s₁.trace = s.trace := lookupForWrite_trace.of_ok hlook
  obtain ⟨hopen, hsame⟩ :=
    BlockPool.path_getLastFreeBlock [] s₁.trace hwf₁ halloc
  have hwf₂ : pool.WellFormed cfg :=
    ((BlockPool.wellFormed_invariant cfg env).allocate hwf₁ trivial).of_ok halloc
  rw [htrace₁, hflash₁, ← htrace₁] at hopen
  have hquiet : Quiet ({ s₁ with pool := pool } : PageMapping) (s₁.programStart true pool) :=
    (Quiet.log rfl _).trans (Quiet.log rfl _)
  have hpool₂ : (s₁.programStart true pool).pool = pool := programStart_pool pool
  have htable₂ : (s₁.programStart true pool).table = s₁.table := programStart_table pool
  generalize s₁.programStart true pool = s₂ at hloop hquiet hpool₂ htable₂
  -- without the tweak the loop has one iteration, and the entry it meets is the old one
  have hold₂ : cfg.randomIOTweak = false → req.ioFlag.all = false → ∀ k vec old,
      key = some k → s₂.table.find? k = some vec → vec[0]? = some old →
        (old, 0) ∈ s₂.pool.programmed cfg := by
    intro htweak hall k vec old hkey hvec hget
    obtain ⟨hhit, page, hpage, hprogrammed⟩ := hold htweak hall
    have hone : cfg.bitsetSize = 1 := by simp [Config.bitsetSize, htweak]
    have hwant : req.wants cfg 0 = true := by simp [Request.wants, htweak]
    have hlooks := lookupForWrite_spec hone hwant hwf (.inl rfl) hlook
    rw [htable₂] at hvec
    rw [hlooks.entry_eq hhit hpage hkey hvec] at hget
    cases hget
    rw [hpool₂, hsame, hprogrammed₁]
    exact hprogrammed
  have hend := Run.foldlM_range (I := fun n acc =>
    (Path cfg (s.flash cfg) (acc.2.flash cfg) ∧ acc.2.pool.WellFormed cfg) ∧
      (n = 0 → acc.2 = s₂)) ?_ ⟨⟨hopen.trans (hquiet.path []), hpool₂ ▸ hwf₂⟩, fun _ => rfl⟩ hloop
  · exact hend.1.1
  · rintro idx ⟨locals, s₃⟩ ⟨locals', s₄⟩ hidx ⟨⟨hpath, hwf₃⟩, hfirst⟩ hstep
    refine ⟨⟨hpath.trans (programUnit_path hwf₃ hidx (fun htweak hall => ?_) hstep), ?_⟩,
      fun h => absurd h (Nat.succ_ne_zero idx)⟩
    · have hone : cfg.bitsetSize = 1 := by simp [Config.bitsetSize, htweak]
      obtain rfl : idx = 0 := by omega
      obtain rfl : s₃ = s₂ := hfirst rfl
      exact hold₂ htweak hall
    · exact ((BlockPool.wellFormed_access cfg).programUnit (locals, s₃) idx hwf₃).of_ok hstep

end Write

/-! ### Collections -/

/-- In the middle of a collection that began with the array `a`: the copies are
programmed and their writes are due, and every request queued names programmed pages. -/
structure Queued (cfg : Config) (a : FlashArray) (acc : GcLocals × PageMapping) : Prop where
  wf : acc.2.pool.WellFormed cfg
  path : Path cfg a (acc.2.pool.flash cfg acc.1.writeRequests acc.2.trace)
  reads : ∀ r ∈ acc.1.readRequests, acc.2.pool.Holds cfg r
  writes : ∀ r ∈ acc.1.writeRequests, acc.2.pool.Holds cfg r
  erases : ∀ r ∈ acc.1.eraseRequests, r.pageIndex = 0
  /-- `cachedGC` copies pages between blocks only if `blockToBlockMovement` is on. -/
  moves : cfg.evictPolicy = .cachedGC → cfg.blockToBlockMovement = false →
    acc.1.writeRequests = []

section Collect

variable {cfg : Config} {env : Env} {w : World} {a : FlashArray} {victim pageIndex : Nat}
  {bit : Bitset} {relocateCmt : Bool} {lpns : List Nat} {locals locals' : GcLocals}
  {s s' : PageMapping} {acc acc' : GcLocals × PageMapping}

/-- A mode in which pages are copied between blocks. -/
def Copying (cfg : Config) : Prop :=
  cfg.evictPolicy = .cachedGC → cfg.blockToBlockMovement = true

theorem Queued.copyUnit {blk idx : Nat} (hs : Queued cfg a (locals, s)) (hmode : Copying cfg)
    (hidx : idx < cfg.bitsetSize)
    (h : PageMapping.copyUnit cfg victim pageIndex blk lpns bit relocateCmt (locals, s) idx =
      .ok (locals', s')) : Queued cfg a (locals', s') := by
  by_cases hbit : bit.test idx = true
  · obtain ⟨lpn, vec, v, b, b', -, -, -, hv, hb, hwrite, hpool, -, -, -, rfl, htrace⟩ :=
      copyUnit_spec hbit h
    have htouch : v.Touch (v.invalidate pageIndex idx) := .invalidate v pageIndex idx
    have hwf₁ := BlockPool.wellFormed_access cfg hs.wf hv htouch.1
    have hunits : cfg.units ⟨blk, b.pNextWritePageIndex idx, palFlag cfg bit idx⟩ =
        {((blk, b.pNextWritePageIndex idx), idx)} :=
      BlockPool.units_palFlag (blk, b.pNextWritePageIndex idx) hidx fun _ => hbit
    have hprogrammed : s'.pool.programmed cfg =
        s.pool.programmed cfg ∪ {((blk, b.pNextWritePageIndex idx), idx)} := by
      rw [hpool, BlockPool.programmed_write hb hwrite hidx]
      exact congrArg (· ∪ _) (congrArg FlashArray.programmed
        (BlockPool.flash_touch [] [] hv htouch))
    have hstep := BlockPool.step_write locals.writeRequests s.trace
      (r := ⟨blk, b.pNextWritePageIndex idx, palFlag cfg bit idx⟩) hb hwrite hidx rfl hunits
    rw [BlockPool.flash_touch _ _ hv htouch, ← hpool] at hstep
    have hsub : s.pool.programmed cfg ⊆ s'.pool.programmed cfg :=
      hprogrammed ▸ Set.subset_union_left
    refine ⟨?_, ?_, fun r hr => (hs.reads r hr).mono hsub, fun r hr => ?_, hs.erases,
      fun hcached hmove => ?_⟩
    · show s'.pool.WellFormed cfg
      rw [hpool]
      exact BlockPool.wellFormed_access cfg hwf₁ hb (.write hwrite)
    · show Path cfg a (s'.pool.flash cfg (locals.writeRequests ++ [_]) s'.trace)
      rw [htrace]
      exact (hs.path.tail hstep).tail (.other _ .dram rfl)
    · rcases List.mem_append.mp hr with hr | hr
      · exact (hs.writes r hr).mono hsub
      · obtain rfl := List.mem_singleton.mp hr
        refine .of_units hunits ?_
        rw [hprogrammed]
        exact .inr rfl
    · rw [hmode hcached] at hmove
      cases hmove
  · rw [PageMapping.copyUnit] at h
    simp only [hbit] at h
    cases h
    exact hs

theorem Queued.copyPage (hs : Queued cfg a (locals, s)) (hmode : Copying cfg)
    (h : PageMapping.copyPage cfg env victim pageIndex lpns bit relocateCmt (locals, s) =
      .ok acc') : Queued cfg a acc' := by
  rw [PageMapping.copyPage, Except.bind_eq_ok] at h
  obtain ⟨⟨blk, pool⟩, halloc, h⟩ := h
  obtain ⟨hopen, hsame⟩ := BlockPool.path_getLastFreeBlock locals.writeRequests
    s.trace hs.wf halloc
  have hopened : Queued cfg a (locals, { s with pool := pool }) := by
    have hsub : s.pool.programmed cfg ⊆ pool.programmed cfg := hsame.ge
    exact ⟨((BlockPool.wellFormed_invariant cfg env).allocate hs.wf trivial).of_ok halloc,
      hs.path.trans hopen, fun r hr => (hs.reads r hr).mono hsub,
      fun r hr => (hs.writes r hr).mono hsub, hs.erases, hs.moves⟩
  refine Run.foldlM_range (I := fun _ acc => Queued cfg a acc) ?_ hopened h
  rintro idx ⟨locals, s⟩ ⟨locals', s'⟩ hidx hacc hstep
  exact hacc.copyUnit hmode hidx hstep

/-- The read of a valid page of a victim is queued. -/
theorem Queued.read {b : Block} (hs : Queued cfg a (locals, s))
    (hb : s.pool.blocks.find? victim = some b) (hone : cfg.ioUnitInPage = 1)
    (hvalid : (pageIndex, 0) ∈ b.validBits) (hflag : bit.test 0 = true)
    (hreads : locals'.readRequests = locals.readRequests ++ [⟨victim, pageIndex, bit⟩])
    (hwrites : locals'.writeRequests = locals.writeRequests)
    (herases : locals'.eraseRequests = locals.eraseRequests) : Queued cfg a (locals', s) := by
  have hsize := Config.bitsetSize_one hone
  have hholds : s.pool.Holds cfg ⟨victim, pageIndex, bit⟩ :=
    .of_units (BlockPool.units_one (victim, pageIndex) hsize fun _ => hflag)
      ⟨by omega, b, hb, b.valid_lt _ hvalid⟩
  refine ⟨hs.wf, ?_, fun r hr => ?_, ?_, ?_, fun hcached hmove => ?_⟩
  · rw [hwrites]
    exact hs.path
  · rw [hreads] at hr
    rcases List.mem_append.mp hr with hr | hr
    · exact hs.reads r hr
    · obtain rfl := List.mem_singleton.mp hr
      exact hholds
  · rw [hwrites]
    exact hs.writes
  · rw [herases]
    exact hs.erases
  · rw [hwrites]
    exact hs.moves hcached hmove

/-- The locals that are no requests. -/
theorem Queued.congr (hs : Queued cfg a (locals, s))
    (hreads : locals'.readRequests = locals.readRequests)
    (hwrites : locals'.writeRequests = locals.writeRequests)
    (herases : locals'.eraseRequests = locals.eraseRequests) : Queued cfg a (locals', s) := by
  refine ⟨hs.wf, ?_, ?_, ?_, ?_, ?_⟩
  · rw [hwrites]
    exact hs.path
  · rw [hreads]
    exact hs.reads
  · rw [hwrites]
    exact hs.writes
  · rw [herases]
    exact hs.erases
  · rw [hwrites]
    exact hs.moves

theorem Queued.reclaimPage (hs : Queued cfg a (locals, s)) (hmode : cfg.evictPolicy ≠ .cachedGC)
    (h : PageMapping.reclaimPage cfg env victim (locals, s) pageIndex = .ok acc') :
    Queued cfg a acc' := by
  rw [PageMapping.reclaimPage] at h
  split at h
  · cases h
  next b hb =>
  rw [Except.bind_eq_ok] at h
  obtain ⟨r, hr, h⟩ := h
  simp only at h
  split at h
  · rw [Except.bind_eq_ok] at h
    obtain ⟨v, hv, h⟩ := h
    obtain ⟨hunit, rfl⟩ := (b.isPageValid_sat pageIndex).of_ok hv
    obtain ⟨-, rfl⟩ := (b.getPageInfo_sat pageIndex _).of_ok hr hunit
    have hone : cfg.ioUnitInPage = 1 := (hs.wf.used _ _ hb).2.symm.trans hunit
    split at h
    · next hvalid =>
      have hvalid := of_decide_eq_true hvalid
      rw [fullFlag_eq] at h
      refine Queued.copyPage ?_ (fun h => absurd h hmode) h
      exact hs.read hb hone hvalid (fullMap_test hone) rfl rfl rfl
    · cases h
      exact hs.congr rfl rfl rfl
  · cases h
    exact hs.congr rfl rfl rfl

theorem Queued.reclaimCachedPage (hs : Queued cfg a (locals, s))
    (h : PageMapping.reclaimCachedPage cfg env w victim (locals, s) pageIndex = .ok acc') :
    Queued cfg a acc' := by
  rw [PageMapping.reclaimCachedPage] at h
  split at h
  · cases h
  next b hb =>
  rw [Except.bind_eq_ok] at h
  obtain ⟨c, hc, h⟩ := h
  obtain ⟨hunit, rfl⟩ := (b.isCached_sat pageIndex).of_ok hc
  have hone : cfg.ioUnitInPage = 1 := (hs.wf.used _ _ hb).2.symm.trans hunit
  split at h
  · split at h
    · cases h
    · cases h
      exact hs.congr rfl rfl rfl
  rw [Except.bind_eq_ok] at h
  obtain ⟨v, hv, h⟩ := h
  obtain ⟨-, rfl⟩ := (b.isPageValid_sat pageIndex).of_ok hv
  split at h
  · next hvalid =>
    have hvalid := of_decide_eq_true hvalid
    rw [Except.bind_eq_ok] at h
    obtain ⟨r, hr, h⟩ := h
    obtain ⟨-, rfl⟩ := (b.getPageInfo_sat pageIndex _).of_ok hr hunit
    simp only [fullFlag_eq, List.getElem?_cons_zero] at h
    split at h
    · split at h
      · next hmove =>
        split at h
        · refine Queued.copyPage ?_ (fun _ => hmove) h
          exact hs.read hb hone hvalid (fullMap_test hone) rfl rfl rfl
        · cases h
          exact hs.read hb hone hvalid (fullMap_test hone) rfl rfl rfl
      · cases h
        exact hs.read hb hone hvalid (fullMap_test hone) rfl rfl rfl
    · cases h
      exact hs.congr rfl rfl rfl
  · cases h
    exact hs

theorem Queued.scanVictim (hs : Queued cfg a acc)
    (h : PageMapping.scanVictim cfg env w acc victim = .ok acc') : Queued cfg a acc' := by
  obtain ⟨-, locals, s, hloop, rfl⟩ := scanVictim_ok h
  have hend : Queued cfg a (locals, s) := by
    refine Run.foldlM_inv (I := Queued cfg a) (fun acc pageIndex acc' hacc hstep => ?_) hs hloop
    rw [PageMapping.scanPage] at hstep
    split at hstep
    · exact hacc.reclaimCachedPage hstep
    · next hmode => exact hacc.reclaimPage hmode hstep
  refine ⟨hend.wf, hend.path, hend.reads, hend.writes, fun r hr => ?_, hend.moves⟩
  rcases List.mem_append.mp hr with hr | hr
  · exact hend.erases r hr
  · rw [List.mem_singleton.mp hr]

/-- Erasing the victims when no write is due. -/
theorem foldlM_eraseInternal_path {l : List PAL.Request} (hpages : 0 < cfg.pagesInBlock)
    (hl : ∀ r ∈ l, r.pageIndex = 0) (hwf : s.pool.WellFormed cfg)
    (h : l.foldlM (eraseInternal cfg) s = .ok s') : Path cfg (s.flash cfg) (s'.flash cfg) := by
  induction l generalizing s with
  | nil =>
    cases h
    exact .refl
  | cons r l ih =>
    rw [List.foldlM_cons, Except.bind_eq_ok] at h
    obtain ⟨s₁, h₁, h⟩ := h
    have hwf₁ : s₁.pool.WellFormed cfg :=
      ((BlockPool.wellFormed_invariant cfg .zero).calls.eraseInternal s r hwf).of_ok h₁
    rw [eraseInternal, Except.bind_eq_ok] at h₁
    obtain ⟨pool, herase, h₁⟩ := h₁
    cases h₁
    have hlist : BlockPool.WellFormed cfg
        { s.pool with erasedBlockId := s.pool.erasedBlockId ++ [r.blockIndex] } :=
      ⟨hwf.toPartitioned.congr rfl rfl rfl rfl, hwf.toFormatted.congr rfl rfl, hwf.lane_size⟩
    have hpage : r.pageIndex < cfg.pagesInBlock := by
      rw [hl r List.mem_cons_self]
      exact hpages
    have hstep := BlockPool.step_eraseBlock s.trace hlist hpage herase
    exact .head hstep (ih (fun r' hr' => hl r' (List.mem_cons_of_mem r hr')) hwf₁ h)

/-- The queued reads, then the queued writes, then the erases. -/
theorem Queued.finishCollection (hs : Queued cfg a (locals, s)) (hpages : 0 < cfg.pagesInBlock)
    (h : PageMapping.finishCollection cfg locals s = .ok s') : Path cfg a (s'.flash cfg) := by
  simp only [PageMapping.finishCollection, foldl_log] at h
  have hread : Path cfg a (s.pool.flash cfg locals.writeRequests
      ((locals.readRequests.map .palRead).reverse ++ s.trace)) :=
    hs.path.trans (BlockPool.path_reads hs.wf hs.reads)
  have hwrite := hread.trans (BlockPool.path_flush hs.wf hs.writes)
  have herase := foldlM_eraseInternal_path hpages hs.erases (by exact hs.wf) h
  exact hwrite.trans herase

theorem Queued.finishCachedCollection (hs : Queued cfg a (locals, s))
    (hmode : cfg.evictPolicy = .cachedGC) (hpages : 0 < cfg.pagesInBlock)
    (h : PageMapping.finishCachedCollection cfg locals s = .ok s') : Path cfg a (s'.flash cfg) := by
  simp only [PageMapping.finishCachedCollection, foldl_log] at h
  rw [Except.bind_eq_ok] at h
  obtain ⟨s₂, herase, h⟩ := h
  cases h
  obtain ⟨s₁, hs₁⟩ : ∃ s₁, s₁ = locals.cachedValidLPN.foldl markDirty s := ⟨_, rfl⟩
  rw [← hs₁] at herase
  have hdirty : Quiet s s₁ := hs₁ ▸ Quiet.foldl quiet_markDirty _ s
  have hpool : ∀ due trace, s₁.pool.flash cfg due trace = s.pool.flash cfg due trace :=
    fun due trace => BlockPool.flash_congr hdirty.1
  have hread : Path cfg a (s.pool.flash cfg locals.writeRequests
      ((locals.readRequests.map .palRead).reverse ++ s₁.trace)) := by
    have hquiet : Path cfg (s.pool.flash cfg locals.writeRequests s.trace) _ :=
      hdirty.path locals.writeRequests
    rw [hpool] at hquiet
    exact (hs.path.trans hquiet).trans (BlockPool.path_reads hs.wf hs.reads)
  have hwf₁ : s₁.pool.WellFormed cfg := by
    obtain ⟨trace, hmark⟩ := foldl_markDirty locals.cachedValidLPN s
    rw [hs₁, hmark]
    exact hs.wf
  have herased : Path cfg a (s₂.flash cfg) := by
    by_cases hmove : cfg.blockToBlockMovement = true
    · rw [if_pos hmove] at herase
      have hwrite := hread.trans (BlockPool.path_flush hs.wf hs.writes)
      rw [← hpool] at hwrite
      have herase := foldlM_eraseInternal_path hpages hs.erases (by exact hwf₁) herase
      exact hwrite.trans herase
    · rw [if_neg hmove] at herase
      -- nothing was copied, so no write is due
      have hnone : locals.writeRequests = [] := hs.moves hmode (by simpa using hmove)
      rw [hnone, ← hpool] at hread
      have herase := foldlM_eraseInternal_path hpages hs.erases (by exact hwf₁) herase
      exact hread.trans herase
  have hhand : Quiet s₂ _ := Quiet.foldl quiet_handToCache
    (if cfg.blockToBlockMovement then locals.lpnListForCache else locals.lpa_list) s₂
  exact herased.trans (hhand.path [])

/-- A collection drives the flash by the rules, whatever it collects. -/
theorem doGarbageCollection_path {victims : List Nat} (hwf : s.pool.WellFormed cfg)
    (hpages : victims ≠ [] → 0 < cfg.pagesInBlock)
    (h : doGarbageCollection cfg env w victims s = .ok s') :
    Path cfg (s.flash cfg) (s'.flash cfg) := by
  rcases doGarbageCollection_cases h with rfl | ⟨locals, s₁, -, hne, hloop, h⟩
  · exact .refl
  have hstart : Queued cfg (s.flash cfg) (.empty, s) :=
    ⟨hwf, .refl, by simp [GcLocals.empty], by simp [GcLocals.empty], by simp [GcLocals.empty],
      fun _ _ => rfl⟩
  have hend : Queued cfg (s.flash cfg) (locals, s₁) :=
    Run.foldlM_inv (fun _ _ _ hacc hstep => hacc.scanVictim hstep) hstart hloop
  rcases h with ⟨hmode, h⟩ | ⟨-, h⟩
  · exact hend.finishCachedCollection hmode (hpages hne) h
  · exact hend.finishCollection (hpages hne) h

end Collect

end PageMapping

end SimpleSSD.FTL
