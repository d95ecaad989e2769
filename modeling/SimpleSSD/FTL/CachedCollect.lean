import SimpleSSD.FTL.Reclaim

/-!
# What a collection in `cachedGC` mode does with a page

The pages of the victims are read off the state in which the collection begins.
A valid page without its cached bit is copied to another block or queued for the
cache. A page with its cached bit stays behind, and the LPN that is passed to
`updateDirty` for it is the one that the last page without the bit left in
`lpns` (page_mapping.cc:1081–1178); before the first such page `lpns` is empty,
and its element 0 is read all the same.

`Collectable` says when the collection returns (`cachedCollection_ok`), and
`cachedCollection_spec` says of one that has returned, for every LPN, whether it is
queued, passed to `updateDirty`, or still mapped to a page that stores it.
-/

namespace SimpleSSD.FTL

/-! ### The LPNs passed to `updateDirty` -/

/-- The LPN of an `updateDirty` event. -/
def Event.marked : Event → Option Nat
  | .updateDirty lpn => some lpn
  | _ => none

namespace PageMapping

/-- Between two states the FTL has passed these LPNs to `updateDirty`, in order. -/
def Marks (s : PageMapping) (lpns : List Nat) (s' : PageMapping) : Prop :=
  ∃ events, s'.trace = events ++ s.trace ∧ events.reverse.filterMap Event.marked = lpns

section Marks

variable {s s' s'' : PageMapping} {l l' : List Nat}

theorem Marks.of_eq (h : s'.trace = s.trace) : Marks s [] s' := ⟨[], h, rfl⟩

theorem Marks.trans (h : Marks s l s') (h' : Marks s' l' s'') : Marks s (l ++ l') s'' := by
  obtain ⟨events, htrace, rfl⟩ := h
  obtain ⟨events', htrace', rfl⟩ := h'
  exact ⟨events' ++ events, by rw [htrace', htrace, List.append_assoc], by simp⟩

/-- Other calls of the device. -/
theorem Marks.of_events {events : List Event} (h : s'.trace = events ++ s.trace)
    (hother : ∀ e ∈ events, e.marked = none) : Marks s [] s' := by
  refine ⟨events, h, List.filterMap_eq_nil_iff.mpr fun e he => ?_⟩
  exact hother e (List.mem_reverse.mp he)

theorem marks_foldl_markDirty (lpns : List Nat) (s : PageMapping) :
    Marks s lpns (lpns.foldl markDirty s) := by
  induction lpns generalizing s with
  | nil => exact .of_eq rfl
  | cons lpn lpns ih =>
    have hfirst : Marks s [lpn] (s.markDirty lpn) := ⟨[.dram, .updateDirty lpn], rfl, rfl⟩
    exact hfirst.trans (ih _)

theorem marks_foldl_handToCache (lpns : List Nat) (s : PageMapping) :
    Marks s [] (lpns.foldl handToCache s) := by
  induction lpns generalizing s with
  | nil => exact .of_eq rfl
  | cons lpn lpns ih =>
    have hfirst : Marks s [] (s.handToCache lpn) := ⟨[.dram], rfl, rfl⟩
    exact hfirst.trans (ih _)

theorem marks_foldl_log {α : Type} {g : α → Event} (hg : ∀ a, (g a).marked = none) (l : List α)
    (s : PageMapping) : Marks s [] (l.foldl (fun s a => s.log (g a)) s) := by
  rw [foldl_log]
  refine .of_events rfl fun e he => ?_
  obtain ⟨a, -, rfl⟩ := List.mem_map.mp (List.mem_reverse.mp he)
  exact hg a

theorem marks_foldlM_eraseInternal {cfg : Config} (reqs : List PAL.Request)
    (h : reqs.foldlM (eraseInternal cfg) s = .ok s') : Marks s [] s' := by
  refine Run.foldlM_inv (I := Marks s []) (fun s₁ req s₂ hs₁ hstep => ?_) (.of_eq rfl) h
  rw [eraseInternal, Except.bind_eq_ok] at hstep
  obtain ⟨pool, -, hstep⟩ := hstep
  cases hstep
  have herase : Marks s₁ [] ({ s₁ with pool := pool }.log (.palErase req)) :=
    ⟨[.palErase req], rfl, rfl⟩
  exact hs₁.trans herase

/-- The end of a collection in `cachedGC` mode passes `cachedValidLPN` on. -/
theorem marks_finishCachedCollection {cfg : Config} {locals : GcLocals}
    (h : finishCachedCollection cfg locals s = .ok s') : Marks s locals.cachedValidLPN s' := by
  rw [finishCachedCollection] at h
  dsimp only at h
  rw [Except.bind_eq_ok] at h
  obtain ⟨s₁, herase, h⟩ := h
  cases h
  have hdirty := marks_foldl_markDirty locals.cachedValidLPN s
  have hread := hdirty.trans (marks_foldl_log (g := .palRead) (fun _ => rfl) locals.readRequests _)
  have hwrite : Marks s locals.cachedValidLPN s₁ := by
    split at herase
    · have hboth := hread.trans
        (marks_foldl_log (g := .palWrite) (fun _ => rfl) locals.writeRequests _)
      simpa using hboth.trans (marks_foldlM_eraseInternal _ herase)
    · simpa using hread.trans (marks_foldlM_eraseInternal _ herase)
  have hmove := hwrite.trans (marks_foldl_handToCache
    (if cfg.blockToBlockMovement then locals.lpnListForCache else locals.lpa_list) s₁)
  rw [List.append_nil] at hmove
  exact hmove

/-- A read passes nothing to `updateDirty`. -/
theorem marks_readUnits {cfg : Config} {env : Env} {w : World} {req : Request}
    {mapping : Nat → Except Fault (Nat × Nat)} {fill : Bool} {l : List Nat} {beginAt : Nat}
    {dead : Bool} (h : readUnits cfg env w req mapping fill l beginAt dead s = .ok s') :
    Marks s [] s' := by
  induction l generalizing s beginAt dead with
  | nil =>
    cases h
    exact .of_eq rfl
  | cons idx rest ih =>
    rcases readUnits_cons cfg env w h with ⟨-, h⟩ | ⟨-, page, -, h⟩
    · exact ih h
    · rcases h with ⟨-, h⟩ | ⟨-, -, rfl⟩ | ⟨-, -, b, r, beginAt', dead', -, -, h⟩
      · exact ih h
      · exact .of_eq (fillMapping_trace ..)
      · have htrace : (s.afterRead cfg env w req fill page idx beginAt dead r.2).trace =
            [.palRead ⟨page.1, page.2, palFlag cfg req.ioFlag idx⟩] ++ s.trace := by
          simp [afterRead, log]
        have hread : Marks s [] (s.afterRead cfg env w req fill page idx beginAt dead r.2) := by
          refine .of_events htrace fun e he => ?_
          rw [List.mem_singleton.mp he]
          rfl
        exact hread.trans (ih h)

theorem marks_read {cfg : Config} {env : Env} {w : World} {req : Request}
    (h : s.read cfg env w req = .ok s') : Marks s [] s' := by
  have hunits : ∀ {s₁ : PageMapping} {mapping : Nat → Except Fault (Nat × Nat)} {fill : Bool}
      {beginAt : Nat}, s₁.trace = .dram :: s.trace →
      readUnits cfg env w req mapping fill (List.range cfg.bitsetSize) beginAt false s₁ = .ok s' →
      Marks s [] s' := fun htrace h =>
    Marks.trans ⟨[.dram], htrace, rfl⟩ (marks_readUnits h)
  rw [read] at h
  split at h
  · rw [readInternal] at h
    split at h
    · exact hunits rfl h
    · split at h
      · exact hunits rfl h
      · split at h
        · exact hunits rfl h
        · cases h
          exact .of_eq rfl
  · cases h
    exact .of_eq rfl

end Marks

/-! ### The pages of the victims -/

/-- The pages of the victims in the order of the scan. -/
def scanOrder (cfg : Config) (victims : List Nat) : List (Nat × Nat) :=
  victims.flatMap fun victim => (List.range cfg.pagesInBlock).map fun i => (victim, i)

/-- The page belongs to a block in use and has its cached bit set. -/
def CachedPage (s : PageMapping) (page : Nat × Nat) : Prop :=
  ∃ b ∈ s.pool.blocks.find? page.1, page.2 ∈ b.pCachedBits

/-- The LPN that a page stores, if it is valid and its cached bit is clear. -/
def uncachedAt (s : PageMapping) (page : Nat × Nat) : Option Nat :=
  (s.pool.blocks.find? page.1).bind fun b =>
    if page.2 ∈ b.pCachedBits then none else b.contentAt page.2

/-- What `lpns` holds once the pages have been scanned. -/
def lastUncached (s : PageMapping) (pages : List (Nat × Nat)) : Option Nat :=
  (pages.filterMap s.uncachedAt).getLast?

/-- A page with its cached bit set is scanned while `lpns` holds this LPN. -/
def Blamed (s : PageMapping) (pages : List (Nat × Nat)) (l : Nat) : Prop :=
  ∃ before page, before ++ [page] <+: pages ∧ s.CachedPage page ∧ s.lastUncached before = some l

/-- A valid page without its cached bit stores this LPN. -/
def Uncached (s : PageMapping) (pages : List (Nat × Nat)) (l : Nat) : Prop :=
  ∃ page ∈ pages, s.uncachedAt page = some l

/-- `blockToBlockMovement` copies the pages of this LPN (page_mapping.cc:1102–1156). -/
def MovesBlock (cfg : Config) (w : World) (l : Nat) : Prop :=
  cfg.blockToBlockMovement = true ∧ w.lbaEvictionFrequency l ≤ 2

instance (cfg : Config) (w : World) (l : Nat) : Decidable (MovesBlock cfg w l) :=
  inferInstanceAs (Decidable (_ ∧ _))

/-- What the copy of a page does to the pool: the block that `getLastFreeBlock` hands
out takes the page (page_mapping.cc:1108–1150). -/
def copyOut (cfg : Config) (env : Env) (p : BlockPool) (page : Nat × Nat) (lpn : Nat) :
    Except Fault BlockPool := do
  let (blk, p) ← p.getLastFreeBlock cfg env (Bitset.new cfg.ioUnitInPage).setAll
  let p ← p.onBlock page.1 fun b => .ok (b.invalidate page.2 0)
  p.onBlock blk fun b => b.write (b.pNextWritePageIndex 0) lpn 0

/-- The pool behind a page of the scan. -/
def passPage (cfg : Config) (env : Env) (w : World) (s : PageMapping) (p : BlockPool)
    (page : Nat × Nat) : Except Fault BlockPool :=
  match s.uncachedAt page with
  | none => .ok p
  | some l => if MovesBlock cfg w l then copyOut cfg env p page l else .ok p

/-- The scan of these pages returns: the blocks have the bits that are asked, `lpns` is
read only behind a valid page without its cached bit, and every page that
`blockToBlockMovement` copies has a table entry and gets a block. -/
structure Collectable (cfg : Config) (env : Env) (w : World) (s : PageMapping)
    (pages : List (Nat × Nat)) : Prop where
  oneUnit : pages ≠ [] → cfg.ioUnitInPage = 1
  named (before : List (Nat × Nat)) (page : Nat × Nat) : before ++ [page] <+: pages →
    s.CachedPage page → ∃ l, s.lastUncached before = some l
  mapped (l : Nat) : s.Uncached pages l → MovesBlock cfg w l → ∃ x, s.lookup l = some x
  room : ∃ p, pages.foldlM (passPage cfg env w s) s.pool = .ok p

section Order

variable {s : PageMapping} {pages : List (Nat × Nat)} {page : Nat × Nat} {l : Nat}

theorem mem_scanOrder {cfg : Config} {victims : List Nat} :
    page ∈ scanOrder cfg victims ↔ page.1 ∈ victims ∧ page.2 < cfg.pagesInBlock := by
  obtain ⟨k, i⟩ := page
  simp [scanOrder]

theorem lastUncached_concat :
    s.lastUncached (pages ++ [page]) = (s.uncachedAt page).or (s.lastUncached pages) := by
  rw [lastUncached, List.filterMap_append]
  cases h : s.uncachedAt page with
  | none => simp [h, lastUncached]
  | some l => simp [h]

theorem uncached_concat :
    s.Uncached (pages ++ [page]) l ↔ s.Uncached pages l ∨ s.uncachedAt page = some l := by
  simp [Uncached, or_and_right, exists_or]

theorem blamed_concat : s.Blamed (pages ++ [page]) l ↔
    s.Blamed pages l ∨ s.CachedPage page ∧ s.lastUncached pages = some l := by
  simp only [Blamed, List.prefix_concat_iff]
  constructor
  · rintro ⟨before, other, heq | hpre, hcached, hlast⟩
    · obtain ⟨rfl, rfl⟩ := List.append_singleton_inj.mp heq
      exact .inr ⟨hcached, hlast⟩
    · exact .inl ⟨before, other, hpre, hcached, hlast⟩
  · rintro (⟨before, other, hpre, hcached, hlast⟩ | ⟨hcached, hlast⟩)
    · exact ⟨before, other, .inr hpre, hcached, hlast⟩
    · exact ⟨pages, page, .inl rfl, hcached, hlast⟩

theorem not_uncached_nil : ¬ s.Uncached [] l := by
  simp [Uncached]

theorem not_blamed_nil : ¬ s.Blamed [] l := by
  rintro ⟨before, other, hpre, -⟩
  simp at hpre

end Order

/-- The order in which the pages are scanned. -/
theorem scanOrder_extends {cfg : Config} {done rest : List Nat} {victim i : Nat}
    (hi : i < cfg.pagesInBlock) :
    scanOrder cfg done ++ (List.range i).map (fun i => (victim, i)) ++ [(victim, i)] <+:
      scanOrder cfg (done ++ victim :: rest) := by
  obtain ⟨m, hm⟩ := Nat.exists_eq_add_of_le (Nat.succ_le_of_lt hi)
  have hrange : (List.range i).map (fun i => (victim, i)) ++ [(victim, i)] <+:
      (List.range cfg.pagesInBlock).map fun i => (victim, i) := by
    rw [hm, List.range_add, List.range_succ, List.map_append, List.map_append]
    exact List.prefix_append _ _
  rw [scanOrder, scanOrder, List.flatMap_append, List.flatMap_cons, List.append_assoc]
  exact (List.prefix_append_right_inj _).mpr (hrange.trans (List.prefix_append _ _))

namespace Collectable

variable {cfg : Config} {env : Env} {w : World} {s : PageMapping} {pages before : List (Nat × Nat)}
  {page : Nat × Nat}

theorem nil : Collectable cfg env w s [] where
  oneUnit h := absurd rfl h
  named before page h := by simp at h
  mapped l h := absurd h not_uncached_nil
  room := ⟨s.pool, rfl⟩

/-- One page more. -/
theorem concat (h : Collectable cfg env w s pages) (hone : cfg.ioUnitInPage = 1)
    (hnamed : s.CachedPage page → ∃ l, s.lastUncached pages = some l)
    (hmapped : ∀ l, s.uncachedAt page = some l → MovesBlock cfg w l → ∃ x, s.lookup l = some x)
    (hroom : ∃ p, (pages ++ [page]).foldlM (passPage cfg env w s) s.pool = .ok p) :
    Collectable cfg env w s (pages ++ [page]) where
  oneUnit _ := hone
  named before other hpre hcached := by
    rcases List.prefix_concat_iff.mp hpre with heq | hpre
    · obtain ⟨rfl, rfl⟩ := List.append_singleton_inj.mp heq
      exact hnamed hcached
    · exact h.named before other hpre hcached
  mapped l hl hmove := by
    rcases uncached_concat.mp hl with hl | hl
    · exact h.mapped l hl hmove
    · exact hmapped l hl hmove
  room := hroom

/-- A part of the scan returns if the whole does. -/
theorem of_prefix (h : Collectable cfg env w s pages) (hpre : before <+: pages) :
    Collectable cfg env w s before where
  oneUnit hne := h.oneUnit fun hnil => hne (List.prefix_nil.mp (hnil ▸ hpre))
  named done page hdone := h.named done page (hdone.trans hpre)
  mapped l := fun ⟨x, hx, hl⟩ => h.mapped l ⟨x, hpre.subset hx, hl⟩
  room := by
    obtain ⟨rest, rfl⟩ := hpre
    obtain ⟨p, hp⟩ := h.room
    rw [List.foldlM_append, Except.bind_eq_ok] at hp
    obtain ⟨p₁, hp₁, -⟩ := hp
    exact ⟨p₁, hp₁⟩

end Collectable

/-! ### The scan -/

section Scan

variable {cfg : Config} {env : Env} {w : World} {victims : List Nat} {victim pageIndex lpn : Nat}
  {locals locals' : GcLocals} {s s' : PageMapping}

/-- The victims are in use and programmed to their last page. -/
def FullVictims (cfg : Config) (s : PageMapping) (victims : List Nat) : Prop :=
  ∀ v ∈ victims, ∃ b, s.pool.blocks.find? v = some b ∧
    b.getNextWritePageIndex = cfg.pagesInBlock

/-- A copy goes to an unprogrammed page outside the victims, and of the victims
only the page copied from changes. -/
structure CopiesOut (cfg : Config) (env : Env) (victims : List Nat) (victim pageIndex lpn : Nat)
    (s : PageMapping) (new : Nat × Nat) (s' : PageMapping) : Prop where
  pool : copyOut cfg env s.pool (victim, pageIndex) lpn = .ok s'.pool
  mapped : ∃ x, s.lookup lpn = some x
  outside : new.1 ∉ victims
  fresh : s.pool.content new = none
  victims (v : Nat) : v ∈ victims → s'.pool.blocks.find? v =
    if v = victim then (s.pool.blocks.find? v).map fun b => b.invalidate pageIndex 0
    else s.pool.blocks.find? v
  content : s'.pool.content =
    Function.update (Function.update s.pool.content (victim, pageIndex) none) new (some lpn)
  lookup : s'.lookup = Function.update s.lookup lpn (some new)
  handed : s'.movePagesToCache = s.movePagesToCache
  marks : Marks s [] s'

theorem copyPage_copiesOut {relocateCmt : Bool} (hone : cfg.ioUnitInPage = 1)
    (hwf : s.pool.WellFormed cfg) (hfull : FullVictims cfg s victims) (hvictim : victim ∈ victims)
    (h : copyPage cfg env victim pageIndex [lpn] (Bitset.new cfg.ioUnitInPage).setAll relocateCmt
      (locals, s) = .ok (locals', s')) :
    ∃ new, CopiesOut cfg env victims victim pageIndex lpn s new s' ∧
      ∃ requests, locals' = { locals with writeRequests := requests } := by
  obtain ⟨blk, pool, halloc, hunit⟩ := copyPage_unit hone h
  obtain ⟨l, vec, v, b, b', hl, hvec, hlen, hv, hb, hwrite, hpool, htable, -, hmoved, hlocals,
    htrace⟩ := copyUnit_spec (fullMap_test hone) hunit
  cases hl
  have hv : pool.blocks.find? victim = some v := hv
  have hb : (pool.putBlock victim (v.invalidate pageIndex 0)).blocks.find? blk = some b := hb
  -- full blocks are not written to
  have hdest : blk ∉ victims := by
    refine BlockPool.AvoidsVictims.dest ?_ (fun k hk => ?_) halloc
    · refine Except.all_iff.mpr fun q hq cur _ hcur => .inr fun c hc => ?_
      obtain ⟨i, m, rfl⟩ := BlockPool.selectLane_spec hq
      obtain ⟨c', hc', hnext⟩ := hfull cur hcur
      rw [hc'] at hc
      cases hc
      exact hnext
    · obtain ⟨c, hc, -⟩ := hfull k hk
      exact UnorderedMap.mem_of_find? hc
  have hne : blk ≠ victim := fun heq => hdest (heq ▸ hvictim)
  have hkeep : ∀ k ∈ victims, pool.blocks.find? k = s.pool.blocks.find? k := by
    intro k hk
    obtain ⟨c, hc, -⟩ := hfull k hk
    rw [hc, BlockPool.find?_getLastFreeBlock halloc hc]
  have hcontent : pool.content = s.pool.content :=
    BlockPool.content_getLastFreeBlock hwf.toFormatted halloc
  have hinvalid : (pool.putBlock victim (v.invalidate pageIndex 0)).content =
      Function.update s.pool.content (victim, pageIndex) none := by
    rw [BlockPool.content_putBlock_update hv Block.contentAt_invalidate, hcontent]
  refine ⟨(blk, b.pNextWritePageIndex 0),
    ⟨?_, ?_, hdest, ?_, fun k hk => ?_, ?_, ?_, hmoved, ?_⟩, _, hlocals⟩
  · rw [copyOut, halloc, Except.ok_bind]
    simp only [BlockPool.onBlock, hv, hb, hwrite, Except.ok_bind]
    rw [hpool]
  · have hvec : s.table.find? lpn = some vec := hvec
    exact ⟨vec[0], by rw [lookup, tableMapping, hvec, Option.bind_some, List.getElem?_eq_getElem]⟩
  · rw [BlockPool.putBlock, UnorderedMap.find?_set, if_neg hne] at hb
    rw [← hcontent, BlockPool.content, hb, Option.bind_some]
    exact Block.contentAt_of_next_le le_rfl
  · have hk' : k ≠ blk := fun heq => hdest (heq ▸ hk)
    rw [hpool, BlockPool.putBlock, UnorderedMap.find?_set, if_neg hk', BlockPool.putBlock,
      UnorderedMap.find?_set]
    split
    · next heq =>
      subst heq
      rw [← hkeep k hk, hv]
      rfl
    · exact hkeep k hk
  · rw [hpool, BlockPool.content_putBlock_update hb (Block.contentAt_write hwrite), hinvalid]
  · rw [lookup_update (s := s) fun k => by rw [htable, UnorderedMap.find?_set], Option.bind_some,
      List.getElem?_set_self hlen]
  · exact ⟨[.dram], htrace, rfl⟩

/-- The copy returns when the LPN has a table entry and the pool takes the page. -/
theorem copyPage_of_copyOut {relocateCmt : Bool} {pool : BlockPool} {x : Nat × Nat}
    (hone : cfg.ioUnitInPage = 1) (hmapped : s.lookup lpn = some x)
    (hpool : copyOut cfg env s.pool (victim, pageIndex) lpn = .ok pool) :
    ∃ acc, copyPage cfg env victim pageIndex [lpn] (Bitset.new cfg.ioUnitInPage).setAll relocateCmt
      (locals, s) = .ok acc := by
  obtain ⟨vec, hvec, hx⟩ := Option.bind_eq_some_iff.mp hmapped
  rw [copyOut, Except.bind_eq_ok] at hpool
  obtain ⟨⟨blk, p⟩, halloc, hpool⟩ := hpool
  rw [Except.bind_eq_ok] at hpool
  obtain ⟨p₁, hp₁, hpool⟩ := hpool
  simp only [BlockPool.onBlock] at hp₁ hpool
  split at hp₁
  · next v hv =>
    cases hp₁
    split at hpool
    · next b hb =>
      rw [Except.bind_eq_ok] at hpool
      obtain ⟨b', hwrite, -⟩ := hpool
      rw [copyPage]
      simp only [halloc, Except.ok_bind, Config.bitsetSize_one hone]
      rw [show List.range 1 = [0] from rfl, List.foldlM_cons, copyUnit]
      simp only [fullMap_test hone, if_true, BlockPool.onBlock, hv, Except.ok_bind,
        List.getElem?_cons_zero, hvec, mappingAt, hx, log_pool, hb, hwrite, List.foldlM_nil]
      exact ⟨_, rfl⟩
    · cases hpool
  · cases hp₁

/-- With more units a page the block has no cached bits to ask. -/
theorem reclaimCachedPage_one (hwf : s.pool.WellFormed cfg)
    (h : reclaimCachedPage cfg env w victim (locals, s) pageIndex = .ok (locals', s')) :
    cfg.ioUnitInPage = 1 := by
  rw [reclaimCachedPage] at h
  split at h
  · cases h
  · next b hb =>
    rw [Except.bind_eq_ok] at h
    obtain ⟨c, hc, -⟩ := h
    rw [← (hwf.used _ _ hb).2]
    exact ((b.isCached_sat pageIndex).of_ok hc).1

/-- Where the scan of `done` has left the pages, in terms of the state `s₀` in
which the collection began. -/
structure CachedScan (cfg : Config) (env : Env) (w : World) (s₀ : PageMapping)
    (victims : List Nat) (done : List (Nat × Nat)) (locals : GcLocals) (s : PageMapping) :
    Prop where
  ready : Collectable cfg env w s₀ done
  pool : done.foldlM (passPage cfg env w s₀) s₀.pool = .ok s.pool
  wf : s.pool.WellFormed cfg
  full (v : Nat) : v ∈ victims → ∃ b₀ b, s₀.pool.blocks.find? v = some b₀ ∧
    s.pool.blocks.find? v = some b ∧ b.getNextWritePageIndex = cfg.pagesInBlock ∧
      b.pCachedBits = b₀.pCachedBits ∧
        ∀ i, (v, i) ∉ done → b.contentAt i = b₀.contentAt i
  lpns : locals.lpns[0]? = s₀.lastUncached done
  marked (l : Nat) : l ∈ locals.cachedValidLPN ↔ s₀.Blamed done l
  queued (l : Nat) : l ∈ locals.queue cfg ↔ s₀.Uncached done l ∧ ¬ MovesBlock cfg w l
  moved (l : Nat) : s₀.Uncached done l → MovesBlock cfg w l →
    ∃ x, s.lookup l = some x ∧ x.1 ∉ victims ∧ s.pool.content x = some l
  kept (l : Nat) : ¬ (s₀.Uncached done l ∧ MovesBlock cfg w l) → s.lookup l = s₀.lookup l
  outside (x : Nat × Nat) : x.1 ∉ victims → s.pool.content x = s₀.pool.content x ∨
    s₀.pool.content x = none ∧
      ∃ l, s.pool.content x = some l ∧ s₀.Uncached done l ∧ MovesBlock cfg w l
  handed : s.movePagesToCache = s₀.movePagesToCache
  marks : Marks s₀ [] s

namespace CachedScan

variable {s₀ : PageMapping} {done : List (Nat × Nat)} {page : Nat × Nat}

theorem start (hwf : s.pool.WellFormed cfg) (hfull : FullVictims cfg s victims) :
    CachedScan cfg env w s victims [] .empty s where
  ready := .nil
  pool := rfl
  wf := hwf
  full v hv := by
    obtain ⟨b, hb, hnext⟩ := hfull v hv
    exact ⟨b, b, hb, hb, hnext, rfl, fun _ _ => rfl⟩
  lpns := rfl
  marked l := by simp [GcLocals.empty, not_blamed_nil]
  queued l := by simp [GcLocals.empty, GcLocals.queue, not_uncached_nil]
  moved l h := absurd h not_uncached_nil
  kept _ _ := rfl
  outside _ _ := .inl rfl
  handed := rfl
  marks := .of_eq rfl

/-- What a page not scanned yet stores, and its cached bit, are as they were. -/
theorem page_eq {b : Block} (hs : CachedScan cfg env w s₀ victims done locals s)
    (hvictim : victim ∈ victims) (hnew : (victim, pageIndex) ∉ done)
    (hb : s.pool.blocks.find? victim = some b) :
    (s₀.CachedPage (victim, pageIndex) ↔ pageIndex ∈ b.pCachedBits) ∧
      s₀.uncachedAt (victim, pageIndex) =
        if pageIndex ∈ b.pCachedBits then none else b.contentAt pageIndex := by
  obtain ⟨b₀, b', hb₀, hb', -, hcached, hcontent⟩ := hs.full victim hvictim
  rw [hb] at hb'
  cases hb'
  rw [uncachedAt, hb₀, hcached, hcontent pageIndex hnew]
  exact ⟨by simp [CachedPage, hb₀], rfl⟩

/-- The pool behind one page more. -/
theorem pool_concat (hs : CachedScan cfg env w s₀ victims done locals s) :
    (done ++ [page]).foldlM (passPage cfg env w s₀) s₀.pool =
      passPage cfg env w s₀ s.pool page := by
  rw [List.foldlM_append, hs.pool, Except.ok_bind, List.foldlM_cons]
  exact bind_pure _

/-- A page that is not copied. -/
theorem stay (hs : CachedScan cfg env w s₀ victims done locals s) (hone : cfg.ioUnitInPage = 1)
    (hnamed : s₀.CachedPage page → ∃ l, locals.lpns[0]? = some l)
    (hmoves : ∀ l, s₀.uncachedAt page = some l → ¬ MovesBlock cfg w l)
    (hlpns : locals'.lpns[0]? = (s₀.uncachedAt page).or locals.lpns[0]?)
    (hmarked : ∀ l, l ∈ locals'.cachedValidLPN ↔
      l ∈ locals.cachedValidLPN ∨ s₀.CachedPage page ∧ locals.lpns[0]? = some l)
    (hqueue : ∀ l, l ∈ locals'.queue cfg ↔ l ∈ locals.queue cfg ∨ s₀.uncachedAt page = some l) :
    CachedScan cfg env w s₀ victims (done ++ [page]) locals' s := by
  have hsame : ∀ l, s₀.Uncached (done ++ [page]) l ∧ MovesBlock cfg w l ↔
      s₀.Uncached done l ∧ MovesBlock cfg w l := by
    intro l
    rw [uncached_concat]
    constructor
    · rintro ⟨h | h, hmove⟩
      · exact ⟨h, hmove⟩
      · exact absurd hmove (hmoves l h)
    · exact fun h => ⟨.inl h.1, h.2⟩
  have hpool : (done ++ [page]).foldlM (passPage cfg env w s₀) s₀.pool = .ok s.pool := by
    rw [hs.pool_concat, passPage]
    split
    · rfl
    · next l hl => rw [if_neg (hmoves l hl)]
  refine ⟨?_, hpool, hs.wf, fun v hv => ?_, ?_, fun l => ?_, fun l => ?_, fun l h hmove => ?_,
    fun l h => ?_, fun x hx => ?_, hs.handed, hs.marks⟩
  · exact hs.ready.concat hone (fun h => hs.lpns ▸ hnamed h)
      (fun l hl hmove => absurd hmove (hmoves l hl)) ⟨_, hpool⟩
  · obtain ⟨b₀, b, hb₀, hb, hnext, hcached, hcontent⟩ := hs.full v hv
    exact ⟨b₀, b, hb₀, hb, hnext, hcached,
      fun i hi => hcontent i fun hmem => hi (List.mem_append_left _ hmem)⟩
  · rw [hlpns, lastUncached_concat, hs.lpns]
  · rw [hmarked, blamed_concat, hs.marked, hs.lpns]
  · rw [hqueue, hs.queued, uncached_concat]
    constructor
    · rintro (h | h)
      · exact ⟨.inl h.1, h.2⟩
      · exact ⟨.inr h, hmoves l h⟩
    · rintro ⟨h | h, hstay⟩
      · exact .inl ⟨h, hstay⟩
      · exact .inr h
  · exact hs.moved l ((hsame l).mp ⟨h, hmove⟩).1 hmove
  · exact hs.kept l fun hboth => h ((hsame l).mpr hboth)
  · rcases hs.outside x hx with heq | ⟨hnone, l, hl, hboth⟩
    · exact .inl heq
    · exact .inr ⟨hnone, l, hl, (hsame l).mpr hboth⟩

/-- A page that is copied. -/
theorem copy {new : Nat × Nat} (hs : CachedScan cfg env w s₀ victims done locals s)
    (hone : cfg.ioUnitInPage = 1) (hwf : s'.pool.WellFormed cfg) (hnew : (victim, pageIndex) ∉ done)
    (hvictim : victim ∈ victims) (hpage : s₀.uncachedAt (victim, pageIndex) = some lpn)
    (hbit : ¬ s₀.CachedPage (victim, pageIndex)) (hmove : MovesBlock cfg w lpn)
    (hc : CopiesOut cfg env victims victim pageIndex lpn s new s')
    (hlpns : locals'.lpns[0]? = some lpn)
    (hmarked : locals'.cachedValidLPN = locals.cachedValidLPN)
    (hqueue : locals'.queue cfg = locals.queue cfg) :
    CachedScan cfg env w s₀ victims (done ++ [(victim, pageIndex)]) locals' s' := by
  have huncached : ∀ l, s₀.Uncached (done ++ [(victim, pageIndex)]) l ↔
      s₀.Uncached done l ∨ lpn = l := by
    intro l
    rw [uncached_concat, hpage, Option.some.injEq]
  -- outside the victims the copy only adds to what is stored
  have hcontent : ∀ x, x.1 ∉ victims → x ≠ new → s'.pool.content x = s.pool.content x := by
    intro x hx hne
    rw [hc.content, Function.update_of_ne hne, Function.update_of_ne]
    rintro rfl
    exact hx hvictim
  have hstored : s'.pool.content new = some lpn := by
    rw [hc.content, Function.update_self]
  have hpool : (done ++ [(victim, pageIndex)]).foldlM (passPage cfg env w s₀) s₀.pool =
      .ok s'.pool := by
    rw [hs.pool_concat, passPage, hpage]
    exact (if_pos hmove).trans hc.pool
  have hmapped : ∃ x, s₀.lookup lpn = some x := by
    by_cases hdone : s₀.Uncached done lpn
    · exact hs.ready.mapped lpn hdone hmove
    · rw [← hs.kept lpn fun hboth => hdone hboth.1]
      exact hc.mapped
  refine ⟨?_, hpool, hwf, fun v hv => ?_, ?_, fun l => ?_, fun l => ?_, fun l h hl => ?_,
    fun l h => ?_, fun x hx => ?_,
      hc.handed.trans hs.handed, by simpa using hs.marks.trans hc.marks⟩
  · refine hs.ready.concat hone (fun h => absurd h hbit) (fun l hl _ => ?_) ⟨_, hpool⟩
    rw [hpage] at hl
    cases hl
    exact hmapped
  · obtain ⟨b₀, b, hb₀, hb, hnext, hcached, hsame⟩ := hs.full v hv
    rw [hc.victims v hv]
    by_cases heq : v = victim
    · subst heq
      refine ⟨b₀, b.invalidate pageIndex 0, hb₀, by rw [if_pos rfl, hb]; rfl, hnext, hcached,
        fun i hi => ?_⟩
      rw [List.mem_append, not_or, List.mem_singleton] at hi
      have hne : i ≠ pageIndex := fun heq => hi.2 (by rw [heq])
      rw [Block.contentAt_invalidate, Function.update_of_ne hne]
      exact hsame i hi.1
    · rw [if_neg heq]
      exact ⟨b₀, b, hb₀, hb, hnext, hcached,
        fun i hi => hsame i fun hmem => hi (List.mem_append_left _ hmem)⟩
  · rw [hlpns, lastUncached_concat, hpage, Option.some_or]
  · rw [hmarked, hs.marked, blamed_concat]
    simp [hbit]
  · rw [hqueue, hs.queued, huncached]
    constructor
    · exact fun h => ⟨.inl h.1, h.2⟩
    · rintro ⟨h | rfl, hstay⟩
      · exact ⟨h, hstay⟩
      · exact absurd hmove hstay
  · by_cases heq : l = lpn
    · subst heq
      exact ⟨new, by rw [hc.lookup, Function.update_self], hc.outside, hstored⟩
    · have hdone : s₀.Uncached done l := ((huncached l).mp h).resolve_right (Ne.symm heq)
      obtain ⟨x, hlookup, hx, hl⟩ := hs.moved l hdone hl
      refine ⟨x, by rw [hc.lookup, Function.update_of_ne heq, hlookup], hx, ?_⟩
      rw [hcontent x hx, hl]
      rintro rfl
      rw [hc.fresh] at hl
      cases hl
  · have hne : l ≠ lpn := by
      rintro rfl
      exact h ⟨(huncached l).mpr (.inr rfl), hmove⟩
    rw [hc.lookup, Function.update_of_ne hne]
    exact hs.kept l fun hboth => h ⟨(huncached l).mpr (.inl hboth.1), hboth.2⟩
  · by_cases hne : x = new
    · subst hne
      have hnone : s₀.pool.content x = none := by
        rcases hs.outside x hx with heq | ⟨hnone, -⟩
        · rw [← heq, hc.fresh]
        · exact hnone
      exact .inr ⟨hnone, lpn, hstored, (huncached lpn).mpr (.inr rfl), hmove⟩
    · rw [hcontent x hx hne]
      rcases hs.outside x hx with heq | ⟨hnone, l, hl, hdone, hboth⟩
      · exact .inl heq
      · exact .inr ⟨hnone, l, hl, (huncached l).mpr (.inl hdone), hboth⟩

/-- One page of the `cachedGC` loop. -/
theorem step (hs : CachedScan cfg env w s₀ victims done locals s)
    (hmode : cfg.evictPolicy = .cachedGC)
    (hvictim : victim ∈ victims) (hnew : (victim, pageIndex) ∉ done)
    (h : reclaimCachedPage cfg env w victim (locals, s) pageIndex = .ok (locals', s')) :
    CachedScan cfg env w s₀ victims (done ++ [(victim, pageIndex)]) locals' s' ∧
      locals'.scanned = locals.scanned := by
  have hone := reclaimCachedPage_one hs.wf h
  have hwf : s'.pool.WellFormed cfg := ((BlockPool.wellFormed_invariant cfg env).reclaimCachedPage
    (locals, s) pageIndex hs.wf fun _ _ _ => trivial).of_ok h
  obtain ⟨b, hb, hcases⟩ := reclaimCachedPage_cases hone hs.wf h
  obtain ⟨hcached, huncached⟩ := hs.page_eq hvictim hnew hb
  rcases hcases with ⟨hbit, rfl, m, hm, rfl⟩ | ⟨hbit, hvalid, rfl, rfl⟩ |
    ⟨hbit, hvalid, l₁, hlpns, hmarked, hscanned, hcases⟩
  · rw [if_pos hbit] at huncached
    refine ⟨hs.stay hone (fun _ => ⟨m, hm⟩) (by simp [huncached]) (by simp [huncached])
      (fun l => ?_) (fun l => ?_), rfl⟩
    · simp [hcached.mpr hbit, hm, eq_comm]
    · simp [huncached, GcLocals.queue]
  · rw [if_neg hbit, Block.contentAt, if_neg hvalid] at huncached
    refine ⟨hs.stay hone (fun h => absurd (hcached.mp h) hbit) (by simp [huncached])
      (by simp [huncached]) (fun l => ?_) (fun l => ?_), rfl⟩
    · simp [hcached, hbit]
    · simp [huncached]
  · rw [if_neg hbit, Block.contentAt, if_pos hvalid] at huncached
    rcases hcases with ⟨hcopy, hqueue, h⟩ | ⟨hstay, rfl, rfl, hqueue⟩
    · have hfull : FullVictims cfg s victims := fun v hv => by
        obtain ⟨_, b', -, hb', hnext, -⟩ := hs.full v hv
        exact ⟨b', hb', hnext⟩
      obtain ⟨new, hc, requests, rfl⟩ :=
        copyPage_copiesOut hone hs.wf hfull hvictim h
      refine ⟨hs.copy hone hwf hnew hvictim huncached (hcached.not.mpr hbit) (hcopy.2 hmode).2 hc
        ?_ hmarked hqueue, hscanned⟩
      show l₁.lpns[0]? = _
      rw [hlpns]
      rfl
    · refine ⟨hs.stay hone (fun h => absurd (hcached.mp h) hbit) (fun l hl => ?_) ?_
        (fun l => ?_) (fun l => ?_), hscanned⟩
      · rw [huncached] at hl
        cases hl
        exact hstay
      · rw [hlpns, huncached]
        rfl
      · rw [hmarked]
        simp [hcached, hbit]
      · rw [hqueue, huncached, List.mem_append, List.mem_singleton, Option.some.injEq, eq_comm]

/-- The step returns when the scan up to it can. -/
theorem step_ok (hs : CachedScan cfg env w s₀ victims done locals s) (hvictim : victim ∈ victims)
    (hnew : (victim, pageIndex) ∉ done)
    (hready : Collectable cfg env w s₀ (done ++ [(victim, pageIndex)])) :
    ∃ acc, reclaimCachedPage cfg env w victim (locals, s) pageIndex = .ok acc := by
  have hone := hready.oneUnit (by simp)
  obtain ⟨-, b, -, hb, -⟩ := hs.full victim hvictim
  obtain ⟨hcached, huncached⟩ := hs.page_eq hvictim hnew hb
  have hunit : b.ioUnitInPage = 1 := (hs.wf.used _ _ hb).2.trans hone
  rw [reclaimCachedPage]
  simp only [hb, Block.isCached, Block.isPageValid, hunit, if_true, Except.ok_bind,
    getPageInfo_one hone hunit, fullMap_any hone, fullFlag_eq, List.getElem?_cons_zero]
  by_cases hbit : pageIndex ∈ b.pCachedBits
  · -- `lpns` holds the LPN of the last valid page without the bit
    obtain ⟨l, hl⟩ := hready.named done _ (List.prefix_refl _) (hcached.mpr hbit)
    rw [decide_eq_true hbit, if_pos rfl, hs.lpns, hl]
    exact ⟨_, rfl⟩
  rw [decide_eq_false hbit, if_neg Bool.false_ne_true]
  by_cases hvalid : (pageIndex, 0) ∈ b.validBits
  · rw [decide_eq_true hvalid, if_pos rfl]
    rw [if_neg hbit, Block.contentAt, if_pos hvalid] at huncached
    split
    · next hblock =>
      split
      · next hfreq =>
        -- the page is copied
        have hmove : MovesBlock cfg w (b.lpns (pageIndex, 0)) := ⟨hblock, hfreq⟩
        obtain ⟨x, hx⟩ := hready.mapped _ (uncached_concat.mpr (.inr huncached)) hmove
        obtain ⟨y, hy⟩ : ∃ y, s.lookup (b.lpns (pageIndex, 0)) = some y := by
          by_cases hdone : s₀.Uncached done (b.lpns (pageIndex, 0))
          · obtain ⟨y, hy, -⟩ := hs.moved _ hdone hmove
            exact ⟨y, hy⟩
          · exact ⟨x, by rw [hs.kept _ fun hboth => hdone hboth.1, hx]⟩
        obtain ⟨pool, hpool⟩ := hready.room
        rw [hs.pool_concat, passPage, huncached] at hpool
        exact copyPage_of_copyOut hone hy ((if_pos hmove).symm.trans hpool)
      · exact ⟨_, rfl⟩
    · exact ⟨_, rfl⟩
  · rw [decide_eq_false hvalid, if_neg Bool.false_ne_true]
    exact ⟨_, rfl⟩

/-- A victim whose pages have been scanned is queued for its erase. -/
theorem queueErase {done : List Nat} {reqs : List PAL.Request}
    (hs : CachedScan cfg env w s₀ victims (scanOrder cfg done ++
      (List.range cfg.pagesInBlock).map fun i => (victim, i)) locals s) :
    CachedScan cfg env w s₀ victims (scanOrder cfg (done ++ [victim]))
      { locals with eraseRequests := reqs } s := by
  have horder : scanOrder cfg (done ++ [victim]) =
      scanOrder cfg done ++ (List.range cfg.pagesInBlock).map fun i => (victim, i) := by
    simp [scanOrder]
  rw [horder]
  exact ⟨hs.ready, hs.pool, hs.wf, hs.full, hs.lpns, hs.marked, hs.queued, hs.moved, hs.kept,
    hs.outside, hs.handed, hs.marks⟩

/-- A page of the next victim has not been scanned. -/
theorem fresh_page (cfg : Config) {done rest : List Nat} (hnodup : victims.Nodup)
    (hsplit : victims = done ++ victim :: rest) (i : Nat) :
    (victim, i) ∉ scanOrder cfg done ++ (List.range i).map fun i => (victim, i) := by
  have hfresh : victim ∉ done := by
    rw [hsplit, List.nodup_append] at hnodup
    exact fun hmem => hnodup.2.2 victim hmem victim List.mem_cons_self rfl
  simp [mem_scanOrder, hfresh]

/-- The scan returns. -/
theorem scan_ok (hmode : cfg.evictPolicy = .cachedGC) (hnodup : victims.Nodup)
    (hwf : s.pool.WellFormed cfg) (hfull : FullVictims cfg s victims)
    (hready : Collectable cfg env w s (scanOrder cfg victims)) :
    ∃ acc, victims.foldlM (scanVictim cfg env w) (.empty, s) = .ok acc := by
  have hvictims := Run.foldlM_done_ok (f := scanVictim cfg env w) (l := victims)
    (I := fun done acc => CachedScan cfg env w s victims (scanOrder cfg done) acc.1 acc.2)
    (s := (.empty, s)) ?_ (CachedScan.start hwf hfull)
  · obtain ⟨acc, hloop, -⟩ := hvictims
    exact ⟨acc, hloop⟩
  rintro done victim rest ⟨locals, s₁⟩ hsplit hs
  have hvictim : victim ∈ victims := by simp [hsplit]
  have hloop := Run.foldlM_range_ok (n := cfg.pagesInBlock) (f := scanPage cfg env w victim)
    (I := fun n acc => CachedScan cfg env w s victims
      (scanOrder cfg done ++ (List.range n).map fun i => (victim, i)) acc.1 acc.2)
    (s := (locals, s₁)) ?_ (by simpa using hs)
  · obtain ⟨⟨locals', s'⟩, hpages, hs'⟩ := hloop
    obtain ⟨-, b, -, hb, -⟩ := hs.full victim hvictim
    rw [scanVictim, if_neg (not_not.mpr (UnorderedMap.mem_of_find? hb)), hpages]
    exact ⟨_, rfl, hs'.queueErase⟩
  · rintro i ⟨locals, s₁⟩ hi hs
    have hnew := fresh_page cfg hnodup hsplit i
    have hprefix := @scanOrder_extends cfg done rest victim i hi
    have hpage := hready.of_prefix (hsplit ▸ hprefix)
    obtain ⟨⟨locals', s'⟩, hstep⟩ := hs.step_ok hvictim hnew hpage
    refine ⟨(locals', s'), by rw [scanPage, if_pos hmode, hstep], ?_⟩
    rw [List.range_succ, List.map_append, ← List.append_assoc]
    exact (hs.step hmode hvictim hnew hstep).1

/-- The whole scan. -/
theorem scan (hmode : cfg.evictPolicy = .cachedGC) (hnodup : victims.Nodup)
    (hwf : s.pool.WellFormed cfg) (hfull : FullVictims cfg s victims)
    (h : victims.foldlM (scanVictim cfg env w) (.empty, s) = .ok (locals', s')) :
    CachedScan cfg env w s victims (scanOrder cfg victims) locals' s' ∧
      locals'.scanned = victims := by
  refine Run.foldlM_done (I := fun done acc =>
    CachedScan cfg env w s victims (scanOrder cfg done) acc.1 acc.2 ∧ acc.1.scanned = done) ?_
    ⟨.start hwf hfull, rfl⟩ h
  rintro done victim rest ⟨locals, s₁⟩ acc' hsplit ⟨hs, hscanned⟩ hstep
  have hvictim : victim ∈ victims := by simp [hsplit]
  obtain ⟨-, locals₁, s₁', hpages, rfl⟩ := scanVictim_ok hstep
  have hloop := Run.foldlM_range (I := fun n acc => CachedScan cfg env w s victims
      (scanOrder cfg done ++ (List.range n).map fun i => (victim, i)) acc.1 acc.2 ∧
    acc.1.scanned = done) ?_ ⟨by simpa using hs, hscanned⟩ hpages
  · exact ⟨hloop.1.queueErase, by simpa [GcLocals.scanned] using hloop.2⟩
  · rintro i ⟨locals, s₁⟩ ⟨locals₂, s₂⟩ hi ⟨hs, hscanned⟩ hstep
    rw [scanPage, if_pos hmode] at hstep
    obtain ⟨hs', hscanned'⟩ := hs.step hmode hvictim (fresh_page cfg hnodup hsplit i) hstep
    rw [List.range_succ, List.map_append, ← List.append_assoc]
    exact ⟨hs', hscanned'.trans hscanned⟩

end CachedScan

/-- A collection of full victims in `cachedGC` mode returns. -/
theorem cachedCollection_ok (hmode : cfg.evictPolicy = .cachedGC) (hnodup : victims.Nodup)
    (hwf : s.pool.WellFormed cfg) (hfull : FullVictims cfg s victims)
    (hready : Collectable cfg env w s (scanOrder cfg victims)) :
    ∃ s', doGarbageCollection cfg env w victims s = .ok s' := by
  rw [doGarbageCollection]
  split
  · exact ⟨s, rfl⟩
  split
  · exact ⟨s, rfl⟩
  obtain ⟨⟨locals, s₁⟩, hloop⟩ := CachedScan.scan_ok hmode hnodup hwf hfull hready
  obtain ⟨hs, hscanned⟩ := CachedScan.scan hmode hnodup hwf hfull hloop
  rw [hloop, Except.ok_bind]
  dsimp only
  rw [finishCachedCollection]
  dsimp only
  -- the victims are in use until they are erased
  obtain ⟨trace, hdirty⟩ := foldl_markDirty locals.cachedValidLPN s₁
  have hused : ∀ v ∈ locals.eraseRequests.map (·.blockIndex), v ∈ s₁.pool.blocks := by
    intro v hv
    obtain ⟨-, b, -, hb, -⟩ := hs.full v (hscanned ▸ hv)
    exact UnorderedMap.mem_of_find? hb
  obtain ⟨s₂, herase, -⟩ := @foldlM_eraseInternal_ok cfg (if cfg.blockToBlockMovement
      then locals.writeRequests.foldl (fun s r => s.log (.palWrite r))
        (locals.readRequests.foldl (fun s r => s.log (.palRead r))
          (locals.cachedValidLPN.foldl markDirty s₁))
      else locals.readRequests.foldl (fun s r => s.log (.palRead r))
        (locals.cachedValidLPN.foldl markDirty s₁)) locals.eraseRequests
    (by rw [show locals.eraseRequests.map (·.blockIndex) = victims from hscanned]; exact hnodup)
    (by rw [foldl_log, foldl_log, hdirty]; split <;> exact hused)
  rw [herase]
  exact ⟨_, rfl⟩

/-- A collection of full victims in `cachedGC` mode: which LPNs it queues for the
cache, which it passes to `updateDirty`, and which are mapped afterwards to a
page that stores them. -/
theorem cachedCollection_spec (hmode : cfg.evictPolicy = .cachedGC) (hnodup : victims.Nodup)
    (hlim : ¬ cfg.simlationIORequests < w.iclCount) (hwf : s.pool.WellFormed cfg)
    (hfull : FullVictims cfg s victims)
    (h : doGarbageCollection cfg env w victims s = .ok s') :
    Collectable cfg env w s (scanOrder cfg victims) ∧
    ∃ queue marks, s'.movePagesToCache = s.movePagesToCache ++ queue ∧ Marks s marks s' ∧
      (∀ l, l ∈ queue ↔
        s.Uncached (scanOrder cfg victims) l ∧ ¬ MovesBlock cfg w l) ∧
      (∀ l, l ∈ marks ↔ s.Blamed (scanOrder cfg victims) l) ∧
      ∀ l, (∃ x ∈ s'.lookup l, x.1 ∉ victims ∧ s'.pool.content x = some l) ↔
        l ∉ queue ∧ l ∉ marks ∧
          (s.Uncached (scanOrder cfg victims) l ∧ MovesBlock cfg w l ∨
            ∃ x ∈ s.lookup l, x.1 ∉ victims ∧ s.pool.content x = some l) := by
  rw [doGarbageCollection, if_neg hlim] at h
  split at h
  · next hnil =>
    cases h
    subst hnil
    refine ⟨.nil, [], [], by simp, .of_eq rfl, fun l => ?_, fun l => ?_, fun l => ?_⟩
    · simp [scanOrder, not_uncached_nil]
    · simp [scanOrder, not_blamed_nil]
    · simp [scanOrder, not_uncached_nil]
  · rw [Except.bind_eq_ok] at h
    obtain ⟨⟨locals, s₁⟩, hscan, h⟩ := h
    simp only at h
    obtain ⟨hs, hscanned⟩ := CachedScan.scan hmode hnodup hwf hfull hscan
    obtain ⟨htable, -, hblocks, hhanded⟩ := finishCachedCollection_spec h
    have hcontent := content_of_erased hblocks
    rw [hscanned] at hcontent
    refine ⟨hs.ready, locals.queue cfg, locals.cachedValidLPN, by rw [hhanded, hs.handed],
      by simpa using hs.marks.trans (marks_finishCachedCollection h), hs.queued, hs.marked,
      fun l => ?_⟩
    have hlookup : s'.lookup l =
        if l ∈ locals.queue cfg ∨ l ∈ locals.cachedValidLPN then none else s₁.lookup l := by
      rw [lookup, tableMapping, htable]
      split <;> rfl
    -- what is mapped outside the victims when the scan ends
    have hend : (∃ x ∈ s₁.lookup l, x.1 ∉ victims ∧ s₁.pool.content x = some l) ↔
        s.Uncached (scanOrder cfg victims) l ∧ MovesBlock cfg w l ∨
          ∃ x ∈ s.lookup l, x.1 ∉ victims ∧ s.pool.content x = some l := by
      by_cases hmoved : s.Uncached (scanOrder cfg victims) l ∧ MovesBlock cfg w l
      · exact ⟨fun _ => .inl hmoved, fun _ => hs.moved l hmoved.1 hmoved.2⟩
      · rw [hs.kept l hmoved]
        constructor
        · rintro ⟨x, hl, hx, hx'⟩
          refine .inr ⟨x, hl, hx, ?_⟩
          rcases hs.outside x hx with heq | ⟨-, l', hl', hboth⟩
          · rw [← heq, hx']
          · rw [hx'] at hl'
            cases hl'
            exact absurd hboth hmoved
        · rintro (hboth | ⟨x, hl, hx, hx'⟩)
          · exact absurd hboth hmoved
          · refine ⟨x, hl, hx, ?_⟩
            rcases hs.outside x hx with heq | ⟨hnone, -⟩
            · rw [heq, hx']
            · rw [hnone] at hx'
              cases hx'
    rw [← hend, hlookup]
    constructor
    · rintro ⟨x, hl, hx, hx'⟩
      split at hl
      · cases hl
      · next hkeep =>
        rw [not_or] at hkeep
        rw [hcontent, if_neg hx] at hx'
        exact ⟨hkeep.1, hkeep.2, x, hl, hx, hx'⟩
    · rintro ⟨hq, hm, x, hl, hx, hx'⟩
      refine ⟨x, ?_, hx, ?_⟩
      · rw [if_neg (not_or.mpr ⟨hq, hm⟩)]
        exact hl
      · rw [hcontent, if_neg hx, hx']

end Scan

/-! ### The states in which a collection can begin -/

/-- The states between calls, and those in the middle of a write, before it checks
the free space. The cache layer may have taken pages out of `movePagesToCache`. -/
inductive Reachable (cfg : Config) (env : Env) : PageMapping → Prop where
  | start {warmUp : Option World} {s : PageMapping} (h : PageMapping.start cfg env warmUp = .ok s) :
      Reachable cfg env s
  | call {s s' : PageMapping} {call : World × Op} (hs : Reachable cfg env s)
      (h : Op.exec cfg env s call = .ok s') : Reachable cfg env s'
  | program {s s' : PageMapping} {w : World} {req : Request} {sendToPAL : Bool}
      (hs : Reachable cfg env s) (h : s.programPage cfg env w req sendToPAL = .ok s') :
      Reachable cfg env s'
  | drain {s : PageMapping} {lpns : List Nat} {put : Bool} (hs : Reachable cfg env s) :
      Reachable cfg env { s with movePagesToCache := lpns, putPagesInCache := put }

theorem Reachable.wellFormed {cfg : Config} {env : Env} {s : PageMapping}
    (hs : Reachable cfg env s) : s.pool.WellFormed cfg := by
  have hI := BlockPool.wellFormed_invariant cfg env
  induction hs with
  | @start warmUp s h =>
    refine (hI.start (fun _ => trivial) (Except.sat_iff.mpr ⟨fun p hp => ?_, fun _ _ => trivial⟩)
      warmUp).of_ok h
    have hinit : init cfg env = .ok ⟨.empty, p, .init env, [], false, []⟩ := by
      rw [init, hp]
      rfl
    exact (init_mapped hinit).wf
  | @call s s' call hs h ih =>
    have hrun : run cfg env s [call] = .ok s' := by
      rw [run, List.foldlM_cons, h]
      rfl
    exact (hI.run_all (fun _ _ => trivial) ih).of_ok hrun
  | program hs h ih => exact (hI.programPage ih trivial).of_ok h
  | drain hs ih => exact ih

end PageMapping

end SimpleSSD.FTL
