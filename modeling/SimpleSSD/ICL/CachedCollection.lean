import SimpleSSD.FTL.CachedCollect
import SimpleSSD.ICL.Steps

/-!
# A collection in `cachedGC` mode and the cache

The collection erases pages on the word of their cached bits: it passes LPNs to
`updateDirty` and queues others for `writeVictimPagesToCache`. `collect` is the
collection seen from the cache. The LPN passed for a page with its cached bit
set is not the page's own (page_mapping.cc:1176), so a page can be erased whose
only other copy is a clean line; and where no page without the bit has been scanned
before it, there is no LPN to pass. `CollectSafe` says when the collection returns and
no page is lost.
-/

namespace SimpleSSD.ICL

open FTL (PageMapping BlockPool Block)

namespace GenericCache

/-- A valid dirty line has this tag. -/
def DirtyLine {F : Type} (cfg : Config) (s : GenericCache F) (l : Nat) : Prop :=
  ∃ pos ∈ cfg.positions, (s.cacheData pos).valid = true ∧ (s.cacheData pos).dirty = true ∧
    (s.cacheData pos).tag = l

instance {F : Type} (cfg : Config) (s : GenericCache F) (l : Nat) :
    Decidable (s.DirtyLine cfg l) := inferInstanceAs (Decidable (∃ pos ∈ cfg.positions, _))

section Dirty

variable {F : Type} {cfg : Config} {s s' : GenericCache F} {l lca : Nat}

theorem Marked.getValidWay_eq (h : s.Marked s') : s'.getValidWay cfg l = s.getValidWay cfg l := by
  simp only [getValidWay, h.valid, h.tag]

/-- `updateDirty` makes one line of the LCA dirty, if there is one. -/
theorem dirtyLine_updateDirty : (s.updateDirty cfg lca).DirtyLine cfg l ↔
    s.DirtyLine cfg l ∨ l = lca ∧ (s.getValidWay cfg l).isSome = true := by
  rw [updateDirty]
  split
  · next way hway =>
    obtain ⟨hlt, hvalid, htag⟩ := getValidWay_eq_some hway
    constructor
    · rintro ⟨pos, hpos, hv, hd, ht⟩
      by_cases heq : pos = (cfg.calcSetIndex lca, way)
      · subst heq
        rw [putLine_self] at ht
        obtain rfl : lca = l := htag.symm.trans ht
        exact .inr ⟨rfl, by rw [hway]; rfl⟩
      · rw [putLine_of_ne heq] at hv hd ht
        exact .inl ⟨pos, hpos, hv, hd, ht⟩
    · rintro (⟨pos, hpos, hv, hd, ht⟩ | ⟨rfl, -⟩)
      · refine ⟨pos, hpos, ?_⟩
        by_cases heq : pos = (cfg.calcSetIndex lca, way)
        · subst heq
          rw [putLine_self]
          exact ⟨hv, rfl, ht⟩
        · rw [putLine_of_ne heq]
          exact ⟨hv, hd, ht⟩
      · refine ⟨(cfg.calcSetIndex l, way), cfg.mem_positions.mpr ⟨cfg.calcSetIndex_lt l, hlt⟩, ?_⟩
        rw [putLine_self]
        exact ⟨hvalid, rfl, htag⟩
  · next hnone =>
    constructor
    · exact .inl
    · rintro (h | ⟨rfl, hsome⟩)
      · exact h
      · rw [hnone] at hsome
        cases hsome

theorem dirtyLine_foldl_updateDirty (marks : List Nat) (s : GenericCache F) :
    (marks.foldl (updateDirty cfg) s).DirtyLine cfg l ↔
      s.DirtyLine cfg l ∨ l ∈ marks ∧ (s.getValidWay cfg l).isSome = true := by
  induction marks generalizing s with
  | nil => simp
  | cons lca marks ih =>
    rw [List.foldl_cons, ih, dirtyLine_updateDirty, (updateDirty_marked cfg s lca).getValidWay_eq,
      List.mem_cons]
    tauto

end Dirty

section Collect

variable (cfg : Config) (ftl : FTL.Config) (env : FTL.Env)

/-- `doGarbageCollection` below the cache, with its calls of `updateDirty`. -/
def collect (victims : List Nat) (s : GenericCache PageMapping) :
    Except Fault (GenericCache PageMapping) := do
  let pFTL ← s.pFTL.doGarbageCollection ftl env s.world victims
  .ok ((markedBy s.pFTL pFTL).foldl (updateDirty cfg) { s with pFTL := pFTL })

end Collect

/-- The logical page is mapped to a valid page outside the victims that stores it,
or has been handed to the cache. -/
def Survives (cfg : Config) (victims : List Nat) (s : GenericCache PageMapping) (l : Nat) : Prop :=
  (∃ x ∈ s.pFTL.lookup l, x.1 ∉ victims ∧ s.pFTL.pool.content x = some l) ∨
    l ∈ s.pFTL.movePagesToCache ∨ s.DirtyLine cfg l

instance (cfg : Config) (victims : List Nat) (s : GenericCache PageMapping) (l : Nat) :
    Decidable (s.Survives cfg victims l) := inferInstanceAs (Decidable (_ ∨ _ ∨ _))

/-- A page of a victim validly stores the logical page. -/
def ValidIn (s : GenericCache PageMapping) (victims : List Nat) (l : Nat) : Prop :=
  ∃ x, x.1 ∈ victims ∧ s.pFTL.pool.content x = some l

/-- The collection loses no logical page, and queues only pages of the victims. -/
structure CollectionKeeps (cfg : Config) (victims : List Nat) (s s' : GenericCache PageMapping) :
    Prop where
  survives (l : Nat) : s.ValidIn victims l → s'.Survives cfg victims l
  queued : ∃ queue, s'.pFTL.movePagesToCache = s.pFTL.movePagesToCache ++ queue ∧
    ∀ l ∈ queue, s.ValidIn victims l

/-- The collection does not lose this logical page: one of its pages without the cached
bit is queued for the cache, or the cache layer has it already; where its LPN is passed to
`updateDirty` there is a line for it; and any other is copied or mapped elsewhere. -/
def Spares (cfg : Config) (ftl : FTL.Config) (victims : List Nat) (s : GenericCache PageMapping)
    (l : Nat) : Prop :=
  (s.pFTL.Uncached (PageMapping.scanOrder ftl victims) l ∧
    ¬ PageMapping.MovesBlock ftl s.world l) ∨
  l ∈ s.pFTL.movePagesToCache ∨ s.DirtyLine cfg l ∨
  (s.pFTL.Blamed (PageMapping.scanOrder ftl victims) l ∧ (s.getValidWay cfg l).isSome = true) ∨
  (¬ s.pFTL.Blamed (PageMapping.scanOrder ftl victims) l ∧
    (s.pFTL.Uncached (PageMapping.scanOrder ftl victims) l ∧
        PageMapping.MovesBlock ftl s.world l ∨
      ∃ x ∈ s.pFTL.lookup l, x.1 ∉ victims ∧ s.pFTL.pool.content x = some l))

/-- The collection returns and loses no logical page that is valid in a victim. -/
structure CollectSafe (cfg : Config) (ftl : FTL.Config) (env : FTL.Env) (victims : List Nat)
    (s : GenericCache PageMapping) : Prop where
  returns : s.pFTL.Collectable ftl env s.world (PageMapping.scanOrder ftl victims)
  spares (l : Nat) : s.ValidIn victims l → s.Spares cfg ftl victims l

section Keeps

variable {cfg : Config} {ftl : FTL.Config} {env : FTL.Env} {victims : List Nat}
  {s s' : GenericCache PageMapping}

/-- The LPNs that the FTL passed to `updateDirty` are read off its trace. -/
theorem markedBy_of_marks {f f' : PageMapping} {lpns : List Nat} (h : PageMapping.Marks f lpns f') :
    markedBy f f' = lpns := by
  obtain ⟨events, htrace, rfl⟩ := h
  rw [markedBy, htrace, List.length_append, Nat.add_sub_cancel, List.take_left]
  refine List.filterMap_congr fun e _ => ?_
  cases e <;> rfl

/-- A valid page without its cached bit is among the scanned pages. -/
theorem uncached_of_content {x : Nat × Nat} {l : Nat} (hwf : s.pFTL.pool.WellFormed ftl)
    (hvictim : x.1 ∈ victims) (hcontent : s.pFTL.pool.content x = some l)
    (hbit : ¬ s.pFTL.CachedPage x) :
    s.pFTL.Uncached (PageMapping.scanOrder ftl victims) l := by
  have hrange : ftl.InRange x := by
    by_contra hout
    rw [BlockPool.content_of_not_inRange hwf hout] at hcontent
    cases hcontent
  refine ⟨x, PageMapping.mem_scanOrder.mpr ⟨hvictim, hrange.2⟩, ?_⟩
  rw [BlockPool.content, Option.bind_eq_some_iff] at hcontent
  obtain ⟨b, hb, hl⟩ := hcontent
  have hclear : x.2 ∉ b.pCachedBits := fun hmem => hbit ⟨b, hb, hmem⟩
  rw [PageMapping.uncachedAt, hb, Option.bind_some, if_neg hclear, hl]

/-- Where the victims have no cached bit set and no page is moved between blocks,
every valid page is queued. -/
theorem collectSafe_of_uncached (hone : ftl.ioUnitInPage = 1) (hwf : s.pFTL.pool.WellFormed ftl)
    (hclear : ∀ v ∈ victims, ∀ b ∈ s.pFTL.pool.blocks.find? v, b.pCachedBits = ∅)
    (hmove : ftl.blockToBlockMovement = false) : s.CollectSafe cfg ftl env victims := by
  have hbits : ∀ x : Nat × Nat, x.1 ∈ victims → ¬ s.pFTL.CachedPage x := by
    rintro x hx ⟨b, hb, hmem⟩
    rw [hclear x.1 hx b hb] at hmem
    simp at hmem
  have hstay : ∀ l, ¬ PageMapping.MovesBlock ftl s.world l := by
    intro l hboth
    rw [PageMapping.MovesBlock, hmove] at hboth
    cases hboth.1
  refine ⟨⟨fun _ => hone, fun before x hpre hcached => ?_, fun l _ h => absurd h (hstay l),
    s.pFTL.pool, ?_⟩, ?_⟩
  · have hmem := hpre.subset (List.mem_append_right before (List.mem_singleton_self x))
    exact absurd hcached (hbits x (PageMapping.mem_scanOrder.mp hmem).1)
  · -- the pool is as it was behind every page
    have hpass : ∀ pages : List (Nat × Nat), pages.foldlM
        (PageMapping.passPage ftl env s.world s.pFTL) s.pFTL.pool = .ok s.pFTL.pool := by
      intro pages
      induction pages with
      | nil => rfl
      | cons x pages ih =>
        rw [List.foldlM_cons, PageMapping.passPage]
        split
        · exact ih
        · rw [if_neg (hstay _)]
          exact ih
    exact hpass _
  · rintro l ⟨x, hvictim, hcontent⟩
    exact .inl ⟨uncached_of_content hwf hvictim hcontent (hbits x hvictim), hstay l⟩

/-- What a collection that has returned has lost is read off the state in which it began. -/
theorem collectionKeeps_iff (hmode : ftl.evictPolicy = .cachedGC)
    (hwf : s.pFTL.pool.WellFormed ftl) (hnodup : victims.Nodup)
    (hfull : s.pFTL.FullVictims ftl victims) (hlimit : ¬ ftl.simlationIORequests < s.iclCount)
    (h : s.collect cfg ftl env victims = .ok s') :
    s.pFTL.Collectable ftl env s.world (PageMapping.scanOrder ftl victims) ∧
      (CollectionKeeps cfg victims s s' ↔
        ∀ l, s.ValidIn victims l → s.Spares cfg ftl victims l) := by
  rw [collect, Except.bind_eq_ok] at h
  obtain ⟨pFTL, hgc, h⟩ := h
  cases h
  obtain ⟨hready, queue, marks, hhanded, hmarks, hqueue, hmarked, hlookup⟩ :=
    PageMapping.cachedCollection_spec hmode hnodup hlimit hwf hfull hgc
  have hafter := foldl_updateDirty_marked cfg marks { s with pFTL := pFTL }
  rw [markedBy_of_marks hmarks]
  generalize hs' : marks.foldl (updateDirty cfg) { s with pFTL := pFTL } = s' at hafter
  have hpFTL : s'.pFTL = pFTL := hafter.pFTL
  have hdirty : ∀ l, s'.DirtyLine cfg l ↔
      s.DirtyLine cfg l ∨ l ∈ marks ∧ (s.getValidWay cfg l).isSome = true := by
    intro l
    rw [← hs']
    exact dirtyLine_foldl_updateDirty marks { s with pFTL := pFTL }
  have hsurvives : ∀ l, s'.Survives cfg victims l ↔
      (l ∉ queue ∧ l ∉ marks ∧
        (s.pFTL.Uncached (PageMapping.scanOrder ftl victims) l ∧
            PageMapping.MovesBlock ftl s.world l ∨
          ∃ x ∈ s.pFTL.lookup l, x.1 ∉ victims ∧ s.pFTL.pool.content x = some l)) ∨
        (l ∈ s.pFTL.movePagesToCache ∨ l ∈ queue) ∨
        (s.DirtyLine cfg l ∨ l ∈ marks ∧ (s.getValidWay cfg l).isSome = true) := by
    intro l
    rw [← hlookup l, ← hdirty l, ← List.mem_append, ← hhanded, Survives, hpFTL]
  refine ⟨hready, fun hkeeps l hl => ?_, fun hsafe => ?_⟩
  · have hsurvive := (hsurvives l).mp (hkeeps.survives l hl)
    rw [Spares, ← hqueue l, ← hmarked l]
    rcases hsurvive with ⟨-, hm, h⟩ | (h | h) | h | h
    · exact .inr (.inr (.inr (.inr ⟨hm, h⟩)))
    · exact .inr (.inl h)
    · exact .inl h
    · exact .inr (.inr (.inl h))
    · exact .inr (.inr (.inr (.inl h)))
  · refine ⟨fun l hl => (hsurvives l).mpr ?_, queue, by rw [hpFTL, hhanded], fun l hl => ?_⟩
    · have hsafe := hsafe l hl
      rw [Spares, ← hqueue l, ← hmarked l] at hsafe
      rcases hsafe with h | h | h | h | ⟨hm, h⟩
      · exact .inr (.inl (.inr h))
      · exact .inr (.inl (.inl h))
      · exact .inr (.inr (.inl h))
      · exact .inr (.inr (.inr h))
      · by_cases hq : l ∈ queue
        · exact .inr (.inl (.inr hq))
        · exact .inl ⟨hq, hm, h⟩
    · -- an LPN is queued only where it is scanned
      obtain ⟨⟨x, hx, hl⟩, -⟩ := (hqueue l).mp hl
      refine ⟨x, (PageMapping.mem_scanOrder.mp hx).1, ?_⟩
      rw [PageMapping.uncachedAt, Option.bind_eq_some_iff] at hl
      obtain ⟨b, hb, hl⟩ := hl
      split at hl
      · cases hl
      · rw [BlockPool.content, hb, Option.bind_some, hl]

end Keeps

end GenericCache

open GenericCache

/-- A collection in `cachedGC` mode that begins in a reachable state returns and loses
no logical page exactly when `CollectSafe` holds there. -/
theorem cached_collection_keeps (cfg : Config) (ftl : FTL.Config) (env : FTL.Env)
    (s : GenericCache PageMapping) (victims : List Nat)
    (hmode : ftl.evictPolicy = .cachedGC) (hreach : s.pFTL.Reachable ftl env)
    (hnodup : victims.Nodup) (hfull : s.pFTL.FullVictims ftl victims)
    (hlimit : ¬ ftl.simlationIORequests < s.iclCount) :
    (∃ s', s.collect cfg ftl env victims = .ok s' ∧ CollectionKeeps cfg victims s s') ↔
      s.CollectSafe cfg ftl env victims := by
  constructor
  · rintro ⟨s', h, hkeeps⟩
    obtain ⟨hready, hiff⟩ := collectionKeeps_iff hmode hreach.wellFormed hnodup hfull hlimit h
    exact ⟨hready, hiff.mp hkeeps⟩
  · rintro ⟨hready, hspares⟩
    obtain ⟨pFTL, hgc⟩ :=
      PageMapping.cachedCollection_ok hmode hnodup hreach.wellFormed hfull hready
    have h : s.collect cfg ftl env victims =
        .ok ((markedBy s.pFTL pFTL).foldl (updateDirty cfg) { s with pFTL := pFTL }) := by
      rw [collect, hgc]
      rfl
    exact ⟨_, h, (collectionKeeps_iff hmode hreach.wellFormed hnodup hfull hlimit h).2.mpr hspares⟩

/-! ### The FTL below a cache -/

/-- No condition on the steps of a call. -/
def noConditions (F : Type) : StepConditions F := ⟨fun _ _ => True, fun _ _ _ => True,
  fun _ _ _ => True⟩

section Below

variable {F : Type} {cfg : Config} {env : Env} {port : FTLPort F} {P : F → Prop}

/-- What every FTL call keeps, a call of the cache keeps. -/
theorem port_invariant (hP : ∀ f call r, P f → port.call f call = .ok r → P r.1) :
    CacheInvariant cfg env port (noConditions F) False (fun _ s => P s.pFTL)
      (fun _ s => P s.pFTL) := by
  have hcall : ∀ {s : GenericCache F} {op : FTL.Op}, P s.pFTL →
      (s.call cfg port op).All fun s' => P s'.pFTL := by
    intro s op hs
    refine (call_all cfg port op s).mono ?_
    rintro s' ⟨pFTL, marked, hport, hmarked⟩
    rw [hmarked.pFTL]
    exact hP _ _ _ hs hport
  have hlast : Lasting cfg port (fun s : GenericCache F => P s.pFTL) :=
    ⟨hcall, fun h => h, fun h => h⟩
  constructor
  case evictLine =>
    intro R s row pos hs _ _ _
    exact (hlast.releaseLine (s := s.countEviction _) hs).bind fun _ h => h
  case load => exact fun hs => (hcall hs).bind fun _ h => h
  case readThrough => exact fun _ hs => hcall hs
  case writeThrough => exact fun _ hs => hlast.writeDirect hs
  case writeUncached => exact fun _ hs => hlast.writeDirect hs
  case rewrite => exact fun hs _ => hlast.writeDirect hs
  case flushLine => exact fun hs _ _ _ => hlast.flushLine hs
  case trim => exact fun hs => hlast.trim hs
  case format => exact fun hs => hlast.format hs
  case insert_fresh => exact fun h => h.elim
  all_goals
    intros
    assumption

end Below

/-- Every run meets no conditions. -/
theorem meets_noConditions {F : Type} (cfg : Config) (env : Env) (port : FTLPort F)
    (s : GenericCache F) (calls : List (Nat × Op)) :
    Run.Along (Op.exec cfg env port) (Op.Meets cfg env port (noConditions F)) s calls := by
  refine Run.Along.of_forall (fun s call => ?_) _ _
  obtain ⟨n, op⟩ := call
  cases op with
  | read req => exact fun _ lca _ => Run.Along.of_forall (fun _ _ _ _ => trivial) _ _
  | flush range => exact Run.Along.of_forall (fun _ _ => trivial) _ _
  | write => trivial
  | trim => trivial
  | format => trivial
  | writeVictimPagesToCache => trivial

/-- The FTL below a cache is reachable in every run of calls. -/
theorem run_reachable {cfg : Config} {ftl : FTL.Config} {env : Env} {ftlEnv : FTL.Env}
    {pFTL : PageMapping} {calls : List (Nat × Op)} {s : GenericCache PageMapping}
    (hstart : pFTL.Reachable ftl ftlEnv)
    (h : run cfg env (pageMapping ftl ftlEnv) (.init pFTL) calls = .ok s) :
    s.pFTL.Reachable ftl ftlEnv := by
  have hI : CacheInvariant cfg env (pageMapping ftl ftlEnv) (noConditions PageMapping) False
      (fun _ s => s.pFTL.Reachable ftl ftlEnv) (fun _ s => s.pFTL.Reachable ftl ftlEnv) := by
    refine port_invariant (P := PageMapping.Reachable ftl ftlEnv) fun f call r hf hr => ?_
    obtain ⟨f', hcall, rfl⟩ := Except.map_eq_ok.mp hr
    exact hf.call hcall
  exact ((hI.run ⟨hstart, fun _ => rfl⟩ (meets_noConditions _ _ _ _ _)).of_ok h).1

/-- Between the calls of a run `evictData` is all null. -/
theorem run_cleared {F : Type} {cfg : Config} {env : Env} {port : FTLPort F} {pFTL : F}
    {calls : List (Nat × Op)} {s : GenericCache F}
    (h : run cfg env port (.init pFTL) calls = .ok s) : s.Cleared := by
  have hI : CacheInvariant cfg env port (noConditions F) False (fun _ _ => True) fun _ _ => True :=
    port_invariant (P := fun _ => True) fun _ _ _ _ _ => trivial
  exact ((hI.run ⟨trivial, fun _ => rfl⟩ (meets_noConditions _ _ _ _ _)).of_ok h).2

/-! ### Two small collections -/

/-- The small device with `cachedGC` collection. -/
def collectingConfig (n : Nat) : FTL.Config := { FTL.Config.small n with evictPolicy := .cachedGC }

def collectingDevice (n : Nat) : Except Fault PageMapping :=
  PageMapping.start (collectingConfig n) .zero none

/-- A run of calls on the small cache over this device. -/
def collectingRun (n : Nat) (calls : List Op) (pFTL : PageMapping) :
    Except Fault (GenericCache PageMapping) :=
  run .small .ticking (pageMapping (collectingConfig n) .zero) (.init pFTL)
    (calls.map fun op => (0, op))

/-- Two pages are written back, which fills block 0. -/
def fillBlock : List Op := [.write (.line 1), .write (.line 2), .flush ⟨0, 10⟩]

/-- Block 0 is collected while neither of its pages is cached. -/
theorem cached_collection_keeps_small : ∃ pFTL s s',
    collectingDevice 4 = .ok pFTL ∧ collectingRun 4 fillBlock pFTL = .ok s ∧
      s.collect .small (collectingConfig 4) .zero [0] = .ok s' ∧
        CollectionKeeps .small [0] s s' := by
  obtain ⟨pFTL, hinit, hrun⟩ := Except.exists_of_map (x := collectingDevice 4)
    (p := fun pFTL => (collectingRun 4 fillBlock pFTL).map (fun s =>
      decide (s.iclCount = 0 ∧ (s.pFTL.pool.blocks.find? 0).map
          (fun b => (b.getNextWritePageIndex, b.pCachedBits)) = some (2, ∅))) = .ok true)
    (by decide +kernel)
  obtain ⟨s, hs, hcount, hblock⟩ := Except.exists_of_map hrun
  obtain ⟨b, hb, hfields⟩ := Option.map_eq_some_iff.mp hblock
  have hfields := Prod.mk.inj hfields
  have hreach := run_reachable (.start hinit) hs
  have hfull : s.pFTL.FullVictims (collectingConfig 4) [0] := by
    intro v hv
    rw [List.mem_singleton.mp hv]
    exact ⟨b, hb, hfields.1⟩
  have hclear : ∀ v ∈ [0], ∀ c ∈ s.pFTL.pool.blocks.find? v, c.pCachedBits = ∅ := by
    intro v hv c hc
    rw [List.mem_singleton.mp hv, hb] at hc
    cases hc
    exact hfields.2
  obtain ⟨s', hs', hkeeps⟩ := (cached_collection_keeps .small (collectingConfig 4) .zero s [0] rfl
    hreach (List.nodup_singleton 0) hfull (by rw [hcount]; decide)).mpr
      (collectSafe_of_uncached rfl hreach.wellFormed hclear rfl)
  exact ⟨pFTL, s, s', hinit, hs, hs', hkeeps⟩

/-- The first page is read again, and its line rewritten: its cached bit is set and no page
has been scanned before it, so element 0 of the empty `lpns` is read. -/
example : (collectingDevice 4 >>= fun pFTL =>
    collectingRun 4 (fillBlock ++ [.read (.line 1), .write (.line 1)]) pFTL >>= fun s =>
      (s.collect .small (collectingConfig 4) .zero [0]).map fun _ => ()) =
    .error (.badAccess "lpns[0]") := by decide +kernel

/-- The second page is read again, so its cached bit is set when block 0 is
collected: the collection passes LPN 1 to `updateDirty` and erases page 2. -/
theorem cached_page_lost : ∃ pFTL s s',
    collectingDevice 4 = .ok pFTL ∧ collectingRun 4 (fillBlock ++ [.read (.line 2)]) pFTL = .ok s ∧
      s.pFTL.FullVictims (collectingConfig 4) [0] ∧
        s.collect .small (collectingConfig 4) .zero [0] = .ok s' ∧
          ¬ CollectionKeeps .small [0] s s' := by
  obtain ⟨pFTL, hinit, hrun⟩ := Except.exists_of_map (x := collectingDevice 4)
    (p := fun pFTL => (collectingRun 4 (fillBlock ++ [.read (.line 2)]) pFTL).map (fun s =>
      decide ((s.collect .small (collectingConfig 4) .zero [0]).map (fun s' =>
          decide (¬ s'.Survives .small [0] 2)) = .ok true ∧
        s.pFTL.pool.content (0, 1) = some 2 ∧
          (s.pFTL.pool.blocks.find? 0).map Block.getNextWritePageIndex = some 2)) = .ok true)
    (by decide +kernel)
  obtain ⟨s, hs, hcollect, hvalid, hnext⟩ := Except.exists_of_map hrun
  obtain ⟨s', hs', hlost⟩ := Except.exists_of_map hcollect
  obtain ⟨b, hb, hnext⟩ := Option.map_eq_some_iff.mp hnext
  refine ⟨pFTL, s, s', hinit, hs, fun v hv => ?_, hs', fun hkeeps => ?_⟩
  · rw [List.mem_singleton.mp hv]
    exact ⟨b, hb, hnext⟩
  · exact hlost (hkeeps.survives 2 ⟨(0, 1), List.mem_singleton_self 0, hvalid⟩)

end SimpleSSD.ICL
