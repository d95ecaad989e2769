import SimpleSSD.FTL.Content
import SimpleSSD.Lib.Linked

/-!
# What a write does to the table and the flash

With one I/O unit a page, the program path of `writeInternal` invalidates one
page, programs one page and sets one table entry (`Programs`). The page it
invalidates is the one its lookup found. The entry it sets is that of the
written page when the lookup ended in `table`; when it ended in one of the
mapping caches it is the *first* entry of `table`, whatever page that belongs to
(page_mapping.cc:1842, 1993–2010: `mappingList` still is `table.begin()`).
-/

namespace SimpleSSD.FTL

/-- The flash writes among the events of a call. -/
def palWrites (events : List Event) : List PAL.Request :=
  events.filterMap fun
    | .palWrite req => some req
    | _ => none

theorem palWrites_append (a b : List Event) : palWrites (a ++ b) = palWrites a ++ palWrites b :=
  List.filterMap_append

/-- Reads are no writes. -/
theorem palWrites_reads {events : List Event} (h : ∀ e ∈ events, ∃ r, e = .palRead r) :
    palWrites events = [] := by
  refine List.filterMap_eq_nil_iff.mpr fun e he => ?_
  obtain ⟨r, rfl⟩ := h e he
  rfl

/-- Every vector of `table` has one mapping for each I/O unit. -/
def TableShape (cfg : Config) (s : PageMapping) : Prop :=
  ∀ l vec, s.table.find? l = some vec → vec.length = cfg.bitsetSize

namespace PageMapping

/-- The state in which the units are programmed. -/
def programStart (send : Bool) (pool : BlockPool) (s : PageMapping) : PageMapping :=
  if send then (({ s with pool := pool } : PageMapping).log .dram).log .dram
  else { s with pool := pool }

/-- The key of the entry that the program path sets. -/
def writtenKey (cfg : Config) (s : PageMapping) (lpn : Nat) : Option Nat :=
  if (s.cachedMapping cfg lpn).isSome then s.table.begin?.map Prod.fst else some lpn

/-- The outcome of the lookup of a write: the page found is invalid, and a page
found nowhere has a vector that names no page. -/
structure LooksUp (cfg : Config) (s : PageMapping) (lpn : Nat) (key : Option Nat)
    (s₁ : PageMapping) : Prop where
  key_eq : key = s.writtenKey cfg lpn
  content : s₁.pool.content = clear s.pool.content (s.readMapping cfg lpn 0)
  blocks : ∀ k b, s.pool.blocks.find? k = some b →
    ∃ b', s₁.pool.blocks.find? k = some b' ∧ b'.pNextWritePageIndex = b.pNextWritePageIndex
  table : ∀ l, s₁.table.find? l =
    if l = lpn ∧ s.readMapping cfg lpn 0 = none
    then some [(cfg.totalPhysicalBlocks, cfg.pagesInBlock)] else s.table.find? l
  trace : s₁.trace = s.trace

section Write

variable {cfg : Config} {env : Env} {w : World} {req : Request} {send : Bool}
  {s s₁ s' : PageMapping}

@[simp] theorem programStart_pool (pool : BlockPool) : (s.programStart send pool).pool = pool := by
  cases send <;> rfl

@[simp] theorem programStart_table (pool : BlockPool) :
    (s.programStart send pool).table = s.table := by
  cases send <;> rfl

@[simp] theorem programStart_cache (pool : BlockPool) :
    (s.programStart send pool).cache = s.cache := by
  cases send <;> rfl

/-- The program path: the page is looked up, a block is taken, and its units are programmed. -/
theorem programPage_cases (h : s.programPage cfg env w req send = .ok s') :
    ∃ key hit s₁ blk pool locals, s.lookupForWrite cfg env req send = .ok (key, hit, s₁) ∧
      s₁.pool.getLastFreeBlock cfg env req.ioFlag = .ok (blk, pool) ∧ blk ∈ pool.blocks ∧
      (List.range cfg.bitsetSize).foldlM (programUnit cfg env w req send key blk)
        (⟨false, hit⟩, s₁.programStart send pool) = .ok (locals, s') := by
  rw [programPage, Except.bind_eq_ok] at h
  obtain ⟨⟨key, hit, s₁⟩, hlook, h⟩ := h
  rw [Except.bind_eq_ok] at h
  obtain ⟨⟨blk, pool⟩, halloc, h⟩ := h
  simp only at h
  split at h
  · cases h
  · next hblk =>
    rw [Except.bind_eq_ok] at h
    obtain ⟨⟨locals, s₂⟩, hloop, h⟩ := h
    cases h
    exact ⟨key, hit, s₁, blk, pool, locals, hlook, halloc, not_not.mp hblk, hloop⟩

/-- The ways that a lookup which returns has gone. -/
inductive WriteLookup (cfg : Config) (env : Env) (s : PageMapping) (req : Request) (send : Bool) :
    Option Nat → Bool → PageMapping → Prop where
  | hit {e p} (hcmt : s.cmtHit cfg req.lpn = some e)
    (hp : invalidateUnits cfg req (fun _ => .ok e.page) s.pool = .ok p) :
    WriteLookup cfg env s req send (s.table.begin?.map Prod.fst) send
      { (if send then s.touchCmt env req.lpn e else s) with pool := p }
  | promoted {e p} (hcmt : s.cmtHit cfg req.lpn = none)
    (hshadow : s.shadowHit cfg req.lpn = some e) (hsend : send = true)
    (hp : invalidateUnits cfg req (fun _ => .ok e.page) s.pool = .ok p) :
    WriteLookup cfg env s req send (s.table.begin?.map Prod.fst) true
      { s with cache := s.cache.promote cfg env req.lpn e (env.tick s.trace), pool := p }
  -- without `sendToPAL` the shadow cache serves nothing, and nothing is invalidated
  | skipped {e} (hcmt : s.cmtHit cfg req.lpn = none)
    (hshadow : s.shadowHit cfg req.lpn = some e) (hsend : send = false) :
    WriteLookup cfg env s req send (s.table.begin?.map Prod.fst) false s
  | mapped {vec p} (hcmt : s.cmtHit cfg req.lpn = none) (hshadow : s.shadowHit cfg req.lpn = none)
    (htable : s.table.find? req.lpn = some vec)
    (hp : invalidateUnits cfg req (mappingAt vec) s.pool = .ok p) :
    WriteLookup cfg env s req send (some req.lpn) false { s with pool := p }
  | added (hcmt : s.cmtHit cfg req.lpn = none) (hshadow : s.shadowHit cfg req.lpn = none)
    (htable : s.table.find? req.lpn = none) :
    WriteLookup cfg env s req send (some req.lpn) false
      { s with
        table := s.table.emplace (env.place .table s.table.keys req.lpn) req.lpn
          (List.replicate cfg.bitsetSize (cfg.totalPhysicalBlocks, cfg.pagesInBlock)) }

/-- Inverts a lookup once for the proofs about the mapping, the blocks and the cache. -/
theorem lookupForWrite_cases {key : Option Nat} {hit : Bool}
    (h : s.lookupForWrite cfg env req send = .ok (key, hit, s₁)) :
    WriteLookup cfg env s req send key hit s₁ := by
  rw [lookupForWrite] at h
  split at h
  · next hcmt =>
    rw [Except.bind_eq_ok] at h
    obtain ⟨p, hp, h⟩ := h
    cases h
    cases send <;> exact .hit hcmt hp
  next hcmt =>
  split at h
  · next hshadow =>
    split at h
    · next hsend =>
      rw [Except.bind_eq_ok] at h
      obtain ⟨p, hp, h⟩ := h
      cases h
      exact .promoted hcmt hshadow hsend hp
    · next hsend =>
      cases h
      exact .skipped hcmt hshadow (Bool.eq_false_of_not_eq_true hsend)
  next hshadow =>
  split at h
  · next htable =>
    rw [Except.bind_eq_ok] at h
    obtain ⟨p, hp, h⟩ := h
    cases h
    exact .mapped hcmt hshadow htable hp
  · next htable =>
    cases h
    exact .added hcmt hshadow htable

/-- With one mapping a page, one page is invalidated. -/
theorem invalidateUnits_one (hone : cfg.bitsetSize = 1) (hwant : req.wants cfg 0 = true)
    {mapping : Nat → Except Fault (Nat × Nat)} {p p' : BlockPool}
    (h : invalidateUnits cfg req mapping p = .ok p') :
    ∃ page, mapping 0 = .ok page ∧ p' = p.invalidateMapped cfg page 0 := by
  rw [invalidateUnits, hone, show List.range 1 = [0] from rfl, List.foldlM_cons, if_pos hwant,
    Except.bind_eq_ok] at h
  obtain ⟨q, hq, h⟩ := h
  rw [Except.bind_eq_ok] at hq
  obtain ⟨page, hpage, hq⟩ := hq
  cases hq
  cases h
  exact ⟨page, hpage, rfl⟩

theorem blocks_invalidateMapped (p : BlockPool) (page : Nat × Nat) {k : Nat} {b : Block}
    (hb : p.blocks.find? k = some b) :
    ∃ b', (p.invalidateMapped cfg page 0).blocks.find? k = some b' ∧
      b'.pNextWritePageIndex = b.pNextWritePageIndex := by
  rw [BlockPool.invalidateMapped]
  split
  · split
    · next c hc =>
      rw [BlockPool.putBlock, UnorderedMap.find?_set]
      split
      · next hk =>
        subst hk
        rw [hc] at hb
        cases hb
        exact ⟨_, rfl, rfl⟩
      · exact ⟨b, hb, rfl⟩
    · exact ⟨b, hb, rfl⟩
  · exact ⟨b, hb, rfl⟩

/-- A lookup that found `page`, whatever the place. -/
theorem LooksUp.of_found {key : Option Nat} {page : Nat × Nat} (hwf : s.pool.WellFormed cfg)
    (hkey : key = s.writtenKey cfg req.lpn) (hpage : s.readMapping cfg req.lpn 0 = some page)
    (hpool : s₁.pool = s.pool.invalidateMapped cfg page 0) (htable : s₁.table = s.table)
    (htrace : s₁.trace = s.trace) : LooksUp cfg s req.lpn key s₁ where
  key_eq := hkey
  content := by rw [hpool, BlockPool.content_invalidateMapped hwf, hpage, clear_some]
  blocks := fun k b hb => by
    rw [hpool]
    exact blocks_invalidateMapped _ _ hb
  table := fun l => by rw [htable, hpage, if_neg (by simp)]
  trace := htrace

theorem lookupForWrite_spec (hone : cfg.bitsetSize = 1) (hwant : req.wants cfg 0 = true)
    (hwf : s.pool.WellFormed cfg) (hsend : send = true ∨ s.cachedMapping cfg req.lpn = none)
    {key : Option Nat} {hit : Bool}
    (h : s.lookupForWrite cfg env req send = .ok (key, hit, s₁)) :
    LooksUp cfg s req.lpn key s₁ := by
  have hcached : s.cachedMapping cfg req.lpn =
      ((s.cmtHit cfg req.lpn).map MappingEntry.page).or
        ((s.shadowHit cfg req.lpn).map ShadowCacheEntry.page) := rfl
  cases lookupForWrite_cases h with
  | hit hcmt hp =>
    rw [hcmt, Option.map_some, Option.some_or] at hcached
    obtain ⟨page, hpage, rfl⟩ := invalidateUnits_one hone hwant hp
    cases hpage
    refine LooksUp.of_found hwf ?_ (by rw [readMapping, hcached]; rfl) rfl ?_ ?_
    · rw [writtenKey, hcached]
      rfl
    all_goals cases send <;> rfl
  | promoted hcmt hshadow _ hp =>
    rw [hcmt, hshadow, Option.map_none, Option.none_or, Option.map_some] at hcached
    obtain ⟨page, hpage, rfl⟩ := invalidateUnits_one hone hwant hp
    cases hpage
    refine LooksUp.of_found hwf ?_ (by rw [readMapping, hcached]; rfl) rfl rfl rfl
    rw [writtenKey, hcached]
    rfl
  | skipped hcmt hshadow hwarm =>
    rw [hcmt, hshadow, Option.map_none, Option.none_or, Option.map_some] at hcached
    simp [hwarm, hcached] at hsend
  | mapped hcmt hshadow htable hp =>
    rw [hcmt, hshadow, Option.map_none, Option.none_or, Option.map_none] at hcached
    obtain ⟨page, hpage, rfl⟩ := invalidateUnits_one hone hwant hp
    refine LooksUp.of_found hwf ?_ ?_ rfl rfl rfl
    · rw [writtenKey, hcached]
      rfl
    · rw [readMapping, hcached, tableMapping, htable]
      exact (mappingAt_sat _ 0).of_ok hpage
  | added hcmt hshadow htable =>
    rw [hcmt, hshadow, Option.map_none, Option.none_or, Option.map_none] at hcached
    have hread : s.readMapping cfg req.lpn 0 = none := by
      rw [readMapping, hcached, tableMapping, htable]
      rfl
    refine ⟨?_, ?_, fun k b hb => ⟨b, hb, rfl⟩, fun l => ?_, rfl⟩
    · rw [writtenKey, hcached]
      rfl
    · rw [hread, clear_none]
    · rw [UnorderedMap.find?_emplace (UnorderedMap.find?_eq_none_iff.mp htable), hone, hread]
      simp

/-- One iteration of the program loop: a unit of block `blk` is programmed at its
write pointer, the vector at `mappingList` takes the new page, and, unless the
device is being warmed up, so do the mapping caches. -/
theorem programUnit_spec {mappingList : Option Nat} {blk idx : Nat} {locals locals' : WriteLocals}
    (hwant : req.wants cfg idx = true)
    (h : programUnit cfg env w req send mappingList blk (locals, s) idx = .ok (locals', s')) :
    ∃ key vec b b', mappingList = some key ∧ s.table.find? key = some vec ∧ idx < vec.length ∧
      s.pool.blocks.find? blk = some b ∧
      b.write (b.pNextWritePageIndex idx) req.lpn idx = .ok b' ∧
      s'.pool = s.pool.putBlock blk b' ∧
      s'.table = s.table.set 0 key (vec.set idx (blk, b.pNextWritePageIndex idx)) ∧
      (send = true → (∃ old, vec[idx]? = some old ∧
          s'.trace = .palWrite ⟨blk, b.pNextWritePageIndex idx, palFlag cfg req.ioFlag idx⟩ ::
            (s.readOldUnits cfg req old).trace) ∧
        ∃ tick count, (locals'.deadonArrival, s'.cache) =
          if cfg.enableCMT then
            s.cache.load cfg env w.iclCount req.lpn (blk, b.pNextWritePageIndex idx) tick count
              locals.deadonArrival
          else (locals.deadonArrival, s.cache)) ∧
      (send = false → s'.cache = s.cache) := by
  rw [programUnit] at h
  simp only [hwant, if_true] at h
  split at h
  · cases h
  · next b hb =>
    rw [Except.bind_eq_ok] at h
    obtain ⟨⟨key, vec⟩, hvec, h⟩ := h
    rw [Except.bind_eq_ok] at h
    obtain ⟨old, hold, h⟩ := h
    rw [Except.bind_eq_ok] at h
    obtain ⟨b', hb', h⟩ := h
    have hkey : mappingList = some key ∧ s.table.find? key = some vec := by
      unfold mappingVector at hvec
      split at hvec
      · cases hvec
      · split at hvec
        · next hfind =>
          cases hvec
          exact ⟨rfl, hfind⟩
        · cases hvec
    have hold : vec[idx]? = some old := (mappingAt_sat vec idx).of_ok hold
    have hlen : idx < vec.length := (List.getElem?_eq_some_iff.mp hold).1
    refine ⟨key, vec, b, b', hkey.1, hkey.2, hlen, hb, hb', ?_⟩
    cases send with
    | true =>
      obtain ⟨events, hread, -⟩ :=
        readOldUnits_eq cfg req old { s with pool := s.pool.putBlock blk b' }
      have htrace : (s.readOldUnits cfg req old).trace = events ++ s.trace := by
        have hsame : (s.readOldUnits cfg req old).trace =
            (({ s with pool := s.pool.putBlock blk b' } : PageMapping).readOldUnits cfg req
              old).trace := by
          unfold readOldUnits
          split <;> rfl
        rw [hsame, hread]
      simp only [if_true, hread] at h
      cases h
      simp only [log_pool, log_table, loadMapping_pool, loadMapping_table, true_and]
      refine ⟨fun _ => ⟨⟨old, hold, ?_⟩, _, _, loadMapping_cache ..⟩, Bool.noConfusion⟩
      simp [log, htrace]
    | false =>
      cases h
      exact ⟨rfl, rfl, Bool.noConfusion, fun _ => rfl⟩

/-- What the program path does with one unit a page: it sets the entry `key` to
the page `new`, programs `new` with the logical page written, and leaves every
other entry, and every other page but the one it invalidates, alone. -/
structure Programs (cfg : Config) (s : PageMapping) (req : Request) (key : Nat)
    (new : Nat × Nat) (s' : PageMapping) : Prop where
  key_eq : s.writtenKey cfg req.lpn = some key
  fresh : s.pool.content new = none
  content : s'.pool.content =
    Function.update (clear s.pool.content (s.readMapping cfg req.lpn 0)) new (some req.lpn)
  table : ∀ l, s'.table.find? l = if l = key then some [new] else s.table.find? l

/-- The page at the write pointer of the block opened after a lookup stores
nothing, not even the page that the lookup invalidated. -/
theorem LooksUp.fresh {key : Option Nat} {lpn blk : Nat} {b : Block} {iomap : Bitset}
    {pool : BlockPool} (hs₁ : LooksUp cfg s lpn key s₁)
    (halloc : s₁.pool.getLastFreeBlock cfg env iomap = .ok (blk, pool))
    (hb : pool.blocks.find? blk = some b) :
    s.pool.content (blk, b.pNextWritePageIndex 0) = none := by
  rw [BlockPool.content]
  cases hold : s.pool.blocks.find? blk with
  | none => rfl
  | some b₀ =>
    obtain ⟨b₁, hb₁, hnext⟩ := hs₁.blocks blk b₀ hold
    have hsame := BlockPool.find?_getLastFreeBlock halloc hb₁
    rw [hb] at hsame
    cases hsame
    exact Block.contentAt_of_next_le (by rw [hnext])

/-- The vector that the program path sets has one entry. -/
theorem LooksUp.vec_set {key : Option Nat} {lpn k : Nat} {vec : List (Nat × Nat)}
    {new : Nat × Nat} (hs₁ : LooksUp cfg s lpn key s₁) (hone : cfg.bitsetSize = 1)
    (hshape : TableShape cfg s) (hvec : s₁.table.find? k = some vec) : vec.set 0 new = [new] := by
  have hlen : vec.length = 1 := by
    rw [hs₁.table] at hvec
    split at hvec
    · cases hvec
      rfl
    · rw [hshape k vec hvec, hone]
  obtain ⟨page, rfl⟩ := List.length_eq_one_iff.mp hlen
  rfl

theorem programPage_spec (hone : cfg.bitsetSize = 1) (hwant : req.wants cfg 0 = true)
    (hwf : s.pool.WellFormed cfg) (hshape : TableShape cfg s)
    (hsend : send = true ∨ s.cachedMapping cfg req.lpn = none)
    (h : s.programPage cfg env w req send = .ok s') :
    ∃ key new, Programs cfg s req key new s' ∧ (send = true → ∃ events,
      s'.trace = events ++ s.trace ∧
        palWrites events = [⟨new.1, new.2, palFlag cfg req.ioFlag 0⟩]) := by
  obtain ⟨key, hit, s₁, blk, pool, locals, hlook, halloc, -, hloop⟩ := programPage_cases h
  have hs₁ := lookupForWrite_spec hone hwant hwf hsend hlook
  have hwf₁ : s₁.pool.WellFormed cfg :=
    ((BlockPool.wellFormed_access cfg).touch.lookupForWrite hwf).of_ok hlook
  rw [hone, show List.range 1 = [0] from rfl, List.foldlM_cons, Except.bind_eq_ok] at hloop
  obtain ⟨⟨locals', s₃⟩, hunit, hloop⟩ := hloop
  cases hloop
  obtain ⟨k, vec, b, b', rfl, hvec, hlen, hb, hwrite, hpool, htable, htrace, -⟩ :=
    programUnit_spec hwant hunit
  rw [programStart_pool] at hb hpool
  rw [programStart_table] at hvec htable
  refine ⟨k, (blk, b.pNextWritePageIndex 0), ⟨hs₁.key_eq.symm, hs₁.fresh halloc hb, ?_, ?_⟩, ?_⟩
  · rw [hpool, BlockPool.content_putBlock_update hb (Block.contentAt_write hwrite),
      BlockPool.content_getLastFreeBlock hwf₁.toFormatted halloc, hs₁.content]
  · intro l
    rw [htable, UnorderedMap.find?_set, hs₁.vec_set hone hshape hvec]
    by_cases hl : l = k
    · rw [if_pos hl, if_pos hl]
    · rw [if_neg hl, if_neg hl, hs₁.table, if_neg]
      rintro ⟨rfl, hnone⟩
      refine hl (Option.some.inj ?_)
      rw [hs₁.key_eq, writtenKey, (Option.or_eq_none_iff.mp hnone).1]
      rfl
  · rintro rfl
    obtain ⟨old, -, htrace⟩ := (htrace rfl).1
    obtain ⟨events, hread, hevents⟩ := readOldUnits_eq cfg req old (s₁.programStart true pool)
    refine ⟨.palWrite ⟨blk, b.pNextWritePageIndex 0, palFlag cfg req.ioFlag 0⟩ ::
      events ++ [.dram, .dram], ?_, ?_⟩
    · rw [htrace, hread, ← hs₁.trace, List.append_assoc]
      rfl
    · rw [palWrites_append]
      show _ :: palWrites events ++ [] = _
      rw [palWrites_reads hevents]
      rfl

end Write

end PageMapping

end SimpleSSD.FTL
