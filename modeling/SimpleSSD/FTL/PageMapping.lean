import SimpleSSD.FTL.BlockPool
import SimpleSSD.FTL.MappingCache

/-!
# The page mapping: state, lookups and the program path

`PageMapping` (page_mapping.hh) with the globals of icl/global_point.cc that it
shares with the cache layer. This module has the constructor, `readInternal`
(page_mapping.cc:1576–1822) and `writeInternal` up to the point where it checks
for garbage collection (page_mapping.cc:1824–2093).

Both functions look a page up in three places: in the cached mapping table, in
the shadow table, and in `table`. The loops over the I/O units of the first two
are the loop of the third with a constant mapping, and are one definition here.
-/

namespace SimpleSSD.FTL

structure PageMapping where
  table : UnorderedMap Nat (List (Nat × Nat))
  pool : BlockPool
  cache : MappingCache
  /-- LPNs that garbage collection hands to the cache. -/
  movePagesToCache : List Nat
  putPagesInCache : Bool
  trace : List Event

/-- `mapping.first < totalPhysicalBlocks && mapping.second < pagesInBlock`. -/
def Config.InRange (cfg : Config) (page : Nat × Nat) : Prop :=
  page.1 < cfg.totalPhysicalBlocks ∧ page.2 < cfg.pagesInBlock

instance (cfg : Config) (page : Nat × Nat) : Decidable (cfg.InRange page) :=
  inferInstanceAs (Decidable (_ ∧ _))

/-- `req.ioFlag.test(idx) || !bRandomTweak`. -/
def Request.wants (req : Request) (cfg : Config) (idx : Nat) : Bool :=
  req.ioFlag.test idx || !cfg.randomIOTweak

/-- The I/O units of a PAL request for unit `idx`: this unit with the tweak, all
of them without. -/
def palFlag (cfg : Config) (flag : Bitset) (idx : Nat) : Bitset :=
  if cfg.randomIOTweak then Bitset.single flag.dataSize idx else flag.setAll

/-- `vec.at(idx)` on a mapping vector. -/
def mappingAt (vec : List (Nat × Nat)) (idx : Nat) : Except Fault (Nat × Nat) :=
  match vec[idx]? with
  | some page => .ok page
  | none => .error (.badAccess "mapping.at")

namespace PageMapping

/-- The constructor (page_mapping.cc:24–104). -/
def init (cfg : Config) (env : Env) : Except Fault PageMapping := do
  let pool ← BlockPool.init cfg env
  .ok { table := .empty, pool := pool, cache := .init env,
        movePagesToCache := [], putPagesInCache := false, trace := [] }

/-- The page that `table` names for I/O unit `idx`. -/
def tableMapping (s : PageMapping) (lpn idx : Nat) : Option (Nat × Nat) :=
  (s.table.find? lpn).bind fun vec => vec[idx]?

def log (s : PageMapping) (e : Event) : PageMapping := { s with trace := e :: s.trace }

@[simp] theorem log_table (s : PageMapping) (e : Event) : (s.log e).table = s.table := rfl
@[simp] theorem log_pool (s : PageMapping) (e : Event) : (s.log e).pool = s.pool := rfl

/-- A batch of device calls only extends the trace. -/
theorem foldl_log {α : Type*} (g : α → Event) (l : List α) (s : PageMapping) :
    l.foldl (fun s a => s.log (g a)) s = { s with trace := (l.map g).reverse ++ s.trace } := by
  induction l generalizing s with
  | nil => rfl
  | cons a l ih =>
    rw [List.foldl_cons, ih]
    simp [log]

/-- A page looked up or written enters the mapping caches, if they are enabled:
whether it is dead on arrival, and the state. -/
def loadMapping (cfg : Config) (env : Env) (w : World) (lpn : Nat) (page : Nat × Nat)
    (tick : Nat) (count : Option Nat) (dead : Bool) (s : PageMapping) : Bool × PageMapping :=
  if cfg.enableCMT then
    let loaded := s.cache.load cfg env w.iclCount lpn page tick count dead
    (loaded.1, { s with cache := loaded.2 })
  else (dead, s)

/-- `readInternal` enters a mapping when it comes from `table`. -/
def fillMapping (cfg : Config) (env : Env) (w : World) (fill : Bool) (lpn : Nat)
    (page : Nat × Nat) (tick : Nat) (dead : Bool) (s : PageMapping) : Bool × PageMapping :=
  if fill then s.loadMapping cfg env w lpn page tick (some 1) dead else (dead, s)

section Load

variable (cfg : Config) (env : Env) (w : World) (lpn : Nat) (page : Nat × Nat) (tick : Nat)
  (count : Option Nat) (dead : Bool) (s : PageMapping)

@[simp] theorem loadMapping_table :
    (s.loadMapping cfg env w lpn page tick count dead).2.table = s.table := by
  unfold loadMapping
  split <;> rfl

@[simp] theorem loadMapping_pool :
    (s.loadMapping cfg env w lpn page tick count dead).2.pool = s.pool := by
  unfold loadMapping
  split <;> rfl

@[simp] theorem loadMapping_trace :
    (s.loadMapping cfg env w lpn page tick count dead).2.trace = s.trace := by
  unfold loadMapping
  split <;> rfl

/-- What the mapping caches become depends on them only. -/
theorem loadMapping_cache : ((s.loadMapping cfg env w lpn page tick count dead).1,
    (s.loadMapping cfg env w lpn page tick count dead).2.cache) =
      if cfg.enableCMT then s.cache.load cfg env w.iclCount lpn page tick count dead
      else (dead, s.cache) := by
  unfold loadMapping
  split <;> rfl

variable (fill : Bool)

@[simp] theorem fillMapping_table :
    (s.fillMapping cfg env w fill lpn page tick dead).2.table = s.table := by
  unfold fillMapping
  split <;> simp

@[simp] theorem fillMapping_pool :
    (s.fillMapping cfg env w fill lpn page tick dead).2.pool = s.pool := by
  unfold fillMapping
  split <;> simp

@[simp] theorem fillMapping_trace :
    (s.fillMapping cfg env w fill lpn page tick dead).2.trace = s.trace := by
  unfold fillMapping
  split <;> simp

end Load

section Read

variable (cfg : Config) (env : Env) (w : World)

/-- The loop of `readInternal` over the I/O units, in any of its three branches
(page_mapping.cc:1598–1640, 1676–1713 and 1731–1816). `mapping` is what the
branch reads the pages from. The table branch (`fill`) also enters each page
into the mapping caches, with the local `beginAt` as it stands. A block that
`erased_block_id` lists ends the call. -/
def readUnits (req : Request) (mapping : Nat → Except Fault (Nat × Nat)) (fill : Bool) :
    List Nat → Nat → Bool → PageMapping → Except Fault PageMapping
  | [], _, _, s => .ok s
  | idx :: rest, beginAt, dead, s =>
    if req.wants cfg idx then do
      let page ← mapping idx
      if cfg.InRange page then
        let loaded := s.fillMapping cfg env w fill req.lpn page beginAt dead
        let s := loaded.2
        if page.1 ∈ s.pool.erasedBlockId then .ok s
        else
          match s.pool.blocks.find? page.1 with
          | none => .error (.panic "readInternal" "Block is not in use")
          | some b => do
            let (_, b) ← b.read page.2 idx
            let s := { s with pool := s.pool.putBlock page.1 b }
            let s := s.log (.palRead ⟨page.1, page.2, palFlag cfg req.ioFlag idx⟩)
            readUnits req mapping fill rest (env.tick s.trace) loaded.1 s
      else readUnits req mapping fill rest beginAt dead s
    else readUnits req mapping fill rest beginAt dead s

/-- The hit in `cmt`, if the cached mapping table is enabled. -/
def cmtHit (s : PageMapping) (lpn : Nat) : Option MappingEntry :=
  if cfg.enableCMT then s.cache.cmt.find? lpn else none

/-- The hit in the shadow table, if it is in use. -/
def shadowHit (s : PageMapping) (lpn : Nat) : Option ShadowCacheEntry :=
  if cfg.useDeadOnArrivalPredictor && cfg.enableCMT then s.cache.shadowwCache.find? lpn else none

/-- The page that the mapping caches give, `cmt` before the shadow table. -/
def cachedMapping (s : PageMapping) (lpn : Nat) : Option (Nat × Nat) :=
  ((s.cmtHit cfg lpn).map MappingEntry.page).or ((s.shadowHit cfg lpn).map ShadowCacheEntry.page)

/-- The page that the branches of `readInternal` read for I/O unit `idx`: the
entry of `cmt`, else that of the shadow table, else that of `table`. -/
def readMapping (s : PageMapping) (lpn idx : Nat) : Option (Nat × Nat) :=
  (s.cachedMapping cfg lpn).or (s.tableMapping lpn idx)

/-- A hit in `cmt` renews the entry's tick and counts the access. -/
def touchCmt (s : PageMapping) (lpn : Nat) (e : MappingEntry) : PageMapping :=
  { s with
    cache :=
      { s.cache with
        cmt := s.cache.cmt.set 0 lpn
          { e with
            lastAccessedTime := env.tick s.trace
            cmtEntryAccessCount := e.cmtEntryAccessCount + 1 } } }

/-- The state after the unit loop has read a page of block `b`. -/
def afterRead (req : Request) (fill : Bool) (page : Nat × Nat) (idx beginAt : Nat) (dead : Bool)
    (b : Block) (s : PageMapping) : PageMapping :=
  let s := (s.fillMapping cfg env w fill req.lpn page beginAt dead).2
  { s with pool := s.pool.putBlock page.1 b }.log
    (.palRead ⟨page.1, page.2, palFlag cfg req.ioFlag idx⟩)

/-- One iteration of the unit loop skips, ends the call at a listed block, or
reads a page of a block in use. -/
theorem readUnits_cons {req : Request} {mapping : Nat → Except Fault (Nat × Nat)} {fill : Bool}
    {idx : Nat} {rest : List Nat} {beginAt : Nat} {dead : Bool} {s s' : PageMapping}
    (h : readUnits cfg env w req mapping fill (idx :: rest) beginAt dead s = .ok s') :
    (req.wants cfg idx = false ∧
      readUnits cfg env w req mapping fill rest beginAt dead s = .ok s') ∨
    (req.wants cfg idx = true ∧ ∃ page, mapping idx = .ok page ∧
      ((¬ cfg.InRange page ∧
          readUnits cfg env w req mapping fill rest beginAt dead s = .ok s') ∨
        (cfg.InRange page ∧ page.1 ∈ s.pool.erasedBlockId ∧
          s' = (s.fillMapping cfg env w fill req.lpn page beginAt dead).2) ∨
        (cfg.InRange page ∧ page.1 ∉ s.pool.erasedBlockId ∧
          ∃ b r beginAt' dead', s.pool.blocks.find? page.1 = some b ∧ b.read page.2 idx = .ok r ∧
            readUnits cfg env w req mapping fill rest beginAt' dead'
              (s.afterRead cfg env w req fill page idx beginAt dead r.2) = .ok s'))) := by
  rw [readUnits] at h
  split at h
  · next hwant =>
    rw [Except.bind_eq_ok] at h
    obtain ⟨page, hpage, h⟩ := h
    refine .inr ⟨hwant, page, hpage, ?_⟩
    split at h
    · next hrange =>
      simp only [fillMapping_pool] at h
      split at h
      · next hmem =>
        cases h
        exact .inr (.inl ⟨hrange, hmem, rfl⟩)
      · next hmem =>
        split at h
        · cases h
        · next b hb =>
          rw [Except.bind_eq_ok] at h
          obtain ⟨r, hr, h⟩ := h
          exact .inr (.inr ⟨hrange, hmem, b, r, _, _, hb, hr, by simpa [afterRead] using h⟩)
    · next hrange => exact .inl ⟨hrange, h⟩
  · next hwant => exact .inl ⟨by simpa using hwant, h⟩

/-- `readInternal` (page_mapping.cc:1576–1822). -/
def readInternal (req : Request) (s : PageMapping) : Except Fault PageMapping :=
  let units := List.range cfg.bitsetSize
  match s.cmtHit cfg req.lpn with
  | some e =>
    let s := (s.log .dram).touchCmt env req.lpn e
    readUnits cfg env w req (fun _ => .ok e.page) false units (env.stack s.trace) false s
  | none =>
    match s.shadowHit cfg req.lpn with
    | some e =>
      let s := { s with cache := s.cache.promote cfg env req.lpn e (env.tick s.trace) }
      let s := s.log .dram
      readUnits cfg env w req (fun _ => .ok e.page) false units (env.stack s.trace) false s
    | none =>
      match s.table.find? req.lpn with
      | some vec =>
        let s := s.log .dram
        readUnits cfg env w req (mappingAt vec) true units (env.stack s.trace) false s
      | none => .ok s

end Read

section Write

variable (cfg : Config) (env : Env) (w : World)

/-- The loops of `writeInternal` that invalidate the old page
(page_mapping.cc:1855–1875, 1906–1926 and 1935–1954). -/
def invalidateUnits (req : Request) (mapping : Nat → Except Fault (Nat × Nat)) (p : BlockPool) :
    Except Fault BlockPool :=
  (List.range cfg.bitsetSize).foldlM
    (fun p idx =>
      if req.wants cfg idx then do
        let page ← mapping idx
        .ok (p.invalidateMapped cfg page idx)
      else .ok p) p

/-- The lookup of `writeInternal` (page_mapping.cc:1842–1970). It returns the key
of the vector that `mappingList` points at, the local `cmtWriteHit`, and the
state with the old page invalidated. `mappingList` starts as `table.begin()` and
is assigned in the last two branches only. -/
def lookupForWrite (req : Request) (sendToPAL : Bool) (s : PageMapping) :
    Except Fault (Option Nat × Bool × PageMapping) :=
  let mappingList := s.table.begin?.map Prod.fst
  match s.cmtHit cfg req.lpn with
  | some e => do
    let s := if sendToPAL then s.touchCmt env req.lpn e else s
    let pool ← invalidateUnits cfg req (fun _ => .ok e.page) s.pool
    .ok (mappingList, sendToPAL, { s with pool := pool })
  | none =>
    match s.shadowHit cfg req.lpn with
    | some e =>
      if sendToPAL then do
        let s := { s with cache := s.cache.promote cfg env req.lpn e (env.tick s.trace) }
        let pool ← invalidateUnits cfg req (fun _ => .ok e.page) s.pool
        .ok (mappingList, true, { s with pool := pool })
      else .ok (mappingList, false, s)
    | none =>
      match s.table.find? req.lpn with
      | some vec => do
        let pool ← invalidateUnits cfg req (mappingAt vec) s.pool
        .ok (some req.lpn, false, { s with pool := pool })
      | none =>
        let vec := List.replicate cfg.bitsetSize (cfg.totalPhysicalBlocks, cfg.pagesInBlock)
        .ok (some req.lpn, false,
          { s with table := s.table.emplace (env.place .table s.table.keys req.lpn) req.lpn vec })

/-- Locals of the program loop. -/
structure WriteLocals where
  deadonArrival : Bool
  cmtWriteHit : Bool

/-- `mappingList->second`, where the end iterator has none. -/
def mappingVector (s : PageMapping) (mappingList : Option Nat) :
    Except Fault (Nat × List (Nat × Nat)) :=
  match mappingList with
  | none => .error (.badAccess "table.end()")
  | some key =>
    match s.table.find? key with
    | some vec => .ok (key, vec)
    | none => .error (.badAccess "table.end()")

/-- The units that a request for part of a page leaves out are read from the old
page (page_mapping.cc:2001–2010). -/
def readOldUnits (req : Request) (old : Nat × Nat) (s : PageMapping) : PageMapping :=
  if !cfg.randomIOTweak && !req.ioFlag.all
  then s.log (.palRead ⟨old.1, old.2, req.ioFlag.flip⟩) else s

theorem readOldUnits_eq (req : Request) (old : Nat × Nat) (s : PageMapping) :
    ∃ events, s.readOldUnits cfg req old = { s with trace := events ++ s.trace } ∧
      ∀ e ∈ events, ∃ r, e = .palRead r := by
  unfold readOldUnits
  split
  · exact ⟨[.palRead _], rfl, by simp⟩
  · exact ⟨[], rfl, by simp⟩

/-- One iteration of the program loop (page_mapping.cc:1993–2083): programs unit
`idx` of the next page of block `blk`, then updates the vector at `mappingList`
and the mapping caches. -/
def programUnit (req : Request) (sendToPAL : Bool) (mappingList : Option Nat) (blk : Nat)
    (acc : WriteLocals × PageMapping) (idx : Nat) : Except Fault (WriteLocals × PageMapping) :=
  let (locals, s) := acc
  if req.wants cfg idx then
    match s.pool.blocks.find? blk with
    | none => .error (.badAccess "blocks.end()")
    | some b => do
      let pageIndex := b.pNextWritePageIndex idx
      let (key, vec) ← s.mappingVector mappingList
      let old ← mappingAt vec idx
      let b ← b.write pageIndex req.lpn idx
      let s := { s with pool := s.pool.putBlock blk b }
      let s := if sendToPAL then s.readOldUnits cfg req old else s
      let s := { s with table := s.table.set 0 key (vec.set idx (blk, pageIndex)) }
      if sendToPAL then
        -- a hit in `cmt` keeps the entry's access count, once
        let count := if locals.cmtWriteHit then none else some 1
        let loaded := s.loadMapping cfg env w req.lpn (blk, pageIndex) (env.tick s.trace) count
          locals.deadonArrival
        .ok (⟨loaded.1, locals.cmtWriteHit && loaded.1⟩,
          loaded.2.log (.palWrite ⟨blk, pageIndex, palFlag cfg req.ioFlag idx⟩))
      else .ok (locals, s)
  else .ok (locals, s)

/-- `writeInternal` up to the garbage collection check
(page_mapping.cc:1824–2090). -/
def programPage (req : Request) (sendToPAL : Bool) (s : PageMapping) :
    Except Fault PageMapping := do
  let (mappingList, cmtWriteHit, s) ← s.lookupForWrite cfg env req sendToPAL
  let (blk, pool) ← s.pool.getLastFreeBlock cfg env req.ioFlag
  if blk ∉ pool.blocks then .error (.panic "writeInternal" "No such block")
  else
    let s := { s with pool := pool }
    let s := if sendToPAL then (s.log .dram).log .dram else s
    let (_, s) ← (List.range cfg.bitsetSize).foldlM
      (programUnit cfg env w req sendToPAL mappingList blk) (⟨false, cmtWriteHit⟩, s)
    .ok s

end Write

end PageMapping

end SimpleSSD.FTL
