import Mathlib.Data.List.Sort
import Mathlib.Data.Rat.Floor
import SimpleSSD.FTL.PageMapping

/-!
# Garbage collection (page_mapping.cc:655–1431)

`selectVictimBlock` weighs the blocks that are programmed to their last page and
picks victims; `doGarbageCollection` moves the valid pages out of the victims
and erases them. In `cachedGC` mode the pages that the cache is believed to hold
stay behind: the source marks them dirty in the cache instead, and hands the
pages that the cache evicts often to `movePagesToCache`.

`std::sort` leaves the order of equal weights open. The model keeps them in
the iteration order of `blocks`, which is itself open (`Env.place`).
-/

namespace SimpleSSD.FTL

namespace PageMapping

section SelectVictim

variable (cfg : Config) (env : Env)

/-- The blocks a victim can come from: `getNextWritePageIndex() == pagesInBlock`. -/
def fullBlocks (s : PageMapping) : List (Nat × Block) :=
  s.pool.blocks.entries.filter fun e => e.2.getNextWritePageIndex = cfg.pagesInBlock

/-- The cost-benefit weight (page_mapping.cc:694–698), `none` for a zero
denominator. -/
def costBenefit (b : Block) (age : Nat) : Option Rat :=
  let temp : Rat := (b.getValidPageCountRaw : Rat) / (cfg.pagesInBlock : Rat)
  let denominator := (1 - temp) * (age : Rat)
  if denominator = 0 then none else some (temp / denominator)

/-- `calculateVictimWeight` (page_mapping.cc:655–706). -/
def calculateVictimWeight (s : PageMapping) : Except Fault (List (Nat × Option Rat)) :=
  match cfg.evictPolicy with
  | .greedy | .random | .dChoice =>
    .ok ((s.fullBlocks cfg).map fun e => (e.1, some (e.2.getValidPageCountRaw : Rat)))
  | .hotBlock => .ok ((s.fullBlocks cfg).map fun e => (e.1, some (e.2.blockAccessCount : Rat)))
  | .costBenefit =>
    .ok ((s.fullBlocks cfg).map fun e => (e.1, costBenefit cfg e.2 (env.age s.trace e.1)))
  | .cachedGC | .other => .error (.panic "calculateVictimWeight" "Invalid evict policy")

/-- `calculateVictimCachedWeight` (page_mapping.cc:707–727): block, cached pages,
valid pages. -/
def calculateVictimCachedWeight (s : PageMapping) : List (Nat × Nat × Nat) :=
  (s.fullBlocks cfg).map fun e => (e.1, e.2.getCachedPageCount, e.2.getValidPageCount)

/-- The comparison of `findVictimBlock` (page_mapping.cc:949–966): fewer valid
pages first, then more cached pages. -/
def cachedBefore (a b : Nat × Nat × Nat) : Bool :=
  if a.2.2 = b.2.2 then b.2.1 ≤ a.2.1 else a.2.2 ≤ b.2.2

/-- The comparison of weights, with a zero denominator last. -/
def lighter : Option Rat → Option Rat → Bool
  | _, none => true
  | none, some _ => false
  | some a, some b => a ≤ b

/-- `findVictimBlock` called `n` times (page_mapping.cc:863–871). It sorts the
vector and returns the first entry, which it leaves in place. -/
def findVictimBlocks : Nat → List (Nat × Nat × Nat) → List Nat
  | 0, _ => []
  | n + 1, weight =>
    match weight.insertionSort (fun a b => cachedBefore a b) with
    | [] => []
    | v :: rest => v.1 :: findVictimBlocks n (v :: rest)

/-- The sampling loop of the random policies (page_mapping.cc:850–861): draws
until `range` blocks are selected. A selected entry is marked by the largest
32-bit number. -/
def sampleVictims (range : Nat) : List Nat → List (Nat × Option Rat) → List (Nat × Option Rat) →
    Except Fault (List (Nat × Option Rat))
  | [], _, selected =>
    if range ≤ selected.length then .ok selected else .error (.diverges "selectVictimBlock")
  | draw :: draws, weight, selected =>
    if range ≤ selected.length then .ok selected
    else
      match weight[draw % weight.length]? with
      | none => .error (.badAccess "weight.at")
      | some v =>
        if v.1 < 2 ^ 32 - 1 then
          sampleVictims range draws (weight.set (draw % weight.length) (2 ^ 32 - 1, v.2))
            (selected ++ [v])
        else sampleVictims range draws weight selected

/-- The number of blocks to reclaim (page_mapping.cc:796–815). -/
def reclaimTarget (s : PageMapping) : Except Fault Nat :=
  match cfg.gcMode with
  | .mode0 => .ok cfg.reclaimBlock
  | .mode1 =>
    .ok ⌊(cfg.totalPhysicalBlocks : Rat) * cfg.reclaimThreshold - (s.pool.nFreeBlocks : Rat)⌋.toNat
  | .other => .error (.panic "selectVictimBlock" "Invalid GC mode")

/-- The policies that look at cached pages (page_mapping.cc:817–843). -/
def byCache : Prop := cfg.evictPolicy = .cachedGC ∨ cfg.pageAwareofCache = true

instance : Decidable (byCache cfg) := inferInstanceAs (Decidable (_ ∨ _))

/-- The vector `weight`, which stays empty under the policies that use
`cachedWeight` (page_mapping.cc:817–843). -/
def victimWeight (s : PageMapping) : Except Fault (List (Nat × Option Rat)) :=
  if byCache cfg then .ok [] else s.calculateVictimWeight cfg env

/-- The vector `cachedWeight`. -/
def cachedWeight (s : PageMapping) : List (Nat × Nat × Nat) :=
  if byCache cfg then s.calculateVictimCachedWeight cfg else []

/-- The policies that sample their victims. -/
def sampled : Prop := cfg.evictPolicy = .random ∨ cfg.evictPolicy = .dChoice

instance : Decidable (sampled cfg) := inferInstanceAs (Decidable (_ ∨ _))

/-- `randomRange` (page_mapping.cc:846–847): `dChoiceParam` is a 32-bit copy of the
setting, and the product one of 64 bits. -/
def randomRange (nBlocks : Nat) : Nat :=
  if cfg.evictPolicy = .random then nBlocks
  else cfg.dChoiceParam % 2 ^ 32 * nBlocks % 2 ^ 64

/-- The random policies replace `weight` by a sample of it
(page_mapping.cc:845–862). -/
def sampleWeight (nBlocks : Nat) (weight : List (Nat × Option Rat)) (s : PageMapping) :
    Except Fault (List (Nat × Option Rat)) :=
  if sampled cfg then
    sampleVictims (randomRange cfg nBlocks) (env.draws s.trace) weight []
  else .ok weight

/-- `selectVictimBlock` (page_mapping.cc:779–906). -/
def selectVictimBlock (s : PageMapping) : Except Fault (List Nat × PageMapping) := do
  let nBlocks ← s.reclaimTarget cfg
  let weight ← s.victimWeight cfg env
  let weight ← s.sampleWeight cfg env nBlocks weight
  let s := { s with pool := { s.pool with bReclaimMore := false } }
  let cachedWeight := s.cachedWeight cfg
  if (cfg.evictPolicy = .cachedGC ∧ cachedWeight ≠ []) ∨ cfg.pageAwareofCache then
    .ok (findVictimBlocks (min nBlocks cachedWeight.length) cachedWeight, s)
  else
    let sorted := weight.insertionSort fun a b => lighter a.2 b.2
    .ok ((sorted.take (min nBlocks sorted.length)).map Prod.fst, s)

end SelectVictim

section Collect

variable (cfg : Config) (env : Env) (w : World)

/-- Locals of `doGarbageCollection`. -/
structure GcLocals where
  readRequests : List PAL.Request
  writeRequests : List PAL.Request
  eraseRequests : List PAL.Request
  lpns : List Nat
  lpa_list : List Nat
  lpnListForCache : List Nat
  cachedValidLPN : List Nat

def GcLocals.empty : GcLocals := ⟨[], [], [], [], [], [], []⟩

/-- One iteration of the copy loop over the I/O units of a page
(page_mapping.cc:1235–1280 and 1227–1268). `relocateCmt` tells the second copy of
the loop, which also updates `cmt`, from the first. -/
def copyUnit (victim pageIndex blk : Nat) (lpns : List Nat) (bit : Bitset) (relocateCmt : Bool)
    (acc : GcLocals × PageMapping) (idx : Nat) : Except Fault (GcLocals × PageMapping) :=
  let (locals, s) := acc
  if bit.test idx then do
    let pool ← s.pool.onBlock victim fun b => .ok (b.invalidate pageIndex idx)
    match lpns[idx]? with
    | none => .error (.badAccess "lpns.at")
    | some lpn =>
      match s.table.find? lpn with
      | none => .error (.panic "doGarbageCollection" "Invalid mapping table entry")
      | some vec => do
        let s := { s with pool := pool }.log .dram
        let _ ← mappingAt vec idx
        match s.pool.blocks.find? blk with
        | none => .error (.badAccess "blocks.end()")
        | some b => do
          let newPageIdx := b.pNextWritePageIndex idx
          let s := { s with
            table := s.table.set 0 lpn (vec.set idx (blk, newPageIdx))
            cache := if relocateCmt then s.cache.relocate lpn (blk, newPageIdx) else s.cache }
          let b ← b.write newPageIdx lpn idx
          let req := ⟨blk, newPageIdx, palFlag cfg bit idx⟩
          .ok ({ locals with writeRequests := locals.writeRequests ++ [req] },
            { s with pool := s.pool.putBlock blk b })
  else .ok (locals, s)

/-- A valid page of a victim is copied to the block that `getLastFreeBlock`
hands out. -/
def copyPage (victim pageIndex : Nat) (lpns : List Nat) (bit : Bitset) (relocateCmt : Bool)
    (acc : GcLocals × PageMapping) : Except Fault (GcLocals × PageMapping) := do
  let (locals, s) := acc
  let (blk, pool) ← s.pool.getLastFreeBlock cfg env bit
  (List.range cfg.bitsetSize).foldlM
    (copyUnit cfg victim pageIndex blk lpns bit relocateCmt) (locals, { s with pool := pool })

/-- One page of a victim, default mode (page_mapping.cc:1207–1299). -/
def reclaimPage (victim : Nat) (acc : GcLocals × PageMapping) (pageIndex : Nat) :
    Except Fault (GcLocals × PageMapping) :=
  let (locals, s) := acc
  match s.pool.blocks.find? victim with
  | none => .error (.badAccess "blocks.end()")
  | some b => do
    let (lpns, map) ← b.getPageInfo pageIndex (Bitset.new cfg.ioUnitInPage)
    let locals := { locals with lpns := lpns }
    if map.any then do
      let valid ← b.isPageValid pageIndex
      if valid then
        let bit := if cfg.randomIOTweak then map else map.setAll
        let locals := { locals with
          readRequests := locals.readRequests ++ [⟨victim, pageIndex, bit⟩] }
        copyPage cfg env victim pageIndex lpns bit true (locals, s)
      else .ok (locals, s)
    else .ok (locals, s)

/-- One page of a victim, `cachedGC` mode (page_mapping.cc:1081–1180). A page with
its cached bit set adds `lpns[0]` to the list of cached pages; `lpns` then holds
what the last uncached page left there. -/
def reclaimCachedPage (victim : Nat) (acc : GcLocals × PageMapping) (pageIndex : Nat) :
    Except Fault (GcLocals × PageMapping) :=
  let (locals, s) := acc
  match s.pool.blocks.find? victim with
  | none => .error (.badAccess "blocks.end()")
  | some b => do
    let cached ← b.isCached pageIndex
    if cached then
      match locals.lpns[0]? with
      | none => .error (.badAccess "lpns[0]")
      | some lpn => .ok ({ locals with cachedValidLPN := locals.cachedValidLPN ++ [lpn] }, s)
    else do
      let valid ← b.isPageValid pageIndex
      if valid then do
        let (lpns, map) ← b.getPageInfo pageIndex (Bitset.new cfg.ioUnitInPage)
        let locals := { locals with lpns := lpns }
        if map.any then
          let bit := if cfg.randomIOTweak then map else map.setAll
          match lpns[0]? with
          | none => .error (.badAccess "lpns[0]")
          | some lpn =>
            let locals := { locals with
              lpa_list := locals.lpa_list ++ [lpn]
              readRequests := locals.readRequests ++ [⟨victim, pageIndex, bit⟩] }
            if cfg.blockToBlockMovement then
              if w.lbaEvictionFrequency lpn ≤ 2 then
                copyPage cfg env victim pageIndex lpns bit false (locals, s)
              else .ok ({ locals with lpnListForCache := locals.lpnListForCache ++ [lpn] }, s)
            else .ok (locals, s)
        else .ok (locals, s)
      else .ok (locals, s)

/-- The page loop of the mode. -/
def scanPage (victim : Nat) (acc : GcLocals × PageMapping) (pageIndex : Nat) :
    Except Fault (GcLocals × PageMapping) :=
  if cfg.evictPolicy = .cachedGC then reclaimCachedPage cfg env w victim acc pageIndex
  else reclaimPage cfg env victim acc pageIndex

/-- One victim (page_mapping.cc:1065–1187 and 1192–1297): all its pages are
scanned, then its erase is queued. -/
def scanVictim (acc : GcLocals × PageMapping) (victim : Nat) :
    Except Fault (GcLocals × PageMapping) :=
  if victim ∉ acc.2.pool.blocks then .error (.panic "doGarbageCollection" "Invalid block")
  else do
    let (locals, s) ← (List.range cfg.pagesInBlock).foldlM (scanPage cfg env w victim) acc
    .ok ({ locals with
      eraseRequests := locals.eraseRequests ++
        [⟨victim, 0, (Bitset.new cfg.ioUnitInPage).setAll⟩] }, s)

/-- `eraseInternal` (page_mapping.cc:2333–2389) after the push onto
`erased_block_id` that precedes each of its calls. -/
def eraseInternal (s : PageMapping) (req : PAL.Request) : Except Fault PageMapping := do
  let pool ← BlockPool.eraseBlock cfg
    { s.pool with erasedBlockId := s.pool.erasedBlockId ++ [req.blockIndex] } req.blockIndex
  .ok ({ s with pool := pool }.log (.palErase req))

/-- `RemoveEntryFromTable` (page_mapping.cc:2390–2399). -/
def removeEntryFromTable (s : PageMapping) (lpn : Nat) : PageMapping :=
  { s with table := s.table.erase lpn }.log .dram

/-- `globalCache->updateDirty(lpn)` and the removal of the entry
(page_mapping.cc:1321–1327). -/
def markDirty (s : PageMapping) (lpn : Nat) : PageMapping :=
  (s.log (.updateDirty lpn)).removeEntryFromTable lpn

/-- A page goes to the list that the cache layer inserts
(page_mapping.cc:1355–1381). -/
def handToCache (s : PageMapping) (lpn : Nat) : PageMapping :=
  { s with movePagesToCache := s.movePagesToCache ++ [lpn] }.removeEntryFromTable lpn

/-- Marking pages dirty removes their table entries and nothing else of the state. -/
theorem foldl_markDirty (lpns : List Nat) (s : PageMapping) :
    ∃ trace, lpns.foldl markDirty s =
      { s with table := lpns.foldl UnorderedMap.erase s.table, trace := trace } := by
  induction lpns generalizing s with
  | nil => exact ⟨s.trace, rfl⟩
  | cons lpn lpns ih => exact ih (s.markDirty lpn)

/-- Handing pages to the cache removes their table entries and queues them. -/
theorem foldl_handToCache (lpns : List Nat) (s : PageMapping) :
    ∃ trace, lpns.foldl handToCache s =
      { s with
        table := lpns.foldl UnorderedMap.erase s.table
        movePagesToCache := s.movePagesToCache ++ lpns
        trace := trace } := by
  induction lpns generalizing s with
  | nil => exact ⟨s.trace, by simp⟩
  | cons lpn lpns ih =>
    obtain ⟨trace, h⟩ := ih (s.handToCache lpn)
    refine ⟨trace, h.trans ?_⟩
    simp [handToCache, removeEntryFromTable, log]

/-- The I/O of a collection in default mode (page_mapping.cc:1394–1430). -/
def finishCollection (locals : GcLocals) (s : PageMapping) : Except Fault PageMapping := do
  let s := locals.readRequests.foldl (fun s r => s.log (.palRead r)) s
  let s := locals.writeRequests.foldl (fun s r => s.log (.palWrite r)) s
  locals.eraseRequests.foldlM (eraseInternal cfg) s

/-- The I/O of a collection in `cachedGC` mode (page_mapping.cc:1314–1393). -/
def finishCachedCollection (locals : GcLocals) (s : PageMapping) : Except Fault PageMapping := do
  let s := locals.cachedValidLPN.foldl markDirty s
  let s := locals.readRequests.foldl (fun s r => s.log (.palRead r)) s
  let s := if cfg.blockToBlockMovement
    then locals.writeRequests.foldl (fun s r => s.log (.palWrite r)) s else s
  let s ← locals.eraseRequests.foldlM (eraseInternal cfg) s
  let moved := if cfg.blockToBlockMovement then locals.lpnListForCache else locals.lpa_list
  let s := moved.foldl handToCache s
  .ok { s with putPagesInCache := s.putPagesInCache || !s.movePagesToCache.isEmpty }

/-- `doGarbageCollection` (page_mapping.cc:1035–1431). -/
def doGarbageCollection (blocksToReclaim : List Nat) (s : PageMapping) :
    Except Fault PageMapping :=
  if cfg.simlationIORequests < w.iclCount then .ok s
  else if blocksToReclaim = [] then .ok s
  else do
    let (locals, s) ← blocksToReclaim.foldlM (scanVictim cfg env w) (GcLocals.empty, s)
    if cfg.evictPolicy = .cachedGC then finishCachedCollection cfg locals s
    else finishCollection cfg locals s

end Collect

end PageMapping

end SimpleSSD.FTL
