import SimpleSSD.FTL.Config
import SimpleSSD.Lib.HashMap

/-!
# The cached mapping table and the shadow table (page_mapping.cc:1432–1575)

Three copies of a mapping can exist: `table`, which is authoritative, `cmt`, and
`shadowwCache`, which takes the entries that the dead-on-arrival predictor keeps
out of `cmt`. This module holds the two caches with the predictor's history
(`evictedCmtEntries`) and the future accesses that the optimal policy reads
(`optMap`). No function here can fail, and none sees the block pool.
-/

namespace SimpleSSD.FTL

/-- `MappingEntry` (page_mapping.hh). -/
structure MappingEntry where
  block_id : Nat
  page_Id : Nat
  lastAccessedTime : Nat
  cmtEntryAccessCount : Nat
  deriving DecidableEq, Repr

/-- `shadowCacheEntry` (page_mapping.hh), without the count that no code reads. -/
structure ShadowCacheEntry where
  block_id : Nat
  page_Id : Nat
  lastAccessedTime : Nat
  deriving DecidableEq, Repr

def MappingEntry.page (e : MappingEntry) : Nat × Nat := (e.block_id, e.page_Id)

def ShadowCacheEntry.page (e : ShadowCacheEntry) : Nat × Nat := (e.block_id, e.page_Id)

structure MappingCache where
  cmt : UnorderedMap Nat MappingEntry
  evictedCmtEntries : UnorderedMap Nat Nat
  shadowwCache : UnorderedMap Nat ShadowCacheEntry
  optMap : UnorderedMap Nat (List Nat)

namespace MappingCache

/-- The tables before the first request: nothing is cached. -/
def init (env : Env) : MappingCache where
  cmt := .empty
  evictedCmtEntries := .empty
  shadowwCache := .empty
  optMap := env.optMap

/-- The scan for the least recently used entry: over (key, tick, access count)
in iteration order, the first entry that is strictly older than all before it.
Nothing found reads as key 0. -/
def oldest (entries : List (Nat × Nat × Nat)) : Nat × Nat × Nat :=
  entries.foldl (fun acc e => if e.2.1 < acc.2.1 then e else acc) (0, 2 ^ 64 - 1, 0)

/-- `EvictFromShadowCache` (page_mapping.cc:1520–1541). -/
def evictFromShadowCache (cfg : Config) (c : MappingCache) : MappingCache :=
  if cfg.shadowwCacheSize ≤ c.shadowwCache.size then
    let lruKey := (oldest (c.shadowwCache.entries.map fun e =>
      (e.1, e.2.lastAccessedTime, 0))).1
    -- a table full of entries that are all keyed 0 is left alone
    if lruKey ≠ 0 then { c with shadowwCache := c.shadowwCache.erase lruKey } else c
  else c

/-- `evictEntryFromCMT` (page_mapping.cc:1542–1575). The victim's access count
is kept in 32 bits; a count of one is what the predictor learns from. -/
def evictEntryFromCMT (cfg : Config) (c : MappingCache) : MappingCache :=
  if cfg.cmtCapacity ≤ c.cmt.size then
    let lru := oldest (c.cmt.entries.map fun e =>
      (e.1, e.2.lastAccessedTime, e.2.cmtEntryAccessCount))
    if lru.1 ≠ 0 then
      { c with
        cmt := c.cmt.erase lru.1
        evictedCmtEntries :=
          if lru.2.2 % 2 ^ 32 = 1 then
            c.evictedCmtEntries.set 0 lru.1 ((c.evictedCmtEntries.find? lru.1).getD 0 + 1)
          else c.evictedCmtEntries }
    else c
  else c

/-- Locals of `optimalRepalcementPolicy`. -/
structure OptimalScan where
  optMap : UnorderedMap Nat (List Nat)
  cmtRemovalEntries : List Nat
  lruKey : Nat
  maxFirstElement : Nat
  currentAccessCount : Nat

/-- One iteration of the scan: drops the accesses that lie in the past and looks
for the entry whose next access is furthest away. -/
def optimalStep (iclCount : Nat) (acc : OptimalScan) (entry : Nat × MappingEntry) : OptimalScan :=
  let acc := { acc with currentAccessCount := entry.2.cmtEntryAccessCount }
  match acc.optMap.find? entry.1 with
  | none => acc
  | some accesses =>
    let rest := accesses.filter fun val => ¬ val ≤ iclCount
    let acc := { acc with optMap := acc.optMap.set 0 entry.1 rest }
    match rest with
    | [] => { acc with cmtRemovalEntries := acc.cmtRemovalEntries ++ [entry.1] }
    | next :: _ =>
      if acc.maxFirstElement < next then
        { acc with maxFirstElement := next, lruKey := entry.1 }
      else acc

/-- `optimalRepalcementPolicy` (page_mapping.cc:1432–1518). -/
def optimalRepalcementPolicy (cfg : Config) (iclCount : Nat) (c : MappingCache) : MappingCache :=
  if cfg.cmtCapacity ≤ c.cmt.size then
    let scan := c.cmt.entries.foldl (optimalStep iclCount) ⟨c.optMap, [], 0, 0, 0⟩
    (scan.cmtRemovalEntries ++ [scan.lruKey]).foldl
      (fun c entry =>
        { c with
          evictedCmtEntries := c.evictedCmtEntries.set 0 entry scan.currentAccessCount
          cmt := c.cmt.erase entry })
      { c with optMap := scan.optMap }
  else c

/-- The verdict of the predictor on a page (page_mapping.cc:1748–1758 and
2030–2040). -/
def deadOnArrival (cfg : Config) (c : MappingCache) (lpn : Nat) : Bool :=
  cfg.useDeadOnArrivalPredictor &&
    match c.evictedCmtEntries.find? lpn with
    | some count => cfg.predictorThreshold ≤ count
    | none => false

/-- The history entry of a mispredicted page is cleared
(page_mapping.cc:1648–1652 and 1890–1894). -/
def clearPrediction (c : MappingCache) (lpn : Nat) : MappingCache :=
  if lpn ∈ c.evictedCmtEntries then
    { c with evictedCmtEntries := c.evictedCmtEntries.set 0 lpn 0 }
  else c

/-- `cmt[lpn] = …`. With `count := none` an existing entry keeps its access
count. -/
def setCmt (env : Env) (c : MappingCache) (lpn : Nat) (page : Nat × Nat) (tick : Nat)
    (count : Option Nat) : MappingCache :=
  let old := ((c.cmt.find? lpn).map MappingEntry.cmtEntryAccessCount).getD 0
  { c with
    cmt := c.cmt.set (env.place .cmt c.cmt.keys lpn) lpn
      ⟨page.1, page.2, tick, count.getD old⟩ }

def setShadow (env : Env) (c : MappingCache) (lpn : Nat) (page : Nat × Nat) (tick : Nat) :
    MappingCache :=
  { c with
    shadowwCache := c.shadowwCache.set (env.place .shadowwCache c.shadowwCache.keys lpn) lpn
      ⟨page.1, page.2, tick⟩ }

/-- A shadow hit moves the page into `cmt` (page_mapping.cc:1645–1658 and
1887–1903). The shadow entry stays. -/
def promote (cfg : Config) (env : Env) (c : MappingCache) (lpn : Nat) (e : ShadowCacheEntry)
    (tick : Nat) : MappingCache :=
  ((c.clearPrediction lpn).evictEntryFromCMT cfg).setCmt env lpn e.page tick (some 1)

/-- The mapping of a page is cached after it was looked up or written
(page_mapping.cc:1746–1789 and 2028–2067): in `cmt`, or in the shadow table when
the page is predicted to be dead on arrival. `dead` is the local
`deadonArrival`, which stays set for the rest of the request. -/
def load (cfg : Config) (env : Env) (iclCount : Nat) (c : MappingCache) (lpn : Nat)
    (page : Nat × Nat) (tick : Nat) (count : Option Nat) (dead : Bool) : Bool × MappingCache :=
  if dead || c.deadOnArrival cfg lpn then
    (true, (c.evictFromShadowCache cfg).setShadow env lpn page tick)
  else
    let c := if cfg.optimalreplacementPolicy then c.optimalRepalcementPolicy cfg iclCount
      else c.evictEntryFromCMT cfg
    (false, c.setCmt env lpn page tick count)

/-- A cached entry follows its page to a new place (page_mapping.cc:1254–1260). -/
def relocate (c : MappingCache) (lpn : Nat) (page : Nat × Nat) : MappingCache :=
  match c.cmt.find? lpn with
  | some e =>
    { c with cmt := c.cmt.set 0 lpn { e with block_id := page.1, page_Id := page.2 } }
  | none => c

end MappingCache

end SimpleSSD.FTL
