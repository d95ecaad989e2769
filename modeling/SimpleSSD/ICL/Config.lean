import Mathlib.Logic.Function.Basic
import SimpleSSD.FTL.Requests

/-!
# Configuration and data of the cache layer (icl/generic_cache.cc:34–140)

- `Config`: the options of the `[icl]` section and the geometry that the
  constructor of `GenericCache` takes from the FTL, with the derived sizes under
  the source's names.
- `Line`, `Request`: the fields that the cache reads.
- `Env`: ticks and random draws, which the code takes from the DRAM and CPU
  models and from a random device.
- `FTLPort`: what the cache layer sees of an FTL. A call may come back with the
  LCAs that the FTL has passed to `updateDirty` in the meantime.
-/

namespace SimpleSSD.ICL

/-- `EVICT_POLICY` (icl/config.hh). The constructor panics on any other integer. -/
inductive EvictPolicy where
  | random | fifo | leastRecentlyUsed | lruClean | lfu
  deriving DecidableEq, Repr

/-- `PREFETCH_MODE` and `EVICT_MODE` (icl/config.hh). `other` is any further
integer. -/
inductive PrefetchMode where
  | superpage | all | other
  deriving DecidableEq, Repr

/-- `lineSize` (generic_cache.cc:51 and 66–70). -/
def lineSizeOf (superPageSize ioUnitInPage : Nat) (useRandomIOTweak : Bool) : Nat :=
  if useRandomIOTweak then superPageSize / ioUnitInPage else superPageSize

/-- `setSize` (generic_cache.cc:72–79), in 32 bits. -/
def setSizeOf (cacheSize lineSize cacheWaySize : Nat) : Nat :=
  if cacheWaySize = 0 then 1 else max (cacheSize / lineSize / cacheWaySize) 1 % 2 ^ 32

/-- The configuration of a cache. A set index is a remainder by `setSize`, so a
cache without sets serves no request. -/
structure Config where
  superPageSize : Nat
  parallelIO : Nat
  ioUnitInPage : Nat
  useRandomIOTweak : Bool
  /-- `ICL_CACHE_SIZE`, without what the ghost cache takes from it. -/
  cacheSize : Nat
  cacheWaySize : Nat
  prefetchIOCount : Nat
  prefetchIORatio : Rat
  useReadCaching : Bool
  useWriteCaching : Bool
  useReadPrefetch : Bool
  prefetchMode : PrefetchMode
  evictMode : PrefetchMode
  policy : EvictPolicy
  parallelIO_pos : 0 < parallelIO
  ioUnitInPage_pos : 0 < ioUnitInPage
  setSize_pos : 0 < setSizeOf cacheSize
    (lineSizeOf superPageSize ioUnitInPage useRandomIOTweak) cacheWaySize

namespace Config

variable (cfg : Config)

def lineSize : Nat := lineSizeOf cfg.superPageSize cfg.ioUnitInPage cfg.useRandomIOTweak

def lineCountInSuperPage : Nat := if cfg.useRandomIOTweak then cfg.ioUnitInPage else 1

def lineCountInMaxIO : Nat := cfg.parallelIO * cfg.lineCountInSuperPage

/-- `bSuperPage` (generic_cache.cc:59–61), set before the tweak is looked at. -/
def bSuperPage : Bool := cfg.superPageSize / cfg.ioUnitInPage ≠ cfg.superPageSize

def setSize : Nat := setSizeOf cfg.cacheSize cfg.lineSize cfg.cacheWaySize

/-- `waySize` (generic_cache.cc:72–79), in 32 bits. -/
def waySize : Nat :=
  if cfg.cacheWaySize = 0 then max (cfg.cacheSize / cfg.lineSize) 1 % 2 ^ 32
  else cfg.cacheWaySize

theorem lineCountInSuperPage_pos : 0 < cfg.lineCountInSuperPage := by
  unfold lineCountInSuperPage
  split
  · exact cfg.ioUnitInPage_pos
  · exact Nat.one_pos

/-- `calcSetIndex` (generic_cache.cc:461–463). -/
def calcSetIndex (lca : Nat) : Nat := lca % cfg.setSize

theorem calcSetIndex_lt (lca : Nat) : cfg.calcSetIndex lca < cfg.setSize :=
  Nat.mod_lt lca cfg.setSize_pos

/-- `calcIOPosition` (generic_cache.cc:465–471): row and column. -/
def calcIOPosition (lca : Nat) : Nat × Nat :=
  let tmp := lca % cfg.lineCountInMaxIO
  (tmp % cfg.lineCountInSuperPage, tmp / cfg.lineCountInSuperPage)

/-- The row of a line is its unit in the superpage. -/
theorem calcIOPosition_row (lca : Nat) :
    (cfg.calcIOPosition lca).1 = lca % cfg.lineCountInSuperPage :=
  Nat.mod_mod_of_dvd lca ⟨cfg.parallelIO, Nat.mul_comm _ _⟩

/-- The FTL request for one line: its superpage, with the flag of its unit. -/
def lineRequest (lca : Nat) : FTL.Request :=
  ⟨lca / cfg.lineCountInSuperPage,
    Bitset.single cfg.lineCountInSuperPage (lca % cfg.lineCountInSuperPage)⟩

/-- The lines of the cache as (set, way), in the order of the double loops. -/
def positions : List (Nat × Nat) := (List.range cfg.setSize).product (List.range cfg.waySize)

/-- The entries of `evictData` as (row, column), in the order of the double loops. -/
def slots : List (Nat × Nat) :=
  (List.range cfg.lineCountInSuperPage).product (List.range cfg.parallelIO)

/-- The entry of `evictData` that a line goes to exists. -/
theorem calcIOPosition_mem_slots (lca : Nat) : cfg.calcIOPosition lca ∈ cfg.slots := by
  have hpos : 0 < cfg.parallelIO * cfg.lineCountInSuperPage :=
    Nat.mul_pos cfg.parallelIO_pos cfg.lineCountInSuperPage_pos
  have htmp : lca % cfg.lineCountInMaxIO < cfg.lineCountInSuperPage * cfg.parallelIO := by
    rw [Nat.mul_comm]
    exact Nat.mod_lt lca hpos
  have hcol : lca % cfg.lineCountInMaxIO / cfg.lineCountInSuperPage < cfg.parallelIO :=
    Nat.div_lt_of_lt_mul htmp
  have hrow : lca % cfg.lineCountInMaxIO % cfg.lineCountInSuperPage < cfg.lineCountInSuperPage :=
    Nat.mod_lt _ cfg.lineCountInSuperPage_pos
  simp [slots, calcIOPosition, hcol, hrow]

theorem mem_positions {pos : Nat × Nat} :
    pos ∈ cfg.positions ↔ pos.1 < cfg.setSize ∧ pos.2 < cfg.waySize := by
  obtain ⟨set, way⟩ := pos
  simp [positions]

end Config

/-- `Line` (abstract_cache.hh), as its default constructor leaves it. -/
structure Line where
  tag : Nat := 0
  lastAccessed : Nat := 0
  insertedAt : Nat := 0
  dirty : Bool := false
  valid : Bool := false
  accessCount : Nat := 0
  deriving DecidableEq, Repr

/-- `ICL::Request` with the fields that the cache reads; `slpn` is `range.slpn`. -/
structure Request where
  reqID : Nat
  offset : Nat
  length : Nat
  slpn : Nat
  deriving DecidableEq, Repr

/-- `SequentialDetect` (generic_cache.hh:53–62). -/
structure SequentialDetect where
  enabled : Bool
  lastRequest : Request
  hitCounter : Nat
  accessCounter : Nat
  deriving DecidableEq, Repr

/-- What happens to the data of the host, in order. -/
inductive Event where
  /-- A call of the FTL. -/
  | ftl (op : FTL.Op)
  /-- A host write to `lca` enters the line at `pos`. -/
  | write (pos : Nat × Nat) (lca : Nat)
  /-- A host write to `lca` goes to the FTL, longer than a line or uncached. -/
  | writeThrough (lca : Nat)
  /-- The line at `pos` takes the data that has just gone to the FTL. -/
  | mirror (pos : Nat × Nat) (lca : Nat)
  /-- A page that garbage collection read from flash enters the line at `pos`. -/
  | insert (pos : Nat × Nat) (lca : Nat)
  /-- A page that garbage collection read from flash goes back to the FTL. -/
  | rewrite (lca : Nat)
  /-- The line at `pos` is filled from the FTL. -/
  | load (pos : Nat × Nat) (lca : Nat)
  /-- The line at `pos` with this tag goes to the FTL in this request. -/
  | writeBack (pos : Nat × Nat) (tag : Nat) (req : FTL.Request)
  | trim (range : LPNRange)
  | format (range : LPNRange)

structure Env where
  /-- The ticks that the cache stores, by the number of stores before. -/
  tick : Nat → Nat
  /-- The draws of `dist`; the list names the place of the draw. -/
  draw : List Nat → Nat
  /-- A bound on the pages that one `ICL::write` takes out of `movePagesToCache`. -/
  fuel : Nat

/-- What the cache layer uses of an FTL whose state is `F`. -/
structure FTLPort (F : Type) where
  /-- A call, with the LCAs that the FTL passed to `updateDirty` during it. -/
  call : F → FTL.World × FTL.Op → Except Fault (F × List Nat)
  /-- `movePagesToCache` and `putPagesInCache`. -/
  movePagesToCache : F → List Nat
  putPagesInCache : F → Bool
  setMovePages : F → List Nat → Bool → F

end SimpleSSD.ICL
