import Mathlib.Data.Rat.Defs
import SimpleSSD.Lib.HashMap
import SimpleSSD.Util.Def

/-!
# Configuration and environment of the FTL

- `Config`: `FTL::Parameter` (ftl.hh), the `[ftl]` section (ftl/config.hh) and
  the switches of icl/global_point.cc that the FTL reads. Ratios are exact
  rationals.
- `World`: the two globals that other layers change between two calls of the
  FTL, as they are when a call begins.
- `Env`: what the code leaves open. Every tick that the FTL stores comes from
  the DRAM, PAL and CPU models, so the model takes it from the environment, as
  a function of the history of device calls; the same holds for the order of
  hash tables, for random draws and for a local that is read before it is set.
-/

namespace SimpleSSD.FTL

/-- `EVICT_POLICY` (ftl/config.hh). `other` is any further integer. -/
inductive EvictPolicy where
  | greedy | costBenefit | random | dChoice | cachedGC | hotBlock | other
  deriving DecidableEq, Repr

/-- `GC_MODE` (ftl/config.hh). `other` is any further integer. -/
inductive GcMode where
  | mode0 | mode1 | other
  deriving DecidableEq, Repr

/-- `FILLING_MODE` (ftl/config.hh). -/
inductive FillingMode where
  | mode0 | mode1 | mode2
  deriving DecidableEq, Repr

structure Config where
  totalPhysicalBlocks : Nat
  totalLogicalBlocks : Nat
  pagesInBlock : Nat
  ioUnitInPage : Nat
  pageCountToMaxPerf : Nat
  gcThreshold : Rat
  badBlockThreshold : Nat
  gcMode : GcMode
  reclaimBlock : Nat
  reclaimThreshold : Rat
  evictPolicy : EvictPolicy
  dChoiceParam : Nat
  fillingMode : FillingMode
  fillingRatio : Rat
  invalidRatio : Rat
  randomIOTweak : Bool
  cmtSize : Nat
  enableCMT : Bool
  useDeadOnArrivalPredictor : Bool
  usePortionOfCacheAsShadow : Bool
  optimalreplacementPolicy : Bool
  blockToBlockMovement : Bool
  pageAwareofCache : Bool
  simlationIORequests : Nat

namespace Config

/-- `bitsetSize` (page_mapping.cc:104): the entries of one mapping vector. -/
def bitsetSize (cfg : Config) : Nat := if cfg.randomIOTweak then cfg.ioUnitInPage else 1

/-- With one unit a page there is one mapping for each logical page. -/
theorem bitsetSize_one {cfg : Config} (h : cfg.ioUnitInPage = 1) : cfg.bitsetSize = 1 := by
  simp [bitsetSize, h]

theorem bitsetSize_pos {cfg : Config} (h : 0 < cfg.ioUnitInPage) : 0 < cfg.bitsetSize := by
  unfold bitsetSize
  split
  · exact h
  · exact Nat.one_pos

/-- The units that a loop visits are units of the page. -/
theorem bitsetSize_le {cfg : Config} (h : 0 < cfg.ioUnitInPage) :
    cfg.bitsetSize ≤ cfg.ioUnitInPage := by
  unfold bitsetSize
  split
  · exact le_rfl
  · exact h

/-- `shadowwCacheSize` (page_mapping.cc:96): 5% of the mapping cache. -/
def shadowwCacheSize (cfg : Config) : Nat := 5 * cfg.cmtSize / 100

/-- `cmtSize` after the constructor has taken the shadow table's share out of it
(page_mapping.cc:97–100). -/
def cmtCapacity (cfg : Config) : Nat :=
  if cfg.usePortionOfCacheAsShadow then cfg.cmtSize - cfg.shadowwCacheSize else cfg.cmtSize

/-- `predictorThreshold` (page_mapping.cc:95). -/
def predictorThreshold (_ : Config) : Nat := 2

end Config

/-- What the FTL asks of the layers around it, in order. -/
inductive Event where
  | request
  | dram
  | palRead (req : PAL.Request)
  | palWrite (req : PAL.Request)
  | palErase (req : PAL.Request)
  /-- `globalCache->updateDirty(lpn)` (page_mapping.cc:1323). -/
  | updateDirty (lpn : Nat)

/-- The hash tables whose iteration order the code depends on. -/
inductive HashTable where
  | table | blocks | cmt | shadowwCache
  deriving DecidableEq, Repr

/-- What the other layers have done by the time a call of the FTL begins. -/
structure World where
  iclCount : Nat
  /-- `getLPNEvictionFrequency`: how often the cache has evicted the page. -/
  lbaEvictionFrequency : Nat → Nat

structure Env where
  /-- The current tick after a history of device calls. -/
  tick : List Event → Nat
  /-- What an unset `uint64_t` local reads as. -/
  stack : List Event → Nat
  /-- `tick - getLastAccessedTime()` of a block. -/
  age : List Event → Nat → Nat
  /-- Where a hash table with the listed keys puts a new key in its order. -/
  place : HashTable → List Nat → Nat → Nat
  /-- The draws of the random generator of one victim selection. -/
  draws : List Event → List Nat
  /-- The logical pages that the warm-up of `initialize` draws. -/
  warmup : Nat → Nat
  /-- The future accesses of the pages, which the constructor of the trace replayer
  loads from a file (trace_replayer.cc:188–229). -/
  optMap : UnorderedMap Nat (List Nat)

end SimpleSSD.FTL
