import Mathlib.Data.List.Basic
import SimpleSSD.ICL.Config
import SimpleSSD.Lib.Run

/-!
# The generic cache (icl/generic_cache.cc)

The state of `GenericCache` with the globals of icl/global_point.cc that it
changes, its lookups, the eviction policies, `evictCache`, and the operations
`read`, `write`, `writeVictimPagesToCache`, `flush`, `trim` and `format`.

`write` and `writeVictimPagesToCache` share the text from the search for an
empty way on; it is `insertLine` here.
-/

namespace SimpleSSD.ICL

/-- `GenericCache` over an FTL with state `F`. -/
structure GenericCache (F : Type) where
  cacheData : Nat × Nat → Line
  evictData : Nat × Nat → Option (Nat × Nat)
  readDetect : SequentialDetect
  prefetchTrigger : Nat
  lastPrefetched : Nat
  lbaEvictionFrequency : Nat → Nat
  iclCount : Nat
  pFTL : F
  /-- The number of ticks stored so far. -/
  clock : Nat
  trace : List Event

namespace GenericCache

variable {F : Type}

/-- The constructor (generic_cache.cc:34–140). -/
def init (pFTL : F) : GenericCache F where
  cacheData := fun _ => {}
  evictData := fun _ => none
  readDetect := ⟨false, ⟨1, 0, 0, 0⟩, 0, 0⟩
  prefetchTrigger := 2 ^ 64 - 1
  lastPrefetched := 0
  lbaEvictionFrequency := fun _ => 0
  iclCount := 0
  pFTL := pFTL
  clock := 0
  trace := []

def log (s : GenericCache F) (e : Event) : GenericCache F := { s with trace := e :: s.trace }

/-- An assignment to the fields of one line. -/
def putLine (s : GenericCache F) (pos : Nat × Nat) (line : Line) : GenericCache F :=
  { s with cacheData := Function.update s.cacheData pos line, clock := s.clock + 1 }

section Simp

variable (s : GenericCache F) (pos : Nat × Nat) (line : Line) (e : Event)

@[simp] theorem log_cacheData : (s.log e).cacheData = s.cacheData := rfl
@[simp] theorem log_trace : (s.log e).trace = e :: s.trace := rfl
@[simp] theorem putLine_trace : (s.putLine pos line).trace = s.trace := rfl

@[simp] theorem putLine_self : (s.putLine pos line).cacheData pos = line :=
  Function.update_self _ _ _

theorem putLine_of_ne {s : GenericCache F} {pos pos' : Nat × Nat} {line : Line} (h : pos' ≠ pos) :
    (s.putLine pos line).cacheData pos' = s.cacheData pos' :=
  Function.update_of_ne h _ _

end Simp

/-- The globals that the FTL reads. -/
def world (s : GenericCache F) : FTL.World := ⟨s.iclCount, s.lbaEvictionFrequency⟩

section Lookup

variable (cfg : Config) (env : Env) (s : GenericCache F)

/-- `getValidWay` (generic_cache.cc:535–552), `none` for `waySize`. -/
def getValidWay (lca : Nat) : Option Nat :=
  (List.range cfg.waySize).find? fun way =>
    let line := s.cacheData (cfg.calcSetIndex lca, way)
    line.valid && line.tag == lca

/-- `getEmptyWay` (generic_cache.cc:473–493), `none` for `waySize`: the invalid
line that was inserted first. -/
def getEmptyWay (setIdx : Nat) : Option Nat :=
  ((List.range cfg.waySize).foldl
    (fun (acc : Option Nat × Nat) way =>
      let line := s.cacheData (setIdx, way)
      if !line.valid && line.insertedAt < acc.2 then (some way, line.insertedAt) else acc)
    (none, 2 ^ 64 - 1)).1

/-- The way of a set with the least key, the first of several. -/
def minWay (key : Line → Nat) (setIdx : Nat) : Nat :=
  ((List.range cfg.waySize).foldl
    (fun (acc : Nat × Nat) way =>
      let k := key (s.cacheData (setIdx, way))
      if k < acc.2 then (way, k) else acc) (0, 2 ^ 64 - 1)).1

/-- The way of a set that is accessed least often, the oldest of several. -/
def leastFrequentWay (setIdx : Nat) : Nat :=
  ((List.range cfg.waySize).foldl
    (fun (acc : Nat × Nat × Nat) way =>
      let line := s.cacheData (setIdx, way)
      if line.accessCount < acc.2.1 then (way, line.accessCount, line.lastAccessed)
      else if line.accessCount = acc.2.1 ∧ line.lastAccessed < acc.2.2 then
        (way, acc.2.1, line.lastAccessed)
      else acc)
    (0, 2 ^ 64 - 1, 2 ^ 64 - 1)).1

/-- A draw of `dist`, which the constructor bounds by the configured way size. -/
def dist (place : List Nat) : Nat :=
  if cfg.cacheWaySize = 0 then env.draw place % 2 ^ 32 else env.draw place % cfg.cacheWaySize

/-- `evictFunction` (generic_cache.cc:130–327): the way of a full set to evict. -/
def evictFunction (setIdx : Nat) : Nat :=
  match cfg.policy with
  | .random => dist cfg env [s.clock]
  | .fifo => s.minWay cfg Line.insertedAt setIdx
  | .leastRecentlyUsed => s.minWay cfg Line.lastAccessed setIdx
  | .lruClean =>
    ((List.range cfg.waySize).find? fun way => !(s.cacheData (setIdx, way)).dirty).getD
      (s.minWay cfg Line.lastAccessed setIdx)
  | .lfu => s.leastFrequentWay cfg setIdx

/-- `compareFunction` on two lines: whether the first is the one to evict. -/
def evictsFirst (place : List Nat) (a b : Line) : Bool :=
  match cfg.policy with
  | .random => cfg.waySize / 2 < dist cfg env place
  | .fifo => a.insertedAt < b.insertedAt
  | .leastRecentlyUsed => a.lastAccessed < b.lastAccessed
  | .lruClean =>
    if a.dirty = b.dirty then a.lastAccessed < b.lastAccessed else !a.dirty
  | .lfu =>
    if a.accessCount = b.accessCount then a.lastAccessed < b.lastAccessed
    else a.accessCount < b.accessCount

/-- `compareFunction` (generic_cache.cc:130–327), where null is the line that
loses. -/
def compareFunction (place : List Nat) (a b : Option (Nat × Nat)) : Option (Nat × Nat) :=
  match a, b with
  | some a, some b =>
    if evictsFirst cfg env place (s.cacheData a) (s.cacheData b) then some a else some b
  | some a, none => some a
  | none, b => b

/-- `updateDirty` (generic_cache.cc:572–596), which the FTL calls. -/
def updateDirty (lca : Nat) : GenericCache F :=
  match s.getValidWay cfg lca with
  | some way =>
    let pos := (cfg.calcSetIndex lca, way)
    let line := s.cacheData pos
    s.putLine pos { line with dirty := true, accessCount := line.accessCount + 1 }
  | none => s

/-- `checkSequential` (generic_cache.cc:598–642). -/
def checkSequential (req : Request) (data : SequentialDetect) : SequentialDetect :=
  let last := data.lastRequest
  if last.reqID = req.reqID then { data with lastRequest := req }
  else
    let data :=
      if (last.slpn * cfg.lineSize + last.offset + last.length) % 2 ^ 64 =
          (req.slpn * cfg.lineSize + req.offset) % 2 ^ 64 then
        if data.enabled then data
        else
          let hitCounter : Nat := (data.hitCounter + 1) % 2 ^ 32
          let accessCounter : Nat := (data.accessCounter + last.offset + last.length) % 2 ^ 32
          { data with
            hitCounter := hitCounter
            accessCounter := accessCounter
            enabled := cfg.prefetchIOCount ≤ hitCounter ∧
              cfg.prefetchIORatio ≤ (accessCounter : Rat) / (cfg.superPageSize : Rat) }
      else { data with enabled := false, hitCounter := 0, accessCounter := 0 }
    { data with lastRequest := req }

end Lookup

section Evict

variable (cfg : Config) (env : Env) (port : FTLPort F)

/-- A call of the FTL. The lines that the FTL marks dirty meanwhile are marked. -/
def call (op : FTL.Op) (s : GenericCache F) : Except Fault (GenericCache F) := do
  let (pFTL, marked) ← port.call s.pFTL (s.world, op)
  .ok (marked.foldl (updateDirty cfg) ({ s with pFTL := pFTL }.log (.ftl op)))

/-- What the FTL is told when the line at `pos` goes (generic_cache.cc:758–782): a
valid dirty line is written, with the flag of its row in `evictData`. -/
def releaseLine (row : Nat) (pos : Nat × Nat) (s : GenericCache F) :
    Except Fault (GenericCache F) :=
  let line := s.cacheData pos
  if line.valid && line.dirty then do
    let lpn := line.tag / cfg.lineCountInSuperPage
    let req := ⟨lpn, Bitset.single cfg.lineCountInSuperPage row⟩
    let s ← s.call cfg port (.undoCached lpn)
    (s.log (.writeBack pos line.tag req)).call cfg port (.write req)
  else s.call cfg port (.undoCached line.tag)

/-- `lbaEvictionFrequency[lca]++`. -/
def countEviction (lca : Nat) (s : GenericCache F) : GenericCache F :=
  { s with
    lbaEvictionFrequency := Function.update s.lbaEvictionFrequency lca
      ((s.lbaEvictionFrequency lca + 1) % 2 ^ 32) }

/-- One line of `evictCache` (generic_cache.cc:748–802). -/
def evictLine (row : Nat) (pos : Nat × Nat) (s : GenericCache F) :
    Except Fault (GenericCache F) := do
  let s ← (s.countEviction (s.cacheData pos).tag).releaseLine cfg port row pos
  let t := env.tick s.clock
  .ok (s.putLine pos ⟨0, t, t, false, false, 0⟩)

/-- One entry of `evictData`, which `evictCache` resets. -/
def evictSlot (s : GenericCache F) (slot : Nat × Nat) : Except Fault (GenericCache F) :=
  match s.evictData slot with
  | none => .ok s
  | some pos => do
    let s ← s.evictLine cfg env port slot.1 pos
    .ok { s with evictData := Function.update s.evictData slot none }

/-- `evictCache` (generic_cache.cc:731–808). Every caller passes `flush`. -/
def evictCache (s : GenericCache F) : Except Fault (GenericCache F) :=
  cfg.slots.foldlM (evictSlot cfg env port) s

end Evict

section Read

variable (cfg : Config) (env : Env) (port : FTLPort F)

/-- A way of the set for data from flash: an empty one, else the one that
`evictFunction` names, which is evicted (generic_cache.cc:937–952). -/
def takeWay (setIdx : Nat) (s : GenericCache F) : Except Fault (Nat × GenericCache F) :=
  match s.getEmptyWay cfg setIdx with
  | some way => .ok (way, s)
  | none => do
    let way := s.evictFunction cfg env setIdx
    if way < cfg.waySize then
      let slot := cfg.calcIOPosition (s.cacheData (setIdx, way)).tag
      let s ←
        { s with evictData := Function.update s.evictData slot (some (setIdx, way)) }.evictCache
        cfg env port
      .ok (way, s)
    else .error (.badAccess "cacheData")

/-- One LCA of the read window (generic_cache.cc:928–978): a line is reserved for
it, unless it is cached. The reserved line keeps its tag. -/
def reserveLine (acc : List (Nat × Nat × Nat) × GenericCache F) (lca : Nat) :
    Except Fault (List (Nat × Nat × Nat) × GenericCache F) :=
  let (readList, s) := acc
  if (s.getValidWay cfg lca).isSome then .ok (readList, s)
  else do
    let setIdx := cfg.calcSetIndex lca
    let (way, s) ← s.takeWay cfg env port setIdx
    let pos := (setIdx, way)
    let t := env.tick s.clock
    .ok (readList ++ [(lca, pos)], s.putLine pos
      { s.cacheData pos with insertedAt := t, lastAccessed := t, valid := true, dirty := false })

/-- One entry of `readList` (generic_cache.cc:985–1033): the line is read from
the FTL and gets its tag. -/
def loadLine (s : GenericCache F) (entry : Nat × Nat × Nat) : Except Fault (GenericCache F) := do
  let (lca, pos) := entry
  let s ← s.call cfg port (.read (cfg.lineRequest lca))
  let t := env.tick s.clock
  .ok ((s.putLine pos
    { s.cacheData pos with
      insertedAt := t, lastAccessed := t, tag := lca, valid := true, accessCount := 1 }).log
    (.load pos lca))

/-- The number of LCAs that a read-ahead covers (generic_cache.cc:909–919). -/
def windowSize : Nat :=
  if cfg.prefetchMode = .all ∨ cfg.bSuperPage = false then cfg.lineCountInMaxIO
  else cfg.lineCountInSuperPage

/-- The LCAs `beginLCA`, ..., `endLCA - 1`. -/
def window (beginLCA endLCA : Nat) : List Nat :=
  (List.range (endLCA - beginLCA)).map (beginLCA + ·)

/-- The LCAs that the loop from the label `ICL_GENERIC_CACHE_READ` on visits, and
the state with the next trigger set (generic_cache.cc:890–926). -/
def openWindow (beginLCA : Nat) (s : GenericCache F) : List Nat × GenericCache F :=
  if s.readDetect.enabled then
    let endLCA := (beginLCA + windowSize cfg) % 2 ^ 64
    (window beginLCA endLCA,
      { s with
        prefetchTrigger := (beginLCA + windowSize cfg / 2) % 2 ^ 64, lastPrefetched := endLCA })
  else (window beginLCA ((beginLCA + 1) % 2 ^ 64), s)

/-- The code from the label `ICL_GENERIC_CACHE_READ` on (generic_cache.cc:890–1051). -/
def readLines (beginLCA : Nat) (s : GenericCache F) : Except Fault (GenericCache F) := do
  let (lcas, s) := s.openWindow cfg beginLCA
  let (readList, s) ← lcas.foldlM (reserveLine cfg env port) ([], s)
  let s ← s.evictCache cfg env port
  readList.foldlM (loadLine cfg env port) s

/-- The part of `read` before that label (generic_cache.cc:842–889): whether the
line is cached, and the LCA from which the code continues there, if it does. -/
def lookupForRead (req : Request) (s : GenericCache F) : Bool × Option Nat × GenericCache F :=
  let s :=
    if cfg.useReadPrefetch then { s with readDetect := checkSequential cfg req s.readDetect } else s
  match s.getValidWay cfg req.slpn with
  | some way =>
    let pos := (cfg.calcSetIndex req.slpn, way)
    let line := s.cacheData pos
    let s := s.putLine pos
      { line with lastAccessed := env.tick s.clock, accessCount := line.accessCount + 1 }
    (true,
      if cfg.useReadPrefetch && req.slpn == s.prefetchTrigger then some s.lastPrefetched
      else none, s)
  | none => (false, some req.slpn, s)

/-- `read` (generic_cache.cc:832–1076): whether the line was cached. -/
def read (req : Request) (s : GenericCache F) : Except Fault (Bool × GenericCache F) :=
  if cfg.useReadCaching then do
    let (hit, beginLCA, s) := s.lookupForRead cfg env req
    match beginLCA with
    | some lca => do
      let s ← s.readLines cfg env port lca
      .ok (hit, s)
    | none => .ok (hit, s)
  else do
    let s ← s.call cfg port (.read (cfg.lineRequest req.slpn))
    .ok (false, s)

end Read

section Write

variable (cfg : Config) (env : Env) (port : FTLPort F)

/-- The lines to evict when the set is full, one for each entry of `evictData`
(generic_cache.cc:1424–1432). -/
def collectEvictData (s : GenericCache F) : Nat × Nat → Option (Nat × Nat) :=
  cfg.positions.foldl
    (fun evictData pos =>
      if (s.cacheData pos).valid then
        let slot := cfg.calcIOPosition (s.cacheData pos).tag
        Function.update evictData slot
          (s.compareFunction cfg env [s.clock, 0, pos.1, pos.2] (evictData slot) (some pos))
      else evictData) s.evictData

/-- The entries of each row are folded into its last column
(generic_cache.cc:1436–1446). -/
def foldRows (s : GenericCache F) (evictData : Nat × Nat → Option (Nat × Nat)) :
    Nat × Nat → Option (Nat × Nat) :=
  ((List.range cfg.lineCountInSuperPage).product (List.range (cfg.parallelIO - 1))).foldl
    (fun evictData (slot : Nat × Nat) =>
      let next := s.compareFunction cfg env [s.clock, 1, slot.1, slot.2]
        (evictData slot) (evictData (slot.1, slot.2 + 1))
      Function.update (Function.update evictData (slot.1, slot.2 + 1) next) slot none) evictData

/-- `have`: an entry of `evictData` belongs to the set. -/
def hasLineOf (s : GenericCache F) (evictData : Nat × Nat → Option (Nat × Nat)) (setToFlush : Nat) :
    Bool :=
  cfg.slots.any fun slot =>
    match evictData slot with
    | some pos => cfg.calcSetIndex (s.cacheData pos).tag == setToFlush
    | none => false

/-- `pLineToFlush` (generic_cache.cc:1460–1468). -/
def pLineToFlush (s : GenericCache F) (setToFlush : Nat) : Option (Nat × Nat) :=
  (List.range cfg.waySize).foldl
    (fun best way =>
      if (s.cacheData (setToFlush, way)).valid then
        s.compareFunction cfg env [s.clock, 2, way] best (some (setToFlush, way))
      else best) none

/-- A line of the set gets its entry if the set has none
(generic_cache.cc:1448–1475). -/
def addLineOf (setToFlush : Nat) (s : GenericCache F)
    (evictData : Nat × Nat → Option (Nat × Nat)) : Nat × Nat → Option (Nat × Nat) :=
  if s.hasLineOf cfg evictData setToFlush then evictData
  else
    match s.pLineToFlush cfg env setToFlush with
    | some pos => Function.update evictData (cfg.calcIOPosition (s.cacheData pos).tag) (some pos)
    | none => evictData

/-- The entries of `evictData` for a write that finds no empty way in its set
(generic_cache.cc:1424–1475). -/
def fillEvictData (setToFlush : Nat) (s : GenericCache F) : GenericCache F :=
  let evictData := s.collectEvictData cfg env
  let evictData := if cfg.evictMode = .superpage then s.foldRows cfg env evictData else evictData
  { s with evictData := s.addLineOf cfg env setToFlush evictData }

/-- A line is written in an empty way, or in a way that an eviction empties
(generic_cache.cc:1190–1280 and 1391–1513). `stored` is what happens to the data. -/
def insertLine (function : String) (lca : Nat) (dirty : Bool) (stored : Nat × Nat → Event)
    (s : GenericCache F) : Except Fault (Bool × GenericCache F) :=
  let setIdx := cfg.calcSetIndex lca
  match s.getEmptyWay cfg setIdx with
  | some way =>
    let pos := (setIdx, way)
    let line := s.cacheData pos
    let t := env.tick s.clock
    .ok (true, (s.putLine pos ⟨lca, t, t, dirty, true, line.accessCount + 1⟩).log (stored pos))
  | none => do
    let s ← (s.fillEvictData cfg env setIdx).evictCache cfg env port
    match s.getEmptyWay cfg setIdx with
    | none => .error (.panic function "Cache corrupted!")
    | some way =>
      let pos := (setIdx, way)
      let t := env.tick s.clock
      .ok (false, (s.putLine pos ⟨lca, t, t, true, true, 1⟩).log (stored pos))

/-- `pFTL->write` with data that is in no line, if `direct`. -/
def writeDirect (direct : Bool) (e : Event) (lca : Nat) (s : GenericCache F) :
    Except Fault (GenericCache F) :=
  if direct then (s.log e).call cfg port (.write (cfg.lineRequest lca)) else .ok s

/-- `write` (generic_cache.cc:1323–1547): whether no line had to be evicted. Data
longer than a line is written to the FTL first. -/
def write (req : Request) (s : GenericCache F) : Except Fault (Bool × GenericCache F) := do
  let dirty : Bool := req.length ≤ cfg.lineSize
  let s ← s.writeDirect cfg port (!dirty) (.writeThrough req.slpn) req.slpn
  let stored (pos : Nat × Nat) : Event :=
    if dirty then .write pos req.slpn else .mirror pos req.slpn
  if cfg.useWriteCaching then
    match s.getValidWay cfg req.slpn with
    | some way =>
      let pos := (cfg.calcSetIndex req.slpn, way)
      let line := s.cacheData pos
      let t := env.tick s.clock
      .ok (true, (s.putLine pos
        { line with
          insertedAt := t, lastAccessed := t, dirty := dirty
          accessCount := line.accessCount + 1 }).log (stored pos))
    | none => s.insertLine cfg env port "write" req.slpn dirty stored
  else do
    let s ← s.writeDirect cfg port dirty (.writeThrough req.slpn) req.slpn
    .ok (false, s)

/-- `writeVictimPagesToCache` (generic_cache.cc:1121–1301). It does not look for a
valid line of the LCA. -/
def writeVictimPagesToCache (req : Request) (s : GenericCache F) :
    Except Fault (Bool × GenericCache F) := do
  let dirty : Bool := req.length ≤ cfg.lineSize
  let s ← s.writeDirect cfg port (!dirty) (.rewrite req.slpn) req.slpn
  if cfg.useWriteCaching then
    s.insertLine cfg env port "writeVictimPagesToCache" req.slpn dirty (.insert · req.slpn)
  else do
    let s ← s.writeDirect cfg port dirty (.rewrite req.slpn) req.slpn
    .ok (false, s)

end Write

section Range

variable (cfg : Config) (env : Env) (port : FTLPort F)

/-- `line.valid = false`. -/
def invalidateLine (pos : Nat × Nat) (s : GenericCache F) : GenericCache F :=
  s.putLine pos { s.cacheData pos with valid := false }

/-- One line of `flush` (generic_cache.cc:2319–2334). The flags of the request
stay set from one line to the next, and `valid` is not asked. -/
def flushLine (range : LPNRange) (acc : Bitset × GenericCache F) (pos : Nat × Nat) :
    Except Fault (Bitset × GenericCache F) := do
  let (ioFlag, s) := acc
  let line := s.cacheData pos
  if range.contains line.tag then
    if line.dirty then
      let ioFlag := ioFlag.insert (line.tag % cfg.lineCountInSuperPage)
      let req := ⟨line.tag / cfg.lineCountInSuperPage, ioFlag⟩
      let s ← (s.log (.writeBack pos line.tag req)).call cfg port (.write req)
      .ok (ioFlag, s.invalidateLine pos)
    else .ok (ioFlag, s.invalidateLine pos)
  else .ok acc

/-- `flush` (generic_cache.cc:2311–2342). -/
def flush (range : LPNRange) (s : GenericCache F) : Except Fault (GenericCache F) :=
  if cfg.useReadCaching || cfg.useWriteCaching then do
    let (_, s) ← cfg.positions.foldlM (flushLine cfg port range)
      (Bitset.new cfg.lineCountInSuperPage, s)
    .ok s
  else .ok s

/-- One line of `trim` (generic_cache.cc:2352–2370). -/
def trimLine (range : LPNRange) (acc : Bitset × GenericCache F) (pos : Nat × Nat) :
    Except Fault (Bitset × GenericCache F) := do
  let (ioFlag, s) := acc
  let line := s.cacheData pos
  if range.contains line.tag then
    let ioFlag := ioFlag.insert (line.tag % cfg.lineCountInSuperPage)
    let s ← s.call cfg port (.trim ⟨line.tag / cfg.lineCountInSuperPage, ioFlag⟩)
    .ok (ioFlag, s.invalidateLine pos)
  else .ok acc

/-- `trim` (generic_cache.cc:2345–2373). -/
def trim (range : LPNRange) (s : GenericCache F) : Except Fault (GenericCache F) :=
  let s := s.log (.trim range)
  if cfg.useReadCaching || cfg.useWriteCaching then do
    let (_, s) ← cfg.positions.foldlM (trimLine cfg port range)
      (Bitset.new cfg.lineCountInSuperPage, s)
    .ok s
  else .ok s

/-- One LCA of `format` (generic_cache.cc:2380–2389). -/
def formatLine (s : GenericCache F) (lca : Nat) : GenericCache F :=
  match s.getValidWay cfg lca with
  | some way => s.invalidateLine (cfg.calcSetIndex lca, way)
  | none => s

/-- `format` (generic_cache.cc:2375–2399). The LCA range becomes a superpage range
in 64 bits. -/
def format (range : LPNRange) (s : GenericCache F) : Except Fault (GenericCache F) :=
  let s := s.log (.format range)
  let s :=
    if cfg.useReadCaching || cfg.useWriteCaching then
      ((List.range range.nlp).map fun i => (range.slpn + i) % 2 ^ 64).foldl (formatLine cfg) s
    else s
  s.call cfg port (.format
    ⟨range.slpn / cfg.lineCountInSuperPage,
      ((range.nlp + (2 ^ 64 - 1)) % 2 ^ 64 / cfg.lineCountInSuperPage + 1) % 2 ^ 64⟩)

end Range

end GenericCache

end SimpleSSD.ICL
