import SimpleSSD.ICL.GenericCache

/-!
# Requests to the cache layer (icl/icl.cc) and its FTL

The operations of `GenericCache` as the steps of a run, the requests of `ICL` as
runs of these operations, and `PageMapping` as an FTL below the cache.
-/

namespace SimpleSSD.ICL

/-- The calls of the interface `AbstractCache` that serve requests. -/
inductive Op where
  | read (req : Request)
  | write (req : Request)
  | flush (range : LPNRange)
  | trim (range : LPNRange)
  | format (range : LPNRange)
  | writeVictimPagesToCache (req : Request)

section Run

variable {F : Type} (cfg : Config) (env : Env) (port : FTLPort F)

/-- One call, with `iclCount` as it is when it begins. -/
def Op.exec (s : GenericCache F) (call : Nat × Op) : Except Fault (GenericCache F) :=
  let s := { s with iclCount := call.1 }
  match call.2 with
  | .read req => (s.read cfg env port req).map Prod.snd
  | .write req => (s.write cfg env port req).map Prod.snd
  | .flush range => s.flush cfg port range
  | .trim range => s.trim cfg port range
  | .format range => s.format cfg port range
  | .writeVictimPagesToCache req => (s.writeVictimPagesToCache cfg env port req).map Prod.snd

/-- A run of calls. -/
def run (s : GenericCache F) (calls : List (Nat × Op)) : Except Fault (GenericCache F) :=
  calls.foldlM (Op.exec cfg env port) s

end Run

/-! ### ICL -/

/-- `logicalPageSize` (icl.cc:51–59). -/
def Config.logicalPageSize (cfg : Config) : Nat :=
  if cfg.useRandomIOTweak then cfg.superPageSize / cfg.ioUnitInPage else cfg.superPageSize

/-- `ICL::Request` as the host interface layer makes it. -/
structure HostRequest where
  reqID : Nat
  offset : Nat
  length : Nat
  range : LPNRange
  deriving DecidableEq, Repr

inductive HostOp where
  | read (req : HostRequest)
  | write (req : HostRequest)
  | flush (range : LPNRange)
  | trim (range : LPNRange)
  | format (range : LPNRange)

section ICL

variable {F : Type} (cfg : Config) (env : Env) (port : FTLPort F)

/-- The request for the `i`-th logical page, when `reqRemain` bytes are left
(icl.cc:71–98). -/
def HostRequest.unit (req : HostRequest) (reqRemain i : Nat) : Request :=
  ⟨req.reqID, if i = 0 then req.offset else 0, min reqRemain cfg.logicalPageSize,
    (req.range.slpn + i) % 2 ^ 64⟩

/-- `iclCount++`. -/
def GenericCache.count (s : GenericCache F) : GenericCache F :=
  { s with iclCount := (s.iclCount + 1) % 2 ^ 64 }

/-- The loop of `writeToCacheMimic` (icl.cc:206–240). Insertions can make garbage
collection queue further pages, so the loop is bounded by fuel. -/
def drainMovePages : Nat → GenericCache F → Except Fault (GenericCache F)
  | 0, _ => .error (.diverges "writeToCacheMimic")
  | fuel + 1, s =>
    match port.movePagesToCache s.pFTL with
    | [] => .ok { s with pFTL := port.setMovePages s.pFTL [] false }
    | lpn :: rest => do
      let s :=
        { s with pFTL := port.setMovePages s.pFTL rest (port.putPagesInCache s.pFTL) }
      let (_, s) ← s.writeVictimPagesToCache cfg env port ⟨0, 0, cfg.logicalPageSize, lpn⟩
      drainMovePages fuel s

/-- `writeToCacheMimic` (icl.cc:206–240). -/
def writeToCacheMimic (s : GenericCache F) : Except Fault (GenericCache F) :=
  drainMovePages cfg env port env.fuel s

/-- One logical page of `ICL::read` (icl.cc:71–113). -/
def readUnit (req : HostRequest) (acc : Nat × GenericCache F) (i : Nat) :
    Except Fault (Nat × GenericCache F) := do
  let (reqRemain, s) := acc
  let unit := req.unit cfg reqRemain i
  let (_, s) ← s.count.read cfg env port unit
  .ok (reqRemain - unit.length, s)

/-- One logical page of `ICL::write` (icl.cc:115–166). -/
def writeUnit (req : HostRequest) (acc : Nat × GenericCache F) (i : Nat) :
    Except Fault (Nat × GenericCache F) := do
  let (reqRemain, s) := acc
  let unit := req.unit cfg reqRemain i
  let (_, s) ← s.count.write cfg env port unit
  let s ← if port.putPagesInCache s.pFTL then writeToCacheMimic cfg env port s else .ok s
  .ok (reqRemain - unit.length, s)

/-- One request to `ICL` (icl.cc:71–205). -/
def HostOp.exec (s : GenericCache F) (op : HostOp) : Except Fault (GenericCache F) :=
  match op with
  | .read req => ((List.range req.range.nlp).foldlM (readUnit cfg env port req) (req.length, s)).map
      Prod.snd
  | .write req =>
    ((List.range req.range.nlp).foldlM (writeUnit cfg env port req) (req.length, s)).map Prod.snd
  | .flush range => s.flush cfg port range
  | .trim range => s.trim cfg port range
  | .format range => s.format cfg port range

end ICL

/-! ### The page mapping below the cache -/

/-- The LCAs that an FTL call passed to `updateDirty`, in order: the events it
added to the trace. -/
def markedBy (before after : FTL.PageMapping) : List Nat :=
  (after.trace.take (after.trace.length - before.trace.length)).reverse.filterMap fun
    | .updateDirty lpn => some lpn
    | _ => none

/-- `PageMapping` as the FTL of a cache. -/
def pageMapping (cfg : FTL.Config) (env : FTL.Env) : FTLPort FTL.PageMapping where
  call s call := (FTL.Op.exec cfg env s call).map fun s' => (s', markedBy s s')
  movePagesToCache := FTL.PageMapping.movePagesToCache
  putPagesInCache := FTL.PageMapping.putPagesInCache
  setMovePages s lpns put := { s with movePagesToCache := lpns, putPagesInCache := put }

/-! ### A small cache

The cache on which concrete runs below are evaluated: one set of two lines of
one page each, least recently used first, over a small device. Its clock ticks
with every stored tick. -/

def Config.small : Config where
  superPageSize := 4096
  parallelIO := 1
  ioUnitInPage := 1
  useRandomIOTweak := false
  cacheSize := 8192
  cacheWaySize := 2
  prefetchIOCount := 1
  prefetchIORatio := 1
  useReadCaching := true
  useWriteCaching := true
  useReadPrefetch := false
  prefetchMode := .all
  evictMode := .all
  policy := .leastRecentlyUsed
  parallelIO_pos := by decide
  ioUnitInPage_pos := by decide
  setSize_pos := by decide

def Env.ticking : Env := ⟨fun n => n + 1, fun _ => 0, 100⟩

/-- A request for one whole line. -/
def Request.line (lca : Nat) : Request := ⟨0, 0, 4096, lca⟩

def smallPort (n : Nat) : FTLPort FTL.PageMapping := pageMapping (.small n) .zero

/-- The device under the small cache, as constructed. -/
def smallDevice (n : Nat) : Except Fault FTL.PageMapping := FTL.PageMapping.init (.small n) .zero

/-- A run of calls on the small cache. -/
def smallRun (n : Nat) (calls : List Op) (pFTL : FTL.PageMapping) :
    Except Fault (GenericCache FTL.PageMapping) :=
  run .small .ticking (smallPort n) (.init pFTL) (calls.map fun op => (0, op))

end SimpleSSD.ICL
