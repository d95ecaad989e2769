import Mathlib.Data.List.Dedup
import SimpleSSD.FTL.GarbageCollection

/-!
# Requests to the page mapping

`writeInternal`, `trimInternal`, `format`, `undoCached` and `initialize`
(page_mapping.cc), and the calls that the cache layer makes on an FTL as the
steps of a run.
-/

namespace SimpleSSD.FTL

namespace PageMapping

variable (cfg : Config) (env : Env) (w : World)

/-- The garbage collection check at the end of `writeInternal`
(page_mapping.cc:2092–2134). -/
def collectIfNeeded (sendToPAL : Bool) (s : PageMapping) : Except Fault PageMapping :=
  if s.pool.freeBlockRatio cfg < cfg.gcThreshold then
    if sendToPAL then do
      let (list, s) ← s.selectVictimBlock cfg env
      doGarbageCollection cfg env w list s
    else .error (.panic "writeInternal" "ftl: GC triggered while in initialization")
  else .ok s

/-- `writeInternal` (page_mapping.cc:1824–2135). -/
def writeInternal (req : Request) (sendToPAL : Bool) (s : PageMapping) :
    Except Fault PageMapping := do
  let s ← s.programPage cfg env w req sendToPAL
  s.collectIfNeeded cfg env w sendToPAL

/-- `read` (page_mapping.cc:249–283). A request without I/O units only warns. -/
def read (req : Request) (s : PageMapping) : Except Fault PageMapping :=
  if 0 < req.ioFlag.count then s.readInternal cfg env w req else .ok s

/-- `write` (page_mapping.cc:370–398). -/
def write (req : Request) (s : PageMapping) : Except Fault PageMapping :=
  if 0 < req.ioFlag.count then s.writeInternal cfg env w req true else .ok s

/-- The loop of `trimInternal` and of `format` over one mapping vector. -/
def invalidateMapping (function : String) (vec : List (Nat × Nat)) (p : BlockPool) :
    Except Fault BlockPool :=
  (List.range cfg.bitsetSize).foldlM
    (fun p idx => do
      let page ← mappingAt vec idx
      match p.blocks.find? page.1 with
      | none => .error (.panic function "Block is not in use")
      | some b => .ok (p.putBlock page.1 (b.invalidate page.2 idx))) p

/-- `trim` and `trimInternal` (page_mapping.cc:400–411 and 2303–2331). -/
def trim (req : Request) (s : PageMapping) : Except Fault PageMapping :=
  match s.table.find? req.lpn with
  | none => .ok s
  | some vec => do
    let s := s.log .dram
    let pool ← invalidateMapping cfg "trimInternal" vec s.pool
    .ok { s with pool := pool, table := s.table.erase req.lpn }

/-- One table entry of `format` (page_mapping.cc:419–443): the pages of an entry
in range are invalidated, their blocks listed, and the entry removed. -/
def formatEntry (range : LPNRange) (acc : PageMapping × List Nat)
    (entry : Nat × List (Nat × Nat)) : Except Fault (PageMapping × List Nat) :=
  let (s, list) := acc
  if range.contains entry.1 then do
    let pool ← invalidateMapping cfg "format" entry.2 s.pool
    .ok ({ s with pool := pool, table := s.table.erase entry.1 },
      list ++ (entry.2.take cfg.bitsetSize).map Prod.fst)
  else .ok (s, list)

/-- `format` (page_mapping.cc:413–455). -/
def format (range : LPNRange) (s : PageMapping) : Except Fault PageMapping := do
  let (s, list) ← s.table.entries.foldlM (formatEntry cfg range) (s, [])
  doGarbageCollection cfg env w (list.insertionSort (· ≤ ·)).dedup s

/-- `undoCached` (page_mapping.cc:284–310), called when the cache evicts a page. -/
def undoCached (lpn : Nat) (s : PageMapping) : Except Fault PageMapping :=
  match s.table.find? lpn with
  | none => .ok s
  | some vec => do
    let pool ← (List.range cfg.bitsetSize).foldlM
      (fun (p : BlockPool) idx => do
        let page ← mappingAt vec idx
        if cfg.InRange page then
          match p.blocks.find? page.1 with
          | none => .ok p
          | some b => do
            let b ← b.deCache page.2
            .ok (p.putBlock page.1 b)
        else .ok p) s.pool
    .ok { s with pool := pool }

/-! ### Warm-up -/

/-- A draw from `uniform_int_distribution(0, n - 1)` in 64 bits. -/
def drawBelow (n i : Nat) : Nat := if n = 0 then env.warmup i % 2 ^ 64 else env.warmup i % n

/-- The logical pages that `initialize` writes, in order
(page_mapping.cc:112–224). -/
def warmupPages : List Nat :=
  let nTotalLogicalPages := cfg.totalLogicalBlocks * cfg.pagesInBlock
  let nPagesToWarmup := ⌊(nTotalLogicalPages : Rat) * cfg.fillingRatio⌋.toNat
  let nPagesToInvalidate := ⌊(nTotalLogicalPages : Rat) * cfg.invalidRatio⌋.toNat
  let maxPagesBeforeGC :=
    ⌊(cfg.pagesInBlock : Rat) * ((cfg.totalPhysicalBlocks : Rat) * (1 - cfg.gcThreshold) -
      (cfg.pageCountToMaxPerf : Rat))⌋.toNat
  let nPagesToInvalidate :=
    if maxPagesBeforeGC < nPagesToWarmup + nPagesToInvalidate
    then (maxPagesBeforeGC + 2 ^ 64 - nPagesToWarmup) % 2 ^ 64 else nPagesToInvalidate
  let draw n i := drawBelow env n i
  let filling := (List.range nPagesToWarmup).map fun i =>
    if cfg.fillingMode = .mode2 then draw nTotalLogicalPages i else i
  let invalidating := (List.range nPagesToInvalidate).map fun i =>
    match cfg.fillingMode with
    | .mode0 => i
    | .mode1 => draw nPagesToWarmup (nPagesToWarmup + i)
    | .mode2 => draw nTotalLogicalPages (nPagesToWarmup + i)
  filling ++ invalidating

/-- `initialize` (page_mapping.cc:112–247): full-page writes that never reach the
flash layer. -/
def initializeDevice (s : PageMapping) : Except Fault PageMapping :=
  (warmupPages cfg env).foldlM
    (fun s lpn =>
      s.writeInternal cfg env w ⟨lpn, (Bitset.new cfg.ioUnitInPage).setAll⟩ false) s

/-- The FTL as the cache layer finds it: constructed and initialized. -/
def boot : Except Fault PageMapping := do
  let s ← init cfg env
  s.initializeDevice cfg env w

/-- The device constructed, and warmed up by `initialize` if `warmUp` says so. -/
def start : Option World → Except Fault PageMapping
  | none => init cfg env
  | some w => boot cfg env w

/-! ### What the calls do to the table -/

section Table

variable {cfg} {s s' : PageMapping} {range : LPNRange} {acc acc' : PageMapping × List Nat}

theorem trim_cases {req : Request} (h : s.trim cfg req = .ok s') :
    (s.table.find? req.lpn = none ∧ s' = s) ∨
      ∃ vec pool, s.table.find? req.lpn = some vec ∧
        invalidateMapping cfg "trimInternal" vec s.pool = .ok pool ∧
        s' = { s.log .dram with pool := pool, table := s.table.erase req.lpn } := by
  rw [trim] at h
  split at h
  · next hnone =>
    cases h
    exact .inl ⟨hnone, rfl⟩
  · next vec hvec =>
    rw [Except.bind_eq_ok] at h
    obtain ⟨pool, hpool, h⟩ := h
    cases h
    exact .inr ⟨vec, pool, hvec, hpool, rfl⟩

theorem formatEntry_cases {entry : Nat × List (Nat × Nat)}
    (h : formatEntry cfg range acc entry = .ok acc') :
    (range.contains entry.1 = false ∧ acc' = acc) ∨
      ∃ pool, range.contains entry.1 = true ∧
        invalidateMapping cfg "format" entry.2 acc.1.pool = .ok pool ∧
        acc' = ({ acc.1 with pool := pool, table := acc.1.table.erase entry.1 },
          acc.2 ++ (entry.2.take cfg.bitsetSize).map Prod.fst) := by
  obtain ⟨s₁, list⟩ := acc
  rw [formatEntry] at h
  split at h
  · next hrange =>
    rw [Except.bind_eq_ok] at h
    obtain ⟨pool, hpool, h⟩ := h
    cases h
    exact .inr ⟨pool, hrange, hpool, rfl⟩
  · next hrange =>
    cases h
    exact .inl ⟨Bool.eq_false_iff.mpr hrange, rfl⟩

/-- The loop of `format` runs over the entries as they are before it; the entries not yet visited
are still in `table`. -/
theorem formatEntries_inv {I : PageMapping × List Nat → Prop}
    (hstep : ∀ l vec acc acc', l ∈ s.table → acc.1.table.find? l = some vec → I acc →
      formatEntry cfg range acc (l, vec) = .ok acc' → I acc')
    (hs : I (s, [])) (h : s.table.entries.foldlM (formatEntry cfg range) (s, []) = .ok acc) :
    I acc := by
  have hloop : I acc ∧ ∀ l ∉ s.table.entries.map Prod.fst,
      acc.1.table.find? l = s.table.find? l := by
    refine Run.foldlM_done (I := fun done acc => I acc ∧ ∀ l ∉ done.map Prod.fst,
      acc.1.table.find? l = s.table.find? l)
      (fun done entry rest acc acc' htodo hacc h => ?_) ⟨hs, fun _ _ => rfl⟩ h
    obtain ⟨l, vec⟩ := entry
    have hmem : (l, vec) ∈ s.table.entries := by simp [htodo]
    have hkey : l ∈ s.table.entries.map Prod.fst := List.mem_map_of_mem hmem
    have hnew : l ∉ done.map Prod.fst := by
      have hnodup := s.table.nodupKeys
      rw [htodo, List.map_append, List.nodup_append] at hnodup
      intro hmem
      exact hnodup.2.2 l hmem l (by simp) rfl
    have hvec : acc.1.table.find? l = some vec := by
      rw [hacc.2 l hnew, UnorderedMap.find?_eq_some_iff]
      exact hmem
    refine ⟨hstep l vec acc acc' hkey hvec hacc.1 h, fun l' hl' => ?_⟩
    rw [List.map_append, List.mem_append, not_or] at hl'
    rcases formatEntry_cases h with ⟨-, rfl⟩ | ⟨pool, -, -, rfl⟩
    · exact hacc.2 l' hl'.1
    · show (acc.1.table.erase l).find? l' = _
      rw [UnorderedMap.find?_erase, if_neg (by simpa using hl'.2)]
      exact hacc.2 l' hl'.1
  exact hloop.1

theorem undoCached_pool {lpn : Nat} (h : s.undoCached cfg lpn = .ok s') :
    ∃ pool, s' = { s with pool := pool } := by
  rw [undoCached] at h
  split at h
  · cases h
    exact ⟨s.pool, rfl⟩
  · rw [Except.bind_eq_ok] at h
    obtain ⟨pool, -, h⟩ := h
    cases h
    exact ⟨pool, rfl⟩

end Table

end PageMapping

/-- The calls of the interface `AbstractFTL` that change the FTL. -/
inductive Op where
  | read (req : Request)
  | write (req : Request)
  | trim (req : Request)
  | format (range : LPNRange)
  | undoCached (lpn : Nat)

/-- One call, with the globals as they are when it begins. -/
def Op.exec (cfg : Config) (env : Env) (s : PageMapping) (call : World × Op) :
    Except Fault PageMapping :=
  let s := s.log .request
  match call.2 with
  | .read req => s.read cfg env call.1 req
  | .write req => s.write cfg env call.1 req
  | .trim req => s.trim cfg req
  | .format range => s.format cfg env call.1 range
  | .undoCached lpn => s.undoCached cfg lpn

/-- A run of calls. -/
def run (cfg : Config) (env : Env) (s : PageMapping) (calls : List (World × Op)) :
    Except Fault PageMapping :=
  calls.foldlM (Op.exec cfg env) s

/-! ### A small device

The device on which concrete runs below are evaluated: `n` blocks of two pages,
one lane, one I/O unit a page, no collection by free space, no mapping cache.
The environment answers every question with zero, except that a new key goes to
the front of a hash table, as libstdc++ does. -/

def Config.small (n : Nat) : Config where
  totalPhysicalBlocks := n
  totalLogicalBlocks := n
  pagesInBlock := 2
  ioUnitInPage := 1
  pageCountToMaxPerf := 1
  gcThreshold := 0
  badBlockThreshold := 100
  gcMode := .mode0
  reclaimBlock := 1
  reclaimThreshold := 0
  evictPolicy := .greedy
  dChoiceParam := 1
  fillingMode := .mode0
  fillingRatio := 0
  invalidRatio := 0
  randomIOTweak := false
  cmtSize := 10
  enableCMT := false
  useDeadOnArrivalPredictor := false
  usePortionOfCacheAsShadow := false
  optimalreplacementPolicy := false
  blockToBlockMovement := false
  pageAwareofCache := false
  simlationIORequests := 1000

/-- The small device with the cached mapping table. -/
def Config.cached (n : Nat) : Config := { Config.small n with enableCMT := true }

def Env.zero : Env :=
  ⟨fun _ => 0, fun _ => 0, fun _ _ => 0, fun _ _ _ => 0, fun _ => [], fun _ => 0, .empty⟩

def World.zero : World := ⟨0, fun _ => 0⟩

/-- A request for the only I/O unit of a page. -/
def Request.page (lpn : Nat) : Request := ⟨lpn, (Bitset.new 1).setAll⟩

/-- Calls made in the world where nothing has happened yet. -/
def calls (ops : List Op) : List (World × Op) := ops.map fun op => (World.zero, op)

end SimpleSSD.FTL
