import SimpleSSD.ICL.CachedCollection
import SimpleSSD.ICL.EvictionPolicies

/-!
# Indices into the cache (icl/generic_cache.cc:34–147 and 452–547)

The constructor computes the number of sets and of ways from the options, in 32 bits. It
bounds the random draws before that, by the configured way size, which is 0 for a fully
associative cache. `Options` is what the constructor is given: unlike a `Config` it need not
have a set.
-/

namespace SimpleSSD.ICL

/-- The options of the `[icl]` section, with the geometry of the FTL. -/
structure Options where
  superPageSize : Nat
  parallelIO : Nat
  ioUnitInPage : Nat
  useRandomIOTweak : Bool
  cacheSize : Nat
  /-- `ICL_WAY_SIZE`. -/
  waySizeOption : Nat
  prefetchIOCount : Nat
  prefetchIORatio : Rat
  useReadCaching : Bool
  useWriteCaching : Bool
  useReadPrefetch : Bool
  prefetchMode : PrefetchMode
  evictMode : PrefetchMode
  policy : EvictPolicy
  parallelIO_pos : 0 < parallelIO
  ioUnitInPage_pos : 0 < ioUnitInPage

namespace Options

variable (o : Options)

/-- `waySize` as it is initialised, in 32 bits. -/
def cacheWaySize : Nat := o.waySizeOption % 2 ^ 32

def lineSize : Nat := lineSizeOf o.superPageSize o.ioUnitInPage o.useRandomIOTweak

def setSize : Nat := setSizeOf o.cacheSize o.lineSize o.cacheWaySize

/-- The cache that the constructor makes, if it has a set. -/
def toConfig (h : 0 < o.setSize) : Config where
  superPageSize := o.superPageSize
  parallelIO := o.parallelIO
  ioUnitInPage := o.ioUnitInPage
  useRandomIOTweak := o.useRandomIOTweak
  cacheSize := o.cacheSize
  cacheWaySize := o.cacheWaySize
  prefetchIOCount := o.prefetchIOCount
  prefetchIORatio := o.prefetchIORatio
  useReadCaching := o.useReadCaching
  useWriteCaching := o.useWriteCaching
  useReadPrefetch := o.useReadPrefetch
  prefetchMode := o.prefetchMode
  evictMode := o.evictMode
  policy := o.policy
  parallelIO_pos := o.parallelIO_pos
  ioUnitInPage_pos := o.ioUnitInPage_pos
  setSize_pos := h

/-- The effective `waySize`. -/
def waySize : Nat :=
  if o.cacheWaySize = 0 then max (o.cacheSize / o.lineSize) 1 % 2 ^ 32 else o.cacheWaySize

end Options

namespace GenericCache

variable {F : Type}

/-- The indices that are computed in this state, all within the arrays. -/
structure InBounds (cfg : Config) (env : Env) (s : GenericCache F) : Prop where
  set : ∀ lca, cfg.calcSetIndex lca < cfg.setSize
  io : ∀ lca, (cfg.calcIOPosition lca).1 < cfg.lineCountInSuperPage ∧
    (cfg.calcIOPosition lca).2 < cfg.parallelIO
  evicted : ∀ setIdx < cfg.setSize, s.evictFunction cfg env setIdx < cfg.waySize
  found : ∀ lca, ∀ way ∈ s.getValidWay cfg lca, way < cfg.waySize
  empty : ∀ setIdx < cfg.setSize, ∀ way ∈ s.getEmptyWay cfg setIdx, way < cfg.waySize
  /-- The lines that a write collects. -/
  collected : ∀ setIdx < cfg.setSize, ∀ slot,
    ∀ pos ∈ (s.fillEvictData cfg env setIdx).evictData slot,
    (slot.1 < cfg.lineCountInSuperPage ∧ slot.2 < cfg.parallelIO) ∧
      pos.1 < cfg.setSize ∧ pos.2 < cfg.waySize

variable {cfg : Config} {env : Env} {s : GenericCache F}

/-- The scans stay within a set that has a way. -/
theorem minWay_lt (hpos : 0 < cfg.waySize) (key : Line → Nat) (setIdx : Nat) :
    s.minWay cfg key setIdx < cfg.waySize := by
  refine List.foldlRecOn (motive := fun acc : Nat × Nat => acc.1 < cfg.waySize) _ _ hpos
    fun acc hacc way hway => ?_
  dsimp only
  split
  · exact List.mem_range.mp hway
  · exact hacc

theorem leastFrequentWay_lt (hpos : 0 < cfg.waySize) (setIdx : Nat) :
    s.leastFrequentWay cfg setIdx < cfg.waySize := by
  refine List.foldlRecOn (motive := fun acc : Nat × Nat × Nat => acc.1 < cfg.waySize) _ _ hpos
    fun acc hacc way hway => ?_
  dsimp only
  split
  · exact List.mem_range.mp hway
  · split
    · exact List.mem_range.mp hway
    · exact hacc

theorem evictFunction_lt (hpos : 0 < cfg.waySize)
    (hrandom : ¬ (cfg.policy = .random ∧ cfg.cacheWaySize = 0)) (setIdx : Nat) :
    s.evictFunction cfg env setIdx < cfg.waySize := by
  rw [evictFunction]
  cases h : cfg.policy with
  | random =>
    -- the draws are bounded by the configured way size, which is the effective one
    have hne : cfg.cacheWaySize ≠ 0 := fun heq => hrandom ⟨h, heq⟩
    have hway : cfg.waySize = cfg.cacheWaySize := if_neg hne
    rw [hway]
    show dist cfg env _ < _
    rw [dist, if_neg hne]
    exact Nat.mod_lt _ (Nat.pos_of_ne_zero hne)
  | fifo => exact minWay_lt hpos _ _
  | leastRecentlyUsed => exact minWay_lt hpos _ _
  | lruClean =>
    dsimp only
    cases hfind : (List.range cfg.waySize).find? fun way => !(s.cacheData (setIdx, way)).dirty with
    | none => exact minWay_lt hpos _ _
    | some way => exact List.mem_range.mp (List.mem_of_find?_eq_some hfind)
  | lfu => exact leastFrequentWay_lt hpos _

theorem mem_slots {slot : Nat × Nat} :
    slot ∈ cfg.slots ↔ slot.1 < cfg.lineCountInSuperPage ∧ slot.2 < cfg.parallelIO := by
  obtain ⟨row, col⟩ := slot
  simp [Config.slots]

/-- All but the draws is in bounds in any case. -/
theorem inBounds_of_evicted (hclear : s.Cleared)
    (hevicted : ∀ setIdx < cfg.setSize, s.evictFunction cfg env setIdx < cfg.waySize) :
    InBounds cfg env s where
  set := cfg.calcSetIndex_lt
  io lca := mem_slots.mp (cfg.calcIOPosition_mem_slots lca)
  evicted := hevicted
  found _ _ h := (getValidWay_eq_some h).1
  empty _ _ _ h := (getEmptyWay_eq_some h).1
  collected setIdx hset slot pos hpos := by
    have haims : s.Aims cfg s.evictData := by
      intro slot pos hslot
      rw [hclear slot] at hslot
      cases hslot
    obtain ⟨hslot, hmem, -⟩ := fillEvictData_aims env hset haims slot pos hpos
    exact ⟨mem_slots.mp hslot, cfg.mem_positions.mp hmem⟩

/-! ### Faults

The cache passes the faults of the FTL on, and panics when it finds no empty way after an eviction.
It has no fault of its own besides, as long as the ways that are evicted are ways of the set. -/

section Faults

variable {port : FTLPort F} {E : Fault → Prop}
  (hport : ∀ f call, (port.call f call).Sat (fun _ => True) E)
  (hpanic : ∀ function, E (.panic function "Cache corrupted!"))
  (hevicted : ∀ (s : GenericCache F) setIdx, s.evictFunction cfg env setIdx < cfg.waySize)

include hport

theorem call_faults (op : FTL.Op) (s : GenericCache F) :
    (s.call cfg port op).Sat (fun _ => True) E :=
  (hport _ _).bind fun _ _ => trivial

theorem writeDirect_faults (direct : Bool) (e : Event) (lca : Nat) (s : GenericCache F) :
    (s.writeDirect cfg port direct e lca).Sat (fun _ => True) E := by
  rw [writeDirect]
  split
  · exact call_faults hport _ _
  · trivial

theorem evictCache_faults (s : GenericCache F) :
    (s.evictCache cfg env port).Sat (fun _ => True) E := by
  refine Run.foldlM_sat (I := fun _ => True) (fun s slot _ => ?_) trivial
  rw [evictSlot]
  split
  · trivial
  · refine Except.Sat.bind (Q := fun _ => True) ?_ fun _ _ => trivial
    rw [evictLine]
    refine Except.Sat.bind (Q := fun _ => True) ?_ fun _ _ => trivial
    rw [releaseLine]
    split
    · exact (call_faults hport _ _).bind fun _ _ => call_faults hport _ _
    · exact call_faults hport _ _

theorem flush_faults (range : LPNRange) (s : GenericCache F) :
    (s.flush cfg port range).Sat (fun _ => True) E := by
  rw [flush]
  split
  · refine Except.Sat.bind (Q := fun _ => True) (Run.foldlM_sat (fun acc pos _ => ?_) trivial)
      fun _ _ => trivial
    rw [flushLine]
    split
    · split
      · exact (call_faults hport _ _).bind fun _ _ => trivial
      · trivial
    · trivial
  · trivial

theorem trim_faults (range : LPNRange) (s : GenericCache F) :
    (s.trim cfg port range).Sat (fun _ => True) E := by
  rw [trim]
  split
  · refine Except.Sat.bind (Q := fun _ => True) (Run.foldlM_sat (fun acc pos _ => ?_) trivial)
      fun _ _ => trivial
    rw [trimLine]
    split
    · exact (call_faults hport _ _).bind fun _ _ => trivial
    · trivial
  · trivial

include hpanic in
theorem insertLine_faults (function : String) (lca : Nat) (dirty : Bool)
    (stored : Nat × Nat → Event) (s : GenericCache F) :
    (s.insertLine cfg env port function lca dirty stored).Sat (fun _ => True) E := by
  rw [insertLine]
  dsimp only
  split
  · trivial
  · refine (evictCache_faults hport _).bind fun s₁ _ => ?_
    split
    · exact hpanic function
    · trivial

include hpanic in
theorem write_faults (req : Request) (s : GenericCache F) :
    (s.write cfg env port req).Sat (fun _ => True) E := by
  rw [write]
  refine (writeDirect_faults hport _ _ _ _).bind fun s₁ _ => ?_
  dsimp only
  split
  · split
    · trivial
    · exact insertLine_faults hport hpanic _ _ _ _ _
  · exact (writeDirect_faults hport _ _ _ _).bind fun _ _ => trivial

include hpanic in
theorem writeVictimPagesToCache_faults (req : Request) (s : GenericCache F) :
    (s.writeVictimPagesToCache cfg env port req).Sat (fun _ => True) E := by
  rw [writeVictimPagesToCache]
  refine (writeDirect_faults hport _ _ _ _).bind fun s₁ _ => ?_
  split
  · exact insertLine_faults hport hpanic _ _ _ _ _
  · exact (writeDirect_faults hport _ _ _ _).bind fun _ _ => trivial

include hevicted

theorem reserveLine_faults (acc : List (Nat × Nat × Nat) × GenericCache F) (lca : Nat) :
    (reserveLine cfg env port acc lca).Sat (fun _ => True) E := by
  rw [reserveLine]
  split
  · trivial
  · refine Except.Sat.bind (Q := fun _ => True) ?_ fun _ _ => trivial
    rw [takeWay]
    split
    · trivial
    · dsimp only
      rw [if_pos (hevicted _ _)]
      exact (evictCache_faults hport _).bind fun _ _ => trivial

theorem read_faults (req : Request) (s : GenericCache F) :
    (s.read cfg env port req).Sat (fun _ => True) E := by
  rw [read]
  split
  · dsimp only
    split
    · refine Except.Sat.bind (Q := fun _ => True) ?_ fun _ _ => trivial
      rw [readLines]
      refine Except.Sat.bind (Q := fun _ => True)
        (Run.foldlM_sat (fun _ _ _ => reserveLine_faults hport hevicted _ _) trivial) fun r _ => ?_
      refine (evictCache_faults hport _).bind fun s₁ _ => ?_
      refine Run.foldlM_sat (fun s entry _ => ?_) trivial
      exact (call_faults hport _ _).bind fun _ _ => trivial
    · trivial
  · exact (call_faults hport _ _).bind fun _ _ => trivial

include hpanic in
/-- The faults of a run. -/
theorem run_faults (calls : List (Nat × Op)) (s : GenericCache F) :
    (run cfg env port s calls).Sat (fun _ => True) E := by
  refine Run.foldlM_sat (fun s call _ => ?_) trivial
  obtain ⟨n, op⟩ := call
  cases op with
  | read req => exact Except.Sat.map (read_faults hport hevicted req _)
  | write req => exact Except.Sat.map (write_faults hport hpanic req _)
  | flush range => exact flush_faults hport range _
  | trim range => exact trim_faults hport range _
  | format range => exact call_faults hport _ _
  | writeVictimPagesToCache req =>
    exact Except.Sat.map (writeVictimPagesToCache_faults hport hpanic req _)

end Faults

end GenericCache

/-- An access to `cacheData` at a way that the set does not have. -/
def outOfCache : Fault := .badAccess "cacheData"

/-- A cache of these options has a set, and stays within its arrays in every run over every
FTL, with all draws: after each call, and within a call as well. -/
def Options.StaysInBounds (o : Options) : Prop :=
  (o.useReadCaching || o.useWriteCaching) = true →
    ∃ h : 0 < o.setSize, ∀ (F : Type) (env : Env) (port : FTLPort F) (pFTL : F)
      (calls : List (Nat × Op)),
      (∀ s, run (o.toConfig h) env port (.init pFTL) calls = .ok s →
        GenericCache.InBounds (o.toConfig h) env s) ∧
      ((∀ f call, port.call f call ≠ .error outOfCache) →
        run (o.toConfig h) env port (.init pFTL) calls ≠ .error outOfCache)

/-- The options that do: a set and a way are left in 32 bits, and a random policy has a
configured way size. -/
theorem staysInBounds_iff (o : Options) : o.StaysInBounds ↔
    ((o.useReadCaching || o.useWriteCaching) = true →
      0 < o.setSize ∧ 0 < o.waySize ∧ ¬ (o.policy = .random ∧ o.cacheWaySize = 0)) := by
  refine imp_congr_right fun _ => ⟨fun ⟨hset, h⟩ => ⟨hset, ?_⟩, fun ⟨hset, hway, hrandom⟩ =>
    ⟨hset, fun F env port pFTL calls => ?_⟩⟩
  · -- the first eviction, with the largest draw
    let port : FTLPort Unit := ⟨fun f _ => .ok (f, []), fun _ => [], fun _ => false, fun f _ _ => f⟩
    have hfirst :=
      ((h Unit ⟨fun _ => 0, fun _ => 2 ^ 32 - 1, 0⟩ port () []).1 (.init ()) rfl).evicted
      0 hset
    have hpos : 0 < o.waySize := Nat.zero_lt_of_lt hfirst
    refine ⟨hpos, fun ⟨hpolicy, hzero⟩ => ?_⟩
    have hdraw : (GenericCache.init ()).evictFunction (o.toConfig hset)
        ⟨fun _ => 0, fun _ => 2 ^ 32 - 1, 0⟩ 0 = 2 ^ 32 - 1 := by
      have hpolicy' : (o.toConfig hset).policy = .random := hpolicy
      have hzero' : (o.toConfig hset).cacheWaySize = 0 := hzero
      simp only [GenericCache.evictFunction, hpolicy', GenericCache.dist, hzero', if_pos]
      decide
    have hlt : o.waySize < 2 ^ 32 := by
      rw [Options.waySize, if_pos hzero]
      exact Nat.mod_lt _ (by decide)
    rw [hdraw] at hfirst
    have hsame : (o.toConfig hset).waySize = o.waySize := rfl
    omega
  · have hpos : 0 < (o.toConfig hset).waySize := hway
    refine ⟨fun s hrun => GenericCache.inBounds_of_evicted (run_cleared hrun) fun setIdx _ =>
      GenericCache.evictFunction_lt hpos hrandom setIdx, fun hport hrun => ?_⟩
    have hcalls : ∀ f call, (port.call f call).Sat (fun _ => True) (· ≠ outOfCache) :=
      fun f call => Except.sat_iff.mpr ⟨fun _ _ => trivial, fun e he heq => hport f call (heq ▸ he)⟩
    have hfaults : (run (o.toConfig hset) env port (.init pFTL) calls).Sat (fun _ => True)
        (· ≠ outOfCache) :=
      GenericCache.run_faults hcalls (by simp [outOfCache])
        (fun s setIdx => GenericCache.evictFunction_lt hpos hrandom setIdx) calls (.init pFTL)
    exact hfaults.of_error hrun rfl

/-- The small cache, fully associative and random. -/
def Options.fullyRandom : Options where
  superPageSize := 4096
  parallelIO := 1
  ioUnitInPage := 1
  useRandomIOTweak := false
  cacheSize := 8192
  waySizeOption := 0
  prefetchIOCount := 1
  prefetchIORatio := 1
  useReadCaching := true
  useWriteCaching := true
  useReadPrefetch := false
  prefetchMode := .all
  evictMode := .all
  policy := .random
  parallelIO_pos := Nat.one_pos
  ioUnitInPage_pos := Nat.one_pos

/-- The cache of these options. -/
def Config.fullyRandom : Config := Options.fullyRandom.toConfig (by decide)

/-- All draws are 5. -/
def Env.five : Env := ⟨fun n => n + 1, fun _ => 5, 100⟩

/-- Two reads fill the cache. With a draw of 5 the line to evict is way 5 of two. -/
theorem random_out_of_bounds : ∃ pFTL s, smallDevice 4 = .ok pFTL ∧
    run .fullyRandom .five (smallPort 4) (.init pFTL)
      [(0, .read (.line 1)), (0, .read (.line 2))] = .ok s ∧
    s.evictFunction .fullyRandom .five 0 = 5 ∧ Config.fullyRandom.waySize = 2 ∧
    ¬ Options.fullyRandom.StaysInBounds := by
  obtain ⟨pFTL, hinit, hrun⟩ := Except.exists_of_map (x := smallDevice 4)
    (p := fun pFTL => (run .fullyRandom .five (smallPort 4) (.init pFTL)
      [(0, .read (.line 1)), (0, .read (.line 2))]).map (fun s =>
        decide (s.evictFunction .fullyRandom .five 0 = 5)) = .ok true)
    (by decide +kernel)
  obtain ⟨s, hs, hdraw⟩ := Except.exists_of_map hrun
  refine ⟨pFTL, s, hinit, hs, hdraw, by decide, fun h => ?_⟩
  obtain ⟨hset, h⟩ := h rfl
  have hlt : s.evictFunction .fullyRandom .five 0 < Config.fullyRandom.waySize :=
    ((h _ _ _ _ _).1 s hs).evicted 0 hset
  rw [hdraw] at hlt
  exact absurd hlt (by decide)

end SimpleSSD.ICL
