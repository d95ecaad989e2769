import SimpleSSD.FTL.Requests

/-!
# What a call can do to the block pool

Every function of the page mapping changes the pool through four operations
only: an access to one block in use, `getLastFreeBlock`, the pool's part of
`eraseInternal`, and the reset of `bReclaimMore`. `PoolInvariant` collects what
has to be checked of a property of pools, one field per operation;
`PoolInvariant.exec` is the induction that turns it into a fact about calls. It
is done once, here.

An allocation may be conditioned: `Op.Meets` says that given conditions hold
before the program path of a write and before every page scan of a collection.
-/

namespace SimpleSSD

/-- The fault does not come from `getFreeBlock`. -/
abbrev Fault.Foreign (e : Fault) : Prop := e.NotFrom "getFreeBlock"

/-- The fault is not that a victim of a collection is out of use. -/
def Fault.Found (e : Fault) : Prop :=
  e ≠ .panic "doGarbageCollection" "Invalid block" ∧ e.NotFrom "eraseInternal"

/-- The fault comes from none of the operations on the pool. -/
def Fault.Inner (e : Fault) : Prop := e.Foreign ∧ e.Found

/-- Nor does it come from programming a block. -/
def Fault.Plain (e : Fault) : Prop := e.Inner ∧ e.NotFrom "Block::write"

@[simp] theorem Fault.found_badAccess (w : String) : (badAccess w).Found :=
  ⟨Fault.noConfusion, notFrom_badAccess _ w⟩

@[simp] theorem Fault.found_diverges (g : String) : (diverges g).Found :=
  ⟨Fault.noConfusion, notFrom_diverges _ g⟩

@[simp] theorem Fault.found_panic {g m : String} : (panic g m).Found ↔
    ¬ (g = "doGarbageCollection" ∧ m = "Invalid block") ∧ g ≠ "eraseInternal" := by
  rw [Found, notFrom_panic, Ne, panic.injEq]

@[simp] theorem Fault.inner_badAccess (w : String) : (badAccess w).Inner :=
  ⟨notFrom_badAccess _ w, found_badAccess w⟩

@[simp] theorem Fault.inner_diverges (g : String) : (diverges g).Inner :=
  ⟨notFrom_diverges _ g, found_diverges g⟩

@[simp] theorem Fault.inner_panic {g m : String} : (panic g m).Inner ↔
    g ≠ "getFreeBlock" ∧ ¬ (g = "doGarbageCollection" ∧ m = "Invalid block") ∧
      g ≠ "eraseInternal" :=
  and_congr notFrom_panic found_panic

@[simp] theorem Fault.plain_badAccess (w : String) : (badAccess w).Plain :=
  ⟨inner_badAccess w, notFrom_badAccess _ w⟩

@[simp] theorem Fault.plain_diverges (g : String) : (diverges g).Plain :=
  ⟨inner_diverges g, notFrom_diverges _ g⟩

@[simp] theorem Fault.plain_panic {g m : String} : (panic g m).Plain ↔
    (g ≠ "getFreeBlock" ∧ ¬ (g = "doGarbageCollection" ∧ m = "Invalid block") ∧
      g ≠ "eraseInternal") ∧ g ≠ "Block::write" :=
  and_congr inner_panic notFrom_panic

/-- The fault can be one of an allocation. -/
def Fault.Allocating (e : Fault) : Prop := e.NotFrom "Block::write" ∧ e.Found

@[simp] theorem Fault.allocating_badAccess (w : String) : (badAccess w).Allocating :=
  ⟨notFrom_badAccess _ w, found_badAccess w⟩

@[simp] theorem Fault.allocating_panic {g m : String} : (panic g m).Allocating ↔
    g ≠ "Block::write" ∧ ¬ (g = "doGarbageCollection" ∧ m = "Invalid block") ∧
      g ≠ "eraseInternal" :=
  and_congr notFrom_panic found_panic

namespace FTL

/-- What the FTL does with a block in use, apart from erasing it. -/
inductive Block.Access : Block → Block → Prop where
  | read {b b' : Block} {p i : Nat} {v : Bool} (h : b.read p i = .ok (v, b')) : Access b b'
  | write {b b' : Block} {p lpn i : Nat} (h : b.write p lpn i = .ok b') : Access b b'
  | invalidate (b : Block) (p i : Nat) : Access b (b.invalidate p i)
  | deCache {b b' : Block} {p : Nat} (h : b.deCache p = .ok b') : Access b b'

theorem Block.deCache_spec {b b' : Block} {p : Nat} (h : b.deCache p = .ok b') :
    b.ioUnitInPage = 1 ∧ b' = { b with pCachedBits := b.pCachedBits.erase p } := by
  rw [Block.deCache] at h
  split at h
  · next h1 => cases h; exact ⟨h1, rfl⟩
  · cases h

namespace Block.Access

variable {b b' : Block}

theorem idx_eq (h : b.Access b') : b'.idx = b.idx := by
  cases h with
  | read h => rw [(read_spec h).2.2.2]
  | write h => exact (write_spec h).2.2.2.1
  | invalidate => rfl
  | deCache h => rw [(deCache_spec h).2]

theorem geometry (h : b.Access b') :
    b'.pageCount = b.pageCount ∧ b'.ioUnitInPage = b.ioUnitInPage := by
  cases h with
  | read h => rw [(read_spec h).2.2.2]; exact ⟨rfl, rfl⟩
  | write h => exact ⟨(write_spec h).2.2.2.2.1, (write_spec h).2.2.2.2.2.1⟩
  | invalidate => exact ⟨rfl, rfl⟩
  | deCache h => rw [(deCache_spec h).2]; exact ⟨rfl, rfl⟩

/-- No column moves back. -/
theorem next_le (h : b.Access b') (i : Nat) :
    b.pNextWritePageIndex i ≤ b'.pNextWritePageIndex i := by
  cases h with
  | read h => rw [(read_spec h).2.2.2]
  | @write _ p _ j h =>
    obtain ⟨-, -, hle, -, -, -, -, -, hnext, -⟩ := write_spec h
    rw [hnext]
    by_cases hi : i = j
    · subst hi
      rw [Function.update_self]
      omega
    · rw [Function.update_of_ne hi]
  | invalidate => exact le_rfl
  | deCache h => rw [(deCache_spec h).2]

theorem getNextWritePageIndex_le (h : b.Access b') :
    b.getNextWritePageIndex ≤ b'.getNextWritePageIndex := by
  rw [getNextWritePageIndex, getNextWritePageIndex, h.geometry.2]
  exact Finset.sup_mono_fun fun i _ => h.next_le i

end Block.Access

/-- An access that programs nothing. -/
def Block.Touch (b b' : Block) : Prop :=
  b.Access b' ∧ b'.pNextWritePageIndex = b.pNextWritePageIndex

theorem Block.Touch.invalidate (b : Block) (p i : Nat) : b.Touch (b.invalidate p i) :=
  ⟨.invalidate b p i, rfl⟩

/-! ### Faults of the block operations -/

namespace Block

variable (b : Block) (p i lpn : Nat)

theorem read_sat : (b.read p i).Sat (fun r => b.Touch r.2) Fault.Plain := by
  refine Except.sat_iff.mpr ⟨fun r hr => ⟨.read (v := r.1) hr, ?_⟩, fun e he => ?_⟩
  · rw [(read_spec (v := r.1) hr).2.2.2]
  rw [read] at he
  split at he
  · cases he; simp
  · split at he <;> cases he
    simp

theorem write_sat : (b.write p lpn i).Sat b.Access Fault.Inner := by
  refine Except.sat_iff.mpr ⟨fun r hr => .write hr, fun e he => ?_⟩
  rw [write] at he
  split at he
  · cases he; simp
  · split at he
    · cases he; simp
    · split at he <;> cases he
      simp

theorem deCache_sat : (b.deCache p).Sat b.Touch Fault.Plain := by
  refine Except.sat_iff.mpr ⟨fun r hr => ⟨.deCache hr, ?_⟩, fun e he => ?_⟩
  · rw [(deCache_spec hr).2]
  rw [deCache] at he
  split at he <;> cases he
  simp

theorem isPageValid_sat : (b.isPageValid p).Sat
    (fun v => b.ioUnitInPage = 1 ∧ v = decide ((p, 0) ∈ b.validBits)) Fault.Plain := by
  rw [isPageValid]
  split
  · next h => exact ⟨h, rfl⟩
  · simp

theorem isCached_sat : (b.isCached p).Sat
    (fun v => b.ioUnitInPage = 1 ∧ v = decide (p ∈ b.pCachedBits)) Fault.Plain := by
  rw [isCached]
  split
  · next h => exact ⟨h, rfl⟩
  · simp

/-- With one unit per page, the LPN of the page comes back with a full map. -/
theorem getPageInfo_sat (map : Bitset) :
    (b.getPageInfo p map).Sat
      (fun r => b.ioUnitInPage = 1 → map.dataSize = 1 ∧ r = ([b.lpns (p, 0)], map.setAll))
      Fault.Plain := by
  rw [getPageInfo]
  split
  · next h => exact fun _ => ⟨h.2, rfl⟩
  · next h =>
    split
    · next h' => exact fun h1 => absurd ⟨h1, h'.trans h1⟩ h
    · simp

end Block

theorem mappingAt_sat (vec : List (Nat × Nat)) (idx : Nat) :
    (mappingAt vec idx).Sat (fun page => vec[idx]? = some page) Fault.Plain := by
  rw [mappingAt]
  split
  · next h => exact h
  · simp

/-- The scan of a page of this block copies the page to another block: the page
is valid, and in `cachedGC` mode it is not cached, block-to-block movement is
on, and the cache has evicted it at most twice (page_mapping.cc:1081–1121). -/
def Block.Copies (cfg : Config) (w : World) (b : Block) (pageIndex : Nat) : Prop :=
  (pageIndex, 0) ∈ b.validBits ∧
    (cfg.evictPolicy = .cachedGC →
      pageIndex ∉ b.pCachedBits ∧ cfg.blockToBlockMovement = true ∧
        w.lbaEvictionFrequency (b.lpns (pageIndex, 0)) ≤ 2)

instance (cfg : Config) (w : World) (b : Block) (pageIndex : Nat) :
    Decidable (b.Copies cfg w pageIndex) := inferInstanceAs (Decidable (_ ∧ _))

/-! ### Victim selection -/

namespace PageMapping

/-- Every id in the list is the key of a full block. -/
def FullIn (cfg : Config) (s : PageMapping) (ids : List Nat) : Prop :=
  ∀ k ∈ ids, ∃ b, (k, b) ∈ s.fullBlocks cfg

theorem findVictimBlocks_subset (n : Nat) (weight : List (Nat × Nat × Nat)) :
    ∀ k ∈ findVictimBlocks n weight, k ∈ weight.map Prod.fst := by
  induction n generalizing weight with
  | zero =>
    intro k hk
    cases hk
  | succ n ih =>
    intro k hk
    have hperm := List.perm_insertionSort (fun a b => cachedBefore a b) weight
    rw [findVictimBlocks] at hk
    split at hk
    · cases hk
    · next v rest hsort =>
      rw [hsort] at hperm
      rw [← (hperm.map Prod.fst).mem_iff]
      rcases List.mem_cons.mp hk with rfl | hk
      · simp
      · exact ih _ k hk

/-- A sample holds ids of the weighed blocks only: the mark of a selected entry
is no id that is drawn again. -/
theorem sampleVictims_sat (ids : List Nat) (range : Nat) (draws : List Nat) :
    ∀ weight selected : List (Nat × Option Rat),
      (∀ v ∈ weight, v.1 < 2 ^ 32 - 1 → v.1 ∈ ids) → (∀ v ∈ selected, v.1 ∈ ids) →
      (sampleVictims range draws weight selected).Sat (fun r => ∀ v ∈ r, v.1 ∈ ids)
        Fault.Plain := by
  induction draws with
  | nil =>
    intro weight selected _ hsel
    rw [sampleVictims]
    split
    · exact hsel
    · simp
  | cons draw draws ih =>
    intro weight selected hw hsel
    rw [sampleVictims]
    split
    · exact hsel
    · split
      · simp
      · next v hv =>
        split
        · next hlt =>
          refine ih _ _ (fun u hu hult => ?_) (fun u hu => ?_)
          · rcases List.mem_or_eq_of_mem_set hu with hu | rfl
            · exact hw u hu hult
            · exact absurd hult (lt_irrefl _)
          · rcases List.mem_append.mp hu with hu | hu
            · exact hsel u hu
            · rw [List.mem_singleton.mp hu]
              exact hw v (List.mem_of_getElem? hv) hlt
        · exact ih _ _ hw hsel

theorem calculateVictimWeight_sat (cfg : Config) (env : Env) (s : PageMapping) :
    (s.calculateVictimWeight cfg env).Sat
      (fun r => r.map Prod.fst = (s.fullBlocks cfg).map Prod.fst) Fault.Plain := by
  unfold calculateVictimWeight
  split <;> simp

theorem fullIn_of_subset {cfg : Config} {s : PageMapping} {ids : List Nat}
    (h : ∀ k ∈ ids, k ∈ (s.fullBlocks cfg).map Prod.fst) : s.FullIn cfg ids := by
  intro k hk
  obtain ⟨⟨_, b⟩, hb, rfl⟩ := List.mem_map.mp (h k hk)
  exact ⟨b, hb⟩

/-- `selectVictimBlock` selects full blocks, takes back the wish to reclaim
more, and reports no fault of `getFreeBlock`. -/
theorem selectVictimBlock_sat (cfg : Config) (env : Env) (s : PageMapping) :
    (s.selectVictimBlock cfg env).Sat
      (fun r => r.2 = { s with pool := { s.pool with bReclaimMore := false } } ∧
        s.FullIn cfg r.1)
      Fault.Plain := by
  have htarget : (s.reclaimTarget cfg).Sat (fun _ => True) Fault.Plain := by
    unfold reclaimTarget
    split <;> simp
  have hweight : (s.victimWeight cfg env).Sat
      (fun weight => ∀ v ∈ weight, v.1 ∈ (s.fullBlocks cfg).map Prod.fst) Fault.Plain := by
    unfold victimWeight
    split
    · simp
    · refine (calculateVictimWeight_sat cfg env s).mono (fun r hr v hv => ?_) fun _ h => h
      exact hr ▸ List.mem_map_of_mem hv
  refine htarget.bind fun nBlocks _ => hweight.bind fun weight hw => ?_
  have hsample : (s.sampleWeight cfg env nBlocks weight).Sat
      (fun weight => ∀ v ∈ weight, v.1 ∈ (s.fullBlocks cfg).map Prod.fst) Fault.Plain := by
    unfold sampleWeight
    split
    · exact sampleVictims_sat _ _ _ _ _ (fun v hv _ => hw v hv) (by simp)
    · exact hw
  refine hsample.bind fun weight hw => ?_
  simp only
  split
  · refine ⟨rfl, fullIn_of_subset fun k hk => ?_⟩
    have hk := findVictimBlocks_subset _ _ k hk
    unfold cachedWeight at hk
    split at hk
    · rw [calculateVictimCachedWeight, List.map_map] at hk
      exact hk
    · cases hk
  · refine ⟨rfl, fullIn_of_subset fun k hk => ?_⟩
    obtain ⟨v, hv, rfl⟩ := List.mem_map.mp hk
    exact hw v ((List.mem_insertionSort _).mp (List.mem_of_mem_take hv))

/-- A victim is in use, has its pages scanned, and is to be erased. -/
theorem scanVictim_ok {cfg : Config} {env : Env} {w : World} {victim : Nat}
    {acc acc' : GcLocals × PageMapping} (h : scanVictim cfg env w acc victim = .ok acc') :
    victim ∈ acc.2.pool.blocks ∧ ∃ locals s,
      (List.range cfg.pagesInBlock).foldlM (scanPage cfg env w victim) acc = .ok (locals, s) ∧
      acc' = ({ locals with
        eraseRequests := locals.eraseRequests ++
          [⟨victim, 0, (Bitset.new cfg.ioUnitInPage).setAll⟩] }, s) := by
  rw [scanVictim] at h
  split at h
  · cases h
  · next hused =>
    rw [Except.bind_eq_ok] at h
    obtain ⟨⟨locals, s⟩, hloop, h⟩ := h
    cases h
    exact ⟨not_not.mp hused, locals, s, hloop, rfl⟩

/-- A collection does nothing, or scans its victims and ends as its mode says. -/
theorem doGarbageCollection_cases {cfg : Config} {env : Env} {w : World} {victims : List Nat}
    {s s' : PageMapping} (h : doGarbageCollection cfg env w victims s = .ok s') :
    s' = s ∨ ∃ locals s₁, ¬ cfg.simlationIORequests < w.iclCount ∧ victims ≠ [] ∧
      victims.foldlM (scanVictim cfg env w) (GcLocals.empty, s) = .ok (locals, s₁) ∧
      ((cfg.evictPolicy = .cachedGC ∧ finishCachedCollection cfg locals s₁ = .ok s') ∨
        (cfg.evictPolicy ≠ .cachedGC ∧ finishCollection cfg locals s₁ = .ok s')) := by
  rw [doGarbageCollection] at h
  split at h
  · cases h
    exact .inl rfl
  · next hlim =>
    split at h
    · cases h
      exact .inl rfl
    · next hne =>
      rw [Except.bind_eq_ok] at h
      obtain ⟨⟨locals, s₁⟩, hloop, h⟩ := h
      refine .inr ⟨locals, s₁, hlim, hne, hloop, ?_⟩
      simp only at h
      split at h
      · next hmode => exact .inl ⟨hmode, h⟩
      · next hmode => exact .inr ⟨hmode, h⟩

/-- The check for free space does nothing, or collects what it has selected. -/
theorem collectIfNeeded_cases {cfg : Config} {env : Env} {w : World} {s s' : PageMapping}
    (h : s.collectIfNeeded cfg env w true = .ok s') :
    s' = s ∨ ∃ victims, s.pool.freeBlockRatio cfg < cfg.gcThreshold ∧
      s.selectVictimBlock cfg env =
        .ok (victims, { s with pool := { s.pool with bReclaimMore := false } }) ∧
      doGarbageCollection cfg env w victims
        { s with pool := { s.pool with bReclaimMore := false } } = .ok s' := by
  rw [collectIfNeeded] at h
  split at h
  · next hratio =>
    rw [if_pos rfl, Except.bind_eq_ok] at h
    obtain ⟨⟨victims, s₁⟩, hselect, h⟩ := h
    obtain ⟨rfl, -⟩ := (s.selectVictimBlock_sat cfg env).of_ok hselect
    exact .inr ⟨victims, hratio, hselect, h⟩
  · cases h
    exact .inl rfl

end PageMapping

/-! ### The faults of an allocation -/

namespace BlockPool

variable {cfg : Config} {env : Env} {p : BlockPool}

theorem getFreeBlock_faults (i : Nat) :
    (p.getFreeBlock cfg env i).Sat (fun _ => True) Fault.Allocating := by
  rw [getFreeBlock]
  split
  · simp
  · split
    · simp
    · dsimp only
      split
      · simp
      · split <;> simp

theorem openBlock_faults : (p.openBlock cfg env).Sat (fun _ => True) Fault.Allocating :=
  (getFreeBlock_faults p.lastFreeBlockIndex).bind fun _ _ => trivial

theorem lastFreeBlockAt_faults (i : Nat) :
    (p.lastFreeBlockAt i).Sat (fun _ => True) Fault.Allocating := by
  rw [lastFreeBlockAt]
  split <;> simp

theorem selectLane_faults (iomap : Bitset) :
    (p.selectLane cfg iomap).Sat (fun _ => True) Fault.Allocating := by
  have hand : (p.lastFreeBlockIOMap.and iomap).Sat (fun _ => True) Fault.Allocating := by
    rw [Bitset.and]
    split <;> simp
  have hor : (p.lastFreeBlockIOMap.or iomap).Sat (fun _ => True) Fault.Allocating := by
    rw [Bitset.or]
    split <;> simp
  rw [selectLane]
  split
  · refine hand.bind fun common _ => ?_
    split
    · trivial
    · exact hor.bind fun _ _ => trivial
  · trivial

theorem replaceErased_faults :
    (p.replaceErased cfg env).Sat (fun _ => True) Fault.Allocating := by
  refine (lastFreeBlockAt_faults _).bind fun cur _ => ?_
  split
  · exact openBlock_faults.bind fun _ _ => trivial
  · trivial

theorem replaceFull_faults : (p.replaceFull cfg env).Sat (fun _ => True) Fault.Allocating := by
  refine (lastFreeBlockAt_faults _).bind fun cur _ => ?_
  split
  · simp
  · split
    · exact openBlock_faults.bind fun _ _ => trivial
    · trivial

theorem getLastFreeBlock_faults (iomap : Bitset) :
    (p.getLastFreeBlock cfg env iomap).Sat (fun _ => True) Fault.Allocating :=
  (selectLane_faults iomap).bind fun _ _ =>
    replaceErased_faults.bind fun _ _ => replaceFull_faults

end BlockPool

/-! ### Conditions on the steps of a call -/

/-- Conditions on the points at which a call can go wrong: the program path of
a write, the scan of one page by a collection, a trim, and a format. -/
structure StepConditions where
  write : World → Request → PageMapping → Prop
  scan : World → Nat → PageMapping.GcLocals × PageMapping → Nat → Prop
  trim : Request → PageMapping → Prop
  format : LPNRange → PageMapping → Prop

section Conditions

variable (cfg : Config) (env : Env)

/-- `P` holds of the locals and the state before every page scan of a collection. -/
def PageMapping.Scans (P : World → Nat → PageMapping.GcLocals × PageMapping → Nat → Prop)
    (w : World) (victims : List Nat) (s : PageMapping) : Prop :=
  ¬ cfg.simlationIORequests < w.iclCount →
    Run.Along (PageMapping.scanVictim cfg env w)
      (fun acc victim =>
        Run.Along (PageMapping.scanPage cfg env w victim) (P w victim) acc
          (List.range cfg.pagesInBlock))
      (.empty, s) victims

instance (P : World → Nat → PageMapping.GcLocals × PageMapping → Nat → Prop)
    [∀ w victim acc page, Decidable (P w victim acc page)] (w : World) (victims : List Nat)
    (s : PageMapping) : Decidable (s.Scans cfg env P w victims) :=
  inferInstanceAs (Decidable (_ → _))

/-- The conditions hold at every point of the call that they speak about. -/
def Op.Meets (C : StepConditions) (s : PageMapping) (call : World × Op) : Prop :=
  let s := s.log .request
  match call.2 with
  | .read _ => True
  | .write req =>
    0 < req.ioFlag.count →
      C.write call.1 req s ∧
        (s.programPage cfg env call.1 req true).All fun s₁ =>
          s₁.pool.freeBlockRatio cfg < cfg.gcThreshold →
            (s₁.selectVictimBlock cfg env).All fun r => r.2.Scans cfg env C.scan call.1 r.1
  | .trim req => C.trim req s
  | .format range =>
    C.format range s ∧
      (s.table.entries.foldlM (PageMapping.formatEntry cfg range) (s, [])).All fun r =>
        r.1.Scans cfg env C.scan call.1 (r.2.insertionSort (· ≤ ·)).dedup
  | .undoCached _ => True

instance (C : StepConditions) [∀ w req s, Decidable (C.write w req s)]
    [∀ w victim acc page, Decidable (C.scan w victim acc page)]
    [∀ req s, Decidable (C.trim req s)] [∀ range s, Decidable (C.format range s)]
    (s : PageMapping) (call : World × Op) : Decidable (Op.Meets cfg env C s call) :=
  match call with
  | (_, .read _) => .isTrue trivial
  | (_, .write _) => inferInstanceAs (Decidable (_ → _ ∧ _))
  | (_, .trim _) => inferInstanceAs (Decidable (C.trim _ _))
  | (_, .format _) => inferInstanceAs (Decidable (_ ∧ _))
  | (_, .undoCached _) => .isTrue trivial

/-- Conditions that never fail are met by every call. -/
theorem Op.meets_of_forall {C : StepConditions} (hwrite : ∀ w req s, C.write w req s)
    (hscan : ∀ w victim acc page, C.scan w victim acc page) (htrim : ∀ req s, C.trim req s)
    (hformat : ∀ range s, C.format range s) (s : PageMapping) (call : World × Op) :
    Op.Meets cfg env C s call := by
  have hscans : ∀ w victims s, PageMapping.Scans cfg env C.scan w victims s := fun w _ _ _ =>
    Run.Along.of_forall (fun _ victim => Run.Along.of_forall (hscan w victim) _ _) _ _
  obtain ⟨w, op⟩ := call
  cases op with
  | read req => trivial
  | write req =>
    exact fun _ => ⟨hwrite w req _, Except.All.of_forall fun _ _ =>
      Except.All.of_forall fun _ => hscans w _ _⟩
  | trim req => exact htrim req _
  | format range => exact ⟨hformat range _, Except.All.of_forall fun _ => hscans w _ _⟩
  | undoCached lpn => trivial

/-- Weaker conditions are met too. -/
theorem Op.Meets.mono {C D : StepConditions} (hwrite : ∀ w req s, C.write w req s → D.write w req s)
    (hscan : ∀ w victim acc page, C.scan w victim acc page → D.scan w victim acc page)
    (htrim : ∀ req s, C.trim req s → D.trim req s)
    (hformat : ∀ range s, C.format range s → D.format range s) {s : PageMapping}
    {call : World × Op} (h : Op.Meets cfg env C s call) : Op.Meets cfg env D s call := by
  have hscans : ∀ {w victims s}, PageMapping.Scans cfg env C.scan w victims s →
      PageMapping.Scans cfg env D.scan w victims s := fun hs hlim =>
    (hs hlim).mono fun _ victim hpages => hpages.mono fun _ _ => hscan _ victim _ _
  obtain ⟨w, op⟩ := call
  cases op with
  | read req => trivial
  | write req =>
    intro hcount
    obtain ⟨hw, hgc⟩ := h hcount
    exact ⟨hwrite w req _ hw, hgc.mono fun _ hratio hlow => (hratio hlow).mono fun _ => hscans⟩
  | trim req => exact htrim req _ h
  | format range => exact ⟨hformat range _ h.1, h.2.mono fun _ => hscans⟩
  | undoCached lpn => trivial

end Conditions

/-! ### Properties that accesses keep -/

/-- No access to a block in use changes whether `P` holds to its disadvantage. -/
def AccessClosed (P : BlockPool → Prop) : Prop :=
  ∀ ⦃p : BlockPool⦄ ⦃k : Nat⦄ ⦃b b' : Block⦄,
    P p → p.blocks.find? k = some b → b.Access b' → P (p.putBlock k b')

/-- The same for the accesses that program nothing. -/
def TouchClosed (P : BlockPool → Prop) : Prop :=
  ∀ ⦃p : BlockPool⦄ ⦃k : Nat⦄ ⦃b b' : Block⦄,
    P p → p.blocks.find? k = some b → b.Touch b' → P (p.putBlock k b')

theorem AccessClosed.touch {P : BlockPool → Prop} (hP : AccessClosed P) : TouchClosed P :=
  fun _ _ _ _ hp hb ha => hP hp hb ha.1

namespace TouchClosed

variable {cfg : Config} {env : Env} {w : World} {P : BlockPool → Prop} {req : Request}
  {mapping : Nat → Except Fault (Nat × Nat)}

theorem onBlock (hP : TouchClosed P) {p : BlockPool} {k : Nat} {f : Block → Except Fault Block}
    (hf : ∀ b, (f b).Sat b.Touch Fault.Plain) (hp : P p) :
    (p.onBlock k f).Sat P Fault.Plain := by
  rw [BlockPool.onBlock]
  split
  · next b hb => exact (hf b).bind fun b' hb' => hP hp hb hb'
  · simp

theorem readUnits (hP : TouchClosed P) {fill : Bool}
    (hm : ∀ idx, (mapping idx).Sat (fun _ => True) Fault.Plain) :
    ∀ (l : List Nat) (beginAt : Nat) (dead : Bool) (s : PageMapping), P s.pool →
      (PageMapping.readUnits cfg env w req mapping fill l beginAt dead s).Sat
        (fun s' => P s'.pool) Fault.Plain := by
  intro l
  induction l with
  | nil => exact fun _ _ _ hs => hs
  | cons idx rest ih =>
    intro beginAt dead s hs
    rw [PageMapping.readUnits]
    split
    · refine (hm idx).bind fun page _ => ?_
      split
      · simp only [PageMapping.fillMapping_pool]
        split
        · rw [Except.sat_ok, PageMapping.fillMapping_pool]
          exact hs
        · split
          · simp
          · next b hb =>
            exact (b.read_sat page.2 idx).bind fun r hr => ih _ _ _ (hP hs hb hr)
      · exact ih _ _ _ hs
    · exact ih _ _ _ hs

theorem mapping_const (page : Nat × Nat) :
    ∀ idx : Nat, ((fun _ => .ok page : Nat → Except Fault (Nat × Nat)) idx).Sat
      (fun _ => True) Fault.Plain :=
  fun _ => trivial

theorem mapping_vec (vec : List (Nat × Nat)) :
    ∀ idx, (mappingAt vec idx).Sat (fun _ => True) Fault.Plain :=
  fun idx => (mappingAt_sat vec idx).mono (fun _ _ => trivial) (fun _ h => h)

theorem readInternal (hP : TouchClosed P) {s : PageMapping} (hs : P s.pool) :
    (s.readInternal cfg env w req).Sat (fun s' => P s'.pool) Fault.Plain := by
  rw [PageMapping.readInternal]
  split
  · exact hP.readUnits (mapping_const _) _ _ _ _ hs
  · split
    · exact hP.readUnits (mapping_const _) _ _ _ _ hs
    · split
      · exact hP.readUnits (mapping_vec _) _ _ _ _ hs
      · exact hs

theorem invalidateMapped (hP : TouchClosed P) {p : BlockPool} (hp : P p) (page : Nat × Nat)
    (idx : Nat) : P (p.invalidateMapped cfg page idx) := by
  rw [BlockPool.invalidateMapped]
  split
  · split
    · next b hb => exact hP hp hb (.invalidate b page.2 idx)
    · exact hp
  · exact hp

theorem invalidateUnits (hP : TouchClosed P)
    (hm : ∀ idx, (mapping idx).Sat (fun _ => True) Fault.Plain) {p : BlockPool} (hp : P p) :
    (PageMapping.invalidateUnits cfg req mapping p).Sat P Fault.Plain := by
  refine Run.foldlM_sat (fun p idx hp => ?_) hp
  split
  · exact (hm idx).bind fun page _ => hP.invalidateMapped hp page idx
  · exact hp

theorem lookupForWrite (hP : TouchClosed P) {sendToPAL : Bool} {s : PageMapping}
    (hs : P s.pool) :
    (s.lookupForWrite cfg env req sendToPAL).Sat (fun r => P r.2.2.pool) Fault.Plain := by
  rw [PageMapping.lookupForWrite]
  split
  · refine (hP.invalidateUnits (mapping_const _) ?_).bind fun p hp => hp
    split <;> exact hs
  · split
    · split
      · exact (hP.invalidateUnits (mapping_const _) hs).bind fun p hp => hp
      · exact hs
    · split
      · exact (hP.invalidateUnits (mapping_vec _) hs).bind fun p hp => hp
      · exact hs

theorem invalidateMapping (hP : TouchClosed P) {function : String}
    (hf : (Fault.panic function "Block is not in use").Plain) (vec : List (Nat × Nat))
    {p : BlockPool} (hp : P p) :
    (PageMapping.invalidateMapping cfg function vec p).Sat P Fault.Plain := by
  refine Run.foldlM_sat (fun p idx hp => ?_) hp
  refine (mapping_vec vec idx).bind fun page _ => ?_
  split
  · exact hf
  · next b hb => exact hP hp hb (.invalidate b page.2 idx)

theorem trim (hP : TouchClosed P) {s : PageMapping} (hs : P s.pool) :
    (s.trim cfg req).Sat (fun s' => P s'.pool) Fault.Plain := by
  rw [PageMapping.trim]
  split
  · exact hs
  · exact (hP.invalidateMapping (by simp) _ hs).bind fun p hp => hp

theorem formatEntry (hP : TouchClosed P) {range : LPNRange} (acc : PageMapping × List Nat)
    (entry : Nat × List (Nat × Nat)) (hs : P acc.1.pool) :
    (PageMapping.formatEntry cfg range acc entry).Sat (fun r => P r.1.pool) Fault.Plain := by
  rw [PageMapping.formatEntry]
  split
  · exact (hP.invalidateMapping (by simp) _ hs).bind fun p hp => hp
  · exact hs

theorem undoCached (hP : TouchClosed P) {lpn : Nat} {s : PageMapping} (hs : P s.pool) :
    (s.undoCached cfg lpn).Sat (fun s' => P s'.pool) Fault.Plain := by
  rw [PageMapping.undoCached]
  split
  · exact hs
  · next vec _ =>
    refine Except.Sat.bind (Q := P) (Run.foldlM_sat (fun p idx hp => ?_) hs) fun p hp => hp
    refine (mapping_vec vec idx).bind fun page _ => ?_
    split
    · split
      · exact hp
      · next b hb => exact (b.deCache_sat page.2).bind fun b' hb' => hP hp hb hb'
    · exact hp

end TouchClosed

/-- A fault of neither kind is foreign. -/
theorem Fault.Plain.sat_foreign {α : Type} {x : Except Fault α} {Q : α → Prop}
    (h : x.Sat Q Fault.Plain) : x.Sat Q Fault.Foreign :=
  h.mono (fun _ h => h) fun _ he => he.1.1

theorem Fault.Plain.sat_inner {α : Type} {x : Except Fault α} {Q : α → Prop}
    (h : x.Sat Q Fault.Plain) : x.Sat Q Fault.Inner :=
  h.mono (fun _ h => h) fun _ he => he.1

theorem Fault.Inner.sat_foreign {α : Type} {x : Except Fault α} {Q : α → Prop}
    (h : x.Sat Q Fault.Inner) : x.Sat Q Fault.Foreign :=
  h.mono (fun _ h => h) fun _ he => he.1

/-- The program loop also programs. -/
theorem AccessClosed.programUnit {cfg : Config} {env : Env} {w : World} {P : BlockPool → Prop}
    {req : Request} (hP : AccessClosed P) {sendToPAL : Bool} {mappingList : Option Nat}
    {blk : Nat} (acc : PageMapping.WriteLocals × PageMapping) (idx : Nat) (hs : P acc.2.pool) :
    (PageMapping.programUnit cfg env w req sendToPAL mappingList blk acc idx).Sat
      (fun r => P r.2.pool) Fault.Foreign := by
  obtain ⟨locals, s⟩ := acc
  rw [PageMapping.programUnit]
  simp only
  split
  · split
    · simp [Fault.Foreign]
    · next b hb =>
      have hvec : (s.mappingVector mappingList).Sat (fun _ => True) Fault.Foreign := by
        unfold PageMapping.mappingVector
        split
        · simp [Fault.Foreign]
        · split <;> simp [Fault.Foreign]
      refine hvec.bind fun kv _ => ?_
      refine (Fault.Plain.sat_foreign (TouchClosed.mapping_vec kv.2 idx)).bind fun old _ => ?_
      refine (Fault.Inner.sat_foreign (b.write_sat _ _ _)).bind fun b' hb' => ?_
      have hp : P (s.pool.putBlock blk b') := hP hs hb hb'
      cases sendToPAL with
      | true =>
        obtain ⟨events, hold, -⟩ := PageMapping.readOldUnits_eq cfg req old
          { s with pool := s.pool.putBlock blk b' }
        simpa [hold] using hp
      | false => exact hp
  · exact hs

/-- So does the copy loop of a collection. -/
theorem AccessClosed.copyUnit {cfg : Config} {P : BlockPool → Prop} (hP : AccessClosed P)
    {victim pageIndex blk : Nat} {lpns : List Nat} {bit : Bitset} {relocateCmt : Bool}
    (acc : PageMapping.GcLocals × PageMapping) (idx : Nat) (hs : P acc.2.pool) :
    (PageMapping.copyUnit cfg victim pageIndex blk lpns bit relocateCmt acc idx).Sat
      (fun r => P r.2.pool ∧ r.1.eraseRequests = acc.1.eraseRequests) Fault.Inner := by
  obtain ⟨locals, s⟩ := acc
  rw [PageMapping.copyUnit]
  simp only
  split
  · refine (Fault.Plain.sat_inner (hP.touch.onBlock
      (f := fun b => .ok (b.invalidate pageIndex idx))
      (fun b => .invalidate b pageIndex idx) hs)).bind fun p hp => ?_
    split
    · simp
    · split
      · simp
      · next vec _ =>
        refine (Fault.Plain.sat_inner (TouchClosed.mapping_vec vec idx)).bind fun _ _ => ?_
        split
        · simp
        · next b hb =>
          exact (b.write_sat _ _ _).bind fun b' hb' => ⟨hP hp hb hb', rfl⟩
  · exact ⟨hs, rfl⟩

/-! ### The invariant rule for the pool -/

section Rule

variable (cfg : Config) (env : Env) (Alloc : BlockPool → Bitset → Prop) (Inv : BlockPool → Prop)
  (E : Fault → Prop)

/-- `Inv` survives the program path of a write that meets `Alloc`, which stops with
faults of `E`. -/
structure ProgramRule : Prop where
  programPage : ∀ {w : World} {req : Request} {sendToPAL : Bool} {s : PageMapping},
    Inv s.pool → Alloc s.pool req.ioFlag →
      (s.programPage cfg env w req sendToPAL).Sat (fun s' => Inv s'.pool) E
  plain : ∀ {e : Fault}, e.Plain → E e

/-- `Scan`, of the locals and the state of a collection, survives the scan of a page. -/
structure ScanRule (Scan : PageMapping.GcLocals × PageMapping → Prop) : Prop where
  copyPage : ∀ {victim pageIndex : Nat} {lpns : List Nat} {bit : Bitset} {relocateCmt : Bool}
    (acc : PageMapping.GcLocals × PageMapping), Scan acc → Alloc acc.2.pool bit →
      (PageMapping.copyPage cfg env victim pageIndex lpns bit relocateCmt acc).Sat Scan E
  locals : ∀ {locals locals' : PageMapping.GcLocals} {s : PageMapping}, Scan (locals, s) →
    locals'.eraseRequests = locals.eraseRequests → Scan (locals', s)
  plain : ∀ {e : Fault}, e.Plain → E e

/-- `Inv` also survives what reads, trims and a collection do to the pool. -/
structure CallRule : Prop extends ProgramRule cfg env Alloc Inv E where
  invalid : E (.panic "doGarbageCollection" "Invalid block")
  touch : TouchClosed Inv
  copyPage : ∀ {victim pageIndex : Nat} {lpns : List Nat} {bit : Bitset} {relocateCmt : Bool}
    (acc : PageMapping.GcLocals × PageMapping), Inv acc.2.pool → Alloc acc.2.pool bit →
      (PageMapping.copyPage cfg env victim pageIndex lpns bit relocateCmt acc).Sat
        (fun r => Inv r.2.pool) E
  erase : ∀ {p : BlockPool} {k : Nat}, Inv p →
    (BlockPool.eraseBlock cfg { p with erasedBlockId := p.erasedBlockId ++ [k] } k).Sat Inv E
  select : ∀ {p : BlockPool}, Inv p → Inv { p with bReclaimMore := false }

/-- `Inv` survives accesses and the allocations that meet `Alloc`. What these
stop with lies in `E`, as does every fault from outside `getFreeBlock`. -/
structure ProgramInvariant : Prop where
  access : AccessClosed Inv
  alloc_access : ∀ iomap, AccessClosed fun p => Inv p ∧ Alloc p iomap
  allocate : ∀ {p : BlockPool} {iomap : Bitset},
    Inv p → Alloc p iomap → (p.getLastFreeBlock cfg env iomap).Sat (fun r => Inv r.2) E
  fault : ∀ {e : Fault}, e.Foreign → E e

/-- `Inv` also survives what a collection does to the pool. -/
structure PoolInvariant : Prop extends ProgramInvariant cfg env Alloc Inv E where
  erase : ∀ {p : BlockPool} {k : Nat}, Inv p →
    (BlockPool.eraseBlock cfg { p with erasedBlockId := p.erasedBlockId ++ [k] } k).Sat Inv E
  select : ∀ {p : BlockPool}, Inv p → Inv { p with bReclaimMore := false }

/-- `Alloc` holds wherever a call allocates: before the program path of a write
and before the scan of a page that is copied. -/
@[reducible] def AllocConditions : StepConditions where
  write := fun _ req s => Alloc s.pool req.ioFlag
  scan := fun w victim acc pageIndex =>
    ∀ b ∈ acc.2.pool.blocks.find? victim, b.Copies cfg w pageIndex →
      Alloc acc.2.pool (Bitset.new cfg.ioUnitInPage).setAll
  trim := fun _ _ => True
  format := fun _ _ => True

end Rule

section RuleProof

variable {cfg : Config} {env : Env} {Alloc : BlockPool → Bitset → Prop} {Inv : BlockPool → Prop}
  {E : Fault → Prop}

/-- A constructed device, warmed up or not, has the invariant when the
constructor establishes it and it entails the condition on allocations. The
warm-up is a run of program paths: it stops before it would collect. -/
theorem ProgramRule.start (hI : ProgramRule cfg env Alloc Inv E)
    (hA : ∀ {p : BlockPool} {iomap : Bitset}, Inv p → Alloc p iomap)
    (hinit : (BlockPool.init cfg env).Sat Inv E) (warmUp : Option World) :
    (PageMapping.start cfg env warmUp).Sat (fun s => Inv s.pool) E := by
  have hinit' : (PageMapping.init cfg env).Sat (fun s => Inv s.pool) E := hinit.bind fun _ hp => hp
  cases warmUp with
  | none => exact hinit'
  | some w =>
    refine hinit'.bind fun s hs => Run.foldlM_sat (fun s lpn hs => ?_) hs
    refine (hI.programPage hs (hA hs)).bind fun s₁ hs₁ => ?_
    rw [PageMapping.collectIfNeeded]
    split
    · exact hI.plain (by simp)
    · exact hs₁

/-! ### The scan of a page -/

namespace ScanRule

variable {Scan : PageMapping.GcLocals × PageMapping → Prop} (hI : ScanRule cfg env Alloc E Scan)
include hI

theorem of_plain {α : Type} {x : Except Fault α} {Q : α → Prop} (h : x.Sat Q Fault.Plain) :
    x.Sat Q E :=
  h.mono (fun _ h => h) (fun _ => hI.plain)

theorem reclaimPage {w : World} {victim : Nat} (hmode : cfg.evictPolicy ≠ .cachedGC)
    (acc : PageMapping.GcLocals × PageMapping) (pageIndex : Nat) (hs : Scan acc)
    (ha : (AllocConditions cfg Alloc).scan w victim acc pageIndex) :
    (PageMapping.reclaimPage cfg env victim acc pageIndex).Sat Scan E := by
  obtain ⟨locals, s⟩ := acc
  rw [PageMapping.reclaimPage]
  split
  · exact hI.plain (by simp)
  · next b hb =>
    refine (hI.of_plain (b.getPageInfo_sat pageIndex _)).bind fun r hr => ?_
    simp only
    split
    · refine (hI.of_plain (b.isPageValid_sat pageIndex)).bind fun v hv => ?_
      split
      · next hvalid =>
        obtain ⟨-, hr⟩ := hr hv.1
        have hcopy : b.Copies cfg w pageIndex :=
          ⟨by rw [hv.2] at hvalid; exact of_decide_eq_true hvalid, fun h => absurd h hmode⟩
        refine hI.copyPage _ (hI.locals hs rfl) ?_
        rw [hr]
        split <;> exact ha b hb hcopy
      · exact hI.locals hs rfl
    · exact hI.locals hs rfl

theorem reclaimCachedPage {w : World} {victim : Nat}
    (acc : PageMapping.GcLocals × PageMapping) (pageIndex : Nat) (hs : Scan acc)
    (ha : (AllocConditions cfg Alloc).scan w victim acc pageIndex) :
    (PageMapping.reclaimCachedPage cfg env w victim acc pageIndex).Sat Scan E := by
  obtain ⟨locals, s⟩ := acc
  rw [PageMapping.reclaimCachedPage]
  split
  · exact hI.plain (by simp)
  · next b hb =>
    refine (hI.of_plain (b.isCached_sat pageIndex)).bind fun c hc => ?_
    split
    · split
      · exact hI.plain (by simp)
      · exact hI.locals hs rfl
    · next hcached =>
      refine (hI.of_plain (b.isPageValid_sat pageIndex)).bind fun v hv => ?_
      split
      · next hvalid =>
        refine (hI.of_plain (b.getPageInfo_sat pageIndex _)).bind fun r hr => ?_
        obtain ⟨-, hr⟩ := hr hv.1
        simp only [hr]
        split
        · simp only [List.getElem?_cons_zero]
          split
          · next hmove =>
            split
            · next hfreq =>
              have hcopy : b.Copies cfg w pageIndex := by
                refine ⟨?_, fun _ => ⟨?_, hmove, hfreq⟩⟩
                · rw [hv.2] at hvalid
                  exact of_decide_eq_true hvalid
                · rw [hc.2] at hcached
                  simpa using hcached
              refine hI.copyPage _ (hI.locals hs rfl) ?_
              split <;> exact ha b hb hcopy
            · exact hI.locals hs rfl
          · exact hI.locals hs rfl
        · exact hI.locals hs rfl
      · exact hI.locals hs rfl

theorem scanPage {w : World} {victim : Nat} (acc : PageMapping.GcLocals × PageMapping)
    (pageIndex : Nat) (hs : Scan acc)
    (ha : (AllocConditions cfg Alloc).scan w victim acc pageIndex) :
    (PageMapping.scanPage cfg env w victim acc pageIndex).Sat Scan E := by
  rw [PageMapping.scanPage]
  split
  · exact hI.reclaimCachedPage acc pageIndex hs ha
  · next hmode => exact hI.reclaimPage hmode acc pageIndex hs ha

end ScanRule

namespace CallRule

variable (hI : CallRule cfg env Alloc Inv E)
include hI

theorem of_plain {α : Type} {x : Except Fault α} {Q : α → Prop} (h : x.Sat Q Fault.Plain) :
    x.Sat Q E :=
  h.mono (fun _ h => h) (fun _ => hI.plain)

theorem scan : ScanRule cfg env Alloc E fun acc => Inv acc.2.pool where
  copyPage := hI.copyPage
  locals := fun h _ => h
  plain := hI.plain

theorem eraseInternal (s : PageMapping) (req : PAL.Request) (hs : Inv s.pool) :
    (PageMapping.eraseInternal cfg s req).Sat (fun s' => Inv s'.pool) E :=
  (hI.erase hs).bind fun _ hp => hp

theorem finishCollection (locals : PageMapping.GcLocals) {s : PageMapping} (hs : Inv s.pool) :
    (PageMapping.finishCollection cfg locals s).Sat (fun s' => Inv s'.pool) E := by
  simp only [PageMapping.finishCollection, PageMapping.foldl_log]
  exact Run.foldlM_sat (fun s r hs => hI.eraseInternal s r hs) hs

theorem finishCachedCollection (locals : PageMapping.GcLocals) {s : PageMapping}
    (hs : Inv s.pool) :
    (PageMapping.finishCachedCollection cfg locals s).Sat (fun s' => Inv s'.pool) E := by
  obtain ⟨trace, hdirty⟩ := PageMapping.foldl_markDirty locals.cachedValidLPN s
  simp only [PageMapping.finishCachedCollection, PageMapping.foldl_log, hdirty]
  refine Except.Sat.bind (Q := fun s => Inv s.pool) ?_ fun s hs => ?_
  · refine Run.foldlM_sat (fun s r hs => hI.eraseInternal s r hs) ?_
    split <;> exact hs
  · obtain ⟨trace', hmove⟩ := PageMapping.foldl_handToCache
      (if cfg.blockToBlockMovement then locals.lpnListForCache else locals.lpa_list) s
    rw [hmove]
    exact hs

/-- A collection keeps the invariant when the allocations of its copies meet
their condition. -/
theorem doGarbageCollection {w : World} {victims : List Nat} {s : PageMapping} (hs : Inv s.pool)
    (ha : s.Scans cfg env (AllocConditions cfg Alloc).scan w victims) :
    (PageMapping.doGarbageCollection cfg env w victims s).Sat (fun s' => Inv s'.pool) E := by
  rw [PageMapping.doGarbageCollection]
  split
  · exact hs
  · next hlim =>
    split
    · exact hs
    · refine Except.Sat.bind (Q := fun acc => Inv acc.2.pool) ?_ fun (locals, s) hacc => ?_
      · refine (ha hlim).sat (fun acc victim hacc hpages => ?_) hs
        rw [PageMapping.scanVictim]
        split
        · exact hI.invalid
        · exact (hpages.sat (fun acc page hacc hp => hI.scan.scanPage acc page hacc hp) hacc).bind
            fun r hr => hr
      · simp only
        split
        · exact hI.finishCachedCollection locals hacc
        · exact hI.finishCollection locals hacc

theorem write {w : World} {req : Request} {s : PageMapping} (hs : Inv s.pool)
    (ha : 0 < req.ioFlag.count → Alloc s.pool req.ioFlag ∧
      (s.programPage cfg env w req true).All fun s₁ =>
        s₁.pool.freeBlockRatio cfg < cfg.gcThreshold →
          (s₁.selectVictimBlock cfg env).All fun r =>
            r.2.Scans cfg env (AllocConditions cfg Alloc).scan w r.1) :
    (s.write cfg env w req).Sat (fun s' => Inv s'.pool) E := by
  rw [PageMapping.write]
  split
  · next hcount =>
    obtain ⟨halloc, hgc⟩ := ha hcount
    have hprog : (s.programPage cfg env w req true).Sat (fun s' => Inv s'.pool) E :=
      hI.programPage hs halloc
    refine hprog.with_eq.bind fun s₁ ⟨hs₁, h₁⟩ => ?_
    rw [PageMapping.collectIfNeeded]
    split
    · next hratio =>
      rw [if_pos rfl]
      refine (hI.of_plain (s₁.selectVictimBlock_sat cfg env)).with_eq.bind fun r ⟨hr, h₂⟩ => ?_
      refine hI.doGarbageCollection ?_ ((hgc.of_ok h₁ hratio).of_ok h₂)
      rw [hr.1]
      exact hI.select hs₁
    · exact hs₁
  · exact hs

theorem format {w : World} {range : LPNRange} {s : PageMapping} (hs : Inv s.pool)
    (ha : (s.table.entries.foldlM (PageMapping.formatEntry cfg range) (s, [])).All fun r =>
      r.1.Scans cfg env (AllocConditions cfg Alloc).scan w (r.2.insertionSort (· ≤ ·)).dedup) :
    (s.format cfg env w range).Sat (fun s' => Inv s'.pool) E := by
  have hentries : (s.table.entries.foldlM (PageMapping.formatEntry cfg range) (s, [])).Sat
      (fun r => Inv r.1.pool) E :=
    hI.of_plain (Run.foldlM_sat (fun acc entry hacc => hI.touch.formatEntry acc entry hacc) hs)
  exact hentries.with_eq.bind fun r ⟨hr, h⟩ => hI.doGarbageCollection hr (ha.of_ok h)

/-- One call keeps an invariant of the pool when its allocations meet their
condition, and stops only with the faults that the invariant allows. -/
theorem exec {s : PageMapping} {call : World × Op} (hs : Inv s.pool)
    (ha : Op.Meets cfg env (AllocConditions cfg Alloc) s call) :
    (Op.exec cfg env s call).Sat (fun s' => Inv s'.pool) E := by
  obtain ⟨w, op⟩ := call
  cases op with
  | read req =>
    show (PageMapping.read cfg env w req (s.log .request)).Sat _ _
    rw [PageMapping.read]
    split
    · exact hI.of_plain (hI.touch.readInternal hs)
    · exact hs
  | write req => exact hI.write hs ha
  | trim req => exact hI.of_plain (hI.touch.trim hs)
  | format range => exact hI.format hs ha.2
  | undoCached lpn => exact hI.of_plain (hI.touch.undoCached hs)

/-- The invariant rule: a run of calls whose allocations meet their condition. -/
theorem run {s : PageMapping} {calls : List (World × Op)} (hs : Inv s.pool)
    (ha : Run.Along (Op.exec cfg env) (Op.Meets cfg env (AllocConditions cfg Alloc)) s calls) :
    (FTL.run cfg env s calls).Sat (fun s' => Inv s'.pool) E :=
  ha.sat (fun _ _ hs ha => hI.exec hs ha) hs

/-- The invariant rule when allocations are not conditioned. -/
theorem run_all (hA : ∀ p iomap, Alloc p iomap) {s : PageMapping} {calls : List (World × Op)}
    (hs : Inv s.pool) : (FTL.run cfg env s calls).Sat (fun s' => Inv s'.pool) E :=
  hI.run hs (Run.Along.of_forall (fun s call => Op.meets_of_forall cfg env (fun _ _ _ => hA _ _)
    (fun _ _ _ _ _ _ _ => hA _ _) (fun _ _ => trivial) (fun _ _ => trivial) s call) _ _)

end CallRule

/-! ### Invariants that accesses keep

For these, the program path of a write and the copy of a page need not be looked into. -/

namespace ProgramInvariant

variable (hI : ProgramInvariant cfg env Alloc Inv E)
include hI

theorem foreign {α : Type} {x : Except Fault α} {Q : α → Prop} (h : x.Sat Q Fault.Foreign) :
    x.Sat Q E :=
  h.mono (fun _ h => h) (fun _ => hI.fault)

/-- The program path keeps the invariant: accesses up to `getLastFreeBlock`,
whose condition they keep, and accesses after it. -/
theorem programPage {w : World} {req : Request} {sendToPAL : Bool} {s : PageMapping}
    (hs : Inv s.pool) (ha : Alloc s.pool req.ioFlag) :
    (s.programPage cfg env w req sendToPAL).Sat (fun s' => Inv s'.pool) E := by
  have hlook : (s.lookupForWrite cfg env req sendToPAL).Sat
      (fun r => Inv r.2.2.pool ∧ Alloc r.2.2.pool req.ioFlag) Fault.Foreign :=
    Fault.Plain.sat_foreign ((hI.alloc_access req.ioFlag).touch.lookupForWrite ⟨hs, ha⟩)
  refine (hI.foreign hlook).bind fun r hr => ?_
  refine (hI.allocate hr.1 hr.2).bind fun q hq => ?_
  simp only
  split
  · exact hI.fault (by simp)
  · refine Except.Sat.bind (Q := fun acc => Inv acc.2.pool) ?_
      fun acc (hacc : Inv acc.2.pool) => hacc
    refine hI.foreign (Run.foldlM_sat (fun acc idx hacc => hI.access.programUnit acc idx hacc) ?_)
    show Inv (if sendToPAL then _ else _ : PageMapping).pool
    split <;> exact hq

theorem rule : ProgramRule cfg env Alloc Inv E where
  programPage := hI.programPage
  plain := fun he => hI.fault he.1.1

theorem start (hA : ∀ {p : BlockPool} {iomap : Bitset}, Inv p → Alloc p iomap)
    (hinit : (BlockPool.init cfg env).Sat Inv E) (warmUp : Option World) :
    (PageMapping.start cfg env warmUp).Sat (fun s => Inv s.pool) E :=
  hI.rule.start hA hinit warmUp

end ProgramInvariant

namespace PoolInvariant

variable (hI : PoolInvariant cfg env Alloc Inv E)
include hI

theorem copyPage {victim pageIndex : Nat} {lpns : List Nat} {bit : Bitset} {relocateCmt : Bool}
    (acc : PageMapping.GcLocals × PageMapping) (hs : Inv acc.2.pool) (ha : Alloc acc.2.pool bit) :
    (PageMapping.copyPage cfg env victim pageIndex lpns bit relocateCmt acc).Sat
      (fun r => Inv r.2.pool) E := by
  refine (hI.allocate hs ha).bind fun q hq => ?_
  refine hI.foreign (Fault.Inner.sat_foreign (Run.foldlM_sat (fun acc idx hacc => ?_) hq))
  exact (hI.access.copyUnit acc idx hacc).mono (fun _ h => h.1) fun _ he => he

theorem calls : CallRule cfg env Alloc Inv E where
  toProgramRule := hI.toProgramInvariant.rule
  invalid := hI.fault (by simp)
  touch := hI.access.touch
  copyPage := hI.copyPage
  erase := hI.erase
  select := hI.select

theorem reclaimCachedPage {w : World} {victim : Nat}
    (acc : PageMapping.GcLocals × PageMapping) (pageIndex : Nat) (hs : Inv acc.2.pool)
    (ha : (AllocConditions cfg Alloc).scan w victim acc pageIndex) :
    (PageMapping.reclaimCachedPage cfg env w victim acc pageIndex).Sat
      (fun r => Inv r.2.pool) E :=
  hI.calls.scan.reclaimCachedPage acc pageIndex hs ha

theorem scanPage {w : World} {victim : Nat} (acc : PageMapping.GcLocals × PageMapping)
    (pageIndex : Nat) (hs : Inv acc.2.pool)
    (ha : (AllocConditions cfg Alloc).scan w victim acc pageIndex) :
    (PageMapping.scanPage cfg env w victim acc pageIndex).Sat (fun r => Inv r.2.pool) E :=
  hI.calls.scan.scanPage acc pageIndex hs ha

theorem doGarbageCollection {w : World} {victims : List Nat} {s : PageMapping} (hs : Inv s.pool)
    (ha : s.Scans cfg env (AllocConditions cfg Alloc).scan w victims) :
    (PageMapping.doGarbageCollection cfg env w victims s).Sat (fun s' => Inv s'.pool) E :=
  hI.calls.doGarbageCollection hs ha

theorem run {s : PageMapping} {calls : List (World × Op)} (hs : Inv s.pool)
    (ha : Run.Along (Op.exec cfg env) (Op.Meets cfg env (AllocConditions cfg Alloc)) s calls) :
    (FTL.run cfg env s calls).Sat (fun s' => Inv s'.pool) E :=
  hI.calls.run hs ha

theorem run_all (hA : ∀ p iomap, Alloc p iomap) {s : PageMapping} {calls : List (World × Op)}
    (hs : Inv s.pool) : (FTL.run cfg env s calls).Sat (fun s' => Inv s'.pool) E :=
  hI.calls.run_all hA hs

end PoolInvariant

end RuleProof

end FTL

end SimpleSSD
