import Mathlib.Data.Multiset.Range
import Mathlib.Data.Multiset.UnionInter
import SimpleSSD.FTL.Steps

/-!
# The block pool is a partition of the device

`Partitioned` counts the blocks in use, free and retired together: the census of
their indices is exactly `0, …, totalPhysicalBlocks - 1`, each once. A block
moves between the three in `getFreeBlock` and `eraseInternal` only; `Takes` and
`eraseBlock_spec` say what these two do, and the census is blind to both.

The panic "Corrupted" of `getFreeBlock` would need a free block whose index is
also a key of `blocks`, which the census rules out.
-/

namespace SimpleSSD.FTL

namespace BlockPool

/-- The indices of all blocks, wherever they lie, with multiplicity. -/
def census (p : BlockPool) : Multiset Nat :=
  (p.blocks.entries.map fun e => e.2.idx : Multiset Nat) +
    (p.freeBlocks.map Block.idx : Multiset Nat) + (p.retired.map Block.idx : Multiset Nat)

/-- Every physical block number is the index of exactly one block, which is in
use, free or retired; blocks in use are keyed by their index; the counter agrees
with the free list; and a retired block has reached the bad-block threshold. -/
structure Partitioned (cfg : Config) (p : BlockPool) : Prop where
  census : p.census = Multiset.range cfg.totalPhysicalBlocks
  key_idx : ∀ k b, p.blocks.find? k = some b → b.idx = k
  count : p.nFreeBlocks = p.freeBlocks.length
  worn : ∀ b ∈ p.retired, cfg.badBlockThreshold ≤ b.eraseCount

section Partition

variable {cfg : Config} {env : Env} {p p' : BlockPool}

/-- No free block has the index of a block in use. -/
theorem Partitioned.free_fresh (hp : p.Partitioned cfg) {b : Block} (hb : b ∈ p.freeBlocks) :
    b.idx ∉ p.blocks := by
  intro hmem
  obtain ⟨b', hb'⟩ := UnorderedMap.mem_iff_find?.mp hmem
  have hnd : p.census.Nodup := hp.census ▸ Multiset.nodup_range _
  have hdisj := (Multiset.nodup_add.mp (Multiset.nodup_add.mp hnd).1).2.2
  refine Multiset.disjoint_left.mp hdisj ?_ (List.mem_map_of_mem hb)
  rw [← hp.key_idx _ _ hb']
  exact List.mem_map.mpr ⟨_, UnorderedMap.find?_eq_some_iff.mp hb', rfl⟩

/-- The blocks in use are blocks of the device. -/
theorem Partitioned.lt_of_mem (hp : p.Partitioned cfg) {k : Nat} (hk : k ∈ p.blocks) :
    k < cfg.totalPhysicalBlocks := by
  obtain ⟨b, hb⟩ := UnorderedMap.mem_iff_find?.mp hk
  have hmem : b.idx ∈ p.census := by
    refine Multiset.mem_add.mpr (.inl (Multiset.mem_add.mpr (.inl ?_)))
    exact List.mem_map.mpr ⟨_, UnorderedMap.find?_eq_some_iff.mp hb, rfl⟩
  rwa [hp.census, Multiset.mem_range, hp.key_idx _ _ hb] at hmem

/-- A block is taken into use from the blocks of the device. -/
theorem Partitioned.lt_of_takes (hp : p.Partitioned cfg) {b : Block} (ht : p.Takes p' b) :
    b.idx < cfg.totalPhysicalBlocks := by
  have hmem : b.idx ∈ p.census := by
    refine Multiset.mem_add.mpr (.inl (Multiset.mem_add.mpr (.inr ?_)))
    exact List.mem_map_of_mem (ht.free.mem_iff.mpr List.mem_cons_self)
  rwa [hp.census, Multiset.mem_range] at hmem

theorem Partitioned.access : AccessClosed (Partitioned cfg) := by
  intro p k b b' hp hb ha
  refine ⟨?_, fun k' c hc => ?_, hp.count, hp.worn⟩
  · rw [← hp.census]
    unfold BlockPool.census
    rw [putBlock]
    simp only
    rw [UnorderedMap.map_set 0 (fun e => e.2.idx) hb ha.idx_eq]
  · rw [putBlock, UnorderedMap.find?_set] at hc
    split at hc
    · next hk =>
      cases hc
      rw [ha.idx_eq, hk]
      exact hp.key_idx _ _ hb
    · exact hp.key_idx _ _ hc

theorem Partitioned.takes {b : Block} (hp : p.Partitioned cfg) (ht : p.Takes p' b) :
    p'.Partitioned cfg := by
  refine ⟨?_, fun k c hc => ?_, ?_, ht.retired ▸ hp.worn⟩
  · rw [← hp.census]
    have hused : ((p'.blocks.entries.map fun e => e.2.idx : List Nat) : Multiset Nat) =
        b.idx ::ₘ (p.blocks.entries.map fun e => e.2.idx : List Nat) :=
      Multiset.coe_eq_coe.mpr (ht.used.map fun e => e.2.idx)
    have hfree : ((p.freeBlocks.map Block.idx : List Nat) : Multiset Nat) =
        b.idx ::ₘ (p'.freeBlocks.map Block.idx : List Nat) :=
      Multiset.coe_eq_coe.mpr (ht.free.map Block.idx)
    unfold BlockPool.census
    rw [hused, hfree, ht.retired, Multiset.cons_add, Multiset.add_cons]
  · rw [ht.find?] at hc
    split at hc
    · next hk => cases hc; exact hk.symm
    · exact hp.key_idx _ _ hc
  · have hlen := ht.free.length_eq
    rw [List.length_cons] at hlen
    rw [ht.count, hp.count]
    omega

/-- Only the blocks, the free list, its counter and the retired blocks matter. -/
theorem Partitioned.congr (hp : p.Partitioned cfg) (hb : p'.blocks = p.blocks)
    (hf : p'.freeBlocks = p.freeBlocks) (hn : p'.nFreeBlocks = p.nFreeBlocks)
    (hr : p'.retired = p.retired) : p'.Partitioned cfg := by
  refine ⟨?_, ?_, ?_, hr ▸ hp.worn⟩
  · rw [← hp.census, BlockPool.census, BlockPool.census, hb, hf, hr]
  · rw [hb]
    exact hp.key_idx
  · rw [hn, hf]
    exact hp.count

theorem Partitioned.erase {k : Nat} (hp : p.Partitioned cfg) (h : eraseBlock cfg p k = .ok p') :
    p'.Partitioned cfg := by
  obtain ⟨b, hb, hblocks, -, -, -, hmove⟩ := eraseBlock_spec h
  have hidx : b.erase.idx = b.idx := rfl
  have hused : ((p.blocks.entries.map fun e => e.2.idx : List Nat) : Multiset Nat) =
      b.idx ::ₘ (p'.blocks.entries.map fun e => e.2.idx : List Nat) := by
    rw [hblocks]
    exact Multiset.coe_eq_coe.mpr ((UnorderedMap.erase_perm hb).map fun e => e.2.idx)
  refine ⟨?_, fun k' c hc => ?_, ?_, fun c hc => (eraseBlock_retired h c hc).elim (hp.worn c) id⟩
  · rw [← hp.census]
    unfold BlockPool.census
    rw [hused]
    rcases hmove with ⟨hfree, -, hret⟩ | ⟨hfree, -, hret⟩
    · have hfree : ((p'.freeBlocks.map Block.idx : List Nat) : Multiset Nat) =
          b.idx ::ₘ (p.freeBlocks.map Block.idx : List Nat) :=
        Multiset.coe_eq_coe.mpr (hfree.map Block.idx)
      rw [hfree, hret, Multiset.cons_add, Multiset.add_cons]
    · have hret : ((p'.retired.map Block.idx : List Nat) : Multiset Nat) =
          b.idx ::ₘ (p.retired.map Block.idx : List Nat) := by
        rw [hret]
        rfl
      rw [hfree, hret, Multiset.cons_add, Multiset.cons_add, Multiset.add_cons]
  · rw [hblocks, UnorderedMap.find?_erase] at hc
    split at hc
    · cases hc
    · exact hp.key_idx _ _ hc
  · rcases hmove with ⟨hfree, hn, -⟩ | ⟨hfree, hn, -⟩
    · rw [hn, hp.count, hfree.length_eq, List.length_cons]
    · rw [hn, hp.count, hfree]

/-! ### The panic of `getFreeBlock` -/

/-- The panic of `getFreeBlock` on a free block whose index is in use. -/
def corrupted : Fault := .panic "getFreeBlock" "Corrupted"

theorem Partitioned.getFreeBlock (hp : p.Partitioned cfg) (i : Nat) :
    (p.getFreeBlock cfg env i).Sat (fun r => r.2.Partitioned cfg) (· ≠ corrupted) := by
  refine Except.sat_iff.mpr ⟨fun r hr => ?_, fun e he => ?_⟩
  · obtain ⟨b, -, ht, -⟩ := getFreeBlock_spec hr
    exact hp.takes ht
  · rw [BlockPool.getFreeBlock] at he
    split at he
    · cases he; simp [corrupted]
    · split at he
      · cases he; simp [corrupted]
      · simp only at he
        split at he
        · cases he; simp [corrupted]
        · next b hb =>
          rw [if_neg (hp.free_fresh (List.mem_of_getElem? hb))] at he
          cases he

theorem Partitioned.openBlock (hp : p.Partitioned cfg) :
    (p.openBlock cfg env).Sat (fun r => r.2.Partitioned cfg) (· ≠ corrupted) :=
  (hp.getFreeBlock _).bind fun _ hr => hr.congr rfl rfl rfl rfl

theorem lastFreeBlockAt_sat (p : BlockPool) (i : Nat) :
    (p.lastFreeBlockAt i).Sat (fun _ => True) (· ≠ corrupted) := by
  rw [lastFreeBlockAt]
  split <;> simp [corrupted]

theorem selectLane_sat (p : BlockPool) (iomap : Bitset) :
    (p.selectLane cfg iomap).Sat (fun _ => True) (· ≠ corrupted) := by
  refine Except.sat_iff.mpr ⟨fun _ _ => trivial, fun e he => ?_⟩
  rw [selectLane] at he
  split at he
  · rcases Except.bind_eq_error.mp he with he | ⟨common, -, he⟩
    · rw [Bitset.and] at he
      split at he <;> cases he
      simp [corrupted]
    · split at he
      · cases he
      · rcases Except.bind_eq_error.mp he with he | ⟨merged, -, he⟩
        · rw [Bitset.or] at he
          split at he <;> cases he
          simp [corrupted]
        · cases he
  · cases he

theorem Partitioned.getLastFreeBlock (hp : p.Partitioned cfg) (iomap : Bitset) :
    (p.getLastFreeBlock cfg env iomap).Sat (fun r => r.2.Partitioned cfg) (· ≠ corrupted) := by
  refine (p.selectLane_sat iomap).with_eq.bind fun p₁ ⟨_, h₁⟩ => ?_
  obtain ⟨i, m, rfl⟩ := selectLane_spec h₁
  have hp₁ : Partitioned cfg { p with lastFreeBlockIndex := i, lastFreeBlockIOMap := m } :=
    hp.congr rfl rfl rfl rfl
  refine Except.Sat.bind (Q := fun p₂ => p₂.Partitioned cfg) ?_ fun p₂ hp₂ => ?_
  · refine (lastFreeBlockAt_sat _ _).bind fun cur _ => ?_
    split
    · exact hp₁.openBlock.bind fun r hr => hr.congr rfl rfl rfl rfl
    · exact hp₁
  · refine (lastFreeBlockAt_sat _ _).bind fun cur _ => ?_
    split
    · simp [corrupted]
    · split
      · exact hp₂.openBlock.bind fun r hr => hr.congr rfl rfl rfl rfl
      · exact hp₂

/-- The partition is an invariant of the pool under every call, with no
condition on the calls. -/
theorem partitioned_invariant (cfg : Config) (env : Env) :
    PoolInvariant cfg env (fun _ _ => True) (Partitioned cfg) (· ≠ corrupted) where
  access := Partitioned.access
  alloc_access := fun _ _ _ _ _ hp hb ha => ⟨Partitioned.access hp.1 hb ha, trivial⟩
  allocate := fun hp _ => hp.getLastFreeBlock _
  fault := by
    rintro e he rfl
    exact he _ rfl
  erase := by
    intro p k hp
    have hp' : Partitioned cfg { p with erasedBlockId := p.erasedBlockId ++ [k] } :=
      hp.congr rfl rfl rfl rfl
    refine Except.sat_iff.mpr ⟨fun p' h => hp'.erase h, fun e he => ?_⟩
    rw [eraseBlock] at he
    split at he
    · cases he; simp [corrupted]
    · simp only at he
      split at he <;> cases he
  select := fun hp => hp.congr rfl rfl rfl rfl

/-! ### The constructor -/

theorem partitioned_fresh (cfg : Config) : (fresh cfg).Partitioned cfg := by
  refine ⟨?_, fun k b hb => ?_, ?_, ?_⟩
  · simp [BlockPool.census, fresh, UnorderedMap.empty, Function.comp_def, Multiset.range]
  · simp [fresh] at hb
  · simp [fresh]
  · simp [fresh]

theorem init_sat (cfg : Config) (env : Env) :
    (BlockPool.init cfg env).Sat (Partitioned cfg) (· ≠ corrupted) := by
  rw [BlockPool.init]
  split
  · simp [corrupted]
  · exact Run.foldlM_sat
      (fun p i hp => (hp.getFreeBlock i).bind fun r hr => hr.congr rfl rfl rfl rfl)
      (partitioned_fresh cfg)

end Partition

/-! ### The shape of the blocks -/

/-- Every block has the configured number of pages and units, and a free block
is as the constructor or an erase leaves it: nothing valid, every column at its
first page. -/
structure Formatted (cfg : Config) (p : BlockPool) : Prop where
  used : ∀ k b, p.blocks.find? k = some b →
    b.pageCount = cfg.pagesInBlock ∧ b.ioUnitInPage = cfg.ioUnitInPage
  free : ∀ b ∈ p.freeBlocks,
    b.pageCount = cfg.pagesInBlock ∧ b.ioUnitInPage = cfg.ioUnitInPage ∧
      b.validBits = ∅ ∧ ∀ i, b.pNextWritePageIndex i = 0

section Formatted

variable {cfg : Config} {env : Env} {p p' : BlockPool}

theorem Formatted.congr (hp : p.Formatted cfg) (hb : p'.blocks = p.blocks)
    (hf : p'.freeBlocks = p.freeBlocks) : p'.Formatted cfg := by
  refine ⟨?_, ?_⟩
  · rw [hb]
    exact hp.used
  · rw [hf]
    exact hp.free

theorem Formatted.access : AccessClosed (Formatted cfg) := by
  intro p k b b' hp hb ha
  refine ⟨fun k' c hc => ?_, hp.free⟩
  rw [putBlock, UnorderedMap.find?_set] at hc
  split at hc
  · cases hc
    rw [ha.geometry.1, ha.geometry.2]
    exact hp.used k b hb
  · exact hp.used k' c hc

theorem Formatted.takes {b : Block} (hp : p.Formatted cfg) (ht : p.Takes p' b) :
    p'.Formatted cfg := by
  have hb := hp.free b (ht.free.mem_iff.mpr List.mem_cons_self)
  refine ⟨fun k c hc => ?_, fun c hc => hp.free c (ht.free.mem_iff.mpr (List.mem_cons_of_mem _ hc))⟩
  rw [ht.find?] at hc
  split at hc
  · cases hc
    exact ⟨hb.1, hb.2.1⟩
  · exact hp.used k c hc

theorem Formatted.erase {k : Nat} (hp : p.Formatted cfg) (h : eraseBlock cfg p k = .ok p') :
    p'.Formatted cfg := by
  obtain ⟨b, hb, hblocks, -, -, -, hmove⟩ := eraseBlock_spec h
  refine ⟨fun k' c hc => ?_, fun c hc => ?_⟩
  · rw [hblocks, UnorderedMap.find?_erase] at hc
    split at hc
    · cases hc
    · exact hp.used k' c hc
  · rcases hmove with ⟨hfree, -⟩ | ⟨hfree, -⟩
    · rcases List.mem_cons.mp (hfree.mem_iff.mp hc) with rfl | hc
      · exact ⟨(hp.used k b hb).1, (hp.used k b hb).2, rfl, fun _ => rfl⟩
      · exact hp.free c hc
    · exact hp.free c (hfree ▸ hc)

theorem formatted_invariant (cfg : Config) (env : Env) :
    PoolInvariant cfg env (fun _ _ => True) (Formatted cfg) (fun _ => True) where
  access := Formatted.access
  alloc_access := fun _ _ _ _ _ hp hb ha => ⟨Formatted.access hp.1 hb ha, trivial⟩
  allocate := fun hp _ => Except.sat_iff.mpr ⟨fun _ h =>
    getLastFreeBlock_rule (fun hp => hp.congr rfl rfl) Formatted.takes hp h, fun _ _ => trivial⟩
  fault := fun _ => trivial
  erase := by
    intro p k hp
    have hp' : Formatted cfg { p with erasedBlockId := p.erasedBlockId ++ [k] } := hp.congr rfl rfl
    exact Except.sat_iff.mpr ⟨fun p' h => hp'.erase h, fun _ _ => trivial⟩
  select := fun hp => hp.congr rfl rfl

theorem formatted_fresh (cfg : Config) : (fresh cfg).Formatted cfg := by
  refine ⟨fun k b hb => ?_, fun b hb => ?_⟩
  · simp [fresh] at hb
  · obtain ⟨i, -, rfl⟩ := List.mem_map.mp hb
    exact ⟨rfl, rfl, rfl, fun _ => rfl⟩

end Formatted

end BlockPool

section Reachable

variable {cfg : Config} {env : Env}

theorem start_partitioned (warmUp : Option World) :
    (PageMapping.start cfg env warmUp).Sat (fun s => s.pool.Partitioned cfg)
      (· ≠ BlockPool.corrupted) :=
  (BlockPool.partitioned_invariant cfg env).start (fun _ => trivial) (BlockPool.init_sat cfg env)
    warmUp

theorem start_formatted (warmUp : Option World) :
    (PageMapping.start cfg env warmUp).Sat (fun s => s.pool.Formatted cfg) fun _ => True :=
  (BlockPool.formatted_invariant cfg env).start (fun _ => trivial)
    (Except.sat_iff.mpr ⟨fun _ h => BlockPool.init_rule (BlockPool.formatted_fresh cfg)
      BlockPool.Formatted.takes h, fun _ _ => trivial⟩) warmUp

/-- From a device that was constructed, and then warmed up or not, every
sequence of calls leaves the blocks partitioned between the three places, and
none stops with the panic "Corrupted". -/
theorem pool_partition (cfg : Config) (env : Env) (warmUp : Option World)
    (calls : List (World × Op)) :
    (PageMapping.start cfg env warmUp >>= fun s => run cfg env s calls).Sat
      (fun s => s.pool.Partitioned cfg) (· ≠ BlockPool.corrupted) := by
  refine (start_partitioned warmUp).bind fun s hs => ?_
  exact (BlockPool.partitioned_invariant cfg env).run_all (fun _ _ => trivial) hs

theorem run_formatted {warmUp : Option World} {calls : List (World × Op)} {s₀ s : PageMapping}
    (hstart : PageMapping.start cfg env warmUp = .ok s₀) (hrun : run cfg env s₀ calls = .ok s) :
    s.pool.Formatted cfg :=
  ((BlockPool.formatted_invariant cfg env).run_all (fun _ _ => trivial)
    ((start_formatted warmUp).of_ok hstart)).of_ok hrun

end Reachable

end SimpleSSD.FTL
