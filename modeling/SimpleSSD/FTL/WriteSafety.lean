import SimpleSSD.FTL.Partition

/-!
# Every program finds its page erased

The FTL programs a block at `getNextWritePageIndex(idx)` only, and only in the block that
`getLastFreeBlock` hands out (page_mapping.cc:1993–2014, 1123–1157 and 1227–1268). Such a block
has room in every column, since `getLastFreeBlock` replaces a block as soon as its furthest column
is full, and each unit is programmed once before the next block is asked for. So `Block::write`
never panics, in no call of a run.
-/

namespace SimpleSSD

/-- The fault does not come from programming a block. -/
abbrev Fault.Unwritten (e : Fault) : Prop := e.NotFrom "Block::write"

namespace FTL

variable {cfg : Config} {env : Env} {p p' : BlockPool} {k : Nat}

namespace BlockPool

/-- Block `k` has a page left for I/O unit `i`. -/
def Room (p : BlockPool) (k i : Nat) : Prop :=
  ∃ b, p.blocks.find? k = some b ∧ i < b.ioUnitInPage ∧ b.pNextWritePageIndex i < b.pageCount

/-- An access that programs nothing takes no room. -/
theorem Room.touch (k i : Nat) : TouchClosed fun p => p.Room k i := by
  intro p k' b b' hp hb ht
  obtain ⟨c, hc, hi, hlt⟩ := hp
  by_cases hk : k = k'
  · subst hk
    rw [hc] at hb
    cases hb
    refine ⟨b', ?_, ?_, ?_⟩
    · rw [putBlock, UnorderedMap.find?_set, if_pos rfl]
    · rw [ht.1.geometry.2]
      exact hi
    · rw [ht.1.geometry.1, ht.2]
      exact hlt
  · refine ⟨c, ?_, hi, hlt⟩
    rw [putBlock, UnorderedMap.find?_set, if_neg hk]
    exact hc

/-- A block of the configured shape whose furthest column is not full has room everywhere. -/
theorem Formatted.room (hp : p.Formatted cfg) {b : Block} (hb : p.blocks.find? k = some b)
    (hlt : b.getNextWritePageIndex < cfg.pagesInBlock) {i : Nat} (hi : i < cfg.ioUnitInPage) :
    p.Room k i := by
  obtain ⟨hpages, hunits⟩ := hp.used k b hb
  have hcolumn : i < b.ioUnitInPage := hunits ▸ hi
  refine ⟨b, hb, hcolumn, ?_⟩
  calc b.pNextWritePageIndex i ≤ b.getNextWritePageIndex :=
        Block.next_le_getNextWritePageIndex hcolumn
    _ < b.pageCount := hpages ▸ hlt

/-- The block that `getLastFreeBlock` hands out has room for every unit of one page. -/
theorem getLastFreeBlock_room {iomap : Bitset} (hp : p.Formatted cfg)
    (hpages : 0 < cfg.pagesInBlock)
    (h : p.getLastFreeBlock cfg env iomap = .ok (k, p')) {i : Nat} (hi : i < cfg.ioUnitInPage) :
    p'.Room k i := by
  obtain ⟨p₁, p₂, h₁, h₂, h₃⟩ := getLastFreeBlock_spec h
  obtain ⟨lane, m, rfl⟩ := selectLane_spec h₁
  have hp₁ : Formatted cfg { p with lastFreeBlockIndex := lane, lastFreeBlockIOMap := m } :=
    hp.congr rfl rfl
  have hp₂ : p₂.Formatted cfg := by
    obtain ⟨cur, -, ⟨-, rfl⟩ | ⟨-, b, ht, -⟩⟩ := replaceErased_spec h₂
    · exact hp₁
    · exact hp₁.takes ht
  obtain ⟨cur, b₀, -, hb₀, ⟨hroom, rfl, rfl⟩ | ⟨-, b, rfl, ht, -⟩⟩ := replaceFull_spec h₃
  · -- the open block is kept because it is not full
    have hle := b₀.getNextWritePageIndex_le
    rw [(hp₂.used _ _ hb₀).1] at hle
    exact hp₂.room hb₀ (lt_of_le_of_ne hle hroom) hi
  · -- a free block has all its pages
    obtain ⟨-, -, -, hnext⟩ := hp₂.free b (ht.free.mem_iff.mpr List.mem_cons_self)
    have hb : p'.blocks.find? b.idx = some b := by rw [ht.find?, if_pos rfl]
    refine (hp₂.takes ht).room hb ?_ hi
    have hzero : b.getNextWritePageIndex = 0 :=
      Nat.le_zero.mp (Finset.sup_le fun j _ => (hnext j).le)
    omega

/-- An allocation of a formatted pool returns a block with room for one page. -/
theorem Formatted.allocate (hp : p.Formatted cfg) (hpages : 0 < cfg.pagesInBlock)
    (iomap : Bitset) :
    (p.getLastFreeBlock cfg env iomap).Sat
      (fun r => r.2.Formatted cfg ∧ ∀ i < cfg.ioUnitInPage, r.2.Room r.1 i) Fault.Unwritten := by
  refine (getLastFreeBlock_faults iomap).with_eq.mono (fun r hr => ?_) fun _ he => he.1
  obtain ⟨-, h⟩ := hr
  exact ⟨((formatted_invariant cfg env).allocate hp trivial).of_ok h,
    fun i hi => getLastFreeBlock_room hp hpages h hi⟩

end BlockPool

/-- What the unit loops keep: the shape of the blocks, and room for the units from `i` on. -/
def LoopRoom (cfg : Config) (k i : Nat) (p : BlockPool) : Prop :=
  p.Formatted cfg ∧ ∀ j < cfg.ioUnitInPage, i ≤ j → p.Room k j

/-- Programming unit `i` at its next page succeeds, and leaves room for the units behind it. -/
theorem LoopRoom.write {i lpn : Nat} {b : Block} (h : LoopRoom cfg k i p)
    (hi : i < cfg.ioUnitInPage) (hb : p.blocks.find? k = some b) :
    (b.write (b.pNextWritePageIndex i) lpn i).Sat
      (fun b' => LoopRoom cfg k (i + 1) (p.putBlock k b')) Fault.Unwritten := by
  obtain ⟨c, hc, hcolumn, hlt⟩ := h.2 i hi le_rfl
  rw [hb] at hc
  cases hc
  obtain ⟨b', hb'⟩ := @Block.write_next b i lpn hcolumn hlt
  rw [hb']
  refine ⟨BlockPool.Formatted.access h.1 hb (.write hb'), fun j hj hle => ?_⟩
  obtain ⟨c, hc, hcolumn, hlt⟩ := h.2 j hj (by omega)
  rw [hb] at hc
  cases hc
  obtain ⟨-, -, -, -, hpages, hunits, -, -, hnext, -⟩ := Block.write_spec hb'
  refine ⟨b', ?_, hunits ▸ hcolumn, ?_⟩
  · rw [BlockPool.putBlock, UnorderedMap.find?_set, if_pos rfl]
  · rw [hpages, hnext, Function.update_of_ne (by omega)]
    exact hlt

/-- A unit that is left out leaves everything as it is. -/
theorem LoopRoom.skip {i : Nat} (h : LoopRoom cfg k i p) : LoopRoom cfg k (i + 1) p :=
  ⟨h.1, fun j hj hle => h.2 j hj (by omega)⟩

namespace PageMapping

variable {w : World} {req : Request}

theorem plain_unwritten {α : Type} {x : Except Fault α} {Q : α → Prop} (h : x.Sat Q Fault.Plain) :
    x.Sat Q Fault.Unwritten :=
  h.mono (fun _ h => h) fun _ he => he.2

theorem programUnit_unwritten {sendToPAL : Bool} {mappingList : Option Nat} {idx : Nat}
    (acc : WriteLocals × PageMapping) (hidx : idx < cfg.ioUnitInPage)
    (hs : LoopRoom cfg k idx acc.2.pool) :
    (programUnit cfg env w req sendToPAL mappingList k acc idx).Sat
      (fun r => LoopRoom cfg k (idx + 1) r.2.pool) Fault.Unwritten := by
  obtain ⟨locals, s⟩ := acc
  rw [programUnit]
  dsimp only
  split
  · split
    · simp
    · next b hb =>
      have hvec : (s.mappingVector mappingList).Sat (fun _ => True) Fault.Unwritten := by
        unfold mappingVector
        split
        · simp
        · split <;> simp
      refine hvec.bind fun kv _ => ?_
      refine (plain_unwritten (mappingAt_sat kv.2 idx)).bind fun old _ => ?_
      refine (hs.write hidx hb).bind fun b' hroom => ?_
      cases sendToPAL with
      | true =>
        obtain ⟨events, hold, -⟩ := readOldUnits_eq cfg req old
          { s with pool := s.pool.putBlock k b' }
        simpa [hold] using hroom
      | false => exact hroom
  · exact hs.skip

theorem copyUnit_unwritten {victim pageIndex : Nat} {lpns : List Nat} {bit : Bitset}
    {relocateCmt : Bool} {idx : Nat} (acc : GcLocals × PageMapping)
    (hidx : idx < cfg.ioUnitInPage) (hs : LoopRoom cfg k idx acc.2.pool) :
    (copyUnit cfg victim pageIndex k lpns bit relocateCmt acc idx).Sat
      (fun r => LoopRoom cfg k (idx + 1) r.2.pool) Fault.Unwritten := by
  obtain ⟨locals, s⟩ := acc
  have htouch : TouchClosed (LoopRoom cfg k idx) := fun p j b b' hp hb ht =>
    ⟨BlockPool.Formatted.access.touch hp.1 hb ht,
      fun i hi hle => BlockPool.Room.touch k i (hp.2 i hi hle) hb ht⟩
  rw [copyUnit]
  dsimp only
  split
  · refine (plain_unwritten (htouch.onBlock (f := fun b => .ok (b.invalidate pageIndex idx))
      (fun b => .invalidate b pageIndex idx) hs)).bind fun p hp => ?_
    split
    · simp
    · split
      · simp
      · next vec _ =>
        refine (plain_unwritten (mappingAt_sat vec idx)).bind fun _ _ => ?_
        split
        · simp
        · next b hb =>
          exact (hp.write hidx hb).bind fun b' hroom => hroom
  · exact hs.skip

end PageMapping

/-- The calls of a run keep the shape of the blocks, and none stops in `Block::write`. -/
theorem unwritten_rule (env : Env) (hunits : 0 < cfg.ioUnitInPage) (hpages : 0 < cfg.pagesInBlock) :
    CallRule cfg env (fun _ _ => True) (BlockPool.Formatted cfg) Fault.Unwritten where
  programPage := by
    intro w req sendToPAL s hs _
    have htouch := (@BlockPool.Formatted.access cfg).touch
    refine (PageMapping.plain_unwritten (htouch.lookupForWrite hs)).bind fun r hr => ?_
    refine (BlockPool.Formatted.allocate hr hpages req.ioFlag).bind fun q hq => ?_
    dsimp only
    split
    · simp
    · refine Except.Sat.bind
        (Q := fun acc : PageMapping.WriteLocals × PageMapping =>
          LoopRoom cfg q.1 cfg.bitsetSize acc.2.pool) ?_ fun acc hacc => Except.sat_ok.mpr hacc.1
      refine Run.foldlM_range_sat
        (I := fun i (acc : PageMapping.WriteLocals × PageMapping) => LoopRoom cfg q.1 i acc.2.pool)
        (fun i acc hi hacc => ?_) ?_
      · exact PageMapping.programUnit_unwritten acc (hi.trans_le (Config.bitsetSize_le hunits)) hacc
      · show LoopRoom cfg q.1 0 (if sendToPAL then _ else _ : PageMapping).pool
        split <;> exact ⟨hq.1, fun j hj _ => hq.2 j hj⟩
  plain := fun he => he.2
  invalid := by simp
  touch := BlockPool.Formatted.access.touch
  copyPage := by
    intro victim pageIndex lpns bit relocateCmt acc hs _
    refine (BlockPool.Formatted.allocate hs hpages bit).bind fun q hq => ?_
    refine (Run.foldlM_range_sat
      (I := fun i (acc : PageMapping.GcLocals × PageMapping) => LoopRoom cfg q.1 i acc.2.pool)
      (fun i acc hi hacc => ?_) ?_).mono (fun _ h => h.1) fun _ he => he
    · exact PageMapping.copyUnit_unwritten acc (hi.trans_le (Config.bitsetSize_le hunits)) hacc
    · exact ⟨hq.1, fun j hj _ => hq.2 j hj⟩
  erase := by
    intro p k hp
    refine Except.sat_iff.mpr ⟨fun p' h =>
      ((BlockPool.formatted_invariant cfg env).erase hp).of_ok h, fun e he => ?_⟩
    rw [BlockPool.eraseBlock] at he
    split at he
    · cases he
      simp
    · dsimp only at he
      split at he <;> cases he
  select := fun hp => (BlockPool.formatted_invariant cfg env).select hp

/-- In no run of the FTL does a program meet a page that is not erased, or lie in front of the end
of its column. -/
theorem run_unwritten (env : Env) (hunits : 0 < cfg.ioUnitInPage) (hpages : 0 < cfg.pagesInBlock)
    (warmUp : Option World) (calls : List (World × Op)) :
    (PageMapping.start cfg env warmUp >>= fun s => run cfg env s calls).Sat
      (fun s => s.pool.Formatted cfg) Fault.Unwritten := by
  have hrule := unwritten_rule env hunits hpages
  have hinit : (BlockPool.init cfg env).Sat (BlockPool.Formatted cfg) Fault.Unwritten := by
    refine Except.sat_iff.mpr ⟨fun p h => BlockPool.init_rule (BlockPool.formatted_fresh cfg)
      BlockPool.Formatted.takes h, fun e he => ?_⟩
    have hsat : (BlockPool.init cfg env).Sat (fun _ => True) Fault.Unwritten := by
      rw [BlockPool.init]
      split
      · simp
      · refine Run.foldlM_sat (I := fun _ => True) (fun p i _ => ?_) trivial
        exact ((BlockPool.getFreeBlock_faults i).mono (fun _ h => h) fun _ he => he.1).bind
          fun r _ => Except.sat_ok.mpr trivial
    exact hsat.of_error he
  refine (hrule.start (fun _ => trivial) hinit warmUp).bind fun s hs => ?_
  exact hrule.run_all (fun _ _ => trivial) hs

end FTL

end SimpleSSD
