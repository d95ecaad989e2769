import SimpleSSD.FTL.OpenLanes
import SimpleSSD.FTL.WritePath
import SimpleSSD.Lib.RoundRobin

/-!
# The warm-up of the constructor (page_mapping.cc:112–247)

`initialize` writes full pages and never reaches the flash layer. `Warm` says
what the device looks like after `n` such writes: the writes go round robin over
the lanes, so the fill of every open block and the number of free blocks are
functions of `n` (`RoundRobin`), and nothing is in the mapping caches. A write
then stops for one of two reasons only, an empty free list or a share of free
blocks below the threshold, and `Warm.writeInternal` says when.
-/

namespace SimpleSSD.FTL

open RoundRobin

namespace Config

variable (cfg : Config)

/-- The lane of the first write: the random-I/O tweak lets it share the superpage
of lane 0, on which nothing has been written. -/
def firstLane : Nat := if cfg.randomIOTweak then 0 else 1

/-- The fill of the open block of lane `l` after `n` full pages. -/
def laneFill (n l : Nat) : Nat :=
  filled cfg.pagesInBlock (uses cfg.pageCountToMaxPerf cfg.firstLane l n)

/-- The blocks that `n` full pages have taken into use after the constructor. -/
def blocksRenewed (n : Nat) : Nat := renewals cfg.pageCountToMaxPerf cfg.pagesInBlock n

end Config

/-- The request of all units of a page. -/
def Request.full (cfg : Config) (lpn : Nat) : Request :=
  ⟨lpn, (Bitset.new cfg.ioUnitInPage).setAll⟩

/-- What the geometry of a device gives: at least one lane, unit and page. -/
structure Config.Shaped (cfg : Config) : Prop where
  lanes : 0 < cfg.pageCountToMaxPerf
  units : 0 < cfg.ioUnitInPage
  pages : 0 < cfg.pagesInBlock

/-- The pool after `n` full pages. -/
structure BlockPool.Warm (cfg : Config) (n : Nat) (p : BlockPool) : Prop where
  streaming : p.Streaming cfg (cfg.laneFill n)
  free : p.nFreeBlocks + cfg.pageCountToMaxPerf + cfg.blocksRenewed n = cfg.totalPhysicalBlocks
  turn : p.nextLane cfg = turn cfg.pageCountToMaxPerf cfg.firstLane n

/-- The device after `n` full pages. -/
structure Warm (cfg : Config) (n : Nat) (s : PageMapping) : Prop where
  pool : s.pool.Warm cfg n
  table : TableShape cfg s
  cmt : s.cache.cmt = .empty
  shadow : s.cache.shadowwCache = .empty

section Fill

variable {cfg : Config} {n : Nat}

theorem Request.full_wants {lpn idx : Nat} (hidx : idx < cfg.bitsetSize) :
    (Request.full cfg lpn).wants cfg idx = true := by
  rw [Request.wants]
  cases htweak : cfg.randomIOTweak with
  | false => simp
  | true =>
    rw [Config.bitsetSize, htweak, if_pos rfl] at hidx
    simp [Request.full, Bitset.setAll, Bitset.new, Bitset.test, hidx]

/-- The lane whose turn it is renews its block before write `n` if it is full. -/
theorem laneFill_turn_eq_iff (hcfg : cfg.Shaped) :
    cfg.laneFill n (turn cfg.pageCountToMaxPerf cfg.firstLane n) = cfg.pagesInBlock ↔
      Renews cfg.pagesInBlock (n / cfg.pageCountToMaxPerf) := by
  rw [Config.laneFill, uses_turn hcfg.lanes]
  exact filled_eq_iff hcfg.pages

theorem blocksRenewed_succ (hcfg : cfg.Shaped) :
    cfg.blocksRenewed (n + 1) = cfg.blocksRenewed n +
      if cfg.laneFill n (turn cfg.pageCountToMaxPerf cfg.firstLane n) = cfg.pagesInBlock
      then 1 else 0 := by
  rw [Config.blocksRenewed, Config.blocksRenewed, renewals]
  simp only [laneFill_turn_eq_iff hcfg]

/-- The lane that takes page `n` has room for it once it is renewed. -/
theorem renew_turn_lt (hcfg : cfg.Shaped) :
    BlockPool.renew cfg (cfg.laneFill n) (turn cfg.pageCountToMaxPerf cfg.firstLane n)
      (turn cfg.pageCountToMaxPerf cfg.firstLane n) < cfg.pagesInBlock := by
  rw [BlockPool.renew]
  split
  · rw [Function.update_self]
    exact hcfg.pages
  · next hne => exact lt_of_le_of_ne (filled_le hcfg.pages) hne

/-- One page goes on top of the renewed lane, and the other lanes stay. -/
theorem laneFill_succ (hcfg : cfg.Shaped) (l : Nat) :
    cfg.laneFill (n + 1) l =
      if l = turn cfg.pageCountToMaxPerf cfg.firstLane n
      then BlockPool.renew cfg (cfg.laneFill n) l l + 1
      else BlockPool.renew cfg (cfg.laneFill n)
        (turn cfg.pageCountToMaxPerf cfg.firstLane n) l := by
  by_cases hl : l = turn cfg.pageCountToMaxPerf cfg.firstLane n
  · subst hl
    rw [if_pos rfl, BlockPool.renew, Config.laneFill, uses_succ, if_pos rfl,
      filled_succ hcfg.pages]
    simp only [laneFill_turn_eq_iff hcfg, uses_turn hcfg.lanes]
    split
    · rw [Function.update_self]
    · rw [Config.laneFill, uses_turn hcfg.lanes]
  · rw [if_neg hl, Config.laneFill, uses_succ, if_neg (Ne.symm hl), Nat.add_zero, BlockPool.renew]
    split
    · rw [Function.update_of_ne hl]
      rfl
    · rfl

/-- After a full page in lane `turn n` it is the turn of the next lane. -/
theorem turn_succ (hcfg : cfg.Shaped) {p : BlockPool}
    (hiomap : p.lastFreeBlockIOMap = (Bitset.new cfg.ioUnitInPage).setAll)
    (hindex : p.lastFreeBlockIndex = turn cfg.pageCountToMaxPerf cfg.firstLane n) :
    p.nextLane cfg = turn cfg.pageCountToMaxPerf cfg.firstLane (n + 1) := by
  have hany : p.lastFreeBlockIOMap.any = true := by
    rw [hiomap]
    simpa [Bitset.any, Bitset.setAll, Bitset.new, ← Finset.nonempty_iff_ne_empty] using
      hcfg.units.ne'
  have hnot : ¬ (cfg.randomIOTweak = true ∧ p.lastFreeBlockIOMap.any = false) := by
    rintro ⟨-, h⟩
    rw [hany] at h
    cases h
  rw [BlockPool.nextLane, if_neg hnot, hindex, turn, turn, Nat.add_right_comm]
  rcases succ_div_mod hcfg.lanes (n + cfg.firstLane) with ⟨hlast, -, hmod⟩ | ⟨hlast, -, hmod⟩
  · rw [if_pos hlast, hmod]
  · rw [if_neg hlast.ne, hmod]

end Fill

/-! ### One full page -/

namespace BlockPool

/-- Accesses that program nothing leave the warm-up where it is. -/
theorem Warm.touch (cfg : Config) (n : Nat) : TouchClosed (Warm cfg n) := by
  intro p k b b' hp hb ha
  have hs := hp.streaming
  exact ⟨⟨Partitioned.access hs.partitioned hb ha.1, Formatted.access hs.formatted hb ha.1,
    Open.touch cfg _ _ hs.lanes hb ha, hs.erased, hs.iomap, hs.index⟩, hp.free, hp.turn⟩

end BlockPool

namespace Warm

variable {cfg : Config} {env : Env} {w : World} {n : Nat} {s : PageMapping}

theorem cmtHit (hs : Warm cfg n s) (lpn : Nat) : s.cmtHit cfg lpn = none := by
  rw [PageMapping.cmtHit, hs.cmt]
  split <;> simp

theorem shadowHit (hs : Warm cfg n s) (lpn : Nat) : s.shadowHit cfg lpn = none := by
  rw [PageMapping.shadowHit, hs.shadow]
  split <;> simp

/-- The lookup of a full page ends in `table`, and finds all units of the page there. -/
theorem lookupForWrite (env : Env) (hs : Warm cfg n s) (lpn : Nat) :
    ∃ s₁ vec, s.lookupForWrite cfg env (Request.full cfg lpn) false = .ok (some lpn, false, s₁) ∧
      Warm cfg n s₁ ∧ s₁.table.find? lpn = some vec := by
  rw [PageMapping.lookupForWrite]
  simp only [show (Request.full cfg lpn).lpn = lpn from rfl, hs.cmtHit, hs.shadowHit]
  cases htable : s.table.find? lpn with
  | some vec =>
    have hlen := hs.table lpn vec htable
    obtain ⟨p, hp, hwarm⟩ : ∃ p, PageMapping.invalidateUnits cfg (Request.full cfg lpn)
        (mappingAt vec) s.pool = .ok p ∧ p.Warm cfg n := by
      refine Run.foldlM_range_ok (I := fun _ => BlockPool.Warm cfg n) (fun i q hi hq => ?_) hs.pool
      rw [if_pos (Request.full_wants hi), mappingAt, List.getElem?_eq_getElem (by omega)]
      exact ⟨_, rfl, (BlockPool.Warm.touch cfg n).invalidateMapped hq _ _⟩
    refine ⟨{ s with pool := p }, vec, ?_, ⟨hwarm, hs.table, hs.cmt, hs.shadow⟩, htable⟩
    simp only [hp, Except.ok_bind]
  | none =>
    have hnot := UnorderedMap.find?_eq_none_iff.mp htable
    refine ⟨_, _, rfl, ⟨hs.pool, fun l vec hvec => ?_, hs.cmt, hs.shadow⟩,
      (UnorderedMap.find?_emplace hnot _ _ _).trans (if_pos rfl)⟩
    have hvec : (s.table.emplace _ _ _).find? l = some vec := hvec
    rw [UnorderedMap.find?_emplace hnot] at hvec
    split at hvec
    · cases hvec
      exact List.length_replicate
    · exact hs.table l vec hvec

end Warm

/-- The program loop of a full page before unit `i`: block `blk`, whose columns stood
at page `c`, has taken the units below `i`. -/
structure FillingPage (cfg : Config) (p : BlockPool) (blk c lpn i : Nat) (s : PageMapping) :
    Prop where
  partitioned : s.pool.Partitioned cfg
  formatted : s.pool.Formatted cfg
  block : ∃ b, s.pool.blocks.find? blk = some b ∧ ∀ j < cfg.ioUnitInPage,
    b.pNextWritePageIndex j = if j < i then c + 1 else if j < cfg.bitsetSize then c else 0
  others : ∀ k, k ≠ blk → s.pool.blocks.find? k = p.blocks.find? k
  rest : { s.pool with blocks := p.blocks } = p
  table : TableShape cfg s
  mapped : lpn ∈ s.table
  cmt : s.cache.cmt = .empty
  shadow : s.cache.shadowwCache = .empty

section Step

variable {cfg : Config} {env : Env} {w : World} {p : BlockPool} {blk c lpn i : Nat}

/-- One unit of the page. -/
theorem FillingPage.step (hunits : 0 < cfg.ioUnitInPage) (hc : c < cfg.pagesInBlock)
    (hi : i < cfg.bitsetSize) {locals : PageMapping.WriteLocals} {s : PageMapping}
    (hs : FillingPage cfg p blk c lpn i s) :
    ∃ acc, PageMapping.programUnit cfg env w (Request.full cfg lpn) false (some lpn) blk
      (locals, s) i = .ok acc ∧ FillingPage cfg p blk c lpn (i + 1) acc.2 := by
  obtain ⟨b, hb, hcol⟩ := hs.block
  obtain ⟨vec, hvec⟩ := UnorderedMap.mem_iff_find?.mp hs.mapped
  have hlen := hs.table lpn vec hvec
  have hgeom := hs.formatted.used blk b hb
  have hunit : i < cfg.ioUnitInPage := hi.trans_le (Config.bitsetSize_le hunits)
  have hat : b.pNextWritePageIndex i = c := by
    rw [hcol i hunit, if_neg (lt_irrefl i), if_pos hi]
  obtain ⟨b', hwrite⟩ : ∃ b', b.write c lpn i = .ok b' := by
    rw [← hat]
    exact Block.write_next (by rw [hgeom.2]; exact hunit) (by rw [hgeom.1, hat]; exact hc)
  obtain ⟨-, -, -, -, -, -, -, -, hnext, -⟩ := Block.write_spec hwrite
  refine ⟨(locals, { s with
    pool := s.pool.putBlock blk b'
    table := s.table.set 0 lpn (vec.set i (blk, c)) }), ?_, ?_⟩
  · rw [PageMapping.programUnit]
    simp only [Request.full_wants hi, if_true, hb, PageMapping.mappingVector, hvec, Except.ok_bind,
      mappingAt, List.getElem?_eq_getElem (hlen ▸ hi), hat,
        show (Request.full cfg lpn).lpn = lpn from rfl,
      hwrite, Bool.false_eq_true, if_false]
  · refine ⟨BlockPool.Partitioned.access hs.partitioned hb (.write hwrite),
      BlockPool.Formatted.access hs.formatted hb (.write hwrite), ⟨b', ?_, fun j hj => ?_⟩,
      fun k hk => ?_, hs.rest, fun l v hv => ?_, ?_, hs.cmt, hs.shadow⟩
    · rw [BlockPool.putBlock, UnorderedMap.find?_set, if_pos rfl]
    · rw [hnext]
      by_cases hji : j = i
      · subst hji
        rw [Function.update_self, if_pos (Nat.lt_succ_self _)]
      · rw [Function.update_of_ne hji, hcol j hj]
        have hlt : j < i ↔ j < i + 1 := by omega
        simp only [hlt]
    · rw [BlockPool.putBlock, UnorderedMap.find?_set, if_neg hk]
      exact hs.others k hk
    · have hv : (s.table.set 0 lpn (vec.set i (blk, c))).find? l = some v := hv
      rw [UnorderedMap.find?_set] at hv
      split at hv
      · cases hv
        rw [List.length_set, hlen]
      · exact hs.table l v hv
    · exact UnorderedMap.mem_iff_find?.mpr
        ⟨_, (UnorderedMap.find?_set _ _ _).trans (if_pos rfl)⟩

/-- The program loop of a full page ends. -/
theorem FillingPage.loop (env : Env) (w : World) (hunits : 0 < cfg.ioUnitInPage)
    (hc : c < cfg.pagesInBlock)
    (locals : PageMapping.WriteLocals) {s : PageMapping} (hs : FillingPage cfg p blk c lpn 0 s) :
    ∃ acc : PageMapping.WriteLocals × PageMapping, (List.range cfg.bitsetSize).foldlM
      (PageMapping.programUnit cfg env w (Request.full cfg lpn) false (some lpn) blk) (locals, s) =
        .ok acc ∧ FillingPage cfg p blk c lpn cfg.bitsetSize acc.2 :=
  Run.foldlM_range_ok (I := fun i (acc : PageMapping.WriteLocals × PageMapping) =>
    FillingPage cfg p blk c lpn i acc.2) (fun _ _ hi hs => hs.step hunits hc hi) hs

/-- The columns behind the last unit of a full page. -/
theorem FillingPage.standsAt {s : PageMapping} (hs : FillingPage cfg p blk c lpn cfg.bitsetSize s) :
    ∃ b, s.pool.blocks.find? blk = some b ∧ b.StandsAt cfg (c + 1) := by
  obtain ⟨b, hb, hcol⟩ := hs.block
  refine ⟨b, hb, fun j hj => ?_⟩
  rw [hcol j hj]
  split <;> rfl

variable {n : Nat}

/-- The pool after the program loop of write `n`. -/
theorem FillingPage.warm (hcfg : cfg.Shaped) {q : BlockPool} {s : PageMapping}
    (hq : q.Warm cfg n) (hready : BlockPool.Ready cfg (cfg.laneFill n) q blk p)
    (hc : c = BlockPool.renew cfg (cfg.laneFill n) (q.nextLane cfg) (q.nextLane cfg))
    (hs : FillingPage cfg p blk c lpn cfg.bitsetSize s) : Warm cfg (n + 1) s := by
  have hstream := hready.streaming
  have hlast : s.pool.lastFreeBlock = p.lastFreeBlock := by rw [← hs.rest]
  have hiomap : s.pool.lastFreeBlockIOMap = p.lastFreeBlockIOMap := by rw [← hs.rest]
  have hindex : s.pool.lastFreeBlockIndex = p.lastFreeBlockIndex := by rw [← hs.rest]
  have hfree : s.pool.nFreeBlocks = p.nFreeBlocks := by rw [← hs.rest]
  have herased : s.pool.erasedBlockId = p.erasedBlockId := by rw [← hs.rest]
  have hlanes : s.pool.Open cfg cfg.pageCountToMaxPerf (cfg.laneFill (n + 1)) := by
    refine ⟨by rw [hlast]; exact hstream.lanes.length, fun l hl => ?_, ?_⟩
    · rw [laneFill_succ hcfg, ← hq.turn, hlast]
      by_cases hturn : l = q.nextLane cfg
      · obtain ⟨b, hb, hstands⟩ := hs.standsAt
        refine ⟨blk, b, by rw [hturn]; exact hready.block, hb, ?_⟩
        rw [if_pos hturn, hturn, ← hc]
        exact hstands
      · -- another lane has another block open
        obtain ⟨k, b, hk, hb, hstands⟩ := hstream.lanes.block l hl
        have hne : k ≠ blk := by
          rintro rfl
          exact hturn (hstream.lanes.distinct l hl _ (BlockPool.nextLane_lt hq.streaming.index)
            (hk.trans hready.block.symm))
        refine ⟨k, b, hk, by rw [hs.others k hne]; exact hb, ?_⟩
        rw [if_neg hturn]
        exact hstands
    · rw [hlast]
      exact hstream.lanes.distinct
  refine ⟨⟨⟨hs.partitioned, hs.formatted, hlanes, by rw [herased]; exact hstream.erased,
    by rw [hiomap]; exact hstream.iomap, by rw [hindex]; exact hstream.index⟩, ?_, ?_⟩,
    hs.table, hs.cmt, hs.shadow⟩
  · have hcount := hready.free
    have hbefore := hq.free
    rw [hq.turn] at hcount
    rw [hfree, blocksRenewed_succ hcfg]
    omega
  · exact turn_succ hcfg (by rw [hiomap, hready.iomap]) (by rw [hindex, hready.index, hq.turn])

/-- The panic of `writeInternal` when a collection falls due during warm-up. -/
def gcTriggered : Fault := .panic "writeInternal" "ftl: GC triggered while in initialization"

/-- The free blocks suffice for the first `n` full pages. -/
def Config.Fits (cfg : Config) (n : Nat) : Prop :=
  cfg.blocksRenewed n + cfg.pageCountToMaxPerf ≤ cfg.totalPhysicalBlocks

/-- The share of free blocks after `n` full pages is below the threshold. -/
def Config.Low (cfg : Config) (n : Nat) : Prop :=
  ((cfg.totalPhysicalBlocks : Rat) - cfg.pageCountToMaxPerf - cfg.blocksRenewed n) /
    cfg.totalPhysicalBlocks < cfg.gcThreshold

theorem Warm.fits {s : PageMapping} (hs : Warm cfg n s) : cfg.Fits n := by
  have hfree := hs.pool.free
  rw [Config.Fits]
  omega

theorem Warm.freeBlockRatio {s : PageMapping} (hs : Warm cfg n s) :
    s.pool.freeBlockRatio cfg < cfg.gcThreshold ↔ cfg.Low n := by
  have hfree : (s.pool.nFreeBlocks : Rat) =
      (cfg.totalPhysicalBlocks : Rat) - cfg.pageCountToMaxPerf - cfg.blocksRenewed n := by
    rw [← hs.pool.free]
    push_cast
    ring
  rw [BlockPool.freeBlockRatio, hfree, Config.Low]

/-- Write `n` of the warm-up programs its page, or finds no free block to open. -/
theorem Warm.programPage (env : Env) (w : World) (hcfg : cfg.Shaped) {s : PageMapping}
    (hs : Warm cfg n s) (lpn : Nat) :
    (¬ cfg.Fits (n + 1) ∧
      s.programPage cfg env w (Request.full cfg lpn) false = .error BlockPool.noFreeBlock) ∨
    ∃ s', s.programPage cfg env w (Request.full cfg lpn) false = .ok s' ∧ Warm cfg (n + 1) s' := by
  obtain ⟨s₁, vec, hlook, hs₁, hvec⟩ := hs.lookupForWrite env lpn
  have hturn := hs₁.pool.turn
  rw [PageMapping.programPage, hlook, Except.ok_bind]
  simp only [show (Request.full cfg lpn).ioFlag = (Bitset.new cfg.ioUnitInPage).setAll from rfl]
  rcases hs₁.pool.streaming.getLastFreeBlock env hcfg.units with
    ⟨hfull, hnone, hget⟩ | ⟨k, p, hget, hready⟩
  · refine .inl ⟨?_, by rw [hget]; rfl⟩
    have hfree := hs₁.pool.free
    rw [hturn] at hfull
    rw [Config.Fits, blocksRenewed_succ hcfg, if_pos hfull]
    omega
  · have hstream := hready.streaming
    have hlane := BlockPool.nextLane_lt hs₁.pool.streaming.index
    obtain ⟨k', b, hk, hb, hstands⟩ := hstream.lanes.block _ hlane
    obtain rfl : k = k' := Option.some.inj (hready.block.symm.trans hk)
    have hroom := renew_turn_lt (n := n) hcfg
    rw [← hturn] at hroom
    obtain ⟨acc, hloop, hfill⟩ := FillingPage.loop (c := BlockPool.renew cfg (cfg.laneFill n) _ _)
      (s := { s₁ with pool := p }) env w hcfg.units hroom ⟨false, false⟩
      ⟨hstream.partitioned, hstream.formatted,
        ⟨b, hb, fun j hj => by rw [if_neg j.not_lt_zero]; exact hstands j hj⟩, fun _ _ => rfl, rfl,
        hs₁.table, UnorderedMap.mem_of_find? hvec, hs₁.cmt, hs₁.shadow⟩
    refine .inr ⟨acc.2, ?_, hfill.warm hcfg hs₁.pool hready rfl⟩
    rw [hget, Except.ok_bind]
    simp only [if_neg (not_not.mpr (UnorderedMap.mem_of_find? hb)), Bool.false_eq_true, if_false,
      hloop]
    rfl

/-- Write `n` of the warm-up returns, or finds no free block to open, or finds too few
blocks free after it. -/
theorem Warm.writeInternal (env : Env) (w : World) (hcfg : cfg.Shaped) {s : PageMapping}
    (hs : Warm cfg n s) (lpn : Nat) :
    (s.writeInternal cfg env w (Request.full cfg lpn) false).Sat (Warm cfg (n + 1)) fun f =>
      (f = BlockPool.noFreeBlock ∧ ¬ cfg.Fits (n + 1)) ∨ (f = gcTriggered ∧ cfg.Low (n + 1)) := by
  rw [PageMapping.writeInternal]
  rcases hs.programPage env w hcfg lpn with ⟨hfits, h⟩ | ⟨s', h, hs'⟩
  · rw [h]
    exact .inl ⟨rfl, hfits⟩
  · rw [h, Except.ok_bind, PageMapping.collectIfNeeded]
    split
    · next hlow => exact .inr ⟨rfl, hs'.freeBlockRatio.mp hlow⟩
    · exact hs'

end Step

end SimpleSSD.FTL
