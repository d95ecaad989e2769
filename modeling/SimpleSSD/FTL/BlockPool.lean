import Mathlib.Data.List.Perm.Basic
import SimpleSSD.FTL.Block
import SimpleSSD.FTL.Config
import SimpleSSD.Lib.HashMap
import SimpleSSD.Lib.Run

/-!
# The block pool (page_mapping.cc:494–582, 2333–2389)

The blocks of the device are either in use (`blocks`, keyed by block index) or
free (`freeBlocks`, sorted by erase count). One block per lane is open for
writing (`lastFreeBlock`); `erasedBlockId` is the global list `erased_block_id`
through which garbage collection tells `getLastFreeBlock` that a block was
erased.

The functions here read and write these fields only, so a caller's table and
caches are untouched by their types. `retired` is not in the source: it keeps
the blocks that `eraseInternal` drops once they have reached the bad-block
threshold.
-/

namespace SimpleSSD.FTL

structure BlockPool where
  blocks : UnorderedMap Nat Block
  freeBlocks : List Block
  nFreeBlocks : Nat
  lastFreeBlock : List Nat
  lastFreeBlockIOMap : Bitset
  lastFreeBlockIndex : Nat
  bReclaimMore : Bool
  erasedBlockId : List Nat
  retired : List Block

namespace BlockPool

/-- `lastFreeBlock.at(i)`. -/
def lastFreeBlockAt (p : BlockPool) (i : Nat) : Except Fault Nat :=
  match p.lastFreeBlock[i]? with
  | some b => .ok b
  | none => .error (.badAccess "lastFreeBlock.at")

/-- Writes back the block an iterator of `blocks` points at. -/
def putBlock (p : BlockPool) (k : Nat) (b : Block) : BlockPool :=
  { p with blocks := p.blocks.set 0 k b }

/-- `block->second.f()` through an iterator obtained for block `k`. -/
def onBlock (p : BlockPool) (k : Nat) (f : Block → Except Fault Block) :
    Except Fault BlockPool :=
  match p.blocks.find? k with
  | some b => do
    let b ← f b
    .ok (p.putBlock k b)
  | none => .error (.badAccess "blocks.end()")

/-- The invalidation of the old page in `writeInternal`: nothing happens when
the mapping is out of range or its block is not in use
(page_mapping.cc:1859–1871 and its copies). -/
def invalidateMapped (cfg : Config) (p : BlockPool) (page : Nat × Nat) (idx : Nat) : BlockPool :=
  if page.1 < cfg.totalPhysicalBlocks ∧ page.2 < cfg.pagesInBlock then
    match p.blocks.find? page.1 with
    | some b => p.putBlock page.1 (b.invalidate page.2 idx)
    | none => p
  else p

/-- `getFreeBlock` (page_mapping.cc:500–542): takes a free block of lane `idx`
into use, or the first free block when the lane has none. -/
def getFreeBlock (cfg : Config) (env : Env) (p : BlockPool) (idx : Nat) :
    Except Fault (Nat × BlockPool) :=
  if cfg.pageCountToMaxPerf ≤ idx then
    .error (.panic "getFreeBlock" "Index out of range")
  else if p.nFreeBlocks = 0 then
    .error (.panic "getFreeBlock" "No free block left")
  else
    let pos := (p.freeBlocks.findIdx? fun b => b.idx % cfg.pageCountToMaxPerf = idx).getD 0
    match p.freeBlocks[pos]? with
    | none => .error (.badAccess "freeBlocks.begin()")
    | some b =>
      if b.idx ∈ p.blocks then .error (.panic "getFreeBlock" "Corrupted")
      else .ok (b.idx,
        { p with
          blocks := p.blocks.emplace (env.place .blocks p.blocks.keys b.idx) b.idx b
          freeBlocks := p.freeBlocks.eraseIdx pos
          nFreeBlocks := p.nFreeBlocks - 1 })

/-- The lane for the next program (page_mapping.cc:546–555): the next lane,
unless the random-I/O tweak lets the request share the superpage that the lane
has started. -/
def selectLane (cfg : Config) (p : BlockPool) (iomap : Bitset) : Except Fault BlockPool :=
  let next :=
    { p with
      lastFreeBlockIndex :=
        if p.lastFreeBlockIndex + 1 = cfg.pageCountToMaxPerf then 0
        else p.lastFreeBlockIndex + 1
      lastFreeBlockIOMap := iomap }
  if cfg.randomIOTweak then do
    let common ← p.lastFreeBlockIOMap.and iomap
    if common.any then .ok next
    else
      let merged ← p.lastFreeBlockIOMap.or iomap
      .ok { p with lastFreeBlockIOMap := merged }
  else .ok next

/-- `lastFreeBlock.at(lastFreeBlockIndex) = getFreeBlock(lastFreeBlockIndex)`. -/
def openBlock (cfg : Config) (env : Env) (p : BlockPool) : Except Fault (Nat × BlockPool) := do
  let (b, p) ← p.getFreeBlock cfg env p.lastFreeBlockIndex
  .ok (b, { p with lastFreeBlock := p.lastFreeBlock.set p.lastFreeBlockIndex b })

/-- The open block is replaced when `erased_block_id` lists it, and its id is
taken out of that list (page_mapping.cc:560–565). -/
def replaceErased (cfg : Config) (env : Env) (p : BlockPool) : Except Fault BlockPool := do
  let cur ← p.lastFreeBlockAt p.lastFreeBlockIndex
  if cur ∈ p.erasedBlockId then do
    let (_, p) ← p.openBlock cfg env
    .ok { p with erasedBlockId := p.erasedBlockId.filter fun b => b ≠ cur }
  else .ok p

/-- The open block is replaced when its last page has been programmed
(page_mapping.cc:567–580). -/
def replaceFull (cfg : Config) (env : Env) (p : BlockPool) : Except Fault (Nat × BlockPool) := do
  let cur ← p.lastFreeBlockAt p.lastFreeBlockIndex
  match p.blocks.find? cur with
  | none => .error (.panic "getLastFreeBlock" "Corrupted")
  | some b =>
    if b.getNextWritePageIndex = cfg.pagesInBlock then do
      let (new, p) ← p.openBlock cfg env
      .ok (new, { p with bReclaimMore := true })
    else .ok (cur, p)

/-- `getLastFreeBlock` (page_mapping.cc:544–582): the block that takes the next
page, and the pool with the lane's open block renewed if need be. -/
def getLastFreeBlock (cfg : Config) (env : Env) (p : BlockPool) (iomap : Bitset) :
    Except Fault (Nat × BlockPool) := do
  let p ← p.selectLane cfg iomap
  let p ← p.replaceErased cfg env
  p.replaceFull cfg env

/-- The reverse search of `eraseInternal` (page_mapping.cc:2361–2377) on the
reversed list: the block goes behind the last one that was erased no more often
than it. On an empty list the search steps onto the sentinel; both ways of
leaving the loop then insert into the empty list. -/
def insertBehind (b : Block) : List Block → List Block
  | [] => [b]
  | x :: xs => if x.eraseCount ≤ b.eraseCount then b :: x :: xs else x :: insertBehind b xs

/-- The pool's part of `eraseInternal` (page_mapping.cc:2333–2389). -/
def eraseBlock (cfg : Config) (p : BlockPool) (blockIndex : Nat) : Except Fault BlockPool :=
  match p.blocks.find? blockIndex with
  | none => .error (.panic "eraseInternal" "No such block")
  | some b =>
    let b := b.erase
    if b.eraseCount < cfg.badBlockThreshold then
      .ok { p with
        blocks := p.blocks.erase blockIndex
        freeBlocks := (insertBehind b p.freeBlocks.reverse).reverse
        nFreeBlocks := p.nFreeBlocks + 1 }
    else .ok { p with blocks := p.blocks.erase blockIndex, retired := b :: p.retired }

/-- `freeBlockRatio` (page_mapping.cc:476–480). -/
def freeBlockRatio (cfg : Config) (p : BlockPool) : Rat :=
  (p.nFreeBlocks : Rat) / (cfg.totalPhysicalBlocks : Rat)

/-- The pool of the constructor before any block is taken
(page_mapping.cc:31–40). -/
def fresh (cfg : Config) : BlockPool where
  blocks := .empty
  freeBlocks := (List.range cfg.totalPhysicalBlocks).map fun i =>
    Block.new i cfg.pagesInBlock cfg.ioUnitInPage
  nFreeBlocks := cfg.totalPhysicalBlocks
  lastFreeBlock := List.replicate cfg.pageCountToMaxPerf 0
  lastFreeBlockIOMap := Bitset.new cfg.ioUnitInPage
  lastFreeBlockIndex := 0
  bReclaimMore := false
  erasedBlockId := []
  retired := []

/-- One iteration of the constructor's loop `lastFreeBlock.at(i) = getFreeBlock(i)`
(page_mapping.cc:82–84). -/
def openLane (cfg : Config) (env : Env) (p : BlockPool) (i : Nat) : Except Fault BlockPool := do
  let (b, p) ← p.getFreeBlock cfg env i
  .ok { p with lastFreeBlock := p.lastFreeBlock.set i b }

/-- The pool after the constructor (page_mapping.cc:31–86). The constructor of
the first block refuses a page without I/O units (block.cc:62–64). -/
def init (cfg : Config) (env : Env) : Except Fault BlockPool :=
  if cfg.ioUnitInPage = 0 ∧ 0 < cfg.totalPhysicalBlocks then
    .error (.panic "Block::Block" "Invalid I/O unit in page")
  else (List.range cfg.pageCountToMaxPerf).foldlM (openLane cfg env) (fresh cfg)

/-! ### What taking a free block does -/

/-- Block `b` goes from the free list into use, and nothing else moves. -/
structure Takes (p p' : BlockPool) (b : Block) : Prop where
  free : p.freeBlocks.Perm (b :: p'.freeBlocks)
  fresh : b.idx ∉ p.blocks
  used : p'.blocks.entries.Perm ((b.idx, b) :: p.blocks.entries)
  count : p'.nFreeBlocks = p.nFreeBlocks - 1
  retired : p'.retired = p.retired
  iomap : p'.lastFreeBlockIOMap = p.lastFreeBlockIOMap

theorem Takes.find? {p p' : BlockPool} {b : Block} (h : p.Takes p' b) (k : Nat) :
    p'.blocks.find? k = if k = b.idx then some b else p.blocks.find? k := by
  refine Option.ext fun b' => ?_
  rw [UnorderedMap.find?_eq_some_iff, h.used.mem_iff, List.mem_cons, Prod.mk.injEq]
  split
  · next hk =>
    subst hk
    have hno : (b.idx, b') ∉ p.blocks.entries := fun hm =>
      h.fresh (UnorderedMap.mem_iff.mpr ⟨b', hm⟩)
    simp [hno, eq_comm]
  · next hk => simp [hk, UnorderedMap.find?_eq_some_iff]

section Allocate

variable {cfg : Config} {env : Env} {p p' : BlockPool}

/-- `getFreeBlock` takes one free block. -/
theorem getFreeBlock_spec {i k : Nat} (h : p.getFreeBlock cfg env i = .ok (k, p')) :
    ∃ b, k = b.idx ∧ p.Takes p' b ∧ p'.lastFreeBlock = p.lastFreeBlock ∧
      p'.lastFreeBlockIndex = p.lastFreeBlockIndex ∧ p'.erasedBlockId = p.erasedBlockId := by
  rw [getFreeBlock] at h
  split at h
  · cases h
  · split at h
    · cases h
    · simp only at h
      split at h
      · cases h
      · next b hb =>
        split at h
        · cases h
        · next hfresh =>
          cases h
          obtain ⟨hlt, hget⟩ := List.getElem?_eq_some_iff.mp hb
          refine ⟨b, rfl, ⟨?_, hfresh, ?_, rfl, rfl, rfl⟩, rfl, rfl, rfl⟩
          · rw [← hget]
            exact (List.getElem_cons_eraseIdx_perm hlt).symm
          · exact UnorderedMap.emplace_perm hfresh _ b

/-- The lane of the next program is chosen without touching a block. -/
theorem selectLane_spec {iomap : Bitset} (h : p.selectLane cfg iomap = .ok p') :
    ∃ i m, p' = { p with lastFreeBlockIndex := i, lastFreeBlockIOMap := m } := by
  rw [selectLane] at h
  split at h
  · rw [Except.bind_eq_ok] at h
    obtain ⟨common, -, h⟩ := h
    split at h
    · cases h
      exact ⟨_, _, rfl⟩
    · rw [Except.bind_eq_ok] at h
      obtain ⟨merged, -, h⟩ := h
      cases h
      exact ⟨p.lastFreeBlockIndex, _, rfl⟩
  · cases h
    exact ⟨_, _, rfl⟩

theorem lastFreeBlockAt_spec {i cur : Nat} (h : p.lastFreeBlockAt i = .ok cur) :
    p.lastFreeBlock[i]? = some cur := by
  rw [lastFreeBlockAt] at h
  split at h
  · next hget => cases h; exact hget
  · cases h

theorem openBlock_spec {k : Nat} (h : p.openBlock cfg env = .ok (k, p')) :
    ∃ b, k = b.idx ∧ p.Takes p' b ∧
      p'.lastFreeBlock = p.lastFreeBlock.set p.lastFreeBlockIndex b.idx ∧
      p'.lastFreeBlockIndex = p.lastFreeBlockIndex ∧ p'.erasedBlockId = p.erasedBlockId := by
  rw [openBlock, Except.bind_eq_ok] at h
  obtain ⟨⟨k', q⟩, hget, h⟩ := h
  cases h
  obtain ⟨b, rfl, ht, hl, hi, he⟩ := getFreeBlock_spec hget
  exact ⟨b, rfl, ⟨ht.free, ht.fresh, ht.used, ht.count, ht.retired, ht.iomap⟩, by rw [← hl, ← hi],
    hi, he⟩

/-- The open block is kept, or it is listed in `erased_block_id` and replaced. -/
theorem replaceErased_spec (h : p.replaceErased cfg env = .ok p') :
    ∃ cur, p.lastFreeBlock[p.lastFreeBlockIndex]? = some cur ∧
      ((cur ∉ p.erasedBlockId ∧ p' = p) ∨
        (cur ∈ p.erasedBlockId ∧ ∃ b, p.Takes p' b ∧
          p'.lastFreeBlock = p.lastFreeBlock.set p.lastFreeBlockIndex b.idx ∧
          p'.lastFreeBlockIndex = p.lastFreeBlockIndex ∧
          p'.erasedBlockId = p.erasedBlockId.filter fun b => b ≠ cur)) := by
  rw [replaceErased, Except.bind_eq_ok] at h
  obtain ⟨cur, hcur, h⟩ := h
  refine ⟨cur, lastFreeBlockAt_spec hcur, ?_⟩
  split at h
  · next hmem =>
    rw [Except.bind_eq_ok] at h
    obtain ⟨⟨k, q⟩, hopen, h⟩ := h
    cases h
    obtain ⟨b, -, ht, hl, hi, he⟩ := openBlock_spec hopen
    exact .inr ⟨hmem, b, ⟨ht.free, ht.fresh, ht.used, ht.count, ht.retired, ht.iomap⟩, hl, hi,
      by simp only [he]⟩
  · next hmem =>
    cases h
    exact .inl ⟨hmem, rfl⟩

/-- The open block is in use; it is kept, or it is full and replaced. -/
theorem replaceFull_spec {k : Nat} (h : p.replaceFull cfg env = .ok (k, p')) :
    ∃ cur b₀, p.lastFreeBlock[p.lastFreeBlockIndex]? = some cur ∧
      p.blocks.find? cur = some b₀ ∧
      ((b₀.getNextWritePageIndex ≠ cfg.pagesInBlock ∧ k = cur ∧ p' = p) ∨
        (b₀.getNextWritePageIndex = cfg.pagesInBlock ∧ ∃ b, k = b.idx ∧ p.Takes p' b ∧
          p'.lastFreeBlock = p.lastFreeBlock.set p.lastFreeBlockIndex b.idx ∧
          p'.lastFreeBlockIndex = p.lastFreeBlockIndex ∧
          p'.erasedBlockId = p.erasedBlockId)) := by
  rw [replaceFull, Except.bind_eq_ok] at h
  obtain ⟨cur, hcur, h⟩ := h
  split at h
  · cases h
  · next b₀ hb₀ =>
    refine ⟨cur, b₀, lastFreeBlockAt_spec hcur, hb₀, ?_⟩
    split at h
    · next hfull =>
      rw [Except.bind_eq_ok] at h
      obtain ⟨⟨k', q⟩, hopen, h⟩ := h
      cases h
      obtain ⟨b, rfl, ht, hl, hi, he⟩ := openBlock_spec hopen
      exact .inr
        ⟨hfull, b, rfl, ⟨ht.free, ht.fresh, ht.used, ht.count, ht.retired, ht.iomap⟩, hl, hi, he⟩
    · next hfull =>
      cases h
      exact .inl ⟨hfull, rfl, rfl⟩

/-- `getLastFreeBlock` chooses a lane, renews an erased open block, then a full one. -/
theorem getLastFreeBlock_spec {iomap : Bitset} {k : Nat}
    (h : p.getLastFreeBlock cfg env iomap = .ok (k, p')) :
    ∃ p₁ p₂, p.selectLane cfg iomap = .ok p₁ ∧ p₁.replaceErased cfg env = .ok p₂ ∧
      p₂.replaceFull cfg env = .ok (k, p') := by
  rw [getLastFreeBlock, Except.bind_eq_ok] at h
  obtain ⟨p₁, h₁, h⟩ := h
  rw [Except.bind_eq_ok] at h
  obtain ⟨p₂, h₂, h₃⟩ := h
  exact ⟨p₁, p₂, h₁, h₂, h₃⟩

/-- `getLastFreeBlock` only takes ids out of `erased_block_id`. -/
theorem getLastFreeBlock_erasedBlockId {iomap : Bitset} {k : Nat}
    (h : p.getLastFreeBlock cfg env iomap = .ok (k, p')) :
    p'.erasedBlockId ⊆ p.erasedBlockId := by
  obtain ⟨p₁, p₂, h₁, h₂, h₃⟩ := getLastFreeBlock_spec h
  obtain ⟨i, m, rfl⟩ := selectLane_spec h₁
  have hp₂ : p₂.erasedBlockId ⊆ p.erasedBlockId := by
    obtain ⟨cur, -, ⟨-, rfl⟩ | ⟨-, b, -, -, -, he⟩⟩ := replaceErased_spec h₂
    · exact fun _ h => h
    · rw [he]
      exact List.filter_sublist.subset
  obtain ⟨cur, b₀, -, -, ⟨-, -, rfl⟩ | ⟨-, b, -, -, -, -, he⟩⟩ := replaceFull_spec h₃
  · exact hp₂
  · rw [he]
    exact hp₂

/-- A property that the choice of a lane and the taking of a free block keep is
kept by `getLastFreeBlock`. -/
theorem getLastFreeBlock_rule {P : BlockPool → Prop}
    (hlane : ∀ {p : BlockPool} {i m}, P p →
      P { p with lastFreeBlockIndex := i, lastFreeBlockIOMap := m })
    (htakes : ∀ {p p' : BlockPool} {b : Block}, P p → p.Takes p' b → P p')
    {iomap : Bitset} {k : Nat} (hp : P p) (h : p.getLastFreeBlock cfg env iomap = .ok (k, p')) :
    P p' := by
  obtain ⟨p₁, p₂, h₁, h₂, h₃⟩ := getLastFreeBlock_spec h
  obtain ⟨i, m, rfl⟩ := selectLane_spec h₁
  have hp₂ : P p₂ := by
    obtain ⟨cur, -, ⟨-, rfl⟩ | ⟨-, b, ht, -⟩⟩ := replaceErased_spec h₂
    · exact hlane hp
    · exact htakes (hlane hp) ht
  obtain ⟨cur, b₀, -, -, ⟨-, -, rfl⟩ | ⟨-, b, -, ht, -⟩⟩ := replaceFull_spec h₃
  · exact hp₂
  · exact htakes hp₂ ht

/-- The constructor takes one free block for each lane. -/
theorem init_rule {P : BlockPool → Prop} (hfresh : P (fresh cfg))
    (htakes : ∀ {p p' : BlockPool} {b : Block}, P p → p.Takes p' b → P p')
    (h : init cfg env = .ok p) : P p := by
  rw [init] at h
  split at h
  · cases h
  · refine Run.foldlM_inv (fun q i q' hq hi => ?_) hfresh h
    rw [openLane, Except.bind_eq_ok] at hi
    obtain ⟨⟨k, q₁⟩, hget, hi⟩ := hi
    cases hi
    obtain ⟨b, -, ht, -⟩ := getFreeBlock_spec hget
    exact htakes hq ⟨ht.free, ht.fresh, ht.used, ht.count, ht.retired, ht.iomap⟩

end Allocate

/-! ### What erasing does -/

theorem insertBehind_perm (b : Block) (l : List Block) : (insertBehind b l).Perm (b :: l) := by
  induction l with
  | nil => rfl
  | cons x xs ih =>
    rw [insertBehind]
    split
    · rfl
    · exact (ih.cons x).trans (List.Perm.swap b x xs)

/-- The pool's part of `eraseInternal` moves an erased block in use to the free
list, or to the retired blocks. -/
theorem eraseBlock_spec {cfg : Config} {p p' : BlockPool} {k : Nat}
    (h : eraseBlock cfg p k = .ok p') :
    ∃ b, p.blocks.find? k = some b ∧ p'.blocks = p.blocks.erase k ∧
      p'.lastFreeBlock = p.lastFreeBlock ∧ p'.lastFreeBlockIOMap = p.lastFreeBlockIOMap ∧
      p'.erasedBlockId = p.erasedBlockId ∧
      ((p'.freeBlocks.Perm (b.erase :: p.freeBlocks) ∧ p'.nFreeBlocks = p.nFreeBlocks + 1 ∧
          p'.retired = p.retired) ∨
        (p'.freeBlocks = p.freeBlocks ∧ p'.nFreeBlocks = p.nFreeBlocks ∧
          p'.retired = b.erase :: p.retired)) := by
  rw [eraseBlock] at h
  split at h
  · cases h
  · next b hb =>
    refine ⟨b, hb, ?_⟩
    simp only at h
    split at h
    · cases h
      refine ⟨rfl, rfl, rfl, rfl, .inl ⟨?_, rfl, rfl⟩⟩
      exact (List.reverse_perm _).trans ((insertBehind_perm _ _).trans
        ((List.reverse_perm p.freeBlocks).cons _))
    · cases h
      exact ⟨rfl, rfl, rfl, rfl, .inr ⟨rfl, rfl, rfl⟩⟩

/-- A block that is retired has reached the threshold. -/
theorem eraseBlock_retired {cfg : Config} {p p' : BlockPool} {k : Nat}
    (h : eraseBlock cfg p k = .ok p') :
    ∀ b ∈ p'.retired, b ∈ p.retired ∨ cfg.badBlockThreshold ≤ b.eraseCount := by
  rw [eraseBlock] at h
  split at h
  · cases h
  · simp only at h
    split at h
    · cases h
      exact fun _ hb => .inl hb
    · next hworn =>
      cases h
      intro b hb
      rcases List.mem_cons.mp hb with rfl | hb
      · exact .inr (not_lt.mp hworn)
      · exact .inl hb

end BlockPool

end SimpleSSD.FTL
