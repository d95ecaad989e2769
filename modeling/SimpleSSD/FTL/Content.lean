import SimpleSSD.FTL.Partition

/-!
# What the flash holds

With one I/O unit a page, `content` gives for each flash page the logical page
that it validly stores. The operations on blocks are updates of this function at
one page, opening a block leaves it alone, and erasing a block clears the block.
Everything later modules say about valid pages goes through these equations.
-/

namespace SimpleSSD.FTL

namespace Block

/-- The logical page that a page of the block validly stores. -/
def contentAt (b : Block) (pageIndex : Nat) : Option Nat :=
  if (pageIndex, 0) ∈ b.validBits then some (b.lpns (pageIndex, 0)) else none

section Content

variable {b b' : Block} {p lpn : Nat}

/-- Nothing is stored from the write pointer on. -/
theorem contentAt_of_next_le (h : b.pNextWritePageIndex 0 ≤ p) : b.contentAt p = none := by
  rw [contentAt, if_neg]
  intro hmem
  have hlt := b.valid_lt _ hmem
  simp only at hlt
  omega

theorem contentAt_read {i : Nat} {r : Bool × Block} (h : b.read p i = .ok r) :
    r.2.contentAt = b.contentAt := by
  rw [(read_spec (v := r.1) h).2.2.2]
  rfl

theorem contentAt_deCache (h : b.deCache p = .ok b') : b'.contentAt = b.contentAt := by
  rw [(deCache_spec h).2]
  rfl

theorem contentAt_invalidate :
    (b.invalidate p 0).contentAt = Function.update b.contentAt p none := by
  funext p'
  unfold contentAt invalidate
  by_cases hp : p' = p
  · subst hp
    simp
  · simp [hp]

theorem contentAt_write (h : b.write p lpn 0 = .ok b') :
    b'.contentAt = Function.update b.contentAt p (some lpn) := by
  obtain ⟨-, -, -, -, -, -, hvalid, hlpns, -⟩ := write_spec h
  funext p'
  unfold contentAt
  rw [hvalid, hlpns]
  by_cases hp : p' = p
  · subst hp
    simp
  · simp [hp]

end Content

end Block

namespace BlockPool

/-- The logical page that a flash page validly stores, if its block is in use. -/
def content (p : BlockPool) (page : Nat × Nat) : Option Nat :=
  (p.blocks.find? page.1).bind fun b => b.contentAt page.2

/-- The pool properties that hold in every reachable state. -/
structure WellFormed (cfg : Config) (p : BlockPool) : Prop
    extends Partitioned cfg p, Formatted cfg p where
  lane_size : cfg.randomIOTweak = true → p.lastFreeBlockIOMap.dataSize = cfg.ioUnitInPage

section Content

variable {cfg : Config} {env : Env} {p p' : BlockPool} {b b' : Block} {k : Nat}

/-- Exchanging a block for one that stores the same. -/
theorem content_putBlock_same (hb : p.blocks.find? k = some b) (h : b'.contentAt = b.contentAt) :
    (p.putBlock k b').content = p.content := by
  funext page
  rw [content, content, putBlock, UnorderedMap.find?_set]
  split
  · next hk => rw [hk, hb, Option.bind_some, Option.bind_some, h]
  · rfl

/-- Exchanging a block for one that differs at one page. -/
theorem content_putBlock_update {i : Nat} {o : Option Nat} (hb : p.blocks.find? k = some b)
    (h : b'.contentAt = Function.update b.contentAt i o) :
    (p.putBlock k b').content = Function.update p.content (k, i) o := by
  funext page
  obtain ⟨k', i'⟩ := page
  rw [content, putBlock, UnorderedMap.find?_set]
  by_cases hk : k' = k
  · subst hk
    rw [if_pos rfl, Option.bind_some, h]
    by_cases hi : i' = i
    · subst hi
      rw [Function.update_self, Function.update_self]
    · rw [Function.update_of_ne hi, Function.update_of_ne (by simp [hi]), content, hb]
      rfl
  · rw [if_neg hk, Function.update_of_ne (by simp [hk])]
    rfl

/-- What lies outside the device or outside the blocks in use stores nothing. -/
theorem content_of_not_inRange (hp : p.WellFormed cfg) {page : Nat × Nat}
    (h : ¬ cfg.InRange page) : p.content page = none := by
  rw [content]
  cases hb : p.blocks.find? page.1 with
  | none => rfl
  | some b =>
    have hpage : cfg.pagesInBlock ≤ page.2 := by
      by_contra hlt
      exact h ⟨hp.lt_of_mem (UnorderedMap.mem_of_find? hb), by omega⟩
    refine Block.contentAt_of_next_le ?_
    have hnext := b.next_le 0
    rw [(hp.used _ _ hb).1] at hnext
    omega

/-- Invalidating a page that is not there changes nothing, so the guards of
`writeInternal` do not matter. -/
theorem content_invalidateMapped (hp : p.WellFormed cfg) (page : Nat × Nat) :
    (p.invalidateMapped cfg page 0).content = Function.update p.content page none := by
  rw [invalidateMapped]
  split
  · split
    · next b hb => exact content_putBlock_update hb Block.contentAt_invalidate
    · next hb =>
      rw [Function.update_eq_self_iff.mpr]
      rw [content, hb]
      rfl
  · next hrange =>
    rw [Function.update_eq_self_iff.mpr (content_of_not_inRange hp hrange).symm]

/-- A free block stores nothing, so taking it into use adds nothing. -/
theorem content_takes (hp : p.Formatted cfg) (ht : p.Takes p' b) : p'.content = p.content := by
  funext page
  rw [content, content, ht.find?]
  split
  · next hk =>
    have hfree := hp.free b (ht.free.mem_iff.mpr List.mem_cons_self)
    have hnone : p.blocks.find? page.1 = none :=
      UnorderedMap.find?_eq_none_iff.mpr (hk ▸ ht.fresh)
    rw [hnone, Option.bind_some, Option.bind_none]
    exact Block.contentAt_of_next_le (by rw [hfree.2.2.2]; exact Nat.zero_le _)
  · rfl

theorem content_getLastFreeBlock {iomap : Bitset} (hp : p.Formatted cfg)
    (h : p.getLastFreeBlock cfg env iomap = .ok (k, p')) : p'.content = p.content := by
  have hboth : p'.content = p.content ∧ p'.Formatted cfg :=
    getLastFreeBlock_rule (P := fun q => q.content = p.content ∧ q.Formatted cfg)
      (fun hq => ⟨hq.1, hq.2.congr rfl rfl⟩)
      (fun hq ht => ⟨(content_takes hq.2 ht).trans hq.1, hq.2.takes ht⟩) ⟨rfl, hp⟩ h
  exact hboth.1

/-- Opening a block leaves the blocks in use as they are. -/
theorem find?_getLastFreeBlock {iomap : Bitset} {j : Nat}
    (h : p.getLastFreeBlock cfg env iomap = .ok (k, p')) (hb : p.blocks.find? j = some b) :
    p'.blocks.find? j = some b := by
  refine getLastFreeBlock_rule (P := fun q => q.blocks.find? j = some b) (fun hq => hq)
    (fun hq ht => ?_) hb h
  rw [ht.find?, if_neg]
  · exact hq
  · rintro rfl
    exact ht.fresh (UnorderedMap.mem_of_find? hq)

/-! ### The pool properties as one invariant -/

/-- With the random-I/O tweak a request must have as many units as a page. -/
theorem selectLane_lane_size {iomap : Bitset}
    (hp : cfg.randomIOTweak = true → p.lastFreeBlockIOMap.dataSize = cfg.ioUnitInPage)
    (h : p.selectLane cfg iomap = .ok p') (htweak : cfg.randomIOTweak = true) :
    iomap.dataSize = cfg.ioUnitInPage ∧ p'.lastFreeBlockIOMap.dataSize = cfg.ioUnitInPage := by
  rw [selectLane, if_pos htweak, Except.bind_eq_ok] at h
  obtain ⟨common, hand, h⟩ := h
  have hsize : iomap.dataSize = cfg.ioUnitInPage := by
    rw [Bitset.and] at hand
    split at hand
    · cases hand
    · next hsame => exact (not_not.mp hsame).symm.trans (hp htweak)
  refine ⟨hsize, ?_⟩
  split at h
  · cases h
    exact hsize
  · rw [Except.bind_eq_ok] at h
    obtain ⟨merged, hor, h⟩ := h
    cases h
    rw [Bitset.or] at hor
    split at hor
    · cases hor
    · cases hor
      exact hp htweak

theorem getLastFreeBlock_lane_size {iomap : Bitset}
    (hp : cfg.randomIOTweak = true → p.lastFreeBlockIOMap.dataSize = cfg.ioUnitInPage)
    (h : p.getLastFreeBlock cfg env iomap = .ok (k, p')) (htweak : cfg.randomIOTweak = true) :
    iomap.dataSize = cfg.ioUnitInPage ∧ p'.lastFreeBlockIOMap.dataSize = cfg.ioUnitInPage := by
  obtain ⟨p₁, p₂, h₁, h₂, h₃⟩ := getLastFreeBlock_spec h
  obtain ⟨hsize, hp₁⟩ := selectLane_lane_size hp h₁ htweak
  have hp₂ : p₂.lastFreeBlockIOMap = p₁.lastFreeBlockIOMap := by
    obtain ⟨cur, -, ⟨-, rfl⟩ | ⟨-, b, ht, -⟩⟩ := replaceErased_spec h₂
    · rfl
    · exact ht.iomap
  have hp₃ : p'.lastFreeBlockIOMap = p₂.lastFreeBlockIOMap := by
    obtain ⟨cur, b₀, -, -, ⟨-, -, rfl⟩ | ⟨-, b, -, ht, -⟩⟩ := replaceFull_spec h₃
    · rfl
    · exact ht.iomap
  exact ⟨hsize, by rw [hp₃, hp₂, hp₁]⟩

theorem wellFormed_access (cfg : Config) : AccessClosed (WellFormed cfg) :=
  fun _ _ _ _ hp hb ha =>
    ⟨Partitioned.access hp.toPartitioned hb ha, Formatted.access hp.toFormatted hb ha, hp.lane_size⟩

theorem wellFormed_invariant (cfg : Config) (env : Env) :
    PoolInvariant cfg env (fun _ _ => True) (WellFormed cfg) (fun _ => True) where
  access := wellFormed_access cfg
  alloc_access := fun _ _ _ _ _ hp hb ha => ⟨wellFormed_access cfg hp.1 hb ha, trivial⟩
  allocate := fun hp _ => Except.sat_iff.mpr ⟨fun _ h =>
    ⟨(hp.toPartitioned.getLastFreeBlock _).of_ok h,
      ((formatted_invariant cfg env).allocate hp.toFormatted trivial).of_ok h,
      fun htweak => (getLastFreeBlock_lane_size hp.lane_size h htweak).2⟩, fun _ _ => trivial⟩
  fault := fun _ => trivial
  erase := fun hp => Except.sat_iff.mpr ⟨fun _ h =>
    ⟨((partitioned_invariant cfg env).erase hp.toPartitioned).of_ok h,
      ((formatted_invariant cfg env).erase hp.toFormatted).of_ok h, by
        obtain ⟨b, -, -, -, hiomap, -⟩ := eraseBlock_spec h
        rw [hiomap]
        exact hp.lane_size⟩, fun _ _ => trivial⟩
  select := fun hp => ⟨hp.toPartitioned.congr rfl rfl rfl rfl, hp.toFormatted.congr rfl rfl,
    hp.lane_size⟩

end Content

end BlockPool

end SimpleSSD.FTL
