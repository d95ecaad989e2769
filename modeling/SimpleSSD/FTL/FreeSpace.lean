import SimpleSSD.FTL.Partition

/-!
# Free space is not leaked

A block that is in use but not open for writing is programmed to its last page
(`NoLeak`); victim selection looks at such blocks only, so a part-written block
that is no longer open is out of reach for good.

`getLastFreeBlock` abandons the open block of a lane in two cases: when it is
full, and when `erased_block_id` lists it. The second test was meant for a block
that a collection erased while it was open. Its id stays in the list when the
block is taken into use again, so the test also hits blocks in use
(page_mapping.cc:560–565). `KeepsOpen` is the condition that it does not.
-/

namespace SimpleSSD.FTL

namespace BlockPool

/-- Every block in use is open for writing or programmed to its last page. -/
def NoLeak (cfg : Config) (p : BlockPool) : Prop :=
  ∀ e ∈ p.blocks.entries, e.1 ∈ p.lastFreeBlock ∨ e.2.getNextWritePageIndex = cfg.pagesInBlock

instance (cfg : Config) (p : BlockPool) : Decidable (p.NoLeak cfg) :=
  inferInstanceAs (Decidable (∀ e ∈ p.blocks.entries, _))

/-- The open block `cur` of lane `i` may be given up: it is not in use, or full,
or open in another lane too. -/
def Abandonable (cfg : Config) (p : BlockPool) (i cur : Nat) : Prop :=
  ∀ b ∈ p.blocks.find? cur, b.getNextWritePageIndex = cfg.pagesInBlock ∨
    ∃ j ∈ List.range p.lastFreeBlock.length, j ≠ i ∧ p.lastFreeBlock[j]? = some cur

instance (cfg : Config) (p : BlockPool) (i cur : Nat) : Decidable (p.Abandonable cfg i cur) :=
  inferInstanceAs (Decidable (∀ b ∈ p.blocks.find? cur, _))

/-- The next allocation gives up no part-written block: if the lane's open block
is listed in `erased_block_id`, it may be given up. -/
def KeepsOpen (cfg : Config) (p : BlockPool) (iomap : Bitset) : Prop :=
  (p.selectLane cfg iomap).All fun q =>
    ∀ cur ∈ q.lastFreeBlock[q.lastFreeBlockIndex]?, cur ∈ q.erasedBlockId →
      q.Abandonable cfg q.lastFreeBlockIndex cur

instance (cfg : Config) (p : BlockPool) (iomap : Bitset) : Decidable (p.KeepsOpen cfg iomap) :=
  inferInstanceAs (Decidable ((p.selectLane cfg iomap).All _))

section NoLeak

variable {cfg : Config} {env : Env} {p p' : BlockPool}

theorem noLeak_iff : p.NoLeak cfg ↔ ∀ k b, p.blocks.find? k = some b →
    k ∈ p.lastFreeBlock ∨ b.getNextWritePageIndex = cfg.pagesInBlock := by
  constructor
  · intro h k b hb
    exact h (k, b) (UnorderedMap.find?_eq_some_iff.mp hb)
  · intro h e he
    exact h e.1 e.2 (UnorderedMap.find?_eq_some_iff.mpr he)

/-- An access does not take pages back from a full block. -/
theorem full_access (hp : p.Formatted cfg) {k : Nat} {b b' : Block}
    (hb : p.blocks.find? k = some b) (ha : b.Access b')
    (h : b.getNextWritePageIndex = cfg.pagesInBlock) :
    b'.getNextWritePageIndex = cfg.pagesInBlock := by
  have hle := ha.getNextWritePageIndex_le
  have hmax := b'.getNextWritePageIndex_le
  rw [ha.geometry.1, (hp.used k b hb).1] at hmax
  omega

theorem NoLeak.access (hp : p.NoLeak cfg) (hf : p.Formatted cfg) {k : Nat} {b b' : Block}
    (hb : p.blocks.find? k = some b) (ha : b.Access b') : (p.putBlock k b').NoLeak cfg := by
  rw [noLeak_iff] at hp ⊢
  intro k' c hc
  rw [putBlock, UnorderedMap.find?_set] at hc
  split at hc
  · next hk =>
    cases hc
    subst hk
    exact (hp k' b hb).imp_right (full_access hf hb ha)
  · exact hp k' c hc

/-- A lane may give up its open block for a free one under `Abandonable`. -/
theorem NoLeak.takes {i cur : Nat} {b : Block} (hp : p.NoLeak cfg) (ht : p.Takes p' b)
    (hcur : p.lastFreeBlock[i]? = some cur) (hl : p'.lastFreeBlock = p.lastFreeBlock.set i b.idx)
    (hc : p.Abandonable cfg i cur) : p'.NoLeak cfg := by
  rw [noLeak_iff] at hp ⊢
  obtain ⟨hlt, hget⟩ := List.getElem?_eq_some_iff.mp hcur
  have hkeep : ∀ j k, j ≠ i → p.lastFreeBlock[j]? = some k → k ∈ p'.lastFreeBlock := by
    intro j k hj hk
    rw [hl]
    exact List.mem_of_getElem? (by rw [List.getElem?_set_ne (Ne.symm hj)]; exact hk)
  intro k c hk
  rw [ht.find?] at hk
  split at hk
  · next heq =>
    left
    rw [heq, hl]
    exact List.mem_set hlt b.idx
  · rcases hp k c hk with hmem | hfull
    · obtain ⟨j, hj⟩ := List.mem_iff_getElem?.mp hmem
      by_cases hji : j = i
      · -- the block that the lane gives up
        subst hji
        rw [hcur] at hj
        cases hj
        rcases hc c hk with hfull | ⟨j', -, hne, hj'⟩
        · exact .inr hfull
        · exact .inl (hkeep j' _ hne hj')
      · exact .inl (hkeep j k hji hj)
    · exact .inr hfull

theorem NoLeak.getLastFreeBlock {iomap : Bitset} {k : Nat} (hp : p.NoLeak cfg)
    (hc : p.KeepsOpen cfg iomap) (h : p.getLastFreeBlock cfg env iomap = .ok (k, p')) :
    p'.NoLeak cfg := by
  obtain ⟨p₁, p₂, h₁, h₂, h₃⟩ := getLastFreeBlock_spec h
  have hc₁ := hc.of_ok h₁
  have hp₁ : p₁.NoLeak cfg := by
    obtain ⟨i, m, rfl⟩ := selectLane_spec h₁
    exact hp
  have hp₂ : p₂.NoLeak cfg := by
    obtain ⟨cur, hcur, ⟨-, rfl⟩ | ⟨hmem, b, ht, hl, -, -⟩⟩ := replaceErased_spec h₂
    · exact hp₁
    · exact hp₁.takes ht hcur hl (hc₁ cur hcur hmem)
  obtain ⟨cur, b₀, hcur, hb₀, ⟨-, -, rfl⟩ | ⟨hfull, b, -, ht, hl, -, -⟩⟩ := replaceFull_spec h₃
  · exact hp₂
  · refine hp₂.takes ht hcur hl fun c hcb => .inl ?_
    rw [hb₀] at hcb
    cases hcb
    exact hfull

theorem NoLeak.erase {k : Nat} (hp : p.NoLeak cfg) (h : eraseBlock cfg p k = .ok p') :
    p'.NoLeak cfg := by
  obtain ⟨b, hb, hblocks, hl, -⟩ := eraseBlock_spec h
  rw [noLeak_iff] at hp ⊢
  intro k' c hc
  rw [hblocks, UnorderedMap.find?_erase] at hc
  split at hc
  · cases hc
  · rw [hl]
    exact hp k' c hc

/-- The choice of the lane does not look at the blocks. -/
theorem selectLane_putBlock (iomap : Bitset) (k : Nat) (b : Block) :
    (p.putBlock k b).selectLane cfg iomap =
      (p.selectLane cfg iomap).map fun q => q.putBlock k b := by
  rw [selectLane, selectLane]
  split
  · show (p.lastFreeBlockIOMap.and iomap >>= _) = _
    cases p.lastFreeBlockIOMap.and iomap with
    | error e => rfl
    | ok common =>
      show ite _ _ _ = Except.map _ (ite _ _ _)
      split
      · rfl
      · show (p.lastFreeBlockIOMap.or iomap >>= _) =
          Except.map _ (p.lastFreeBlockIOMap.or iomap >>= _)
        cases p.lastFreeBlockIOMap.or iomap <;> rfl
  · rfl

theorem Abandonable.access {i cur k : Nat} {b b' : Block} (hf : p.Formatted cfg)
    (hp : p.Abandonable cfg i cur) (hb : p.blocks.find? k = some b) (ha : b.Access b') :
    (p.putBlock k b').Abandonable cfg i cur := by
  intro c hc
  rw [putBlock, Option.mem_def, UnorderedMap.find?_set] at hc
  split at hc
  · next hk =>
    cases hc
    subst hk
    exact (hp b hb).imp_left (full_access hf hb ha)
  · exact hp c hc

theorem KeepsOpen.access {iomap : Bitset} {k : Nat} {b b' : Block} (hf : p.Formatted cfg)
    (hp : p.KeepsOpen cfg iomap) (hb : p.blocks.find? k = some b) (ha : b.Access b') :
    (p.putBlock k b').KeepsOpen cfg iomap := by
  refine Except.all_iff.mpr fun q hq cur hcur hmem => ?_
  rw [selectLane_putBlock] at hq
  obtain ⟨q, hlane, rfl⟩ := Except.map_eq_ok.mp hq
  obtain ⟨i, m, rfl⟩ := selectLane_spec hlane
  exact (hp.of_ok hlane cur hcur hmem).access (hf.congr rfl rfl) hb ha

/-- With no id listed no block is given up. -/
theorem keepsOpen_of_nil (h : p.erasedBlockId = []) (iomap : Bitset) : p.KeepsOpen cfg iomap := by
  refine Except.all_iff.mpr fun q hq cur _ hmem => ?_
  obtain ⟨i, m, rfl⟩ := selectLane_spec hq
  rw [h] at hmem
  cases hmem

/-- `NoLeak` is an invariant under allocations that keep part-written blocks open. -/
theorem noLeak_invariant (cfg : Config) (env : Env) :
    PoolInvariant cfg env (KeepsOpen cfg) (fun p => p.NoLeak cfg ∧ p.Formatted cfg)
      (fun _ => True) where
  access := fun _ _ _ _ hp hb ha => ⟨hp.1.access hp.2 hb ha, Formatted.access hp.2 hb ha⟩
  alloc_access := fun _ _ _ _ _ hp hb ha =>
    ⟨⟨hp.1.1.access hp.1.2 hb ha, Formatted.access hp.1.2 hb ha⟩, hp.2.access hp.1.2 hb ha⟩
  allocate := fun hp hc => Except.sat_iff.mpr ⟨fun _ h => ⟨hp.1.getLastFreeBlock hc h,
    ((formatted_invariant cfg env).allocate hp.2 trivial).of_ok h⟩, fun _ _ => trivial⟩
  fault := fun _ => trivial
  erase := by
    intro p k hp
    have hp' : NoLeak cfg { p with erasedBlockId := p.erasedBlockId ++ [k] } := hp.1
    exact Except.sat_iff.mpr ⟨fun _ h => ⟨hp'.erase h,
      ((formatted_invariant cfg env).erase hp.2).of_ok h⟩, fun _ _ => trivial⟩
  select := fun hp => ⟨hp.1, hp.2.congr rfl rfl⟩

/-- While no block has been erased, the program path leaks nothing. -/
theorem noLeak_program_invariant (cfg : Config) (env : Env) :
    ProgramInvariant cfg env (KeepsOpen cfg)
      (fun p => (p.NoLeak cfg ∧ p.Formatted cfg) ∧ p.erasedBlockId = []) (fun _ => True) where
  access := fun _ _ _ _ hp hb ha => ⟨(noLeak_invariant cfg env).access hp.1 hb ha, hp.2⟩
  alloc_access := fun _ _ _ _ _ hp hb ha =>
    have h := (noLeak_invariant cfg env).alloc_access _ ⟨hp.1.1, hp.2⟩ hb ha
    ⟨⟨h.1, hp.1.2⟩, h.2⟩
  allocate := by
    intro p iomap hp hc
    refine Except.sat_iff.mpr ⟨fun r h => ⟨?_, ?_⟩, fun _ _ => trivial⟩
    · exact ((noLeak_invariant cfg env).allocate hp.1 hc).of_ok h
    · exact List.subset_nil.mp (hp.2 ▸ getLastFreeBlock_erasedBlockId h)
  fault := fun _ => trivial

/-! ### The constructor -/

/-- The lanes below `n` hold all blocks in use. -/
structure Opening (cfg : Config) (n : Nat) (p : BlockPool) : Prop where
  lanes : p.lastFreeBlock.length = cfg.pageCountToMaxPerf
  open_lt : ∀ k ∈ p.blocks, ∃ i < n, p.lastFreeBlock[i]? = some k
  erased : p.erasedBlockId = []

theorem Opening.openLane {n : Nat} (hn : n < cfg.pageCountToMaxPerf) (hp : p.Opening cfg n)
    (h : openLane cfg env p n = .ok p') : p'.Opening cfg (n + 1) := by
  rw [BlockPool.openLane, Except.bind_eq_ok] at h
  obtain ⟨⟨k, q⟩, hget, h⟩ := h
  cases h
  obtain ⟨b, rfl, ht, hl, -, he⟩ := getFreeBlock_spec hget
  refine ⟨by simp [hl, hp.lanes], fun k hk => ?_, by simp [he, hp.erased]⟩
  obtain ⟨c, hc⟩ := UnorderedMap.mem_iff_find?.mp hk
  rw [ht.find?] at hc
  split at hc
  · next heq =>
    refine ⟨n, by omega, ?_⟩
    rw [hl, heq, List.getElem?_set_self (by rw [hp.lanes]; exact hn)]
  · obtain ⟨i, hi, hget⟩ := hp.open_lt k (UnorderedMap.mem_of_find? hc)
    exact ⟨i, by omega, by rw [hl, List.getElem?_set_ne (by omega)]; exact hget⟩

theorem init_noLeak (h : BlockPool.init cfg env = .ok p) :
    p.NoLeak cfg ∧ p.erasedBlockId = [] := by
  rw [BlockPool.init] at h
  split at h
  · cases h
  · have hopen : p.Opening cfg cfg.pageCountToMaxPerf := by
      refine Run.foldlM_range (fun i p p' hi hp h => hp.openLane hi h) ⟨?_, ?_, rfl⟩ h
      · simp [fresh]
      · rintro k ⟨⟩
    refine ⟨noLeak_iff.mpr fun k b hb => .inl ?_, hopen.erased⟩
    obtain ⟨i, -, hi⟩ := hopen.open_lt k (UnorderedMap.mem_of_find? hb)
    exact List.mem_of_getElem? hi

end NoLeak

end BlockPool

section Reachable

variable {cfg : Config} {env : Env}

theorem start_noLeak (warmUp : Option World) :
    (PageMapping.start cfg env warmUp).Sat (fun s => s.pool.NoLeak cfg ∧ s.pool.Formatted cfg)
      fun _ => True := by
  have hinit : (BlockPool.init cfg env).Sat
      (fun p => (p.NoLeak cfg ∧ p.Formatted cfg) ∧ p.erasedBlockId = []) fun _ => True := by
    refine Except.sat_iff.mpr ⟨fun p h => ?_, fun _ _ => trivial⟩
    have hformatted : p.Formatted cfg :=
      BlockPool.init_rule (BlockPool.formatted_fresh cfg) BlockPool.Formatted.takes h
    exact ⟨⟨(BlockPool.init_noLeak h).1, hformatted⟩, (BlockPool.init_noLeak h).2⟩
  refine ((BlockPool.noLeak_program_invariant cfg env).start
    (fun hp => BlockPool.keepsOpen_of_nil hp.2 _) hinit warmUp).mono (fun s hs => hs.1) fun _ h => h

/-- No free space is leaked in a run whose allocations all keep part-written
blocks open: every block in use is open for writing or programmed to its last
page. -/
theorem no_space_leaked (warmUp : Option World) (calls : List (World × Op)) (s₀ s : PageMapping)
    (hstart : PageMapping.start cfg env warmUp = .ok s₀)
    (hkeeps : Run.Along (Op.exec cfg env)
      (Op.Meets cfg env (AllocConditions cfg (BlockPool.KeepsOpen cfg))) s₀ calls)
    (hrun : run cfg env s₀ calls = .ok s) : s.pool.NoLeak cfg :=
  (((BlockPool.noLeak_invariant cfg env).run ((start_noLeak warmUp).of_ok hstart)
    hkeeps).of_ok hrun).1

/-- Block 0 is filled, erased and taken into use again, and its id leaves
`erased_block_id` before that. -/
theorem no_space_leaked_small : ∃ s₀ s, PageMapping.start (.small 3) .zero none = .ok s₀ ∧
    run (.small 3) .zero s₀ (calls [.write (.page 0), .format ⟨0, 1⟩, .write (.page 1),
      .write (.page 2), .write (.page 3), .write (.page 4), .write (.page 5)]) = .ok s ∧
    s.pool.NoLeak (.small 3) := by
  obtain ⟨s₀, hstart, hkeeps, hrun⟩ := Except.exists_of_map
    (x := PageMapping.start (.small 3) .zero none)
    (p := fun s₀ => Run.Along (Op.exec (.small 3) .zero)
      (Op.Meets (.small 3) .zero (AllocConditions (.small 3) (BlockPool.KeepsOpen (.small 3)))) s₀
        (calls [.write (.page 0), .format ⟨0, 1⟩, .write (.page 1),
          .write (.page 2), .write (.page 3), .write (.page 4), .write (.page 5)]) ∧
      (run (.small 3) .zero s₀ (calls [.write (.page 0), .format ⟨0, 1⟩, .write (.page 1),
        .write (.page 2), .write (.page 3), .write (.page 4), .write (.page 5)])).map
        (fun _ => decide True) = .ok true)
    (by decide +kernel)
  obtain ⟨s, hs, -⟩ := Except.exists_of_map hrun
  exact ⟨s₀, s, hstart, hs, no_space_leaked none _ s₀ s hstart hkeeps hs⟩

/-- Writes and formats after which block 0 is part-written and not open: it is
erased while it is full, taken into use again, and given up after one page
because `erased_block_id` still lists it. -/
def leakingCalls : List (World × Op) :=
  calls [.write (.page 0), .write (.page 1), .write (.page 2), .format ⟨0, 2⟩,
    .write (.page 3), .write (.page 4), .write (.page 5), .write (.page 6),
    .format ⟨2, 2⟩, .write (.page 7)]

theorem space_leaked : ∃ s₀ s, PageMapping.start (.small 3) .zero none = .ok s₀ ∧
    run (.small 3) .zero s₀ leakingCalls = .ok s ∧ ¬ s.pool.NoLeak (.small 3) := by
  obtain ⟨s₀, hstart, hrun⟩ := Except.exists_of_map
    (x := PageMapping.start (.small 3) .zero none)
    (p := fun s₀ => (run (.small 3) .zero s₀ leakingCalls).map
      (fun s => decide (¬ s.pool.NoLeak (.small 3))) = .ok true)
    (by decide +kernel)
  obtain ⟨s, hs, hleak⟩ := Except.exists_of_map hrun
  exact ⟨s₀, s, hstart, hs, hleak⟩

end Reachable

end SimpleSSD.FTL
