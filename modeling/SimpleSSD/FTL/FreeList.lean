import SimpleSSD.FTL.Partition

/-!
# The free list stays sorted (page_mapping.cc:2357–2381)

`eraseInternal` puts an erased block back into `freeBlocks` behind the last block that was erased
no more often. It searches backwards from `end()`, and moves the iterator before it looks whether
there is anything to move over: on an empty list it steps back from `end()` and reads a block that
is not there. `reverseSearch` is that search with its iterator, of which `insertBehind` only has
the outcome.

`Reachable` are the pools that a run meets, inside its calls as well as between them.
-/

namespace SimpleSSD.FTL

namespace BlockPool

variable {cfg : Config} {env : Env} {p p' : BlockPool} {b : Block} {l : List Block} {k : Nat}

/-- The loop of the search, before `iter--`. -/
def reverseSearch (freeBlocks : List Block) (erasedCount : Nat) : Nat → Except Fault Nat
  | 0 => .error (.badAccess "freeBlocks.begin()--")
  | iter + 1 =>
    match freeBlocks[iter]? with
    | none => .error (.badAccess "freeBlocks.end()")
    | some block =>
      if block.eraseCount ≤ erasedCount then .ok (iter + 1)
      else if iter = 0 then .ok 0
      else reverseSearch freeBlocks erasedCount iter

/-- The blocks are in the order of their erase counts. -/
def Sorted (l : List Block) : Prop := l.Pairwise fun a b => a.eraseCount ≤ b.eraseCount

/-- The search for the place of an erased block stops at a position of the list, and there the
block keeps the list sorted; `eraseInternal` puts it there. -/
def InsertsSorted (cfg : Config) (p : BlockPool) (k : Nat) (b : Block) : Prop :=
  ∃ pos p', reverseSearch p.freeBlocks b.erase.eraseCount p.freeBlocks.length = .ok pos ∧
    pos ≤ p.freeBlocks.length ∧ eraseBlock cfg p k = .ok p' ∧
    p'.freeBlocks = p.freeBlocks.insertIdx pos b.erase ∧ Sorted p'.freeBlocks ∧
    p'.freeBlocks.Perm (b.erase :: p.freeBlocks)

/-! ### The search -/

theorem insertBehind_append (b : Block) {front rest : List Block}
    (hfront : ∀ x ∈ front, b.eraseCount < x.eraseCount) :
    insertBehind b (front ++ rest) = front ++ insertBehind b rest := by
  induction front with
  | nil => rfl
  | cons x front ih =>
    have hx := hfront x List.mem_cons_self
    rw [List.cons_append, insertBehind, if_neg (Nat.not_le.mpr hx),
      ih fun y hy => hfront y (List.mem_cons_of_mem x hy), List.cons_append]

theorem insertIdx_length (b : Block) (l rest : List Block) :
    (l ++ rest).insertIdx l.length b = l ++ b :: rest := by
  induction l with
  | nil => rfl
  | cons x l ih =>
    rw [List.cons_append, List.length_cons, List.insertIdx_succ_cons, ih, List.cons_append]

/-- The search over the blocks up to `iter`, when those behind were erased more often. -/
theorem reverseSearch_spec (b : Block) (l behind : List Block) (hl : l ≠ [])
    (hbehind : ∀ x ∈ behind, b.eraseCount < x.eraseCount) :
    ∃ pos, reverseSearch (l ++ behind) b.eraseCount l.length = .ok pos ∧ pos ≤ l.length ∧
      (l ++ behind).insertIdx pos b = (insertBehind b (l ++ behind).reverse).reverse := by
  induction l using List.reverseRecOn generalizing behind with
  | nil => exact absurd rfl hl
  | append_singleton l x ih =>
    have hget : (l ++ [x] ++ behind)[l.length]? = some x := by
      rw [List.append_assoc, List.getElem?_append_right le_rfl]
      simp
    have hreverse : (l ++ [x] ++ behind).reverse = behind.reverse ++ x :: l.reverse := by simp
    have hfront : ∀ y ∈ behind.reverse, b.eraseCount < y.eraseCount := fun y hy =>
      hbehind y (List.mem_reverse.mp hy)
    rw [List.length_append, List.length_singleton, reverseSearch, hget]
    dsimp only
    rw [hreverse, insertBehind_append b hfront, insertBehind]
    by_cases hle : x.eraseCount ≤ b.eraseCount
    · -- behind this block
      rw [if_pos hle, if_pos hle]
      refine ⟨_, rfl, le_rfl, ?_⟩
      have hinsert := insertIdx_length b (l ++ [x]) behind
      rw [List.length_append, List.length_singleton] at hinsert
      rw [hinsert]
      simp
    · rw [if_neg hle, if_neg hle]
      by_cases hzero : l.length = 0
      · -- in front of the first block
        rw [if_pos hzero]
        obtain rfl := List.eq_nil_of_length_eq_zero hzero
        refine ⟨0, rfl, Nat.zero_le _, ?_⟩
        simp [insertBehind]
      · rw [if_neg hzero]
        have hmore : ∀ y ∈ x :: behind, b.eraseCount < y.eraseCount := by
          intro y hy
          rcases List.mem_cons.mp hy with rfl | hy
          · exact Nat.not_le.mp hle
          · exact hbehind y hy
        obtain ⟨pos, hpos, hbound, hinsert⟩ :=
          ih (x :: behind) (List.ne_nil_of_length_pos (Nat.pos_of_ne_zero hzero)) hmore
        rw [List.append_cons] at hpos hinsert
        refine ⟨pos, hpos, hbound.trans (Nat.le_succ _), hinsert.trans ?_⟩
        rw [hreverse, insertBehind_append b hfront, insertBehind, if_neg hle]

/-- The search in a list with a block. -/
theorem reverseSearch_ok (b : Block) (hl : l ≠ []) :
    ∃ pos, reverseSearch l b.eraseCount l.length = .ok pos ∧ pos ≤ l.length ∧
      l.insertIdx pos b = (insertBehind b l.reverse).reverse := by
  have hspec := reverseSearch_spec b l [] hl fun x hx => absurd hx List.not_mem_nil
  rwa [List.append_nil] at hspec

/-! ### Sorting -/

theorem insertBehind_pairwise (b : Block) (h : l.Pairwise fun a b => b.eraseCount ≤ a.eraseCount) :
    (insertBehind b l).Pairwise fun a b => b.eraseCount ≤ a.eraseCount := by
  induction l with
  | nil => exact List.pairwise_singleton _ b
  | cons x l ih =>
    obtain ⟨hx, hl⟩ := List.pairwise_cons.mp h
    rw [insertBehind]
    split
    · next hle =>
      refine List.pairwise_cons.mpr ⟨fun y hy => ?_, h⟩
      rcases List.mem_cons.mp hy with rfl | hy
      · exact hle
      · exact (hx y hy).trans hle
    · next hlt =>
      refine List.pairwise_cons.mpr ⟨fun y hy => ?_, ih hl⟩
      rcases List.mem_cons.mp ((insertBehind_perm b l).mem_iff.mp hy) with rfl | hy
      · exact (Nat.not_le.mp hlt).le
      · exact hx y hy

theorem Sorted.insertBehind (h : Sorted l) (b : Block) :
    Sorted (BlockPool.insertBehind b l.reverse).reverse :=
  List.pairwise_reverse.mpr (insertBehind_pairwise b (List.pairwise_reverse.mpr h))

/-- An erased block below the threshold finds its place exactly when the list is not empty. -/
theorem insertsSorted_iff (h : Sorted p.freeBlocks) (hb : p.blocks.find? k = some b)
    (hlt : b.erase.eraseCount < cfg.badBlockThreshold) :
    InsertsSorted cfg p k b ↔ p.freeBlocks ≠ [] := by
  constructor
  · rintro ⟨pos, p', hpos, -⟩ hnil
    rw [hnil] at hpos
    cases hpos
  · intro hne
    obtain ⟨pos, hpos, hbound, hinsert⟩ := reverseSearch_ok b.erase hne
    refine ⟨pos, _, hpos, hbound, by rw [eraseBlock, hb]; exact if_pos hlt, hinsert.symm, ?_, ?_⟩
    · exact h.insertBehind b.erase
    · exact (List.reverse_perm _).trans ((insertBehind_perm _ _).trans
        ((List.reverse_perm p.freeBlocks).cons _))

/-! ### The pools of a run -/

/-- The pools that come about through the constructor, accesses to blocks in use, allocations,
erases and victim selections. -/
inductive Reachable (cfg : Config) (env : Env) : BlockPool → Prop where
  | init {p : BlockPool} (h : BlockPool.init cfg env = .ok p) : Reachable cfg env p
  | access {p : BlockPool} {k : Nat} {b b' : Block} (h : Reachable cfg env p)
      (hb : p.blocks.find? k = some b) (ha : b.Access b') : Reachable cfg env (p.putBlock k b')
  | allocate {p : BlockPool} {iomap : Bitset} {r : Nat × BlockPool} (h : Reachable cfg env p)
      (hr : p.getLastFreeBlock cfg env iomap = .ok r) : Reachable cfg env r.2
  | erase {p p' : BlockPool} {k : Nat} (h : Reachable cfg env p)
      (he : eraseBlock cfg { p with erasedBlockId := p.erasedBlockId ++ [k] } k = .ok p') :
      Reachable cfg env p'
  | select {p : BlockPool} (h : Reachable cfg env p) :
      Reachable cfg env { p with bReclaimMore := false }

theorem getFreeBlock_sublist (i : Nat) :
    (p.getFreeBlock cfg env i).All fun r => r.2.freeBlocks.Sublist p.freeBlocks := by
  rw [getFreeBlock]
  split
  · trivial
  · split
    · trivial
    · dsimp only
      split
      · trivial
      · split
        · trivial
        · exact List.eraseIdx_sublist _ _

theorem openBlock_sublist :
    (p.openBlock cfg env).All fun r => r.2.freeBlocks.Sublist p.freeBlocks :=
  (getFreeBlock_sublist p.lastFreeBlockIndex).bind fun _ hr => hr

theorem replaceErased_sublist :
    (p.replaceErased cfg env).All fun p' => p'.freeBlocks.Sublist p.freeBlocks := by
  refine (Except.All.of_forall (Q := fun _ => True) fun _ => trivial).bind fun cur _ => ?_
  split
  · exact openBlock_sublist.bind fun _ hr => hr
  · exact List.Sublist.refl _

theorem replaceFull_sublist :
    (p.replaceFull cfg env).All fun r => r.2.freeBlocks.Sublist p.freeBlocks := by
  refine (Except.All.of_forall (Q := fun _ => True) fun _ => trivial).bind fun cur _ => ?_
  split
  · trivial
  · split
    · exact openBlock_sublist.bind fun _ hr => hr
    · exact List.Sublist.refl _

/-- An allocation takes blocks out of the list, from wherever they are. -/
theorem getLastFreeBlock_sublist (iomap : Bitset) :
    (p.getLastFreeBlock cfg env iomap).All fun r => r.2.freeBlocks.Sublist p.freeBlocks := by
  rw [Except.all_iff]
  intro r hr
  obtain ⟨p₁, p₂, h₁, h₂, h₃⟩ := getLastFreeBlock_spec hr
  obtain ⟨i, m, rfl⟩ := selectLane_spec h₁
  have hlane := replaceErased_sublist.of_ok h₂
  exact (replaceFull_sublist.of_ok h₃).trans hlane

theorem sorted_fresh (cfg : Config) : Sorted (fresh cfg).freeBlocks := by
  refine List.pairwise_of_forall_mem_list fun a ha b hb => ?_
  obtain ⟨i, -, rfl⟩ := List.mem_map.mp ha
  exact Nat.zero_le _

theorem sorted_init (h : init cfg env = .ok p) : Sorted p.freeBlocks := by
  rw [init] at h
  split at h
  · cases h
  · refine Run.foldlM_inv (I := fun q => Sorted q.freeBlocks) (fun q i q' hq hi => ?_)
      (sorted_fresh cfg) h
    rw [openLane, Except.bind_eq_ok] at hi
    obtain ⟨r, hget, hi⟩ := hi
    cases hi
    exact hq.sublist ((getFreeBlock_sublist i).of_ok hget)

/-- Every reachable pool has a sorted free list. -/
theorem Reachable.sorted (h : Reachable cfg env p) : Sorted p.freeBlocks := by
  induction h with
  | init h => exact sorted_init h
  | access h hb ha ih => exact ih
  | allocate h hr ih => exact ih.sublist ((getLastFreeBlock_sublist _).of_ok hr)
  | @erase p p' k h he ih =>
    rw [eraseBlock] at he
    split at he
    · cases he
    · next b hb =>
      dsimp only at he
      split at he
      · cases he
        exact ih.insertBehind b.erase
      · cases he
        exact ih
  | select h ih => exact ih

theorem reachable_invariant (cfg : Config) (env : Env) :
    PoolInvariant cfg env (fun _ _ => True) (Reachable cfg env) fun _ => True where
  access := fun _ _ _ _ hp hb ha => hp.access hb ha
  alloc_access := fun _ _ _ _ _ hp hb ha => ⟨hp.1.access hb ha, trivial⟩
  allocate := fun hp _ => Except.sat_iff.mpr ⟨fun _ hr => hp.allocate hr, fun _ _ => trivial⟩
  fault := fun _ => trivial
  erase := fun hp => Except.sat_iff.mpr ⟨fun _ he => hp.erase he, fun _ _ => trivial⟩
  select := fun hp => hp.select

/-- A device that is constructed, warmed up or not, and run has a reachable pool. -/
theorem run_reachable {warmUp : Option World} {calls : List (World × Op)} {s₀ s : PageMapping}
    (hstart : PageMapping.start cfg env warmUp = .ok s₀) (hrun : run cfg env s₀ calls = .ok s) :
    Reachable cfg env s.pool := by
  have hstart := ((reachable_invariant cfg env).start (fun _ => trivial)
    (Except.sat_iff.mpr ⟨fun _ h => .init h, fun _ _ => trivial⟩) warmUp).of_ok hstart
  exact ((reachable_invariant cfg env).run_all (fun _ _ => trivial) hstart).of_ok hrun

/-- Over any run the free list is sorted; in every pool of a run, a block in use that is erased
below the threshold finds its place exactly when there is a free block. -/
theorem free_list_sorted (cfg : Config) (env : Env) :
    (∀ p, Reachable cfg env p → Sorted p.freeBlocks ∧
      ∀ k b, p.blocks.find? k = some b → b.erase.eraseCount < cfg.badBlockThreshold →
        (InsertsSorted cfg p k b ↔ p.freeBlocks ≠ [])) ∧
    ∀ warmUp calls s₀ s, PageMapping.start cfg env warmUp = .ok s₀ →
      run cfg env s₀ calls = .ok s → Reachable cfg env s.pool ∧ Sorted s.pool.freeBlocks := by
  constructor
  · intro p hp
    exact ⟨hp.sorted, fun k b hb hlt => insertsSorted_iff hp.sorted hb hlt⟩
  · intro warmUp calls s₀ s hstart hrun
    have hreachable := run_reachable hstart hrun
    exact ⟨hreachable, hreachable.sorted⟩

/-- Three blocks of two pages that hold two logical pages. -/
def threeBlocks : Config := { Config.small 3 with totalLogicalBlocks := 1 }

/-- Three writes of one page leave a free block; block 0 is full and finds its place behind it. -/
theorem free_list_sorted_threeWrites : ∃ s₀ s b, PageMapping.start threeBlocks .zero none = .ok s₀ ∧
    run threeBlocks .zero s₀ (calls (.replicate 3 (.write (.page 0)))) = .ok s ∧
    Sorted s.pool.freeBlocks ∧ s.pool.blocks.find? 0 = some b ∧
    InsertsSorted threeBlocks s.pool 0 b := by
  obtain ⟨s₀, hstart, hrun⟩ := Except.exists_of_map
    (x := PageMapping.start threeBlocks .zero none)
    (p := fun s₀ =>
      (run threeBlocks .zero s₀ (calls (.replicate 3 (.write (.page 0))))).map
        (fun s => decide (s.pool.freeBlocks ≠ [] ∧
          (s.pool.blocks.find? 0).map Block.eraseCount = some 0)) = .ok true)
    (by decide +kernel)
  obtain ⟨s, hs, hne, hcount⟩ := Except.exists_of_map hrun
  obtain ⟨b, hb, hzero⟩ := Option.map_eq_some_iff.mp hcount
  have hall := free_list_sorted threeBlocks .zero
  obtain ⟨hreachable, hsorted⟩ := hall.2 none _ s₀ s hstart hs
  have hlt : b.erase.eraseCount < threeBlocks.badBlockThreshold := by
    change b.eraseCount + 1 < 100
    omega
  exact ⟨s₀, s, b, hstart, hs, hsorted, hb, ((hall.1 _ hreachable).2 0 b hb hlt).mpr hne⟩

/-- Five writes of one page take the last block into use. Block 2 holds the page, and is erased
below the threshold by the format that follows, while the list is empty. -/
theorem erased_onto_emptyList : ∃ s₀ s s' b, PageMapping.start threeBlocks .zero none = .ok s₀ ∧
    run threeBlocks .zero s₀ (calls (.replicate 5 (.write (.page 0)))) = .ok s ∧
    s.pool.freeBlocks = [] ∧ s.pool.blocks.find? 2 = some b ∧
    b.erase.eraseCount < threeBlocks.badBlockThreshold ∧
    ¬ InsertsSorted threeBlocks s.pool 2 b ∧
    s.format threeBlocks .zero .zero ⟨0, 1⟩ = .ok s' ∧ s'.pool.freeBlocks.map Block.idx = [2] := by
  obtain ⟨s₀, hstart, hrun⟩ := Except.exists_of_map
    (x := PageMapping.start threeBlocks .zero none)
    (p := fun s₀ =>
      (run threeBlocks .zero s₀ (calls (.replicate 5 (.write (.page 0))))).map
        (fun s => decide (s.pool.freeBlocks = [] ∧
          (s.pool.blocks.find? 2).map Block.eraseCount = some 0 ∧
          (s.format threeBlocks .zero .zero ⟨0, 1⟩).map
            (fun s' => decide (s'.pool.freeBlocks.map Block.idx = [2])) = .ok true)) = .ok true)
    (by decide +kernel)
  obtain ⟨s, hs, hnil, hcount, hformat⟩ := Except.exists_of_map hrun
  obtain ⟨s', hs', hfree⟩ := Except.exists_of_map hformat
  obtain ⟨b, hb, hzero⟩ := Option.map_eq_some_iff.mp hcount
  refine ⟨s₀, s, s', b, hstart, hs, hnil, hb, ?_, ?_, hs', hfree⟩
  · change b.eraseCount + 1 < 100
    omega
  · rintro ⟨pos, p', hpos, -⟩
    rw [hnil] at hpos
    cases hpos

end BlockPool

end SimpleSSD.FTL
