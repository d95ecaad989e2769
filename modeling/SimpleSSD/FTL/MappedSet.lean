import Mathlib.Data.Set.Basic
import SimpleSSD.FTL.Lockstep

/-!
# The set of mapped pages

What a host can see of the mapping is which logical pages are mapped. On this
set every call has a meaning of its own (`Op.maps`): a write adds its page, trim
and format remove theirs, and nothing else changes it. Outside `cachedGC` mode
the page mapping refines this, with the mapping caches on or off, as long as a
write that hits them sets its own entry of `table` (`WriteAgrees`).
-/

namespace SimpleSSD.FTL

/-- The pages mapped after a call, given those mapped before it. -/
def Op.maps (M : Set Nat) : Op → Set Nat
  | .read _ => M
  | .write req => if 0 < req.ioFlag.count then insert req.lpn M else M
  | .trim req => M \ {req.lpn}
  | .format range => {l ∈ M | range.contains l = false}
  | .undoCached _ => M

namespace PageMapping

/-- The pages that `table` maps. -/
def mapped (s : PageMapping) : Set Nat := {l | l ∈ s.table}

section Refinement

variable {cfg : Config} {env : Env} {w : World} {req : Request} {victim pageIndex : Nat}
  {locals locals' : GcLocals} {s s' : PageMapping}

theorem mapped_congr (h : s'.table = s.table) : s'.mapped = s.mapped := by
  unfold mapped
  rw [h]

/-- Setting the entry of a mapped page. -/
theorem mapped_set {l : Nat} {vec vec' : List (Nat × Nat)} (hvec : s.table.find? l = some vec)
    (h : s'.table = s.table.set 0 l vec') : s'.mapped = s.mapped := by
  ext k
  show k ∈ s'.table ↔ k ∈ s.table
  rw [h, UnorderedMap.mem_set]
  constructor
  · rintro (rfl | hk)
    · exact UnorderedMap.mem_of_find? hvec
    · exact hk
  · exact .inr

/-! ### Writes -/

/-- A program path adds the page written. -/
theorem programPage_mapped (hagrees : s.WriteAgrees cfg req)
    (h : s.programPage cfg env w req true = .ok s') : s'.mapped = insert req.lpn s.mapped := by
  obtain ⟨key, hit, s₁, blk, pool, locals, hlook, -, -, hloop⟩ := programPage_cases h
  obtain ⟨-, hother, -, hnew⟩ := lookupForWrite_table (.inl rfl) hlook
  have hkeep : ∀ l, l ≠ req.lpn ∨ l ∈ s.table → (l ∈ s₁.table ↔ l ∈ s.table) := fun l hl => by
    rw [UnorderedMap.mem_iff_find?, hother l hl, ← UnorderedMap.mem_iff_find?]
  have hs₁ : s₁.mapped = insert req.lpn s.mapped := by
    ext l
    show l ∈ s₁.table ↔ l = req.lpn ∨ l ∈ s.table
    by_cases hl : l = req.lpn
    · subst hl
      simp only [true_or, iff_true]
      cases hcached : s.cachedMapping cfg req.lpn with
      | none => exact hnew hcached
      | some page =>
        obtain ⟨⟨k, vec⟩, hfirst, rfl, -⟩ := hagrees page hcached
        have hmem := UnorderedMap.mem_of_find? (UnorderedMap.find?_of_begin? hfirst)
        exact (hkeep _ (.inr hmem)).mpr hmem
    · simp only [hl, false_or]
      exact hkeep l (.inl hl)
  refine Run.foldlM_inv (I := fun acc : WriteLocals × PageMapping =>
    acc.2.mapped = insert req.lpn s.mapped) (fun acc idx acc' hacc h => ?_) hs₁ hloop
  by_cases hwant : req.wants cfg idx = true
  · obtain ⟨key, vec, _, _, -, hvec, -, -, -, -, htable, -⟩ := programUnit_spec hwant h
    exact (mapped_set hvec htable).trans hacc
  · rw [programUnit] at h
    simp only [hwant] at h
    cases h
    exact hacc

/-! ### Collections in default mode -/

theorem scanPage_mapped (hmode : cfg.evictPolicy ≠ .cachedGC)
    (h : scanPage cfg env w victim (locals, s) pageIndex = .ok (locals', s')) :
    s'.mapped = s.mapped := by
  rw [scanPage, if_neg hmode, reclaimPage] at h
  split at h
  · cases h
  · rw [Except.bind_eq_ok] at h
    obtain ⟨⟨lpns, map⟩, -, h⟩ := h
    simp only at h
    split at h
    · rw [Except.bind_eq_ok] at h
      obtain ⟨v, -, h⟩ := h
      split at h
      · rw [copyPage] at h
        simp only at h
        rw [Except.bind_eq_ok] at h
        obtain ⟨⟨blk, pool⟩, -, h⟩ := h
        refine Run.foldlM_inv (I := fun acc : GcLocals × PageMapping => acc.2.mapped = s.mapped)
          (fun acc idx acc' hacc h => ?_) rfl h
        by_cases hbit : (if cfg.randomIOTweak = true then map else map.setAll).test idx = true
        · obtain ⟨l, vec, _, _, _, -, hvec, -, -, -, -, -, htable, -⟩ := copyUnit_spec hbit h
          exact (mapped_set hvec htable).trans hacc
        · rw [copyUnit] at h
          simp only [hbit] at h
          cases h
          exact hacc
      · cases h
        rfl
    · cases h
      rfl

theorem doGarbageCollection_mapped (hmode : cfg.evictPolicy ≠ .cachedGC) {victims : List Nat}
    (h : doGarbageCollection cfg env w victims s = .ok s') : s'.mapped = s.mapped := by
  rcases doGarbageCollection_cases h with rfl | ⟨locals, s₁, -, -, hloop, ⟨hcached, -⟩ | ⟨-, h⟩⟩
  · rfl
  · exact absurd hcached hmode
  · have hs₁ : s₁.mapped = s.mapped := by
      refine Run.foldlM_inv (I := fun acc : GcLocals × PageMapping => acc.2.mapped = s.mapped)
        (fun acc victim acc' hacc h => ?_) rfl hloop
      obtain ⟨-, locals₁, s₂, hpages, rfl⟩ := scanVictim_ok h
      have hs₂ : s₂.mapped = s.mapped := by
        refine Run.foldlM_inv (I := fun acc : GcLocals × PageMapping => acc.2.mapped = s.mapped)
          (fun acc page acc' hacc h => ?_) hacc hpages
        exact (scanPage_mapped (s := acc.2) hmode h).trans hacc
      exact hs₂
    obtain ⟨htable, -⟩ := finishCollection_spec h
    exact (mapped_congr htable).trans hs₁

/-! ### One call -/

theorem trim_mapped (h : s.trim cfg req = .ok s') : s'.mapped = s.mapped \ {req.lpn} := by
  rcases trim_cases h with ⟨hnone, rfl⟩ | ⟨vec, pool, -, -, rfl⟩
  · refine (Set.sdiff_singleton_eq_self ?_).symm
    exact UnorderedMap.find?_eq_none_iff.mp hnone
  · ext l
    show l ∈ s.table.erase req.lpn ↔ l ∈ s.table ∧ l ∉ ({req.lpn} : Set Nat)
    rw [UnorderedMap.mem_erase, Set.mem_singleton_iff, and_comm]

/-- The loop of `format` removes the entries in range that it has been through. -/
theorem formatEntries_mapped {range : LPNRange} {acc : PageMapping × List Nat}
    (h : s.table.entries.foldlM (formatEntry cfg range) (s, []) = .ok acc) :
    acc.1.mapped = {l ∈ s.mapped | range.contains l = false} := by
  have hloop : ∀ l, l ∈ acc.1.table ↔ l ∈ s.table ∧
      ¬ (l ∈ s.table.entries.map Prod.fst ∧ range.contains l = true) := by
    refine (Run.Along.of_forall (P := fun _ _ => True) (fun _ _ => trivial) _ _).foldlM_done
      (I := fun done acc => ∀ l, l ∈ acc.1.table ↔ l ∈ s.table ∧
        ¬ (l ∈ done.map Prod.fst ∧ range.contains l = true))
      (fun done entry rest acc acc' _ hacc _ h => ?_) (List.nil_append _).symm
      (fun l => by simp) h
    obtain ⟨k, vec⟩ := entry
    intro l
    have hl := hacc l
    rw [List.map_append, List.mem_append, List.map_singleton, List.mem_singleton]
    rcases formatEntry_cases h with ⟨hrange, rfl⟩ | ⟨pool, hrange, -, rfl⟩
    · rw [hl]
      by_cases hk : l = k
      · subst hk
        simp [hrange]
      · simp [hk]
    · show l ∈ acc.1.table.erase k ↔ _
      rw [UnorderedMap.mem_erase, hl]
      by_cases hk : l = k
      · subst hk
        simp [hrange]
      · simp [hk]
  ext l
  show l ∈ acc.1.table ↔ l ∈ s.table ∧ range.contains l = false
  rw [hloop]
  have hmem : l ∈ s.table.entries.map Prod.fst ↔ l ∈ s.table := Iff.rfl
  rw [hmem]
  by_cases hl : l ∈ s.table <;> simp [hl]

/-- The page mapping refines `Op.maps` outside `cachedGC` mode. -/
theorem exec_mapped (hmode : cfg.evictPolicy ≠ .cachedGC) {call : World × Op}
    (hcall : s.Agrees cfg call) (h : Op.exec cfg env s call = .ok s') :
    s'.mapped = Op.maps s.mapped call.2 := by
  obtain ⟨w, op⟩ := call
  cases op with
  | read req =>
    rw [Op.exec] at h
    simp only [PageMapping.read] at h
    split at h
    · exact mapped_congr (readInternal_frame h).1
    · cases h
      rfl
  | write req =>
    rw [Op.exec] at h
    simp only [PageMapping.write] at h
    rw [Op.maps]
    split at h
    · next hcount =>
      rw [if_pos hcount]
      rw [writeInternal, Except.bind_eq_ok] at h
      obtain ⟨s₁, hprog, h⟩ := h
      have hs₁ := programPage_mapped (s := s.log .request) (hcall hcount) hprog
      rcases collectIfNeeded_cases h with rfl | ⟨victims, -, -, h⟩
      · exact hs₁
      · exact (doGarbageCollection_mapped hmode h).trans hs₁
    · next hcount =>
      rw [if_neg hcount]
      cases h
      rfl
  | trim req => exact trim_mapped (s := s.log .request) h
  | format range =>
    rw [Op.exec] at h
    simp only [PageMapping.format] at h
    rw [Except.bind_eq_ok] at h
    obtain ⟨acc, hentries, h⟩ := h
    exact (doGarbageCollection_mapped hmode h).trans
      (formatEntries_mapped (s := s.log .request) hentries)
  | undoCached l => exact mapped_congr (undoCached_frame h).1

end Refinement

end PageMapping

end SimpleSSD.FTL
