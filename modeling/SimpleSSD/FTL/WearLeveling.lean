import SimpleSSD.FTL.FreeList
import SimpleSSD.Lib.Spread

/-!
# The wear-leveling factor (page_mapping.cc:2401–2432)

`calculateWearLeveling` compares the square of the summed erase counts with the sum of their
squares. The sums run over the blocks in use and the free blocks, and the factor is normalised
with `totalLogicalBlocks`, of which there are fewer. By Lagrange's identity the factor stays
below 1 as long as the erase counts are far enough apart to make up for the difference.
-/

namespace SimpleSSD.FTL

namespace BlockPool

open Spread

variable {cfg : Config} {env : Env} {p : BlockPool}

/-- The sums over `blocks` (page_mapping.cc:2407–2411). -/
def sumUsed (blocks : List (Nat × Block)) : Nat × Nat :=
  blocks.foldl (fun acc e => (acc.1 + e.2.eraseCount, acc.2 + e.2.eraseCount * e.2.eraseCount))
    (0, 0)

/-- The backward scan of the free list (page_mapping.cc:2415–2424), which ends at the first block
that has never been erased. -/
def sumFree : List Block → Nat × Nat → Nat × Nat
  | [], acc => acc
  | b :: rest, acc =>
    if b.eraseCount = 0 then acc
    else sumFree rest (acc.1 + b.eraseCount, acc.2 + b.eraseCount * b.eraseCount)

/-- `totalEraseCnt` and `sumOfSquaredEraseCnt`. -/
def eraseSums (p : BlockPool) : Nat × Nat := sumFree p.freeBlocks.reverse (sumUsed p.blocks.entries)

/-- `calculateWearLeveling`, in exact arithmetic. -/
def calculateWearLeveling (cfg : Config) (p : BlockPool) : Rat :=
  let sums := p.eraseSums
  let numOfBlocks := cfg.totalLogicalBlocks
  if sums.2 = 0 then -1
  else (sums.1 : Rat) * (sums.1 : Rat) / ((numOfBlocks : Rat) * (sums.2 : Rat))

/-- The erase counts of the blocks that are not retired. -/
def counts (p : BlockPool) : List Rat :=
  (p.blocks.entries.map fun e => (e.2.eraseCount : Rat)) ++
    p.freeBlocks.map fun b => (b.eraseCount : Rat)

def EvenlyWorn (p : BlockPool) : Prop := ∀ x ∈ p.counts, ∀ y ∈ p.counts, x = y

/-- The scan sums over the whole free list. -/
def ScansAll (p : BlockPool) : Prop :=
  ∀ acc, sumFree p.freeBlocks.reverse acc =
    (acc.1 + (p.freeBlocks.map Block.eraseCount).sum,
      acc.2 + (p.freeBlocks.map fun b => b.eraseCount * b.eraseCount).sum)

/-- The factor lies in (0, 1], and is 1 exactly for an evenly worn device. -/
structure Normalised (cfg : Config) (p : BlockPool) : Prop where
  pos : 0 < calculateWearLeveling cfg p
  le_one : calculateWearLeveling cfg p ≤ 1
  one_iff : calculateWearLeveling cfg p = 1 ↔ p.EvenlyWorn

/-- A block that is not retired has been erased. If these blocks are all worn alike, there are
`totalLogicalBlocks` of them; if not, their erase counts are so far apart that their spread
outweighs the surplus of blocks. -/
structure SpreadCovers (cfg : Config) (p : BlockPool) : Prop where
  erased : ∃ x ∈ p.counts, x ≠ 0
  even : p.EvenlyWorn → p.counts.length = cfg.totalLogicalBlocks
  uneven : ¬ p.EvenlyWorn →
    ((p.counts.length : Rat) - (cfg.totalLogicalBlocks : Rat)) * sumSq p.counts < spread p.counts

/-! ### The sums -/

theorem sumFree_zeros {l : List Block} (h : ∀ b ∈ l, b.eraseCount = 0) (acc : Nat × Nat) :
    sumFree l acc = acc := by
  cases l with
  | nil => rfl
  | cons b l => rw [sumFree, if_pos (h b List.mem_cons_self)]

/-- From the block with the highest count down, the blocks behind a count of 0 add nothing. -/
theorem sumFree_eq {l : List Block} (h : l.Pairwise fun a b => b.eraseCount ≤ a.eraseCount)
    (acc : Nat × Nat) : sumFree l acc = (acc.1 + (l.map Block.eraseCount).sum,
      acc.2 + (l.map fun b => b.eraseCount * b.eraseCount).sum) := by
  induction l generalizing acc with
  | nil => rfl
  | cons b l ih =>
    obtain ⟨hb, hl⟩ := List.pairwise_cons.mp h
    rw [sumFree, List.map_cons, List.map_cons, List.sum_cons, List.sum_cons]
    split
    · next hzero =>
      have hzeros : ∀ x ∈ l, x.eraseCount = 0 := fun x hx =>
        Nat.le_zero.mp (hzero ▸ hb x hx)
      have hrest := ih hl acc
      rw [sumFree_zeros hzeros acc] at hrest
      rw [hzero, Nat.mul_zero, Nat.zero_add, Nat.zero_add]
      exact hrest
    · rw [ih hl, Nat.add_assoc, Nat.add_assoc]

/-- A sorted free list is summed over as a whole. -/
theorem Sorted.scansAll (h : Sorted p.freeBlocks) : p.ScansAll := by
  intro acc
  rw [sumFree_eq (List.pairwise_reverse.mpr h) acc, List.map_reverse, List.sum_reverse,
    List.map_reverse, List.sum_reverse]

theorem sumUsed_eq (l : List (Nat × Block)) :
    sumUsed l = ((l.map fun e => e.2.eraseCount).sum,
      (l.map fun e => e.2.eraseCount * e.2.eraseCount).sum) := by
  have hfold : ∀ acc : Nat × Nat,
      l.foldl (fun acc e => (acc.1 + e.2.eraseCount, acc.2 + e.2.eraseCount * e.2.eraseCount)) acc =
        (acc.1 + (l.map fun e => e.2.eraseCount).sum,
          acc.2 + (l.map fun e => e.2.eraseCount * e.2.eraseCount).sum) := by
    induction l with
    | nil => intro acc; rfl
    | cons e l ih =>
      intro acc
      rw [List.foldl_cons, ih, List.map_cons, List.sum_cons, List.map_cons, List.sum_cons,
        Nat.add_assoc, Nat.add_assoc]
  rw [sumUsed, hfold, Nat.zero_add, Nat.zero_add]

theorem cast_sum_map {α : Type*} (f : α → Nat) (l : List α) :
    (((l.map f).sum : Nat) : Rat) = (l.map fun a => (f a : Rat)).sum := by
  induction l with
  | nil => rfl
  | cons a l ih =>
    rw [List.map_cons, List.sum_cons, List.map_cons, List.sum_cons, Nat.cast_add, ih]

theorem cast_sumSq_map {α : Type*} (f : α → Nat) (l : List α) :
    (((l.map fun a => f a * f a).sum : Nat) : Rat) = sumSq (l.map fun a => (f a : Rat)) := by
  rw [cast_sum_map, sumSq, List.map_map]
  congr 1
  refine List.map_congr_left fun a _ => ?_
  rw [Nat.cast_mul]
  rfl

/-- The two sums are those of the erase counts and of their squares. -/
theorem Sorted.eraseSums (h : Sorted p.freeBlocks) :
    (p.eraseSums.1 : Rat) = p.counts.sum ∧ (p.eraseSums.2 : Rat) = sumSq p.counts := by
  rw [BlockPool.eraseSums, h.scansAll, sumUsed_eq]
  refine ⟨?_, ?_⟩
  · rw [Nat.cast_add, cast_sum_map, cast_sum_map, counts, List.sum_append]
  · have hsq : sumSq p.counts = sumSq (p.blocks.entries.map fun e => (e.2.eraseCount : Rat)) +
        sumSq (p.freeBlocks.map fun b => (b.eraseCount : Rat)) := by
      rw [counts, sumSq, List.map_append, List.sum_append]
      rfl
    rw [hsq, Nat.cast_add, cast_sumSq_map, cast_sumSq_map]

/-! ### The factor -/

theorem counts_nonneg {x : Rat} (hx : x ∈ p.counts) : 0 ≤ x := by
  rcases List.mem_append.mp hx with hx | hx
  · obtain ⟨e, -, rfl⟩ := List.mem_map.mp hx
    exact Nat.cast_nonneg _
  · obtain ⟨b, -, rfl⟩ := List.mem_map.mp hx
    exact Nat.cast_nonneg _

theorem sum_counts_pos (h : ∃ x ∈ p.counts, x ≠ 0) : 0 < p.counts.sum := by
  obtain ⟨x, hx, hne⟩ := h
  calc 0 < x := lt_of_le_of_ne (counts_nonneg hx) hne.symm
    _ ≤ p.counts.sum := List.single_le_sum (fun _ => counts_nonneg) x hx

theorem calculateWearLeveling_eq (h : Sorted p.freeBlocks) (hpos : 0 < sumSq p.counts) :
    calculateWearLeveling cfg p =
      p.counts.sum * p.counts.sum / ((cfg.totalLogicalBlocks : Rat) * sumSq p.counts) := by
  obtain ⟨hsum, hsq⟩ := h.eraseSums
  have hne : p.eraseSums.2 ≠ 0 := by
    intro hzero
    rw [hzero, Nat.cast_zero] at hsq
    exact absurd hsq hpos.ne
  rw [calculateWearLeveling, if_neg hne, hsum, hsq]

/-- With a block erased, the factor compares with 1 as the surplus of blocks does with the
spread of the counts. -/
theorem factor_spec (h : Sorted p.freeBlocks) (hpos : 0 < sumSq p.counts)
    (hblocks : 0 < cfg.totalLogicalBlocks) :
    0 < calculateWearLeveling cfg p ∧
      (calculateWearLeveling cfg p < 1 ↔
        ((p.counts.length : Rat) - (cfg.totalLogicalBlocks : Rat)) * sumSq p.counts <
          spread p.counts) ∧
      (calculateWearLeveling cfg p = 1 ↔
        ((p.counts.length : Rat) - (cfg.totalLogicalBlocks : Rat)) * sumSq p.counts =
          spread p.counts) := by
  have hlagrange := length_mul_sumSq p.counts
  have hsum := sum_counts_pos ((sumSq_pos_iff p.counts).mp hpos)
  have hden : 0 < (cfg.totalLogicalBlocks : Rat) * sumSq p.counts :=
    mul_pos (Nat.cast_pos.mpr hblocks) hpos
  rw [calculateWearLeveling_eq h hpos, div_lt_one hden, div_eq_one_iff_eq hden.ne', sub_mul,
    hlagrange]
  refine ⟨div_pos (mul_pos hsum hsum) hden, ?_, ?_⟩
  · constructor <;> intro hlt <;> linarith
  · constructor <;> intro heq <;> linarith

/-- Without logical blocks there is no factor, and no spread is enough. -/
theorem not_normalised_of_noBlocks (h : Sorted p.freeBlocks) (hpos : 0 < sumSq p.counts)
    (hblocks : cfg.totalLogicalBlocks = 0) : ¬ Normalised cfg p ∧ ¬ SpreadCovers cfg p := by
  constructor
  · intro hn
    have hzero := hn.pos
    rw [calculateWearLeveling_eq h hpos, hblocks, Nat.cast_zero, zero_mul, div_zero] at hzero
    exact lt_irrefl _ hzero
  · intro hc
    have hsum := sum_counts_pos hc.erased
    have hlagrange := length_mul_sumSq p.counts
    by_cases heven : p.EvenlyWorn
    · obtain ⟨x, hx, -⟩ := hc.erased
      have hlength := hc.even heven
      rw [hblocks] at hlength
      rw [List.eq_nil_of_length_eq_zero hlength] at hx
      cases hx
    · have hlt := hc.uneven heven
      rw [hblocks, Nat.cast_zero, sub_zero] at hlt
      have hsquare := mul_pos hsum hsum
      linarith

/-- The factor of a sorted pool is normalised exactly when the spread makes up for the surplus. -/
theorem normalised_iff (h : Sorted p.freeBlocks) : Normalised cfg p ↔ SpreadCovers cfg p := by
  by_cases hpos : 0 < sumSq p.counts
  · rcases Nat.eq_zero_or_pos cfg.totalLogicalBlocks with hblocks | hblocks
    · obtain ⟨hn, hc⟩ := not_normalised_of_noBlocks h hpos hblocks
      exact iff_of_false hn hc
    obtain ⟨hfactor, hlt_one, hone⟩ := factor_spec h hpos hblocks
    have heven_iff : p.EvenlyWorn ↔ spread p.counts = 0 := (spread_eq_zero_iff p.counts).symm
    -- without a spread, the factor is 1 when there is no surplus
    have hsurplus : p.EvenlyWorn → (calculateWearLeveling cfg p = 1 ↔
        p.counts.length = cfg.totalLogicalBlocks) := by
      intro heven
      rw [hone, heven_iff.mp heven, mul_eq_zero, or_iff_left hpos.ne', sub_eq_zero, Nat.cast_inj]
    constructor
    · intro hn
      refine ⟨(sumSq_pos_iff p.counts).mp hpos, fun heven => ?_, fun heven => ?_⟩
      · exact (hsurplus heven).mp (hn.one_iff.mpr heven)
      · exact hlt_one.mp (lt_of_le_of_ne hn.le_one fun heq => heven (hn.one_iff.mp heq))
    · intro hc
      by_cases heven : p.EvenlyWorn
      · have heq := (hsurplus heven).mpr (hc.even heven)
        exact ⟨hfactor, heq.le, iff_of_true heq heven⟩
      · have hlt := hlt_one.mpr (hc.uneven heven)
        exact ⟨hfactor, hlt.le, iff_of_false hlt.ne heven⟩
  · -- nothing to compare: the factor is -1
    have hnone : ¬ ∃ x ∈ p.counts, x ≠ 0 := fun h => hpos ((sumSq_pos_iff p.counts).mpr h)
    refine iff_of_false (fun hn => ?_) fun hc => hnone hc.erased
    have hzero : p.eraseSums.2 = 0 := by
      have hsq := h.eraseSums.2
      have hle : sumSq p.counts = 0 := le_antisymm (not_lt.mp hpos) (sumSq_nonneg _)
      rw [hle] at hsq
      exact_mod_cast hsq
    have hneg := hn.pos
    rw [calculateWearLeveling, hzero] at hneg
    norm_num at hneg

/-- In every pool of a run the scan sums over the whole free list, and the factor is normalised
exactly when some block that is not retired was erased and the spread of the erase counts makes
up for the surplus of blocks over `totalLogicalBlocks`. -/
theorem wear_leveling_normalised_iff (h : Reachable cfg env p) :
    p.ScansAll ∧ (Normalised cfg p ↔ SpreadCovers cfg p) :=
  ⟨h.sorted.scansAll, normalised_iff h.sorted⟩

/-- A page is written and its block erased, on a device with as many logical as physical blocks. -/
theorem wear_leveling_oneErase : ∃ s₀ s, PageMapping.start (.small 3) .zero none = .ok s₀ ∧
    run (.small 3) .zero s₀ (calls [.write (.page 0), .format ⟨0, 1⟩]) = .ok s ∧
    s.pool.ScansAll ∧ Normalised (.small 3) s.pool := by
  obtain ⟨s₀, hstart, hrun⟩ := Except.exists_of_map
    (x := PageMapping.start (.small 3) .zero none)
    (p := fun s₀ =>
      (run (.small 3) .zero s₀ (calls [.write (.page 0), .format ⟨0, 1⟩])).map
        (fun s => decide (s.pool.counts = [0, 0, 1])) = .ok true)
    (by decide +kernel)
  obtain ⟨s, hs, hcounts⟩ := Except.exists_of_map hrun
  obtain ⟨hscan, hiff⟩ := wear_leveling_normalised_iff (run_reachable hstart hs)
  refine ⟨s₀, s, hstart, hs, hscan, hiff.mpr ⟨⟨1, ?_, one_ne_zero⟩, fun _ => ?_, fun _ => ?_⟩⟩
  · rw [hcounts]
    simp
  · rw [hcounts]
    rfl
  · rw [hcounts]
    norm_num [spread, sumSq, Config.small]

/-- The three blocks are erased once each. They are evenly worn, and the factor is 3. -/
theorem evenly_worn_above_one : ∃ s₀ s, PageMapping.start threeBlocks .zero none = .ok s₀ ∧
    run threeBlocks .zero s₀ (calls [.write (.page 0), .format ⟨0, 1⟩, .write (.page 0),
      .format ⟨0, 1⟩, .write (.page 0), .format ⟨0, 1⟩]) = .ok s ∧
    s.pool.EvenlyWorn ∧ calculateWearLeveling threeBlocks s.pool = 3 ∧
    ¬ Normalised threeBlocks s.pool := by
  obtain ⟨s₀, hstart, hrun⟩ := Except.exists_of_map
    (x := PageMapping.start threeBlocks .zero none)
    (p := fun s₀ =>
      (run threeBlocks .zero s₀ (calls [.write (.page 0), .format ⟨0, 1⟩, .write (.page 0),
        .format ⟨0, 1⟩, .write (.page 0), .format ⟨0, 1⟩])).map
        (fun s => decide (s.pool.counts = [1, 1, 1] ∧
          calculateWearLeveling threeBlocks s.pool = 3)) = .ok true)
    (by decide +kernel)
  obtain ⟨s, hs, hcounts, hvalue⟩ := Except.exists_of_map hrun
  have heven : s.pool.EvenlyWorn := by
    rw [EvenlyWorn, hcounts]
    simp
  refine ⟨s₀, s, hstart, hs, heven, hvalue, fun hn => ?_⟩
  have hle := hn.le_one
  rw [hvalue] at hle
  norm_num at hle

end BlockPool

end SimpleSSD.FTL
