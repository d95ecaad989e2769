import Mathlib.Data.BitVec
import Mathlib.Data.Nat.Log

/-!
# Fields of a word

A field is some bits of a word, one behind the other. `mask` are its bits and `get` is the number
that is in them. Fields that are apart do not disturb each other: a word put together from the
numbers of its fields gives them back (`get_pack`). Fields laid out one behind the other are apart
(`layout_apart`).
-/

/-- The bits of a word from `shift` on. -/
structure BitField where
  shift : Nat
  width : Nat

namespace BitField

variable {n : Nat} {f g : BitField}

/-- The bit behind the field. -/
def stop (f : BitField) : Nat := f.shift + f.width

def mask (f : BitField) (n : Nat) : BitVec n := ~~~(BitVec.allOnes n <<< f.width) <<< f.shift

def get (f : BitField) (x : BitVec n) : BitVec n := (x &&& f.mask n) >>> f.shift

/-- No bit is in both. -/
def Apart (f g : BitField) : Prop := f.stop ≤ g.shift ∨ g.stop ≤ f.shift

theorem Apart.symm (h : f.Apart g) : g.Apart f := Or.symm h

/-! ### Bits -/

theorem getLsbD_mask (f : BitField) (n i : Nat) :
    (f.mask n).getLsbD i = decide (f.shift ≤ i ∧ i < f.stop ∧ i < n) := by
  rw [mask, BitVec.getLsbD_shiftLeft, BitVec.getLsbD_not, BitVec.getLsbD_shiftLeft,
    BitVec.getLsbD_allOnes, stop]
  by_cases hshift : i < f.shift
  · simp only [hshift, decide_true, Bool.not_true, Bool.and_false, Bool.false_and]
    exact (decide_eq_false (by omega)).symm
  · obtain ⟨k, rfl⟩ := Nat.exists_eq_add_of_le (Nat.le_of_not_lt hshift)
    rw [Nat.add_sub_cancel_left]
    by_cases hi : f.shift + k < n
    · have hk : k < n := by omega
      by_cases hwidth : k < f.width
      · simp [hi, hk, hwidth]
      · have hk' : k - f.width < n := by omega
        simp [hi, hk, hk', hwidth]
    · simp [hi]

theorem getLsbD_get (f : BitField) (x : BitVec n) (i : Nat) :
    (f.get x).getLsbD i = (decide (i < f.width) && x.getLsbD (f.shift + i)) := by
  rw [get, BitVec.getLsbD_ushiftRight, BitVec.getLsbD_and, getLsbD_mask, stop]
  by_cases hi : i < f.width
  · by_cases hn : f.shift + i < n
    · rw [decide_eq_true (by omega), decide_eq_true hi, Bool.and_comm]
    · rw [BitVec.getLsbD_of_ge _ _ (by omega), Bool.false_and, Bool.and_false]
  · rw [decide_eq_false (by omega), decide_eq_false hi, Bool.and_false, Bool.false_and]

/-- The number in a field. -/
theorem toNat_get (f : BitField) (x : BitVec n) :
    (f.get x).toNat = x.toNat / 2 ^ f.shift % 2 ^ f.width := by
  refine Nat.eq_of_testBit_eq fun i => ?_
  rw [BitVec.testBit_toNat, getLsbD_get, Nat.testBit_mod_two_pow, Nat.testBit_div_two_pow,
    BitVec.testBit_toNat, Nat.add_comm i]

/-- The masks of fields that are apart have no bit in common. -/
theorem Apart.mask_and (h : f.Apart g) (n : Nat) : f.mask n &&& g.mask n = 0 := by
  refine BitVec.eq_of_getLsbD_eq fun i hi => ?_
  rw [BitVec.getLsbD_and, getLsbD_mask, getLsbD_mask]
  rcases h with h | h
  · by_cases hstop : i < f.stop
    · rw [decide_eq_false (p := g.shift ≤ i ∧ _) (by omega), Bool.and_false]
      simp
    · rw [decide_eq_false (by omega), Bool.false_and]
      simp
  · by_cases hstop : i < g.stop
    · rw [decide_eq_false (by omega), Bool.false_and]
      simp
    · rw [decide_eq_false (p := g.shift ≤ i ∧ _) (by omega), Bool.and_false]
      simp

/-- Two words are the same in the bits of a field when it reads the same. -/
theorem and_mask_eq_iff (f : BitField) (x y : BitVec n) :
    x &&& f.mask n = y &&& f.mask n ↔ f.get x = f.get y := by
  constructor
  · intro h
    rw [get, get, h]
  · intro h
    refine BitVec.eq_of_getLsbD_eq fun i hi => ?_
    rw [BitVec.getLsbD_and, BitVec.getLsbD_and, getLsbD_mask, stop]
    by_cases hbit : f.shift ≤ i ∧ i < f.shift + f.width ∧ i < n
    · have hget := congrArg (·.getLsbD (i - f.shift)) h
      simp only [getLsbD_get] at hget
      rw [decide_eq_true (by omega), Nat.add_sub_cancel' hbit.1, Bool.true_and,
        Bool.true_and] at hget
      rw [hget]
    · rw [decide_eq_false hbit, Bool.and_false, Bool.and_false]

/-- And in the bits of two masks when they are so in those of each. -/
theorem and_or_eq_iff (x y a b : BitVec n) :
    x &&& (a ||| b) = y &&& (a ||| b) ↔ x &&& a = y &&& a ∧ x &&& b = y &&& b := by
  have habsorb : ∀ u v : BitVec n, (u ||| v) &&& u = u := by
    intro u v
    refine BitVec.eq_of_getLsbD_eq fun i _ => ?_
    rw [BitVec.getLsbD_and, BitVec.getLsbD_or]
    cases u.getLsbD i <;> cases v.getLsbD i <;> rfl
  constructor
  · intro h
    constructor
    · have ha : x &&& (a ||| b) &&& a = y &&& (a ||| b) &&& a := by rw [h]
      rwa [BitVec.and_assoc, BitVec.and_assoc, habsorb] at ha
    · have hb : x &&& (a ||| b) &&& b = y &&& (a ||| b) &&& b := by rw [h]
      rwa [BitVec.and_assoc, BitVec.and_assoc, BitVec.or_comm, habsorb] at hb
  · rintro ⟨ha, hb⟩
    rw [BitVec.and_or_distrib_left, ha, hb, ← BitVec.and_or_distrib_left]

/-! ### Reading a field -/

theorem get_or (f : BitField) (x y : BitVec n) : f.get (x ||| y) = f.get x ||| f.get y := by
  refine BitVec.eq_of_getLsbD_eq fun i _ => ?_
  simp only [getLsbD_get, BitVec.getLsbD_or, Bool.and_or_distrib_left]

theorem get_zero (f : BitField) : f.get (0 : BitVec n) = 0 := by
  refine BitVec.eq_of_getLsbD_eq fun i _ => ?_
  rw [getLsbD_get]
  simp

/-- A mask keeps its own field. -/
theorem get_and_mask (f : BitField) (x : BitVec n) : f.get (x &&& f.mask n) = f.get x := by
  rw [get, BitVec.and_assoc, BitVec.and_self, ← get]

/-- And clears those apart. -/
theorem Apart.get_and_mask (h : f.Apart g) (x : BitVec n) : f.get (x &&& g.mask n) = 0 := by
  rw [get, BitVec.and_assoc, h.symm.mask_and]
  show (x &&& 0#n) >>> f.shift = 0#n
  rw [BitVec.and_zero, BitVec.zero_ushiftRight]

/-- A number that the field can hold is read as it was put there. -/
theorem get_shiftLeft {x : BitVec n} (hx : x.toNat < 2 ^ f.width) (hfit : f.stop ≤ n) :
    f.get (x <<< f.shift) = x := by
  refine BitVec.eq_of_getLsbD_eq fun i hi => ?_
  rw [getLsbD_get, BitVec.getLsbD_shiftLeft, stop] at *
  by_cases hwidth : i < f.width
  · rw [decide_eq_true hwidth, decide_eq_true (by omega), decide_eq_false (by omega),
      Bool.not_false,
      Bool.true_and, Bool.true_and, Bool.true_and, Nat.add_sub_cancel_left]
  · have hbit : x.getLsbD i = false :=
      Nat.testBit_lt_two_pow (hx.trans_le (Nat.pow_le_pow_right (by decide) (by omega)))
    rw [decide_eq_false hwidth, Bool.false_and, hbit]

/-- A number that the field can hold does not leave it. -/
theorem shiftLeft_and_mask {x : BitVec n} (hx : x.toNat < 2 ^ f.width) :
    x <<< f.shift &&& f.mask n = x <<< f.shift := by
  refine BitVec.eq_of_getLsbD_eq fun i hi => ?_
  rw [BitVec.getLsbD_and, BitVec.getLsbD_shiftLeft, getLsbD_mask, stop]
  by_cases hbit : f.shift ≤ i ∧ i < f.shift + f.width ∧ i < n
  · rw [decide_eq_true hbit, Bool.and_true]
  · have hclear : i < f.shift ∨ x.getLsbD (i - f.shift) = false := by
      refine or_iff_not_imp_left.mpr fun hshift => Nat.testBit_lt_two_pow ?_
      exact hx.trans_le (Nat.pow_le_pow_right (by decide) (by omega))
    rw [decide_eq_false hbit, Bool.and_false]
    rcases hclear with hclear | hclear
    · rw [decide_eq_true hclear, Bool.not_true, Bool.and_false, Bool.false_and]
    · rw [hclear, Bool.and_false]

/-! ### Words of several fields -/

/-- The bits of each word that its field has. -/
def pack (l : List (BitField × BitVec n)) : BitVec n :=
  l.foldr (fun p x => p.2 &&& p.1.mask n ||| x) 0

theorem get_pack_of_apart {l : List (BitField × BitVec n)} (h : ∀ p ∈ l, f.Apart p.1) :
    f.get (pack l) = 0 := by
  induction l with
  | nil => exact get_zero f
  | cons p l ih =>
    rw [pack, List.foldr_cons, get_or, (h p List.mem_cons_self).get_and_mask, ← pack,
      ih fun q hq => h q (List.mem_cons_of_mem p hq)]
    exact BitVec.or_zero

/-- Each field reads what was put there. -/
theorem get_pack {l : List (BitField × BitVec n)}
    (hl : l.Pairwise fun p q => p.1.Apart q.1) {p : BitField × BitVec n} (hp : p ∈ l) :
    p.1.get (pack l) = p.1.get p.2 := by
  induction l with
  | nil => cases hp
  | cons q l ih =>
    obtain ⟨hapart, hl⟩ := List.pairwise_cons.mp hl
    rw [pack, List.foldr_cons, get_or, ← pack]
    rcases List.mem_cons.mp hp with rfl | hp
    · rw [get_and_mask, get_pack_of_apart hapart]
      exact BitVec.or_zero
    · rw [(hapart p hp).symm.get_and_mask, ih hl hp]
      exact BitVec.zero_or

/-- The bits of all the fields. -/
def union (l : List BitField) (n : Nat) : BitVec n := l.foldr (fun f x => f.mask n ^^^ x) 0

theorem getLsbD_union {l : List BitField} (hl : l.Pairwise Apart) (i : Nat) :
    (union l n).getLsbD i = l.any fun f => (f.mask n).getLsbD i := by
  induction l with
  | nil => simp [union]
  | cons f l ih =>
    obtain ⟨hapart, hl⟩ := List.pairwise_cons.mp hl
    rw [union, List.foldr_cons, BitVec.getLsbD_xor, ← union, ih hl, List.any_cons]
    by_cases hf : (f.mask n).getLsbD i = true
    · -- the other masks do not have the bit
      have hothers : l.any (fun g => (g.mask n).getLsbD i) = false := by
        refine List.any_eq_false.mpr fun g hg hbit => ?_
        have hand := congrArg (·.getLsbD i) ((hapart g hg).mask_and n)
        simp [hf, hbit] at hand
      rw [hf, hothers]
      rfl
    · rw [Bool.not_eq_true] at hf
      rw [hf, Bool.false_xor, Bool.false_or]

/-- A word of fields has no bits outside of them. -/
theorem pack_and_not_union {l : List (BitField × BitVec n)}
    (hl : (l.map Prod.fst).Pairwise Apart) : pack l &&& ~~~union (l.map Prod.fst) n = 0 := by
  have hsub : ∀ i, (pack l).getLsbD i = true →
      (l.map Prod.fst).any (fun f => (f.mask n).getLsbD i) = true := by
    intro i
    clear hl
    induction l with
    | nil => simp [pack]
    | cons p l ih =>
      rw [pack, List.foldr_cons, BitVec.getLsbD_or, BitVec.getLsbD_and, ← pack, List.map_cons,
        List.any_cons, Bool.or_eq_true, Bool.or_eq_true, Bool.and_eq_true]
      exact Or.imp And.right ih
  refine BitVec.eq_of_getLsbD_eq fun i hi => ?_
  rw [BitVec.getLsbD_and, BitVec.getLsbD_not, decide_eq_true hi, Bool.true_and, getLsbD_union hl]
  by_cases hbit : (pack l).getLsbD i = true
  · rw [hsub i hbit, Bool.not_true, Bool.and_false]
    simp
  · rw [Bool.not_eq_true] at hbit
    rw [hbit, Bool.false_and]
    simp

/-! ### Fields one behind the other -/

/-- Fields of the widths, from `shift` on. -/
def layout : Nat → List Nat → List BitField
  | _, [] => []
  | shift, width :: widths => ⟨shift, width⟩ :: layout (shift + width) widths

theorem layout_bounds {shift : Nat} {widths : List Nat} (hf : f ∈ layout shift widths) :
    shift ≤ f.shift ∧ f.stop ≤ shift + widths.sum := by
  induction widths generalizing shift with
  | nil => cases hf
  | cons width widths ih =>
    rw [List.sum_cons]
    rcases List.mem_cons.mp hf with rfl | hf
    · exact ⟨le_refl _, by simp only [stop]; omega⟩
    · have := ih hf
      omega

/-- Together they have all bits up to their end. -/
theorem any_layout (shift : Nat) (widths : List Nat) (i : Nat) :
    ((layout shift widths).any fun f => (f.mask n).getLsbD i) =
      decide (shift ≤ i ∧ i < shift + widths.sum ∧ i < n) := by
  induction widths generalizing shift with
  | nil =>
    rw [layout, List.any_nil, List.sum_nil]
    exact (decide_eq_false (by omega)).symm
  | cons width widths ih =>
    rw [layout, List.any_cons, ih, getLsbD_mask, List.sum_cons, ← Bool.decide_or]
    exact decide_eq_decide.mpr (by simp only [stop]; omega)

theorem layout_apart (shift : Nat) (widths : List Nat) : (layout shift widths).Pairwise Apart := by
  induction widths generalizing shift with
  | nil => exact List.Pairwise.nil
  | cons width widths ih =>
    exact List.pairwise_cons.mpr ⟨fun f hf => .inl (layout_bounds hf).1, ih _⟩

/-- A word has no bits outside of fields that begin with it when it is as small as they allow. -/
theorem and_not_union_layout (x : BitVec n) (widths : List Nat) :
    x &&& ~~~union (layout 0 widths) n = 0 ↔ x.toNat < 2 ^ widths.sum := by
  have hbit : ∀ i < n, (x &&& ~~~union (layout 0 widths) n).getLsbD i =
      (x.getLsbD i && !decide (i < widths.sum)) := by
    intro i hi
    rw [BitVec.getLsbD_and, BitVec.getLsbD_not, getLsbD_union (layout_apart 0 widths), any_layout,
      decide_eq_true hi, Bool.true_and, Nat.zero_add]
    simp only [Nat.zero_le, true_and, hi, and_true]
  constructor
  · intro hzero
    refine Nat.lt_pow_two_of_testBit _ fun i hi => ?_
    by_cases hn : i < n
    · have hclear := hbit i hn
      rw [hzero, decide_eq_false (Nat.not_lt.mpr hi), Bool.not_false, Bool.and_true] at hclear
      rw [BitVec.testBit_toNat, ← hclear]
      exact BitVec.getLsbD_zero
    · rw [BitVec.testBit_toNat, BitVec.getLsbD_of_ge x i (Nat.le_of_not_lt hn)]
  · intro hlt
    refine BitVec.eq_of_getLsbD_eq fun i hi => ?_
    rw [hbit i hi]
    by_cases hsum : i < widths.sum
    · rw [decide_eq_true hsum, Bool.not_true, Bool.and_false]
      exact BitVec.getLsbD_zero.symm
    · have hclear : x.getLsbD i = false := Nat.testBit_lt_two_pow
        (hlt.trans_le (Nat.pow_le_pow_right (by decide) (Nat.le_of_not_lt hsum)))
      rw [hclear, Bool.false_and]
      exact BitVec.getLsbD_zero.symm

end BitField
