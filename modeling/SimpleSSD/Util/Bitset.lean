import Mathlib.Algebra.BigOperators.Fin
import Mathlib.Algebra.BigOperators.Group.Finset.Basic
import Mathlib.Algebra.Order.BigOperators.Group.Finset
import Mathlib.Data.Finset.SymmDiff
import Mathlib.Data.Fintype.BigOperators
import SimpleSSD.Lib.Run
import SimpleSSD.Util.Def

/-!
# The bytes of a bitset (util/bitset.cc, util/algorithm.hh:73–81)

A bitset of `n` positions is an array of `DIVCEIL(n, 8)` bytes. `Holds` says that the bytes hold
a set of positions: a bit is set exactly for the positions of the set, so that the bits behind
the last position are zero. Every operation keeps it, and whole bytes are masked where that
takes it; the queries follow from it (`Holds.implements`).

The operators `&`, `|` and `^` return a reference to their own parameter `lhs`, where `~` returns
a value. When the parameter is destroyed is left to the implementation of C++: at the return, or
at the end of the expression with the call. `run_subsets_iff` says that a sequence of statements
is right exactly if no such reference outlives the parameter.

The positions that single-bit operations are given are those of the bitset, and the source tests
none; a bitset of no positions has no array and is left out.
-/

namespace SimpleSSD

open Finset

/-- `popcount<uint8_t>`. -/
def popcount (v : BitVec 8) : BitVec 8 :=
  let v := v - ((v >>> 1) &&& 255#8 / 3#8)
  let v := (v &&& 255#8 / 15#8 * 3#8) + ((v >>> 2) &&& 255#8 / 15#8 * 3#8)
  let v := (v + (v >>> 4)) &&& 255#8 / 255#8 * 15#8
  (v * (255#8 / 255#8)) >>> 0

theorem popcount_eq : ∀ v : BitVec 8,
    (popcount v).toNat = #{r ∈ range 8 | v.getLsbD r = true} := by
  decide +kernel

/-- `DIVCEIL(dataSize, 8)`, in 32 bits. -/
def allocSize (n : UInt32) : UInt32 := (n - 1) / 8 + 1

/-- `Bitset`, with `dataSize` as `n`. -/
structure ByteBitset (n : UInt32) where
  data : Fin (allocSize n).toNat → BitVec 8

/-- The operators with an assignment. -/
inductive BitOp where
  | and | or | xor
  deriving DecidableEq, Repr

namespace BitOp

def byte : BitOp → BitVec 8 → BitVec 8 → BitVec 8
  | and, a, b => a &&& b
  | or, a, b => a ||| b
  | xor, a, b => a ^^^ b

/-- The expression that the operator stands for. -/
def sets {α : Type*} [DecidableEq α] : BitOp → Finset α → Finset α → Finset α
  | and, s, t => s ∩ t
  | or, s, t => s ∪ t
  | xor, s, t => symmDiff s t

def function : BitOp → String
  | and => "Bitset::operator&="
  | or => "Bitset::operator|="
  | xor => "Bitset::operator^="

end BitOp

section Sizes

variable {n : UInt32}

theorem allocSize_toNat (hn : 0 < n) : (allocSize n).toNat = (n.toNat - 1) / 8 + 1 := by
  have hpos : 0 < n.toNat := UInt32.lt_iff_toNat_lt.mp hn
  have hlt := n.toNat_lt
  have hpred : (n - 1).toNat = n.toNat - 1 := by
    rw [UInt32.toNat_sub, show (1 : UInt32).toNat = 1 from rfl]
    omega
  have hdiv : ((n - 1) / 8).toNat = (n.toNat - 1) / 8 := by
    rw [UInt32.toNat_div, hpred, show (8 : UInt32).toNat = 8 from rfl]
  rw [allocSize, UInt32.toNat_add, hdiv, show (1 : UInt32).toNat = 1 from rfl]
  omega

/-- There is a last byte. -/
theorem allocSize_pos (n : UInt32) : 0 < (allocSize n).toNat := by
  have hlt := (n - 1).toNat_lt
  rw [allocSize, UInt32.toNat_add, UInt32.toNat_div, show (8 : UInt32).toNat = 8 from rfl,
    show (1 : UInt32).toNat = 1 from rfl]
  omega

/-- `allocSize - 1`. -/
def lastByte (n : UInt32) : Fin (allocSize n).toNat :=
  ⟨(allocSize n).toNat - 1, Nat.sub_lt (allocSize_pos n) Nat.one_pos⟩

/-- The bits behind the last position; `allocSize * 8` may wrap around. -/
theorem padding_toNat (hn : 0 < n) :
    (allocSize n * 8 - n).toNat = (allocSize n).toNat * 8 - n.toNat := by
  have hpos : 0 < n.toNat := UInt32.lt_iff_toNat_lt.mp hn
  have hlt := n.toNat_lt
  have halloc := allocSize_toNat hn
  rw [UInt32.toNat_sub, UInt32.toNat_mul, show (8 : UInt32).toNat = 8 from rfl]
  omega

theorem used_toNat (hn : 0 < n) :
    (n + 8 - allocSize n * 8).toNat = n.toNat + 8 - (allocSize n).toNat * 8 := by
  have hpos : 0 < n.toNat := UInt32.lt_iff_toNat_lt.mp hn
  have hlt := n.toNat_lt
  have halloc := allocSize_toNat hn
  rw [UInt32.toNat_sub, UInt32.toNat_add, UInt32.toNat_mul, show (8 : UInt32).toNat = 8 from rfl]
  omega

/-- The byte of a position. -/
def byteOf (i : Fin n.toNat) : Fin (allocSize n).toNat :=
  ⟨i / 8, by
    have hlt := i.isLt
    have hn : 0 < n := UInt32.lt_iff_toNat_lt.mpr (by
      rw [show (0 : UInt32).toNat = 0 from rfl]
      omega)
    rw [allocSize_toNat hn]
    omega⟩

/-- `0x01 << (idx % 8)`. -/
def bitOf (i : Fin n.toNat) : BitVec 8 := 1#8 <<< (i.val % 8)

theorem getLsbD_bitOf (i : Fin n.toNat) (r : Nat) : (bitOf i).getLsbD r = decide (r = i % 8) := by
  have hi : i.val % 8 < 8 := Nat.mod_lt _ (by decide)
  rw [bitOf, ← BitVec.twoPow_eq, BitVec.getLsbD_twoPow, decide_eq_true hi, Bool.true_and]
  exact decide_eq_decide.mpr eq_comm

end Sizes

namespace ByteBitset

variable {n m : UInt32}

/-! ### The functions of bitset.cc -/

/-- `Bitset(size)`: the array is cleared by `calloc`. -/
def new (n : UInt32) : ByteBitset n := ⟨fun _ => 0#8⟩

def test (b : ByteBitset n) (idx : Fin n.toNat) : Bool := b.data (byteOf idx) &&& bitOf idx ≠ 0#8

/-- `0xFF << (dataSize + 8 - allocSize * 8)`. -/
def unusedMask (n : UInt32) : BitVec 8 :=
  BitVec.ofNat 8 (0xFF <<< (n + 8 - allocSize n * 8).toNat)

/-- The loop goes over all bytes but the last one. -/
def all (b : ByteBitset n) : Bool :=
  let inner := (List.finRange (allocSize n).toNat).filter fun i => i.val + 1 < (allocSize n).toNat
  let ret := inner.foldl (fun ret i => ret &&& b.data i) 0xFF#8
  let ret := ret &&& (b.data (lastByte n) ||| unusedMask n)
  ret = 0xFF#8

def none (b : ByteBitset n) : Bool :=
  (List.finRange (allocSize n).toNat).foldl (fun ret i => ret ||| b.data i) 0x00#8 = 0x00#8

def any (b : ByteBitset n) : Bool := !b.none

def count (b : ByteBitset n) : UInt32 :=
  (List.finRange (allocSize n).toNat).foldl
    (fun count i => count + UInt32.ofNat (popcount (b.data i)).toNat) 0

/-- `0xFF >> (allocSize * 8 - dataSize)`. -/
def lastMask (n : UInt32) : BitVec 8 := 0xFF#8 >>> (allocSize n * 8 - n).toNat

/-- `set()`. -/
def setAll (_ : ByteBitset n) : ByteBitset n :=
  ⟨fun i => if i.val + 1 < (allocSize n).toNat then 0xFF#8 else lastMask n⟩

/-- `set(idx, value)`. -/
def set (b : ByteBitset n) (idx : Fin n.toNat) (value : Bool) : ByteBitset n :=
  let data := Function.update b.data (byteOf idx) (b.data (byteOf idx) &&& ~~~bitOf idx)
  if value then ⟨Function.update data (byteOf idx) (data (byteOf idx) ||| bitOf idx)⟩ else ⟨data⟩

/-- `reset()`. -/
def resetAll (_ : ByteBitset n) : ByteBitset n := ⟨fun _ => 0x00#8⟩

/-- `reset(idx)`. -/
def reset (b : ByteBitset n) (idx : Fin n.toNat) : ByteBitset n :=
  ⟨Function.update b.data (byteOf idx) (b.data (byteOf idx) &&& ~~~bitOf idx)⟩

/-- `flip()`: all bytes, and then the mask for the last one. -/
def flipAll (b : ByteBitset n) : ByteBitset n :=
  ⟨fun i => if i.val + 1 < (allocSize n).toNat then ~~~b.data i else ~~~b.data i &&& lastMask n⟩

/-- `flip(idx)`. -/
def flip (b : ByteBitset n) (idx : Fin n.toNat) : ByteBitset n :=
  ⟨Function.update b.data (byteOf idx)
    ((~~~b.data (byteOf idx) &&& bitOf idx) ||| (b.data (byteOf idx) &&& ~~~bitOf idx))⟩

/-- `operator&=`, `operator|=` and `operator^=` (bitset.cc:155–189). -/
def opAssign (o : BitOp) (lhs : ByteBitset n) (rhs : ByteBitset m) : Except Fault (ByteBitset n) :=
  if h : n = m then .ok ⟨fun i => o.byte (lhs.data i) (rhs.data (Fin.cast (by rw [h]) i))⟩
  else .error (.panic o.function "Size does not match")

/-- `operator~`. -/
def compl (b : ByteBitset n) : ByteBitset n := b.flipAll

/-! ### The set of a bitset -/

/-- The bytes hold the set: a bit is set for the positions of the set, and no other bit is. -/
def Holds (b : ByteBitset n) (s : Finset (Fin n.toNat)) : Prop :=
  ∀ (k : Fin (allocSize n).toNat) (r : Nat), r < 8 →
    ((b.data k).getLsbD r = true ↔ ∃ h : 8 * k.val + r < n.toNat, ⟨8 * k.val + r, h⟩ ∈ s)

section Operations

variable {b c : ByteBitset n} {s t : Finset (Fin n.toNat)} {idx : Fin n.toNat}

theorem new_holds : (new n).Holds ∅ := by
  intro k r _
  simp [new]

theorem resetAll_holds : b.resetAll.Holds ∅ := by
  intro k r _
  simp [resetAll]

/-- The mask keeps the positions of the last byte. -/
theorem getLsbD_lastMask (hn : 0 < n) {k : Fin (allocSize n).toNat} {r : Nat} (hr : r < 8)
    (hlast : ¬ k.val + 1 < (allocSize n).toNat) :
    (lastMask n).getLsbD r = true ↔ 8 * k.val + r < n.toNat := by
  have hpos : 0 < n.toNat := UInt32.lt_iff_toNat_lt.mp hn
  have hk := k.isLt
  have halloc := allocSize_toNat hn
  have hones : (0xFF#8).getLsbD ((allocSize n * 8 - n).toNat + r) =
      decide ((allocSize n * 8 - n).toNat + r < 8) := BitVec.getLsbD_allOnes (v := 8)
  rw [lastMask, BitVec.getLsbD_ushiftRight, hones, decide_eq_true_eq, padding_toNat hn]
  omega

/-- The other bytes have positions only. -/
theorem position_lt (hn : 0 < n) {k : Fin (allocSize n).toNat} {r : Nat} (hr : r < 8)
    (hinner : k.val + 1 < (allocSize n).toNat) : 8 * k.val + r < n.toNat := by
  have hpos : 0 < n.toNat := UInt32.lt_iff_toNat_lt.mp hn
  have halloc := allocSize_toNat hn
  omega

theorem setAll_holds (hn : 0 < n) : b.setAll.Holds univ := by
  intro k r hr
  simp only [setAll, mem_univ, exists_prop, and_true]
  split
  · next hinner =>
    have hones : (0xFF#8).getLsbD r = decide (r < 8) := BitVec.getLsbD_allOnes (v := 8)
    simp [hones, hr, position_lt hn hr hinner]
  · next hlast => exact getLsbD_lastMask hn hr hlast

theorem Holds.flipAll (hn : 0 < n) (h : b.Holds s) : b.flipAll.Holds sᶜ := by
  intro k r hr
  have hk := h k r hr
  simp only [ByteBitset.flipAll, mem_compl]
  split
  · next hinner =>
    have hlt := position_lt hn hr hinner
    rw [BitVec.getLsbD_not, decide_eq_true hr, Bool.true_and, Bool.not_eq_true', ← Bool.not_eq_true,
      hk]
    simp [hlt]
  · next hlast =>
    rw [BitVec.getLsbD_and, Bool.and_eq_true, getLsbD_lastMask hn hr hlast, BitVec.getLsbD_not,
      decide_eq_true hr, Bool.true_and, Bool.not_eq_true', ← Bool.not_eq_true, hk]
    constructor
    · rintro ⟨hnot, hlt⟩
      exact ⟨hlt, fun hmem => hnot ⟨hlt, hmem⟩⟩
    · rintro ⟨hlt, hmem⟩
      exact ⟨fun ⟨_, hmem'⟩ => hmem hmem', hlt⟩

/-- A change of one byte, with what it does to each bit of it. -/
theorem Holds.update (h : b.Holds s) {v : BitVec 8}
    (hbit : ∀ r < 8, v.getLsbD r = if r = idx % 8 then decide (idx ∈ t)
      else (b.data (byteOf idx)).getLsbD r)
    (hother : ∀ i, i ≠ idx → (i ∈ t ↔ i ∈ s)) :
    Holds ⟨Function.update b.data (byteOf idx) v⟩ t := by
  intro k r hr
  dsimp only
  by_cases hk : k = byteOf idx
  · subst hk
    rw [Function.update_self, hbit r hr]
    have hbyte : (byteOf idx).val = idx / 8 := rfl
    split
    · next hpos =>
      -- the bit of the position itself
      have hidx : 8 * (byteOf idx).val + r = idx := by omega
      rw [decide_eq_true_eq]
      constructor
      · intro hmem
        exact ⟨hidx ▸ idx.isLt, by simpa [hidx] using hmem⟩
      · rintro ⟨hlt, hmem⟩
        simpa [hidx] using hmem
    · next hne =>
      rw [h (byteOf idx) r hr]
      refine exists_congr fun hlt => (hother _ fun heq => hne ?_).symm
      have := congrArg Fin.val heq
      dsimp only at this
      omega
  · rw [Function.update_of_ne hk, h k r hr]
    refine exists_congr fun hlt => (hother _ fun heq => hk (Fin.ext ?_)).symm
    have := congrArg Fin.val heq
    have hbyte : (byteOf idx).val = idx / 8 := rfl
    dsimp only at this
    omega

theorem getLsbD_clear (v : BitVec 8) {r : Nat} (hr : r < 8) :
    (v &&& ~~~bitOf idx).getLsbD r = if r = idx % 8 then false else v.getLsbD r := by
  rw [BitVec.getLsbD_and, BitVec.getLsbD_not, getLsbD_bitOf, decide_eq_true hr]
  split <;> simp [*]

theorem Holds.reset (h : b.Holds s) : (b.reset idx).Holds (s.erase idx) := by
  refine h.update (fun r hr => ?_) fun i hi => by simp [hi]
  rw [getLsbD_clear _ hr]
  simp

theorem Holds.set (h : b.Holds s) {value : Bool} :
    (b.set idx value).Holds (if value then insert idx s else s.erase idx) := by
  unfold ByteBitset.set
  cases value with
  | false => exact h.reset
  | true =>
    dsimp only
    rw [if_pos rfl, if_pos rfl, Function.update_self, Function.update_idem]
    refine h.update (fun r hr => ?_) fun i hi => by simp [hi]
    rw [BitVec.getLsbD_or, getLsbD_clear _ hr, getLsbD_bitOf]
    split <;> simp [*]

/-- The bit of the position, before a change. -/
theorem Holds.bit (h : b.Holds s) (idx : Fin n.toNat) :
    (b.data (byteOf idx)).getLsbD (idx % 8) = decide (idx ∈ s) := by
  have hbyte : (byteOf idx).val = idx / 8 := rfl
  have hidx : 8 * (byteOf idx).val + idx.val % 8 = idx := by omega
  rw [Bool.eq_iff_iff, h (byteOf idx) (idx.val % 8) (Nat.mod_lt _ (by decide)), decide_eq_true_eq]
  constructor
  · rintro ⟨hlt, hmem⟩
    simpa [hidx] using hmem
  · intro hmem
    exact ⟨hidx.trans_lt idx.isLt, by simpa [hidx] using hmem⟩

theorem Holds.flip (h : b.Holds s) : (b.flip idx).Holds (symmDiff s {idx}) := by
  refine h.update (fun r hr => ?_) fun i hi => by simp [mem_symmDiff, hi]
  rw [BitVec.getLsbD_or, getLsbD_clear _ hr, BitVec.getLsbD_and, BitVec.getLsbD_not, getLsbD_bitOf,
    decide_eq_true hr]
  split
  · next hpos =>
    rw [hpos, h.bit idx]
    simp [mem_symmDiff]
  · next hne => simp [hne]

theorem Holds.opAssign (hb : b.Holds s) (hc : c.Holds t) (o : BitOp) :
    ∃ d, opAssign o b c = .ok d ∧ d.Holds (o.sets s t) := by
  refine ⟨_, dif_pos rfl, fun k r hr => ?_⟩
  have hbk := hb k r hr
  have hck := hc k r hr
  by_cases hlt : 8 * k.val + r < n.toNat
  · simp only [hlt, exists_true_left] at hbk hck ⊢
    cases o with
    | and => simp [BitOp.byte, BitOp.sets, hbk, hck]
    | or => simp [BitOp.byte, BitOp.sets, hbk, hck]
    | xor =>
      simp only [BitOp.byte, BitOp.sets, Fin.cast_eq_self, BitVec.getLsbD_xor, mem_symmDiff, ← hbk,
        ← hck]
      cases (b.data k).getLsbD r <;> cases (c.data k).getLsbD r <;> decide
  · -- behind the last position both have zeros
    simp only [hlt, IsEmpty.exists_iff, iff_false, Bool.not_eq_true] at hbk hck ⊢
    cases o with
    | and => simp [BitOp.byte, hbk]
    | or => simp [BitOp.byte, hbk, hck]
    | xor => simp [BitOp.byte, hbk, hck]

end Operations

/-! ### Queries -/

section Queries

variable {b : ByteBitset n} {s : Finset (Fin n.toNat)}

/-- The queries of a bitset in terms of its set. -/
structure Implements (b : ByteBitset n) (s : Finset (Fin n.toNat)) : Prop where
  test : ∀ idx, b.test idx = decide (idx ∈ s)
  count : b.count.toNat = #s
  all : b.all = decide (s = univ)
  any : b.any = decide s.Nonempty
  none : b.none = decide (s = ∅)
  padding : ∀ r < 8, n.toNat ≤ 8 * (lastByte n).val + r →
    (b.data (lastByte n)).getLsbD r = false

theorem Holds.test (h : b.Holds s) (idx : Fin n.toNat) : b.test idx = decide (idx ∈ s) := by
  have hi : idx.val % 8 < 8 := Nat.mod_lt _ (by decide)
  have hone : BitVec.twoPow 8 (idx % 8) ≠ 0#8 := by
    intro hzero
    have hbit := congrArg (fun v => BitVec.getLsbD v (idx % 8)) hzero
    simp [hi] at hbit
  rw [ByteBitset.test, bitOf, ← BitVec.twoPow_eq, BitVec.and_twoPow, h.bit idx]
  split
  · next hmem => simp [hmem, hone]
  · next hmem => simp [hmem]

/-- A position is in the set iff its byte has its bit. -/
theorem Holds.mem_iff (h : b.Holds s) (idx : Fin n.toNat) :
    idx ∈ s ↔ (b.data (byteOf idx)).getLsbD (idx % 8) = true := by
  rw [h.bit idx, decide_eq_true_eq]

theorem foldl_or_eq_zero {α : Type*} (f : α → BitVec 8) (l : List α) (v : BitVec 8) :
    l.foldl (fun ret i => ret ||| f i) v = 0#8 ↔ v = 0#8 ∧ ∀ i ∈ l, f i = 0#8 := by
  induction l generalizing v with
  | nil => simp
  | cons i l ih => rw [List.foldl_cons, ih, BitVec.or_eq_zero_iff, List.forall_mem_cons, and_assoc]

theorem foldl_and_eq_ones {α : Type*} (f : α → BitVec 8) (l : List α) (v : BitVec 8) :
    l.foldl (fun ret i => ret &&& f i) v = 0xFF#8 ↔ v = 0xFF#8 ∧ ∀ i ∈ l, f i = 0xFF#8 := by
  induction l generalizing v with
  | nil => simp
  | cons i l ih =>
    have hand : v &&& f i = 0xFF#8 ↔ v = 0xFF#8 ∧ f i = 0xFF#8 := BitVec.and_eq_allOnes_iff
    rw [List.foldl_cons, ih, hand, List.forall_mem_cons, and_assoc]

/-- A byte is zero iff none of its positions is in the set. -/
theorem Holds.none (h : b.Holds s) : b.none = decide (s = ∅) := by
  rw [ByteBitset.none]
  refine decide_eq_decide.mpr ?_
  rw [foldl_or_eq_zero]
  constructor
  · rintro ⟨-, hzero⟩
    refine eq_empty_of_forall_notMem fun idx hmem => ?_
    have hbit := (h.mem_iff idx).mp hmem
    rw [hzero (byteOf idx) (List.mem_finRange _)] at hbit
    simp at hbit
  · rintro rfl
    refine ⟨rfl, fun k _ => BitVec.eq_of_getLsbD_eq fun r hr => ?_⟩
    rw [BitVec.getLsbD_zero, Bool.eq_false_iff, ne_eq, h k r hr]
    simp

theorem Holds.any (h : b.Holds s) : b.any = decide s.Nonempty := by
  rw [ByteBitset.any, h.none, Bool.eq_iff_iff]
  simp [nonempty_iff_ne_empty]

theorem eq_ones_iff {v : BitVec 8} : v = 0xFF#8 ↔ ∀ r < 8, v.getLsbD r = true := by
  have hones : ∀ r < 8, (0xFF#8).getLsbD r = true := by decide
  constructor
  · rintro rfl
    exact hones
  · intro h
    exact BitVec.eq_of_getLsbD_eq fun r hr => (h r hr).trans (hones r hr).symm

theorem getLsbD_unusedMask (hn : 0 < n) {r : Nat} (hr : r < 8) :
    (unusedMask n).getLsbD r = true ↔ n.toNat ≤ 8 * (lastByte n).val + r := by
  have hpos : 0 < n.toNat := UInt32.lt_iff_toNat_lt.mp hn
  have halloc := allocSize_toNat hn
  have hlast : (lastByte n).val = (allocSize n).toNat - 1 := rfl
  have hones : ∀ k < 8, Nat.testBit 0xFF k = true := by decide
  have hused := used_toNat hn
  rw [unusedMask, BitVec.getLsbD_ofNat, Nat.testBit_shiftLeft, decide_eq_true hr, Bool.true_and,
    Bool.and_eq_true, decide_eq_true_eq]
  constructor
  · rintro ⟨hle, -⟩
    omega
  · intro hle
    exact ⟨by omega, hones _ (by omega)⟩

theorem Holds.all (hn : 0 < n) (h : b.Holds s) : b.all = decide (s = univ) := by
  rw [ByteBitset.all]
  refine decide_eq_decide.mpr ?_
  have hand : ∀ v w : BitVec 8, v &&& w = 0xFF#8 ↔ v = 0xFF#8 ∧ w = 0xFF#8 := fun v w =>
    BitVec.and_eq_allOnes_iff
  have hsize : (lastByte n).val = (allocSize n).toNat - 1 := rfl
  rw [hand, foldl_and_eq_ones, eq_ones_iff (v := b.data (lastByte n) ||| unusedMask n)]
  constructor
  · rintro ⟨⟨-, hinner⟩, hlast⟩
    refine eq_univ_of_forall fun idx => (h.mem_iff idx).mpr ?_
    have hi : idx.val % 8 < 8 := Nat.mod_lt _ (by decide)
    have hbyte : (byteOf idx).val = idx / 8 := rfl
    by_cases hk : (byteOf idx).val + 1 < (allocSize n).toNat
    · have hones := hinner (byteOf idx) (by simp [hk])
      exact eq_ones_iff.mp hones _ hi
    · -- the position is in the last byte, in front of the mask
      have hk : byteOf idx = lastByte n := Fin.ext (by have := (byteOf idx).isLt; omega)
      have hbit := hlast _ hi
      rw [BitVec.getLsbD_or, Bool.or_eq_true, getLsbD_unusedMask hn hi, ← hk] at hbit
      rcases hbit with hbit | hbit
      · exact hbit
      · have := idx.isLt
        omega
  · rintro rfl
    refine ⟨⟨rfl, fun k hk => eq_ones_iff.mpr fun r hr => ?_⟩, fun r hr => ?_⟩
    · have hk : k.val + 1 < (allocSize n).toNat := by simpa using hk
      exact (h k r hr).mpr ⟨position_lt hn hr hk, mem_univ _⟩
    · rw [BitVec.getLsbD_or, Bool.or_eq_true, getLsbD_unusedMask hn hr, h _ r hr]
      rcases Nat.lt_or_ge (8 * (lastByte n).val + r) n.toNat with hlt | hge
      · exact .inl ⟨hlt, mem_univ _⟩
      · exact .inr hge

/-- The positions of a byte that are in the set are as many as the bits of the byte. -/
theorem Holds.popcount (h : b.Holds s) (k : Fin (allocSize n).toNat) :
    (popcount (b.data k)).toNat = #{idx ∈ s | byteOf idx = k} := by
  rw [popcount_eq]
  symm
  refine card_bij (fun idx _ => idx.val % 8) ?_ ?_ ?_
  · intro idx hidx
    obtain ⟨hmem, rfl⟩ := mem_filter.mp hidx
    exact mem_filter.mpr ⟨mem_range.mpr (Nat.mod_lt _ (by decide)), (h.mem_iff idx).mp hmem⟩
  · intro i hi j hj hij
    have hbyte : byteOf i = byteOf j := (mem_filter.mp hi).2.trans (mem_filter.mp hj).2.symm
    have hdiv : i.val / 8 = j.val / 8 := congrArg Fin.val hbyte
    exact Fin.ext (by omega)
  · intro r hr
    obtain ⟨hr, hbit⟩ := mem_filter.mp hr
    have hr := mem_range.mp hr
    obtain ⟨hlt, hmem⟩ := (h k r hr).mp hbit
    refine ⟨⟨8 * k.val + r, hlt⟩, mem_filter.mpr ⟨hmem, Fin.ext ?_⟩, ?_⟩
    · show (8 * k.val + r) / 8 = k.val
      omega
    · show (8 * k.val + r) % 8 = r
      omega

/-- The sum of a loop, in 32 bits. -/
theorem foldl_count {α : Type*} (f : α → BitVec 8) (l : List α) (c : UInt32) :
    (l.foldl (fun count i => count + UInt32.ofNat (f i).toNat) c).toNat =
      (c.toNat + (l.map fun i => (f i).toNat).sum) % 2 ^ 32 := by
  induction l generalizing c with
  | nil => simp [Nat.mod_eq_of_lt c.toNat_lt]
  | cons i l ih =>
    have hbyte := (f i).isLt
    rw [List.foldl_cons, ih, UInt32.toNat_add, UInt32.toNat_ofNat', List.map_cons, List.sum_cons]
    omega

theorem Holds.count (h : b.Holds s) : b.count.toNat = #s := by
  have hsum : ((List.finRange (allocSize n).toNat).map fun i =>
      (SimpleSSD.popcount (b.data i)).toNat).sum = #s := by
    rw [card_eq_sum_card_fiberwise (t := univ) fun idx _ => mem_univ (byteOf idx),
      ← List.sum_toFinset _ (List.nodup_finRange _), List.toFinset_finRange]
    exact sum_congr rfl fun k _ => h.popcount k
  have hle : #s ≤ n.toNat := by
    simpa using card_le_univ s
  have hlt := n.toNat_lt
  rw [ByteBitset.count, foldl_count, hsum, show (0 : UInt32).toNat = 0 from rfl, Nat.zero_add,
    Nat.mod_eq_of_lt (by omega)]

theorem Holds.implements (hn : 0 < n) (h : b.Holds s) : b.Implements s where
  test := h.test
  count := h.count
  all := h.all hn
  any := h.any
  none := h.none
  padding r hr hge := by
    rw [Bool.eq_false_iff, ne_eq, h _ r hr]
    rintro ⟨hlt, -⟩
    omega

end Queries

/-! ### The abstract bitset -/

/-- The bitset that the layers above use. -/
def toBitset (b : ByteBitset n) : Bitset where
  dataSize := n.toNat
  bits := {i ∈ range n.toNat | ∃ h : i < n.toNat, b.test ⟨i, h⟩ = true}
  bits_lt _ hi := mem_range.mp (mem_filter.mp hi).1

section Refinement

variable {b c : ByteBitset n} {s t : Finset (Fin n.toNat)} {idx : Fin n.toNat}

theorem mem_toBitset (h : b.Holds s) {i : Nat} :
    i ∈ b.toBitset.bits ↔ ∃ hi : i < n.toNat, ⟨i, hi⟩ ∈ s := by
  simp only [toBitset, mem_filter, mem_range, h.test, decide_eq_true_eq]
  constructor
  · rintro ⟨-, hi⟩
    exact hi
  · rintro ⟨hi, hmem⟩
    exact ⟨hi, hi, hmem⟩

/-- Bytes that hold the set are the abstract bitset of that set. -/
theorem toBitset_eq (h : b.Holds s) {a : Bitset} (hsize : a.dataSize = n.toNat)
    (hbits : ∀ i, (hi : i < n.toNat) → (i ∈ a.bits ↔ ⟨i, hi⟩ ∈ s)) : b.toBitset = a := by
  obtain ⟨size, bits, hlt⟩ := a
  subst hsize
  show Bitset.mk n.toNat b.toBitset.bits _ = _
  congr 1
  ext i
  rw [mem_toBitset h]
  constructor
  · rintro ⟨hi, hmem⟩
    exact (hbits i hi).mpr hmem
  · intro hmem
    exact ⟨hlt i hmem, (hbits i (hlt i hmem)).mp hmem⟩

/-- The operations that the FTL model uses are those of the bytes. -/
theorem toBitset_refines (hn : 0 < n) (hb : b.Holds s) (hc : c.Holds t) :
    (new n).toBitset = .new n.toNat ∧ b.setAll.toBitset = b.toBitset.setAll ∧
      (b.set idx true).toBitset = b.toBitset.insert idx ∧
      b.flipAll.toBitset = b.toBitset.flip ∧
      (opAssign .and b c).map toBitset = b.toBitset.and c.toBitset ∧
      (opAssign .or b c).map toBitset = b.toBitset.or c.toBitset := by
  have hset : (b.set idx true).Holds (insert idx s) := by
    have h : (b.set idx true).Holds (if true then insert idx s else s.erase idx) := hb.set
    rwa [if_pos rfl] at h
  refine ⟨toBitset_eq new_holds rfl ?_, toBitset_eq (setAll_holds hn) rfl ?_,
    toBitset_eq hset rfl ?_, toBitset_eq (hb.flipAll hn) rfl ?_, ?_, ?_⟩
  · intro i hi
    simp [Bitset.new]
  · intro i hi
    simp [Bitset.setAll, toBitset, hi]
  · intro i hi
    simp only [Bitset.insert, mem_filter, mem_insert, mem_toBitset hb, mem_range, Fin.ext_iff]
    simp [toBitset, hi]
  · intro i hi
    simp only [Bitset.flip, mem_sdiff, mem_toBitset hb, mem_compl]
    simp [toBitset, hi]
  · obtain ⟨d, hd, hdset⟩ := hb.opAssign hc .and
    rw [hd, Bitset.and, if_neg (by simp [toBitset])]
    refine congrArg _ (toBitset_eq hdset rfl fun i hi => ?_)
    simp [mem_toBitset hb, mem_toBitset hc, BitOp.sets, hi]
  · obtain ⟨d, hd, hdset⟩ := hb.opAssign hc .or
    rw [hd, Bitset.or, dif_neg (by simp [toBitset])]
    refine congrArg _ (toBitset_eq hdset rfl fun i hi => ?_)
    simp [mem_toBitset hb, mem_toBitset hc, BitOp.sets, hi]

end Refinement

end ByteBitset

/-! ### Statements -/

/-- When the parameter `lhs` of `operator&(Bitset lhs, const Bitset &rhs)` and of its like is
destroyed, which the implementation of C++ decides: at the return of the function, or at the end
of the full-expression that has the call. -/
inductive ParameterLifetime where
  | functionReturn | fullExpression
  deriving DecidableEq, Repr

/-- A statement on variables `V` of one size. -/
inductive BitStatement (V : Type) (n : UInt32) where
  | setAll (x : V)
  | set (x : V) (idx : Fin n.toNat) (value : Bool)
  | resetAll (x : V)
  | reset (x : V) (idx : Fin n.toNat)
  | flipAll (x : V)
  | flip (x : V) (idx : Fin n.toNat)
  /-- `x = y`. -/
  | assign (x y : V)
  /-- `x = ~y`. -/
  | compl (x y : V)
  /-- `x &= y` and its like. -/
  | opAssign (o : BitOp) (x y : V)
  /-- `x = y & z` and its like: the result is copied in the expression with the call. -/
  | copy (o : BitOp) (x y z : V)
  /-- `const Bitset &x = y & z` and its like: from now on `x` is the result. -/
  | bind (o : BitOp) (x y z : V)

namespace BitStatement

variable {V : Type} {n : UInt32}

/-- The variables: a bitset, or a reference to an object that has been destroyed. -/
abbrev State (V : Type) (n : UInt32) := V → Option (ByteBitset n)

/-- An access to the object of a variable. -/
def State.get (s : State V n) (x : V) : Except Fault (ByteBitset n) :=
  match s x with
  | some b => .ok b
  | none => .error (.badAccess "destroyed Bitset")

/-- All variables as they are constructed. -/
def start : State V n := fun _ => some (.new n)

/-- All variables hold their sets. -/
def Hold (s : State V n) (t : V → Finset (Fin n.toNat)) : Prop :=
  ∀ x, ∃ b, s x = some b ∧ b.Holds (t x)

theorem start_hold : Hold (start : State V n) fun _ => ∅ := fun _ =>
  ⟨.new n, rfl, ByteBitset.new_holds⟩

theorem Hold.get {s : State V n} {t : V → Finset (Fin n.toNat)} (h : Hold s t) (x : V) :
    ∃ b, s.get x = .ok b ∧ b.Holds (t x) := by
  obtain ⟨b, hx, hb⟩ := h x
  exact ⟨b, by rw [State.get, hx], hb⟩

variable [DecidableEq V]

/-- `f` changes the object of `x`. -/
def State.modify (s : State V n) (x : V) (f : ByteBitset n → Except Fault (ByteBitset n)) :
    Except Fault (State V n) := do
  let b ← s.get x
  let b ← f b
  .ok (Function.update s x (some b))

/-- The binary operators (bitset.hh:67–69): `lhs` is a copy, and what is returned refers to it. -/
def operator (o : BitOp) (lhs rhs : ByteBitset n) : Except Fault (ByteBitset n) :=
  lhs.opAssign o rhs

def exec (lifetime : ParameterLifetime) (s : State V n) :
    BitStatement V n → Except Fault (State V n)
  | setAll x => s.modify x fun b => .ok b.setAll
  | set x idx value => s.modify x fun b => .ok (b.set idx value)
  | resetAll x => s.modify x fun b => .ok b.resetAll
  | reset x idx => s.modify x fun b => .ok (b.reset idx)
  | flipAll x => s.modify x fun b => .ok b.flipAll
  | flip x idx => s.modify x fun b => .ok (b.flip idx)
  | assign x y => s.modify x fun _ => s.get y
  | compl x y => s.modify x fun _ => (s.get y).map ByteBitset.compl
  | opAssign o x y => s.modify x fun b => do b.opAssign o (← s.get y)
  | copy o x y z => s.modify x fun _ => do
    let result ← operator o (← s.get y) (← s.get z)
    match lifetime with
    | .fullExpression => .ok result
    | .functionReturn => .error (.badAccess "destroyed Bitset")
  | bind o x y z => do
    let _ ← operator o (← s.get y) (← s.get z)
    -- whenever it has been, behind the statement the parameter is destroyed
    .ok (Function.update s x none)

/-- What the statement is for sets. -/
def sets (s : V → Finset (Fin n.toNat)) : BitStatement V n → V → Finset (Fin n.toNat)
  | setAll x => Function.update s x univ
  | set x idx value => Function.update s x (if value then insert idx (s x) else (s x).erase idx)
  | resetAll x => Function.update s x ∅
  | reset x idx => Function.update s x ((s x).erase idx)
  | flipAll x => Function.update s x (s x)ᶜ
  | flip x idx => Function.update s x (symmDiff (s x) {idx})
  | assign x y => Function.update s x (s y)
  | compl x y => Function.update s x (s y)ᶜ
  | opAssign o x y => Function.update s x (o.sets (s x) (s y))
  | copy o x y z => Function.update s x (o.sets (s y) (s z))
  | bind o x y z => Function.update s x (o.sets (s y) (s z))

/-- The result of a binary operator is used only while its parameter lives. -/
def Lives (lifetime : ParameterLifetime) : BitStatement V n → Prop
  | copy _ _ _ _ => lifetime = .fullExpression
  | bind _ _ _ _ => False
  | _ => True

section Runs

variable {lifetime : ParameterLifetime} {s s' : State V n} {t : V → Finset (Fin n.toNat)}
  {st : BitStatement V n}

/-- A change of one variable. -/
theorem Hold.modify (h : Hold s t) {x : V} {f : ByteBitset n → Except Fault (ByteBitset n)}
    {u : Finset (Fin n.toNat)} (hf : ∀ b, b.Holds (t x) → ∃ c, f b = .ok c ∧ c.Holds u) :
    ∃ s', s.modify x f = .ok s' ∧ Hold s' (Function.update t x u) := by
  obtain ⟨b, hx, hb⟩ := h x
  obtain ⟨c, hc, hcu⟩ := hf b hb
  refine ⟨Function.update s x (some c), ?_, fun y => ?_⟩
  · simp [State.modify, State.get, hx, hc, Bind.bind, Except.bind]
  · by_cases hy : y = x
    · subst hy
      exact ⟨c, Function.update_self .., by rwa [Function.update_self]⟩
    · obtain ⟨d, hd, hdt⟩ := h y
      exact ⟨d, by rwa [Function.update_of_ne hy], by rwa [Function.update_of_ne hy]⟩

theorem Hold.exec (hn : 0 < n) (h : Hold s t) (hlives : st.Lives lifetime) :
    ∃ s', exec lifetime s st = .ok s' ∧ Hold s' (st.sets t) := by
  cases st with
  | setAll x => exact h.modify fun b _ => ⟨_, rfl, ByteBitset.setAll_holds hn⟩
  | set x idx value => exact h.modify fun b hb => ⟨_, rfl, hb.set⟩
  | resetAll x => exact h.modify fun b _ => ⟨_, rfl, ByteBitset.resetAll_holds⟩
  | reset x idx => exact h.modify fun b hb => ⟨_, rfl, hb.reset⟩
  | flipAll x => exact h.modify fun b hb => ⟨_, rfl, hb.flipAll hn⟩
  | flip x idx => exact h.modify fun b hb => ⟨_, rfl, hb.flip⟩
  | assign x y => exact h.modify fun b _ => h.get y
  | compl x y =>
    refine h.modify fun b _ => ?_
    obtain ⟨c, hc, hct⟩ := h.get y
    exact ⟨c.compl, by rw [hc]; rfl, hct.flipAll hn⟩
  | opAssign o x y =>
    refine h.modify fun b hb => ?_
    obtain ⟨c, hc, hct⟩ := h.get y
    obtain ⟨d, hd, hdt⟩ := hb.opAssign hct o
    exact ⟨d, by rw [hc]; exact hd, hdt⟩
  | copy o x y z =>
    refine h.modify fun b _ => ?_
    obtain ⟨c, hc, hct⟩ := h.get y
    obtain ⟨d, hd, hdt⟩ := h.get z
    obtain ⟨e, he, het⟩ := hct.opAssign hdt o
    have hlifetime : lifetime = .fullExpression := hlives
    subst hlifetime
    refine ⟨e, ?_, het⟩
    rw [hc, hd]
    simp only [operator, Except.ok_bind, he]
  | bind o x y z => exact hlives.elim

/-- A destroyed object stays destroyed. -/
theorem exec_destroyed {x : V} (hx : s x = none) (hs' : exec lifetime s st = .ok s') :
    s' x = none := by
  have hmodify : ∀ {y : V} {f : ByteBitset n → Except Fault (ByteBitset n)},
      s.modify y f = .ok s' → s' x = none := by
    intro y f hf
    obtain ⟨b, hb, hf⟩ := Except.bind_eq_ok.mp hf
    obtain ⟨c, -, hc⟩ := Except.bind_eq_ok.mp hf
    cases hc
    have hne : x ≠ y := by
      rintro rfl
      rw [State.get, hx] at hb
      cases hb
    rwa [Function.update_of_ne hne]
  cases st with
  | bind o y z w =>
    obtain ⟨b, -, hf⟩ := Except.bind_eq_ok.mp hs'
    obtain ⟨c, -, hf⟩ := Except.bind_eq_ok.mp hf
    obtain ⟨d, -, hf⟩ := Except.bind_eq_ok.mp hf
    cases hf
    by_cases hy : x = y
    · rw [hy, Function.update_self]
    · rwa [Function.update_of_ne hy]
  | _ => exact hmodify hs'

/-- Behind a statement that uses a destroyed parameter there is none, or a destroyed object. -/
theorem exec_not_lives (hlives : ¬ st.Lives lifetime) (hs' : exec lifetime s st = .ok s') :
    ∃ x, s' x = none := by
  cases st with
  | copy o x y z =>
    obtain ⟨b, -, hf⟩ := Except.bind_eq_ok.mp hs'
    obtain ⟨c, hc, -⟩ := Except.bind_eq_ok.mp hf
    obtain ⟨d, -, hc⟩ := Except.bind_eq_ok.mp hc
    obtain ⟨e, -, hc⟩ := Except.bind_eq_ok.mp hc
    obtain ⟨r, -, hc⟩ := Except.bind_eq_ok.mp hc
    cases lifetime with
    | functionReturn => cases hc
    | fullExpression => exact absurd rfl hlives
  | bind o x y z =>
    obtain ⟨b, -, hf⟩ := Except.bind_eq_ok.mp hs'
    obtain ⟨c, -, hf⟩ := Except.bind_eq_ok.mp hf
    obtain ⟨d, -, hf⟩ := Except.bind_eq_ok.mp hf
    cases hf
    exact ⟨x, Function.update_self ..⟩
  | _ => exact absurd trivial hlives

theorem run_destroyed {sts : List (BitStatement V n)} {x : V} (hx : s x = none)
    (hs' : sts.foldlM (exec lifetime) s = .ok s') : s' x = none := by
  induction sts generalizing s with
  | nil =>
    cases hs'
    exact hx
  | cons st sts ih =>
    rw [List.foldlM_cons] at hs'
    obtain ⟨s₁, hs₁, hs'⟩ := Except.bind_eq_ok.mp hs'
    exact ih (exec_destroyed hx hs₁) hs'

theorem run_hold (hn : 0 < n) (h : Hold s t) {sts : List (BitStatement V n)}
    (hlives : ∀ st ∈ sts, st.Lives lifetime) :
    ∃ s', sts.foldlM (exec lifetime) s = .ok s' ∧ Hold s' (sts.foldl sets t) := by
  induction sts generalizing s t with
  | nil => exact ⟨s, rfl, h⟩
  | cons st sts ih =>
    obtain ⟨hfirst, hrest⟩ := List.forall_mem_cons.mp hlives
    obtain ⟨s₁, hs₁, h₁⟩ := h.exec hn hfirst
    rw [List.foldlM_cons, List.foldl_cons, hs₁]
    exact ih h₁ hrest

theorem run_not_lives {sts : List (BitStatement V n)} (hst : st ∈ sts)
    (hlives : ¬ st.Lives lifetime) (hs' : sts.foldlM (exec lifetime) s = .ok s') :
    ∃ x, s' x = none := by
  induction sts generalizing s with
  | nil => cases hst
  | cons st' sts ih =>
    rw [List.foldlM_cons] at hs'
    obtain ⟨s₁, hs₁, hrun⟩ := Except.bind_eq_ok.mp hs'
    rcases List.mem_cons.mp hst with rfl | hst
    · obtain ⟨x, hx⟩ := exec_not_lives hlives hs₁
      exact ⟨x, run_destroyed hx hrun⟩
    · exact ih hst hrun

end Runs

/-- Behind the statements every variable answers as its set does. -/
def Right (lifetime : ParameterLifetime) (sts : List (BitStatement V n)) : Prop :=
  ∃ s, sts.foldlM (exec lifetime) start = .ok s ∧
    ∀ x, ∃ b, s x = some b ∧ b.Implements (sts.foldl sets (fun _ => ∅) x)

/-- A sequence of statements is right iff no result of `&`, `|` or `^` is used behind the life of
the parameter that it refers to. -/
theorem run_subsets_iff (hn : 0 < n) (lifetime : ParameterLifetime)
    (sts : List (BitStatement V n)) : Right lifetime sts ↔ ∀ st ∈ sts, st.Lives lifetime := by
  constructor
  · rintro ⟨s, hs, hright⟩ st hst
    by_contra hlives
    obtain ⟨x, hx⟩ := run_not_lives hst hlives hs
    obtain ⟨b, hb, -⟩ := hright x
    rw [hx] at hb
    cases hb
  · intro hlives
    obtain ⟨s, hs, hhold⟩ := run_hold hn start_hold hlives
    refine ⟨s, hs, fun x => ?_⟩
    obtain ⟨b, hb, hset⟩ := hhold x
    exact ⟨b, hb, hset.implements hn⟩

/-- All positions of ten but the third, cut down with its complement flipped at the last one. -/
def tenPositions : List (BitStatement Bool 10) :=
  [.setAll true, .set true ⟨3, by decide⟩ false, .compl false true, .flip false ⟨9, by decide⟩,
    .copy .xor true true false, .opAssign .and true false]

theorem run_subsets_tenPositions : Right .fullExpression tenPositions :=
  (run_subsets_iff (by decide) .fullExpression tenPositions).mpr (by simp [tenPositions, Lives])

/-- `const Bitset &c = a & b` has no bits to test, on any implementation; and neither has
`c = a & b` where the parameter is destroyed at the return. -/
theorem not_right_reference :
    (∀ lifetime, ¬ Right lifetime ([.bind .and 2 0 1] : List (BitStatement (Fin 3) 8))) ∧
      ¬ Right .functionReturn ([.copy .and 2 0 1] : List (BitStatement (Fin 3) 8)) := by
  constructor
  · rintro lifetime ⟨s, hs, hright⟩
    obtain ⟨b, hb, -⟩ := hright 2
    have hdead : s 2 = none := by
      cases hs
      rfl
    rw [hdead] at hb
    cases hb
  · rintro ⟨s, hs, -⟩
    cases hs

end BitStatement

end SimpleSSD
