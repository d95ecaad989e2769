import Mathlib.Algebra.Order.Ring.Nat
import Mathlib.Data.List.Basic

/-!
# Byte buffers

A buffer is the list of its bytes. An access that is not within it stops with a
given error, so a function that returns has stayed within its buffers. What a read
finds after writes is what the last write to the place left (`Stores.overwrite`,
`Stores.frame`).

Integers of 16 and 32 bits have a big endian form, which reads back (`ofBe16_be16`,
`ofBe32_be32`).
-/

namespace SimpleSSD

/-- An array of `n` bytes. -/
abbrev Bytes (n : Nat) := {l : List UInt8 // l.length = n}

namespace Buffer

universe u

variable {ε : Type u}

/-! ### Places in a buffer -/

/-- The `n` bytes from place `i`. -/
def slice (b : List UInt8) (i n : Nat) : List UInt8 := (b.drop i).take n

/-- The buffer with `l` in place of its bytes from place `j`. -/
@[irreducible] def overwrite (b : List UInt8) (j : Nat) (l : List UInt8) : List UInt8 :=
  b.mapIdx fun i x => if j ≤ i ∧ i < j + l.length then l.getD (i - j) 0 else x

section Places

variable {b l : List UInt8} {i j n : Nat}

@[simp] theorem length_overwrite : (overwrite b j l).length = b.length := by
  rw [overwrite, List.length_mapIdx]

theorem length_slice (h : i + n ≤ b.length) : (slice b i n).length = n := by
  rw [slice, List.length_take, List.length_drop]
  omega

theorem getElem?_overwrite : (overwrite b j l)[i]? =
    b[i]?.map fun x => if j ≤ i ∧ i < j + l.length then l.getD (i - j) 0 else x := by
  rw [overwrite, List.getElem?_mapIdx]

theorem getElem?_slice {k : Nat} (hk : k < n) :
    (slice b i n)[k]? = b[i + k]? := by
  rw [slice, List.getElem?_take_of_lt hk, List.getElem?_drop]

/-- A byte that has been written. -/
theorem getElem?_overwrite_mem (h : j + l.length ≤ b.length) {k : Nat} (hk : k < l.length) :
    (overwrite b j l)[j + k]? = l[k]? := by
  have hlt : j + k < b.length := by omega
  rw [getElem?_overwrite, List.getElem?_eq_getElem hlt, Option.map_some, if_pos (by omega),
    Nat.add_sub_cancel_left, List.getD_eq_getElem?_getD, List.getElem?_eq_getElem hk]
  rfl

/-- A byte that has not. -/
theorem getElem?_overwrite_of_not_mem (h : i < j ∨ j + l.length ≤ i) :
    (overwrite b j l)[i]? = b[i]? := by
  have hnot : ¬ (j ≤ i ∧ i < j + l.length) := by omega
  rw [getElem?_overwrite]
  simp only [if_neg hnot, Option.map_id']

/-- The bytes `l` stand at place `i`. -/
structure Stores (b : List UInt8) (i : Nat) (l : List UInt8) : Prop where
  fits : i + l.length ≤ b.length
  bytes : ∀ k, k < l.length → b[i + k]? = l[k]?

theorem Stores.overwrite (h : j + l.length ≤ b.length) : Stores (overwrite b j l) j l :=
  ⟨by rw [length_overwrite]; exact h, fun _ hk => getElem?_overwrite_mem h hk⟩

/-- A write elsewhere leaves them there. -/
theorem Stores.frame {l' : List UInt8} (h : Stores b i l)
    (hij : i + l.length ≤ j ∨ j + l'.length ≤ i) : Stores (Buffer.overwrite b j l') i l := by
  refine ⟨by rw [length_overwrite]; exact h.fits, fun k hk => ?_⟩
  rw [getElem?_overwrite_of_not_mem (by omega)]
  exact h.bytes k hk

theorem Stores.slice (h : Stores b i l) : slice b i l.length = l := by
  refine List.ext_getElem? fun k => ?_
  by_cases hk : k < l.length
  · rw [getElem?_slice hk, h.bytes k hk]
  · rw [List.getElem?_eq_none (by rw [length_slice h.fits]; omega),
      List.getElem?_eq_none (Nat.le_of_not_lt hk)]

/-- Writing over the front of an array. -/
theorem overwrite_zero (h : l.length ≤ b.length) :
    Buffer.overwrite b 0 l = l ++ b.drop l.length := by
  refine List.ext_getElem? fun k => ?_
  by_cases hk : k < l.length
  · have hmem := getElem?_overwrite_mem (b := b) (j := 0) (by omega) hk
    rw [Nat.zero_add] at hmem
    rw [hmem, List.getElem?_append_left hk]
  · rw [getElem?_overwrite_of_not_mem (by omega), List.getElem?_append_right (by omega),
      List.getElem?_drop, Nat.add_sub_cancel' (by omega)]

/-- Copying the front of an array over zeros. -/
theorem overwrite_zeros {n : Nat} {zeros : List UInt8} (hzeros : zeros = List.replicate b.length 0)
    (hn : n ≤ b.length) : Buffer.overwrite zeros 0 (Buffer.slice b 0 n) =
      b.take n ++ List.replicate (b.length - n) 0 := by
  have hslice := length_slice (b := b) (i := 0) (n := n) (by omega)
  have hlen : zeros.length = b.length := by rw [hzeros, List.length_replicate]
  rw [overwrite_zero (by omega), hslice, hzeros, List.drop_replicate, Buffer.slice, List.drop_zero]

/-- A list whose rest is zero is its front with zeros behind. -/
theorem take_append_zeros (l : List UInt8) (n : Nat) :
    l.take n ++ List.replicate (l.length - n) 0 = l ↔ ∀ x ∈ l.drop n, x = 0 := by
  constructor
  · intro h x hx
    have hdrop : l.drop n = List.replicate (l.length - n) 0 :=
      List.append_cancel_left ((List.take_append_drop n l).trans h.symm)
    rw [hdrop] at hx
    exact List.eq_of_mem_replicate hx
  · intro h
    have hdrop : l.drop n = List.replicate (l.length - n) 0 :=
      List.eq_replicate_iff.mpr ⟨List.length_drop, h⟩
    rw [← hdrop, List.take_append_drop]

end Places

/-! ### Checked accesses -/

/-- `b[i]`. -/
def byte (e : ε) (b : List UInt8) (i : Nat) : Except ε UInt8 :=
  match b[i]? with
  | some x => .ok x
  | none => .error e

/-- `memcpy` of `n` bytes out of the buffer. -/
def read (e : ε) (b : List UInt8) (i n : Nat) : Except ε (Bytes n) :=
  if h : i + n ≤ b.length then .ok ⟨slice b i n, length_slice h⟩ else .error e

/-- `memcpy` of `l` into the buffer. -/
def write (e : ε) (b : List UInt8) (j : Nat) (l : List UInt8) : Except ε (List UInt8) :=
  if j + l.length ≤ b.length then .ok (overwrite b j l) else .error e

/-- `memcpy` of `l` into an array. -/
def store {m : Nat} (e : ε) (b : Bytes m) (j : Nat) (l : List UInt8) : Except ε (Bytes m) :=
  if j + l.length ≤ m then .ok ⟨overwrite b.1 j l, length_overwrite.trans b.2⟩ else .error e

section Access

variable {e : ε} {b l : List UInt8} {i j n : Nat}

theorem byte_lt (h : i < b.length) : byte e b i = .ok b[i] := by
  rw [byte, List.getElem?_eq_getElem h]

theorem byte_out (h : b.length ≤ i) : byte e b i = .error e := by
  rw [byte, List.getElem?_eq_none h]

theorem read_ok (h : i + n ≤ b.length) : read e b i n = .ok ⟨slice b i n, length_slice h⟩ :=
  dif_pos h

theorem read_out (h : b.length < i + n) : read e b i n = .error e :=
  dif_neg (Nat.not_le_of_lt h)

theorem write_ok (h : j + l.length ≤ b.length) : write e b j l = .ok (overwrite b j l) :=
  if_pos h

theorem Stores.byte (h : Stores b i l) {k : Nat} {x : UInt8} (hx : l[k]? = some x)
    (hn : i + k = n) : byte e b n = .ok x := by
  obtain ⟨hk, -⟩ := List.getElem?_eq_some_iff.mp hx
  rw [Buffer.byte, ← hn, h.bytes k hk, hx]

theorem Stores.read (h : Stores b i l) (hn : l.length = n) : read e b i n = .ok ⟨l, hn⟩ := by
  subst hn
  rw [read_ok h.fits]
  exact congrArg Except.ok (Subtype.ext h.slice)

theorem Stores.refl : Stores l 0 l :=
  ⟨by rw [Nat.zero_add], fun k _ => by rw [Nat.zero_add]⟩

end Access

/-! ### Big endian integers -/

def be16 (x : UInt16) : List UInt8 := [(x >>> 8).toUInt8, x.toUInt8]

def ofBe16 (b₀ b₁ : UInt8) : UInt16 := b₀.toUInt16 <<< 8 ||| b₁.toUInt16

def be32 (x : UInt32) : List UInt8 :=
  [(x >>> 24).toUInt8, (x >>> 16).toUInt8, (x >>> 8).toUInt8, x.toUInt8]

def ofBe32 (b : Bytes 4) : UInt32 :=
  (b.1.getD 0 0).toUInt32 <<< 24 ||| (b.1.getD 1 0).toUInt32 <<< 16 |||
    (b.1.getD 2 0).toUInt32 <<< 8 ||| (b.1.getD 3 0).toUInt32

@[simp] theorem length_be16 (x : UInt16) : (be16 x).length = 2 := rfl

@[simp] theorem length_be32 (x : UInt32) : (be32 x).length = 4 := rfl

theorem ofBe16_be16 (x : UInt16) : ofBe16 (x >>> 8).toUInt8 x.toUInt8 = x := by
  apply UInt16.eq_of_toBitVec_eq
  ext i hi
  simp [ofBe16, -UInt16.toUInt16_toUInt8]
  grind

theorem ofBe32_be32 (x : UInt32) : ofBe32 ⟨be32 x, length_be32 x⟩ = x := by
  apply UInt32.eq_of_toBitVec_eq
  ext i hi
  simp [ofBe32, be32, -UInt32.toUInt32_toUInt8]
  grind

end Buffer

end SimpleSSD
