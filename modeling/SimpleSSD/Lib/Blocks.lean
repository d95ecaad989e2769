import Mathlib.Data.List.Basic
import Mathlib.Logic.Function.Basic

/-!
# Blocks

Data is read and written in whole blocks of one size, and a store remembers what was last written
to each block. Reading several blocks gives their contents one after the other, so two such reads
agree exactly when they agree block by block.
-/

universe u

namespace Blocks

variable {α : Type u} {size first n i : Nat} {data : List α} {f g : Nat → List α}

/-- The block `i` of a piece of data. -/
def slice (size i : Nat) (data : List α) : List α := (data.drop (i * size)).take size

/-- The contents of `n` blocks, one after the other. -/
def joined (f : Nat → List α) (first n : Nat) : List α :=
  (List.range n).flatMap fun i => f (first + i)

theorem joined_zero (f : Nat → List α) (first : Nat) : joined f first 0 = [] := rfl

theorem joined_succ (f : Nat → List α) (first n : Nat) :
    joined f first (n + 1) = joined f first n ++ f (first + n) := by
  rw [joined, List.range_succ, List.flatMap_append]
  simp [joined]

theorem length_joined (h : ∀ i, (f i).length = size) : (joined f first n).length = n * size := by
  induction n with
  | zero => rw [joined_zero, List.length_nil, Nat.zero_mul]
  | succ n ih => rw [joined_succ, List.length_append, ih, h, Nat.succ_mul]

theorem length_slice (h : data.length = n * size) (hi : i < n) :
    (slice size i data).length = size := by
  have hle : (i + 1) * size ≤ n * size := Nat.mul_le_mul_right size hi
  rw [Nat.succ_mul] at hle
  rw [slice, List.length_take, List.length_drop]
  omega

theorem getD_slice {j : Nat} (hj : j < size) (d : α) :
    (slice size i data).getD j d = data.getD (i * size + j) d := by
  rw [slice, List.getD_eq_getElem?_getD, List.getElem?_take_of_lt hj, List.getElem?_drop,
    ← List.getD_eq_getElem?_getD]

theorem joined_congr (h : ∀ i < n, f (first + i) = g (first + i)) :
    joined f first n = joined g first n := by
  induction n with
  | zero => rfl
  | succ n ih =>
    rw [joined_succ, joined_succ, ih fun i hi => h i (Nat.lt_succ_of_lt hi),
      h n (Nat.lt_succ_self n)]

/-- Reads of blocks of one size agree exactly when they agree block by block. -/
theorem joined_inj (hf : ∀ i, (f i).length = size) (hg : ∀ i, (g i).length = size) :
    joined f first n = joined g first n ↔ ∀ i < n, f (first + i) = g (first + i) := by
  constructor
  · induction n with
    | zero =>
      intro _ i hi
      cases hi
    | succ n ih =>
      intro h i hi
      rw [joined_succ, joined_succ] at h
      have hlength : (joined f first n).length = (joined g first n).length := by
        rw [length_joined hf, length_joined hg]
      obtain ⟨hbefore, hlast⟩ := List.append_inj h hlength
      rcases Nat.lt_succ_iff_lt_or_eq.mp hi with hlt | rfl
      · exact ih hbefore i hlt
      · exact hlast
  · exact joined_congr

/-- A range of bytes, block by block. -/
theorem map_range_mul (byte : Nat → α) (size n : Nat) : (List.range (n * size)).map byte =
    (List.range n).flatMap fun i => (List.range size).map fun j => byte (i * size + j) := by
  induction n with
  | zero => rw [Nat.zero_mul, List.range_zero, List.map_nil, List.flatMap_nil]
  | succ n ih =>
    rw [Nat.succ_mul, List.range_add, List.map_append, ih, List.range_succ, List.flatMap_append,
      List.map_map]
    simp [Function.comp_def]

/-! ### What was last written -/

/-- What was last written to each block, if anything was. -/
abbrev Store (α : Type u) := Nat → Option (List α)

namespace Store

variable {store : Store α} {blank : α}

/-- Nothing has been written. -/
def empty : Store α := fun _ => none

/-- `n` blocks are written. -/
def write (store : Store α) (size first n : Nat) (data : List α) : Store α :=
  fun b => if first ≤ b ∧ b < first + n then some (slice size (b - first) data) else store b

/-- What a block reads as: what was last written, or blank. -/
def block (store : Store α) (size : Nat) (blank : α) (b : Nat) : List α :=
  (store b).getD (List.replicate size blank)

/-- All that was written has the size of a block. -/
def Sized (size : Nat) (store : Store α) : Prop :=
  ∀ b data, store b = some data → data.length = size

theorem sized_empty : Sized size (empty : Store α) := by
  intro b data h
  cases h

theorem Sized.write (h : Sized size store) (hdata : data.length = n * size) :
    Sized size (store.write size first n data) := by
  intro b d hb
  rw [Store.write] at hb
  split at hb
  · next hrange =>
    cases hb
    exact length_slice hdata (by omega)
  · exact h b d hb

theorem Sized.length_block (h : Sized size store) (b : Nat) :
    (store.block size blank b).length = size := by
  rw [block]
  cases hb : store b with
  | none => exact List.length_replicate
  | some data => exact h b data hb

/-- The blocks at some places of the data are written, each to an address of its own. -/
def scatter (store : Store α) (size : Nat) (address : Nat → Nat) (places : List Nat)
    (data : List α) : Store α :=
  places.foldl (fun t i => Function.update t (address i) (some (slice size i data))) store

/-- Some blocks are given up. -/
def clear (store : Store α) (gone : Nat → Prop) [DecidablePred gone] : Store α :=
  fun b => if gone b then none else store b

theorem clear_of_gone {store : Store α} {gone : Nat → Prop} [DecidablePred gone] {b : Nat}
    (h : gone b) : store.clear gone b = none := if_pos h

theorem Sized.update (h : Sized size store) {d : List α} (hd : d.length = size) (b : Nat) :
    Sized size (Function.update store b (some d)) := by
  intro b' d' hb'
  by_cases heq : b' = b
  · subst heq
    rw [Function.update_self] at hb'
    cases hb'
    exact hd
  · rw [Function.update_of_ne heq] at hb'
    exact h b' d' hb'

theorem Sized.scatter {address : Nat → Nat} {places : List Nat} (h : Sized size store)
    (hdata : data.length = n * size) (hplaces : ∀ i ∈ places, i < n) :
    Sized size (store.scatter size address places data) := by
  induction places generalizing store with
  | nil => exact h
  | cons i places ih =>
    refine ih (h.update ?_ _) fun j hj => hplaces j (List.mem_cons_of_mem i hj)
    exact length_slice hdata (hplaces i List.mem_cons_self)

theorem Sized.clear (h : Sized size store) (gone : Nat → Prop) [DecidablePred gone] :
    Sized size (store.clear gone) := by
  intro b d hb
  rw [Store.clear] at hb
  split at hb
  · cases hb
  · exact h b d hb

/-- Giving up blocks that hold nothing changes nothing. -/
theorem clear_eq_self (gone : Nat → Prop) [DecidablePred gone] (h : ∀ b, gone b → store b = none) :
    store.clear gone = store := by
  funext b
  rw [Store.clear]
  split
  · next hb => exact (h b hb).symm
  · rfl

/-- A loop that writes one block after the other. -/
theorem foldl_update (store : Store α) (size first n : Nat) (data : List α) :
    (List.range n).foldl
      (fun t i => Function.update t (first + i) (some (slice size i data))) store =
      store.write size first n data := by
  induction n with
  | zero =>
    funext b
    rw [write, if_neg (by omega)]
    rfl
  | succ n ih =>
    rw [List.range_succ, List.foldl_append, ih]
    funext b
    show Function.update (store.write size first n data) (first + n)
      (some (slice size n data)) b = _
    by_cases hb : b = first + n
    · subst hb
      rw [Function.update_self, write, if_pos (by omega), Nat.add_sub_cancel_left]
    · rw [Function.update_of_ne hb, write, write]
      have hiff : (first ≤ b ∧ b < first + n) ↔ (first ≤ b ∧ b < first + (n + 1)) := by omega
      simp only [hiff]

end Store

end Blocks
