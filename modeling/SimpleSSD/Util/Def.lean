import Mathlib.Algebra.Order.Ring.Nat
import Mathlib.Data.Finset.Basic
import Mathlib.Data.Finset.Card
import Mathlib.Data.Finset.Range

/-!
# Shared definitions (util/def.hh, util/bitset.cc, sim/log.cc)

- `Fault`: the ways in which a call can fail to return. `panic` ends the
  simulator with a message (log.cc:42–63); the model also records the function
  that raised it, since the source uses one text in several places. An access
  that C++ leaves undefined or answers with an exception (a null pointer, the
  end iterator, `at` out of range) is `badAccess`. A loop that draws random
  numbers until it has enough is `diverges` when the draws given to it end first.
- `Bitset`: a set of positions below its size. The byte array of bitset.cc is
  one representation of it.
- The requests that the layers hand to each other, without the request ids,
  which no layer reads to make a decision.
-/

namespace SimpleSSD

/-- Why a call does not return. -/
inductive Fault where
  | panic (function message : String)
  | badAccess (what : String)
  | diverges (function : String)
  deriving DecidableEq, Repr

namespace Fault

/-- The fault is not a panic of the function. -/
def NotFrom (function : String) (e : Fault) : Prop := ∀ m, e ≠ .panic function m

@[simp] theorem notFrom_badAccess (f w : String) : (badAccess w).NotFrom f := by
  intro m h
  cases h

@[simp] theorem notFrom_diverges (f g : String) : (diverges g).NotFrom f := by
  intro m h
  cases h

@[simp] theorem notFrom_panic {f g m : String} : (panic g m).NotFrom f ↔ g ≠ f := by
  constructor
  · rintro h rfl
    exact h m rfl
  · intro h m' hm
    cases hm
    exact h rfl

end Fault

/-- `SimpleSSD::Bitset`: which of the positions below `dataSize` are set. -/
structure Bitset where
  dataSize : Nat
  bits : Finset Nat
  bits_lt : ∀ i ∈ bits, i < dataSize
  deriving DecidableEq

namespace Bitset

/-- `Bitset(size)`: all positions clear. -/
def new (size : Nat) : Bitset := ⟨size, ∅, by simp⟩

def test (b : Bitset) (i : Nat) : Bool := i ∈ b.bits

def any (b : Bitset) : Bool := b.bits ≠ ∅

def all (b : Bitset) : Bool := b.bits = Finset.range b.dataSize

def count (b : Bitset) : Nat := b.bits.card

/-- `set()`. -/
def setAll (b : Bitset) : Bitset :=
  ⟨b.dataSize, Finset.range b.dataSize, fun _ h => Finset.mem_range.mp h⟩

/-- `reset(); set(i)` on a bitset that has position `i`. -/
def single (size i : Nat) : Bitset :=
  ⟨size, {j ∈ Finset.range size | j = i}, fun _ h => Finset.mem_range.mp (Finset.mem_filter.mp h).1⟩

/-- `set(i)` on a bitset that has position `i`. -/
def insert (b : Bitset) (i : Nat) : Bitset :=
  ⟨b.dataSize, {j ∈ Finset.range b.dataSize | j = i ∨ j ∈ b.bits},
    fun _ h => Finset.mem_range.mp (Finset.mem_filter.mp h).1⟩

def flip (b : Bitset) : Bitset :=
  ⟨b.dataSize, Finset.range b.dataSize \ b.bits,
    fun _ h => Finset.mem_range.mp (Finset.mem_sdiff.mp h).1⟩

/-- `a & b`, after the size check of bitset.cc:155–165. -/
def and (a b : Bitset) : Except Fault Bitset :=
  if a.dataSize ≠ b.dataSize then .error (.panic "Bitset::operator&=" "Size does not match")
  else .ok ⟨a.dataSize, a.bits ∩ b.bits, fun i h => a.bits_lt i (Finset.mem_inter.mp h).1⟩

/-- `a |= b`, after the size check of bitset.cc:167–177. -/
def or (a b : Bitset) : Except Fault Bitset :=
  if h : a.dataSize ≠ b.dataSize then .error (.panic "Bitset::operator|=" "Size does not match")
  else .ok ⟨a.dataSize, a.bits ∪ b.bits, fun i hi => by
    rcases Finset.mem_union.mp hi with hi | hi
    · exact a.bits_lt i hi
    · have := b.bits_lt i hi
      omega⟩

end Bitset

/-- `LPNRange` (def.hh): `nlp` logical pages from `slpn` on. -/
structure LPNRange where
  slpn : Nat
  nlp : Nat
  deriving DecidableEq, Repr

/-- The end of a range, computed in 64 bits as `range.slpn + range.nlp` is. -/
def LPNRange.stop (r : LPNRange) : Nat := (r.slpn + r.nlp) % 2 ^ 64

/-- The test `lpn >= range.slpn && lpn < range.slpn + range.nlp`. -/
def LPNRange.contains (r : LPNRange) (lpn : Nat) : Bool := r.slpn ≤ lpn ∧ lpn < r.stop

namespace FTL

/-- `FTL::Request`: a logical page and the I/O units of it that are meant. -/
structure Request where
  lpn : Nat
  ioFlag : Bitset

end FTL

namespace PAL

/-- `PAL::Request`: a page of a (super) block and the I/O units of it. -/
structure Request where
  blockIndex : Nat
  pageIndex : Nat
  ioFlag : Bitset
  deriving DecidableEq

end PAL

end SimpleSSD
