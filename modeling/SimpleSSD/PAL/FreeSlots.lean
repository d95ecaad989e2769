import Mathlib.Data.List.Sort
import SimpleSSD.Util.Def

/-!
# Free slots of a flash resource (PAL2.cc:721–862)

A channel or a die is free from its start point on, and in the slots that earlier
commands have left open below it. The slots are kept in buckets: a slot lies in the
last bucket whose length does not exceed its own, and is forgotten when there is none.

- `findFreeTime` looks for a slot that has room for a duration at a tick or later;
- `insertFreeSlot` takes a duration out of the slot that was found;
- `addFreeSlot` puts a rest back.

Ticks are unsigned 64-bit numbers and wrap around.
-/

namespace SimpleSSD.PAL

/-- `a + b` of two ticks. -/
def tickAdd (a b : Nat) : Nat := (a + b) % 2 ^ 64

/-- `a - b` of two ticks. -/
def tickSub (a b : Nat) : Nat := (a + 2 ^ 64 - b) % 2 ^ 64

/-- `(uint64_t)-1`. -/
def maxTick : Nat := 2 ^ 64 - 1

theorem tickAdd_eq {a b : Nat} (h : a + b < 2 ^ 64) : tickAdd a b = a + b := Nat.mod_eq_of_lt h

theorem tickSub_eq {a b : Nat} (h : b ≤ a) (ha : a < 2 ^ 64) : tickSub a b = a - b := by
  rw [tickSub, show a + 2 ^ 64 - b = a - b + 2 ^ 64 by omega, Nat.add_mod_right]
  exact Nat.mod_eq_of_lt (by omega)

/-- The number of ticks from `b` to the end of the slot that ends with `a`. -/
theorem tickAdd_tickSub {a b : Nat} (h : b ≤ a + 1) (ha : a + 1 < 2 ^ 64) :
    tickAdd (tickSub a b) 1 = a + 1 - b := by
  rcases Nat.eq_or_lt_of_le h with rfl | hlt
  · rw [tickSub, tickAdd, Nat.sub_self]
    have hlast : a + 2 ^ 64 - (a + 1) = 2 ^ 64 - 1 := by omega
    rw [hlast]
    decide
  · rw [tickSub_eq (by omega) (by omega), tickAdd_eq (by omega)]
    omega

/-- `std::map<uint64_t, std::map<uint64_t, uint64_t> *>`: the keys of the outer map, which
never change, in order, and the inner map of each, from the first tick of a slot to its
last, in order. -/
structure FreeSlots where
  lengths : List Nat
  slots : Nat → List (Nat × Nat)

/-- `insert` of an ordered map: a key that is there already keeps its value. -/
def insertSlot (slot : Nat × Nat) : List (Nat × Nat) → List (Nat × Nat)
  | [] => [slot]
  | other :: rest =>
    if slot.1 < other.1 then slot :: other :: rest
    else if slot.1 = other.1 then other :: rest
    else other :: insertSlot slot rest

namespace FreeSlots

/-- The constructor's maps, without any slot. -/
def empty (lengths : List Nat) : FreeSlots where
  lengths := (lengths.insertionSort (· ≤ ·)).dedup
  slots _ := []

section

variable (fs : FreeSlots)

/-- `--upper_bound(tickLen)`: the last bucket of at most this length. -/
def lastBucket (tickLen : Nat) : Option Nat :=
  (fs.lengths.filter fun k => k ≤ tickLen).getLast?

/-- The buckets from there on, or all of them. -/
def bucketsFrom (tickLen : Nat) : List Nat :=
  match fs.lastBucket tickLen with
  | some k => fs.lengths.filter fun k' => k ≤ k'
  | none => fs.lengths

/-- `AddFreeSlot` (PAL2.cc:852–862). -/
def addFreeSlot (tickLen tickFrom : Nat) : FreeSlots :=
  match fs.lastBucket tickLen with
  | some k =>
    let slot := (tickFrom, tickSub (tickAdd tickFrom tickLen) 1)
    { fs with slots := Function.update fs.slots k (insertSlot slot (fs.slots k)) }
  | none => fs

/-- `e->second->erase(f)`. -/
def eraseSlot (k startTick : Nat) : FreeSlots :=
  let slots := (fs.slots k).filter fun f => f.1 ≠ startTick
  { fs with slots := Function.update fs.slots k slots }

/-- The last slot of a bucket that begins no later than `tickFrom`, if it has room there. -/
def slotAt (k tickLen tickFrom : Nat) : Option (Nat × Nat) :=
  ((fs.slots k).filter fun f => f.1 ≤ tickFrom).getLast?.filter fun f =>
    tickSub (tickAdd tickLen tickFrom) 1 ≤ f.2

/-- The first later slot of a bucket that has room. -/
def slotAfter (k tickLen tickFrom : Nat) : Option (Nat × Nat) :=
  ((fs.slots k).filter fun f => tickFrom < f.1).find? fun f =>
    tickSub (tickAdd tickLen f.1) 1 ≤ f.2

/-- The loop of `FindFreeTime` over the buckets (PAL2.cc:752–788): `minTick` is the
earliest later slot so far. -/
def searchBuckets (tickLen tickFrom : Nat) : List Nat → Nat → Option (Nat × Bool)
  | [], minTick => if minTick = maxTick then none else some (minTick, true)
  | k :: rest, minTick =>
    match fs.slotAt k tickLen tickFrom with
    | some f => some (f.1, false)
    | none =>
      match fs.slotAfter k tickLen tickFrom with
      | some f =>
        searchBuckets tickLen tickFrom rest
          (if minTick = maxTick ∨ f.1 < minTick then f.1 else minTick)
      | none => searchBuckets tickLen tickFrom rest minTick

/-- `FindFreeTime` (PAL2.cc:721–789): the first tick of the slot that was found, and
whether it lies behind `tickFrom`. -/
def findFreeTime (tickLen tickFrom : Nat) : Option (Nat × Bool) :=
  if ∀ k ∈ fs.lengths, k ≤ tickLen then
    -- `upper_bound` is the end: only the last bucket is searched
    match fs.lengths.getLast? with
    | none => none
    | some k =>
      match fs.slotAt k tickLen tickFrom with
      | some f => some (f.1, false)
      | none => (fs.slotAfter k tickLen tickFrom).map fun f => (f.1, true)
  else fs.searchBuckets tickLen tickFrom (fs.bucketsFrom tickLen) maxTick

/-- The bucket and the last tick of the slot that begins at `startTick`, where
`InsertFreeSlot` looks for it (PAL2.cc:815–821). -/
def findSlot (tickLen startTick : Nat) : Option (Nat × Nat) :=
  (fs.bucketsFrom tickLen).findSome? fun k =>
    ((fs.slots k).find? fun f => f.1 = startTick).map fun f => (k, f.2)

/-- `FlushAFreeSlot` (PAL2.cc:660–677). -/
def flushAFreeSlot (currentTick : Nat) : FreeSlots :=
  { fs with slots := fun k => (fs.slots k).dropWhile fun f => f.2 < currentTick }

end

end FreeSlots

/-- A channel or a die. -/
structure Resource where
  freeSlots : FreeSlots
  startPoint : Nat

namespace Resource

section

variable (r : Resource)

/-- The search as `TimelineScheduling` uses it: where the duration starts, no earlier than
`tickFrom`, and the first tick of the slot or the start point. -/
def search (tickLen tickFrom : Nat) : Nat × Nat :=
  match r.freeSlots.findFreeTime tickLen tickFrom with
  | some (tick, conflicts) => (if conflicts then tick else tickFrom, tick)
  | none => (if tickFrom < r.startPoint then r.startPoint else tickFrom, r.startPoint)

/-- `InsertFreeSlot` (PAL2.cc:791–850). The pieces in front of the duration and behind it
stay free; so does the duration itself when `split` says that it is only cut out. -/
def insertFreeSlot (tickLen tickFrom startTick : Nat) (split : Bool) : Except Fault Resource :=
  if startTick = r.startPoint then
    if tickFrom = startTick then .ok {
      freeSlots := if split then r.freeSlots.addFreeSlot tickLen r.startPoint else r.freeSlots
      startPoint := tickAdd r.startPoint tickLen }
    else if tickFrom < startTick then
      .error (.panic "PAL2::InsertFreeSlot" "tickFrom > startTick")
    else
      let freeSlots := if split then r.freeSlots.addFreeSlot tickLen tickFrom else r.freeSlots
      .ok {
        freeSlots := freeSlots.addFreeSlot (tickSub tickFrom startTick) startTick
        startPoint := tickAdd tickFrom tickLen }
  else
    match r.freeSlots.findSlot tickLen startTick with
    | none => .ok r
    | some (k, tmpEndTick) =>
      if tickFrom < startTick then
        .error (.panic "PAL2::InsertFreeSlot" "tmpStartTick == tickFrom")
      else if tickAdd (tickSub tmpEndTick tickFrom) 1 < tickLen then
        .error (.panic "PAL2::InsertFreeSlot" "tmpEndTick - tickFrom + 1 >= tickLen")
      else
        let freeSlots := r.freeSlots.eraseSlot k startTick
        let freeSlots := if startTick < tickFrom
          then freeSlots.addFreeSlot (tickSub tickFrom startTick) startTick else freeSlots
        let freeSlots := if split then freeSlots.addFreeSlot tickLen tickFrom else freeSlots
        let freeSlots := if tickSub (tickAdd tickLen tickFrom) 1 < tmpEndTick
          then freeSlots.addFreeSlot
            (tickSub tmpEndTick (tickSub (tickAdd tickFrom tickLen) 1)) (tickAdd tickFrom tickLen)
          else freeSlots
        .ok { r with freeSlots := freeSlots }

end

end Resource

end SimpleSSD.PAL
