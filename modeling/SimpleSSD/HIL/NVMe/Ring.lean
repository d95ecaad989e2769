import SimpleSSD.Lib.Laps
import SimpleSSD.Util.Def

/-!
# Queues (hil/nvme/queue.hh, queue.cc:61–177)

A queue of the controller is a ring of `size` slots: the entries from `head` to `tail`
are pending. `pending` lists their slots in order.
-/

namespace SimpleSSD.HIL.NVMe

/-- `PRIORITY` (def.hh). -/
inductive Priority where
  | urgent | high | medium | low
  deriving DecidableEq, Repr

/-- `Queue`, without its memory. -/
structure Queue where
  id : Nat
  head : Nat
  tail : Nat
  size : Nat
  deriving DecidableEq, Repr

namespace Queue

/-- `getItemCount`, in 16 bits. -/
def getItemCount (q : Queue) : Nat :=
  if q.head ≤ q.tail then q.tail - q.head else (q.size + 2 ^ 16 - q.head + q.tail) % 2 ^ 16

/-- `head++` or `tail++`, and back to the first slot behind the last. -/
def next (q : Queue) (slot : Nat) : Nat :=
  if (slot + 1) % 2 ^ 16 = q.size then 0 else (slot + 1) % 2 ^ 16

/-- Head and tail are slots. -/
structure IsRing (q : Queue) : Prop where
  head : q.head < q.size
  tail : q.tail < q.size
  size : q.size < 2 ^ 16

/-- The slots of the pending entries, the oldest first. -/
def pending (q : Queue) : List Nat :=
  (List.range q.getItemCount).map fun k => (q.head + k) % q.size

section Ring

variable {q : Queue}

theorem next_lt {slot : Nat} (hslot : slot < q.size) : q.next slot < q.size := by
  rw [next]
  split <;> omega

/-- Behind a slot of a ring the counter does not overflow. -/
theorem next_of_lt {slot : Nat} (hslot : slot < q.size) (hsize : q.size < 2 ^ 16) :
    q.next slot = if slot + 1 = q.size then 0 else slot + 1 := by
  rw [next, Nat.mod_eq_of_lt (by omega)]

/-- The number of pending entries of a ring. -/
theorem IsRing.getItemCount_eq (h : q.IsRing) :
    q.getItemCount = if q.head ≤ q.tail then q.tail - q.head else q.size - q.head + q.tail := by
  obtain ⟨hhead, htail, hsize⟩ := h
  rw [getItemCount]
  split
  · rfl
  · rw [show q.size + 2 ^ 16 - q.head + q.tail = q.size - q.head + q.tail + 2 ^ 16 by omega,
      Nat.add_mod_right]
    exact Nat.mod_eq_of_lt (by omega)

theorem IsRing.getItemCount_lt (h : q.IsRing) : q.getItemCount < q.size := by
  rw [h.getItemCount_eq]
  obtain ⟨hhead, htail, -⟩ := h
  split <;> omega

@[simp] theorem length_pending : q.pending.length = q.getItemCount := by simp [pending]

theorem pending_eq_nil : q.pending = [] ↔ q.getItemCount = 0 := by
  rw [← List.length_eq_zero_iff, length_pending]

/-- The queue behind its first entry. -/
def advance (q : Queue) : Queue := { q with head := q.next q.head }

theorem IsRing.advance (h : q.IsRing) : q.advance.IsRing :=
  ⟨next_lt h.head, h.tail, h.size⟩

theorem IsRing.getItemCount_advance (h : q.IsRing) (hpos : 0 < q.getItemCount) :
    q.advance.getItemCount + 1 = q.getItemCount := by
  rw [h.advance.getItemCount_eq]
  rw [h.getItemCount_eq] at hpos ⊢
  obtain ⟨hhead, htail, hsize⟩ := h
  simp only [Queue.advance, next_of_lt hhead hsize] at *
  split at hpos <;> split <;> split at * <;> omega

/-- The first of the pending entries is the one at the head. -/
theorem IsRing.pending_eq_cons (h : q.IsRing) (hpos : 0 < q.getItemCount) :
    q.pending = q.head :: q.advance.pending := by
  have hcount := h.getItemCount_advance hpos
  rw [pending, ← hcount, List.range_succ_eq_map, List.map_cons, List.map_map, Nat.add_zero,
    Nat.mod_eq_of_lt h.head, pending]
  refine congrArg _ (List.map_congr_left fun k _ => ?_)
  show (q.head + (k + 1)) % q.size = (q.next q.head + k) % q.size
  rw [next_of_lt h.head h.size]
  split
  · next hlast =>
    rw [show q.head + (k + 1) = k + q.size by omega, Nat.add_mod_right, Nat.zero_add]
  · rw [Nat.add_assoc, Nat.add_comm 1 k]

theorem next_eq_mod {slot : Nat} (hslot : slot < q.size) (hsize : q.size < 2 ^ 16) :
    q.next slot = (slot + 1) % q.size := by
  rw [Laps.slot_succ (by omega), Nat.mod_eq_of_lt hslot]
  exact next_of_lt hslot hsize

/-- The tail is the slot behind the pending entries. -/
theorem IsRing.tail_eq (h : q.IsRing) : q.tail = (q.head + q.getItemCount) % q.size := by
  rw [h.getItemCount_eq]
  obtain ⟨hhead, htail, -⟩ := h
  split
  · next hle =>
    rw [Nat.add_sub_cancel' hle]
    exact (Nat.mod_eq_of_lt htail).symm
  · rw [show q.head + (q.size - q.head + q.tail) = q.tail + q.size by omega, Nat.add_mod_right]
    exact (Nat.mod_eq_of_lt htail).symm

theorem pending_eq_window (q : Queue) : q.pending = Laps.window q.size q.head q.getItemCount := rfl

/-- The queue with one more entry. -/
def push (q : Queue) : Queue := { q with tail := q.next q.tail }

theorem IsRing.push (h : q.IsRing) : q.push.IsRing := ⟨h.head, next_lt h.tail, h.size⟩

/-- One entry too many, and the ring is taken for empty. -/
theorem IsRing.getItemCount_push (h : q.IsRing) :
    q.push.getItemCount = if q.getItemCount + 1 = q.size then 0 else q.getItemCount + 1 := by
  rw [h.push.getItemCount_eq, h.getItemCount_eq]
  obtain ⟨hhead, htail, hsize⟩ := h
  simp only [Queue.push, next_of_lt htail hsize]
  split <;> split <;> split <;> split <;> omega

end Ring

end Queue

/-- `SQueue`. -/
structure SQueue extends Queue where
  cqID : Nat
  priority : Priority
  deriving DecidableEq, Repr

/-- `CQueue`. -/
structure CQueue extends Queue where
  ien : Bool
  phase : Bool
  interruptVector : Nat
  deriving DecidableEq, Repr

/-- `CQueue::setData` (queue.cc:109–130): the slot that the entry is written to with its
phase tag, and the queue behind it. -/
def CQueue.setData (q : CQueue) : Except Fault ((Nat × Bool) × CQueue) :=
  let tail := q.next q.tail
  let phase := if (q.tail + 1) % 2 ^ 16 = q.size then !q.phase else q.phase
  if q.head = tail then .error (.panic "CQueue::setData" "Completion queue overflow")
  else .ok ((q.tail, q.phase), { q with tail := tail, phase := phase })

end SimpleSSD.HIL.NVMe
