import Mathlib.Data.List.Count
import SimpleSSD.SIL.NVMe.Overrun

/-!
# Phase tags

The controller inverts the phase of a completion queue when its tail goes round. The driver
has one phase for both queues, and inverts it when the head of either goes round. It tells
the new completions of a queue from those of the last lap as long as the other queue has gone
round an even number of times.
-/

namespace SimpleSSD.SIL.NVMe

variable {C : Type}

/-! ### Completion queues -/

namespace Completion

/-- Completions that the controller has posted, and the host has not given back by the doorbell. -/
def outstanding (q : Completion) : Nat := q.posted.length + q.count - q.consumed.length

/-- What the memory of the queue holds. `X` entries have been consumed, `M` have been written:
those between are in their slots, and the other slots hold entries of the last lap. -/
structure Tagged (q : Completion) : Prop where
  ring : q.IsRing
  tail : q.pCQueue.tail = q.posted.length % q.queue.entries
  phase : q.pCQueue.phase = Laps.evenLap q.queue.entries q.posted.length
  announced : q.count ≤ q.consumed.length
  pHead : q.pCQueue.head = (q.consumed.length - q.count) % q.queue.entries
  fits : q.posted.length + q.count < q.consumed.length + q.queue.entries
  head : q.queue.head = q.consumed.length % q.queue.entries
  posted : q.posted = q.written ++ q.dmaWriteQueue.map Prod.snd
  slots : q.dmaWriteQueue.map Prod.fst =
    Laps.window q.queue.entries q.written.length q.dmaWriteQueue.length
  tags : ∀ k e, q.posted[k]? = some e → e.phase = Laps.evenLap q.queue.entries k
  consumed : q.consumed <+: q.written
  memory : ∀ k e, q.consumed.length ≤ k → q.written[k]? = some e →
    q.queue.memory (k % q.queue.entries) = e
  stale : ∀ k, q.written.length ≤ k → k < q.written.length + q.queue.entries →
    (q.queue.memory (k % q.queue.entries)).phase = !Laps.evenLap q.queue.entries k

section Tagged

variable {q q' : Completion} {dw0 : BitVec 32} {commandID : Nat} {status : BitVec 15}

theorem Tagged.entries_pos (h : q.Tagged) : 0 < q.queue.entries := by
  have hhead := h.ring.head
  omega

theorem Tagged.written_le (h : q.Tagged) : q.written.length ≤ q.posted.length := by
  rw [h.posted, List.length_append]
  exact Nat.le_add_right _ _

theorem Tagged.consumed_le (h : q.Tagged) : q.consumed.length ≤ q.written.length :=
  h.consumed.length_le

/-- The entry at the head, when it has been written. -/
theorem Tagged.peekData (h : q.Tagged) (hlt : q.consumed.length < q.written.length) :
    q.queue.peekData = q.written[q.consumed.length] := by
  show q.queue.memory q.queue.head = _
  rw [h.head]
  exact h.memory _ _ (Nat.le_refl _) (List.getElem?_eq_getElem hlt)

/-- The tag at the head is the one of the lap when the entry has been written, and the
other one when it has not. -/
theorem Tagged.phase_peekData (h : q.Tagged) : q.queue.peekData.phase =
    (decide (q.consumed.length < q.written.length) ==
      Laps.evenLap q.queue.entries q.consumed.length) := by
  have hle := h.consumed_le
  by_cases hlt : q.consumed.length < q.written.length
  · have hposted : q.posted[q.consumed.length]? = some q.written[q.consumed.length] := by
      rw [h.posted, List.getElem?_append_left hlt]
      exact List.getElem?_eq_getElem hlt
    rw [h.peekData hlt, h.tags _ _ hposted, decide_eq_true hlt]
    exact (Bool.true_beq _).symm
  · have hpos := h.entries_pos
    have heq : q.consumed.length = q.written.length := by omega
    rw [decide_eq_false hlt, Bool.false_beq]
    show (q.queue.memory q.queue.head).phase = _
    rw [h.head, heq]
    exact h.stale _ (Nat.le_refl _) (by omega)

/-- With room for it, the entry is posted. -/
theorem Tagged.exists_setData (h : q.Tagged) (hroom : q.outstanding + 1 < q.queue.entries)
    (dw0 : BitVec 32) (commandID : Nat) (status : BitVec 15) :
    ∃ q', q.setData dw0 commandID status = .ok q' := by
  have hannounced := h.announced
  have hfits := h.fits
  have hconsumed := h.consumed_le
  have hwritten := h.written_le
  rw [outstanding] at hroom
  rw [Completion.setData, pCQueue_setData, if_neg]
  · exact ⟨_, rfl⟩
  · rw [HIL.NVMe.Queue.next_eq_mod h.ring.ring.tail h.ring.ring.size, h.ring.size, h.tail,
      Nat.mod_add_mod, h.pHead]
    exact Laps.slot_ne (by omega) (by omega)

/-- A completion that is posted gets the tag of its lap. -/
theorem Tagged.setData (h : q.Tagged) (hroom : q.outstanding + 1 < q.queue.entries)
    (hset : q.setData dw0 commandID status = .ok q') : q'.Tagged := by
  have hring := h.ring.setData hset
  have hpos := h.entries_pos
  have hannounced := h.announced
  have hwritten : q.posted.length = q.written.length + q.dmaWriteQueue.length := by
    rw [h.posted, List.length_append, List.length_map]
  rw [outstanding] at hroom
  rw [Completion.setData, Except.map_eq_ok] at hset
  obtain ⟨r, hr, rfl⟩ := hset
  rw [pCQueue_setData] at hr
  split at hr
  · cases hr
  · cases hr
    have hnext : q.pCQueue.next q.pCQueue.tail = (q.posted.length + 1) % q.queue.entries := by
      rw [HIL.NVMe.Queue.next_eq_mod h.ring.ring.tail h.ring.ring.size, h.ring.size, h.tail,
        Nat.mod_add_mod]
    have hcounter : (q.pCQueue.tail + 1) % 2 ^ 16 = q.pCQueue.tail + 1 :=
      Nat.mod_eq_of_lt (Nat.lt_of_le_of_lt h.ring.ring.tail h.ring.ring.size)
    constructor
    · exact hring
    · show q.pCQueue.next q.pCQueue.tail = (q.posted ++ [_]).length % q.queue.entries
      rw [hnext, List.length_append, List.length_singleton]
    · show (if (q.pCQueue.tail + 1) % 2 ^ 16 = q.pCQueue.size then !q.pCQueue.phase
        else q.pCQueue.phase) = Laps.evenLap q.queue.entries (q.posted ++ [_]).length
      rw [hcounter, List.length_append, List.length_singleton, Laps.evenLap_succ,
        Laps.slot_succ hpos,
        ← h.tail, ← h.phase, h.ring.size]
      by_cases hlast : q.pCQueue.tail + 1 = q.queue.entries
      · rw [if_pos hlast, if_pos hlast, if_pos rfl]
      · rw [if_neg hlast, if_neg hlast, if_neg (Nat.succ_ne_zero _)]
    · exact hannounced
    · exact h.pHead
    · show (q.posted ++ [_]).length + q.count < q.consumed.length + q.queue.entries
      rw [List.length_append, List.length_singleton]
      omega
    · exact h.head
    · show q.posted ++ [_] = q.written ++ List.map Prod.snd (q.dmaWriteQueue ++ [_])
      rw [List.map_append, ← List.append_assoc, ← h.posted]
      rfl
    · show List.map Prod.fst (q.dmaWriteQueue ++ [_]) =
        Laps.window q.queue.entries q.written.length (q.dmaWriteQueue ++ [_]).length
      rw [List.map_append, h.slots, List.length_append, List.length_singleton, Laps.window_succ,
        ← hwritten, ← h.tail]
      rfl
    · intro k e hk
      have hk : (q.posted ++ [_])[k]? = some e := hk
      rcases Nat.lt_or_ge k q.posted.length with hlt | hge
      · rw [List.getElem?_append_left hlt] at hk
        exact h.tags k e hk
      · obtain rfl : k = q.posted.length := by
          have hlt := (List.getElem?_eq_some_iff.mp hk).1
          rw [List.length_append, List.length_singleton] at hlt
          omega
        rw [List.getElem?_concat_length] at hk
        obtain rfl := Option.some.inj hk
        exact h.phase
    · exact h.consumed
    · exact h.memory
    · exact h.stale

/-- A completion that is copied is the next one, and its slot is not one of those to be
consumed. -/
theorem Tagged.submitDMAWrite (h : q.Tagged) : q.submitDMAWrite.Tagged := by
  have hring := h.ring.submitDMAWrite
  unfold Completion.submitDMAWrite at hring ⊢
  split at hring
  · exact h
  · next slot entry rest hwrite =>
    have hpos := h.entries_pos
    have hfits := h.fits
    have hposted := h.posted
    have hslots := h.slots
    rw [hwrite, List.map_cons] at hposted hslots
    rw [List.length_cons, Laps.window_cons] at hslots
    obtain ⟨hslot, hrest⟩ := List.cons.inj hslots
    have hslot : slot = q.written.length % q.queue.entries := hslot
    have hle : q.written.length < q.posted.length := by
      rw [hposted, List.length_append, List.length_cons]
      omega
    have htag : entry.phase = Laps.evenLap q.queue.entries q.written.length := by
      refine h.tags _ _ ?_
      rw [hposted, List.getElem?_append_right (Nat.le_refl _), Nat.sub_self]
      rfl
    constructor
    · exact hring
    · exact h.tail
    · exact h.phase
    · exact h.announced
    · exact h.pHead
    · exact hfits
    · exact h.head
    · show q.posted = (q.written ++ [entry]) ++ List.map Prod.snd rest
      rw [hposted, List.append_assoc]
      rfl
    · show List.map Prod.fst rest =
        Laps.window q.queue.entries (q.written ++ [entry]).length rest.length
      rw [List.length_append, List.length_singleton]
      exact hrest
    · exact h.tags
    · exact h.consumed.trans (List.prefix_append _ _)
    · intro k e hk hget
      have hget : (q.written ++ [entry])[k]? = some e := hget
      show Function.update q.queue.memory slot entry (k % q.queue.entries) = e
      have hk : q.consumed.length ≤ k := hk
      rcases Nat.lt_or_ge k q.written.length with hlt | hge
      · rw [Function.update_of_ne, h.memory k e hk]
        · rwa [List.getElem?_append_left hlt] at hget
        · rw [hslot]
          exact Laps.slot_ne hlt (by omega)
      · obtain rfl : k = q.written.length := by
          have hlt := (List.getElem?_eq_some_iff.mp hget).1
          rw [List.length_append, List.length_singleton] at hlt
          omega
        rw [List.getElem?_concat_length] at hget
        rw [hslot, Function.update_self]
        exact Option.some.inj hget
    · intro k hk hlt
      have hk : (q.written ++ [entry]).length ≤ k := hk
      have hlt : k < (q.written ++ [entry]).length + q.queue.entries := hlt
      rw [List.length_append, List.length_singleton] at hk hlt
      show (Function.update q.queue.memory slot entry (k % q.queue.entries)).phase = _
      by_cases hsame : k = q.written.length + q.queue.entries
      · -- the slot that has just been written, a lap later
        rw [hsame, Nat.add_mod_right, hslot, Function.update_self, htag, Laps.evenLap_add hpos,
          Bool.not_not]
      · rw [Function.update_of_ne, h.stale k (by omega) (by omega)]
        rw [hslot]
        exact (Laps.slot_ne (by omega) (by omega)).symm

/-- The next completion is taken over. -/
theorem Tagged.consume (h : q.Tagged) (hlt : q.consumed.length < q.written.length) :
    q.consume.Tagged := by
  have hpos := h.entries_pos
  have hannounced := h.announced
  have hfits := h.fits
  have hlength : q.consume.consumed.length = q.consumed.length + 1 := List.length_append
  constructor
  · exact h.ring.consume
  · exact h.tail
  · exact h.phase
  · rw [hlength]
    show q.count + 1 ≤ _
    omega
  · rw [hlength]
    show q.pCQueue.head = (q.consumed.length + 1 - (q.count + 1)) % q.queue.entries
    rw [Nat.add_sub_add_right]
    exact h.pHead
  · rw [hlength]
    show q.posted.length + (q.count + 1) < q.consumed.length + 1 + q.queue.entries
    omega
  · rw [hlength]
    show (if q.queue.head + 1 = q.queue.entries then 0 else q.queue.head + 1) =
      (q.consumed.length + 1) % q.queue.entries
    rw [Laps.slot_succ hpos, h.head]
  · exact h.posted
  · exact h.slots
  · exact h.tags
  · obtain ⟨rest, hrest⟩ := h.consumed
    cases rest with
    | nil =>
      rw [← hrest, List.append_nil] at hlt
      exact absurd hlt (Nat.lt_irrefl _)
    | cons e rest =>
      have hget : q.written[q.consumed.length]? = some e := by
        rw [← hrest, List.getElem?_append_right (Nat.le_refl _), Nat.sub_self]
        rfl
      have hpeek : q.queue.peekData = e := by
        rw [h.peekData hlt]
        exact Option.some.inj ((List.getElem?_eq_getElem hlt).symm.trans hget)
      refine ⟨rest, ?_⟩
      show (q.consumed ++ [q.queue.peekData]) ++ rest = q.written
      rw [hpeek, List.append_assoc]
      exact hrest
  · intro k e hk
    rw [hlength] at hk
    exact h.memory k e (by omega)
  · exact h.stale

/-- The doorbell gives the slots of the consumed entries back. -/
theorem Tagged.ringHead (h : q.Tagged) : q.ringHead.Tagged := by
  have hring := h.ring.ringHead
  unfold Completion.ringHead at hring ⊢
  split at hring
  · next hcount =>
    rw [if_pos hcount]
    have hfits := h.fits
    refine ⟨hring, h.tail, h.phase, Nat.zero_le _, h.head, ?_, h.head, h.posted, h.slots, h.tags,
      h.consumed, h.memory, h.stale⟩
    show q.posted.length + 0 < q.consumed.length + q.queue.entries
    omega
  · next hcount =>
    rw [if_neg hcount]
    exact h

end Tagged

end Completion

namespace Driver

/-! ### The driver -/

/-- The number of completions of queue `iv` with this identifier that are to be consumed. -/
def unconsumed (s : Driver C) (iv : QueueID) (cid : Nat) : Nat :=
  (((s.completion iv).posted.drop (s.completion iv).consumed.length).map
    CQEntry.commandID).count cid

/-- The controller's part: it completes a command that the host waits for, and it does not
post more completions than the queue has slots for. -/
def Awaited (s : Driver C) : Event C → Prop
  | .setData iv _ cid _ =>
    s.unconsumed iv cid < s.pendingCommandList.count (iv, cid) ∧
      (s.completion iv).outstanding + 1 < (s.completion iv).queue.entries
  | _ => True

instance (s : Driver C) : ∀ e, Decidable (s.Awaited e)
  | .setData _ _ _ _ => inferInstanceAs (Decidable (_ ∧ _))
  | .submitCommand _ _ | .checkQueue _ | .submitDMARead _ | .submitDMAWrite _
  | .updateInterrupt _ => inferInstanceAs (Decidable True)

/-- What a step should do: it returns, and a turn of the loop of `updateInterrupt` consumes
the next of the completions that have been written, if there is one, and nothing else. -/
def Consumes (s : Driver C) (e : Event C) : Prop :=
  (exec s e).Sat (fun s' => ∀ iv, (s'.completion iv).consumed =
    if e.looksAt = some iv then
      (s.completion iv).written.take ((s.completion iv).consumed.length + 1)
    else (s.completion iv).consumed) fun _ => False

instance (s : Driver C) (e : Event C) : Decidable (s.Consumes e) :=
  inferInstanceAs (Decidable (Except.Sat _ _ _))

/-- When a queue is looked at, the host has gone round the other one an even number of times. -/
def InStep (s : Driver C) : Event C → Prop
  | .updateInterrupt iv =>
    let q := s.completion iv.other
    q.consumed.length / q.queue.entries % 2 = 0
  | _ => True

instance (s : Driver C) : ∀ e, Decidable (s.InStep e)
  | .updateInterrupt _ => inferInstanceAs (Decidable (_ = _))
  | .submitCommand _ _ | .checkQueue _ | .submitDMARead _ | .setData _ _ _ _
  | .submitDMAWrite _ => inferInstanceAs (Decidable True)

/-- The completion queues are tagged, the phase is that of all laps together, and the host
waits for what is to be consumed. -/
structure Tagged (s : Driver C) : Prop where
  completion : ∀ iv, (s.completion iv).Tagged
  phase : ∀ iv, s.phase =
    (Laps.evenLap (s.completion iv).queue.entries (s.completion iv).consumed.length ==
      Laps.evenLap (s.completion iv.other).queue.entries (s.completion iv.other).consumed.length)
  pending : ∀ iv cid, s.unconsumed iv cid ≤ s.pendingCommandList.count (iv, cid)

section Steps

variable {s s' : Driver C} {e : Event C} {iv : QueueID}

theorem unconsumed_setCompletion_self (s : Driver C) (iv : QueueID) (q : Completion) (cid : Nat) :
    (s.setCompletion iv q).unconsumed iv cid =
      ((q.posted.drop q.consumed.length).map CQEntry.commandID).count cid := by
  show (((Function.update s.completion iv q iv).posted.drop
    (Function.update s.completion iv q iv).consumed.length).map CQEntry.commandID).count cid = _
  rw [Function.update_self]

theorem unconsumed_setCompletion_of_ne (s : Driver C) {iv j : QueueID} (hj : j ≠ iv)
    (q : Completion) (cid : Nat) :
    (s.setCompletion iv q).unconsumed j cid = s.unconsumed j cid := by
  show (((Function.update s.completion iv q j).posted.drop
    (Function.update s.completion iv q j).consumed.length).map CQEntry.commandID).count cid = _
  rw [Function.update_of_ne hj]
  rfl

/-- A change of one completion queue that consumes nothing. -/
theorem Tagged.setCompletion (h : s.Tagged) {q : Completion} (hq : q.Tagged)
    (hentries : q.queue.entries = (s.completion iv).queue.entries)
    (hconsumed : q.consumed = (s.completion iv).consumed)
    (hpending : ∀ cid, ((q.posted.drop q.consumed.length).map CQEntry.commandID).count cid ≤
      s.pendingCommandList.count (iv, cid)) : (s.setCompletion iv q).Tagged := by
  have hsame : ∀ j, (Function.update s.completion iv q j).queue.entries =
      (s.completion j).queue.entries ∧
      (Function.update s.completion iv q j).consumed = (s.completion j).consumed := by
    intro j
    rcases eq_or_ne j iv with rfl | hj
    · rw [Function.update_self]
      exact ⟨hentries, hconsumed⟩
    · rw [Function.update_of_ne hj]
      exact ⟨rfl, rfl⟩
  constructor
  · show ∀ j, (Function.update s.completion iv q j).Tagged
    exact (Function.forall_update_iff _ fun _ q => Completion.Tagged q).mpr
      ⟨hq, fun j _ => h.completion j⟩
  · intro j
    show s.phase = (Laps.evenLap (Function.update s.completion iv q j).queue.entries
        (Function.update s.completion iv q j).consumed.length ==
      Laps.evenLap (Function.update s.completion iv q j.other).queue.entries
        (Function.update s.completion iv q j.other).consumed.length)
    rw [(hsame j).1, (hsame j).2, (hsame j.other).1, (hsame j.other).2]
    exact h.phase j
  · intro j cid
    rcases eq_or_ne j iv with rfl | hj
    · rw [unconsumed_setCompletion_self]
      exact hpending cid
    · rw [unconsumed_setCompletion_of_ne s hj]
      exact h.pending j cid

/-- In step, the phase of the driver is that of the queue. -/
theorem Tagged.phase_eq (h : s.Tagged) (hstep : s.InStep (.updateInterrupt iv)) : s.phase =
    Laps.evenLap (s.completion iv).queue.entries (s.completion iv).consumed.length := by
  rw [h.phase iv]
  have heven : Laps.evenLap (s.completion iv.other).queue.entries
      (s.completion iv.other).consumed.length = true := decide_eq_true hstep
  rw [heven, beq_true]

/-- Out of step, it is the other one. -/
theorem Tagged.phase_eq_not (h : s.Tagged) (hstep : ¬ s.InStep (.updateInterrupt iv)) : s.phase =
    !Laps.evenLap (s.completion iv).queue.entries (s.completion iv).consumed.length := by
  rw [h.phase iv]
  have hodd : Laps.evenLap (s.completion iv.other).queue.entries
      (s.completion iv.other).consumed.length = false := decide_eq_false hstep
  rw [hodd, beq_false]

/-- The identifiers to be consumed, when the next entry is there. -/
theorem drop_consumed {q : Completion} (h : q.Tagged)
    (hlt : q.consumed.length < q.written.length) :
    q.posted.drop q.consumed.length =
      q.queue.peekData :: q.posted.drop (q.consumed.length + 1) := by
  have hle := h.written_le
  have hlt' : q.consumed.length < q.posted.length := by omega
  rw [List.drop_eq_getElem_cons hlt', h.peekData hlt]
  refine congrArg (· :: _) ?_
  refine Option.some.inj ?_
  rw [← List.getElem?_eq_getElem hlt', ← List.getElem?_eq_getElem hlt, h.posted,
    List.getElem?_append_left hlt]

/-- The tag at the head is the phase of the driver exactly when the entry has been written. -/
theorem Tagged.phase_peekData_iff (h : s.Tagged) (hstep : s.InStep (.updateInterrupt iv)) :
    (s.completion iv).queue.peekData.phase = s.phase ↔
      (s.completion iv).consumed.length < (s.completion iv).written.length := by
  rw [(h.completion iv).phase_peekData, h.phase_eq hstep]
  cases Laps.evenLap (s.completion iv).queue.entries (s.completion iv).consumed.length with
  | true => rw [beq_true, decide_eq_true_iff]
  | false => rw [beq_false, Bool.not_eq_false', decide_eq_true_iff]

/-- The host waits for the entry at the head. -/
theorem Tagged.mem_pending (h : s.Tagged)
    (hlt : (s.completion iv).consumed.length < (s.completion iv).written.length) :
    (iv, (s.completion iv).queue.peekData.commandID) ∈ s.pendingCommandList := by
  have hpending := h.pending iv (s.completion iv).queue.peekData.commandID
  rw [unconsumed, drop_consumed (h.completion iv) hlt, List.map_cons,
    List.count_cons_self] at hpending
  exact List.count_pos_iff.mp (by omega)

theorem not_beq_left (a b : Bool) : ((!a) == b) = !(a == b) := by cases a <;> cases b <;> rfl

theorem not_beq_right (a b : Bool) : (a == (!b)) = !(a == b) := by cases a <;> cases b <;> rfl

/-- The driver goes on to the next entry. -/
theorem Tagged.consume (h : s.Tagged)
    (hlt : (s.completion iv).consumed.length < (s.completion iv).written.length) :
    Tagged { s.setCompletion iv (s.completion iv).consume with
      phase := if (s.completion iv).consume.queue.head = 0 then !s.phase else s.phase
      pendingCommandList :=
        s.pendingCommandList.erase (iv, (s.completion iv).queue.peekData.commandID) } := by
  have hq := (h.completion iv).consume hlt
  have hlength : (s.completion iv).consume.consumed.length =
      (s.completion iv).consumed.length + 1 := List.length_append
  have hlap : Laps.evenLap (s.completion iv).consume.queue.entries
      (s.completion iv).consume.consumed.length =
      if (s.completion iv).consume.queue.head = 0 then
        !Laps.evenLap (s.completion iv).queue.entries (s.completion iv).consumed.length
      else Laps.evenLap (s.completion iv).queue.entries (s.completion iv).consumed.length := by
    rw [hq.head, hlength]
    exact Laps.evenLap_succ _ _
  constructor
  · show ∀ j, (Function.update s.completion iv (s.completion iv).consume j).Tagged
    exact (Function.forall_update_iff _ fun _ q => Completion.Tagged q).mpr
      ⟨hq, fun j _ => h.completion j⟩
  · intro j
    show (if (s.completion iv).consume.queue.head = 0 then !s.phase else s.phase) =
      (Laps.evenLap (Function.update s.completion iv (s.completion iv).consume j).queue.entries
        (Function.update s.completion iv (s.completion iv).consume j).consumed.length ==
      Laps.evenLap (Function.update s.completion iv (s.completion iv).consume j.other).queue.entries
        (Function.update s.completion iv (s.completion iv).consume j.other).consumed.length)
    have hphase := h.phase j
    rcases eq_or_ne j iv with rfl | hj
    · rw [Function.update_self, Function.update_of_ne (by cases j <;> decide), hlap, hphase]
      split
      · exact (not_beq_left _ _).symm
      · rfl
    · have hother : j.other = iv := by cases j <;> cases iv <;> first | rfl | exact absurd rfl hj
      rw [hother] at hphase ⊢
      rw [Function.update_self, Function.update_of_ne hj, hlap, hphase]
      split
      · exact (not_beq_right _ _).symm
      · rfl
  · intro j cid
    show ((s.setCompletion iv (s.completion iv).consume).unconsumed j cid) ≤
      (s.pendingCommandList.erase (iv, (s.completion iv).queue.peekData.commandID)).count (j, cid)
    have hpending := h.pending j cid
    rcases eq_or_ne j iv with rfl | hj
    · rw [unconsumed_setCompletion_self, hlength]
      show (((s.completion j).posted.drop _).map CQEntry.commandID).count cid ≤ _
      rw [unconsumed, drop_consumed (h.completion j) hlt, List.map_cons] at hpending
      rcases eq_or_ne cid (s.completion j).queue.peekData.commandID with rfl | hcid
      · rw [List.count_erase_self]
        rw [List.count_cons_self] at hpending
        omega
      · rw [List.count_cons_of_ne hcid.symm] at hpending
        rw [List.count_erase_of_ne fun heq => hcid (Prod.mk.inj heq).2]
        exact hpending
    · rw [unconsumed_setCompletion_of_ne s hj,
        List.count_erase_of_ne fun heq => hj (Prod.mk.inj heq).1]
      exact hpending

/-- Every step keeps the tags, when the controller does its part and the driver is in step. -/
theorem exec_tagged (h : s.Tagged) (hawaited : s.Awaited e) (hstep : s.InStep e)
    (hexec : exec s e = .ok s') : s'.Tagged := by
  cases e with
  | submitCommand iv cmd =>
    cases hexec
    refine ⟨h.completion, h.phase, fun j cid => (h.pending j cid).trans ?_⟩
    exact (List.sublist_append_left _ _).count_le _
  | checkQueue iv =>
    cases hexec
    exact ⟨h.completion, h.phase, h.pending⟩
  | submitDMARead iv =>
    cases hexec
    exact ⟨h.completion, h.phase, h.pending⟩
  | setData iv dw0 commandID status =>
    rw [exec, Except.map_eq_ok] at hexec
    obtain ⟨q, hq, rfl⟩ := hexec
    have htagged := (h.completion iv).setData hawaited.2 hq
    have hle := (h.completion iv).consumed_le.trans (h.completion iv).written_le
    rw [Completion.setData, Except.map_eq_ok] at hq
    obtain ⟨r, -, rfl⟩ := hq
    refine h.setCompletion htagged rfl rfl fun cid => ?_
    show ((((s.completion iv).posted ++ [_]).drop (s.completion iv).consumed.length).map
      CQEntry.commandID).count cid ≤ _
    rw [List.drop_append_of_le_length hle, List.map_append, List.count_append]
    show s.unconsumed iv cid + [commandID].count cid ≤ _
    rcases eq_or_ne commandID cid with rfl | hne
    · rw [List.count_singleton_self]
      exact hawaited.1
    · rw [List.count_eq_zero.mpr fun hmem => hne (List.mem_singleton.mp hmem).symm]
      exact h.pending iv cid
  | submitDMAWrite iv =>
    cases hexec
    refine h.setCompletion (h.completion iv).submitDMAWrite ?_ ?_ fun cid => ?_
    · unfold Completion.submitDMAWrite
      split <;> rfl
    · unfold Completion.submitDMAWrite
      split <;> rfl
    · have hsame : (s.completion iv).submitDMAWrite.posted = (s.completion iv).posted ∧
          (s.completion iv).submitDMAWrite.consumed = (s.completion iv).consumed := by
        unfold Completion.submitDMAWrite
        split <;> exact ⟨rfl, rfl⟩
      rw [hsame.1, hsame.2]
      exact h.pending iv cid
  | updateInterrupt iv =>
    rw [exec, updateInterrupt] at hexec
    dsimp only at hexec
    split at hexec
    · next hphase =>
      have hlt := (h.phase_peekData_iff hstep).mp hphase
      rw [if_pos (h.mem_pending hlt)] at hexec
      cases hexec
      exact h.consume hlt
    · cases hexec
      have hsame : (s.completion iv).ringHead.queue = (s.completion iv).queue ∧
          (s.completion iv).ringHead.posted = (s.completion iv).posted ∧
          (s.completion iv).ringHead.consumed = (s.completion iv).consumed := by
        unfold Completion.ringHead
        split <;> exact ⟨rfl, rfl, rfl⟩
      refine h.setCompletion (h.completion iv).ringHead ?_ hsame.2.2 fun cid => ?_
      · rw [hsame.1]
      · rw [hsame.2.1, hsame.2.2]
        exact h.pending iv cid

theorem looksAt_updateInterrupt (iv : QueueID) :
    (Event.updateInterrupt iv : Event C).looksAt = some iv := rfl

/-- In step, a step consumes what it should. -/
theorem consumes_of_inStep (h : s.Tagged) (hawaited : s.Awaited e) (hstep : s.InStep e) :
    s.Consumes e := by
  have hupdate : ∀ {iv : QueueID} {q : Completion}, q.consumed = (s.completion iv).consumed →
      ∀ j, (Function.update s.completion iv q j).consumed = (s.completion j).consumed := by
    intro iv q hq j
    rcases eq_or_ne j iv with rfl | hj
    · rwa [Function.update_self]
    · rw [Function.update_of_ne hj]
  unfold Consumes
  cases e with
  | submitCommand iv cmd => exact fun j => (if_neg (fun h => by cases h)).symm
  | checkQueue iv => exact fun j => (if_neg (fun h => by cases h)).symm
  | submitDMARead iv => exact fun j => (if_neg (fun h => by cases h)).symm
  | setData iv dw0 commandID status =>
    obtain ⟨q, hq⟩ := (h.completion iv).exists_setData hawaited.2 dw0 commandID status
    rw [exec, hq]
    intro j
    rw [if_neg (fun h => by cases h)]
    refine hupdate ?_ j
    rw [Completion.setData, Except.map_eq_ok] at hq
    obtain ⟨r, -, rfl⟩ := hq
    rfl
  | submitDMAWrite iv =>
    intro j
    rw [if_neg (fun h => by cases h)]
    refine hupdate ?_ j
    unfold Completion.submitDMAWrite
    split <;> rfl
  | updateInterrupt iv =>
    have hle := (h.completion iv).consumed_le
    have hprefix := List.prefix_iff_eq_take.mp (h.completion iv).consumed
    rw [exec, updateInterrupt]
    dsimp only
    by_cases hlt : (s.completion iv).consumed.length < (s.completion iv).written.length
    · rw [if_pos ((h.phase_peekData_iff hstep).mpr hlt), if_pos (h.mem_pending hlt)]
      intro j
      show (Function.update s.completion iv (s.completion iv).consume j).consumed = _
      rcases eq_or_ne j iv with rfl | hj
      · rw [Function.update_self, looksAt_updateInterrupt, if_pos rfl]
        show (s.completion j).consumed ++ [(s.completion j).queue.peekData] = _
        rw [List.take_succ_eq_append_getElem hlt, ← hprefix, (h.completion j).peekData hlt]
      · rw [Function.update_of_ne hj, looksAt_updateInterrupt,
          if_neg fun heq => hj (Option.some.inj heq).symm]
    · rw [if_neg fun hphase => hlt ((h.phase_peekData_iff hstep).mp hphase)]
      intro j
      have hring : (s.completion iv).ringHead.consumed = (s.completion iv).consumed := by
        unfold Completion.ringHead
        split <;> rfl
      show (Function.update s.completion iv (s.completion iv).ringHead j).consumed = _
      rw [hupdate hring j]
      split
      · next heq =>
        obtain rfl : iv = j := Option.some.inj heq
        rw [List.take_of_length_le (by omega)]
        exact (h.completion iv).consumed.eq_of_length_le (by omega)
      · rfl

/-- Out of step, a turn leaves an entry that has been written, or takes one of the last lap. -/
theorem inStep_of_consumes (h : s.Tagged) (hconsumes : s.Consumes e) : s.InStep e := by
  cases e with
  | updateInterrupt iv =>
    by_contra hout
    have hphase := h.phase_eq_not hout
    have htag := (h.completion iv).phase_peekData
    have hle := (h.completion iv).consumed_le
    unfold Consumes at hconsumes
    rw [exec, updateInterrupt] at hconsumes
    dsimp only at hconsumes
    by_cases hlt : (s.completion iv).consumed.length < (s.completion iv).written.length
    · -- the entry that has been written has the tag of its lap, and the loop ends
      have hne : (s.completion iv).queue.peekData.phase ≠ s.phase := by
        rw [htag, hphase, decide_eq_true hlt, Bool.true_beq]
        exact (Bool.not_ne_self _).symm
      rw [if_neg hne] at hconsumes
      have hiv := hconsumes iv
      rw [looksAt_updateInterrupt, if_pos rfl] at hiv
      have hring : (Function.update s.completion iv (s.completion iv).ringHead iv).consumed =
          (s.completion iv).consumed := by
        rw [Function.update_self]
        unfold Completion.ringHead
        split <;> rfl
      have hlength := congrArg List.length (hring.symm.trans hiv)
      rw [List.length_take] at hlength
      omega
    · -- the entry of the last lap has the other tag, and the driver takes it for a new one
      have heq : (s.completion iv).queue.peekData.phase = s.phase := by
        rw [htag, hphase, decide_eq_false hlt, Bool.false_beq]
      rw [if_pos heq] at hconsumes
      split at hconsumes
      · have hiv := hconsumes iv
        rw [looksAt_updateInterrupt, if_pos rfl] at hiv
        have hcons : (Function.update s.completion iv (s.completion iv).consume iv).consumed =
            (s.completion iv).consumed ++ [(s.completion iv).queue.peekData] := by
          rw [Function.update_self]
          rfl
        have hlength := congrArg List.length (hcons.symm.trans hiv)
        rw [List.length_append, List.length_singleton, List.length_take] at hlength
        omega
      · exact hconsumes
  | submitCommand iv cmd => trivial
  | checkQueue iv => trivial
  | submitDMARead iv => trivial
  | setData iv dw0 commandID status => trivial
  | submitDMAWrite iv => trivial

theorem start_tagged [Inhabited C] (cfg : DriverConfig) : (cfg.start : Driver C).Tagged := by
  have hpos := cfg.entries_pos
  constructor
  · intro iv
    have hring := (start_ordered (C := C) cfg).completion iv
    constructor
    · exact hring
    · exact (Nat.zero_mod _).symm
    · exact (Laps.evenLap_zero _).symm
    · exact Nat.le_refl _
    · exact (Nat.zero_mod _).symm
    · show 0 + 0 < 0 + cfg.entries iv
      have hpos := hpos iv
      omega
    · exact (Nat.zero_mod _).symm
    · rfl
    · rfl
    · intro k e hk
      cases hk
    · exact List.prefix_refl _
    · intro k e _ hk
      cases hk
    · intro k _ hlt
      have hlt : k < 0 + cfg.entries iv := hlt
      show false = !Laps.evenLap (cfg.entries iv) k
      rw [Laps.evenLap, Nat.div_eq_of_lt (by omega)]
      rfl
  · intro iv
    show true = (Laps.evenLap (cfg.entries iv) 0 == Laps.evenLap (cfg.entries iv.other) 0)
    rw [Laps.evenLap_zero, Laps.evenLap_zero]
    rfl
  · intro iv cid
    exact Nat.zero_le _

end Steps

/-- Along every run in which the controller completes what the host waits for, and posts no
more than the queue has slots for, the host consumes the completions of either queue in their
order, each once, exactly as long as it looks at a queue when it has gone round the other one
an even number of times. -/
theorem run_consumes_iff [Inhabited C] (cfg : DriverConfig) (events : List (Event C))
    (hawaited : Run.Along exec Awaited cfg.start events) :
    Run.Along exec Consumes cfg.start events ↔ Run.Along exec InStep cfg.start events := by
  refine (hawaited.iff (I := Tagged) (start_tagged cfg) (fun s e hs hawaits hstep => ?_)
    fun s e hs hawaits => ⟨consumes_of_inStep hs hawaits, inStep_of_consumes hs⟩).symm
  exact Except.all_iff.mpr fun s' hexec => exec_tagged hs hawaits hstep hexec

/-- A command is submitted and completed, and its completion is consumed. -/
def roundTrip (iv : QueueID) (cid : Nat) : List (Event Nat) :=
  [.submitCommand iv 0, .setData iv 0 cid 0, .submitDMAWrite iv, .updateInterrupt iv,
    .updateInterrupt iv]

/-- Before the first lap ends. -/
theorem run_consumes_three : Run.Along exec Consumes smallConfig.start
    (List.flatMap (roundTrip .admin) [1, 2, 3] ++ roundTrip .io 1) :=
  (run_consumes_iff smallConfig _ (by decide +kernel)).mpr (by decide +kernel)

/-- The queues of the driver: `QUEUE_ENTRY_ADMIN` and `QUEUE_ENTRY_IO`. -/
def queueEntries : DriverConfig where
  entries
    | .admin => 256
    | .io => 1024
  commandID _ := 0
  entries_pos iv := by cases iv <;> decide
  entries_lt iv := by cases iv <;> decide

/-- A lap of the admin queue. The initialization has only six commands. -/
def adminLap : List (Event Nat) := List.flatMap (roundTrip .admin) (List.range' 1 256)

/-- When commands have gone round the admin queue, the completion of an I/O command is not
noticed. -/
theorem not_consumes_io : ¬ Run.Along exec Consumes queueEntries.start
    (adminLap ++ roundTrip .io 1) := by
  intro hconsumes
  -- the commands of the admin queue are run, and only what comes behind them is checked
  obtain ⟨s, hrun, hio⟩ := Except.exists_of_map
    (x := adminLap.foldlM exec queueEntries.start)
    (p := fun s => ¬ Run.Along exec Consumes s (roundTrip .io 1)) (by decide +kernel)
  exact hio (hconsumes.of_append hrun)

end Driver

end SimpleSSD.SIL.NVMe
