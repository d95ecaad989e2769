import SimpleSSD.HIL.NVMe.Arbitration

/-!
# Doorbell values (hil/nvme/controller.cc:445–460 and 1376–1541, hil/nvme/queue.cc:80–177)

The tail of a submission queue is taken from the host as it comes. The head goes round
below the size, so it never meets a tail that is not below the size: then the item count
stays positive, and the loops of `collectSQueue` do not end.

A size field of 0 is what is left of 65536 entries in 16 bits. The head of such a queue
runs through all 16-bit values.
-/

namespace SimpleSSD.HIL.NVMe

namespace Queue

/-- The registers of a queue: they have 16 bits, and the head is a slot. -/
structure Seated (q : Queue) : Prop where
  head : q.head < q.size ∨ q.size = 0
  head_lt : q.head < 2 ^ 16
  tail_lt : q.tail < 2 ^ 16
  size_lt : q.size < 2 ^ 16

/-- The tail is a slot, or there is nothing to fetch. -/
def Reaches (q : Queue) : Prop := q.tail < q.size ∨ q.tail = q.head

/-- The head goes round below the tail. -/
def Circles (q : Queue) : Prop := q.head < q.size ∧ q.size ≤ q.tail

section Seated

variable {q : Queue}

theorem Seated.getItemCount_lt (h : q.Seated) : q.getItemCount < 2 ^ 16 := by
  have htail := h.tail_lt
  rw [getItemCount]
  split <;> omega

theorem Seated.getItemCount_eq_zero_iff (h : q.Seated) : q.getItemCount = 0 ↔ q.tail = q.head := by
  obtain ⟨hhead, hhead_lt, htail, hsize⟩ := h
  rw [getItemCount]
  split <;> omega

/-- A tail that the head reaches makes a ring, or there is nothing to fetch. -/
theorem Seated.ring_of_reaches (h : q.Seated) (hreaches : q.Reaches) :
    q.getItemCount = 0 ∨ q.IsRing := by
  by_cases heq : q.tail = q.head
  · exact .inl (h.getItemCount_eq_zero_iff.mpr heq)
  · have htail := hreaches.resolve_right heq
    exact .inr ⟨h.head.resolve_right (by omega), htail, h.size_lt⟩

theorem Circles.getItemCount_pos (h : q.Circles) : 0 < q.getItemCount := by
  obtain ⟨hhead, htail⟩ := h
  rw [getItemCount, if_pos (by omega)]
  omega

theorem Circles.advance (h : q.Circles) : q.advance.Circles := ⟨next_lt h.1, h.2⟩

end Seated

end Queue

namespace Collector

/-- `ringSQTailDoorbell`. -/
def ringSQTailDoorbell (qid tail : Nat) (c : Collector) : Collector :=
  match c.ppSQueue qid with
  | none => c
  | some pQueue => { c with ppSQueue := Function.update c.ppSQueue qid (some { pQueue with tail }) }

/-- The queues as the controller has created them and the host has written their tails. -/
def Seated (c : Collector) : Prop := ∀ i q, c.ppSQueue i = some q → q.toQueue.Seated

/-- Of every queue at most `size - 1` entries have been fetched, all of them from its slots. -/
def Bounded (sqsize : Nat) (c c' : Collector) : Prop :=
  ∀ i < sqsize, ∀ q, c.ppSQueue i = some q →
    (Fifo.part c'.fetched i).length ≤ q.size - 1 ∧ ∀ slot ∈ Fifo.part c'.fetched i, slot < q.size

/-- The condition under which the mode ends within the queues. -/
def Bounds (arbitration : Arbitration) (sqsize : Nat) (c : Collector) : Prop :=
  Starts arbitration c ∧
    ∀ i q, c.ppSQueue i = some q → Looked arbitration sqsize i q → q.Reaches

section Doorbell

variable {c : Collector} {qid tail : Nat}

/-- Any 16-bit tail keeps the queues seated. -/
theorem Seated.ringSQTailDoorbell (hc : c.Seated) (qid : Nat) (htail : tail < 2 ^ 16) :
    (c.ringSQTailDoorbell qid tail).Seated := by
  rw [Collector.ringSQTailDoorbell]
  cases hq : c.ppSQueue qid with
  | none => exact hc
  | some q =>
    obtain ⟨hhead, hhead_lt, -, hsize⟩ := hc qid q hq
    intro i r hr
    change Function.update c.ppSQueue qid (some { q with tail }) i = some r at hr
    rcases eq_or_ne i qid with rfl | hne
    · rw [Function.update_self] at hr
      obtain rfl := Option.some.inj hr
      exact ⟨hhead, hhead_lt, htail, hsize⟩
    · rw [Function.update_of_ne hne] at hr
      exact hc i r hr

theorem fetched_ringSQTailDoorbell (c : Collector) (qid tail : Nat) :
    (c.ringSQTailDoorbell qid tail).fetched = c.fetched := by
  rw [ringSQTailDoorbell]
  split <;> rfl

end Doorbell

section Reads

variable {sqsize n : Nat} {sel : Nat → SQueue → Prop} {c c' : Collector} {i : Nat} {q : SQueue}

theorem part_fetch (c : Collector) (i : Nat) (q : SQueue) (j : Nat) :
    Fifo.part (c.fetch i q).fetched j = Fifo.part c.fetched j ++
      if i = j then [q.head] else [] := by
  rw [fetch, Fifo.part_append]
  split
  · next h => rw [h, Fifo.part_self]
  · next h => rw [Fifo.part_of_ne h]

/-- A queue that is selected was so before. -/
theorem Reads.selected (h : Reads sel c n c') (hq : c'.ppSQueue i = some q) (hs : sel i q) :
    ∃ q₀, c.ppSQueue i = some q₀ ∧ sel i q₀ := by
  by_contra hno
  have hsame := h.others fun q₀ hq₀ hs₀ => hno ⟨q₀, hq₀, hs₀⟩
  exact hno ⟨q, hsame ▸ hq, hs⟩

/-- Nothing is fetched of a queue that is not selected. -/
theorem Reads.part_others (h : Reads sel c n c')
    (hi : ∀ q, c.ppSQueue i = some q → ¬ sel i q) :
    Fifo.part c'.fetched i = Fifo.part c.fetched i := by
  induction h with
  | refl => rfl
  | @fetch _ _ j q h hq hs _ ih =>
    have hne : j ≠ i := by
      rintro rfl
      obtain ⟨q₀, hq₀, hs₀⟩ := h.selected hq hs
      exact hi q₀ hq₀ hs₀
    rw [part_fetch, if_neg hne, List.append_nil, ih]

/-- A queue that has changed has been fetched from. -/
theorem Reads.mem_of_ne (h : Reads sel c n c') (hne : c'.ppSQueue i ≠ c.ppSQueue i) :
    Fifo.part c'.fetched i ≠ [] := by
  induction h with
  | refl => exact absurd rfl hne
  | @fetch _ c' j q _ hq _ _ ih =>
    rw [part_fetch]
    by_cases heq : j = i
    · rw [if_pos heq]
      exact List.append_ne_nil_of_right_ne_nil _ (List.cons_ne_nil _ _)
    · rw [fetch_of_ne c' q (Ne.symm heq)] at hne
      exact List.append_ne_nil_of_left_ne_nil (ih hne) _

/-- The head of a circling queue never arrives. -/
theorem Reads.circles (h : Reads sel c n c') (hq : c.ppSQueue i = some q) (hcircles : q.Circles) :
    ∃ q' : SQueue, c'.ppSQueue i = some q' ∧ q'.Circles ∧ q'.priority = q.priority := by
  induction h with
  | refl => exact ⟨q, hq, hcircles, rfl⟩
  | @fetch _ c' j r _ hr _ _ ih =>
    obtain ⟨q', hq', hcircles', hpriority⟩ := ih
    rcases eq_or_ne i j with rfl | hne
    · obtain rfl := Option.some.inj (hr.symm.trans hq')
      exact ⟨_, fetch_self c' i r, hcircles'.advance, hpriority⟩
    · exact ⟨q', (fetch_of_ne c' r hne).trans hq', hcircles', hpriority⟩

/-- What has been fetched of a queue, and what is left of it. -/
structure Serving (q q' : SQueue) (slots : List Nat) : Prop where
  size : q'.size = q.size
  ring : q'.getItemCount = 0 ∨ q'.IsRing
  count : slots.length + q'.getItemCount = q.getItemCount
  slots : ∀ slot ∈ slots, slot < q.size

/-- One fetch of a ring. -/
theorem Serving.fetch {q' : SQueue} {slots : List Nat} (h : Serving q q' slots)
    (hpos : 0 < q'.getItemCount) :
    Serving q { q' with toQueue := q'.advance } (slots ++ [q'.head]) := by
  have hring := h.ring.resolve_left (by omega)
  have hadvance := hring.getItemCount_advance hpos
  refine ⟨h.size, .inr hring.advance, ?_, fun slot hslot => ?_⟩
  · rw [List.length_append, List.length_singleton, ← h.count]
    show slots.length + 1 + q'.advance.getItemCount = _
    omega
  · rcases List.mem_append.mp hslot with hslot | hslot
    · exact h.slots slot hslot
    · rw [List.mem_singleton.mp hslot, ← h.size]
      exact hring.head

theorem Reads.serving (h : Reads sel c n c') (hnew : c.fetched = []) (hq : c.ppSQueue i = some q)
    (hring : q.getItemCount = 0 ∨ q.IsRing) :
    ∃ q', c'.ppSQueue i = some q' ∧ Serving q q' (Fifo.part c'.fetched i) := by
  induction h with
  | refl =>
    rw [hnew]
    exact ⟨q, hq, rfl, hring, Nat.zero_add _, fun slot hslot => by cases hslot⟩
  | @fetch _ c' j r _ hr _ hpos ih =>
    obtain ⟨q', hq', hserving⟩ := ih
    rw [part_fetch]
    rcases eq_or_ne i j with rfl | hne
    · obtain rfl := Option.some.inj (hr.symm.trans hq')
      rw [if_pos rfl]
      exact ⟨_, fetch_self c' i r, hserving.fetch hpos⟩
    · rw [if_neg (Ne.symm hne), List.append_nil]
      exact ⟨q', (fetch_of_ne c' r hne).trans hq', hserving⟩

/-- Every fetch takes a pending entry. -/
theorem Reads.total (h : Reads sel c n c') (hnew : c.fetched = [])
    (hlt : ∀ i q, sel i q → i < sqsize)
    (hring : ∀ i q, c.ppSQueue i = some q → sel i q → q.getItemCount = 0 ∨ q.IsRing) :
    c'.total sqsize + n = c.total sqsize := by
  induction h with
  | refl => rfl
  | @fetch n c' i q h hq hs hpos ih =>
    obtain ⟨q₀, hq₀, hs₀⟩ := h.selected hq hs
    obtain ⟨q', hq', hserving⟩ := h.serving hnew hq₀ (hring i q₀ hq₀ hs₀)
    obtain rfl := Option.some.inj (hq.symm.trans hq')
    have hless := total_fetch (hlt i q hs) hq (hserving.ring.resolve_left (by omega)) hpos
    omega

end Reads

section Bounded

variable {arbitration : Arbitration} {sqsize : Nat} {c c' : Collector} {i : Nat} {q : SQueue}

theorem Looked.congr {q' : SQueue} (h : Looked arbitration sqsize i q)
    (hpriority : q'.priority = q.priority) : Looked arbitration sqsize i q' := by
  cases arbitration with
  | roundRobin => exact h
  | weightedRoundRobin => exact ⟨h.1, h.2.imp_right fun hlow => hpriority ▸ hlow⟩
  | other => exact h.elim

/-- A collection that returns has started, and so it has emptied the queues. -/
theorem ends_of_ok {wrrHigh wrrMedium : Nat} (hpos : 0 < sqsize) (hsize : sqsize < 2 ^ 16)
    (hcollect : collectSQueue arbitration wrrHigh wrrMedium sqsize c = .ok c') :
    Ends (Looked arbitration sqsize) (2 ^ 64) c (.ok c') := by
  have hstarts : Starts arbitration c := by
    by_contra hstarts
    exact not_ok_of_not_starts wrrHigh wrrMedium sqsize hstarts hcollect
  rw [← hcollect]
  exact collectSQueue_ends arbitration wrrHigh wrrMedium hpos hsize hstarts

/-- A collection does not end while a queue circles that it looks at. -/
theorem not_ok_of_circles (wrrHigh wrrMedium : Nat) (hpos : 0 < sqsize) (hsize : sqsize < 2 ^ 16)
    (hq : c.ppSQueue i = some q) (hlooked : Looked arbitration sqsize i q)
    (hcircles : q.Circles) : collectSQueue arbitration wrrHigh wrrMedium sqsize c ≠ .ok c' := by
  intro hcollect
  obtain ⟨hidle, n, hreads⟩ := ends_of_ok hpos hsize hcollect
  obtain ⟨q', hq', hcircles', hpriority⟩ := hreads.circles hq hcircles
  have hcount := hcircles'.getItemCount_pos
  have hzero := hidle i q' hq' (hlooked.congr hpriority)
  omega

/-- The tails are reached when a collection has ended within the queues. -/
theorem Bounded.reaches {wrrHigh wrrMedium : Nat} (hpos : 0 < sqsize) (hsize : sqsize < 2 ^ 16)
    (hc : c.Seated) (hcollect : collectSQueue arbitration wrrHigh wrrMedium sqsize c = .ok c')
    (hbounded : Bounded sqsize c c') (hq : c.ppSQueue i = some q)
    (hlooked : Looked arbitration sqsize i q) : q.Reaches := by
  by_contra hreaches
  rw [Queue.Reaches, not_or] at hreaches
  have hseated := hc i q hq
  rcases hseated.head with hhead | hzero
  · exact not_ok_of_circles wrrHigh wrrMedium hpos hsize hq hlooked ⟨hhead, by omega⟩ hcollect
  · -- a queue without slots has an entry fetched
    obtain ⟨hidle, n, hreads⟩ := ends_of_ok hpos hsize hcollect
    have hne : c'.ppSQueue i ≠ c.ppSQueue i := fun hsame =>
      hreaches.2 (hseated.getItemCount_eq_zero_iff.mp (hidle i q (hsame.trans hq) hlooked))
    obtain ⟨slot, hslot⟩ := List.exists_mem_of_ne_nil _ (hreads.mem_of_ne hne)
    have hlt := (hbounded i hlooked.lt q hq).2 slot hslot
    omega

/-- With tails that are reached, a collection ends within the queues. -/
theorem Bounds.bounded (wrrHigh wrrMedium : Nat) (hpos : 0 < sqsize) (hsize : sqsize < 2 ^ 16)
    (hc : c.Seated) (hnew : c.fetched = []) (h : Bounds arbitration sqsize c) :
    ∃ c', collectSQueue arbitration wrrHigh wrrMedium sqsize c = .ok c' ∧ Bounded sqsize c c' := by
  obtain ⟨hstarts, hreaches⟩ := h
  have hring : ∀ i q, c.ppSQueue i = some q → Looked arbitration sqsize i q →
      q.getItemCount = 0 ∨ q.IsRing := fun i q hq hlooked =>
    (hc i q hq).ring_of_reaches (hreaches i q hq hlooked)
  have hends := collectSQueue_ends arbitration wrrHigh wrrMedium hpos hsize hstarts
  cases hcollect : collectSQueue arbitration wrrHigh wrrMedium sqsize c with
  | error fault =>
    rw [hcollect] at hends
    -- more fetches than there can be pending entries
    obtain ⟨-, c', n, hn, hreads⟩ := hends
    have htotal := hreads.total hnew (fun _ _ => Looked.lt) hring
    have hlt := total_lt (fun i q hq => (hc i q hq).getItemCount_lt) hsize
    omega
  | ok c' =>
    rw [hcollect] at hends
    obtain ⟨-, n, hreads⟩ := hends
    refine ⟨c', rfl, fun i hi q hq => ?_⟩
    by_cases hlooked : Looked arbitration sqsize i q
    · obtain ⟨q', -, hserving⟩ := hreads.serving hnew hq (hring i q hq hlooked)
      refine ⟨?_, hserving.slots⟩
      have hcount := hserving.count
      rcases hring i q hq hlooked with hzero | hring
      · omega
      · have hlt := hring.getItemCount_lt
        omega
    · rw [hreads.part_others fun r hr => Option.some.inj (hq.symm.trans hr) ▸ hlooked, hnew]
      exact ⟨Nat.zero_le _, fun slot hslot => by cases hslot⟩

end Bounded

/-- Whatever the host writes to a doorbell, the next collection ends within the queues exactly
when the mode can start and every queue that it looks at has a tail below its size, or nothing
to fetch. -/
theorem collectSQueue_bounded_iff (arbitration : Arbitration) (wrrHigh wrrMedium sqsize : Nat)
    (hpos : 0 < sqsize) (hsize : sqsize < 2 ^ 16) (c : Collector) (hc : c.Seated)
    (hnew : c.fetched = []) (qid tail : Nat) (htail : tail < 2 ^ 16) :
    (∃ c', collectSQueue arbitration wrrHigh wrrMedium sqsize (c.ringSQTailDoorbell qid tail) =
        .ok c' ∧ Bounded sqsize (c.ringSQTailDoorbell qid tail) c') ↔
      Bounds arbitration sqsize (c.ringSQTailDoorbell qid tail) := by
  have hseated := hc.ringSQTailDoorbell qid htail
  constructor
  · rintro ⟨c', hcollect, hbounded⟩
    refine ⟨?_, fun i q hq hlooked => hbounded.reaches hpos hsize hseated hcollect hq hlooked⟩
    by_contra hstarts
    exact not_ok_of_not_starts wrrHigh wrrMedium sqsize hstarts hcollect
  · intro h
    exact h.bounded wrrHigh wrrMedium hpos hsize hseated
      ((fetched_ringSQTailDoorbell c qid tail).trans hnew)

/-! ### An instance -/

/-- An admin queue of four slots, with nothing pending. -/
def fourSlots : Collector where
  ppSQueue i := if i = 0 then some ⟨⟨0, 0, 0, 4⟩, 0, .urgent⟩ else none
  fetched := []

theorem seated_fourSlots : fourSlots.Seated := by
  intro i q hq
  change (if i = 0 then _ else _) = some q at hq
  split at hq
  · obtain rfl := Option.some.inj hq
    exact ⟨.inl (by decide : 0 < 4), (by decide : 0 < 2 ^ 16), (by decide : 0 < 2 ^ 16),
      (by decide : 4 < 2 ^ 16)⟩
  · cases hq

theorem ppSQueue_fourSlots (tail : Nat) : (fourSlots.ringSQTailDoorbell 0 tail).ppSQueue 0 =
    some ⟨⟨0, 0, tail, 4⟩, 0, .urgent⟩ := rfl

theorem collectSQueue_bounded_fourSlots :
    fourSlots.Seated ∧ ∃ c', collectSQueue .roundRobin 0 0 1 (fourSlots.ringSQTailDoorbell 0 3) =
      .ok c' ∧ Bounded 1 (fourSlots.ringSQTailDoorbell 0 3) c' := by
  refine ⟨seated_fourSlots, (collectSQueue_bounded_iff .roundRobin 0 0 1 (by decide) (by decide)
    fourSlots seated_fourSlots rfl 0 3 (by decide)).mpr ⟨trivial, fun i q hq hlooked => ?_⟩⟩
  obtain rfl : i = 0 := Nat.lt_one_iff.mp hlooked
  rw [ppSQueue_fourSlots] at hq
  obtain rfl := Option.some.inj hq
  exact .inl (by decide : 3 < 4)

/-- A tail of 4 in four slots is never reached. -/
theorem not_bounded_fourSlots :
    ¬ ∃ c', collectSQueue .roundRobin 0 0 1 (fourSlots.ringSQTailDoorbell 0 4) = .ok c' ∧
      Bounded 1 (fourSlots.ringSQTailDoorbell 0 4) c' := by
  rintro ⟨c', hcollect, -⟩
  exact not_ok_of_circles 0 0 (by decide) (by decide) (ppSQueue_fourSlots 4)
    (show Looked .roundRobin 1 0 _ from Nat.one_pos)
    ⟨(by decide : 0 < 4), (by decide : 4 ≤ 4)⟩ hcollect

end Collector

end SimpleSSD.HIL.NVMe
