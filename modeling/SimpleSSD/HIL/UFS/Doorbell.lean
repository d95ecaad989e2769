import Mathlib.Data.List.Perm.Basic
import SimpleSSD.HIL.UFS.Host

/-!
# The doorbell protocol

Each slot is rung, processed, finished and completed in turn (`Slot`). In every run the
doorbell register, the pending mask and the queues agree on where a slot stands
(`InStep`): a bit is set exactly while its request is queued, in flight or finished but
not completed, so a bit written again while set starts nothing.
-/

namespace SimpleSSD.HIL.UFS

/-! ### One slot -/

/-- Where a slot stands. -/
inductive Slot where
  | idle
  | rung
  | busy
  | finished
  deriving DecidableEq, Repr

namespace Slot

/-- An event of slot `i`, if it is its turn; events of other slots do not matter. -/
def step (i : Fin 32) (slot : Slot) : Event → Option Slot
  | .ring j => if j = i then (if slot = .idle then some .rung else none) else some slot
  | .process j => if j = i then (if slot = .rung then some .busy else none) else some slot
  | .finish j => if j = i then (if slot = .busy then some .finished else none) else some slot
  | .complete j => if j = i then (if slot = .finished then some .idle else none) else some slot

/-- Where slot `i` stands after the events, if they come in turn. -/
def after (i : Fin 32) (log : List Event) : Option Slot := log.foldlM (step i) .idle

section After

variable {i : Fin 32} {slot slot' : Slot} {log events : List Event} {event : Fin 32 → Event}
  {l : List (Fin 32)}

theorem after_append (h : after i log = some slot) :
    after i (log ++ events) = events.foldlM (step i) slot := by
  rw [after] at h
  rw [after, List.foldlM_append, h]
  rfl

theorem step_ring_other (j : Fin 32) (slot : Slot) (h : j ≠ i) :
    step i slot (.ring j) = some slot := if_neg h

theorem step_process_other (j : Fin 32) (slot : Slot) (h : j ≠ i) :
    step i slot (.process j) = some slot := if_neg h

theorem step_finish_other (j : Fin 32) (slot : Slot) (h : j ≠ i) :
    step i slot (.finish j) = some slot := if_neg h

theorem step_complete_other (j : Fin 32) (slot : Slot) (h : j ≠ i) :
    step i slot (.complete j) = some slot := if_neg h

/-- Events of other slots. -/
theorem foldlM_other (hother : ∀ j slot, j ≠ i → step i slot (event j) = some slot)
    (hl : i ∉ l) : (l.map event).foldlM (step i) slot = some slot := by
  induction l with
  | nil => rfl
  | cons j l ih =>
    rw [List.mem_cons, not_or] at hl
    rw [List.map_cons, List.foldlM_cons, hother j slot (Ne.symm hl.1)]
    exact ih hl.2

/-- One event of the slot among others. -/
theorem foldlM_self (hother : ∀ j slot, j ≠ i → step i slot (event j) = some slot)
    (hself : step i slot (event i) = some slot') (hl : l.Nodup) (hi : i ∈ l) :
    (l.map event).foldlM (step i) slot = some slot' := by
  induction l with
  | nil => cases hi
  | cons j l ih =>
    rw [List.nodup_cons] at hl
    rw [List.map_cons, List.foldlM_cons]
    by_cases hj : j = i
    · subst hj
      rw [hself]
      exact foldlM_other hother hl.1
    · rw [hother j slot hj]
      exact ih hl.2 ((List.mem_cons.mp hi).resolve_left (Ne.symm hj))

end After

end Slot

/-! ### One request -/

namespace RequestContext

variable {lbaSize : Nat} {ctx ctx' : RequestContext} {arrival : Arrival}

theorem dma_index (size : Nat) (callback : Callback) :
    (ctx.dma size callback).index = ctx.index := by
  rw [dma]
  split <;> rfl

theorem done_index : ctx.done.index = ctx.index := by
  rw [done, dma_index]

theorem waitFor_index (waits : List Wait) : (ctx.waitFor waits).index = ctx.index := by
  fun_induction waitFor with
  | case1 ctx => exact done_index
  | case2 waits ctx => rfl
  | case3 waits ctx ih => exact ih
  | case4 size sizes waits ctx => rfl

theorem processUTPCommand_index : ctx.processUTPCommand.index = ctx.index := by
  simp only [processUTPCommand]
  split
  · rw [dma_index, dma_index]
  · exact dma_index _ _

theorem doRequest_index (h : ctx.doRequest lbaSize = .ok ctx') : ctx'.index = ctx.index := by
  rw [doRequest, Except.bind_eq_ok] at h
  obtain ⟨b, -, h⟩ := h
  split at h
  · cases h
    exact done_index
  split at h
  · cases h
    exact waitFor_index _
  split at h
  · rw [Except.bind_eq_ok] at h
    obtain ⟨⟨ret, req⟩, -, h⟩ := h
    dsimp only at h
    split at h
    · cases h
      exact waitFor_index _
    · cases h
      rfl
  · cases h

/-- The slot of a request never changes. -/
theorem receive_index (h : ctx.receive lbaSize arrival = .ok ctx') : ctx'.index = ctx.index := by
  cases arrival with
  | descriptorRead desc =>
    rw [receive] at h
    split at h
    · cases h
      exact processUTPCommand_index
    · cases h
  | reqRead mem =>
    rw [receive] at h
    split at h
    · have hindex := doRequest_index h
      exact hindex
    · cases h
      rfl
  | prdtRead mem =>
    rw [receive] at h
    split at h
    · have hindex := doRequest_index h
      exact hindex
    · cases h
      rfl
  | call =>
    cases h
    exact waitFor_index _
  | transferred =>
    rw [receive] at h
    split at h
    · cases h
      exact waitFor_index _
    · cases h
      rfl
  | responseWritten =>
    cases h
    exact dma_index _ _
  | descriptorWritten now =>
    cases h
    rfl

end RequestContext

namespace Host

/-! ### The registers and the queues -/

/-- The slots whose request is in flight. -/
def inFlight (s : Host) : List (Fin 32) := s.contexts.map (·.index)

/-- The slots whose request is finished but not completed. -/
def finished (s : Host) : List (Fin 32) := s.lResponseQueue.map (·.index)

/-- The slots that are not idle. -/
def taken (s : Host) : List (Fin 32) := s.lRequestQueue ++ (s.inFlight ++ s.finished)

/-- Where the queues say that a slot stands. -/
def slotOf (s : Host) (i : Fin 32) : Slot :=
  if i ∈ s.lRequestQueue then .rung
  else if i ∈ s.inFlight then .busy
  else if i ∈ s.finished then .finished
  else .idle

/-- The doorbell register, the pending mask, the queues and the events agree. -/
structure InStep (s : Host) : Prop where
  registers : s.pendingInterrupt = s.utrldbr
  nodup : s.taken.Nodup
  bits : ∀ i : Fin 32, s.utrldbr.getLsbD i = true ↔ i ∈ s.taken
  log : ∀ i, Slot.after i s.log = some (s.slotOf i)

theorem mem_taken {s : Host} {i : Fin 32} :
    i ∈ s.taken ↔ i ∈ s.lRequestQueue ∨ i ∈ s.inFlight ∨ i ∈ s.finished := by
  rw [taken, List.mem_append, List.mem_append]

section Bits

variable {i j : Fin 32}

theorem getLsbD_bit : (bit i).getLsbD j = decide (i = j) := by
  rw [bit, BitVec.getLsbD_twoPow, decide_eq_true i.isLt, Bool.true_and]
  exact decide_eq_decide.mpr Fin.ext_iff.symm

/-- A register is known by its 32 bits. -/
theorem eq_of_bits {x y : BitVec 32} (h : ∀ i : Fin 32, x.getLsbD i = y.getLsbD i) : x = y :=
  BitVec.eq_of_getLsbD_eq fun i hi => h ⟨i, hi⟩

end Bits

/-! ### What the loops do -/

section Loops

variable {s : Host} {i : Fin 32} {data : BitVec 32} {l : List (Fin 32)} {done : List Completion}

/-- The slots that a loop over `l` pushes. -/
def toPush (s : Host) (l : List (Fin 32)) : List (Fin 32) :=
  l.filter fun (i : Fin 32) => s.utrldbr.getLsbD i && !s.pendingInterrupt.getLsbD i

theorem foldl_push (hl : l.Nodup) : ∃ mask, l.foldl push s =
    { s with pendingInterrupt := mask, lRequestQueue := s.lRequestQueue ++ s.toPush l } ∧
    ∀ i : Fin 32, mask.getLsbD i =
      (s.pendingInterrupt.getLsbD i || (l.contains i && s.utrldbr.getLsbD i)) := by
  induction l generalizing s with
  | nil =>
    refine ⟨s.pendingInterrupt, ?_, ?_⟩
    · rw [toPush, List.filter_nil, List.append_nil]
      rfl
    · intro i
      simp
  | cons j l ih =>
    rw [List.nodup_cons] at hl
    rw [List.foldl_cons]
    -- the slots behind `j` look the same before and after `j` is pushed
    by_cases hj : s.utrldbr.getLsbD j ∧ ¬ s.pendingInterrupt.getLsbD j
    · have hpush : s.push j = { s with
          pendingInterrupt := s.pendingInterrupt ||| bit j
          lRequestQueue := s.lRequestQueue ++ [j] } := if_pos hj
      obtain ⟨mask, hfold, hmask⟩ := @ih (s.push j) hl.2
      have hrest : (s.push j).toPush l = s.toPush l := by
        refine List.filter_congr fun i hi => ?_
        have hne : j ≠ i := fun h => hl.1 (h ▸ hi)
        rw [hpush, BitVec.getLsbD_or, getLsbD_bit, decide_eq_false hne, Bool.or_false]
      have hhead : s.toPush (j :: l) = j :: s.toPush l :=
        List.filter_cons_of_pos (by simpa using hj)
      refine ⟨mask, ?_, ?_⟩
      · rw [hfold, hrest, hhead, hpush]
        simp
      · intro i
        rw [hmask, hpush, BitVec.getLsbD_or, getLsbD_bit]
        by_cases hi : j = i
        · subst hi
          simp [hj.1]
        · simp [hi, Ne.symm hi]
    · have hpush : s.push j = s := if_neg hj
      obtain ⟨mask, hfold, hmask⟩ := @ih s hl.2
      have hhead : s.toPush (j :: l) = s.toPush l := List.filter_cons_of_neg (by simpa using hj)
      refine ⟨mask, ?_, ?_⟩
      · rw [hpush, hfold, hhead]
      · intro i
        rw [hmask]
        by_cases hi : j = i
        · subst hi
          cases hbit : s.utrldbr.getLsbD j
          · simp
          · have hpending : s.pendingInterrupt.getLsbD j = true := by
              by_contra hclear
              exact hj ⟨hbit, hclear⟩
            simp [hpending]
        · simp [Ne.symm hi]

/-- A write to the doorbell pushes the slots that it sets, when mask and register agree. -/
theorem writeDoorbell_eq (h : s.pendingInterrupt = s.utrldbr) : s.writeDoorbell data =
    { s with
      utrldbr := s.utrldbr ||| data
      pendingInterrupt := s.utrldbr ||| data
      lRequestQueue := s.lRequestQueue ++ s.rung data
      log := s.log ++ (s.rung data).map .ring } := by
  obtain ⟨mask, hfold, hmask⟩ := @foldl_push
    { s with utrldbr := s.utrldbr ||| data, log := s.log ++ (s.rung data).map .ring } _
    (List.nodup_finRange 32)
  have hqueue : toPush { s with
      utrldbr := s.utrldbr ||| data, log := s.log ++ (s.rung data).map .ring } (List.finRange 32) =
      s.rung data := by
    refine List.filter_congr fun i _ => ?_
    rw [h, BitVec.getLsbD_or]
    cases s.utrldbr.getLsbD i <;> cases data.getLsbD i <;> rfl
  have hmask : mask = s.utrldbr ||| data := by
    refine eq_of_bits fun i => ?_
    rw [hmask, h, BitVec.getLsbD_or]
    simp
  rw [writeDoorbell, processUTPTransfer, hfold, hqueue, hmask]

theorem mem_rung : i ∈ s.rung data ↔ data.getLsbD i = true ∧ s.utrldbr.getLsbD i = false := by
  simp [rung]

theorem rung_nodup : (s.rung data).Nodup := (List.nodup_finRange 32).filter _

theorem getLsbD_clear_bit {x : BitVec 32} {j : Fin 32} :
    (x &&& ~~~bit j).getLsbD i = (x.getLsbD i && !decide (j = i)) := by
  rw [BitVec.getLsbD_and, BitVec.getLsbD_not, getLsbD_bit, decide_eq_true i.isLt, Bool.true_and]

/-- Each completion clears its bit, in both registers. -/
theorem foldl_clear : ∃ doorbell mask, done.foldl clear s =
    { s with
      utrldbr := doorbell
      pendingInterrupt := mask
      log := s.log ++ (done.map (·.index)).map .complete } ∧
    (s.pendingInterrupt = s.utrldbr → mask = doorbell) ∧
    ∀ i : Fin 32,
      doorbell.getLsbD i = (s.utrldbr.getLsbD i && !(done.map (·.index)).contains i) := by
  induction done generalizing s with
  | nil =>
    refine ⟨s.utrldbr, s.pendingInterrupt, ?_, id, ?_⟩
    · rw [List.map_nil, List.map_nil, List.append_nil]
      rfl
    · intro i
      simp
  | cons c done ih =>
    obtain ⟨doorbell, mask, hfold, hsame, hbits⟩ := @ih (s.clear c)
    refine ⟨doorbell, mask, ?_, ?_, ?_⟩
    · rw [List.foldl_cons, hfold]
      simp [clear]
    · intro h
      refine hsame ?_
      simp only [clear, h]
    · intro i
      rw [hbits, clear, getLsbD_clear_bit]
      by_cases hi : c.index = i
      · simp [hi]
      · simp [hi, Ne.symm hi]

end Loops

/-! ### Where a slot stands -/

section Places

variable {s : Host} {i : Fin 32}

theorem slotOf_of_queued (hi : i ∈ s.lRequestQueue) : s.slotOf i = .rung := if_pos hi

theorem InStep.slotOf_of_inFlight (h : s.InStep) (hi : i ∈ s.inFlight) : s.slotOf i = .busy := by
  have hqueue : i ∉ s.lRequestQueue := fun hq =>
    (List.nodup_append.mp h.nodup).2.2 i hq i (List.mem_append_left _ hi) rfl
  rw [slotOf, if_neg hqueue, if_pos hi]

theorem InStep.slotOf_of_finished (h : s.InStep) (hi : i ∈ s.finished) :
    s.slotOf i = .finished := by
  have hqueue : i ∉ s.lRequestQueue := fun hq =>
    (List.nodup_append.mp h.nodup).2.2 i hq i (List.mem_append_right _ hi) rfl
  have hflight : i ∉ s.inFlight := fun hf =>
    (List.nodup_append.mp (List.nodup_append.mp h.nodup).2.1).2.2 i hf i hi rfl
  rw [slotOf, if_neg hqueue, if_neg hflight, if_pos hi]

theorem slotOf_eq_idle (hqueue : i ∉ s.lRequestQueue) (hflight : i ∉ s.inFlight)
    (hfinished : i ∉ s.finished) : s.slotOf i = .idle := by
  rw [slotOf, if_neg hqueue, if_neg hflight, if_neg hfinished]

theorem slotOf_of_not_mem_taken (hi : i ∉ s.taken) : s.slotOf i = .idle := by
  rw [mem_taken, not_or, not_or] at hi
  exact slotOf_eq_idle hi.1 hi.2.1 hi.2.2

/-- Where a slot stands is read from the three queues alone. -/
theorem slotOf_congr {s' : Host} (hqueue : i ∈ s'.lRequestQueue ↔ i ∈ s.lRequestQueue)
    (hflight : i ∈ s'.inFlight ↔ i ∈ s.inFlight) (hfinished : i ∈ s'.finished ↔ i ∈ s.finished) :
    s'.slotOf i = s.slotOf i := by
  simp only [slotOf, hqueue, hflight, hfinished]

end Places

/-! ### Every event keeps the step -/

section Steps

variable {lbaSize : Nat} {s s' : Host} {data : BitVec 32} {tick k : Nat} {arrival : Arrival}
  {action : Action} {actions : List Action} {i : Fin 32}

theorem new_inStep : Host.new.InStep := by
  refine ⟨rfl, List.nodup_nil, fun i => ?_, fun i => rfl⟩
  constructor
  · intro h
    exact absurd h (by simp [Host.new])
  · rintro ⟨⟩

/-- Slot `j` moves on, and the slots that are taken stay the same. -/
theorem InStep.move {event : Fin 32 → Event} {j : Fin 32} (h : s.InStep)
    (hregisters : s'.pendingInterrupt = s'.utrldbr) (hdoorbell : s'.utrldbr = s.utrldbr)
    (hperm : s'.taken.Perm s.taken) (hlog : s'.log = s.log ++ [event j])
    (hother : ∀ i, j ≠ i → s'.slotOf i = s.slotOf i)
    (hevent : ∀ i slot, j ≠ i → Slot.step i slot (event j) = some slot)
    (hself : Slot.step j (s.slotOf j) (event j) = some (s'.slotOf j)) : s'.InStep where
  registers := hregisters
  nodup := hperm.nodup_iff.mpr h.nodup
  bits i := by rw [hdoorbell, h.bits i, hperm.mem_iff]
  log i := by
    rw [hlog, Slot.after_append (h.log i), List.foldlM_cons]
    by_cases hi : j = i
    · subst hi
      rw [hself]
      rfl
    · rw [hevent i _ hi, hother i hi]
      rfl

/-- A bit that is set already rings nothing. -/
theorem InStep.not_mem_taken_of_rung (h : s.InStep) (hi : i ∈ s.rung data) : i ∉ s.taken := by
  rw [← h.bits i, (mem_rung.mp hi).2]
  exact Bool.false_ne_true

theorem writeDoorbell_inStep (h : s.InStep) : (s.writeDoorbell data).InStep := by
  have hfresh := fun i hi => @InStep.not_mem_taken_of_rung s data i h hi
  rw [writeDoorbell_eq h.registers]
  refine ⟨rfl, ?_, ?_, ?_⟩
  · show ((s.lRequestQueue ++ s.rung data) ++ (s.inFlight ++ s.finished)).Nodup
    have hperm : ((s.lRequestQueue ++ s.rung data) ++ (s.inFlight ++ s.finished)).Perm
        (s.taken ++ s.rung data) := by
      rw [taken, List.append_assoc, List.append_assoc]
      exact List.perm_append_comm.append_left s.lRequestQueue
    refine hperm.nodup_iff.mpr (List.nodup_append.mpr ⟨h.nodup, rung_nodup, ?_⟩)
    rintro i hi _ hj rfl
    exact hfresh i hj hi
  · intro i
    show (s.utrldbr ||| data).getLsbD i = true ↔
      i ∈ (s.lRequestQueue ++ s.rung data) ++ (s.inFlight ++ s.finished)
    have hrung := @mem_rung s i data
    have hbit := h.bits i
    rw [mem_taken] at hbit
    rw [BitVec.getLsbD_or, Bool.or_eq_true, List.mem_append, List.mem_append, List.mem_append]
    cases hset : s.utrldbr.getLsbD i <;> rw [hset] at hrung hbit <;> tauto
  · intro i
    rw [Slot.after_append (h.log i)]
    by_cases hi : i ∈ s.rung data
    · rw [slotOf_of_not_mem_taken (hfresh i hi),
        slotOf_of_queued (List.mem_append_right s.lRequestQueue hi)]
      exact Slot.foldlM_self Slot.step_ring_other (by rw [Slot.step, if_pos rfl, if_pos rfl])
        rung_nodup hi
    · rw [Slot.foldlM_other Slot.step_ring_other hi]
      refine congrArg some (Eq.symm ?_)
      refine slotOf_congr ?_ Iff.rfl Iff.rfl
      rw [List.mem_append, or_iff_left hi]

theorem handleRequest_inStep (h : s.InStep) : s.handleRequest.InStep := by
  rw [handleRequest]
  split
  · exact h
  · next j queue hqueue =>
    -- the head of the queue becomes the last request in flight
    have htaken : s.taken = j :: (queue ++ (s.inFlight ++ s.finished)) := by
      rw [taken, hqueue, List.cons_append]
    have hj : j ∉ queue ++ (s.inFlight ++ s.finished) := by
      have hnodup := h.nodup
      rw [htaken, List.nodup_cons] at hnodup
      exact hnodup.1
    have hflight : ∀ s' : Host, s'.contexts = s.contexts ++ [.new j] →
        s'.inFlight = s.inFlight ++ [j] := by
      intro s' hcontexts
      rw [inFlight, hcontexts, List.map_append]
      rfl
    refine @InStep.move s _ .process j h h.registers rfl ?_ rfl ?_
      (fun i => @Slot.step_process_other i j) ?_
    · rw [htaken, taken, hflight _ rfl, List.append_assoc, ← List.append_assoc queue,
        ← List.append_assoc queue]
      exact List.perm_middle
    · intro i hi
      refine slotOf_congr ?_ ?_ Iff.rfl
      · rw [hqueue, List.mem_cons, or_iff_right (Ne.symm hi)]
      · rw [hflight _ rfl, List.mem_append, List.mem_singleton, or_iff_left (Ne.symm hi)]
    · rw [slotOf_of_queued (hqueue ▸ List.mem_cons_self), Slot.step, if_pos rfl, if_pos rfl]
      rw [List.mem_append, not_or] at hj
      have hbusy : j ∈ s.inFlight ++ [j] := List.mem_append_right _ List.mem_cons_self
      rw [slotOf, if_neg hj.1, hflight _ rfl, if_pos hbusy]

/-- A request in flight that stays in flight keeps its place. -/
theorem inFlight_set {ctx ctx' : RequestContext} (hctx : s.contexts[k]? = some ctx)
    (hindex : ctx'.index = ctx.index) : (s.contexts.set k ctx').map (·.index) = s.inFlight := by
  rw [List.map_set, hindex]
  refine List.ext_getElem? fun n => ?_
  rw [inFlight, List.getElem?_set]
  by_cases hn : k = n
  · subst hn
    obtain ⟨hk, -⟩ := List.getElem?_eq_some_iff.mp hctx
    rw [if_pos rfl, List.length_map, if_pos hk, List.getElem?_map, hctx]
    rfl
  · rw [if_neg hn]

/-- A request that is taken out of flight. -/
theorem cons_inFlight_eraseIdx {ctx : RequestContext} (hctx : s.contexts[k]? = some ctx) :
    (ctx.index :: (s.contexts.eraseIdx k).map (·.index)).Perm s.inFlight := by
  obtain ⟨hk, hget⟩ := List.getElem?_eq_some_iff.mp hctx
  have hperm := (List.getElem_cons_eraseIdx_perm hk).map (·.index)
  rw [hget] at hperm
  exact hperm

/-- The descriptor of a request in flight is written back. -/
theorem finish_inStep {ctx : RequestContext} {now : Nat} (h : s.InStep)
    (hctx : s.contexts[k]? = some ctx) : InStep { s with
      contexts := s.contexts.eraseIdx k
      lResponseQueue := s.lResponseQueue ++ [⟨ctx.index, now⟩]
      log := s.log ++ [.finish ctx.index] } := by
  have hperm := cons_inFlight_eraseIdx hctx
  have hmem : ctx.index ∈ s.inFlight := hperm.mem_iff.mp List.mem_cons_self
  have hnodup := List.nodup_append.mp h.nodup
  have hout : ctx.index ∉ (s.contexts.eraseIdx k).map (·.index) :=
    (List.nodup_cons.mp (hperm.nodup_iff.mpr (List.nodup_append.mp hnodup.2.1).1)).1
  have hqueue : ctx.index ∉ s.lRequestQueue := fun hq =>
    hnodup.2.2 _ hq _ (List.mem_append_left _ hmem) rfl
  have hfinished : (s.lResponseQueue ++ [Completion.mk ctx.index now]).map (·.index) =
      s.finished ++ [ctx.index] := List.map_append
  refine @InStep.move s _ .finish ctx.index h h.registers rfl ?_ rfl ?_
    (fun i => @Slot.step_finish_other i ctx.index) ?_
  · refine List.Perm.append_left _ ?_
    show ((s.contexts.eraseIdx k).map (·.index) ++
      (s.lResponseQueue ++ [Completion.mk ctx.index now]).map (·.index)).Perm _
    rw [hfinished, ← List.append_assoc]
    exact (List.perm_append_singleton _ _).trans (hperm.append_right _)
  · intro i hi
    refine slotOf_congr Iff.rfl ?_ ?_
    · rw [← hperm.mem_iff, List.mem_cons, or_iff_right (Ne.symm hi)]
      rfl
    · show i ∈ (s.lResponseQueue ++ [Completion.mk ctx.index now]).map (·.index) ↔ _
      rw [hfinished, List.mem_append, List.mem_singleton, or_iff_left (Ne.symm hi)]
  · have hnow : ctx.index ∈ s.finished ++ [ctx.index] := List.mem_append_right _ List.mem_cons_self
    rw [h.slotOf_of_inFlight hmem, Slot.step, if_pos rfl, if_pos rfl]
    rw [slotOf, if_neg hqueue, inFlight, if_neg hout, finished, hfinished, if_pos hnow]

/-- A callback moves no slot but the one whose descriptor is written back. -/
theorem callback_inStep (h : s.InStep) (hs' : s.callback lbaSize k arrival = .ok s') :
    s'.InStep := by
  rw [callback] at hs'
  split at hs'
  · cases hs'
    exact h
  · next ctx hctx =>
    rw [Except.bind_eq_ok] at hs'
    obtain ⟨ctx', hreceive, hs'⟩ := hs'
    have hindex : ctx'.index = ctx.index := RequestContext.receive_index hreceive |>.trans rfl
    split at hs'
    · cases hs'
      rw [hindex]
      exact finish_inStep h hctx
    · cases hs'
      have hflight := inFlight_set hctx hindex
      refine ⟨h.registers, ?_, fun i => ?_, fun i => ?_⟩
      · rw [taken, inFlight, hflight]
        exact h.nodup
      · rw [taken, inFlight, hflight]
        exact h.bits i
      · refine (h.log i).trans (congrArg some (Eq.symm ?_))
        refine slotOf_congr Iff.rfl ?_ Iff.rfl
        rw [inFlight, hflight]

/-- What a filter keeps and what it takes, when no slot is there twice. -/
theorem mem_map_filter_not {p : Completion → Prop} [DecidablePred p] {l : List Completion}
    (hl : (l.map (·.index)).Nodup) : i ∈ (l.filter fun c => ¬ p c).map (·.index) ↔
      i ∈ l.map (·.index) ∧ i ∉ (l.filter fun c => p c).map (·.index) := by
  simp only [List.mem_map, List.mem_filter, decide_eq_true_eq, decide_not, Bool.not_eq_true',
    decide_eq_false_iff_not]
  constructor
  · rintro ⟨c, ⟨hc, hpc⟩, rfl⟩
    refine ⟨⟨c, hc, rfl⟩, ?_⟩
    rintro ⟨c', ⟨hc', hpc'⟩, hindex⟩
    exact hpc (List.inj_on_of_nodup_map hl hc' hc hindex ▸ hpc')
  · rintro ⟨⟨c, hc, rfl⟩, hout⟩
    exact ⟨c, ⟨hc, fun hpc => hout ⟨c, ⟨hc, hpc⟩, rfl⟩⟩, rfl⟩

/-- What is completed leaves the queue. -/
theorem completion_inStep (h : s.InStep) : (s.completion tick).InStep := by
  have hnodup := List.nodup_append.mp h.nodup
  have hfinished : s.finished.Nodup := (List.nodup_append.mp hnodup.2.1).2.1
  obtain ⟨doorbell, mask, hfold, hsame, hbits⟩ := @foldl_clear
    { s with lResponseQueue := s.lResponseQueue.filter fun c => ¬ c.finishedAt ≤ tick }
    (s.lResponseQueue.filter fun c => c.finishedAt ≤ tick)
  have hleft := fun i => @mem_map_filter_not i (fun c => c.finishedAt ≤ tick) _ _ hfinished
  -- what is completed was finished, so it is neither queued nor in flight
  have hdone : ∀ i, i ∈ (s.lResponseQueue.filter fun c => c.finishedAt ≤ tick).map (·.index) →
      i ∈ s.finished ∧ i ∉ s.lRequestQueue ∧ i ∉ s.inFlight := by
    intro i hi
    have hmem : i ∈ s.finished := (List.filter_sublist.map _).subset hi
    refine ⟨hmem, fun hq => ?_, fun hf => ?_⟩
    · exact hnodup.2.2 i hq i (List.mem_append_right _ hmem) rfl
    · exact (List.nodup_append.mp hnodup.2.1).2.2 i hf i hmem rfl
  rw [completion, hfold]
  refine ⟨hsame h.registers, ?_, fun i => ?_, fun i => ?_⟩
  · refine List.Nodup.sublist ?_ h.nodup
    exact ((List.filter_sublist.map _).append_left _).append_left _
  · show doorbell.getLsbD i = true ↔ i ∈ s.lRequestQueue ++ (s.inFlight ++
      (s.lResponseQueue.filter fun c => ¬ c.finishedAt ≤ tick).map (·.index))
    have hbit := h.bits i
    rw [mem_taken] at hbit
    rw [hbits, Bool.and_eq_true, Bool.not_eq_true', List.contains_eq_mem, decide_eq_false_iff_not,
      hbit,
      List.mem_append,
      List.mem_append, hleft i]
    have hi := hdone i
    rw [finished] at hi ⊢
    tauto
  · rw [Slot.after_append (h.log i)]
    by_cases hi : i ∈ (s.lResponseQueue.filter fun c => c.finishedAt ≤ tick).map (·.index)
    · obtain ⟨hmem, hqueue, hflight⟩ := hdone i hi
      have hgone : i ∉ (s.lResponseQueue.filter fun c => ¬ c.finishedAt ≤ tick).map (·.index) :=
        fun hin => ((hleft i).mp hin).2 hi
      rw [h.slotOf_of_finished hmem]
      refine @Eq.trans _ _ (some Slot.idle) _ ?_ (congrArg some (Eq.symm ?_))
      · exact Slot.foldlM_self Slot.step_complete_other (by rw [Slot.step, if_pos rfl, if_pos rfl])
          ((List.filter_sublist.map _).nodup hfinished) hi
      · exact slotOf_eq_idle hqueue hflight hgone
    · rw [Slot.foldlM_other Slot.step_complete_other hi]
      refine congrArg some (Eq.symm ?_)
      refine slotOf_congr Iff.rfl Iff.rfl ?_
      exact (hleft i).trans (and_iff_left hi)

theorem exec_inStep (h : s.InStep) (hs' : s.exec lbaSize action = .ok s') : s'.InStep := by
  cases action with
  | linkStartup =>
    cases hs'
    exact ⟨h.registers, h.nodup, h.bits, h.log⟩
  | writeDoorbell data =>
    cases hs'
    exact writeDoorbell_inStep h
  | handleRequest =>
    cases hs'
    exact handleRequest_inStep h
  | callback k arrival => exact callback_inStep h hs'
  | completion tick =>
    cases hs'
    exact completion_inStep h

/-- Doorbell, mask, queues and events agree in every state that a run reaches. -/
theorem run_inStep (h : actions.foldlM (exec lbaSize) new = .ok s) : s.InStep :=
  Run.foldlM_inv (fun _ _ _ hs hs' => exec_inStep hs hs') new_inStep h

end Steps

end Host

end SimpleSSD.HIL.UFS
