import SimpleSSD.HIL.UFS.Answers

/-!
# Every doorbell bit is cleared

`Host.leftOf` bounds the events that a slot still takes. In a run that only fetches
requests that are answered, some event that serves the slot can run as long as its bit is
set, each such event lowers the bound, and no other event raises it. A request that is
owed nothing keeps its bit set for ever (`run_stuck`).
-/

namespace SimpleSSD.HIL.UFS

namespace Host

/-- What an event brings describes a request that is answered. -/
def Answered (lbaSize : Nat) (s : Host) : Action → Prop
  | .callback k arrival => ∀ ctx ∈ s.contexts[k]?, ctx.Answered lbaSize arrival
  | _ => True

instance (lbaSize : Nat) (s : Host) : ∀ a, Decidable (s.Answered lbaSize a)
  | .callback k _ => inferInstanceAs (Decidable (∀ ctx ∈ s.contexts[k]?, _))
  | .linkStartup => instDecidableTrue
  | .writeDoorbell _ => instDecidableTrue
  | .handleRequest => instDecidableTrue
  | .completion _ => instDecidableTrue

/-- Every request in flight is owed a callback. -/
def Live (s : Host) : Prop := ∀ ctx ∈ s.contexts, ctx.Live

/-- The events left to slot `i` in the queue at most. -/
def queueLeft (i : Fin 32) (queue : List (Fin 32)) : Nat :=
  if queue.contains i then queue.idxOf i + 1 + (RequestContext.new i).left else 0

/-- The events left to the requests of slot `i` in flight. -/
def flightLeft (i : Fin 32) (contexts : List RequestContext) : Nat :=
  (contexts.map fun ctx => if ctx.index = i then ctx.left else 0).sum

/-- The events that slot `i` still takes at most, the start of the controller included. -/
def leftOf (i : Fin 32) (s : Host) : Nat :=
  (if s.working then 0 else 1) + queueLeft i s.lRequestQueue + flightLeft i s.contexts +
    s.finished.count i

/-- The events that bring slot `i` closer to its completion. -/
def Serves (i : Fin 32) (s : Host) : Action → Prop
  | .linkStartup => s.working = false
  | .writeDoorbell _ => False
  | .handleRequest => i ∈ s.lRequestQueue
  | .callback k _ => ∃ ctx ∈ s.contexts[k]?, ctx.index = i
  | .completion tick => ∃ c ∈ s.lResponseQueue, c.index = i ∧ c.finishedAt ≤ tick

section Steps

variable {lbaSize : Nat} {s s' : Host} {i j : Fin 32} {data : BitVec 32} {tick k : Nat}
  {arrival : Arrival} {action : Action} {actions : List Action} {ctx ctx' : RequestContext}
  {queue more : List (Fin 32)} {contexts : List RequestContext}

/-! ### The bound, part by part -/

theorem queueLeft_of_mem (h : i ∈ queue) :
    queueLeft i queue = queue.idxOf i + 1 + (RequestContext.new i).left :=
  if_pos (List.contains_iff_mem.mpr h)

theorem queueLeft_of_not_mem (h : i ∉ queue) : queueLeft i queue = 0 :=
  if_neg fun hin => h (List.contains_iff_mem.mp hin)

theorem queueLeft_append (h : i ∉ more) : queueLeft i (queue ++ more) = queueLeft i queue := by
  by_cases hi : i ∈ queue
  · rw [queueLeft_of_mem hi, queueLeft_of_mem (List.mem_append_left _ hi),
      List.idxOf_append_of_mem hi]
  · have hmore : i ∉ queue ++ more := fun hin => (List.mem_append.mp hin).elim hi h
    rw [queueLeft_of_not_mem hi, queueLeft_of_not_mem hmore]

theorem queueLeft_cons_of_ne (h : j ≠ i) (hi : i ∈ queue) :
    queueLeft i (j :: queue) = queueLeft i queue + 1 := by
  rw [queueLeft_of_mem hi, queueLeft_of_mem (List.mem_cons_of_mem _ hi), List.idxOf_cons_ne _ h]
  omega

theorem queueLeft_cons_self : queueLeft i (i :: queue) = 1 + (RequestContext.new i).left := by
  rw [queueLeft_of_mem List.mem_cons_self, List.idxOf_cons_self, Nat.zero_add]

/-- What is left to a slot without one of the requests. -/
theorem flightLeft_eraseIdx (h : contexts[k]? = some ctx) : flightLeft i contexts =
    (if ctx.index = i then ctx.left else 0) + flightLeft i (contexts.eraseIdx k) := by
  obtain ⟨hk, hget⟩ := List.getElem?_eq_some_iff.mp h
  have hperm := ((List.getElem_cons_eraseIdx_perm hk).map
    fun ctx => if ctx.index = i then ctx.left else 0).sum_nat
  rw [hget, List.map_cons, List.sum_cons] at hperm
  exact hperm.symm

theorem flightLeft_set (h : contexts[k]? = some ctx) : flightLeft i (contexts.set k ctx') =
    (if ctx'.index = i then ctx'.left else 0) + flightLeft i (contexts.eraseIdx k) := by
  obtain ⟨hk, -⟩ := List.getElem?_eq_some_iff.mp h
  have hperm := ((List.set_perm_cons_eraseIdx hk ctx').map
    fun ctx => if ctx.index = i then ctx.left else 0).sum_nat
  rw [List.map_cons, List.sum_cons] at hperm
  exact hperm

theorem flightLeft_append_new : flightLeft i (contexts ++ [.new j]) =
    flightLeft i contexts + if j = i then (RequestContext.new j).left else 0 := by
  rw [flightLeft, List.map_append, List.sum_append, List.map_singleton, List.sum_singleton]
  rfl

/-! ### Every event -/

theorem new_live : Host.new.Live := by
  intro ctx hctx
  cases hctx

/-- Every event keeps the requests owed, and brings a slot it serves closer. -/
theorem callback_live (hlive : s.Live) (hvalid : s.Valid (.callback k arrival))
    (hans : s.Answered lbaSize (.callback k arrival)) (h : s.callback lbaSize k arrival = .ok s') :
    s'.Live ∧ s'.leftOf i ≤ s.leftOf i ∧
      (s.Serves i (.callback k arrival) → s'.leftOf i < s.leftOf i) := by
  obtain ⟨ctx, hctx, howed⟩ := hvalid
  rw [Option.mem_def] at hctx
  rw [callback, hctx] at h
  obtain ⟨ctx', hreceive, h⟩ := Except.bind_eq_ok.mp h
  have hindex : ctx'.index = ctx.index := RequestContext.receive_index hreceive |>.trans rfl
  obtain ⟨hless, hlive'⟩ :=
    RequestContext.receive_live (hlive ctx (List.mem_of_getElem? hctx)) howed
    (hans ctx hctx) hreceive
  have hbefore := @flightLeft_eraseIdx i k ctx _ hctx
  have hserves : s.Serves i (.callback k arrival) → ctx.index = i := by
    rintro ⟨ctx₁, hctx₁, hi⟩
    rw [Option.mem_def, hctx] at hctx₁
    cases hctx₁
    exact hi
  split at h
  · next now _ =>
    cases h
    have hlast : 2 ≤ ctx.left := RequestContext.weight_le_left howed
    have hcount : ((s.lResponseQueue ++ [Completion.mk ctx'.index now]).map (·.index)).count i =
        s.finished.count i + if ctx.index = i then 1 else 0 := by
      rw [List.map_append, List.count_append, hindex, List.map_singleton, List.count_singleton]
      simp only [beq_iff_eq]
      rfl
    refine ⟨fun c hc => hlive c (List.mem_of_mem_eraseIdx hc), ?_, fun hs => ?_⟩
    · by_cases hi : ctx.index = i
      · simp only [leftOf, finished, hcount, hbefore, if_pos hi]
        omega
      · simp only [leftOf, finished, hcount, hbefore, if_neg hi]
        omega
    · simp only [leftOf, finished, hcount, hbefore, if_pos (hserves hs)]
      omega
  · next hother =>
    cases h
    have hafter := @flightLeft_set i k ctx ctx' _ hctx
    refine ⟨fun c hc => ?_, ?_, fun hs => ?_⟩
    · rcases List.mem_or_eq_of_mem_set hc with hc | rfl
      · exact hlive c hc
      · exact hlive' hother
    · by_cases hi : ctx.index = i
      · simp only [leftOf, finished, hafter, hbefore, hindex, if_pos hi]
        omega
      · simp only [leftOf, finished, hafter, hbefore, hindex, if_neg hi]
        exact le_rfl
    · simp only [leftOf, finished, hafter, hbefore, hindex, if_pos (hserves hs)]
      omega

/-- The completions that are taken are those of the slot that is served. -/
theorem completion_leftOf : (s.completion tick).leftOf i ≤ s.leftOf i ∧
    (s.Serves i (.completion tick) → (s.completion tick).leftOf i < s.leftOf i) := by
  obtain ⟨doorbell, mask, hfold, -⟩ := @foldl_clear
    { s with lResponseQueue := s.lResponseQueue.filter fun c => ¬ c.finishedAt ≤ tick }
    (s.lResponseQueue.filter fun c => c.finishedAt ≤ tick)
  have hcount : s.finished.count i =
      ((s.lResponseQueue.filter fun c => c.finishedAt ≤ tick).map (·.index)).count i +
      ((s.lResponseQueue.filter fun c => ¬ c.finishedAt ≤ tick).map (·.index)).count i := by
    have hperm := (List.filter_append_perm (fun c : Completion => decide (c.finishedAt ≤ tick))
      s.lResponseQueue).map (·.index)
    rw [finished, ← hperm.count_eq, List.map_append, List.count_append]
    simp only [decide_not]
  have hleft : (s.completion tick).leftOf i =
      (if s.working then 0 else 1) + queueLeft i s.lRequestQueue + flightLeft i s.contexts +
      ((s.lResponseQueue.filter fun c => ¬ c.finishedAt ≤ tick).map (·.index)).count i := by
    rw [completion, hfold]
    rfl
  rw [hleft, leftOf, hcount]
  refine ⟨by omega, ?_⟩
  rintro ⟨c, hc, rfl, htick⟩
  have hpos : 0 < ((s.lResponseQueue.filter fun c => c.finishedAt ≤ tick).map (·.index)).count
      c.index := by
    refine List.count_pos_iff.mpr (List.mem_map_of_mem ?_)
    exact List.mem_filter.mpr ⟨hc, decide_eq_true htick⟩
  omega

theorem handleRequest_leftOf (h : s.InStep) : s.handleRequest.leftOf i ≤ s.leftOf i ∧
    (s.Serves i .handleRequest → s.handleRequest.leftOf i < s.leftOf i) := by
  rw [handleRequest]
  split
  · next hqueue =>
    refine ⟨le_rfl, fun hi => ?_⟩
    rw [Serves, hqueue] at hi
    cases hi
  · next j queue hqueue =>
    have hj : j ∉ queue := by
      have hnodup := (List.nodup_append.mp h.nodup).1
      rw [hqueue, List.nodup_cons] at hnodup
      exact hnodup.1
    simp only [Serves, leftOf, finished, hqueue, flightLeft_append_new]
    by_cases hi : j = i
    · subst hi
      rw [queueLeft_of_not_mem hj, queueLeft_cons_self, if_pos rfl]
      omega
    · rw [if_neg hi]
      by_cases hin : i ∈ queue
      · rw [queueLeft_cons_of_ne hi hin]
        omega
      · have hcons : i ∉ j :: queue := List.not_mem_cons_of_ne_of_not_mem (Ne.symm hi) hin
        rw [queueLeft_of_not_mem hin, queueLeft_of_not_mem hcons]
        exact ⟨le_rfl, fun h => absurd h hcons⟩

/-- The step: what is owed stays owed, no event takes a slot whose bit is set further
from its completion, and the events that serve it bring it closer. -/
theorem exec_live (h : s.InStep) (hlive : s.Live) (hvalid : s.Valid action)
    (hans : s.Answered lbaSize action) (hs' : s.exec lbaSize action = .ok s') :
    s'.Live ∧ (s.utrldbr.getLsbD i = true → s'.leftOf i ≤ s.leftOf i ∧
      (s.Serves i action → s'.leftOf i < s.leftOf i)) := by
  cases action with
  | linkStartup =>
    cases hs'
    refine ⟨hlive, fun _ => ?_⟩
    simp only [leftOf, Serves, finished]
    cases s.working <;> simp
  | writeDoorbell data =>
    cases hs'
    refine ⟨?_, fun hbit => ⟨?_, fun hserves => hserves.elim⟩⟩
    · rw [writeDoorbell_eq h.registers]
      exact hlive
    · have hrung : i ∉ s.rung data := by
        rw [mem_rung, hbit]
        exact fun h => Bool.noConfusion h.2
      rw [writeDoorbell_eq h.registers]
      simp only [leftOf, finished, queueLeft_append hrung]
      exact le_rfl
  | handleRequest =>
    cases hs'
    refine ⟨?_, fun _ => handleRequest_leftOf h⟩
    rw [handleRequest]
    split
    · exact hlive
    · intro ctx hctx
      rcases List.mem_append.mp hctx with hctx | hctx
      · exact hlive ctx hctx
      · rw [List.mem_singleton] at hctx
        exact hctx ▸ RequestContext.new_live _
  | callback k arrival =>
    obtain ⟨hlive', hleft⟩ := @callback_live _ _ _ i _ _ hlive hvalid hans hs'
    exact ⟨hlive', fun _ => hleft⟩
  | completion tick =>
    cases hs'
    refine ⟨?_, fun _ => completion_leftOf⟩
    obtain ⟨doorbell, mask, hfold, -⟩ := @foldl_clear
      { s with lResponseQueue := s.lResponseQueue.filter fun c => ¬ c.finishedAt ≤ tick }
      (s.lResponseQueue.filter fun c => c.finishedAt ≤ tick)
    rw [completion, hfold]
    exact hlive

/-- Each callback comes with something. -/
theorem exists_arrival (callback : Callback) :
    ∃ arrival : Arrival, arrival.callback = callback := by
  cases callback with
  | descriptorRead => exact ⟨.descriptorRead ⟨0, 0, 0, 0⟩, rfl⟩
  | reqRead => exact ⟨.reqRead fun _ => 0, rfl⟩
  | prdtRead => exact ⟨.prdtRead fun _ => ⟨0⟩, rfl⟩
  | call => exact ⟨.call, rfl⟩
  | transferred => exact ⟨.transferred, rfl⟩
  | responseWritten => exact ⟨.responseWritten, rfl⟩
  | descriptorWritten => exact ⟨.descriptorWritten 0, rfl⟩

/-- A slot whose bit is set can be served. -/
theorem exists_serves (h : s.InStep) (hlive : s.Live) (hbit : s.utrldbr.getLsbD i = true) :
    ∃ action, s.Valid action ∧ s.Serves i action := by
  rw [h.bits i, mem_taken] at hbit
  rcases hbit with hqueue | hflight | hfinished
  · cases hworking : s.working with
    | true => exact ⟨.handleRequest, hworking, hqueue⟩
    | false => exact ⟨.linkStartup, trivial, hworking⟩
  · obtain ⟨ctx, hctx, hindex⟩ := List.mem_map.mp hflight
    obtain ⟨k, hk⟩ := List.mem_iff_getElem?.mp hctx
    obtain ⟨callback, howed⟩ := List.exists_mem_of_ne_nil _ (hlive ctx hctx).pending_ne_nil
    obtain ⟨arrival, rfl⟩ := exists_arrival callback
    exact ⟨.callback k arrival, ⟨ctx, hk, howed⟩, ctx, hk, hindex⟩
  · obtain ⟨c, hc, hindex⟩ := List.mem_map.mp hfinished
    exact ⟨.completion c.finishedAt, trivial, c, hc, hindex, le_rfl⟩

theorem run_live (hvalid : Run.Along (exec lbaSize) Valid new actions)
    (hans : Run.Along (exec lbaSize) (Answered lbaSize) new actions)
    (h : actions.foldlM (exec lbaSize) new = .ok s) : s.InStep ∧ s.Live :=
  (hvalid.and hans).foldlM_inv (I := fun s => s.InStep ∧ s.Live)
    (fun _ _ _ hs ha hs' =>
      ⟨exec_inStep hs.1 hs', (@exec_live _ _ _ 0 _ hs.1 hs.2 ha.1 ha.2 hs').1⟩)
    ⟨new_inStep, new_live⟩ h

/-- The doorbell protocol, in every run that fetches only requests that are answered: the
registers, the queues and the events are in step, so that each slot is rung, processed,
finished and completed in turn; and a slot whose bit is set is served until it is
completed. -/
theorem doorbell (hvalid : Run.Along (exec lbaSize) Valid new actions)
    (hans : Run.Along (exec lbaSize) (Answered lbaSize) new actions)
    (h : actions.foldlM (exec lbaSize) new = .ok s) :
    s.InStep ∧ ∀ i : Fin 32, s.utrldbr.getLsbD i = true →
      (∃ action, s.Valid action ∧ s.Serves i action) ∧
      ∀ action s', s.Valid action → s.Answered lbaSize action → s.exec lbaSize action = .ok s' →
        s'.leftOf i ≤ s.leftOf i ∧ (s.Serves i action → s'.leftOf i < s.leftOf i) := by
  obtain ⟨hstep, hlive⟩ := run_live hvalid hans h
  refine ⟨hstep, fun i hbit => ⟨exists_serves hstep hlive hbit, ?_⟩⟩
  intro action s' hvalid hans hs'
  exact (exec_live hstep hlive hvalid hans hs').2 hbit

/-- READ (10) of a block in slot 0, and NOP OUT in slot 1. -/
def readAndNop : List Action :=
  [.linkStartup, .writeDoorbell 3, .handleRequest, .callback 0 (.descriptorRead ⟨0, 8, 8, 1⟩),
    .handleRequest,
    .callback 0
      (.reqRead (Function.update (Function.update (Function.update (fun _ => 0) 0 1) 16 0x28)
      24 1)), .callback 1 (.descriptorRead ⟨0, 8, 8, 0⟩), .callback 0 (.prdtRead fun _ => ⟨4096⟩),
    .callback 0 .call, .callback 1 (.reqRead fun _ => 0), .callback 0 .call, .callback 0 .call,
    .callback 0 .transferred]

theorem doorbell_readAndNop : ∃ s, readAndNop.foldlM (exec 512) new = .ok s ∧ s.InStep ∧
    ∀ i ∈ [(0 : Fin 32), 1], s.utrldbr.getLsbD i = true ∧
      ∃ action, s.Valid action ∧ s.Serves i action := by
  obtain ⟨s, hrun, hbits⟩ : ∃ s, readAndNop.foldlM (exec 512) new = .ok s ∧
      ∀ i ∈ [(0 : Fin 32), 1], s.utrldbr.getLsbD i = true :=
    Except.exists_of_map (by decide +kernel)
  obtain ⟨hstep, hserved⟩ := doorbell (by decide +kernel) (by decide +kernel) hrun
  exact ⟨s, hrun, hstep, fun i hi => ⟨hbits i hi, (hserved i (hbits i hi)).1⟩⟩

/-! ### A request that nobody calls back -/

/-- A request that is owed nothing stays in flight. -/
theorem exec_stuck (hctx : ctx ∈ s.contexts) (hpending : ctx.pending = []) (hvalid : s.Valid action)
    (h : s.exec lbaSize action = .ok s') : ctx ∈ s'.contexts := by
  cases action with
  | linkStartup =>
    cases h
    exact hctx
  | writeDoorbell data =>
    cases h
    rw [writeDoorbell, processUTPTransfer]
    obtain ⟨mask, hfold, -⟩ := @foldl_push
      { s with utrldbr := s.utrldbr ||| data, log := s.log ++ (s.rung data).map .ring } _
      (List.nodup_finRange 32)
    rw [hfold]
    exact hctx
  | handleRequest =>
    cases h
    rw [handleRequest]
    split
    · exact hctx
    · exact List.mem_append_left _ hctx
  | callback k arrival =>
    obtain ⟨owed, howed, hcallback⟩ := hvalid
    rw [Option.mem_def] at howed
    rw [exec, callback, howed] at h
    obtain ⟨owed', -, h⟩ := Except.bind_eq_ok.mp h
    -- the callback is owed to another request
    obtain ⟨n, hn⟩ := List.mem_iff_getElem?.mp hctx
    have hne : n ≠ k := by
      rintro rfl
      rw [hn] at howed
      cases howed
      rw [hpending] at hcallback
      cases hcallback
    split at h
    · cases h
      exact List.mem_eraseIdx_iff_getElem?.mpr ⟨n, hne, hn⟩
    · cases h
      refine List.mem_iff_getElem?.mpr ⟨n, ?_⟩
      rw [List.getElem?_set_ne (Ne.symm hne)]
      exact hn
  | completion tick =>
    cases h
    obtain ⟨doorbell, mask, hfold, -⟩ := @foldl_clear
      { s with lResponseQueue := s.lResponseQueue.filter fun c => ¬ c.finishedAt ≤ tick }
      (s.lResponseQueue.filter fun c => c.finishedAt ≤ tick)
    rw [completion, hfold]
    exact hctx

/-- Its doorbell bit is never cleared. -/
theorem run_stuck (hstep : s.InStep) (hctx : ctx ∈ s.contexts) (hpending : ctx.pending = [])
    (hvalid : Run.Along (exec lbaSize) Valid s actions)
    (h : actions.foldlM (exec lbaSize) s = .ok s') : s'.utrldbr.getLsbD ctx.index = true := by
  have hkept : s'.InStep ∧ ctx ∈ s'.contexts :=
    hvalid.foldlM_inv (I := fun s => s.InStep ∧ ctx ∈ s.contexts)
      (fun _ _ _ hs ha hs' => ⟨exec_inStep hs.1 hs', exec_stuck hs.2 hpending ha hs'⟩)
      ⟨hstep, hctx⟩ h
  rw [hkept.1.bits ctx.index, mem_taken]
  exact .inr (.inl (List.mem_map_of_mem hkept.2))

/-- A command UPIU of the type `CMD_NATIVE_UFS_COMMAND` in slot 0: the device never calls
back, and the bit of the slot is never cleared. -/
theorem nativeUFSCommand_not_completed : ∃ s, Run.Along (exec 512) Valid new
      [.linkStartup, .writeDoorbell 1, .handleRequest,
        .callback 0 (.descriptorRead ⟨0x10000000, 8, 8, 0⟩),
        .callback 0 (.reqRead fun i => if i = 0 then 1 else 0)] ∧
    [Action.linkStartup, .writeDoorbell 1, .handleRequest,
        .callback 0 (.descriptorRead ⟨0x10000000, 8, 8, 0⟩),
        .callback 0 (.reqRead fun i => if i = 0 then 1 else 0)].foldlM (exec 512) new = .ok s ∧
    ∀ actions s', Run.Along (exec 512) Valid s actions → actions.foldlM (exec 512) s = .ok s' →
      s'.utrldbr.getLsbD 0 = true := by
  obtain ⟨s, hrun, ctx, hctx, hindex, hpending⟩ : ∃ s, [Action.linkStartup, .writeDoorbell 1,
        .handleRequest, .callback 0 (.descriptorRead ⟨0x10000000, 8, 8, 0⟩),
        .callback 0 (.reqRead fun i => if i = 0 then 1 else 0)].foldlM (exec 512) new = .ok s ∧
      ∃ ctx ∈ s.contexts, ctx.index = 0 ∧ ctx.pending = [] :=
    Except.exists_of_map (by decide +kernel)
  refine ⟨s, by decide +kernel, hrun, fun actions s' hvalid h => ?_⟩
  have hbit := run_stuck (run_inStep hrun) hctx hpending hvalid h
  rw [hindex] at hbit
  exact hbit

end Steps

end Host

end SimpleSSD.HIL.UFS
