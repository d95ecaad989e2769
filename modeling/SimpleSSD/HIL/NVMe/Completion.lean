import Mathlib.Data.List.Dedup
import Mathlib.Data.List.Sort
import SimpleSSD.HIL.NVMe.QueueTable

/-!
# Completion and interrupt coalescing (hil/nvme/controller.cc:424–480, 1339–1374, 1657–1821)

`completion` runs when the completion event fires. It writes the entries that wait to their
queues, by DMA, and collects the interrupt vectors to be signalled: a round. When the last
entry has been written, the continuation of the round signals the vectors and reserves the
next completion event. A round that writes no entry has no continuation.

An entry is written through the memory of its queue, after a delay of the CPU. A queue that is
deleted meanwhile takes that memory with it.
-/

namespace SimpleSSD.HIL.NVMe

/-- An entry that waits in `lCQFIFO`. -/
structure WaitingEntry where
  resp : CQEntryWrapper
  submitAt : Nat
  deriving DecidableEq, Repr

/-- An entry of a round that `doWrite` has not written yet (dma.cc:254–300): its queue, and
whether the queue, and with it the `PRPList` that `doWrite` looks at, has been deleted
(queue.cc:70–74). -/
structure Writing where
  cqID : Nat
  deleted : Bool
  deriving DecidableEq, Repr

/-- The continuation of a round: the entries not yet written, which `DMAContext` counts, and the
vectors (`CompletionContext`). -/
structure Round where
  unwritten : List Writing
  ivToPost : List Nat
  deriving DecidableEq, Repr

/-- The queues that are not in this table have been deleted. -/
def Writing.leave (t : QueueTable) (w : Writing) : Writing :=
  if t.ppCQueue w.cqID = none then { w with deleted := true } else w

def Round.leave (t : QueueTable) (round : Round) : Round :=
  { round with unwritten := round.unwritten.map (·.leave t) }

/-- The part of `Controller` that completes commands, with the calls of `updateInterrupt` in
their order. -/
structure Completer extends QueueTable where
  lCQFIFO : List WaitingEntry
  aggregationTime : Nat
  aggregationThreshold : Nat
  completionEvent : Option Nat
  rounds : List Round
  interrupts : List (Nat × Bool)

namespace Completer

/-! ### The functions -/

/-- The tick of the next event, with an entry of `aggregationMap` (controller.cc:1690–1700). -/
def earlierTick (tick : Option Nat) (info : AggregationInfo) : Option Nat :=
  if info.valid && info.pending then
    match tick with
    | none => some info.nextTime
    | some t => if info.nextTime < t then some info.nextTime else some t
  else tick

/-- `reserveCompletion` (controller.cc:1681–1705). An event is not scheduled in the past. -/
def reserveCompletion (now : Nat) (s : Completer) : Completer :=
  let front := s.lCQFIFO.head?.map (·.submitAt)
  let tick := s.aggregationMap.entries.foldl (fun tick iter => earlierTick tick iter.2) front
  match tick with
  | none => s
  | some t => { s with completionEvent := some (max t now) }

/-- `submit` (controller.cc:1657–1679), for an entry whose queue exists. -/
def submit (resp : CQEntryWrapper) (now : Nat) (s : Completer) : Completer :=
  let earlier := s.lCQFIFO.takeWhile (·.submitAt ≤ now)
  let later := s.lCQFIFO.dropWhile (·.submitAt ≤ now)
  reserveCompletion now { s with lCQFIFO := earlier ++ ⟨resp, now⟩ :: later }

/-- The entry of `aggregationMap` holds the interrupt of this entry back
(controller.cc:1783–1789). -/
def HoldsBack (aggregationThreshold submitAt : Nat) (info : AggregationInfo) : Prop :=
  info.valid = true ∧ submitAt < info.nextTime ∧
    (info.requestCount + 1) % 2 ^ 32 ≤ aggregationThreshold

instance (aggregationThreshold submitAt : Nat) (info : AggregationInfo) :
    Decidable (HoldsBack aggregationThreshold submitAt info) :=
  inferInstanceAs (Decidable (_ ∧ _))

/-- Interrupt coalescing (controller.cc:1774–1802): whether to post, and the map. -/
def coalesce (tick iv : Nat) (iter : WaitingEntry) (s : Completer) :
    Bool × UnorderedMap Nat AggregationInfo :=
  if 0 < iter.resp.cqID then
    match s.aggregationMap.find? iv with
    | none => (true, s.aggregationMap)
    | some info =>
      if HoldsBack s.aggregationThreshold iter.submitAt info then
        (false, s.aggregationMap.set 0 iv { info with
          requestCount := (info.requestCount + 1) % 2 ^ 32
          pending := true })
      else if info.valid then
        (true, s.aggregationMap.set 0 iv { info with
          nextTime := (tick + s.aggregationTime) % 2 ^ 64
          requestCount := 0 })
      else (true, s.aggregationMap)
  else (true, s.aggregationMap)

/-- One entry of a round (controller.cc:1766–1804). -/
def post (tick : Nat) (acc : Completer × List Nat) (iter : WaitingEntry) :
    Except Fault (Completer × List Nat) :=
  match acc.1.ppCQueue iter.resp.cqID with
  | none => .error (.badAccess "pQueue")
  | some pQueue => do
    let (_, written) ← pQueue.setData
    let s := { acc.1 with
      ppCQueue := Function.update acc.1.ppCQueue iter.resp.cqID (some written) }
    if pQueue.ien then
      let iv := pQueue.interruptVector
      let (post, map) := s.coalesce tick iv iter
      .ok ({ s with aggregationMap := map }, if post then acc.2 ++ [iv] else acc.2)
    else .ok (s, acc.2)

/-- The timer of an entry has run out (controller.cc:1807–1808). -/
def Due (tick : Nat) (info : AggregationInfo) : Prop :=
  info.valid = true ∧ info.nextTime ≤ tick ∧ info.pending = true

instance (tick : Nat) (info : AggregationInfo) : Decidable (Due tick info) :=
  inferInstanceAs (Decidable (_ ∧ _))

/-- What becomes of an entry of `aggregationMap` (controller.cc:1807–1811). -/
def expire (aggregationTime tick : Nat) (info : AggregationInfo) : AggregationInfo :=
  if Due tick info then
    { info with nextTime := (tick + aggregationTime) % 2 ^ 64, requestCount := 0, pending := false }
  else info

/-- The entries that a round writes (controller.cc:1753–1764). -/
def entryToPost (s : Completer) (tick : Nat) : List WaitingEntry :=
  s.lCQFIFO.filter (·.submitAt ≤ tick)

/-- The event has fired, and the entries of the round are taken. -/
def taken (tick : Nat) (s : Completer) : Completer :=
  { s with completionEvent := none, lCQFIFO := s.lCQFIFO.filter fun iter => ¬ iter.submitAt ≤ tick }

/-- `completion` (controller.cc:1707–1821), when its event fires. -/
def completion (tick : Nat) (s : Completer) : Except Fault Completer := do
  let entryToPost := s.entryToPost tick
  let (s, ivToPost) ← entryToPost.foldlM (post tick) (s.taken tick, [])
  let expired := (s.aggregationMap.entries.filter fun iter => Due tick iter.2).map Prod.fst
  let s := { s with aggregationMap := s.aggregationMap.mapValues (expire s.aggregationTime tick) }
  if entryToPost = [] then .ok s
  else .ok { s with rounds := s.rounds ++
    [⟨entryToPost.map fun iter => ⟨iter.resp.cqID, false⟩, ivToPost ++ expired⟩] }

/-- `send`, the end of a round (controller.cc:1723–1740). -/
def send (now : Nat) (round : Round) (s : Completer) : Completer :=
  reserveCompletion now { s with
    interrupts := s.interrupts ++
      ((round.ivToPost.insertionSort (· ≤ ·)).dedup.map fun iv => (iv, true)) }

/-- `setCoalescing` (controller.cc:1352–1364). -/
def setCoalescing (iv : Nat) (enable : Bool) (s : Completer) : Completer :=
  match s.aggregationMap.find? iv with
  | none => s
  | some _ => { s with aggregationMap := s.aggregationMap.set 0 iv ⟨0, 0, enable, false⟩ }

/-- `ringCQHeadDoorbell` with `clearInterrupt` (controller.cc:424–443 and 462–476). -/
def ringCQHeadDoorbell (cqsize qid head : Nat) (s : Completer) : Completer :=
  match s.ppCQueue qid with
  | none => s
  | some pQueue =>
    let queues := Function.update s.ppCQueue qid (some { pQueue with head := head })
    if pQueue.ien then
      let iv := pQueue.interruptVector
      let notFinished := (List.range cqsize).foldl (fun n i =>
        match queues i with
        | none => n
        | some q => if q.interruptVector = iv then (n + q.getItemCount) % 2 ^ 16 else n) 0
      { s with ppCQueue := queues, interrupts := s.interrupts ++ [(iv, decide (0 < notFinished))] }
    else { s with ppCQueue := queues }

/-- The queues are those of `t` from now on. -/
def setQueues (t : QueueTable) (s : Completer) : Completer :=
  { s with toQueueTable := t, rounds := s.rounds.map (·.leave t) }

/-! ### Runs -/

/-- What can happen: a command on queues is done, a command completes, the completion event
fires, the `j`th entry that the `k`th round has not written yet is written, the `k`th round ends,
the coalescing is set, or the host takes entries. -/
inductive Event where
  | queues (command : QueueTable.Command)
  | submit (resp : CQEntryWrapper) (now : Nat)
  | completion (tick : Nat)
  | written (k j : Nat)
  | send (k now : Nat)
  | setCoalescing (iv : Nat) (enable : Bool)
  | setCoalescingParameter (aggregationTime aggregationThreshold : Nat)
  | ringCQHeadDoorbell (qid head : Nat)

def exec (cfg : QueueConfig) (s : Completer) : Event → Except Fault Completer
  | .queues command =>
    (QueueTable.exec cfg s.toQueueTable command).map fun t => s.setQueues t
  | .submit resp now => .ok (s.submit resp now)
  | .completion tick =>
    if s.completionEvent = some tick then s.completion tick
    else .error (.badAccess "completionEvent")
  | .written k j =>
    match s.rounds[k]? with
    | none => .error (.badAccess "DMAContext")
    | some round =>
      match round.unwritten[j]? with
      | none => .error (.badAccess "DMAContext")
      | some w =>
        if w.deleted then .error (.badAccess "base")
        else .ok { s with
          rounds := s.rounds.set k { round with unwritten := round.unwritten.eraseIdx j } }
  | .send k now =>
    match s.rounds[k]? with
    | none => .error (.badAccess "CompletionContext")
    | some round =>
      if round.unwritten = [] then .ok (send now round { s with rounds := s.rounds.eraseIdx k })
      else .error (.badAccess "CompletionContext")
  | .setCoalescing iv enable => .ok (s.setCoalescing iv enable)
  | .setCoalescingParameter aggregationTime aggregationThreshold =>
    .ok { s with
      aggregationTime := aggregationTime
      aggregationThreshold := aggregationThreshold }
  | .ringCQHeadDoorbell qid head => .ok (s.ringCQHeadDoorbell cfg.cqsize qid head)

/-- The controller, with its admin queues (controller.cc:44–51 and 408–421). -/
def start (cqEntries sqEntries : Nat) : Completer where
  toQueueTable := .admin cqEntries sqEntries
  lCQFIFO := []
  aggregationTime := 0
  aggregationThreshold := 0
  completionEvent := none
  rounds := []
  interrupts := []

/-! ### What should hold -/

/-- An enabled entry of `aggregationMap` is pending. -/
def Pends (s : Completer) : Prop :=
  ∃ iter ∈ s.aggregationMap.entries, iter.2.valid = true ∧ iter.2.pending = true

instance (s : Completer) : Decidable s.Pends := inferInstanceAs (Decidable (∃ _ ∈ _, _))

/-- While an enabled entry is pending, the completion event is scheduled or a round is on its
way, which schedules it. -/
def Reserved (s : Completer) : Prop :=
  s.Pends → s.completionEvent.isSome = true ∨ s.rounds ≠ []

/-- The entries that are still to be written. -/
def unwritten (s : Completer) : List Writing := s.rounds.flatMap (·.unwritten)

/-- Their queues have not been deleted. -/
def Writable (s : Completer) : Prop := ∀ w ∈ s.unwritten, w.deleted = false

/-- A round at `tick` owes a signal to the vector: it writes an entry to a queue with
interrupts and does not hold the interrupt back, or it clears a pending entry of
`aggregationMap`. -/
inductive Owes (s : Completer) (tick iv : Nat) : Prop
  | posted (earlier later : List WaitingEntry) (iter : WaitingEntry) (m : Completer)
      (ivs : List Nat) (pQueue : CQueue)
      (split : s.entryToPost tick = earlier ++ iter :: later)
      (reached : earlier.foldlM (post tick) (s.taken tick, []) = .ok (m, ivs))
      (queue : m.ppCQueue iter.resp.cqID = some pQueue) (enabled : pQueue.ien = true)
      (vector : pQueue.interruptVector = iv)
      (unmarked : ¬ (0 < iter.resp.cqID ∧ ∃ info, m.aggregationMap.find? iv = some info ∧
        HoldsBack m.aggregationThreshold iter.submitAt info))
  | cleared (m : Completer) (ivs : List Nat) (info : AggregationInfo)
      (reached : (s.entryToPost tick).foldlM (post tick) (s.taken tick, []) = .ok (m, ivs))
      (entry : (iv, info) ∈ m.aggregationMap.entries) (pending : info.pending = true)
      (after : (expire m.aggregationTime tick info).pending = false)

/-- A round that writes no entry finds no enabled entry pending. -/
def Posts (s : Completer) : Event → Prop
  | .completion tick => s.entryToPost tick ≠ [] ∨ ¬ s.Pends
  | _ => True

instance (s : Completer) : ∀ e, Decidable (s.Posts e)
  | .completion _ => inferInstanceAs (Decidable (_ ∨ _))
  | .queues _ | .submit _ _ | .written _ _ | .send _ _ | .setCoalescing _ _
  | .setCoalescingParameter _ _ | .ringCQHeadDoorbell _ _ => inferInstanceAs (Decidable True)

/-! ### The event -/

section Reserve

variable {s s' : Completer} {now tick : Nat}

/-- The tick that the loop of `reserveCompletion` has found stays found. -/
theorem foldl_earlierTick_isSome (entries : List (Nat × AggregationInfo)) (front : Option Nat)
    (h : front.isSome = true ∨ ∃ iter ∈ entries, iter.2.valid = true ∧ iter.2.pending = true) :
    (entries.foldl (fun tick iter => earlierTick tick iter.2) front).isSome = true := by
  induction entries generalizing front with
  | nil =>
    rcases h with h | ⟨iter, hiter, -⟩
    · exact h
    · cases hiter
  | cons iter entries ih =>
    rw [List.foldl_cons]
    refine ih _ ?_
    unfold earlierTick
    cases hpends : iter.2.valid && iter.2.pending with
    | true =>
      refine .inl ?_
      rw [if_pos rfl]
      split
      · rfl
      · split <;> rfl
    | false =>
      rw [if_neg Bool.false_ne_true]
      rcases h with h | ⟨iter', hiter', hvalid, hpending⟩
      · exact .inl h
      · rcases List.mem_cons.mp hiter' with rfl | hmem
        · rw [hvalid, hpending] at hpends
          cases hpends
        · exact .inr ⟨iter', hmem, hvalid, hpending⟩

theorem reserveCompletion_fields (s : Completer) (now : Nat) :
    (s.reserveCompletion now).aggregationMap = s.aggregationMap ∧
      (s.reserveCompletion now).rounds = s.rounds ∧
      (s.reserveCompletion now).interrupts = s.interrupts := by
  unfold reserveCompletion
  dsimp only
  split <;> exact ⟨rfl, rfl, rfl⟩

/-- After `reserveCompletion` a pending entry has the event. -/
theorem reserveCompletion_reserved (s : Completer) (now : Nat) :
    (s.reserveCompletion now).Reserved := by
  intro hpends
  left
  have hpends : ∃ iter ∈ s.aggregationMap.entries, iter.2.valid = true ∧ iter.2.pending = true := by
    rw [← (reserveCompletion_fields s now).1]
    exact hpends
  have hsome := foldl_earlierTick_isSome s.aggregationMap.entries
    (s.lCQFIFO.head?.map (·.submitAt)) (.inr hpends)
  unfold reserveCompletion
  dsimp only
  split
  · next hnone =>
    rw [hnone] at hsome
    cases hsome
  · rfl

/-- The timers that run out leave no new entry pending. -/
theorem pends_of_expire (m : UnorderedMap Nat AggregationInfo) (time tick : Nat)
    (h : ∃ iter ∈ (m.mapValues (expire time tick)).entries,
      iter.2.valid = true ∧ iter.2.pending = true) :
    ∃ iter ∈ m.entries, iter.2.valid = true ∧ iter.2.pending = true := by
  obtain ⟨⟨iv, info⟩, hmem, hvalid, hpending⟩ := h
  obtain ⟨info₀, hmem₀, rfl⟩ := UnorderedMap.mem_entries_mapValues.mp hmem
  unfold expire at hvalid hpending
  split at hpending
  · cases hpending
  · next hdue =>
    rw [if_neg hdue] at hvalid
    exact ⟨(iv, info₀), hmem₀, hvalid, hpending⟩

/-- What a round does: it posts the entries, and then has a continuation. -/
theorem completion_cases (h : s.completion tick = .ok s') :
    ∃ m ivs, (s.entryToPost tick).foldlM (post tick) (s.taken tick, []) = .ok (m, ivs) ∧
      s'.aggregationMap = m.aggregationMap.mapValues (expire m.aggregationTime tick) ∧
      s'.interrupts = m.interrupts ∧
      s'.rounds = m.rounds ++ if s.entryToPost tick = [] then [] else
        [⟨(s.entryToPost tick).map fun iter => ⟨iter.resp.cqID, false⟩, ivs ++
          (m.aggregationMap.entries.filter fun iter => Due tick iter.2).map Prod.fst⟩] := by
  rw [completion, Except.bind_eq_ok] at h
  obtain ⟨⟨m, ivs⟩, hpost, h⟩ := h
  refine ⟨m, ivs, hpost, ?_⟩
  dsimp only at h
  split at h
  · next hnil =>
    cases h
    rw [if_pos hnil, List.append_nil]
    exact ⟨rfl, rfl, rfl⟩
  · next hne =>
    cases h
    rw [if_neg hne]
    exact ⟨rfl, rfl, rfl⟩

/-- An entry that is posted adds at most its vector. -/
theorem post_fields {acc acc' : Completer × List Nat} {iter : WaitingEntry}
    (h : post tick acc iter = .ok acc') :
    acc'.1.rounds = acc.1.rounds ∧ acc'.1.interrupts = acc.1.interrupts ∧ acc.2 ⊆ acc'.2 := by
  unfold post at h
  split at h
  · cases h
  · rw [Except.bind_eq_ok] at h
    obtain ⟨⟨slot, written⟩, -, h⟩ := h
    dsimp only at h
    split at h
    · cases h
      refine ⟨rfl, rfl, ?_⟩
      dsimp only
      split
      · exact List.subset_append_left _ _
      · exact List.Subset.refl _
    · cases h
      exact ⟨rfl, rfl, List.Subset.refl _⟩

theorem foldlM_post_fields {entries : List WaitingEntry} {acc acc' : Completer × List Nat}
    (h : entries.foldlM (post tick) acc = .ok acc') :
    acc'.1.rounds = acc.1.rounds ∧ acc'.1.interrupts = acc.1.interrupts ∧ acc.2 ⊆ acc'.2 :=
  Run.foldlM_inv (I := fun a : Completer × List Nat =>
      a.1.rounds = acc.1.rounds ∧ a.1.interrupts = acc.1.interrupts ∧ acc.2 ⊆ a.2)
    (fun a iter a' ha hpost => by
      obtain ⟨hrounds, hinterrupts, hsub⟩ := post_fields hpost
      exact ⟨hrounds.trans ha.1, hinterrupts.trans ha.2.1, fun iv hiv => hsub (ha.2.2 hiv)⟩)
    ⟨rfl, rfl, List.Subset.refl _⟩ h

end Reserve

/-! ### The steps -/

section Steps

variable {cfg : QueueConfig} {s s' s₁ : Completer} {tick iv : Nat} {e : Event}

theorem exec_written_cases {k j : Nat} (h : s.exec cfg (.written k j) = .ok s') :
    ∃ round, s.rounds[k]? = some round ∧
      s' = { s with
        rounds := s.rounds.set k { round with unwritten := round.unwritten.eraseIdx j } } := by
  rw [exec] at h
  split at h
  · cases h
  · next round hround =>
    split at h
    · cases h
    · split at h
      · cases h
      · cases h
        exact ⟨round, hround, rfl⟩

theorem exec_send_cases {k now : Nat} (h : s.exec cfg (.send k now) = .ok s') :
    ∃ round, s.rounds[k]? = some round ∧ round.unwritten = [] ∧
      s' = send now round { s with rounds := s.rounds.eraseIdx k } := by
  rw [exec] at h
  split at h
  · cases h
  · next round hround =>
    split at h
    · next hcounter =>
      cases h
      exact ⟨round, hround, hcounter, rfl⟩
    · cases h

/-- A doorbell moves a head and may call for an interrupt. -/
theorem ringCQHeadDoorbell_cases (s : Completer) (cqsize qid head : Nat) :
    ∃ queues c, s.ringCQHeadDoorbell cqsize qid head =
      { s with ppCQueue := queues, interrupts := s.interrupts ++ c } := by
  unfold ringCQHeadDoorbell
  split
  · exact ⟨s.ppCQueue, [], by rw [List.append_nil]⟩
  · dsimp only
    split
    · exact ⟨_, _, rfl⟩
    · exact ⟨_, [], by rw [List.append_nil]⟩

/-- A command on queues leaves no new entry pending. -/
theorem pends_of_queues {t t' : QueueTable} {command : QueueTable.Command}
    (h : QueueTable.exec cfg t command = .ok t')
    (hpends : ∃ iter ∈ t'.aggregationMap.entries, iter.2.valid = true ∧ iter.2.pending = true) :
    ∃ iter ∈ t.aggregationMap.entries, iter.2.valid = true ∧ iter.2.pending = true := by
  obtain ⟨iter, hiter, hvalid, hpending⟩ := hpends
  exact ⟨iter, QueueTable.exec_valid h hiter hvalid, hvalid, hpending⟩

/-- The pending entries have the event or a round, after every step but a round that posts
nothing and finds one pending. -/
theorem exec_reserved (h : s.Reserved) (hposts : s.Posts e) (hexec : s.exec cfg e = .ok s') :
    s'.Reserved := by
  cases e with
  | queues command =>
    rw [exec, Except.map_eq_ok] at hexec
    obtain ⟨t, ht, rfl⟩ := hexec
    intro hpends
    refine (h (pends_of_queues ht hpends)).imp_right fun hrounds hnil => hrounds ?_
    exact List.map_eq_nil_iff.mp hnil
  | submit resp now =>
    cases hexec
    exact reserveCompletion_reserved _ now
  | completion tick =>
    rw [exec] at hexec
    split at hexec
    · obtain ⟨m, ivs, hpost, hmap, -, hrounds⟩ := completion_cases hexec
      intro hpends
      rcases hposts with hne | hnone
      · rw [if_neg hne] at hrounds
        right
        rw [hrounds]
        exact List.append_ne_nil_of_right_ne_nil _ (List.cons_ne_nil _ _)
      · by_cases hnil : s.entryToPost tick = []
        · -- nothing is posted, so the map is that of `s`
          rw [hnil] at hpost
          obtain rfl : _ = m := congrArg Prod.fst (Except.ok.inj hpost)
          have hmap : s'.aggregationMap =
              s.aggregationMap.mapValues (expire s.aggregationTime tick) := hmap
          refine absurd (pends_of_expire s.aggregationMap s.aggregationTime tick ?_) hnone
          rw [← hmap]
          exact hpends
        · rw [if_neg hnil] at hrounds
          right
          rw [hrounds]
          exact List.append_ne_nil_of_right_ne_nil _ (List.cons_ne_nil _ _)
    · cases hexec
  | written k j =>
    obtain ⟨round, -, rfl⟩ := exec_written_cases hexec
    intro hpends
    rcases h hpends with hevent | hrounds
    · exact .inl hevent
    · refine .inr fun hnil => hrounds ?_
      rw [← List.length_eq_zero_iff] at hnil ⊢
      rwa [List.length_set] at hnil
  | send k now =>
    obtain ⟨round, -, -, rfl⟩ := exec_send_cases hexec
    exact reserveCompletion_reserved _ now
  | setCoalescing iv enable =>
    cases hexec
    unfold setCoalescing
    split
    · exact h
    · intro hpends
      refine h ?_
      obtain ⟨⟨iv', info⟩, hmem, hvalid, hpending⟩ := hpends
      rcases (UnorderedMap.mem_entries_set 0).mp hmem with ⟨-, rfl⟩ | ⟨-, hmem⟩
      · cases hpending
      · exact ⟨(iv', info), hmem, hvalid, hpending⟩
  | setCoalescingParameter aggregationTime aggregationThreshold =>
    cases hexec
    exact h
  | ringCQHeadDoorbell qid head =>
    cases hexec
    obtain ⟨queues, c, hring⟩ := ringCQHeadDoorbell_cases s cfg.cqsize qid head
    rw [hring]
    exact h

/-- An entry that is posted to a queue with interrupts and not held back adds its vector. -/
theorem post_vector {acc acc' : Completer × List Nat} {iter : WaitingEntry} {pQueue : CQueue}
    (hqueue : acc.1.ppCQueue iter.resp.cqID = some pQueue) (henabled : pQueue.ien = true)
    (hunmarked : ¬ (0 < iter.resp.cqID ∧ ∃ info,
      acc.1.aggregationMap.find? pQueue.interruptVector = some info ∧
        HoldsBack acc.1.aggregationThreshold iter.submitAt info))
    (h : post tick acc iter = .ok acc') : pQueue.interruptVector ∈ acc'.2 := by
  unfold post at h
  rw [hqueue] at h
  dsimp only at h
  rw [Except.bind_eq_ok] at h
  obtain ⟨⟨slot, written⟩, -, h⟩ := h
  dsimp only at h
  rw [if_pos henabled] at h
  cases h
  dsimp only
  have hpost : (coalesce tick pQueue.interruptVector iter { acc.1 with
      ppCQueue := Function.update acc.1.ppCQueue iter.resp.cqID (some written) }).1 = true := by
    unfold coalesce
    split
    · next hcqID =>
      dsimp only
      split
      · rfl
      · next info hfind =>
        rw [if_neg fun hholds => hunmarked ⟨hcqID, info, hfind, hholds⟩]
        split <;> rfl
    · rfl
  rw [if_pos hpost]
  exact List.mem_append_right _ (List.mem_singleton_self _)

/-- A round has every vector in its continuation that it owes a signal. -/
theorem completion_owes (hposts : s.Posts (.completion tick)) (h : s.completion tick = .ok s')
    (howes : s.Owes tick iv) : ∃ round ∈ s'.rounds, iv ∈ round.ivToPost := by
  obtain ⟨m, ivs, hpost, -, -, hrounds⟩ := completion_cases h
  have hround : s.entryToPost tick ≠ [] → iv ∈ ivs ++
      (m.aggregationMap.entries.filter fun iter => Due tick iter.2).map Prod.fst →
      ∃ round ∈ s'.rounds, iv ∈ round.ivToPost := fun hne hiv => by
    rw [if_neg hne] at hrounds
    rw [hrounds]
    exact ⟨_, List.mem_append_right _ (List.mem_singleton_self _), hiv⟩
  cases howes with
  | posted earlier later iter m' ivs' pQueue split reached queue enabled vector unmarked =>
    refine hround (by rw [split]; exact List.append_ne_nil_of_right_ne_nil _ (List.cons_ne_nil _ _))
      (List.mem_append_left _ ?_)
    rw [split, List.foldlM_append, Except.bind_eq_ok] at hpost
    obtain ⟨acc, hacc, hpost⟩ := hpost
    obtain rfl := Except.ok.inj (hacc.symm.trans reached)
    rw [List.foldlM_cons, Except.bind_eq_ok] at hpost
    obtain ⟨acc, hiter, hpost⟩ := hpost
    subst vector
    exact (foldlM_post_fields hpost).2.2 (post_vector queue enabled unmarked hiter)
  | cleared m' ivs' info reached entry pending after =>
    obtain ⟨rfl, rfl⟩ := Prod.mk.inj (Except.ok.inj (hpost.symm.trans reached))
    have hdue : Due tick info := by
      by_contra hnot
      rw [expire, if_neg hnot, pending] at after
      cases after
    refine hround (fun hnil => ?_) (List.mem_append_right _ ?_)
    · -- without an entry the map is that of `s`, where nothing enabled is pending
      rcases hposts with hne | hnone
      · exact hne hnil
      · rw [hnil] at hpost
        obtain rfl : _ = m := congrArg Prod.fst (Except.ok.inj hpost)
        exact hnone ⟨(iv, info), entry, hdue.1, pending⟩
    · exact List.mem_map.mpr ⟨(iv, info), List.mem_filter.mpr ⟨entry, decide_eq_true hdue⟩, rfl⟩

/-- The vector is signalled after the first `n` calls, or a round on its way will do it. -/
def Coming (n iv : Nat) (s : Completer) : Prop :=
  n ≤ s.interrupts.length ∧ ((iv, true) ∈ s.interrupts.drop n ∨
    ∃ round ∈ s.rounds, iv ∈ round.ivToPost)

theorem Coming.more {n : Nat} (h : Coming n iv s) {c : List (Nat × Bool)}
    (hinterrupts : s'.interrupts = s.interrupts ++ c)
    (hrounds : ∀ round ∈ s.rounds, iv ∈ round.ivToPost →
      (iv, true) ∈ c ∨ ∃ round ∈ s'.rounds, iv ∈ round.ivToPost) : Coming n iv s' := by
  obtain ⟨hle, hcoming⟩ := h
  refine ⟨by rw [hinterrupts, List.length_append]; omega, ?_⟩
  rw [hinterrupts, List.drop_append_of_le_length hle]
  rcases hcoming with hcall | ⟨round, hround, hiv⟩
  · exact .inl (List.mem_append_left _ hcall)
  · exact (hrounds round hround hiv).imp (List.mem_append_right _) id

/-- The write of an entry keeps the vectors of the rounds. -/
theorem exists_mem_set {rounds : List Round} {k : Nat} {written round : Round}
    (hk : rounds[k]? = some written) (hround : round ∈ rounds) (unwritten : List Writing) :
    ∃ round' ∈ rounds.set k { written with unwritten := unwritten },
      round'.ivToPost = round.ivToPost := by
  obtain ⟨j, hj, rfl⟩ := List.mem_iff_getElem.mp hround
  rcases eq_or_ne k j with rfl | hne
  · obtain rfl : rounds[k] = written :=
      Option.some.inj ((List.getElem?_eq_getElem hj).symm.trans hk)
    exact ⟨_, List.mem_set hj _, rfl⟩
  · refine ⟨rounds[j], List.mem_iff_getElem.mpr ⟨j, ?_, ?_⟩, rfl⟩
    · rwa [List.length_set]
    · rw [List.getElem_set_ne hne]

/-- No step loses a round, or a vector of it. -/
theorem exec_coming {n : Nat} (h : Coming n iv s) (hexec : s.exec cfg e = .ok s') :
    Coming n iv s' := by
  have hkeep : ∀ {s' : Completer}, s'.interrupts = s.interrupts → s'.rounds = s.rounds →
      Coming n iv s' := fun hinterrupts hrounds =>
    h.more (c := []) (hinterrupts.trans (List.append_nil _).symm) fun round hround hiv =>
      .inr ⟨round, hrounds ▸ hround, hiv⟩
  cases e with
  | queues command =>
    rw [exec, Except.map_eq_ok] at hexec
    obtain ⟨t, -, rfl⟩ := hexec
    refine h.more (c := []) (List.append_nil _).symm fun round hround hiv => .inr ?_
    exact ⟨round.leave t, List.mem_map_of_mem hround, hiv⟩
  | submit resp now =>
    cases hexec
    obtain ⟨-, hrounds, hinterrupts⟩ := reserveCompletion_fields { s with
      lCQFIFO := s.lCQFIFO.takeWhile (·.submitAt ≤ now) ++ ⟨resp, now⟩ ::
        s.lCQFIFO.dropWhile (·.submitAt ≤ now) } now
    exact hkeep hinterrupts hrounds
  | completion tick =>
    rw [exec] at hexec
    split at hexec
    · obtain ⟨m, ivs, hpost, -, hinterrupts, hrounds⟩ := completion_cases hexec
      obtain ⟨hmrounds, hminterrupts, -⟩ := foldlM_post_fields hpost
      refine h.more (c := []) ?_ fun round hround hiv => .inr ⟨round, ?_, hiv⟩
      · rw [List.append_nil]
        exact hinterrupts.trans hminterrupts
      · rw [hrounds, hmrounds]
        exact List.mem_append_left _ hround
    · cases hexec
  | written k j =>
    obtain ⟨written, hk, rfl⟩ := exec_written_cases hexec
    refine h.more (c := []) (List.append_nil _).symm fun round hround hiv => .inr ?_
    obtain ⟨round', hround', heq⟩ := exists_mem_set hk hround (written.unwritten.eraseIdx j)
    exact ⟨round', hround', heq ▸ hiv⟩
  | send k now =>
    obtain ⟨ended, hk, -, rfl⟩ := exec_send_cases hexec
    obtain ⟨-, hrounds, hinterrupts⟩ := reserveCompletion_fields { s with
      rounds := s.rounds.eraseIdx k
      interrupts := s.interrupts ++
        ((ended.ivToPost.insertionSort (· ≤ ·)).dedup.map fun iv => (iv, true)) } now
    refine h.more hinterrupts fun round hround hiv => ?_
    obtain ⟨j, hj⟩ := List.mem_iff_getElem?.mp hround
    rcases eq_or_ne j k with rfl | hne
    · -- the round that ends signals its vectors
      obtain rfl := Option.some.inj (hj.symm.trans hk)
      refine .inl (List.mem_map.mpr ⟨iv, List.mem_dedup.mpr ?_, rfl⟩)
      exact (List.mem_insertionSort _).mpr hiv
    · refine .inr ⟨round, ?_, hiv⟩
      show round ∈ (reserveCompletion now _).rounds
      rw [hrounds]
      exact List.mem_eraseIdx_iff_getElem?.mpr ⟨j, hne, hj⟩
  | setCoalescing iv' enable =>
    cases hexec
    unfold setCoalescing
    split
    · exact h
    · exact hkeep rfl rfl
  | setCoalescingParameter aggregationTime aggregationThreshold =>
    cases hexec
    exact hkeep rfl rfl
  | ringCQHeadDoorbell qid head =>
    cases hexec
    obtain ⟨queues, c, hring⟩ := ringCQHeadDoorbell_cases s cfg.cqsize qid head
    rw [hring]
    exact h.more rfl fun round hround hiv => .inr ⟨round, hround, hiv⟩

/-- The oldest round can come to its end. -/
theorem exists_run_send (cfg : QueueConfig) {ws : List Writing} {ivs : List Nat}
    {rest : List Round} (h : s.rounds = ⟨ws, ivs⟩ :: rest) (hws : ∀ w ∈ ws, w.deleted = false) :
    ∃ (later : List Event) (s' : Completer), later.foldlM (exec cfg) s = .ok s' ∧
      s'.rounds = rest := by
  induction ws generalizing s with
  | nil =>
    refine ⟨[.send 0 0], send 0 ⟨[], ivs⟩ { s with rounds := s.rounds.eraseIdx 0 }, ?_, ?_⟩
    · rw [List.foldlM_cons, exec, h]
      rfl
    · rw [h]
      exact (reserveCompletion_fields _ 0).2.1
  | cons w ws ih =>
    obtain ⟨later, s', hlater, hrest⟩ := ih (s := { s with rounds := ⟨ws, ivs⟩ :: rest }) rfl
      fun w' hw' => hws w' (List.mem_cons_of_mem w hw')
    refine ⟨.written 0 0 :: later, s', ?_, hrest⟩
    rw [List.foldlM_cons, exec, h]
    simp only [List.getElem?_cons_zero, hws w List.mem_cons_self]
    exact hlater

/-- All rounds can come to their end. -/
theorem exists_run_ended (cfg : QueueConfig) (hs : s.Writable) :
    ∃ (later : List Event) (s' : Completer), later.foldlM (exec cfg) s = .ok s' ∧
      s'.rounds = [] := by
  unfold Writable unwritten at hs
  generalize hrounds : s.rounds = rounds at hs
  induction rounds generalizing s with
  | nil => exact ⟨[], s, rfl, hrounds⟩
  | cons round rest ih =>
    rw [List.flatMap_cons] at hs
    obtain ⟨first, m, hfirst, hrest⟩ := exists_run_send cfg hrounds fun w hw =>
      hs w (List.mem_append_left _ hw)
    obtain ⟨later, s', hlater, hended⟩ := ih hrest fun w hw => hs w (List.mem_append_right _ hw)
    refine ⟨first ++ later, s', ?_, hended⟩
    rw [List.foldlM_append, hfirst]
    exact hlater

theorem not_pends_start (cqEntries sqEntries : Nat) : ¬ (start cqEntries sqEntries).Pends := by
  rintro ⟨iter, hiter, -⟩
  cases hiter

end Steps

/-- In every run in which no round that writes no entry finds an enabled entry pending: while
one is pending the event is scheduled, or a round is on its way that schedules it. What a
round owes a signal has been signalled when the rounds have ended, as they can while the queues of
their entries are there. -/
theorem run_signalled (cfg : QueueConfig) (cqEntries sqEntries : Nat) (events : List Event)
    {s : Completer} (hposts : Run.Along (exec cfg) Posts (start cqEntries sqEntries) events)
    (hrun : events.foldlM (exec cfg) (start cqEntries sqEntries) = .ok s) :
    s.Reserved ∧
      (s.Writable → ∃ (later : List Event) (s' : Completer),
        later.foldlM (exec cfg) s = .ok s' ∧ s'.rounds = []) ∧
      ∀ tick s₁, s.Posts (.completion tick) → s.exec cfg (.completion tick) = .ok s₁ →
        ∀ iv, s.Owes tick iv → ∀ (later : List Event) (s₂ : Completer),
          later.foldlM (exec cfg) s₁ = .ok s₂ → s₂.rounds = [] →
            (iv, true) ∈ s₂.interrupts.drop s₁.interrupts.length := by
  refine ⟨?_, exists_run_ended cfg, fun tick s₁ hpost hexec iv howes later s₂ hlater hended => ?_⟩
  · refine hposts.foldlM_inv (I := Reserved) (fun m e m' hm hpost hexec => ?_) ?_ hrun
    · exact exec_reserved hm hpost hexec
    · exact fun hpends => absurd hpends (not_pends_start cqEntries sqEntries)
  · have hround : Coming s₁.interrupts.length iv s₁ := by
      rw [exec] at hexec
      split at hexec
      · exact ⟨Nat.le_refl _, .inr (completion_owes hpost hexec howes)⟩
      · cases hexec
    have hcoming : Coming s₁.interrupts.length iv s₂ :=
      Run.foldlM_inv (I := Coming s₁.interrupts.length iv)
        (fun m e m' hm hexec => exec_coming hm hexec) hround hlater
    rcases hcoming.2 with hcall | ⟨round, hmem, -⟩
    · exact hcall
    · rw [hended] at hmem
      cases hmem

/-- A completion queue with interrupts, whose vector is coalesced. -/
def coalesced : List Event :=
  [.queues (.createCQueue ⟨0, 0, 0, 0, 0, 0x3f0001, 0x10003, 0, 0, 0, 0, 0, 0, false⟩ ⟨0, false⟩),
    .setCoalescingParameter 100 8, .setCoalescing 1 true]

/-- A command of submission queue 1 completes. -/
def completed (now : Nat) : Event :=
  .submit { CQEntryWrapper.new ⟨0, 0, 0, 0, 0, 0, 0, 0, 0, 0, 0, 0, 0, false⟩ with cqID := 1 } now

/-- The first entry is not held back. -/
theorem run_signalled_coalesced : ∃ s s₁ s₂ : Completer,
    (coalesced ++ [completed 5]).foldlM (exec QueueTable.smallConfig) (start 64 64) = .ok s ∧
      s.exec QueueTable.smallConfig (.completion 5) = .ok s₁ ∧
      [.written 0 0, .send 0 6].foldlM (exec QueueTable.smallConfig) s₁ = .ok s₂ ∧
      s.Reserved ∧ (1, true) ∈ s₂.interrupts.drop s₁.interrupts.length := by
  obtain ⟨hreserved, -, hsignalled⟩ := run_signalled QueueTable.smallConfig 64 64
    (coalesced ++ [completed 5]) (by decide) rfl
  refine ⟨_, _, _, rfl, rfl, rfl, hreserved, ?_⟩
  refine hsignalled 5 _ (by decide) rfl 1 ?_ [.written 0 0, .send 0 6] _ rfl rfl
  refine .posted [] [] _ _ _ _ rfl rfl rfl rfl rfl ?_
  rintro ⟨-, info, hfind, hholds⟩
  obtain rfl := Option.some.inj hfind
  exact absurd hholds (by decide)

/-- The second entry is held back. Until its round ends, its interrupt is pending without an
event. -/
theorem not_reserved_in_round : ∃ s,
    (coalesced ++ [completed 5, .completion 5, .written 0 0, .send 0 6, completed 10,
      .completion 10]).foldlM (exec QueueTable.smallConfig) (start 64 64) = .ok s ∧
      s.Pends ∧ s.completionEvent = none :=
  Except.exists_of_map (p := fun s : Completer => s.Pends ∧ s.completionEvent = none)
    (by decide +kernel)

end Completer

end SimpleSSD.HIL.NVMe
