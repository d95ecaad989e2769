import SimpleSSD.HIL.NVMe.Pipeline

/-!
# The commands of a deleted queue (hil/nvme/controller.cc:593–625 and 1657–1679)

`deleteSQueue` aborts the commands of the queue that wait in `lSQFIFO`. Its loop erases a
command and then steps over the one behind it, which is lost when it belongs to the same
queue; and when there is none, the loop steps over the end of the list.
-/

namespace SimpleSSD.HIL.NVMe

namespace Pipeline

open QueueTable (access submitQueue)

/-- `deleteSQueue` (controller.cc:593–625). -/
def deleteSQueue (cfg : QueueConfig) (sqid now : Nat) (s : Pipeline) :
    Except Fault (Nat × Pipeline) := do
  let s ← s.leaveSQueue cfg sqid now
  let (ret, t) ← QueueTable.deleteSQueue cfg sqid s.toQueueTable
  .ok (ret, s.setQueues t)

/-- What waits in `lCQFIFO` for an aborted command. -/
def aborted (sqHead now : Nat) (iter : SQEntryWrapper) : WaitingEntry :=
  ⟨abortResp iter sqHead .abortDueToSqDelete, now⟩

/-- The commands of the queue are gone, each with one answer, and the others are left. -/
structure Aborts (sqid sqHead now : Nat) (s s' : Pipeline) : Prop where
  lSQFIFO : s'.lSQFIFO = s.lSQFIFO.filter (·.sqID ≠ sqid)
  lCQFIFO : s'.lCQFIFO.Perm
    ((s.lSQFIFO.filter (·.sqID = sqid)).map (aborted sqHead now) ++ s.lCQFIFO)
  deleted : s'.ppSQueue sqid = none

/-- Behind every command of the queue stands one of another queue. -/
def Followed (sqid : Nat) (lSQFIFO : List SQEntryWrapper) : Prop :=
  ∀ k iter, lSQFIFO[k]? = some iter → iter.sqID = sqid →
    ∃ next, lSQFIFO[k + 1]? = some next ∧ next.sqID ≠ sqid

/-- The commands of the queue find the queues that they are completed in. -/
def Answerable (cfg : QueueConfig) (sqid : Nat) (t : QueueTable) (lSQFIFO : List SQEntryWrapper) :
    Prop :=
  ∀ iter ∈ lSQFIFO, iter.sqID = sqid → ∃ pQueue, submitQueue cfg t iter.cqID = .ok pQueue

section Abort

variable {cfg : QueueConfig} {sqid sqHead now : Nat} {iter next : SQEntryWrapper}
  {l left : List SQEntryWrapper} {c c' : Completer} {t : QueueTable}

theorem followed_nil (sqid : Nat) : Followed sqid [] := fun _ _ h => by cases h

theorem followed_cons : Followed sqid (iter :: l) ↔
    (iter.sqID = sqid → ∃ next, l[0]? = some next ∧ next.sqID ≠ sqid) ∧ Followed sqid l := by
  constructor
  · intro h
    exact ⟨fun hiter => h 0 iter rfl hiter, fun k => h (k + 1)⟩
  · rintro ⟨hfirst, hrest⟩ k iter' hk hiter
    cases k with
    | zero =>
      obtain rfl := Option.some.inj hk
      exact hfirst hiter
    | succ k => exact hrest k iter' hk hiter

/-- A command of another queue changes nothing. -/
theorem followed_cons_of_ne (hiter : iter.sqID ≠ sqid) :
    Followed sqid (iter :: l) ↔ Followed sqid l := by
  rw [followed_cons, and_iff_right fun h => absurd h hiter]

theorem answerable_cons : Answerable cfg sqid t (iter :: l) ↔
    (iter.sqID = sqid → ∃ pQueue, submitQueue cfg t iter.cqID = .ok pQueue) ∧
      Answerable cfg sqid t l :=
  List.forall_mem_cons

theorem answerable_cons_of_ne (hiter : iter.sqID ≠ sqid) :
    Answerable cfg sqid t (iter :: l) ↔ Answerable cfg sqid t l := by
  rw [answerable_cons, and_iff_right fun h => absurd h hiter]

/-- An answer is only submitted to a queue that is found, and changes no queue. -/
theorem submit_inv {resp : CQEntryWrapper} (h : submit cfg resp now c = .ok c') :
    (∃ pQueue, submitQueue cfg c.toQueueTable resp.cqID = .ok pQueue) ∧
      c'.toQueueTable = c.toQueueTable := by
  rw [submit] at h
  cases hqueue : submitQueue cfg c.toQueueTable resp.cqID with
  | error fault =>
    rw [hqueue] at h
    cases h
  | ok pQueue =>
    rw [hqueue] at h
    cases h
    exact ⟨⟨pQueue, rfl⟩, toQueueTable_submit resp now c⟩

/-- The loop leaves the queues as they are. -/
theorem toQueueTable_abortAll :
    ∀ {l left : List SQEntryWrapper} {c : Completer},
      abortAll cfg sqid sqHead now l c = .ok (left, c') → c'.toQueueTable = c.toQueueTable
  | [], _, _, h => by
    cases h
    rfl
  | iter :: l, left, c, h => by
    rw [abortAll] at h
    split at h
    · obtain ⟨c₁, hsubmit, h⟩ := Except.bind_eq_ok.mp h
      cases l with
      | nil => cases h
      | cons next l =>
        obtain ⟨⟨left', c''⟩, habort, h⟩ := Except.bind_eq_ok.mp h
        cases h
        exact (toQueueTable_abortAll habort).trans (submit_inv hsubmit).2
    · obtain ⟨⟨left', c''⟩, habort, h⟩ := Except.bind_eq_ok.mp h
      cases h
      exact toQueueTable_abortAll habort

/-- When the loop comes to its end with no command of the queue left, none stood behind another
or at the end. -/
theorem followed_of_abortAll :
    ∀ {l left : List SQEntryWrapper} {c : Completer},
      abortAll cfg sqid sqHead now l c = .ok (left, c') → (∀ iter ∈ left, iter.sqID ≠ sqid) →
        Followed sqid l ∧ Answerable cfg sqid c.toQueueTable l
  | [], _, _, _, _ => ⟨followed_nil sqid, fun _ h => by cases h⟩
  | iter :: l, left, c, h, hleft => by
    rw [abortAll] at h
    split at h
    · obtain ⟨c₁, hsubmit, h⟩ := Except.bind_eq_ok.mp h
      obtain ⟨hqueue, htable⟩ := submit_inv hsubmit
      cases l with
      | nil => cases h
      | cons next l =>
        obtain ⟨⟨left', c''⟩, habort, h⟩ := Except.bind_eq_ok.mp h
        cases h
        have hnext := hleft next List.mem_cons_self
        obtain ⟨hfollowed, hanswerable⟩ := followed_of_abortAll habort fun iter hiter =>
          hleft iter (List.mem_cons_of_mem next hiter)
        rw [htable] at hanswerable
        exact ⟨followed_cons.mpr ⟨fun _ => ⟨next, rfl, hnext⟩,
            (followed_cons_of_ne hnext).mpr hfollowed⟩,
          answerable_cons.mpr ⟨fun _ => hqueue, (answerable_cons_of_ne hnext).mpr hanswerable⟩⟩
    · next hiter =>
      obtain ⟨⟨left', c''⟩, habort, h⟩ := Except.bind_eq_ok.mp h
      cases h
      obtain ⟨hfollowed, hanswerable⟩ := followed_of_abortAll habort fun iter hiter =>
        hleft iter (List.mem_cons_of_mem _ hiter)
      exact ⟨(followed_cons_of_ne hiter).mpr hfollowed,
        (answerable_cons_of_ne hiter).mpr hanswerable⟩

/-- The loop aborts all commands of the queue when another one stands behind each of them. -/
theorem abortAll_of_followed :
    ∀ {l : List SQEntryWrapper} {c : Completer}, Followed sqid l →
      Answerable cfg sqid c.toQueueTable l →
        ∃ c', abortAll cfg sqid sqHead now l c = .ok (l.filter (·.sqID ≠ sqid), c') ∧
          c'.lCQFIFO.Perm ((l.filter (·.sqID = sqid)).map (aborted sqHead now) ++ c.lCQFIFO)
  | [], c, _, _ => ⟨c, rfl, List.Perm.refl _⟩
  | iter :: l, c, hfollowed, hanswerable => by
    rw [abortAll]
    by_cases hiter : iter.sqID = sqid
    · rw [if_pos hiter]
      obtain ⟨hfirst, hfollowed⟩ := followed_cons.mp hfollowed
      obtain ⟨hqueue, hanswerable⟩ := answerable_cons.mp hanswerable
      obtain ⟨next, hhead, hnext⟩ := hfirst hiter
      obtain ⟨pQueue, hqueue⟩ := hqueue hiter
      have hsubmit := @submit_eq_ok cfg c (abortResp iter sqHead .abortDueToSqDelete) pQueue now
        hqueue
      rw [hsubmit, Except.ok_bind]
      cases l with
      | nil => cases hhead
      | cons next' l =>
        -- the loop goes on behind `next`, which is of another queue
        obtain rfl := Option.some.inj hhead
        obtain ⟨c', habort, hperm⟩ := @abortAll_of_followed l
          (c.submit (abortResp iter sqHead .abortDueToSqDelete) now)
          ((followed_cons_of_ne hnext).mp hfollowed) (by
            rw [toQueueTable_submit]
            exact (answerable_cons_of_ne hnext).mp hanswerable)
        refine ⟨c', ?_, ?_⟩
        · dsimp only
          rw [habort, List.filter_cons_of_neg (by simpa using hiter),
            List.filter_cons_of_pos (by simpa using hnext)]
          rfl
        · rw [List.filter_cons_of_pos (by simpa using hiter),
            List.filter_cons_of_neg (by simpa using hnext)]
          exact (hperm.trans ((perm_submit _ now c).append_left _)).trans List.perm_middle
    · rw [if_neg hiter]
      obtain ⟨c', habort, hperm⟩ := abortAll_of_followed ((followed_cons_of_ne hiter).mp hfollowed)
        ((answerable_cons_of_ne hiter).mp hanswerable)
      refine ⟨c', ?_, ?_⟩
      · rw [habort, List.filter_cons_of_pos (by simpa using hiter)]
        rfl
      · rw [List.filter_cons_of_neg (by simpa using hiter)]
        exact hperm

end Abort

section Delete

variable {cfg : QueueConfig} {sqid now : Nat} {s s' : Pipeline} {pQueue : SQueue}

/-- `leaveSQueue` of a live queue runs the loop. -/
theorem leaveSQueue_eq (hsqid : sqid < cfg.sqsize) (hpos : 0 < sqid)
    (hlive : s.ppSQueue sqid = some pQueue) : s.leaveSQueue cfg sqid now =
      (abortAll cfg sqid pQueue.head now s.lSQFIFO s.toCompleter).map fun r => { s with
        toCompleter := r.2
        lSQFIFO := r.1
        reading := s.reading.map fun r =>
          if r.sqid = sqid then { r with deleted := true } else r } := by
  rw [leaveSQueue, access, if_pos hsqid, Except.ok_bind, hlive]
  dsimp only
  rw [if_neg (by omega)]
  cases abortAll cfg sqid pQueue.head now s.lSQFIFO s.toCompleter <;> rfl

/-- The deletion of a live queue is its loop and the queue taken out. -/
theorem deleteSQueue_eq_ok (hsqid : sqid < cfg.sqsize) (hpos : 0 < sqid)
    (hlive : s.ppSQueue sqid = some pQueue) {ret : Nat} :
    s.deleteSQueue cfg sqid now = .ok (ret, s') ↔
      ∃ left c, abortAll cfg sqid pQueue.head now s.lSQFIFO s.toCompleter = .ok (left, c) ∧
        ret = 0 ∧ s' = setQueues { c.toQueueTable with
            ppSQueue := Function.update c.ppSQueue sqid none } { s with
          toCompleter := c
          lSQFIFO := left
          reading := s.reading.map fun r =>
            if r.sqid = sqid then { r with deleted := true } else r } := by
  rw [deleteSQueue, leaveSQueue_eq hsqid hpos hlive]
  cases habort : abortAll cfg sqid pQueue.head now s.lSQFIFO s.toCompleter with
  | error fault =>
    constructor
    · intro h
      cases h
    · rintro ⟨left, c, h, -⟩
      cases h
  | ok r =>
    obtain ⟨left, c⟩ := r
    have hqueue : c.ppSQueue sqid = some pQueue := by
      rw [toQueueTable_abortAll habort]
      exact hlive
    rw [Except.map, Except.ok_bind]
    dsimp only
    rw [QueueTable.deleteSQueue, access, if_pos hsqid, Except.ok_bind, hqueue,
      if_pos ⟨Option.some_ne_none pQueue, hpos⟩]
    constructor
    · intro h
      cases h
      exact ⟨left, c, rfl, rfl, rfl⟩
    · rintro ⟨left', c', h, rfl, rfl⟩
      cases h
      rfl

end Delete

/-- Deleting a live submission queue aborts its commands, and only them, exactly when behind
each of them stands a command of another queue and its completion queue is there. -/
theorem deleteSQueue_aborts_iff (cfg : QueueConfig) (sqid now : Nat) (s : Pipeline)
    (pQueue : SQueue) (hsqid : sqid < cfg.sqsize) (hpos : 0 < sqid)
    (hlive : s.ppSQueue sqid = some pQueue) :
    (∃ s', s.deleteSQueue cfg sqid now = .ok (0, s') ∧ Aborts sqid pQueue.head now s s') ↔
      Followed sqid s.lSQFIFO ∧ Answerable cfg sqid s.toQueueTable s.lSQFIFO := by
  constructor
  · rintro ⟨s', hdelete, haborts⟩
    obtain ⟨left, c, habort, -, rfl⟩ := (deleteSQueue_eq_ok hsqid hpos hlive).mp hdelete
    refine followed_of_abortAll habort fun iter hiter => ?_
    have hleft : left = s.lSQFIFO.filter (·.sqID ≠ sqid) := haborts.lSQFIFO
    rw [hleft] at hiter
    exact of_decide_eq_true (List.mem_filter.mp hiter).2
  · rintro ⟨hfollowed, hanswerable⟩
    obtain ⟨c, habort, hperm⟩ := @abortAll_of_followed cfg sqid pQueue.head now s.lSQFIFO
      s.toCompleter hfollowed hanswerable
    exact ⟨_, (deleteSQueue_eq_ok hsqid hpos hlive).mpr ⟨_, c, habort, rfl, rfl⟩, rfl, hperm,
      Function.update_self _ _ _⟩

/-! ### An instance -/

/-- Commands of the queues `sqIDs` wait, and queue 1 is live. -/
def waiting (sqIDs : List Nat) : Pipeline :=
  { start 64 64 with
    ppSQueue := Function.update (start 64 64).ppSQueue 1 (some ⟨⟨1, 0, 0, 64⟩, 0, .urgent⟩)
    lSQFIFO := sqIDs.map fun sqID => { QueueTable.queueCommand 0 0 with sqID } }

theorem followed_waiting : Followed 1 (waiting [1, 2, 1, 0]).lSQFIFO := by
  refine followed_cons.mpr ⟨fun _ => ⟨_, rfl, by decide⟩, ?_⟩
  refine (followed_cons_of_ne (by decide)).mpr ?_
  refine followed_cons.mpr ⟨fun _ => ⟨_, rfl, by decide⟩, ?_⟩
  exact (followed_cons_of_ne (by decide)).mpr (followed_nil 1)

theorem deleteSQueue_aborts_waiting :
    ∃ s', (waiting [1, 2, 1, 0]).deleteSQueue QueueTable.smallConfig 1 7 = .ok (0, s') ∧
      Aborts 1 0 7 (waiting [1, 2, 1, 0]) s' := by
  refine (deleteSQueue_aborts_iff QueueTable.smallConfig 1 7 (waiting [1, 2, 1, 0])
    ⟨⟨1, 0, 0, 64⟩, 0, .urgent⟩ (by decide) (by decide) rfl).mpr ⟨followed_waiting, ?_⟩
  intro iter hiter _
  obtain ⟨sqID, -, rfl⟩ := List.mem_map.mp hiter
  exact ⟨_, rfl⟩

/-- The second of two commands in a row is left. -/
theorem not_aborts_in_a_row :
    ¬ ∃ s', (waiting [1, 1, 0]).deleteSQueue QueueTable.smallConfig 1 7 = .ok (0, s') ∧
      Aborts 1 0 7 (waiting [1, 1, 0]) s' := by
  rintro ⟨s', hdelete, haborts⟩
  obtain ⟨left, c, habort, -, rfl⟩ := (deleteSQueue_eq_ok (by decide) (by decide) rfl).mp hdelete
  have hleft : left = (waiting [1, 1, 0]).lSQFIFO.filter (·.sqID ≠ 1) := haborts.lSQFIFO
  have hskipped := (followed_of_abortAll habort fun iter hiter => by
    rw [hleft] at hiter
    exact of_decide_eq_true (List.mem_filter.mp hiter).2).1
  obtain ⟨next, hnext, hne⟩ := hskipped 0 _ rfl rfl
  obtain rfl := Option.some.inj hnext
  exact hne rfl

end Pipeline

end SimpleSSD.HIL.NVMe
