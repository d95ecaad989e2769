import SimpleSSD.HIL.NVMe.Pipeline

/-!
# Commands and the deletion of their queues

When nothing else of a queue is in the stages by the time it is deleted, and every command is
answered once, the queues are there when they are needed, the commands that were fetched are
those on their way and those with a completion entry, and those on their way can get theirs
(`run_completes`).

`Flow` follows the commands through a step: their completion queues are there, and a ticket that
leaves the commands on their way comes to the entries. `Inv` adds what the stages remember of
queues. Each step has a lemma that gives both of the state behind it.
-/

namespace SimpleSSD.HIL.NVMe

namespace Pipeline

open QueueTable (access qid entrySize highHalf)

/-! ### What should hold -/

/-- The commands on their way. -/
def inFlight (s : Pipeline) : List SQEntryWrapper :=
  s.lSQFIFO ++ s.submitted ++ s.executing.map (·.toSQEntryWrapper)

/-- The completion entries, waiting or posted. -/
def completed (s : Pipeline) : List Ticket := s.lCQFIFO.map (·.resp.ticket) ++ s.posted

/-- The commands that were fetched are those on their way and those with a completion entry, and
no command has two. -/
def Accounted (s : Pipeline) : Prop :=
  s.fetched.Perm (s.inFlight.map SQEntryWrapper.ticket ++ s.completed)

instance (s : Pipeline) : Decidable s.Accounted := inferInstanceAs (Decidable (List.Perm _ _))

/-- The commands are accounted for, before the step and after it, and it lacks no queue. -/
structure Sound (cfg : QueueConfig) (s : Pipeline) (e : Event) : Prop where
  before : s.Accounted
  after : (exec cfg s e).Sat Accounted fun fault => ¬ LacksQueue fault

instance (cfg : QueueConfig) (s : Pipeline) (e : Event) : Decidable (Sound cfg s e) :=
  decidable_of_iff (s.Accounted ∧ (exec cfg s e).Sat Accounted fun fault => ¬ LacksQueue fault)
    ⟨fun ⟨before, after⟩ => ⟨before, after⟩, fun ⟨before, after⟩ => ⟨before, after⟩⟩

/-- The commands of a queue at the end of `lSQFIFO`. -/
def trailing (sqid : Nat) (lSQFIFO : List SQEntryWrapper) : Nat :=
  (lSQFIFO.reverse.takeWhile (·.sqID = sqid)).length

/-- A submission queue that is deleted has no entry that is being read, and not an odd number of
commands at the end of `lSQFIFO`; a completion queue that is deleted has no command on its way, no
entry that waits and none that is still to be written. The creation of either has been answered. A
queue is created only where there is none, a submission queue for a completion queue that is there
and whose creation has been answered. -/
def Fits (cfg : QueueConfig) (s : Pipeline) : QueueTable.Command → Prop
  | .deleteSQueue req => (s.ppSQueue (qid req)).isSome = true → 0 < qid req →
      (∀ r ∈ s.reading, r.sqid ≠ qid req) ∧ trailing (qid req) s.lSQFIFO % 2 = 0 ∧
        ∀ x ∈ s.executing, x.memory ≠ .squeue (qid req)
  | .createSQueue req => entrySize req ≤ cfg.maxQueueEntry →
      s.ppSQueue (qid req) = none ∧ (s.ppCQueue (highHalf req)).isSome = true ∧
        ∀ x ∈ s.executing, x.memory ≠ .cqueue (highHalf req)
  | .deleteCQueue req => 0 < qid req → (∀ i, ¬ s.Uses (qid req) i) →
      (∀ req' ∈ s.inFlight, req'.cqID ≠ qid req) ∧
        (∀ iter ∈ s.lCQFIFO, iter.resp.cqID ≠ qid req) ∧
        (∀ w ∈ s.unwritten, w.cqID ≠ qid req) ∧ ∀ x ∈ s.executing, x.memory ≠ .cqueue (qid req)
  | .createCQueue req _ => entrySize req ≤ cfg.maxQueueEntry → s.ppCQueue (qid req) = none

/-- A command on queues finds the tables as it needs them, and the queue of a command that is
aborted is still there. The command is answered once. -/
structure FitsCommand (cfg : QueueConfig) (s : Pipeline) (w : QueueTable.Open)
    (req : SQEntryWrapper) : Prop where
  queues : ∀ c, command? req w = some c → QueueTable.Clear cfg s.toQueueTable c ∧ Fits cfg s c
  abort : IsAbort req → ∀ iter ∈ s.lSQFIFO, iter.sqID = (abortTarget req).1 →
    iter.commandID = (abortTarget req).2 → (s.ppSQueue iter.sqID).isSome = true
  once : ¬ AnswersTwice req ∧ ¬ AnswersNever req

/-- No command comes to the subsystem that does not find the queues as it needs them. -/
def Safe (cfg : QueueConfig) (s : Pipeline) : Event → Prop
  | .submitCommand k _ w => ∀ req, s.submitted[k]? = some req → FitsCommand cfg s w req
  | _ => True

/-- The commands of `lSQFIFO` have all been taken from it. -/
def drained (s : Pipeline) : Pipeline :=
  { s with lSQFIFO := [], submitted := s.submitted ++ s.lSQFIFO }

/-- The command is in the subsystem, or finds the queues as it needs them when it comes there. -/
def Completable (cfg : QueueConfig) (s : Pipeline) (req : SQEntryWrapper) : Prop :=
  (∃ x ∈ s.executing, x.toSQEntryWrapper = req) ∨
    ∃ w, FitsCommand cfg s.drained w req

/-- The run can go on, with safe steps that fetch nothing, until the command has a completion
entry more. -/
def CanComplete (cfg : QueueConfig) (s : Pipeline) (req : SQEntryWrapper) : Prop :=
  ∃ s', Run.Reaches (exec cfg) (Safe cfg) s s' ∧ s'.fetched = s.fetched ∧
    (req.ticket :: s.completed).Subperm s'.completed

/-- The commands in `flight`, the entries that wait and those that are posted are what was
fetched, and find their completion queues. -/
structure Flow (cfg : QueueConfig) (c : Completer) (flight : List SQEntryWrapper)
    (fetched posted : List Ticket) : Prop where
  linked : QueueTable.Linked cfg c.toQueueTable
  commands : ∀ req ∈ flight, (c.ppCQueue req.cqID).isSome = true
  waiting : ∀ iter ∈ c.lCQFIFO, (c.ppCQueue iter.resp.cqID).isSome = true
  writing : ∀ w ∈ c.unwritten, w.deleted = false ∧ (c.ppCQueue w.cqID).isSome = true
  accounted : fetched.Perm
    (flight.map SQEntryWrapper.ticket ++ (c.lCQFIFO.map (·.resp.ticket) ++ posted))

/-- The queue of an entry that is being read is there. -/
def Readable (reading : List Reading) (t : QueueTable) : Prop :=
  ∀ r ∈ reading, r.deleted = false ∧ (t.ppSQueue r.sqid).isSome = true

/-- The queue that a creation was for is there. -/
def Held (t : QueueTable) : Memory → Prop
  | .none => True
  | .squeue i => (t.ppSQueue i).isSome = true
  | .cqueue i => (t.ppCQueue i).isSome = true
  | .freed => False

/-- What every step keeps, with these commands on their way. -/
structure Inv (cfg : QueueConfig) (s : Pipeline) (flight : List SQEntryWrapper) : Prop where
  flow : Flow cfg s.toCompleter flight s.fetched s.posted
  reading : Readable s.reading s.toQueueTable
  memory : ∀ x ∈ s.executing, Held s.toQueueTable x.memory

/-- Some commands have left the others. -/
def Leaves (flight flight' : List SQEntryWrapper) : Prop := ∃ gone, flight.Perm (flight' ++ gone)

/-- Of the commands in `flight` this one has been answered. -/
def Answered (req : SQEntryWrapper) (flight : List SQEntryWrapper) (s' : Pipeline) : Prop :=
  Leaves flight (req :: s'.inFlight)

/-- It has been answered, or is in the subsystem. -/
def Handled (req : SQEntryWrapper) (flight : List SQEntryWrapper) (s' : Pipeline) : Prop :=
  Answered req flight s' ∨ Leaves flight s'.inFlight ∧ ∃ x ∈ s'.executing, x.toSQEntryWrapper = req

/-- A step comes to such a state, fetches nothing and keeps the invariant. -/
def Keeps (cfg : QueueConfig) (fetched : List Ticket) (done : Pipeline → Prop)
    (r : Except Fault Pipeline) : Prop :=
  ∃ s', r = .ok s' ∧ Inv cfg s' s'.inFlight ∧ s'.fetched = fetched ∧ done s'

/-! ### The flow of commands -/

section Flow

variable {cfg : QueueConfig} {c c' : Completer} {flight : List SQEntryWrapper}
  {fetched posted : List Ticket} {now tick : Nat}

theorem ticket_cqID {req : SQEntryWrapper} {resp : CQEntryWrapper}
    (h : resp.ticket = req.ticket) : resp.cqID = req.cqID := congrArg Ticket.cqID h

/-- The order of the commands does not matter. -/
theorem Flow.perm (h : Flow cfg c flight fetched posted) {flight' : List SQEntryWrapper}
    (hperm : flight.Perm flight') : Flow cfg c flight' fetched posted :=
  ⟨h.linked, fun req hreq => h.commands req (hperm.mem_iff.mpr hreq), h.waiting, h.writing,
    h.accounted.trans ((hperm.map _).append_right _)⟩

/-- Nothing changes for the commands when the same queues are there. -/
theorem Flow.same (h : Flow cfg c flight fetched posted) (c' : Completer)
    (hsame : SameQueues c.toQueueTable c'.toQueueTable) (hwait : c'.lCQFIFO = c.lCQFIFO)
    (hwrite : c'.unwritten ⊆ c.unwritten) : Flow cfg c' flight fetched posted := by
  refine ⟨hsame.linked h.linked, fun req hreq => ?_, fun iter hiter => ?_, fun w hw => ?_, ?_⟩
  · rw [hsame.isSome_cqueue]
    exact h.commands req hreq
  · rw [hsame.isSome_cqueue]
    rw [hwait] at hiter
    exact h.waiting iter hiter
  · rw [hsame.isSome_cqueue]
    exact h.writing w (hwrite hw)
  · rw [hwait]
    exact h.accounted

/-- A command on its way is answered. -/
theorem Flow.submit {req : SQEntryWrapper} (h : Flow cfg c (req :: flight) fetched posted)
    (resp : CQEntryWrapper) (hticket : resp.ticket = req.ticket) (now : Nat) :
    ∃ c', submit cfg resp now c = .ok c' ∧ c'.toQueueTable = c.toQueueTable ∧
      Flow cfg c' flight fetched posted := by
  have hqueue : (c.ppCQueue resp.cqID).isSome = true := by
    rw [ticket_cqID hticket]
    exact h.commands req List.mem_cons_self
  obtain ⟨c', hsubmit, htable, hrounds, hwait⟩ := submit_spec h.linked hqueue now
  refine ⟨c', hsubmit, htable, ?_, fun req' hreq' => ?_, fun iter hiter => ?_, fun w hw => ?_, ?_⟩
  · rw [htable]
    exact h.linked
  · rw [htable]
    exact h.commands req' (List.mem_cons_of_mem req hreq')
  · rw [htable]
    rcases List.mem_cons.mp (hwait.mem_iff.mp hiter) with rfl | hiter
    · exact hqueue
    · exact h.waiting iter hiter
  · rw [htable]
    rw [Completer.unwritten, hrounds] at hw
    exact h.writing w hw
  · -- the ticket moves from the commands to the entries
    have hentries : (c'.lCQFIFO.map (·.resp.ticket) ++ posted).Perm
        (req.ticket :: (c.lCQFIFO.map (·.resp.ticket) ++ posted)) := by
      refine ((hwait.map (·.resp.ticket)).append_right posted).trans ?_
      rw [List.map_cons, List.cons_append]
      dsimp only
      rw [hticket]
    refine h.accounted.trans ?_
    rw [List.map_cons, List.cons_append]
    exact List.perm_middle.symm.trans (hentries.symm.append_left _)

/-- A round is to write the entries that it takes. -/
theorem unwritten_completion (h : c.completion tick = .ok c') {w : Writing}
    (hw : w ∈ c'.unwritten) :
    w ∈ c.unwritten ∨ ∃ iter ∈ c.entryToPost tick, w = ⟨iter.resp.cqID, false⟩ := by
  obtain ⟨m, ivs, hpost, -, -, hrounds⟩ := Completer.completion_cases h
  rw [Completer.unwritten, hrounds, (Completer.foldlM_post_fields hpost).1, List.flatMap_append,
    List.mem_append] at hw
  rcases hw with hw | hw
  · exact .inl hw
  · split at hw
    · cases hw
    · rw [List.flatMap_singleton, List.mem_map] at hw
      obtain ⟨iter, hiter, rfl⟩ := hw
      exact .inr ⟨iter, hiter, rfl⟩

/-- A round posts what it takes. -/
theorem Flow.completion (h : Flow cfg c flight fetched posted) (tick : Nat) :
    (c.completion tick).Sat
      (fun c' => SameQueues c.toQueueTable c'.toQueueTable ∧ Flow cfg c' flight fetched
        (posted ++ (c.entryToPost tick).map (·.resp.ticket)))
      fun fault => ¬ LacksQueue fault := by
  refine (completion_spec h.waiting).with_eq.mono (fun c' ⟨⟨hsame, hwait⟩, hround⟩ =>
    ⟨hsame, ?_⟩) fun _ h => h
  refine ⟨hsame.linked h.linked, fun req hreq => ?_, fun iter hiter => ?_, fun w hw => ?_, ?_⟩
  · rw [hsame.isSome_cqueue]
    exact h.commands req hreq
  · rw [hsame.isSome_cqueue]
    rw [hwait] at hiter
    exact h.waiting iter (List.mem_filter.mp hiter).1
  · rw [hsame.isSome_cqueue]
    rcases unwritten_completion hround hw with hw | ⟨iter, hiter, rfl⟩
    · exact h.writing w hw
    · exact ⟨rfl, h.waiting iter (List.mem_filter.mp hiter).1⟩
  · have hsplit : (c.entryToPost tick ++ c.lCQFIFO.filter fun iter => ¬ iter.submitAt ≤ tick).Perm
        c.lCQFIFO := by
      simpa only [Completer.entryToPost, decide_not] using
        List.filter_append_perm (fun iter : WaitingEntry => iter.submitAt ≤ tick) c.lCQFIFO
    refine h.accounted.trans (List.Perm.append_left _ ?_)
    rw [hwait]
    refine ((hsplit.map (·.resp.ticket)).symm.append_right posted).trans ?_
    rw [List.map_append, List.append_assoc]
    refine List.perm_append_comm.trans ?_
    rw [List.append_assoc]

end Flow

/-! ### The steps -/

section Steps

variable {cfg : QueueConfig} {s s' : Pipeline} {now : Nat}

/-- The steps of the part that completes commands that leave the queues and the entries that
wait. -/
def LeavesEntries : Completer.Event → Prop
  | .queues _ | .submit _ _ | .completion _ => False
  | _ => True

theorem mem_unwritten {c : Completer} {round : Round} {w : Writing} (hround : round ∈ c.rounds)
    (hw : w ∈ round.unwritten) : w ∈ c.unwritten := List.mem_flatMap.mpr ⟨round, hround, hw⟩

theorem complete_spec (cfg : QueueConfig) (c : Completer) {e : Completer.Event}
    (he : LeavesEntries e) (hwrite : c.Writable) : (Completer.exec cfg c e).Sat
      (fun c' => SameQueues c.toQueueTable c'.toQueueTable ∧ c'.lCQFIFO = c.lCQFIFO ∧
        c'.unwritten ⊆ c.unwritten)
      fun fault => ¬ LacksQueue fault := by
  cases e with
  | queues command => exact he.elim
  | submit resp now => exact he.elim
  | completion tick => exact he.elim
  | written k j =>
    rw [Completer.exec]
    split
    · exact show ¬ LacksQueue _ by decide
    · next round hround =>
      have hmem := List.mem_of_getElem? hround
      split
      · exact show ¬ LacksQueue _ by decide
      · next w hw =>
        rw [hwrite w (mem_unwritten hmem (List.mem_of_getElem? hw)), if_neg Bool.false_ne_true]
        refine ⟨.refl _, rfl, fun w' hw' => ?_⟩
        obtain ⟨round', hround', hw'⟩ := List.mem_flatMap.mp hw'
        rcases List.mem_or_eq_of_mem_set hround' with hround' | rfl
        · exact mem_unwritten hround' hw'
        · exact mem_unwritten hmem (List.mem_of_mem_eraseIdx hw')
  | send k now =>
    rw [Completer.exec]
    split
    · exact show ¬ LacksQueue _ by decide
    · split
      · unfold Completer.send Completer.reserveCompletion
        dsimp only
        split <;> exact ⟨.refl _, rfl, fun w hw => by
          obtain ⟨round, hround, hw⟩ := List.mem_flatMap.mp hw
          exact mem_unwritten (List.mem_of_mem_eraseIdx hround) hw⟩
      · exact show ¬ LacksQueue _ by decide
  | setCoalescing iv enable =>
    rw [Completer.exec, Completer.setCoalescing]
    split
    · exact ⟨.refl _, rfl, List.Subset.refl _⟩
    · exact ⟨⟨fun _ => rfl, fun _ => rfl, fun iv hiv =>
        (UnorderedMap.mem_set 0 _).mpr (.inr hiv)⟩, rfl, List.Subset.refl _⟩
  | setCoalescingParameter time threshold => exact ⟨.refl _, rfl, List.Subset.refl _⟩
  | ringCQHeadDoorbell i head =>
    rw [Completer.exec, Completer.ringCQHeadDoorbell]
    split
    · exact ⟨.refl _, rfl, List.Subset.refl _⟩
    · next pQueue hqueue =>
      dsimp only
      split <;> exact ⟨update_sameQueues hqueue _ rfl, rfl, List.Subset.refl _⟩

namespace Leaves

variable {l l' l'' : List SQEntryWrapper}

theorem refl (l : List SQEntryWrapper) : Leaves l l := ⟨[], by rw [List.append_nil]⟩

theorem of_perm (h : l.Perm l') : Leaves l l' := ⟨[], by rwa [List.append_nil]⟩

theorem trans (h : Leaves l l') (h' : Leaves l' l'') : Leaves l l'' := by
  obtain ⟨gone, h⟩ := h
  obtain ⟨gone', h'⟩ := h'
  exact ⟨gone' ++ gone, h.trans (by rw [← List.append_assoc]; exact h'.append_right gone)⟩

theorem cons (h : Leaves l l') (req : SQEntryWrapper) : Leaves (req :: l) (req :: l') := by
  obtain ⟨gone, h⟩ := h
  exact ⟨gone, h.cons req⟩

theorem drop (h : Leaves l l') (req : SQEntryWrapper) : Leaves (req :: l) l' := by
  obtain ⟨gone, h⟩ := h
  exact ⟨req :: gone, (h.cons req).trans List.perm_middle.symm⟩

theorem append_right (h : Leaves l l') (r : List SQEntryWrapper) : Leaves (l ++ r) (l' ++ r) := by
  obtain ⟨gone, h⟩ := h
  refine ⟨gone, (h.append_right r).trans ?_⟩
  rw [List.append_assoc, List.append_assoc]
  exact List.perm_append_comm.append_left l'

end Leaves

theorem trailing_le (sqid : Nat) (l : List SQEntryWrapper) : trailing sqid l ≤ l.length := by
  rw [← List.length_reverse]
  exact (List.takeWhile_sublist _).length_le

/-- A command belongs to the end of the list when all behind it do. -/
theorem trailing_cons (sqid : Nat) (iter : SQEntryWrapper) (l : List SQEntryWrapper) :
    trailing sqid (iter :: l) =
      if trailing sqid l = l.length ∧ iter.sqID = sqid then l.length + 1 else trailing sqid l := by
  rw [trailing, List.reverse_cons, List.takeWhile_append, List.length_reverse]
  show (if trailing sqid l = l.length then _ else _ : List SQEntryWrapper).length = _
  by_cases hall : trailing sqid l = l.length
  · by_cases hiter : iter.sqID = sqid
    · rw [if_pos hall, if_pos ⟨hall, hiter⟩, List.length_append, List.length_reverse]
      simp [hiter]
    · rw [if_pos hall, if_neg fun h => hiter h.2, List.length_append, List.length_reverse, hall]
      simp [hiter]
  · rw [if_neg hall, if_neg fun h => hall h.1]
    rfl

/-- The loop answers what it takes out, and does not step over the end. -/
theorem abortAll_spec {sqid : Nat} (sqHead now : Nat) :
    ∀ {l rest : List SQEntryWrapper} {c : Completer} {fetched posted : List Ticket},
      Flow cfg c (l ++ rest) fetched posted → trailing sqid l % 2 = 0 →
        ∃ left c', abortAll cfg sqid sqHead now l c = .ok (left, c') ∧
          c'.toQueueTable = c.toQueueTable ∧ Leaves l left ∧
            Flow cfg c' (left ++ rest) fetched posted
  | [], _, c, _, _, h, _ => ⟨[], c, rfl, rfl, .refl [], h⟩
  | iter :: l, rest, c, fetched, posted, h, heven => by
    rw [abortAll]
    by_cases hiter : iter.sqID = sqid
    · rw [if_pos hiter]
      obtain ⟨c₁, hsubmit, htable, h₁⟩ :=
        h.submit (abortResp iter sqHead .abortDueToSqDelete) rfl now
      rw [hsubmit, Except.ok_bind]
      cases l with
      | nil =>
        rw [trailing_cons, if_pos ⟨rfl, hiter⟩] at heven
        cases heven
      | cons next l =>
        have heven : trailing sqid l % 2 = 0 := by
          have hle := trailing_le sqid l
          rw [trailing_cons, trailing_cons, List.length_cons] at heven
          split_ifs at heven <;> omega
        have h₂ : Flow cfg c₁ (l ++ next :: rest) fetched posted := h₁.perm List.perm_middle.symm
        obtain ⟨left, c', habort, htable', hleave, h'⟩ := abortAll_spec sqHead now h₂ heven
        refine ⟨next :: left, c', ?_, htable'.trans htable, (hleave.cons next).drop iter,
          h'.perm List.perm_middle⟩
        dsimp only
        rw [habort]
        rfl
    · rw [if_neg hiter]
      have heven : trailing sqid l % 2 = 0 := by
        rwa [trailing_cons, if_neg fun h => hiter h.2] at heven
      have h₁ : Flow cfg c (l ++ iter :: rest) fetched posted := h.perm List.perm_middle.symm
      obtain ⟨left, c', habort, htable, hleave, h'⟩ := abortAll_spec sqHead now h₁ heven
      refine ⟨iter :: left, c', ?_, htable, hleave.cons iter, h'.perm List.perm_middle⟩
      rw [habort]
      rfl

/-- The reply is sent, or comes when the memory of the queue, which is there, has been found. -/
def Answers (t : QueueTable) (memory : Memory) (req : SQEntryWrapper) : QueueTable.Reply → Prop
  | .sent resp => resp.ticket = req.ticket
  | .awaited _ => Held t memory
  | .never => False

/-- What a command on queues does to the tables: it answers its request, and deletes no queue but
its own. -/
structure Changes (cfg : QueueConfig) (t : QueueTable) (c : QueueTable.Command)
    (req : SQEntryWrapper) (r : QueueTable.Reply × QueueTable) : Prop where
  linked : QueueTable.Linked cfg r.2
  answers : Answers r.2 (memoryOf c) req r.1
  cqueues : ∀ i, (t.ppCQueue i).isSome = true → (r.2.ppCQueue i).isSome = true ∨
    c = .deleteCQueue req ∧ i = qid req ∧ 0 < i ∧ ∀ j, ¬ t.Uses i j
  squeues : ∀ i, (t.ppSQueue i).isSome = true → (r.2.ppSQueue i).isSome = true ∨
    c = .deleteSQueue req ∧ i = qid req ∧ 0 < i

section Changes

variable {t : QueueTable} {req : SQEntryWrapper}

theorem isSome_update {α : Type} {queues : Nat → Option α} (j : Nat) (q : α) {i : Nat}
    (h : (queues i).isSome = true) : (Function.update queues j (some q) i).isSome = true := by
  rw [Function.update_apply]
  split
  · rfl
  · exact h

theorem isSome_update_self {α : Type} (queues : Nat → Option α) (j : Nat) (q : α) :
    (Function.update queues j (some q) j).isSome = true := by
  rw [Function.update_self]
  rfl

theorem isSome_update_none {α : Type} {queues : Nat → Option α} {i j : Nat} (hne : i ≠ j)
    (h : (queues i).isSome = true) : (Function.update queues j none i).isSome = true := by
  rwa [Function.update_of_ne hne]

theorem changes_deleteSQueue (hlinked : QueueTable.Linked cfg t)
    (hclear : QueueTable.Clear cfg t (.deleteSQueue req)) :
    ∃ r, QueueTable.answer cfg t (.deleteSQueue req) = .ok r ∧
      Changes cfg t (.deleteSQueue req) req r := by
  have hlt : qid req < cfg.sqsize := hclear
  obtain ⟨⟨ret, t'⟩, hr, hlinked'⟩ := hlinked.deleteSQueue hlt
  rw [QueueTable.answer, hr]
  refine ⟨_, rfl, hlinked', ?_, fun i hi => .inl ?_, fun i hi => ?_⟩
  · show (if ret = 1 then _ else _ : CQEntryWrapper).ticket = _
    split <;> rfl
  · rw [QueueTable.deleteSQueue, access, if_pos hlt, Except.ok_bind] at hr
    split at hr <;> cases hr <;> exact hi
  · rw [QueueTable.deleteSQueue, access, if_pos hlt, Except.ok_bind] at hr
    split at hr
    · next hlive =>
      cases hr
      by_cases hqid : i = qid req
      · exact .inr ⟨rfl, hqid, hqid ▸ hlive.2⟩
      · exact .inl (isSome_update_none hqid hi)
    · cases hr
      exact .inl hi

theorem changes_createSQueue (hlinked : QueueTable.Linked cfg t)
    (hclear : QueueTable.Clear cfg t (.createSQueue req))
    (hfits : entrySize req ≤ cfg.maxQueueEntry →
      t.ppSQueue (qid req) = none ∧ (t.ppCQueue (highHalf req)).isSome = true) :
    ∃ r, QueueTable.answer cfg t (.createSQueue req) = .ok r ∧
      Changes cfg t (.createSQueue req) req r := by
  rw [QueueTable.answer]
  dsimp only
  split
  · exact ⟨_, rfl, hlinked, rfl, fun i hi => .inl hi, fun i hi => .inl hi⟩
  · next hsize =>
    obtain ⟨hsqid, hcqid⟩ := hclear (Nat.le_of_not_lt hsize)
    obtain ⟨hfree, hlive⟩ := hfits (Nat.le_of_not_lt hsize)
    have hsqueue : ∃ r, t.createSQueue cfg (qid req) (highHalf req) (entrySize req)
        (QueueTable.priority req) = .ok r ∧ QueueTable.Linked cfg r.2 :=
      hlinked.createSQueue hsqid hcqid
    obtain ⟨r, hr, hlinked'⟩ := hsqueue
    have hlive : t.ppCQueue (highHalf req) ≠ none := Option.isSome_iff_ne_none.mp hlive
    rw [hr]
    rw [QueueTable.createSQueue, access, if_pos hsqid, Except.ok_bind, if_pos hfree, access,
      if_pos (hcqid hfree), Except.ok_bind, if_neg hlive] at hr
    cases hr
    refine ⟨_, rfl, hlinked', ?_, fun i hi => .inl hi, fun i hi => .inl (isSome_update _ _ hi)⟩
    exact isSome_update_self _ _ _

theorem changes_createCQueue {w : QueueTable.Open} (hlinked : QueueTable.Linked cfg t)
    (hclear : QueueTable.Clear cfg t (.createCQueue req w))
    (hfits : entrySize req ≤ cfg.maxQueueEntry → t.ppCQueue (qid req) = none) :
    ∃ r, QueueTable.answer cfg t (.createCQueue req w) = .ok r ∧
      Changes cfg t (.createCQueue req w) req r := by
  rw [QueueTable.answer]
  dsimp only
  split
  · exact ⟨_, rfl, hlinked, rfl, fun i hi => .inl hi, fun i hi => .inl hi⟩
  · next hsize =>
    have hcqid := hclear (Nat.le_of_not_lt hsize)
    have hcqueue : ∃ r, t.createCQueue cfg (qid req) (entrySize req) (highHalf req)
        (req.dword11 &&& 0x02 ≠ 0) w = .ok r ∧ QueueTable.Linked cfg r.2 :=
      hlinked.createCQueue hcqid
    obtain ⟨r, hr, hlinked'⟩ := hcqueue
    rw [hr]
    rw [QueueTable.createCQueue, access, if_pos hcqid, Except.ok_bind,
      if_pos (hfits (Nat.le_of_not_lt hsize))] at hr
    cases hr
    refine ⟨_, rfl, hlinked', ?_, fun i hi => .inl (isSome_update _ _ hi), fun i hi => .inl hi⟩
    exact isSome_update_self _ _ _

/-- A deletion leaves the submission queues, and takes no other completion queue. -/
theorem deleteCQueue_queues {cqid : Nat} {r : Nat × QueueTable}
    (h : t.deleteCQueue cfg cqid = .ok r) : r.2.ppSQueue = t.ppSQueue ∧
      (r.2.ppCQueue = t.ppCQueue ∨
        0 < cqid ∧ r.2.ppCQueue = Function.update t.ppCQueue cqid none) := by
  rcases QueueTable.deleteCQueue_cases h with heq | ⟨hpos, _, _, heq⟩
  · rw [heq]
    exact ⟨rfl, .inl rfl⟩
  · rw [heq]
    exact ⟨rfl, .inr ⟨hpos, rfl⟩⟩

theorem changes_deleteCQueue (hlinked : QueueTable.Linked cfg t)
    (hclear : QueueTable.Clear cfg t (.deleteCQueue req)) :
    ∃ r, QueueTable.answer cfg t (.deleteCQueue req) = .ok r ∧
      Changes cfg t (.deleteCQueue req) req r := by
  obtain ⟨⟨ret, t'⟩, hr, hlinked'⟩ := hlinked.deleteCQueue hclear.1 hclear.2
  obtain ⟨hsqueues, hcqueues⟩ := deleteCQueue_queues hr
  rw [QueueTable.answer, hr]
  refine ⟨_, rfl, hlinked', ?_, fun i hi => ?_, fun i hi => .inl ?_⟩
  · show (if ret = 1 then _ else if ret = 2 then _ else _ : CQEntryWrapper).ticket = _
    split
    · rfl
    · split <;> rfl
  · rcases hcqueues with hkept | ⟨hpos, hgone⟩
    · exact .inl (hkept ▸ hi)
    · by_cases hqid : i = qid req
      · refine .inr ⟨rfl, hqid, hqid ▸ hpos, fun j huses => ?_⟩
        -- a user would have lost its queue
        obtain ⟨q, hq, hcq⟩ := huses
        have hstill := hlinked'.completion j q (hsqueues ▸ hq)
        rw [hcq, hqid, hgone, Function.update_self] at hstill
        cases hstill
      · left
        show (t'.ppCQueue i).isSome = true
        rw [hgone]
        exact isSome_update_none hqid hi
  · show (t'.ppSQueue i).isSome = true
    rw [hsqueues]
    exact hi

end Changes

theorem Readable.same {reading : List Reading} {t t' : QueueTable} (h : Readable reading t)
    (hsame : SameQueues t t') : Readable reading t' := fun r hr => by
  rw [hsame.isSome_squeue]
  exact h r hr

theorem Held.same {t t' : QueueTable} (hsame : SameQueues t t') :
    ∀ {memory : Memory}, Held t memory → Held t' memory
  | .none, _ => trivial
  | .squeue i, h => (hsame.isSome_squeue i).trans h
  | .cqueue i, h => (hsame.isSome_cqueue i).trans h
  | .freed, h => h.elim

theorem Held.leave {t : QueueTable} : ∀ {memory : Memory}, Held t memory → memory.leave t = memory
  | .none, _ => rfl
  | .squeue _, h => if_neg (Option.isSome_iff_ne_none.mp h)
  | .cqueue _, h => if_neg (Option.isSome_iff_ne_none.mp h)
  | .freed, h => h.elim

/-- The same queues are as good for what the stages remember. -/
theorem Inv.same {flight flight' : List SQEntryWrapper} (h : Inv cfg s flight)
    (hsame : SameQueues s.toQueueTable s'.toQueueTable) (hreading : s'.reading = s.reading)
    (hexecuting : s'.executing = s.executing)
    (hflow : Flow cfg s'.toCompleter flight' s'.fetched s'.posted) : Inv cfg s' flight' := by
  refine ⟨hflow, ?_, ?_⟩
  · rw [hreading]
    exact h.reading.same hsame
  · rw [hexecuting]
    exact fun x hx => (h.memory x hx).same hsame

theorem Keeps.mono {fetched : List Ticket} {done done' : Pipeline → Prop}
    {r : Except Fault Pipeline} (h : Keeps cfg fetched done r) (hdone : ∀ s', done s' → done' s') :
    Keeps cfg fetched done' r := by
  obtain ⟨s', hr, h', hfetched, hs'⟩ := h
  exact ⟨s', hr, h', hfetched, hdone s' hs'⟩

theorem Handled.of_leaves {req : SQEntryWrapper} {flight flight' : List SQEntryWrapper}
    (hleaves : Leaves flight flight') (h : Handled req flight' s') : Handled req flight s' := by
  rcases h with hgone | ⟨hstill, hx⟩
  · exact .inl (hleaves.trans hgone)
  · exact .inr ⟨hleaves.trans hstill, hx⟩

/-- A command on its way is answered, and leaves the stages. -/
theorem answered_spec {req : SQEntryWrapper} {resp : CQEntryWrapper}
    (h : Inv cfg s (req :: s.inFlight)) (hticket : resp.ticket = req.ticket) :
    Keeps cfg s.fetched (Answered req (req :: s.inFlight))
      ((submit cfg resp now s.toCompleter).map fun c => { s with toCompleter := c }) := by
  obtain ⟨c, hsubmit, htable, hflow⟩ := h.flow.submit resp hticket now
  rw [hsubmit]
  exact ⟨_, rfl, h.same (.of_eq htable) rfl rfl hflow, rfl, .refl _⟩

/-- A command goes on in the subsystem. -/
theorem executing_spec {req : SQEntryWrapper} {memory : Memory}
    (h : Inv cfg s (req :: s.inFlight)) (hheld : Held s.toQueueTable memory) :
    Keeps cfg s.fetched (Handled req (req :: s.inFlight))
      (.ok { s with executing := s.executing ++ [⟨req, memory⟩] }) := by
  have hperm : (req :: s.inFlight).Perm
      (inFlight { s with executing := s.executing ++ [⟨req, memory⟩] }) := by
    rw [inFlight, inFlight, List.map_append, ← List.append_assoc]
    exact (List.perm_append_singleton req _).symm
  refine ⟨{ s with executing := s.executing ++ [⟨req, memory⟩] }, rfl,
    ⟨h.flow.perm hperm, h.reading, fun x hx => ?_⟩, rfl, .inr ⟨.of_perm hperm,
      ⟨req, memory⟩, List.mem_append_right _ (List.mem_singleton_self _), rfl⟩⟩
  rcases List.mem_append.mp hx with hx | hx
  · exact h.memory x hx
  · obtain rfl := List.mem_singleton.mp hx
    exact hheld

/-- The reply to a command takes it from those on their way, or leaves it there. -/
theorem reply_spec {req : SQEntryWrapper} {memory : Memory} {reply : QueueTable.Reply}
    (h : Inv cfg s (req :: s.inFlight)) (hreply : Answers s.toQueueTable memory req reply) :
    Keeps cfg s.fetched (Handled req (req :: s.inFlight)) (s.reply cfg req memory now reply) := by
  cases reply with
  | sent resp => exact (answered_spec h hreply).mono fun _ => .inl
  | awaited resp => exact executing_spec h hreply
  | never => exact hreply.elim

/-- No memory is freed when the queues that it is of are still there. -/
theorem setQueues_eq {t : QueueTable}
    (hwriting : ∀ w ∈ s.unwritten, (t.ppCQueue w.cqID).isSome = true)
    (hmemory : ∀ x ∈ s.executing, Held t x.memory) :
    s.setQueues t = { s with toQueueTable := t } := by
  have hrounds : s.rounds.map (·.leave t) = s.rounds := by
    refine (List.map_congr_left fun round hround => ?_).trans (List.map_id _)
    have hwritings : round.unwritten.map (·.leave t) = round.unwritten := by
      refine (List.map_congr_left fun w hw => ?_).trans (List.map_id _)
      exact if_neg (Option.isSome_iff_ne_none.mp (hwriting w (mem_unwritten hround hw)))
    rw [Round.leave, hwritings]
    rfl
  have hexecuting : s.executing.map (fun req => { req with memory := req.memory.leave t }) =
      s.executing := by
    refine (List.map_congr_left fun x hx => ?_).trans (List.map_id _)
    rw [(hmemory x hx).leave]
    rfl
  rw [setQueues, Completer.setQueues, hrounds, hexecuting]

/-- A command that deletes a queue of which nothing is left in the stages keeps the flow. -/
theorem queues_spec {c : QueueTable.Command} {req : SQEntryWrapper}
    {r : QueueTable.Reply × QueueTable} (h : Inv cfg s (req :: s.inFlight))
    (hcqueue : c = .deleteCQueue req → 0 < qid req → (∀ j, ¬ s.Uses (qid req) j) →
      (∀ req' ∈ req :: s.inFlight, req'.cqID ≠ qid req) ∧
        (∀ iter ∈ s.lCQFIFO, iter.resp.cqID ≠ qid req) ∧
        (∀ w ∈ s.unwritten, w.cqID ≠ qid req) ∧ ∀ x ∈ s.executing, x.memory ≠ .cqueue (qid req))
    (hsqueue : c = .deleteSQueue req → 0 < qid req → (∀ r ∈ s.reading, r.sqid ≠ qid req) ∧
      ∀ x ∈ s.executing, x.memory ≠ .squeue (qid req))
    (hchanges : Changes cfg s.toQueueTable c req r) :
    Keeps cfg s.fetched (Handled req (req :: s.inFlight))
      ((s.setQueues r.2).reply cfg req (memoryOf c) now r.1) := by
  have hcstill : ∀ i, (s.ppCQueue i).isSome = true → (c = .deleteCQueue req → i = qid req →
      0 < qid req → (∀ j, ¬ s.Uses (qid req) j) → False) → (r.2.ppCQueue i).isSome = true := by
    intro i hi hother
    rcases hchanges.cqueues i hi with hstill | ⟨hc, rfl, hpos, huses⟩
    · exact hstill
    · exact (hother hc rfl hpos huses).elim
  have hsstill : ∀ i, (s.ppSQueue i).isSome = true → (c = .deleteSQueue req → i = qid req →
      0 < qid req → False) → (r.2.ppSQueue i).isSome = true := by
    intro i hi hother
    rcases hchanges.squeues i hi with hstill | ⟨hc, rfl, hpos⟩
    · exact hstill
    · exact (hother hc rfl hpos).elim
  have hwriting : ∀ w ∈ s.unwritten, (r.2.ppCQueue w.cqID).isSome = true := fun w hw =>
    hcstill _ (h.flow.writing w hw).2 fun hc hqid hpos huses =>
      (hcqueue hc hpos huses).2.2.1 w hw hqid
  have hmemory : ∀ x ∈ s.executing, Held r.2 x.memory := by
    intro x hx
    have hheld := h.memory x hx
    cases hm : x.memory with
    | none => trivial
    | squeue i =>
      rw [hm] at hheld
      exact hsstill i hheld fun hc hqid hpos => (hsqueue hc hpos).2 x hx (hm.trans (hqid ▸ rfl))
    | cqueue i =>
      rw [hm] at hheld
      exact hcstill i hheld fun hc hqid hpos huses =>
        (hcqueue hc hpos huses).2.2.2 x hx (hm.trans (hqid ▸ rfl))
    | freed =>
      rw [hm] at hheld
      exact hheld.elim
  rw [setQueues_eq hwriting hmemory]
  refine reply_spec (s := { s with toQueueTable := r.2 }) ⟨⟨hchanges.linked, fun req' hreq' => ?_,
    fun iter hiter => ?_, fun w hw => ⟨(h.flow.writing w hw).1, hwriting w hw⟩, h.flow.accounted⟩,
    fun reading hreading => ?_, hmemory⟩ hchanges.answers
  · exact hcstill _ (h.flow.commands req' hreq') fun hc hqid hpos huses =>
      (hcqueue hc hpos huses).1 req' hreq' hqid
  · exact hcstill _ (h.flow.waiting iter hiter) fun hc hqid hpos huses =>
      (hcqueue hc hpos huses).2.1 iter hiter hqid
  · obtain ⟨hdeleted, hlive⟩ := h.reading reading hreading
    exact ⟨hdeleted, hsstill _ hlive fun hc hqid hpos => (hsqueue hc hpos).1 reading hreading hqid⟩

/-- The commands of the queue are answered, and nothing else changes. -/
theorem leaveSQueue_spec {sqid : Nat} (now : Nat) {req : SQEntryWrapper}
    (h : Inv cfg s (req :: s.inFlight)) (hsqid : sqid < cfg.sqsize)
    (hfits : (s.ppSQueue sqid).isSome = true → 0 < sqid →
      (∀ r ∈ s.reading, r.sqid ≠ sqid) ∧ trailing sqid s.lSQFIFO % 2 = 0) :
    ∃ s', s.leaveSQueue cfg sqid now = .ok s' ∧ s'.toQueueTable = s.toQueueTable ∧
      s'.reading = s.reading ∧ s'.executing = s.executing ∧ s'.fetched = s.fetched ∧
      Leaves s.inFlight s'.inFlight ∧ Inv cfg s' (req :: s'.inFlight) := by
  rw [leaveSQueue, access, if_pos hsqid, Except.ok_bind]
  cases hqueue : s.ppSQueue sqid with
  | none => exact ⟨s, rfl, rfl, rfl, rfl, rfl, .refl _, h⟩
  | some pQueue =>
    dsimp only
    split
    · exact ⟨s, rfl, rfl, rfl, rfl, rfl, .refl _, h⟩
    · next hpos =>
      rw [hqueue] at hfits
      obtain ⟨hreading, heven⟩ := hfits rfl (Nat.pos_of_ne_zero hpos)
      have hperm : (req :: s.inFlight).Perm (s.lSQFIFO ++
          req :: (s.submitted ++ s.executing.map (·.toSQEntryWrapper))) := by
        rw [inFlight, List.append_assoc]
        exact List.perm_middle.symm
      obtain ⟨left, c, habort, htable, hleaves, hflow⟩ :=
        abortAll_spec pQueue.head now (h.flow.perm hperm) heven
      have hread :
          s.reading.map (fun r => if r.sqid = sqid then { r with deleted := true } else r) =
          s.reading :=
        (List.map_congr_left fun r hr => if_neg (hreading r hr)).trans (List.map_id _)
      rw [habort, hread]
      refine ⟨_, rfl, htable, rfl, rfl, rfl, ?_, h.same (.of_eq htable) rfl rfl (hflow.perm ?_)⟩
      · exact (hleaves.append_right _).append_right _
      · rw [inFlight, List.append_assoc]
        exact List.perm_middle

/-- A command that waits is taken out and answered, when its queue is there. -/
theorem abort_spec {sqid : Nat} {cid : BitVec 16} (now : Nat) {req : SQEntryWrapper}
    (h : Inv cfg s (req :: s.inFlight))
    (hlive : ∀ iter ∈ s.lSQFIFO, iter.sqID = sqid → iter.commandID = cid →
      (s.ppSQueue iter.sqID).isSome = true) :
    ∃ aborted s', s.abort cfg sqid cid now = .ok (aborted, s') ∧ s'.fetched = s.fetched ∧
      Leaves s.inFlight s'.inFlight ∧ Inv cfg s' (req :: s'.inFlight) := by
  rw [abort]
  split
  · exact ⟨false, s, rfl, rfl, .refl _, h⟩
  · next iter hfind =>
    have hmem := List.mem_of_find?_eq_some hfind
    obtain ⟨rfl, hcid⟩ : iter.sqID = sqid ∧ iter.commandID = cid := by
      simpa using List.find?_some hfind
    obtain ⟨pQueue, hqueue⟩ := Option.isSome_iff_exists.mp (hlive iter hmem rfl hcid)
    have hlt : iter.sqID < cfg.sqsize := by
      by_contra hge
      rw [h.flow.linked.squeues _ (Nat.le_of_not_lt hge)] at hqueue
      cases hqueue
    have hleave : s.inFlight.Perm
        (iter :: { s with lSQFIFO := s.lSQFIFO.erase iter }.inFlight) :=
      ((List.perm_cons_erase hmem).append_right _).append_right _
    obtain ⟨c, hsubmit, htable, hflow⟩ :=
      (h.flow.perm ((hleave.cons req).trans (.swap iter req _))).submit
        (abortResp iter pQueue.head .abortRequested) rfl now
    rw [access, if_pos hlt, Except.ok_bind, hqueue]
    dsimp only
    rw [hsubmit]
    refine ⟨true, _, rfl, rfl, ?_, h.same (.of_eq htable) rfl rfl hflow⟩
    exact (Leaves.of_perm hleave).trans ((Leaves.refl _).drop iter)

theorem perm_of_getElem? {α : Type} {l : List α} {k : Nat} {a : α} (h : l[k]? = some a) :
    l.Perm (a :: l.eraseIdx k) := by
  obtain ⟨hlt, rfl⟩ := List.getElem?_eq_some_iff.mp h
  exact (List.getElem_cons_eraseIdx_perm hlt).symm

/-- A command on queues that finds them as it needs them. The state `s₀` is the one before the
command was taken. -/
theorem command_spec {req : SQEntryWrapper} {w : QueueTable.Open} {c : QueueTable.Command}
    (h : Inv cfg s (req :: s.inFlight)) (hcommand : command? req w = some c)
    (hclear : QueueTable.Clear cfg s.toQueueTable c) {s₀ : Pipeline} (hfits : Fits cfg s₀ c)
    (htable : s₀.toCompleter = s.toCompleter) (hreading : s₀.reading = s.reading)
    (hwait : s₀.lSQFIFO = s.lSQFIFO) (hexecuting : s₀.executing = s.executing)
    (hflight : s₀.inFlight.Perm (req :: s.inFlight)) :
    Keeps cfg s.fetched (Handled req (req :: s.inFlight))
      (s.prepare cfg now c >>= fun s => QueueTable.answer cfg s.toQueueTable c >>= fun r =>
        (s.setQueues r.2).reply cfg req (memoryOf c) now r.1) := by
  rw [command?] at hcommand
  split_ifs at hcommand <;> cases hcommand
  · -- the submission queue is left first
    rw [Fits, htable, hreading, hwait, hexecuting] at hfits
    obtain ⟨s₁, hleave, htable₁, hreading₁, hexecuting₁, hfetched, hleaves, h₁⟩ :=
      leaveSQueue_spec now h hclear fun hlive hpos =>
        ⟨(hfits hlive hpos).1, (hfits hlive hpos).2.1⟩
    obtain ⟨r, hanswer, hchanges⟩ := changes_deleteSQueue h.flow.linked hclear
    rw [prepare, hleave, Except.ok_bind, htable₁, hanswer, Except.ok_bind, ← hfetched]
    refine (queues_spec (c := .deleteSQueue req) h₁ (fun hc => by cases hc)
      (fun _ hpos => ?_) (htable₁ ▸ hchanges)).mono fun _ => .of_leaves (hleaves.cons req)
    rw [hreading₁, hexecuting₁]
    -- nothing refers to a queue that is not there
    by_cases hlive : (s.ppSQueue (qid req)).isSome = true
    · exact ⟨(hfits hlive hpos).1, (hfits hlive hpos).2.2⟩
    · refine ⟨fun r hr hqid => hlive (hqid ▸ (h.reading r hr).2), fun x hx hm => hlive ?_⟩
      have hheld := h.memory x hx
      rwa [hm] at hheld
  · rw [Fits, htable] at hfits
    obtain ⟨r, hanswer, hchanges⟩ := changes_createSQueue h.flow.linked hclear fun hsize =>
      ⟨(hfits hsize).1, (hfits hsize).2.1⟩
    rw [prepare, Except.ok_bind, hanswer, Except.ok_bind]
    exact queues_spec (c := .createSQueue req) h (fun hc => by cases hc) (fun hc => by cases hc)
      hchanges
  · rw [Fits, htable, hexecuting] at hfits
    obtain ⟨r, hanswer, hchanges⟩ := changes_deleteCQueue h.flow.linked hclear
    rw [prepare, Except.ok_bind, hanswer, Except.ok_bind]
    refine queues_spec (c := .deleteCQueue req) h (fun _ hpos huses => ?_)
      (fun hc => by cases hc) hchanges
    obtain ⟨hcommands, hleft⟩ := hfits hpos huses
    exact ⟨fun req' hreq' => hcommands req' (hflight.mem_iff.mpr hreq'), hleft⟩
  · rw [Fits, htable] at hfits
    obtain ⟨r, hanswer, hchanges⟩ := changes_createCQueue h.flow.linked hclear hfits
    rw [prepare, Except.ok_bind, hanswer, Except.ok_bind]
    exact queues_spec (c := .createCQueue req w) h (fun hc => by cases hc) (fun hc => by cases hc)
      hchanges

/-- A command that comes to the subsystem and finds the queues as it needs them. -/
theorem submitCommand_spec (h : Inv cfg s s.inFlight) {k : Nat} {w : QueueTable.Open}
    {req : SQEntryWrapper} (hk : s.submitted[k]? = some req) (hsafe : FitsCommand cfg s w req) :
    Keeps cfg s.fetched (Handled req s.inFlight) (s.submitCommand cfg k now w) := by
  obtain ⟨hqueues, habort, htwice, hnever⟩ := hsafe
  have hflight : s.inFlight.Perm
      (req :: { s with submitted := s.submitted.eraseIdx k }.inFlight) := by
    refine (((perm_of_getElem? hk).append_left _).append_right _).trans ?_
    rw [inFlight, List.append_assoc, List.append_assoc]
    exact List.perm_middle
  have htaken : Inv cfg { s with submitted := s.submitted.eraseIdx k }
      (req :: { s with submitted := s.submitted.eraseIdx k }.inFlight) :=
    ⟨h.flow.perm hflight, h.reading, h.memory⟩
  rw [submitCommand, hk]
  dsimp only
  refine Keeps.mono ?_ fun _ => .of_leaves (.of_perm hflight)
  cases hcommand : command? req w with
  | some c =>
    obtain ⟨hclear, hfits⟩ := hqueues c hcommand
    exact command_spec htaken hcommand hclear hfits rfl rfl rfl rfl hflight
  | none =>
    dsimp only
    by_cases hisabort : IsAbort req
    · rw [if_pos hisabort]
      obtain ⟨aborted, s', heq, hfetched, hleaves, h'⟩ := abort_spec now htaken (habort hisabort)
      rw [heq, Except.ok_bind]
      rw [show s.fetched = s'.fetched from hfetched.symm]
      exact (answered_spec h' rfl).mono fun _ hgone => .of_leaves (hleaves.cons req) (.inl hgone)
    · rw [if_neg hisabort, if_neg htwice, if_neg hnever]
      exact executing_spec htaken trivial

/-- The subsystem calls back. -/
theorem answer_spec (h : Inv cfg s s.inFlight) {k : Nat} {x : Executing}
    (hk : s.executing[k]? = some x) (dword0 : BitVec 32) (status : Status) :
    Keeps cfg s.fetched (Answered x.toSQEntryWrapper s.inFlight)
      (s.answer cfg k dword0 status now) := by
  have hflight : s.inFlight.Perm
      (x.toSQEntryWrapper :: { s with executing := s.executing.eraseIdx k }.inFlight) := by
    rw [inFlight]
    exact (((perm_of_getElem? hk).map _).append_left _).trans List.perm_middle
  have htaken : Inv cfg { s with executing := s.executing.eraseIdx k }
      (x.toSQEntryWrapper :: { s with executing := s.executing.eraseIdx k }.inFlight) :=
    ⟨h.flow.perm hflight, h.reading, fun x' hx' => h.memory x' (List.mem_of_mem_eraseIdx hx')⟩
  have hheld : x.memory ≠ .freed := fun hfreed => by
    have hmemory := h.memory x (List.mem_of_getElem? hk)
    rwa [hfreed] at hmemory
  rw [answer, hk]
  dsimp only
  rw [if_neg hheld]
  exact (answered_spec htaken rfl).mono fun _ => (Leaves.of_perm hflight).trans

/-- A change of one submission queue that keeps its completion queue. -/
theorem update_squeue_sameQueues {t : QueueTable} {i : Nat} {q : SQueue}
    (hq : t.ppSQueue i = some q) (q' : SQueue) (hcqID : q'.cqID = q.cqID) :
    SameQueues t { t with ppSQueue := Function.update t.ppSQueue i (some q') } := by
  refine ⟨fun j => ?_, fun _ => rfl, fun _ h => h⟩
  show (Function.update t.ppSQueue i (some q') j).map _ = _
  rw [Function.update_apply]
  split
  · next heq =>
    rw [heq, hq, Option.map_some, Option.map_some, hcqID]
  · rfl

/-- An entry is read. -/
theorem checkQueue_spec (h : Inv cfg s s.inFlight) (i : Nat) :
    Inv cfg (s.checkQueue i) (s.checkQueue i).inFlight := by
  rw [checkQueue]
  cases hqueue : s.ppSQueue i with
  | none => exact h
  | some pQueue =>
    dsimp only
    split
    · have hsame := update_squeue_sameQueues (t := s.toQueueTable) hqueue
        { pQueue with toQueue := pQueue.advance } rfl
      refine ⟨h.flow.same { s.toCompleter with toQueueTable := _ } hsame rfl (List.Subset.refl _),
        fun r hr => ?_, fun x hx => (h.memory x hx).same hsame⟩
      rcases List.mem_append.mp hr with hr | hr
      · exact h.reading.same hsame r hr
      · obtain rfl := List.mem_singleton.mp hr
        refine ⟨rfl, ?_⟩
        rw [hsame.isSome_squeue, hqueue]
        rfl
    · exact h

/-- An entry that has been read is a command, whose completion queue is there. -/
theorem readDone_spec (h : Inv cfg s s.inFlight) (k : Nat) (entry : SQEntryWrapper) :
    (s.readDone k entry).Sat (fun s' => Inv cfg s' s'.inFlight) fun fault =>
      ¬ LacksQueue fault := by
  rw [readDone]
  cases hk : s.reading[k]? with
  | none => exact h
  | some r =>
    obtain ⟨hdeleted, hlive⟩ := h.reading r (List.mem_of_getElem? hk)
    obtain ⟨pQueue, hqueue⟩ := Option.isSome_iff_exists.mp hlive
    dsimp only
    rw [hqueue]
    dsimp only
    rw [hdeleted, if_neg Bool.false_ne_true]
    have hflight : { s with lSQFIFO := s.lSQFIFO ++ [wrap entry pQueue r.oldhead] }.inFlight.Perm
        (wrap entry pQueue r.oldhead :: s.inFlight) := by
      rw [inFlight, inFlight, List.append_assoc, List.append_assoc, List.append_assoc]
      exact List.perm_middle
    refine ⟨⟨h.flow.linked, fun req hreq => ?_, h.flow.waiting, h.flow.writing, ?_⟩, fun r' hr' =>
      h.reading r' (List.mem_of_mem_eraseIdx hr'), h.memory⟩
    · rcases List.mem_cons.mp (hflight.mem_iff.mp hreq) with rfl | hreq
      · exact h.flow.linked.completion r.sqid pQueue hqueue
      · exact h.flow.commands req hreq
    · refine (List.perm_append_singleton _ _).trans ?_
      refine List.Perm.trans (h.flow.accounted.cons _) ?_
      exact ((hflight.map SQEntryWrapper.ticket).append_right _).symm

theorem handleRequest_spec (h : Inv cfg s s.inFlight) :
    Inv cfg s.handleRequest s.handleRequest.inFlight := by
  rw [handleRequest]
  split
  · exact h
  · next front rest hfifo =>
    refine ⟨h.flow.perm ?_, h.reading, h.memory⟩
    rw [inFlight, inFlight, hfifo]
    show (front :: (rest ++ s.submitted ++ s.executing.map (·.toSQEntryWrapper))).Perm _
    rw [← List.append_assoc]
    exact ((List.perm_append_singleton front _).append_right _).symm

theorem ringSQTailDoorbell_spec (h : Inv cfg s s.inFlight) (i tail : Nat) :
    Inv cfg (s.ringSQTailDoorbell i tail) (s.ringSQTailDoorbell i tail).inFlight := by
  rw [ringSQTailDoorbell]
  cases hqueue : s.ppSQueue i with
  | none => exact h
  | some pQueue =>
    have hsame := update_squeue_sameQueues (t := s.toQueueTable) hqueue
      { pQueue with tail := tail } rfl
    exact h.same hsame rfl rfl (h.flow.same { s.toCompleter with toQueueTable := _ } hsame rfl
      (List.Subset.refl _))

/-- Such a step keeps the flow. -/
theorem complete_inv (h : Inv cfg s s.inFlight) {e : Completer.Event} (he : LeavesEntries e) :
    (s.complete cfg e).Sat (fun s' => Inv cfg s' s'.inFlight) fun fault => ¬ LacksQueue fault := by
  have hspec := complete_spec cfg s.toCompleter he fun w hw => (h.flow.writing w hw).1
  rw [complete]
  cases hexec : Completer.exec cfg s.toCompleter e with
  | error fault => exact hspec.of_error hexec
  | ok c =>
    obtain ⟨hsame, hwait, hwrite⟩ := hspec.of_ok hexec
    exact h.same hsame rfl rfl (h.flow.same c hsame hwait hwrite)

/-- Every step that is safe keeps the invariant and lacks no queue. -/
theorem exec_spec {e : Event} (h : Inv cfg s s.inFlight) (hsafe : Safe cfg s e) :
    (exec cfg s e).Sat (fun s' => Inv cfg s' s'.inFlight) fun fault => ¬ LacksQueue fault := by
  cases e with
  | checkQueue i => exact checkQueue_spec h i
  | readDone k entry => exact readDone_spec h k entry
  | handleRequest => exact handleRequest_spec h
  | submitCommand k now w =>
    cases hk : s.submitted[k]? with
    | none =>
      rw [exec, submitCommand, hk]
      exact h
    | some req =>
      obtain ⟨s', heq, h', -⟩ := submitCommand_spec h hk (hsafe req hk)
      rw [exec, heq]
      exact h'
  | answer k dword0 status now =>
    cases hk : s.executing[k]? with
    | none =>
      rw [exec, answer, hk]
      exact h
    | some x =>
      obtain ⟨s', heq, h', -⟩ := answer_spec h hk dword0 status
      rw [exec, heq]
      exact h'
  | completion tick =>
    rw [exec, complete, Completer.exec]
    split
    · have hround := h.flow.completion tick
      cases hexec : s.toCompleter.completion tick with
      | error fault => exact hround.of_error hexec
      | ok c =>
        obtain ⟨hsame, hflow⟩ := hround.of_ok hexec
        exact h.same hsame rfl rfl hflow
    · exact show ¬ LacksQueue _ by decide
  | written k j => exact complete_inv h trivial
  | send k now => exact complete_inv h trivial
  | ringSQTailDoorbell i tail => exact ringSQTailDoorbell_spec h i tail
  | ringCQHeadDoorbell i head => exact complete_inv h trivial
  | setCoalescing iv enable => exact complete_inv h trivial
  | setCoalescingParameter time threshold => exact complete_inv h trivial

/-! ### The way to an answer -/

theorem Inv.accounted (h : Inv cfg s s.inFlight) : s.Accounted := h.flow.accounted

/-- What left the commands on their way has come to the entries. -/
theorem completed_of_leaves {req : SQEntryWrapper} (h : s.Accounted) (h' : s'.Accounted)
    (hfetched : s'.fetched = s.fetched) (hgone : Answered req s.inFlight s') :
    (req.ticket :: s.completed).Subperm s'.completed := by
  obtain ⟨gone, hgone⟩ := hgone
  rw [Accounted, hfetched] at h'
  -- the commands that are still on their way are on both sides
  have hboth : (s'.inFlight.map SQEntryWrapper.ticket ++
      (req.ticket :: s.completed ++ gone.map SQEntryWrapper.ticket)).Perm
        (s'.inFlight.map SQEntryWrapper.ticket ++ s'.completed) := by
    refine List.Perm.trans ?_ (h.symm.trans h')
    refine List.Perm.trans ?_ ((hgone.map SQEntryWrapper.ticket).symm.append_right _)
    rw [List.map_append, List.map_cons, List.cons_append, List.cons_append, List.cons_append,
      List.append_assoc]
    refine List.perm_middle.trans (List.Perm.cons _ ?_)
    exact List.perm_append_comm.append_left _
  have hcompleted := (List.perm_append_left_iff _).mp hboth
  exact (List.sublist_append_left _ _).subperm.trans hcompleted.subperm

/-- Safe steps lead to such a state, fetch nothing and keep the invariant. -/
def Comes (cfg : QueueConfig) (s : Pipeline) (done : Pipeline → Prop) : Prop :=
  ∃ s', Run.Reaches (exec cfg) (Safe cfg) s s' ∧ Inv cfg s' s'.inFlight ∧
    s'.fetched = s.fetched ∧ done s'

theorem Keeps.comes {done : Pipeline → Prop} {e : Event} (hsafe : Safe cfg s e)
    (h : Keeps cfg s.fetched done (exec cfg s e)) : Comes cfg s done := by
  obtain ⟨s', hexec, h', hfetched, hdone⟩ := h
  exact ⟨s', .step hsafe hexec, h', hfetched, hdone⟩

/-- A command that is in the subsystem can be answered. -/
theorem can_answer (h : Inv cfg s s.inFlight) {x : Executing} (hx : x ∈ s.executing) :
    Comes cfg s (Answered x.toSQEntryWrapper s.inFlight) := by
  obtain ⟨k, hk⟩ := List.mem_iff_getElem?.mp hx
  exact Keeps.comes (e := .answer k 0 .zero 0) trivial (answer_spec h hk 0 .zero)

/-- All commands of `lSQFIFO` can be taken from it. -/
theorem reaches_drained (cfg : QueueConfig) :
    ∀ (l : List SQEntryWrapper) (s : Pipeline), s.lSQFIFO = l →
      Run.Reaches (exec cfg) (Safe cfg) s s.drained
  | [], s, h => by
    have heq : s.drained = s := by
      rw [drained, h, List.append_nil, ← h]
    rw [heq]
    exact .refl s
  | front :: rest, s, h => by
    have hrest := reaches_drained cfg rest { s with
      lSQFIFO := rest, submitted := s.submitted ++ [front] } rfl
    have heq : { s with lSQFIFO := rest, submitted := s.submitted ++ [front] }.drained =
        s.drained := by
      rw [drained, drained, h]
      simp only [List.append_assoc, List.singleton_append]
    rw [heq] at hrest
    refine .trans (.step (a := .handleRequest) trivial ?_) hrest
    rw [exec, handleRequest, h]

theorem perm_drained (s : Pipeline) : s.inFlight.Perm s.drained.inFlight := by
  rw [inFlight, inFlight, drained, List.nil_append]
  exact List.perm_append_comm.append_right _

theorem Inv.drained (h : Inv cfg s s.inFlight) : Inv cfg s.drained s.drained.inFlight :=
  ⟨h.flow.perm s.perm_drained, h.reading, h.memory⟩

/-- A command that waits for the CPU can be answered when it finds the queues as it needs them. -/
theorem can_answer_submitted (h : Inv cfg s s.inFlight) {w : QueueTable.Open} {req : SQEntryWrapper}
    (hreq : req ∈ s.submitted) (hsafe : FitsCommand cfg s w req) :
    Comes cfg s (Answered req s.inFlight) := by
  obtain ⟨k, hk⟩ := List.mem_iff_getElem?.mp hreq
  have hstep : Comes cfg s (Handled req s.inFlight) := by
    refine Keeps.comes (e := .submitCommand k 0 w) (fun req' hreq' => ?_)
      (submitCommand_spec h hk hsafe)
    obtain rfl := Option.some.inj (hk.symm.trans hreq')
    exact hsafe
  obtain ⟨s₁, hreach, h₁, hfetched, hgone | ⟨hleaves, x, hx, rfl⟩⟩ := hstep
  · exact ⟨s₁, hreach, h₁, hfetched, hgone⟩
  · obtain ⟨s₂, hreach', h₂, hfetched', hgone⟩ := can_answer h₁ hx
    exact ⟨s₂, hreach.trans hreach', h₂, hfetched'.trans hfetched, hleaves.trans hgone⟩

theorem can_complete (h : Inv cfg s s.inFlight) {req : SQEntryWrapper} (hmem : req ∈ s.inFlight)
    (hreq : Completable cfg s req) : CanComplete cfg s req := by
  have hcomes : Comes cfg s (Answered req s.inFlight) := by
    rcases hreq with ⟨x, hx, rfl⟩ | ⟨w, hsafe⟩
    · exact can_answer h hx
    rcases List.mem_append.mp hmem with hmem | hmem
    · have hwaits : req ∈ s.drained.submitted := by
        rcases List.mem_append.mp hmem with hmem | hmem
        · exact List.mem_append_right _ hmem
        · exact List.mem_append_left _ hmem
      obtain ⟨s', hreach, h', hfetched, hgone⟩ := can_answer_submitted h.drained hwaits hsafe
      refine ⟨s', (reaches_drained cfg _ s rfl).trans hreach, h', hfetched, ?_⟩
      refine Leaves.trans (.of_perm ?_) hgone
      exact s.perm_drained
    · obtain ⟨x, hx, rfl⟩ := List.mem_map.mp hmem
      exact can_answer h hx
  obtain ⟨s', hreach, h', hfetched, hgone⟩ := hcomes
  exact ⟨s', hreach, hfetched, completed_of_leaves h.accounted h'.accounted hfetched hgone⟩

/-- A command on queues that finds them as it needs them is safe. -/
theorem safe_command {k : Nat} {w : QueueTable.Open} {req : SQEntryWrapper}
    {c : QueueTable.Command} (hreq : s.submitted[k]? = some req)
    (hcommand : command? req w = some c) (hclear : QueueTable.Clear cfg s.toQueueTable c)
    (hfits : Fits cfg s c) : Safe cfg s (.submitCommand k now w) := by
  intro req' hreq'
  obtain rfl := Option.some.inj (hreq.symm.trans hreq')
  have hopcode : req.opcode ≠ 0x08 ∧ req.opcode ≠ 0x02 ∧ req.opcode ≠ 0x0D := by
    rw [command?] at hcommand
    split_ifs at hcommand with hadmin hop hop hop hop <;> rw [hop] <;> decide
  refine ⟨fun c' hc' => ?_, fun habort => absurd habort.2 hopcode.1,
    fun htwice => hopcode.2.1 htwice.2.1, fun hnever => hopcode.2.2 hnever.2.1⟩
  obtain rfl := Option.some.inj (hcommand.symm.trans hc')
  exact ⟨hclear, hfits⟩

/-- A command of an I/O queue is safe. -/
theorem safe_io {k : Nat} {w : QueueTable.Open} {req : SQEntryWrapper}
    (hreq : s.submitted[k]? = some req) (hio : req.sqID ≠ 0) :
    Safe cfg s (.submitCommand k now w) := by
  intro req' hreq'
  obtain rfl := Option.some.inj (hreq.symm.trans hreq')
  refine ⟨fun c hc => ?_, fun habort => absurd habort.1 hio, fun htwice => hio htwice.1,
    fun hnever => hio hnever.1⟩
  rw [command?, if_neg hio] at hc
  cases hc

theorem start_inv (cfg : QueueConfig) (cqEntries sqEntries : Nat) :
    Inv cfg (start cqEntries sqEntries) (start cqEntries sqEntries).inFlight :=
  ⟨⟨QueueTable.admin_linked cfg cqEntries sqEntries, nofun, nofun, nofun, .nil⟩, nofun, nofun⟩

end Steps

/-- An entry is fetched from a queue and its command comes to the subsystem. -/
def fetch (i tail : Nat) (entry : SQEntryWrapper) : List Event :=
  [.ringSQTailDoorbell i tail, .checkQueue i, .readDone 0 entry, .handleRequest,
    .submitCommand 0 0 ⟨0, false⟩]

/-- Completion queue 1 and submission queue 1 are created, and a command is fetched. -/
def created : List Event :=
  fetch 0 1 { QueueTable.queueCommand 1 1 with opcode := 0x05 } ++ [.answer 0 0 .zero 0] ++
    fetch 0 2 { QueueTable.queueCommand 1 1 with opcode := 0x01 } ++ [.answer 0 0 .zero 0] ++
    fetch 1 1 { QueueTable.queueCommand 0 0 with opcode := 0x02 }

/-- The two queues are deleted. -/
def deletions : List Event :=
  fetch 0 3 { QueueTable.queueCommand 1 0 with opcode := 0x00 } ++
    fetch 0 4 { QueueTable.queueCommand 1 0 with opcode := 0x04 }

theorem safe_created : Run.Along (exec QueueTable.smallConfig) (Safe QueueTable.smallConfig)
    (start 64 64) created := by
  refine ⟨trivial, trivial, trivial, trivial, ?_, trivial, trivial, trivial, trivial, trivial, ?_,
    trivial, trivial, trivial, trivial, trivial, ?_, trivial⟩
  · exact safe_command rfl rfl (fun _ => by decide) fun _ => rfl
  · exact safe_command rfl rfl (fun _ => by decide) fun _ => ⟨rfl, rfl, by decide⟩
  · exact safe_io rfl (by decide)

/-- The completion queue is deleted before the entry has been written. -/
example : (List.foldlM (exec QueueTable.smallConfig) (start 64 64) (created ++
    [.answer 0 0 .zero 0, .completion 0] ++ deletions ++ [.written 0 2])).Sat (fun _ => False)
      (· = .badAccess "base") := by
  decide +kernel

end Pipeline

end SimpleSSD.HIL.NVMe
