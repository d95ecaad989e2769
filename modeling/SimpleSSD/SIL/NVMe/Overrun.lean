import SimpleSSD.SIL.NVMe.Driver

/-!
# Room in the queues

The driver writes a command to the slot at its tail whether or not the controller has read
what is there, and the controller takes a ring that is filled to the last slot for an empty
one. Commands get to the controller as long as there is room for them.
-/

namespace SimpleSSD.SIL.NVMe

variable {C : Type}

/-! ### Submission queues -/

namespace Submission

/-- The slots the controller is still going to read. -/
def unread (q : Submission C) : List Nat := q.dmaReadQueue ++ q.pSQueue.pending

/-- What has been read and what will be read is what was submitted. -/
def Intact (q : Submission C) : Prop := q.fetched ++ q.unread.map q.queue.memory = q.submitted

/-- There is room for a command: fewer commands wait in the ring than it can take, and with
those that wait for their transfer there are fewer than slots. -/
def HasRoom (q : Submission C) : Prop :=
  q.submitted.length + 1 < q.fetched.length + q.dmaReadQueue.length + q.queue.entries ∧
    q.submitted.length < q.fetched.length + q.queue.entries

instance (q : Submission C) : Decidable q.HasRoom := inferInstanceAs (Decidable (_ ∧ _))

/-- The commands lie in the ring one behind the other. -/
structure Ordered (q : Submission C) : Prop where
  ring : q.pSQueue.IsRing
  size : q.pSQueue.size = q.queue.entries
  tail : q.pSQueue.tail = q.queue.tail
  head : q.pSQueue.head = (q.fetched.length + q.dmaReadQueue.length) % q.queue.entries
  read : q.dmaReadQueue = Laps.window q.queue.entries q.fetched.length q.dmaReadQueue.length
  fits : q.dmaReadQueue.length + q.pSQueue.getItemCount ≤ q.queue.entries
  intact : q.Intact

section Ordered

variable {q : Submission C}

/-- The slots to be read follow those that have been read. -/
theorem Ordered.unread_eq (h : q.Ordered) : q.unread = Laps.window q.queue.entries
    q.fetched.length (q.dmaReadQueue.length + q.pSQueue.getItemCount) := by
  rw [unread, Laps.window_add, ← h.read, HIL.NVMe.Queue.pending_eq_window, h.size, h.head,
    Laps.window_mod]

theorem Intact.length (h : q.Intact) : q.submitted.length =
    q.fetched.length + (q.dmaReadQueue.length + q.pSQueue.getItemCount) := by
  rw [← congrArg List.length h, List.length_append, List.length_map, unread, List.length_append,
    HIL.NVMe.Queue.length_pending]

theorem Ordered.tail_eq (h : q.Ordered) : q.queue.tail =
    (q.fetched.length + (q.dmaReadQueue.length + q.pSQueue.getItemCount)) % q.queue.entries := by
  rw [← h.tail, h.ring.tail_eq, h.size, h.head, Nat.mod_add_mod, Nat.add_assoc]

theorem Ordered.entries_pos (h : q.Ordered) : 0 < q.queue.entries := by
  have hhead := h.ring.head
  rw [h.size] at hhead
  omega

/-- With room for it, a command is not written over one that is still to be read. -/
theorem Ordered.tail_not_mem (h : q.Ordered) (hroom : q.HasRoom) : q.queue.tail ∉ q.unread := by
  have hlength := h.intact.length
  obtain ⟨-, hlt⟩ := hroom
  rw [h.tail_eq, h.unread_eq]
  exact Laps.not_mem_window (by omega)

/-- The controller sees the queue with one more entry. -/
theorem Ordered.pSQueue_submitCommand (h : q.Ordered) (cmd : C) :
    (q.submitCommand cmd).pSQueue = q.pSQueue.push := by
  have hqueue : (q.submitCommand cmd).pSQueue = { q.pSQueue with
      tail := if q.queue.tail + 1 = q.queue.entries then 0 else q.queue.tail + 1 } := rfl
  rw [hqueue, ← h.tail, ← h.size, ← HIL.NVMe.Queue.next_of_lt h.ring.tail h.ring.size]
  rfl

theorem Ordered.submitCommand (h : q.Ordered) (hroom : q.HasRoom) (cmd : C) :
    (q.submitCommand cmd).Ordered := by
  have hlength := h.intact.length
  have hpush := h.pSQueue_submitCommand cmd
  have hcount : q.pSQueue.push.getItemCount = q.pSQueue.getItemCount + 1 := by
    rw [h.ring.getItemCount_push, if_neg]
    have hsize := h.size
    have hroom := hroom.1
    omega
  have hunread : (q.submitCommand cmd).unread = q.unread ++ [q.queue.tail] := by
    show q.dmaReadQueue ++ (q.submitCommand cmd).pSQueue.pending = _
    rw [hpush, HIL.NVMe.Queue.pending_eq_window, hcount, Laps.window_succ, ← List.append_assoc,
      ← h.tail, h.ring.tail_eq]
    rfl
  refine ⟨?_, ?_, rfl, ?_, h.read, ?_, ?_⟩
  · rw [hpush]
    exact h.ring.push
  · rw [hpush]
    exact h.size
  · rw [hpush]
    exact h.head
  · rw [hpush, hcount]
    show q.dmaReadQueue.length + _ ≤ q.queue.entries
    have hroom := hroom.2
    omega
  · -- the slot at the tail is none of those to be read
    have hmemory : (q.submitCommand cmd).queue.memory = Function.update q.queue.memory
        q.queue.tail (increaseCommandID q.commandID, cmd) := rfl
    have hkeep : q.unread.map (q.submitCommand cmd).queue.memory = q.unread.map q.queue.memory :=
      List.map_congr_left fun slot hslot => by
        rw [hmemory, Function.update_of_ne]
        rintro rfl
        exact h.tail_not_mem hroom hslot
    show q.fetched ++ _ = q.submitted ++ [(increaseCommandID q.commandID, cmd)]
    rw [hunread, List.map_append, hkeep, ← List.append_assoc, h.intact, List.map_singleton, hmemory,
      Function.update_self]

/-- Without room, the command is written over another one, or the queue is emptied. -/
theorem Ordered.hasRoom (h : q.Ordered) (cmd : C) (hslot : q.queue.tail ∉ q.unread)
    (hintact : (q.submitCommand cmd).Intact) : q.HasRoom := by
  have hlength := h.intact.length
  have hafter : q.submitted.length + 1 = q.fetched.length +
      (q.dmaReadQueue.length + q.pSQueue.push.getItemCount) := by
    have hsubmitted : (q.submitCommand cmd).submitted.length = q.submitted.length + 1 :=
      List.length_append
    rw [← h.pSQueue_submitCommand cmd, ← hsubmitted]
    exact hintact.length
  have hsize := h.size
  have hfits := h.fits
  have hlt := h.ring.getItemCount_lt
  rw [h.ring.getItemCount_push] at hafter
  constructor
  · split at hafter <;> omega
  · by_contra hfull
    refine hslot ?_
    have hall : q.dmaReadQueue.length + q.pSQueue.getItemCount = q.queue.entries := by omega
    rw [h.tail_eq, h.unread_eq, hall]
    exact Laps.mem_window_self h.entries_pos

/-- A command that is taken from the ring waits for its transfer. -/
theorem Ordered.checkQueue (h : q.Ordered) : q.checkQueue.Ordered := by
  unfold Submission.checkQueue
  split
  · next hpos =>
    have hpending := h.ring.pending_eq_cons hpos
    have hcount := h.ring.getItemCount_advance hpos
    have hunread :
        (q.dmaReadQueue ++ [q.pSQueue.head]) ++ q.pSQueue.advance.pending = q.unread := by
      rw [unread, hpending, List.append_assoc]
      rfl
    refine ⟨h.ring.advance, h.size, h.tail, ?_, ?_, ?_, ?_⟩
    · show q.pSQueue.next q.pSQueue.head = _
      rw [HIL.NVMe.Queue.next_eq_mod h.ring.head h.ring.size, h.size, h.head, Nat.mod_add_mod,
        List.length_append, List.length_singleton, Nat.add_assoc]
    · rw [List.length_append, List.length_singleton, Laps.window_succ, ← h.read, ← h.head]
    · rw [List.length_append, List.length_singleton]
      have hfits := h.fits
      show q.dmaReadQueue.length + 1 + q.pSQueue.advance.getItemCount ≤ q.queue.entries
      omega
    · show q.fetched ++ List.map q.queue.memory (_ ++ q.pSQueue.advance.pending) = q.submitted
      rw [hunread]
      exact h.intact
  · exact h

/-- A command that is transferred is the next one. -/
theorem Ordered.submitDMARead (h : q.Ordered) : q.submitDMARead.Ordered := by
  unfold Submission.submitDMARead
  split
  · exact h
  · next slot rest hread =>
    have hwindow := h.read
    rw [hread, List.length_cons, Laps.window_cons] at hwindow
    obtain ⟨-, hrest⟩ := List.cons.inj hwindow
    have hhead := h.head
    have hfits := h.fits
    have hintact := h.intact
    rw [hread, List.length_cons] at hhead hfits
    rw [Intact, unread, hread] at hintact
    refine ⟨h.ring, h.size, h.tail, ?_, ?_, ?_, ?_⟩
    · rw [hhead, List.length_append, List.length_singleton, Nat.add_assoc, Nat.add_comm 1]
    · rw [List.length_append, List.length_singleton]
      exact hrest
    · show rest.length + q.pSQueue.getItemCount ≤ q.queue.entries
      omega
    · show (q.fetched ++ [q.queue.memory slot]) ++ List.map q.queue.memory (rest ++ _) = _
      rw [List.append_assoc]
      exact hintact

/-- Steps to be done until everything submitted is read. -/
def work (q : Submission C) : Nat := 2 * q.pSQueue.getItemCount + q.dmaReadQueue.length

theorem Ordered.fetched_eq (h : q.Ordered) (hwork : q.work = 0) : q.fetched = q.submitted := by
  have hunread : q.unread = [] := by
    rw [← List.length_eq_zero_iff, h.unread_eq, Laps.length_window]
    rw [work] at hwork
    omega
  have hintact := h.intact
  rwa [Intact, hunread, List.map_nil, List.append_nil] at hintact

theorem submitted_checkQueue (q : Submission C) : q.checkQueue.submitted = q.submitted := by
  unfold checkQueue
  split <;> rfl

theorem submitted_submitDMARead (q : Submission C) : q.submitDMARead.submitted = q.submitted := by
  unfold submitDMARead
  split <;> rfl

theorem Ordered.work_checkQueue (h : q.Ordered) (hpos : 0 < q.pSQueue.getItemCount) :
    q.checkQueue.work + 1 = q.work := by
  have hcount := h.ring.getItemCount_advance hpos
  rw [Submission.checkQueue, if_pos hpos, work, work, List.length_append, List.length_singleton]
  show 2 * q.pSQueue.advance.getItemCount + _ + 1 = _
  omega

theorem work_submitDMARead (hne : q.dmaReadQueue ≠ []) : q.submitDMARead.work + 1 = q.work := by
  unfold submitDMARead
  split
  · next hnil => exact absurd hnil hne
  · next slot rest hread =>
    rw [work, work, hread, List.length_cons]
    rfl

end Ordered

end Submission

/-! ### Completion queues -/

namespace Completion

/-- The completion queue takes another entry. -/
def HasRoom (q : Completion) : Prop := q.pCQueue.getItemCount + 1 < q.queue.entries

instance (q : Completion) : Decidable q.HasRoom := inferInstanceAs (Decidable (_ < _))

/-- The two sides go round the same ring. -/
structure IsRing (q : Completion) : Prop where
  ring : q.pCQueue.IsRing
  size : q.pCQueue.size = q.queue.entries
  head : q.queue.head < q.queue.entries

section IsRing

variable {q q' : Completion} {dw0 : BitVec 32} {commandID : Nat} {status : BitVec 15}

/-- `CQueue::setData` reads and moves the tail. -/
theorem pCQueue_setData (q : HIL.NVMe.CQueue) : q.setData =
    if q.head = q.next q.tail then .error (.panic "CQueue::setData" "Completion queue overflow")
    else .ok ((q.tail, q.phase), { q with
      tail := q.next q.tail
      phase := if (q.tail + 1) % 2 ^ 16 = q.size then !q.phase else q.phase }) := rfl

/-- An entry is written exactly as long as there is room for it. -/
theorem IsRing.setData_eq_error_iff (h : q.IsRing) :
    q.setData dw0 commandID status =
      .error (.panic "CQueue::setData" "Completion queue overflow") ↔ ¬ q.HasRoom := by
  have hlt := h.ring.getItemCount_lt
  have hcount := h.ring.getItemCount_push
  have hempty : q.pCQueue.head = q.pCQueue.next q.pCQueue.tail ↔
      q.pCQueue.push.getItemCount = 0 := by
    rw [h.ring.push.getItemCount_eq]
    have hhead := h.ring.head
    show _ ↔ (if q.pCQueue.head ≤ q.pCQueue.next q.pCQueue.tail then
      q.pCQueue.next q.pCQueue.tail - q.pCQueue.head
      else q.pCQueue.size - q.pCQueue.head + q.pCQueue.next q.pCQueue.tail) = 0
    split <;> omega
  rw [HasRoom, ← h.size, setData, pCQueue_setData]
  split
  · next hfull =>
    have hzero := hempty.mp hfull
    rw [hcount] at hzero
    split at hzero
    · exact ⟨fun _ => by omega, fun _ => rfl⟩
    · omega
  · next hroom =>
    refine ⟨fun h => (by cases h), fun hnot => absurd (hempty.mpr ?_) hroom⟩
    rw [hcount, if_pos (by omega)]

theorem IsRing.setData (h : q.IsRing) (hset : q.setData dw0 commandID status = .ok q') :
    q'.IsRing := by
  rw [Completion.setData, Except.map_eq_ok] at hset
  obtain ⟨r, hr, rfl⟩ := hset
  rw [pCQueue_setData] at hr
  split at hr
  · cases hr
  · cases hr
    exact ⟨⟨h.ring.head, HIL.NVMe.Queue.next_lt h.ring.tail, h.ring.size⟩, h.size, h.head⟩

theorem IsRing.submitDMAWrite (h : q.IsRing) : q.submitDMAWrite.IsRing := by
  unfold Completion.submitDMAWrite
  split
  · exact h
  · exact ⟨h.ring, h.size, h.head⟩

theorem IsRing.consume (h : q.IsRing) : q.consume.IsRing := by
  refine ⟨h.ring, h.size, ?_⟩
  have hhead := h.head
  show (if q.queue.head + 1 = q.queue.entries then 0 else q.queue.head + 1) < q.queue.entries
  split <;> omega

theorem IsRing.ringHead (h : q.IsRing) : q.ringHead.IsRing := by
  unfold Completion.ringHead
  split
  · refine ⟨⟨?_, h.ring.tail, h.ring.size⟩, h.size, h.head⟩
    show q.queue.head < q.pCQueue.size
    rw [h.size]
    exact h.head
  · exact h

end IsRing

end Completion

/-! ### Runs -/

namespace Driver

/-- What a step should do: what was submitted stays to be read, a command is not written over
one that is still to be read, and the completion queue does not overflow. -/
def Unharmed (s : Driver C) (e : Event C) : Prop :=
  (exec s e).All (fun s' => ∀ iv, (s'.submission iv).Intact) ∧
    (∀ iv cmd, e = .submitCommand iv cmd →
      (s.submission iv).queue.tail ∉ (s.submission iv).unread) ∧
    exec s e ≠ .error (.panic "CQueue::setData" "Completion queue overflow")

/-- There is room for the command or the completion. -/
def HasRoom (s : Driver C) : Event C → Prop
  | .submitCommand iv _ => (s.submission iv).HasRoom
  | .setData iv _ _ _ => (s.completion iv).HasRoom
  | _ => True

instance (s : Driver C) : ∀ e, Decidable (s.HasRoom e)
  | .submitCommand iv _ => inferInstanceAs (Decidable (s.submission iv).HasRoom)
  | .setData iv _ _ _ => inferInstanceAs (Decidable (s.completion iv).HasRoom)
  | .checkQueue _ | .submitDMARead _ | .submitDMAWrite _ | .updateInterrupt _ =>
    inferInstanceAs (Decidable True)

/-- All queues are in order. -/
structure Ordered (s : Driver C) : Prop where
  submission : ∀ iv, (s.submission iv).Ordered
  completion : ∀ iv, (s.completion iv).IsRing

section Steps

variable {s s' : Driver C} {e : Event C}

theorem Ordered.setSubmission (h : s.Ordered) (iv : QueueID) {q : Submission C} (hq : q.Ordered) :
    (s.setSubmission iv q).Ordered := by
  refine ⟨?_, h.completion⟩
  show ∀ j, (Function.update s.submission iv q j).Ordered
  exact (Function.forall_update_iff _ fun _ q => Submission.Ordered q).mpr
    ⟨hq, fun j _ => h.submission j⟩

theorem Ordered.setCompletion (h : s.Ordered) (iv : QueueID) {q : Completion} (hq : q.IsRing) :
    (s.setCompletion iv q).Ordered := by
  refine ⟨h.submission, ?_⟩
  show ∀ j, (Function.update s.completion iv q j).IsRing
  exact (Function.forall_update_iff _ fun _ q => Completion.IsRing q).mpr
    ⟨hq, fun j _ => h.completion j⟩

theorem exec_ordered (h : s.Ordered) (hroom : s.HasRoom e) (hexec : exec s e = .ok s') :
    s'.Ordered := by
  cases e with
  | submitCommand iv cmd =>
    cases hexec
    have hset := h.setSubmission iv ((h.submission iv).submitCommand hroom cmd)
    exact ⟨hset.submission, hset.completion⟩
  | checkQueue iv =>
    cases hexec
    exact h.setSubmission iv (h.submission iv).checkQueue
  | submitDMARead iv =>
    cases hexec
    exact h.setSubmission iv (h.submission iv).submitDMARead
  | setData iv dw0 commandID status =>
    rw [exec, Except.map_eq_ok] at hexec
    obtain ⟨q, hq, rfl⟩ := hexec
    exact h.setCompletion iv ((h.completion iv).setData hq)
  | submitDMAWrite iv =>
    cases hexec
    exact h.setCompletion iv (h.completion iv).submitDMAWrite
  | updateInterrupt iv =>
    rw [exec, updateInterrupt] at hexec
    dsimp only at hexec
    split at hexec
    · split at hexec
      · cases hexec
        have hset := h.setCompletion iv (h.completion iv).consume
        exact ⟨hset.submission, hset.completion⟩
      · cases hexec
    · cases hexec
      exact h.setCompletion iv (h.completion iv).ringHead

/-- A step that does what it should had the room. -/
theorem hasRoom_of_unharmed (h : s.Ordered) (hstep : s.Unharmed e) : s.HasRoom e := by
  obtain ⟨hintact, hslot, hpanic⟩ := hstep
  cases e with
  | submitCommand iv cmd =>
    refine (h.submission iv).hasRoom cmd (hslot iv cmd rfl) ?_
    have hiv : (Function.update s.submission iv ((s.submission iv).submitCommand cmd) iv).Intact :=
      hintact iv
    rwa [Function.update_self] at hiv
  | setData iv dw0 commandID status =>
    by_contra hfull
    refine hpanic ?_
    rw [exec, (h.completion iv).setData_eq_error_iff.mpr hfull]
    rfl
  | checkQueue iv => trivial
  | submitDMARead iv => trivial
  | submitDMAWrite iv => trivial
  | updateInterrupt iv => trivial

theorem unharmed_of_hasRoom (h : s.Ordered) (hroom : s.HasRoom e) : s.Unharmed e := by
  refine ⟨Except.all_iff.mpr fun s' hexec iv => ?_, ?_, fun herror => ?_⟩
  · exact ((exec_ordered h hroom hexec).submission iv).intact
  · rintro iv cmd rfl
    exact (h.submission iv).tail_not_mem hroom
  · cases e with
    | setData iv dw0 commandID status =>
      rw [exec] at herror
      cases hset : (s.completion iv).setData dw0 commandID status with
      | ok q =>
        rw [hset] at herror
        cases herror
      | error fault =>
        rw [hset] at herror
        obtain rfl := Except.error.inj herror
        exact (h.completion iv).setData_eq_error_iff.mp hset hroom
    | updateInterrupt iv =>
      rw [exec, updateInterrupt] at herror
      dsimp only at herror
      split at herror
      · split at herror
        · cases herror
        · exact absurd (Except.error.inj herror) (by decide)
      · cases herror
    | submitCommand iv cmd => cases herror
    | checkQueue iv => cases herror
    | submitDMARead iv => cases herror
    | submitDMAWrite iv => cases herror

/-- Everything submitted can be read. -/
theorem exists_run_fetched {n : Nat} (h : s.Ordered)
    (hwork : (s.submission .admin).work + (s.submission .io).work = n) :
    ∃ (later : List (Event C)) (s' : Driver C), later.foldlM exec s = .ok s' ∧
      ∀ iv, (s'.submission iv).fetched = (s.submission iv).submitted := by
  induction n generalizing s with
  | zero =>
    refine ⟨[], s, rfl, fun iv => (h.submission iv).fetched_eq ?_⟩
    cases iv <;> omega
  | succ n ih =>
    -- one of the queues has a command in its ring, or one that waits for its transfer
    have hstep : ∃ (e : Event C) (s₁ : Driver C), exec s e = .ok s₁ ∧ s.HasRoom e ∧
        (s₁.submission .admin).work + (s₁.submission .io).work = n ∧
        ∀ iv, (s₁.submission iv).submitted = (s.submission iv).submitted := by
      have hone : ∀ iv, 0 < (s.submission iv).work → ∃ (e : Event C) (q : Submission C),
          exec s e = .ok (s.setSubmission iv q) ∧ s.HasRoom e ∧
          q.work + 1 = (s.submission iv).work ∧ q.submitted = (s.submission iv).submitted := by
        intro iv hpos
        by_cases hcount : 0 < (s.submission iv).pSQueue.getItemCount
        · exact ⟨.checkQueue iv, _, rfl, trivial, (h.submission iv).work_checkQueue hcount,
            Submission.submitted_checkQueue _⟩
        · refine ⟨.submitDMARead iv, _, rfl, trivial, Submission.work_submitDMARead fun hnil => ?_,
            Submission.submitted_submitDMARead _⟩
          rw [Submission.work, hnil, List.length_nil] at hpos
          omega
      have hsome : 0 < (s.submission .admin).work ∨ 0 < (s.submission .io).work := by omega
      rcases hsome with hpos | hpos
      · obtain ⟨e, q, hexec, hroom, hless, hsame⟩ := hone .admin hpos
        refine ⟨e, _, hexec, hroom, ?_, fun iv => ?_⟩
        · show q.work + (s.submission .io).work = n
          omega
        · cases iv with
          | admin => exact hsame
          | io => rfl
      · obtain ⟨e, q, hexec, hroom, hless, hsame⟩ := hone .io hpos
        refine ⟨e, _, hexec, hroom, ?_, fun iv => ?_⟩
        · show (s.submission .admin).work + q.work = n
          omega
        · cases iv with
          | admin => rfl
          | io => exact hsame
    obtain ⟨e, s₁, hexec, hroom, hless, hsame⟩ := hstep
    obtain ⟨later, s', hlater, hfetched⟩ := ih (exec_ordered h hroom hexec) hless
    refine ⟨e :: later, s', ?_, fun iv => (hfetched iv).trans (hsame iv)⟩
    rw [List.foldlM_cons, hexec]
    exact hlater

theorem start_ordered [Inhabited C] (cfg : DriverConfig) : (cfg.start : Driver C).Ordered := by
  have hring : ∀ iv, (⟨iv.toNat, 0, 0, cfg.entries iv⟩ : HIL.NVMe.Queue).IsRing := fun iv =>
    ⟨cfg.entries_pos iv, cfg.entries_pos iv, cfg.entries_lt iv⟩
  refine ⟨fun iv => ?_, fun iv => ⟨hring iv, rfl, cfg.entries_pos iv⟩⟩
  exact ⟨hring iv, rfl, rfl, (Nat.zero_mod _).symm, rfl, Nat.zero_le _, rfl⟩

end Steps

/-- Along every run, no command is lost, read twice or written over before it is read, and
the completion queues do not overflow, exactly as long as there is room for the commands and
the completions. In such a run everything submitted can be read, once each. -/
theorem run_unharmed_iff [Inhabited C] (cfg : DriverConfig) (events : List (Event C)) :
    (Run.Along exec Unharmed cfg.start events ↔ Run.Along exec HasRoom cfg.start events) ∧
      (Run.Along exec HasRoom cfg.start events → ∀ s, events.foldlM exec cfg.start = .ok s →
        ∃ (later : List (Event C)) (s' : Driver C), later.foldlM exec s = .ok s' ∧
          ∀ iv, (s'.submission iv).fetched = (s.submission iv).submitted) := by
  refine ⟨?_, fun hroom s hrun => ?_⟩
  · refine ((Run.Along.of_forall (fun _ _ => trivial) _ _).iff (I := Ordered) (start_ordered cfg)
      (fun s e hs _ hroom => ?_) fun s e hs _ =>
        ⟨unharmed_of_hasRoom hs, hasRoom_of_unharmed hs⟩).symm
    exact Except.all_iff.mpr fun s' hexec => exec_ordered hs hroom hexec
  · have hordered : s.Ordered := hroom.foldlM_inv (I := Ordered)
      (fun s e s' hs hroom hexec => exec_ordered hs hroom hexec) (start_ordered cfg) hrun
    exact exists_run_fetched hordered rfl

/-- Queues of four entries. -/
def smallConfig : DriverConfig := ⟨fun _ => 4, fun _ => 0, fun _ => by decide, fun _ => by decide⟩

/-- Four commands are submitted before the controller looks at the queue. -/
def burst : List (Event Nat) := (List.range 4).map (.submitCommand .io)

/-- The fourth command makes the full queue an empty one. -/
theorem not_unharmed_burst : ¬ Run.Along exec Unharmed (smallConfig.start) burst := by
  rintro ⟨-, h⟩
  obtain ⟨-, h⟩ := h
  obtain ⟨-, h⟩ := h
  obtain ⟨⟨h, -⟩, -⟩ := h
  have hlength := (h .io).length
  exact absurd hlength (by decide)

end Driver

end SimpleSSD.SIL.NVMe
