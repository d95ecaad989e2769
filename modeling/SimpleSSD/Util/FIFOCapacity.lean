import SimpleSSD.Util.FIFORead

/-!
# The capacity of the FIFO

What is accounted in a direction is what its entries in the FIFO cost, and stays within the
capacity, exactly in the runs in which the parts of requests that are larger than the FIFO find
room: they are inserted without looking at it. Along these runs every call but a new request
brings the FIFO closer to having nothing to do.
-/

namespace SimpleSSD

namespace FIFOQueue

/-- Should the first waiting entry be larger than the FIFO, there is room for a part of it. -/
def HasRoom (p : FIFOParam) (limit : Nat) (q : FIFOQueue) : Prop :=
  ∀ front ∈ q.waitQueue.head?, limit < p.calcSize front.size → q.usage + p.transferUnit ≤ limit

/-- What is accounted is what the entries cost, within the capacity. -/
def Accounted (p : FIFOParam) (limit : Nat) (q : FIFOQueue) : Prop :=
  q.usage = (q.transferQueue.map fun iter => p.calcSize iter.size).sum ∧ q.usage ≤ limit

instance (p : FIFOParam) (limit : Nat) (q : FIFOQueue) : Decidable (q.Accounted p limit) := by
  unfold Accounted
  infer_instance

theorem room_iff {p : FIFOParam} {limit : Nat} {v : Pipeline FIFOPiece} {q : FIFOQueue}
    (hunit : p.transferUnit ≤ limit) (hlimit : limit < 2 ^ 63) (hwait : v.wait = pieces q.waitQueue)
    (husage : v.usage = q.usage) : v.Room (p.rule limit hunit hlimit) ↔ q.HasRoom p limit := by
  have hunits : p.calcSize p.transferUnit = p.transferUnit := FIFOParam.calcSize_unit hunit hlimit
  cases hqueue : q.waitQueue with
  | nil => simp [Pipeline.Room, HasRoom, hwait, hqueue, pieces]
  | cons front others =>
    by_cases hlarge : limit < p.calcSize front.size
    · have hsplit : (p.rule limit hunit hlimit).split front.toFIFOPiece =
          some (p.splitPiece front.toFIFOPiece) := if_pos hlarge
      have hcost : (p.rule limit hunit hlimit).cost (p.splitPiece front.toFIFOPiece).1 =
          p.transferUnit := hunits
      simp only [Pipeline.Room, HasRoom, hwait, hqueue, pieces, List.map_cons, List.head?_cons,
        Option.mem_some_iff, forall_eq', hsplit, hcost, husage, hlarge, forall_true_left]
      rfl
    · have hsplit : (p.rule limit hunit hlimit).split front.toFIFOPiece = none := if_neg hlarge
      simp [Pipeline.Room, HasRoom, hwait, hqueue, pieces, hsplit, hlarge]

theorem writing_room {p : FIFOParam} {q : FIFOQueue} :
    q.writing.Room p.writeRule ↔ q.HasRoom p p.wqSize :=
  room_iff p.unit_le_wqSize p.wqSize_lt rfl rfl

theorem reading_room {p : FIFOParam} {q : FIFOQueue} :
    q.reading.Room p.readRule ↔ q.HasRoom p p.rqSize :=
  room_iff p.unit_le_rqSize p.rqSize_lt rfl rfl

end FIFOQueue

namespace FIFO

open FIFOQueue (pieces Writes)

variable {p : FIFOParam} {s : FIFO}

/-- Both directions are accounted. -/
def Accounted (p : FIFOParam) (s : FIFO) : Prop :=
  s.readQueue.Accounted p p.rqSize ∧ s.writeQueue.Accounted p p.wqSize

instance (p : FIFOParam) (s : FIFO) : Decidable (s.Accounted p) := by
  unfold Accounted
  infer_instance

/-- What the calls keep. -/
structure Kept (p : FIFOParam) (s : FIFO) : Prop where
  writes : Writes p (decide (s.stage = .writeCalling)) s.writeQueue
  writeServed : s.writeQueue.writing.Served
  reads : Reads p s
  readServed : s.readQueue.reading.Served

/-- Where the next entry may be inserted into the FIFO, there is room for it if it is larger. -/
def HasRoom (p : FIFOParam) (s : FIFO) : Call → Prop
  | .dmaWrite _ r => r.size ≠ 0 → (s.writeQueue.push r).HasRoom p p.wqSize
  | .insertWriteDone _ => s.writeQueue.popWait.HasRoom p p.wqSize
  | .dmaRead r => r.size ≠ 0 → (s.readQueue.push r).HasRoom p p.rqSize
  | .returned _ =>
    (s.stage = .writeCalling → (s.writeQueue.release p).HasRoom p p.wqSize) ∧
      (s.readCalling = true → (s.readQueue.release p).HasRoom p p.rqSize)
  | .transferNext => s.popRead.readQueue.HasRoom p p.rqSize
  | _ => True

/-- The requests of a call. -/
def Call.writes : Call → List FIFORequest
  | .dmaWrite _ r => if r.size = 0 then [] else [r]
  | _ => []

def Call.reads : Call → List FIFORequest
  | .dmaRead r => if r.size = 0 then [] else [r]
  | _ => []

/-- The call is a new request. -/
def Call.isRequest : Call → Bool
  | .dmaWrite _ _ => true
  | .dmaRead _ => true
  | _ => false

/-! ### What is left to do -/

def writeLeft (p : FIFOParam) (s : FIFO) : Nat :=
  s.writeQueue.writing.load p.writeRule - s.writeQueue.writePhase (decide (s.stage = .writeCalling))

def readLeft (p : FIFOParam) (s : FIFO) : Nat :=
  s.readQueue.reading.load p.readRule - s.readPhase

/-- How many calls may still come if nothing is requested. -/
def callsLeft (p : FIFOParam) (s : FIFO) : Nat := s.writeLeft p + s.readLeft p

theorem writePhase_le_three (called : Bool) (q : FIFOQueue) : q.writePhase called ≤ 3 := by
  rw [FIFOQueue.writePhase]
  split
  · exact le_rfl
  · split
    · decide
    · split <;> decide

theorem readPhase_le_four (s : FIFO) : s.readPhase ≤ (if s.transferring then 1 else 0) + 4 := by
  rw [readPhase]
  refine Nat.add_le_add_left ?_ _
  split
  · exact le_rfl
  · split
    · decide
    · split
      · decide
      · split <;> decide

theorem Kept.writePhase_le (h : Kept p s) :
    s.writeQueue.writePhase (decide (s.stage = .writeCalling)) ≤
      s.writeQueue.writing.load p.writeRule := by
  by_cases hpending : s.writeQueue.transferPending = true
  · have hle := Pipeline.le_load p.writeRule (h.writes.flows.draining hpending)
    have hphase := writePhase_le_three (decide (s.stage = .writeCalling)) s.writeQueue
    omega
  · have hcalling : ¬ decide (s.stage = .writeCalling) = true := fun hc =>
      hpending (h.writes.calling hc)
    have hsubmit : ¬ s.writeQueue.submitCompletion = true := fun hs =>
      hpending (h.writes.submit hs).1
    rw [FIFOQueue.writePhase, if_neg hcalling, if_neg hsubmit, if_neg hpending]
    exact Nat.zero_le _

theorem Kept.readPhase_le (h : Kept p s) :
    s.readPhase ≤ s.readQueue.reading.load p.readRule := by
  have hfilling : (if s.transferring then 1 else 0) ≤
      if s.readQueue.reading.filling then 2 else 0 := by
    by_cases ht : s.transferring = true
    · have hf : s.readQueue.reading.filling = true := h.reads.transferring ht
      rw [if_pos ht, if_pos hf]
      exact Nat.le_succ 1
    · rw [if_neg ht]
      exact Nat.zero_le _
  by_cases hpending : s.readQueue.insertPending = true
  · have hle := Pipeline.le_load p.readRule (h.reads.flows.draining hpending)
    have hphase := readPhase_le_four s
    omega
  · have hmerged : ¬ s.merged = true := fun hm => hpending (h.reads.merged hm).1
    rw [merged, decide_eq_true_eq, not_or] at hmerged
    have hnone : s.inserted = false := by simp [inserted, hpending]
    rw [readPhase, if_neg hmerged.2, if_neg hmerged.1, hnone, if_neg Bool.false_ne_true,
      if_neg hpending, Nat.add_zero, Pipeline.load]
    omega

/-! ### The calls -/

/-- A call that requests nothing. -/
structure Advances (p : FIFOParam) (s s' : FIFO) : Prop where
  kept : Kept p s'
  writes : s'.writeQueue.submitted = s.writeQueue.submitted
  reads : s'.readQueue.submitted = s.readQueue.submitted
  left : s'.callsLeft p < s.callsLeft p

/-- What the read queue keeps does not depend on the write queue. -/
theorem Reads.of_write {q : FIFOQueue} {stage : FIFOStage} (h : Reads p s)
    (ht : transferring { s with writeQueue := q, stage := stage } = s.transferring)
    (hr : readCalling { s with writeQueue := q, stage := stage } = s.readCalling) :
    Reads p { s with writeQueue := q, stage := stage } ∧
      readPhase { s with writeQueue := q, stage := stage } = s.readPhase := by
  let s' : FIFO := { s with writeQueue := q, stage := stage }
  have hbusy : s'.busy = s.busy := by
    rw [busy, busy, ht]
  have hids : s'.ids = s.ids := rfl
  have htransferred : s'.transferred = s.transferred := by
    rw [transferred, transferred, hbusy, hids]
  have hmerged : s'.merged = s.merged := by
    rw [merged, merged, hr]
  have hinserted : s'.inserted = s.inserted := by
    rw [inserted, inserted, hmerged]
  refine ⟨⟨⟨h.capacity, h.le, h.issued, hbusy ▸ h.finished, hr ▸ h.completed, h.ids, h.ids_lt,
    hbusy ▸ h.front, ht ▸ h.transferring, hmerged ▸ h.insertDone, ?_, hr ▸ h.submit, ?_, ?_⟩,
      h.flows⟩,
    ?_⟩
  · rw [hmerged, htransferred]
    exact h.merged
  · rw [hinserted, hbusy]
    exact h.inserted
  · rw [hmerged, hinserted, htransferred]
    exact h.readCompletion
  · rw [readPhase, readPhase, ht, hr, hinserted]

/-- The call is one of the write queue. -/
theorem Kept.advance_write {q : FIFOQueue} {stage : FIFOStage} (h : Kept p s)
    (ht : transferring { s with writeQueue := q, stage := stage } = s.transferring)
    (hr : readCalling { s with writeQueue := q, stage := stage } = s.readCalling)
    (hwrites : Writes p (decide (stage = .writeCalling)) q) (hserved : q.writing.Served)
    (hsubmitted : q.submitted = s.writeQueue.submitted)
    (hless : q.writing.load p.writeRule +
        s.writeQueue.writePhase (decide (s.stage = .writeCalling)) <
      s.writeQueue.writing.load p.writeRule + q.writePhase (decide (stage = .writeCalling))) :
    Advances p s { s with writeQueue := q, stage := stage } := by
  obtain ⟨hreads, hphase⟩ := h.reads.of_write ht hr
  have hkept : Kept p { s with writeQueue := q, stage := stage } :=
    ⟨hwrites, hserved, hreads, h.readServed⟩
  refine ⟨hkept, hsubmitted, rfl, ?_⟩
  have hle := h.writePhase_le
  have hle' := hkept.writePhase_le
  have hread : readLeft p { s with writeQueue := q, stage := stage } = s.readLeft p := by
    rw [readLeft, readLeft, hphase]
  have hwrite : writeLeft p { s with writeQueue := q, stage := stage } < s.writeLeft p := by
    rw [writeLeft, writeLeft]
    dsimp only at hle' ⊢
    omega
  rw [callsLeft, callsLeft, hread]
  exact Nat.add_lt_add_right hwrite _

/-- The call is one of the read queue. -/
theorem Kept.advance_read {s' : FIFO} (h : Kept p s) (hreads : Reads p s')
    (hserved : s'.readQueue.reading.Served) (hqueue : s'.writeQueue = s.writeQueue)
    (hstage : s.stage ≠ .writeCalling) (hstage' : s'.stage ≠ .writeCalling)
    (hsubmitted : s'.readQueue.submitted = s.readQueue.submitted)
    (hless : s'.readQueue.reading.load p.readRule + s.readPhase <
      s.readQueue.reading.load p.readRule + s'.readPhase) : Advances p s s' := by
  have hcalling : decide (s'.stage = .writeCalling) = decide (s.stage = .writeCalling) := by
    rw [decide_eq_false hstage, decide_eq_false hstage']
  have hkept : Kept p s' := by
    refine ⟨?_, ?_, hreads, hserved⟩
    · rw [hcalling, hqueue]
      exact h.writes
    · rw [hqueue]
      exact h.writeServed
  refine ⟨hkept, by rw [hqueue], hsubmitted, ?_⟩
  have hle := h.readPhase_le
  have hle' := hkept.readPhase_le
  have hwrite : s'.writeLeft p = s.writeLeft p := by rw [writeLeft, writeLeft, hqueue, hcalling]
  have hread : s'.readLeft p < s.readLeft p := by
    rw [readLeft, readLeft]
    omega
  rw [callsLeft, callsLeft, hwrite]
  exact Nat.add_lt_add_left hread _

section Write

variable {t : Nat}

theorem insertWrite_phase {called : Bool} {q : FIFOQueue} :
    (q.insertWrite p t).writePhase called = q.writePhase called := by
  obtain ⟨-, -, -, -, -, -, hsubmit, hpending, -, -⟩ :=
    FIFOQueue.insertWrite_fields (p := p) (t := t) (q := q)
  rw [FIFOQueue.writePhase, FIFOQueue.writePhase, hsubmit, hpending]

/-- Filling takes nothing back. -/
theorem insertWrite_load {called : Bool} {q : FIFOQueue} (h : Writes p called q) :
    (q.insertWrite p t).writing.load p.writeRule ≤ q.writing.load p.writeRule := by
  rw [FIFOQueue.writing_insertWrite h.capacity h.le]
  exact h.flows.fill_load_le

theorem insertWrite_submitted {q : FIFOQueue} : (q.insertWrite p t).submitted = q.submitted :=
  FIFOQueue.insertWrite_fields.2.1

theorem Kept.dmaWrite {r : FIFORequest} (h : Kept p s)
    (hroom : (s.writeQueue.push r).HasRoom p p.wqSize) :
    Kept p { s with writeQueue := (s.writeQueue.push r).insertWrite p t } := by
  obtain ⟨hwrites, hserved⟩ :=
    (h.writes.push r).insertWrite (t := t) (FIFOQueue.writing_room.mpr hroom)
  let q := (s.writeQueue.push r).insertWrite p t
  exact ⟨hwrites, hserved, (h.reads.of_write (q := q) rfl rfl).1, h.readServed⟩

theorem Kept.insertWriteDone (h : Kept p s) (hvalid : s.Valid (.insertWriteDone t))
    (hroom : s.HasRoom p (.insertWriteDone t)) :
    Advances p s { s with writeQueue := s.writeQueue.popWait.insertWrite p t } := by
  have hpop := h.writes.popWait hvalid.2
  obtain ⟨hwrites, hserved⟩ := hpop.insertWrite (t := t) (FIFOQueue.writing_room.mpr hroom)
  refine h.advance_write rfl rfl hwrites hserved insertWrite_submitted ?_
  have hload := insertWrite_load (t := t) hpop
  have hdone := Pipeline.fillDone_load p.writeRule (s := s.writeQueue.writing)
    (h.writes.insertDone.symm.trans hvalid.2)
  have hphase : s.writeQueue.popWait.writePhase (decide (s.stage = .writeCalling)) =
      s.writeQueue.writePhase (decide (s.stage = .writeCalling)) := rfl
  rw [insertWrite_phase, hphase]
  rw [FIFOQueue.writing_popWait] at hload
  omega

theorem Kept.writes_idle (h : Kept p s) (hstage : s.stage = .outside) :
    Writes p false s.writeQueue := by
  have hwrites := h.writes
  rwa [hstage] at hwrites

theorem Kept.transferWrite (h : Kept p s) (hvalid : s.Valid .transferWrite) :
    ∃ s', exec p s .transferWrite = .ok s' ∧ Advances p s s' := by
  obtain ⟨hstage, hbegin⟩ := hvalid
  obtain ⟨q, hcall, hwrites, hview, hsubmitted, hphase⟩ :=
    (h.writes_idle hstage).transferWrite hbegin
  have hexec : exec p s .transferWrite = .ok { s with writeQueue := q } := by
    rw [exec, hcall]
    rfl
  have hdrain : q.writing.load p.writeRule + 1 = s.writeQueue.writing.load p.writeRule := by
    rw [hview]
    exact Pipeline.drain_load p.writeRule hbegin
  have hcalled : decide (s.stage = .writeCalling) = false := by
    rw [hstage]
    rfl
  refine ⟨_, hexec, h.advance_write rfl rfl (hcalled ▸ hwrites) ?_ hsubmitted ?_⟩
  · rw [hview]
    exact h.writeServed
  · rw [hcalled]
    omega

/-- Between the handlers and in the completion function of a write, no read is completed. -/
theorem flags_write {q : FIFOQueue} {stage : FIFOStage}
    (hstage : s.stage = .outside ∨ s.stage = .writeCalling)
    (hstage' : stage = .outside ∨ stage = .writeCalling) :
    transferring { s with writeQueue := q, stage := stage } = s.transferring ∧
      readCalling { s with writeQueue := q, stage := stage } = s.readCalling := by
  rcases hstage with hstage | hstage <;> rcases hstage' with rfl | rfl <;>
    simp [transferring, readCalling, hstage]

/-- A transfer is finished, and its completion function is called. -/
theorem Kept.completeWrite {scheduled : Bool} {n : Nat} {iter : FIFOEntry} {rest : List FIFOEntry}
    (h : Kept p s) (hstage : s.stage = .outside)
    (hqueue : s.writeQueue.transferQueue = iter :: rest)
    (hpending : s.writeQueue.transferPending = true) (hscheduled : scheduled = false)
    (hn : n = s.writeQueue.issued.length) : Advances p s { s with
      stage := .writeCalling
      writeQueue := { s.writeQueue with
        submitCompletion := scheduled
        finished := n
        completed := s.writeQueue.completed ++ if iter.last then [iter.context] else [] } } := by
  have hwrites := (h.writes_idle hstage).complete hqueue hpending hscheduled hn
  obtain ⟨ht, hr⟩ := flags_write (q := { s.writeQueue with
        submitCompletion := scheduled
        finished := n
        completed := s.writeQueue.completed ++ if iter.last then [iter.context] else [] })
    (.inl hstage) (.inr rfl)
  refine h.advance_write ht hr hwrites h.writeServed rfl ?_
  have hphase : s.writeQueue.writePhase (decide (s.stage = .writeCalling)) < 3 := by
    rw [hstage, FIFOQueue.writePhase, if_neg (by decide), if_pos hpending]
    split <;> decide
  exact Nat.add_lt_add_left hphase _

theorem Kept.transferWriteDone (h : Kept p s) (hvalid : s.Valid (.transferWriteDone t)) :
    ∃ s', exec p s (.transferWriteDone t) = .ok s' ∧ Advances p s s' := by
  obtain ⟨hstage, hissued⟩ := hvalid
  have hwrites := h.writes_idle hstage
  have hfinished := hwrites.finished
  obtain ⟨hpending, hsubmit, -⟩ : s.writeQueue.transferPending = true ∧
      s.writeQueue.submitCompletion = false ∧ false = false := by
    by_contra hidle
    rw [if_neg hidle] at hfinished
    omega
  rw [if_pos ⟨hpending, hsubmit, rfl⟩] at hfinished
  obtain ⟨iter, rest, hqueue⟩ :=
    List.exists_cons_of_ne_nil (hwrites.transferQueue_ne_nil hpending)
  rw [exec, FIFO.transferWriteDone, hqueue]
  dsimp only
  split
  · rw [FIFO.transferWriteDoneNext]
    simp only [hqueue]
    have hadvance := h.completeWrite hstage hqueue hpending hsubmit hfinished.symm
    simp only [hqueue] at hadvance
    exact ⟨_, rfl, hadvance⟩
  · have hcalled : decide (s.stage = .writeCalling) = false := by
      rw [hstage]
      rfl
    have hschedule := hwrites.schedule hpending hfinished.symm
    refine ⟨_, rfl, h.advance_write rfl rfl (hcalled ▸ hschedule) h.writeServed rfl ?_⟩
    rw [hcalled, FIFOQueue.writePhase, hsubmit, hpending]
    exact Nat.add_lt_add_left Nat.one_lt_two _

theorem Kept.transferWriteDoneNext (h : Kept p s) (hvalid : s.Valid .transferWriteDoneNext) :
    ∃ s', exec p s .transferWriteDoneNext = .ok s' ∧ Advances p s s' := by
  obtain ⟨hstage, hsubmit⟩ := hvalid
  have hwrites := h.writes_idle hstage
  obtain ⟨hpending, -⟩ := hwrites.submit hsubmit
  have hfinished := hwrites.finished
  rw [if_neg (by simp [hsubmit]), Nat.add_zero] at hfinished
  obtain ⟨iter, rest, hqueue⟩ :=
    List.exists_cons_of_ne_nil (hwrites.transferQueue_ne_nil hpending)
  rw [exec, FIFO.transferWriteDoneNext]
  simp only [hqueue]
  have hadvance := h.completeWrite hstage hqueue hpending rfl hfinished.symm
  simp only [hqueue] at hadvance
  exact ⟨_, rfl, hadvance⟩

/-- After the completion function of a write the entry leaves, and the FIFO is filled. -/
theorem Kept.writeReturned_eq (h : Kept p s) (hstage : s.stage = .writeCalling) :
    ∃ q, s.writeReturned p t =
        .ok { s with writeQueue := q.insertWrite p t, stage := .outside } ∧
      Writes p false q ∧ q.writing = s.writeQueue.writing.release p.writeRule ∧
      q.submitted = s.writeQueue.submitted ∧
      (q.HasRoom p p.wqSize ↔ (s.writeQueue.release p).HasRoom p p.wqSize) := by
  have hwrites : Writes p true s.writeQueue := by
    have hwrites := h.writes
    rwa [hstage] at hwrites
  let q₁ : FIFOQueue := { s.writeQueue.release p with transferPending := false }
  have hq₁ : q₁ = { s.writeQueue.release p with transferPending := false } := rfl
  obtain ⟨q, hcall, hq, hview, hsubmitted, hwait, husage⟩ := hwrites.release hq₁
  refine ⟨q, ?_, hq, hview, hsubmitted, ?_⟩
  · rw [FIFO.writeReturned]
    by_cases hnext : q₁.transferQueue ≠ [] ∧ q₁.beginTransfer = false
    · rw [if_pos hnext] at hcall
      refine (if_pos hnext).trans ?_
      show Except.bind q₁.transferWrite _ = _
      rw [hcall]
      rfl
    · rw [if_neg hnext] at hcall
      cases hcall
      exact if_neg hnext
  · rw [FIFOQueue.HasRoom, FIFOQueue.HasRoom, hwait, husage]

theorem Kept.writeReturned (h : Kept p s) (hstage : s.stage = .writeCalling)
    (hroom : (s.writeQueue.release p).HasRoom p p.wqSize) :
    ∃ s', s.writeReturned p t = .ok s' ∧ Advances p s s' := by
  obtain ⟨q, hexec, hq, hview, hsubmitted, hsame⟩ := h.writeReturned_eq (t := t) hstage
  obtain ⟨hinsert, hserved⟩ :=
    hq.insertWrite (t := t) (FIFOQueue.writing_room.mpr (hsame.mpr hroom))
  obtain ⟨ht, hr⟩ := flags_write (q := q.insertWrite p t) (.inr hstage) (.inl rfl)
  refine ⟨_, hexec, h.advance_write ht hr hinsert hserved
    (insertWrite_submitted.trans hsubmitted) ?_⟩
  have hcalled : decide (s.stage = .writeCalling) = true := by
    rw [hstage]
    rfl
  have hload := insertWrite_load (t := t) hq
  have hrelease := Pipeline.release_load p.writeRule
    (h.writes.flows.draining (h.writes.calling hcalled))
  have hphase := writePhase_le_three (decide (s.stage = .writeCalling)) s.writeQueue
  rw [hview] at hload
  omega

end Write

section Read

variable {t : Nat} {inTransfer : Bool}

theorem transferRead_writeQueue : (s.transferRead p).writeQueue = s.writeQueue := by
  rw [FIFO.transferRead]
  dsimp only
  split
  · rfl
  · split <;> rfl

theorem transferRead_stage : (s.transferRead p).stage = s.stage := by
  rw [FIFO.transferRead]
  dsimp only
  split
  · rfl
  · split <;> rfl

theorem transferRead_submitted :
    (s.transferRead p).readQueue.submitted = s.readQueue.submitted := by
  rw [FIFO.transferRead]
  dsimp only
  split
  · rfl
  · split <;> rfl

/-- Filling takes nothing back. -/
theorem transferRead_load (h : Reads p s) :
    (s.transferRead p).readQueue.reading.load p.readRule ≤ s.readQueue.reading.load p.readRule := by
  rw [reading_transferRead h.capacity h.le]
  exact h.flows.fill_load_le

theorem Kept.dmaRead {r : FIFORequest} (h : Kept p s)
    (hroom : (s.readQueue.push r).HasRoom p p.rqSize) :
    Kept p (FIFO.transferRead p { s with readQueue := s.readQueue.push r }) := by
  have hpush := h.reads.push r
  obtain ⟨hreads, hserved⟩ := hpush.transferRead (FIFOQueue.reading_room.mpr hroom)
  refine ⟨?_, ?_, hreads, hserved⟩
  · rw [transferRead_writeQueue, transferRead_stage]
    exact h.writes
  · rw [transferRead_writeQueue]
    exact h.writeServed

/-- A call that does not fill the FIFO. -/
theorem Kept.advance_same {s' : FIFO} (h : Kept p s) (hreads : Reads p s')
    (hview : s'.readQueue.reading = s.readQueue.reading) (hqueue : s'.writeQueue = s.writeQueue)
    (hstage : s.stage ≠ .writeCalling) (hstage' : s'.stage ≠ .writeCalling)
    (hsubmitted : s'.readQueue.submitted = s.readQueue.submitted)
    (hphase : s.readPhase < s'.readPhase) : Advances p s s' := by
  refine h.advance_read hreads ?_ hqueue hstage hstage' hsubmitted ?_
  · rw [hview]
    exact h.readServed
  · rw [hview]
    exact Nat.add_lt_add_left hphase _

theorem Kept.transferReadDone (h : Kept p s) (hvalid : s.Valid (.transferReadDone t)) :
    ∃ s', exec p s (.transferReadDone t) = .ok s' ∧ Advances p s s' := by
  obtain ⟨hstage, hissued⟩ := hvalid
  obtain ⟨s', hcall, hreads, hview, hqueue, hsubmitted, hst, hphase⟩ :=
    h.reads.transferReadDone (t := t) hstage hissued
  refine ⟨s', hcall, h.advance_same hreads hview hqueue (by simp [hstage]) ?_ hsubmitted hphase⟩
  rcases hst with hst | hst <;> simp [hst]

theorem Kept.insertReadDone (h : Kept p s) (hvalid : s.Valid (.insertReadDone t)) :
    ∃ s', exec p s (.insertReadDone t) = .ok s' ∧ Advances p s s' := by
  obtain ⟨hstage, hdone⟩ := hvalid
  obtain ⟨s', hcall, hreads, hview, hqueue, hsubmitted, hst, hphase⟩ :=
    h.reads.insertReadDone (t := t) hstage hdone
  refine ⟨s', hcall, h.advance_same hreads hview hqueue (by simp [hstage]) ?_ hsubmitted hphase⟩
  rcases hst with hst | hst <;> simp [hst]

theorem Kept.insertReadDoneNext (h : Kept p s) (hvalid : s.Valid .insertReadDoneNext) :
    ∃ s', exec p s .insertReadDoneNext = .ok s' ∧ Advances p s s' := by
  obtain ⟨hstage, hsubmit⟩ := hvalid
  obtain ⟨s', hcall, hreads, hview, hqueue, hsubmitted, hst, hphase⟩ :=
    h.reads.insertReadDoneNext hstage hsubmit
  exact ⟨s', hcall, h.advance_same hreads hview hqueue (by simp [hstage]) (by simp [hst]) hsubmitted
    hphase⟩

theorem Kept.insertRead (h : Kept p s) (hvalid : s.Valid (.insertRead t)) :
    ∃ s', exec p s (.insertRead t) = .ok s' ∧ Advances p s s' := by
  obtain ⟨hstage, hbegin⟩ := hvalid
  obtain ⟨q, hcall, hreads, hview, hsubmitted, hphase⟩ := h.reads.insertRead (t := t) hbegin
  have hexec : exec p s (.insertRead t) = .ok { s with readQueue := q } := by
    rw [exec, hcall]
    rfl
  have hdrain : q.reading.load p.readRule + 1 = s.readQueue.reading.load p.readRule := by
    rw [hview]
    exact Pipeline.drain_load p.readRule hbegin
  refine ⟨_, hexec,
    h.advance_read hreads ?_ rfl (by simp [hstage]) (by simp [hstage]) hsubmitted ?_⟩
  · show q.reading.Served
    rw [hview]
    exact h.readServed
  · dsimp only
    omega

theorem Kept.transferNext (h : Kept p s) (hvalid : s.Valid .transferNext)
    (hroom : s.HasRoom p .transferNext) : Advances p s (s.transferNext p) := by
  obtain ⟨hpop, hphase, hview⟩ := h.reads.popRead hvalid
  obtain ⟨hreads, hserved⟩ := hpop.transferRead (FIFOQueue.reading_room.mpr hroom)
  have hload := transferRead_load hpop
  have htransferring : s.transferring = true := by
    rw [transferring, hvalid]
    rfl
  have hdone := Pipeline.fillDone_load p.readRule (s := s.readQueue.reading)
    (h.reads.transferring htransferring)
  have hnext : s.transferNext p = s.popRead.transferRead p := rfl
  rw [hnext]
  refine h.advance_read hreads hserved transferRead_writeQueue ?_ ?_ transferRead_submitted ?_
  · rw [hvalid]
    simp
  · rw [transferRead_stage]
    simp [FIFO.popRead]
  · rw [readPhase_transferRead hpop.flows]
    rw [hview] at hload
    omega

/-- After the completion function of a read the entry leaves, and the FIFO is filled. -/
theorem Kept.readReturned_eq (h : Kept p s) (hstage : s.stage = .readCalling inTransfer) :
    ∃ q, s.readReturned p t inTransfer =
        .ok (FIFO.transferRead p { s with readQueue := q, stage := after inTransfer }) ∧
      Reads p { s with readQueue := q, stage := after inTransfer } ∧
      q.reading = s.readQueue.reading.release p.readRule ∧
      q.submitted = s.readQueue.submitted ∧
      (q.HasRoom p p.rqSize ↔ (s.readQueue.release p).HasRoom p p.rqSize) ∧
      s.readPhase ≤ readPhase { s with readQueue := q, stage := after inTransfer } + 4 := by
  let q₁ : FIFOQueue := { s.readQueue.release p with insertPending := false }
  have hq₁ : q₁ = { s.readQueue.release p with insertPending := false } := rfl
  obtain ⟨q, hcall, hreads, hview, hsubmitted, ⟨hwait, husage⟩, hphase⟩ :=
    h.reads.release (t := t) hstage hq₁
  refine ⟨q, ?_, hreads, hview, hsubmitted, ?_, hphase⟩
  · rw [FIFO.readReturned]
    by_cases hnext : q₁.transferQueue ≠ [] ∧ q₁.beginTransfer = false
    · rw [if_pos hnext] at hcall
      refine (if_pos hnext).trans ?_
      show Except.bind (q₁.insertRead p t) _ = _
      rw [hcall]
      rfl
    · rw [if_neg hnext] at hcall
      cases hcall
      exact if_neg hnext
  · rw [FIFOQueue.HasRoom, FIFOQueue.HasRoom, hwait, husage]

theorem Kept.readReturned (h : Kept p s) (hstage : s.stage = .readCalling inTransfer)
    (hroom : (s.readQueue.release p).HasRoom p p.rqSize) :
    ∃ s', s.readReturned p t inTransfer = .ok s' ∧ Advances p s s' := by
  obtain ⟨q, hexec, hreads, hview, hsubmitted, hsame, hphase⟩ :=
    h.readReturned_eq (t := t) hstage
  let s₁ : FIFO := { s with readQueue := q, stage := after inTransfer }
  obtain ⟨hfilled, hserved⟩ := hreads.transferRead (FIFOQueue.reading_room.mpr (hsame.mpr hroom))
  have hcalling : s.readCalling = true := by cases inTransfer <;> simp [readCalling, hstage]
  obtain ⟨hpending, -⟩ := h.reads.merged (by simp [merged, hcalling])
  have hload : (s₁.transferRead p).readQueue.reading.load p.readRule ≤
      (s.readQueue.reading.release p.readRule).load p.readRule := by
    rw [← hview]
    exact transferRead_load hreads
  have hrelease := Pipeline.release_load p.readRule (h.reads.flows.draining hpending)
  refine ⟨_, hexec, h.advance_read hfilled hserved transferRead_writeQueue ?_ ?_
    (transferRead_submitted.trans hsubmitted) ?_⟩
  · rw [hstage]
    simp
  · rw [transferRead_stage]
    cases inTransfer <;> simp [after]
  · have hsame : (s₁.transferRead p).readPhase = s₁.readPhase := readPhase_transferRead hreads.flows
    have hphase' : s.readPhase ≤ s₁.readPhase + 4 := hphase
    show (s₁.transferRead p).readQueue.reading.load p.readRule + s.readPhase <
      s.readQueue.reading.load p.readRule + (s₁.transferRead p).readPhase
    omega

end Read

/-! ### Runs -/

/-- Every call goes on from a state that is kept, if there is room. -/
theorem Kept.exec {c : Call} (h : Kept p s) (hvalid : s.Valid c) (hroom : s.HasRoom p c) :
    ∃ s', FIFO.exec p s c = .ok s' ∧ Kept p s' ∧
      s'.writeQueue.submitted = s.writeQueue.submitted ++ c.writes ∧
      s'.readQueue.submitted = s.readQueue.submitted ++ c.reads ∧
      (c.isRequest = false → s'.callsLeft p < s.callsLeft p) := by
  have hadvance : ∀ s', Advances p s s' → Kept p s' ∧
      s'.writeQueue.submitted = s.writeQueue.submitted ++ [] ∧
      s'.readQueue.submitted = s.readQueue.submitted ++ [] ∧
      (c.isRequest = false → s'.callsLeft p < s.callsLeft p) := by
    intro s' hs'
    rw [List.append_nil, List.append_nil]
    exact ⟨hs'.kept, hs'.writes, hs'.reads, fun _ => hs'.left⟩
  cases c with
  | dmaWrite t r =>
    have hnone : (Call.dmaWrite t r).reads = [] := rfl
    rw [FIFO.exec, Call.writes, hnone, List.append_nil]
    by_cases hsize : r.size = 0
    · rw [if_pos hsize, if_pos hsize, List.append_nil]
      exact ⟨s, rfl, h, rfl, rfl, fun hr => by cases hr⟩
    · rw [if_neg hsize, if_neg hsize]
      exact ⟨_, rfl, h.dmaWrite (hroom hsize), insertWrite_submitted, rfl, fun hr => by cases hr⟩
  | dmaRead r =>
    have hnone : (Call.dmaRead r).writes = [] := rfl
    rw [FIFO.exec, Call.reads, hnone, List.append_nil]
    by_cases hsize : r.size = 0
    · rw [if_pos hsize, if_pos hsize, List.append_nil]
      exact ⟨s, rfl, h, rfl, rfl, fun hr => by cases hr⟩
    · rw [if_neg hsize, if_neg hsize]
      refine ⟨_, rfl, h.dmaRead (hroom hsize), ?_, transferRead_submitted, fun hr => by cases hr⟩
      rw [transferRead_writeQueue]
  | insertWriteDone t => exact ⟨_, rfl, hadvance _ (h.insertWriteDone hvalid hroom)⟩
  | transferWrite =>
    obtain ⟨s', hexec, hs'⟩ := h.transferWrite hvalid
    exact ⟨s', hexec, hadvance s' hs'⟩
  | transferWriteDone t =>
    obtain ⟨s', hexec, hs'⟩ := h.transferWriteDone hvalid
    exact ⟨s', hexec, hadvance s' hs'⟩
  | transferWriteDoneNext =>
    obtain ⟨s', hexec, hs'⟩ := h.transferWriteDoneNext hvalid
    exact ⟨s', hexec, hadvance s' hs'⟩
  | transferReadDone t =>
    obtain ⟨s', hexec, hs'⟩ := h.transferReadDone hvalid
    exact ⟨s', hexec, hadvance s' hs'⟩
  | insertRead t =>
    obtain ⟨s', hexec, hs'⟩ := h.insertRead hvalid
    exact ⟨s', hexec, hadvance s' hs'⟩
  | insertReadDone t =>
    obtain ⟨s', hexec, hs'⟩ := h.insertReadDone hvalid
    exact ⟨s', hexec, hadvance s' hs'⟩
  | insertReadDoneNext =>
    obtain ⟨s', hexec, hs'⟩ := h.insertReadDoneNext hvalid
    exact ⟨s', hexec, hadvance s' hs'⟩
  | returned t =>
    obtain ⟨hwriting, hreading⟩ := hroom
    rw [FIFO.exec]
    cases hstage : s.stage with
    | outside => exact absurd hstage hvalid.1
    | transferring => exact absurd hstage hvalid.2
    | writeCalling =>
      obtain ⟨s', hexec, hs'⟩ := h.writeReturned (t := t) hstage (hwriting hstage)
      exact ⟨s', hexec, hadvance s' hs'⟩
    | readCalling inTransfer =>
      have hcalling : s.readCalling = true := by cases inTransfer <;> simp [readCalling, hstage]
      obtain ⟨s', hexec, hs'⟩ := h.readReturned (t := t) hstage (hreading hcalling)
      exact ⟨s', hexec, hadvance s' hs'⟩
  | transferNext => exact ⟨_, rfl, hadvance _ (h.transferNext hvalid hroom)⟩

theorem new_kept : Kept p (.new p) := by
  have hflows : ∀ rule : Pipeline.Rule FIFOPiece,
      Pipeline.Flows rule [] ⟨[], [], [], false, false, false, 0⟩ := by
    intro rule
    exact ⟨rfl, rfl, (fun h => by cases h), (fun h => by cases h), (fun h => by cases h),
      fun h => absurd rfl h⟩
  have hserved : Pipeline.Served (⟨[], [], [], false, false, false, 0⟩ : Pipeline FIFOPiece) :=
    fun h => absurd rfl h
  have hwrites : Writes p false (.new p.wqSize) :=
    ⟨⟨rfl, Nat.zero_le _, rfl, (fun h => by cases h), (fun h => by cases h), rfl, rfl, rfl⟩,
      hflows p.writeRule⟩
  have hreads : Reads p (.new p) :=
    ⟨⟨rfl, Nat.zero_le _, rfl, rfl, rfl, List.Pairwise.nil, (fun _ h => by cases h),
      (fun h => by cases h), (fun h => by cases h), (fun h => by cases h), (fun h => by cases h),
      (fun h => by cases h), (fun h => by cases h), rfl⟩, hflows p.readRule⟩
  exact ⟨hwrites, hserved, hreads, hserved⟩

/-- A call goes on, and both directions are accounted afterwards. -/
def Accounts (p : FIFOParam) (s : FIFO) (c : Call) : Prop :=
  ∃ s', exec p s c = .ok s' ∧ s'.Accounted p

theorem Kept.accounted (h : Kept p s) : s.Accounted p := by
  refine ⟨⟨?_, h.reads.le⟩, ?_, h.writes.le⟩
  · have husage := h.reads.flows.usage
    rwa [FIFOQueue.reading, FIFOQueue.pieces, FIFOQueue.pieces, List.map_map] at husage
  · have husage := h.writes.flows.usage
    rwa [FIFOQueue.writing, FIFOQueue.pieces, FIFOQueue.pieces, List.map_map] at husage

/-- Where the filled queue is accounted, there was room for the part. -/
theorem writeRoom_of_accounted {called : Bool} {t : Nat} {q : FIFOQueue} (h : Writes p called q)
    (hle : (q.insertWrite p t).usage ≤ p.wqSize) : q.HasRoom p p.wqSize := by
  refine FIFOQueue.writing_room.mp ((Pipeline.fill_usage_le_iff p.writeRule ?_).mp ?_)
  · exact h.le
  · rw [← FIFOQueue.writing_insertWrite (t := t) h.capacity h.le]
    exact hle

theorem readRoom_of_accounted (h : Reads p s)
    (hle : (s.transferRead p).readQueue.usage ≤ p.rqSize) : s.readQueue.HasRoom p p.rqSize := by
  refine FIFOQueue.reading_room.mp ((Pipeline.fill_usage_le_iff p.readRule ?_).mp ?_)
  · exact h.le
  · rw [← reading_transferRead h.capacity h.le]
    exact hle

/-- Both directions are accounted after a call exactly when there is room. -/
theorem accounts_iff {c : Call} (h : Kept p s) (hvalid : s.Valid c) :
    s.Accounts p c ↔ s.HasRoom p c := by
  constructor
  · rintro ⟨s', hexec, hread, hwrite⟩
    cases c with
    | dmaWrite t r =>
      intro hsize
      rw [exec, if_neg hsize] at hexec
      cases hexec
      exact writeRoom_of_accounted (h.writes.push r) hwrite.2
    | dmaRead r =>
      intro hsize
      rw [exec, if_neg hsize] at hexec
      cases hexec
      exact readRoom_of_accounted (h.reads.push r) hread.2
    | insertWriteDone t =>
      cases hexec
      exact writeRoom_of_accounted (h.writes.popWait hvalid.2) hwrite.2
    | transferNext =>
      cases hexec
      exact readRoom_of_accounted (h.reads.popRead hvalid).1 hread.2
    | returned t =>
      rw [exec] at hexec
      refine ⟨fun hstage => ?_, fun hcalling => ?_⟩
      · obtain ⟨q, hcall, hq, -, -, hsame⟩ := h.writeReturned_eq (t := t) hstage
        rw [hstage] at hexec
        obtain rfl := Except.ok.inj (hcall.symm.trans hexec)
        exact hsame.mp (writeRoom_of_accounted hq hwrite.2)
      · obtain ⟨inTransfer, hstage⟩ : ∃ inTransfer, s.stage = .readCalling inTransfer := by
          rcases of_decide_eq_true hcalling with hstage | hstage <;> exact ⟨_, hstage⟩
        obtain ⟨q, hcall, hq, -, -, hsame, -⟩ := h.readReturned_eq (t := t) hstage
        rw [hstage] at hexec
        obtain rfl := Except.ok.inj (hcall.symm.trans hexec)
        exact hsame.mp (readRoom_of_accounted hq hread.2)
    | _ => trivial
  · intro hroom
    obtain ⟨s', hexec, hs', -⟩ := h.exec hvalid hroom
    exact ⟨s', hexec, hs'.accounted⟩

/-- Over every run both directions are accounted after each call exactly when each part of a larger
request finds room. -/
theorem run_accounts_iff {calls : List Call}
    (hvalid : Run.Along (exec p) Valid (.new p) calls) :
    Accounted p (.new p) ∧
      (Run.Along (exec p) (Accounts p) (.new p) calls ↔
        Run.Along (exec p) (HasRoom p) (.new p) calls) := by
  refine ⟨new_kept.accounted, ?_⟩
  refine (hvalid.iff (I := Kept p) new_kept (fun s c hs hc hroom => ?_) fun s c hs hc =>
    (accounts_iff hs hc).symm).symm
  obtain ⟨s', hok, hs', -⟩ := hs.exec hc hroom
  rw [hok]
  exact hs'

/-- A FIFO as the controllers make it, with one byte a tick. -/
def controller : FIFOParam where
  rqSize := 8192
  wqSize := 8192
  transferUnit := 2048
  latency := id
  transferUnit_pos := by decide
  unit_le_rqSize := by decide
  unit_le_wqSize := by decide
  rqSize_lt := by decide
  wqSize_lt := by decide

/-- A write and a read that are larger than the FIFO, which is empty. -/
def large : List Call :=
  [.dmaWrite 0 ⟨0, 10000, none, 0⟩, .dmaRead ⟨0, 10000, none, 1⟩, .transferWrite,
    .insertWriteDone 2048, .transferReadDone 2048, .transferNext, .transferWriteDone 5000,
    .returned 5000]

theorem run_accounts_iff_large : Accounted controller (.new controller) ∧
    (Run.Along (exec controller) (Accounts controller) (.new controller) large ↔
      Run.Along (exec controller) (HasRoom controller) (.new controller) large) :=
  run_accounts_iff (by decide)

/-- A write fills the FIFO, and a larger one comes. -/
def overfull : List Call :=
  [.dmaWrite 0 ⟨0, 8192, none, 0⟩, .insertWriteDone 8192, .dmaWrite 8192 ⟨8192, 16384, none, 1⟩]

/-- The part of the second write is accounted on top of a full FIFO. -/
theorem not_accounted_overfull : Run.Along (exec controller) Valid (.new controller) overfull ∧
    ∃ s, overfull.foldlM (exec controller) (.new controller) = .ok s ∧
      ¬ s.Accounted controller ∧ s.writeQueue.usage = 10240 ∧ s.writeQueue.capacity = 8192 :=
  ⟨by decide, _, rfl, by decide, rfl, rfl⟩

end FIFO

end SimpleSSD
