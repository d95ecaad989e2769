import SimpleSSD.Util.FIFO
import SimpleSSD.Lib.Run

/-!
# Writes through the FIFO

Each direction of the FIFO is a bounded buffer between two stages: a write is filled by its
insertion and drained by its transfer. The write queue keeps what its handlers rely on, as long
as there is room for the parts of requests that are larger than the FIFO.
-/

namespace SimpleSSD

open Pipeline (Flows Rule)

namespace FIFOParam

variable {p : FIFOParam} {size limit : Nat}

/-- A part is one unit. -/
theorem calcSize_unit (hunit : p.transferUnit ≤ limit) (hlimit : limit < 2 ^ 63) :
    p.calcSize p.transferUnit = p.transferUnit := by
  have hpos := p.transferUnit_pos
  rw [calcSize, if_neg (lt_irrefl _), Nat.div_eq_of_lt (Nat.sub_lt hpos Nat.one_pos), Nat.zero_add,
    Nat.one_mul]
  exact Nat.mod_eq_of_lt (by omega)

/-- Only requests of a unit and more are split. -/
theorem unit_le_of_lt_calcSize (hunit : p.transferUnit ≤ limit) (hlt : limit < p.calcSize size) :
    p.transferUnit ≤ size := by
  by_contra hsmall
  rw [calcSize, if_pos (by omega)] at hlt
  omega

/-- How a queue of the FIFO fills: an entry costs its size in units, and one that is larger than
the queue is split. -/
def rule (p : FIFOParam) (limit : Nat) (hunit : p.transferUnit ≤ limit) (hlimit : limit < 2 ^ 63) :
    Rule FIFOPiece where
  capacity := limit
  cost a := p.calcSize a.size
  split a := if limit < p.calcSize a.size then some (p.splitPiece a) else none
  weight a := a.size
  weight_lt := by
    intro a b c h
    split at h
    · next hlt =>
      cases h
      have hpos := p.transferUnit_pos
      have hle := unit_le_of_lt_calcSize hunit hlt
      exact Nat.sub_lt (by omega) hpos
    · cases h
  split_first := by
    intro a b c h
    split at h
    · cases h
      show (if limit < p.calcSize p.transferUnit then _ else none) = none
      rw [calcSize_unit hunit hlimit, if_neg (Nat.not_lt_of_le hunit)]
    · cases h
  cost_le := by
    intro a h
    split at h
    · cases h
    · next hle => exact Nat.le_of_not_lt hle

/-- The rule of the write queue. -/
def writeRule (p : FIFOParam) : Rule FIFOPiece := p.rule p.wqSize p.unit_le_wqSize p.wqSize_lt

/-- The rule of the read queue. -/
def readRule (p : FIFOParam) : Rule FIFOPiece := p.rule p.rqSize p.unit_le_rqSize p.rqSize_lt

end FIFOParam

namespace FIFOQueue

/-- The pieces of entries. -/
def pieces (entries : List FIFOEntry) : List FIFOPiece := entries.map FIFOEntry.toFIFOPiece

/-- Filling, as `insertWrite` and `transferRead` do it. -/
theorem fill_front {p : FIFOParam} {limit : Nat} {v : Pipeline FIFOPiece} {front : FIFOEntry}
    {others : List FIFOEntry} (hunit : p.transferUnit ≤ limit) (hlimit : limit < 2 ^ 63)
    (hwait : v.wait = pieces (front :: others)) (hle : v.usage ≤ limit) :
    v.fill (p.rule limit hunit hlimit) =
      if (v.filling = true ∨ limit < (v.usage + p.calcSize front.size) % 2 ^ 64) ∧
          p.calcSize front.size ≤ limit then v
      else { v with
        wait := pieces ((p.splitFront limit front others).1 :: (p.splitFront limit front others).2)
        held := v.held ++ [(p.splitFront limit front others).1.toFIFOPiece]
        filling := true
        scheduled := true
        usage := (v.usage + p.calcSize (p.splitFront limit front others).1.size) % 2 ^ 64 } := by
  have hhead : v.wait = front.toFIFOPiece :: pieces others := hwait
  by_cases hlarge : limit < p.calcSize front.size
  · have hsplit : (p.rule limit hunit hlimit).split front.toFIFOPiece =
        some (p.splitPiece front.toFIFOPiece) := if_pos hlarge
    have hmod : (v.usage + p.calcSize p.transferUnit) % 2 ^ 64 =
        v.usage + p.calcSize p.transferUnit := by
      rw [FIFOParam.calcSize_unit hunit hlimit]
      exact Nat.mod_eq_of_lt (by omega)
    rw [Pipeline.fill_some hhead hsplit, if_neg fun h => Nat.not_le_of_lt hlarge h.2,
      FIFOParam.splitFront, if_pos hlarge]
    simp only [FIFOParam.splitPiece, hmod]
    rfl
  · have hsplit : (p.rule limit hunit hlimit).split front.toFIFOPiece = none := if_neg hlarge
    have hmod : (v.usage + p.calcSize front.size) % 2 ^ 64 = v.usage + p.calcSize front.size :=
      Nat.mod_eq_of_lt (by omega)
    rw [Pipeline.fill_none hhead hsplit, FIFOParam.splitFront, if_neg hlarge]
    simp only [Nat.le_of_not_lt hlarge, and_true, hmod, ← hwait]
    rfl

/-- The write queue: filled by the insertion, drained by the transfer. -/
def writing (q : FIFOQueue) : Pipeline FIFOPiece where
  wait := pieces q.waitQueue
  held := pieces q.transferQueue
  left := q.left
  filling := q.insertPending
  draining := q.transferPending
  scheduled := q.beginTransfer
  usage := q.usage

section Writing

variable {p : FIFOParam} {t : Nat} {q : FIFOQueue}

theorem writing_push (r : FIFORequest) : (q.push r).writing = q.writing.submit r.whole := by
  simp [push, writing, Pipeline.submit, pieces, FIFORequest.entry]

theorem writing_popWait : q.popWait.writing = q.writing.fillDone := by
  simp [popWait, writing, Pipeline.fillDone, pieces, List.map_tail]

/-- `insertWrite` fills the FIFO. -/
theorem writing_insertWrite (hcapacity : q.capacity = p.wqSize) (hle : q.usage ≤ p.wqSize) :
    (q.insertWrite p t).writing = q.writing.fill p.writeRule := by
  cases hwait : q.waitQueue with
  | nil =>
    rw [Pipeline.fill_nil (by rw [writing, hwait]; rfl), insertWrite, hwait]
  | cons front others =>
    have hview : q.writing.wait = pieces (front :: others) := by rw [writing, hwait]
    have hfill := fill_front (p := p) p.unit_le_wqSize p.wqSize_lt hview hle
    refine Eq.trans ?_ hfill.symm
    rw [insertWrite, hwait, hcapacity]
    dsimp only
    by_cases hblocked : (q.insertPending = true ∨
        p.wqSize < (q.usage + p.calcSize front.size) % 2 ^ 64) ∧ p.calcSize front.size ≤ p.wqSize
    · rw [if_pos hblocked]
      exact (if_pos hblocked).symm
    · rw [if_neg hblocked]
      refine Eq.trans ?_ (if_neg hblocked).symm
      simp [writing, pieces]

/-- The entry that is being transferred or called back, as it stands first. -/
def first (q : FIFOQueue) : List FIFOPiece := (pieces q.transferQueue).take 1

/-- The contexts of the requests whose last piece is among these. -/
def lastContexts (l : List FIFOPiece) : List Nat :=
  (l.filter FIFOPiece.last).map FIFOPiece.context

/-- How far the first write has come. -/
def writePhase (called : Bool) (q : FIFOQueue) : Nat :=
  if called then 3 else if q.submitCompletion then 2 else if q.transferPending then 1 else 0

/-- What the write queue has asked for, finished and called back. The completion function of its
first entry may be running. -/
structure WriteMarks (p : FIFOParam) (called : Bool) (q : FIFOQueue) : Prop where
  capacity : q.capacity = p.wqSize
  le : q.usage ≤ p.wqSize
  insertDone : q.insertDone = q.insertPending
  submit : q.submitCompletion = true → q.transferPending = true ∧ called = false
  calling : called = true → q.transferPending = true
  issued : q.issued = q.left ++ if q.transferPending then q.first else []
  finished : q.issued.length =
    q.finished + if q.transferPending ∧ q.submitCompletion = false ∧ called = false then 1 else 0
  completed : q.completed = lastContexts (q.left ++ if called then q.first else [])

/-- What the write queue keeps. -/
structure Writes (p : FIFOParam) (called : Bool) (q : FIFOQueue) : Prop
    extends WriteMarks p called q where
  flows : Flows p.writeRule (q.submitted.map FIFORequest.whole) q.writing

/-- Once an entry is there, the first one stays when another is appended. -/
theorem first_append {q q' : FIFOQueue} {iter : FIFOEntry} (hne : q.transferQueue ≠ [])
    (h : q'.transferQueue = q.transferQueue ++ [iter]) : q'.first = q.first := by
  cases hqueue : q.transferQueue with
  | nil => exact absurd hqueue hne
  | cons a rest => simp [first, pieces, h, hqueue]

theorem Writes.transferQueue_ne_nil {called : Bool} (h : Writes p called q)
    (hpending : q.transferPending = true) : q.transferQueue ≠ [] := by
  have hne := h.flows.draining hpending
  intro hnil
  exact hne (by simp [writing, pieces, hnil])

/-- What `insertWrite` leaves alone. -/
theorem insertWrite_fields :
    (q.insertWrite p t).capacity = q.capacity ∧ (q.insertWrite p t).submitted = q.submitted ∧
      (q.insertWrite p t).issued = q.issued ∧ (q.insertWrite p t).finished = q.finished ∧
      (q.insertWrite p t).left = q.left ∧ (q.insertWrite p t).completed = q.completed ∧
      (q.insertWrite p t).submitCompletion = q.submitCompletion ∧
      (q.insertWrite p t).transferPending = q.transferPending ∧
      (q.insertDone = q.insertPending →
        (q.insertWrite p t).insertDone = (q.insertWrite p t).insertPending) ∧
      ((q.insertWrite p t).transferQueue = q.transferQueue ∨
        ∃ iter, (q.insertWrite p t).transferQueue = q.transferQueue ++ [iter]) := by
  rw [insertWrite]
  split
  · exact ⟨rfl, rfl, rfl, rfl, rfl, rfl, rfl, rfl, id, .inl rfl⟩
  · split
    · exact ⟨rfl, rfl, rfl, rfl, rfl, rfl, rfl, rfl, id, .inl rfl⟩
    · exact ⟨rfl, rfl, rfl, rfl, rfl, rfl, rfl, rfl, fun _ => rfl, .inr ⟨_, rfl⟩⟩

/-- Filling keeps everything, and serves what waits. -/
theorem Writes.insertWrite {called : Bool} (h : Writes p called q)
    (hroom : Pipeline.Room p.writeRule q.writing) :
    Writes p called (q.insertWrite p t) ∧ (q.insertWrite p t).writing.Served := by
  have hview := writing_insertWrite (t := t) h.capacity h.le
  obtain ⟨hcapacity, hsubmitted, hissued, hfinished, hleft, hcompleted, hsubmit, hpending, hdone,
    hqueue⟩ := insertWrite_fields (p := p) (t := t) (q := q)
  have hfirst : q.transferPending = true → (q.insertWrite p t).first = q.first := by
    intro hp
    rcases hqueue with heq | ⟨iter, heq⟩
    · rw [first, heq, ← first]
    · exact first_append (h.transferQueue_ne_nil hp) heq
  refine
    ⟨⟨⟨hcapacity.trans h.capacity, ?_, hdone h.insertDone, ?_, fun hc => ?_, ?_, ?_, ?_⟩, ?_⟩, ?_⟩
  · have hle := (Pipeline.fill_usage_le_iff p.writeRule (s := q.writing) h.le).mpr hroom
    rw [← hview] at hle
    exact hle
  · rw [hsubmit, hpending]
    exact h.submit
  · exact hpending.trans (h.calling hc)
  · rw [hissued, hleft, hpending, h.issued]
    split
    · next hp => rw [hfirst hp]
    · rfl
  · rw [hissued, hfinished, hpending, hsubmit]
    exact h.finished
  · rw [hcompleted, hleft, h.completed]
    split
    · next hc => rw [hfirst (h.calling hc)]
    · rfl
  · rw [hview, hsubmitted]
    exact h.flows.fill
  · rw [hview]
    exact h.flows.served

theorem Writes.push {called : Bool} (r : FIFORequest) (h : Writes p called q) :
    Writes p called (q.push r) := by
  refine ⟨⟨h.capacity, h.le, h.insertDone, h.submit, h.calling, h.issued, h.finished,
    h.completed⟩, ?_⟩
  have hsubmitted : (q.push r).submitted.map FIFORequest.whole =
      q.submitted.map FIFORequest.whole ++ [r.whole] := by simp [FIFOQueue.push]
  rw [writing_push, hsubmitted]
  exact h.flows.submit

theorem Writes.popWait {called : Bool} (h : Writes p called q) (hdone : q.insertDone = true) :
    Writes p called q.popWait := by
  refine ⟨⟨h.capacity, h.le, rfl, h.submit, h.calling, h.issued, h.finished, h.completed⟩, ?_⟩
  rw [writing_popWait]
  exact h.flows.fillDone (h.insertDone.symm.trans hdone)

/-- The queue with its first entry being transferred. -/
def startTransfer (iter : FIFOEntry) (q : FIFOQueue) : FIFOQueue :=
  { q with transferPending := true, issued := q.issued ++ [iter.toFIFOPiece] }

theorem transferWrite_cons {iter : FIFOEntry} {rest : List FIFOEntry}
    (hqueue : q.transferQueue = iter :: rest) :
    q.transferWrite = .ok (if q.transferPending then q else q.startTransfer iter) := by
  have hcall :
      q.transferWrite = if q.transferPending then .ok q else .ok (q.startTransfer iter) := by
    rw [FIFOQueue.transferWrite, startTransfer, hqueue]
  rw [hcall]
  split <;> rfl

/-- A transfer starts when none is going on. -/
theorem WriteMarks.start {iter : FIFOEntry} {rest : List FIFOEntry} (h : WriteMarks p false q)
    (hqueue : q.transferQueue = iter :: rest) (hpending : q.transferPending = false) :
    WriteMarks p false (q.startTransfer iter) := by
  have hsubmit : q.submitCompletion = false := by
    by_contra hs
    have hp := (h.submit (by simpa using hs)).1
    rw [hpending] at hp
    cases hp
  have hissued := h.issued
  rw [hpending, if_neg Bool.false_ne_true, List.append_nil] at hissued
  have hfinished := h.finished
  rw [if_neg (by simp [hpending]), Nat.add_zero] at hfinished
  refine ⟨h.capacity, h.le, h.insertDone, fun hs => ?_, fun hc => absurd hc (by simp), ?_, ?_,
    h.completed⟩
  · exact absurd hs (by simp [startTransfer, hsubmit])
  · simp [startTransfer, hissued, first, pieces, hqueue]
  · simp [startTransfer, hfinished, hsubmit]

/-- The event `beginTransfer`. -/
theorem Writes.transferWrite (h : Writes p false q) (hbegin : q.beginTransfer = true) :
    ∃ q', { q with beginTransfer := false }.transferWrite = .ok q' ∧ Writes p false q' ∧
      q'.writing = { q.writing with scheduled := false }.drain ∧ q'.submitted = q.submitted ∧
      q.writePhase false ≤ q'.writePhase false := by
  have hdrain := h.flows.drain hbegin
  have hmarks : WriteMarks p false { q with beginTransfer := false } :=
    ⟨h.capacity, h.le, h.insertDone, h.submit, h.calling, h.issued, h.finished, h.completed⟩
  let q₀ : FIFOQueue := { q with beginTransfer := false }
  obtain ⟨iter, rest, hqueue⟩ : ∃ iter rest, q₀.transferQueue = iter :: rest := by
    refine List.exists_cons_of_ne_nil fun hnil => hdrain.draining rfl ?_
    show pieces q₀.transferQueue = []
    rw [hnil, pieces, List.map_nil]
  show ∃ q', q₀.transferWrite = .ok q' ∧ _
  rw [transferWrite_cons hqueue]
  cases hpending : q.transferPending with
  | true =>
    have hview : q₀.writing = { q.writing with scheduled := false }.drain := by
      simp [q₀, writing, Pipeline.drain, hpending]
    rw [if_pos rfl]
    exact ⟨q₀, rfl, ⟨hmarks, hview ▸ hdrain⟩, hview, rfl, le_rfl⟩
  | false =>
    have hphase : q.writePhase false ≤ (q₀.startTransfer iter).writePhase false := by
      simp only [writePhase, hpending, startTransfer, q₀, Bool.false_eq_true, if_false, if_true]
      split
      · exact le_rfl
      · exact Nat.zero_le 1
    rw [if_neg Bool.false_ne_true]
    exact ⟨_, rfl, ⟨hmarks.start hqueue hpending, hdrain⟩, rfl, rfl, hphase⟩

/-- The transfer of the first entry is finished, and its completion function is called. -/
theorem Writes.complete {iter : FIFOEntry} {rest : List FIFOEntry} {scheduled : Bool} {n : Nat}
    (h : Writes p false q) (hqueue : q.transferQueue = iter :: rest)
    (hpending : q.transferPending = true) (hscheduled : scheduled = false)
    (hn : n = q.issued.length) :
    Writes p true { q with
      submitCompletion := scheduled
      finished := n
      completed := q.completed ++ if iter.last then [iter.context] else [] } := by
  subst hscheduled hn
  refine
    ⟨⟨h.capacity, h.le, h.insertDone, fun hs => absurd hs (by simp), fun _ => hpending, h.issued,
    by simp, ?_⟩, h.flows⟩
  have hcompleted := h.completed
  rw [if_neg Bool.false_ne_true, List.append_nil] at hcompleted
  rw [hcompleted]
  cases hlast : iter.last <;> simp [lastContexts, first, pieces, hqueue, hlast]

/-- It is finished, and its completion function is called later. -/
theorem Writes.schedule {n : Nat} (h : Writes p false q) (hpending : q.transferPending = true)
    (hn : n = q.issued.length) :
    Writes p false { q with submitCompletion := true, finished := n } := by
  subst hn
  exact ⟨⟨h.capacity, h.le, h.insertDone, fun _ => ⟨hpending, rfl⟩, h.calling, h.issued, by simp,
    h.completed⟩, h.flows⟩

/-- The queue without its first entry. -/
def popped (p : FIFOParam) (iter : FIFOEntry) (rest : List FIFOEntry) (q : FIFOQueue) : FIFOQueue :=
  { q with
    usage := q.usage - p.calcSize iter.size
    transferQueue := rest
    left := q.left ++ [iter.toFIFOPiece] }

/-- The first entry costs part of the usage. -/
theorem release_eq {iter : FIFOEntry} {rest : List FIFOEntry}
    (hqueue : q.transferQueue = iter :: rest) (hle : q.usage < 2 ^ 63)
    (husage : q.usage = ((pieces q.transferQueue).map p.writeRule.cost).sum) :
    q.release p = q.popped p iter rest := by
  have hcost : p.calcSize iter.size ≤ q.usage := by
    rw [hqueue, pieces, List.map_cons, List.map_cons, List.sum_cons] at husage
    exact (Nat.le_add_right _ _).trans_eq husage.symm
  have hmod : (q.usage + 2 ^ 64 - p.calcSize iter.size) % 2 ^ 64 =
      q.usage - p.calcSize iter.size := by omega
  have hrelease : q.release p = { q with
      usage := (q.usage + 2 ^ 64 - p.calcSize iter.size) % 2 ^ 64
      transferQueue := rest
      left := q.left ++ [iter.toFIFOPiece] } := by rw [release, hqueue]
  rw [hrelease, hmod, popped]

/-- The entry leaves, and no transfer is going on. -/
theorem WriteMarks.popped {iter : FIFOEntry} {rest : List FIFOEntry} (h : WriteMarks p true q)
    (hqueue : q.transferQueue = iter :: rest) :
    WriteMarks p false { q.popped p iter rest with transferPending := false } := by
  have hsubmit : q.submitCompletion = false := by
    by_contra hs
    exact absurd (h.submit (by simpa using hs)).2 (by simp)
  have hissued := h.issued
  rw [if_pos (h.calling rfl)] at hissued
  have hcompleted := h.completed
  rw [if_pos rfl] at hcompleted
  have hfinished := h.finished
  rw [if_neg (by simp), Nat.add_zero] at hfinished
  have hfirst : q.first = [iter.toFIFOPiece] := by simp [first, pieces, hqueue]
  rw [hfirst] at hissued hcompleted
  refine ⟨h.capacity, (Nat.sub_le _ _).trans h.le, h.insertDone, fun hs => ?_, fun hc => ?_, ?_,
    ?_, ?_⟩
  · exact absurd hs (by simp [FIFOQueue.popped, hsubmit])
  · exact absurd hc (by simp)
  · simp [FIFOQueue.popped, hissued]
  · simp [FIFOQueue.popped, hfinished]
  · simp [FIFOQueue.popped, hcompleted]

/-- After the completion function the entry leaves, and the next one is transferred unless the event
for it is scheduled. -/
theorem Writes.release (h : Writes p true q) {q₁ : FIFOQueue}
    (hq₁ : q₁ = { q.release p with transferPending := false }) : ∃ q',
    (if q₁.transferQueue ≠ [] ∧ q₁.beginTransfer = false then q₁.transferWrite else .ok q₁) =
      .ok q' ∧
      Writes p false q' ∧ q'.writing = q.writing.release p.writeRule ∧
      q'.submitted = q.submitted ∧ q'.waitQueue = (q.release p).waitQueue ∧
      q'.usage = (q.release p).usage := by
  have hsame : q₁.waitQueue = (q.release p).waitQueue ∧ q₁.usage = (q.release p).usage := by
    rw [hq₁]
    exact ⟨rfl, rfl⟩
  have hpending := h.calling rfl
  have hflows := h.flows.release hpending
  obtain ⟨iter, rest, hqueue⟩ := List.exists_cons_of_ne_nil (h.transferQueue_ne_nil hpending)
  have hlt := p.wqSize_lt
  have hle := h.le
  rw [release_eq hqueue (by omega) h.flows.usage] at hq₁
  have hmarks := h.toWriteMarks.popped hqueue
  rw [← hq₁] at hmarks
  have hrest : pieces q₁.transferQueue ≠ [] ↔ q₁.transferQueue ≠ [] := by
    rw [pieces, ne_eq, List.map_eq_nil_iff]
  have hrelease : q.writing.release p.writeRule = { q₁.writing with
      draining := decide (pieces q₁.transferQueue ≠ [] ∧ q₁.beginTransfer = false) } := by
    have hheld : q.writing.held = iter.toFIFOPiece :: pieces rest := by
      show pieces q.transferQueue = _
      rw [hqueue]
      rfl
    rw [Pipeline.release_cons hheld, hq₁]
    rfl
  have hsubmitted : q₁.submitted = q.submitted := by rw [hq₁, popped]
  rw [hrelease, ← hsubmitted] at hflows
  rw [hrelease]
  by_cases hnext : q₁.transferQueue ≠ [] ∧ q₁.beginTransfer = false
  · obtain ⟨next, others, hcons⟩ := List.exists_cons_of_ne_nil hnext.1
    have hidle : q₁.transferPending = false := by rw [hq₁]
    rw [decide_eq_true (hrest.and Iff.rfl |>.mpr hnext)] at hflows ⊢
    rw [if_pos hnext, transferWrite_cons hcons, hidle, if_neg Bool.false_ne_true]
    exact ⟨_, rfl, ⟨hmarks.start hcons hidle, hflows⟩, rfl, hsubmitted, hsame⟩
  · have hview : { q₁.writing with draining := false } = q₁.writing := by rw [hq₁]; rfl
    rw [decide_eq_false (fun h => hnext (hrest.and Iff.rfl |>.mp h)), hview] at hflows
    rw [decide_eq_false (fun h => hnext (hrest.and Iff.rfl |>.mp h)), hview, if_neg hnext]
    exact ⟨q₁, rfl, ⟨hmarks, hflows⟩, rfl, hsubmitted, hsame⟩

end Writing

end FIFOQueue

end SimpleSSD
