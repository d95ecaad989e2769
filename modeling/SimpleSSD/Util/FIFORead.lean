import SimpleSSD.Util.FIFOWrite

/-!
# Reads through the FIFO

A read is filled by its transfer and drained by its insertion, and both have to be done before it
is completed: `readCompletion` holds the entries of which one is. The ids of the entries in the
FIFO grow, so an entry is found under its id.
-/

namespace SimpleSSD

open Pipeline (Flows)

/-- The read queue: filled by the transfer, drained by the insertion. -/
def FIFOQueue.reading (q : FIFOQueue) : Pipeline FIFOPiece where
  wait := pieces q.waitQueue
  held := pieces q.transferQueue
  left := q.left
  filling := q.transferPending
  draining := q.insertPending
  scheduled := q.beginTransfer
  usage := q.usage

namespace FIFO

open FIFOQueue (pieces first lastContexts)

/-- The ids of the reads in the FIFO. -/
def ids (s : FIFO) : List Nat := s.readQueue.transferQueue.map FIFOEntry.id

/-- `transferReadDone` is running. -/
def transferring (s : FIFO) : Bool := s.stage = .transferring ∨ s.stage = .readCalling true

/-- The completion function of a read is running. -/
def readCalling (s : FIFO) : Bool := s.stage = .readCalling true ∨ s.stage = .readCalling false

/-- The interface below has the last read of the FIFO. -/
def busy (s : FIFO) : Bool := s.readQueue.transferPending ∧ s.transferring = false

/-- The reads whose transfer is finished. -/
def transferred (s : FIFO) : List Nat := if s.busy then s.ids.dropLast else s.ids

/-- The first read is transferred and inserted, and is completed or about to be. -/
def merged (s : FIFO) : Bool := s.readQueue.submitCompletion ∨ s.readCalling = true

/-- The first read is inserted, and its transfer goes on. -/
def inserted (s : FIFO) : Bool :=
  s.readQueue.insertPending ∧ s.readQueue.insertDone = false ∧ s.merged = false

/-- How far the first read has come, and whether `transferReadDone` is running. -/
def readPhase (s : FIFO) : Nat :=
  (if s.transferring then 1 else 0) +
    if s.readCalling then 4
    else if s.readQueue.submitCompletion then 3
    else if s.inserted then 2
    else if s.readQueue.insertPending then 1
    else 0

/-- What the read queue has asked for, finished and called back. -/
structure ReadMarks (p : FIFOParam) (s : FIFO) : Prop where
  capacity : s.readQueue.capacity = p.rqSize
  le : s.readQueue.usage ≤ p.rqSize
  issued : s.readQueue.issued = s.readQueue.left ++ pieces s.readQueue.transferQueue
  finished : s.readQueue.issued.length = s.readQueue.finished + if s.busy then 1 else 0
  completed : s.readQueue.completed =
    lastContexts (s.readQueue.left ++ if s.readCalling then s.readQueue.first else [])
  ids : s.ids.Pairwise (· < ·)
  ids_lt : ∀ id ∈ s.ids, id < s.counter
  front : s.busy = true → ∃ a ∈ s.readQueue.waitQueue.head?, s.ids.getLast? = some a.id
  transferring : s.transferring = true → s.readQueue.transferPending = true
  insertDone : s.readQueue.insertDone = true → s.readQueue.insertPending = true ∧ s.merged = false
  merged : s.merged = true → s.readQueue.insertPending = true ∧ s.transferred ≠ []
  submit : s.readQueue.submitCompletion = true → s.readCalling = false
  inserted : s.inserted = true → s.busy = true ∧ s.ids.length = 1
  readCompletion : s.readCompletion.map ReadEntry.id =
    if s.merged then s.transferred.tail else if s.inserted then s.ids else s.transferred

/-- What the read queue keeps. -/
structure Reads (p : FIFOParam) (s : FIFO) : Prop extends ReadMarks p s where
  flows : Flows p.readRule (s.readQueue.submitted.map FIFORequest.whole) s.readQueue.reading

section Reading

variable {p : FIFOParam} {t : Nat} {s : FIFO}

theorem reading_push (r : FIFORequest) (q : FIFOQueue) :
    (q.push r).reading = q.reading.submit r.whole := by
  simp [FIFOQueue.push, FIFOQueue.reading, Pipeline.submit, pieces, FIFORequest.entry]

/-- `transferRead` fills the FIFO. -/
theorem reading_transferRead (hcapacity : s.readQueue.capacity = p.rqSize)
    (hle : s.readQueue.usage ≤ p.rqSize) :
    (s.transferRead p).readQueue.reading = s.readQueue.reading.fill p.readRule := by
  cases hwait : s.readQueue.waitQueue with
  | nil =>
    rw [Pipeline.fill_nil (by rw [FIFOQueue.reading, hwait]; rfl), transferRead]
    simp only [hwait]
  | cons front others =>
    have hview : s.readQueue.reading.wait = pieces (front :: others) := by
      rw [FIFOQueue.reading, hwait]
    have hfill := FIFOQueue.fill_front (p := p) p.unit_le_rqSize p.rqSize_lt hview hle
    refine Eq.trans ?_ hfill.symm
    rw [transferRead]
    simp only [hwait, hcapacity]
    by_cases hblocked : (s.readQueue.transferPending = true ∨
        p.rqSize < (s.readQueue.usage + p.calcSize front.size) % 2 ^ 64) ∧
          p.calcSize front.size ≤ p.rqSize
    · rw [if_pos hblocked]
      exact (if_pos hblocked).symm
    · rw [if_neg hblocked]
      refine Eq.trans ?_ (if_neg hblocked).symm
      simp [FIFOQueue.reading, pieces]

/-- The state with the entry being transferred. -/
def startRead (p : FIFOParam) (iter : FIFOEntry) (rest : List FIFOEntry) (s : FIFO) : FIFO :=
  { s with
    counter := s.counter + 1
    readQueue := { s.readQueue with
      transferPending := true
      usage := (s.readQueue.usage + p.calcSize iter.size) % 2 ^ 64
      issued := s.readQueue.issued ++ [iter.toFIFOPiece]
      beginTransfer := true
      waitQueue := iter :: rest
      transferQueue := s.readQueue.transferQueue ++ [iter] } }

/-- A transfer starts only when none is going on: the entry of the one that is is not too
large. -/
theorem transferRead_cases {todo : List FIFOPiece} (h : Flows p.readRule todo s.readQueue.reading) :
    s.transferRead p = s ∨ s.readQueue.transferPending = false ∧
      ∃ iter rest, iter.id = s.counter ∧ s.transferRead p = s.startRead p iter rest := by
  cases hwait : s.readQueue.waitQueue with
  | nil =>
    left
    rw [transferRead]
    simp only [hwait]
  | cons front others =>
    by_cases hpending : s.readQueue.transferPending = true
    · left
      obtain ⟨a, ha, hsplit⟩ := h.filling hpending
      have hfront : front.toFIFOPiece = a := by
        simpa [FIFOQueue.reading, pieces, hwait] using ha
      have hle : p.calcSize front.size ≤ p.rqSize := by
        rw [← hfront] at hsplit
        by_contra hlarge
        have hsome : p.readRule.split front.toFIFOPiece = some (p.splitPiece front.toFIFOPiece) :=
          if_pos (Nat.lt_of_not_le hlarge)
        rw [hsome] at hsplit
        cases hsplit
      rw [transferRead]
      simp only [hwait, hpending, true_or, true_and, hle, if_true]
    · rw [transferRead]
      simp only [hwait]
      split
      · exact .inl rfl
      · exact .inr ⟨by simpa using hpending,
          { (p.splitFront p.rqSize front others).1 with id := s.counter },
          (p.splitFront p.rqSize front others).2, rfl, rfl⟩

section Start

variable {iter : FIFOEntry} {rest : List FIFOEntry}

theorem ids_startRead : (s.startRead p iter rest).ids = s.ids ++ [iter.id] := by
  simp [ids, startRead]

theorem ReadMarks.startRead (h : ReadMarks p s) (hpending : s.readQueue.transferPending = false)
    (hiter : iter.id = s.counter) (hle : (s.startRead p iter rest).readQueue.usage ≤ p.rqSize) :
    ReadMarks p (s.startRead p iter rest) := by
  have hidle : s.transferring = false := by
    by_contra ht
    have hp := h.transferring (by simpa using ht)
    rw [hpending] at hp
    cases hp
  have hfree : s.busy = false := by simp [busy, hpending]
  have hbusy : (s.startRead p iter rest).busy = true := by
    show decide (true = true ∧ s.transferring = false) = true
    rw [hidle]
    rfl
  have hids : (s.startRead p iter rest).ids = s.ids ++ [iter.id] := ids_startRead
  have htransferred : (s.startRead p iter rest).transferred = s.transferred := by
    rw [transferred, if_pos hbusy, hids, List.dropLast_concat, transferred,
      if_neg (by simp [hfree])]
  have hmerged : (s.startRead p iter rest).merged = s.merged := rfl
  have hnone : s.inserted = false := by
    by_contra hi
    have hb := (h.inserted (by simpa using hi)).1
    rw [hfree] at hb
    cases hb
  have hinserted : (s.startRead p iter rest).inserted = s.inserted := rfl
  refine ⟨h.capacity, hle, ?_, ?_, ?_, ?_, ?_, fun _ => ?_, fun _ => rfl, h.insertDone, ?_,
    h.submit,
    ?_, ?_⟩
  · simp [FIFO.startRead, h.issued, pieces]
  · have hfinished := h.finished
    rw [hfree, if_neg Bool.false_ne_true, Nat.add_zero] at hfinished
    rw [hbusy, if_pos rfl]
    simp [FIFO.startRead, hfinished]
  · show s.readQueue.completed = lastContexts (s.readQueue.left ++
      if s.readCalling then (s.startRead p iter rest).readQueue.first else [])
    rw [h.completed]
    by_cases hcalling : s.readCalling = true
    · -- the read that is completed is in the FIFO
      have hne := (h.merged (by simp [FIFO.merged, hcalling])).2
      rw [FIFO.transferred, hfree, if_neg Bool.false_ne_true, FIFO.ids, ne_eq,
        List.map_eq_nil_iff] at hne
      have hfirst : (s.startRead p iter rest).readQueue.first = s.readQueue.first :=
        FIFOQueue.first_append hne rfl
      rw [if_pos hcalling, if_pos hcalling, hfirst]
    · rw [if_neg hcalling, if_neg hcalling]
  · rw [hids]
    refine List.pairwise_append.mpr ⟨h.ids, List.pairwise_singleton _ _, fun a ha b hb => ?_⟩
    rw [List.mem_singleton.mp hb, hiter]
    exact h.ids_lt a ha
  · intro id hid
    rw [hids, List.mem_append, List.mem_singleton] at hid
    rcases hid with hid | rfl
    · exact (h.ids_lt id hid).trans (Nat.lt_succ_self _)
    · rw [hiter]
      exact Nat.lt_succ_self _
  · exact ⟨iter, rfl, by rw [hids, List.getLast?_concat]⟩
  · rw [hmerged, htransferred]
    exact h.merged
  · rw [hinserted, hnone]
    exact fun hi => absurd hi (by simp)
  · have hcompletion := h.readCompletion
    rw [hnone] at hcompletion
    rw [hmerged, htransferred, hinserted, hnone]
    exact hcompletion

end Start

theorem readPhase_transferRead {todo : List FIFOPiece}
    (h : Flows p.readRule todo s.readQueue.reading) :
    (s.transferRead p).readPhase = s.readPhase := by
  rcases transferRead_cases h with heq | ⟨-, iter, rest, -, heq⟩
  · rw [heq]
  · rw [heq]
    rfl

/-- Filling keeps everything, and serves what waits. -/
theorem Reads.transferRead (h : Reads p s)
    (hroom : Pipeline.Room p.readRule s.readQueue.reading) :
    Reads p (s.transferRead p) ∧ (s.transferRead p).readQueue.reading.Served := by
  have hview := reading_transferRead (p := p) h.capacity h.le
  have hsubmitted : (s.transferRead p).readQueue.submitted = s.readQueue.submitted := by
    rcases transferRead_cases h.flows with heq | ⟨-, iter, rest, -, heq⟩
    · rw [heq]
    · rw [heq]
      rfl
  have hle : (s.transferRead p).readQueue.usage ≤ p.rqSize := by
    have hle := (Pipeline.fill_usage_le_iff p.readRule (s := s.readQueue.reading)
      h.le).mpr hroom
    rw [← hview] at hle
    exact hle
  have hmarks : ReadMarks p (s.transferRead p) := by
    rcases transferRead_cases h.flows with heq | ⟨hpending, iter, rest, hiter, heq⟩
    · rw [heq]
      exact h.toReadMarks
    · rw [heq] at hle ⊢
      exact h.toReadMarks.startRead hpending hiter hle
  refine ⟨⟨hmarks, ?_⟩, ?_⟩
  · rw [hview, hsubmitted]
    exact h.flows.fill
  · rw [hview]
    exact h.flows.served

theorem Reads.push (r : FIFORequest) (h : Reads p s) :
    Reads p { s with readQueue := s.readQueue.push r } := by
  have hfront : s.busy = true →
      ∃ a ∈ (s.readQueue.push r).waitQueue.head?, s.ids.getLast? = some a.id := by
    intro hbusy
    obtain ⟨a, ha, hlast⟩ := h.front hbusy
    refine ⟨a, ?_, hlast⟩
    obtain ⟨rest, hwait⟩ := List.head?_eq_some_iff.mp ha
    simp [FIFOQueue.push, hwait]
  refine ⟨⟨h.capacity, h.le, h.issued, h.finished, h.completed, h.ids, h.ids_lt, hfront,
    h.transferring, h.insertDone, h.merged, h.submit, h.inserted, h.readCompletion⟩, ?_⟩
  have hsubmitted : (s.readQueue.push r).submitted.map FIFORequest.whole =
      s.readQueue.submitted.map FIFORequest.whole ++ [r.whole] := by simp [FIFOQueue.push]
  show Flows _ _ (s.readQueue.push r).reading
  rw [reading_push, hsubmitted]
  exact h.flows.submit

/-- The end of `transferReadDone` before the next transfer. -/
def popRead (s : FIFO) : FIFO :=
  { s with
    stage := .outside
    readQueue := { s.readQueue with
      waitQueue := s.readQueue.waitQueue.tail
      transferPending := false } }

theorem Reads.popRead (h : Reads p s) (hstage : s.stage = .transferring) :
    Reads p s.popRead ∧ s.popRead.readPhase + 1 = s.readPhase ∧
      s.popRead.readQueue.reading = s.readQueue.reading.fillDone := by
  have htransferring : s.transferring = true := by simp [FIFO.transferring, hstage]
  have hcalling : s.readCalling = false := by simp [FIFO.readCalling, hstage]
  have hbusy : s.busy = false := by simp [FIFO.busy, htransferring]
  have hids : s.popRead.ids = s.ids := rfl
  have hcalling' : s.popRead.readCalling = false := by simp [FIFO.readCalling, FIFO.popRead]
  have hbusy' : s.popRead.busy = false := by simp [FIFO.busy, FIFO.popRead]
  have htransferred : s.popRead.transferred = s.transferred := by
    rw [FIFO.transferred, FIFO.transferred, hbusy, hbusy', hids]
  have hmerged : s.popRead.merged = s.merged := by
    rw [FIFO.merged, FIFO.merged, hcalling, hcalling']
    rfl
  have hinserted : s.popRead.inserted = s.inserted := by
    rw [FIFO.inserted, FIFO.inserted, hmerged]
    rfl
  have hnone : s.inserted = false := by
    by_contra hi
    have hb := (h.inserted (by simpa using hi)).1
    rw [hbusy] at hb
    cases hb
  have hfinished := h.finished
  rw [hbusy] at hfinished
  have hcompleted := h.completed
  rw [hcalling] at hcompleted
  have hcompletion := h.readCompletion
  rw [hnone] at hcompletion
  have hview : s.popRead.readQueue.reading = s.readQueue.reading.fillDone := by
    simp [FIFO.popRead, FIFOQueue.reading, Pipeline.fillDone, pieces, List.map_tail]
  have hphase : s.popRead.readPhase + 1 = s.readPhase := by
    have htransferring' : s.popRead.transferring = false := rfl
    rw [readPhase, readPhase, hcalling, hcalling', hinserted, htransferring, htransferring',
      if_pos rfl, if_neg Bool.false_ne_true, Nat.zero_add]
    exact Nat.add_comm _ 1
  refine ⟨⟨⟨h.capacity, h.le, h.issued, ?_, ?_, h.ids, h.ids_lt, ?_, ?_, ?_, ?_, ?_, ?_, ?_⟩, ?_⟩,
    hphase,
    hview⟩
  · rw [hbusy']
    exact hfinished
  · rw [hcalling']
    exact hcompleted
  · rw [hbusy']
    exact fun hb => absurd hb (by simp)
  · exact fun ht => absurd ht (by simp [FIFO.transferring, FIFO.popRead])
  · rw [hmerged]
    exact h.insertDone
  · rw [hmerged, htransferred]
    exact h.merged
  · exact fun _ => hcalling'
  · rw [hinserted, hnone]
    exact fun hi => absurd hi (by simp)
  · rw [hmerged, hinserted, hnone, htransferred]
    exact hcompletion
  · rw [hview]
    exact h.flows.fillDone (h.transferring htransferring)

/-! ### Insertion -/

/-- The queue with its first entry being inserted. -/
def startInsert (p : FIFOParam) (t : Nat) (iter : FIFOEntry) (rest : List FIFOEntry)
    (q : FIFOQueue) : FIFOQueue :=
  { q with
    insertPending := true
    transferQueue := { iter with insertEndAt := t + p.latency (p.calcSize iter.size) } :: rest
    insertDone := true }

theorem insertRead_cons {q : FIFOQueue} {iter : FIFOEntry} {rest : List FIFOEntry}
    (hqueue : q.transferQueue = iter :: rest) :
    q.insertRead p t = .ok (if q.insertPending then q else startInsert p t iter rest q) := by
  have hcall : q.insertRead p t =
      if q.insertPending then .ok q else .ok (startInsert p t iter rest q) := by
    rw [FIFOQueue.insertRead, startInsert, hqueue]
  rw [hcall]
  split <;> rfl

theorem pieces_startInsert {q : FIFOQueue} {iter : FIFOEntry} {rest : List FIFOEntry}
    (hqueue : q.transferQueue = iter :: rest) :
    pieces (startInsert p t iter rest q).transferQueue = pieces q.transferQueue := by
  rw [hqueue]
  rfl

/-- An insertion starts when none is going on. -/
theorem ReadMarks.startInsert {iter : FIFOEntry} {rest : List FIFOEntry} (h : ReadMarks p s)
    (hqueue : s.readQueue.transferQueue = iter :: rest)
    (hidle : s.readQueue.insertPending = false) :
    ReadMarks p { s with readQueue := FIFO.startInsert p t iter rest s.readQueue } := by
  have hmerged : s.merged = false := by
    by_contra hm
    have hp := (h.merged (by simpa using hm)).1
    rw [hidle] at hp
    cases hp
  have hnone : s.inserted = false := by simp [FIFO.inserted, hidle]
  have hpieces := pieces_startInsert (p := p) (t := t) hqueue
  let s' : FIFO := { s with readQueue := FIFO.startInsert p t iter rest s.readQueue }
  have hids : s'.ids = s.ids := by
    rw [FIFO.ids, FIFO.ids, hqueue]
    rfl
  have htransferred : s'.transferred = s.transferred := by
    rw [FIFO.transferred, FIFO.transferred, hids]
    rfl
  have hmerged' : s'.merged = false := hmerged
  have hnone' : s'.inserted = false := by simp [FIFO.inserted, s', FIFO.startInsert]
  have hcompletion := h.readCompletion
  rw [hmerged, hnone] at hcompletion
  have hcalling : s.readCalling = false := by
    by_contra hc
    rw [FIFO.merged, decide_eq_false_iff_not] at hmerged
    exact hmerged (.inr (by simpa using hc))
  have hcompleted := h.completed
  rw [hcalling] at hcompleted
  refine ⟨h.capacity, h.le, ?_, h.finished, ?_, ?_, ?_, fun hb => ?_, h.transferring,
    fun _ => ⟨rfl, hmerged'⟩, fun hm => absurd (hmerged'.symm.trans hm) Bool.false_ne_true,
      h.submit,
    fun hi => absurd (hnone'.symm.trans hi) Bool.false_ne_true, ?_⟩
  · rw [hpieces]
    exact h.issued
  · show s.readQueue.completed = lastContexts (_ ++ if s.readCalling then _ else [])
    rw [hcalling]
    exact hcompleted
  · rw [hids]
    exact h.ids
  · rw [hids]
    exact h.ids_lt
  · rw [hids]
    exact h.front hb
  · rw [hmerged', hnone', htransferred]
    exact hcompletion

/-- The event `beginTransfer`. -/
theorem Reads.insertRead (h : Reads p s) (hbegin : s.readQueue.beginTransfer = true) :
    ∃ q', { s.readQueue with beginTransfer := false }.insertRead p t = .ok q' ∧
      Reads p { s with readQueue := q' } ∧
      q'.reading = { s.readQueue.reading with scheduled := false }.drain ∧
      q'.submitted = s.readQueue.submitted ∧
      s.readPhase ≤ readPhase { s with readQueue := q' } := by
  have hdrain := h.flows.drain hbegin
  let q₀ : FIFOQueue := { s.readQueue with beginTransfer := false }
  let s₀ : FIFO := { s with readQueue := q₀ }
  have hmarks : ReadMarks p s₀ :=
    ⟨h.capacity, h.le, h.issued, h.finished, h.completed, h.ids, h.ids_lt, h.front, h.transferring,
      h.insertDone, h.merged, h.submit, h.inserted, h.readCompletion⟩
  obtain ⟨iter, rest, hqueue⟩ : ∃ iter rest, q₀.transferQueue = iter :: rest := by
    refine List.exists_cons_of_ne_nil fun hnil => hdrain.draining rfl ?_
    show pieces q₀.transferQueue = []
    rw [hnil, pieces, List.map_nil]
  show ∃ q', q₀.insertRead p t = .ok q' ∧ _
  rw [insertRead_cons hqueue]
  cases hpending : s.readQueue.insertPending with
  | true =>
    have hview : q₀.reading = { s.readQueue.reading with scheduled := false }.drain := by
      simp [q₀, FIFOQueue.reading, Pipeline.drain, hpending]
    rw [if_pos rfl]
    exact ⟨q₀, rfl, ⟨hmarks, hview ▸ hdrain⟩, hview, rfl, le_rfl⟩
  | false =>
    have hidle : s.readPhase ≤ if s.transferring then 1 else 0 := by
      have hmerged : s.merged = false := by
        by_contra hm
        have hp := (h.merged (by simpa using hm)).1
        rw [hpending] at hp
        cases hp
      rw [FIFO.merged, decide_eq_false_iff_not, not_or] at hmerged
      have hnone : s.inserted = false := by simp [FIFO.inserted, hpending]
      have hlast : ¬ s.readQueue.insertPending = true := by simp [hpending]
      rw [readPhase, if_neg hmerged.2, if_neg hmerged.1, hnone, if_neg Bool.false_ne_true,
        if_neg hlast, Nat.add_zero]
    have hview : (startInsert p t iter rest q₀).reading =
        { s.readQueue.reading with scheduled := false }.drain := by
      rw [FIFOQueue.reading, pieces_startInsert hqueue]
      rfl
    rw [if_neg Bool.false_ne_true]
    exact ⟨_, rfl, ⟨hmarks.startInsert hqueue hpending, hview ▸ hdrain⟩, hview, rfl,
      hidle.trans (Nat.le_add_right _ _)⟩

/-! ### Completion -/

/-- The reads whose transfer is finished, once the end of `transferReadDone` has come or not. -/
def readyIds (inTransfer : Bool) (s : FIFO) : List Nat :=
  if s.readQueue.transferPending ∧ inTransfer = false then s.ids.dropLast else s.ids

/-- The first read is transferred and inserted, and its entry in `readCompletion` is erased. The
stage is to be the one of `transferReadDone`, or outside it. -/
structure Joined (p : FIFOParam) (inTransfer : Bool) (s : FIFO) : Prop where
  capacity : s.readQueue.capacity = p.rqSize
  le : s.readQueue.usage ≤ p.rqSize
  issued : s.readQueue.issued = s.readQueue.left ++ pieces s.readQueue.transferQueue
  finished : s.readQueue.issued.length = s.readQueue.finished +
    if s.readQueue.transferPending ∧ inTransfer = false then 1 else 0
  completed : s.readQueue.completed = lastContexts s.readQueue.left
  ids : s.ids.Pairwise (· < ·)
  ids_lt : ∀ id ∈ s.ids, id < s.counter
  front : s.readQueue.transferPending = true → inTransfer = false →
    ∃ a ∈ s.readQueue.waitQueue.head?, s.ids.getLast? = some a.id
  pending : inTransfer = true → s.readQueue.transferPending = true
  insertPending : s.readQueue.insertPending = true
  insertDone : s.readQueue.insertDone = false
  submit : s.readQueue.submitCompletion = false
  ne_nil : s.readyIds inTransfer ≠ []
  readCompletion : s.readCompletion.map ReadEntry.id = (s.readyIds inTransfer).tail
  flows : Flows p.readRule (s.readQueue.submitted.map FIFORequest.whole) s.readQueue.reading

section Joined

variable {inTransfer : Bool}

/-- The completion is on its way: it is scheduled, or its function is called. -/
theorem Joined.reads {stage : FIFOStage} {submit : Bool} {completed : List Nat}
    (h : Joined p inTransfer s)
    (htransferring : ({ s with stage := stage } : FIFO).transferring = inTransfer)
    (hway : submit = !({ s with stage := stage } : FIFO).readCalling)
    (hcompleted : completed = lastContexts (s.readQueue.left ++
      if ({ s with stage := stage } : FIFO).readCalling then s.readQueue.first else [])) :
    Reads p { s with
      stage := stage
      readQueue := { s.readQueue with submitCompletion := submit, completed := completed } } := by
  let s' : FIFO := { s with
    stage := stage
    readQueue := { s.readQueue with submitCompletion := submit, completed := completed } }
  have hbusy : s'.busy = decide (s.readQueue.transferPending = true ∧ inTransfer = false) := by
    rw [FIFO.busy, ← htransferring]
    rfl
  have htransferred : s'.transferred = s.readyIds inTransfer := by
    rw [FIFO.transferred, hbusy, readyIds]
    simp only [decide_eq_true_eq]
    rfl
  have hmerged : s'.merged = true := by
    have hcalling : s'.readCalling = ({ s with stage := stage } : FIFO).readCalling := rfl
    rw [FIFO.merged, hcalling]
    simp only [s', hway]
    cases ({ s with stage := stage } : FIFO).readCalling <;> rfl
  have hinserted : s'.inserted = false := by simp [FIFO.inserted, hmerged]
  refine ⟨⟨h.capacity, h.le, h.issued, ?_, hcompleted, h.ids, h.ids_lt, fun hb => ?_, fun ht => ?_,
    fun hd => ?_, fun _ => ⟨h.insertPending, ?_⟩, fun hs => ?_, fun hi => ?_, ?_⟩, h.flows⟩
  · rw [hbusy]
    simpa using h.finished
  · rw [hbusy] at hb
    obtain ⟨hp, ht⟩ := of_decide_eq_true hb
    exact h.front hp ht
  · exact h.pending (htransferring.symm.trans ht)
  · exact absurd (h.insertDone.symm.trans hd) Bool.false_ne_true
  · rw [htransferred]
    exact h.ne_nil
  · have hnot : (!({ s with stage := stage } : FIFO).readCalling) = true := hway.symm.trans hs
    exact (Bool.not_eq_true' _).mp hnot
  · exact absurd (hinserted.symm.trans hi) Bool.false_ne_true
  · rw [hmerged, if_pos rfl, htransferred]
    exact h.readCompletion

/-- The completion is scheduled. -/
theorem Joined.schedule (h : Joined p inTransfer s) :
    Reads p { s with
      stage := after inTransfer
      readQueue := { s.readQueue with submitCompletion := true } } := by
  have hcalling : ({ s with stage := after inTransfer } : FIFO).readCalling = false := by
    cases inTransfer <;> rfl
  refine h.reads (by cases inTransfer <;> rfl) ?_ ?_
  · rw [hcalling]
    rfl
  · rw [hcalling]
    simpa using h.completed

/-- The completion function is called. -/
theorem Joined.complete {iter : FIFOEntry} {rest : List FIFOEntry} (h : Joined p inTransfer s)
    (hqueue : s.readQueue.transferQueue = iter :: rest) :
    Reads p { s with
      stage := .readCalling inTransfer
      readQueue := { s.readQueue with
        completed := s.readQueue.completed ++ if iter.last then [iter.context] else [] } } := by
  have hcalling : ({ s with stage := .readCalling inTransfer } : FIFO).readCalling = true := by
    cases inTransfer <;> rfl
  refine h.reads (by cases inTransfer <;> rfl) ?_ ?_
  · rw [hcalling]
    exact h.submit
  · rw [hcalling, if_pos rfl, h.completed]
    cases hlast : iter.last <;> simp [lastContexts, first, pieces, hqueue, hlast]

theorem Joined.transferQueue_ne_nil (h : Joined p inTransfer s) :
    s.readQueue.transferQueue ≠ [] := by
  have hne := h.flows.draining h.insertPending
  intro hnil
  exact hne (by rw [FIFOQueue.reading, hnil]; rfl)

/-- `insertReadDoneMerge`, at once or later. -/
theorem Joined.merge {comp : ReadEntry}
    (h : Joined p inTransfer { s with
      readCompletion := s.readCompletion.eraseP fun entry => entry.id = comp.id }) :
    ∃ s', s.insertReadDoneMerge t inTransfer comp = .ok s' ∧ Reads p s' ∧
      s'.readQueue.reading = s.readQueue.reading ∧ s'.writeQueue = s.writeQueue ∧
      s'.readQueue.submitted = s.readQueue.submitted ∧
      (s'.stage = after inTransfer ∨ s'.stage = .readCalling inTransfer) ∧
      (if inTransfer then 4 else 3) ≤ s'.readPhase := by
  rw [insertReadDoneMerge]
  by_cases hnow : comp.dmaEndAt + comp.latency ≤ t
  · obtain ⟨iter, rest, hqueue⟩ := List.exists_cons_of_ne_nil h.transferQueue_ne_nil
    rw [if_pos hnow, insertReadDoneNext]
    have hqueue' : s.readQueue.transferQueue = iter :: rest := hqueue
    simp only [hqueue']
    have hreads := h.complete hqueue
    simp only [hqueue'] at hreads
    refine ⟨_, rfl, hreads, by simp [FIFOQueue.reading, hqueue'], rfl, rfl, .inr rfl, ?_⟩
    cases inTransfer <;> simp [readPhase, FIFO.transferring, FIFO.readCalling]
  · rw [if_neg hnow]
    refine ⟨_, rfl, h.schedule, rfl, rfl, rfl, .inl rfl, ?_⟩
    cases inTransfer <;> simp [readPhase, FIFO.transferring, FIFO.readCalling, after]

end Joined

section Outside

/-- Outside the handlers. -/
theorem outside_flags (hstage : s.stage = .outside) :
    s.transferring = false ∧ s.readCalling = false ∧
    s.busy = s.readQueue.transferPending ∧ s.merged = s.readQueue.submitCompletion := by
  have htransferring : s.transferring = false := by simp [FIFO.transferring, hstage]
  have hcalling : s.readCalling = false := by simp [FIFO.readCalling, hstage]
  refine ⟨htransferring, hcalling, ?_, ?_⟩
  · simp [FIFO.busy, htransferring]
  · simp [FIFO.merged, hcalling]

theorem transferred_outside (hstage : s.stage = .outside) : s.transferred = s.readyIds false := by
  rw [FIFO.transferred, (outside_flags hstage).2.2.1, readyIds]
  simp only [and_true]

/-- The event `submitCompletion`. -/
theorem Reads.joined_submit (h : Reads p s) (hstage : s.stage = .outside)
    (hsubmit : s.readQueue.submitCompletion = true) :
    Joined p false { s with readQueue := { s.readQueue with submitCompletion := false } } := by
  obtain ⟨-, hcalling, hbusy, hmergedEq⟩ := outside_flags hstage
  have hmerged : s.merged = true := hmergedEq.trans hsubmit
  obtain ⟨hpending, hne⟩ := h.merged hmerged
  have hdone : s.readQueue.insertDone = false := by
    by_contra hd
    have hm := (h.insertDone (by simpa using hd)).2
    rw [hmerged] at hm
    cases hm
  have hfinished := h.finished
  rw [hbusy] at hfinished
  have hcompleted := h.completed
  rw [hcalling, if_neg Bool.false_ne_true, List.append_nil] at hcompleted
  have hcompletion := h.readCompletion
  rw [hmerged, if_pos rfl, transferred_outside hstage] at hcompletion
  rw [transferred_outside hstage] at hne
  exact ⟨h.capacity, h.le, h.issued, by simpa using hfinished, hcompleted, h.ids, h.ids_lt,
    fun hp _ => h.front (hbusy.trans hp), fun ht => absurd ht Bool.false_ne_true, hpending, hdone,
      rfl,
    hne, hcompletion, h.flows⟩

theorem find_eq_none {id : Nat} (h : id ∉ s.readCompletion.map ReadEntry.id) :
    s.find id = none := by
  rw [find, List.find?_eq_none]
  intro entry hentry
  rw [decide_eq_true_eq]
  rintro rfl
  exact h (List.mem_map_of_mem hentry)

theorem find_eq_some {id : Nat} {l : List Nat} (h : s.readCompletion.map ReadEntry.id = id :: l) :
    ∃ comp, s.find id = some comp ∧ comp.id = id ∧
      (s.readCompletion.eraseP fun entry => entry.id = id).map ReadEntry.id = l := by
  match hcompletion : s.readCompletion with
  | [] => simp [hcompletion] at h
  | comp :: rest =>
    rw [hcompletion, List.map_cons, List.cons.injEq] at h
    obtain ⟨hid, hrest⟩ := h
    refine ⟨comp, ?_, hid, ?_⟩
    · rw [find, hcompletion, List.find?_cons_of_pos (by simpa using hid)]
    · rw [List.eraseP_cons_of_pos (by simpa using hid), hrest]

theorem insertReadDone_cons {iter : FIFOEntry} {rest : List FIFOEntry}
    (hqueue : s.readQueue.transferQueue = iter :: rest) :
    (find iter.id { s with readQueue := { s.readQueue with insertDone := false } } = none →
      s.insertReadDone p t = .ok { s with
        readQueue := { s.readQueue with insertDone := false }
        readCompletion := s.readCompletion ++ [⟨iter.id, 0, p.entryLatency iter.size⟩] }) ∧
    ∀ comp, find iter.id { s with readQueue := { s.readQueue with insertDone := false } } =
      some comp →
      s.insertReadDone p t = insertReadDoneMerge t false comp
        { s with readQueue := { s.readQueue with insertDone := false } } := by
  constructor
  · intro hfind
    simp only [FIFO.insertReadDone, hqueue] at hfind ⊢
    simp only [hfind]
  · intro comp hfind
    simp only [FIFO.insertReadDone, hqueue] at hfind ⊢
    simp only [hfind]

theorem transferReadDone_cons {iter : FIFOEntry} {others : List FIFOEntry}
    (hwait : s.readQueue.waitQueue = iter :: others) :
    (find iter.id
        { s with readQueue := { s.readQueue with finished := s.readQueue.finished + 1 } } = none →
      s.transferReadDone p t = .ok { s with
        readQueue := { s.readQueue with finished := s.readQueue.finished + 1 }
        readCompletion := s.readCompletion ++ [⟨iter.id, t, p.entryLatency iter.size⟩]
        stage := .transferring }) ∧
    ∀ comp, find iter.id
        { s with readQueue := { s.readQueue with finished := s.readQueue.finished + 1 } } =
          some comp →
      s.transferReadDone p t = insertReadDoneMerge t true { comp with dmaEndAt := t }
        { s with readQueue := { s.readQueue with finished := s.readQueue.finished + 1 } } := by
  constructor
  · intro hfind
    simp only [FIFO.transferReadDone, hwait] at hfind ⊢
    simp only [hfind]
  · intro comp hfind
    simp only [FIFO.transferReadDone, hwait] at hfind ⊢
    simp only [hfind]

/-- The event `insertDone`. -/
theorem Reads.insertReadDone (h : Reads p s) (hstage : s.stage = .outside)
    (hdone : s.readQueue.insertDone = true) :
    ∃ s', s.insertReadDone p t = .ok s' ∧ Reads p s' ∧
      s'.readQueue.reading = s.readQueue.reading ∧ s'.writeQueue = s.writeQueue ∧
      s'.readQueue.submitted = s.readQueue.submitted ∧
      (s'.stage = .outside ∨ s'.stage = .readCalling false) ∧ s.readPhase < s'.readPhase := by
  obtain ⟨htransferring, hcalling, hbusy, hmergedEq⟩ := outside_flags hstage
  obtain ⟨hpending, hmerged⟩ := h.insertDone hdone
  have hsubmit : s.readQueue.submitCompletion = false := hmergedEq.symm.trans hmerged
  have hnone : s.inserted = false := by simp [FIFO.inserted, hdone]
  have hphase : s.readPhase = 1 := by
    simp [readPhase, htransferring, hcalling, hsubmit, hnone, hpending]
  have hcompletion := h.readCompletion
  rw [hmerged, hnone, if_neg Bool.false_ne_true, if_neg Bool.false_ne_true,
    transferred_outside hstage] at hcompletion
  have hfinished := h.finished
  rw [hbusy] at hfinished
  have hcompleted := h.completed
  rw [hcalling, if_neg Bool.false_ne_true, List.append_nil] at hcompleted
  have hne : s.readQueue.transferQueue ≠ [] := by
    intro hnil
    exact h.flows.draining hpending (by rw [FIFOQueue.reading, hnil]; rfl)
  obtain ⟨iter, rest, hqueue⟩ := List.exists_cons_of_ne_nil hne
  have hids : s.ids = iter.id :: rest.map FIFOEntry.id := by rw [FIFO.ids, hqueue, List.map_cons]
  let s₁ : FIFO := { s with readQueue := { s.readQueue with insertDone := false } }
  obtain ⟨hnew, hold⟩ := insertReadDone_cons (p := p) (t := t) hqueue
  cases hready : s.readyIds false with
  | nil =>
    -- the only read, and its transfer goes on
    rw [hready] at hcompletion
    have hp : s.readQueue.transferPending = true := by
      by_contra hp
      rw [readyIds, if_neg (fun h => hp h.1), hids] at hready
      cases hready
    rw [readyIds, if_pos ⟨hp, rfl⟩, hids] at hready
    have hsingle : s.ids = [iter.id] := by
      cases hrest : rest.map FIFOEntry.id with
      | nil => rw [hids, hrest]
      | cons a l => rw [hrest, List.dropLast_cons_cons] at hready; cases hready
    have hfind : s₁.find iter.id = none := find_eq_none (by
      show iter.id ∉ s.readCompletion.map ReadEntry.id
      simp [hcompletion])
    rw [hnew hfind]
    let s' : FIFO := { s₁ with readCompletion :=
      s₁.readCompletion ++ [⟨iter.id, 0, p.entryLatency iter.size⟩] }
    have hmerged' : s'.merged = false := hmerged
    have hinserted : s'.inserted = true := by
      rw [FIFO.inserted, hmerged']
      simpa [s', s₁] using hpending
    have hphase' : s'.readPhase = 2 := by
      have hcalling' : s'.readCalling = false := hcalling
      have htransferring' : s'.transferring = false := htransferring
      have hsubmit' : s'.readQueue.submitCompletion = false := hsubmit
      simp [readPhase, htransferring', hcalling', hsubmit', hinserted]
    refine ⟨s', rfl,
      ⟨⟨h.capacity, h.le, h.issued, h.finished, h.completed, h.ids, h.ids_lt, h.front,
      h.transferring, (fun hd => by cases hd), h.merged, h.submit,
      fun _ => ⟨hbusy.trans hp, congrArg List.length hsingle⟩, ?_⟩, h.flows⟩, rfl, rfl, rfl,
      .inl hstage, by omega⟩
    rw [hmerged', hinserted, if_neg Bool.false_ne_true, if_pos rfl]
    show (s.readCompletion ++ [_]).map ReadEntry.id = s.ids
    rw [List.map_append, hcompletion, hsingle]
    rfl
  | cons id ids =>
    -- the first read is transferred
    rw [hready] at hcompletion
    have hid : id = iter.id := by
      rw [readyIds, hids] at hready
      split at hready
      · cases hrest : rest.map FIFOEntry.id with
        | nil => rw [hrest] at hready; cases hready
        | cons a l =>
          rw [hrest, List.dropLast_cons_cons] at hready
          exact (List.cons.inj hready).1.symm
      · exact (List.cons.inj hready).1.symm
    subst hid
    obtain ⟨comp, hfind, hcomp, herase⟩ := find_eq_some (s := s₁) hcompletion
    rw [hold comp hfind]
    have hjoined : Joined p false { s₁ with
        readCompletion := s₁.readCompletion.eraseP fun entry => entry.id = comp.id } := by
      refine ⟨h.capacity, h.le, h.issued, by simpa [s₁] using hfinished, hcompleted, h.ids,
        h.ids_lt,
        fun hp _ => h.front (hbusy.trans hp), fun ht => absurd ht Bool.false_ne_true, hpending, rfl,
        hsubmit, ?_, ?_, h.flows⟩
      · show s.readyIds false ≠ []
        rw [hready]
        exact List.cons_ne_nil _ _
      · show _ = (s.readyIds false).tail
        rw [hready, hcomp, herase]
        rfl
    obtain ⟨s', hmerge, hreads, hview, hwrite, hsub, hst, hphase'⟩ := hjoined.merge
    rw [if_neg Bool.false_ne_true] at hphase'
    exact ⟨s', hmerge, hreads, hview, hwrite, hsub, hst, by omega⟩

/-- The last of growing ids is not among the others. -/
theorem last_notMem {l : List Nat} {x : Nat} (h : l.Pairwise (· < ·))
    (hlast : l.getLast? = some x) :
    x ∉ l.dropLast := by
  rw [← List.dropLast_append_getLast? x hlast] at h
  intro hmem
  exact lt_irrefl x ((List.pairwise_append.mp h).2.2 x hmem x List.mem_cons_self)

/-- The state with the entry of the read that the interface has finished. -/
def enterRead (p : FIFOParam) (t : Nat) (iter : FIFOEntry) (s : FIFO) : FIFO :=
  { s with
    readQueue := { s.readQueue with finished := s.readQueue.finished + 1 }
    readCompletion := s.readCompletion ++ [⟨iter.id, t, p.entryLatency iter.size⟩]
    stage := .transferring }

/-- The entry is behind those of the reads before it. -/
theorem ReadMarks.enterRead {iter : FIFOEntry} (h : ReadMarks p s) (hstage : s.stage = .outside)
    (hbusy : s.busy = true) (hnone : s.inserted = false) (hlast : s.ids.getLast? = some iter.id) :
    ReadMarks p (s.enterRead p t iter) := by
  obtain ⟨-, hcalling, hbusyEq, -⟩ := outside_flags hstage
  have hconcat := List.dropLast_append_getLast? iter.id hlast
  have hready : s.transferred = s.ids.dropLast := by rw [FIFO.transferred, if_pos hbusy]
  have hcalling' : (s.enterRead p t iter).readCalling = false := rfl
  have hbusy' : (s.enterRead p t iter).busy = false := by
    simp [FIFO.busy, FIFO.transferring, FIFO.enterRead]
  have htransferred : (s.enterRead p t iter).transferred = s.ids := by
    rw [FIFO.transferred, hbusy', if_neg Bool.false_ne_true]
    rfl
  have hmerged : (s.enterRead p t iter).merged = s.merged := by
    rw [FIFO.merged, FIFO.merged, hcalling, hcalling']
    rfl
  have hnone' : (s.enterRead p t iter).inserted = false := by
    rw [← hnone, FIFO.inserted, FIFO.inserted, hmerged]
    rfl
  refine ⟨h.capacity, h.le, h.issued, ?_, ?_, h.ids, h.ids_lt, fun hb => ?_,
    fun _ => hbusyEq.symm.trans hbusy, ?_, fun hm => ?_, fun _ => hcalling', fun hi => ?_, ?_⟩
  · rw [hbusy']
    have hfinished := h.finished
    rwa [if_pos hbusy] at hfinished
  · rw [hcalling', if_neg Bool.false_ne_true, List.append_nil]
    have hcompleted := h.completed
    rwa [hcalling, if_neg Bool.false_ne_true, List.append_nil] at hcompleted
  · exact absurd (hbusy'.symm.trans hb) Bool.false_ne_true
  · rw [hmerged]
    exact h.insertDone
  · rw [htransferred]
    rw [hmerged] at hm
    refine ⟨(h.merged hm).1, ?_⟩
    rw [← hconcat]
    simp
  · exact absurd (hnone'.symm.trans hi) Bool.false_ne_true
  · have hcompletion := h.readCompletion
    rw [hready, hnone, if_neg Bool.false_ne_true] at hcompletion
    rw [hmerged, hnone', htransferred]
    show (s.readCompletion ++ [_]).map ReadEntry.id = _
    rw [List.map_append, hcompletion]
    by_cases hm : s.merged = true
    · have hne := (h.merged hm).2
      rw [hready] at hne
      rw [if_pos hm, if_pos hm, ← List.tail_append_of_ne_nil hne]
      exact congrArg List.tail hconcat
    · rw [if_neg hm, if_neg hm]
      exact hconcat

/-- The interface below has finished a read. -/
theorem Reads.transferReadDone (h : Reads p s) (hstage : s.stage = .outside)
    (hissued : s.readQueue.finished < s.readQueue.issued.length) :
    ∃ s', s.transferReadDone p t = .ok s' ∧ Reads p s' ∧
      s'.readQueue.reading = s.readQueue.reading ∧ s'.writeQueue = s.writeQueue ∧
      s'.readQueue.submitted = s.readQueue.submitted ∧
      (s'.stage = .transferring ∨ s'.stage = .readCalling true) ∧ s.readPhase < s'.readPhase := by
  obtain ⟨htransferring, hcalling, hbusyEq, hmergedEq⟩ := outside_flags hstage
  have hfinished := h.finished
  have hbusy : s.busy = true := by
    by_contra hb
    rw [if_neg hb] at hfinished
    omega
  rw [if_pos hbusy] at hfinished
  have hp : s.readQueue.transferPending = true := hbusyEq.symm.trans hbusy
  obtain ⟨iter, hfront, hlast⟩ := h.front hbusy
  obtain ⟨others, hwait⟩ := List.head?_eq_some_iff.mp hfront
  have hconcat := List.dropLast_append_getLast? iter.id hlast
  have hcompleted := h.completed
  rw [hcalling, if_neg Bool.false_ne_true, List.append_nil] at hcompleted
  have hready : s.transferred = s.ids.dropLast := by rw [FIFO.transferred, if_pos hbusy]
  have hcompletion := h.readCompletion
  rw [hready] at hcompletion
  let s₁ : FIFO := { s with readQueue := { s.readQueue with finished := s.readQueue.finished + 1 } }
  obtain ⟨hnew, hold⟩ := transferReadDone_cons (p := p) (t := t) hwait
  by_cases hinserted : s.inserted = true
  · -- the read is the only one, and its insertion is done
    obtain ⟨hpending, hdone, hmerged⟩ := of_decide_eq_true hinserted
    rw [hmerged, hinserted, if_neg Bool.false_ne_true, if_pos rfl] at hcompletion
    have hsingle : s.ids = [iter.id] := by
      have hlength := (h.inserted hinserted).2
      rw [← hconcat, List.length_append, List.length_singleton] at hlength
      rw [← hconcat, List.length_eq_zero_iff.mp (Nat.succ.inj hlength), List.nil_append]
    rw [hsingle] at hcompletion
    obtain ⟨comp, hfind, hcomp, herase⟩ := find_eq_some (s := s₁) hcompletion
    rw [hold comp hfind]
    have hjoined : Joined p true { s₁ with
        readCompletion := s₁.readCompletion.eraseP fun entry => entry.id = comp.id } := by
      refine ⟨h.capacity, h.le, h.issued, ?_, hcompleted, h.ids, h.ids_lt,
        fun _ ht => absurd ht (by simp), fun _ => hp, hpending, hdone,
          hmergedEq.symm.trans hmerged, ?_,
        ?_, h.flows⟩
      · simpa [s₁] using hfinished
      · show (if _ ∧ true = false then s.ids.dropLast else s.ids) ≠ []
        rw [if_neg (by simp), hsingle]
        exact List.cons_ne_nil _ _
      · show _ = (if _ ∧ true = false then s.ids.dropLast else s.ids).tail
        rw [if_neg (by simp), hsingle, hcomp, herase]
        rfl
    have hphase : s.readPhase = 2 := by
      simp [readPhase, htransferring, hcalling, hinserted, hmergedEq.symm.trans hmerged]
    let comp' : ReadEntry := { comp with dmaEndAt := t }
    obtain ⟨s', hmerge, hreads, hview, hwrite, hsub, hst, hphase'⟩ :=
      @Joined.merge p t s₁ true comp' hjoined
    rw [if_pos rfl] at hphase'
    exact ⟨s', hmerge, hreads, hview, hwrite, hsub, hst, by omega⟩
  · -- the read is not found, and its entry is made
    have hnone : s.inserted = false := by simpa using hinserted
    rw [hnone, if_neg Bool.false_ne_true] at hcompletion
    have hnotMem := last_notMem h.ids hlast
    have hfind : s₁.find iter.id = none := by
      refine find_eq_none ?_
      show iter.id ∉ s.readCompletion.map ReadEntry.id
      rw [hcompletion]
      split
      · exact fun hmem => hnotMem (List.mem_of_mem_tail hmem)
      · exact hnotMem
    rw [hnew hfind]
    refine ⟨s.enterRead p t iter, rfl, ⟨h.toReadMarks.enterRead hstage hbusy hnone hlast, h.flows⟩,
      rfl, rfl, rfl, .inl rfl, ?_⟩
    have htransferring' : (s.enterRead p t iter).transferring = true := rfl
    have hcalling' : (s.enterRead p t iter).readCalling = false := rfl
    have hnone' : (s.enterRead p t iter).inserted = false := by
      rw [← hnone, FIFO.inserted, FIFO.inserted, FIFO.merged, FIFO.merged, hcalling, hcalling']
      rfl
    rw [readPhase, readPhase, htransferring, htransferring', hcalling, hcalling', hnone, hnone',
      if_pos rfl, if_neg Bool.false_ne_true]
    exact Nat.add_lt_add_right Nat.one_pos _

/-- The completion function is called later. -/
theorem Reads.insertReadDoneNext (h : Reads p s) (hstage : s.stage = .outside)
    (hsubmit : s.readQueue.submitCompletion = true) :
    ∃ s', insertReadDoneNext false
        { s with readQueue := { s.readQueue with submitCompletion := false } } = .ok s' ∧
      Reads p s' ∧ s'.readQueue.reading = s.readQueue.reading ∧ s'.writeQueue = s.writeQueue ∧
      s'.readQueue.submitted = s.readQueue.submitted ∧ s'.stage = .readCalling false ∧
      s.readPhase < s'.readPhase := by
  have hjoined := h.joined_submit hstage hsubmit
  obtain ⟨htransferring, hcalling, -, -⟩ := outside_flags hstage
  have hphase : s.readPhase = 3 := by simp [readPhase, htransferring, hcalling, hsubmit]
  obtain ⟨iter, rest, hqueue⟩ := List.exists_cons_of_ne_nil hjoined.transferQueue_ne_nil
  have hqueue' : s.readQueue.transferQueue = iter :: rest := hqueue
  have hreads := hjoined.complete hqueue
  rw [FIFO.insertReadDoneNext]
  simp only [hqueue'] at hreads ⊢
  refine ⟨_, rfl, hreads, by simp [FIFOQueue.reading, hqueue'], rfl, rfl, rfl, ?_⟩
  rw [hphase]
  exact Nat.lt_succ_self 3

end Outside

/-! ### After the completion function -/

section Release

variable {inTransfer : Bool}

/-- The state without the entry that was completed. -/
def dropRead (p : FIFOParam) (inTransfer : Bool) (iter : FIFOEntry) (rest : List FIFOEntry)
    (s : FIFO) : FIFO :=
  { s with
    readQueue := { s.readQueue.popped p iter rest with insertPending := false }
    stage := after inTransfer }

/-- The entry leaves, and no insertion is going on. -/
theorem ReadMarks.dropRead {iter : FIFOEntry} {rest : List FIFOEntry} (h : ReadMarks p s)
    (hstage : s.stage = .readCalling inTransfer)
    (hqueue : s.readQueue.transferQueue = iter :: rest) :
    ReadMarks p (s.dropRead p inTransfer iter rest) := by
  have hcalling : s.readCalling = true := by cases inTransfer <;> simp [FIFO.readCalling, hstage]
  have hmerged : s.merged = true := by simp [FIFO.merged, hcalling]
  have htransferring : s.transferring = inTransfer := by
    cases inTransfer <;> simp [FIFO.transferring, hstage]
  have hsubmit : s.readQueue.submitCompletion = false := by
    by_contra hs
    have hc := h.submit (by simpa using hs)
    rw [hcalling] at hc
    cases hc
  obtain ⟨-, hne⟩ := h.merged hmerged
  let s' := s.dropRead p inTransfer iter rest
  have hcalling' : s'.readCalling = false := by cases inTransfer <;> rfl
  have htransferring' : s'.transferring = s.transferring := by
    rw [htransferring]
    cases inTransfer <;> rfl
  have hbusy : s'.busy = s.busy := by
    rw [FIFO.busy, FIFO.busy, htransferring']
    rfl
  have hids : s'.ids = s.ids.tail := by
    rw [FIFO.ids, FIFO.ids, hqueue]
    rfl
  have htransferred : s'.transferred = s.transferred.tail := by
    rw [FIFO.transferred, FIFO.transferred, hbusy, hids]
    split
    · exact List.tail_dropLast.symm
    · rfl
  have hmerged' : s'.merged = false := by
    rw [FIFO.merged, hcalling']
    simpa [s', FIFO.dropRead, FIFOQueue.popped] using hsubmit
  have hnone : s'.inserted = false := by simp [FIFO.inserted, s', FIFO.dropRead]
  refine ⟨h.capacity, (Nat.sub_le _ _).trans h.le, ?_, ?_, ?_, ?_, fun id hid => ?_, fun hb => ?_,
    fun ht => ?_, fun hd => ?_, fun hm => ?_, fun _ => hcalling', fun hi => ?_, ?_⟩
  · simp [FIFO.dropRead, FIFOQueue.popped, h.issued, pieces, hqueue]
  · rw [hbusy]
    exact h.finished
  · rw [hcalling', if_neg Bool.false_ne_true]
    have hcompleted := h.completed
    rw [if_pos hcalling, first, hqueue] at hcompleted
    simpa [FIFO.dropRead, FIFOQueue.popped, pieces] using hcompleted
  · rw [hids]
    exact h.ids.tail
  · rw [hids] at hid
    exact h.ids_lt id (List.mem_of_mem_tail hid)
  · -- the read in transfer is not the one that leaves
    rw [hbusy] at hb
    obtain ⟨a, ha, hlast⟩ := h.front hb
    rw [FIFO.transferred, if_pos hb] at hne
    have htail : s.ids.tail ≠ [] := by
      intro hnil
      rw [← List.length_eq_zero_iff, List.length_tail] at hnil
      exact hne (List.length_eq_zero_iff.mp (by rw [List.length_dropLast, hnil]))
    refine ⟨a, ha, ?_⟩
    rw [hids, List.getLast?_tail, if_neg]
    · exact hlast
    · rw [← List.length_pos_iff, List.length_tail] at htail
      omega
  · rw [htransferring'] at ht
    exact h.transferring ht
  · have hf := (h.insertDone hd).2
    rw [hmerged] at hf
    cases hf
  · exact absurd (hmerged'.symm.trans hm) Bool.false_ne_true
  · exact absurd (hnone.symm.trans hi) Bool.false_ne_true
  · rw [hmerged', hnone, htransferred, if_neg Bool.false_ne_true, if_neg Bool.false_ne_true]
    have hcompletion := h.readCompletion
    rwa [if_pos hmerged] at hcompletion

/-- After the completion function the entry leaves, and the next one is inserted unless the event
for it is scheduled. -/
theorem Reads.release (h : Reads p s) (hstage : s.stage = .readCalling inTransfer) {q₁ : FIFOQueue}
    (hq₁ : q₁ = { s.readQueue.release p with insertPending := false }) : ∃ q',
    (if q₁.transferQueue ≠ [] ∧ q₁.beginTransfer = false then q₁.insertRead p t else .ok q₁) =
        .ok q' ∧
      Reads p { s with readQueue := q', stage := after inTransfer } ∧
      q'.reading = s.readQueue.reading.release p.readRule ∧
      q'.submitted = s.readQueue.submitted ∧
      (q'.waitQueue = (s.readQueue.release p).waitQueue ∧
        q'.usage = (s.readQueue.release p).usage) ∧
      s.readPhase ≤ readPhase { s with readQueue := q', stage := after inTransfer } + 4 := by
  have hcalling : s.readCalling = true := by cases inTransfer <;> simp [FIFO.readCalling, hstage]
  have hsame : q₁.waitQueue = (s.readQueue.release p).waitQueue ∧
      q₁.usage = (s.readQueue.release p).usage := by
    rw [hq₁]
    exact ⟨rfl, rfl⟩
  have hphase : ∀ q, s.readPhase ≤
      readPhase { s with readQueue := q, stage := after inTransfer } + 4 := by
    intro q
    cases inTransfer <;> simp [readPhase, FIFO.transferring, FIFO.readCalling, hstage, after]
  obtain ⟨hpending, -⟩ := h.merged (by simp [FIFO.merged, hcalling])
  have hflows := h.flows.release hpending
  obtain ⟨iter, rest, hqueue⟩ : ∃ iter rest, s.readQueue.transferQueue = iter :: rest := by
    refine List.exists_cons_of_ne_nil fun hnil => h.flows.draining hpending ?_
    show pieces s.readQueue.transferQueue = []
    rw [hnil, pieces, List.map_nil]
  have hlt := p.rqSize_lt
  have hle := h.le
  rw [FIFOQueue.release_eq hqueue (by omega) h.flows.usage] at hq₁
  have hmarks := h.toReadMarks.dropRead hstage hqueue
  rw [FIFO.dropRead, ← hq₁] at hmarks
  have hrest : pieces q₁.transferQueue ≠ [] ↔ q₁.transferQueue ≠ [] := by
    rw [pieces, ne_eq, List.map_eq_nil_iff]
  have hrelease : s.readQueue.reading.release p.readRule = { q₁.reading with
      draining := decide (pieces q₁.transferQueue ≠ [] ∧ q₁.beginTransfer = false) } := by
    have hheld : s.readQueue.reading.held = iter.toFIFOPiece :: pieces rest := by
      show pieces s.readQueue.transferQueue = _
      rw [hqueue]
      rfl
    rw [Pipeline.release_cons hheld, hq₁]
    rfl
  have hsubmitted : q₁.submitted = s.readQueue.submitted := by rw [hq₁, FIFOQueue.popped]
  rw [hrelease, ← hsubmitted] at hflows
  rw [hrelease]
  by_cases hnext : q₁.transferQueue ≠ [] ∧ q₁.beginTransfer = false
  · obtain ⟨next, others, hcons⟩ := List.exists_cons_of_ne_nil hnext.1
    have hidle : q₁.insertPending = false := by rw [hq₁]
    have hview :
        (startInsert p t next others q₁).reading = { q₁.reading with draining := true } := by
      rw [FIFOQueue.reading, pieces_startInsert hcons]
      rfl
    rw [decide_eq_true (hrest.and Iff.rfl |>.mpr hnext), ← hview] at hflows ⊢
    rw [if_pos hnext, insertRead_cons hcons, hidle, if_neg Bool.false_ne_true]
    exact ⟨_, rfl, ⟨hmarks.startInsert hcons hidle, hflows⟩, rfl, hsubmitted, hsame, hphase _⟩
  · have hview : { q₁.reading with draining := false } = q₁.reading := by rw [hq₁]; rfl
    rw [decide_eq_false (fun h => hnext (hrest.and Iff.rfl |>.mp h)), hview] at hflows
    rw [decide_eq_false (fun h => hnext (hrest.and Iff.rfl |>.mp h)), hview, if_neg hnext]
    exact ⟨q₁, rfl, ⟨hmarks, hflows⟩, rfl, hsubmitted, hsame, hphase q₁⟩

end Release

end Reading

end FIFO

end SimpleSSD
