import SimpleSSD.Util.FIFOCapacity

/-!
# Transfers through the FIFO

Requests that fit in the FIFO go through it whole and in the order they came. Every one of them is
completed: as long as one is not, a handler may run, and without new requests only so many
handlers run.
-/

namespace SimpleSSD

namespace FIFOQueue

open Pipeline (Flows)

/-- What a direction has done with the requests: those that were issued were issued whole and in
order, and those that were finished are completed in order. -/
structure Transfers (submitted : List FIFORequest) (q : FIFOQueue) : Prop where
  issued : q.issued <+: submitted.map FIFORequest.whole
  finished : q.finished ≤ q.issued.length
  completed : q.completed <+: submitted.map FIFORequest.context
  completed_le : q.completed.length ≤ q.finished

/-- The requests fit in the queue. -/
def AllFit (p : FIFOParam) (limit : Nat) (submitted : List FIFORequest) : Prop :=
  ∀ r ∈ submitted, p.calcSize r.size ≤ limit

section Fit

variable {p : FIFOParam} {limit : Nat} {submitted : List FIFORequest} {v : Pipeline FIFOPiece}
  {hunit : p.transferUnit ≤ limit} {hlimit : limit < 2 ^ 63}

theorem AllFit.split (hfit : AllFit p limit submitted) :
    ∀ a ∈ submitted.map FIFORequest.whole, (p.rule limit hunit hlimit).split a = none ∧ a.last := by
  intro a ha
  obtain ⟨r, hr, rfl⟩ := List.mem_map.mp ha
  exact ⟨if_neg (Nat.not_lt_of_le (hfit r hr)), rfl⟩

theorem split_not_last {a b c : FIFOPiece} (h : (p.rule limit hunit hlimit).split a = some (b, c)) :
    ¬ b.last := by
  have hsplit :
      (if limit < p.calcSize a.size then some (p.splitPiece a) else none) = some (b, c) := h
  split at hsplit
  · cases hsplit
    exact Bool.false_ne_true
  · cases hsplit

theorem AllFit.room (hfit : AllFit p limit submitted)
    (h : Flows (p.rule limit hunit hlimit) (submitted.map FIFORequest.whole) v) :
    v.Room (p.rule limit hunit hlimit) :=
  h.room hfit.split split_not_last

/-- What has left the queue and what is in it was requested first. -/
theorem AllFit.requested (hfit : AllFit p limit submitted)
    (h : Flows (p.rule limit hunit hlimit) (submitted.map FIFORequest.whole) v) :
    v.left ++ v.held <+: submitted.map FIFORequest.whole := by
  have hparts := h.parts
  rw [Pipeline.Rule.flatMap_parts fun a ha => (hfit.split a ha).1] at hparts
  exact ⟨_, hparts.symm⟩

end Fit

/-- The contexts of whole requests. -/
theorem lastContexts_whole {l : List FIFOPiece} {submitted : List FIFORequest}
    (h : l <+: submitted.map FIFORequest.whole) :
    lastContexts l <+: submitted.map FIFORequest.context ∧ (lastContexts l).length = l.length := by
  have hlast : ∀ a ∈ l, a.last = true := by
    intro a ha
    obtain ⟨r, -, rfl⟩ := List.mem_map.mp (h.subset ha)
    rfl
  have hcontexts : lastContexts l = l.map FIFOPiece.context := by
    rw [lastContexts, List.filter_eq_self.mpr hlast]
  rw [hcontexts, List.length_map]
  refine ⟨?_, rfl⟩
  have hmap := h.map FIFOPiece.context
  rwa [List.map_map] at hmap

theorem first_length {q : FIFOQueue} (hne : q.transferQueue ≠ []) : q.first.length = 1 := by
  obtain ⟨iter, rest, hcons⟩ := List.exists_cons_of_ne_nil hne
  rw [first, hcons]
  rfl

theorem left_first (q : FIFOQueue) : q.left ++ q.first <+: q.left ++ pieces q.transferQueue :=
  (List.prefix_append_right_inj _).mpr ⟨_, List.take_append_drop 1 _⟩

theorem Writes.transfers {p : FIFOParam} {called : Bool} {q : FIFOQueue} (h : Writes p called q)
    (hfit : AllFit p p.wqSize q.submitted) : q.Transfers q.submitted := by
  have hdone : q.left ++ pieces q.transferQueue <+: q.submitted.map FIFORequest.whole :=
    hfit.requested h.flows
  have hfirst := (left_first q).trans hdone
  have hleft := (List.prefix_append q.left q.first).trans hfirst
  have hfinished := h.finished
  have hissued := h.issued
  have hcompleted := h.completed
  refine ⟨?_, by omega, ?_, ?_⟩
  · rw [hissued]
    split
    · exact hfirst
    · rwa [List.append_nil]
  · rw [hcompleted]
    split
    · exact (lastContexts_whole hfirst).1
    · rw [List.append_nil]
      exact (lastContexts_whole hleft).1
  · have hlength := congrArg List.length hissued
    by_cases hpending : q.transferPending = true
    · have hone := first_length (h.transferQueue_ne_nil hpending)
      rw [if_pos hpending, List.length_append, hone] at hlength
      by_cases hcalled : called = true
      · rw [if_neg (by simp [hcalled])] at hfinished
        rw [hcompleted, if_pos hcalled, (lastContexts_whole hfirst).2, List.length_append, hone]
        omega
      · rw [hcompleted, if_neg hcalled, List.append_nil, (lastContexts_whole hleft).2]
        split at hfinished <;> omega
    · have hcalled : ¬ called = true := fun hc => hpending (h.calling hc)
      rw [if_neg hpending, List.append_nil] at hlength
      rw [if_neg (by simp [hpending])] at hfinished
      rw [hcompleted, if_neg hcalled, List.append_nil, (lastContexts_whole hleft).2]
      omega

end FIFOQueue

namespace FIFO

open FIFOQueue (pieces Writes lastContexts AllFit)

variable {p : FIFOParam} {s : FIFO}

theorem ids_length : s.ids.length = s.readQueue.transferQueue.length := List.length_map _

theorem Reads.transfers (h : Reads p s) (hfit : AllFit p p.rqSize s.readQueue.submitted) :
    s.readQueue.Transfers s.readQueue.submitted := by
  have hdone : s.readQueue.left ++ pieces s.readQueue.transferQueue <+:
      s.readQueue.submitted.map FIFORequest.whole := hfit.requested h.flows
  have hfirst := (FIFOQueue.left_first s.readQueue).trans hdone
  have hleft := (List.prefix_append s.readQueue.left s.readQueue.first).trans hfirst
  have hfinished := h.finished
  have hissued := h.issued
  have hcompleted := h.completed
  refine ⟨?_, by omega, ?_, ?_⟩
  · rwa [hissued]
  · rw [hcompleted]
    split
    · exact (FIFOQueue.lastContexts_whole hfirst).1
    · rw [List.append_nil]
      exact (FIFOQueue.lastContexts_whole hleft).1
  · have hlength := congrArg List.length hissued
    rw [List.length_append, pieces, List.length_map, ← ids_length] at hlength
    by_cases hcalling : s.readCalling = true
    · -- the read that is completed is transferred
      have hne := (h.merged (by simp [merged, hcalling])).2
      have hpos := List.length_pos_of_ne_nil hne
      have hbound : s.transferred.length + (if s.busy then 1 else 0) ≤ s.ids.length := by
        rw [transferred] at hpos ⊢
        split at hpos
        · next hbusy =>
          rw [List.length_dropLast] at hpos
          rw [if_pos hbusy, if_pos hbusy, List.length_dropLast]
          omega
        · next hbusy =>
          rw [if_neg hbusy, if_neg hbusy]
          exact le_rfl
      have hqueue : s.readQueue.transferQueue ≠ [] := by
        rw [← List.length_pos_iff, ← ids_length]
        omega
      have hone := FIFOQueue.first_length hqueue
      rw [hcompleted, if_pos hcalling, (FIFOQueue.lastContexts_whole hfirst).2,
        List.length_append, hone]
      omega
    · have hbusy : (if s.busy then 1 else 0) ≤ s.ids.length := by
        split
        · next hbusy =>
          obtain ⟨a, -, hlast⟩ := h.front hbusy
          exact List.length_pos_of_mem (List.mem_of_getLast? hlast)
        · exact Nat.zero_le _
      rw [hcompleted, if_neg hcalling, List.append_nil, (FIFOQueue.lastContexts_whole hleft).2]
      omega

/-- No handler may run. -/
def Quiet (s : FIFO) : Prop := ∀ c : Call, c.isRequest = false → ¬ s.Valid c

/-- Whatever was requested is completed. -/
def AllCompleted (submitted : List FIFORequest) (q : FIFOQueue) : Prop :=
  q.completed = submitted.map FIFORequest.context

theorem Quiet.stage (h : s.Quiet) : s.stage = .outside := by
  cases hstage : s.stage with
  | outside => rfl
  | transferring => exact absurd hstage (h .transferNext rfl)
  | writeCalling => exact absurd ⟨by simp [hstage], by simp [hstage]⟩ (h (.returned 0) rfl)
  | readCalling inTransfer =>
    exact absurd ⟨by simp [hstage], by simp [hstage]⟩ (h (.returned 0) rfl)

/-- Once nothing is in the FIFO and nothing waits, everything has left it. -/
theorem left_of_served {rule : Pipeline.Rule FIFOPiece} {submitted : List FIFORequest}
    {v : Pipeline FIFOPiece} (h : Pipeline.Flows rule (submitted.map FIFORequest.whole) v)
    (hsplit : ∀ a ∈ submitted.map FIFORequest.whole, rule.split a = none)
    (hserved : v.Served) (hfilling : v.filling = false) (hheld : v.held = []) :
    v.left = submitted.map FIFORequest.whole := by
  have hwait : v.wait = [] := by
    by_contra hne
    rcases hserved hne with hf | hh
    · rw [hfilling] at hf
      cases hf
    · exact hh hheld
  have hparts := h.parts
  rw [Pipeline.Rule.flatMap_parts hsplit, hheld, Pipeline.rest, hfilling, if_neg Bool.false_ne_true,
    hwait, List.flatMap_nil, List.append_nil, List.append_nil] at hparts
  exact hparts.symm

theorem contexts_of_whole {submitted : List FIFORequest} {l : List FIFOPiece}
    (h : l = submitted.map FIFORequest.whole) :
    lastContexts l = submitted.map FIFORequest.context := by
  have hwhole : l <+: submitted.map FIFORequest.whole := by rw [h]
  obtain ⟨hdone, hlength⟩ := FIFOQueue.lastContexts_whole hwhole
  refine hdone.eq_of_length ?_
  rw [hlength, h, List.length_map, List.length_map]

/-- Where no handler may run, every request is completed. -/
theorem Kept.completed (h : Kept p s) (hquiet : s.Quiet)
    (hwrites : AllFit p p.wqSize s.writeQueue.submitted)
    (hreads : AllFit p p.rqSize s.readQueue.submitted) :
    AllCompleted s.writeQueue.submitted s.writeQueue ∧
      AllCompleted s.readQueue.submitted s.readQueue := by
  have hstage := hquiet.stage
  have hoff : ∀ {c : Call} {P : Prop}, c.isRequest = false → (P → s.Valid c) → ¬ P :=
    fun hc hP hp => hquiet _ hc (hP hp)
  constructor
  · have hw := h.writes_idle hstage
    have hdone : s.writeQueue.insertDone = false := by
      simpa using hoff (c := .insertWriteDone 0) rfl fun hd => ⟨hstage, hd⟩
    have hbegin : ¬ s.writeQueue.beginTransfer = true :=
      hoff (c := .transferWrite) rfl fun hb => ⟨hstage, hb⟩
    have hsubmit : s.writeQueue.submitCompletion = false := by
      simpa using hoff (c := .transferWriteDoneNext) rfl fun hs => ⟨hstage, hs⟩
    have hissued : ¬ s.writeQueue.finished < s.writeQueue.issued.length :=
      hoff (c := .transferWriteDone 0) rfl fun hi => ⟨hstage, hi⟩
    -- a transfer would be finished or to be finished
    have hpending : ¬ s.writeQueue.transferPending = true := by
      intro hp
      have hfinished := hw.finished
      rw [if_pos ⟨hp, hsubmit, rfl⟩] at hfinished
      omega
    have hheld : s.writeQueue.writing.held = [] := by
      by_contra hne
      exact (hw.flows.held hne).elim hpending hbegin
    have hleft := left_of_served hw.flows (fun a ha => (hwrites.split a ha).1) h.writeServed
      (hw.insertDone.symm.trans hdone) hheld
    have hcompleted := hw.completed
    rw [if_neg Bool.false_ne_true, List.append_nil] at hcompleted
    exact hcompleted.trans (contexts_of_whole hleft)
  · have hr := h.reads
    obtain ⟨-, hcalling, hbusyEq, hmergedEq⟩ := outside_flags hstage
    have hdone : s.readQueue.insertDone = false := by
      simpa using hoff (c := .insertReadDone 0) rfl fun hd => ⟨hstage, hd⟩
    have hbegin : ¬ s.readQueue.beginTransfer = true :=
      hoff (c := .insertRead 0) rfl fun hb => ⟨hstage, hb⟩
    have hsubmit : s.readQueue.submitCompletion = false := by
      simpa using hoff (c := .insertReadDoneNext) rfl fun hs => ⟨hstage, hs⟩
    have hissued : ¬ s.readQueue.finished < s.readQueue.issued.length :=
      hoff (c := .transferReadDone 0) rfl fun hi => ⟨hstage, hi⟩
    have hbusy : ¬ s.busy = true := by
      intro hb
      have hfinished := hr.finished
      rw [if_pos hb] at hfinished
      omega
    have hfilling : s.readQueue.transferPending = false := by
      rw [← hbusyEq]
      simpa using hbusy
    -- an insertion would be done or to be done
    have hpending : ¬ s.readQueue.insertPending = true := by
      intro hp
      have hinserted : s.inserted = true := by
        rw [inserted, decide_eq_true_eq]
        exact ⟨hp, hdone, hmergedEq.trans hsubmit⟩
      exact hbusy (hr.inserted hinserted).1
    have hheld : s.readQueue.reading.held = [] := by
      by_contra hne
      exact (hr.flows.held hne).elim hpending hbegin
    have hleft := left_of_served hr.flows (fun a ha => (hreads.split a ha).1) h.readServed
      hfilling hheld
    have hcompleted := hr.completed
    rw [hcalling, if_neg Bool.false_ne_true, List.append_nil] at hcompleted
    exact hcompleted.trans (contexts_of_whole hleft)

/-- The request of a call is not empty and fits in its queue. -/
def Call.Fits (p : FIFOParam) : Call → Prop
  | .dmaWrite _ r => r.size ≠ 0 ∧ p.calcSize r.size ≤ p.wqSize
  | .dmaRead r => r.size ≠ 0 ∧ p.calcSize r.size ≤ p.rqSize
  | _ => True

instance (p : FIFOParam) : (c : Call) → Decidable (c.Fits p)
  | .dmaWrite _ r => inferInstanceAs (Decidable (r.size ≠ 0 ∧ p.calcSize r.size ≤ p.wqSize))
  | .dmaRead r => inferInstanceAs (Decidable (r.size ≠ 0 ∧ p.calcSize r.size ≤ p.rqSize))
  | .insertWriteDone _ => .isTrue trivial
  | .transferWrite => .isTrue trivial
  | .transferWriteDone _ => .isTrue trivial
  | .transferWriteDoneNext => .isTrue trivial
  | .transferReadDone _ => .isTrue trivial
  | .insertRead _ => .isTrue trivial
  | .insertReadDone _ => .isTrue trivial
  | .insertReadDoneNext => .isTrue trivial
  | .returned _ => .isTrue trivial
  | .transferNext => .isTrue trivial

theorem allFit_append {limit : Nat} {submitted new : List FIFORequest}
    (h : AllFit p limit submitted) (hnew : AllFit p limit new) :
    AllFit p limit (submitted ++ new) := by
  intro r hr
  rcases List.mem_append.mp hr with hr | hr
  · exact h r hr
  · exact hnew r hr

theorem Call.Fits.writes {c : Call} (h : c.Fits p) : AllFit p p.wqSize c.writes := by
  intro r hr
  cases c with
  | dmaWrite t r' =>
    rw [Call.writes, if_neg h.1, List.mem_singleton] at hr
    exact hr ▸ h.2
  | _ => cases hr

theorem Call.Fits.reads {c : Call} (h : c.Fits p) : AllFit p p.rqSize c.reads := by
  intro r hr
  cases c with
  | dmaRead r' =>
    rw [Call.reads, if_neg h.1, List.mem_singleton] at hr
    exact hr ▸ h.2
  | _ => cases hr

/-- Where every request fits, nothing is inserted without looking at the room. -/
theorem Kept.hasRoom {c : Call} (h : Kept p s) (hvalid : s.Valid c) (hc : c.Fits p)
    (hwrites : AllFit p p.wqSize s.writeQueue.submitted)
    (hreads : AllFit p p.rqSize s.readQueue.submitted) : s.HasRoom p c := by
  cases c with
  | dmaWrite t r =>
    intro hsize
    refine FIFOQueue.writing_room.mp (AllFit.room ?_ (h.writes.push r).flows)
    exact allFit_append hwrites (by simpa [FIFOQueue.AllFit] using hc.2)
  | dmaRead r =>
    intro hsize
    refine FIFOQueue.reading_room.mp (AllFit.room ?_ (h.reads.push r).flows)
    exact allFit_append hreads (by simpa [FIFOQueue.AllFit] using hc.2)
  | insertWriteDone t =>
    exact FIFOQueue.writing_room.mp (hwrites.room (h.writes.popWait hvalid.2).flows)
  | transferNext => exact FIFOQueue.reading_room.mp (hreads.room (h.reads.popRead hvalid).1.flows)
  | returned t =>
    refine ⟨fun hstage => ?_, fun hcalling => ?_⟩
    · obtain ⟨q, -, hq, -, hsubmitted, hsame⟩ := h.writeReturned_eq (t := t) hstage
      refine hsame.mp (FIFOQueue.writing_room.mp (AllFit.room ?_ hq.flows))
      rwa [hsubmitted]
    · obtain ⟨inTransfer, hstage⟩ : ∃ inTransfer, s.stage = .readCalling inTransfer := by
        rcases of_decide_eq_true hcalling with hstage | hstage <;> exact ⟨_, hstage⟩
      obtain ⟨q, -, hq, -, hsubmitted, hsame, -⟩ := h.readReturned_eq (t := t) hstage
      refine hsame.mp (FIFOQueue.reading_room.mp (AllFit.room ?_ hq.flows))
      show AllFit p p.rqSize q.submitted
      rwa [hsubmitted]
  | _ => trivial

/-- What a run keeps whose requests fit: it goes on, and what was requested is known. -/
structure Running (p : FIFOParam) (calls : List Call) (s : FIFO) : Prop where
  kept : Kept p s
  writes : s.writeQueue.submitted = calls.flatMap Call.writes
  reads : s.readQueue.submitted = calls.flatMap Call.reads
  writesFit : AllFit p p.wqSize s.writeQueue.submitted
  readsFit : AllFit p p.rqSize s.readQueue.submitted

theorem Running.exec {done : List Call} {c : Call} (h : Running p done s) (hvalid : s.Valid c)
    (hc : c.Fits p) : ∃ s', exec p s c = .ok s' ∧ Running p (done ++ [c]) s' ∧
      (c.isRequest = false → s'.callsLeft p < s.callsLeft p) := by
  have hroom := h.kept.hasRoom hvalid hc h.writesFit h.readsFit
  obtain ⟨s', hexec, hkept, hwrites, hreads, hleft⟩ := h.kept.exec hvalid hroom
  refine ⟨s', hexec, ⟨hkept, ?_, ?_, ?_, ?_⟩, hleft⟩
  · rw [hwrites, h.writes, List.flatMap_append, List.flatMap_singleton]
  · rw [hreads, h.reads, List.flatMap_append, List.flatMap_singleton]
  · rw [hwrites]
    exact allFit_append h.writesFit hc.writes
  · rw [hreads]
    exact allFit_append h.readsFit hc.reads

/-- A run goes on from there, and its calls that request nothing are used up. -/
theorem Running.run {done calls : List Call} (h : Running p done s)
    (hvalid : Run.Along (FIFO.exec p) Valid s calls) (hfits : ∀ c ∈ calls, c.Fits p) :
    ∃ s', calls.foldlM (FIFO.exec p) s = .ok s' ∧ Running p (done ++ calls) s' ∧
      ((∀ c ∈ calls, c.isRequest = false) → s'.callsLeft p + calls.length ≤ s.callsLeft p) := by
  induction calls generalizing done s with
  | nil => exact ⟨s, rfl, by rwa [List.append_nil], fun _ => le_rfl⟩
  | cons c rest ih =>
    obtain ⟨hc, hrest⟩ := hvalid
    obtain ⟨s₁, hexec, hs₁, hleft⟩ := h.exec hc (hfits c List.mem_cons_self)
    obtain ⟨s', hrun, hs', hleft'⟩ :=
      ih hs₁ (hrest.of_ok hexec) fun c' hc' => hfits c' (List.mem_cons_of_mem c hc')
    refine ⟨s', ?_, ?_, fun hnone => ?_⟩
    · rw [List.foldlM_cons, hexec]
      exact hrun
    · rwa [List.append_assoc] at hs'
    · have hfirst := hleft (hnone c List.mem_cons_self)
      have hthen := hleft' fun c' hc' => hnone c' (List.mem_cons_of_mem c hc')
      rw [List.length_cons]
      omega

/-- Every run whose requests fit: each request is issued as one piece, its whole range, in the order
of submission; the completion functions are called in that order, each after its piece has
finished; without new requests the run ends, and when no handler may run every request is
completed. -/
theorem run_transfers {calls : List Call} (hvalid : Run.Along (exec p) Valid (.new p) calls)
    (hfits : ∀ c ∈ calls, c.Fits p) : ∃ s, calls.foldlM (exec p) (.new p) = .ok s ∧
      s.writeQueue.Transfers (calls.flatMap Call.writes) ∧
      s.readQueue.Transfers (calls.flatMap Call.reads) ∧
      (∀ more, Run.Along (exec p) Valid s more → (∀ c ∈ more, c.isRequest = false) →
        more.length ≤ s.callsLeft p) ∧
      (s.Quiet → AllCompleted (calls.flatMap Call.writes) s.writeQueue ∧
        AllCompleted (calls.flatMap Call.reads) s.readQueue) := by
  have hnew : Running p [] (.new p) :=
    ⟨new_kept, rfl, rfl, (fun _ hr => by cases hr), fun _ hr => by cases hr⟩
  obtain ⟨s, hrun, hs, -⟩ := hnew.run hvalid hfits
  rw [List.nil_append] at hs
  refine ⟨s, hrun, ?_, ?_, fun more hmore hnone => ?_, fun hquiet => ?_⟩
  · rw [← hs.writes]
    exact hs.kept.writes.transfers hs.writesFit
  · rw [← hs.reads]
    exact hs.kept.reads.transfers hs.readsFit
  · have hfit : ∀ c ∈ more, c.Fits p := by
      intro c hc
      have hrequest := hnone c hc
      cases c with
      | dmaWrite t r => cases hrequest
      | dmaRead r => cases hrequest
      | _ => trivial
    obtain ⟨s', -, -, hleft⟩ := hs.run hmore hfit
    exact (Nat.le_add_left _ _).trans (hleft hnone)
  · rw [← hs.writes, ← hs.reads]
    exact hs.kept.completed hquiet hs.writesFit hs.readsFit

/-- Two writes and a read. -/
def mixed : List Call :=
  [.dmaWrite 0 ⟨0, 4096, none, 0⟩, .dmaRead ⟨0, 512, none, 1⟩, .transferWrite, .insertRead 512,
    .insertReadDone 1024, .transferReadDone 2000, .transferNext, .insertReadDoneNext,
    .dmaWrite 2512 ⟨4096, 100, none, 2⟩, .returned 2512, .insertWriteDone 4096,
      .transferWriteDone 7000, .returned 7000,
    .transferWrite, .insertWriteDone 7100, .transferWriteDone 7300, .returned 7300]

theorem run_transfers_mixed : ∃ s, mixed.foldlM (exec controller) (.new controller) = .ok s ∧
    s.writeQueue.Transfers (mixed.flatMap Call.writes) ∧
    s.readQueue.Transfers (mixed.flatMap Call.reads) ∧
    (∀ more, Run.Along (exec controller) Valid s more → (∀ c ∈ more, c.isRequest = false) →
      more.length ≤ s.callsLeft controller) ∧
    (s.Quiet → AllCompleted (mixed.flatMap Call.writes) s.writeQueue ∧
      AllCompleted (mixed.flatMap Call.reads) s.readQueue) :=
  run_transfers (by decide) (by decide)

/-- A write of two units fits and is one piece, larger than a unit. -/
theorem not_units_mixed : Run.Along (exec controller) Valid (.new controller) mixed ∧
    (∀ c ∈ mixed, c.Fits controller) ∧
    ∃ s, mixed.foldlM (exec controller) (.new controller) = .ok s ∧
      ∃ piece ∈ s.writeQueue.issued, controller.transferUnit < piece.size :=
  ⟨by decide, by decide, _, rfl, ⟨true, 0, 4096, none, 0⟩, by decide, by decide⟩

end FIFO

end SimpleSSD
