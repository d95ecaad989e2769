import Mathlib.Logic.Function.Basic
import SimpleSSD.HIL.NVMe.Queue
import SimpleSSD.HIL.NVMe.Ring
import SimpleSSD.Lib.HashMap
import SimpleSSD.Lib.Run

/-!
# Creation and deletion of queues (hil/nvme/controller.cc:482–625, 1657–1662 and
hil/nvme/subsystem.cc:495–694)

The controller keeps its queues in two arrays, whose sizes are configured. The identifiers
of a command index them as they come from the host. Before a completion queue is deleted,
the submission queues are searched for its users, up to `cqsize`: the size of the other array.

An access behind the end of an array is a fault of the model.
-/

namespace SimpleSSD.HIL.NVMe

/-- The sizes of the two arrays and the largest queue (controller.cc:60–64). -/
structure QueueConfig where
  cqsize : Nat
  sqsize : Nat
  maxQueueEntry : Nat
  cqsize_pos : 0 < cqsize
  cqsize_lt : cqsize < 2 ^ 16
  sqsize_pos : 0 < sqsize

/-- `AggregationInfo`. -/
structure AggregationInfo where
  nextTime : Nat
  requestCount : Nat
  valid : Bool
  pending : Bool
  deriving DecidableEq, Repr

/-- The queues of `Controller`. -/
structure QueueTable where
  ppCQueue : Nat → Option CQueue
  ppSQueue : Nat → Option SQueue
  aggregationMap : UnorderedMap Nat AggregationInfo

namespace QueueTable

/-- What the source leaves open in a new entry of `aggregationMap`: its place in the map, and
the flag that is not set. -/
structure Open where
  pos : Nat
  pending : Bool

/-- An element of an array. -/
def access {α : Type} (array : String) (size : Nat) (queues : Nat → Option α) (i : Nat) :
    Except Fault (Option α) :=
  if i < size then .ok (queues i) else .error (.badAccess array)

/-! ### The controller -/

/-- `createCQueue` (controller.cc:482–518). -/
def createCQueue (cfg : QueueConfig) (cqid size iv : Nat) (ien : Bool) (w : Open)
    (t : QueueTable) : Except Fault (Nat × QueueTable) := do
  let slot ← access "ppCQueue" cfg.cqsize t.ppCQueue cqid
  if slot = none then
    .ok (0, { t with
      ppCQueue := Function.update t.ppCQueue cqid (some ⟨⟨cqid, 0, 0, size⟩, ien, true, iv⟩)
      aggregationMap := t.aggregationMap.set w.pos iv ⟨0, 0, false, w.pending⟩ })
  else .ok (1, t)

/-- `createSQueue` (controller.cc:520–546). -/
def createSQueue (cfg : QueueConfig) (sqid cqid size : Nat) (priority : Priority)
    (t : QueueTable) : Except Fault (Nat × QueueTable) := do
  let slot ← access "ppSQueue" cfg.sqsize t.ppSQueue sqid
  if slot = none then
    let target ← access "ppCQueue" cfg.cqsize t.ppCQueue cqid
    if target = none then .ok (2, t)
    else
      .ok (0, { t with
        ppSQueue := Function.update t.ppSQueue sqid (some ⟨⟨sqid, 0, 0, size⟩, cqid, priority⟩) })
  else .ok (1, t)

/-- The loop that looks for a submission queue of `cqid` (controller.cc:552–559). -/
def inUse (cfg : QueueConfig) (t : QueueTable) (cqid : Nat) : List Nat → Except Fault Bool
  | [] => .ok false
  | i :: rest => do
    let slot ← access "ppSQueue" cfg.sqsize t.ppSQueue i
    if slot.any (·.cqID = cqid) then .ok true else inUse cfg t cqid rest

/-- `deleteCQueue` (controller.cc:548–591). -/
def deleteCQueue (cfg : QueueConfig) (cqid : Nat) (t : QueueTable) :
    Except Fault (Nat × QueueTable) := do
  let slot ← access "ppCQueue" cfg.cqsize t.ppCQueue cqid
  match slot with
  | none => .ok (1, t)
  | some pQueue =>
    if cqid = 0 then .ok (1, t)
    else
      let used ← inUse cfg t cqid (List.range' 1 (cfg.cqsize - 1))
      if used then .ok (2, t)
      else
        let iv := pQueue.interruptVector
        let t := { t with ppCQueue := Function.update t.ppCQueue cqid none }
        let sameIV := (List.range' 1 (cfg.cqsize - 1)).any fun i =>
          (t.ppCQueue i).any (·.interruptVector = iv)
        if sameIV then .ok (0, t)
        else if iv ∈ t.aggregationMap then
          .ok (0, { t with aggregationMap := t.aggregationMap.erase iv })
        else .error (.badAccess "aggregationMap.end()")

/-- `deleteSQueue` (controller.cc:593–625), for a queue none of whose commands waits in
`lSQFIFO`. -/
def deleteSQueue (cfg : QueueConfig) (sqid : Nat) (t : QueueTable) :
    Except Fault (Nat × QueueTable) := do
  let slot ← access "ppSQueue" cfg.sqsize t.ppSQueue sqid
  if slot ≠ none ∧ 0 < sqid then
    .ok (0, { t with ppSQueue := Function.update t.ppSQueue sqid none })
  else .ok (1, t)

/-- The queue that `submit` takes for an entry (controller.cc:1658–1662). -/
def submitQueue (cfg : QueueConfig) (t : QueueTable) (cqID : Nat) : Except Fault CQueue := do
  let slot ← access "ppCQueue" cfg.cqsize t.ppCQueue cqID
  match slot with
  | none => .error (.panic "Controller::submit" "Completion Queue not created!")
  | some pQueue => .ok pQueue

/-! ### The commands -/

/-- How a command is answered: at once, from the callback of the queue's memory, or not. -/
inductive Reply where
  | sent (resp : CQEntryWrapper)
  | awaited (resp : CQEntryWrapper)
  | never
  deriving DecidableEq, Repr

/-- The commands on queues. -/
inductive Command where
  | deleteSQueue (req : SQEntryWrapper)
  | createSQueue (req : SQEntryWrapper)
  | deleteCQueue (req : SQEntryWrapper)
  | createCQueue (req : SQEntryWrapper) (w : Open)

/-- The low half of `dword10`. -/
def qid (req : SQEntryWrapper) : Nat := (req.dword10.setWidth 16).toNat

/-- The number of entries, in 16 bits. -/
def entrySize (req : SQEntryWrapper) : Nat := ((req.dword10 >>> 16).setWidth 16 + 1#16).toNat

/-- The high half of `dword11`: a completion queue or an interrupt vector. -/
def highHalf (req : SQEntryWrapper) : Nat := ((req.dword11 >>> 16).setWidth 16).toNat

/-- The priority of a new submission queue. -/
def priority (req : SQEntryWrapper) : Priority :=
  match ((req.dword11 &&& 0x06) >>> 1).toNat with
  | 0 => .urgent
  | 1 => .high
  | 2 => .medium
  | _ => .low

/-- `Subsystem::deleteSQueue`, `createSQueue`, `deleteCQueue` and `createCQueue`. The status
of a creation that fails is set in a copy that is not sent. -/
def answer (cfg : QueueConfig) (t : QueueTable) : Command → Except Fault (Reply × QueueTable)
  | .deleteSQueue req => do
    let resp := CQEntryWrapper.new req
    let (ret, t) ← t.deleteSQueue cfg (qid req)
    let resp := if ret = 1 then
      resp.makeStatus false false .commandSpecificStatus .invalidQueueId else resp
    .ok (.sent resp, t)
  | .createSQueue req =>
    let resp := CQEntryWrapper.new req
    if cfg.maxQueueEntry < entrySize req then
      .ok (.sent (resp.makeStatus false false .commandSpecificStatus .invalidQueueSize), t)
    else do
      let (ret, t) ← t.createSQueue cfg (qid req) (highHalf req) (entrySize req) (priority req)
      .ok (if ret = 0 then .awaited resp else .never, t)
  | .deleteCQueue req => do
    let resp := CQEntryWrapper.new req
    let (ret, t) ← t.deleteCQueue cfg (qid req)
    let resp := if ret = 1 then
        resp.makeStatus false false .commandSpecificStatus .invalidQueueId
      else if ret = 2 then
        resp.makeStatus false false .commandSpecificStatus .invalidQueueDelete
      else resp
    .ok (.sent resp, t)
  | .createCQueue req w =>
    let resp := CQEntryWrapper.new req
    if cfg.maxQueueEntry < entrySize req then
      .ok (.sent (resp.makeStatus false false .commandSpecificStatus .invalidQueueSize), t)
    else do
      let (ret, t) ← t.createCQueue cfg (qid req) (entrySize req) (highHalf req)
        (req.dword11 &&& 0x02 ≠ 0) w
      .ok (if ret = 0 then .awaited resp else .never, t)

def exec (cfg : QueueConfig) (t : QueueTable) (c : Command) : Except Fault QueueTable :=
  (answer cfg t c).map Prod.snd

/-- The admin queues (controller.cc:408–421). -/
def admin (cqEntries sqEntries : Nat) : QueueTable where
  ppCQueue i := if i = 0 then some ⟨⟨0, 0, 0, cqEntries⟩, true, true, 0⟩ else none
  ppSQueue i := if i = 0 then some ⟨⟨0, 0, 0, sqEntries⟩, 0, .urgent⟩ else none
  aggregationMap := .empty

/-! ### What the table should keep -/

/-- The completion queue of every submission queue is found by `submit`. -/
def Answerable (cfg : QueueConfig) (t : QueueTable) : Prop :=
  ∀ i q, t.ppSQueue i = some q → ∃ pQueue, submitQueue cfg t q.cqID = .ok pQueue

/-- A command accesses elements of the arrays only, and leaves every submission queue with
its completion queue. -/
def Sound (cfg : QueueConfig) (t : QueueTable) (c : Command) : Prop :=
  ∃ t', exec cfg t c = .ok t' ∧ Answerable cfg t'

/-- Submission queue `i` is live and its commands are completed in `cqid`. -/
def Uses (t : QueueTable) (cqid i : Nat) : Prop := ∃ q, t.ppSQueue i = some q ∧ q.cqID = cqid

/-- The identifiers are those of elements. A completion queue to be deleted is used by a
submission queue that the search can reach, or the search ends in its array and leaves out
no user. -/
def Clear (cfg : QueueConfig) (t : QueueTable) : Command → Prop
  | .deleteSQueue req => qid req < cfg.sqsize
  | .createSQueue req => entrySize req ≤ cfg.maxQueueEntry → qid req < cfg.sqsize ∧
      (t.ppSQueue (qid req) = none → highHalf req < cfg.cqsize)
  | .deleteCQueue req => qid req < cfg.cqsize ∧
      ((t.ppCQueue (qid req)).isSome = true → 0 < qid req →
        (∃ i, 0 < i ∧ i < cfg.cqsize ∧ t.Uses (qid req) i) ∨
          cfg.cqsize ≤ cfg.sqsize ∧ ∀ i, cfg.cqsize ≤ i → ¬ t.Uses (qid req) i)
  | .createCQueue req _ => entrySize req ≤ cfg.maxQueueEntry → qid req < cfg.cqsize

/-- What every command that meets the condition keeps. -/
structure Linked (cfg : QueueConfig) (t : QueueTable) : Prop where
  completion : ∀ i q, t.ppSQueue i = some q → (t.ppCQueue q.cqID).isSome = true
  squeues : ∀ i, cfg.sqsize ≤ i → t.ppSQueue i = none
  cqueues : ∀ i, cfg.cqsize ≤ i → t.ppCQueue i = none
  admin : ∃ q, t.ppSQueue 0 = some q ∧ q.cqID = 0
  vectors : ∀ i q, 0 < i → t.ppCQueue i = some q → q.interruptVector ∈ t.aggregationMap

/-! ### The steps -/

section Steps

variable {cfg : QueueConfig} {t t' : QueueTable} {cqid sqid : Nat}

theorem Linked.answerable (h : Linked cfg t) : Answerable cfg t := by
  intro i q hq
  obtain ⟨pQueue, hlive⟩ := Option.isSome_iff_exists.mp (h.completion i q hq)
  have hlt : q.cqID < cfg.cqsize := by
    by_contra hge
    rw [h.cqueues q.cqID (Nat.le_of_not_lt hge)] at hlive
    cases hlive
  refine ⟨pQueue, ?_⟩
  unfold submitQueue access
  rw [if_pos hlt, hlive]
  rfl

/-- A live queue without a live completion queue is not answerable. -/
theorem Answerable.completion (h : Answerable cfg t) {i : Nat} {q : SQueue}
    (hq : t.ppSQueue i = some q) : (t.ppCQueue q.cqID).isSome = true := by
  obtain ⟨pQueue, hsubmit⟩ := h i q hq
  unfold submitQueue access at hsubmit
  split at hsubmit
  · cases hlive : t.ppCQueue q.cqID with
    | none =>
      rw [hlive] at hsubmit
      cases hsubmit
    | some _ => rfl
  · cases hsubmit

/-- The search stops at the first user. -/
theorem inUse_of_uses (h : Linked cfg t) {a n : Nat}
    (huses : ∃ i, a ≤ i ∧ i < a + n ∧ t.Uses cqid i) :
    inUse cfg t cqid (List.range' a n) = .ok true := by
  induction n generalizing a with
  | zero =>
    obtain ⟨i, hle, hlt, -⟩ := huses
    omega
  | succ n ih =>
    obtain ⟨i, hle, hlt, q, hq, hcqid⟩ := huses
    have hi : i < cfg.sqsize := by
      by_contra hge
      rw [h.squeues i (Nat.le_of_not_lt hge)] at hq
      cases hq
    rw [List.range'_succ, inUse, access, if_pos (by omega)]
    show (if (t.ppSQueue a).any (·.cqID = cqid) then _ else _) = _
    split
    · rfl
    · next hother =>
      have hne : a ≠ i := by
        rintro rfl
        rw [hq] at hother
        exact hother (decide_eq_true hcqid)
      exact ih ⟨i, by omega, by omega, q, hq, hcqid⟩

/-- Without a user it goes on to the end, which is to be in the array. -/
theorem inUse_of_not_uses {a n : Nat} (huses : ∀ i, a ≤ i → i < a + n → ¬ t.Uses cqid i) :
    inUse cfg t cqid (List.range' a n) =
      if a + n ≤ cfg.sqsize ∨ n = 0 then .ok false else .error (.badAccess "ppSQueue") := by
  induction n generalizing a with
  | zero => rw [if_pos (.inr rfl)]; rfl
  | succ n ih =>
    rw [List.range'_succ, inUse, access]
    rcases Nat.lt_or_ge a cfg.sqsize with hlt | hge
    · rw [if_pos hlt]
      have hother : (t.ppSQueue a).any (·.cqID = cqid) = false := by
        cases hq : t.ppSQueue a with
        | none => rfl
        | some q =>
          refine decide_eq_false fun hcqid => ?_
          exact huses a (Nat.le_refl a) (by omega) ⟨q, hq, hcqid⟩
      show (if (t.ppSQueue a).any (·.cqID = cqid) then _ else _) = _
      rw [hother, if_neg Bool.false_ne_true, ih fun i hle hlt => huses i (by omega) (by omega)]
      by_cases hend : a + (n + 1) ≤ cfg.sqsize
      · rw [if_pos (.inl (by omega)), if_pos (.inl hend)]
      · by_cases hn : n = 0
        · omega
        · rw [if_neg (by omega), if_neg (by omega)]
    · rw [if_neg (by omega), if_neg (by omega)]
      rfl

/-- A new completion queue breaks no link. -/
theorem Linked.createCQueue (h : Linked cfg t) {size iv : Nat} {ien : Bool} {w : Open}
    (hcqid : cqid < cfg.cqsize) :
    ∃ r, t.createCQueue cfg cqid size iv ien w = .ok r ∧ Linked cfg r.2 := by
  unfold QueueTable.createCQueue access
  rw [if_pos hcqid]
  show ∃ r, (if t.ppCQueue cqid = none then _ else _) = Except.ok r ∧ _
  split
  · next hfree =>
    refine ⟨_, rfl, fun i q hq => ?_, h.squeues, fun i hi => ?_, h.admin, fun i q hi hq => ?_⟩
    · show (Function.update t.ppCQueue cqid _ q.cqID).isSome = true
      rw [Function.update_apply]
      split
      · rfl
      · exact h.completion i q hq
    · show Function.update t.ppCQueue cqid _ i = none
      rw [Function.update_of_ne (by omega)]
      exact h.cqueues i hi
    · show q.interruptVector ∈ t.aggregationMap.set w.pos iv _
      rw [UnorderedMap.mem_set]
      have hq : Function.update t.ppCQueue cqid _ i = some q := hq
      rw [Function.update_apply] at hq
      split at hq
      · obtain rfl := Option.some.inj hq
        exact .inl rfl
      · exact .inr (h.vectors i q hi hq)
  · exact ⟨_, rfl, h⟩

/-- A new submission queue has a live completion queue. -/
theorem Linked.createSQueue (h : Linked cfg t) {size : Nat} {priority : Priority}
    (hsqid : sqid < cfg.sqsize) (hcqid : t.ppSQueue sqid = none → cqid < cfg.cqsize) :
    ∃ r, t.createSQueue cfg sqid cqid size priority = .ok r ∧ Linked cfg r.2 := by
  unfold QueueTable.createSQueue access
  rw [if_pos hsqid]
  show ∃ r, (if t.ppSQueue sqid = none then _ else _) = Except.ok r ∧ _
  split
  · next hfree =>
    rw [if_pos (hcqid hfree)]
    show ∃ r, (if t.ppCQueue cqid = none then _ else _) = Except.ok r ∧ _
    split
    · exact ⟨_, rfl, h⟩
    · next hlive =>
      refine ⟨_, rfl, fun i q hq => ?_, fun i hi => ?_, h.cqueues, ?_, h.vectors⟩
      · have hq : Function.update t.ppSQueue sqid _ i = some q := hq
        rw [Function.update_apply] at hq
        split at hq
        · obtain rfl := Option.some.inj hq
          exact Option.isSome_iff_ne_none.mpr hlive
        · exact h.completion i q hq
      · show Function.update t.ppSQueue sqid _ i = none
        rw [Function.update_of_ne (by omega)]
        exact h.squeues i hi
      · obtain ⟨q, hq, hzero⟩ := h.admin
        refine ⟨q, ?_, hzero⟩
        show Function.update t.ppSQueue sqid _ 0 = some q
        rw [Function.update_of_ne ?_, hq]
        rintro rfl
        rw [hfree] at hq
        cases hq
  · exact ⟨_, rfl, h⟩

/-- A submission queue can go at any time. -/
theorem Linked.deleteSQueue (h : Linked cfg t) (hsqid : sqid < cfg.sqsize) :
    ∃ r, t.deleteSQueue cfg sqid = .ok r ∧ Linked cfg r.2 := by
  unfold QueueTable.deleteSQueue access
  rw [if_pos hsqid]
  show ∃ r, (if t.ppSQueue sqid ≠ none ∧ 0 < sqid then _ else _) = Except.ok r ∧ _
  have hkeep : ∀ i q, Function.update t.ppSQueue sqid none i = some q → t.ppSQueue i = some q := by
    intro i q hq
    rw [Function.update_apply] at hq
    split at hq
    · cases hq
    · exact hq
  split
  · next hlive =>
    refine ⟨_, rfl, fun i q hq => h.completion i q (hkeep i q hq), fun i hi => ?_, h.cqueues, ?_,
      h.vectors⟩
    · cases hq : Function.update t.ppSQueue sqid none i with
      | none => exact hq
      | some q => exact absurd (hkeep i q hq) (by rw [h.squeues i hi]; exact fun h => by cases h)
    · obtain ⟨q, hq, hzero⟩ := h.admin
      refine ⟨q, ?_, hzero⟩
      show Function.update t.ppSQueue sqid none 0 = some q
      rw [Function.update_of_ne (by omega), hq]
  · exact ⟨_, rfl, h⟩

/-- A completion queue that no submission queue uses. -/
theorem Linked.delete (h : Linked cfg t) {pQueue : CQueue} (hlive : t.ppCQueue cqid = some pQueue)
    (hcqid : 0 < cqid) (huses : ∀ i, ¬ t.Uses cqid i) :
    ∃ r, (if (List.range' 1 (cfg.cqsize - 1)).any fun i =>
          (Function.update t.ppCQueue cqid none i).any
            (·.interruptVector = pQueue.interruptVector) then
        .ok (0, { t with ppCQueue := Function.update t.ppCQueue cqid none })
      else if pQueue.interruptVector ∈ t.aggregationMap then
        .ok (0, { t with
          ppCQueue := Function.update t.ppCQueue cqid none
          aggregationMap := t.aggregationMap.erase pQueue.interruptVector })
      else .error (.badAccess "aggregationMap.end()")) = (.ok r : Except Fault (Nat × QueueTable)) ∧
      Linked cfg r.2 := by
  have hkeep : ∀ i q, Function.update t.ppCQueue cqid none i = some q →
      i ≠ cqid ∧ t.ppCQueue i = some q := by
    intro i q hq
    rw [Function.update_apply] at hq
    split at hq
    · cases hq
    · next hne => exact ⟨hne, hq⟩
  have hcompletion : ∀ i q, t.ppSQueue i = some q →
      (Function.update t.ppCQueue cqid none q.cqID).isSome = true := by
    intro i q hq
    rw [Function.update_of_ne fun heq => huses i ⟨q, hq, heq⟩]
    exact h.completion i q hq
  have hcqueues : ∀ i, cfg.cqsize ≤ i → Function.update t.ppCQueue cqid none i = none := by
    intro i hi
    rw [Function.update_apply]
    split
    · rfl
    · exact h.cqueues i hi
  split
  · exact ⟨_, rfl, hcompletion, h.squeues, hcqueues, h.admin, fun i q hi hq =>
      h.vectors i q hi (hkeep i q hq).2⟩
  · next hsame =>
    rw [if_pos (h.vectors cqid pQueue hcqid hlive)]
    refine ⟨_, rfl, hcompletion, h.squeues, hcqueues, h.admin, fun i q hi hq => ?_⟩
    have hq : Function.update t.ppCQueue cqid none i = some q := hq
    show q.interruptVector ∈ t.aggregationMap.erase pQueue.interruptVector
    rw [UnorderedMap.mem_erase]
    refine ⟨fun heq => hsame ?_, h.vectors i q hi (hkeep i q hq).2⟩
    have hlt : i < cfg.cqsize := by
      by_contra hge
      rw [hcqueues i (Nat.le_of_not_lt hge)] at hq
      cases hq
    refine List.any_eq_true.mpr ⟨i, List.mem_range'_1.mpr (by omega), ?_⟩
    rw [hq]
    exact decide_eq_true heq

/-- A completion queue goes when the search finds every user. -/
theorem Linked.deleteCQueue (h : Linked cfg t) (hcqid : cqid < cfg.cqsize)
    (hclear : (t.ppCQueue cqid).isSome = true → 0 < cqid →
      (∃ i, 0 < i ∧ i < cfg.cqsize ∧ t.Uses cqid i) ∨
        cfg.cqsize ≤ cfg.sqsize ∧ ∀ i, cfg.cqsize ≤ i → ¬ t.Uses cqid i) :
    ∃ r, t.deleteCQueue cfg cqid = .ok r ∧ Linked cfg r.2 := by
  have hpos := cfg.cqsize_pos
  unfold QueueTable.deleteCQueue
  rw [access, if_pos hcqid]
  cases hlive : t.ppCQueue cqid with
  | none => exact ⟨_, rfl, h⟩
  | some pQueue =>
    show ∃ r, (if cqid = 0 then _ else _) = Except.ok r ∧ _
    split
    · exact ⟨_, rfl, h⟩
    · next hne =>
      by_cases huses : ∃ i, 1 ≤ i ∧ i < 1 + (cfg.cqsize - 1) ∧ t.Uses cqid i
      · rw [inUse_of_uses h huses]
        exact ⟨_, rfl, h⟩
      · rw [hlive] at hclear
        have hnone : ∀ i, 1 ≤ i → i < 1 + (cfg.cqsize - 1) → ¬ t.Uses cqid i :=
          fun i hi hlt hu => huses ⟨i, hi, hlt, hu⟩
        rcases hclear rfl (Nat.pos_of_ne_zero hne) with ⟨i, hi, hlt, hu⟩ | ⟨hsizes, hbehind⟩
        · exact absurd hu (hnone i hi (by omega))
        · rw [inUse_of_not_uses hnone, if_pos (.inl (by omega))]
          refine h.delete hlive (Nat.pos_of_ne_zero hne) fun i hu => ?_
          rcases Nat.eq_zero_or_pos i with rfl | hi
          · obtain ⟨q, hq, hzero⟩ := h.admin
            obtain ⟨q', hq', hcq⟩ := hu
            rw [Option.some.inj (hq'.symm.trans hq)] at hcq
            exact hne (hcq.symm.trans hzero)
          · rcases Nat.lt_or_ge i cfg.cqsize with hlt | hge
            · exact hnone i hi (by omega) hu
            · exact hbehind i hge hu

/-- A command that meets the condition keeps the links. -/
theorem exec_linked {c : Command} (h : Linked cfg t) (hclear : Clear cfg t c) :
    ∃ t', exec cfg t c = .ok t' ∧ Linked cfg t' := by
  cases c with
  | deleteSQueue req =>
    obtain ⟨⟨ret, t'⟩, hr, hlinked⟩ := h.deleteSQueue hclear
    refine ⟨t', ?_, hlinked⟩
    rw [exec, answer, hr]
    rfl
  | createSQueue req =>
    rw [exec, answer]
    dsimp only
    split
    · exact ⟨t, rfl, h⟩
    · next hsize =>
      obtain ⟨hsqid, hcqid⟩ := hclear (Nat.le_of_not_lt hsize)
      obtain ⟨⟨ret, t'⟩, hr, hlinked⟩ := h.createSQueue hsqid hcqid
      rw [hr]
      exact ⟨t', rfl, hlinked⟩
  | deleteCQueue req =>
    obtain ⟨⟨ret, t'⟩, hr, hlinked⟩ := h.deleteCQueue hclear.1 hclear.2
    refine ⟨t', ?_, hlinked⟩
    rw [exec, answer, hr]
    rfl
  | createCQueue req w =>
    rw [exec, answer]
    dsimp only
    split
    · exact ⟨t, rfl, h⟩
    · next hsize =>
      obtain ⟨⟨ret, t'⟩, hr, hlinked⟩ := h.createCQueue (hclear (Nat.le_of_not_lt hsize))
      rw [hr]
      exact ⟨t', rfl, hlinked⟩

theorem lt_of_access {α : Type} {array : String} {size i : Nat} {queues : Nat → Option α}
    {slot : Option α} (h : access array size queues i = .ok slot) : i < size ∧ slot = queues i := by
  unfold access at h
  split at h
  · next hlt => exact ⟨hlt, (Except.ok.inj h).symm⟩
  · cases h

/-- A completion queue that is gone has no user left when all are answerable. -/
theorem clear_of_deleteCQueue {r : Nat × QueueTable} (h : t.deleteCQueue cfg cqid = .ok r)
    (hsound : Answerable cfg r.2) : cqid < cfg.cqsize ∧
      ((t.ppCQueue cqid).isSome = true → 0 < cqid →
        (∃ i, 0 < i ∧ i < cfg.cqsize ∧ t.Uses cqid i) ∨
          cfg.cqsize ≤ cfg.sqsize ∧ ∀ i, cfg.cqsize ≤ i → ¬ t.Uses cqid i) := by
  rw [QueueTable.deleteCQueue, Except.bind_eq_ok] at h
  obtain ⟨slot, haccess, h⟩ := h
  obtain ⟨hcqid, rfl⟩ := lt_of_access haccess
  refine ⟨hcqid, fun hlive hpos => ?_⟩
  obtain ⟨pQueue, hqueue⟩ := Option.isSome_iff_exists.mp hlive
  by_cases huses : ∃ i, 0 < i ∧ i < cfg.cqsize ∧ t.Uses cqid i
  · exact .inl huses
  · rw [hqueue] at h
    dsimp only at h
    rw [if_neg (Nat.ne_of_gt hpos), inUse_of_not_uses fun i hi hlt hu =>
      huses ⟨i, hi, by omega, hu⟩] at h
    by_cases hend : 1 + (cfg.cqsize - 1) ≤ cfg.sqsize ∨ cfg.cqsize - 1 = 0
    · refine .inr ⟨by omega, fun i hi hu => ?_⟩
      obtain ⟨q, hq, hcq⟩ := hu
      rw [if_pos hend] at h
      -- in both cases the queue is gone and the submission queues are as before
      have hgone : r.2.ppSQueue = t.ppSQueue ∧
          r.2.ppCQueue = Function.update t.ppCQueue cqid none := by
        simp only [Bind.bind, Except.bind, Bool.false_eq_true, if_false] at h
        split at h
        · cases h
          exact ⟨rfl, rfl⟩
        · split at h
          · cases h
            exact ⟨rfl, rfl⟩
          · cases h
      have hstill := hsound.completion (hgone.1 ▸ hq)
      rw [hgone.2, hcq, Function.update_self] at hstill
      cases hstill
    · rw [if_neg hend] at h
      cases h

/-- A command that does what it should meets the condition. -/
theorem clear_of_sound {c : Command} (hsound : Sound cfg t c) : Clear cfg t c := by
  obtain ⟨t', hexec, hanswer⟩ := hsound
  rw [exec, Except.map_eq_ok] at hexec
  obtain ⟨⟨reply, t'⟩, hexec, rfl⟩ := hexec
  cases c with
  | deleteSQueue req =>
    rw [answer, Except.bind_eq_ok] at hexec
    obtain ⟨r, hr, -⟩ := hexec
    rw [QueueTable.deleteSQueue, Except.bind_eq_ok] at hr
    obtain ⟨slot, haccess, -⟩ := hr
    exact (lt_of_access haccess).1
  | createSQueue req =>
    intro hsize
    rw [answer] at hexec
    dsimp only at hexec
    rw [if_neg (Nat.not_lt_of_ge hsize), Except.bind_eq_ok] at hexec
    obtain ⟨r, hr, -⟩ := hexec
    rw [QueueTable.createSQueue, Except.bind_eq_ok] at hr
    obtain ⟨slot, haccess, hr⟩ := hr
    obtain ⟨hsqid, rfl⟩ := lt_of_access haccess
    refine ⟨hsqid, fun hfree => ?_⟩
    rw [if_pos hfree, Except.bind_eq_ok] at hr
    obtain ⟨target, haccess', -⟩ := hr
    exact (lt_of_access haccess').1
  | deleteCQueue req =>
    rw [answer, Except.bind_eq_ok] at hexec
    obtain ⟨r, hr, hexec⟩ := hexec
    obtain rfl : r.2 = t' := congrArg Prod.snd (Except.ok.inj hexec)
    exact clear_of_deleteCQueue hr hanswer
  | createCQueue req w =>
    intro hsize
    rw [answer] at hexec
    dsimp only at hexec
    rw [if_neg (Nat.not_lt_of_ge hsize), Except.bind_eq_ok] at hexec
    obtain ⟨r, hr, -⟩ := hexec
    rw [QueueTable.createCQueue, Except.bind_eq_ok] at hr
    obtain ⟨slot, haccess, -⟩ := hr
    exact (lt_of_access haccess).1

/-- A deletion takes the queue, and with it at most the entry of its vector. -/
theorem deleteCQueue_cases {r : Nat × QueueTable} (h : t.deleteCQueue cfg cqid = .ok r) :
    r.2 = t ∨ 0 < cqid ∧ ∃ aggregationMap,
      (aggregationMap = t.aggregationMap ∨ ∃ iv, aggregationMap = t.aggregationMap.erase iv) ∧
      r.2 = { t with ppCQueue := Function.update t.ppCQueue cqid none
                     aggregationMap := aggregationMap } := by
  rw [QueueTable.deleteCQueue, Except.bind_eq_ok] at h
  obtain ⟨slot, -, h⟩ := h
  cases slot with
  | none =>
    cases h
    exact .inl rfl
  | some pQueue =>
    dsimp only at h
    split at h
    · cases h
      exact .inl rfl
    · next hne =>
      have hpos : 0 < cqid := Nat.pos_of_ne_zero hne
      rw [Except.bind_eq_ok] at h
      obtain ⟨used, -, h⟩ := h
      split at h
      · cases h
        exact .inl rfl
      · split at h
        · cases h
          exact .inr ⟨hpos, t.aggregationMap, .inl rfl, rfl⟩
        · split at h
          · cases h
            exact .inr ⟨hpos, _, .inr ⟨_, rfl⟩, rfl⟩
          · cases h

/-- No command enables an entry of `aggregationMap`: what is enabled was there. -/
theorem exec_valid {c : Command} (hexec : exec cfg t c = .ok t') {iter : Nat × AggregationInfo}
    (hiter : iter ∈ t'.aggregationMap.entries) (hvalid : iter.2.valid = true) :
    iter ∈ t.aggregationMap.entries := by
  rw [exec, Except.map_eq_ok] at hexec
  obtain ⟨⟨reply, t'⟩, hexec, rfl⟩ := hexec
  dsimp only at hiter
  cases c with
  | deleteSQueue req =>
    rw [answer, Except.bind_eq_ok] at hexec
    obtain ⟨r, hr, hexec⟩ := hexec
    obtain rfl : r.2 = t' := congrArg Prod.snd (Except.ok.inj hexec)
    rw [QueueTable.deleteSQueue, Except.bind_eq_ok] at hr
    obtain ⟨slot, -, hr⟩ := hr
    split at hr <;> cases hr <;> exact hiter
  | createSQueue req =>
    rw [answer] at hexec
    dsimp only at hexec
    split at hexec
    · cases hexec
      exact hiter
    · rw [Except.bind_eq_ok] at hexec
      obtain ⟨r, hr, hexec⟩ := hexec
      obtain rfl : r.2 = t' := congrArg Prod.snd (Except.ok.inj hexec)
      rw [QueueTable.createSQueue, Except.bind_eq_ok] at hr
      obtain ⟨slot, -, hr⟩ := hr
      split at hr
      · rw [Except.bind_eq_ok] at hr
        obtain ⟨target, -, hr⟩ := hr
        split at hr <;> cases hr <;> exact hiter
      · cases hr
        exact hiter
  | deleteCQueue req =>
    rw [answer, Except.bind_eq_ok] at hexec
    obtain ⟨r, hr, hexec⟩ := hexec
    obtain rfl : r.2 = t' := congrArg Prod.snd (Except.ok.inj hexec)
    rcases deleteCQueue_cases hr with heq | ⟨-, aggregationMap, hmap, heq⟩
    · rwa [heq] at hiter
    · rw [heq] at hiter
      rcases hmap with rfl | ⟨iv, rfl⟩
      · exact hiter
      · exact (List.mem_filter.mp hiter).1
  | createCQueue req w =>
    rw [answer] at hexec
    dsimp only at hexec
    split at hexec
    · cases hexec
      exact hiter
    · rw [Except.bind_eq_ok] at hexec
      obtain ⟨r, hr, hexec⟩ := hexec
      obtain rfl : r.2 = t' := congrArg Prod.snd (Except.ok.inj hexec)
      rw [QueueTable.createCQueue, Except.bind_eq_ok] at hr
      obtain ⟨slot, -, hr⟩ := hr
      split at hr
      · cases hr
        obtain ⟨iv, info⟩ := iter
        rcases (UnorderedMap.mem_entries_set w.pos).mp hiter with ⟨-, rfl⟩ | ⟨-, hmem⟩
        · cases hvalid
        · exact hmem
      · cases hr
        exact hiter

theorem admin_linked (cfg : QueueConfig) (cqEntries sqEntries : Nat) :
    Linked cfg (.admin cqEntries sqEntries) := by
  have hcq := cfg.cqsize_pos
  have hsq := cfg.sqsize_pos
  refine ⟨fun i q hq => ?_, fun i hi => if_neg (by omega), fun i hi => if_neg (by omega),
    ⟨_, rfl, rfl⟩, fun i q hi hq => ?_⟩
  · unfold admin at hq
    dsimp only at hq
    split at hq
    · obtain rfl := Option.some.inj hq
      rfl
    · cases hq
  · unfold admin at hq
    dsimp only at hq
    rw [if_neg (Nat.ne_of_gt hi)] at hq
    cases hq

end Steps

/-- Along every run of create and delete commands, the accesses are in the arrays and the
submission queues keep their completion queues exactly as long as the commands meet the
condition. -/
theorem run_sound_iff (cfg : QueueConfig) (cqEntries sqEntries : Nat) (commands : List Command) :
    Run.Along (exec cfg) (Sound cfg) (.admin cqEntries sqEntries) commands ↔
      Run.Along (exec cfg) (Clear cfg) (.admin cqEntries sqEntries) commands := by
  refine ((Run.Along.of_forall (fun _ _ => trivial) _ _).iff (I := Linked cfg)
    (admin_linked cfg cqEntries sqEntries) (fun t c h _ hclear => ?_) fun t c h _ =>
      ⟨fun hclear => ?_, clear_of_sound⟩).symm
  · obtain ⟨t', hexec, hlinked⟩ := exec_linked h hclear
    rw [hexec]
    exact hlinked
  · obtain ⟨t', hexec, hlinked⟩ := exec_linked h hclear
    exact ⟨t', hexec, hlinked.answerable⟩

/-- Eight completion queues and sixteen submission queues, besides those for admin commands. -/
def smallConfig : QueueConfig := ⟨9, 17, 4096, by decide, by decide, by decide⟩

/-- A command on a queue of 64 entries. -/
def queueCommand (qid high : BitVec 16) : SQEntryWrapper :=
  ⟨0, 0, 0, 0, 0, 63#16 ++ qid, high ++ 1#16, 0, 0, 0, 0, 0, 0, false⟩

/-- Submission queue 12 uses completion queue 3, which is deleted. -/
def dangling : List Command :=
  [.createCQueue (queueCommand 3 3) ⟨0, false⟩, .createSQueue (queueCommand 12 3),
    .deleteCQueue (queueCommand 3 0)]

/-- The search ends with submission queue 8, and the completion queue goes. -/
theorem not_sound_dangling :
    ¬ Run.Along (exec smallConfig) (Sound smallConfig) (.admin 64 64) dangling := by
  rintro ⟨-, h⟩
  obtain ⟨-, h⟩ := h
  obtain ⟨⟨t', hexec, hanswer⟩, -⟩ := h
  cases hexec
  obtain ⟨pQueue, hsubmit⟩ := hanswer 12 _ rfl
  cases hsubmit

/-- Nor is an identifier compared with the size of its array. -/
example : exec smallConfig (.admin 64 64) (.createCQueue (queueCommand 9 3) ⟨0, false⟩) =
    .error (.badAccess "ppCQueue") := rfl

end QueueTable

end SimpleSSD.HIL.NVMe
