import SimpleSSD.IGL.IOGenerator
import SimpleSSD.Lib.Run

/-!
# The block I/O layer (bil/entry.cc, bil/noop_scheduler.cc)

`submitIO` keeps an I/O in a queue and hands a copy to the driver, as the one scheduler that there
is passes it on. When the driver is done, `completion` finds the I/O by its id, calls the generator
back, and takes the I/O out of the queue. The generator may submit further I/Os from there.

The statistics are those of all I/Os. `getProgress` reports what was completed since it was called
last; it does so from another thread, under a lock, and is one of the steps here. What it gives for
a second is computed in floating point from the numbers of the model. The constructor leaves
`progress` as it is in memory, and the first report is on top of that.
-/

namespace SimpleSSD.BIL

/-- `BIO` in the queue. -/
structure Queued extends bio : IGL.BIO where
  submittedAt : Nat
  deriving DecidableEq, Repr

/-- `Progress`. -/
structure Progress where
  iops : Nat
  bandwidth : Nat
  latency : Nat
  deriving DecidableEq, Repr

/-- `BlockIOEntry`, with the tick of the engine. The last four fields record the lines of the
latency file, what the driver was given, the I/Os whose callback was called, with the tick, and the
reports of `getProgress`. -/
structure BlockIOEntry where
  now : Nat
  ioQueue : List Queued
  lastProgress : Nat
  ioProgress : Nat
  progress : Progress
  ioCount : Nat
  minLatency : Nat
  maxLatency : Nat
  sumLatency : Nat
  squareSumLatency : Nat
  latencyFile : List (Nat × Nat × Nat × Nat)
  submitted : List IGL.BIO
  completed : List (Queued × Nat)
  reports : List Progress
  deriving DecidableEq, Repr

namespace BlockIOEntry

/-- The constructor, with what `progress` happens to be. -/
def new (progress : Progress) : BlockIOEntry where
  now := 0
  ioQueue := []
  lastProgress := 0
  ioProgress := 0
  progress := progress
  ioCount := 0
  minLatency := 2 ^ 64 - 1
  maxLatency := 0
  sumLatency := 0
  squareSumLatency := 0
  latencyFile := []
  submitted := []
  completed := []
  reports := []

/-- `submitIO`. -/
def submitIO (s : BlockIOEntry) (bio : IGL.BIO) : BlockIOEntry :=
  { s with
    ioCount := (s.ioCount + 1) % 2 ^ 64
    ioQueue := s.ioQueue ++ [⟨bio, s.now⟩]
    submitted := s.submitted ++ [bio] }

/-- The end of `completion`. -/
def count (s : BlockIOEntry) (tick : Nat) : BlockIOEntry :=
  { s with
    minLatency := if tick < s.minLatency then tick else s.minLatency
    maxLatency := if s.maxLatency < tick then tick else s.maxLatency
    sumLatency := (s.sumLatency + tick) % 2 ^ 64
    squareSumLatency := (s.squareSumLatency + tick * tick % 2 ^ 64) % 2 ^ 64 }

/-- `completion`, whose callback submits some I/Os. The tick of an unknown I/O is counted as if it
was a latency. -/
def completion (s : BlockIOEntry) (id : Nat) (resubmitted : List IGL.BIO) : BlockIOEntry :=
  match s.ioQueue.find? fun bio => bio.id = id with
  | none => s.count s.now
  | some iter =>
    let tick := (s.now + 2 ^ 64 - iter.submittedAt) % 2 ^ 64
    let s := { s with
      ioProgress := (s.ioProgress + 1) % 2 ^ 64
      progress := ⟨(s.progress.iops + 1) % 2 ^ 64, (s.progress.bandwidth + iter.length) % 2 ^ 64,
        (s.progress.latency + tick) % 2 ^ 64⟩
      latencyFile := s.latencyFile ++ [(iter.id, iter.offset, iter.length, tick)]
      completed := s.completed ++ [(iter, s.now)] }
    let s := resubmitted.foldl submitIO s
    { s with ioQueue := s.ioQueue.eraseP fun bio => bio.id = id }.count tick

/-- The report of `getProgress`. -/
def data (s : BlockIOEntry) : Progress :=
  ⟨s.progress.iops, s.progress.bandwidth,
    if s.ioProgress = 0 then 0 else s.progress.latency / s.ioProgress⟩

/-- `getProgress`. When no time has passed since the last report it gives zeros, and changes
nothing. -/
def getProgress (s : BlockIOEntry) : BlockIOEntry :=
  let diff := (s.now + 2 ^ 64 - s.lastProgress) % 2 ^ 64
  if diff = 0 then s
  else { s with
    ioProgress := 0
    progress := ⟨0, 0, 0⟩
    lastProgress := s.now
    reports := s.reports ++ [s.data] }

/-! ### Runs -/

inductive Event where
  | submit (tick : Nat) (bio : IGL.BIO)
  | completion (tick id : Nat) (resubmitted : List IGL.BIO)
  | getProgress (tick : Nat)
  deriving DecidableEq, Repr

def Event.tick : Event → Nat
  | .submit tick _ | .completion tick _ _ | .getProgress tick => tick

def exec (s : BlockIOEntry) : Event → BlockIOEntry
  | .submit tick bio => BlockIOEntry.submitIO { s with now := tick } bio
  | .completion tick id resubmitted => { s with now := tick }.completion id resubmitted
  | .getProgress tick => { s with now := tick }.getProgress

/-- The ids of the I/Os in flight. -/
def ids (s : BlockIOEntry) : List Nat := s.ioQueue.map fun bio => bio.id

/-- Time goes on, new I/Os have new ids, and the driver completes what it was given. -/
def Possible (s : BlockIOEntry) (e : Event) : Prop :=
  s.now ≤ e.tick ∧ e.tick < 2 ^ 64 ∧ match e with
  | .submit _ bio => bio.id ∉ s.ids
  | .completion _ id resubmitted => id ∈ s.ids ∧ (s.ids ++ resubmitted.map (·.id)).Nodup
  | .getProgress _ => True

instance (s : BlockIOEntry) (e : Event) : Decidable (s.Possible e) := by
  cases e <;> unfold Possible <;> infer_instance

/-- A run in which every event is possible. -/
def PossibleRun : BlockIOEntry → List Event → Prop
  | _, [] => True
  | s, e :: events => s.Possible e ∧ PossibleRun (s.exec e) events

instance decidablePossibleRun : ∀ s events, Decidable (PossibleRun s events)
  | _, [] => .isTrue trivial
  | s, e :: events =>
    have := decidablePossibleRun (s.exec e) events
    inferInstanceAs (Decidable (s.Possible e ∧ PossibleRun (s.exec e) events))

/-- What a generator sees of an event. -/
def observe {σ : Type} (w : IGL.World σ) : Event → IGL.World σ
  | .submit _ bio => w.submitIO bio
  | .completion _ id resubmitted => resubmitted.foldl (fun w bio => w.submitIO bio) (w.complete id)
  | .getProgress _ => w

/-! ### What the statistics say -/

/-- The time from the submission of an I/O to its completion. -/
def latency (c : Queued × Nat) : Nat := c.2 - c.1.submittedAt

/-- `progress` behind some I/Os. -/
def gather (base : Progress) (part : List (Queued × Nat)) : Progress :=
  ⟨(base.iops + part.length) % 2 ^ 64,
    (base.bandwidth + (part.map fun c => c.1.length).sum) % 2 ^ 64,
    (base.latency + (part.map latency).sum) % 2 ^ 64⟩

/-- The report on some I/Os: their number and length, and their mean latency. -/
def report (base : Progress) (part : List (Queued × Nat)) : Progress :=
  let sums := gather base part
  ⟨sums.iops, sums.bandwidth,
    if part.length % 2 ^ 64 = 0 then 0 else sums.latency / (part.length % 2 ^ 64)⟩

/-- `progress` as it is left by a report, or by the constructor before the first one. -/
def baseOf (start : Progress) (parts : List (List (Queued × Nat))) : Progress :=
  if parts = [] then start else ⟨0, 0, 0⟩

/-- The reports on consecutive I/Os. -/
def reportsOf (start : Progress) (parts : List (List (Queued × Nat))) : List Progress :=
  match parts with
  | [] => []
  | part :: parts => report start part :: parts.map (report ⟨0, 0, 0⟩)

/-- Every I/O is in flight or has been completed, and called back, once. The statistics are those
of the I/Os so far, and every completed I/O is in one report or in the next one. -/
structure Accounted (start : Progress) (s : BlockIOEntry) : Prop where
  once : (s.completed.map (·.1.bio) ++ s.ioQueue.map (·.bio)).Perm s.submitted
  count : s.ioCount = s.submitted.length % 2 ^ 64
  file : s.latencyFile =
    s.completed.map fun c => (c.1.id, c.1.offset, c.1.length, latency c)
  bounds : ∀ c ∈ s.completed, s.minLatency ≤ latency c ∧ latency c ≤ s.maxLatency
  attained : s.completed ≠ [] → (∃ c ∈ s.completed, latency c = s.minLatency) ∧
    ∃ c ∈ s.completed, latency c = s.maxLatency
  sum : s.sumLatency = (s.completed.map latency).sum % 2 ^ 64
  squareSum : s.squareSumLatency = (s.completed.map fun c => latency c * latency c).sum % 2 ^ 64
  reported : ∃ parts rest, s.completed = parts.flatten ++ rest ∧
    s.reports = reportsOf start parts ∧ s.progress = gather (baseOf start parts) rest ∧
    s.ioProgress = rest.length % 2 ^ 64

/-! ### Submissions -/

/-- With what the ticks need. -/
structure Inv (start : Progress) (s : BlockIOEntry) : Prop extends Accounted start s where
  past : ∀ bio ∈ s.ioQueue, bio.submittedAt ≤ s.now
  word : s.now < 2 ^ 64
  distinct : s.ids.Nodup
  fresh : s.completed = [] → s.minLatency = 2 ^ 64 - 1 ∧ s.maxLatency = 0

section Inv

variable {start : Progress} {s : BlockIOEntry} {bio : IGL.BIO} {bios : List IGL.BIO} {id tick : Nat}

theorem inv_new (hstart : start.iops < 2 ^ 64 ∧ start.bandwidth < 2 ^ 64 ∧ start.latency < 2 ^ 64) :
    (new start).Inv start where
  once := List.Perm.refl []
  count := rfl
  file := rfl
  bounds c hc := absurd hc List.not_mem_nil
  attained h := absurd rfl h
  sum := rfl
  squareSum := rfl
  reported := by
    refine ⟨[], [], rfl, rfl, ?_, rfl⟩
    obtain ⟨hiops, hbandwidth, hlatency⟩ := hstart
    show start = ⟨(start.iops + 0) % 2 ^ 64, (start.bandwidth + 0) % 2 ^ 64,
      (start.latency + 0) % 2 ^ 64⟩
    rw [Nat.add_zero, Nat.add_zero, Nat.add_zero, Nat.mod_eq_of_lt hiops,
      Nat.mod_eq_of_lt hbandwidth, Nat.mod_eq_of_lt hlatency]
  past bio hbio := absurd hbio List.not_mem_nil
  word := Nat.two_pow_pos 64
  distinct := List.nodup_nil
  fresh _ := ⟨rfl, rfl⟩

theorem Inv.advance (h : s.Inv start) (hle : s.now ≤ tick) (hword : tick < 2 ^ 64) :
    { s with now := tick }.Inv start :=
  { h with past := fun bio hbio => (h.past bio hbio).trans hle, word := hword }

theorem ids_submitIO (s : BlockIOEntry) (bio : IGL.BIO) :
    ( s.submitIO bio).ids = s.ids ++ [bio.id] :=
  List.map_append

theorem Inv.submitIO (h : s.Inv start) (hnew : bio.id ∉ s.ids) : ( s.submitIO bio).Inv start := by
  refine { h with once := ?_, count := ?_, past := fun b hb => ?_, distinct := ?_ }
  · rw [ BlockIOEntry.submitIO]
    dsimp only
    rw [List.map_append, ← List.append_assoc]
    exact h.once.append_right [bio]
  · rw [ BlockIOEntry.submitIO]
    dsimp only
    rw [h.count, List.length_append, List.length_singleton, Nat.mod_add_mod]
  · rcases List.mem_append.mp hb with hb | hb
    · exact h.past b hb
    · rw [List.mem_singleton.mp hb]
      exact Nat.le_refl s.now
  · rw [ ids_submitIO]
    exact List.nodup_append.mpr ⟨h.distinct, List.nodup_singleton _, fun a ha b hb heq => by
      rw [List.mem_singleton.mp hb] at heq
      exact hnew (heq ▸ ha)⟩

/-- The callback submits its I/Os one after the other. -/
theorem Inv.foldl_submitIO (h : s.Inv start) (hnew : (s.ids ++ bios.map (·.id)).Nodup) :
    (bios.foldl BlockIOEntry.submitIO s).Inv start := by
  induction bios generalizing s with
  | nil => exact h
  | cons bio bios ih =>
    refine ih ( h.submitIO fun hmem => ?_) ?_
    · exact (List.nodup_append.mp hnew).2.2 _ hmem _ List.mem_cons_self rfl
    · rw [ ids_submitIO, List.append_assoc]
      exact hnew

end Inv

/-! ### Completions -/

section Completion

variable {start : Progress} {s : BlockIOEntry} {iter : Queued} {id : Nat}

theorem perm_eraseP {α : Type*} {p : α → Bool} {a : α} {l : List α} (h : l.find? p = some a) :
    l.Perm (a :: l.eraseP p) := by
  induction l with
  | nil => cases h
  | cons b l ih =>
    cases hb : p b with
    | true =>
      rw [List.find?_cons_of_pos hb] at h
      obtain rfl := Option.some.inj h
      rw [List.eraseP_cons_of_pos hb]
    | false =>
      have hb' : ¬ p b = true := by rw [hb]; exact Bool.false_ne_true
      rw [List.find?_cons_of_neg hb'] at h
      rw [List.eraseP_cons_of_neg hb']
      exact ((ih h).cons b).trans (List.Perm.swap a b _)

/-- The I/O is taken out and counted. -/
def finish (id tick : Nat) (s : BlockIOEntry) : BlockIOEntry :=
  { s with ioQueue := s.ioQueue.eraseP fun bio => bio.id = id }.count tick

/-- What is submitted meanwhile stands behind the I/O that is taken out. -/
theorem finish_foldl (hmem : ∃ bio ∈ s.ioQueue, bio.id = id) (tick : Nat) (bios : List IGL.BIO) :
    finish id tick (bios.foldl submitIO s) = bios.foldl submitIO (finish id tick s) := by
  induction bios generalizing s with
  | nil => rfl
  | cons bio bios ih =>
    obtain ⟨b, hb, hid⟩ := hmem
    have hcommute :
        finish id tick ( s.submitIO bio) = BlockIOEntry.submitIO (finish id tick s) bio := by
      rw [finish, submitIO]
      dsimp only
      rw [List.eraseP_append_left (a := b) (decide_eq_true hid) _ hb]
      rfl
    rw [List.foldl_cons, List.foldl_cons, ← hcommute]
    exact ih ⟨b, List.mem_append_left _ hb, hid⟩

/-- The I/O is reported, and the generator is called. -/
def called (iter : Queued) (s : BlockIOEntry) : BlockIOEntry :=
  { s with
    ioProgress := (s.ioProgress + 1) % 2 ^ 64
    progress := ⟨(s.progress.iops + 1) % 2 ^ 64, (s.progress.bandwidth + iter.length) % 2 ^ 64,
      (s.progress.latency + (s.now - iter.submittedAt)) % 2 ^ 64⟩
    latencyFile :=
      s.latencyFile ++ [(iter.id, iter.offset, iter.length, s.now - iter.submittedAt)]
    completed := s.completed ++ [(iter, s.now)] }

/-- The completion of an I/O in flight, whose callback submits nothing. -/
def complete (iter : Queued) (s : BlockIOEntry) : BlockIOEntry :=
  finish iter.id (s.now - iter.submittedAt) (s.called iter)

theorem completion_eq (h : s.Inv start) (hid : id ∈ s.ids) (bios : List IGL.BIO) :
    ∃ iter, s.ioQueue.find? (fun bio => bio.id = id) = some iter ∧ iter.id = id ∧
      s.completion id bios = bios.foldl submitIO (s.complete iter) := by
  obtain ⟨bio, hbio, hbioid⟩ := List.mem_map.mp hid
  have hsome : (s.ioQueue.find? fun bio => bio.id = id).isSome = true :=
    List.find?_isSome.mpr ⟨bio, hbio, decide_eq_true hbioid⟩
  obtain ⟨iter, hiter⟩ := Option.isSome_iff_exists.mp hsome
  have hmem := List.mem_of_find?_eq_some hiter
  have hiterid : iter.id = id := by simpa using List.find?_some hiter
  have hpast := h.past iter hmem
  have hword := h.word
  have htick : (s.now + 2 ^ 64 - iter.submittedAt) % 2 ^ 64 = s.now - iter.submittedAt := by
    rw [show s.now + 2 ^ 64 - iter.submittedAt = s.now - iter.submittedAt + 2 ^ 64 by omega,
      Nat.add_mod_right, Nat.mod_eq_of_lt (by omega)]
  refine ⟨iter, hiter, hiterid, ?_⟩
  subst hiterid
  rw [completion, hiter]
  dsimp only
  rw [htick]
  exact finish_foldl (s := s.called iter) ⟨iter, hmem, rfl⟩ _ bios

/-- One more I/O in the sums of a report. -/
theorem gather_concat (base : Progress) (part : List (Queued × Nat)) (c : Queued × Nat) :
    gather base (part ++ [c]) = ⟨((gather base part).iops + 1) % 2 ^ 64,
      ((gather base part).bandwidth + c.1.length) % 2 ^ 64,
      ((gather base part).latency + latency c) % 2 ^ 64⟩ := by
  rw [gather, gather]
  dsimp only
  rw [List.length_append, List.length_singleton, List.map_append, List.map_append,
    List.sum_append, List.sum_append, List.map_singleton, List.map_singleton, List.sum_singleton,
    List.sum_singleton, Nat.mod_add_mod, Nat.mod_add_mod, Nat.mod_add_mod, Nat.add_assoc,
    Nat.add_assoc, Nat.add_assoc]

/-- The least and the greatest latency behind one more I/O are its own, or those of others. -/
theorem Inv.extremes (h : s.Inv start) (tick : Nat) (hword : tick < 2 ^ 64) :
    ((if tick < s.minLatency then tick else s.minLatency) = tick ∨ ∃ c ∈ s.completed,
      latency c = if tick < s.minLatency then tick else s.minLatency) ∧
    ((if s.maxLatency < tick then tick else s.maxLatency) = tick ∨ ∃ c ∈ s.completed,
      latency c = if s.maxLatency < tick then tick else s.maxLatency) := by
  by_cases hnil : s.completed = []
  · obtain ⟨hmin, hmax⟩ := h.fresh hnil
    rw [hmin, hmax]
    constructor <;> left <;> split <;> omega
  · obtain ⟨hmin, hmax⟩ := h.attained hnil
    constructor <;> split
    · exact .inl rfl
    · exact .inr hmin
    · exact .inl rfl
    · exact .inr hmax

theorem exists_concat {n : Nat} {l : List (Queued × Nat)} {c : Queued × Nat}
    (h : n = latency c ∨ ∃ d ∈ l, latency d = n) : ∃ d ∈ l ++ [c], latency d = n := by
  rcases h with rfl | ⟨d, hd, hlatency⟩
  · exact ⟨c, List.mem_append_right l (List.mem_singleton.mpr rfl), rfl⟩
  · exact ⟨d, List.mem_append_left _ hd, hlatency⟩

theorem Inv.complete (h : s.Inv start)
    (hiter : s.ioQueue.find? (fun bio => bio.id = iter.id) = some iter) :
    (s.complete iter).Inv start := by
  have hperm := perm_eraseP hiter
  have hsub : (s.ioQueue.eraseP fun bio => bio.id = iter.id).Sublist s.ioQueue :=
    List.eraseP_sublist
  have hnew : s.completed ++ [(iter, s.now)] ≠ [] := List.append_ne_nil_of_right_ne_nil _ (by simp)
  refine ⟨⟨?_, h.count, ?_, fun c hc => ?_, fun _ => ?_, ?_, ?_, ?_⟩, fun bio hbio => ?_, h.word,
    (hsub.map _).nodup h.distinct, fun hnil => absurd hnil hnew⟩
  · -- the I/O goes from the queue to the completed ones
    show ((s.completed ++ [(iter, s.now)]).map (·.1.bio) ++
      (s.ioQueue.eraseP fun bio => bio.id = iter.id).map (·.bio)).Perm s.submitted
    rw [List.map_append, List.append_assoc]
    exact ((hperm.map _).symm.append_left _).trans h.once
  · show s.latencyFile ++ [(iter.id, iter.offset, iter.length, s.now - iter.submittedAt)] =
      (s.completed ++ [(iter, s.now)]).map _
    rw [List.map_append, h.file]
    rfl
  · show (if _ < s.minLatency then _ else s.minLatency) ≤ latency c ∧
      latency c ≤ if s.maxLatency < _ then _ else s.maxLatency
    rcases List.mem_append.mp hc with hc | hc
    · obtain ⟨hmin, hmax⟩ := h.bounds c hc
      constructor <;> split <;> omega
    · rw [List.mem_singleton.mp hc]
      show _ ≤ s.now - iter.submittedAt ∧ s.now - iter.submittedAt ≤ _
      constructor <;> split <;> omega
  · obtain ⟨hmin, hmax⟩ := h.extremes (s.now - iter.submittedAt) (by have := h.word; omega)
    exact ⟨exists_concat hmin, exists_concat hmax⟩
  · show (s.sumLatency + (s.now - iter.submittedAt)) % 2 ^ 64 =
      ((s.completed ++ [(iter, s.now)]).map latency).sum % 2 ^ 64
    rw [h.sum, List.map_append, List.sum_append, Nat.mod_add_mod]
    rfl
  · show (s.squareSumLatency +
      (s.now - iter.submittedAt) * (s.now - iter.submittedAt) % 2 ^ 64) % 2 ^ 64 =
      ((s.completed ++ [(iter, s.now)]).map fun c => latency c * latency c).sum % 2 ^ 64
    rw [h.squareSum, List.map_append, List.sum_append, ← Nat.add_mod]
    rfl
  · obtain ⟨parts, rest, hparts, hreports, hprogress, hnumber⟩ := h.reported
    refine ⟨parts, rest ++ [(iter, s.now)], ?_, hreports, ?_, ?_⟩
    · rw [← List.append_assoc, ← hparts]
      rfl
    · rw [gather_concat, ← hprogress]
      rfl
    · show (s.ioProgress + 1) % 2 ^ 64 = _
      rw [hnumber, List.length_append, List.length_singleton, Nat.mod_add_mod]
  · exact h.past bio (hsub.subset hbio)

end Completion

/-! ### Runs keep the accounts -/

section Run

variable {σ : Type} {start : Progress} {s : BlockIOEntry} {e : Event} {w : IGL.World σ}

theorem reportsOf_concat (start : Progress) (parts : List (List (Queued × Nat)))
    (rest : List (Queued × Nat)) :
    reportsOf start (parts ++ [rest]) =
      reportsOf start parts ++ [report (baseOf start parts) rest] := by
  cases parts with
  | nil => rfl
  | cons part parts =>
    rw [baseOf, if_neg (List.cons_ne_nil part parts)]
    show report start part :: (parts ++ [rest]).map _ = _
    rw [List.map_append]
    rfl

/-- A report ends its part, and the next one begins at zero. -/
theorem Inv.getProgress (h : s.Inv start) : s.getProgress.Inv start := by
  rw [BlockIOEntry.getProgress]
  split
  · exact h
  · obtain ⟨parts, rest, hparts, hreports, hprogress, hnumber⟩ := h.reported
    refine { h with reported := ⟨parts ++ [rest], [], ?_, ?_, ?_, rfl⟩ }
    · dsimp only
      rw [hparts, List.flatten_append, List.flatten_singleton, List.append_nil]
    · dsimp only
      rw [reportsOf_concat, hreports, data, hprogress, hnumber]
      rfl
    · rw [baseOf, if_neg (List.append_ne_nil_of_right_ne_nil _ (List.cons_ne_nil rest []))]
      rfl

/-- The I/Os in flight and the submissions are those that the generator sees. -/
def Shows (w : IGL.World σ) (s : BlockIOEntry) : Prop :=
  w.inFlight = s.ids ∧ IGL.submitted w.log = s.submitted

theorem Shows.submitIO (h : Shows w s) (bio : IGL.BIO) :
    Shows ( w.submitIO bio) ( s.submitIO bio) := by
  refine ⟨?_, ?_⟩
  · rw [ ids_submitIO, ← h.1]
    rfl
  · rw [ IGL.World.submitIO, IGL.submitted, List.filterMap_append]
    exact congrArg (· ++ [bio]) h.2

theorem Shows.foldl_submitIO (h : Shows w s) (bios : List IGL.BIO) :
    Shows (bios.foldl (fun w bio => w.submitIO bio) w) (bios.foldl BlockIOEntry.submitIO s) := by
  induction bios generalizing w s with
  | nil => exact h
  | cons bio bios ih => exact ih ( h.submitIO bio)

theorem ids_complete (iter : Queued) (s : BlockIOEntry) :
    (s.complete iter).ids = s.ids.erase iter.id := by
  rw [ids, ids, List.erase_eq_eraseP, List.eraseP_map]
  refine congrArg (List.map _) (congrArg (List.eraseP · s.ioQueue) (funext fun bio => ?_))
  show decide (bio.id = iter.id) = (iter.id == bio.id)
  rw [Bool.eq_iff_iff, decide_eq_true_iff, beq_iff_eq]
  exact eq_comm

theorem Shows.complete (h : Shows w s) (iter : Queued) :
    Shows (w.complete iter.id) (s.complete iter) := by
  refine ⟨?_, ?_⟩
  · rw [ids_complete, ← h.1]
    rfl
  · rw [IGL.World.complete, IGL.submitted, List.filterMap_append]
    exact (List.append_nil _).trans h.2

theorem Inv.exec (h : s.Inv start) (hw : Shows w s) (he : s.Possible e) :
    (s.exec e).Inv start ∧ Shows (observe w e) (s.exec e) := by
  obtain ⟨hle, hword, he⟩ := he
  have hadvance : { s with now := e.tick }.Inv start := h.advance hle hword
  have hshows : Shows w { s with now := e.tick } := hw
  cases e with
  | submit tick bio => exact ⟨ hadvance.submitIO he, hshows.submitIO bio⟩
  | completion tick id resubmitted =>
    obtain ⟨hid, hnew⟩ := he
    obtain ⟨iter, hiter, rfl, heq⟩ := completion_eq hadvance hid resubmitted
    dsimp only [Event.tick] at heq
    rw [BlockIOEntry.exec, observe, heq]
    refine ⟨ Inv.foldl_submitIO (hadvance.complete hiter) ?_,
      Shows.foldl_submitIO (hshows.complete iter) resubmitted⟩
    rw [ids_complete]
    exact (List.erase_sublist.append (List.Sublist.refl _)).nodup hnew
  | getProgress tick =>
    refine ⟨hadvance.getProgress, ?_⟩
    rw [BlockIOEntry.exec, BlockIOEntry.getProgress]
    split <;> exact hw

end Run

/-- In every run in which the ids of I/Os in flight differ and the driver completes what it was
given, the accounts are right, and the generator sees the I/Os that are in flight. -/
theorem ios_accounted (start : Progress)
    (hstart : start.iops < 2 ^ 64 ∧ start.bandwidth < 2 ^ 64 ∧ start.latency < 2 ^ 64)
    (events : List Event) (hrun : PossibleRun (new start) events) {σ : Type} (w : IGL.World σ)
    (hw : w.inFlight = [] ∧ w.log = []) :
    (events.foldl exec (new start)).Accounted start ∧
      Shows (events.foldl observe w) (events.foldl exec (new start)) := by
  have hinv : ∀ (events : List Event) (s : BlockIOEntry) (w : IGL.World σ), s.Inv start →
      Shows w s → PossibleRun s events →
        (events.foldl exec s).Inv start ∧ Shows (events.foldl observe w) (events.foldl exec s) := by
    intro events
    induction events with
    | nil => exact fun s w h hw _ => ⟨h, hw⟩
    | cons e events ih =>
      intro s w h hw hrun
      obtain ⟨h', hw'⟩ := h.exec hw hrun.1
      exact ih _ _ h' hw' hrun.2
  have hshows : Shows w (new start) := ⟨hw.1, by rw [hw.2]; rfl⟩
  obtain ⟨h, hshows⟩ := hinv events _ w (inv_new hstart) hshows hrun
  exact ⟨h.toAccounted, hshows⟩

/-- Two I/Os that are completed in the other order, a third from the callback of the first, and two
reports. -/
def crossing : List Event :=
  [.submit 0 ⟨1, .write, 0, 4096⟩, .submit 5 ⟨2, .read, 8192, 512⟩,
    .completion 30 2 [⟨3, .trim, 0, 4096⟩], .getProgress 40, .completion 100 1 [],
    .getProgress 100, .getProgress 100]

theorem ios_accounted_crossing :
    (crossing.foldl exec (new ⟨7, 0, 1000⟩)).Accounted ⟨7, 0, 1000⟩ ∧
      Shows (crossing.foldl observe ⟨(), .new, none, [], []⟩)
        (crossing.foldl exec (new ⟨7, 0, 1000⟩)) :=
  ios_accounted ⟨7, 0, 1000⟩ (by decide) crossing (by decide) _ ⟨rfl, rfl⟩

end BlockIOEntry

end SimpleSSD.BIL
