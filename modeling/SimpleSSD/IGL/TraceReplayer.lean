import SimpleSSD.IGL.IOGenerator
import Mathlib.Data.List.TakeDrop

/-!
# The trace replayer (igl/trace/trace_replayer.cc)

The replayer has always parsed the line behind the one that it submits. At the end of the file,
or after `max_io` lines, it sets `reserveTermination`, and the last completion ends the simulation.
Until then the event is scheduled, or a completion is going to schedule it: in the mode for
synchronous I/O every completion, in the asynchronous mode one behind a submission that was blocked
by the depth (`nextIOIsSync`).

The text of the file is divided where `getline` divides it, so that what stands behind the last
newline is a line too. The regular expression is a function that gives the groups of a line, the
whole match as group 0, if it matches. `strtoul` is that of the C library for numbers of 64 bits.
Counters are numbers here: a file has fewer than 2^64 lines.

An offset or a length in blocks is taken as it is: `lbaSize` is read, but the multiplication by it
is commented out. And a file without a matching line ends the simulation twice, in `parseLine` and
in `begin`.
-/

namespace SimpleSSD.IGL

/-- `TIMING_MODE`. -/
inductive TimingMode where
  | sync | async | strict
  deriving DecidableEq, Repr

/-- The groups of a line. -/
abbrev Groups := List (List Char)

/-- What is read from the configuration. A group of zero is not used. -/
structure TraceOptions where
  regex_match : List Char → Option Groups
  mode : TimingMode
  submissionLatency : UInt64
  completionLatency : UInt64
  maxQueueDepth : UInt32
  max_io : UInt64
  operation : UInt32
  byteOffset : UInt32
  byteLength : UInt32
  lbaOffset : UInt32
  lbaLength : UInt32
  times : Vector UInt32 5
  lbaSize : UInt32
  useHex : Bool

/-- `TraceLine`. The type of a line may be none that there is. -/
structure TraceLine where
  tick : Nat
  offset : Nat
  length : Nat
  type : Option BIOType
  deriving DecidableEq, Repr

/-- The members of `TraceReplayer` that change. `lines` is what was not read of the file. -/
structure TraceState where
  lines : List (List Char)
  linedata : TraceLine
  nextIOIsSync : Bool
  reserveTermination : Bool
  io_count : Nat
  io_depth : Nat
  initTime : Nat
  firstTick : Nat
  submitEvent : Nat

/-- The constructor, with the text of the file. -/
def TraceState.new (text : List Char) (submitEvent : Nat) : TraceState where
  lines := text.splitOn (Char.ofNat 10)
  linedata := ⟨0, 0, 0, none⟩
  nextIOIsSync := false
  reserveTermination := false
  io_count := 0
  io_depth := 0
  initTime := 0
  firstTick := 2 ^ 64 - 1
  submitEvent := submitEvent

/-! ### Numbers and types -/

/-- The value of a digit or a letter. -/
def digitValue (c : Char) : Option Nat :=
  if 48 ≤ c.toNat ∧ c.toNat ≤ 57 then some (c.toNat - 48)
  else if 65 ≤ c.toNat ∧ c.toNat ≤ 90 then some (c.toNat - 55)
  else if 97 ≤ c.toNat ∧ c.toNat ≤ 122 then some (c.toNat - 87)
  else none

/-- The value of a digit in a base. -/
def digitOf (base : Nat) (c : Char) : Option Nat := (digitValue c).filter (· < base)

/-- `isspace`. -/
def isSpace (c : Char) : Bool := c.toNat = 32 ∨ 9 ≤ c.toNat ∧ c.toNat ≤ 13

/-- The number that the leading digits make. -/
def digits (base : Nat) : Nat → List Char → Nat
  | value, [] => value
  | value, c :: text =>
    match digitOf base c with
    | some digit => digits base (value * base + digit) text
    | none => value

/-- A text behind a prefix `0x`, if there is one with a digit behind it. -/
def dropHexPrefix (base : Nat) : List Char → List Char
  | zero :: x :: c :: text =>
    if base = 16 ∧ zero.toNat = 48 ∧ (x.toNat = 120 ∨ x.toNat = 88) ∧ (digitOf 16 c).isSome then
      c :: text
    else zero :: x :: c :: text
  | text => text

/-- `strtoul`: blanks, a sign, digits; a number too great gives the greatest one. -/
def strtoul (base : Nat) (text : List Char) : Nat :=
  let text := text.dropWhile isSpace
  let negative := text.head?.any fun c => c.toNat = 45
  let signed := text.head?.any fun c => c.toNat = 43 ∨ c.toNat = 45
  let value := digits base 0 (dropHexPrefix base (if signed then text.tail else text))
  if 2 ^ 64 ≤ value then 2 ^ 64 - 1
  else if negative then (2 ^ 64 - value) % 2 ^ 64
  else value

theorem strtoul_lt (base : Nat) (text : List Char) : strtoul base text < 2 ^ 64 := by
  unfold strtoul
  dsimp only
  generalize digits base 0 _ = value
  by_cases hgreat : 2 ^ 64 ≤ value
  · rw [if_pos hgreat]
    decide
  · rw [if_neg hgreat]
    split
    · exact Nat.mod_lt _ (by decide)
    · exact Nat.lt_of_not_le hgreat

/-- The letters of `getType`; an empty group has the letter 0. -/
def typeOf (group : List Char) : Option BIOType :=
  match group.head? with
  | some 'r' | some 'R' => some .read
  | some 'w' | some 'W' => some .write
  | some 'f' | some 'F' => some .flush
  | some 't' | some 'T' | some 'd' | some 'D' => some .trim
  | _ => none

namespace TraceOptions

variable (c : TraceOptions)

/-- The text of a group; one that the match does not have is empty. -/
def group (m : Groups) (id : UInt32) : List Char := m.getD id.toNat []

def base : Nat := if c.useHex then 16 else 10

/-- The offset, or the length, as `parseLine` reads it. -/
def field (m : Groups) (lba byte : UInt32) : Nat :=
  strtoul c.base (if 0 < lba then group m lba else group m byte)

/-- The times that are used, with their units. -/
def timeFields : List (UInt32 × Nat) :=
  (c.times.toList.zip [1000000000000, 1000000000, 1000000, 1000, 1]).filter fun f => 0 < f.1

/-- `mergeTime`. -/
def mergeTime (m : Groups) : Except Fault Nat :=
  if c.timeFields.all fun f => f.1.toNat < m.length then
    .ok (c.timeFields.foldl (fun tick f => (tick + strtoul 10 (group m f.1) * f.2) % 2 ^ 64) 0)
  else .error (.panic "TraceReplayer::mergeTime" "Time parse failed")

/-! ### What is asked for -/

/-- The matching lines among some. -/
def matching (lines : List (List Char)) : List Groups := lines.filterMap c.regex_match

/-- The matches that are to be submitted. -/
def limited (ms : List Groups) : List Groups :=
  if c.max_io = 0 then ms else ms.take c.max_io.toNat

/-- The offset, or the length, in bytes. -/
def bytes (m : Groups) (lba byte : UInt32) : Nat :=
  if 0 < lba then strtoul c.base (group m lba) * c.lbaSize.toNat % 2 ^ 64
  else strtoul c.base (group m byte)

/-- The type, the offset and the length that a line asks for. -/
def asks (m : Groups) : Option BIOType × Nat × Nat :=
  (typeOf (group m c.operation), c.bytes m c.lbaOffset c.byteOffset,
    c.bytes m c.lbaLength c.byteLength)

/-- The matches of a file that are to be submitted. -/
def expected (text : List Char) : List Groups :=
  c.limited (c.matching (text.splitOn (Char.ofNat 10)))

end TraceOptions

/-- The type, the offset and the length of an I/O. -/
def BIO.asked (bio : BIO) : Option BIOType × Nat × Nat := (some bio.type, bio.offset, bio.length)

def TraceLine.asked (line : TraceLine) : Option BIOType × Nat × Nat :=
  (line.type, line.offset, line.length)

namespace TraceReplayer

open Generator (View)

section Handlers

variable (c : TraceOptions)

/-- The loop of `parseLine`: the next matching line, and what stands behind it. -/
def nextMatch : List (List Char) → Option (Groups × List (List Char))
  | [] => none
  | line :: lines =>
    match c.regex_match line with
    | some m => some (m, lines)
    | none => nextMatch lines

/-- `parseLine`, with `getType`. `limit` says whether the global limit of requests is exceeded. -/
def parseLine (limit : Bool) (w : World TraceState) : Except Fault (World TraceState) :=
  match nextMatch c w.gen.lines with
  | none =>
    -- the end of the file
    let w := { w with gen := { w.gen with lines := [], reserveTermination := true } }
    if w.gen.io_depth = 0 then w.endCallback else .ok w
  | some (m, lines) => do
    let tick ← c.mergeTime m
    -- a field in blocks is not multiplied
    let offset := c.field m c.lbaOffset c.byteOffset
    let length := c.field m c.lbaLength c.byteLength
    let type := typeOf (TraceOptions.group m c.operation)
    .ok { w with gen := { w.gen with
      lines
      linedata := ⟨tick, offset, length, type⟩
      io_count := w.gen.io_count + 1
      reserveTermination := w.gen.reserveTermination || limit } }

/-- `rescheduleSubmit`. -/
def rescheduleSubmit (breakTime : Nat) (w : World TraceState) : Except Fault (World TraceState) :=
  let schedule := w.scheduleEvent w.gen.submitEvent ((w.engine.simTick + breakTime) % 2 ^ 64)
  match c.mode with
  | .async =>
    if c.maxQueueDepth.toNat ≤ w.gen.io_depth then
      .ok { w with gen := { w.gen with nextIOIsSync := true } }
    else schedule
  | .strict => .ok w
  | .sync => schedule

/-- The last part of `submitIO`, with the next line parsed. -/
def scheduleNext (w : World TraceState) : Except Fault (World TraceState) :=
  if w.gen.reserveTermination then .ok w
  else
    match c.mode with
    | .strict =>
      w.scheduleEvent w.gen.submitEvent
        ((w.gen.linedata.tick + 2 ^ 64 - w.gen.firstTick + w.gen.initTime) % 2 ^ 64)
    | .async => rescheduleSubmit c c.submissionLatency.toNat w
    | .sync => .ok w

/-- The part of `submitIO` behind the submission. -/
def parseNext (limit : Bool) (w : World TraceState) : Except Fault (World TraceState) :=
  if c.max_io ≠ 0 ∧ c.max_io.toNat ≤ w.gen.io_count then
    .ok { w with gen := { w.gen with reserveTermination := true } }
  else parseLine c limit w >>= scheduleNext c

/-- `submitIO`. -/
def submitIO (limit : Bool) (w : World TraceState) : Except Fault (World TraceState) :=
  match w.gen.linedata.type with
  | none => .error (.panic "TraceReplayer::submitIO" "Unexpected request type.")
  | some type =>
    let bio : BIO := ⟨w.gen.io_count, type, w.gen.linedata.offset, w.gen.linedata.length⟩
    parseNext c limit
      { w.submitIO bio with gen := { w.gen with io_depth := w.gen.io_depth + 1 } }

/-- `iocallback`. The second part is gone through behind the end as well. -/
def iocallback (w : World TraceState) : Except Fault (World TraceState) := do
  let w := { w with gen := { w.gen with io_depth := w.gen.io_depth - 1 } }
  let w ← if w.gen.reserveTermination ∧ w.gen.io_depth = 0 then w.endCallback else .ok w
  -- the depth has blocked a submission, or every completion makes the next one
  if c.mode = .sync ∨ w.gen.nextIOIsSync then
    rescheduleSubmit c ((c.submissionLatency.toNat + c.completionLatency.toNat) % 2 ^ 64)
      { w with gen := { w.gen with nextIOIsSync := false } }
  else .ok w

/-- `begin`. -/
def begin (limit : Bool) (w : World TraceState) : Except Fault (World TraceState) := do
  let w := { w with gen := { w.gen with initTime := w.engine.simTick } }
  let w ← parseLine c limit w
  let firstTick := if c.mode = .strict then w.gen.linedata.tick else w.gen.initTime
  let w := { w with gen := { w.gen with firstTick } }
  -- `parseLine` has ended the simulation already, if it found no line
  if w.gen.reserveTermination then w.endCallback else submitIO c limit w

/-- The handlers. The input says whether the global limit of requests is exceeded. -/
def handlers : Generator TraceState Bool :=
  ⟨TraceState.submitEvent, submitIO c, iocallback c⟩

/-! ### Faithful replay -/

/-- The I/Os are those that the lines ask for, in their order, and all of them at the end; the
asynchronous mode keeps to its depth; the end comes once and last, with no I/O in flight, and it has
come where no I/O is in flight and none is scheduled. -/
structure Faithful (text : List Char) (w : World TraceState) : Prop where
  order : (submitted w.log).map BIO.asked <+: (c.expected text).map c.asks
  depth : c.mode = .async → w.inFlight.length ≤ c.maxQueueDepth.toNat
  once : .ended ∈ w.log → World.EndedOnce w.inFlight w.log ∧
    (submitted w.log).map BIO.asked = (c.expected text).map c.asks
  quiet : w.inFlight = [] → ¬ w.engine.Scheduled w.gen.submitEvent → .ended ∈ w.log

/-- A field in blocks is zero, if the blocks do not have one byte. -/
def Unscaled (m : Groups) (lba : UInt32) : Prop :=
  0 < lba → c.lbaSize = 1 ∨ strtoul c.base (TraceOptions.group m lba) = 0

/-- A line that can be submitted: it has the times that are used, a type that there is, and no
fields that would have to be scaled. -/
structure Usable (m : Groups) : Prop where
  timed : ∀ f ∈ c.timeFields, f.1.toNat < m.length
  typed : (typeOf (TraceOptions.group m c.operation)).isSome = true
  offset : Unscaled c m c.lbaOffset
  length : Unscaled c m c.lbaLength

/-- A file that can be replayed: some line matches, the lines up to the limit can be submitted, and
the asynchronous mode allows an I/O in flight. -/
structure Replayable (text : List Char) : Prop where
  matched : c.matching (text.splitOn (Char.ofNat 10)) ≠ []
  usable : ∀ m ∈ c.expected text, Usable c m
  queue : c.mode = .async → 0 < c.maxQueueDepth.toNat

end Handlers

section Lines

variable {c : TraceOptions} {m : Groups} {lines : List (List Char)} {done rest ms : List Groups}

/-- The next match is the first of those that are left. -/
theorem nextMatch_spec (lines : List (List Char)) :
    (nextMatch c lines = none ∧ c.matching lines = []) ∨
      ∃ m lines', nextMatch c lines = some (m, lines') ∧
        c.matching lines = m :: c.matching lines' := by
  induction lines with
  | nil => exact .inl ⟨rfl, rfl⟩
  | cons line lines ih =>
    unfold nextMatch
    cases hmatch : c.regex_match line with
    | some m => exact .inr ⟨m, lines, rfl, List.filterMap_cons_some hmatch⟩
    | none =>
      have hskip : c.matching (line :: lines) = c.matching lines :=
        List.filterMap_cons_none hmatch
      rw [hskip]
      exact ih

/-- A match that the limit leaves room for is among those that are to be submitted. -/
theorem mem_limited (hlimit : c.max_io ≠ 0 → done.length < c.max_io.toNat) :
    m ∈ c.limited (done ++ m :: rest) := by
  unfold TraceOptions.limited
  split
  · exact List.mem_append_right _ List.mem_cons_self
  · next hne =>
    refine List.mem_take_iff_getElem.mpr ⟨done.length, ?_, ?_⟩
    · rw [List.length_append, List.length_cons]
      have := hlimit hne
      omega
    · simp

/-- What was submitted in front of such a match is the beginning of what is to be submitted. -/
theorem prefix_limited (hlimit : c.max_io ≠ 0 → done.length < c.max_io.toNat) :
    done <+: c.limited (done ++ m :: rest) := by
  unfold TraceOptions.limited
  split
  · exact List.prefix_append _ _
  · next hne =>
    refine List.prefix_take_iff.mpr ⟨List.prefix_append _ _, ?_⟩
    exact (hlimit hne).le

/-- When the limit is reached, all is submitted. -/
theorem limited_reached (hne : c.max_io ≠ 0) (hreached : done.length = c.max_io.toNat) :
    c.limited (done ++ rest) = done := by
  unfold TraceOptions.limited
  rw [if_neg hne, ← hreached]
  exact List.take_left

/-- At the end of the file, all is submitted. -/
theorem limited_end (hlimit : c.max_io ≠ 0 → done.length ≤ c.max_io.toNat) :
    c.limited done = done := by
  unfold TraceOptions.limited
  split
  · rfl
  · next hne => exact List.take_of_length_le (hlimit hne)

/-- A line without fields to scale asks for what is read from it. -/
theorem Usable.field_eq {lba byte : UInt32} (h : Unscaled c m lba) :
    c.field m lba byte = c.bytes m lba byte := by
  unfold TraceOptions.field TraceOptions.bytes
  by_cases hlba : 0 < lba
  · rw [if_pos hlba, if_pos hlba]
    rcases h hlba with hone | hzero
    · rw [hone, show (1 : UInt32).toNat = 1 from rfl, Nat.mul_one,
        Nat.mod_eq_of_lt (strtoul_lt _ _)]
    · rw [hzero, Nat.zero_mul, Nat.zero_mod]
  · rw [if_neg hlba, if_neg hlba]

theorem Usable.mergeTime_ok (h : Usable c m) : ∃ tick, c.mergeTime m = .ok tick :=
  ⟨_, if_pos (List.all_eq_true.mpr fun f hf => decide_eq_true (h.timed f hf))⟩

end Lines

/-! ### The invariant -/

/-- The line that is parsed is the next one to be submitted. -/
structure Ready (c : TraceOptions) (text : List Char) (s : TraceState) (log : List IOEvent)
    (done : List Groups) (m : Groups) : Prop where
  lines : c.matching (text.splitOn (Char.ofNat 10)) = done ++ m :: c.matching s.lines
  submitted : (submitted log).map BIO.asked = done.map c.asks
  linedata : s.linedata.asked = c.asks m
  typed : s.linedata.type.isSome = true
  count : s.io_count = done.length + 1
  limit : c.max_io ≠ 0 → done.length < c.max_io.toNat

/-- What the handlers keep. -/
structure Kept (c : TraceOptions) (text : List Char) (v : View TraceState) : Prop where
  depth : v.gen.io_depth = v.inFlight.length
  ready : v.gen.reserveTermination = false → ∃ done m, Ready c text v.gen v.log done m
  complete : v.gen.reserveTermination = true →
    (submitted v.log).map BIO.asked = (c.expected text).map c.asks
  idle : v.gen.reserveTermination = true → v.pending = true → .ended ∈ v.log
  terminated : v.gen.reserveTermination = true → v.inFlight = [] → .ended ∈ v.log
  once : .ended ∈ v.log → v.gen.reserveTermination = true ∧ World.EndedOnce v.inFlight v.log
  alive : v.gen.reserveTermination = false → v.pending = true ∨
    v.inFlight ≠ [] ∧ (c.mode = .sync ∨ v.gen.nextIOIsSync = true)
  blocked : v.gen.nextIOIsSync = true →
    c.mode = .async ∧ v.gen.reserveTermination = false ∧ v.pending = false
  room : c.mode = .async → v.inFlight.length ≤ c.maxQueueDepth.toNat ∧
    (v.gen.reserveTermination = false → v.pending = true →
      v.inFlight.length < c.maxQueueDepth.toNat)
  sync : c.mode = .sync → v.inFlight.length ≤ 1 ∧
    (v.gen.reserveTermination = false → v.pending = true → v.inFlight = [])

/-- The bounds for the I/Os in flight behind a submission. -/
structure Bounded (c : TraceOptions) (inFlight : List Nat) : Prop where
  async : c.mode = .async → inFlight.length ≤ c.maxQueueDepth.toNat
  sync : c.mode = .sync → inFlight.length ≤ 1

section Invariant

variable {c : TraceOptions} {text : List Char} {w : World TraceState}

/-- It depends on what was parsed and submitted only. -/
theorem Ready.congr {s s' : TraceState} {log log' : List IOEvent} {done : List Groups} {m : Groups}
    (h : Ready c text s log done m) (hlines : s'.lines = s.lines)
    (hlinedata : s'.linedata = s.linedata) (hcount : s'.io_count = s.io_count)
    (hsubmitted : IGL.submitted log' = IGL.submitted log) : Ready c text s' log' done m := by
  refine ⟨?_, ?_, ?_, ?_, ?_, h.limit⟩
  · rw [hlines]
    exact h.lines
  · rw [hsubmitted]
    exact h.submitted
  · rw [hlinedata]
    exact h.linedata
  · rw [hlinedata]
    exact h.typed
  · rw [hcount]
    exact h.count

/-- Behind the last submission. -/
theorem Kept.of_flag {v : View TraceState} (hbounded : Bounded c v.inFlight)
    (hdepth : v.gen.io_depth = v.inFlight.length) (hflag : v.gen.reserveTermination = true)
    (hcomplete : (submitted v.log).map BIO.asked = (c.expected text).map c.asks)
    (hne : v.inFlight ≠ []) (hpending : v.pending = false) (hsync : v.gen.nextIOIsSync = false)
    (hlive : .ended ∉ v.log) : Kept c text v := by
  have hrunning : ∀ {P : Prop}, v.gen.reserveTermination = false → P := fun h => by
    rw [hflag] at h
    cases h
  exact {
    depth := hdepth
    ready := hrunning
    complete := fun _ => hcomplete
    idle := fun _ h => by
      rw [hpending] at h
      cases h
    terminated := fun _ hempty => absurd hempty hne
    once := fun hended => absurd hended hlive
    alive := hrunning
    blocked := fun h => by
      rw [hsync] at h
      cases h
    room := fun hmode => ⟨hbounded.async hmode, hrunning⟩
    sync := fun hmode => ⟨hbounded.sync hmode, hrunning⟩ }

/-- With a line parsed, and something that is going to submit it. -/
theorem Kept.of_ready {v : View TraceState} (hbounded : Bounded c v.inFlight)
    (hdepth : v.gen.io_depth = v.inFlight.length) (hflag : v.gen.reserveTermination = false)
    {done : List Groups} {m : Groups} (hready : Ready c text v.gen v.log done m)
    (hlive : .ended ∉ v.log)
    (halive : v.pending = true ∨
      v.inFlight ≠ [] ∧ (c.mode = .sync ∨ v.gen.nextIOIsSync = true))
    (hblocked : v.gen.nextIOIsSync = true → c.mode = .async ∧ v.pending = false)
    (hroom : c.mode = .async → v.pending = true → v.inFlight.length < c.maxQueueDepth.toNat)
    (hsync : c.mode = .sync → v.pending = true → v.inFlight = []) : Kept c text v := by
  have hterminating : ∀ {P : Prop}, v.gen.reserveTermination = true → P := fun h => by
    rw [hflag] at h
    cases h
  exact {
    depth := hdepth
    ready := fun _ => ⟨done, m, hready⟩
    complete := hterminating
    idle := hterminating
    terminated := hterminating
    once := fun hended => absurd hended hlive
    alive := fun _ => halive
    blocked := fun h => ⟨(hblocked h).1, hflag, (hblocked h).2⟩
    room := fun hmode => ⟨hbounded.async hmode, fun _ => hroom hmode⟩
    sync := fun hmode => ⟨hbounded.sync hmode, fun _ => hsync hmode⟩ }

/-- A line that is found is ready to be submitted. -/
theorem parseLine_ready (husable : ∀ m ∈ c.expected text, Usable c m) {done : List Groups}
    {m : Groups} {lines : List (List Char)} (hnext : nextMatch c w.gen.lines = some (m, lines))
    (hlines : c.matching (text.splitOn (Char.ofNat 10)) = done ++ m :: c.matching lines)
    (hsubmitted : (submitted w.log).map BIO.asked = done.map c.asks)
    (hcount : w.gen.io_count = done.length)
    (hlimit : c.max_io ≠ 0 → done.length < c.max_io.toNat) :
    ∃ linedata, parseLine c false w = .ok { w with gen := { w.gen with
        lines, linedata, io_count := w.gen.io_count + 1 } } ∧
      Ready c text { w.gen with lines, linedata, io_count := w.gen.io_count + 1 } w.log done m := by
  have hm : Usable c m := husable m (by
    unfold TraceOptions.expected
    rw [hlines]
    exact mem_limited hlimit)
  obtain ⟨tick, htick⟩ := hm.mergeTime_ok
  refine ⟨⟨tick, c.field m c.lbaOffset c.byteOffset, c.field m c.lbaLength c.byteLength,
    typeOf (TraceOptions.group m c.operation)⟩, ?_, hlines, hsubmitted, ?_, hm.typed, ?_, hlimit⟩
  · unfold parseLine
    rw [hnext]
    dsimp only
    rw [htick, Except.ok_bind, Bool.or_false]
  · unfold TraceLine.asked TraceOptions.asks
    dsimp only
    rw [Usable.field_eq hm.offset, Usable.field_eq hm.length]
  · show w.gen.io_count + 1 = _
    rw [hcount]

theorem submitted_concat (bio : BIO) (log : List IOEvent) :
    submitted (log ++ [.submitted bio]) = submitted log ++ [bio] := by
  unfold submitted
  rw [List.filterMap_append]
  rfl

theorem submitted_complete (id : Nat) (log : List IOEvent) :
    submitted (log ++ [.completed id]) = submitted log := by
  unfold submitted
  rw [List.filterMap_append]
  exact List.append_nil _

theorem submitted_ended (log : List IOEvent) : submitted (log ++ [.ended]) = submitted log := by
  unfold submitted
  rw [List.filterMap_append]
  exact List.append_nil _

/-- The event is scheduled, with a line parsed. -/
theorem scheduleEvent_kept (h : (handlers c).Attached w) (hbounded : Bounded c w.inFlight)
    (hdepth : w.gen.io_depth = w.inFlight.length) (hflag : w.gen.reserveTermination = false)
    {done : List Groups} {m : Groups} (hready : Ready c text w.gen w.log done m)
    (hlive : .ended ∉ w.log) (hblocked : w.gen.nextIOIsSync = false)
    (hroom : c.mode = .async → w.inFlight.length < c.maxQueueDepth.toNat)
    (hsync : c.mode = .sync → w.inFlight = []) (tick : Nat) :
    ∃ w', w.scheduleEvent w.gen.submitEvent tick = .ok w' ∧ (handlers c).Attached w' ∧
      Kept c text ((handlers c).view w') := by
  obtain ⟨w', hcall, hattached, hview⟩ := h.scheduleEvent tick
  refine ⟨w', hcall, hattached, ?_⟩
  rw [hview]
  refine .of_ready hbounded hdepth hflag hready hlive (.inl rfl) (fun hset => ?_)
    (fun hmode _ => hroom hmode) fun hmode _ => hsync hmode
  rw [show w.gen.nextIOIsSync = true from hset] at hblocked
  cases hblocked

/-- The next line is scheduled for submission, or something in flight is going to schedule it. -/
theorem scheduleNext_kept (h : (handlers c).Attached w) (hbounded : Bounded c w.inFlight)
    (hdepth : w.gen.io_depth = w.inFlight.length) (hne : w.inFlight ≠ [])
    (hflag : w.gen.reserveTermination = false) {done : List Groups} {m : Groups}
    (hready : Ready c text w.gen w.log done m) (hlive : .ended ∉ w.log)
    (hblocked : w.gen.nextIOIsSync = false) (hpending : ((handlers c).view w).pending = false) :
    ∃ w', scheduleNext c w = .ok w' ∧ (handlers c).Attached w' ∧
      Kept c text ((handlers c).view w') := by
  have hidle : ∀ {P : Prop}, ((handlers c).view w).pending = true → P := fun h => by
    rw [hpending] at h
    cases h
  unfold scheduleNext
  rw [if_neg (by rw [hflag]; decide)]
  cases hmode : c.mode with
  | strict =>
    refine scheduleEvent_kept h hbounded hdepth hflag hready hlive hblocked ?_ ?_ _
    · intro hasync
      rw [hmode] at hasync
      cases hasync
    · intro hsync
      rw [hmode] at hsync
      cases hsync
  | async =>
    dsimp only
    unfold rescheduleSubmit
    rw [hmode]
    dsimp only
    have hsync : c.mode = .sync → w.inFlight = [] := fun hsync => by
      rw [hmode] at hsync
      cases hsync
    by_cases hfull : c.maxQueueDepth.toNat ≤ w.gen.io_depth
    · -- the next submission waits for a completion
      rw [if_pos hfull]
      refine ⟨_, rfl, h.setGen rfl, ?_⟩
      exact .of_ready hbounded hdepth hflag (hready.congr rfl rfl rfl rfl) hlive
        (.inr ⟨hne, .inr rfl⟩) (fun _ => ⟨hmode, hpending⟩) (fun _ => hidle)
        fun hmode' _ => hsync hmode'
    · rw [if_neg hfull]
      refine scheduleEvent_kept h hbounded hdepth hflag hready hlive hblocked ?_ hsync _
      intro _
      rw [← hdepth]
      exact Nat.lt_of_not_le hfull
  | sync =>
    refine ⟨w, rfl, h, ?_⟩
    refine .of_ready hbounded hdepth hflag hready hlive (.inr ⟨hne, .inl hmode⟩) (fun hset => ?_)
      (fun _ => hidle) fun _ => hidle
    rw [show w.gen.nextIOIsSync = true from hset] at hblocked
    cases hblocked

/-- Behind a submission, the next line is looked for. -/
theorem parseNext_kept (husable : ∀ m ∈ c.expected text, Usable c m)
    (h : (handlers c).Attached w) (hbounded : Bounded c w.inFlight)
    (hdepth : w.gen.io_depth = w.inFlight.length) (hne : w.inFlight ≠ [])
    (hflag : w.gen.reserveTermination = false) {done : List Groups}
    (hlines : c.matching (text.splitOn (Char.ofNat 10)) = done ++ c.matching w.gen.lines)
    (hsubmitted : (submitted w.log).map BIO.asked = done.map c.asks)
    (hcount : w.gen.io_count = done.length)
    (hlimit : c.max_io ≠ 0 → done.length ≤ c.max_io.toNat) (hlive : .ended ∉ w.log)
    (hblocked : w.gen.nextIOIsSync = false) (hpending : ((handlers c).view w).pending = false) :
    ∃ w', parseNext c false w = .ok w' ∧ (handlers c).Attached w' ∧
      Kept c text ((handlers c).view w') := by
  have hexpected : c.expected text = c.limited (done ++ c.matching w.gen.lines) := by
    unfold TraceOptions.expected
    rw [hlines]
  unfold parseNext
  by_cases hreached : c.max_io ≠ 0 ∧ c.max_io.toNat ≤ w.gen.io_count
  · -- the limit is reached
    rw [if_pos hreached]
    have hall : c.expected text = done := by
      rw [hexpected]
      exact limited_reached hreached.1
        (Nat.le_antisymm (hlimit hreached.1) (hcount ▸ hreached.2))
    refine ⟨_, rfl, h.setGen rfl, ?_⟩
    refine .of_flag hbounded hdepth rfl ?_ hne hpending hblocked hlive
    rw [hall]
    exact hsubmitted
  · rw [if_neg hreached]
    rcases nextMatch_spec (c := c) w.gen.lines with ⟨hnext, hnone⟩ | ⟨m, lines, hnext, hmatching⟩
    · -- the file is at its end
      have hall : c.expected text = done := by
        rw [hexpected, hnone, List.append_nil]
        exact limited_end hlimit
      have hinFlight : w.gen.io_depth ≠ 0 := by
        rw [hdepth]
        exact fun hzero => hne (List.length_eq_zero_iff.mp hzero)
      have hparse : parseLine c false w = .ok { w with
          gen := { w.gen with lines := [], reserveTermination := true } } := by
        unfold parseLine
        rw [hnext]
        exact if_neg hinFlight
      rw [hparse, Except.ok_bind]
      refine ⟨_, if_pos rfl, h.setGen rfl, ?_⟩
      refine .of_flag hbounded hdepth rfl ?_ hne hpending hblocked hlive
      rw [hall]
      exact hsubmitted
    · -- there is another line
      have hroom : c.max_io ≠ 0 → done.length < c.max_io.toNat := by
        intro hne
        rw [← hcount]
        exact Nat.lt_of_not_le fun hle => hreached ⟨hne, hle⟩
      rw [hmatching] at hlines
      obtain ⟨linedata, hparse, hready⟩ :=
        parseLine_ready husable hnext hlines hsubmitted hcount hroom
      rw [hparse, Except.ok_bind]
      exact scheduleNext_kept (h.setGen rfl) hbounded hdepth hne hflag hready hlive hblocked
        hpending

/-- A submission of the line that is parsed, with nothing scheduled. -/
theorem submitIO_kept (husable : ∀ m ∈ c.expected text, Usable c m)
    (h : (handlers c).Attached w) (hlive : .ended ∉ w.log)
    (hflag : w.gen.reserveTermination = false) {done : List Groups} {m : Groups}
    (hready : Ready c text w.gen w.log done m) (hdepth : w.gen.io_depth = w.inFlight.length)
    (hblocked : w.gen.nextIOIsSync = false) (hpending : ((handlers c).view w).pending = false)
    (hroom : c.mode = .async → w.inFlight.length < c.maxQueueDepth.toNat)
    (hsync : c.mode = .sync → w.inFlight = []) :
    ∃ w', submitIO c false w = .ok w' ∧ (handlers c).Attached w' ∧
      Kept c text ((handlers c).view w') := by
  obtain ⟨type, htype⟩ := Option.isSome_iff_exists.mp hready.typed
  unfold submitIO
  rw [htype]
  dsimp only
  have hlines : c.matching (text.splitOn (Char.ofNat 10)) =
      (done ++ [m]) ++ c.matching w.gen.lines := by
    rw [hready.lines]
    simp
  have hsubmitted : (submitted (w.log ++ [.submitted
      ⟨w.gen.io_count, type, w.gen.linedata.offset, w.gen.linedata.length⟩])).map BIO.asked =
        (done ++ [m]).map c.asks := by
    rw [submitted_concat, List.map_append, hready.submitted, List.map_append, List.map_singleton,
      List.map_singleton, ← hready.linedata]
    unfold BIO.asked TraceLine.asked
    rw [htype]
  refine parseNext_kept husable ((h.submitIO _).setGen rfl) ⟨fun hmode => ?_, fun hmode => ?_⟩ ?_ ?_
    hflag hlines hsubmitted ?_ (fun hne => ?_) ?_ hblocked hpending
  · show (w.inFlight ++ [_]).length ≤ _
    rw [List.length_append]
    exact hroom hmode
  · show (w.inFlight ++ [_]).length ≤ 1
    rw [hsync hmode]
    exact Nat.le_refl 1
  · show w.gen.io_depth + 1 = (w.inFlight ++ [_]).length
    rw [List.length_append, hdepth]
    rfl
  · show w.inFlight ++ [_] ≠ []
    simp
  · show w.gen.io_count = _
    rw [hready.count, List.length_append]
    rfl
  · rw [List.length_append]
    exact hready.limit hne
  · show .ended ∉ w.log ++ [_]
    simpa using hlive

/-- Behind the end, whatever is scheduled. -/
theorem Kept.of_ended {v : View TraceState} (hdepth : v.gen.io_depth = 0)
    (hflag : v.gen.reserveTermination = true)
    (hcomplete : (submitted v.log).map BIO.asked = (c.expected text).map c.asks)
    (hblocked : v.gen.nextIOIsSync = false) (honce : World.EndedOnce v.inFlight v.log) :
    Kept c text v := by
  obtain ⟨hempty, before, hlog, hbefore⟩ := honce
  have hended : .ended ∈ v.log := by
    rw [hlog]
    exact List.mem_append_right _ List.mem_cons_self
  have hrunning : ∀ {P : Prop}, v.gen.reserveTermination = false → P := fun h => by
    rw [hflag] at h
    cases h
  refine ⟨?_, hrunning, fun _ => hcomplete, fun _ _ => hended, fun _ _ => hended,
    fun _ => ⟨hflag, hempty, before, hlog, hbefore⟩, hrunning, fun h => ?_, fun _ => ⟨?_, hrunning⟩,
    fun _ => ⟨?_, hrunning⟩⟩
  · rw [hempty]
    exact hdepth
  · rw [hblocked] at h
    cases h
  · rw [hempty]
    exact Nat.zero_le _
  · rw [hempty]
    exact Nat.zero_le _

/-- With room for it, the next submission is scheduled, except by the times of the file. -/
theorem rescheduleSubmit_eq (hstrict : c.mode ≠ .strict)
    (hroom : c.mode = .async → w.gen.io_depth < c.maxQueueDepth.toNat) (breakTime : Nat) :
    rescheduleSubmit c breakTime w =
      w.scheduleEvent w.gen.submitEvent ((w.engine.simTick + breakTime) % 2 ^ 64) := by
  unfold rescheduleSubmit
  cases hmode : c.mode with
  | strict => exact absurd hmode hstrict
  | async => exact if_neg (Nat.not_le_of_lt (hroom hmode))
  | sync => rfl

/-- The last completion ends the simulation. In the mode for synchronous I/O the event is scheduled
once more, but the engine is stopped. -/
theorem endCallback_kept (h : (handlers c).Attached w) (hinFlight : w.inFlight = [])
    (hdepth : w.gen.io_depth = 0) (hflag : w.gen.reserveTermination = true)
    (hcomplete : (submitted w.log).map BIO.asked = (c.expected text).map c.asks)
    (hblocked : w.gen.nextIOIsSync = false) (hlive : .ended ∉ w.log) (breakTime : Nat) :
    ∃ w', (w.endCallback >>= fun w =>
        if c.mode = .sync ∨ w.gen.nextIOIsSync then
          rescheduleSubmit c breakTime { w with gen := { w.gen with nextIOIsSync := false } }
        else .ok w) = .ok w' ∧ (handlers c).Attached w' ∧ Kept c text ((handlers c).view w') := by
  obtain ⟨w₁, hcall, hattached, hview⟩ := h.endCallback
  have hgen : w₁.gen = w.gen := congrArg View.gen hview
  have hinFlight₁ : w₁.inFlight = w.inFlight := congrArg View.inFlight hview
  have hlog : w₁.log = w.log ++ [.ended] := congrArg View.log hview
  have hsubmitted : (submitted w₁.log).map BIO.asked = (c.expected text).map c.asks := by
    rw [hlog, submitted_ended]
    exact hcomplete
  have honce : World.EndedOnce w₁.inFlight w₁.log :=
    ⟨hinFlight₁.trans hinFlight, w.log, hlog, hlive⟩
  rw [hcall, Except.ok_bind]
  by_cases hmode : c.mode = .sync
  · rw [if_pos (.inl hmode), rescheduleSubmit_eq (by rw [hmode]; decide) fun hasync => by
      rw [hmode] at hasync
      cases hasync]
    have hattached' : (handlers c).Attached
        { w₁ with gen := { w₁.gen with nextIOIsSync := false } } := hattached.setGen rfl
    obtain ⟨w', hcall', hend, hview'⟩ :=
      hattached'.scheduleEvent ((w₁.engine.simTick + breakTime) % 2 ^ 64)
    refine ⟨w', hcall', hend, ?_⟩
    rw [hview']
    refine .of_ended ?_ ?_ hsubmitted rfl honce
    · show w₁.gen.io_depth = 0
      rw [hgen]
      exact hdepth
    · show w₁.gen.reserveTermination = true
      rw [hgen]
      exact hflag
  · rw [if_neg (by
      rintro (hsync | hset)
      · exact hmode hsync
      · rw [hgen, hblocked] at hset
        cases hset)]
    refine ⟨w₁, rfl, hattached, ?_⟩
    refine .of_ended ?_ ?_ ?_ ?_ honce
    · show w₁.gen.io_depth = 0
      rw [hgen]
      exact hdepth
    · show w₁.gen.reserveTermination = true
      rw [hgen]
      exact hflag
    · exact hsubmitted
    · show w₁.gen.nextIOIsSync = false
      rw [hgen]
      exact hblocked

/-- What a completion leaves in flight. -/
theorem Kept.erase (h : Kept c text ((handlers c).view w)) {id : Nat} (hid : id ∈ w.inFlight) :
    (w.inFlight.erase id).length + 1 = w.inFlight.length ∧
      w.gen.io_depth - 1 = (w.inFlight.erase id).length := by
  have hdepth : w.gen.io_depth = w.inFlight.length := h.depth
  have herase : (w.inFlight.erase id).length = w.inFlight.length - 1 := List.length_erase_of_mem hid
  have hpositive : 0 < w.inFlight.length := List.length_pos_of_mem hid
  omega

/-- A completion while there is a line to be submitted. -/
theorem iocallback_running (h : (handlers c).Attached w) (hkept : Kept c text ((handlers c).view w))
    (hlive : .ended ∉ w.log) (hflag : w.gen.reserveTermination = false) {id : Nat}
    (hid : id ∈ w.inFlight) :
    ∃ w', iocallback c (w.complete id) = .ok w' ∧ (handlers c).Attached w' ∧
      Kept c text ((handlers c).view w') := by
  obtain ⟨done, m, hready⟩ := hkept.ready hflag
  obtain ⟨herase, hdepth'⟩ := hkept.erase hid
  have hbounded : Bounded c (w.inFlight.erase id) := by
    refine ⟨fun hmode => ?_, fun hmode => ?_⟩
    · have hle : w.inFlight.length ≤ c.maxQueueDepth.toNat := (hkept.room hmode).1
      omega
    · have hle : w.inFlight.length ≤ 1 := (hkept.sync hmode).1
      omega
  have hroom : c.mode = .async → (w.inFlight.erase id).length < c.maxQueueDepth.toNat := by
    intro hmode
    have hle : w.inFlight.length ≤ c.maxQueueDepth.toNat := (hkept.room hmode).1
    omega
  have hempty : c.mode = .sync → w.inFlight.erase id = [] := by
    intro hmode
    have hle : w.inFlight.length ≤ 1 := (hkept.sync hmode).1
    exact List.length_eq_zero_iff.mp (by omega)
  have hlive' : .ended ∉ w.log ++ [.completed id] := by
    simpa using hlive
  unfold iocallback
  dsimp only
  rw [if_neg (fun hset => by
    rw [show w.gen.reserveTermination = true from hset.1] at hflag
    cases hflag), Except.ok_bind]
  by_cases hresume : c.mode = .sync ∨ w.gen.nextIOIsSync = true
  · -- the completion schedules the next submission
    rw [if_pos (show c.mode = .sync ∨ (w.complete id).gen.nextIOIsSync = true from hresume)]
    have hstrict : c.mode ≠ .strict := by
      rcases hresume with hmode | hset
      · rw [hmode]
        decide
      · rw [(hkept.blocked hset).1]
        decide
    rw [rescheduleSubmit_eq hstrict fun hmode => by
      show w.gen.io_depth - 1 < _
      rw [hdepth']
      exact hroom hmode]
    have hattached : (handlers c).Attached { w.complete id with
        gen := { w.gen with io_depth := w.gen.io_depth - 1, nextIOIsSync := false } } :=
      (h.complete id).setGen rfl
    exact scheduleEvent_kept hattached hbounded hdepth' hflag
      (hready.congr rfl rfl rfl (submitted_complete id w.log)) hlive' rfl hroom hempty _
  · -- the event is scheduled already
    rw [if_neg (show ¬ (c.mode = .sync ∨ (w.complete id).gen.nextIOIsSync = true) from hresume)]
    have hpending : ((handlers c).view w).pending = true :=
      (hkept.alive hflag).resolve_right fun hwaiting => hresume hwaiting.2
    refine ⟨_, rfl, (h.complete id).setGen rfl, ?_⟩
    exact .of_ready hbounded hdepth' hflag
      (hready.congr rfl rfl rfl (submitted_complete id w.log)) hlive' (.inl hpending)
      (fun hset => absurd (.inr hset) hresume) (fun hmode _ => hroom hmode)
      fun hmode _ => hempty hmode

/-- A completion behind the last submission. -/
theorem iocallback_terminating (h : (handlers c).Attached w)
    (hkept : Kept c text ((handlers c).view w)) (hlive : .ended ∉ w.log)
    (hflag : w.gen.reserveTermination = true) {id : Nat} (hid : id ∈ w.inFlight) :
    ∃ w', iocallback c (w.complete id) = .ok w' ∧ (handlers c).Attached w' ∧
      Kept c text ((handlers c).view w') := by
  obtain ⟨herase, hdepth'⟩ := hkept.erase hid
  have hcomplete : (submitted (w.log ++ [.completed id])).map BIO.asked =
      (c.expected text).map c.asks := by
    rw [submitted_complete]
    exact hkept.complete hflag
  have hlive' : .ended ∉ w.log ++ [.completed id] := by
    simpa using hlive
  have hblocked : w.gen.nextIOIsSync = false := by
    cases hset : w.gen.nextIOIsSync with
    | false => rfl
    | true =>
      have hrunning : w.gen.reserveTermination = false := (hkept.blocked hset).2.1
      rw [hflag] at hrunning
      cases hrunning
  have hattached : (handlers c).Attached { w.complete id with
      gen := { w.gen with io_depth := w.gen.io_depth - 1 } } := (h.complete id).setGen rfl
  unfold iocallback
  dsimp only
  by_cases hzero : w.gen.io_depth - 1 = 0
  · have hlast : (w.complete id).gen.reserveTermination = true ∧
        (w.complete id).gen.io_depth - 1 = 0 := ⟨hflag, hzero⟩
    rw [if_pos hlast]
    have hempty : w.inFlight.erase id = [] := List.length_eq_zero_iff.mp (hdepth'.symm.trans hzero)
    exact endCallback_kept hattached hempty hzero hflag hcomplete hblocked hlive' _
  · rw [if_neg fun hset => hzero hset.2, Except.ok_bind]
    have hne : w.inFlight.erase id ≠ [] := fun hempty => by
      rw [hempty] at hdepth'
      exact hzero hdepth'
    have hmode : c.mode ≠ .sync := fun hmode => by
      have hle : w.inFlight.length ≤ 1 := (hkept.sync hmode).1
      omega
    have hpending : ((handlers c).view w).pending = false := by
      refine Bool.eq_false_iff.mpr fun hpending => ?_
      exact hlive (hkept.idle hflag hpending)
    rw [if_neg (by
      rintro (hsync | hset)
      · exact hmode hsync
      · rw [show w.gen.nextIOIsSync = true from hset] at hblocked
        cases hblocked)]
    refine ⟨_, rfl, hattached, ?_⟩
    refine .of_flag ⟨fun hmode => ?_, fun hsync => absurd hsync hmode⟩ hdepth' hflag hcomplete hne
      hpending hblocked hlive'
    have hle : w.inFlight.length ≤ c.maxQueueDepth.toNat := (hkept.room hmode).1
    show (w.inFlight.erase id).length ≤ _
    omega

/-- The handlers keep the invariant, as long as the global limit is not exceeded. -/
theorem handlers_keep (husable : ∀ m ∈ c.expected text, Usable c m) :
    (handlers c).Keeps (Kept c text) (· = false) := by
  constructor
  · intro w limit h hlive hlimit hkept hpending
    subst hlimit
    have hflag : w.gen.reserveTermination = false :=
      Bool.eq_false_iff.mpr fun hset => hlive (hkept.idle hset rfl)
    have hblocked : w.gen.nextIOIsSync = false := by
      refine Bool.eq_false_iff.mpr fun hset => ?_
      have hnot : true = false := (hkept.blocked hset).2.2
      cases hnot
    obtain ⟨done, m, hready⟩ := hkept.ready hflag
    exact submitIO_kept husable h hlive hflag hready hkept.depth hblocked hpending
      (fun hmode => (hkept.room hmode).2 hflag rfl) fun hmode => (hkept.sync hmode).2 hflag rfl
  · intro w id h hkept hid
    have hlive : .ended ∉ w.log := fun hended => by
      have hempty : w.inFlight = [] := (hkept.once hended).2.1
      rw [hempty] at hid
      cases hid
    cases hflag : w.gen.reserveTermination with
    | false => exact iocallback_running h hkept hlive hflag hid
    | true => exact iocallback_terminating h hkept hlive hflag hid

theorem Kept.faithful (h : Kept c text ((handlers c).view w)) : Faithful c text w := by
  refine ⟨?_, fun hmode => (h.room hmode).1, fun hended => ?_, fun hempty hidle => ?_⟩
  · cases hflag : w.gen.reserveTermination with
    | true =>
      have hall : (submitted w.log).map BIO.asked = (c.expected text).map c.asks := h.complete hflag
      rw [hall]
    | false =>
      obtain ⟨done, m, hready⟩ := h.ready hflag
      have hsubmitted : (submitted w.log).map BIO.asked = done.map c.asks := hready.submitted
      have hlines : c.matching (text.splitOn (Char.ofNat 10)) =
          done ++ m :: c.matching w.gen.lines := hready.lines
      unfold TraceOptions.expected
      rw [hsubmitted, hlines]
      exact (prefix_limited hready.limit).map c.asks
  · obtain ⟨hflag, honce⟩ := h.once hended
    exact ⟨honce, h.complete hflag⟩
  · cases hflag : w.gen.reserveTermination with
    | true => exact h.terminated hflag hempty
    | false =>
      rcases h.alive hflag with hpending | ⟨hne, -⟩
      · exact absurd (Generator.view_pending.mp hpending) hidle
      · exact absurd hempty hne

/-! ### The start -/

/-- The first submission. -/
theorem begin_kept {n : Nat} (hreplayable : Replayable c text)
    (h : (handlers c).Waiting w (.new text n)) :
    ∃ w', begin c false w = .ok w' ∧ (handlers c).Attached w' ∧
      Kept c text ((handlers c).view w') := by
  obtain ⟨hattached, hview⟩ := h
  have hgen : w.gen = .new text n := congrArg View.gen hview
  have hinFlight : w.inFlight = [] := congrArg View.inFlight hview
  have hlog : w.log = [] := congrArg View.log hview
  have hpending : ((handlers c).view w).pending = false := congrArg View.pending hview
  have hlimit : c.max_io ≠ 0 → 0 < c.max_io.toNat := fun hne =>
    Nat.pos_of_ne_zero fun hzero => hne (UInt64.toNat_inj.mp hzero)
  rcases nextMatch_spec (c := c) (text.splitOn (Char.ofNat 10)) with ⟨-, hnone⟩ |
    ⟨m, lines, hnext, hmatching⟩
  · exact absurd hnone hreplayable.matched
  · have hnext₁ : nextMatch c w.gen.lines = some (m, lines) := by
      rw [hgen]
      exact hnext
    have hsubmitted : (submitted w.log).map BIO.asked = ([] : List Groups).map c.asks := by
      rw [hlog]
      rfl
    have hcount : w.gen.io_count = 0 := by
      rw [hgen]
      rfl
    obtain ⟨linedata, hparse, hready⟩ := @parseLine_ready c text
      { w with gen := { w.gen with initTime := w.engine.simTick } } hreplayable.usable [] m lines
      hnext₁ hmatching hsubmitted hcount hlimit
    have hflag : w.gen.reserveTermination = false := by
      rw [hgen]
      rfl
    unfold begin
    dsimp only
    rw [hparse, Except.ok_bind]
    dsimp only
    rw [if_neg (by rw [hflag]; decide)]
    refine submitIO_kept hreplayable.usable (hattached.setGen rfl) ?_ hflag
      (hready.congr rfl rfl rfl rfl) ?_ ?_ hpending (fun hmode => ?_) fun _ => hinFlight
    · show .ended ∉ w.log
      rw [hlog]
      exact List.not_mem_nil
    · show w.gen.io_depth = w.inFlight.length
      rw [hgen, hinFlight]
      rfl
    · show w.gen.nextIOIsSync = false
      rw [hgen]
      rfl
    · show w.inFlight.length < _
      rw [hinFlight]
      exact hreplayable.queue hmode

end Invariant

/-- A file that can be replayed is replayed faithfully in each mode, whatever the other components
and the completions do, as long as the global limit is not exceeded. -/
theorem replays_faithfully {c : TraceOptions} {text : List Char} (hreplayable : Replayable c text)
    {statistics : Bool} {calls : List Engine.Call} {w : World TraceState}
    (hboot : boot (TraceState.new text) statistics calls = .ok w) {before : List (Action Bool)}
    (hbefore : Run.Along (handlers c).exec (handlers c).Possible w before) :
    ∃ w₁, before.foldlM (handlers c).exec w >>= begin c false = .ok w₁ ∧
      ∀ after, Run.Along (handlers c).exec (handlers c).Possible w₁ after →
        (∀ a ∈ after, Generator.Takes (· = false) a) →
          ∃ w₂, after.foldlM (handlers c).exec w₁ = .ok w₂ ∧ Faithful c text w₂ := by
  obtain ⟨n, hwaiting⟩ := Generator.boot_waiting (g := handlers c) (fun _ => rfl) hboot
  obtain ⟨w₀, hrun₀, hwaiting₀⟩ := hwaiting.run hbefore
  obtain ⟨w₁, hbegin, hattached, hkept⟩ := begin_kept hreplayable hwaiting₀
  refine ⟨w₁, ?_, fun after hafter htakes => ?_⟩
  · rw [hrun₀]
    exact hbegin
  · obtain ⟨w₂, hrun, -, hend⟩ :=
      (handlers_keep hreplayable.usable).run hattached hkept hafter htakes
    exact ⟨w₂, hrun, hend.faithful⟩

/-! ### Offsets in blocks -/

section Blocks

/-- A line of three words. -/
def words (line : List Char) : Option Groups :=
  match line.splitOn ' ' with
  | [operation, offset, length] => some [line, operation, offset, length]
  | _ => none

/-- A trace with offsets and lengths in bytes, one I/O at a time. -/
def byteTrace : TraceOptions where
  regex_match := words
  mode := .async
  submissionLatency := 10
  completionLatency := 10
  maxQueueDepth := 1
  max_io := 0
  operation := 1
  byteOffset := 2
  byteLength := 3
  lbaOffset := 0
  lbaLength := 0
  times := .replicate 5 0
  lbaSize := 512
  useHex := false

/-- The same with offsets in blocks. -/
def blockTrace : TraceOptions := { byteTrace with byteOffset := 0, lbaOffset := 2 }

/-- `R 1 8` and `W 9 8`. -/
def twoLines : List Char :=
  ['R', ' ', '1', ' ', '8', Char.ofNat 10, 'W', ' ', '9', ' ', '8']

/-- The simulator with a replayer. -/
def replayWorld (text : List Char) : World TraceState :=
  ⟨.new text 1, ⟨0, 1, false, [1], [], 0⟩, none, [], []⟩

theorem boot_replayWorld (text : List Char) :
    boot (TraceState.new text) false [] = .ok (replayWorld text) := rfl

theorem replayable_byteTrace : Replayable byteTrace twoLines := by
  have htimeFields : byteTrace.timeFields = [] := by decide
  have htyped : ∀ m ∈ byteTrace.expected twoLines,
      (typeOf (TraceOptions.group m byteTrace.operation)).isSome = true := by decide
  have hbytes : ¬ (0 : UInt32) < 0 := by decide
  refine ⟨by decide, fun m hm => ⟨fun f hf => ?_, htyped m hm, ?_, ?_⟩, fun _ => by decide⟩
  · rw [htimeFields] at hf
    cases hf
  · exact fun h => absurd h hbytes
  · exact fun h => absurd h hbytes

theorem replays_faithfully_twoLines : ∃ w₁,
    [.allocateEvent].foldlM (handlers byteTrace).exec (replayWorld twoLines) >>=
      begin byteTrace false = .ok w₁ ∧
    ∀ after, Run.Along (handlers byteTrace).exec (handlers byteTrace).Possible w₁ after →
      (∀ a ∈ after, Generator.Takes (· = false) a) →
        ∃ w₂, after.foldlM (handlers byteTrace).exec w₁ = .ok w₂ ∧
          Faithful byteTrace twoLines w₂ :=
  replays_faithfully replayable_byteTrace (boot_replayWorld twoLines) (by decide)

/-- The first read goes to byte 1 in place of block 1. And with a file without lines, the end comes
twice. -/
theorem not_faithful_blocks :
    (∃ w₁, begin blockTrace false (replayWorld twoLines) = .ok w₁ ∧
      (submitted w₁.log).map BIO.asked = [(some .read, 1, 8)] ∧
      ¬ Faithful blockTrace twoLines w₁) ∧
    ∃ w₁, begin byteTrace false (replayWorld []) = .ok w₁ ∧ ¬ Faithful byteTrace [] w₁ := by
  refine ⟨⟨_, rfl, by decide, fun h => ?_⟩, ⟨_, rfl, fun h => ?_⟩⟩
  · exact absurd h.order (by decide)
  · obtain ⟨⟨-, before, hlog, hbefore⟩, -⟩ := h.once (by decide)
    have hfirst : before = [.ended] := (List.append_inj_left' hlog rfl).symm
    rw [hfirst] at hbefore
    exact hbefore List.mem_cons_self

end Blocks

end TraceReplayer

end SimpleSSD.IGL
