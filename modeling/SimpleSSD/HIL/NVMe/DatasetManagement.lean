import SimpleSSD.HIL.NVMe.NamespaceDeletion

/-!
# Contexts of a deallocation (hil/nvme/namespace.cc:576–683, hil/nvme/ocssd.cc:1688–1788
and 2105–2203)

A deallocation starts a trim for each of its ranges, all with the same `DMAContext`. Each
trim counts it down when it has ended; the last one answers the command. But each of them
also deletes the context, in both copies of the code, so the second one uses it after its
release.

The copy for Open-Channel devices hands the context to `eraseInternal`, which takes it for an
`IOContext` and writes the response in it.
-/

namespace SimpleSSD.HIL.NVMe

/-- Where a deallocation comes to. -/
inductive Target where
  | nvme (dev : LPNInfo) (ns : Namespace)
  | openChannel20

/-- What a `void *context` points to. -/
inductive Context where
  | io | dma
  deriving DecidableEq, Repr

/-- A deallocation: its response in the `IOContext` until `trimDone` deletes that, the counter of
the `DMAContext` until it is deleted, how often that was, what the backend was asked for, the
ranges whose trims have not ended, and the completions sent. -/
structure Deallocation where
  nr : Nat
  io : Option CQEntryWrapper
  pDMA : Option Int
  released : Nat
  requests : List Request
  running : List Nat
  sent : List CQEntryWrapper
  deriving DecidableEq

/-- The answer to a command that is not executed. -/
def Target.rejected? (req : SQEntryWrapper) : Target → Option CQEntryWrapper
  | .nvme dev ns =>
    match ns.datasetManagement dev req fun _ => ⟨0, 0⟩ with
    | .rejected resp => some resp
    | .executed _ => none
  | .openChannel20 => if req.dword11 &&& 0x04 = 0 then some (.new req) else none

/-- The target is a namespace. -/
def Target.IsNamespace : Target → Prop
  | .nvme _ _ => True
  | .openChannel20 => False

namespace Deallocation

open Dispatcher (rangeCount)

/-- `datasetManagement`, up to the read of the ranges. -/
def datasetManagement (t : Target) (req : SQEntryWrapper) : Deallocation :=
  match t.rejected? req with
  | some resp => ⟨rangeCount req, none, none, 0, [], [], [resp]⟩
  | none => ⟨rangeCount req, some (.new req), none, 0, [], [], []⟩

/-- `trimDone`. -/
def trimDone (s : Deallocation) : Except Fault Deallocation :=
  match s.io with
  | none => .error (.badAccess "IOContext")
  | some resp => .ok { s with io := none, sent := s.sent ++ [resp] }

/-- `eachTrimDone`. -/
def eachTrimDone (s : Deallocation) : Except Fault Deallocation :=
  match s.pDMA with
  | none => .error (.badAccess "DMAContext")
  | some counter => do
    let s := { s with pDMA := some (counter - 1) }
    let s ← if counter - 1 = 0 then s.trimDone else .ok s
    -- delete pContext, whatever the counter is
    .ok { s with pDMA := none, released := s.released + 1 }

/-- `((IOContext *)context)->resp`. -/
def respOf (s : Deallocation) : Context → Except Fault CQEntryWrapper
  | .io =>
    match s.io with
    | none => .error (.badAccess "IOContext")
    | some resp => .ok resp
  | .dma => .error (.badAccess "((IOContext *)context)->resp")

/-- `eraseInternal` (ocssd.cc:1688–1790), as to its context. -/
def eraseInternal (context : Context) (i : Nat) (s : Deallocation) : Except Fault Deallocation := do
  let _ ← s.respOf context
  .ok { s with running := s.running ++ [i] }

/-- A range of the loop of `dmaDone`. -/
def startRange (t : Target) (buffer : Nat → DatasetManagementRange) (s : Deallocation) (i : Nat) :
    Except Fault Deallocation :=
  let s := { s with pDMA := s.pDMA.map (· + 1) }
  match t with
  | .nvme dev ns =>
    let request := convertUnit dev ns (buffer i).slba.toNat (buffer i).nlb.toNat
    .ok { s with requests := s.requests ++ [request], running := s.running ++ [i] }
  | .openChannel20 => eraseInternal .dma i s

/-- `dmaDone`, with the ranges that were read. -/
def dmaDone (t : Target) (buffer : Nat → DatasetManagementRange) (s : Deallocation) :
    Except Fault Deallocation := do
  let s ← (List.range s.nr).foldlM (startRange t buffer) { s with pDMA := some 0 }
  match t with
  | .nvme _ _ => if s.pDMA = some 0 then eachTrimDone { s with pDMA := some 1 } else .ok s
  | .openChannel20 => .ok s

/-- The trim of range `i` has ended. -/
def finish (s : Deallocation) (i : Nat) : Except Fault Deallocation :=
  if i ∈ s.running then eachTrimDone { s with running := s.running.erase i } else .ok s

/-- The trims end in this order: nothing is used after its release, the completion is sent with
the last one, and the context is released once. -/
def Lives (t : Target) (req : SQEntryWrapper) (buffer : Nat → DatasetManagementRange)
    (order : List Nat) : Prop :=
  ∃ s s', (datasetManagement t req).dmaDone t buffer = .ok s ∧ order.foldlM finish s = .ok s' ∧
    s'.running = [] ∧ s'.sent = [.new req] ∧ s'.pDMA = none ∧ s'.released = 1 ∧
    ∀ k < order.length, ((order.take k).foldlM finish s).All (·.sent = [])

section Start

variable {t : Target} {req : SQEntryWrapper} {dev : LPNInfo} {ns : Namespace}
  {buffer : Nat → DatasetManagementRange}

/-- The device takes the counter for the context of a command. -/
theorem dmaDone_openChannel20 (hexecuted : Target.rejected? req .openChannel20 = none) :
    (datasetManagement .openChannel20 req).dmaDone .openChannel20 buffer =
      .error (.badAccess "((IOContext *)context)->resp") := by
  rw [datasetManagement, hexecuted, dmaDone, rangeCount, List.range_succ_eq_map]
  rfl

/-- The loop starts a trim for every range and counts them. -/
theorem foldlM_startRange (n : Nat) (s : Deallocation) :
    (List.range n).foldlM (startRange (.nvme dev ns) buffer) s = .ok { s with
      pDMA := s.pDMA.map (· + (n : Int))
      requests := s.requests ++ (List.range n).map fun i =>
        convertUnit dev ns (buffer i).slba.toNat (buffer i).nlb.toNat
      running := s.running ++ List.range n } := by
  induction n with
  | zero => simp [Pure.pure, Except.pure]
  | succ n ih =>
    have hcounter : (s.pDMA.map (· + (n : Int))).map (· + 1) =
        s.pDMA.map (· + ((n + 1 : Nat) : Int)) := by
      rw [Option.map_map]
      exact congrArg (Option.map · s.pDMA) (funext fun counter => Int.add_assoc counter n 1)
    rw [List.range_succ, List.foldlM_append, ih, Except.ok_bind, List.foldlM_cons, startRange]
    dsimp only
    rw [hcounter, List.append_assoc, List.append_assoc, List.map_append]
    rfl

/-- Behind the loop all trims run, and the counter is their number. -/
theorem dmaDone_nvme (hexecuted : Target.rejected? req (.nvme dev ns) = none) :
    (datasetManagement (.nvme dev ns) req).dmaDone (.nvme dev ns) buffer = .ok
      ⟨rangeCount req, some (.new req), some (rangeCount req), 0,
        (List.range (rangeCount req)).map fun i =>
          convertUnit dev ns (buffer i).slba.toNat (buffer i).nlb.toNat,
        List.range (rangeCount req), []⟩ := by
  have hpos : ¬ some ((0 : Int) + (rangeCount req : Int)) = some 0 := by
    rw [Option.some_inj, rangeCount]
    omega
  rw [datasetManagement, hexecuted, dmaDone, foldlM_startRange, Except.ok_bind]
  dsimp only [Option.map_some]
  rw [if_neg hpos, Int.zero_add]
  rfl

end Start

section Finish

variable {s : Deallocation} {i j : Nat} {counter : Int}

/-- A trim that is not the last one releases the context. -/
theorem finish_early (hi : i ∈ s.running) (hcounter : s.pDMA = some counter) (hne : counter ≠ 1) :
    finish s i = .ok { s with
      running := s.running.erase i
      pDMA := none
      released := s.released + 1 } := by
  have hmore : ¬ counter - 1 = 0 := by omega
  rw [finish, if_pos hi, eachTrimDone]
  dsimp only
  rw [hcounter]
  dsimp only
  rw [if_neg hmore]
  rfl

/-- The next one uses it after its release. -/
theorem finish_released (hi : i ∈ s.running) (hreleased : s.pDMA = none) :
    finish s i = .error (.badAccess "DMAContext") := by
  rw [finish, if_pos hi, eachTrimDone]
  dsimp only
  rw [hreleased]

/-- The last trim answers the command and releases the context. -/
theorem finish_last {resp : CQEntryWrapper} (hi : i ∈ s.running) (hcounter : s.pDMA = some 1)
    (hio : s.io = some resp) :
    finish s i = .ok { s with
      running := s.running.erase i
      io := none
      sent := s.sent ++ [resp]
      pDMA := none
      released := s.released + 1 } := by
  rw [finish, if_pos hi, eachTrimDone]
  dsimp only
  rw [hcounter]
  dsimp only
  rw [if_pos (Int.sub_self 1), trimDone]
  dsimp only
  rw [hio]
  rfl

theorem foldlM_finish_last {resp : CQEntryWrapper} (hi : i ∈ s.running)
    (hcounter : s.pDMA = some 1) (hio : s.io = some resp) :
    [i].foldlM finish s = .ok { s with
      running := s.running.erase i
      io := none
      sent := s.sent ++ [resp]
      pDMA := none
      released := s.released + 1 } := by
  rw [List.foldlM_cons, finish_last hi hcounter hio]
  rfl

/-- Two trims, in any order, do not end. -/
theorem finish_twice {rest : List Nat} (hi : i ∈ s.running) (hj : j ∈ s.running) (hne : j ≠ i)
    (hcounter : s.pDMA = some counter) (hmore : counter ≠ 1) :
    (i :: j :: rest).foldlM finish s = .error (.badAccess "DMAContext") := by
  rw [List.foldlM_cons, finish_early hi hcounter hmore, Except.ok_bind, List.foldlM_cons,
    finish_released ((List.mem_erase_of_ne hne).mpr hj) rfl]
  rfl

end Finish

/-- The contexts of a deallocation live as they should exactly for one range of a namespace. -/
theorem datasetManagement_lives_iff (t : Target) (req : SQEntryWrapper)
    (buffer : Nat → DatasetManagementRange) (order : List Nat)
    (hexecuted : t.rejected? req = none) (horder : order.Perm (List.range (rangeCount req))) :
    Lives t req buffer order ↔ t.IsNamespace ∧ rangeCount req = 1 := by
  cases t with
  | openChannel20 =>
    refine iff_of_false ?_ fun h => h.1
    rintro ⟨s, s', hstart, -⟩
    rw [dmaDone_openChannel20 hexecuted] at hstart
    cases hstart
  | nvme dev ns =>
    have hlength : order.length = rangeCount req := by rw [horder.length_eq, List.length_range]
    constructor
    · rintro ⟨s, s', hstart, hrun, -⟩
      refine ⟨trivial, ?_⟩
      rw [dmaDone_nvme hexecuted] at hstart
      obtain rfl := Except.ok.inj hstart
      by_contra hmore
      have hpos : 0 < rangeCount req := Nat.succ_pos _
      -- two ranges or more: the first two trims of the order are enough
      match order, horder, hlength, hrun with
      | [], _, hlength, _ => exact absurd hlength (Nat.ne_of_lt hpos)
      | [_], _, hlength, _ => exact hmore hlength.symm
      | i :: j :: rest, horder, _, hrun =>
        have hne : j ≠ i := fun heq => by
          have hnodup := horder.nodup_iff.mpr List.nodup_range
          rw [heq, List.nodup_cons] at hnodup
          exact hnodup.1 List.mem_cons_self
        rw [finish_twice (horder.mem_iff.mp List.mem_cons_self)
          (horder.mem_iff.mp (List.mem_cons_of_mem i List.mem_cons_self)) hne rfl
            (by omega)] at hrun
        cases hrun
    · rintro ⟨-, hone⟩
      rw [hone] at horder
      obtain rfl : order = [0] := List.perm_singleton.mp horder
      have hstart := @dmaDone_nvme req dev ns buffer hexecuted
      rw [hone] at hstart
      refine ⟨_, _, hstart, foldlM_finish_last (List.mem_range.mpr Nat.one_pos) rfl rfl, rfl, rfl,
        rfl, rfl, fun k hk => ?_⟩
      obtain rfl := Nat.lt_one_iff.mp hk
      exact Except.all_iff.mpr fun s hs => Except.ok.inj hs ▸ rfl

/-! ### Instances -/

/-- An attached namespace of one page. -/
def onePage : Target :=
  .nvme Subsystem.smallDevice
    { Namespace.new 1 ⟨8, 8, 4096, 0, 0, 0, 0, 512, ⟨0, 1⟩⟩ with attached := true }

/-- A deallocation, with the number of its ranges less one. -/
def deallocate (nr : BitVec 32) : SQEntryWrapper :=
  ⟨0x09, 0, 1, 0, 0, nr, 0x04, 0, 0, 1, 1, 0, 0, false⟩

theorem datasetManagement_lives_one :
    onePage.rejected? (deallocate 0) = none ∧ [0].Perm (List.range (rangeCount (deallocate 0))) ∧
      Lives onePage (deallocate 0) (fun _ => ⟨8, 0⟩) [0] :=
  ⟨rfl, List.Perm.refl _, (datasetManagement_lives_iff onePage (deallocate 0) (fun _ => ⟨8, 0⟩) [0]
    rfl (List.Perm.refl _)).mpr ⟨trivial, rfl⟩⟩

/-- With two ranges the second trim uses the context after its release. -/
theorem not_lives_two : onePage.rejected? (deallocate 1) = none ∧
    [0, 1].Perm (List.range (rangeCount (deallocate 1))) ∧
      ¬ Lives onePage (deallocate 1) (fun _ => ⟨4, 0⟩) [0, 1] := by
  refine ⟨rfl, List.Perm.refl _, ?_⟩
  rintro ⟨s, s', hstart, hrun, -⟩
  rw [onePage, dmaDone_nvme rfl] at hstart
  obtain rfl := Except.ok.inj hstart
  rw [finish_twice (List.mem_range.mpr (by decide)) (List.mem_range.mpr (by decide)) (by decide) rfl
    (by decide)] at hrun
  cases hrun

end Deallocation

end SimpleSSD.HIL.NVMe
