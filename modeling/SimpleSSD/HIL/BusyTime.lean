import SimpleSSD.Lib.Intervals
import Mathlib.Data.List.Induction
import Mathlib.Logic.Function.Basic

/-!
# Busy times of the HIL (hil/hil.cc:184–197)

`updateBusyTime` keeps a busy time and the end of the last interval for reads, for writes and
for both. It is given the intervals in the order in which they begin: `doRead` and `doWrite` run
at the ticks at which the requests begin. An interval adds what it has behind the last end, so
that the busy time is the number of ticks in the union of the intervals. It is never greater
than the last end, and the 64 bits of the counters are enough.

The counters of requests and bytes in the same record are left out.
-/

namespace SimpleSSD.HIL

open Intervals

/-- The kinds of requests that are counted. -/
inductive BusyKind where
  | read | write
  deriving DecidableEq, Repr

/-- The index of a kind in `busy`; index 2 is for both. -/
def BusyKind.idx : BusyKind → Fin 3
  | .read => 0
  | .write => 1

/-- From `beginAt` on and up to `tick`, as `doRead` and `doWrite` have them: the tick goes only
forward. -/
structure BusyInterval where
  beginAt : UInt64
  tick : UInt64
  le : beginAt ≤ tick
  deriving DecidableEq

/-- The ticks as numbers. -/
def BusyInterval.span (i : BusyInterval) : Nat × Nat := (i.beginAt.toNat, i.tick.toNat)

/-- `stat`. -/
structure BusyStat where
  busy : Fin 3 → UInt64
  lastBusyAt : Fin 3 → UInt64

namespace BusyStat

/-- `memset(&stat, 0, sizeof(stat))`. -/
def zero : BusyStat := ⟨fun _ => 0, fun _ => 0⟩

/-- `updateBusyTime`. -/
def updateBusyTime (s : BusyStat) (idx : Fin 3) (beginAt tick : UInt64) : BusyStat :=
  if tick ≤ s.lastBusyAt idx then s
  else
    let busy :=
      if beginAt < s.lastBusyAt idx then s.busy idx + (tick - s.lastBusyAt idx)
      else s.busy idx + (tick - beginAt)
    { busy := Function.update s.busy idx busy
      lastBusyAt := Function.update s.lastBusyAt idx tick }

/-- What `doRead` and `doWrite` record of a request (hil.cc:59–60 and 93–94). -/
def record (s : BusyStat) (call : BusyKind × BusyInterval) : BusyStat :=
  (s.updateBusyTime call.1.idx call.2.beginAt call.2.tick).updateBusyTime 2 call.2.beginAt
    call.2.tick

/-- The requests one after the other. -/
def run (calls : List (BusyKind × BusyInterval)) : BusyStat := calls.foldl record zero

/-- The intervals of the requests that have the property. -/
def spans (p : BusyKind → Bool) (calls : List (BusyKind × BusyInterval)) : List (Nat × Nat) :=
  (calls.filter fun call => p call.1).map fun call => call.2.span

/-! ### One interval -/

section Update

variable {s : BusyStat} {idx : Fin 3} {l : List (Nat × Nat)} {i : BusyInterval}
  {calls : List (BusyKind × BusyInterval)}

/-- The counters of an index have measured the intervals. -/
def Counts (s : BusyStat) (idx : Fin 3) (l : List (Nat × Nat)) : Prop :=
  Measured l (s.busy idx).toNat (s.lastBusyAt idx).toNat

theorem updateBusyTime_other {idx' : Fin 3} (hne : idx' ≠ idx) (beginAt tick : UInt64)
    (h : s.Counts idx' l) : (s.updateBusyTime idx beginAt tick).Counts idx' l := by
  unfold updateBusyTime
  split
  · exact h
  · unfold Counts
    dsimp only
    rw [Function.update_of_ne hne, Function.update_of_ne hne]
    exact h

/-- An interval of the index that begins no earlier than those before it. -/
theorem Counts.updateBusyTime (h : s.Counts idx l) (hbegin : ∀ e ∈ l, e.1 ≤ i.beginAt.toNat) :
    (s.updateBusyTime idx i.beginAt i.tick).Counts idx (l ++ [i.span]) := by
  have hmeasured := Measured.concat (e := i.span) h hbegin
  have hle := UInt64.le_iff_toNat_le.mp i.le
  have hbound := h.le
  have htick := i.tick.toNat_lt
  unfold BusyStat.updateBusyTime
  split
  · next hskip =>
    -- all of it lies in front of the last end
    have hskip := UInt64.le_iff_toNat_le.mp hskip
    have hnothing : i.tick.toNat - max i.beginAt.toNat (s.lastBusyAt idx).toNat = 0 := by omega
    have hlast : max (s.lastBusyAt idx).toNat i.tick.toNat = (s.lastBusyAt idx).toNat := by omega
    dsimp only [BusyInterval.span] at hmeasured
    rw [hnothing, hlast, Nat.add_zero] at hmeasured
    exact hmeasured
  · next hlate =>
    have hlate : (s.lastBusyAt idx).toNat < i.tick.toNat :=
      Nat.lt_of_not_le fun hle' => hlate (UInt64.le_iff_toNat_le.mpr hle')
    have hlast : max (s.lastBusyAt idx).toNat i.tick.toNat = i.tick.toNat := by omega
    -- the sum is at most the new end, so that it does not wrap around
    have hsum : (if i.beginAt < s.lastBusyAt idx then s.busy idx + (i.tick - s.lastBusyAt idx)
        else s.busy idx + (i.tick - i.beginAt)).toNat =
        (s.busy idx).toNat + (i.tick.toNat - max i.beginAt.toNat (s.lastBusyAt idx).toNat) := by
      split
      · next hlt =>
        have hlt := UInt64.lt_iff_toNat_lt.mp hlt
        rw [UInt64.toNat_add, UInt64.toNat_sub_of_le _ _ (UInt64.le_iff_toNat_le.mpr hlate.le),
          Nat.mod_eq_of_lt (by omega)]
        omega
      · next hge =>
        have hge : (s.lastBusyAt idx).toNat ≤ i.beginAt.toNat :=
          Nat.le_of_not_lt fun hlt => hge (UInt64.lt_iff_toNat_lt.mpr hlt)
        rw [UInt64.toNat_add, UInt64.toNat_sub_of_le _ _ i.le, Nat.mod_eq_of_lt (by omega)]
        omega
    unfold Counts
    dsimp only
    rw [Function.update_self, Function.update_self, hsum]
    dsimp only [BusyInterval.span] at hmeasured
    rw [hlast] at hmeasured
    exact hmeasured

/-! ### Requests -/

theorem spans_concat (p : BusyKind → Bool) (call : BusyKind × BusyInterval) :
    spans p (calls ++ [call]) = spans p calls ++ if p call.1 then [call.2.span] else [] := by
  unfold spans
  rw [List.filter_append, List.map_append]
  split
  · next hp => simp [hp]
  · next hp => simp [hp]

/-- A request extends the intervals of its kind and those of both kinds. -/
theorem record_counts {call : BusyKind × BusyInterval}
    (hbegin : ∀ c ∈ calls, c.2.beginAt ≤ call.2.beginAt)
    (hkind : ∀ k : BusyKind, s.Counts k.idx (spans (· = k) calls))
    (hboth : s.Counts 2 (spans (fun _ => true) calls)) :
    (∀ k : BusyKind, (s.record call).Counts k.idx (spans (· = k) (calls ++ [call]))) ∧
      (s.record call).Counts 2 (spans (fun _ => true) (calls ++ [call])) := by
  have hearlier : ∀ p, ∀ e ∈ spans p calls, e.1 ≤ call.2.beginAt.toNat := by
    intro p e he
    obtain ⟨c, hc, rfl⟩ := List.mem_map.mp he
    exact UInt64.le_iff_toNat_le.mp (hbegin c (List.mem_of_mem_filter hc))
  have hidx : ∀ k : BusyKind, k.idx ≠ 2 := by
    intro k
    cases k <;> decide
  constructor
  · intro k
    rw [spans_concat]
    refine updateBusyTime_other (hidx k) _ _ ?_
    by_cases hk : call.1 = k
    · subst hk
      rw [if_pos (decide_eq_true rfl)]
      exact (hkind call.1).updateBusyTime (hearlier _)
    · rw [if_neg (by simpa using hk), List.append_nil]
      refine updateBusyTime_other (fun heq => hk ?_) _ _ (hkind k)
      -- the two kinds have different indices
      cases k <;> cases hcall : call.1 <;> simp_all [BusyKind.idx]
  · rw [spans_concat, if_pos rfl]
    exact (updateBusyTime_other (hidx call.1).symm _ _ hboth).updateBusyTime (hearlier _)

theorem run_counts (h : calls.Pairwise fun a b => a.2.beginAt ≤ b.2.beginAt) :
    (∀ k : BusyKind, (run calls).Counts k.idx (spans (· = k) calls)) ∧
      (run calls).Counts 2 (spans (fun _ => true) calls) := by
  induction calls using List.reverseRecOn with
  | nil => exact ⟨fun _ => Measured.nil, Measured.nil⟩
  | append_singleton calls call ih =>
    obtain ⟨hcalls, -, hlast⟩ := List.pairwise_append.mp h
    obtain ⟨hkind, hboth⟩ := ih hcalls
    rw [run, List.foldl_append]
    exact record_counts (fun c hc => hlast c hc call List.mem_cons_self) hkind hboth

end Update

/-- The busy time of each kind is the measure of the union of its intervals, and the total busy
time that of the union of all of them. -/
theorem busy_eq_measure {calls : List (BusyKind × BusyInterval)}
    (h : calls.Pairwise fun a b => a.2.beginAt ≤ b.2.beginAt) :
    (∀ k : BusyKind, ((run calls).busy k.idx).toNat =
        (union ((calls.filter fun call => call.1 = k).map fun call => call.2.span)).card) ∧
      ((run calls).busy 2).toNat = (union (calls.map fun call => call.2.span)).card := by
  obtain ⟨hkind, hboth⟩ := run_counts h
  refine ⟨fun k => (hkind k).card, ?_⟩
  rw [hboth.card, spans, List.filter_true]

/-- A read within a read, a write that overlaps both and a later read. -/
def overlapping : List (BusyKind × BusyInterval) :=
  [(.read, ⟨0, 10, by decide⟩), (.read, ⟨2, 5, by decide⟩), (.write, ⟨8, 15, by decide⟩),
    (.read, ⟨20, 30, by decide⟩)]

theorem busy_eq_measure_overlapping :
    (∀ k : BusyKind, ((run overlapping).busy k.idx).toNat =
        (union ((overlapping.filter fun call => call.1 = k).map fun call => call.2.span)).card) ∧
      ((run overlapping).busy 2).toNat = (union (overlapping.map fun call => call.2.span)).card :=
  busy_eq_measure (by decide)

example : ((run overlapping).busy 0, (run overlapping).busy 1, (run overlapping).busy 2) =
    (20, 7, 25) := by decide

end BusyStat

end SimpleSSD.HIL
