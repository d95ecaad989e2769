import Mathlib.Algebra.Ring.Nat
import Mathlib.Order.Defs.LinearOrder
import Mathlib.Order.Lattice
import Mathlib.Data.List.Basic

/-!
# A server that takes its jobs in turn

One server works on one job at a time, in the order in which they come. A job starts when it
has arrived and the server is free, and how long it takes may depend on its start. The
services follow one another: each starts no earlier than the one before it has finished.
-/

universe u v

namespace SingleServer

/-- A job that is served. -/
structure Service (J : Type u) (T : Type v) where
  job : J
  startedAt : T
  finishedAt : T
  deriving DecidableEq, Repr

/-- When a job arrives, and when it finishes if it starts at a given time. -/
structure Discipline (J : Type u) (T : Type v) [LinearOrder T] where
  arrival : J → T
  finish : T → J → T
  le_finish : ∀ start j, start ≤ finish start j

namespace Discipline

variable {J : Type u} {T : Type v} [LinearOrder T] (d : Discipline J T)

/-- The service of a job by a server that is free from `free` on. -/
def serve (free : T) (j : J) : Service J T :=
  ⟨j, max free (d.arrival j), d.finish (max free (d.arrival j)) j⟩

/-- The services of the jobs in turn. -/
def services : T → List J → List (Service J T)
  | _, [] => []
  | free, j :: jobs => d.serve free j :: services (d.serve free j).finishedAt jobs

/-- The time from which on the server is free behind the jobs. -/
def freeAt : T → List J → T
  | free, [] => free
  | free, j :: jobs => freeAt (d.serve free j).finishedAt jobs

variable {d} {free : T} {j : J} {jobs : List J}

theorem services_concat (jobs : List J) (j : J) (free : T) :
    d.services free (jobs ++ [j]) = d.services free jobs ++ [d.serve (d.freeAt free jobs) j] := by
  induction jobs generalizing free with
  | nil => rfl
  | cons k jobs ih => exact congrArg (List.cons _) (ih _)

theorem freeAt_concat (jobs : List J) (j : J) (free : T) :
    d.freeAt free (jobs ++ [j]) = (d.serve (d.freeAt free jobs) j).finishedAt := by
  induction jobs generalizing free with
  | nil => rfl
  | cons k jobs ih => exact ih _

theorem free_le_startedAt (d : Discipline J T) (free : T) (j : J) :
    free ≤ (d.serve free j).startedAt :=
  le_max_left _ _

theorem startedAt_le_finishedAt (d : Discipline J T) (free : T) (j : J) :
    (d.serve free j).startedAt ≤ (d.serve free j).finishedAt :=
  d.le_finish _ _

/-- The services are those of their jobs, each by a server that is free from some time on. -/
theorem exists_serve {s : Service J T} (h : s ∈ d.services free jobs) :
    ∃ t, free ≤ t ∧ s = d.serve t s.job := by
  induction jobs generalizing free with
  | nil => cases h
  | cons k jobs ih =>
    rcases List.mem_cons.mp h with rfl | h
    · exact ⟨free, le_refl free, rfl⟩
    · obtain ⟨t, hle, hs⟩ := ih h
      exact ⟨t, ((d.free_le_startedAt free k).trans (d.startedAt_le_finishedAt free k)).trans hle,
        hs⟩

/-- No two services overlap. -/
theorem pairwise_services (d : Discipline J T) (free : T) (jobs : List J) :
    (d.services free jobs).Pairwise fun a b => a.finishedAt ≤ b.startedAt := by
  induction jobs generalizing free with
  | nil => exact .nil
  | cons k jobs ih =>
    refine .cons (fun b hb => ?_) (ih _)
    obtain ⟨t, hle, hb⟩ := exists_serve hb
    rw [hb]
    exact hle.trans (d.free_le_startedAt t b.job)

/-- The server is free from the beginning on, or from the end of some service on. -/
theorem startedAt_cases {before after : List (Service J T)} {a : Service J T}
    (h : d.services free jobs = before ++ a :: after) :
    a.startedAt = d.arrival a.job ∨ a.startedAt = free ∨
      ∃ b ∈ before, b.finishedAt = a.startedAt := by
  induction before generalizing free jobs with
  | nil =>
    cases jobs with
    | nil => cases h
    | cons k jobs =>
      obtain ⟨rfl, -⟩ := List.cons.inj h
      rcases le_total free (d.arrival k) with hle | hle
      · exact .inl (max_eq_right hle)
      · exact .inr (.inl (max_eq_left hle))
  | cons b before ih =>
    cases jobs with
    | nil => cases h
    | cons k jobs =>
      obtain ⟨rfl, hrest⟩ := List.cons.inj h
      rcases ih hrest with harrival | hfree | ⟨c, hc, heq⟩
      · exact .inl harrival
      · exact .inr (.inr ⟨_, List.mem_cons_self, hfree.symm⟩)
      · exact .inr (.inr ⟨c, List.mem_cons_of_mem _ hc, heq⟩)

end Discipline

/-- In no window of time is more served than there is time. -/
theorem sum_durations_le {J : Type u} {l : List (Service J Nat)}
    (hapart : l.Pairwise fun a b => a.finishedAt ≤ b.startedAt)
    (hproper : ∀ a ∈ l, a.startedAt ≤ a.finishedAt) {b e : Nat} (hbe : b ≤ e)
    (hin : ∀ a ∈ l, b ≤ a.startedAt ∧ a.finishedAt ≤ e) :
    (l.map fun a => a.finishedAt - a.startedAt).sum ≤ e - b := by
  induction l generalizing b with
  | nil => exact Nat.zero_le _
  | cons a l ih =>
    obtain ⟨hbehind, hl⟩ := List.pairwise_cons.mp hapart
    obtain ⟨ha, hproper⟩ := List.forall_mem_cons.mp hproper
    obtain ⟨⟨hb, he⟩, hin⟩ := List.forall_mem_cons.mp hin
    -- the others are served in what is left behind the first
    have hrest := ih hl hproper he fun c hc => ⟨hbehind c hc, (hin c hc).2⟩
    rw [List.map_cons, List.sum_cons]
    omega

end SingleServer
