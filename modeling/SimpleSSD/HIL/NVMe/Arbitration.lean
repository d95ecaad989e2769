import Mathlib.Algebra.BigOperators.Group.Finset.Basic
import Mathlib.Algebra.Group.Action.Defs
import Mathlib.Algebra.Order.BigOperators.Group.Finset
import Mathlib.Logic.Function.Basic
import SimpleSSD.Lib.Fifo
import SimpleSSD.Lib.Run
import SimpleSSD.HIL.NVMe.Ring

/-!
# Arbitration (hil/nvme/controller.cc:1376–1541 and 1618–1655)

`collectSQueue` fetches the pending entries of the submission queues, in plain round-robin
rounds or, in the weighted mode, first those of the admin queue, then those of the urgent
queues, and then in rounds over the priorities. The last loop of such a round, for the
low-priority queues, asks for medium priority like the one before it, so a low-priority
queue is never looked at.

The order of the fetches is the list `fetched`; the reads in flight are only counted by
the source, to continue when the last one has ended.
-/

namespace SimpleSSD.HIL.NVMe

/-- `ARBITRATION`. -/
inductive Arbitration where
  | roundRobin | weightedRoundRobin | other
  deriving DecidableEq, Repr

/-- What `collectSQueue` works on: the queues, and the slots read so far. -/
structure Collector where
  ppSQueue : Nat → Option SQueue
  fetched : List (Nat × Nat)

namespace Collector

/-- `checkQueue` with `getData`. -/
def checkQueue (c : Collector) (i : Nat) (pQueue : SQueue) : Bool × Collector :=
  if 0 < pQueue.getItemCount then
    (true, {
      ppSQueue := Function.update c.ppSQueue i (some { pQueue with toQueue := pQueue.advance })
      fetched := c.fetched ++ [(i, pQueue.head)] })
  else (false, c)

/-- One queue of a round over the queues that `sel` selects, with the count of updates. -/
def visit (sel : SQueue → Bool) (acc : Collector × Nat) (i : Nat) : Collector × Nat :=
  match acc.1.ppSQueue i with
  | none => acc
  | some pQueue =>
    if sel pQueue then
      let (hit, c) := acc.1.checkQueue i pQueue
      (c, if hit then (acc.2 + 1) % 2 ^ 16 else acc.2)
    else acc

/-- The rounds over the queues `idx` (controller.cc:1402–1421 and 1441–1463). -/
def rounds (sel : SQueue → Bool) (idx : List Nat) : Nat → Collector → Except Fault Collector
  | 0, _ => .error (.diverges "Controller::collectSQueue")
  | fuel + 1, c =>
    let (c, updated) := idx.foldl (visit sel) (c, 0)
    if updated = 0 then .ok c else rounds sel idx fuel c

/-- The loop over the admin queue (controller.cc:1429–1439). -/
def adminRounds : Nat → Collector → Except Fault Collector
  | 0, _ => .error (.diverges "Controller::collectSQueue")
  | fuel + 1, c =>
    match c.ppSQueue 0 with
    | none => .error (.badAccess "ppSQueue[0]")
    | some pQueue =>
      let (hit, c) := c.checkQueue 0 pQueue
      if hit then adminRounds fuel c else .ok c

/-- The counters of a weighted round. -/
structure Counters where
  updated : Nat
  total_updated : Nat

/-- One priority of a weighted round (controller.cc:1467–1505): it ends when `updated` is
the weight. -/
def weightedPass (priority : Priority) (weight : Nat) :
    List Nat → Collector × Counters → Collector × Counters
  | [], acc => acc
  | i :: rest, (c, n) =>
    match c.ppSQueue i with
    | none => weightedPass priority weight rest (c, n)
    | some pQueue =>
      if pQueue.priority = priority then
        let (hit, c) := c.checkQueue i pQueue
        if hit then
          let n := ⟨(n.updated + 1) % 2 ^ 16, (n.total_updated + 1) % 2 ^ 32⟩
          if n.updated = weight then (c, { n with updated := 0 })
          else weightedPass priority weight rest (c, n)
        else weightedPass priority weight rest (c, n)
      else weightedPass priority weight rest (c, n)

/-- The last loop of a weighted round (controller.cc:1507–1521), for one entry of the
low-priority queues. It asks for `PRIORITY_MEDIUM`. -/
def lastPass : List Nat → Collector × Counters → Collector × Counters
  | [], acc => acc
  | i :: rest, (c, n) =>
    match c.ppSQueue i with
    | none => lastPass rest (c, n)
    | some pQueue =>
      if pQueue.priority = .medium then
        let (hit, c) := c.checkQueue i pQueue
        if hit then (c, { n with total_updated := (n.total_updated + 1) % 2 ^ 32 })
        else lastPass rest (c, n)
      else lastPass rest (c, n)

/-- The weighted rounds (controller.cc:1463–1529). -/
def weightedRounds (wrrHigh wrrMedium : Nat) (idx : List Nat) :
    Nat → Collector × Nat → Except Fault Collector
  | 0, _ => .error (.diverges "Controller::collectSQueue")
  | fuel + 1, (c, updated) =>
    let acc := weightedPass .high wrrHigh idx (c, ⟨updated, 0⟩)
    let acc := weightedPass .medium wrrMedium idx acc
    let (c, n) := lastPass idx acc
    if n.total_updated = 0 then .ok c
    else weightedRounds wrrHigh wrrMedium idx fuel (c, n.updated)

/-- `collectSQueue` of a controller that is ready. -/
def collectSQueue (arbitration : Arbitration) (wrrHigh wrrMedium sqsize : Nat) (c : Collector) :
    Except Fault Collector :=
  match arbitration with
  | .roundRobin => rounds (fun _ => true) (List.range sqsize) (2 ^ 64) c
  | .weightedRoundRobin => do
    let c ← adminRounds (2 ^ 64) c
    let c ← rounds (fun q => q.priority = .urgent) (List.range' 1 (sqsize - 1)) (2 ^ 64) c
    weightedRounds wrrHigh wrrMedium (List.range' 1 (sqsize - 1)) (2 ^ 64) (c, 0)
  | .other => .error (.panic "Controller::collectSQueue" "Invalid arbitration method")

/-! ### What a fetch does -/

/-- The collector behind a fetch. -/
def fetch (c : Collector) (i : Nat) (q : SQueue) : Collector where
  ppSQueue := Function.update c.ppSQueue i (some { q with toQueue := q.advance })
  fetched := c.fetched ++ [(i, q.head)]

/-- `n` entries have been fetched, each of a queue that `sel` selects and that has one. -/
inductive Reads (sel : Nat → SQueue → Prop) (c : Collector) : Nat → Collector → Prop
  | refl : Reads sel c 0 c
  | fetch {n : Nat} {c' : Collector} {i : Nat} {q : SQueue} (h : Reads sel c n c')
      (hq : c'.ppSQueue i = some q) (hsel : sel i q) (hpos : 0 < q.getItemCount) :
      Reads sel c (n + 1) (c'.fetch i q)

/-- None of the selected queues has a pending entry. -/
def Idle (sel : Nat → SQueue → Prop) (c : Collector) : Prop :=
  ∀ i q, c.ppSQueue i = some q → sel i q → q.getItemCount = 0

section Reads

variable {n m : Nat} {sel sel' : Nat → SQueue → Prop} {c c' c'' : Collector} {i : Nat}
  {q : SQueue}

theorem fetch_self (c : Collector) (i : Nat) (q : SQueue) :
    (c.fetch i q).ppSQueue i = some { q with toQueue := q.advance } :=
  Function.update_self _ _ _

theorem fetch_of_ne (c : Collector) (q : SQueue) {j : Nat} (h : j ≠ i) :
    (c.fetch i q).ppSQueue j = c.ppSQueue j :=
  Function.update_of_ne h _ _

theorem checkQueue_hit (hpos : 0 < q.getItemCount) : c.checkQueue i q = (true, c.fetch i q) :=
  if_pos hpos

theorem checkQueue_idle (h : q.getItemCount = 0) : c.checkQueue i q = (false, c) :=
  if_neg (by omega)

theorem Reads.trans (h : Reads sel c n c') (h' : Reads sel c' m c'') : Reads sel c (n + m) c'' := by
  induction h' with
  | refl => exact h
  | fetch _ hq hsel hpos ih => exact .fetch ih hq hsel hpos

theorem Reads.mono (h : Reads sel c n c') (hsel : ∀ i q, sel i q → sel' i q) :
    Reads sel' c n c' := by
  induction h with
  | refl => exact .refl
  | fetch _ hq hs hpos ih => exact .fetch ih hq (hsel _ _ hs) hpos

theorem Reads.eq_of_zero (h : Reads sel c 0 c') : c' = c := by
  cases h
  rfl

theorem Reads.priority (h : Reads sel c n c') (j : Nat) :
    (c'.ppSQueue j).map SQueue.priority = (c.ppSQueue j).map SQueue.priority := by
  induction h with
  | refl => rfl
  | @fetch _ _ i q _ hq _ _ ih =>
    rcases eq_or_ne j i with rfl | hne
    · rw [fetch_self, ← ih, hq]
      rfl
    · rw [fetch_of_ne _ _ hne, ih]

/-- A queue that is not selected is left alone. -/
theorem Reads.others (h : Reads sel c n c') (hi : ∀ q, c.ppSQueue i = some q → ¬ sel i q) :
    c'.ppSQueue i = c.ppSQueue i := by
  induction h with
  | refl => rfl
  | @fetch _ _ j q _ hq hsel _ ih =>
    rcases eq_or_ne i j with rfl | hne
    · exact absurd hsel (hi q (ih ▸ hq))
    · rw [fetch_of_ne _ _ hne, ih]

/-- Queues that are not touched stay empty. -/
theorem Reads.keeps_idle (h : Reads sel c n c') (hidle : c.Idle sel')
    (happart : ∀ i q q', q'.priority = q.priority → sel' i q → ¬ sel i q') : c'.Idle sel' := by
  intro i q hq hs
  have hlive := (h.priority i).symm
  rw [hq] at hlive
  obtain ⟨q₀, hq₀, heq⟩ := Option.map_eq_some_iff.mp hlive
  rw [h.others fun q' hq' => happart i q q' (Option.some.inj (hq'.symm.trans hq₀) ▸ heq) hs] at hq
  exact hidle i q hq hs

/-- What a part of a round has done: `n` fetches, and with none of them the queues that it
looked at have nothing to fetch. -/
structure Pass (sel : Nat → SQueue → Prop) (c c' : Collector) (n : Nat) : Prop where
  reads : Reads sel c n c'
  idle : n = 0 → c.Idle sel

theorem Pass.nil (h : c.Idle sel) : Pass sel c c 0 := ⟨.refl, fun _ => h⟩

/-- Some fetches, and at least one of them. -/
theorem Reads.pass (h : Reads sel c n c') (hn : 0 < n) : Pass sel c c' n :=
  ⟨h, fun hzero => by omega⟩

theorem Pass.trans (h : Pass sel c c' n) (h' : Pass sel' c' c'' m) :
    Pass (fun i q => sel i q ∨ sel' i q) c c'' (n + m) := by
  refine ⟨(h.reads.mono fun i q => .inl).trans (h'.reads.mono fun i q => .inr), fun hzero => ?_⟩
  obtain ⟨rfl, rfl⟩ : n = 0 ∧ m = 0 := by omega
  obtain rfl := h.reads.eq_of_zero
  exact fun i q hq hs => hs.elim (h.idle rfl i q hq) (h'.idle rfl i q hq)

theorem Pass.congr (h : Pass sel c c' n) (hsel : ∀ i q, sel i q ↔ sel' i q) :
    Pass sel' c c' n :=
  ⟨h.reads.mono fun i q => (hsel i q).mp, fun hzero i q hq hs =>
    h.idle hzero i q hq ((hsel i q).mpr hs)⟩

/-- The queue is skipped. -/
theorem Pass.skip (h : Pass sel c c' n) {P : SQueue → Prop}
    (hskip : ∀ q, c.ppSQueue i = some q → ¬ P q) :
    Pass (fun j q => j = i ∧ P q ∨ sel j q) c c' n := by
  refine ⟨h.reads.mono fun _ _ => .inr, fun hzero j q hq hs => ?_⟩
  rcases hs with ⟨rfl, hP⟩ | hs
  · exact absurd hP (hskip q hq)
  · exact h.idle hzero j q hq hs

/-- The selection of a loop over `i :: idx`. -/
theorem selected_cons (P : SQueue → Prop) (i : Nat) (idx : List Nat) (j : Nat) (q : SQueue) :
    (j = i ∧ P q ∨ j ∈ idx ∧ P q) ↔ j ∈ i :: idx ∧ P q := by
  rw [List.mem_cons, or_and_right]

theorem Pass.skip_none (h : Pass sel c c' n) {P : SQueue → Prop} (hq : c.ppSQueue i = none) :
    Pass (fun j q => j = i ∧ P q ∨ sel j q) c c' n := by
  refine h.skip fun q hq' => ?_
  rw [hq] at hq'
  cases hq'

theorem Pass.skip_some (h : Pass sel c c' n) {P : SQueue → Prop} {q : SQueue}
    (hq : c.ppSQueue i = some q) (hP : ¬ P q) :
    Pass (fun j q => j = i ∧ P q ∨ sel j q) c c' n := by
  refine h.skip fun q' hq' => ?_
  rw [← Option.some.inj (hq.symm.trans hq')]
  exact hP

/-- The queue has nothing to fetch. -/
theorem Pass.empty (h : Pass sel c c' n) {P : SQueue → Prop} (hq : c.ppSQueue i = some q)
    (hzero : q.getItemCount = 0) : Pass (fun j q => j = i ∧ P q ∨ sel j q) c c' n := by
  refine ⟨h.reads.mono fun _ _ => .inr, fun hn j r hr hs => ?_⟩
  rcases hs with ⟨rfl, -⟩ | hs
  · obtain rfl := Option.some.inj (hq.symm.trans hr)
    exact hzero
  · exact h.idle hn j r hr hs

end Reads

/-! ### The loops -/

/-- How a loop ends: with the selected queues empty, or not before `fuel` fetches. -/
def Ends (sel : Nat → SQueue → Prop) (fuel : Nat) (c : Collector) :
    Except Fault Collector → Prop
  | .ok c' => c'.Idle sel ∧ ∃ n, Reads sel c n c'
  | .error fault => fault = .diverges "Controller::collectSQueue" ∧
      ∃ c' n, fuel ≤ n ∧ Reads sel c n c'

section Loops

variable {n m fuel : Nat} {sel : Nat → SQueue → Prop} {c c' : Collector} {i : Nat}
  {idx : List Nat} {r : Except Fault Collector}

/-- The fetches of a round count for the rounds behind it. -/
theorem Ends.after (h : Ends sel fuel c' r) (hreads : Reads sel c n c') (hle : m ≤ n + fuel) :
    Ends sel m c r := by
  cases r with
  | ok c'' =>
    obtain ⟨hidle, k, hrest⟩ := h
    exact ⟨hidle, _, hreads.trans hrest⟩
  | error fault =>
    obtain ⟨hfault, c'', k, hk, hrest⟩ := h
    exact ⟨hfault, c'', _, by omega, hreads.trans hrest⟩

theorem Ends.mono {sel' : Nat → SQueue → Prop} {fault : Fault}
    (h : Ends sel fuel c (.error fault)) (hsel : ∀ i q, sel i q → sel' i q) :
    Ends sel' fuel c (.error fault) := by
  obtain ⟨hfault, c', k, hk, hreads⟩ := h
  exact ⟨hfault, c', k, hk, hreads.mono hsel⟩

/-- A queue of a round. -/
theorem visit_spec (sel : SQueue → Bool) (c : Collector) (i : Nat) {updated : Nat}
    (hupdated : updated < 2 ^ 16) :
    ∃ n ≤ 1, (visit sel (c, updated) i).2 = (updated + n) % 2 ^ 16 ∧
      Pass (fun j q => j = i ∧ sel q = true) c (visit sel (c, updated) i).1 n := by
  rw [visit]
  dsimp only
  cases hq : c.ppSQueue i with
  | none =>
    refine ⟨0, Nat.zero_le 1, (Nat.mod_eq_of_lt hupdated).symm, Pass.nil fun j r hr hj => ?_⟩
    rw [hj.1, hq] at hr
    cases hr
  | some q =>
    dsimp only
    split
    · next hsel =>
      rcases Nat.eq_zero_or_pos q.getItemCount with hzero | hpos
      · rw [checkQueue_idle hzero]
        refine ⟨0, Nat.zero_le 1, (Nat.mod_eq_of_lt hupdated).symm, Pass.nil fun j r hr hj => ?_⟩
        rw [hj.1, hq] at hr
        rw [← Option.some.inj hr]
        exact hzero
      · rw [checkQueue_hit hpos]
        exact ⟨1, Nat.le_refl 1, rfl,
          (Reads.fetch .refl hq ⟨rfl, hsel⟩ hpos).pass Nat.one_pos⟩
    · next hsel =>
      refine ⟨0, Nat.zero_le 1, (Nat.mod_eq_of_lt hupdated).symm, Pass.nil fun j r hr hj => ?_⟩
      rw [hj.1, hq] at hr
      rw [Option.some.inj hr] at hsel
      exact absurd hj.2 hsel

/-- A round. -/
theorem foldl_visit_spec (sel : SQueue → Bool) (idx : List Nat) (c : Collector) {updated : Nat}
    (hupdated : updated < 2 ^ 16) :
    ∃ n ≤ idx.length, (idx.foldl (visit sel) (c, updated)).2 = (updated + n) % 2 ^ 16 ∧
      Pass (fun j q => j ∈ idx ∧ sel q = true) c (idx.foldl (visit sel) (c, updated)).1 n := by
  induction idx generalizing c updated with
  | nil =>
    exact ⟨0, Nat.le_refl 0, (Nat.mod_eq_of_lt hupdated).symm, Pass.nil fun _ _ _ h => by
      cases h.1⟩
  | cons i idx ih =>
    obtain ⟨n, hn, hcount, hpass⟩ := visit_spec sel c i hupdated
    have hlt : (visit sel (c, updated) i).2 < 2 ^ 16 := hcount ▸ Nat.mod_lt _ (by decide)
    obtain ⟨m, hm, hcount', hpass'⟩ := ih (visit sel (c, updated) i).1 hlt
    rw [List.foldl_cons]
    refine ⟨n + m, by rw [List.length_cons]; omega, ?_, (hpass.trans hpass').congr fun j q => ?_⟩
    · rw [hcount', hcount, Nat.mod_add_mod, Nat.add_assoc]
    · exact selected_cons (fun q => sel q = true) i idx j q

/-- The rounds end with the selected queues empty, if they end. -/
theorem rounds_ends (sel : SQueue → Bool) (hlength : idx.length < 2 ^ 16) (fuel : Nat)
    (c : Collector) :
    Ends (fun j q => j ∈ idx ∧ sel q = true) fuel c (rounds sel idx fuel c) := by
  induction fuel generalizing c with
  | zero => exact ⟨rfl, c, 0, Nat.le_refl 0, .refl⟩
  | succ fuel ih =>
    obtain ⟨n, hn, hcount, hpass⟩ := foldl_visit_spec sel idx c (show 0 < 2 ^ 16 by decide)
    rw [Nat.zero_add, Nat.mod_eq_of_lt (by omega)] at hcount
    rw [rounds]
    generalize idx.foldl (visit sel) (c, 0) = r at *
    obtain ⟨c₁, updated⟩ := r
    dsimp only at hcount hpass ⊢
    subst hcount
    split
    · next hzero =>
      have hidle := hpass.idle hzero
      subst hzero
      obtain rfl := hpass.reads.eq_of_zero
      exact ⟨hidle, 0, .refl⟩
    · next hne => exact (ih c₁).after hpass.reads (by omega)

/-- The loop over the admin queue ends with it empty, if it ends. -/
theorem adminRounds_ends (fuel : Nat) {c : Collector} {q : SQueue} (hq : c.ppSQueue 0 = some q) :
    Ends (fun j _ => j = 0) fuel c (adminRounds fuel c) := by
  induction fuel generalizing c q with
  | zero => exact ⟨rfl, c, 0, Nat.le_refl 0, .refl⟩
  | succ fuel ih =>
    rw [adminRounds, hq]
    dsimp only
    rcases Nat.eq_zero_or_pos q.getItemCount with hzero | hpos
    · rw [checkQueue_idle hzero]
      refine ⟨fun j r hr hj => ?_, 0, .refl⟩
      rw [hj, hq] at hr
      rw [← Option.some.inj hr]
      exact hzero
    · rw [checkQueue_hit hpos]
      exact (ih (fetch_self c 0 q)).after
        (show Reads (fun j _ => j = 0) c 1 (c.fetch 0 q) from .fetch .refl hq rfl hpos) (by omega)

theorem adminRounds_none (h : c.ppSQueue 0 = none) (fuel : Nat) (hfuel : 0 < fuel) :
    adminRounds fuel c = .error (.badAccess "ppSQueue[0]") := by
  cases fuel with
  | zero => omega
  | succ fuel => rw [adminRounds, h]

/-- One priority of a weighted round. The weight only tells where it ends. -/
theorem weightedPass_spec (priority : Priority) (weight : Nat) (idx : List Nat) (c : Collector)
    (k : Counters) (hk : k.total_updated < 2 ^ 32) :
    ∃ n ≤ idx.length,
      (weightedPass priority weight idx (c, k)).2.total_updated = (k.total_updated + n) % 2 ^ 32 ∧
      Pass (fun j q => j ∈ idx ∧ q.priority = priority) c
        (weightedPass priority weight idx (c, k)).1 n := by
  induction idx generalizing c k with
  | nil =>
    exact ⟨0, Nat.le_refl 0, (Nat.mod_eq_of_lt hk).symm, Pass.nil fun _ _ _ h => by cases h.1⟩
  | cons i idx ih =>
    have hmem := selected_cons (fun q => q.priority = priority) i idx
    rw [weightedPass]
    cases hq : c.ppSQueue i with
    | none =>
      obtain ⟨n, hn, hcount, hpass⟩ := ih c k hk
      exact ⟨n, by rw [List.length_cons]; omega, hcount, (hpass.skip_none hq).congr hmem⟩
    | some q =>
      dsimp only
      split
      · next hpriority =>
        rcases Nat.eq_zero_or_pos q.getItemCount with hzero | hpos
        · rw [checkQueue_idle hzero]
          obtain ⟨n, hn, hcount, hpass⟩ := ih c k hk
          exact ⟨n, by rw [List.length_cons]; omega, hcount, (hpass.empty hq hzero).congr hmem⟩
        · rw [checkQueue_hit hpos]
          dsimp only
          rw [if_pos rfl]
          have hfetch : Reads (fun j q => j ∈ i :: idx ∧ q.priority = priority) c 1 (c.fetch i q) :=
            .fetch .refl hq ⟨List.mem_cons_self, hpriority⟩ hpos
          split
          · -- the weight is used up, and the pass ends with this fetch
            exact ⟨1, by rw [List.length_cons]; omega, rfl, hfetch.pass Nat.one_pos⟩
          · obtain ⟨n, hn, hcount, hpass⟩ := ih (c.fetch i q)
              ⟨(k.updated + 1) % 2 ^ 16, (k.total_updated + 1) % 2 ^ 32⟩
              (Nat.mod_lt _ (by decide))
            refine ⟨1 + n, by rw [List.length_cons]; omega, ?_, Reads.pass (hfetch.trans
              (hpass.reads.mono fun j q h => ⟨List.mem_cons_of_mem i h.1, h.2⟩)) (by omega)⟩
            rw [hcount, Nat.mod_add_mod, Nat.add_assoc]
      · next hpriority =>
        obtain ⟨n, hn, hcount, hpass⟩ := ih c k hk
        exact ⟨n, by rw [List.length_cons]; omega, hcount,
          (hpass.skip_some hq hpriority).congr hmem⟩

/-- The last loop of a weighted round looks at the medium-priority queues once more. -/
theorem lastPass_spec (idx : List Nat) (c : Collector) (k : Counters)
    (hk : k.total_updated < 2 ^ 32) :
    ∃ n ≤ 1, (lastPass idx (c, k)).2.total_updated = (k.total_updated + n) % 2 ^ 32 ∧
      Pass (fun j q => j ∈ idx ∧ q.priority = .medium) c (lastPass idx (c, k)).1 n := by
  induction idx with
  | nil =>
    exact ⟨0, Nat.zero_le 1, (Nat.mod_eq_of_lt hk).symm, Pass.nil fun _ _ _ h => by cases h.1⟩
  | cons i idx ih =>
    have hmem := selected_cons (fun q => q.priority = .medium) i idx
    obtain ⟨n, hn, hcount, hpass⟩ := ih
    rw [lastPass]
    cases hq : c.ppSQueue i with
    | none =>
      exact ⟨n, hn, hcount, (hpass.skip_none hq).congr hmem⟩
    | some q =>
      dsimp only
      split
      · next hpriority =>
        rcases Nat.eq_zero_or_pos q.getItemCount with hzero | hpos
        · rw [checkQueue_idle hzero]
          exact ⟨n, hn, hcount, (hpass.empty hq hzero).congr hmem⟩
        · rw [checkQueue_hit hpos]
          dsimp only
          rw [if_pos rfl]
          exact ⟨1, Nat.le_refl 1, rfl,
            (Reads.fetch .refl hq ⟨List.mem_cons_self, hpriority⟩ hpos).pass Nat.one_pos⟩
      · next hpriority =>
        exact ⟨n, hn, hcount, (hpass.skip_some hq hpriority).congr hmem⟩

/-- The weighted rounds end with the queues of high and medium priority empty, if they end. -/
theorem weightedRounds_ends (wrrHigh wrrMedium : Nat) (hlength : idx.length < 2 ^ 16)
    (fuel : Nat) (c : Collector) (updated : Nat) :
    Ends (fun j q => j ∈ idx ∧ (q.priority = .high ∨ q.priority = .medium)) fuel c
      (weightedRounds wrrHigh wrrMedium idx fuel (c, updated)) := by
  induction fuel generalizing c updated with
  | zero => exact ⟨rfl, c, 0, Nat.le_refl 0, .refl⟩
  | succ fuel ih =>
    obtain ⟨n₁, hn₁, hcount₁, hpass₁⟩ :=
      weightedPass_spec .high wrrHigh idx c ⟨updated, 0⟩ (show 0 < 2 ^ 32 by decide)
    rw [weightedRounds]
    generalize weightedPass .high wrrHigh idx (c, ⟨updated, 0⟩) = r₁ at *
    obtain ⟨c₁, k₁⟩ := r₁
    obtain ⟨n₂, hn₂, hcount₂, hpass₂⟩ :=
      weightedPass_spec .medium wrrMedium idx c₁ k₁ (hcount₁ ▸ Nat.mod_lt _ (by decide))
    dsimp only at hcount₂ hpass₂ ⊢
    generalize weightedPass .medium wrrMedium idx (c₁, k₁) = r₂ at *
    obtain ⟨c₂, k₂⟩ := r₂
    obtain ⟨n₃, hn₃, hcount₃, hpass₃⟩ :=
      lastPass_spec idx c₂ k₂ (hcount₂ ▸ Nat.mod_lt _ (by decide))
    generalize lastPass idx (c₂, k₂) = r₃ at *
    obtain ⟨c₃, k₃⟩ := r₃
    have hpass : Pass (fun j q => j ∈ idx ∧ (q.priority = .high ∨ q.priority = .medium)) c c₃
        (n₁ + n₂ + n₃) :=
      ((hpass₁.trans hpass₂).trans hpass₃).congr fun j q => by
        simp only [← and_or_left, or_assoc, or_self]
    have htotal : k₃.total_updated = n₁ + n₂ + n₃ := by
      dsimp only at hcount₁ hcount₂ hcount₃
      omega
    dsimp only
    split
    · next hzero =>
      rw [htotal] at hzero
      have hidle := hpass.idle hzero
      rw [hzero] at hpass
      obtain rfl := hpass.reads.eq_of_zero
      exact ⟨hidle, 0, .refl⟩
    · next hne => exact (ih c₃ k₃.updated).after hpass.reads (by omega)

end Loops

/-! ### The whole collection -/

/-- The queues that the mode looks at. -/
def Looked (arbitration : Arbitration) (sqsize i : Nat) (q : SQueue) : Prop :=
  match arbitration with
  | .roundRobin => i < sqsize
  | .weightedRoundRobin => i < sqsize ∧ (i = 0 ∨ q.priority ≠ .low)
  | .other => False

/-- The mode is one of the two, and the weighted one has its admin queue. -/
def Starts (arbitration : Arbitration) (c : Collector) : Prop :=
  match arbitration with
  | .roundRobin => True
  | .weightedRoundRobin => (c.ppSQueue 0).isSome = true
  | .other => False

section Collect

variable {fuel n : Nat} {sel sel' sel'' : Nat → SQueue → Prop} {c c' : Collector} {i : Nat}
  {q : SQueue}

/-- A loop behind a loop, over other queues. -/
theorem Ends.bind {r : Except Fault Collector} {f : Collector → Except Fault Collector}
    (h : Ends sel fuel c r) (hf : ∀ c', Ends sel' fuel c' (f c'))
    (hsel : ∀ i q, sel'' i q ↔ sel i q ∨ sel' i q)
    (happart : ∀ i q q', q'.priority = q.priority → sel i q → ¬ sel' i q') :
    Ends sel'' fuel c (r.bind f) := by
  cases r with
  | error fault => exact h.mono fun i q hs => (hsel i q).mpr (.inl hs)
  | ok c₁ =>
    obtain ⟨hidle, n, hreads⟩ := h
    have hmono := hreads.mono fun i q hs => (hsel i q).mpr (.inl hs)
    have hrest := hf c₁
    show Ends sel'' fuel c (f c₁)
    cases hr : f c₁ with
    | error fault =>
      rw [hr] at hrest
      exact (hrest.mono fun i q hs => (hsel i q).mpr (.inr hs)).after hmono (Nat.le_add_left _ _)
    | ok c₂ =>
      rw [hr] at hrest
      obtain ⟨hidle', m, hreads'⟩ := hrest
      refine ⟨fun i q hq hs => ?_, n + m,
        hmono.trans (hreads'.mono fun i q hs => (hsel i q).mpr (.inr hs))⟩
      rcases (hsel i q).mp hs with hs | hs
      · exact hreads'.keeps_idle hidle happart i q hq hs
      · exact hidle' i q hq hs

/-- A collection ends with the queues empty that it looks at, if it ends. -/
theorem collectSQueue_ends (arbitration : Arbitration) (wrrHigh wrrMedium : Nat) {sqsize : Nat}
    (hpos : 0 < sqsize) (hsize : sqsize < 2 ^ 16) (hstarts : Starts arbitration c) :
    Ends (Looked arbitration sqsize) (2 ^ 64) c
      (collectSQueue arbitration wrrHigh wrrMedium sqsize c) := by
  have hlength : (List.range' 1 (sqsize - 1)).length < 2 ^ 16 := by
    rw [List.length_range']
    omega
  have hmem : ∀ i, i ∈ List.range' 1 (sqsize - 1) ↔ 0 < i ∧ i < sqsize := fun i => by
    rw [List.mem_range'_1]
    omega
  cases arbitration with
  | other => exact hstarts.elim
  | roundRobin =>
    have hends := rounds_ends (fun _ => true) (show (List.range sqsize).length < 2 ^ 16 by
      rw [List.length_range]
      exact hsize) (2 ^ 64) c
    simp only [List.mem_range, and_true] at hends
    exact hends
  | weightedRoundRobin =>
    obtain ⟨q, hq⟩ := Option.isSome_iff_exists.mp hstarts
    show Ends _ (2 ^ 64) c ((adminRounds (2 ^ 64) c).bind fun c =>
      (rounds (fun q => q.priority = .urgent) (List.range' 1 (sqsize - 1)) (2 ^ 64) c).bind fun c =>
        weightedRounds wrrHigh wrrMedium (List.range' 1 (sqsize - 1)) (2 ^ 64) (c, 0))
    generalize 2 ^ 64 = fuel
    -- behind the admin queue come the urgent queues, and then those of high and medium priority
    have hrest : ∀ c, Ends (fun i q => (0 < i ∧ i < sqsize) ∧ q.priority ≠ .low) fuel c
        ((rounds (fun q => q.priority = .urgent) (List.range' 1 (sqsize - 1)) fuel c).bind fun c =>
          weightedRounds wrrHigh wrrMedium (List.range' 1 (sqsize - 1)) fuel (c, 0)) := fun c => by
      refine (rounds_ends _ hlength fuel c).bind
        (fun c => weightedRounds_ends wrrHigh wrrMedium hlength fuel c 0) (fun i q => ?_)
        fun i q q' heq hs hs' => ?_
      · rw [hmem, decide_eq_true_eq]
        cases q.priority <;> simp
      · rw [decide_eq_true_eq] at hs
        rw [heq, hs.2] at hs'
        rcases hs'.2 with h | h <;> cases h
    refine (adminRounds_ends fuel hq).bind hrest (fun i q => ?_) fun i q q' _ hs hs' => ?_
    · show i < sqsize ∧ (i = 0 ∨ q.priority ≠ .low) ↔ _
      rcases Nat.eq_zero_or_pos i with rfl | hi
      · simp [hpos]
      · simp [hi, Nat.ne_of_gt hi]
    · omega

/-- The admin queue is missing, or the mode. -/
theorem not_ok_of_not_starts {arbitration : Arbitration} (wrrHigh wrrMedium sqsize : Nat)
    (hstarts : ¬ Starts arbitration c) :
    collectSQueue arbitration wrrHigh wrrMedium sqsize c ≠ .ok c' := by
  intro hcollect
  cases arbitration with
  | roundRobin => exact hstarts trivial
  | other => cases hcollect
  | weightedRoundRobin =>
    have hnone : c.ppSQueue 0 = none := Option.not_isSome_iff_eq_none.mp hstarts
    simp only [collectSQueue, adminRounds_none hnone (2 ^ 64) (by decide), Bind.bind,
      Except.bind] at hcollect
    cases hcollect

end Collect

/-! ### Rings -/

/-- The pending slots of each queue. -/
def pending (c : Collector) (i : Nat) : List Nat := (c.ppSQueue i).elim [] fun q => q.pending

/-- The number of pending entries. -/
def total (sqsize : Nat) (c : Collector) : Nat := ∑ i ∈ Finset.range sqsize, (c.pending i).length

/-- All queues are rings. -/
def Rings (c : Collector) : Prop := ∀ i q, c.ppSQueue i = some q → q.IsRing

/-- `n` entries have been fetched, of the queues that `sel` selects, each the oldest of its
queue. -/
structure Fetches (sqsize : Nat) (sel : Nat → SQueue → Prop) (c c' : Collector) (n : Nat) :
    Prop where
  rings : c'.Rings
  fetched : ∃ new, c'.fetched = c.fetched ++ new ∧ Fifo.Conserves [] new c.pending c'.pending
  total : c'.total sqsize + n = c.total sqsize
  others : ∀ i, (∀ q, c.ppSQueue i = some q → ¬ sel i q) → c'.ppSQueue i = c.ppSQueue i
  priority : ∀ i, (c'.ppSQueue i).map SQueue.priority = (c.ppSQueue i).map SQueue.priority

section Rings

variable {sqsize n : Nat} {sel : Nat → SQueue → Prop} {c c' : Collector} {i : Nat} {q : SQueue}

theorem pending_of_some (hq : c.ppSQueue i = some q) : c.pending i = q.pending := by
  rw [pending, hq]
  rfl

theorem pending_fetch_of_ne (c : Collector) (q : SQueue) {j : Nat} (h : j ≠ i) :
    (c.fetch i q).pending j = c.pending j := by
  rw [pending, fetch_of_ne c q h]
  rfl

/-- A fetch takes the oldest entry of a ring. -/
theorem pending_fetch (hq : c.ppSQueue i = some q) (hring : q.IsRing) (hpos : 0 < q.getItemCount) :
    c.pending i = q.head :: (c.fetch i q).pending i := by
  rw [pending_of_some hq, pending_of_some (fetch_self c i q)]
  exact hring.pending_eq_cons hpos

theorem total_fetch (hi : i < sqsize) (hq : c.ppSQueue i = some q) (hring : q.IsRing)
    (hpos : 0 < q.getItemCount) : (c.fetch i q).total sqsize + 1 = c.total sqsize := by
  have hmem := Finset.mem_range.mpr hi
  have hrest : ∑ j ∈ (Finset.range sqsize).erase i, ((c.fetch i q).pending j).length =
      ∑ j ∈ (Finset.range sqsize).erase i, (c.pending j).length :=
    Finset.sum_congr rfl fun j hj =>
      congrArg List.length (pending_fetch_of_ne c q (Finset.ne_of_mem_erase hj))
  rw [total, total, ← Finset.add_sum_erase _ _ hmem,
    ← Finset.add_sum_erase _ (fun j => (c.pending j).length) hmem, hrest,
    pending_fetch hq hring hpos, List.length_cons]
  omega

theorem Rings.fetch (hc : c.Rings) (hq : c.ppSQueue i = some q) : (c.fetch i q).Rings := by
  intro j r hr
  rcases eq_or_ne j i with rfl | hne
  · obtain rfl := Option.some.inj ((fetch_self c j q).symm.trans hr)
    exact (hc j q hq).advance
  · exact hc j r ((fetch_of_ne c q hne).symm.trans hr)

/-- What is read from rings is what was pending, in order. -/
theorem Reads.fetches (h : Reads sel c n c') (hc : c.Rings)
    (hsel : ∀ i q, sel i q → i < sqsize) : Fetches sqsize sel c c' n := by
  suffices hrun : c'.Rings ∧ (∃ new, c'.fetched = c.fetched ++ new ∧
      Fifo.Conserves [] new c.pending c'.pending) ∧ c'.total sqsize + n = c.total sqsize from
    ⟨hrun.1, hrun.2.1, hrun.2.2, fun i hi => h.others hi, h.priority⟩
  induction h with
  | refl => exact ⟨hc, ⟨[], (List.append_nil _).symm, Fifo.Conserves.refl _⟩, rfl⟩
  | @fetch n c' i q h hq hs hpos ih =>
    obtain ⟨hrings, ⟨new, hnew, hconserves⟩, htotal⟩ := ih
    have hring := hrings i q hq
    refine ⟨hrings.fetch hq, ⟨new ++ [(i, q.head)], ?_, ?_⟩, ?_⟩
    · show c'.fetched ++ _ = _
      rw [hnew, List.append_assoc]
    · exact hconserves.trans (Fifo.Conserves.pop (pending_fetch hq hring hpos)
        fun j hj => pending_fetch_of_ne c' q hj)
    · have hless := total_fetch (hsel i q hs) hq hring hpos
      omega

/-- There are fewer pending entries than fetches that the loops may make. -/
theorem total_lt (hc : ∀ i q, c.ppSQueue i = some q → q.getItemCount < 2 ^ 16)
    (hsize : sqsize < 2 ^ 16) : c.total sqsize < 2 ^ 64 := by
  have hle : ∀ i ∈ Finset.range sqsize, (c.pending i).length ≤ 2 ^ 16 := by
    intro i _
    cases hq : c.ppSQueue i with
    | none =>
      rw [pending, hq]
      exact Nat.zero_le _
    | some q =>
      rw [pending_of_some hq, Queue.length_pending]
      exact Nat.le_of_lt (hc i q hq)
  have hsum := Finset.sum_le_card_nsmul _ _ _ hle
  rw [Finset.card_range, smul_eq_mul] at hsum
  have hmul : sqsize * 2 ^ 16 ≤ 2 ^ 16 * 2 ^ 16 := Nat.mul_le_mul_right _ (Nat.le_of_lt hsize)
  exact (hsum.trans hmul).trans_lt (by decide)

theorem Looked.lt {arbitration : Arbitration} (h : Looked arbitration sqsize i q) : i < sqsize := by
  cases arbitration with
  | roundRobin => exact h
  | weightedRoundRobin => exact h.1
  | other => exact h.elim

/-- A collection of rings ends. -/
theorem collect_spec {arbitration : Arbitration} (wrrHigh wrrMedium : Nat) (hc : c.Rings)
    (hpos : 0 < sqsize) (hsize : sqsize < 2 ^ 16) (hstarts : Starts arbitration c) :
    ∃ c' n, collectSQueue arbitration wrrHigh wrrMedium sqsize c = .ok c' ∧
      Fetches sqsize (Looked arbitration sqsize) c c' n ∧ c'.Idle (Looked arbitration sqsize) := by
  have hcount : ∀ i q, c.ppSQueue i = some q → q.getItemCount < 2 ^ 16 := fun i q hq =>
    Nat.lt_trans (hc i q hq).getItemCount_lt (hc i q hq).size
  have hlt : c.total sqsize < 2 ^ 64 := total_lt hcount hsize
  have hends := collectSQueue_ends arbitration wrrHigh wrrMedium hpos hsize hstarts
  cases hcollect : collectSQueue arbitration wrrHigh wrrMedium sqsize c with
  | ok c' =>
    rw [hcollect] at hends
    obtain ⟨hidle, n, hreads⟩ := hends
    exact ⟨c', n, rfl, hreads.fetches hc fun _ _ => Looked.lt, hidle⟩
  | error fault =>
    rw [hcollect] at hends
    obtain ⟨-, c', n, hn, hreads⟩ := hends
    have htotal := (hreads.fetches hc fun _ _ => Looked.lt).total
    omega

/-- Every queue has been emptied, each of its pending entries fetched once and in order. -/
def Served (sqsize : Nat) (c c' : Collector) : Prop :=
  ∀ i < sqsize, ∀ q, c.ppSQueue i = some q →
    (∃ q', c'.ppSQueue i = some q' ∧ q'.getItemCount = 0) ∧ Fifo.part c'.fetched i = q.pending

/-- The condition under which the mode serves all queues. -/
def Serves (arbitration : Arbitration) (sqsize : Nat) (c : Collector) : Prop :=
  match arbitration with
  | .roundRobin => True
  | .weightedRoundRobin => (c.ppSQueue 0).isSome = true ∧
    ∀ i < sqsize, 0 < i → ∀ q, c.ppSQueue i = some q → q.priority = .low → q.getItemCount = 0
  | .other => False

theorem Fetches.served (h : Fetches sqsize sel c c' n) (hnew : c.fetched = [])
    (hidle : ∀ i < sqsize, ∀ q, c'.ppSQueue i = some q → q.getItemCount = 0) :
    Served sqsize c c' := by
  intro i hi q hq
  have hlive := h.priority i
  rw [hq] at hlive
  obtain ⟨q', hq', -⟩ := Option.map_eq_some_iff.mp hlive
  have hzero := hidle i hi q' hq'
  refine ⟨⟨q', hq', hzero⟩, ?_⟩
  obtain ⟨new, hfetched, hconserves⟩ := h.fetched
  rw [hfetched, hnew, List.nil_append, ← pending_of_some hq]
  exact hconserves.drained ((pending_of_some hq').trans (Queue.pending_eq_nil.mpr hzero))

end Rings

/-- A collection serves all queues exactly when, in the weighted mode, no queue of low
priority has anything pending. -/
theorem collectSQueue_served_iff (arbitration : Arbitration) (wrrHigh wrrMedium sqsize : Nat)
    (hpos : 0 < sqsize) (hsize : sqsize < 2 ^ 16) (c : Collector) (hc : c.Rings)
    (hnew : c.fetched = []) :
    (∃ c', collectSQueue arbitration wrrHigh wrrMedium sqsize c = .ok c' ∧ Served sqsize c c') ↔
      Serves arbitration sqsize c := by
  cases arbitration with
  | roundRobin =>
    obtain ⟨c', n, hcollect, hfetches, hidle⟩ :=
      @collect_spec sqsize c .roundRobin wrrHigh wrrMedium hc hpos hsize trivial
    exact iff_of_true ⟨c', hcollect, hfetches.served hnew fun i hi q hq => hidle i q hq hi⟩ trivial
  | other =>
    refine iff_of_false ?_ fun h => h
    rintro ⟨c', hc', -⟩
    cases hc'
  | weightedRoundRobin =>
    constructor
    · rintro ⟨c', hcollect, hserved⟩
      have hadmin : Starts .weightedRoundRobin c := by
        by_contra hstarts
        exact not_ok_of_not_starts wrrHigh wrrMedium sqsize hstarts hcollect
      refine ⟨hadmin, fun i hi hpos' q hq hlow => ?_⟩
      obtain ⟨c₁, n, hcollect₁, hfetches, -⟩ :=
        collect_spec wrrHigh wrrMedium hc hpos hsize hadmin
      obtain rfl := Except.ok.inj (hcollect.symm.trans hcollect₁)
      obtain ⟨⟨q', hq', hzero⟩, -⟩ := hserved i hi q hq
      rw [hfetches.others i fun r hr hs => by
        rw [← Option.some.inj (hq.symm.trans hr)] at hs
        exact hs.2.elim (fun h => by omega) fun h => h hlow] at hq'
      rw [Option.some.inj (hq.symm.trans hq')]
      exact hzero
    · rintro ⟨hadmin, hlow⟩
      obtain ⟨c', n, hcollect, hfetches, hidle⟩ :=
        @collect_spec sqsize c .weightedRoundRobin wrrHigh wrrMedium hc hpos hsize hadmin
      refine ⟨c', hcollect, hfetches.served hnew fun i hi q hq => ?_⟩
      by_cases hsel : i = 0 ∨ q.priority ≠ .low
      · exact hidle i q hq ⟨hi, hsel⟩
      · rw [not_or, not_not] at hsel
        have hlive := (hfetches.priority i).symm
        rw [hq] at hlive
        obtain ⟨q₀, hq₀, heq⟩ := Option.map_eq_some_iff.mp hlive
        have hsame := hfetches.others i fun r hr hs => by
          rw [← Option.some.inj (hq₀.symm.trans hr)] at hs
          exact hs.2.elim hsel.1 fun h => h (heq.trans hsel.2)
        rw [hsame] at hq
        exact hlow i hi (by omega) q hq hsel.2

/-! ### An instance -/

/-- Two pending entries in I/O queue 1, and an empty admin queue. -/
def small (priority : Priority) : Collector where
  ppSQueue i :=
    match i with
    | 0 => some ⟨⟨0, 0, 0, 4⟩, 0, .urgent⟩
    | 1 => some ⟨⟨1, 3, 1, 4⟩, 1, priority⟩
    | _ => none
  fetched := []

theorem rings_small (priority : Priority) : (small priority).Rings := by
  intro i q hq
  match i, hq with
  | 0, rfl => exact ⟨(by decide : 0 < 4), (by decide : 0 < 4), by decide⟩
  | 1, rfl => exact ⟨(by decide : 3 < 4), (by decide : 1 < 4), (by decide : 4 < 2 ^ 16)⟩

theorem collectSQueue_served_iff_small :
    (small .medium).Rings ∧ Serves .weightedRoundRobin 2 (small .medium) ∧
      ∃ c', collectSQueue .weightedRoundRobin 3 2 2 (small .medium) = .ok c' ∧
        Served 2 (small .medium) c' := by
  have hserves : Serves .weightedRoundRobin 2 (small .medium) := by
    refine ⟨rfl, fun i hi hpos q hq hlow => ?_⟩
    obtain rfl : i = 1 := by omega
    obtain rfl := Option.some.inj hq
    cases hlow
  exact ⟨rings_small .medium, hserves, (collectSQueue_served_iff .weightedRoundRobin 3 2 2
    (by decide) (by decide) (small .medium) (rings_small .medium) rfl).mpr hserves⟩

/-- A low-priority queue keeps its entries. -/
theorem collectSQueue_starves :
    ∃ c', collectSQueue .weightedRoundRobin 3 2 2 (small .low) = .ok c' ∧
      c'.fetched = [] ∧ ¬ Served 2 (small .low) c' := by
  obtain ⟨c', hcollect, hfetched, hqueue⟩ := Except.exists_of_map
    (p := fun c => c.fetched = [] ∧ c.ppSQueue 1 = some ⟨⟨1, 3, 1, 4⟩, 1, .low⟩)
    (by decide +kernel :
      (collectSQueue .weightedRoundRobin 3 2 2 (small .low)).map _ = .ok true)
  refine ⟨c', hcollect, hfetched, fun hserved => ?_⟩
  obtain ⟨⟨q, hq, hzero⟩, -⟩ := hserved 1 (by decide) _ rfl
  obtain rfl := Option.some.inj (hqueue.symm.trans hq)
  exact absurd hzero (by decide)

end Collector

end SimpleSSD.HIL.NVMe
