import SimpleSSD.PAL.Timeline

/-!
# The search for a free slot misses nothing

`findFreeTime` looks at one slot of a bucket that begins in time and at the first later
one that has room. Under the invariant of the slots that is enough:

- a slot that has room at the tick asked for is found there (`findFreeTime_at`);
- otherwise no slot that begins in time has room at any later tick either, and the least
  of the first later slots with room is the earliest of all.

Where `tickLen + tickFrom` wraps around, a slot far in front of `tickFrom` looks long
enough.
-/

namespace SimpleSSD.PAL

namespace FreeSlots

variable {fs : FreeSlots} {sp k s e tickLen tickFrom : Nat}

/-- The slot from `s` to `e` contains the duration from tick `t` on. -/
def Holds (tickLen s e t : Nat) : Prop := s ≤ t ∧ t + tickLen ≤ e + 1

instance (tickLen s e t : Nat) : Decidable (Holds tickLen s e t) :=
  inferInstanceAs (Decidable (_ ∧ _))

/-- No stored slot contains the duration from `tickFrom` or a later tick on. -/
def NoRoom (fs : FreeSlots) (tickLen tickFrom : Nat) : Prop :=
  ∀ k s e t, fs.Slot k s e → tickFrom ≤ t → ¬ Holds tickLen s e t

/-- A stored slot that begins at `startTick` contains the duration from `t` on, and none
does so from an earlier tick on. -/
structure Earliest (fs : FreeSlots) (tickLen tickFrom startTick t : Nat) : Prop where
  holds : ∃ k e, fs.Slot k startTick e ∧ Holds tickLen startTick e t
  le : tickFrom ≤ t
  least : ∀ k s e t', fs.Slot k s e → tickFrom ≤ t' → Holds tickLen s e t' → t ≤ t'

/-- The search reports the slot and the tick of the earliest possible start, or that there
is none. -/
def ExactSearch (fs : FreeSlots) (tickLen tickFrom : Nat) : Prop :=
  (fs.findFreeTime tickLen tickFrom = none → fs.NoRoom tickLen tickFrom) ∧
    ∀ startTick conflicts, fs.findFreeTime tickLen tickFrom = some (startTick, conflicts) →
      fs.Earliest tickLen tickFrom startTick (if conflicts then startTick else tickFrom)

/-! ### The later slots -/

/-- The first later slot with room begins no later than any other. -/
theorem Valid.slotAfter_le (h : fs.Valid sp) (hwrap : tickLen + sp < 2 ^ 64)
    (hslot : fs.Slot k s e) (hlater : tickFrom < s) (hroom : s + tickLen ≤ e + 1) :
    ∃ f, fs.slotAfter k tickLen tickFrom = some f ∧ f.1 ≤ s := by
  have hbound := h.bounds hslot
  have hmem : (s, e) ∈ (fs.slots k).filter fun f => tickFrom < f.1 := by
    simp [hslot.2, hlater]
  have hfits : (decide (tickSub (tickAdd tickLen s) 1 ≤ e)) = true := by
    rw [decide_eq_true_iff, tickAdd_eq (by omega), tickSub_eq (by omega) (by omega)]
    omega
  rw [slotAfter]
  cases hfind : ((fs.slots k).filter fun f => tickFrom < f.1).find? fun f =>
      tickSub (tickAdd tickLen f.1) 1 ≤ f.2 with
  | none => exact absurd hfits (List.find?_eq_none.mp hfind (s, e) hmem)
  | some f =>
    refine ⟨f, rfl, ?_⟩
    obtain ⟨-, before, behind, hl, hbefore⟩ := List.find?_eq_some_iff_append.mp hfind
    have hsorted := (h.sorted k).filter fun f => tickFrom < f.1
    rw [hl] at hmem hsorted
    rcases List.mem_append.mp hmem with hin | hin
    · have := hbefore (s, e) hin
      simp [hfits] at this
    · rcases List.mem_cons.mp hin with heq | hin
      · rw [← heq]
      · have hrest := (List.pairwise_append.mp hsorted).2.1
        exact (List.rel_of_pairwise_cons hrest hin).le

/-- What the loop over the buckets keeps: the earliest of the first later slots. -/
theorem searchBuckets_least {l : List Nat} {minTick : Nat} (hmin : minTick ≤ maxTick)
    (hsmall : ∀ k ∈ l, ∀ f, fs.slotAfter k tickLen tickFrom = some f → f.1 < maxTick) :
    (fs.searchBuckets tickLen tickFrom l minTick = none →
      minTick = maxTick ∧ ∀ k ∈ l, fs.slotAfter k tickLen tickFrom = none) ∧
    ∀ r, fs.searchBuckets tickLen tickFrom l minTick = some (r, true) →
      r ≤ minTick ∧ ∀ k ∈ l, ∀ f, fs.slotAfter k tickLen tickFrom = some f → r ≤ f.1 := by
  induction l generalizing minTick with
  | nil =>
    rw [searchBuckets]
    split
    · next heq => exact ⟨fun _ => ⟨heq, by simp⟩, fun r hr => by cases hr⟩
    · refine ⟨fun h => (by cases h), fun r hr => ?_⟩
      cases hr
      exact ⟨le_rfl, by simp⟩
  | cons k l ih =>
    have hrest := fun k' hk' => hsmall k' (List.mem_cons_of_mem k hk')
    rw [searchBuckets]
    cases hat : fs.slotAt k tickLen tickFrom with
    | some f => exact ⟨fun h => (by cases h), fun r hr => by cases hr⟩
    | none =>
      cases hafter : fs.slotAfter k tickLen tickFrom with
      | none =>
        obtain ⟨hnone, hsome⟩ := ih hmin hrest
        refine ⟨fun h => ?_, fun r hr => ?_⟩
        · obtain ⟨heq, hl⟩ := hnone h
          exact ⟨heq, List.forall_mem_cons.mpr ⟨hafter, hl⟩⟩
        · obtain ⟨hle, hl⟩ := hsome r hr
          refine ⟨hle, List.forall_mem_cons.mpr ⟨fun f hf => ?_, hl⟩⟩
          rw [hafter] at hf
          cases hf
      | some f =>
        have hf := hsmall k List.mem_cons_self f hafter
        have hnew : (if minTick = maxTick ∨ f.1 < minTick then f.1 else minTick) ≤ minTick ∧
            (if minTick = maxTick ∨ f.1 < minTick then f.1 else minTick) ≤ f.1 := by
          split
          · omega
          · omega
        obtain ⟨hnone, hsome⟩ := ih (hnew.1.trans hmin) hrest
        refine ⟨fun h => ?_, fun r hr => ?_⟩
        · have := (hnone h).1
          omega
        · obtain ⟨hle, hl⟩ := hsome r hr
          refine ⟨hle.trans hnew.1, List.forall_mem_cons.mpr ⟨fun f' hf' => ?_, hl⟩⟩
          rw [hafter] at hf'
          cases hf'
          exact hle.trans hnew.2

/-- Where the search fails, or ends at a later slot, no slot with room begins earlier. -/
theorem Valid.findFreeTime_least (h : fs.Valid sp) (hwrap : tickLen + sp < 2 ^ 64)
    (hslot : fs.Slot k s e) (hlater : tickFrom < s) (hroom : s + tickLen ≤ e + 1) :
    fs.findFreeTime tickLen tickFrom ≠ none ∧
      ∀ r, fs.findFreeTime tickLen tickFrom = some (r, true) → r ≤ s := by
  obtain ⟨f, hf, hle⟩ := h.slotAfter_le hwrap hslot hlater hroom
  have hk : k ∈ fs.bucketsFrom tickLen := h.mem_bucketsFrom hslot (by omega)
  rw [findFreeTime]
  split
  · next hall =>
    cases hlast : fs.lengths.getLast? with
    | none =>
      rw [List.getLast?_eq_none_iff] at hlast
      have := hslot.1
      rw [hlast] at this
      cases this
    | some k₀ =>
      obtain rfl := h.eq_getLast hall hlast hk
      cases hat : fs.slotAt k tickLen tickFrom with
      | some g =>
        simp only [hat]
        simp
      | none =>
        simp only [hat, hf, Option.map_some]
        refine ⟨by simp, fun r hr => ?_⟩
        cases hr
        exact hle
  · have hsmall : ∀ k ∈ fs.bucketsFrom tickLen, ∀ f,
        fs.slotAfter k tickLen tickFrom = some f → f.1 < maxTick := by
      intro k' hk' f' hf'
      have hlen := ((FreeSlots.mem_bucketsFrom h.lengths).mp hk').1
      have hmem := (List.mem_filter.mp (List.mem_of_find?_eq_some hf')).1
      have := h.bounds (s := f'.1) (e := f'.2) ⟨hlen, hmem⟩
      rw [maxTick]
      omega
    obtain ⟨hnone, hsome⟩ := searchBuckets_least le_rfl hsmall
    refine ⟨fun heq => ?_, fun r hr => ((hsome r hr).2 k hk f hf).trans hle⟩
    have := (hnone heq).2 k hk
    rw [hf] at this
    cases this

/-- The search is exact when the ticks do not wrap around. -/
theorem Valid.exactSearch (h : fs.Valid sp) (hwrap : tickLen + tickFrom < 2 ^ 64)
    (hwrap' : tickLen + sp < 2 ^ 64) (hpos : 0 < tickLen + tickFrom) :
    fs.ExactSearch tickLen tickFrom := by
  -- a slot that begins in time and has room later on has room at once
  have hintime : ∀ {k s e t}, fs.Slot k s e → s ≤ tickFrom → tickFrom ≤ t → Holds tickLen s e t →
      ∃ s', fs.findFreeTime tickLen tickFrom = some (s', false) := by
    intro k s e t hslot hs hle ⟨_, he⟩
    exact h.findFreeTime_at hwrap hpos hslot hs (by omega)
  constructor
  · intro hnone k s e t hslot hle hholds
    rcases Nat.lt_or_ge tickFrom s with hlater | hs
    · have hroom : s + tickLen ≤ e + 1 := by
        obtain ⟨hst, he⟩ := hholds
        omega
      exact (h.findFreeTime_least hwrap' hslot hlater hroom).1 hnone
    · obtain ⟨s', hs'⟩ := hintime hslot hs hle hholds
      rw [hnone] at hs'
      cases hs'
  · intro startTick conflicts hfind
    rcases h.findFreeTime_spec hwrap hwrap' hpos hfind with
      ⟨hc, k, -, e, hslot, hs, he⟩ | ⟨hc, hlt, k, -, e, hslot, -, he⟩
    · obtain rfl : conflicts = false := hc
      exact ⟨⟨k, e, hslot, hs, he⟩, le_rfl, fun _ _ _ _ _ hle _ => hle⟩
    · obtain rfl : conflicts = true := hc
      refine ⟨⟨k, e, hslot, le_rfl, he⟩, Nat.le_of_lt hlt, fun k' s' e' t' hslot' hle hholds => ?_⟩
      show startTick ≤ t'
      rcases Nat.lt_or_ge tickFrom s' with hlater | hs'
      · obtain ⟨hst, he'⟩ := hholds
        exact ((h.findFreeTime_least hwrap' hslot' hlater (by omega)).2 startTick hfind).trans hst
      · obtain ⟨s₁, hs₁⟩ := hintime hslot' hs' hle hholds
        rw [hfind] at hs₁
        cases hs₁

end FreeSlots

/-! ### Runs -/

/-- Every search on the slots that a run has left is exact, for a duration that does not
wrap around. -/
theorem search_exact (flash : Flash) (steps : List Step)
    (hsteps : Run.Along (Step.exec flash) (Step.Meets fun s cmd => s.Fits flash cmd)
      (flash.start, []) steps) :
    ∃ s log, runSteps flash steps = .ok (s, log) ∧ ∀ tickLen tickFrom,
      0 < tickLen + tickFrom → tickLen + tickFrom < 2 ^ 64 →
      (∀ c, tickLen + (s.channels c).startPoint < 2 ^ 64 →
        (s.channels c).freeSlots.ExactSearch tickLen tickFrom) ∧
      ∀ d, tickLen + (s.dies d).startPoint < 2 ^ 64 →
        (s.dies d).freeSlots.ExactSearch tickLen tickFrom := by
  obtain ⟨s, log, hrun, haccounts, -⟩ := runSteps_spec (P := fun _ _ => True)
    (fun s cmd h => h) (fun _ _ _ _ _ _ => trivial) hsteps
  exact ⟨s, log, hrun, fun tickLen tickFrom hpos hwrap =>
    ⟨fun c hc => (haccounts.valid.channels c).exactSearch hwrap hc hpos,
      fun d hd => (haccounts.valid.dies d).exactSearch hwrap hd hpos⟩⟩

theorem search_exact_fourDies :
    ∃ s log, runSteps fourDies [.submit (.onDie 30000000 .read 0 0),
        .submit (.onDie 5 .write 1 6), .flush 100000] = .ok (s, log) ∧ ∀ tickLen tickFrom,
      0 < tickLen + tickFrom → tickLen + tickFrom < 2 ^ 64 →
      (∀ c, tickLen + (s.channels c).startPoint < 2 ^ 64 →
        (s.channels c).freeSlots.ExactSearch tickLen tickFrom) ∧
      ∀ d, tickLen + (s.dies d).startPoint < 2 ^ 64 →
        (s.dies d).freeSlots.ExactSearch tickLen tickFrom :=
  search_exact fourDies _ (by decide +kernel)

/-- One read leaves a slot at the beginning of its die. A duration that wraps around is
found in it although the slot ends long before, and the empty duration at tick 0 is not. -/
theorem search_not_exact :
    ∃ r, runSteps fourDies [.submit (.onDie 30000000 .read 0 0)] = .ok r ∧
      ¬ (r.1.dies 0).freeSlots.ExactSearch 100 (2 ^ 64 - 50) ∧
      ¬ (r.1.dies 0).freeSlots.ExactSearch 0 0 := by
  obtain ⟨r, hrun, hfind, hslots, hfind₀, hslot₀⟩ := Except.exists_of_map
    (x := runSteps fourDies [.submit (.onDie 30000000 .read 0 0)])
    (p := fun r => (r.1.dies 0).freeSlots.findFreeTime 100 (2 ^ 64 - 50) = some (0, false) ∧
      (∀ k ∈ (r.1.dies 0).freeSlots.lengths, ∀ f ∈ (r.1.dies 0).freeSlots.slots k,
        f.2 < 2 ^ 64 - 50) ∧
      (r.1.dies 0).freeSlots.findFreeTime 0 0 = none ∧
      25100000 ∈ (r.1.dies 0).freeSlots.lengths ∧
        (0, 29999999) ∈ (r.1.dies 0).freeSlots.slots 25100000)
    (by decide +kernel)
  refine ⟨r, hrun, fun h => ?_, fun h => ?_⟩
  · obtain ⟨⟨k, e, hslot, -, he⟩, -, -⟩ := h.2 0 false hfind
    have := hslots k hslot.1 (0, e) hslot.2
    have he : 2 ^ 64 - 50 + 100 ≤ e + 1 := he
    dsimp only at this
    omega
  · exact h.1 hfind₀ 25100000 0 29999999 0 hslot₀ le_rfl (by decide)

end SimpleSSD.PAL
