import Mathlib.Order.Interval.Set.Basic
import SimpleSSD.PAL.FreeSlots

/-!
# What the slot operations do to a resource

`Valid` is the invariant of the two-level maps: the slots are nonempty, lie below the
start point, do not overlap, and each is in the bucket of its length. Under it

- a search ends at a tick with room (`search_spec`), and stays where it is when there is
  room already (`search_of_room`);
- `insertFreeSlot` takes the duration out of the free ticks and nothing else
  (`insertFreeSlot_spec`).

All of this is for ticks that do not wrap around.
-/

namespace SimpleSSD.PAL

theorem insertSlot_perm (slot : Nat × Nat) (l : List (Nat × Nat)) (f : Nat × Nat) :
    f ∈ insertSlot slot l → f = slot ∨ f ∈ l := by
  induction l with
  | nil => simp [insertSlot]
  | cons other l ih =>
    rw [insertSlot]
    split
    · simp
    · split
      · exact .inr
      · intro h
        rcases List.mem_cons.mp h with rfl | h
        · simp
        · rcases ih h with rfl | h
          · simp
          · simp [h]

/-- Nothing is lost, and the new slot is there unless its place is taken. -/
theorem mem_insertSlot (slot : Nat × Nat) (l : List (Nat × Nat)) :
    (∀ f ∈ l, f ∈ insertSlot slot l) ∧
      ((∀ f ∈ l, f.1 ≠ slot.1) → slot ∈ insertSlot slot l) := by
  induction l with
  | nil => simp [insertSlot]
  | cons other l ih =>
    rw [insertSlot]
    split
    · exact ⟨fun f hf => List.mem_cons_of_mem slot hf, fun _ => List.mem_cons_self⟩
    · split
      · next heq => exact ⟨fun f hf => hf, fun h => absurd heq.symm (h other List.mem_cons_self)⟩
      · refine ⟨fun f hf => ?_, fun h => ?_⟩
        · rcases List.mem_cons.mp hf with rfl | hf
          · exact List.mem_cons_self
          · exact List.mem_cons_of_mem other (ih.1 f hf)
        · exact List.mem_cons_of_mem other
            (ih.2 fun f hf => h f (List.mem_cons_of_mem other hf))

theorem insertSlot_sorted (slot : Nat × Nat) {l : List (Nat × Nat)}
    (h : l.Pairwise fun f g => f.1 < g.1) :
    (insertSlot slot l).Pairwise fun f g => f.1 < g.1 := by
  induction l with
  | nil => simp [insertSlot]
  | cons other l ih =>
    obtain ⟨hother, hl⟩ := List.pairwise_cons.mp h
    rw [insertSlot]
    split
    · next hlt =>
      refine List.pairwise_cons.mpr ⟨fun f hf => ?_, h⟩
      rcases List.mem_cons.mp hf with rfl | hf
      · exact hlt
      · exact hlt.trans (hother f hf)
    · split
      · exact h
      · next hle hne =>
        refine List.pairwise_cons.mpr ⟨fun f hf => ?_, ih hl⟩
        rcases insertSlot_perm slot l f hf with rfl | hf
        · omega
        · exact hother f hf

/-- The last element of an ordered list. -/
theorem getLast?_max {α : Type*} {R : α → α → Prop} {l : List α} {a b : α} (h : l.Pairwise R)
    (ha : l.getLast? = some a) (hb : b ∈ l) : b = a ∨ R b a := by
  obtain ⟨init, rfl⟩ := List.getLast?_eq_some_iff.mp ha
  rcases List.mem_append.mp hb with hb | hb
  · exact .inr ((List.pairwise_append.mp h).2.2 b hb a List.mem_cons_self)
  · exact .inl (List.mem_singleton.mp hb)

namespace FreeSlots

variable {fs : FreeSlots} {sp k s e tickLen tickFrom : Nat}

/-- The slot from `s` to `e` is in bucket `k`. -/
def Slot (fs : FreeSlots) (k s e : Nat) : Prop := k ∈ fs.lengths ∧ (s, e) ∈ fs.slots k

/-- The free ticks below the start point. -/
def ticks (fs : FreeSlots) : Set Nat := {x | ∃ k s e, fs.Slot k s e ∧ s ≤ x ∧ x ≤ e}

/-- The invariant of the slots below the start point `sp`. -/
structure Valid (fs : FreeSlots) (sp : Nat) : Prop where
  lengths : fs.lengths.Pairwise (· < ·)
  sorted : ∀ k, (fs.slots k).Pairwise fun f g => f.1 < g.1
  bounds : ∀ {k s e}, fs.Slot k s e → s ≤ e ∧ e < sp
  apart : ∀ {k s e k' s' e' x}, fs.Slot k s e → fs.Slot k' s' e' → s ≤ x → x ≤ e → s' ≤ x →
    x ≤ e' → k = k' ∧ s = s' ∧ e = e'
  placed : ∀ {k s e}, fs.Slot k s e → ∀ k' ∈ fs.lengths, k' ≤ e + 1 - s → k' ≤ k

/-! ### Buckets -/

theorem lastBucket_spec (h : fs.lengths.Pairwise (· < ·)) (hk : fs.lastBucket tickLen = some k) :
    k ∈ fs.lengths ∧ k ≤ tickLen ∧ ∀ k' ∈ fs.lengths, k' ≤ tickLen → k' ≤ k := by
  have hmem := List.mem_of_getLast? hk
  rw [List.mem_filter, decide_eq_true_iff] at hmem
  refine ⟨hmem.1, hmem.2, fun k' hk' hle => ?_⟩
  have hfilter : k' ∈ fs.lengths.filter fun k => k ≤ tickLen := by simp [hk', hle]
  rcases getLast?_max (h.filter _) hk hfilter with rfl | hlt
  · exact le_rfl
  · exact Nat.le_of_lt hlt

theorem lastBucket_none (hk : fs.lastBucket tickLen = none) :
    ∀ k ∈ fs.lengths, tickLen < k := by
  rw [lastBucket, List.getLast?_eq_none_iff, List.filter_eq_nil_iff] at hk
  intro k hmem
  simpa using hk k hmem

/-- The buckets that are searched for a duration: no shorter than any that it reaches. -/
theorem mem_bucketsFrom (h : fs.lengths.Pairwise (· < ·)) :
    k ∈ fs.bucketsFrom tickLen ↔
      k ∈ fs.lengths ∧ ∀ k' ∈ fs.lengths, k' ≤ tickLen → k' ≤ k := by
  rw [bucketsFrom]
  cases hlast : fs.lastBucket tickLen with
  | none =>
    have hnone := lastBucket_none hlast
    refine ⟨fun hk => ⟨hk, fun k' hk' hle => ?_⟩, fun hk => hk.1⟩
    have := hnone k' hk'
    omega
  | some k₀ =>
    obtain ⟨hmem, hle, hmax⟩ := lastBucket_spec h hlast
    simp only [List.mem_filter, decide_eq_true_iff]
    constructor
    · rintro ⟨hk, hk₀⟩
      exact ⟨hk, fun k' hk' hle' => (hmax k' hk' hle').trans hk₀⟩
    · rintro ⟨hk, hk'⟩
      exact ⟨hk, hk' k₀ hmem hle⟩

/-- A shorter duration is looked for in all the buckets of a longer one. -/
theorem bucketsFrom_anti (h : fs.lengths.Pairwise (· < ·)) {tickLen' : Nat}
    (hle : tickLen ≤ tickLen') (hk : k ∈ fs.bucketsFrom tickLen') : k ∈ fs.bucketsFrom tickLen := by
  rw [mem_bucketsFrom h] at hk ⊢
  exact ⟨hk.1, fun k' hk' hle' => hk.2 k' hk' (hle'.trans hle)⟩

/-- Every slot is in a bucket that is searched for the durations it has room for. -/
theorem Valid.mem_bucketsFrom (h : fs.Valid sp) (hslot : fs.Slot k s e)
    (hlen : tickLen ≤ e + 1 - s) : k ∈ fs.bucketsFrom tickLen :=
  (FreeSlots.mem_bucketsFrom h.lengths).mpr
    ⟨hslot.1, fun k' hk' hle => h.placed hslot k' hk' (hle.trans hlen)⟩

/-! ### The search -/

/-- A slot in bucket `k` has room for the duration at `tickFrom`. -/
def RoomAt (fs : FreeSlots) (tickLen tickFrom k s : Nat) : Prop :=
  k ∈ fs.bucketsFrom tickLen ∧ ∃ e, fs.Slot k s e ∧ s ≤ tickFrom ∧ tickFrom + tickLen ≤ e + 1

theorem slotAt_spec (hk : k ∈ fs.lengths) (hbuckets : k ∈ fs.bucketsFrom tickLen)
    (hwrap : tickLen + tickFrom < 2 ^ 64) (hpos : 0 < tickLen + tickFrom) {f : Nat × Nat}
    (h : fs.slotAt k tickLen tickFrom = some f) : fs.RoomAt tickLen tickFrom k f.1 := by
  rw [slotAt, Option.filter_eq_some_iff, decide_eq_true_iff] at h
  obtain ⟨hlast, hroom⟩ := h
  have hmem := List.mem_of_getLast? hlast
  rw [List.mem_filter, decide_eq_true_iff] at hmem
  rw [tickAdd_eq hwrap, tickSub_eq (by omega) hwrap] at hroom
  exact ⟨hbuckets, f.2, ⟨hk, hmem.1⟩, hmem.2, by omega⟩

theorem slotAfter_spec {f : Nat × Nat} (h : fs.slotAfter k tickLen tickFrom = some f)
    (hwrap : tickLen + f.1 < 2 ^ 64) :
    f ∈ fs.slots k ∧ tickFrom < f.1 ∧ tickLen + f.1 ≤ f.2 + 1 := by
  have hmem := List.mem_of_find?_eq_some h
  have hroom := List.find?_some h
  rw [List.mem_filter, decide_eq_true_iff] at hmem
  rw [decide_eq_true_iff, tickAdd_eq hwrap, tickSub_eq (by omega) hwrap] at hroom
  exact ⟨hmem.1, hmem.2, by omega⟩

/-- What `FindFreeTime` finds: a slot with room at `tickFrom`, or a later slot with room. -/
def Finds (fs : FreeSlots) (tickLen tickFrom : Nat) (r : Nat × Bool) : Prop :=
  (r.2 = false ∧ ∃ k, fs.RoomAt tickLen tickFrom k r.1) ∨
    (r.2 = true ∧ tickFrom < r.1 ∧ ∃ k, fs.RoomAt tickLen r.1 k r.1)

theorem Valid.finds_slotAfter (h : fs.Valid sp) (hwrap : tickLen + sp < 2 ^ 64)
    (hk : k ∈ fs.bucketsFrom tickLen) {f : Nat × Nat}
    (hf : fs.slotAfter k tickLen tickFrom = some f) : fs.Finds tickLen tickFrom (f.1, true) := by
  have hlen : k ∈ fs.lengths := ((FreeSlots.mem_bucketsFrom h.lengths).mp hk).1
  have hmem : f ∈ fs.slots k := (List.mem_filter.mp (List.mem_of_find?_eq_some hf)).1
  obtain ⟨hle, hlt⟩ := h.bounds (s := f.1) (e := f.2) ⟨hlen, hmem⟩
  obtain ⟨-, hafter, hroom⟩ := slotAfter_spec hf (by omega)
  exact .inr ⟨rfl, hafter, k, hk, f.2, ⟨hlen, hmem⟩, le_rfl, by omega⟩

theorem Valid.searchBuckets_spec (h : fs.Valid sp) (hwrap : tickLen + tickFrom < 2 ^ 64)
    (hwrap' : tickLen + sp < 2 ^ 64) (hpos : 0 < tickLen + tickFrom) (l : List Nat)
    (hl : ∀ k ∈ l, k ∈ fs.bucketsFrom tickLen) (minTick : Nat)
    (hmin : minTick = maxTick ∨ fs.Finds tickLen tickFrom (minTick, true)) {r : Nat × Bool}
    (hr : fs.searchBuckets tickLen tickFrom l minTick = some r) :
    fs.Finds tickLen tickFrom r := by
  induction l generalizing minTick with
  | nil =>
    rw [searchBuckets] at hr
    split at hr
    · cases hr
    · next hne =>
      cases hr
      exact hmin.resolve_left hne
  | cons k l ih =>
    have hk := hl k List.mem_cons_self
    have hrest := fun k' hk' => hl k' (List.mem_cons_of_mem k hk')
    rw [searchBuckets] at hr
    split at hr
    · next f hf =>
      cases hr
      have hlen : k ∈ fs.lengths := ((FreeSlots.mem_bucketsFrom h.lengths).mp hk).1
      exact .inl ⟨rfl, k, slotAt_spec hlen hk hwrap hpos hf⟩
    · split at hr
      · next f hf =>
        refine ih hrest _ ?_ hr
        split
        · exact .inr (h.finds_slotAfter hwrap' hk hf)
        · exact hmin
      · exact ih hrest _ hmin hr

/-- The search is right. -/
theorem Valid.findFreeTime_spec (h : fs.Valid sp) (hwrap : tickLen + tickFrom < 2 ^ 64)
    (hwrap' : tickLen + sp < 2 ^ 64) (hpos : 0 < tickLen + tickFrom) {r : Nat × Bool}
    (hr : fs.findFreeTime tickLen tickFrom = some r) : fs.Finds tickLen tickFrom r := by
  rw [findFreeTime] at hr
  split at hr
  · split at hr
    · cases hr
    · next k hlast =>
      have hlen : k ∈ fs.lengths := List.mem_of_getLast? hlast
      have hk : k ∈ fs.bucketsFrom tickLen := by
        refine (FreeSlots.mem_bucketsFrom h.lengths).mpr ⟨hlen, fun k' hk' _ => ?_⟩
        rcases getLast?_max h.lengths hlast hk' with rfl | hlt
        · exact le_rfl
        · exact Nat.le_of_lt hlt
      split at hr
      · next f hf =>
        cases hr
        exact .inl ⟨rfl, k, slotAt_spec hlen hk hwrap hpos hf⟩
      · obtain ⟨f, hf, rfl⟩ := Option.map_eq_some_iff.mp hr
        exact h.finds_slotAfter hwrap' hk hf
  · exact h.searchBuckets_spec hwrap hwrap' hpos _ (fun k hk => hk) _ (.inl rfl) hr

/-- Two slots with room for a positive duration at one tick are the same. -/
theorem Valid.roomAt_unique (h : fs.Valid sp) {tickLen' k' s' : Nat} (hlen : 0 < tickLen)
    (hlen' : 0 < tickLen') (hroom : fs.RoomAt tickLen tickFrom k s)
    (hroom' : fs.RoomAt tickLen' tickFrom k' s') : k = k' ∧ s = s' := by
  obtain ⟨-, e, hslot, hs, he⟩ := hroom
  obtain ⟨-, e', hslot', hs', he'⟩ := hroom'
  obtain ⟨hk, hs, -⟩ := h.apart hslot hslot' hs (by omega) hs' (by omega)
  exact ⟨hk, hs⟩

/-- A bucket with room at the tick asked for is recognised by the last of its slots that
begins in time. -/
theorem Valid.slotAt_isSome (h : fs.Valid sp) (hwrap : tickLen + tickFrom < 2 ^ 64)
    (hpos : 0 < tickLen + tickFrom) (hslot : fs.Slot k s e) (hs : s ≤ tickFrom)
    (he : tickFrom + tickLen ≤ e + 1) : ∃ f, fs.slotAt k tickLen tickFrom = some f := by
  have hfilter : (s, e) ∈ (fs.slots k).filter fun f => f.1 ≤ tickFrom := by
    simp [hslot.2, hs]
  cases hlast : ((fs.slots k).filter fun f => f.1 ≤ tickFrom).getLast? with
  | none =>
    rw [List.getLast?_eq_none_iff] at hlast
    rw [hlast] at hfilter
    cases hfilter
  | some f =>
    have hmem := List.mem_of_getLast? hlast
    rw [List.mem_filter, decide_eq_true_iff] at hmem
    have hf : fs.Slot k f.1 f.2 := ⟨hslot.1, hmem.1⟩
    -- the last one reaches as far: it is this slot, or it begins right behind it
    have hreach : tickFrom + tickLen ≤ f.2 + 1 := by
      rcases getLast?_max ((h.sorted k).filter _) hlast hfilter with heq | hlt
      · rw [← heq]
        exact he
      · have hlt : s < f.1 := hlt
        by_contra hshort
        obtain ⟨-, hsame, -⟩ := h.apart hslot hf (x := f.1) hlt.le
          (by have := (h.bounds hf).1; omega) le_rfl (h.bounds hf).1
        omega
    refine ⟨f, ?_⟩
    rw [slotAt, hlast, Option.filter_some, if_pos]
    rw [decide_eq_true_iff, tickAdd_eq hwrap, tickSub_eq (by omega) hwrap]
    omega

/-- When every bucket is reached, the durations of the last one are looked for there. -/
theorem Valid.eq_getLast (h : fs.Valid sp) (hall : ∀ k ∈ fs.lengths, k ≤ tickLen) {k₀ : Nat}
    (hlast : fs.lengths.getLast? = some k₀) (hk : k ∈ fs.bucketsFrom tickLen) : k = k₀ := by
  obtain ⟨hmem, hmax⟩ := (FreeSlots.mem_bucketsFrom h.lengths).mp hk
  have hk₀ := List.mem_of_getLast? hlast
  have hle := hmax k₀ hk₀ (hall k₀ hk₀)
  rcases getLast?_max h.lengths hlast hmem with heq | hlt
  · exact heq
  · omega

/-- The loop over the buckets ends at the first one that has room in time. -/
theorem searchBuckets_at {l : List Nat} (hk : k ∈ l)
    (hat : ∃ f, fs.slotAt k tickLen tickFrom = some f) (minTick : Nat) :
    ∃ s, fs.searchBuckets tickLen tickFrom l minTick = some (s, false) := by
  induction l generalizing minTick with
  | nil => cases hk
  | cons k' l ih =>
    rw [searchBuckets]
    cases hat' : fs.slotAt k' tickLen tickFrom with
    | some f => exact ⟨f.1, rfl⟩
    | none =>
      have hk : k ∈ l := by
        rcases List.mem_cons.mp hk with rfl | hk
        · obtain ⟨f, hf⟩ := hat
          rw [hf] at hat'
          cases hat'
        · exact hk
      cases fs.slotAfter k' tickLen tickFrom with
      | some f => exact ih hk _
      | none => exact ih hk _

/-- A slot with room at the tick asked for is not missed. -/
theorem Valid.findFreeTime_at (h : fs.Valid sp) (hwrap : tickLen + tickFrom < 2 ^ 64)
    (hpos : 0 < tickLen + tickFrom) (hslot : fs.Slot k s e) (hs : s ≤ tickFrom)
    (he : tickFrom + tickLen ≤ e + 1) :
    ∃ s', fs.findFreeTime tickLen tickFrom = some (s', false) := by
  have hat := h.slotAt_isSome hwrap hpos hslot hs he
  have hk : k ∈ fs.bucketsFrom tickLen := h.mem_bucketsFrom hslot (by omega)
  rw [findFreeTime]
  split
  · next hall =>
    cases hlast : fs.lengths.getLast? with
    | none =>
      rw [List.getLast?_eq_none_iff] at hlast
      have := hslot.1
      rw [hlast] at this
      cases this
    | some k₀ =>
      obtain rfl := h.eq_getLast hall hlast hk
      obtain ⟨f, hf⟩ := hat
      exact ⟨f.1, by simp only [hf]⟩
  · exact searchBuckets_at hk hat maxTick

/-- The search finds the slot around a tick when it has room. -/
theorem Valid.findFreeTime_of_room (h : fs.Valid sp) (hwrap : tickLen + tickFrom < 2 ^ 64)
    (hwrap' : tickLen + sp < 2 ^ 64) (hlen : 0 < tickLen)
    (hroom : fs.RoomAt tickLen tickFrom k s) :
    fs.findFreeTime tickLen tickFrom = some (s, false) := by
  obtain ⟨-, e, hslot, hs, he⟩ := id hroom
  obtain ⟨s', hs'⟩ := h.findFreeTime_at hwrap (by omega) hslot hs he
  rcases h.findFreeTime_spec hwrap hwrap' (by omega) hs' with ⟨-, k', hroom'⟩ | ⟨hc, -⟩
  · rw [hs', (h.roomAt_unique hlen hlen hroom hroom').2]
  · cases hc

/-- No other slot has this first tick. -/
theorem Valid.findSlot_eq (h : fs.Valid sp) (hk : k ∈ fs.bucketsFrom tickLen)
    (hslot : fs.Slot k s e) : fs.findSlot tickLen s = some (k, e) := by
  have hin : ∀ {k' : Nat} {f : Nat × Nat}, k' ∈ fs.bucketsFrom tickLen →
      (fs.slots k').find? (fun f => f.1 = s) = some f → k' = k ∧ f.2 = e := by
    intro k' f hk' hf
    have hmem := List.mem_of_find?_eq_some hf
    have hs : f.1 = s := by simpa using List.find?_some hf
    have hslot' : fs.Slot k' f.1 f.2 := ⟨((FreeSlots.mem_bucketsFrom h.lengths).mp hk').1, hmem⟩
    obtain ⟨hk, -, he⟩ := h.apart hslot' hslot le_rfl (h.bounds hslot').1 hs.ge
      (hs ▸ (h.bounds hslot).1)
    exact ⟨hk, he⟩
  rw [findSlot]
  cases hfind : (fs.bucketsFrom tickLen).findSome? fun k =>
      ((fs.slots k).find? fun f => f.1 = s).map fun f => (k, f.2) with
  | none =>
    -- the bucket of the slot has it
    rw [List.findSome?_eq_none_iff] at hfind
    have hnone := hfind k hk
    rw [Option.map_eq_none_iff, List.find?_eq_none] at hnone
    exact absurd (decide_eq_true rfl) (hnone (s, e) hslot.2)
  | some r =>
    obtain ⟨k', hk', hr⟩ := List.exists_of_findSome?_eq_some hfind
    obtain ⟨f, hf, rfl⟩ := Option.map_eq_some_iff.mp hr
    obtain ⟨rfl, rfl⟩ := hin hk' hf
    rfl

/-! ### Changes -/

theorem Valid.mono {sp' : Nat} (h : fs.Valid sp) (hsp : sp ≤ sp') : fs.Valid sp' where
  lengths := h.lengths
  sorted := h.sorted
  bounds hslot := ⟨(h.bounds hslot).1, (h.bounds hslot).2.trans_le hsp⟩
  apart := h.apart
  placed := h.placed

/-- Slots without some of them. -/
theorem Valid.restrict {fs' : FreeSlots} (h : fs.Valid sp) (hlengths : fs'.lengths = fs.lengths)
    (hsub : ∀ k, (fs'.slots k).Sublist (fs.slots k)) : fs'.Valid sp := by
  have hslot : ∀ {k s e}, fs'.Slot k s e → fs.Slot k s e := by
    intro k s e hs
    exact ⟨hlengths ▸ hs.1, (hsub k).subset hs.2⟩
  constructor
  · rw [hlengths]
    exact h.lengths
  · exact fun k => (h.sorted k).sublist (hsub k)
  · exact fun hs => h.bounds (hslot hs)
  · exact fun hs hs' => h.apart (hslot hs) (hslot hs')
  · intro k s e hs k' hk'
    rw [hlengths] at hk'
    exact h.placed (hslot hs) k' hk'

@[simp] theorem eraseSlot_lengths : (fs.eraseSlot k s).lengths = fs.lengths := rfl

theorem eraseSlot_slots (k' : Nat) : (fs.eraseSlot k s).slots k' =
    if k' = k then (fs.slots k).filter fun f => f.1 ≠ s else fs.slots k' := by
  show Function.update _ _ _ _ = _
  rw [Function.update_apply]

theorem slot_eraseSlot {k' s' e' : Nat} :
    (fs.eraseSlot k s).Slot k' s' e' ↔ fs.Slot k' s' e' ∧ ¬ (k' = k ∧ s' = s) := by
  rw [Slot, Slot, eraseSlot_lengths, eraseSlot_slots]
  by_cases hk : k' = k
  · subst hk
    simp [and_assoc]
  · simp [hk]

theorem Valid.eraseSlot (h : fs.Valid sp) : (fs.eraseSlot k s).Valid sp := by
  refine h.restrict rfl fun k' => ?_
  rw [eraseSlot_slots]
  split
  · next hk =>
    rw [hk]
    exact List.filter_sublist
  · exact List.Sublist.refl _

@[simp] theorem addFreeSlot_lengths : (fs.addFreeSlot tickLen tickFrom).lengths = fs.lengths := by
  rw [addFreeSlot]
  split <;> rfl

theorem addFreeSlot_slots (k : Nat) : (fs.addFreeSlot tickLen tickFrom).slots k =
    if fs.lastBucket tickLen = some k
    then insertSlot (tickFrom, tickSub (tickAdd tickFrom tickLen) 1) (fs.slots k)
    else fs.slots k := by
  rw [addFreeSlot]
  split
  · next k₀ hlast =>
    show Function.update _ _ _ _ = _
    by_cases hk : k = k₀
    · subst hk
      rw [Function.update_self, hlast, if_pos rfl]
    · rw [Function.update_of_ne hk, hlast, if_neg fun h => hk (Option.some.inj h).symm]
  · next hlast =>
    rw [hlast, if_neg (by simp)]

/-- A slot that is there after a slot has been added is an old one or the new one. -/
theorem slot_addFreeSlot (hlen : 0 < tickLen) (hwrap : tickFrom + tickLen < 2 ^ 64)
    (hslot : (fs.addFreeSlot tickLen tickFrom).Slot k s e) :
    fs.Slot k s e ∨
      (s = tickFrom ∧ e + 1 = tickFrom + tickLen ∧ fs.lastBucket tickLen = some k) := by
  rw [Slot, addFreeSlot_lengths, addFreeSlot_slots] at hslot
  obtain ⟨hk, hmem⟩ := hslot
  split at hmem
  · next hlast =>
    rcases insertSlot_perm _ _ _ hmem with hnew | hold
    · rw [tickAdd_eq hwrap, tickSub_eq (by omega) hwrap] at hnew
      obtain ⟨rfl, rfl⟩ := Prod.mk.inj hnew
      exact .inr ⟨rfl, by omega, hlast⟩
    · exact .inl ⟨hk, hold⟩
  · exact .inl ⟨hk, hmem⟩

/-- Adding a slot keeps the others. -/
theorem Slot.addFreeSlot (hslot : fs.Slot k s e) :
    (fs.addFreeSlot tickLen tickFrom).Slot k s e := by
  rw [Slot, addFreeSlot_lengths, addFreeSlot_slots]
  refine ⟨hslot.1, ?_⟩
  split
  · exact (mem_insertSlot _ _).1 _ hslot.2
  · exact hslot.2

/-- The new slot is there if its length reaches a bucket. -/
theorem addFreeSlot_slot (hlen : 0 < tickLen) (hwrap : tickFrom + tickLen < 2 ^ 64)
    (hfree : ∀ k e, ¬ fs.Slot k tickFrom e) (hk : k ∈ fs.lengths) (hle : k ≤ tickLen) :
    ∃ k', (fs.addFreeSlot tickLen tickFrom).Slot k' tickFrom (tickFrom + tickLen - 1) := by
  cases hlast : fs.lastBucket tickLen with
  | none =>
    have := lastBucket_none hlast k hk
    omega
  | some k₀ =>
    have hk₀ : k₀ ∈ fs.lengths := (List.mem_filter.mp (List.mem_of_getLast? hlast)).1
    refine ⟨k₀, addFreeSlot_lengths.symm ▸ hk₀, ?_⟩
    rw [addFreeSlot_slots, if_pos hlast, tickAdd_eq hwrap, tickSub_eq (by omega) hwrap]
    refine (mem_insertSlot _ _).2 fun f hf heq => hfree k₀ f.2 ⟨hk₀, ?_⟩
    rw [← show f.1 = tickFrom from heq]
    exact hf

/-- A slot may be added where no tick is free. -/
theorem Valid.addFreeSlot (h : fs.Valid sp) (hlen : 0 < tickLen) (hsp : tickFrom + tickLen ≤ sp)
    (hwrap : sp < 2 ^ 64)
    (hfree : ∀ x ∈ fs.ticks, tickFrom ≤ x → tickFrom + tickLen ≤ x) :
    (fs.addFreeSlot tickLen tickFrom).Valid sp := by
  have hcases : ∀ {k s e}, (fs.addFreeSlot tickLen tickFrom).Slot k s e → fs.Slot k s e ∨ _ :=
    fun hslot => slot_addFreeSlot hlen (by omega) hslot
  constructor
  · rw [addFreeSlot_lengths]
    exact h.lengths
  · intro k
    rw [addFreeSlot_slots]
    split
    · exact insertSlot_sorted _ (h.sorted k)
    · exact h.sorted k
  · intro k s e hslot
    rcases hcases hslot with hold | ⟨rfl, he, -⟩
    · exact h.bounds hold
    · omega
  · intro k s e k' s' e' x hslot hslot' hs he hs' he'
    rcases hcases hslot with hold | ⟨rfl, hend, hlast⟩
    · rcases hcases hslot' with hold' | ⟨rfl, hend', -⟩
      · exact h.apart hold hold' hs he hs' he'
      · have := hfree x ⟨k, s, e, hold, hs, he⟩ hs'
        omega
    · rcases hcases hslot' with hold' | ⟨rfl, hend', hlast'⟩
      · have := hfree x ⟨k', s', e', hold', hs', he'⟩ hs
        omega
      · rw [hlast] at hlast'
        exact ⟨Option.some.inj hlast', rfl, by omega⟩
  · intro k s e hslot k' hk' hle
    rw [addFreeSlot_lengths] at hk'
    rcases hcases hslot with hold | ⟨rfl, hend, hlast⟩
    · exact h.placed hold k' hk' hle
    · exact (lastBucket_spec h.lengths hlast).2.2 k' hk' (by omega)

/-- The free ticks after a slot has been added. -/
theorem ticks_addFreeSlot (hlen : 0 < tickLen) (hwrap : tickFrom + tickLen < 2 ^ 64) :
    (fs.addFreeSlot tickLen tickFrom).ticks ⊆
      fs.ticks ∪ Set.Ico tickFrom (tickFrom + tickLen) := by
  rintro x ⟨k, s, e, hslot, hs, he⟩
  rcases slot_addFreeSlot hlen hwrap hslot with hold | ⟨rfl, hend, -⟩
  · exact .inl ⟨k, s, e, hold, hs, he⟩
  · exact .inr ⟨hs, by omega⟩

/-- A piece is put back under a condition. -/
def addIf (fs : FreeSlots) (c : Prop) [Decidable c] (tickLen tickFrom : Nat) : FreeSlots :=
  if c then fs.addFreeSlot tickLen tickFrom else fs

section AddIf

variable (c : Prop) [Decidable c]

@[simp] theorem addIf_lengths : (fs.addIf c tickLen tickFrom).lengths = fs.lengths := by
  rw [addIf]
  split
  · exact addFreeSlot_lengths
  · rfl

theorem Slot.addIf (hslot : fs.Slot k s e) : (fs.addIf c tickLen tickFrom).Slot k s e := by
  rw [FreeSlots.addIf]
  split
  · exact hslot.addFreeSlot
  · exact hslot

theorem Valid.addIf (h : fs.Valid sp) (hwrap : sp < 2 ^ 64) (hadd : c → 0 < tickLen ∧
      tickFrom + tickLen ≤ sp ∧ ∀ x ∈ fs.ticks, tickFrom ≤ x → tickFrom + tickLen ≤ x) :
    (fs.addIf c tickLen tickFrom).Valid sp ∧ ∀ x ∈ (fs.addIf c tickLen tickFrom).ticks,
      x ∈ fs.ticks ∨ (c ∧ tickFrom ≤ x ∧ x < tickFrom + tickLen) := by
  rw [FreeSlots.addIf]
  split
  · next hc =>
    obtain ⟨hlen, hsp, hfree⟩ := hadd hc
    refine ⟨h.addFreeSlot hlen hsp hwrap hfree, fun x hx => ?_⟩
    rcases ticks_addFreeSlot hlen (by omega) hx with hx | hx
    · exact .inl hx
    · exact .inr ⟨hc, hx.1, hx.2⟩
  · exact ⟨h, fun x hx => .inl hx⟩

end AddIf

/-- Erasing a slot takes its ticks away. -/
theorem Valid.ticks_eraseSlot (h : fs.Valid sp) (hslot : fs.Slot k s e) :
    (fs.eraseSlot k s).ticks ⊆ fs.ticks \ Set.Icc s e := by
  rintro x ⟨k', s', e', hslot', hs', he'⟩
  rw [slot_eraseSlot] at hslot'
  refine ⟨⟨k', s', e', hslot'.1, hs', he'⟩, fun hx => hslot'.2 ?_⟩
  obtain ⟨hk, hs, -⟩ := h.apart hslot'.1 hslot hs' he' hx.1 hx.2
  exact ⟨hk, hs⟩

theorem Valid.flushAFreeSlot (h : fs.Valid sp) (currentTick : Nat) :
    (fs.flushAFreeSlot currentTick).Valid sp :=
  h.restrict rfl fun _ => List.dropWhile_sublist _

theorem ticks_flushAFreeSlot (currentTick : Nat) :
    (fs.flushAFreeSlot currentTick).ticks ⊆ fs.ticks := by
  rintro x ⟨k, s, e, hslot, hs, he⟩
  exact ⟨k, s, e, ⟨hslot.1, (List.dropWhile_sublist _).subset hslot.2⟩, hs, he⟩

/-- The constructor's maps. -/
theorem valid_empty (lengths : List Nat) : (empty lengths).Valid 0 where
  lengths := by
    have hsorted : ((lengths.insertionSort (· ≤ ·)).dedup).Pairwise (· ≤ ·) :=
      (List.pairwise_insertionSort (· ≤ ·) lengths).sublist (List.dedup_sublist _)
    exact (hsorted.and (List.nodup_dedup _)).imp fun h => lt_of_le_of_ne h.1 h.2
  sorted _ := List.Pairwise.nil
  bounds hslot := by cases hslot.2
  apart hslot := by cases hslot.2
  placed hslot := by cases hslot.2

end FreeSlots

namespace Resource

variable {r : Resource} {tickLen tickFrom : Nat}

/-- The invariant of a resource. -/
def Valid (r : Resource) : Prop := r.freeSlots.Valid r.startPoint

/-- The free ticks: those of the slots, and all from the start point on. -/
def free (r : Resource) : Set Nat := r.freeSlots.ticks ∪ Set.Ici r.startPoint

/-- There is room for the duration at `tickFrom` in the slot that begins at `startTick`, or
behind the start point. -/
def Room (r : Resource) (tickLen tickFrom startTick : Nat) : Prop :=
  (startTick = r.startPoint ∧ startTick ≤ tickFrom) ∨
    ∃ k, r.freeSlots.RoomAt tickLen tickFrom k startTick

theorem Room.subset_free {startTick : Nat} (h : r.Room tickLen tickFrom startTick) :
    Set.Ico tickFrom (tickFrom + tickLen) ⊆ r.free := by
  rintro x ⟨hx, hx'⟩
  rcases h with ⟨rfl, hle⟩ | ⟨k, -, e, hslot, hs, he⟩
  · exact .inr (hle.trans hx)
  · exact .inl ⟨k, startTick, e, hslot, hs.trans hx, by omega⟩

theorem Room.le {startTick : Nat} (h : r.Room tickLen tickFrom startTick) :
    startTick ≤ tickFrom := by
  rcases h with ⟨-, hle⟩ | ⟨-, -, -, -, hle, -⟩
  · exact hle
  · exact hle

/-- Room for a longer duration is room for its end. -/
theorem Room.behind {len gap startTick : Nat} (hr : r.Valid)
    (h : r.Room (len + gap) tickFrom startTick) : r.Room len (tickFrom + gap) startTick := by
  rcases h with ⟨rfl, hle⟩ | ⟨k, hk, e, hslot, hs, he⟩
  · exact .inl ⟨rfl, hle.trans (Nat.le_add_right _ _)⟩
  · exact .inr
      ⟨k, FreeSlots.bucketsFrom_anti hr.lengths (by omega) hk, e, hslot, by omega, by omega⟩

section Search

variable {startTick : Nat} (hr : r.Valid)
include hr

/-- A slot begins below the start point. -/
theorem RoomAt.lt {k : Nat} (h : r.freeSlots.RoomAt tickLen tickFrom k startTick) :
    startTick < r.startPoint := by
  obtain ⟨-, e, hslot, -⟩ := h
  have := hr.bounds hslot
  omega

/-- A search ends at a tick with room, no earlier than where it begins and no later than
the start point or there. -/
theorem search_spec (hwrap : tickLen + tickFrom < 2 ^ 64)
    (hwrap' : tickLen + r.startPoint < 2 ^ 64) (hpos : 0 < tickLen + tickFrom) :
    tickFrom ≤ (r.search tickLen tickFrom).1 ∧
      (r.search tickLen tickFrom).1 ≤ max tickFrom r.startPoint ∧
      r.Room tickLen (r.search tickLen tickFrom).1 (r.search tickLen tickFrom).2 := by
  rw [search]
  cases hfind : r.freeSlots.findFreeTime tickLen tickFrom with
  | none =>
    dsimp only
    split
    · next hlt => exact ⟨hlt.le, le_max_right _ _, .inl ⟨rfl, le_rfl⟩⟩
    · next hle => exact ⟨le_rfl, le_max_left _ _, .inl ⟨rfl, Nat.not_lt.mp hle⟩⟩
  | some f =>
    obtain ⟨tick, conflicts⟩ := f
    rcases hr.findFreeTime_spec hwrap hwrap' hpos hfind with ⟨hc, k, hroom⟩ | ⟨hc, hlt, k, hroom⟩
    · obtain rfl : conflicts = false := hc
      exact ⟨le_rfl, le_max_left _ _, .inr ⟨k, hroom⟩⟩
    · obtain rfl : conflicts = true := hc
      have hlt' : tick < r.startPoint := RoomAt.lt hr hroom
      exact ⟨Nat.le_of_lt hlt, hlt'.le.trans (le_max_right _ _), .inr ⟨k, hroom⟩⟩

/-- A search whose slot begins in time does not move. -/
theorem search_stays (hwrap : tickLen + tickFrom < 2 ^ 64)
    (hwrap' : tickLen + r.startPoint < 2 ^ 64) (hpos : 0 < tickLen + tickFrom)
    (h : (r.search tickLen tickFrom).2 ≤ tickFrom) : (r.search tickLen tickFrom).1 = tickFrom := by
  rw [search] at h ⊢
  cases hfind : r.freeSlots.findFreeTime tickLen tickFrom with
  | none =>
    rw [hfind] at h
    exact if_neg (Nat.not_lt.mpr h)
  | some f =>
    rw [hfind] at h
    obtain ⟨tick, conflicts⟩ := f
    rcases hr.findFreeTime_spec hwrap hwrap' hpos hfind with ⟨hc, -⟩ | ⟨-, hlt, -⟩
    · obtain rfl : conflicts = false := hc
      rfl
    · exact absurd h (Nat.not_le.mpr hlt)

/-- A search from a tick with room does not move. -/
theorem search_of_room (hwrap : tickLen + tickFrom < 2 ^ 64)
    (hwrap' : tickLen + r.startPoint < 2 ^ 64) (hlen : 0 < tickLen)
    (h : r.Room tickLen tickFrom startTick) : (r.search tickLen tickFrom).1 = tickFrom := by
  rcases h with ⟨rfl, hle⟩ | ⟨k, hroom⟩
  · have hspec := search_spec hr hwrap hwrap' (by omega)
    rw [max_eq_left hle] at hspec
    exact Nat.le_antisymm hspec.2.1 hspec.1
  · rw [search, hr.findFreeTime_of_room hwrap hwrap' hlen hroom]
    rfl

/-- At one tick there is room in one place only. -/
theorem Room.unique {tickLen' startTick' : Nat} (hlen : 0 < tickLen) (hlen' : 0 < tickLen')
    (h : r.Room tickLen tickFrom startTick) (h' : r.Room tickLen' tickFrom startTick') :
    startTick = startTick' := by
  rcases h with ⟨rfl, hle⟩ | ⟨k, hroom⟩ <;> rcases h' with ⟨rfl, hle'⟩ | ⟨k', hroom'⟩
  · rfl
  · obtain ⟨-, e, hslot, hs, he⟩ := hroom'
    have := hr.bounds hslot
    omega
  · obtain ⟨-, e, hslot, hs, he⟩ := hroom
    have := hr.bounds hslot
    omega
  · exact (hr.roomAt_unique hlen hlen' hroom hroom').2

end Search

/-! ### Taking a duration out -/

/-- `r'` is `r` with the duration taken out of the slot or the free end that begins at
`startTick`, or only cut out there. -/
structure Takes (r r' : Resource) (tickLen tickFrom startTick : Nat) (split : Bool) : Prop where
  valid : r'.Valid
  lengths : r'.freeSlots.lengths = r.freeSlots.lengths
  free : ∀ x ∈ r'.free, x ∈ r.free ∧
    (split = false → ¬ (tickFrom ≤ x ∧ x < tickFrom + tickLen))
  startPoint : r'.startPoint = if startTick = r.startPoint then tickFrom + tickLen else r.startPoint
  keeps : ∀ {k s e}, r.freeSlots.Slot k s e → s ≠ startTick → r'.freeSlots.Slot k s e
  rest : ∀ {k e k'}, r.freeSlots.Slot k startTick e → tickFrom + tickLen ≤ e →
    k' ∈ r.freeSlots.lengths → k' ≤ e + 1 - (tickFrom + tickLen) →
    ∃ k, r'.freeSlots.Slot k (tickFrom + tickLen) e

/-- What is left of the free end: the duration if it is only cut out, and the ticks in front. -/
theorem insertFreeSlot_end_eq (split : Bool) (hle : r.startPoint ≤ tickFrom)
    (hwrap : tickFrom + tickLen < 2 ^ 64) :
    r.insertFreeSlot tickLen tickFrom r.startPoint split = .ok
      ⟨(r.freeSlots.addIf (split = true) tickLen tickFrom).addIf (r.startPoint < tickFrom)
        (tickFrom - r.startPoint) r.startPoint, tickFrom + tickLen⟩ := by
  rw [insertFreeSlot, if_pos rfl]
  by_cases heq : tickFrom = r.startPoint
  · rw [if_pos heq, tickAdd_eq (heq ▸ hwrap)]
    simp [FreeSlots.addIf, heq]
  · have hlt : r.startPoint < tickFrom := by omega
    rw [if_neg heq, if_neg (by omega), tickSub_eq hle (by omega), tickAdd_eq hwrap]
    simp [FreeSlots.addIf, hlt]

/-- What is left of a slot: its ticks in front of the duration and behind it, and the duration
if it is only cut out. -/
theorem insertFreeSlot_slot_eq {startTick k e : Nat} (split : Bool) (hr : r.Valid)
    (hk : k ∈ r.freeSlots.bucketsFrom tickLen) (hslot : r.freeSlots.Slot k startTick e)
    (hle : startTick ≤ tickFrom) (he : tickFrom + tickLen ≤ e + 1) (hwrap : r.startPoint < 2 ^ 64)
    (hpos : 0 < tickFrom + tickLen) :
    r.insertFreeSlot tickLen tickFrom startTick split = .ok
      ⟨(((r.freeSlots.eraseSlot k startTick).addIf (startTick < tickFrom)
        (tickFrom - startTick) startTick).addIf (split = true) tickLen tickFrom).addIf
          (tickFrom + tickLen ≤ e) (e + 1 - (tickFrom + tickLen)) (tickFrom + tickLen),
        r.startPoint⟩ := by
  obtain ⟨hse, hesp⟩ := hr.bounds hslot
  have hfind : r.freeSlots.findSlot tickLen startTick = some (k, e) := hr.findSlot_eq hk hslot
  rw [insertFreeSlot, if_neg (by omega), hfind]
  dsimp only
  rw [if_neg (by omega), tickAdd_tickSub (by omega) (by omega), if_neg (by omega),
    tickSub_eq hle (by omega), tickAdd_eq (a := tickLen) (by omega),
    tickSub_eq (a := tickLen + tickFrom) (by omega) (by omega)]
  by_cases hend : tickFrom + tickLen ≤ e
  · have hlast : tickLen + tickFrom - 1 < e := by omega
    have hrest : e - (tickFrom + tickLen - 1) = e + 1 - (tickFrom + tickLen) := by omega
    rw [tickAdd_eq (by omega), tickSub_eq (a := tickFrom + tickLen) (by omega) (by omega),
      tickSub_eq (by omega) (by omega), hrest]
    simp [FreeSlots.addIf, hlast, hend]
  · have hlast : ¬ tickLen + tickFrom - 1 < e := by omega
    simp [FreeSlots.addIf, hlast, hend]

section Insert

variable {startTick : Nat} {split : Bool}

/-- The duration is taken from the free end. -/
theorem insertFreeSlot_end (hr : r.Valid) (hle : r.startPoint ≤ tickFrom)
    (hwrap : tickFrom + tickLen < 2 ^ 64) (hsplit : split = true → 0 < tickLen) :
    ∃ r', r.insertFreeSlot tickLen tickFrom r.startPoint split = .ok r' ∧
      r.Takes r' tickLen tickFrom r.startPoint split := by
  have hbelow : ∀ x ∈ r.freeSlots.ticks, x < r.startPoint := by
    rintro x ⟨k, s, e, hslot, -, he⟩
    exact he.trans_lt (hr.bounds hslot).2
  have hnone : ∀ k e, ¬ r.freeSlots.Slot k r.startPoint e := by
    intro k e hslot
    have := hr.bounds hslot
    omega
  have hvalid : r.freeSlots.Valid (tickFrom + tickLen) := hr.mono (by omega)
  -- the duration itself, and then the ticks in front of it
  let fs₁ := r.freeSlots.addIf (split = true) tickLen tickFrom
  let fs₂ := fs₁.addIf (r.startPoint < tickFrom) (tickFrom - r.startPoint) r.startPoint
  obtain ⟨hvalid₁, hticks₁⟩ : fs₁.Valid (tickFrom + tickLen) ∧ ∀ x ∈ fs₁.ticks, _ :=
    hvalid.addIf _ hwrap fun h => ⟨hsplit h, le_rfl, fun x hx _ => by
      have := hbelow x hx
      omega⟩
  obtain ⟨hvalid₂, hticks₂⟩ : fs₂.Valid (tickFrom + tickLen) ∧ ∀ x ∈ fs₂.ticks, _ :=
    hvalid₁.addIf _ hwrap fun h => ⟨by omega, by omega, fun x hx hle => by
      rcases hticks₁ x hx with hx | hx
      · have := hbelow x hx
        omega
      · omega⟩
  refine ⟨⟨fs₂, tickFrom + tickLen⟩, ?_, hvalid₂, by simp [fs₁, fs₂], ?_, (if_pos rfl).symm,
    fun hslot _ => (hslot.addIf _).addIf _, fun hslot => absurd hslot (hnone _ _)⟩
  · exact insertFreeSlot_end_eq split hle hwrap
  · rintro x (hx | hx)
    · rcases hticks₂ x hx with hx | ⟨-, hx, hx'⟩
      · rcases hticks₁ x hx with hx | ⟨h, hx, -⟩
        · have := hbelow x hx
          exact ⟨.inl hx, fun _ => by omega⟩
        · refine ⟨.inr (hle.trans hx), fun h' => ?_⟩
          rw [h] at h'
          cases h'
      · exact ⟨.inr hx, fun _ => by omega⟩
    · have hx : tickFrom + tickLen ≤ x := hx
      refine ⟨.inr ?_, fun _ => by omega⟩
      show r.startPoint ≤ x
      omega

/-- The duration is taken from a slot. -/
theorem insertFreeSlot_slot (hr : r.Valid) {k : Nat}
    (hroom : r.freeSlots.RoomAt tickLen tickFrom k startTick)
    (hwrap : r.startPoint < 2 ^ 64) (hpos : 0 < tickFrom + tickLen)
    (hsplit : split = true → 0 < tickLen) :
    ∃ r', r.insertFreeSlot tickLen tickFrom startTick split = .ok r' ∧
      r.Takes r' tickLen tickFrom startTick split := by
  obtain ⟨hk, e, hslot, hle, he⟩ := hroom
  obtain ⟨hse, hesp⟩ := hr.bounds hslot
  have hne : startTick ≠ r.startPoint := by omega
  -- without the slot, its ticks are put back up to the duration and from its end on
  have hvalid₀ : (r.freeSlots.eraseSlot k startTick).Valid r.startPoint := hr.eraseSlot
  have hticks₀ := hr.ticks_eraseSlot hslot
  let fs₁ := (r.freeSlots.eraseSlot k startTick).addIf (startTick < tickFrom)
    (tickFrom - startTick) startTick
  let fs₂ := fs₁.addIf (split = true) tickLen tickFrom
  let fs₃ := fs₂.addIf (tickFrom + tickLen ≤ e) (e + 1 - (tickFrom + tickLen)) (tickFrom + tickLen)
  obtain ⟨hvalid₁, hticks₁⟩ : fs₁.Valid r.startPoint ∧ ∀ x ∈ fs₁.ticks, _ :=
    hvalid₀.addIf _ hwrap fun h => ⟨by omega, by omega, fun x hx hx' => by
      have : ¬ (startTick ≤ x ∧ x ≤ e) := (hticks₀ hx).2
      omega⟩
  obtain ⟨hvalid₂, hticks₂⟩ : fs₂.Valid r.startPoint ∧ ∀ x ∈ fs₂.ticks, _ :=
    hvalid₁.addIf _ hwrap fun h => ⟨hsplit h, by omega, fun x hx hx' => by
      rcases hticks₁ x hx with hx | hx
      · have : ¬ (startTick ≤ x ∧ x ≤ e) := (hticks₀ hx).2
        omega
      · omega⟩
  have hbefore : ∀ x ∈ fs₂.ticks, tickFrom + tickLen ≤ x → e < x := by
    intro x hx hx'
    rcases hticks₂ x hx with hx | hx
    · rcases hticks₁ x hx with hx | hx
      · have : ¬ (startTick ≤ x ∧ x ≤ e) := (hticks₀ hx).2
        omega
      · omega
    · omega
  obtain ⟨hvalid₃, hticks₃⟩ : fs₃.Valid r.startPoint ∧ ∀ x ∈ fs₃.ticks, _ :=
    hvalid₂.addIf _ hwrap fun h => ⟨by omega, by omega, fun x hx hx' => by
      have := hbefore x hx hx'
      omega⟩
  refine ⟨⟨fs₃, r.startPoint⟩, ?_, hvalid₃, by simp [fs₁, fs₂, fs₃], ?_, (if_neg hne).symm,
    fun hold hs => ?_, ?_⟩
  · exact insertFreeSlot_slot_eq split hr hk hslot hle he hwrap hpos
  · rintro x (hx | hx)
    · have hold : ∀ x, startTick ≤ x → x ≤ e → x ∈ r.free := fun x hx hx' =>
        .inl ⟨k, startTick, e, hslot, hx, hx'⟩
      rcases hticks₃ x hx with hx | ⟨h, hx, hx'⟩
      · rcases hticks₂ x hx with hx | ⟨h, hx, hx'⟩
        · rcases hticks₁ x hx with hx | ⟨h, hx, hx'⟩
          · have hout : ¬ (startTick ≤ x ∧ x ≤ e) := (hticks₀ hx).2
            exact ⟨.inl (hticks₀ hx).1, fun _ => by omega⟩
          · exact ⟨hold x hx (by omega), fun _ => by omega⟩
        · refine ⟨hold x (by omega) (by omega), fun h' => ?_⟩
          rw [h] at h'
          cases h'
      · exact ⟨hold x (by omega) (by omega), fun _ => by omega⟩
    · have hx : r.startPoint ≤ x := hx
      exact ⟨.inr hx, fun _ => by omega⟩
  · exact ((((FreeSlots.slot_eraseSlot.mpr ⟨hold, fun h => hs h.2⟩).addIf _).addIf _).addIf _)
  · intro k₁ e' k' hslot' hend hk' hle'
    obtain ⟨-, -, rfl⟩ := hr.apart hslot hslot' le_rfl hse le_rfl (hr.bounds hslot').1
    have hfs₃ : fs₃ = fs₂.addFreeSlot (e + 1 - (tickFrom + tickLen)) (tickFrom + tickLen) :=
      if_pos hend
    have hnone : ∀ k e, ¬ fs₂.Slot k (tickFrom + tickLen) e := fun k e' hslot' => by
      have := hbefore _ ⟨k, _, e', hslot', le_rfl, (hvalid₂.bounds hslot').1⟩ le_rfl
      omega
    obtain ⟨k, hnew⟩ := FreeSlots.addFreeSlot_slot (by omega) (by omega) hnone
      (by simpa [fs₁, fs₂] using hk') hle'
    refine ⟨k, ?_⟩
    rw [show (⟨fs₃, r.startPoint⟩ : Resource).freeSlots = fs₃ from rfl, hfs₃]
    rwa [show tickFrom + tickLen + (e + 1 - (tickFrom + tickLen)) - 1 = e by omega] at hnew

variable (split) in
/-- A duration for which there is room is taken out. -/
theorem insertFreeSlot_spec (hr : r.Valid) (hroom : r.Room tickLen tickFrom startTick)
    (hwrap : tickFrom + tickLen < 2 ^ 64) (hwrap' : r.startPoint < 2 ^ 64)
    (hpos : 0 < tickFrom + tickLen) (hsplit : split = true → 0 < tickLen) :
    ∃ r', r.insertFreeSlot tickLen tickFrom startTick split = .ok r' ∧
      r.Takes r' tickLen tickFrom startTick split := by
  rcases hroom with ⟨rfl, hle⟩ | ⟨k, hroom⟩
  · exact insertFreeSlot_end hr hle hwrap hsplit
  · exact insertFreeSlot_slot hr hroom hwrap' hpos hsplit

end Insert

end Resource

end SimpleSSD.PAL
