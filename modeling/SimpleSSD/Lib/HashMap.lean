import Mathlib.Data.List.Nodup
import Mathlib.Data.List.Perm.Basic
import Mathlib.Tactic.ByContra

/-!
# Hash maps with an iteration order

`UnorderedMap K V` is a finite map together with the order in which a loop over
it meets its entries. A hash table leaves that order open, so every operation
that adds a key takes the position at which the new key enters the order;
a result that holds for every position holds for every hash function. The
entries already present keep their relative order under all operations.

Equality of keys is the only thing lookups depend on: the lemmas about `find?`
never mention the position.
-/

universe u v

/-- A finite map, listed in iteration order, with each key at most once. -/
structure UnorderedMap (K : Type u) (V : Type v) where
  entries : List (K × V)
  nodupKeys : (entries.map Prod.fst).Nodup

namespace UnorderedMap

variable {K : Type u} {V : Type v}

def empty : UnorderedMap K V := ⟨[], List.nodup_nil⟩

def keys (m : UnorderedMap K V) : List K := m.entries.map Prod.fst

def size (m : UnorderedMap K V) : Nat := m.entries.length

theorem length_keys (m : UnorderedMap K V) : m.keys.length = m.size := List.length_map _

/-- The entry `begin()` points at, `none` for the end iterator. -/
def begin? (m : UnorderedMap K V) : Option (K × V) := m.entries.head?

instance : Membership K (UnorderedMap K V) := ⟨fun m k => k ∈ m.keys⟩

theorem mem_iff {m : UnorderedMap K V} {k : K} : k ∈ m ↔ ∃ v, (k, v) ∈ m.entries := by
  show k ∈ m.entries.map Prod.fst ↔ _
  simp

/-- The key of an entry determines its value. -/
theorem value_unique {m : UnorderedMap K V} {k : K} {v v' : V}
    (h : (k, v) ∈ m.entries) (h' : (k, v') ∈ m.entries) : v = v' :=
  congrArg Prod.snd (List.inj_on_of_nodup_map m.nodupKeys h h' rfl)

/-- A loop that writes to the value of every entry. -/
def mapValues (m : UnorderedMap K V) (f : V → V) : UnorderedMap K V where
  entries := m.entries.map fun e => (e.1, f e.2)
  nodupKeys := by
    rw [List.map_map]
    exact m.nodupKeys

theorem mem_entries_mapValues {m : UnorderedMap K V} {f : V → V} {k : K} {v : V} :
    (k, v) ∈ (m.mapValues f).entries ↔ ∃ v₀, (k, v₀) ∈ m.entries ∧ f v₀ = v := by
  show (k, v) ∈ m.entries.map _ ↔ _
  rw [List.mem_map]
  constructor
  · rintro ⟨e, he, heq⟩
    obtain ⟨rfl, rfl⟩ := Prod.mk.inj heq
    exact ⟨e.2, he, rfl⟩
  · rintro ⟨v₀, hv₀, rfl⟩
    exact ⟨(k, v₀), hv₀, rfl⟩

/-! ### Sizes -/

/-- A map with fewer keys is smaller. -/
theorem size_le_of_subset {m m' : UnorderedMap K V} (h : ∀ k ∈ m', k ∈ m) : m'.size ≤ m.size := by
  rw [← length_keys, ← length_keys]
  exact (List.subperm_of_subset m'.nodupKeys fun k hk => h k hk).length_le

theorem size_lt_of_subset {m m' : UnorderedMap K V} (h : ∀ k ∈ m', k ∈ m) {k : K} (hk : k ∈ m)
    (hk' : k ∉ m') : m'.size < m.size := by
  rw [← length_keys, ← length_keys]
  have hnodup : (k :: m'.keys).Nodup := List.nodup_cons.mpr ⟨hk', m'.nodupKeys⟩
  refine (List.subperm_of_subset hnodup ?_).length_le
  intro l hl
  rcases List.mem_cons.mp hl with rfl | hl
  · exact hk
  · exact h l hl

section Lookup

variable [DecidableEq K]

instance (k : K) (m : UnorderedMap K V) : Decidable (k ∈ m) :=
  inferInstanceAs (Decidable (k ∈ m.keys))

def find? (m : UnorderedMap K V) (k : K) : Option V :=
  (m.entries.find? fun e => e.1 = k).map Prod.snd

/-! ### Lookup and membership -/

theorem find?_eq_some_iff {m : UnorderedMap K V} {k : K} {v : V} :
    m.find? k = some v ↔ (k, v) ∈ m.entries := by
  constructor
  · intro h
    obtain ⟨⟨k', v'⟩, hfind, hv⟩ := Option.map_eq_some_iff.mp h
    have hk : k' = k := by simpa using List.find?_some hfind
    subst hk hv
    exact List.mem_of_find?_eq_some hfind
  · intro h
    have hsome : (m.entries.find? fun e => decide (e.1 = k)).isSome := by
      rw [List.find?_isSome]
      exact ⟨(k, v), h, by simp⟩
    obtain ⟨⟨k', v'⟩, hfind⟩ := Option.isSome_iff_exists.mp hsome
    have hk : k' = k := by simpa using List.find?_some hfind
    subst hk
    rw [find?, hfind, Option.map_some, value_unique (List.mem_of_find?_eq_some hfind) h]

theorem mem_iff_find? {m : UnorderedMap K V} {k : K} : k ∈ m ↔ ∃ v, m.find? k = some v := by
  simp only [mem_iff, find?_eq_some_iff]

theorem find?_eq_none_iff {m : UnorderedMap K V} {k : K} : m.find? k = none ↔ k ∉ m := by
  rw [Option.eq_none_iff_forall_ne_some, mem_iff_find?, not_exists]

theorem mem_of_find? {m : UnorderedMap K V} {k : K} {v : V} (h : m.find? k = some v) : k ∈ m :=
  mem_iff_find?.mpr ⟨v, h⟩

/-- The first entry is an entry. -/
theorem find?_of_begin? {m : UnorderedMap K V} {k : K} {v : V} (h : m.begin? = some (k, v)) :
    m.find? k = some v :=
  find?_eq_some_iff.mpr (List.mem_of_mem_head? h)

@[simp] theorem find?_empty (k : K) : (empty : UnorderedMap K V).find? k = none := rfl

/-! ### Adding, replacing and removing entries -/

/-- `emplace`: adds the entry at position `pos` of the order unless its key is
already there. -/
def emplace (m : UnorderedMap K V) (pos : Nat) (k : K) (v : V) : UnorderedMap K V :=
  if h : k ∈ m then m
  else
    { entries := m.entries.take pos ++ (k, v) :: m.entries.drop pos
      nodupKeys := by
        have hp : (m.entries.take pos ++ (k, v) :: m.entries.drop pos).Perm
            ((k, v) :: m.entries) :=
          List.perm_middle.trans (by rw [List.take_append_drop])
        exact ((hp.map Prod.fst).nodup_iff).mpr (List.nodup_cons.mpr ⟨h, m.nodupKeys⟩) }

/-- `operator[] =`: replaces the value in place, or adds the entry. -/
def set (m : UnorderedMap K V) (pos : Nat) (k : K) (v : V) : UnorderedMap K V :=
  if k ∈ m then
    { entries := m.entries.map fun e => if e.1 = k then (k, v) else e
      nodupKeys := by
        have hfst : (Prod.fst ∘ fun e : K × V => if e.1 = k then (k, v) else e) = Prod.fst := by
          funext e
          by_cases he : e.1 = k <;> simp [he]
        rw [List.map_map, hfst]
        exact m.nodupKeys }
  else m.emplace pos k v

def erase (m : UnorderedMap K V) (k : K) : UnorderedMap K V where
  entries := m.entries.filter fun e => e.1 ≠ k
  nodupKeys := m.nodupKeys.sublist (List.filter_sublist.map _)

/-- A new key enters the list of entries and nothing else changes. -/
theorem emplace_perm {m : UnorderedMap K V} {k : K} (h : k ∉ m) (pos : Nat) (v : V) :
    (m.emplace pos k v).entries.Perm ((k, v) :: m.entries) := by
  rw [emplace, dif_neg h]
  exact List.perm_middle.trans (by rw [List.take_append_drop])

theorem find?_emplace {m : UnorderedMap K V} {k : K} (h : k ∉ m) (pos : Nat) (v : V) (k' : K) :
    (m.emplace pos k v).find? k' = if k' = k then some v else m.find? k' := by
  refine Option.ext fun v' => ?_
  rw [find?_eq_some_iff, (emplace_perm h pos v).mem_iff, List.mem_cons, Prod.mk.injEq]
  by_cases hk : k' = k
  · subst hk
    have hno : (k', v') ∉ m.entries := fun hm => h (mem_iff.mpr ⟨v', hm⟩)
    simp [hno, eq_comm]
  · simp [hk, find?_eq_some_iff]

theorem mem_entries_set {m : UnorderedMap K V} {k k' : K} (pos : Nat) {v v' : V} :
    (k', v') ∈ (m.set pos k v).entries ↔
      (k' = k ∧ v' = v) ∨ (k' ≠ k ∧ (k', v') ∈ m.entries) := by
  by_cases h : k ∈ m
  · rw [set, if_pos h]
    obtain ⟨v₀, hv₀⟩ := mem_iff.mp h
    simp only [List.mem_map]
    constructor
    · rintro ⟨e, he, heq⟩
      by_cases hk : e.1 = k
      · rw [if_pos hk, Prod.mk.injEq] at heq
        exact .inl ⟨heq.1.symm, heq.2.symm⟩
      · rw [if_neg hk] at heq
        subst heq
        exact .inr ⟨hk, he⟩
    · rintro (⟨rfl, rfl⟩ | ⟨hk, he⟩)
      · exact ⟨(k', v₀), hv₀, by simp⟩
      · exact ⟨(k', v'), he, by simp [hk]⟩
  · rw [set, if_neg h, (emplace_perm h pos v).mem_iff, List.mem_cons, Prod.mk.injEq]
    constructor
    · rintro (hk | hm)
      · exact .inl hk
      · refine .inr ⟨?_, hm⟩
        rintro rfl
        exact h (mem_iff.mpr ⟨v', hm⟩)
    · rintro (hk | ⟨-, hm⟩)
      · exact .inl hk
      · exact .inr hm

@[simp] theorem find?_set {m : UnorderedMap K V} {k : K} (pos : Nat) (v : V) (k' : K) :
    (m.set pos k v).find? k' = if k' = k then some v else m.find? k' := by
  refine Option.ext fun v' => ?_
  rw [find?_eq_some_iff, mem_entries_set]
  by_cases hk : k' = k
  · simp [hk, eq_comm]
  · simp [hk, find?_eq_some_iff]

@[simp] theorem find?_erase {m : UnorderedMap K V} {k : K} (k' : K) :
    (m.erase k).find? k' = if k' = k then none else m.find? k' := by
  refine Option.ext fun v' => ?_
  rw [find?_eq_some_iff, erase, List.mem_filter]
  by_cases hk : k' = k
  · simp [hk]
  · simp [hk, find?_eq_some_iff]

/-- Removing several keys. -/
theorem find?_foldl_erase (keys : List K) (m : UnorderedMap K V) (k : K) :
    (keys.foldl erase m).find? k = if k ∈ keys then none else m.find? k := by
  induction keys generalizing m with
  | nil => rfl
  | cons k' keys ih =>
    rw [List.foldl_cons, ih, find?_erase]
    by_cases hk : k ∈ keys <;> by_cases hk' : k = k' <;> simp [hk, hk']

@[simp] theorem mem_set {m : UnorderedMap K V} {k k' : K} (pos : Nat) (v : V) :
    k' ∈ m.set pos k v ↔ k' = k ∨ k' ∈ m := by
  rw [mem_iff_find?, mem_iff_find?, find?_set]
  by_cases hk : k' = k <;> simp [hk]

@[simp] theorem mem_erase {m : UnorderedMap K V} {k k' : K} :
    k' ∈ m.erase k ↔ k' ≠ k ∧ k' ∈ m := by
  rw [mem_iff_find?, mem_iff_find?, find?_erase]
  by_cases hk : k' = k <;> simp [hk]

/-- Replacing a value in place keeps what `g` reads off the entries, when `g`
reads the same off the old and the new value. -/
theorem map_set {β : Type*} {m : UnorderedMap K V} {k : K} {v v₀ : V} (pos : Nat) (g : K × V → β)
    (h : m.find? k = some v₀) (hg : g (k, v) = g (k, v₀)) :
    (m.set pos k v).entries.map g = m.entries.map g := by
  rw [set, if_pos (mem_of_find? h), List.map_map]
  refine List.map_congr_left fun e he => ?_
  by_cases hk : e.1 = k
  · have hv : e.2 = v₀ := value_unique (by rw [← hk]; exact he) (find?_eq_some_iff.mp h)
    rw [Function.comp_apply, if_pos hk, hg, ← hk, ← hv]
  · rw [Function.comp_apply, if_neg hk]

/-- Removing an entry takes exactly that entry out of the list. -/
theorem erase_perm {m : UnorderedMap K V} {k : K} {v : V} (h : m.find? k = some v) :
    m.entries.Perm ((k, v) :: (m.erase k).entries) := by
  have hnd : m.entries.Nodup := List.Nodup.of_map _ m.nodupKeys
  have hnd' : ((k, v) :: (m.erase k).entries).Nodup := by
    refine List.nodup_cons.mpr ⟨?_, hnd.filter _⟩
    simp [erase]
  refine (List.perm_ext_iff_of_nodup hnd hnd').mpr fun e => ?_
  rw [List.mem_cons, erase, List.mem_filter]
  constructor
  · intro he
    by_cases hk : e.1 = k
    · left
      exact Prod.ext hk (value_unique (by rw [← hk]; exact he) (find?_eq_some_iff.mp h))
    · exact .inr ⟨he, by simpa using hk⟩
  · rintro (rfl | ⟨he, -⟩)
    · exact find?_eq_some_iff.mp h
    · exact he

theorem size_set (m : UnorderedMap K V) (pos : Nat) (k : K) (v : V) :
    (m.set pos k v).size = if k ∈ m then m.size else m.size + 1 := by
  rw [set]
  split
  · exact List.length_map _
  · next h => exact (emplace_perm h pos v).length_eq

end Lookup

end UnorderedMap
