import Mathlib.Data.List.Perm.Basic
import Mathlib.Data.List.Induction
import Mathlib.Tactic.ByContra

/-!
# Last writes

Keys are set to values one after the other, and a default stands for a key that was never set. The
keys fall into classes, and a class has the value that one of its keys was set to last. A table that
keeps the last value of each key, in no order, knows less: it gives the values of the classes in
every order exactly when no key keeps a value that its class has no longer (`Current`).
-/

universe u v w

namespace Latest

variable {K : Type u} {B : Type v} {V : Type w} [DecidableEq B]

/-- What the class of `b` was set to last, from `d` on. -/
def latest (cls : K → B) (d : V) (l : List (K × V)) (b : B) : V :=
  l.foldl (fun v e => if cls e.1 = b then e.2 else v) d

variable {cls : K → B} {d v : V} {l : List (K × V)} {b : B}

@[simp] theorem latest_nil : latest cls d [] b = d := rfl

theorem latest_concat (l : List (K × V)) (e : K × V) :
    latest cls d (l ++ [e]) b = if cls e.1 = b then e.2 else latest cls d l b := by
  rw [latest, List.foldl_append]
  rfl

/-- Several keys, all to one value. -/
theorem latest_append_map (l : List (K × V)) (keys : List K) (v : V) :
    latest cls d (l ++ keys.map (·, v)) b =
      if ∃ k ∈ keys, cls k = b then v else latest cls d l b := by
  induction keys using List.reverseRecOn with
  | nil => simp
  | append_singleton keys k ih =>
    rw [List.map_append, ← List.append_assoc, List.map_singleton, latest_concat, ih]
    by_cases hk : cls k = b
    · rw [if_pos hk, if_pos ⟨k, by simp, hk⟩]
    · rw [if_neg hk]
      refine if_congr ?_ rfl rfl
      simp [or_and_right, exists_or, hk]

/-- No key of the class was set, or it has its value from one of them. -/
theorem latest_cases (cls : K → B) (d : V) (l : List (K × V)) (b : B) :
    (∀ e ∈ l, cls e.1 ≠ b) ∧ latest cls d l b = d ∨
      ∃ e ∈ l, cls e.1 = b ∧ e.2 = latest cls d l b := by
  induction l using List.reverseRecOn with
  | nil => exact .inl ⟨fun e he => absurd he List.not_mem_nil, rfl⟩
  | append_singleton l e ih =>
    rw [latest_concat]
    by_cases he : cls e.1 = b
    · rw [if_pos he]
      exact .inr ⟨e, by simp, he, rfl⟩
    · rw [if_neg he]
      rcases ih with ⟨hnone, hd⟩ | ⟨e', he', hcls, hv⟩
      · refine .inl ⟨fun e' he' => ?_, hd⟩
        rcases List.mem_append.mp he' with h | h
        · exact hnone e' h
        · exact List.mem_singleton.mp h ▸ he
      · exact .inr ⟨e', List.mem_append_left _ he', hcls, hv⟩

/-- In every order the class has the value `v` when all its keys have it, and there is one unless it
is the default. The list is of things that have a key and a value. -/
theorem latest_perm_iff {α : Type*} (g : α → K × V) {l : List α} :
    (∀ order : List α, order.Perm l → latest cls d (order.map g) b = v) ↔
      (∀ e ∈ l, cls (g e).1 = b → (g e).2 = v) ∧ (v = d ∨ ∃ e ∈ l, cls (g e).1 = b) := by
  constructor
  · intro h
    constructor
    · -- what comes last decides
      intro e he hcls
      obtain ⟨front, rest, rfl⟩ := List.append_of_mem he
      have hlast := h (front ++ rest ++ [e])
        ((List.perm_append_singleton e _).trans List.perm_middle.symm)
      rwa [List.map_append, List.map_singleton, latest_concat, if_pos hcls] at hlast
    · rcases latest_cases cls d (l.map g) b with ⟨-, hd⟩ | ⟨e, he, hcls, -⟩
      · exact .inl ((h l (List.Perm.refl l)).symm.trans hd)
      · obtain ⟨x, hx, rfl⟩ := List.mem_map.mp he
        exact .inr ⟨x, hx, hcls⟩
  · rintro ⟨hall, hsome⟩ order hperm
    have hvalue : ∀ e ∈ order, cls (g e).1 = b → (g e).2 = v := fun e he =>
      hall e (hperm.mem_iff.mp he)
    rcases latest_cases cls d (order.map g) b with ⟨hnone, hd⟩ | ⟨e, he, hcls, heq⟩
    · rw [hd]
      rcases hsome with hv | ⟨e, he, hcls⟩
      · exact hv.symm
      · exact absurd hcls (hnone _ (List.mem_map_of_mem (hperm.mem_iff.mpr he)))
    · obtain ⟨x, hx, rfl⟩ := List.mem_map.mp he
      rw [← heq]
      exact hvalue x hx hcls

/-! ### Keys and their classes -/

section Keys

variable [DecidableEq K]

/-- A class that has a value has a key with it. -/
theorem exists_latest_key (h : latest cls d l b ≠ d) :
    ∃ k, cls k = b ∧ latest id d l k = latest cls d l b := by
  induction l using List.reverseRecOn with
  | nil => exact absurd rfl h
  | append_singleton l e ih =>
    rw [latest_concat] at h ⊢
    by_cases he : cls e.1 = b
    · refine ⟨e.1, he, ?_⟩
      rw [latest_concat, if_pos he]
      exact if_pos rfl
    · rw [if_neg he] at h ⊢
      obtain ⟨k, hk, heq⟩ := ih h
      refine ⟨k, hk, ?_⟩
      rw [latest_concat, if_neg, heq]
      rintro rfl
      exact he hk

/-- A key that has a value was set. -/
theorem mem_of_latest_key {k : K} (h : latest id d l k ≠ d) : k ∈ l.map Prod.fst := by
  rcases latest_cases id d l k with ⟨-, hd⟩ | ⟨e, he, hk, -⟩
  · exact absurd hd h
  · exact hk ▸ List.mem_map_of_mem he

/-- The keys with a value have the value of their class. -/
def Current (cls : K → B) (d : V) (l : List (K × V)) : Prop :=
  ∀ k, latest id d l k ≠ d → latest id d l k = latest cls d l (cls k)

theorem current_nil : Current cls d ([] : List (K × V)) := fun _ h => absurd rfl h

/-- Keys may be set to a value when the other ones of their classes have no different one. -/
theorem current_append_iff (h : Current cls d l) (keys : List K) (v : V) :
    Current cls d (l ++ keys.map (·, v)) ↔ ∀ a ∈ keys, ∀ k, cls k = cls a → k ∉ keys →
      latest id d l k = d ∨ latest id d l k = v := by
  have hkey : ∀ k, latest id d (l ++ keys.map (·, v)) k =
      if k ∈ keys then v else latest id d l k := by
    intro k
    rw [latest_append_map]
    exact if_congr (by simp) rfl rfl
  constructor
  · intro hcur a ha k hcls hk
    by_cases hd : latest id d l k = d
    · exact .inl hd
    · have hsame := hcur k (by rwa [hkey, if_neg hk])
      rw [hkey, if_neg hk, latest_append_map, if_pos ⟨a, ha, hcls.symm⟩] at hsame
      exact .inr hsame
  · intro hother k hk
    rw [hkey] at hk ⊢
    rw [latest_append_map]
    by_cases hmem : k ∈ keys
    · rw [if_pos hmem, if_pos ⟨k, hmem, rfl⟩]
    · rw [if_neg hmem] at hk ⊢
      by_cases hcls : ∃ a ∈ keys, cls a = cls k
      · obtain ⟨a, ha, heq⟩ := hcls
        rw [if_pos ⟨a, ha, heq⟩]
        exact (hother a ha k heq.symm hmem).resolve_left hk
      · rw [if_neg hcls]
        exact h k hk

end Keys

end Latest
