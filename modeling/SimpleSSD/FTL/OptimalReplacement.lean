import SimpleSSD.FTL.Requests
import SimpleSSD.Lib.FirstMin

/-!
# The optimal replacement policy (page_mapping.cc:1432–1518)

When `cmt` is full, the policy should make room by evicting one entry: one that is not accessed
again if there is one, else the one that is accessed again last. The scan collects every entry
whose recorded accesses are all in the past, and the entry whose next access is furthest away; the
code evicts all of these. An entry without a record is passed over, and key 0 stands for finding
no next access at all.

`replaces_iff` says for which contents of `cmt` that comes to the right entry.
-/

namespace SimpleSSD.FTL

namespace MappingCache

variable {cfg : Config} {c : MappingCache} {iclCount k lpn t : Nat}

/-- The first recorded access to a page after `iclCount`. -/
def futureAccess (c : MappingCache) (iclCount lpn : Nat) : Option Nat :=
  ((c.optMap.find? lpn).getD []).find? fun val => iclCount < val

/-- When a page is accessed next, and 0 when it is not. -/
def nextAccess (c : MappingCache) (iclCount lpn : Nat) : Nat :=
  (c.futureAccess iclCount lpn).getD 0

/-- Page `k` is the first of those in `keys` whose next access is furthest away. -/
def Furthest (c : MappingCache) (iclCount : Nat) (keys : List Nat) (k : Nat) : Prop :=
  c.futureAccess iclCount k ≠ none ∧
    FirstMin (fun j => OrderDual.toDual (c.nextAccess iclCount j)) keys k

/-- The entry may be evicted: it is not accessed again, or all entries are, and none later. -/
def MayGo (c : MappingCache) (iclCount k : Nat) : Prop :=
  k ∈ c.cmt ∧ (c.futureAccess iclCount k = none ∨
    ∃ t, c.futureAccess iclCount k = some t ∧
      ∀ j ∈ c.cmt, ∃ u, c.futureAccess iclCount j = some u ∧ u ≤ t)

/-- The policy evicts one entry, which may go, and makes room. -/
def Replaces (cfg : Config) (iclCount : Nat) (c : MappingCache) : Prop :=
  (c.optimalRepalcementPolicy cfg iclCount).cmt.size < cfg.cmtCapacity ∧
    ∃ k, c.MayGo iclCount k ∧ ∀ j, (c.optimalRepalcementPolicy cfg iclCount).cmt.find? j =
      if j = k then none else c.cmt.find? j

/-! ### The scan -/

/-- The scan has passed the entries with these keys. -/
structure Scanned (c : MappingCache) (iclCount : Nat) (keys : List Nat) (acc : OptimalScan) :
    Prop where
  optMap : ∀ k ∉ keys, acc.optMap.find? k = c.optMap.find? k
  removal : ∀ k, k ∈ acc.cmtRemovalEntries ↔
    k ∈ keys ∧ k ∈ c.optMap ∧ c.futureAccess iclCount k = none
  furthest :
    (acc.lruKey = 0 ∧ acc.maxFirstElement = 0 ∧ ∀ k ∈ keys, c.futureAccess iclCount k = none) ∨
      (c.Furthest iclCount keys acc.lruKey ∧
        c.futureAccess iclCount acc.lruKey = some acc.maxFirstElement)

theorem nextAccess_eq (h : c.futureAccess iclCount k = some t) : c.nextAccess iclCount k = t := by
  rw [nextAccess, h]
  rfl

theorem nextAccess_none (h : c.futureAccess iclCount k = none) : c.nextAccess iclCount k = 0 := by
  rw [nextAccess, h]
  rfl

theorem Furthest.nextAccess_le {keys : List Nat} {j : Nat} (h : c.Furthest iclCount keys k)
    (hj : j ∈ keys) : c.nextAccess iclCount j ≤ c.nextAccess iclCount k :=
  OrderDual.toDual_le_toDual.mp (h.2.le j hj)

/-- A page that is not accessed later is passed over. -/
theorem Furthest.concat {keys : List Nat} {j : Nat} (h : c.Furthest iclCount keys k)
    (hle : c.nextAccess iclCount j ≤ c.nextAccess iclCount k) :
    c.Furthest iclCount (keys ++ [j]) k :=
  ⟨h.1, h.2.concat (OrderDual.toDual_le_toDual.mpr hle)⟩

theorem futureAccess_pos (h : c.futureAccess iclCount k = some t) : 0 < t := by
  have hlt : iclCount < t := by simpa using List.find?_some h
  omega

theorem futureAccess_none (h : c.optMap.find? k = none) : c.futureAccess iclCount k = none := by
  rw [futureAccess, h]
  rfl

/-- What the loop leaves of the record of a page begins with its next access. -/
theorem head?_future {accesses : List Nat} (h : c.optMap.find? k = some accesses) :
    (accesses.filter fun val => ¬ val ≤ iclCount).head? = c.futureAccess iclCount k := by
  rw [List.head?_filter, futureAccess, h, Option.getD_some]
  congr 1
  funext val
  simp

/-- An entry that the furthest access does not change. -/
theorem Scanned.furthest_of_none {keys : List Nat} {acc : OptimalScan}
    (h : c.Scanned iclCount keys acc) (hk : c.futureAccess iclCount k = none) :
    (acc.lruKey = 0 ∧ acc.maxFirstElement = 0 ∧
        ∀ j ∈ keys ++ [k], c.futureAccess iclCount j = none) ∨
      (c.Furthest iclCount (keys ++ [k]) acc.lruKey ∧
        c.futureAccess iclCount acc.lruKey = some acc.maxFirstElement) := by
  rcases h.furthest with ⟨hkey, hmax, hnone⟩ | ⟨hkey, hfuture⟩
  · refine .inl ⟨hkey, hmax, fun j hj => ?_⟩
    rcases List.mem_append.mp hj with hj | hj
    · exact hnone j hj
    · rwa [List.mem_singleton.mp hj]
  · refine .inr ⟨hkey.concat ?_, hfuture⟩
    rw [nextAccess_none hk]
    exact Nat.zero_le _

/-- One entry. -/
theorem Scanned.step {keys : List Nat} {acc : OptimalScan} {entry : Nat × MappingEntry}
    (h : c.Scanned iclCount keys acc) (hnew : entry.1 ∉ keys) :
    c.Scanned iclCount (keys ++ [entry.1]) (optimalStep iclCount acc entry) := by
  obtain ⟨k, e⟩ := entry
  have hrecord : acc.optMap.find? k = c.optMap.find? k := h.optMap k hnew
  have hnotin : ∀ j ∉ keys ++ [k], j ∉ keys ∧ j ≠ k := fun j hj =>
    ⟨fun hmem => hj (List.mem_append_left _ hmem),
      fun heq => hj (List.mem_append_right _ (List.mem_singleton.mpr heq))⟩
  -- a page with a next access, or without a record, is not collected
  have hkept : (k ∈ c.optMap → c.futureAccess iclCount k ≠ none) → ∀ j,
      j ∈ acc.cmtRemovalEntries ↔
        j ∈ keys ++ [k] ∧ j ∈ c.optMap ∧ c.futureAccess iclCount j = none := by
    intro hk j
    rw [h.removal, List.mem_append, List.mem_singleton]
    constructor
    · rintro ⟨hj, hrest⟩
      exact ⟨.inl hj, hrest⟩
    · rintro ⟨hj | rfl, hmem, hnone⟩
      · exact ⟨hj, hmem, hnone⟩
      · exact absurd hnone (hk hmem)
  rw [optimalStep]
  dsimp only
  cases hfind : acc.optMap.find? k with
  | none =>
    rw [hrecord] at hfind
    have hnone : c.futureAccess iclCount k = none := futureAccess_none hfind
    refine ⟨fun j hj => h.optMap j (hnotin j hj).1, hkept fun hmem => ?_, h.furthest_of_none hnone⟩
    exact absurd hmem (UnorderedMap.find?_eq_none_iff.mp hfind)
  | some accesses =>
    rw [hrecord] at hfind
    have hhead := @head?_future c iclCount k _ hfind
    have hopt : ∀ j ∉ keys ++ [k], ∀ rest : List Nat,
        (acc.optMap.set 0 k rest).find? j = c.optMap.find? j := by
      intro j hj rest
      rw [UnorderedMap.find?_set, if_neg (hnotin j hj).2]
      exact h.optMap j (hnotin j hj).1
    dsimp only
    cases hrest : accesses.filter fun val => ¬ val ≤ iclCount with
    | nil =>
      rw [hrest] at hhead
      have hnone : c.futureAccess iclCount k = none := hhead.symm
      refine ⟨fun j hj => hopt j hj _, fun j => ?_, h.furthest_of_none hnone⟩
      rw [List.mem_append, List.mem_append, h.removal, List.mem_singleton]
      constructor
      · rintro (⟨hj, hmem⟩ | rfl)
        · exact ⟨.inl hj, hmem⟩
        · exact ⟨.inr rfl, UnorderedMap.mem_of_find? hfind, hnone⟩
      · rintro ⟨hj | rfl, hmem⟩
        · exact .inl ⟨hj, hmem⟩
        · exact .inr rfl
    | cons next rest =>
      rw [hrest] at hhead
      have hnext : c.futureAccess iclCount k = some next := hhead.symm
      have hremoval := hkept fun _ hnone => by
        rw [hnone] at hnext
        cases hnext
      dsimp only
      split
      · next hlt =>
        -- the access of this entry is the furthest so far
        refine ⟨fun j hj => hopt j hj _, hremoval, .inr ⟨⟨?_, firstMin_concat_self ?_⟩, hnext⟩⟩
        · rw [hnext]
          exact Option.some_ne_none next
        · intro j hj
          refine OrderDual.toDual_lt_toDual.mpr ?_
          rw [nextAccess_eq hnext]
          rcases h.furthest with ⟨-, -, hnone⟩ | ⟨hkey, hfuture⟩
          · rw [nextAccess_none (hnone j hj)]
            exact futureAccess_pos hnext
          · calc c.nextAccess iclCount j ≤ c.nextAccess iclCount acc.lruKey := hkey.nextAccess_le hj
              _ = acc.maxFirstElement := nextAccess_eq hfuture
              _ < next := hlt
      · next hge =>
        refine ⟨fun j hj => hopt j hj _, hremoval, ?_⟩
        rcases h.furthest with ⟨-, hmax, -⟩ | ⟨hkey, hfuture⟩
        · exact absurd (hmax ▸ futureAccess_pos hnext) hge
        · refine .inr ⟨hkey.concat ?_, hfuture⟩
          rw [nextAccess_eq hnext, nextAccess_eq hfuture]
          exact not_lt.mp hge

/-- The scan of all entries. -/
theorem Scanned.foldl {entries : List (Nat × MappingEntry)} {keys : List Nat} {acc : OptimalScan}
    (h : c.Scanned iclCount keys acc) (hnodup : (keys ++ entries.map Prod.fst).Nodup) :
    c.Scanned iclCount (keys ++ entries.map Prod.fst)
      (entries.foldl (optimalStep iclCount) acc) := by
  induction entries generalizing keys acc with
  | nil => simpa using h
  | cons entry entries ih =>
    rw [List.map_cons] at hnodup ⊢
    rw [List.append_cons] at hnodup
    have hnew : entry.1 ∉ keys := by
      intro hmem
      have hdisjoint := (List.nodup_append.mp (List.nodup_append.mp hnodup).1).2.2
      exact hdisjoint _ hmem _ (List.mem_singleton_self _) rfl
    have hstep := ih (h.step hnew) hnodup
    rwa [← List.append_cons] at hstep

/-- The scan of `cmt`. -/
def optimalScan (c : MappingCache) (iclCount : Nat) : OptimalScan :=
  c.cmt.entries.foldl (optimalStep iclCount) ⟨c.optMap, [], 0, 0, 0⟩

theorem optimalScan_scanned (c : MappingCache) (iclCount : Nat) :
    c.Scanned iclCount c.cmt.keys (c.optimalScan iclCount) := by
  have hstart : c.Scanned iclCount [] ⟨c.optMap, [], 0, 0, 0⟩ :=
    ⟨fun _ _ => rfl, fun k => by simp, .inl ⟨rfl, rfl, fun k hk => absurd hk List.not_mem_nil⟩⟩
  exact @Scanned.foldl c iclCount c.cmt.entries _ _ hstart c.cmt.nodupKeys

/-! ### The evictions -/

/-- The keys that are erased. -/
def evicted (c : MappingCache) (iclCount : Nat) : List Nat :=
  (c.optimalScan iclCount).cmtRemovalEntries ++ [(c.optimalScan iclCount).lruKey]

theorem foldl_evict (count : Nat) (keys : List Nat) (c : MappingCache) :
    (keys.foldl (fun c entry =>
      { c with
        evictedCmtEntries := c.evictedCmtEntries.set 0 entry count
        cmt := c.cmt.erase entry }) c).cmt = keys.foldl UnorderedMap.erase c.cmt := by
  induction keys generalizing c with
  | nil => rfl
  | cons k keys ih => rw [List.foldl_cons, List.foldl_cons, ih]

theorem optimal_cmt (hfull : cfg.cmtCapacity ≤ c.cmt.size) :
    (c.optimalRepalcementPolicy cfg iclCount).cmt =
      (c.evicted iclCount).foldl UnorderedMap.erase c.cmt := by
  rw [optimalRepalcementPolicy, if_pos hfull]
  exact foldl_evict _ _ _

theorem optimal_find? (hfull : cfg.cmtCapacity ≤ c.cmt.size) (j : Nat) :
    (c.optimalRepalcementPolicy cfg iclCount).cmt.find? j =
      if j ∈ c.evicted iclCount then none else c.cmt.find? j := by
  rw [optimal_cmt hfull, UnorderedMap.find?_foldl_erase]

/-- Exactly one entry is evicted when one of the erased keys is in the table. -/
theorem evicts_iff (hfull : cfg.cmtCapacity ≤ c.cmt.size) :
    (∀ j, (c.optimalRepalcementPolicy cfg iclCount).cmt.find? j =
        if j = k then none else c.cmt.find? j) ↔
      ∀ j ∈ c.cmt, (j ∈ c.evicted iclCount ↔ j = k) := by
  constructor
  · intro h j hj
    have hfind := h j
    rw [optimal_find? hfull] at hfind
    obtain ⟨e, he⟩ := UnorderedMap.mem_iff_find?.mp hj
    rw [he] at hfind
    by_cases hev : j ∈ c.evicted iclCount
    · rw [if_pos hev] at hfind
      refine iff_of_true hev ?_
      by_contra hne
      rw [if_neg hne] at hfind
      cases hfind
    · rw [if_neg hev] at hfind
      refine iff_of_false hev fun heq => ?_
      rw [if_pos heq] at hfind
      cases hfind
  · intro h j
    rw [optimal_find? hfull]
    by_cases hj : j ∈ c.cmt
    · rw [if_congr (h j hj) rfl rfl]
    · have hnone := UnorderedMap.find?_eq_none_iff.mpr hj
      rw [hnone, ite_self, ite_self]

/-- A table that lost one entry is smaller by one. -/
theorem size_of_evicted {m m' : UnorderedMap Nat MappingEntry} (hk : k ∈ m)
    (h : ∀ j, m'.find? j = if j = k then none else m.find? j) : m'.size + 1 = m.size := by
  obtain ⟨e, he⟩ := UnorderedMap.mem_iff_find?.mp hk
  have hperm := (UnorderedMap.erase_perm he).length_eq
  have hsame : ∀ j, j ∈ m' ↔ j ∈ m.erase k := by
    intro j
    rw [UnorderedMap.mem_iff_find?, UnorderedMap.mem_iff_find?, h, UnorderedMap.find?_erase]
  have hle := UnorderedMap.size_le_of_subset fun j hj => (hsame j).mp hj
  have hge := UnorderedMap.size_le_of_subset fun j hj => (hsame j).mpr hj
  have hsize : m.size = (m.erase k).size + 1 := hperm
  omega

/-! ### When the right entry goes -/

/-- The table is just full, and all its pages are accessed again; or none is, and exactly one of
them has a record of accesses or is page 0. -/
def Unmixed (cfg : Config) (iclCount : Nat) (c : MappingCache) : Prop :=
  c.cmt.size = cfg.cmtCapacity ∧ 0 < c.cmt.size ∧
    ((∀ j ∈ c.cmt, c.futureAccess iclCount j ≠ none) ∨
      (∀ j ∈ c.cmt, c.futureAccess iclCount j = none) ∧
        ∃ k ∈ c.cmt, ∀ j ∈ c.cmt, (j ∈ c.optMap ∨ j = 0 ↔ j = k))

/-- With a next access, the keys erased are the collected ones and the furthest. -/
theorem mem_evicted (c : MappingCache) (iclCount : Nat) {j : Nat} (hj : j ∈ c.cmt) :
    j ∈ c.evicted iclCount ↔ j ∈ c.optMap ∧ c.futureAccess iclCount j = none ∨
      j = (c.optimalScan iclCount).lruKey := by
  rw [evicted, List.mem_append, (c.optimalScan_scanned iclCount).removal, List.mem_singleton]
  exact or_congr_left ⟨fun h => h.2, fun h => ⟨hj, h⟩⟩

theorem exists_mem (h : 0 < c.cmt.size) : ∃ j, j ∈ c.cmt := by
  obtain ⟨j, hj⟩ := List.exists_mem_of_length_pos (l := c.cmt.keys) (by
    rwa [UnorderedMap.length_keys])
  exact ⟨j, hj⟩

/-- The right entry goes, and nothing else, exactly when the futures are not mixed. -/
theorem mayGo_iff (hpos : 0 < c.cmt.size) :
    (∃ k, c.MayGo iclCount k ∧ ∀ j ∈ c.cmt, (j ∈ c.evicted iclCount ↔ j = k)) ↔
      (∀ j ∈ c.cmt, c.futureAccess iclCount j ≠ none) ∨
        (∀ j ∈ c.cmt, c.futureAccess iclCount j = none) ∧
          ∃ k ∈ c.cmt, ∀ j ∈ c.cmt, (j ∈ c.optMap ∨ j = 0 ↔ j = k) := by
  rcases (c.optimalScan_scanned iclCount).furthest with ⟨hkey, -, hnone⟩ | ⟨hfurthest, hfuture⟩
  · -- no entry is accessed again
    have hmem : ∀ j ∈ c.cmt, (j ∈ c.evicted iclCount ↔ j ∈ c.optMap ∨ j = 0) := by
      intro j hj
      rw [mem_evicted c iclCount hj, hkey]
      exact or_congr_left ⟨fun h => h.1, fun h => ⟨h, hnone j hj⟩⟩
    constructor
    · rintro ⟨k, hgo, hone⟩
      exact .inr ⟨hnone, k, hgo.1, fun j hj => (hmem j hj).symm.trans (hone j hj)⟩
    · rintro (hsome | ⟨-, k, hk, hone⟩)
      · obtain ⟨j, hj⟩ := exists_mem hpos
        exact absurd (hnone j hj) (hsome j hj)
      · exact ⟨k, ⟨hk, .inl (hnone k hk)⟩, fun j hj => (hmem j hj).trans (hone j hj)⟩
  · have hkey : (c.optimalScan iclCount).lruKey ∈ c.cmt := hfurthest.2.mem
    have hself : (c.optimalScan iclCount).lruKey ∈ c.evicted iclCount :=
      (mem_evicted c iclCount hkey).mpr (.inr rfl)
    constructor
    · rintro ⟨k, ⟨-, hgo⟩, hone⟩
      -- the entry with the furthest access is erased, so it is the one
      have hk := (hone _ hkey).mp hself
      rw [hk] at hfuture
      rcases hgo with hgo | ⟨t, -, hall⟩
      · rw [hgo] at hfuture
        cases hfuture
      · refine .inl fun j hj hj' => ?_
        obtain ⟨u, hu, -⟩ := hall j hj
        rw [hj'] at hu
        cases hu
    · rintro (hsome | ⟨hnone, -⟩)
      · refine ⟨_, ⟨hkey, .inr ⟨_, hfuture, fun j hj => ?_⟩⟩, fun j hj => ?_⟩
        · obtain ⟨u, hu⟩ := Option.ne_none_iff_exists'.mp (hsome j hj)
          have hle := hfurthest.nextAccess_le hj
          rw [nextAccess_eq hu, nextAccess_eq hfuture] at hle
          exact ⟨u, hu, hle⟩
        · rw [mem_evicted c iclCount hj]
          exact or_iff_right fun h => hsome j hj h.2
      · rw [hnone _ hkey] at hfuture
        cases hfuture

/-- A full `cmt` is relieved of the right entry exactly when the futures of its pages are not
mixed, and it is not overfull. -/
theorem replaces_iff (hfull : cfg.cmtCapacity ≤ c.cmt.size) :
    Replaces cfg iclCount c ↔ Unmixed cfg iclCount c := by
  constructor
  · rintro ⟨hroom, k, hgo, hone⟩
    have hsize := size_of_evicted hgo.1 hone
    have hpos : 0 < c.cmt.size := by omega
    refine ⟨by omega, hpos, (mayGo_iff hpos).mp ⟨k, hgo, ?_⟩⟩
    exact (evicts_iff hfull).mp hone
  · rintro ⟨hsize, hpos, hunmixed⟩
    obtain ⟨k, hgo, hone⟩ := (mayGo_iff hpos).mpr hunmixed
    have hfind := (evicts_iff hfull).mpr hone
    have hless := size_of_evicted hgo.1 hfind
    exact ⟨by omega, k, hgo, hfind⟩

/-! ### Mixed futures -/

/-- `cmt` with two entries, of pages 1 and 2. -/
def twoEntries (optMap : UnorderedMap Nat (List Nat)) : MappingCache where
  cmt := (UnorderedMap.empty.set 0 1 ⟨0, 0, 0, 1⟩).set 0 2 ⟨0, 1, 0, 1⟩
  evictedCmtEntries := .empty
  shadowwCache := .empty
  optMap := optMap

/-- Two pages that are accessed again at 7 and at 9. -/
def bothAgain : MappingCache :=
  twoEntries ((UnorderedMap.empty.set 0 1 [3, 7]).set 0 2 [9])

/-- Room for two mappings. -/
def roomForTwo : Config := { Config.small 4 with cmtSize := 2, enableCMT := true }

theorem replaces_bothAgain : Replaces roomForTwo 5 bothAgain ↔ Unmixed roomForTwo 5 bothAgain :=
  replaces_iff (by decide)

/-- Page 1 is accessed again, page 2 is not: both are evicted. -/
def oneAgain : MappingCache :=
  twoEntries ((UnorderedMap.empty.set 0 1 [7]).set 0 2 [3])

theorem oneAgain_not_replaced : roomForTwo.cmtCapacity ≤ oneAgain.cmt.size ∧
    (oneAgain.optimalRepalcementPolicy roomForTwo 5).cmt.size = 0 ∧
      ¬ Replaces roomForTwo 5 oneAgain := by
  have hfull : roomForTwo.cmtCapacity ≤ oneAgain.cmt.size := by decide
  refine ⟨hfull, by decide, fun h => ?_⟩
  obtain ⟨-, k, hgo, hone⟩ := h
  have hsize := size_of_evicted hgo.1 hone
  have hempty : (oneAgain.optimalRepalcementPolicy roomForTwo 5).cmt.size = 0 := by decide
  have htwo : oneAgain.cmt.size = 2 := by decide
  omega

end MappingCache

end SimpleSSD.FTL
