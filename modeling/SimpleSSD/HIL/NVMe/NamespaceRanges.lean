import Mathlib.Algebra.BigOperators.Group.List.Basic
import Mathlib.Data.List.ModifyLast
import Mathlib.Order.Interval.Finset.Nat
import SimpleSSD.HIL.NVMe.Subsystem

/-!
# Namespace ranges

Every namespace has a range of logical pages of its own. A new range is a part of
a gap between the ranges in use, so the ranges stay apart and inside the device
whatever commands arrive (`run_placed`).

The page counter and the sizes do not follow the ranges as closely. The size of a
new namespace is divided by the page size before it is multiplied by the block
size; the pages of a deleted one are recomputed from its size; and a format sets
the size to that of the whole device. `run_accounted` is about the runs in which
these agree with the ranges.
-/

namespace SimpleSSD

namespace LPNRange

/-- The logical pages of a range. -/
def pages (r : LPNRange) : Finset Nat := Finset.Ico r.slpn (r.slpn + r.nlp)

/-- One range ends before the other begins. -/
def Apart (a b : LPNRange) : Prop := a.slpn + a.nlp ≤ b.slpn ∨ b.slpn + b.nlp ≤ a.slpn

/-- The pages of a range lie in another range. -/
def Within (a b : LPNRange) : Prop := b.slpn ≤ a.slpn ∧ a.slpn + a.nlp ≤ b.slpn + b.nlp

instance (a b : LPNRange) : Decidable (a.Apart b) := inferInstanceAs (Decidable (_ ∨ _))

theorem Apart.symm {a b : LPNRange} (h : a.Apart b) : b.Apart a := Or.symm h

theorem Apart.disjoint {a b : LPNRange} (h : a.Apart b) : Disjoint a.pages b.pages := by
  rw [Finset.disjoint_left]
  intro p ha hb
  rw [pages, Finset.mem_Ico] at ha hb
  rcases h with h | h <;> omega

/-- A range that is apart from a range is apart from all parts of it. -/
theorem Apart.within {a b c : LPNRange} (h : a.Apart b) (hc : c.Within b) : a.Apart c := by
  obtain ⟨hlo, hhi⟩ := hc
  rcases h with h | h
  · exact .inl (by omega)
  · exact .inr (by omega)

theorem stop_of_lt {r : LPNRange} (h : r.slpn + r.nlp < 2 ^ 64) : r.stop = r.slpn + r.nlp :=
  Nat.mod_eq_of_lt h

end LPNRange

namespace HIL.NVMe.Subsystem

variable {dev : LPNInfo} {s s' : Subsystem}

/-- The ranges of the namespaces. -/
def ranges (s : Subsystem) : List LPNRange := s.lNamespaces.map (·.info.range)

/-! ### The gaps between ranges -/

section Invert

variable {last : LPNRange} {allocated unallocated : List LPNRange}

/-- A gap is a part of `last` and apart from the ranges that have been cut out of it;
it begins with `last` or behind one of them, and some gap ends with `last`. -/
theorem invert_spec (hlast : last.slpn + last.nlp < 2 ^ 64)
    (hrange : ∀ r ∈ allocated, r.slpn + r.nlp < 2 ^ 64)
    (h : invert last allocated = .ok unallocated) :
    (∀ r ∈ allocated, r.Within last) ∧
      (∀ gap ∈ unallocated, gap.Within last ∧ (∀ r ∈ allocated, gap.Apart r) ∧
        (gap.slpn = last.slpn ∨ ∃ r ∈ allocated, gap.slpn = r.slpn + r.nlp)) ∧
      ∃ gap ∈ unallocated, gap.slpn + gap.nlp = last.slpn + last.nlp := by
  induction allocated generalizing last unallocated with
  | nil =>
    cases h
    refine ⟨by simp, fun gap hgap => ?_, last, List.mem_singleton_self _, rfl⟩
    rw [List.mem_singleton.mp hgap]
    exact ⟨⟨le_rfl, le_rfl⟩, by simp, .inl rfl⟩
  | cons r allocated ih =>
    have hr := LPNRange.stop_of_lt (hrange r List.mem_cons_self)
    rw [invert, LPNRange.stop_of_lt hlast, hr] at h
    split at h
    · next hin =>
      obtain ⟨hlo, hhi⟩ := hin
      rw [Except.bind_eq_ok] at h
      obtain ⟨rest, hrest, h⟩ := h
      cases h
      have hnlp : (last.slpn + last.nlp + 2 ^ 64 - (r.slpn + r.nlp)) % 2 ^ 64 =
          last.slpn + last.nlp - (r.slpn + r.nlp) := by omega
      rw [hnlp] at hrest
      -- the rest of `last` behind `r` takes its place
      obtain ⟨hin, hgaps, final, hfinal, hstop⟩ := ih
        (show r.slpn + r.nlp + (last.slpn + last.nlp - (r.slpn + r.nlp)) < 2 ^ 64 by omega)
        (fun r' hr' => hrange r' (List.mem_cons_of_mem r hr')) hrest
      dsimp only at hstop
      refine ⟨?_, ?_, final, List.mem_cons_of_mem _ hfinal, by omega⟩
      · intro r' hr'
        rcases List.mem_cons.mp hr' with rfl | hr'
        · exact ⟨hlo, hhi⟩
        · obtain ⟨h₁, h₂⟩ := hin r' hr'
          dsimp only at h₁ h₂
          exact ⟨by omega, by omega⟩
      · intro gap hgap
        rcases List.mem_cons.mp hgap with rfl | hgap
        · refine ⟨⟨le_rfl, ?_⟩, fun r' hr' => .inl ?_, .inl rfl⟩
          · dsimp only
            omega
          · dsimp only
            rcases List.mem_cons.mp hr' with rfl | hr'
            · omega
            · have := (hin r' hr').1
              dsimp only at this
              omega
        · obtain ⟨⟨h₁, h₂⟩, hapart, hbegin⟩ := hgaps gap hgap
          dsimp only at h₁ h₂ hbegin
          refine ⟨⟨by omega, by omega⟩, fun r' hr' => ?_, .inr ?_⟩
          · rcases List.mem_cons.mp hr' with rfl | hr'
            · exact .inr h₁
            · exact hapart r' hr'
          · rcases hbegin with hbegin | ⟨r', hr', hbegin⟩
            · exact ⟨r, List.mem_cons_self, hbegin⟩
            · exact ⟨r', List.mem_cons_of_mem r hr', hbegin⟩
    · cases h

end Invert

/-! ### Placement -/

/-- The ranges are not empty, inside the device and apart from each other. -/
structure Placed (dev : LPNInfo) (ranges : List LPNRange) : Prop where
  inside : ∀ r ∈ ranges, r.slpn + r.nlp ≤ dev.totalLogicalPages
  nonempty : ∀ r ∈ ranges, 0 < r.nlp
  apart : ranges.Pairwise LPNRange.Apart

section Placed

variable {l l' : List LPNRange} {r : LPNRange}

theorem Placed.perm (h : Placed dev l) (hperm : l.Perm l') : Placed dev l' where
  inside r hr := h.inside r (hperm.mem_iff.mpr hr)
  nonempty r hr := h.nonempty r (hperm.mem_iff.mpr hr)
  apart := hperm.pairwise h.apart LPNRange.Apart.symm

theorem Placed.tail (h : Placed dev (r :: l)) : Placed dev l where
  inside r' hr' := h.inside r' (List.mem_cons_of_mem r hr')
  nonempty r' hr' := h.nonempty r' (List.mem_cons_of_mem r hr')
  apart := h.apart.tail

/-- One more range, in a gap. -/
theorem Placed.cons (h : Placed dev l) (hin : r.slpn + r.nlp ≤ dev.totalLogicalPages)
    (hpos : 0 < r.nlp) (hapart : ∀ r' ∈ l, r.Apart r') : Placed dev (r :: l) where
  inside r' hr' := by
    rcases List.mem_cons.mp hr' with rfl | hr'
    · exact hin
    · exact h.inside r' hr'
  nonempty r' hr' := by
    rcases List.mem_cons.mp hr' with rfl | hr'
    · exact hpos
    · exact h.nonempty r' hr'
  apart := List.pairwise_cons.mpr ⟨hapart, h.apart⟩

theorem Placed.lt (h : Placed dev l) (hr : r ∈ l) : r.slpn + r.nlp < 2 ^ 64 :=
  (h.inside r hr).trans_lt dev.totalLogicalPages_lt

/-- A page range of the length is free. -/
def Room (dev : LPNInfo) (l : List LPNRange) (n : Nat) : Prop :=
  0 < n ∧ ∃ p, p + n ≤ dev.totalLogicalPages ∧ ∀ r ∈ l, Disjoint (LPNRange.mk p n).pages r.pages

/-- What the search finds: the first part of a gap, else the range that `info` had
before; that only when no gap is long enough. -/
theorem allocate_spec {n : Nat} {range₀ range : LPNRange} (hs : Placed dev s.ranges)
    (h : allocate dev s n range₀ = .ok range) :
    (range.nlp = n ∧ range.slpn + n ≤ dev.totalLogicalPages ∧ (∀ r ∈ s.ranges, range.Apart r) ∧
        (range.slpn = 0 ∨ ∃ r ∈ s.ranges, range.slpn = r.slpn + r.nlp)) ∨
      range = range₀ ∧ ∃ p, dev.totalLogicalPages < p + n ∧
        (p = 0 ∨ ∃ r ∈ s.ranges, p = r.slpn + r.nlp) := by
  have hperm := List.perm_insertionSort (fun a b : LPNRange => a.slpn ≤ b.slpn) s.ranges
  rw [allocate, Except.bind_eq_ok] at h
  obtain ⟨unallocated, hinvert, h⟩ := h
  have hrange : ∀ r ∈ s.ranges.insertionSort fun a b => a.slpn ≤ b.slpn,
      r.slpn + r.nlp < 2 ^ 64 := fun r hr => hs.lt (hperm.mem_iff.mp hr)
  obtain ⟨-, hgaps, final, hfinal, hstop⟩ :=
    invert_spec (by simpa using dev.totalLogicalPages_lt) hrange hinvert
  simp only [Nat.zero_add] at hgaps hstop
  split at h
  · next gap hfind =>
    cases h
    have hlen : n ≤ gap.nlp := by simpa using List.find?_some hfind
    obtain ⟨⟨-, hin⟩, hapart, hbegin⟩ := hgaps gap (List.mem_of_find?_eq_some hfind)
    simp only [Nat.zero_add] at hin
    refine .inl ⟨rfl, ?_, fun r hr => ?_, ?_⟩
    · dsimp only
      omega
    · have hpart : LPNRange.Within ⟨gap.slpn, n⟩ gap := ⟨le_rfl, by dsimp only; omega⟩
      exact ((hapart r (hperm.mem_iff.mpr hr)).symm.within hpart).symm
    · rcases hbegin with hbegin | ⟨r, hr, hbegin⟩
      · exact .inl hbegin
      · exact .inr ⟨r, hperm.mem_iff.mp hr, hbegin⟩
  · next hnone =>
    cases h
    have hshort := List.find?_eq_none.mp hnone final hfinal
    rw [decide_eq_true_eq] at hshort
    refine .inr ⟨rfl, final.slpn, by omega, ?_⟩
    obtain ⟨-, -, hbegin | ⟨r, hr, hbegin⟩⟩ := hgaps final hfinal
    · exact .inl hbegin
    · exact .inr ⟨r, hperm.mem_iff.mp hr, hbegin⟩

end Placed

/-! ### What a command changes -/

/-- `createNamespace` makes a namespace in the range found, and counts its pages. -/
theorem createNamespace_spec {nsid : Nat} {info info' : Information}
    (h : createNamespace dev nsid info s = .ok (some (info', s'))) :
    ∃ lba, lbaSize info.lbaFormatIndex = .ok lba ∧
      requestedPages dev info.size lba ≤
        (dev.totalLogicalPages + 2 ^ 64 - s.allocatedLogicalPages) % 2 ^ 64 ∧
      allocate dev s (requestedPages dev info.size lba) info.range = .ok info'.range ∧
      0 < info'.range.nlp ∧ info'.size = info.size ∧ info'.lbaSize = info.lbaSize ∧
      info'.lbaFormatIndex = info.lbaFormatIndex ∧ s' = s.insert (.new nsid info') := by
  rw [createNamespace, Except.bind_eq_ok] at h
  obtain ⟨lba, hlba, h⟩ := h
  refine ⟨lba, hlba, ?_⟩
  dsimp only at h
  split at h
  · cases h
  · next hroom =>
    rw [Except.bind_eq_ok] at h
    obtain ⟨range, hrange, h⟩ := h
    split at h
    · cases h
    · next hnlp =>
      cases h
      exact ⟨not_lt.mp hroom, hrange, Nat.pos_of_ne_zero hnlp, rfl, rfl, rfl, rfl⟩

theorem insert_perm (s : Subsystem) (ns : Namespace) :
    (s.insert ns).lNamespaces.Perm (ns :: s.lNamespaces) :=
  (List.perm_insertionSort _ _).trans (List.perm_append_singleton _ _)

theorem perm_cons_eraseP {α : Type} {p : α → Bool} {a : α} {l : List α}
    (h : l.find? p = some a) : l.Perm (a :: l.eraseP p) := by
  rw [List.find?_eq_some_iff_append] at h
  obtain ⟨ha, l₁, l₂, hsplit, hl₁⟩ := h
  have hskip : ∀ b ∈ l₁, ¬ p b = true := fun b hb => by simpa using hl₁ b hb
  rw [hsplit, List.eraseP_append_right _ hskip, List.eraseP_cons_of_pos ha]
  exact List.perm_middle

/-- `destroyNamespace` takes out the namespace that it finds. -/
theorem eraseP_perm {nsid : Nat} {ns : Namespace} (h : s.find? nsid = some ns) :
    s.lNamespaces.Perm (ns :: s.lNamespaces.eraseP (·.nsid = nsid)) := perm_cons_eraseP h

theorem update_map {β : Type*} (nsid : Nat) {f : Namespace → Namespace} {g : Namespace → β}
    (hf : ∀ ns, g (f ns) = g ns) (l : List Namespace) : (update nsid f l).map g = l.map g := by
  induction l with
  | nil => rfl
  | cons ns l ih =>
    rw [update]
    split
    · rw [List.map_cons, hf, List.map_cons]
    · rw [List.map_cons, ih, List.map_cons]

/-- Only the namespace found is changed. -/
theorem mem_update {nsid : Nat} {f : Namespace → Namespace} {ns : Namespace} {l : List Namespace}
    (h : ns ∈ update nsid f l) :
    ns ∈ l ∨ ∃ found, l.find? (·.nsid = nsid) = some found ∧ ns = f found := by
  induction l with
  | nil => cases h
  | cons a l ih =>
    rw [update] at h
    split at h
    · next hfound =>
      rcases List.mem_cons.mp h with rfl | h
      · exact .inr ⟨a, by rw [List.find?_cons_of_pos (by simpa using hfound)], rfl⟩
      · exact .inl (List.mem_cons_of_mem a h)
    · next hother =>
      rcases List.mem_cons.mp h with rfl | h
      · exact .inl List.mem_cons_self
      · rcases ih h with h | ⟨found, hfound, heq⟩
        · exact .inl (List.mem_cons_of_mem a h)
        · exact .inr ⟨found, by rwa [List.find?_cons_of_neg (by simpa using hother)], heq⟩

/-- What a command does to the namespaces and to the page counter. -/
inductive Change (dev : LPNInfo) (s s' : Subsystem) (c : Command) : Prop
  /-- Nothing but the attachment changes. -/
  | keep (ranges : s'.ranges = s.ranges)
      (allocated : s'.allocatedLogicalPages = s.allocatedLogicalPages)
      (infos : ∀ ns ∈ s'.lNamespaces, ∃ ns' ∈ s.lNamespaces, ns.info = ns'.info)
  | create (nsid : Nat) (data : CreateData) (resp : CQEntryWrapper) (lba : Nat)
      (info : Information) (command : c = .create nsid data resp)
      (size : lbaSize data.lbaFormatIndex.toNat = .ok lba)
      (fresh : createNamespace dev nsid { data.info with lbaSize := lba } s = .ok (some (info, s')))
  | delete (nsid : Nat) (ns : Namespace) (command : c = .delete nsid)
      (found : s.find? nsid = some ns) (perm : s.lNamespaces.Perm (ns :: s'.lNamespaces))
      (allocated : s'.allocatedLogicalPages = (s.allocatedLogicalPages + 2 ^ 64 -
        ns.info.size * ns.info.lbaSize % 2 ^ 64 / dev.logicalPageSize) % 2 ^ 64)
  | format (tick : Nat) (req : SQEntryWrapper) (ns : Namespace) (lba : Nat)
      (command : c = .format tick req) (valid : formatValid req)
      (found : s.find? req.namespaceID.toNat = some ns)
      (size : lbaSize (req.dword10 &&& 0x0F).toNat = .ok lba)
      (ranges : s'.ranges = s.ranges)
      (allocated : s'.allocatedLogicalPages = s.allocatedLogicalPages)
      (infos : ∀ ns' ∈ s'.lNamespaces, ns' ∈ s.lNamespaces ∨
        ns' = formatted dev (req.dword10 &&& 0x0F).toNat lba tick ns)

theorem attached_keep {nsid : Nat} {b : Bool} {c : Command} :
    Change dev s { s with lNamespaces := s.lNamespaces.map fun iter =>
      if iter.nsid = nsid then { iter with attached := b } else iter } c := by
  have hinfo : ∀ iter : Namespace,
      (if iter.nsid = nsid then { iter with attached := b } else iter).info = iter.info := by
    intro iter
    split <;> rfl
  refine .keep ?_ rfl fun ns hns => ?_
  · rw [ranges, ranges, List.map_map]
    exact List.map_congr_left fun iter _ => congrArg _ (hinfo iter)
  · obtain ⟨ns', hns', rfl⟩ := List.mem_map.mp hns
    exact ⟨ns', hns', hinfo ns'⟩

theorem Change.refl {c : Command} : Change dev s s c :=
  .keep rfl rfl fun ns hns => ⟨ns, hns, rfl⟩

theorem exec_change {c : Command} (h : exec dev s c = .ok s') : Change dev s s' c := by
  cases c with
  | create nsid data resp =>
    rw [exec, Except.map_eq_ok] at h
    obtain ⟨⟨resp', s₁⟩, h, rfl⟩ := h
    simp only [createDone, Except.bind_eq_ok] at h
    obtain ⟨lba, hlba, ret, hret, h⟩ := h
    cases ret with
    | none =>
      cases h
      exact .refl
    | some made =>
      cases h
      exact .create nsid data resp lba made.1 rfl hlba hret
  | delete nsid =>
    cases h
    rw [destroyNamespace]
    cases hfind : s.find? nsid with
    | none => exact .refl
    | some ns => exact .delete nsid ns rfl hfind (eraseP_perm hfind) rfl
  | attach nsid resp =>
    cases h
    exact attached_keep
  | detach nsid resp =>
    cases h
    exact attached_keep
  | format tick req =>
    rw [exec, Except.map_eq_ok] at h
    obtain ⟨⟨out, s₁⟩, h, rfl⟩ := h
    rw [formatNVM] at h
    split at h
    · cases h
      exact .refl
    · next hvalid =>
      split at h
      · cases h
        exact .refl
      · next ns hfind =>
        rw [Except.bind_eq_ok] at h
        obtain ⟨lba, hlba, h⟩ := h
        cases h
        have hranges := update_map req.namespaceID.toNat
          (f := formatted dev (req.dword10 &&& 0x0F).toNat lba tick)
          (g := (·.info.range)) (fun _ => rfl) s.lNamespaces
        refine .format tick req ns lba rfl (by simpa using hvalid) hfind hlba hranges rfl
          fun ns' hns' => ?_
        rcases mem_update hns' with hns' | ⟨found, hfound, heq⟩
        · exact .inl hns'
        · rw [find?, hfound] at hfind
          exact .inr (by rw [heq, Option.some.inj hfind])

/-- Every command keeps the ranges in place. -/
theorem exec_placed {c : Command} (hs : Placed dev s.ranges) (h : exec dev s c = .ok s') :
    Placed dev s'.ranges := by
  cases exec_change h with
  | keep hranges => rwa [hranges]
  | create nsid data resp lba info hc hlba hret =>
    obtain ⟨lba', -, -, halloc, hpos, -, -, -, rfl⟩ := createNamespace_spec hret
    have hperm : (s.insert (.new nsid info)).ranges.Perm (info.range :: s.ranges) :=
      (insert_perm s (.new nsid info)).map _
    rcases allocate_spec hs halloc with ⟨hnlp, hin, hapart, -⟩ | ⟨hrange, -⟩
    · refine (hs.cons ?_ hpos hapart).perm hperm.symm
      rwa [hnlp]
    · -- the new `info` comes with an empty range
      rw [hrange] at hpos
      exact absurd hpos (lt_irrefl 0)
  | delete nsid ns hc hfound hperm => exact (hs.perm (hperm.map _)).tail
  | format tick req ns lba hc hvalid hfound hlba hranges => rwa [hranges]

/-! ### The default namespaces -/

/-- The ranges end below the page counter, so no gap begins above it. -/
structure Packed (dev : LPNInfo) (s : Subsystem) : Prop where
  placed : Placed dev s.ranges
  allocated_le : s.allocatedLogicalPages ≤ dev.totalLogicalPages
  stop_le : ∀ r ∈ s.ranges, r.slpn + r.nlp ≤ s.allocatedLogicalPages

/-- The last gap is as long as the counter says, so the range that `info` came with is
not used. -/
theorem Packed.fresh_range {nsid : Nat} {info info' : Information} (hs : Packed dev s)
    (h : createNamespace dev nsid info s = .ok (some (info', s'))) :
    ∃ lba, lbaSize info.lbaFormatIndex = .ok lba ∧
      info'.range.nlp = requestedPages dev info.size lba ∧
      info'.range.slpn ≤ s.allocatedLogicalPages ∧
      s.allocatedLogicalPages + info'.range.nlp ≤ dev.totalLogicalPages ∧
      ∀ r ∈ s.ranges, info'.range.Apart r := by
  obtain ⟨lba, hlba, hroom, halloc, -, -⟩ := createNamespace_spec h
  have hle := hs.allocated_le
  have hlt := dev.totalLogicalPages_lt
  have hbegin : ∀ p, (p = 0 ∨ ∃ r ∈ s.ranges, p = r.slpn + r.nlp) →
      p ≤ s.allocatedLogicalPages := by
    rintro p (rfl | ⟨r, hr, rfl⟩)
    · exact Nat.zero_le _
    · exact hs.stop_le r hr
  rcases allocate_spec hs.placed halloc with ⟨hnlp, -, hapart, hp⟩ | ⟨-, p, hlong, hp⟩
  · exact ⟨lba, hlba, hnlp, hbegin _ hp, by omega, hapart⟩
  · have := hbegin p hp
    omega

/-- Attaching the last namespace of the list. -/
theorem map_modifyLast {β : Type*} {g : Namespace → β} {f : Namespace → Namespace}
    (hf : ∀ ns, g (f ns) = g ns) (l : List Namespace) : (l.modifyLast f).map g = l.map g := by
  induction l using List.reverseRecOn with
  | nil => rfl
  | append_singleton l ns => simp [List.modifyLast_concat, hf]

theorem initNamespace_cases {size i : Nat} {state state' : Information × Subsystem}
    (h : initNamespace dev size state i = .ok state') :
    ∃ s₁, createNamespace dev (nsidLowest + i) { state.1 with size := size, capacity := size }
        state.2 = .ok (some (state'.1, s₁)) ∧
      state'.2.lNamespaces.map (·.info) = s₁.lNamespaces.map (·.info) ∧
      state'.2.allocatedLogicalPages = s₁.allocatedLogicalPages := by
  rw [initNamespace, Except.bind_eq_ok] at h
  obtain ⟨ret, hret, h⟩ := h
  split at h
  · next info s₁ =>
    cases h
    have hinfos := map_modifyLast (g := (·.info)) (f := fun ns => { ns with attached := true })
      (fun _ => rfl) s₁.lNamespaces
    exact ⟨s₁, hret, hinfos, rfl⟩
  · cases h

/-- What the infos of the namespaces say, the ranges say. -/
theorem ranges_eq (s : Subsystem) : s.ranges = (s.lNamespaces.map (·.info)).map (·.range) := by
  rw [ranges, List.map_map]
  rfl

theorem createNamespace_packed {nsid : Nat} {info info' : Information} (hs : Packed dev s)
    (h : createNamespace dev nsid info s = .ok (some (info', s'))) :
    Packed dev s' ∧ s'.allocatedLogicalPages = s.allocatedLogicalPages + info'.range.nlp := by
  obtain ⟨lba, -, -, hslpn, htotal, hapart⟩ := hs.fresh_range h
  obtain ⟨-, -, -, -, hpos, -, -, -, rfl⟩ := createNamespace_spec h
  have hranges : (s.insert (.new nsid info')).ranges.Perm (info'.range :: s.ranges) :=
    (insert_perm s (.new nsid info')).map _
  have hcounter : (s.insert (.new nsid info')).allocatedLogicalPages =
      s.allocatedLogicalPages + info'.range.nlp :=
    Nat.mod_eq_of_lt (htotal.trans_lt dev.totalLogicalPages_lt)
  refine ⟨⟨(hs.placed.cons (by omega) hpos hapart).perm hranges.symm, by omega, fun r hr => ?_⟩,
    hcounter⟩
  rcases List.mem_cons.mp (hranges.mem_iff.mp hr) with rfl | hr
  · omega
  · have := hs.stop_le r hr
    omega

/-- `init` puts one namespace behind the other. -/
theorem initNamespace_packed {size i : Nat} {state state' : Information × Subsystem}
    (hs : Packed dev state.2) (h : initNamespace dev size state i = .ok state') :
    Packed dev state'.2 := by
  obtain ⟨s₁, hcreate, hinfos, hallocated⟩ := initNamespace_cases h
  obtain ⟨hpacked, -⟩ := createNamespace_packed hs hcreate
  have hranges : state'.2.ranges = s₁.ranges := by rw [ranges_eq, hinfos, ← ranges_eq]
  refine ⟨?_, ?_, fun r hr => ?_⟩
  · rw [hranges]
    exact hpacked.placed
  · rw [hallocated]
    exact hpacked.allocated_le
  · rw [hranges] at hr
    rw [hallocated]
    exact hpacked.stop_le r hr

theorem new_packed : Packed dev .new where
  placed := ⟨by simp [ranges, new], by simp [ranges, new], by simp [ranges, new]⟩
  allocated_le := Nat.zero_le _
  stop_le := by simp [ranges, new]

/-- The first of the runs: `init` from no namespaces. -/
theorem init_inv {nNamespaces lba : Nat} {I : Information × Subsystem → Prop}
    (hfirst : ∀ lbaFormatIndex, lbaSize lbaFormatIndex = .ok lba →
      I (⟨0, 0, 0, 0, lbaFormatIndex, 0, 0, lba, ⟨0, 0⟩⟩, .new))
    (hstep : ∀ state i state', I state → initNamespace dev
      (dev.totalLogicalPages * dev.logicalPageSize % 2 ^ 64 / lba / nNamespaces) state i =
        .ok state' → I state')
    (h : init dev nNamespaces lba = .ok s) : s = .new ∨ 0 < nNamespaces ∧ ∃ info, I (info, s) := by
  rw [init] at h
  split at h
  · cases h
    exact .inl rfl
  · next hn =>
    rw [Except.bind_eq_ok] at h
    obtain ⟨lbaFormatIndex, hindex, h⟩ := h
    rw [Except.bind_eq_ok] at h
    obtain ⟨⟨info, s₁⟩, hfold, h⟩ := h
    cases h
    have hlba : lbaSize lbaFormatIndex = .ok lba := by
      rw [formatIndexOf] at hindex
      split at hindex
      · next found hfound =>
        cases hindex
        obtain ⟨hlt, heq, -⟩ := List.findIdx?_eq_some_iff_getElem.mp hfound
        rw [decide_eq_true_eq] at heq
        rw [lbaSize, List.getElem?_eq_getElem hlt, heq]
      · cases hindex
    exact .inr ⟨Nat.pos_of_ne_zero hn, info, Run.foldlM_inv hstep (hfirst _ hlba) hfold⟩

theorem init_placed {nNamespaces lba : Nat} (h : init dev nNamespaces lba = .ok s) :
    Packed dev s := by
  rcases init_inv (I := fun state => Packed dev state.2) (fun _ _ => new_packed)
    (fun state i state' => initNamespace_packed) h with rfl | ⟨-, info, h⟩
  · exact new_packed
  · exact h

/-- In every run the ranges stay apart and inside the device. -/
theorem run_placed {nNamespaces lba : Nat} {commands : List Command}
    (h : run dev nNamespaces lba commands = .ok s) : Placed dev s.ranges := by
  rw [run, Except.bind_eq_ok] at h
  obtain ⟨s₀, hinit, h⟩ := h
  exact Run.foldlM_inv (fun s c s' => exec_placed) (init_placed hinit).placed h

/-! ### The page counter and the sizes -/

/-- The ranges are disjoint and inside the device, the counter counts their pages, and
the blocks of a namespace fit into its range. -/
structure Accounted (dev : LPNInfo) (s : Subsystem) : Prop where
  disjoint : s.ranges.Pairwise fun a b => Disjoint a.pages b.pages
  inside : ∀ r ∈ s.ranges, r.pages ⊆ Finset.range dev.totalLogicalPages
  allocated : s.allocatedLogicalPages = (s.ranges.map LPNRange.nlp).sum
  fits : ∀ ns ∈ s.lNamespaces,
    ns.info.size * ns.info.lbaSize ≤ ns.info.range.nlp * dev.logicalPageSize

/-- The counter is exact, and within the device. -/
def Counted (dev : LPNInfo) (s : Subsystem) : Prop :=
  s.allocatedLogicalPages = (s.ranges.map LPNRange.nlp).sum ∧
    s.allocatedLogicalPages ≤ dev.totalLogicalPages

/-- The blocks of a namespace fit into its range. -/
def Fits (dev : LPNInfo) (info : Information) : Prop :=
  info.size * info.lbaSize ≤ info.range.nlp * dev.logicalPageSize

/-- The size of a new namespace is a multiple of the page size, and its pages can be
counted in 64 bits. -/
def Divides (dev : LPNInfo) (size lba : Nat) : Prop :=
  dev.logicalPageSize ∣ size ∧ size / dev.logicalPageSize * lba < 2 ^ 64

instance (size lba : Nat) : Decidable (Divides dev size lba) :=
  inferInstanceAs (Decidable (_ ∧ _))

/-- The condition on a command. A create command for which there is room has a size that
the page size divides; the recomputed pages of a deleted namespace are those it has; and
the device has no more blocks than the namespace formatted. -/
def Sound (dev : LPNInfo) (s : Subsystem) : Command → Prop
  | .create _ data _ => ∀ lba, lbaSize data.lbaFormatIndex.toNat = .ok lba →
      Room dev s.ranges (requestedPages dev data.size.toNat lba) →
        Divides dev data.size.toNat lba
  | .delete nsid => ∀ ns, s.find? nsid = some ns →
      ns.info.size * ns.info.lbaSize % 2 ^ 64 / dev.logicalPageSize = ns.info.range.nlp
  | .attach _ _ => True
  | .detach _ _ => True
  | .format _ req => formatValid req → ∀ ns, s.find? req.namespaceID.toNat = some ns →
      ∀ lba, lbaSize (req.dword10 &&& 0x0F).toNat = .ok lba →
        dev.totalLogicalPages * dev.logicalPageSize % 2 ^ 64 / lba * lba ≤
          ns.info.range.nlp * dev.logicalPageSize

/-- The condition on the default namespaces. -/
def SoundInit (dev : LPNInfo) (nNamespaces lba : Nat) : Prop :=
  0 < nNamespaces →
    Divides dev (dev.totalLogicalPages * dev.logicalPageSize % 2 ^ 64 / lba / nNamespaces) lba

/-- Whole pages hold the blocks. -/
theorem fits_of_divides {info : Information} (h : Divides dev info.size info.lbaSize)
    (hnlp : info.range.nlp = requestedPages dev info.size info.lbaSize) : Fits dev info := by
  obtain ⟨hdvd, hlt⟩ := h
  have heq : info.size / dev.logicalPageSize * info.lbaSize * dev.logicalPageSize =
      info.size * info.lbaSize := by
    rw [Nat.mul_right_comm, Nat.div_mul_cancel hdvd]
  rw [Fits, hnlp, requestedPages, Nat.mod_eq_of_lt hlt, heq]

/-- One more range is counted. -/
theorem Counted.insert {ns : Namespace} (hs : Counted dev s)
    (hroom : s.allocatedLogicalPages + ns.info.range.nlp ≤ dev.totalLogicalPages) :
    Counted dev (s.insert ns) := by
  have hperm : (s.insert ns).ranges.Perm (ns.info.range :: s.ranges) := (insert_perm s ns).map _
  have hcounter : (s.insert ns).allocatedLogicalPages =
      s.allocatedLogicalPages + ns.info.range.nlp :=
    Nat.mod_eq_of_lt (hroom.trans_lt dev.totalLogicalPages_lt)
  refine ⟨?_, by rwa [hcounter]⟩
  rw [hcounter, (hperm.map _).sum_eq, List.map_cons, List.sum_cons, hs.1, Nat.add_comm]

/-- What the runs keep. -/
structure Kept (dev : LPNInfo) (s : Subsystem) : Prop where
  placed : Placed dev s.ranges
  counted : Counted dev s
  fits : ∀ ns ∈ s.lNamespaces, Fits dev ns.info

theorem Kept.accounted (h : Kept dev s) : Accounted dev s where
  disjoint := h.placed.apart.imp LPNRange.Apart.disjoint
  inside r hr p hp := by
    rw [LPNRange.pages, Finset.mem_Ico] at hp
    exact Finset.mem_range.mpr (hp.2.trans_le (h.placed.inside r hr))
  allocated := h.counted.1
  fits := h.fits

/-- A deleted range is taken out of the count. -/
theorem Counted.delete {ns : Namespace} (hs : Counted dev s)
    (hperm : s.lNamespaces.Perm (ns :: s'.lNamespaces))
    (hallocated : s'.allocatedLogicalPages =
      (s.allocatedLogicalPages + 2 ^ 64 - ns.info.range.nlp) % 2 ^ 64) : Counted dev s' := by
  obtain ⟨hsum, hle⟩ := hs
  have hlt := dev.totalLogicalPages_lt
  have hranges : s.ranges.Perm (ns.info.range :: s'.ranges) := hperm.map _
  rw [(hranges.map _).sum_eq, List.map_cons, List.sum_cons] at hsum
  have hcounter : s'.allocatedLogicalPages = (s'.ranges.map LPNRange.nlp).sum := by omega
  exact ⟨hcounter, by omega⟩

/-- A command that meets the condition keeps the counter and the sizes. -/
theorem exec_kept {c : Command} (hs : Kept dev s) (hc : Sound dev s c)
    (h : exec dev s c = .ok s') : Kept dev s' := by
  have hplaced := exec_placed hs.placed h
  obtain ⟨hsum, hle⟩ := hs.counted
  cases exec_change h with
  | keep hranges hallocated hinfos =>
    refine ⟨hplaced, ⟨by rw [hallocated, hranges, hsum], by rwa [hallocated]⟩, fun ns hns => ?_⟩
    obtain ⟨ns', hns', heq⟩ := hinfos ns hns
    rw [heq]
    exact hs.fits ns' hns'
  | create nsid data resp lba info hcommand hlba hret =>
    subst hcommand
    obtain ⟨lba', hlba', hroom, halloc, hpos, hsize, hinfo, -, rfl⟩ := createNamespace_spec hret
    obtain rfl : lba = lba' := Except.ok.inj (hlba.symm.trans hlba')
    have hlt := dev.totalLogicalPages_lt
    rcases allocate_spec hs.placed halloc with ⟨hnlp, hin, hapart, -⟩ | ⟨hrange, -⟩
    · have hfree : Room dev s.ranges (requestedPages dev data.size.toNat lba) := by
        refine ⟨by rwa [hnlp] at hpos, info.range.slpn, hin, fun r hr => ?_⟩
        have hdisj := (hapart r hr).disjoint
        rwa [show info.range = ⟨info.range.slpn, info.range.nlp⟩ from rfl, hnlp] at hdisj
      have hfits : Fits dev info := by
        refine fits_of_divides ?_ ?_
        · rw [hsize, hinfo]
          exact hc lba hlba hfree
        · rw [hsize, hinfo]
          exact hnlp
      refine ⟨hplaced, hs.counted.insert ?_, fun ns hns => ?_⟩
      · show s.allocatedLogicalPages + info.range.nlp ≤ dev.totalLogicalPages
        rw [hnlp]
        omega
      · rcases List.mem_cons.mp ((insert_perm s _).mem_iff.mp hns) with rfl | hns
        · exact hfits
        · exact hs.fits ns hns
    · rw [hrange] at hpos
      exact absurd hpos (lt_irrefl 0)
  | delete nsid ns hcommand hfound hperm hallocated =>
    subst hcommand
    rw [hc ns hfound] at hallocated
    exact ⟨hplaced, hs.counted.delete hperm hallocated, fun ns' hns' =>
      hs.fits ns' (hperm.mem_iff.mpr (List.mem_cons_of_mem ns hns'))⟩
  | format tick req ns lba hcommand hvalid hfound hlba hranges hallocated hinfos =>
    subst hcommand
    refine ⟨hplaced, ⟨by rw [hallocated, hranges, hsum], by rwa [hallocated]⟩, fun ns' hns' => ?_⟩
    rcases hinfos ns' hns' with hns' | rfl
    · exact hs.fits ns' hns'
    · exact hc hvalid ns hfound lba hlba

/-- What `init` keeps while it makes the default namespaces. -/
structure Starting (dev : LPNInfo) (lba : Nat) (state : Information × Subsystem) : Prop where
  packed : Packed dev state.2
  counted : Counted dev state.2
  fits : ∀ info ∈ state.2.lNamespaces.map (·.info), Fits dev info
  blocks : state.1.lbaSize = lba
  index : lbaSize state.1.lbaFormatIndex = .ok lba

theorem initNamespace_starting {size lba i : Nat} {state state' : Information × Subsystem}
    (hsize : Divides dev size lba) (hs : Starting dev lba state)
    (h : initNamespace dev size state i = .ok state') : Starting dev lba state' := by
  have hpacked := initNamespace_packed hs.packed h
  obtain ⟨s₁, hcreate, hinfos, hallocated⟩ := initNamespace_cases h
  obtain ⟨lba', hlba', hnlp, -, htotal, -⟩ := hs.packed.fresh_range hcreate
  obtain ⟨-, -, -, -, -, hsize', hlba, hindex, rfl⟩ := createNamespace_spec hcreate
  obtain rfl : lba = lba' := Except.ok.inj (hs.index.symm.trans hlba')
  have hblocks : state'.1.lbaSize = lba := hlba.trans hs.blocks
  have hcounted : Counted dev (state.2.insert (.new (nsidLowest + i) state'.1)) :=
    hs.counted.insert htotal
  refine ⟨hpacked, ⟨?_, hpacked.allocated_le⟩, fun info hinfo => ?_, hblocks, ?_⟩
  · rw [hallocated, hcounted.1, ranges_eq, ranges_eq, hinfos]
  · rw [hinfos] at hinfo
    rcases List.mem_cons.mp (((insert_perm _ _).map _).mem_iff.mp hinfo) with rfl | hinfo
    · refine fits_of_divides ?_ ?_
      · show Divides dev state'.1.size state'.1.lbaSize
        rwa [hblocks, hsize']
      · show state'.1.range.nlp = requestedPages dev state'.1.size state'.1.lbaSize
        rw [hblocks, hsize', hnlp]
    · exact hs.fits info hinfo
  · rw [hindex]
    exact hs.index

theorem Starting.kept {lba : Nat} {state : Information × Subsystem} (h : Starting dev lba state) :
    Kept dev state.2 where
  placed := h.packed.placed
  counted := h.counted
  fits ns hns := h.fits ns.info (List.mem_map_of_mem hns)

theorem new_starting {lba lbaFormatIndex : Nat} (h : lbaSize lbaFormatIndex = .ok lba) :
    Starting dev lba (⟨0, 0, 0, 0, lbaFormatIndex, 0, 0, lba, ⟨0, 0⟩⟩, .new) where
  packed := new_packed
  counted := ⟨rfl, Nat.zero_le _⟩
  fits := by simp [new]
  blocks := rfl
  index := h

/-- The default namespaces are counted, and fit when the page size divides their size. -/
theorem init_kept {nNamespaces lba : Nat} (hsound : SoundInit dev nNamespaces lba)
    (h : init dev nNamespaces lba = .ok s) : Kept dev s := by
  by_cases hn : 0 < nNamespaces
  · rcases init_inv (fun _ hindex => new_starting hindex)
      (fun state i state' => initNamespace_starting (hsound hn)) h with rfl | ⟨-, info, h⟩
    · exact ⟨new_packed.placed, ⟨rfl, Nat.zero_le _⟩, by simp [new]⟩
    · exact h.kept
  · rw [init, if_pos (by omega)] at h
    cases h
    exact ⟨new_packed.placed, ⟨rfl, Nat.zero_le _⟩, by simp [new]⟩

/-- In a run of commands that meet the condition, the counter and the sizes agree with
the ranges. -/
theorem run_accounted (dev : LPNInfo) (nNamespaces lba : Nat) (commands : List Command)
    (s₀ s : Subsystem) (hsound : SoundInit dev nNamespaces lba)
    (hinit : init dev nNamespaces lba = .ok s₀)
    (hcommands : Run.Along (exec dev) (Sound dev) s₀ commands)
    (hrun : commands.foldlM (exec dev) s₀ = .ok s) : Accounted dev s :=
  (hcommands.foldlM_inv (fun _ _ _ => exec_kept) (init_kept hsound hinit) hrun).accounted

/-- A device of 1024 pages of 4096 bytes. -/
def smallDevice : LPNInfo := ⟨1024, 4096, by decide, by decide, by decide⟩

/-- A namespace on the whole of the small device. -/
def wholeDevice : Subsystem where
  lNamespaces := [⟨1, ⟨8192, 8192, 4194304, 0, 0, 0, 0, 512, ⟨0, 1024⟩⟩, true, 0⟩]
  allocatedLogicalPages := 1024

/-- An admin command. -/
def adminCommand (opcode : BitVec 8) (namespaceID dword10 : BitVec 32) : SQEntryWrapper :=
  ⟨opcode, 0, namespaceID, 0, 0, dword10, 0, 0, 0, 0, 0, 0, 0, false⟩

/-- The answer to a create command that the checks have not touched. -/
def createResp : CQEntryWrapper := .new (adminCommand 0x0D 0 0)

/-- The namespace is deleted, and two blocks of the page size take its place. -/
theorem run_accounted_small : ∃ s,
    [Command.delete 1, .create 1 ⟨4096, 4096, 0, 0, 0⟩ createResp].foldlM (exec smallDevice)
      wholeDevice = .ok s ∧ Accounted smallDevice s := by
  have hinit : init smallDevice 1 512 = .ok wholeDevice := by decide +kernel
  have hsound : SoundInit smallDevice 1 512 := fun _ => by decide +kernel
  have hcommands : Run.Along (exec smallDevice) (Sound smallDevice) wholeDevice
      [.delete 1, .create 1 ⟨4096, 4096, 0, 0, 0⟩ createResp] := by
    refine ⟨?_, ?_, trivial⟩
    · rintro ns ⟨⟩
      decide +kernel
    · rintro lba ⟨⟩ -
      decide +kernel
  exact ⟨_, rfl, run_accounted smallDevice 1 512 _ wholeDevice _ hsound hinit hcommands rfl⟩

/-- A size of 4097 blocks: the namespace gets the pages of 4096. -/
theorem not_accounted_create : ∃ s,
    run smallDevice 0 512 [.create 1 ⟨4097, 4097, 0, 0, 0⟩ createResp] = .ok s ∧
      ¬ Accounted smallDevice s := by
  have hrun : ∃ s, run smallDevice 0 512 [.create 1 ⟨4097, 4097, 0, 0, 0⟩ createResp] = .ok s ∧
      ¬ ∀ ns ∈ s.lNamespaces, ns.info.size * ns.info.lbaSize ≤ ns.info.range.nlp * 4096 :=
    Except.exists_of_map (by decide +kernel)
  obtain ⟨s, hs, hfits⟩ := hrun
  exact ⟨s, hs, fun h => hfits h.fits⟩

end HIL.NVMe.Subsystem

end SimpleSSD
