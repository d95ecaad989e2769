import Mathlib.Data.Finset.Sort
import SimpleSSD.HIL.NVMe.NamespaceCreation
import SimpleSSD.HIL.NVMe.NamespaceIds

/-!
# The lists of namespaces (hil/nvme/subsystem.cc:696–758)

Identify answers with the identifiers of the active or of the allocated namespaces. They are copied
in the order of `lNamespaces`, so the list has to be sorted, which it is in every run
(`run_sorted`). The buffer holds 1024 of them, and nothing stops the copy at its end: the reply
is what it should be as long as there are no more than that, and no two with the same identifier
(`identify_lists_iff`).
-/

namespace SimpleSSD.HIL.NVMe.Subsystem

/-! ### The command -/

/-- `CNS_ACTIVE_NAMESPACE_LIST` and `CNS_ALLOCATED_NAMESPACE_LIST`. -/
inductive NamespaceList where
  | active
  | allocated
  deriving DecidableEq, Repr

/-- The namespace is one of the list, and behind the identifier that the command starts from. -/
def NamespaceList.qualifies (list : NamespaceList) (start : Nat) (iter : Namespace) : Bool :=
  match list with
  | active => iter.attached && decide (start < iter.nsid)
  | allocated => decide (start < iter.nsid)

/-- `pContext->buffer`, seen as words of 32 bits, and `idx`. -/
structure ListBuffer where
  words : List Nat
  idx : Nat
  deriving DecidableEq, Repr

/-- `((uint32_t *)pContext->buffer)[idx++] = nsid`. -/
def ListBuffer.put (buffer : ListBuffer) (nsid : Nat) : Except Fault ListBuffer :=
  if buffer.idx < buffer.words.length then
    .ok ⟨buffer.words.set buffer.idx nsid, (buffer.idx + 1) % 2 ^ 16⟩
  else .error (.badAccess "pContext->buffer")

/-- One turn of the loop. -/
def NamespaceList.visit (list : NamespaceList) (start : Nat) (buffer : ListBuffer)
    (iter : Namespace) : Except Fault ListBuffer :=
  if list.qualifies start iter then buffer.put iter.nsid else .ok buffer

/-- `identify` for the two lists: the answer, or what is in the buffer that is sent. -/
def identify (s : Subsystem) (list : NamespaceList) (req : SQEntryWrapper) :
    Except Fault (CQEntryWrapper ⊕ List Nat) :=
  if nsidAll - 1 ≤ req.namespaceID.toNat then
    .ok (.inl ((CQEntryWrapper.new req).makeStatus true false .genericCommandStatus
      .abortInvalidNamespace))
  else do
    let buffer ← s.lNamespaces.foldlM (list.visit req.namespaceID.toNat)
      ⟨List.replicate 1024 0, 0⟩
    .ok (.inr buffer.words)

/-! ### What the reply should be -/

/-- The identifiers of the list behind `start`, one for each namespace. -/
def nsids (s : Subsystem) (list : NamespaceList) (start : Nat) : List Nat :=
  (s.lNamespaces.filter (list.qualifies start)).map (·.nsid)

/-- The smallest 1024 of the identifiers, in increasing order. -/
def smallest (s : Subsystem) (list : NamespaceList) (start : Nat) : List Nat :=
  (s.nsids list start).toFinset.sort.take 1024

/-- No access is outside of the buffer, which holds the smallest identifiers and is zero behind
them. A command is refused only when there can be no identifier behind `start`. -/
def Replies (s : Subsystem) (list : NamespaceList) (req : SQEntryWrapper) : Prop :=
  ∃ out, s.identify list req = .ok out ∧
    match out with
    | .inl resp => resp.status ≠ .zero ∧ nsidAll - 1 ≤ req.namespaceID.toNat
    | .inr words => words = s.smallest list req.namespaceID.toNat ++
        List.replicate (1024 - (s.smallest list req.namespaceID.toNat).length) 0

section Lists

variable {dev : LPNInfo} {s s' : Subsystem} {list : NamespaceList} {start : Nat}

/-! ### The order of the namespaces -/

/-- The namespaces are in the order of their identifiers. -/
def Sorted (s : Subsystem) : Prop := (s.lNamespaces.map (·.nsid)).Pairwise (· ≤ ·)

theorem map_attached (nsid : Nat) (b : Bool) (l : List Namespace) :
    (l.map fun iter => if iter.nsid = nsid then { iter with attached := b } else iter).map
      (·.nsid) =
      l.map (·.nsid) := by
  rw [List.map_map]
  refine List.map_congr_left fun iter _ => ?_
  rw [Function.comp_apply]
  split <;> rfl

/-- Every command keeps the order. -/
theorem exec_sorted {c : Command} (hs : s.Sorted) (h : exec dev s c = .ok s') : s'.Sorted := by
  cases c with
  | create nsid data resp =>
    rw [exec, Except.map_eq_ok] at h
    obtain ⟨⟨resp', s₁⟩, h, rfl⟩ := h
    simp only [createDone, Except.bind_eq_ok] at h
    obtain ⟨lba, -, ret, hret, h⟩ := h
    cases ret with
    | none =>
      cases h
      exact hs
    | some made =>
      cases h
      obtain ⟨-, -, -, -, -, -, -, -, hinsert⟩ := createNamespace_spec hret
      show made.2.Sorted
      rw [hinsert]
      exact Manager.insert_pairwise _ _
  | delete nsid =>
    cases h
    rw [destroyNamespace]
    cases s.find? nsid with
    | none => exact hs
    | some ns => exact hs.sublist (List.eraseP_sublist.map _)
  | attach nsid resp =>
    cases h
    rw [Sorted, attach, map_attached]
    exact hs
  | detach nsid resp =>
    cases h
    rw [Sorted, detach, map_attached]
    exact hs
  | format tick req =>
    rw [exec, Except.map_eq_ok] at h
    obtain ⟨⟨out, s₁⟩, h, rfl⟩ := h
    rw [formatNVM] at h
    split at h
    · cases h
      exact hs
    · split at h
      · cases h
        exact hs
      · rw [Except.bind_eq_ok] at h
        obtain ⟨lba, -, h⟩ := h
        cases h
        have hids := update_map req.namespaceID.toNat (g := (·.nsid))
          (f := formatted dev (req.dword10 &&& 0x0F).toNat lba tick) (fun _ => rfl) s.lNamespaces
        exact (congrArg (List.Pairwise (· ≤ ·)) hids).mpr hs

theorem initNamespace_sorted {size i : Nat} {state state' : Information × Subsystem}
    (h : initNamespace dev size state i = .ok state') : state'.2.Sorted := by
  rw [initNamespace, Except.bind_eq_ok] at h
  obtain ⟨ret, hret, h⟩ := h
  cases ret with
  | none => cases h
  | some made =>
    cases h
    obtain ⟨-, -, -, -, -, -, -, -, hinsert⟩ := createNamespace_spec hret
    have hids := map_modifyLast (g := (·.nsid)) (f := fun ns => { ns with attached := true })
      (fun _ => rfl) made.2.lNamespaces
    refine (congrArg (List.Pairwise (· ≤ ·)) hids).mpr ?_
    rw [hinsert]
    exact Manager.insert_pairwise _ _

/-- The namespaces are sorted in every run. -/
theorem run_sorted {nNamespaces lba : Nat} {commands : List Command}
    (h : run dev nNamespaces lba commands = .ok s) : s.Sorted := by
  rw [run, Except.bind_eq_ok] at h
  obtain ⟨s₀, hinit, h⟩ := h
  refine Run.foldlM_inv (fun s c s' => exec_sorted) ?_ h
  rcases init_inv (I := fun state => state.2.Sorted) (fun _ _ => List.Pairwise.nil)
    (fun state i state' _ => initNamespace_sorted) hinit with rfl | ⟨-, info, h⟩
  · exact List.Pairwise.nil
  · exact h

theorem Sorted.nsids (h : s.Sorted) (list : NamespaceList) (start : Nat) :
    (s.nsids list start).Pairwise (· ≤ ·) :=
  List.Pairwise.sublist (List.filter_sublist.map _) h

/-! ### The copy -/

/-- The buffer with some identifiers in it. -/
def ListBuffer.holding (copied : List Nat) : ListBuffer :=
  ⟨copied ++ List.replicate (1024 - copied.length) 0, copied.length⟩

theorem ListBuffer.holding_put {copied : List Nat} (h : copied.length ≤ 1024) (nsid : Nat) :
    (holding copied).put nsid = if copied.length < 1024 then .ok (holding (copied ++ [nsid]))
      else .error (.badAccess "pContext->buffer") := by
  have hlength : (holding copied).words.length = 1024 := by
    rw [holding, List.length_append, List.length_replicate]
    omega
  rw [put, hlength]
  show (if copied.length < 1024 then _ else _) = _
  split
  · next hlt =>
    obtain ⟨rest, hrest⟩ := Nat.exists_eq_add_of_lt hlt
    have hmod : (copied.length + 1) % 2 ^ 16 = copied.length + 1 := Nat.mod_eq_of_lt (by omega)
    rw [holding, holding, List.length_append, List.length_singleton, hmod,
      show 1024 - copied.length = rest + 1 by omega,
      show 1024 - (copied.length + 1) = rest by omega, List.replicate_succ,
      List.set_append_right _ _ (Nat.le_refl _), Nat.sub_self, List.set_cons_zero,
      List.append_assoc, List.singleton_append]
  · rfl

/-- The loop copies all that qualify, or goes past the end of the buffer. -/
theorem visit_all (list : NamespaceList) (start : Nat) (l : List Namespace) {copied : List Nat}
    (h : copied.length ≤ 1024) :
    l.foldlM (list.visit start) (ListBuffer.holding copied) =
      let found := (l.filter (list.qualifies start)).map (·.nsid)
      if copied.length + found.length ≤ 1024 then .ok (ListBuffer.holding (copied ++ found))
      else .error (.badAccess "pContext->buffer") := by
  induction l generalizing copied with
  | nil =>
    rw [List.filter_nil, List.map_nil]
    dsimp only
    rw [List.length_nil, if_pos (by omega), List.append_nil]
    rfl
  | cons iter l ih =>
    rw [List.foldlM_cons, NamespaceList.visit]
    by_cases hqualifies : list.qualifies start iter = true
    · rw [if_pos hqualifies, List.filter_cons_of_pos hqualifies, ListBuffer.holding_put h]
      dsimp only
      rw [List.map_cons, List.length_cons]
      by_cases hlt : copied.length < 1024
      · rw [if_pos hlt, Except.ok_bind,
          ih (by rw [List.length_append, List.length_singleton]; omega)]
        dsimp only
        rw [List.length_append, List.length_singleton, List.append_assoc, List.singleton_append]
        exact if_congr (by omega) rfl rfl
      · rw [if_neg hlt, if_neg (by omega)]
        rfl
    · rw [if_neg hqualifies, List.filter_cons_of_neg hqualifies, Except.ok_bind]
      exact ih h

/-- What the command does, unless it is refused. -/
theorem identify_eq {req : SQEntryWrapper} (hstart : req.namespaceID.toNat < nsidAll - 1) :
    s.identify list req = if (s.nsids list req.namespaceID.toNat).length ≤ 1024 then
        .ok (.inr (s.nsids list req.namespaceID.toNat ++
          List.replicate (1024 - (s.nsids list req.namespaceID.toNat).length) 0))
      else .error (.badAccess "pContext->buffer") := by
  have hempty : ([] : List Nat).length ≤ 1024 := by decide
  have hloop := visit_all list req.namespaceID.toNat s.lNamespaces hempty
  rw [identify, if_neg (by omega)]
  show (s.lNamespaces.foldlM _ (ListBuffer.holding []) >>= _) = _
  rw [hloop]
  dsimp only
  rw [List.length_nil, Nat.zero_add, List.nil_append, ← nsids]
  split <;> rfl

/-! ### The reply -/

theorem nsids_pos : ∀ nsid ∈ s.nsids list start, 0 < nsid := by
  intro nsid hnsid
  obtain ⟨iter, hiter, rfl⟩ := List.mem_map.mp hnsid
  have hqualifies := (List.mem_filter.mp hiter).2
  cases list with
  | active =>
    rw [NamespaceList.qualifies, Bool.and_eq_true, decide_eq_true_eq] at hqualifies
    exact Nat.lt_of_le_of_lt (Nat.zero_le _) hqualifies.2
  | allocated =>
    rw [NamespaceList.qualifies, decide_eq_true_eq] at hqualifies
    exact Nat.lt_of_le_of_lt (Nat.zero_le _) hqualifies

/-- Identifiers are not zero, so the zeros behind them show where they end. -/
theorem eq_of_append_zeros {l l' : List Nat} {n n' : Nat} (hl : ∀ a ∈ l, 0 < a)
    (hl' : ∀ a ∈ l', 0 < a) (h : l ++ List.replicate n 0 = l' ++ List.replicate n' 0) : l = l' := by
  have hfilter : ∀ (l : List Nat) n, (∀ a ∈ l, 0 < a) →
      (l ++ List.replicate n 0).filter (0 < ·) = l := by
    intro l n hl
    rw [List.filter_append, List.filter_eq_self.mpr fun a ha => decide_eq_true (hl a ha),
      List.filter_replicate, if_neg (by decide), List.append_nil]
  rw [← hfilter l n hl, h, hfilter l' n' hl']

/-- The identifiers are the smallest ones exactly when they differ and are not too many. -/
theorem nsids_eq_smallest_iff (hs : s.Sorted) (hlength : (s.nsids list start).length ≤ 1024) :
    s.nsids list start = s.smallest list start ↔ (s.nsids list start).Nodup := by
  unfold smallest
  constructor
  · intro heq
    rw [heq]
    exact (Finset.sort_nodup _ _).sublist (List.take_sublist _ _)
  · intro hnodup
    rw [(List.toFinset_sort (· ≤ ·) hnodup).mpr (hs.nsids list start),
      List.take_of_length_le hlength]

/-- In a state whose namespaces are sorted. -/
theorem replies_iff (hs : s.Sorted) (list : NamespaceList) (req : SQEntryWrapper) :
    s.Replies list req ↔ (req.namespaceID.toNat < nsidAll - 1 →
      (s.nsids list req.namespaceID.toNat).length ≤ 1024 ∧
        (s.nsids list req.namespaceID.toNat).Nodup) := by
  by_cases hstart : nsidAll - 1 ≤ req.namespaceID.toNat
  · refine iff_of_true ⟨_, if_pos hstart, ?_, hstart⟩ fun hlt => absurd hstart (by omega)
    intro hstatus
    cases hstatus
  rw [Replies, identify_eq (by omega)]
  constructor
  · rintro ⟨out, hout, hreply⟩ -
    split at hout
    · next hlength =>
      cases hout
      refine ⟨hlength, (nsids_eq_smallest_iff hs hlength).mp ?_⟩
      refine eq_of_append_zeros nsids_pos (fun nsid hnsid => ?_) hreply
      have hmem := List.mem_of_mem_take hnsid
      rw [Finset.mem_sort, List.mem_toFinset] at hmem
      exact nsids_pos nsid hmem
    · cases hout
  · intro h
    obtain ⟨hlength, hnodup⟩ := h (by omega)
    rw [if_pos hlength]
    refine ⟨_, rfl, ?_⟩
    dsimp only
    rw [← (nsids_eq_smallest_iff hs hlength).mpr hnodup]

/-- In every run, the reply is what it should be exactly when the command is refused, or the
namespaces to list have different identifiers and are not more than the buffer holds. -/
theorem identify_lists_iff (dev : LPNInfo) (nNamespaces lba : Nat) (commands : List Command)
    (s : Subsystem) (hrun : run dev nNamespaces lba commands = .ok s) (list : NamespaceList)
    (req : SQEntryWrapper) :
    s.Replies list req ↔ (req.namespaceID.toNat < nsidAll - 1 →
      (s.nsids list req.namespaceID.toNat).length ≤ 1024 ∧
        (s.nsids list req.namespaceID.toNat).Nodup) :=
  replies_iff (run_sorted hrun) list req

/-- What a create command asks for with `onePage`. -/
def pageInfo : Information := { Manager.onePage.info with lbaSize := 512 }

theorem requestedPages_pageInfo (hpage : dev.logicalPageSize = 4096) :
    requestedPages dev pageInfo.size 512 = 512 := by
  unfold requestedPages
  rw [hpage]
  rfl

/-- A namespace of 512 pages, on the pages behind the others. -/
theorem exec_create_page {i : Nat} (hs : Packed dev s) (hpage : dev.logicalPageSize = 4096)
    (hroom : (i + 1) * 512 ≤ dev.totalLogicalPages) (hcounter : s.allocatedLogicalPages = i * 512)
    (nsid : Nat) : ∃ s', exec dev s (.create nsid Manager.onePage createResp) = .ok s' ∧
      Packed dev s' ∧ s'.allocatedLogicalPages = (i + 1) * 512 ∧
      (s'.lNamespaces.map (·.nsid)).Perm (nsid :: s.lNamespaces.map (·.nsid)) := by
  have hlba : lbaSize Manager.onePage.lbaFormatIndex.toNat = .ok 512 := rfl
  have hlba' : lbaSize pageInfo.lbaFormatIndex = .ok 512 := hlba
  have hlt := dev.totalLogicalPages_lt
  have hpages := requestedPages_pageInfo hpage
  have hcreatable : Creatable dev s pageInfo.size 512 := by
    rw [Creatable, hpages, hcounter]
    refine ⟨by omega, by decide, i * 512, by omega, fun r hr => ?_⟩
    have hstop := hs.stop_le r hr
    rw [hcounter] at hstop
    exact LPNRange.Apart.disjoint (.inr hstop)
  obtain ⟨ret, hret, hsome⟩ := createNamespace_placed hs.placed nsid pageInfo hlba' rfl
  obtain ⟨made, rfl⟩ := Option.isSome_iff_exists.mp (hsome.mpr hcreatable)
  obtain ⟨hpacked, hallocated⟩ := createNamespace_packed hs hret
  obtain ⟨lba, hfound, hnlp, -⟩ := hs.fresh_range hret
  obtain rfl := Except.ok.inj (hlba'.symm.trans hfound)
  obtain ⟨-, -, -, -, -, -, -, -, hinsert⟩ := createNamespace_spec hret
  refine ⟨made.2, ?_, hpacked, ?_, ?_⟩
  · rw [exec, createDone, hlba, Except.ok_bind, ← pageInfo, hret]
    rfl
  · rw [hallocated, hnlp, hpages, hcounter, Nat.succ_mul]
  · rw [hinsert]
    exact (insert_perm s _).map _

/-- Create commands, each with the identifier that is free. -/
def creations (n : Nat) : List Command :=
  (List.range n).map fun i => .create (nsidLowest + i) Manager.onePage createResp

/-- A device with enough pages takes any number of namespaces. -/
theorem run_creations (hpage : dev.logicalPageSize = 4096) {n : Nat}
    (hroom : n * 512 ≤ dev.totalLogicalPages) : ∃ s, run dev 0 512 (creations n) = .ok s ∧
      (s.lNamespaces.map (·.nsid)).Perm (List.range' 1 n) := by
  have hloop := Run.foldlM_range_ok (n := n) (s := new)
    (f := fun s i => exec dev s (.create (nsidLowest + i) Manager.onePage createResp))
    (I := fun i s => Packed dev s ∧ s.allocatedLogicalPages = i * 512 ∧
      (s.lNamespaces.map (·.nsid)).Perm (List.range' 1 i))
    (fun i s hi hs => by
      obtain ⟨hpacked, hcounter, hids⟩ := hs
      obtain ⟨s', hexec, hpacked', hcounter', hids'⟩ :=
        exec_create_page hpacked hpage ((Nat.mul_le_mul_right 512 hi).trans hroom) hcounter
          (nsidLowest + i)
      refine ⟨s', hexec, hpacked', hcounter', hids'.trans ?_⟩
      rw [List.range'_concat, Nat.one_mul]
      exact ((List.perm_append_singleton _ _).trans (hids.symm.cons _)).symm)
    ⟨new_packed, rfl, List.Perm.refl _⟩
  obtain ⟨s, hs, -, -, hids⟩ := hloop
  refine ⟨s, ?_, hids⟩
  show List.foldlM (exec dev) new (creations n) = .ok s
  rw [creations, List.foldlM_map]
  exact hs

/-- A device of 2 GiB. -/
def largeDevice : LPNInfo := ⟨524800, 4096, by decide,
  smallDevice.logicalPageSize_pos, smallDevice.logicalPageSize_lt⟩

/-- Two of four namespaces come behind the second. -/
theorem identify_lists_behind : ∃ s, run largeDevice 0 512 (creations 4) = .ok s ∧
    s.nsids .allocated 2 = [3, 4] ∧ s.Replies .allocated (adminCommand 0x06 2 0x10) := by
  obtain ⟨s, hrun, hids⟩ := Except.exists_of_map (x := run largeDevice 0 512 (creations 4))
    (p := fun s => s.nsids .allocated 2 = [3, 4]) (by decide +kernel)
  refine ⟨s, hrun, hids,
    (identify_lists_iff largeDevice 0 512 _ s hrun .allocated _).mpr fun _ => ?_⟩
  show (s.nsids .allocated 2).length ≤ 1024 ∧ (s.nsids .allocated 2).Nodup
  rw [hids]
  decide

/-- The identifier of the last of 1025 namespaces is written behind the buffer. -/
theorem not_replies_many : ∃ s, run largeDevice 0 512 (creations 1025) = .ok s ∧
    ¬ s.Replies .allocated (adminCommand 0x06 0 0x10) := by
  have hpage : largeDevice.logicalPageSize = 4096 := rfl
  obtain ⟨s, hrun, hids⟩ := run_creations hpage (n := 1025) (by decide)
  refine ⟨s, hrun, fun hreplies => ?_⟩
  obtain ⟨hlength, -⟩ := (replies_iff (run_sorted hrun) _ _).mp hreplies (by decide)
  have hall : s.nsids .allocated (adminCommand 0x06 0 0x10).namespaceID.toNat =
      s.lNamespaces.map (·.nsid) := by
    refine congrArg (List.map _) (List.filter_eq_self.mpr fun iter hiter => decide_eq_true ?_)
    have hmem := hids.mem_iff.mp (List.mem_map_of_mem hiter)
    obtain ⟨j, -, heq⟩ := List.mem_range'.mp hmem
    show 0 < iter.nsid
    omega
  rw [hall, hids.length_eq, List.length_range'] at hlength
  omega

end Lists

end SimpleSSD.HIL.NVMe.Subsystem
