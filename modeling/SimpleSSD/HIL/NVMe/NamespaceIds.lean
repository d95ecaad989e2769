import SimpleSSD.HIL.NVMe.NamespaceRanges

/-!
# Namespace identifiers (hil/nvme/subsystem.cc:950–1078)

A create command of Namespace Management takes the lowest free identifier when it
arrives, and makes its namespace when its data has been read. Nothing keeps the
identifier for it in between: another create command that arrives meanwhile finds the
same one free, unless a lower one has been freed.
-/

namespace SimpleSSD.HIL.NVMe

open Subsystem (CreateData freeNsid destroyNamespace createDone createNamespace)

/-- A create command whose data is being read: `NamespaceManagementContext`. -/
structure Creating where
  nsid : Nat
  resp : CQEntryWrapper
  deriving DecidableEq, Repr

/-- The subsystem, with the create commands in flight. -/
structure Manager where
  subsystem : Subsystem
  inFlight : List Creating
  deriving DecidableEq, Repr

namespace Manager

/-- A command arrives, or the data of a command in flight has been read. -/
inductive Event where
  | namespaceManagement (req : SQEntryWrapper)
  | dmaDone (k : Nat) (data : CreateData)

/-- `sel` and the identifier are those of a create command. -/
def Creates (req : SQEntryWrapper) : Prop :=
  req.dword10 &&& 0x0F = 0 ∧ req.namespaceID.toNat = nsidNone

instance (req : SQEntryWrapper) : Decidable (Creates req) := inferInstanceAs (Decidable (_ ∧ _))

/-- `namespaceManagement` (subsystem.cc:950–1078), with the answer it gives at once. -/
def namespaceManagement (dev : LPNInfo) (req : SQEntryWrapper) (m : Manager) :
    Option CQEntryWrapper × Manager :=
  let resp := CQEntryWrapper.new req
  let sel := req.dword10 &&& 0x0F
  if (sel = 0 ∧ req.namespaceID.toNat ≠ nsidNone) ∨ 1 < sel then
    -- `err` is set, so the answer is not sent
    (none, m)
  else if sel = 0 then
    let nsid := freeNsid nsidLowest m.subsystem.lNamespaces
    if nsid = nsidAll then
      (some (resp.makeStatus false false .commandSpecificStatus .namespaceIdUnavailable), m)
    else (none, { m with inFlight := m.inFlight ++ [⟨nsid, resp⟩] })
  else
    let (found, s) := destroyNamespace dev req.namespaceID.toNat m.subsystem
    (some (if found then resp
      else resp.makeStatus false false .genericCommandStatus .abortInvalidNamespace),
      { m with subsystem := s })

/-- `dmaDone` of the `k`th command in flight, with its answer. -/
def dmaDone (dev : LPNInfo) (k : Nat) (data : CreateData) (m : Manager) :
    Except Fault (Option CQEntryWrapper × Manager) :=
  match m.inFlight[k]? with
  | none => .ok (none, m)
  | some c => do
    let (resp, s) ← createDone dev c.nsid data c.resp m.subsystem
    .ok (some resp, ⟨s, m.inFlight.eraseIdx k⟩)

/-- A step, with the answer it sends. -/
def answer (dev : LPNInfo) (m : Manager) : Event → Except Fault (Option CQEntryWrapper × Manager)
  | .namespaceManagement req => .ok (m.namespaceManagement dev req)
  | .dmaDone k data => m.dmaDone dev k data

def exec (dev : LPNInfo) (m : Manager) (e : Event) : Except Fault Manager :=
  (m.answer dev e).map Prod.snd

/-- The subsystem as it starts, with no command in flight. -/
def start (s : Subsystem) : Manager := ⟨s, []⟩

/-! ### What the identifiers should do -/

/-- No two live namespaces have the same identifier. -/
def UniqueIds (m : Manager) : Prop := (m.subsystem.lNamespaces.map (·.nsid)).Nodup

/-- A create command answered with success has made one namespace, which its identifier
denotes and which has the size that was asked for. -/
def Denotes (dev : LPNInfo) (m : Manager) : Event → Prop
  | .namespaceManagement _ => True
  | .dmaDone k data => ∀ resp m', m.dmaDone dev k data = .ok (some resp, m') →
      resp.status = .zero → ∃ ns, m'.subsystem.lNamespaces.Perm (ns :: m.subsystem.lNamespaces) ∧
        m'.subsystem.find? resp.dword0.toNat = some ns ∧
        m.subsystem.find? resp.dword0.toNat = none ∧ ns.info.size = data.size.toNat

/-- The identifiers are unique before a step and after it, and what it returns denotes what
it has made. -/
structure Identified (dev : LPNInfo) (m : Manager) (e : Event) : Prop where
  before : m.UniqueIds
  after : (m.exec dev e).All UniqueIds
  denotes : m.Denotes dev e

/-- A create command comes when every create command in flight holds an identifier above a
free one. -/
def Clear (m : Manager) : Event → Prop
  | .namespaceManagement req => Creates req → ∀ c ∈ m.inFlight, ∃ nsid < c.nsid,
      nsidLowest ≤ nsid ∧ ∀ ns ∈ m.subsystem.lNamespaces, ns.nsid ≠ nsid
  | .dmaDone _ _ => True

instance (m : Manager) (e : Event) : Decidable (m.Clear e) :=
  match e with
  | .namespaceManagement _ => inferInstanceAs (Decidable (_ → _))
  | .dmaDone _ _ => .isTrue trivial

/-! ### The lowest free identifier -/

section FreeNsid

variable {n : Nat} {l : List Namespace}

/-- The search finds the lowest identifier that is not in the sorted list. -/
theorem freeNsid_spec (hsorted : (l.map (·.nsid)).Pairwise (· < ·)) (hlow : ∀ ns ∈ l, n ≤ ns.nsid)
    (hall : ∀ ns ∈ l, ns.nsid < nsidAll) (hn : n ≤ nsidAll) :
    n ≤ freeNsid n l ∧ freeNsid n l ≤ nsidAll ∧
      (∀ ns ∈ l, ns.nsid ≠ freeNsid n l) ∧
      ∀ k, n ≤ k → k < freeNsid n l → ∃ ns ∈ l, ns.nsid = k := by
  induction l generalizing n with
  | nil =>
    refine ⟨Nat.le_refl n, hn, fun _ h => (List.not_mem_nil h).elim, fun k hk hlt => ?_⟩
    rw [freeNsid] at hlt
    omega
  | cons iter l ih =>
    rw [List.map_cons, List.pairwise_cons] at hsorted
    have habove : ∀ ns ∈ l, iter.nsid < ns.nsid := fun ns hns =>
      hsorted.1 ns.nsid (List.mem_map_of_mem hns)
    have hiter := hall iter List.mem_cons_self
    rw [freeNsid]
    split
    · next heq =>
      rw [Nat.mod_eq_of_lt (show n + 1 < 2 ^ 32 by rw [nsidAll] at hiter; omega)]
      obtain ⟨hge, hle, hfree, hleast⟩ := ih hsorted.2
        (fun ns hns => show n + 1 ≤ ns.nsid by have := habove ns hns; omega)
        (fun ns hns => hall ns (List.mem_cons_of_mem iter hns)) (by omega)
      refine ⟨by omega, hle, fun ns hns => ?_, fun k hk hlt => ?_⟩
      · rcases List.mem_cons.mp hns with rfl | hns
        · omega
        · exact hfree ns hns
      · rcases Nat.eq_or_lt_of_le hk with rfl | hk
        · exact ⟨iter, List.mem_cons_self, heq⟩
        · obtain ⟨ns, hns, hk⟩ := hleast k hk hlt
          exact ⟨ns, List.mem_cons_of_mem iter hns, hk⟩
    · next hne =>
      have hlow' := hlow iter List.mem_cons_self
      refine ⟨Nat.le_refl n, hn, fun ns hns => ?_, fun k hk hlt => by omega⟩
      rcases List.mem_cons.mp hns with rfl | hns
      · exact hne
      · have := habove ns hns
        omega

end FreeNsid

/-! ### The invariant -/

/-- The list is sorted, the commands in flight hold different identifiers, and none of them
is live. -/
structure Distinct (m : Manager) : Prop where
  sorted : (m.subsystem.lNamespaces.map (·.nsid)).Pairwise (· < ·)
  live : ∀ ns ∈ m.subsystem.lNamespaces, nsidLowest ≤ ns.nsid ∧ ns.nsid < nsidAll
  held : ∀ c ∈ m.inFlight, nsidLowest ≤ c.nsid ∧ c.nsid < nsidAll
  inFlight : (m.inFlight.map (·.nsid)).Nodup
  apart : ∀ c ∈ m.inFlight, ∀ ns ∈ m.subsystem.lNamespaces, ns.nsid ≠ c.nsid

section Steps

variable {dev : LPNInfo} {m m' : Manager} {s : Subsystem}

theorem Distinct.uniqueIds (h : m.Distinct) : m.UniqueIds :=
  h.sorted.imp fun hlt => Nat.ne_of_lt hlt

/-- Whatever the order was, `createNamespace` sorts the list. -/
theorem insert_pairwise (s : Subsystem) (ns : Namespace) :
    ((s.insert ns).lNamespaces.map (·.nsid)).Pairwise (· ≤ ·) := by
  rw [List.pairwise_map]
  have : Std.Total fun lhs rhs : Namespace => lhs.nsid ≤ rhs.nsid :=
    ⟨fun a b => Nat.le_total a.nsid b.nsid⟩
  have : IsTrans Namespace fun lhs rhs => lhs.nsid ≤ rhs.nsid :=
    ⟨fun a b c => Nat.le_trans⟩
  exact List.pairwise_insertionSort _ _

/-- A new namespace is sorted in. -/
theorem sorted_insert {ns : Namespace} (hsorted : (s.lNamespaces.map (·.nsid)).Pairwise (· < ·))
    (hfresh : ∀ ns' ∈ s.lNamespaces, ns'.nsid ≠ ns.nsid) :
    ((s.insert ns).lNamespaces.map (·.nsid)).Pairwise (· < ·) := by
  have hnodup : ((s.insert ns).lNamespaces.map (·.nsid)).Nodup := by
    rw [((Subsystem.insert_perm s ns).map _).nodup_iff, List.map_cons, List.nodup_cons]
    refine ⟨fun hmem => ?_, hsorted.imp fun hlt => Nat.ne_of_lt hlt⟩
    obtain ⟨ns', hns', heq⟩ := List.mem_map.mp hmem
    exact hfresh ns' hns' heq
  exact ((insert_pairwise s ns).and hnodup).imp fun h => Nat.lt_of_le_of_ne h.1 h.2

/-- A command that is deleted leaves the others as they are. -/
theorem destroyNamespace_sublist (nsid : Nat) :
    (destroyNamespace dev nsid s).2.lNamespaces.Sublist s.lNamespaces := by
  rw [destroyNamespace]
  cases s.find? nsid with
  | none => exact List.Sublist.refl _
  | some ns => exact List.eraseP_sublist

theorem Distinct.delete (h : m.Distinct)
    (hsub : s.lNamespaces.Sublist m.subsystem.lNamespaces) :
    Distinct { m with subsystem := s } where
  sorted := h.sorted.sublist (hsub.map _)
  live ns hns := h.live ns (hsub.subset hns)
  held := h.held
  inFlight := h.inFlight
  apart c hc ns hns := h.apart c hc ns (hsub.subset hns)

/-- What the search gives a create command. -/
theorem Distinct.freeNsid (h : m.Distinct) :
    nsidLowest ≤ freeNsid nsidLowest m.subsystem.lNamespaces ∧
      freeNsid nsidLowest m.subsystem.lNamespaces ≤ nsidAll ∧
      (∀ ns ∈ m.subsystem.lNamespaces,
        ns.nsid ≠ NVMe.Subsystem.freeNsid nsidLowest m.subsystem.lNamespaces) ∧
      ∀ k, nsidLowest ≤ k → k < NVMe.Subsystem.freeNsid nsidLowest m.subsystem.lNamespaces →
        ∃ ns ∈ m.subsystem.lNamespaces, ns.nsid = k :=
  freeNsid_spec h.sorted (fun ns hns => (h.live ns hns).1) (fun ns hns => (h.live ns hns).2)
    (by decide)

/-- A create command that arrives takes an identifier that no other one holds. -/
theorem Distinct.create (h : m.Distinct) {resp : CQEntryWrapper}
    (hclear : ∀ c ∈ m.inFlight, ∃ nsid < c.nsid,
      nsidLowest ≤ nsid ∧ ∀ ns ∈ m.subsystem.lNamespaces, ns.nsid ≠ nsid)
    (hall : NVMe.Subsystem.freeNsid nsidLowest m.subsystem.lNamespaces ≠ nsidAll) :
    Distinct { m with inFlight := m.inFlight ++
      [⟨NVMe.Subsystem.freeNsid nsidLowest m.subsystem.lNamespaces, resp⟩] } := by
  obtain ⟨hlow, hle, hfree, hleast⟩ := h.freeNsid
  refine ⟨h.sorted, h.live, fun c hc => ?_, ?_, fun c hc => ?_⟩
  · rcases List.mem_append.mp hc with hc | hc
    · exact h.held c hc
    · rw [List.mem_singleton.mp hc]
      exact ⟨hlow, Nat.lt_of_le_of_ne hle hall⟩
  · rw [List.map_append, List.nodup_append]
    refine ⟨h.inFlight, List.nodup_singleton _, fun a ha b hb => ?_⟩
    obtain ⟨c, hc, rfl⟩ := List.mem_map.mp ha
    rw [List.map_singleton, List.mem_singleton] at hb
    -- the identifier found is at most the free one below `c.nsid`
    obtain ⟨nsid, hlt, hge, hnone⟩ := hclear c hc
    rintro rfl
    rw [hb] at hlt
    obtain ⟨ns, hns, heq⟩ := hleast nsid hge hlt
    exact hnone ns hns heq
  · rcases List.mem_append.mp hc with hc | hc
    · exact h.apart c hc
    · rw [List.mem_singleton.mp hc]
      exact hfree

/-- What the end of the DMA does: the command leaves, with a namespace of its identifier or
with an error. -/
theorem dmaDone_cases {k : Nat} {data : CreateData} {c : Creating} (hk : m.inFlight[k]? = some c)
    {resp : Option CQEntryWrapper} (hdone : m.dmaDone dev k data = .ok (resp, m')) :
    (∃ r, resp = some r ∧ r.status ≠ .zero ∧ m' = ⟨m.subsystem, m.inFlight.eraseIdx k⟩) ∨
      ∃ info r, resp = some r ∧ r.dword0 = BitVec.ofNat 32 c.nsid ∧
        info.size = data.size.toNat ∧
        m' = ⟨m.subsystem.insert (.new c.nsid info), m.inFlight.eraseIdx k⟩ := by
  rw [dmaDone, hk] at hdone
  dsimp only at hdone
  simp only [createDone, Except.bind_eq_ok] at hdone
  obtain ⟨⟨r, s⟩, ⟨lba, hlba, ret, hret, hanswer⟩, hdone⟩ := hdone
  cases hdone
  cases ret with
  | none =>
    cases hanswer
    refine .inl ⟨_, rfl, fun hzero => ?_, rfl⟩
    cases hzero
  | some made =>
    obtain ⟨info, s'⟩ := made
    cases hanswer
    obtain ⟨-, -, -, -, -, hsize, -, -, rfl⟩ := Subsystem.createNamespace_spec hret
    exact .inr ⟨info, _, rfl, rfl, hsize, rfl⟩

/-- A command in flight leaves. -/
theorem Distinct.leave (h : m.Distinct) (k : Nat) :
    Distinct ⟨m.subsystem, m.inFlight.eraseIdx k⟩ where
  sorted := h.sorted
  live := h.live
  held c hc := h.held c (List.eraseIdx_sublist _ k |>.subset hc)
  inFlight := h.inFlight.sublist ((List.eraseIdx_sublist _ k).map _)
  apart c hc := h.apart c (List.eraseIdx_sublist _ k |>.subset hc)

/-- The identifiers of the other commands in flight are not that of the one that leaves. -/
theorem ne_of_mem_eraseIdx {k : Nat} {c c' : Creating} (hnodup : (m.inFlight.map (·.nsid)).Nodup)
    (hk : m.inFlight[k]? = some c) (hc' : c' ∈ m.inFlight.eraseIdx k) : c'.nsid ≠ c.nsid := by
  obtain ⟨j, hj, hne⟩ := List.mem_eraseIdx_iff_getElem?.mp hc'
  intro heq
  have hj' : (m.inFlight.map (·.nsid))[j]? = some c'.nsid := by rw [List.getElem?_map, hne]; rfl
  have hk' : (m.inFlight.map (·.nsid))[k]? = some c'.nsid := by
    rw [List.getElem?_map, hk, heq]
    rfl
  exact hj ((List.getElem?_inj (List.getElem?_eq_some_iff.mp hj').1 hnodup).mp
    (hj'.trans hk'.symm))

/-- Its namespace is made. -/
theorem Distinct.made (h : m.Distinct) {k : Nat} {c : Creating} (hk : m.inFlight[k]? = some c)
    (info : Information) :
    Distinct ⟨m.subsystem.insert (.new c.nsid info), m.inFlight.eraseIdx k⟩ := by
  have hc := List.mem_of_getElem? hk
  have hmem : ∀ ns ∈ (m.subsystem.insert (.new c.nsid info)).lNamespaces,
      ns = .new c.nsid info ∨ ns ∈ m.subsystem.lNamespaces := fun ns hns =>
    List.mem_cons.mp ((Subsystem.insert_perm _ _).mem_iff.mp hns)
  refine ⟨sorted_insert h.sorted (h.apart c hc), fun ns hns => ?_, (h.leave k).held,
    (h.leave k).inFlight, fun c' hc' ns hns => ?_⟩
  · rcases hmem ns hns with rfl | hns
    · exact h.held c hc
    · exact h.live ns hns
  · rcases hmem ns hns with rfl | hns
    · exact (ne_of_mem_eraseIdx h.inFlight hk hc').symm
    · exact (h.leave k).apart c' hc' ns hns

/-- A step that meets the condition keeps the invariant. -/
theorem exec_distinct {e : Event} (h : m.Distinct) (hclear : m.Clear e)
    (hexec : m.exec dev e = .ok m') : m'.Distinct := by
  rw [exec, Except.map_eq_ok] at hexec
  obtain ⟨⟨resp, m'⟩, hanswer, rfl⟩ := hexec
  cases e with
  | namespaceManagement req =>
    obtain rfl := congrArg Prod.snd (Except.ok.inj hanswer)
    dsimp only [namespaceManagement]
    split
    · exact h
    · next hvalid =>
      split
      · next hsel =>
        split
        · exact h
        · next hall =>
          rw [not_or, not_and, not_not] at hvalid
          exact h.create (hclear ⟨hsel, hvalid.1 hsel⟩) hall
      · exact h.delete (destroyNamespace_sublist _)
  | dmaDone k data =>
    show m'.Distinct
    rw [answer] at hanswer
    cases hk : m.inFlight[k]? with
    | none =>
      rw [dmaDone, hk] at hanswer
      cases hanswer
      exact h
    | some c =>
      rcases dmaDone_cases hk hanswer with ⟨-, -, -, rfl⟩ | ⟨info, -, -, -, -, rfl⟩
      · exact h.leave k
      · exact h.made hk info

/-- With the invariant, the identifier that is returned denotes what has been made. -/
theorem Distinct.denotes (h : m.Distinct) (e : Event) : m.Denotes dev e := by
  cases e with
  | namespaceManagement req => trivial
  | dmaDone k data =>
    intro resp m' hdone hzero
    cases hk : m.inFlight[k]? with
    | none =>
      rw [dmaDone, hk] at hdone
      cases hdone
    | some c =>
      rcases dmaDone_cases hk hdone with ⟨r, hr, hne, -⟩ | ⟨info, r, hr, hword, hsize, rfl⟩
      · rw [Option.some.inj hr] at hzero
        exact absurd hzero hne
      · obtain rfl := Option.some.inj hr
        have hc := List.mem_of_getElem? hk
        have hnsid : resp.dword0.toNat = c.nsid := by
          have := (h.held c hc).2
          rw [nsidAll] at this
          rw [hword, BitVec.toNat_ofNat, Nat.mod_eq_of_lt (by omega)]
        rw [hnsid]
        have hperm := Subsystem.insert_perm m.subsystem (.new c.nsid info)
        refine ⟨.new c.nsid info, hperm, ?_, ?_, hsize⟩
        · rw [Subsystem.find?]
          cases hfind : (m.subsystem.insert (.new c.nsid info)).lNamespaces.find?
              (·.nsid = c.nsid) with
          | none =>
            have := List.find?_eq_none.mp hfind _ (hperm.mem_iff.mpr List.mem_cons_self)
            exact absurd (decide_eq_true rfl) this
          | some ns =>
            rcases List.mem_cons.mp (hperm.mem_iff.mp (List.mem_of_find?_eq_some hfind)) with
              rfl | hns
            · rfl
            · exact absurd (by simpa using List.find?_some hfind) (h.apart c hc ns hns)
        · rw [Subsystem.find?, List.find?_eq_none]
          intro ns hns hnsid
          exact h.apart c hc ns hns (of_decide_eq_true hnsid)

/-! ### Runs -/

/-- `init` counts the identifiers up. -/
theorem initNamespace_ids {size i : Nat} {state state' : Information × Subsystem}
    (hsorted : (state.2.lNamespaces.map (·.nsid)).Pairwise (· < ·))
    (hrange : ∀ ns ∈ state.2.lNamespaces, nsidLowest ≤ ns.nsid ∧ ns.nsid < nsidLowest + i)
    (h : Subsystem.initNamespace dev size state i = .ok state') :
    (state'.2.lNamespaces.map (·.nsid)).Pairwise (· < ·) ∧
      ∀ ns ∈ state'.2.lNamespaces, nsidLowest ≤ ns.nsid ∧ ns.nsid < nsidLowest + (i + 1) := by
  rw [Subsystem.initNamespace, Except.bind_eq_ok] at h
  obtain ⟨ret, hret, h⟩ := h
  split at h
  · next info s₁ =>
    cases h
    obtain ⟨-, -, -, -, -, -, -, -, rfl⟩ := Subsystem.createNamespace_spec hret
    have hids := Subsystem.map_modifyLast (g := (·.nsid))
      (f := fun ns => { ns with attached := true }) (fun _ => rfl)
      (state.2.insert (.new (nsidLowest + i) info)).lNamespaces
    constructor
    · rw [hids]
      refine sorted_insert hsorted fun ns hns => ?_
      have := (hrange ns hns).2
      show ns.nsid ≠ nsidLowest + i
      omega
    · intro ns hns
      have hmem : ns.nsid ∈ ((state.2.insert (.new (nsidLowest + i) info)).lNamespaces.map
          (·.nsid)) := hids ▸ List.mem_map_of_mem hns
      rw [((Subsystem.insert_perm _ _).map _).mem_iff, List.map_cons] at hmem
      rcases List.mem_cons.mp hmem with heq | hmem
      · rw [heq]
        show nsidLowest ≤ nsidLowest + i ∧ nsidLowest + i < nsidLowest + (i + 1)
        omega
      · obtain ⟨ns', hns', heq⟩ := List.mem_map.mp hmem
        have := hrange ns' hns'
        omega
  · cases h

/-- The default namespaces have different identifiers. -/
theorem start_distinct {nNamespaces lba : Nat} (hn : nNamespaces < 2 ^ 16)
    (h : Subsystem.init dev nNamespaces lba = .ok s) : (start s).Distinct := by
  suffices hs : (s.lNamespaces.map (·.nsid)).Pairwise (· < ·) ∧
      ∀ ns ∈ s.lNamespaces, nsidLowest ≤ ns.nsid ∧ ns.nsid < nsidAll by
    exact ⟨hs.1, hs.2, fun c hc => (List.not_mem_nil hc).elim, List.nodup_nil,
      fun c hc => (List.not_mem_nil hc).elim⟩
  rw [Subsystem.init] at h
  split at h
  · cases h
    exact ⟨List.Pairwise.nil, fun ns hns => (List.not_mem_nil hns).elim⟩
  · rw [Except.bind_eq_ok] at h
    obtain ⟨lbaFormatIndex, -, h⟩ := h
    rw [Except.bind_eq_ok] at h
    obtain ⟨⟨info, s₁⟩, hfold, h⟩ := h
    cases h
    obtain ⟨hsorted, hrange⟩ := Run.foldlM_range
      (I := fun i state => (state.2.lNamespaces.map (·.nsid)).Pairwise (· < ·) ∧
        ∀ ns ∈ state.2.lNamespaces, nsidLowest ≤ ns.nsid ∧ ns.nsid < nsidLowest + i)
      (fun i state state' _ hs hstep => initNamespace_ids hs.1 hs.2 hstep)
      ⟨List.Pairwise.nil, fun ns hns => (List.not_mem_nil hns).elim⟩ hfold
    refine ⟨hsorted, fun ns hns => ?_⟩
    have := hrange ns hns
    rw [nsidLowest] at *
    rw [nsidAll]
    omega

end Steps

/-- In a run in which no create command comes while another one holds the identifier that it
would take, the identifiers are unique and denote what has been made. -/
theorem run_identified (dev : LPNInfo) (nNamespaces lba : Nat) (hn : nNamespaces < 2 ^ 16)
    (events : List Event) (s : Subsystem) (hinit : Subsystem.init dev nNamespaces lba = .ok s)
    (hclear : Run.Along (exec dev) Clear (start s) events) :
    (start s).UniqueIds ∧ Run.Along (exec dev) (Identified dev) (start s) events := by
  have hstart := start_distinct hn hinit
  refine ⟨hstart.uniqueIds, hclear.imp (fun m e m' hm he => exec_distinct hm he)
    (fun m e hm he => ⟨hm.uniqueIds, ?_, hm.denotes e⟩) hstart⟩
  exact Except.all_iff.mpr fun m' hm' => (exec_distinct hm he hm').uniqueIds

/-! ### Instances -/

/-- A create command. -/
def createCommand : SQEntryWrapper := Subsystem.adminCommand 0x0D 0 0

/-- The data of a create command for one page of blocks. -/
def onePage : CreateData := ⟨4096, 4096, 0, 0, 0⟩

/-- The second create command is in flight when identifier 1 becomes free, and the third
takes that. -/
def overtaken : List Event :=
  [.namespaceManagement createCommand, .dmaDone 0 onePage, .namespaceManagement createCommand,
    .namespaceManagement (Subsystem.adminCommand 0x0D 1 1), .namespaceManagement createCommand,
    .dmaDone 1 onePage, .dmaDone 0 onePage]

theorem run_identified_overtaken :
    (start .new).UniqueIds ∧ Run.Along (exec Subsystem.smallDevice)
      (Identified Subsystem.smallDevice) (start .new) overtaken :=
  run_identified Subsystem.smallDevice 0 512 (by decide) overtaken .new rfl (by decide +kernel)

/-- Two create commands in flight. -/
def atOnce : List Event :=
  [.namespaceManagement createCommand, .namespaceManagement createCommand, .dmaDone 0 onePage,
    .dmaDone 0 onePage]

/-- Both have taken identifier 1. -/
theorem not_uniqueIds_create : ∃ s m,
    Subsystem.init Subsystem.smallDevice 0 512 = .ok s ∧
      atOnce.foldlM (exec Subsystem.smallDevice) (start s) = .ok m ∧ ¬ m.UniqueIds := by
  have hrun : ∃ m, atOnce.foldlM (exec Subsystem.smallDevice) (start .new) = .ok m ∧
      ¬ (m.subsystem.lNamespaces.map (·.nsid)).Nodup := Except.exists_of_map (by decide +kernel)
  obtain ⟨m, hm, hids⟩ := hrun
  exact ⟨.new, m, rfl, hm, hids⟩

end Manager

end SimpleSSD.HIL.NVMe
