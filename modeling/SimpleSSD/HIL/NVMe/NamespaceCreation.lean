import SimpleSSD.HIL.NVMe.NamespaceRanges

/-!
# Creation of namespaces

The data of a create command is checked, and then the namespace is made whatever
the checks said. What the command answers and what it did to the namespaces agree
exactly for the data of `createDone_atomic_iff`.
-/

namespace SimpleSSD.HIL.NVMe.Subsystem

variable {dev : LPNInfo} {s s' : Subsystem}

/-! ### The search for a range -/

/-- Ranges that follow each other inside `last` can be cut out of it one by one, and
every run of pages that none of them uses lies in a gap. -/
theorem invert_complete (last : LPNRange) {allocated : List LPNRange}
    (hlast : last.slpn + last.nlp < 2 ^ 64) (hin : ∀ r ∈ allocated, r.Within last)
    (hsorted : allocated.Pairwise fun a b => a.slpn + a.nlp ≤ b.slpn) :
    ∃ unallocated, invert last allocated = .ok unallocated ∧
      ∀ free : LPNRange, free.Within last → (∀ r ∈ allocated, free.Apart r) →
        ∃ gap ∈ unallocated, free.Within gap := by
  induction allocated generalizing last with
  | nil => exact ⟨[last], rfl, fun free hfree _ => ⟨last, List.mem_singleton_self _, hfree⟩⟩
  | cons r allocated ih =>
    obtain ⟨hlo, hhi⟩ := hin r List.mem_cons_self
    obtain ⟨hbehind, hsorted⟩ := List.pairwise_cons.mp hsorted
    have hr := LPNRange.stop_of_lt (r := r) (by omega)
    have hnlp : (last.slpn + last.nlp + 2 ^ 64 - (r.slpn + r.nlp)) % 2 ^ 64 =
        last.slpn + last.nlp - (r.slpn + r.nlp) := by omega
    obtain ⟨rest, hrest, hgaps⟩ := ih
      ⟨r.slpn + r.nlp, last.slpn + last.nlp - (r.slpn + r.nlp)⟩
      (by dsimp only; omega)
      (fun r' hr' => by
        obtain ⟨-, hhi'⟩ := hin r' (List.mem_cons_of_mem r hr')
        exact ⟨hbehind r' hr', by dsimp only; omega⟩) hsorted
    refine ⟨⟨last.slpn, r.slpn - last.slpn⟩ :: rest, ?_, fun free hfree hapart => ?_⟩
    · rw [invert, LPNRange.stop_of_lt hlast, hr, if_pos ⟨hlo, hhi⟩, hnlp, hrest]
      rfl
    · -- in front of `r` there is its gap, and behind `r` the induction hypothesis
      obtain ⟨hflo, hfhi⟩ := hfree
      rcases hapart r List.mem_cons_self with hbefore | hafter
      · exact ⟨_, List.mem_cons_self, hflo, by dsimp only; omega⟩
      · obtain ⟨gap, hgap, hwithin⟩ := hgaps free ⟨hafter, by dsimp only; omega⟩
          fun r' hr' => hapart r' (List.mem_cons_of_mem r hr')
        exact ⟨gap, List.mem_cons_of_mem _ hgap, hwithin⟩

/-- Ranges in place follow each other once they are sorted. -/
theorem Placed.sorted {l : List LPNRange} (h : Placed dev l) :
    (l.insertionSort fun a b => a.slpn ≤ b.slpn).Pairwise fun a b => a.slpn + a.nlp ≤ b.slpn := by
  have hplaced := h.perm (List.perm_insertionSort (fun a b : LPNRange => a.slpn ≤ b.slpn) l).symm
  have hle := List.pairwise_insertionSort (fun a b : LPNRange => a.slpn ≤ b.slpn) l
  refine (hle.and hplaced.apart).imp_of_mem fun {a b} ha hb hab => ?_
  obtain ⟨hle, hapart | hapart⟩ := hab
  · exact hapart
  · have := hplaced.nonempty b hb
    omega

/-- Ranges without a common page are apart, unless one is empty. -/
theorem apart_of_disjoint {a b : LPNRange} (ha : 0 < a.nlp) (hb : 0 < b.nlp)
    (h : Disjoint a.pages b.pages) : a.Apart b := by
  rw [LPNRange.pages, LPNRange.pages, Finset.disjoint_left] at h
  by_contra hne
  rw [LPNRange.Apart] at hne
  exact h (Finset.mem_Ico.mpr (show a.slpn ≤ max a.slpn b.slpn ∧ _ by omega))
    (Finset.mem_Ico.mpr (by omega))

/-- The search finds a range exactly when there is room for it. -/
theorem allocate_placed (hs : Placed dev s.ranges) (n : Nat) :
    ∃ range, allocate dev s n ⟨0, 0⟩ = .ok range ∧ (0 < range.nlp ↔ Room dev s.ranges n) := by
  have hperm := List.perm_insertionSort (fun a b : LPNRange => a.slpn ≤ b.slpn) s.ranges
  obtain ⟨unallocated, hinvert, hgaps⟩ := invert_complete ⟨0, dev.totalLogicalPages⟩
    (by simpa using dev.totalLogicalPages_lt)
    (fun r hr => ⟨Nat.zero_le _, by simpa using hs.inside r (hperm.mem_iff.mp hr)⟩) hs.sorted
  have hallocate : allocate dev s n ⟨0, 0⟩ =
      (unallocated.find? fun iter => n ≤ iter.nlp).elim (.ok ⟨0, 0⟩)
        fun iter => .ok { iter with nlp := n } := by
    rw [allocate]
    show (invert _ (s.ranges.insertionSort fun a b => a.slpn ≤ b.slpn) >>= _) = _
    rw [hinvert, Except.ok_bind]
    cases unallocated.find? fun iter => n ≤ iter.nlp with
    | some iter => rfl
    | none => rfl
  cases hfind : unallocated.find? fun iter => n ≤ iter.nlp with
  | some gap =>
    rw [hfind] at hallocate
    refine ⟨_, hallocate, fun hn => ⟨hn, gap.slpn, ?_⟩, fun hroom => hroom.1⟩
    rcases allocate_spec hs hallocate with ⟨-, hin, hapart, -⟩ | ⟨hrange, -⟩
    · exact ⟨hin, fun r hr => (hapart r hr).disjoint⟩
    · exact absurd (congrArg LPNRange.nlp hrange) (Nat.ne_of_gt hn)
  | none =>
    rw [hfind] at hallocate
    refine ⟨_, hallocate, iff_of_false (lt_irrefl 0) ?_⟩
    rintro ⟨hn, p, hp, hfree⟩
    obtain ⟨gap, hgap, hlo, hhi⟩ := hgaps ⟨p, n⟩ ⟨Nat.zero_le _, by simpa using hp⟩ fun r hr =>
      apart_of_disjoint hn (hs.nonempty r (hperm.mem_iff.mp hr)) (hfree r (hperm.mem_iff.mp hr))
    have hshort := List.find?_eq_none.mp hfind gap hgap
    rw [decide_eq_true_eq] at hshort
    dsimp only at hlo hhi
    omega

/-! ### The command -/

/-- The eight bytes from `i` on, the lowest first. -/
def word (buffer : Nat → BitVec 8) (i : Nat) : BitVec 64 :=
  buffer (i + 7) ++ buffer (i + 6) ++ buffer (i + 5) ++ buffer (i + 4) ++
    buffer (i + 3) ++ buffer (i + 2) ++ buffer (i + 1) ++ buffer i

/-- The fields that `dmaDone` copies out of the buffer (subsystem.cc:972–977). -/
def CreateData.copy (buffer : Nat → BitVec 8) : CreateData where
  size := word buffer 0
  capacity := word buffer 8
  lbaFormatIndex := buffer 26
  dataProtectionSettings := buffer 29
  namespaceSharingCapabilities := buffer 30

/-- There are as many free pages as a namespace of the size asks for: by the page counter,
and next to each other. -/
def Creatable (dev : LPNInfo) (s : Subsystem) (size lba : Nat) : Prop :=
  requestedPages dev size lba ≤
    (dev.totalLogicalPages + 2 ^ 64 - s.allocatedLogicalPages) % 2 ^ 64 ∧
    Room dev s.ranges (requestedPages dev size lba)

/-- One namespace was added, with the parameters of the data, and its pages were counted. -/
def Added (nsid : Nat) (data : CreateData) (s s' : Subsystem) : Prop :=
  ∃ ns : Namespace, s'.lNamespaces.Perm (ns :: s.lNamespaces) ∧ ns.nsid = nsid ∧
    ns.attached = false ∧ ns.info.size = data.size.toNat ∧
    ns.info.capacity = data.capacity.toNat ∧
    ns.info.lbaFormatIndex = data.lbaFormatIndex.toNat ∧
    lbaSize data.lbaFormatIndex.toNat = .ok ns.info.lbaSize ∧
    ns.info.dataProtectionSettings = data.dataProtectionSettings.toNat ∧
    ns.info.namespaceSharingCapabilities = data.namespaceSharingCapabilities.toNat ∧
    s'.allocatedLogicalPages = (s.allocatedLogicalPages + ns.info.range.nlp) % 2 ^ 64

/-- The command is completed without an access behind the table of block sizes. It has
added its namespace if the status says so, and changed nothing if it does not. -/
def CreatesAtomically (dev : LPNInfo) (s : Subsystem) (nsid : Nat) (data : CreateData)
    (req : SQEntryWrapper) : Prop :=
  ∃ resp s', createDone dev nsid data (.new req) s = .ok (resp, s') ∧
    (resp.status ≠ .zero → s' = s) ∧ (resp.status = .zero → Added nsid data s s')

/-- The fields of a new `info` that `createNamespace` leaves alone. -/
theorem createNamespace_info {nsid : Nat} {info info' : Information}
    (h : createNamespace dev nsid info s = .ok (some (info', s'))) :
    info' = { info with
      range := info'.range
      sizeInByteL := info'.sizeInByteL
      sizeInByteH := info'.sizeInByteH } := by
  rw [createNamespace, Except.bind_eq_ok] at h
  obtain ⟨lba, -, h⟩ := h
  dsimp only at h
  split at h
  · cases h
  · rw [Except.bind_eq_ok] at h
    obtain ⟨range, -, h⟩ := h
    split at h
    · cases h
    · cases h
      rfl

/-- `createNamespace` on a new `info`: a namespace is made exactly when there is room. -/
theorem createNamespace_placed (hs : Placed dev s.ranges) (nsid : Nat) (info : Information)
    {lba : Nat} (hlba : lbaSize info.lbaFormatIndex = .ok lba) (hrange : info.range = ⟨0, 0⟩) :
    ∃ ret, createNamespace dev nsid info s = .ok ret ∧
      (ret.isSome ↔ Creatable dev s info.size lba) := by
  obtain ⟨range, hallocate, hroom⟩ := allocate_placed hs (requestedPages dev info.size lba)
  rw [Creatable, ← hroom]
  by_cases hcounter : requestedPages dev info.size lba ≤
      (dev.totalLogicalPages + 2 ^ 64 - s.allocatedLogicalPages) % 2 ^ 64
  · by_cases hzero : range.nlp = 0
    · refine ⟨none, ?_, iff_of_false Bool.false_ne_true fun h => h.2.ne' hzero⟩
      rw [createNamespace, hlba, Except.ok_bind]
      rw [if_neg (not_lt.mpr hcounter), hrange, hallocate, Except.ok_bind, if_pos hzero]
    · let made : Information := { info with
        range := range
        sizeInByteL := requestedPages dev info.size lba * dev.logicalPageSize % 2 ^ 64
        sizeInByteH := 0 }
      refine ⟨some (made, s.insert (.new nsid made)), ?_,
        iff_of_true rfl ⟨hcounter, Nat.pos_of_ne_zero hzero⟩⟩
      rw [createNamespace, hlba, Except.ok_bind]
      rw [if_neg (not_lt.mpr hcounter), hrange, hallocate, Except.ok_bind, if_neg hzero]
  · refine ⟨none, ?_, iff_of_false Bool.false_ne_true fun h => absurd h.1 hcounter⟩
    rw [createNamespace, hlba, Except.ok_bind]
    rw [if_pos (not_le.mp hcounter)]

theorem lbaSize_ok_iff {lbaFormatIndex : Nat} :
    (∃ lba, lbaSize lbaFormatIndex = .ok lba) ↔ lbaFormatIndex < nLBAFormat := by
  rw [lbaSize]
  constructor
  · rintro ⟨lba, h⟩
    split at h
    · next hget =>
      obtain ⟨hlt, -⟩ := List.getElem?_eq_some_iff.mp hget
      exact hlt
    · cases h
  · intro h
    have hlt : lbaFormatIndex < lbaSizes.length := h
    rw [List.getElem?_eq_getElem hlt]
    exact ⟨_, rfl⟩

/-- The checks let pass what they should. -/
theorem check_status_iff {data : CreateData} (req : SQEntryWrapper)
    (h : data.lbaFormatIndex.toNat < nLBAFormat) :
    (data.check (.new req)).status = .zero ↔
      data.namespaceSharingCapabilities = 0 ∧ data.dataProtectionSettings = 0 := by
  rw [CreateData.check, if_neg (not_le.mpr h)]
  split
  · next hne => exact iff_of_false (fun h => by cases h) fun h => hne h.1
  · next heq =>
    rw [ne_eq, not_not] at heq
    split
    · next hne => exact iff_of_false (fun h => by cases h) fun h => hne h.2
    · next heq' =>
      rw [ne_eq, not_not] at heq'
      exact iff_of_true rfl ⟨heq, heq'⟩

/-- What a create command does once the index of its format is one of the table. -/
theorem createDone_placed (hs : Placed dev s.ranges) (nsid : Nat) (resp : CQEntryWrapper)
    {lba : Nat} {data : CreateData} (hlba : lbaSize data.lbaFormatIndex.toNat = .ok lba) :
    Creatable dev s data.size.toNat lba ∧
      (∃ s', Added nsid data s s' ∧ createDone dev nsid data resp s =
        .ok ({ data.check resp with dword0 := BitVec.ofNat 32 nsid }, s')) ∨
      ¬ Creatable dev s data.size.toNat lba ∧ createDone dev nsid data resp s =
        .ok ((data.check resp).makeStatus false false .commandSpecificStatus
          .namespaceInsufficientCapacity, s) := by
  obtain ⟨ret, hret, hsome⟩ := createNamespace_placed hs nsid { data.info with lbaSize := lba }
    hlba rfl
  cases ret with
  | some made =>
    refine .inl ⟨hsome.mp rfl, made.2, ?_, ?_⟩
    · obtain ⟨-, -, -, -, -, hsize, hblock, hindex, hinsert⟩ := createNamespace_spec hret
      have hinfo := createNamespace_info hret
      rw [hinsert]
      refine ⟨.new nsid made.1, insert_perm s _, rfl, rfl, hsize, ?_, hindex, ?_, ?_, ?_, rfl⟩
      · show made.1.capacity = _
        rw [hinfo]
        rfl
      · show _ = Except.ok made.1.lbaSize
        rw [hblock, hlba]
      · show made.1.dataProtectionSettings = _
        rw [hinfo]
        rfl
      · show made.1.namespaceSharingCapabilities = _
        rw [hinfo]
        rfl
    · simp only [createDone, hlba, Except.ok_bind, hret]
  | none =>
    refine .inr ⟨fun h => by simpa using hsome.mpr h, ?_⟩
    simp only [createDone, hlba, Except.ok_bind, hret]

/-- Adding a namespace is a change. -/
theorem Added.ne {nsid : Nat} {data : CreateData} (h : Added nsid data s s') : s' ≠ s := by
  rintro rfl
  obtain ⟨ns, hperm, -⟩ := h
  have := hperm.length_eq
  rw [List.length_cons] at this
  omega

/-- A create command is atomic exactly when its format is one of the table, and it is
valid in its other fields or finds no room. -/
theorem createDone_atomic_iff (dev : LPNInfo) (nNamespaces lba : Nat) (commands : List Command)
    (s : Subsystem) (hrun : run dev nNamespaces lba commands = .ok s) (nsid : Nat)
    (buffer : Nat → BitVec 8) (req : SQEntryWrapper) :
    CreatesAtomically dev s nsid (.copy buffer) req ↔
      ∃ lba, lbaSize (CreateData.copy buffer).lbaFormatIndex.toNat = .ok lba ∧
        ((CreateData.copy buffer).namespaceSharingCapabilities = 0 ∧
            (CreateData.copy buffer).dataProtectionSettings = 0 ∨
          ¬ Creatable dev s (CreateData.copy buffer).size.toNat lba) := by
  generalize CreateData.copy buffer = data
  have hs := run_placed hrun
  constructor
  · rintro ⟨resp, s', hdone, herror, hsuccess⟩
    have hlba := hdone
    simp only [createDone, Except.bind_eq_ok] at hlba
    obtain ⟨lba, hlba, -⟩ := hlba
    refine ⟨lba, hlba, ?_⟩
    rw [← check_status_iff req (lbaSize_ok_iff.mp ⟨lba, hlba⟩)]
    rcases createDone_placed hs nsid (.new req) hlba with
      ⟨-, s₁, hadded, hmade⟩ | ⟨hfull, -⟩
    · -- the namespace is made whatever the status is, so that no error may be reported
      refine .inl ?_
      rw [hmade] at hdone
      cases hdone
      by_contra hne
      exact hadded.ne (herror hne)
    · exact .inr hfull
  · rintro ⟨lba, hlba, hvalid⟩
    rw [← check_status_iff req (lbaSize_ok_iff.mp ⟨lba, hlba⟩)] at hvalid
    rcases createDone_placed hs nsid (.new req) hlba with
      ⟨hroom, s₁, hadded, hmade⟩ | ⟨-, hmade⟩
    · refine ⟨_, s₁, hmade, fun hne => ?_, fun _ => hadded⟩
      rcases hvalid with hvalid | hfull
      · exact absurd hvalid hne
      · exact absurd hroom hfull
    · exact ⟨_, s, hmade, fun _ => rfl, fun h => by cases h⟩

/-- The data of a create command for 4096 blocks, with one more byte set. -/
def createBuffer (byte i : Nat) : BitVec 8 := if i = 1 then 16 else if i = byte then 1 else 0

/-- A namespace of 4096 blocks of 512 bytes on a device without namespaces. -/
theorem createDone_atomic_valid : CreatesAtomically smallDevice .new 1 (.copy (createBuffer 31))
    (adminCommand 0x0D 0 0) := by
  have hdata : CreateData.copy (createBuffer 31) = ⟨4096, 0, 0, 0, 0⟩ := by decide
  refine (createDone_atomic_iff smallDevice 0 512 [] .new rfl 1 (createBuffer 31)
    (adminCommand 0x0D 0 0)).mpr ⟨512, ?_, .inl ?_⟩
  · rw [hdata]
    rfl
  · rw [hdata]
    exact ⟨rfl, rfl⟩

/-- Protection settings are refused, and the namespace is there all the same. -/
theorem not_atomic_protection : ∃ resp s', createDone smallDevice 1 (.copy (createBuffer 29))
    (.new (adminCommand 0x0D 0 0)) .new = .ok (resp, s') ∧
      resp.status = ⟨false, false, .genericCommandStatus, .invalidField⟩ ∧
      s'.lNamespaces.length = 1 ∧
      ¬ CreatesAtomically smallDevice .new 1 (.copy (createBuffer 29)) (adminCommand 0x0D 0 0) := by
  have hdone : ∃ out, createDone smallDevice 1 (.copy (createBuffer 29))
      (.new (adminCommand 0x0D 0 0)) .new = .ok out ∧
        (out.1.status = ⟨false, false, .genericCommandStatus, .invalidField⟩ ∧
          out.2.lNamespaces.length = 1) :=
    Except.exists_of_map (by decide +kernel)
  obtain ⟨⟨resp, s'⟩, hdone, hstatus, hlength⟩ := hdone
  refine ⟨resp, s', hdone, hstatus, hlength, ?_⟩
  rintro ⟨resp', s'', hdone', herror, -⟩
  cases hdone.symm.trans hdone'
  have hsame := herror (by rw [hstatus]; decide)
  rw [hsame] at hlength
  cases hlength

end SimpleSSD.HIL.NVMe.Subsystem
