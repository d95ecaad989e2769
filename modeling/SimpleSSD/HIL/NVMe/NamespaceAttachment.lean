import SimpleSSD.HIL.NVMe.NamespaceRanges
import SimpleSSD.Lib.Buffer

/-!
# Namespace Attachment (subsystem.cc:1080–1195)

The host sends a page with a list of controllers: its length, and then their identifiers. The device
has one controller, of identifier 0, and attaches a namespace to it or detaches one. The length is
not compared with the page, so the device reads behind it. And detaching looks for no namespace that
is not there, but succeeds. `attachment_atomic_iff` says which commands do what they answer, over
any list of namespaces.
-/

namespace SimpleSSD.HIL.NVMe

/-- The page as words of 16 bits, `ctrlList[i]`. -/
def ctrlList (buffer : Bytes 0x1000) (i : Nat) : BitVec 16 :=
  .ofNat 16 ((buffer.1.getD (2 * i) 0).toNat + 256 * (buffer.1.getD (2 * i + 1) 0).toNat)

/-- The loop that takes the list (subsystem.cc:1099–1101), with its counter of 16 bits. -/
def takeList (buffer : Bytes 0x1000) :
    Nat → BitVec 16 → List (BitVec 16) → Except Fault (List (BitVec 16))
  | 0, _, _ => .error (.diverges "Subsystem::namespaceAttachment")
  | fuel + 1, i, list =>
    if i.toNat ≤ (ctrlList buffer 0).toNat then
      if 2 * i.toNat + 1 < 0x1000 then
        takeList buffer fuel (i + 1) (list ++ [ctrlList buffer i.toNat])
      else .error (.badAccess "pContext->buffer")
    else .ok list

namespace Subsystem

/-- What `dmaDone` does for a list that it accepts (subsystem.cc:1119–1164). -/
def attachOrDetach (sel nsid : Nat) (resp : CQEntryWrapper) (s : Subsystem) :
    CQEntryWrapper × Subsystem :=
  match sel with
  | 0x00 => s.attach nsid resp
  | 0x01 => s.detach nsid resp
  | _ => (resp.makeStatus false false .genericCommandStatus .invalidField, s)

/-- `dmaDone`. -/
def attachmentDone (sel nsid : Nat) (buffer : Bytes 0x1000) (resp : CQEntryWrapper)
    (s : Subsystem) : Except Fault (CQEntryWrapper × Subsystem) := do
  let list ← takeList buffer (2 ^ 16) 1 []
  if 1 < list.length ∧ sel = 0x00 then
    .ok (resp.makeStatus false false .commandSpecificStatus .namespaceIsPrivate, s)
  else if list.length = 0 then
    .ok (resp.makeStatus false false .commandSpecificStatus .controllerListInvalid, s)
  else if list.head? ≠ some 0 then
    .ok (resp.makeStatus false false .commandSpecificStatus .controllerListInvalid, s)
  else .ok (attachOrDetach sel nsid resp s)

/-- `namespaceAttachment`, with the page that its DMA reads. -/
def namespaceAttachment (req : SQEntryWrapper) (buffer : Bytes 0x1000) (s : Subsystem) :
    Except Fault (CQEntryWrapper × Subsystem) :=
  attachmentDone (req.dword10 &&& 0x0F).toNat req.namespaceID.toNat buffer (.new req) s

end Subsystem

/-! ### What a command should do -/

/-- One namespace of the identifier has the other flag, and gets this one. -/
def Flips (nsid : Nat) (attached : Bool) (s s' : Subsystem) : Prop :=
  ∃ before ns after, s.lNamespaces = before ++ ns :: after ∧ ns.nsid = nsid ∧
    ns.attached = !attached ∧
    s' = { s with lNamespaces := before ++ { ns with attached := attached } :: after }

/-- The command reads nothing behind the page, and does what it answers: with success it has flipped
the flag of a namespace, and with an error nothing has changed. -/
def AttachesAtomically (req : SQEntryWrapper) (buffer : Bytes 0x1000) (s : Subsystem) : Prop :=
  ∃ resp s', s.namespaceAttachment req buffer = .ok (resp, s') ∧
    (resp.status = .zero → Flips req.namespaceID.toNat ((req.dword10 &&& 0x0F).toNat = 0) s s') ∧
    (resp.status ≠ .zero → s' = s)

/-- The list is one that the selector can do with. -/
def ListAccepted (sel : Nat) (buffer : Bytes 0x1000) : Prop :=
  ctrlList buffer 0 ≠ 0 ∧ (sel = 0 → ctrlList buffer 0 = 1) ∧ ctrlList buffer 1 = 0

/-- The namespaces of the identifier are one, or have the flag already; and to be detached, there
is one. -/
structure Addressed (sel nsid : Nat) (s : Subsystem) : Prop where
  same : (s.lNamespaces.filter (·.nsid = nsid)).length = 1 ∨
    ∀ ns ∈ s.lNamespaces, ns.nsid = nsid → ns.attached = decide (sel = 0)
  exist : sel = 1 → ∃ ns ∈ s.lNamespaces, ns.nsid = nsid

/-! ### The list -/

section TakeList

variable {buffer : Bytes 0x1000}

/-- A round of the loop. -/
theorem takeList_succ {fuel i : Nat} (hi : i < 2 ^ 16) (list : List (BitVec 16)) :
    takeList buffer (fuel + 1) (.ofNat 16 i) list =
      if i ≤ (ctrlList buffer 0).toNat then
        if 2 * i + 1 < 0x1000 then
          takeList buffer fuel (.ofNat 16 (i + 1)) (list ++ [ctrlList buffer i])
        else .error (.badAccess "pContext->buffer")
      else .ok list := by
  have htoNat : (BitVec.ofNat 16 i).toNat = i := by
    rw [BitVec.toNat_ofNat, Nat.mod_eq_of_lt hi]
  have hnext : BitVec.ofNat 16 i + 1 = BitVec.ofNat 16 (i + 1) := (BitVec.ofNat_add i 1).symm
  rw [takeList, htoNat, hnext]

/-- The loop takes a list that is in the page. -/
theorem takeList_eq (hcount : (ctrlList buffer 0).toNat < 2048) {fuel i : Nat}
    (hi : i ≤ (ctrlList buffer 0).toNat + 1) (hfuel : (ctrlList buffer 0).toNat + 1 - i < fuel)
    (list : List (BitVec 16)) : takeList buffer fuel (.ofNat 16 i) list =
      .ok (list ++ (List.range' i ((ctrlList buffer 0).toNat + 1 - i)).map (ctrlList buffer)) := by
  induction fuel generalizing i list with
  | zero => omega
  | succ fuel ih =>
    rw [takeList_succ (by omega)]
    split
    · next hle =>
      have hsplit :
          (ctrlList buffer 0).toNat + 1 - i = (ctrlList buffer 0).toNat + 1 - (i + 1) + 1 := by
        omega
      rw [if_pos (by omega), ih (by omega) (by omega), hsplit, List.range'_succ, List.map_cons,
        List.append_assoc]
      rfl
    · next hend =>
      have hzero : (ctrlList buffer 0).toNat + 1 - i = 0 := by omega
      rw [hzero, List.range'_zero, List.map_nil, List.append_nil]

/-- A longer one takes it behind the page. -/
theorem takeList_error (hcount : 2048 ≤ (ctrlList buffer 0).toNat) {fuel i : Nat} (hi : i ≤ 2048)
    (hfuel : 2048 - i < fuel) (list : List (BitVec 16)) :
    takeList buffer fuel (.ofNat 16 i) list = .error (.badAccess "pContext->buffer") := by
  induction fuel generalizing i list with
  | zero => omega
  | succ fuel ih =>
    rw [takeList_succ (by omega), if_pos (by omega)]
    split
    · next hin => exact ih (by omega) (by omega) _
    · rfl

end TakeList

/-! ### Maps that change one element -/

section MapOne

variable {α : Type*} [DecidableEq α] (f : α → α)

omit [DecidableEq α] in
theorem map_eq_self_iff (l : List α) : l.map f = l ↔ ∀ a ∈ l, f a = a :=
  calc l.map f = l ↔ l.map f = l.map id := by rw [List.map_id]
    _ ↔ ∀ a ∈ l, f a = a := List.map_inj_left

/-- A map changes one element and no other one. -/
theorem map_one_iff (l : List α) : (∃ before a after, l = before ++ a :: after ∧ f a ≠ a ∧
    l.map f = before ++ f a :: after) ↔ (l.filter fun a => f a ≠ a).length = 1 := by
  have hkept : ∀ l : List α, l.map f = l ↔ (l.filter fun a => f a ≠ a) = [] := by
    intro l
    rw [map_eq_self_iff, List.filter_eq_nil_iff]
    simp
  constructor
  · rintro ⟨before, a, after, rfl, ha, hmap⟩
    rw [List.map_append, List.map_cons] at hmap
    obtain ⟨hbefore, hafter⟩ := List.append_inj hmap (List.length_map _)
    rw [List.filter_append, (hkept before).mp hbefore, List.nil_append,
      List.filter_cons_of_pos (by simpa using ha), (hkept after).mp (List.cons.inj hafter).2]
    rfl
  · intro hone
    obtain ⟨a, ha⟩ := List.length_eq_one_iff.mp hone
    obtain ⟨before, after, rfl, hbefore, hchanged, hafter⟩ := List.filter_eq_cons_iff.mp ha
    refine ⟨before, a, after, rfl, by simpa using hchanged, ?_⟩
    have hnone : (before.filter fun a => f a ≠ a) = [] := List.filter_eq_nil_iff.mpr hbefore
    rw [List.map_append, List.map_cons, (hkept before).mpr hnone, (hkept after).mpr hafter]

end MapOne

/-! ### Flags -/

section Flags

open Subsystem

/-- All namespaces of the identifier have the flag. -/
def AllHave (nsid : Nat) (attached : Bool) (s : Subsystem) : Prop :=
  ∀ ns ∈ s.lNamespaces, ns.nsid = nsid → ns.attached = attached

/-- What both loops do to a namespace. -/
def setFlag (nsid : Nat) (attached : Bool) (iter : Namespace) : Namespace :=
  if iter.nsid = nsid then { iter with attached := attached } else iter

/-- And to the list. -/
def setFlags (nsid : Nat) (attached : Bool) (s : Subsystem) : Subsystem :=
  { s with lNamespaces := s.lNamespaces.map (setFlag nsid attached) }

variable {nsid : Nat} {attached : Bool} {s : Subsystem} {resp : CQEntryWrapper}

theorem setFlag_eq_self_iff (ns : Namespace) :
    setFlag nsid attached ns = ns ↔ (ns.nsid = nsid → ns.attached = attached) := by
  cases ns with
  | mk id info flag formatFinishedAt =>
    rw [setFlag]
    dsimp only
    by_cases hid : id = nsid
    · rw [if_pos hid, Namespace.mk.injEq]
      simp [hid, eq_comm]
    · simp [hid]

theorem setFlags_eq_self_iff : setFlags nsid attached s = s ↔ AllHave nsid attached s := by
  have hlist : setFlags nsid attached s = s ↔
      s.lNamespaces.map (setFlag nsid attached) = s.lNamespaces := by
    constructor
    · exact congrArg Subsystem.lNamespaces
    · intro h
      rw [setFlags, h]
  rw [hlist, map_eq_self_iff]
  exact forall₂_congr fun ns _ => setFlag_eq_self_iff ns

/-- If they all have the other flag, one is flipped when there is one. -/
theorem flips_iff (h : AllHave nsid (!attached) s) :
    Flips nsid attached s (setFlags nsid attached s) ↔
      (s.lNamespaces.filter (·.nsid = nsid)).length = 1 := by
  have hchanged : ∀ ns : Namespace, setFlag nsid attached ns ≠ ns ↔
      ns.nsid = nsid ∧ ns.attached = !attached := by
    intro ns
    rw [Ne, setFlag_eq_self_iff, Classical.not_imp, Bool.eq_not]
  have hset : ∀ ns : Namespace, ns.nsid = nsid →
      setFlag nsid attached ns = { ns with attached := attached } := fun ns hid => if_pos hid
  have hfilter : (s.lNamespaces.filter fun ns => setFlag nsid attached ns ≠ ns) =
      s.lNamespaces.filter (·.nsid = nsid) := by
    refine List.filter_congr fun ns hns => decide_eq_decide.mpr ?_
    rw [hchanged]
    exact ⟨And.left, fun hid => ⟨hid, h ns hns hid⟩⟩
  rw [← hfilter, ← map_one_iff]
  constructor
  · rintro ⟨before, ns, after, hlist, hid, hflag, hs'⟩
    refine ⟨before, ns, after, hlist, (hchanged ns).mpr ⟨hid, hflag⟩, ?_⟩
    rw [hset ns hid]
    exact congrArg Subsystem.lNamespaces hs'
  · rintro ⟨before, ns, after, hlist, hne, hmap⟩
    obtain ⟨hid, hflag⟩ := (hchanged ns).mp hne
    refine ⟨before, ns, after, hlist, hid, hflag, ?_⟩
    rw [setFlags, hmap, hset ns hid]

/-- One namespace has one flag or the other. -/
theorem allHave_of_one (h : (s.lNamespaces.filter (·.nsid = nsid)).length = 1) :
    (∃ ns ∈ s.lNamespaces, ns.nsid = nsid) ∧
      ∀ attached, ¬ AllHave nsid (!attached) s → AllHave nsid attached s := by
  obtain ⟨ns, hns⟩ := List.length_eq_one_iff.mp h
  have hmem : ∀ ns', ns' ∈ s.lNamespaces ∧ ns'.nsid = nsid ↔ ns' = ns := by
    intro ns'
    have hin : ns' ∈ s.lNamespaces.filter (·.nsid = nsid) ↔ ns' ∈ [ns] := by rw [hns]
    rwa [List.mem_filter, decide_eq_true_eq, List.mem_singleton] at hin
  refine ⟨⟨ns, (hmem ns).mpr rfl⟩, fun attached hnot ns' hns' hid' => ?_⟩
  by_contra hflag
  refine hnot fun ns'' hns'' hid'' => ?_
  rw [(hmem ns'').mp ⟨hns'', hid''⟩, ← (hmem ns').mp ⟨hns', hid'⟩]
  exact Bool.eq_not.mpr hflag

/-- No namespace has both. -/
theorem allHave_not (h : AllHave nsid attached s) (h' : AllHave nsid (!attached) s) :
    ¬ ∃ ns ∈ s.lNamespaces, ns.nsid = nsid := by
  rintro ⟨ns, hns, hid⟩
  exact absurd (h' ns hns hid) (Bool.eq_not.not.mpr (not_not_intro (h ns hns hid)))

theorem filter_ne_nil_iff :
    s.lNamespaces.filter (·.nsid = nsid) ≠ [] ↔ ∃ ns ∈ s.lNamespaces, ns.nsid = nsid := by
  rw [← List.isEmpty_eq_false_iff, List.isEmpty_eq_false_iff_exists_mem]
  simp only [List.mem_filter, decide_eq_true_eq]

/-- An attach command succeeds if there are namespaces and none is attached. -/
theorem attach_status (hresp : resp.status = .zero) : (s.attach nsid resp).1.status = .zero ↔
    (∃ ns ∈ s.lNamespaces, ns.nsid = nsid) ∧ AllHave nsid false s := by
  have hnone : (s.lNamespaces.filter (·.nsid = nsid)).any (·.attached) = false ↔
      AllHave nsid false s := by
    rw [List.any_eq_false, AllHave]
    simp
  rw [← filter_ne_nil_iff, ← hnone, attach]
  dsimp only
  by_cases hnil : s.lNamespaces.filter (·.nsid = nsid) = []
  · rw [if_pos hnil]
    exact iff_of_false (by intro h; cases h) fun h => h.1 hnil
  · rw [if_neg hnil, and_iff_right hnil]
    cases hany : (s.lNamespaces.filter (·.nsid = nsid)).any (·.attached) with
    | false => exact iff_of_true hresp rfl
    | true => exact iff_of_false (by intro h; cases h) (by intro h; cases h)

/-- A detach command succeeds if all namespaces that there are are attached. -/
theorem detach_status (hresp : resp.status = .zero) :
    (s.detach nsid resp).1.status = .zero ↔ AllHave nsid true s := by
  have hall : (s.lNamespaces.filter (·.nsid = nsid)).any (fun iter => !iter.attached) = false ↔
      AllHave nsid true s := by
    rw [List.any_eq_false, AllHave]
    simp
  rw [← hall, detach]
  dsimp only
  cases hany : (s.lNamespaces.filter (·.nsid = nsid)).any (fun iter => !iter.attached) with
  | false => exact iff_of_true hresp rfl
  | true => exact iff_of_false (by intro h; cases h) (by intro h; cases h)

/-- An attach command does what it answers when the namespaces are one, or attached. -/
theorem attach_atomic_iff (hresp : resp.status = .zero) :
    (((s.attach nsid resp).1.status = .zero → Flips nsid true s (s.attach nsid resp).2) ∧
        ((s.attach nsid resp).1.status ≠ .zero → (s.attach nsid resp).2 = s)) ↔
      (s.lNamespaces.filter (·.nsid = nsid)).length = 1 ∨ AllHave nsid true s := by
  have hstate : (s.attach nsid resp).2 = setFlags nsid true s := rfl
  rw [hstate, Ne, attach_status hresp, setFlags_eq_self_iff]
  constructor
  · rintro ⟨hflips, hsame⟩
    by_cases hsuccess : (∃ ns ∈ s.lNamespaces, ns.nsid = nsid) ∧ AllHave nsid false s
    · exact .inl ((flips_iff hsuccess.2).mp (hflips hsuccess))
    · exact .inr (hsame hsuccess)
  · rintro (hone | hall)
    · obtain ⟨hexist, hother⟩ := allHave_of_one hone
      refine ⟨fun hsuccess => (flips_iff hsuccess.2).mpr hone, fun herror => hother true ?_⟩
      exact fun hnone => herror ⟨hexist, hnone⟩
    · exact ⟨fun hsuccess => absurd hsuccess.1 (allHave_not hall hsuccess.2), fun _ => hall⟩

/-- So does a detach command when they are one, or detached, but there has to be one. -/
theorem detach_atomic_iff (hresp : resp.status = .zero) :
    (((s.detach nsid resp).1.status = .zero → Flips nsid false s (s.detach nsid resp).2) ∧
        ((s.detach nsid resp).1.status ≠ .zero → (s.detach nsid resp).2 = s)) ↔
      ((s.lNamespaces.filter (·.nsid = nsid)).length = 1 ∨ AllHave nsid false s) ∧
        ∃ ns ∈ s.lNamespaces, ns.nsid = nsid := by
  have hstate : (s.detach nsid resp).2 = setFlags nsid false s := rfl
  rw [hstate, Ne, detach_status hresp, setFlags_eq_self_iff]
  constructor
  · rintro ⟨hflips, hsame⟩
    by_cases hsuccess : AllHave nsid true s
    · have hone : (s.lNamespaces.filter (·.nsid = nsid)).length = 1 :=
        (flips_iff hsuccess).mp (hflips hsuccess)
      exact ⟨.inl hone, (allHave_of_one hone).1⟩
    · refine ⟨.inr (hsame hsuccess), ?_⟩
      by_contra hnone
      exact hsuccess fun ns hns hid => absurd ⟨ns, hns, hid⟩ hnone
  · rintro ⟨hone | hall, hexist⟩
    · obtain ⟨-, hother⟩ := allHave_of_one hone
      exact ⟨fun hsuccess => (flips_iff hsuccess).mpr hone, hother false⟩
    · exact ⟨fun hsuccess => absurd hexist (allHave_not hall hsuccess), fun _ => hall⟩

end Flags

/-! ### Which commands are atomic -/

section Atomic

open Subsystem

variable {sel nsid : Nat} {buffer : Bytes 0x1000} {s : Subsystem} {resp : CQEntryWrapper}

instance : Decidable (ListAccepted sel buffer) := inferInstanceAs (Decidable (_ ∧ _ ∧ _))

/-- The list is taken from behind its length. -/
theorem takeList_page (hcount : (ctrlList buffer 0).toNat < 2048) :
    takeList buffer (2 ^ 16) 1 [] =
      .ok ((List.range' 1 (ctrlList buffer 0).toNat).map (ctrlList buffer)) := by
  have htake : takeList buffer (2 ^ 16) (.ofNat 16 1) [] = .ok ([] ++ (List.range' 1
      ((ctrlList buffer 0).toNat + 1 - 1)).map (ctrlList buffer)) :=
    takeList_eq hcount (by omega) (by omega) []
  rwa [Nat.add_sub_cancel, List.nil_append] at htake

theorem listAccepted_iff : ListAccepted sel buffer ↔ (ctrlList buffer 0).toNat ≠ 0 ∧
    ¬ (1 < (ctrlList buffer 0).toNat ∧ sel = 0) ∧ ctrlList buffer 1 = 0 := by
  have hnat : ∀ n : Nat, n < 2 ^ 16 → (ctrlList buffer 0 = .ofNat 16 n ↔
      (ctrlList buffer 0).toNat = n) := by
    intro n hn
    rw [← BitVec.toNat_inj, BitVec.toNat_ofNat, Nat.mod_eq_of_lt hn]
  have hzero : ctrlList buffer 0 = 0 ↔ (ctrlList buffer 0).toNat = 0 := hnat 0 (by decide)
  have hone : ctrlList buffer 0 = 1 ↔ (ctrlList buffer 0).toNat = 1 := hnat 1 (by decide)
  rw [ListAccepted, Ne, hzero, hone]
  constructor
  · rintro ⟨hne, hsingle, hid⟩
    exact ⟨hne, fun h => absurd (hsingle h.2) (Nat.ne_of_gt h.1), hid⟩
  · rintro ⟨hne, hprivate, hid⟩
    exact ⟨hne, fun hsel => by omega, hid⟩

/-- The checks of the list. -/
theorem attachmentDone_eq (hcount : (ctrlList buffer 0).toNat < 2048) :
    attachmentDone sel nsid buffer resp s =
      if 1 < (ctrlList buffer 0).toNat ∧ sel = 0x00 then
        .ok (resp.makeStatus false false .commandSpecificStatus .namespaceIsPrivate, s)
      else if (ctrlList buffer 0).toNat = 0 then
        .ok (resp.makeStatus false false .commandSpecificStatus .controllerListInvalid, s)
      else if ctrlList buffer 1 ≠ 0 then
        .ok (resp.makeStatus false false .commandSpecificStatus .controllerListInvalid, s)
      else .ok (attachOrDetach sel nsid resp s) := by
  rw [attachmentDone, takeList_page hcount]
  show (if 1 < List.length _ ∧ sel = 0 then _ else _) = _
  rw [List.length_map, List.length_range']
  cases hn : (ctrlList buffer 0).toNat with
  | zero => rfl
  | succ n => simp [List.range'_succ]

/-- A list that is not accepted is refused. -/
theorem attachmentDone_rejected (hcount : (ctrlList buffer 0).toNat < 2048)
    (hlist : ¬ ListAccepted sel buffer) :
    ∃ resp', attachmentDone sel nsid buffer resp s = .ok (resp', s) ∧ resp'.status ≠ .zero := by
  rw [listAccepted_iff] at hlist
  rw [attachmentDone_eq hcount]
  split_ifs with hprivate hempty hother
  · exact ⟨_, rfl, by intro h; cases h⟩
  · exact ⟨_, rfl, by intro h; cases h⟩
  · exact ⟨_, rfl, by intro h; cases h⟩
  · exact absurd ⟨hempty, hprivate, not_not.mp hother⟩ hlist

/-- An accepted one leads to the namespaces. -/
theorem attachmentDone_accepted (hcount : (ctrlList buffer 0).toNat < 2048)
    (hlist : ListAccepted sel buffer) :
    attachmentDone sel nsid buffer resp s = .ok (attachOrDetach sel nsid resp s) := by
  obtain ⟨hne, hprivate, hzero⟩ := listAccepted_iff.mp hlist
  rw [attachmentDone_eq hcount, if_neg hprivate, if_neg hne, if_neg (not_not_intro hzero)]

/-- A command is atomic when its list is in the page, and, if the list is accepted, the
namespaces of its identifier are one or have the flag already, and there is one to be detached.
-/
theorem attachment_atomic_iff (req : SQEntryWrapper) (buffer : Bytes 0x1000) (s : Subsystem) :
    AttachesAtomically req buffer s ↔ (ctrlList buffer 0).toNat < 2048 ∧
      (ListAccepted (req.dword10 &&& 0x0F).toNat buffer → (req.dword10 &&& 0x0F).toNat ≤ 1 →
        Addressed (req.dword10 &&& 0x0F).toNat req.namespaceID.toNat s) := by
  rw [AttachesAtomically, namespaceAttachment]
  generalize (req.dword10 &&& 0x0F).toNat = sel
  generalize req.namespaceID.toNat = nsid
  have hresp : (CQEntryWrapper.new req).status = .zero := rfl
  generalize CQEntryWrapper.new req = resp at hresp
  by_cases hcount : (ctrlList buffer 0).toNat < 2048
  · rw [and_iff_right hcount]
    by_cases hlist : ListAccepted sel buffer
    · rw [attachmentDone_accepted hcount hlist]
      match sel with
      | 0 =>
        constructor
        · rintro ⟨resp', s', hdone, hflips, hsame⟩ _ _
          cases hdone
          exact ⟨(attach_atomic_iff hresp).mp ⟨hflips, hsame⟩, fun h => absurd h (by decide)⟩
        · intro h
          obtain ⟨hflips, hsame⟩ := (attach_atomic_iff hresp).mpr (h hlist (by decide)).same
          exact ⟨_, _, rfl, hflips, hsame⟩
      | 1 =>
        constructor
        · rintro ⟨resp', s', hdone, hflips, hsame⟩ _ _
          cases hdone
          obtain ⟨hone, hexist⟩ := (detach_atomic_iff hresp).mp ⟨hflips, hsame⟩
          exact ⟨hone, fun _ => hexist⟩
        · intro h
          have haddressed := h hlist (by decide)
          obtain ⟨hflips, hsame⟩ :=
            (detach_atomic_iff hresp).mpr ⟨haddressed.same, haddressed.exist rfl⟩
          exact ⟨_, _, rfl, hflips, hsame⟩
      | sel + 2 =>
        refine iff_of_true ⟨_, s, rfl, fun h => ?_, fun _ => rfl⟩ fun _ h => ?_
        · cases h
        · omega
    · obtain ⟨resp', hdone, hstatus⟩ : ∃ resp', attachmentDone sel nsid buffer resp s =
          .ok (resp', s) ∧ resp'.status ≠ .zero := attachmentDone_rejected hcount hlist
      refine iff_of_true ⟨resp', s, hdone, fun h => absurd h hstatus, fun _ => rfl⟩ ?_
      exact fun h => absurd h hlist
  · refine iff_of_false ?_ fun h => hcount h.1
    rintro ⟨resp', s', hdone, -⟩
    have herror : takeList buffer (2 ^ 16) 1 [] = .error (.badAccess "pContext->buffer") :=
      takeList_error (Nat.le_of_not_lt hcount) (i := 1) (by decide) (by decide) []
    rw [attachmentDone, herror] at hdone
    cases hdone

/-- A page with a list of controller 0. -/
def oneController : Bytes 0x1000 :=
  ⟨1 :: List.replicate 4095 0, by rw [List.length_cons, List.length_replicate]⟩

/-- A namespace that is not there is detached with success. -/
theorem not_atomic_missing :
    ¬ AttachesAtomically (adminCommand 0x15 7 0x01) oneController .new := by
  rintro ⟨resp, s', hdone, hflips, -⟩
  have haccepted : ListAccepted 1 oneController := by decide +kernel
  have hsuccess : attachmentDone 1 7 oneController (.new (adminCommand 0x15 7 0x01)) .new =
      .ok (.new (adminCommand 0x15 7 0x01), .new) :=
    attachmentDone_accepted (by decide +kernel) haccepted
  cases hsuccess.symm.trans hdone
  obtain ⟨before, ns, after, hlist, -⟩ := hflips rfl
  exact absurd hlist.symm (List.append_ne_nil_of_right_ne_nil _ (List.cons_ne_nil _ _))

end Atomic

end SimpleSSD.HIL.NVMe
