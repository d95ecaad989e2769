import SimpleSSD.HIL.NVMe.NamespaceRanges

/-!
# Isolation of namespaces

The handlers of Read, Write, Compare and Dataset Management do not compare the
blocks of a command with the size of the namespace. Blocks behind the end are
converted like any others, to the pages of whatever lies behind the range. What
the conversion does keep is `convertUnit_inside_iff`; the commands that stay in
their namespace are those of `isolated_iff`.
-/

namespace SimpleSSD

namespace LPNRange

/-- A range without pages lies in every range. -/
theorem pages_subset_iff {a b : LPNRange} : a.pages ⊆ b.pages ↔ a.nlp = 0 ∨ a.Within b := by
  rcases Nat.eq_zero_or_pos a.nlp with hzero | hpos
  · have hempty : a.pages = ∅ := by rw [pages, hzero, Nat.add_zero, Finset.Ico_self]
    simp [hempty, hzero]
  · rw [pages, pages, Finset.Ico_subset_Ico_iff (by omega), Within]
    constructor
    · exact .inr
    · rintro (h | h)
      · omega
      · exact h

end LPNRange

namespace HIL.NVMe

variable {dev : LPNInfo} {ns : Namespace} {slba nlb : Nat}

/-! ### Unit conversion -/

/-- The blocks end inside the page range of the namespace, or there are none of them
and no page is split. -/
def BlocksInside (dev : LPNInfo) (ns : Namespace) (slba nlb : Nat) : Prop :=
  let lbaratio := dev.logicalPageSize / ns.info.lbaSize
  if lbaratio = 0 then
    nlb = 0 ∨ slba * (ns.info.lbaSize / dev.logicalPageSize) % 2 ^ 64 +
      nlb * (ns.info.lbaSize / dev.logicalPageSize) ≤ ns.info.range.nlp
  else
    nlb = 0 ∧ lbaratio ∣ slba ∨ slba + nlb ≤ ns.info.range.nlp * lbaratio

instance : Decidable (BlocksInside dev ns slba nlb) := by
  unfold BlocksInside
  infer_instance

/-- Pages counted from the begin of a range, in 64 bits: a sum that wraps around lies
below the begin. -/
theorem shifted_subset_iff {range : LPNRange} {first count : Nat}
    (hrange : range.slpn + range.nlp < 2 ^ 64) (hfirst : first < 2 ^ 64) :
    (LPNRange.mk ((first + range.slpn) % 2 ^ 64) count).pages ⊆ range.pages ↔
      count = 0 ∨ first + count ≤ range.nlp := by
  rw [LPNRange.pages_subset_iff, LPNRange.Within]
  refine or_congr_right ?_
  constructor
  · rintro ⟨hlo, hhi⟩
    dsimp only at hlo hhi
    omega
  · intro h
    have hsum : (first + range.slpn) % 2 ^ 64 = first + range.slpn := Nat.mod_eq_of_lt (by omega)
    dsimp only
    omega

section ConvertUnit

variable (hns : ns.info.range.slpn + ns.info.range.nlp < 2 ^ 64) (hnlb : nlb < 2 ^ 32)

include hns hnlb

/-- Blocks of more than a page: each is some whole pages. -/
theorem convertUnit_inside_iff_blocks (hlba : ns.info.lbaSize < 2 ^ 32)
    (hratio : dev.logicalPageSize / ns.info.lbaSize = 0) :
    (convertUnit dev ns slba nlb).range.pages ⊆ ns.info.range.pages ↔
      BlocksInside dev ns slba nlb := by
  have hr : ns.info.lbaSize / dev.logicalPageSize < 2 ^ 32 :=
    (Nat.div_le_self _ _).trans_lt hlba
  have hcount : nlb * (ns.info.lbaSize / dev.logicalPageSize) < 2 ^ 64 := by
    calc nlb * (ns.info.lbaSize / dev.logicalPageSize)
      _ < 2 ^ 32 * 2 ^ 32 := Nat.mul_lt_mul'' hnlb hr
      _ = 2 ^ 64 := rfl
  rw [BlocksInside, if_pos hratio, convertUnit, if_pos hratio]
  dsimp only
  rw [Nat.mod_eq_of_lt hcount]
  refine (shifted_subset_iff hns (Nat.mod_lt _ (by decide))).trans ?_
  rw [Nat.mul_eq_zero]
  constructor
  · rintro ((h | h) | h)
    · exact .inl h
    · -- no pages at all
      rw [h, Nat.mul_zero, Nat.mul_zero]
      exact .inr (Nat.zero_le _)
    · exact .inr h
  · rintro (h | h)
    · exact .inl (.inl h)
    · exact .inr h

/-- Blocks of a part of a page: the last page is rounded up. -/
theorem convertUnit_inside_iff_parts (hslba : slba < 2 ^ 64)
    (hratio : dev.logicalPageSize / ns.info.lbaSize ≠ 0) :
    (convertUnit dev ns slba nlb).range.pages ⊆ ns.info.range.pages ↔
      BlocksInside dev ns slba nlb := by
  have hr : dev.logicalPageSize / ns.info.lbaSize < 2 ^ 32 :=
    (Nat.div_le_self _ _).trans_lt dev.logicalPageSize_lt
  rw [BlocksInside, if_neg hratio, convertUnit, if_neg hratio]
  generalize dev.logicalPageSize / ns.info.lbaSize = r at *
  have hpos : 0 < r := Nat.pos_of_ne_zero hratio
  have hoff : slba % r < r := Nat.mod_lt _ hpos
  dsimp only
  rw [Nat.mod_eq_of_lt (show nlb + slba % r + r - 1 < 2 ^ 64 by omega)]
  have hfirst : slba / r < 2 ^ 64 := (Nat.div_le_self _ _).trans_lt hslba
  refine (shifted_subset_iff hns hfirst).trans (or_congr ?_ ?_)
  · have hceil : (nlb + slba % r + r - 1) / r = 0 ↔ nlb + slba % r = 0 := by
      rw [Nat.div_eq_zero_iff_lt hpos]
      omega
    rw [hceil, Nat.dvd_iff_mod_eq_zero]
    omega
  · have hsum : slba / r + (nlb + slba % r + r - 1) / r = (slba + nlb + (r - 1)) / r := by
      have hsplit := Nat.div_add_mod slba r
      have hnum : slba + nlb + (r - 1) = nlb + slba % r + r - 1 + r * (slba / r) := by omega
      rw [hnum, Nat.add_mul_div_left _ _ hpos, Nat.add_comm]
    rw [hsum, Nat.div_le_iff_le_mul_add_pred hpos, Nat.mul_comm]
    omega

/-- The pages that a command touches are pages of the namespace exactly when its
blocks are. -/
theorem convertUnit_inside_iff (hlba : ns.info.lbaSize < 2 ^ 32) (hslba : slba < 2 ^ 64) :
    (convertUnit dev ns slba nlb).range.pages ⊆ ns.info.range.pages ↔
      BlocksInside dev ns slba nlb := by
  by_cases hratio : dev.logicalPageSize / ns.info.lbaSize = 0
  · exact convertUnit_inside_iff_blocks hns hnlb hlba hratio
  · exact convertUnit_inside_iff_parts hns hnlb hslba hratio

end ConvertUnit

/-! ### Commands -/

/-- The commands that name blocks. -/
inductive BlockCommand where
  | write (req : SQEntryWrapper)
  | read (req : SQEntryWrapper)
  | compare (req : SQEntryWrapper)
  | datasetManagement (req : SQEntryWrapper) (buffer : Nat → DatasetManagementRange)

def Namespace.submit (dev : LPNInfo) (ns : Namespace) : BlockCommand → Outcome
  | .write req => ns.write dev req
  | .read req => ns.read dev req
  | .compare req => ns.compare dev req
  | .datasetManagement req buffer => ns.datasetManagement dev req buffer

/-- The blocks that the command names, if it is executed, end inside the namespace. -/
def TransferInside (dev : LPNInfo) (ns : Namespace) (req : SQEntryWrapper) : Prop :=
  ns.attached → req.dword12.setWidth 16 + 1 ≠ 0 →
    BlocksInside dev ns (req.dword11 ++ req.dword10).toNat (req.dword12.setWidth 16 + 1).toNat

/-- The same for each range of a deallocation. -/
def BlockCommand.Inside (dev : LPNInfo) (ns : Namespace) : BlockCommand → Prop
  | .write req => TransferInside dev ns req
  | .read req => TransferInside dev ns req
  | .compare req => TransferInside dev ns req
  | .datasetManagement req buffer => ns.attached → req.dword11 &&& 0x04 ≠ 0 →
      ∀ i < (req.dword10 &&& 0xFF).toNat + 1,
        BlocksInside dev ns (buffer i).slba.toNat (buffer i).nlb.toNat

/-- The pages that a command touches are pages of the namespace. -/
def Isolated (dev : LPNInfo) (ns : Namespace) (c : BlockCommand) : Prop :=
  ∀ r ∈ (ns.submit dev c).requests, r.range.pages ⊆ ns.info.range.pages

section Commands

variable (hns : ns.info.range.slpn + ns.info.range.nlp < 2 ^ 64)
  (hlba : ns.info.lbaSize < 2 ^ 32)

include hns hlba

theorem transfer_inside_iff (req : SQEntryWrapper) :
    (∀ r ∈ (ns.transfer dev req).requests, r.range.pages ⊆ ns.info.range.pages) ↔
      TransferInside dev ns req := by
  have hnlb : (req.dword12.setWidth 16 + 1).toNat < 2 ^ 32 :=
    (req.dword12.setWidth 16 + 1).isLt.trans (by decide)
  rw [Namespace.transfer, TransferInside]
  cases ns.attached with
  | false => simp [Outcome.requests]
  | true =>
    by_cases hzero : (req.dword12.setWidth 16 + 1).toNat = 0
    · -- the count wraps around, and the command is answered
      have hwrap : req.dword12.setWidth 16 + 1 = 0 := BitVec.eq_of_toNat_eq hzero
      rw [if_neg (by decide), if_pos hzero]
      constructor
      · intro _ _ hne
        exact absurd hwrap hne
      · intro _ r hr
        cases hr
    · have hwrap : req.dword12.setWidth 16 + 1 ≠ 0 := fun h => hzero (congrArg BitVec.toNat h)
      simp only [Bool.not_true, Bool.false_eq_true, if_false, if_neg hzero, Outcome.requests,
        List.mem_singleton, forall_eq, forall_const, ne_eq, hwrap, not_false_eq_true]
      exact convertUnit_inside_iff hns hnlb hlba (req.dword11 ++ req.dword10).isLt

theorem datasetManagement_inside_iff (req : SQEntryWrapper)
    (buffer : Nat → DatasetManagementRange) :
    Isolated dev ns (.datasetManagement req buffer) ↔
      BlockCommand.Inside dev ns (.datasetManagement req buffer) := by
  rw [Isolated, Namespace.submit, Namespace.datasetManagement, BlockCommand.Inside]
  cases ns.attached with
  | false => simp [Outcome.requests]
  | true =>
    by_cases hzero : req.dword11 &&& 0x04 = 0
    · simp only [Bool.not_true, Bool.false_eq_true, if_false, hzero, if_true, Outcome.requests,
        ne_eq, not_true, false_imp_iff, imp_true_iff, List.not_mem_nil]
    · simp only [Bool.not_true, Bool.false_eq_true, if_false, Outcome.requests,
        List.forall_mem_map, List.mem_range, forall_const, ne_eq, hzero, not_false_eq_true]
      refine forall_congr' fun i => imp_congr_right fun _ => ?_
      exact convertUnit_inside_iff hns ((buffer i).nlb.isLt) hlba (buffer i).slba.isLt

/-- A command stays in its namespace exactly when its blocks do. -/
theorem submit_inside_iff (c : BlockCommand) :
    Isolated dev ns c ↔ BlockCommand.Inside dev ns c := by
  cases c with
  | write req => exact transfer_inside_iff hns hlba req
  | read req => exact transfer_inside_iff hns hlba req
  | compare req => exact transfer_inside_iff hns hlba req
  | datasetManagement req buffer => exact datasetManagement_inside_iff hns hlba req buffer

end Commands

/-! ### Reachable namespaces -/

namespace Subsystem

variable {s s' : Subsystem}

/-- The blocks of a namespace have one of the sizes offered. -/
def Sized (s : Subsystem) : Prop := ∀ ns ∈ s.lNamespaces, ns.info.lbaSize ∈ lbaSizes

theorem mem_lbaSizes {lbaFormatIndex lba : Nat} (h : lbaSize lbaFormatIndex = .ok lba) :
    lba ∈ lbaSizes := by
  rw [lbaSize] at h
  split at h
  · next hget =>
    cases h
    exact List.mem_of_getElem? hget
  · cases h

theorem exec_sized {c : Command} (hs : s.Sized) (h : exec dev s c = .ok s') : s'.Sized := by
  intro ns hns
  cases exec_change h with
  | keep hranges hallocated hinfos =>
    obtain ⟨ns', hns', heq⟩ := hinfos ns hns
    rw [heq]
    exact hs ns' hns'
  | create nsid data resp lba info hc hlba hret =>
    obtain ⟨-, -, -, -, -, -, hinfo, -, rfl⟩ := createNamespace_spec hret
    rcases List.mem_cons.mp ((insert_perm s _).mem_iff.mp hns) with rfl | hns
    · show info.lbaSize ∈ lbaSizes
      rw [hinfo]
      exact mem_lbaSizes hlba
    · exact hs ns hns
  | delete nsid found hc hfound hperm =>
    exact hs ns (hperm.mem_iff.mpr (List.mem_cons_of_mem found hns))
  | format tick req found lba hc hvalid hfound hlba hranges hallocated hinfos =>
    rcases hinfos ns hns with hns | rfl
    · exact hs ns hns
    · exact mem_lbaSizes hlba

theorem initNamespace_sized {size i : Nat} {state state' : Information × Subsystem}
    (hs : state.2.Sized ∧ state.1.lbaSize ∈ lbaSizes)
    (h : initNamespace dev size state i = .ok state') :
    state'.2.Sized ∧ state'.1.lbaSize ∈ lbaSizes := by
  obtain ⟨s₁, hcreate, hinfos, -⟩ := initNamespace_cases h
  obtain ⟨-, -, -, -, -, -, hinfo, -, rfl⟩ := createNamespace_spec hcreate
  have hnew : state'.1.lbaSize ∈ lbaSizes := by
    rw [hinfo]
    exact hs.2
  refine ⟨fun ns hns => ?_, hnew⟩
  have hmem := List.mem_map_of_mem (f := (·.info)) hns
  rw [hinfos] at hmem
  obtain ⟨ns', hns', heq⟩ := List.mem_map.mp hmem
  rw [← heq]
  rcases List.mem_cons.mp ((insert_perm state.2 _).mem_iff.mp hns') with rfl | hns'
  · exact hnew
  · exact hs.1 ns' hns'

theorem run_sized {nNamespaces lba : Nat} {commands : List Command}
    (h : run dev nNamespaces lba commands = .ok s) : s.Sized := by
  rw [run, Except.bind_eq_ok] at h
  obtain ⟨s₀, hinit, h⟩ := h
  refine Run.foldlM_inv (fun s c s' => exec_sized) ?_ h
  rcases init_inv (I := fun state => state.2.Sized ∧ state.1.lbaSize ∈ lbaSizes)
    (fun _ hindex => ⟨by simp [Sized, new], mem_lbaSizes hindex⟩)
    (fun state i state' => initNamespace_sized) hinit with rfl | ⟨-, info, h, -⟩
  · simp [Sized, new]
  · exact h

/-- In every state that a run reaches, a command of a namespace touches pages of that
namespace alone exactly when the blocks it names are blocks of the namespace. -/
theorem isolated_iff (dev : LPNInfo) (nNamespaces lba : Nat) (commands : List Command)
    (s : Subsystem) (hrun : run dev nNamespaces lba commands = .ok s) (ns : Namespace)
    (hns : ns ∈ s.lNamespaces) (c : BlockCommand) :
    Isolated dev ns c ↔ BlockCommand.Inside dev ns c := by
  have hsize : ∀ lba ∈ lbaSizes, lba < 2 ^ 32 := by decide
  refine submit_inside_iff ?_ (hsize _ (run_sized hrun ns hns)) c
  exact (run_placed hrun).lt (List.mem_map_of_mem hns)

/-- A command that stays in its namespace touches no page of another one. -/
theorem isolated_disjoint {nNamespaces lba : Nat} {commands : List Command}
    (hrun : run dev nNamespaces lba commands = .ok s) {ns ns' : Namespace}
    (hns : ns ∈ s.lNamespaces) (hns' : ns' ∈ s.lNamespaces) (hne : ns ≠ ns') {c : BlockCommand}
    (hc : BlockCommand.Inside dev ns c) :
    ∀ r ∈ (ns.submit dev c).requests, Disjoint r.range.pages ns'.info.range.pages := by
  intro r hr
  have hapart := List.pairwise_map.mp (run_placed hrun).apart
  have : Std.Symm fun a b : Namespace => a.info.range.Apart b.info.range :=
    ⟨fun _ _ => LPNRange.Apart.symm⟩
  have hranges := hapart.forall hns hns' hne
  have hinside := (isolated_iff dev nNamespaces lba commands s hrun ns hns c).mpr hc
  exact hranges.disjoint.mono_left (hinside r hr)

/-- A read of eight blocks. -/
def readBlocks (slba : BitVec 32) : BlockCommand :=
  .read ⟨0x02, 0, 1, 0, 0, slba, 0, 7, 0, 1, 1, 0, 0, false⟩

/-- The first page of the device. -/
theorem isolated_iff_first : ∃ s, run smallDevice 1 512 [] = .ok s ∧ ∃ ns ∈ s.lNamespaces,
    (Isolated smallDevice ns (readBlocks 0) ↔
      BlockCommand.Inside smallDevice ns (readBlocks 0)) := by
  have hrun : run smallDevice 1 512 [] = .ok wholeDevice := by decide +kernel
  exact ⟨wholeDevice, hrun, _, List.mem_singleton_self _,
    isolated_iff smallDevice 1 512 [] wholeDevice hrun _ (List.mem_singleton_self _) (readBlocks 0)⟩

/-- Two namespaces of 4096 blocks: a read behind the end of the first one touches the
second one. -/
theorem not_isolated_next : ∃ s, run smallDevice 2 512 [] = .ok s ∧
    ∃ ns ∈ s.lNamespaces, ¬ Isolated smallDevice ns (readBlocks 4096) := by
  have hrun : ∃ s, run smallDevice 2 512 [] = .ok s ∧ ∃ ns ∈ s.lNamespaces, ns.nsid = 1 ∧
      ¬ ∀ r ∈ (ns.submit smallDevice (readBlocks 4096)).requests,
        r.range.pages ⊆ ns.info.range.pages :=
    Except.exists_of_map (by decide +kernel)
  obtain ⟨s, hs, ns, hns, -, h⟩ := hrun
  exact ⟨s, hs, ns, hns, h⟩

end Subsystem

end HIL.NVMe

end SimpleSSD
