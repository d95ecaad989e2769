import SimpleSSD.HIL.NVMe.ChunkReport

/-!
# Scalar and vector commands (ocssd.cc:1429–1575 and 1935–2472)

A scalar command hands the list `{slba, nlb}` to `convertUnit`, which goes from the first number up
to the second, as if that were the end of the range and not the number of blocks. So its list is a
first part of the list of the vector command for the same blocks, and often empty. The two do the
same when the rest of the list makes no difference (`scalar_eq_vector_iff`). Dataset Management
never does: `eraseInternal` takes its `DMAContext` for an `IOContext`, and writes to fields that it
does not have.
-/

namespace SimpleSSD.HIL.NVMe

open PAL (CPDPBP)
open Batch (leading)

namespace OpenChannelSSD

/-- `readInternal` (ocssd.cc:1490–1575): the answer, and the pages that are read. A block of a dead
chunk is read nevertheless, as nothing sets `err`. -/
def readInternal (p : OCSSDParameter) (lbaList : List Nat) (s : OpenChannelSSD) :
    ChunkResponse × List CPDPBP :=
  let pages := p.convertUnit false lbaList
  let dead := pages.any fun page => (s.pDescriptor page.2.desc).chunkState = .offline
  (⟨0xFFFFFFFF, 0xFFFFFFFF, if dead then some 0x87 else none⟩, pages.map Prod.fst)

/-- The commands that there are in both families. -/
inductive DataOp where
  | read | write | deallocate

/-- `read`, `write`, and one range of `datasetManagement`: the pages that are read, and the device
after the command. -/
def scalar (p : OCSSDParameter) (s : OpenChannelSSD) (op : DataOp) (slba nlb : Nat) :
    Except Fault (List CPDPBP × OpenChannelSSD) :=
  let lbaList := List.range' slba (nlb - slba)
  match op with
  | .read => .ok ((s.readInternal p lbaList).2, s)
  | .write => .ok ([], (s.writeInternal p lbaList).2)
  | .deallocate => .error (.badAccess "IOContext")

/-- `vectorChunkRead`, `vectorChunkWrite` and `vectorChunkReset`. -/
def vector (p : OCSSDParameter) (s : OpenChannelSSD) (op : DataOp) (lbaList : List Nat) :
    Except Fault (List CPDPBP × OpenChannelSSD) :=
  match op with
  | .read => .ok ((s.readInternal p lbaList).2, s)
  | .write => .ok ([], (s.writeInternal p lbaList).2)
  | .deallocate => .ok ([], (s.eraseInternal p lbaList).2)

end OpenChannelSSD

/-! ### Lists that go on -/

section Lists

variable {p : OCSSDParameter} {s : OpenChannelSSD} {l m : List Nat}

theorem samePage_false {a b : ChunkPage} : SamePage false a b ↔ a.1 = b.1 := Iff.rfl

/-- A longer list has more pages, unless they are the last one again. -/
theorem convertUnit_append (l m : List Nat) :
    ∃ rest, p.convertUnit false (l ++ m) = p.convertUnit false l ++ rest := by
  induction m using List.reverseRecOn with
  | nil => exact ⟨[], by rw [List.append_nil, List.append_nil]⟩
  | append_singleton m lba ih =>
    obtain ⟨rest, hrest⟩ := ih
    have hfold : p.convertUnit false (l ++ (m ++ [lba])) =
        OCSSDParameter.push false (p.convertUnit false (l ++ m)) (p.pageOf lba) := by
      rw [← List.append_assoc, OCSSDParameter.convertUnit, OCSSDParameter.convertUnit,
        List.foldl_append]
      rfl
    rw [hfold, hrest]
    rcases OCSSDParameter.push_cases false (p.convertUnit false l ++ rest) (p.pageOf lba) with
      heq | heq
    · exact ⟨rest, heq⟩
    · exact ⟨rest ++ [p.pageOf lba], by rw [heq, List.append_assoc]⟩

/-- The last page is the one of the last block. -/
theorem convertUnit_last (l : List Nat) (lba : Nat) : ∃ acc back,
    p.convertUnit false (l ++ [lba]) = acc ++ [back] ∧ back.1 = (p.pageOf lba).1 := by
  have hfold : p.convertUnit false (l ++ [lba]) =
      OCSSDParameter.push false (p.convertUnit false l) (p.pageOf lba) := by
    rw [OCSSDParameter.convertUnit, OCSSDParameter.convertUnit, List.foldl_append]
    rfl
  rw [hfold]
  cases hl : p.convertUnit false l using List.reverseRecOn with
  | nil => exact ⟨[], p.pageOf lba, rfl, rfl⟩
  | append_singleton acc back =>
    rw [push_concat]
    split
    · next hsame => exact ⟨acc, back, rfl, hsame⟩
    · exact ⟨acc ++ [back], p.pageOf lba, rfl, rfl⟩

theorem destutter'_eq_singleton_iff {α : Type*} (R : α → α → Prop) [DecidableRel R] (a : α)
    (l : List α) : l.destutter' R a = [a] ↔ ∀ b ∈ l, ¬ R a b := by
  induction l with
  | nil => simp
  | cons b l ih =>
    by_cases h : R a b
    · rw [List.destutter'_cons_pos _ h, Batch.destutter'_eq_cons]
      simp [h]
    · rw [List.destutter'_cons_neg _ h, ih, List.forall_mem_cons]
      exact (and_iff_right h).symm

/-- A list that goes on has the same pages when what follows is all on the page of the last
block. -/
theorem convertUnit_append_eq_iff (l m : List Nat) (lba : Nat) :
    p.convertUnit false (l ++ [lba] ++ m) = p.convertUnit false (l ++ [lba]) ↔
      ∀ x ∈ m, (p.pageOf x).1 = (p.pageOf lba).1 := by
  obtain ⟨acc, back, hlast, hback⟩ := convertUnit_last (p := p) l lba
  have hfold : p.convertUnit false (l ++ [lba] ++ m) =
      acc ++ (m.map p.pageOf).destutter' (fun a b => ¬ SamePage false a b) back := by
    rw [← foldl_push, ← hlast, OCSSDParameter.convertUnit, OCSSDParameter.convertUnit,
      List.foldl_append, List.foldl_map]
  rw [hfold, hlast, List.append_cancel_left_eq, destutter'_eq_singleton_iff]
  simp only [List.forall_mem_map, not_not, samePage_false, hback]
  exact forall₂_congr fun x _ => eq_comm

/-- What a write does to the device. -/
theorem writeInternal_eq (hlength : l.length ≤ 64) : (s.writeInternal p l).2 =
    ⟨(leading (takeWrite p) s.pDescriptor (p.convertUnit false l)).2,
      s.flash ++ (((p.convertUnit false l).map Prod.fst).take
        (leading (takeWrite p) s.pDescriptor (p.convertUnit false l)).1).map
          OpenChannelSSD.palWrite⟩ := by
  obtain ⟨hmarked, hdesc⟩ := writePages_marked (p := p)
    (ChunkUpdate.start_marked s.pDescriptor) ((p.convertUnit false l).map Prod.snd)
  rw [Nat.zero_add, Nat.zero_add, acceptWrites_leading, List.length_map] at hmarked
  rw [acceptWrites_leading] at hdesc
  have hpages : (p.convertUnit false l).length ≤ 64 := by
    have hle := Batch.judged_length_le (SamePage false) none (l.map p.pageOf)
    rw [← convertUnit_judged, List.length_map] at hle
    exact hle.trans hlength
  have hsent := ChunkUpdate.finish_list ((p.convertUnit false l).map Prod.fst)
    (by rw [List.length_map]; exact hmarked)
  rw [List.drop_eq_nil_of_le (by rw [List.length_map]; omega), List.append_nil] at hsent
  rw [OpenChannelSSD.writeInternal]
  dsimp only
  rw [hsent, hdesc]
  rfl

end Lists

/-! ### The same command twice -/

section Same

variable {p : OCSSDParameter} {s : OpenChannelSSD} {slba nlb : Nat}

/-- The list of the vector command goes on where that of the scalar one ends. -/
theorem range'_split (slba nlb : Nat) : List.range' slba nlb =
    List.range' slba (nlb - slba) ++ List.range' (slba + (nlb - slba)) (nlb - (nlb - slba)) := by
  rw [List.range'_append_1, Nat.add_sub_cancel' (Nat.sub_le _ _)]

theorem read_same_iff (hpos : 0 < nlb) :
    s.scalar p .read slba nlb = s.vector p .read (List.range' slba nlb) ↔
      slba < nlb ∧ ∀ lba, nlb ≤ lba → lba < slba + nlb →
        (p.pageOf lba).1 = (p.pageOf (nlb - 1)).1 := by
  have hsame : s.scalar p .read slba nlb = s.vector p .read (List.range' slba nlb) ↔
      p.convertUnit false (List.range' slba nlb) =
        p.convertUnit false (List.range' slba (nlb - slba)) := by
    obtain ⟨rest, hrest⟩ := convertUnit_append (p := p) (List.range' slba (nlb - slba))
      (List.range' (slba + (nlb - slba)) (nlb - (nlb - slba)))
    rw [← range'_split] at hrest
    simp only [OpenChannelSSD.scalar, OpenChannelSSD.vector, OpenChannelSSD.readInternal,
      Except.ok.injEq, Prod.mk.injEq, and_true, hrest, List.map_append, List.self_eq_append_right,
      List.append_right_eq_self, List.map_eq_nil_iff]
  rw [hsame, range'_split]
  by_cases hlt : slba < nlb
  · -- the last block of the scalar command is `nlb - 1`
    have hlast : List.range' slba (nlb - slba) =
        List.range' slba (nlb - slba - 1) ++ [nlb - 1] := by
      obtain ⟨k, hk⟩ : ∃ k, nlb - slba = k + 1 := ⟨nlb - slba - 1, by omega⟩
      rw [hk, List.range'_concat, Nat.add_sub_cancel]
      congr 2
      omega
    rw [hlast, convertUnit_append_eq_iff, and_iff_right hlt]
    have hstart : slba + (nlb - slba) = nlb := by omega
    rw [hstart]
    constructor
    · intro h lba hle hlba
      exact h lba (List.mem_range'_1.mpr ⟨hle, by omega⟩)
    · intro h lba hlba
      obtain ⟨hle, hlba⟩ := List.mem_range'_1.mp hlba
      exact h lba hle (by omega)
  · refine iff_of_false (fun h => ?_) fun h => hlt h.1
    have hnil : nlb - slba = 0 := by omega
    obtain ⟨k, rfl⟩ : ∃ k, nlb = k + 1 := ⟨nlb - 1, by omega⟩
    rw [hnil] at h
    obtain ⟨acc, back, hback, -⟩ := convertUnit_last (p := p) (List.range' slba k) (slba + k)
    rw [List.range'_zero, List.nil_append, Nat.add_zero, Nat.sub_zero, List.range'_1_concat,
      hback] at h
    exact List.append_ne_nil_of_right_ne_nil acc (List.cons_ne_nil back []) h

theorem write_same_iff (hlength : nlb ≤ 64) :
    s.scalar p .write slba nlb = s.vector p .write (List.range' slba nlb) ↔
      (leading (takeWrite p) s.pDescriptor (p.convertUnit false (List.range' slba nlb))).1 ≤
        (p.convertUnit false (List.range' slba (nlb - slba))).length := by
  obtain ⟨rest, hrest⟩ := convertUnit_append (p := p) (List.range' slba (nlb - slba))
    (List.range' (slba + (nlb - slba)) (nlb - (nlb - slba)))
  rw [← range'_split] at hrest
  have hscalar := writeInternal_eq (p := p) (s := s) (l := List.range' slba (nlb - slba))
    (by rw [List.length_range']; omega)
  have hvector := writeInternal_eq (p := p) (s := s) (l := List.range' slba nlb)
    (by rw [List.length_range']; omega)
  have hle := Batch.leading_le (takeWrite p) s.pDescriptor
    (p.convertUnit false (List.range' slba (nlb - slba)))
  rw [hrest] at hvector
  simp only [OpenChannelSSD.scalar, OpenChannelSSD.vector, Except.ok.injEq, Prod.mk.injEq, true_and,
    hscalar, hvector, OpenChannelSSD.mk.injEq]
  rw [hrest]
  constructor
  · rintro ⟨-, hflash⟩
    have hcount := congrArg List.length (List.append_cancel_left hflash)
    have hle' := Batch.leading_le (takeWrite p) s.pDescriptor
      (p.convertUnit false (List.range' slba (nlb - slba)) ++ rest)
    simp only [List.length_map, List.length_take] at hcount
    omega
  · intro h
    rw [Batch.leading_append _ h, List.map_append, List.take_append_of_le_length
      (by rw [List.length_map]; exact hle)]
    exact ⟨rfl, rfl⟩

end Same

/-- For every device and every range of 1 to 64 blocks, the scalar and the vector command do the
same exactly when: for a read, the blocks that the scalar command leaves out are on the page of the
last one that it reads; for a write, the vector command takes no page that the scalar one leaves
out; for a deallocation, never. -/
theorem scalar_eq_vector_iff (p : OCSSDParameter) (s : OpenChannelSSD) (slba nlb : Nat)
    (hpos : 0 < nlb) (hlength : nlb ≤ 64) :
    (s.scalar p .read slba nlb = s.vector p .read (List.range' slba nlb) ↔
      slba < nlb ∧ ∀ lba, nlb ≤ lba → lba < slba + nlb →
        (p.pageOf lba).1 = (p.pageOf (nlb - 1)).1) ∧
    (s.scalar p .write slba nlb = s.vector p .write (List.range' slba nlb) ↔
      (leading (takeWrite p) s.pDescriptor (p.convertUnit false (List.range' slba nlb))).1 ≤
        (p.convertUnit false (List.range' slba (nlb - slba))).length) ∧
    s.scalar p .deallocate slba nlb ≠ s.vector p .deallocate (List.range' slba nlb) :=
  ⟨read_same_iff hpos, write_same_iff hlength, fun h => by cases h⟩

open OpenChannelSSD (init twoChunks)

/-- From block 0 on, one block is read and written alike. -/
theorem scalar_eq_vector_first :
    init.scalar twoChunks .read 0 1 = init.vector twoChunks .read [0] ∧
      init.scalar twoChunks .write 0 1 = init.vector twoChunks .write [0] := by
  obtain ⟨hread, hwrite, -⟩ := scalar_eq_vector_iff twoChunks init 0 1 (by decide) (by decide)
  refine ⟨hread.mpr ⟨by decide, fun lba hle hlt => ?_⟩, hwrite.mpr (by decide +kernel)⟩
  exact absurd hlt (Nat.not_lt.mpr hle)

/-- Block 2 is the first page of the second chunk. The vector commands read and write it, and the
scalar ones send nothing to the flash. A deallocation of block 0 does not get that far. -/
theorem scalar_ne_vector :
    init.vector twoChunks .read [2] = .ok ([twoChunks.convert ⟨0, 0, 1⟩ 0], init) ∧
    init.scalar twoChunks .read 2 1 = .ok ([], init) ∧
    init.scalar twoChunks .read 2 1 ≠ init.vector twoChunks .read [2] ∧
    init.scalar twoChunks .write 2 1 ≠ init.vector twoChunks .write [2] ∧
    init.scalar twoChunks .deallocate 0 1 ≠ init.vector twoChunks .deallocate [0] := by
  have hvector : init.vector twoChunks .read [2] = .ok ([twoChunks.convert ⟨0, 0, 1⟩ 0], init) :=
    rfl
  have hscalar : init.scalar twoChunks .read 2 1 = .ok ([], init) := rfl
  refine ⟨hvector, hscalar, fun h => ?_, fun h => ?_, fun h => by cases h⟩
  · rw [hvector, hscalar, Except.ok.injEq, Prod.mk.injEq] at h
    cases h.1
  · have hread := (write_same_iff (by decide)).mp h
    exact absurd hread (by decide +kernel)

end SimpleSSD.HIL.NVMe
