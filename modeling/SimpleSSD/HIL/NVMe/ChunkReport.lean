import SimpleSSD.HIL.NVMe.ChunkDiscipline
import SimpleSSD.Lib.Batch

/-!
# What the answer says about each logical block (ocssd.cc:1577–1763 and 2301–2472)

A vector command is a batch of logical blocks. Each is taken or refused by what the blocks before it
have left, and a block on the page of the one before it, or for a reset in its chunk, shares its
fate. The bits of the answer are to say which blocks are refused, and the others are written or
reset, and only they.

The loop of the command does not go over the logical blocks but over their pages, and after an error
it refuses all the rest; and the loop that writes to the disk tests the bits of the `int` `1 << i`.
So the answer to a command with a refused block is right when no two neighbours have a page in
common, no block comes after a refused one but refused ones, and a write has at most 32 blocks, and
only then (`reports_iff`).
-/

namespace SimpleSSD.HIL.NVMe

open PAL (CPDPBP)
open Batch (Verdict judge judged leading)
open ChunkUpdate (writeRefused advance eraseRefused writePage erasePage)

/-- The bits of the answer. -/
def ChunkResponse.mask (r : ChunkResponse) : BitVec 64 :=
  r.reserved.setWidth 64 <<< 32 ||| r.dword0.setWidth 64

/-! ### The disk -/

/-- `1 << i` as a `uint64_t`. The shifted 1 is an `int`: at 31 it is negative, and a shift by more
is undefined. -/
def shiftedBit (undef : Nat → BitVec 64) (i : Nat) : BitVec 64 :=
  if i < 31 then BitVec.twoPow 64 i
  else if i = 31 then 0xFFFFFFFF80000000
  else undef i

/-- "Write to disk" (ocssd.cc:2319–2339): the places in the list of the logical blocks that
`vectorChunkWrite` writes to the disk. -/
def writtenToDisk (undef : Nat → BitVec 64) (r : ChunkResponse) (nlb : Nat) : List Nat :=
  let mask := if r.status = none then 0 else r.mask
  (List.range nlb).filter fun i => shiftedBit undef i &&& mask = 0

/-! ### The verdict on each logical block -/

/-- The page of `b` is merged with that of `a`: it is the same, or for a reset in the same chunk. -/
def SamePage (block : Bool) (a b : ChunkPage) : Prop :=
  (if block then { a.1 with page := b.1.page } else a.1) = b.1

instance (block : Bool) : DecidableRel (SamePage block) := fun a b =>
  inferInstanceAs (Decidable ((if block then { a.1 with page := b.1.page } else a.1) = b.1))

/-- A page that is not refused is written. -/
def takeWrite (p : OCSSDParameter) (desc : Nat → ChunkDescriptor) (page : ChunkPage) :
    Option (Nat → ChunkDescriptor) :=
  if writeRefused p (desc page.2.desc) page.2.pageIdx then none
  else some (Function.update desc page.2.desc (advance p page.2.pageIdx))

/-- A chunk that is not refused is reset. -/
def takeReset (desc : Nat → ChunkDescriptor) (page : ChunkPage) : Option (Nat → ChunkDescriptor) :=
  if (desc page.2.desc).chunkState = .closed then
    some (Function.update desc page.2.desc ⟨.free, 0⟩)
  else none

/-- The verdict on the logical blocks of a write. -/
def writeVerdict (p : OCSSDParameter) (desc : Nat → ChunkDescriptor) (lbaList : List Nat) :
    Verdict (Nat → ChunkDescriptor) ChunkPage :=
  judge (takeWrite p) (SamePage false) desc none (lbaList.map p.pageOf)

/-- The verdict on the logical blocks of a reset. -/
def resetVerdict (p : OCSSDParameter) (desc : Nat → ChunkDescriptor) (lbaList : List Nat) :
    Verdict (Nat → ChunkDescriptor) ChunkPage :=
  judge takeReset (SamePage true) desc none (lbaList.map p.pageOf)

/-- The answer and the device agree with the verdict. -/
structure Agrees (op : CPDPBP → ZoneOp CPDPBP) (s : OpenChannelSSD)
    (v : Verdict (Nat → ChunkDescriptor) ChunkPage) (r : ChunkResponse × OpenChannelSSD) :
    Prop where
  bits : ∀ i < 64, r.1.mask.getLsbD i = v.refused.getD i false
  flash : r.2.flash = s.flash ++ (v.taken.map Prod.fst).map op
  descriptors : r.2.pDescriptor = v.state

/-! ### The pages of a command -/

section Pages

variable {p : OCSSDParameter} {desc : Nat → ChunkDescriptor} {block : Bool}

theorem push_concat (acc : List ChunkPage) (back page : ChunkPage) :
    OCSSDParameter.push block (acc ++ [back]) page =
      if SamePage block back page then acc ++ [back] else acc ++ [back] ++ [page] := by
  rw [OCSSDParameter.push, List.getLast?_concat]
  rfl

theorem foldl_push (acc : List ChunkPage) (back : ChunkPage) (pages : List ChunkPage) :
    pages.foldl (OCSSDParameter.push block) (acc ++ [back]) =
      acc ++ pages.destutter' (fun a b => ¬ SamePage block a b) back := by
  induction pages generalizing acc back with
  | nil => rfl
  | cons page pages ih =>
    rw [List.foldl_cons, push_concat]
    by_cases hsame : SamePage block back page
    · rw [if_pos hsame, ih, List.destutter'_cons_neg _ (not_not_intro hsame)]
    · rw [if_neg hsame, ih, List.destutter'_cons_pos _ hsame, List.append_assoc]
      rfl

/-- The pages are those of the logical blocks that are judged. -/
theorem convertUnit_judged (block : Bool) (lbaList : List Nat) :
    p.convertUnit block lbaList = judged (SamePage block) none (lbaList.map p.pageOf) := by
  rw [OCSSDParameter.convertUnit, ← List.foldl_map]
  cases lbaList.map p.pageOf with
  | nil => rfl
  | cons page pages => exact foldl_push [] page pages

theorem acceptWrites_leading (pages : List ChunkPage) :
    acceptWrites p desc (pages.map Prod.snd) = leading (takeWrite p) desc pages := by
  induction pages generalizing desc with
  | nil => rfl
  | cons page pages ih =>
    rw [List.map_cons]
    by_cases hrefused : writeRefused p (desc page.2.desc) page.2.pageIdx
    · rw [acceptWrites_refused hrefused, Batch.leading_refused (if_pos hrefused)]
    · rw [acceptWrites_written hrefused, Batch.leading_taken (if_neg hrefused), ih]

theorem acceptResets_leading (pages : List ChunkPage) :
    acceptResets desc (pages.map Prod.snd) = (leading takeReset desc pages).1 := by
  induction pages generalizing desc with
  | nil => rfl
  | cons page pages ih =>
    rw [List.map_cons]
    by_cases hclosed : (desc page.2.desc).chunkState = .closed
    · rw [acceptResets_closed hclosed, Batch.leading_taken (if_pos hclosed), ih]
    · rw [acceptResets_of_ne hclosed, Batch.leading_refused (if_neg hclosed)]

theorem resetDesc_eq (page : ChunkPage) :
    resetDesc desc page.2 = (takeReset desc page).getD desc := by
  by_cases hclosed : (desc page.2.desc).chunkState = .closed
  · rw [resetDesc_closed hclosed, takeReset, if_pos hclosed]
    rfl
  · rw [resetDesc_of_ne hclosed, takeReset, if_neg hclosed]
    rfl

end Pages

/-! ### The answer -/

section Answer

variable {p : OCSSDParameter} {s : OpenChannelSSD} {lbaList : List Nat}

theorem next_err (u : ChunkUpdate) : u.next.err = u.err := rfl

theorem next_status (u : ChunkUpdate) : u.next.resp.status = u.resp.status := by
  rw [ChunkUpdate.next]
  dsimp only
  split
  · split
    · rfl
    · rfl
  · rfl

/-- The status says whether there was an error. -/
def StatusTold (u : ChunkUpdate) : Prop := u.resp.status = none ↔ u.err = false

theorem writePage_statusTold {u : ChunkUpdate} (h : StatusTold u) (e : ChunkUpdateEntry) :
    StatusTold (writePage p u e) := by
  rw [StatusTold, writePage]
  split
  · rw [next_status, next_err]
    exact iff_of_false (fun h => by cases h) (fun h => by cases h)
  · rw [next_status, next_err]
    exact h

theorem erasePage_statusTold {u : ChunkUpdate} (h : StatusTold u) (e : ChunkUpdateEntry) :
    StatusTold (erasePage u e) := by
  rw [StatusTold, erasePage]
  split
  · rw [next_status, next_err]
    exact iff_of_false (fun h => by cases h) (fun h => by cases h)
  · rw [next_status, next_err]
    exact h

/-- The logical blocks are on a page each, and the refused ones are the last ones. -/
def RefusedLast (block : Bool) (pages : List ChunkPage)
    (v : Verdict (Nat → ChunkDescriptor) ChunkPage) : Prop :=
  (pages.IsChain fun a b => ¬ SamePage block a b) ∧
    v.refused.Pairwise fun b c => b = true → c = true

/-- The answer of a loop that marks the pages from the first refused one on. -/
theorem finish_agrees_iff {block : Bool} {op : CPDPBP → ZoneOp CPDPBP}
    {take : (Nat → ChunkDescriptor) → ChunkPage → Option (Nat → ChunkDescriptor)}
    {pages : List ChunkPage} {u : ChunkUpdate} (hlength : pages.length ≤ 64)
    (hmarked : u.Marked (leading take s.pDescriptor (judged (SamePage block) none pages)).1
      (judged (SamePage block) none pages).length)
    (hstatus : StatusTold u)
    (hdesc : RefusedLast block pages (judge take (SamePage block) s.pDescriptor none pages) →
      u.pDescriptor = (judge take (SamePage block) s.pDescriptor none pages).state)
    {r : ChunkResponse × OpenChannelSSD}
    (hr : r = ((u.finish ((judged (SamePage block) none pages).map Prod.fst)).1,
      ⟨u.pDescriptor, s.flash ++
        (u.finish ((judged (SamePage block) none pages).map Prod.fst)).2.map op⟩)) :
    (r.1.status = none ↔
      ∀ b ∈ (judge take (SamePage block) s.pDescriptor none pages).refused, b = false) ∧
    (r.1.status ≠ none →
      (Agrees op s (judge take (SamePage block) s.pDescriptor none pages) r ↔
        RefusedLast block pages (judge take (SamePage block) s.pDescriptor none pages))) := by
  have hle := hmarked.le
  have hjudged := Batch.judged_length_le (SamePage block) none pages
  have hsent := ChunkUpdate.finish_list ((judged (SamePage block) none pages).map Prod.fst)
    (by rw [List.length_map]; exact hmarked)
  rw [List.drop_eq_nil_of_le (by rw [List.length_map]; omega), List.append_nil] at hsent
  have hnone : r.1.status = none ↔ u.err = false := by
    rw [hr, ChunkUpdate.finish]
    split
    · exact hstatus
    · exact hstatus
  constructor
  · rw [hnone, hmarked.err, decide_eq_false_iff_not, Nat.not_lt, ← Batch.leading_eq_length_iff
      s.pDescriptor none pages (by simp)]
    omega
  · intro herr
    rw [Ne, hnone, Bool.not_eq_false] at herr
    have hlt : (leading take s.pDescriptor (judged (SamePage block) none pages)).1 <
        (judged (SamePage block) none pages).length := by
      rw [hmarked.err] at herr
      exact of_decide_eq_true herr
    have hmask : r.1.mask = u.mask := by
      rw [hr, ChunkUpdate.finish, if_pos herr]
      rfl
    have hiff := Batch.leading_marks_iff (SamePage block) rfl hlt
    constructor
    · intro h
      refine hiff.mp ⟨fun i hi => ?_, ?_⟩
      · rw [← h.bits i (by omega), hmask, hmarked.mask i (by omega)]
      · have hflash := h.flash
        rw [hr] at hflash
        have hsame := congrArg List.length (List.append_cancel_left hflash)
        rw [hsent] at hsame
        simp only [List.length_map, List.length_take] at hsame
        omega
    · intro h
      obtain ⟨hbits, htaken⟩ := hiff.mpr h
      obtain ⟨hleading, -, -⟩ := Batch.leading_of_pairwise s.pDescriptor none pages
        (Batch.judged_none_iff.mpr h.1) h.2
      refine ⟨fun i hi => ?_, ?_, ?_⟩
      · rw [hmask, hmarked.mask i hi]
        by_cases hin : i < pages.length
        · exact (hbits i hin).symm
        · rw [List.getD_eq_getElem?_getD,
            List.getElem?_eq_none (by rw [Batch.judge_length]; omega)]
          exact decide_eq_false (by omega)
      · rw [hr, hsent, hleading, Batch.judged_none_iff.mpr h.1, List.map_take, List.map_take,
          List.map_take]
      · rw [hr]
        exact hdesc h

theorem writeInternal_agrees_iff (hlength : lbaList.length ≤ 64) :
    ((s.writeInternal p lbaList).1.status = none ↔
      ∀ b ∈ (writeVerdict p s.pDescriptor lbaList).refused, b = false) ∧
    ((s.writeInternal p lbaList).1.status ≠ none →
      (Agrees OpenChannelSSD.palWrite s (writeVerdict p s.pDescriptor lbaList)
          (s.writeInternal p lbaList) ↔
        RefusedLast false (lbaList.map p.pageOf) (writeVerdict p s.pDescriptor lbaList))) := by
  obtain ⟨hmarked, hdesc⟩ := writePages_marked (p := p)
    (ChunkUpdate.start_marked s.pDescriptor) ((p.convertUnit false lbaList).map Prod.snd)
  rw [Nat.zero_add, Nat.zero_add, acceptWrites_leading, List.length_map] at hmarked
  rw [acceptWrites_leading] at hdesc
  rw [convertUnit_judged] at hmarked hdesc
  refine finish_agrees_iff (by rwa [List.length_map]) hmarked
    (List.foldlRecOn _ _ (iff_of_true rfl rfl) fun _ h e _ => writePage_statusTold h e) ?_ ?_
  · intro h
    rw [hdesc, Batch.judged_none_iff.mpr h.1]
    exact (Batch.leading_of_pairwise _ none _ (Batch.judged_none_iff.mpr h.1) h.2).2.1.symm
  · rw [← convertUnit_judged]
    rfl

theorem eraseInternal_agrees_iff (hlength : lbaList.length ≤ 64) :
    ((s.eraseInternal p lbaList).1.status = none ↔
      ∀ b ∈ (resetVerdict p s.pDescriptor lbaList).refused, b = false) ∧
    ((s.eraseInternal p lbaList).1.status ≠ none →
      (Agrees OpenChannelSSD.palErase s (resetVerdict p s.pDescriptor lbaList)
          (s.eraseInternal p lbaList) ↔
        RefusedLast true (lbaList.map p.pageOf) (resetVerdict p s.pDescriptor lbaList))) := by
  have hmarked := erasePages_marked (ChunkUpdate.start_marked s.pDescriptor)
    ((p.convertUnit true lbaList).map Prod.snd)
  have hdesc := erasePages_desc (.start s.pDescriptor) ((p.convertUnit true lbaList).map Prod.snd)
  rw [Nat.zero_add, Nat.zero_add, acceptResets_leading, List.length_map] at hmarked
  rw [convertUnit_judged] at hmarked hdesc
  refine finish_agrees_iff (by rwa [List.length_map]) hmarked
    (List.foldlRecOn _ _ (iff_of_true rfl rfl) fun _ h e _ => erasePage_statusTold h e) ?_ ?_
  · intro _
    rw [hdesc, Batch.judge_state, List.foldl_map]
    congr 1
    funext desc page
    exact resetDesc_eq page
  · rw [← convertUnit_judged]
    rfl

end Answer

/-! ### The data of a write -/

section Stored

theorem and_eq_zero_iff (x y : BitVec 64) :
    x &&& y = 0 ↔ ∀ i < 64, x.getLsbD i = true → y.getLsbD i = false := by
  constructor
  · intro h i _ hx
    have hbit := congrArg (fun z => BitVec.getLsbD z i) h
    simp only [BitVec.getLsbD_and, hx, Bool.true_and] at hbit
    rw [hbit]
    exact BitVec.getLsbD_zero
  · intro h
    refine BitVec.eq_of_getLsbD_eq fun i hi => ?_
    rw [BitVec.getLsbD_and, show (0 : BitVec 64).getLsbD i = false from BitVec.getLsbD_zero]
    cases hx : x.getLsbD i with
    | false => rfl
    | true => rw [h i hi hx, Bool.and_false]

theorem signBits_getLsbD (i : Nat) (hi : i < 64) :
    (0xFFFFFFFF80000000 : BitVec 64).getLsbD i = decide (31 ≤ i) := by
  revert i
  decide +kernel

variable {refused : List Bool} {r : ChunkResponse}

/-- The blocks whose bits are not set are those that are written to the disk, whatever an undefined
shift gives, as long as there are no more than 32. -/
theorem writtenToDisk_iff (herr : r.status ≠ none) (hlength : refused.length ≤ 64)
    (hbits : ∀ i < 64, r.mask.getLsbD i = refused.getD i false)
    (hsome : ∃ i < refused.length, refused.getD i false = true) :
    (∀ undef, ∀ i < refused.length, (i ∈ writtenToDisk undef r refused.length ↔
      refused.getD i false = false)) ↔ refused.length ≤ 32 := by
  have hmem : ∀ undef, ∀ i < refused.length, (i ∈ writtenToDisk undef r refused.length ↔
      shiftedBit undef i &&& r.mask = 0) := by
    intro undef i hi
    rw [writtenToDisk, if_neg herr, List.mem_filter, List.mem_range, decide_eq_true_iff]
    exact and_iff_right hi
  constructor
  · intro h
    by_contra hlong
    rw [Nat.not_le] at hlong
    cases hfate : refused.getD 32 false with
    | true =>
      -- the refused block is written if the undefined shift gives 0
      have hwritten := (hmem (fun _ => 0) 32 hlong).mpr (BitVec.zero_and)
      rw [h _ _ hlong, hfate] at hwritten
      cases hwritten
    | false =>
      -- the block is left out if the undefined shift gives all bits
      have hwritten := (hmem (fun _ => BitVec.allOnes 64) 32 hlong).mp ((h _ _ hlong).mpr hfate)
      obtain ⟨i, hi, hset⟩ := hsome
      have hclear := (and_eq_zero_iff _ _).mp hwritten i (by omega)
        (by rw [show shiftedBit _ 32 = BitVec.allOnes 64 from rfl, BitVec.getLsbD_allOnes]
            exact decide_eq_true (by omega))
      rw [hbits i (by omega), hset] at hclear
      cases hclear
  · intro hshort undef i hi
    rw [hmem undef i hi, and_eq_zero_iff, ← hbits i (by omega)]
    by_cases hlow : i < 31
    · rw [shiftedBit, if_pos hlow]
      constructor
      · intro h
        exact h i (by omega) (by rw [BitVec.getLsbD_twoPow]; simp; omega)
      · intro h j _ hj
        rw [BitVec.getLsbD_twoPow, Bool.and_eq_true, decide_eq_true_iff, decide_eq_true_iff] at hj
        rwa [← hj.2]
    · obtain rfl : i = 31 := by omega
      rw [show shiftedBit undef 31 = 0xFFFFFFFF80000000 from rfl]
      constructor
      · intro h
        exact h 31 (by omega) (by rw [signBits_getLsbD 31 (by omega)]; rfl)
      · intro h j hj hset
        rw [signBits_getLsbD j hj, decide_eq_true_iff] at hset
        rcases Nat.eq_or_lt_of_le hset with rfl | hgt
        · exact h
        · rw [hbits j hj, List.getD_eq_getElem?_getD, List.getElem?_eq_none (by omega)]
          rfl

theorem exists_refused (h : ¬ ∀ b ∈ refused, b = false) :
    ∃ i < refused.length, refused.getD i false = true := by
  by_contra hno
  refine h fun b hb => ?_
  obtain ⟨i, hi, rfl⟩ := List.mem_iff_getElem.mp hb
  by_contra hset
  refine hno ⟨i, hi, ?_⟩
  rw [List.getD_eq_getElem?_getD, List.getElem?_eq_getElem hi]
  simpa using hset

end Stored

section Places

variable {p : OCSSDParameter} {s : OpenChannelSSD} {lbaList : List Nat}

theorem writeVerdict_length (p : OCSSDParameter) (desc : Nat → ChunkDescriptor)
    (lbaList : List Nat) : (writeVerdict p desc lbaList).refused.length = lbaList.length := by
  rw [writeVerdict, Batch.judge_length, List.length_map]

/-- The places of the blocks that are not refused. -/
def keptPlaces (refused : List Bool) : List Nat :=
  (List.range refused.length).filter fun i => refused.getD i false = false

/-- Where no block is refused, or the answer to a short write is right, the blocks that are not
refused are those that are written to the disk. -/
theorem writtenToDisk_eq (hlength : lbaList.length ≤ 64)
    (h : (∀ b ∈ (writeVerdict p s.pDescriptor lbaList).refused, b = false) ∨
      RefusedLast false (lbaList.map p.pageOf) (writeVerdict p s.pDescriptor lbaList) ∧
        lbaList.length ≤ 32) (undef : Nat → BitVec 64) :
    writtenToDisk undef (s.writeInternal p lbaList).1 lbaList.length =
      keptPlaces (writeVerdict p s.pDescriptor lbaList).refused := by
  obtain ⟨hnone, hiff⟩ := writeInternal_agrees_iff (p := p) (s := s) hlength
  have hn := writeVerdict_length p s.pDescriptor lbaList
  rw [keptPlaces, hn]
  by_cases hstatus : (s.writeInternal p lbaList).1.status = none
  · have hall := hnone.mp hstatus
    rw [writtenToDisk, if_pos hstatus]
    refine List.filter_congr fun i hi => ?_
    rw [List.mem_range] at hi
    rw [decide_eq_decide, List.getD_eq_getElem?_getD, List.getElem?_eq_getElem (by omega)]
    exact iff_of_true BitVec.and_zero (hall _ (List.getElem_mem _))
  · obtain ⟨hlast, hshort⟩ := h.resolve_left fun hall => hstatus (hnone.mpr hall)
    have hagrees := (hiff hstatus).mpr hlast
    have hwritten := (writtenToDisk_iff hstatus (by omega) hagrees.bits
      (exists_refused fun hall => hstatus (hnone.mpr hall))).mpr (by omega) undef
    rw [hn] at hwritten
    rw [writtenToDisk, if_neg hstatus]
    refine List.filter_congr fun i hi => ?_
    have hi' := hwritten i (List.mem_range.mp hi)
    rw [writtenToDisk, if_neg hstatus, List.mem_filter, decide_eq_true_iff] at hi'
    rw [decide_eq_decide, ← hi']
    exact (and_iff_right hi).symm

end Places

/-! ### The commands -/

/-- If the write is answered with an error, the bits of the answer are those of the refused blocks,
and the others are written: their pages to the flash, their data to the disk. -/
def WriteReports (p : OCSSDParameter) (s : OpenChannelSSD) (lbaList : List Nat) : Prop :=
  (s.writeInternal p lbaList).1.status ≠ none →
    Agrees OpenChannelSSD.palWrite s (writeVerdict p s.pDescriptor lbaList)
      (s.writeInternal p lbaList) ∧
    ∀ undef, ∀ i < lbaList.length,
      (i ∈ writtenToDisk undef (s.writeInternal p lbaList).1 lbaList.length ↔
        (writeVerdict p s.pDescriptor lbaList).refused.getD i false = false)

/-- If the reset is answered with an error, the bits of the answer are those of the refused blocks,
and the chunks of the others are reset. -/
def ResetReports (p : OCSSDParameter) (s : OpenChannelSSD) (lbaList : List Nat) : Prop :=
  (s.eraseInternal p lbaList).1.status ≠ none →
    Agrees OpenChannelSSD.palErase s (resetVerdict p s.pDescriptor lbaList)
      (s.eraseInternal p lbaList)

/-- For every list of up to 64 logical blocks and every state of the chunks, the answer reports the
verdict exactly when no block is refused, or each block is on a page of its own, the refused ones
are the last ones, and for a write there are up to 32. -/
theorem reports_iff (p : OCSSDParameter) (s : OpenChannelSSD) (lbaList : List Nat)
    (hlength : lbaList.length ≤ 64) :
    (WriteReports p s lbaList ↔
      (∀ b ∈ (writeVerdict p s.pDescriptor lbaList).refused, b = false) ∨
        RefusedLast false (lbaList.map p.pageOf) (writeVerdict p s.pDescriptor lbaList) ∧
          lbaList.length ≤ 32) ∧
    (ResetReports p s lbaList ↔
      (∀ b ∈ (resetVerdict p s.pDescriptor lbaList).refused, b = false) ∨
        RefusedLast true (lbaList.map p.pageOf) (resetVerdict p s.pDescriptor lbaList)) := by
  constructor
  · obtain ⟨hnone, hiff⟩ := writeInternal_agrees_iff (p := p) (s := s) hlength
    rw [WriteReports, ← hnone]
    by_cases hstatus : (s.writeInternal p lbaList).1.status = none
    · exact iff_of_true (fun h => absurd hstatus h) (.inl hstatus)
    · rw [forall_prop_of_true hstatus, or_iff_right hstatus, ← hiff hstatus]
      refine and_congr_right fun hagrees => ?_
      have hn := writeVerdict_length p s.pDescriptor lbaList
      have hwritten := writtenToDisk_iff hstatus (by omega) hagrees.bits
        (exists_refused fun hall => hstatus (hnone.mpr hall))
      rwa [hn] at hwritten
  · obtain ⟨hnone, hiff⟩ := eraseInternal_agrees_iff (p := p) (s := s) hlength
    rw [ResetReports, ← hnone]
    by_cases hstatus : (s.eraseInternal p lbaList).1.status = none
    · exact iff_of_true (fun h => absurd hstatus h) (.inl hstatus)
    · rw [forall_prop_of_true hstatus, or_iff_right hstatus, hiff hstatus]

open OpenChannelSSD (exec init twoChunks)

/-- The first chunk of a device is full. A write of one more page of it reports the refused
block. -/
theorem reports_full_chunk : ∃ s,
    [.vectorChunkWrite [0], .vectorChunkWrite [1]].foldlM (exec twoChunks) init = .ok s ∧
    (s.writeInternal twoChunks [2, 0]).1.status = some 0xF2 ∧ WriteReports twoChunks s [2, 0] := by
  refine ⟨_, rfl, by decide +kernel, ?_⟩
  refine (reports_iff twoChunks _ [2, 0] (by decide)).1.mpr (.inr ⟨⟨?_, ?_⟩, by decide⟩)
  · decide +kernel
  · decide +kernel

/-- The first chunk is full, the second one free. A write of a block of each, in this order, refuses
both, though only the first block is to be refused. A reset in the other order marks both as
refused, makes the full chunk free all the same, and erases nothing. -/
theorem not_reports_after_error : ∃ s,
    [.vectorChunkWrite [0], .vectorChunkWrite [1]].foldlM (exec twoChunks) init = .ok s ∧
    ¬ WriteReports twoChunks s [0, 2] ∧ ¬ ResetReports twoChunks s [2, 0] ∧
    (writeVerdict twoChunks s.pDescriptor [0, 2]).refused = [true, false] ∧
    (s.writeInternal twoChunks [0, 2]).1.mask = 3 ∧
    (resetVerdict twoChunks s.pDescriptor [2, 0]).refused = [true, false] ∧
    (s.eraseInternal twoChunks [2, 0]).1.mask = 3 ∧
    (s.eraseInternal twoChunks [2, 0]).2.pDescriptor 0 = ⟨.free, 0⟩ ∧
    (s.eraseInternal twoChunks [2, 0]).2.flash.length = s.flash.length := by
  refine ⟨_, rfl, fun h => ?_, fun h => ?_, by decide +kernel, by decide +kernel, by decide +kernel,
    by decide +kernel, by decide +kernel, by decide +kernel⟩
  · have hbit := (h (by decide +kernel)).1.bits 1 (by decide)
    exact absurd hbit (by decide +kernel)
  · have hbit := (h (by decide +kernel)).bits 1 (by decide)
    exact absurd hbit (by decide +kernel)

end SimpleSSD.HIL.NVMe
