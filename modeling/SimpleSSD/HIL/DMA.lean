import Mathlib.Algebra.BigOperators.Group.List.Basic
import SimpleSSD.HIL.PRPList

/-!
# DMA transfers (hil/nvme/dma.cc:204–586)

A command points to host memory by PRPs or by scatter gather lists. Both come to a list
of chunks, over which `read` and `write` run the same loop: it cuts the transfer into
requests to the host.

The loop tests for the end of the transfer behind each chunk but the first one
(dma.cc:217–241). A transfer that ends in the first chunk makes a request of no bytes of
the next.
-/

namespace SimpleSSD.HIL

/-- `Chunk` (hil/nvme/dma.hh). The data of an ignored one is left out. -/
structure Chunk where
  addr : Nat
  length : Nat
  ignore : Bool
  deriving DecidableEq, Repr

namespace Chunk

/-- An entry of a PRP list. -/
def ofPRP (prp : PRP) : Chunk := ⟨prp.addr, prp.size, false⟩

/-- The loop of `PRPList::read` and `write` and of `SGL::read` and `write`. -/
def pieces (offset length : Nat) : List Chunk → Nat → Nat → Bool → List Chunk
  | [], _, _, _ => []
  | iter :: chunkList, currentOffset, totalRead, begin =>
    if begin then
      let read := min iter.length (length - totalRead)
      ⟨iter.addr, read, iter.ignore⟩ ::
        if totalRead + read = length then []
        else pieces offset length chunkList (currentOffset + iter.length) (totalRead + read) true
    else if offset < currentOffset + iter.length then
      let skipped := offset - currentOffset
      let read := min (iter.length - skipped) length
      ⟨iter.addr + skipped, read, iter.ignore⟩ ::
        pieces offset length chunkList (currentOffset + iter.length) read true
    else pieces offset length chunkList (currentOffset + iter.length) totalRead false

/-- The requests for a transfer from the beginning of the chunks. -/
def requests (length : Nat) (chunkList : List Chunk) : List Nat :=
  ((pieces 0 length chunkList 0 0 false).filter fun piece => !piece.ignore).map Chunk.length

end Chunk

/-! ### Scatter gather lists -/

/-- `SGLDescriptor`. -/
structure SGLDescriptor where
  address : BitVec 64
  length : BitVec 32
  id : BitVec 8
  deriving DecidableEq, Repr

/-- The descriptor types (def.hh:69–75). -/
inductive SGLType where
  | dataBlock | bitBucket | segment | lastSegment | keyedDataBlock | other
  deriving DecidableEq, Repr

/-- `SGL_TYPE`. -/
def SGLDescriptor.type (desc : SGLDescriptor) : SGLType :=
  match (desc.id >>> 4).toNat with
  | 0 => .dataBlock
  | 1 => .bitBucket
  | 2 => .segment
  | 3 => .lastSegment
  | 4 => .keyedDataBlock
  | _ => .other

namespace SGL

/-- `parseSGLDescriptor` (dma.cc:335–356). -/
def parseSGLDescriptor (chunkList : List Chunk) (desc : SGLDescriptor) :
    Except Fault (List Chunk) := do
  let chunkList ← match desc.type with
    | .dataBlock | .keyedDataBlock =>
      .ok (chunkList ++ [⟨desc.address.toNat, desc.length.toNat, false⟩])
    | .bitBucket => .ok (chunkList ++ [⟨desc.address.toNat, desc.length.toNat, true⟩])
    | _ => .error (.panic "parseSGLDescriptor" "Invalid SGL descriptor")
  if desc.id &&& 0x0F ≠ 0 then
    .error (.panic "parseSGLDescriptor" "Unexpected SGL subtype")
  else .ok chunkList

/-- The loop over the descriptors of a segment (dma.cc:366–387): the chunks, and the last
descriptor when it points to the next segment. -/
def readDescriptors : List SGLDescriptor → List Chunk →
    Except Fault (List Chunk × Option SGLDescriptor)
  | [], chunkList => .ok (chunkList, none)
  | desc :: descs, chunkList =>
    match desc.type with
    | .dataBlock | .keyedDataBlock | .bitBucket => do
      let chunkList ← parseSGLDescriptor chunkList desc
      readDescriptors descs chunkList
    | .segment | .lastSegment =>
      if descs = [] then .ok (chunkList, some desc)
      else .error (.panic "parseSGLSegment" "Invalid SGL segment")
    | .other => readDescriptors descs chunkList

/-- `parseSGLSegment` (dma.cc:358–422). The host does not answer the read of an empty
segment, so the list is never complete. -/
def parseSGLSegment (descriptor : Nat → SGLDescriptor) :
    Nat → Nat → Nat → List Chunk → Except Fault (Option (List Chunk))
  | 0, _, _, _ => .error (.diverges "parseSGLSegment")
  | fuel + 1, address, length, chunkList =>
    if length = 0 then .ok none
    else if length % 16 ≠ 0 then .error (.badAccess "pContext->buffer")
    else do
      let (chunkList, next) ← readDescriptors
        ((List.range (length / 16)).map fun i => descriptor (address + 16 * i)) chunkList
      match next with
      | none => .ok (some chunkList)
      | some desc =>
        parseSGLSegment descriptor fuel desc.address.toNat desc.length.toNat chunkList

/-- `SGL::SGL` (dma.cc:310–331): the chunks, when the data of the command can be found. A
chain of segments that is longer than there are addresses and lengths does not end. -/
def new (descriptor : Nat → SGLDescriptor) (prp1 prp2 : BitVec 64) :
    Except Fault (Option (List Chunk)) :=
  let desc : SGLDescriptor := ⟨prp1, prp2.setWidth 32, (prp2 >>> 56).setWidth 8⟩
  match desc.type with
  | .dataBlock | .keyedDataBlock => (parseSGLDescriptor [] desc).map some
  | .segment | .lastSegment =>
    parseSGLSegment descriptor (2 ^ 96 + 1) desc.address.toNat desc.length.toNat []
  | _ => .ok none

end SGL

/-! ### When the requests make up the transfer -/

namespace Chunk

/-- The next `n` bytes are in chunks that hold data. -/
def Covers : Nat → List Chunk → Prop
  | _, [] => False
  | n, iter :: chunkList =>
    if iter.ignore then iter.length = 0 ∧ Covers n chunkList
    else 0 < iter.length ∧ (n ≤ iter.length ∨ Covers (n - iter.length) chunkList)

/-- The chunks hold a transfer of `n` bytes. No chunk is left when the first one that is not
empty holds all of it, or the next is ignored. -/
def Holds (n : Nat) : List Chunk → Prop
  | [] => False
  | iter :: chunkList =>
    if iter.length = 0 then Holds n chunkList
    else iter.ignore = false ∧
      if n ≤ iter.length then ∀ next ∈ chunkList.head?, next.ignore = true
      else Covers (n - iter.length) chunkList

section Requests

variable {length totalRead currentOffset : Nat} {chunkList : List Chunk}

/-- The requests behind the first chunk. -/
def further (length : Nat) (chunkList : List Chunk) (currentOffset totalRead : Nat) : List Nat :=
  ((pieces 0 length chunkList currentOffset totalRead true).filter
    fun piece => !piece.ignore).map Chunk.length

theorem further_cons (iter : Chunk) : further length (iter :: chunkList) currentOffset totalRead =
    (if iter.ignore then [] else [min iter.length (length - totalRead)]) ++
      if totalRead + min iter.length (length - totalRead) = length then []
      else further length chunkList (currentOffset + iter.length)
        (totalRead + min iter.length (length - totalRead)) := by
  unfold further
  rw [pieces, if_pos rfl]
  dsimp only
  cases iter.ignore <;>
    by_cases hend : totalRead + min iter.length (length - totalRead) = length <;> simp [hend]

/-- No more than the rest is asked for. -/
theorem sum_further_le (chunkList : List Chunk) (currentOffset : Nat) (h : totalRead ≤ length) :
    (further length chunkList currentOffset totalRead).sum ≤ length - totalRead := by
  induction chunkList generalizing currentOffset totalRead with
  | nil => exact Nat.zero_le _
  | cons iter chunkList ih =>
    have hrest := @ih (totalRead + min iter.length (length - totalRead))
      (currentOffset + iter.length) (by omega)
    rw [further_cons, List.sum_append]
    by_cases hend : totalRead + min iter.length (length - totalRead) = length
    · rw [if_pos hend]
      cases iter.ignore <;> simp
    · rw [if_neg hend]
      cases iter.ignore <;> simp <;> omega

/-- As much of the rest is asked for as the chunks can take. -/
theorem sum_further (chunkList : List Chunk) (hdata : ∀ c ∈ chunkList, c.ignore = false)
    (currentOffset : Nat) (h : totalRead ≤ length) :
    (further length chunkList currentOffset totalRead).sum =
      min (length - totalRead) (chunkList.map Chunk.length).sum := by
  induction chunkList generalizing currentOffset totalRead with
  | nil => exact (Nat.min_zero _).symm
  | cons iter chunkList ih =>
    have hrest := @ih (totalRead + min iter.length (length - totalRead))
      (fun c hc => hdata c (List.mem_cons_of_mem iter hc)) (currentOffset + iter.length) (by omega)
    rw [further_cons, hdata iter List.mem_cons_self, List.sum_append, List.map_cons, List.sum_cons]
    by_cases hend : totalRead + min iter.length (length - totalRead) = length
    · rw [if_pos hend]
      simp
      omega
    · rw [if_neg hend, hrest]
      simp
      omega

/-- As much is asked for as the chunks can take, when none of them is ignored. -/
theorem sum_requests (hdata : ∀ c ∈ chunkList, c.ignore = false) :
    (requests length chunkList).sum = min length (chunkList.map Chunk.length).sum := by
  induction chunkList with
  | nil => exact (Nat.min_zero _).symm
  | cons iter chunkList ih =>
    have hrest := fun c hc => hdata c (List.mem_cons_of_mem iter hc)
    rw [List.map_cons, List.sum_cons]
    rcases Nat.eq_zero_or_pos iter.length with hzero | hpos
    · rw [hzero, Nat.zero_add, ← ih hrest, requests, pieces, if_neg Bool.false_ne_true,
        if_neg (by omega), hzero]
      rfl
    · have hfirst : requests length (iter :: chunkList) = min iter.length length ::
          further length chunkList iter.length (min iter.length length) := by
        rw [requests, pieces, if_neg Bool.false_ne_true, if_pos (by omega)]
        unfold further
        simp [hdata iter List.mem_cons_self]
      rw [hfirst, List.sum_cons, sum_further chunkList hrest _ (by omega)]
      omega

/-- The rest is asked for, in requests that are not empty, when it is covered. -/
theorem further_iff (chunkList : List Chunk) (currentOffset : Nat) (h : totalRead < length) :
    ((∀ n ∈ further length chunkList currentOffset totalRead, 0 < n) ∧
        (further length chunkList currentOffset totalRead).sum = length - totalRead) ↔
      Covers (length - totalRead) chunkList := by
  induction chunkList generalizing currentOffset totalRead with
  | nil =>
    constructor
    · rintro ⟨-, hsum⟩
      have : 0 = length - totalRead := hsum
      omega
    · exact False.elim
  | cons iter chunkList ih =>
    rw [further_cons, Covers]
    cases hignore : iter.ignore with
    | true =>
      simp only [if_true, List.nil_append]
      rcases Nat.eq_zero_or_pos iter.length with hzero | hpos
      · -- nothing is read, and nothing is left out
        rw [hzero, Nat.zero_min, Nat.add_zero, if_neg (Nat.ne_of_lt h), ih (currentOffset + 0) h]
        exact ⟨fun hcovers => ⟨rfl, hcovers⟩, fun hcovers => hcovers.2⟩
      · refine iff_of_false (fun hsum => ?_) fun hcovers => by omega
        have hsum := hsum.2
        split at hsum
        · have : 0 = length - totalRead := hsum
          omega
        · have := sum_further_le chunkList (currentOffset + iter.length)
            (show totalRead + min iter.length (length - totalRead) ≤ length by omega)
          omega
    | false =>
      simp only [Bool.false_eq_true, if_false, List.singleton_append, List.forall_mem_cons,
        List.sum_cons]
      split
      · next hend =>
        simp only [List.not_mem_nil, false_implies, implies_true, and_true, List.sum_nil]
        exact ⟨fun hsum => ⟨by omega, .inl (by omega)⟩, fun hcovers => by omega⟩
      · next hmore =>
        have hread : min iter.length (length - totalRead) = iter.length := by omega
        rw [hread] at hmore ⊢
        have hih := @ih (totalRead + iter.length) (currentOffset + iter.length) (by omega)
        rw [show length - totalRead - iter.length = length - (totalRead + iter.length) by omega,
          ← hih]
        constructor
        · rintro ⟨⟨hpos, hall⟩, hsum⟩
          exact ⟨hpos, .inr ⟨hall, by omega⟩⟩
        · rintro ⟨hpos, hle | ⟨hall, hsum⟩⟩
          · omega
          · exact ⟨⟨hpos, hall⟩, by omega⟩

/-- When the first chunk holds the transfer, the next one is asked for nothing. -/
theorem further_end (length currentOffset : Nat) (chunkList : List Chunk) :
    (∀ n ∈ further length chunkList currentOffset length, 0 < n) ↔
      ∀ next ∈ chunkList.head?, next.ignore = true := by
  cases chunkList with
  | nil => exact iff_of_true (fun n hn => (List.not_mem_nil hn).elim) fun n hn => by cases hn
  | cons iter chunkList =>
    rw [further_cons, Nat.sub_self, Nat.min_zero, if_pos (Nat.add_zero length)]
    cases hignore : iter.ignore <;> simp [hignore]

/-- The requests are the transfer, and none of them is empty, exactly when the chunks hold
it. -/
theorem requests_iff (hpos : 0 < length) :
    ((∀ n ∈ requests length chunkList, 0 < n) ∧ (requests length chunkList).sum = length) ↔
      Holds length chunkList := by
  induction chunkList with
  | nil =>
    refine iff_of_false (fun h => ?_) id
    have : 0 = length := h.2
    omega
  | cons iter chunkList ih =>
    rw [Holds]
    split
    · next hzero =>
      rw [← ih, requests, pieces, if_neg Bool.false_ne_true, if_neg (by omega), hzero]
      rfl
    · next hne =>
      have hfirst : requests length (iter :: chunkList) =
          (if iter.ignore then [] else [min iter.length length]) ++
            further length chunkList iter.length (min iter.length length) := by
        rw [requests, pieces, if_neg Bool.false_ne_true, if_pos (by omega)]
        unfold further
        cases iter.ignore <;> simp
      rw [hfirst]
      have hle := sum_further_le chunkList iter.length
        (show min iter.length length ≤ length by omega)
      cases hignore : iter.ignore with
      | true =>
        refine iff_of_false (fun h => ?_) fun h => by cases h.1
        have hsum : (further length chunkList iter.length (min iter.length length)).sum = length :=
          h.2
        omega
      | false =>
        simp only [Bool.false_eq_true, if_false, List.singleton_append, List.forall_mem_cons,
          List.sum_cons, true_and]
        split
        · next hall =>
          rw [Nat.min_eq_right hall, Nat.sub_self] at *
          rw [← further_end length iter.length]
          exact ⟨fun h => h.1.2, fun h => ⟨⟨hpos, h⟩, by omega⟩⟩
        · next hmore =>
          rw [Nat.min_eq_left (by omega)] at *
          rw [← further_iff chunkList iter.length (by omega)]
          constructor
          · rintro ⟨⟨-, hall⟩, hsum⟩
            exact ⟨hall, by omega⟩
          · rintro ⟨hall, hsum⟩
            exact ⟨⟨by omega, hall⟩, by omega⟩

end Requests

end Chunk

end SimpleSSD.HIL
