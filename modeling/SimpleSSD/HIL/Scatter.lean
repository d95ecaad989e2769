import SimpleSSD.HIL.DMA
import SimpleSSD.Lib.Run

/-!
# Scattered transfers (hil/nvme/dma.cc:43–52, 204–300, 424–537)

`read` and `write` of a PRP list and of a scatter gather list cut a transfer into
requests to the host, one for each chunk that it touches, and count them. The
handler of the requests calls back when the count is down to zero.

The bytes of the requests are always those of the transfer, in order and next to
their places in the buffer (`bytes_requests`). But a request of no bytes is counted
and never answered, so the transfer ends only if there is none
(`scatter_exact_iff`).
-/

namespace SimpleSSD.HIL

/-- A call of `dmaRead`, or of `dmaWrite`, with the position in the buffer. -/
structure DMARequest where
  write : Bool
  addr : Nat
  size : Nat
  buffer : Nat
  deriving DecidableEq, Repr

namespace Chunk

/-- The loop of `read` and `write`, with the requests that it makes. -/
def loop (write : Bool) (offset length : Nat) : List Chunk → Nat → Nat → Bool → List DMARequest
  | [], _, _, _ => []
  | iter :: chunkList, currentOffset, totalRead, begin =>
    if begin then
      let read := min iter.length (length - totalRead)
      (if iter.ignore then [] else [⟨write, iter.addr, read, totalRead⟩]) ++
        if totalRead + read = length then []
        else loop write offset length chunkList (currentOffset + iter.length)
          (totalRead + read) true
    else if offset < currentOffset + iter.length then
      let skipped := offset - currentOffset
      let read := min (iter.length - skipped) length
      (if iter.ignore then [] else [⟨write, iter.addr + skipped, read, 0⟩]) ++
        loop write offset length chunkList (currentOffset + iter.length) read true
    else loop write offset length chunkList (currentOffset + iter.length) totalRead false

variable {write : Bool} {offset length : Nat} {chunkList : List Chunk}

/-- The requests are the pieces that are not ignored. -/
theorem loop_eq_pieces (chunkList : List Chunk) (currentOffset totalRead : Nat) (begin : Bool) :
    (loop write offset length chunkList currentOffset totalRead begin).map
        (fun r => (r.addr, r.size)) =
      ((pieces offset length chunkList currentOffset totalRead begin).filter
        fun piece => !piece.ignore).map fun piece => (piece.addr, piece.length) := by
  induction chunkList generalizing currentOffset totalRead begin with
  | nil => rfl
  | cons iter chunkList ih =>
    rw [loop, pieces]
    cases begin with
    | true =>
      dsimp only
      rw [if_pos rfl, if_pos rfl, List.map_append]
      by_cases hend : totalRead + min iter.length (length - totalRead) = length
      · rw [if_pos hend, if_pos hend]
        cases iter.ignore <;> rfl
      · rw [if_neg hend, if_neg hend, ih]
        cases iter.ignore <;> rfl
    | false =>
      dsimp only
      rw [if_neg Bool.false_ne_true, if_neg Bool.false_ne_true]
      by_cases hbegin : offset < currentOffset + iter.length
      · rw [if_pos hbegin, if_pos hbegin, List.map_append, ih]
        cases iter.ignore <;> rfl
      · rw [if_neg hbegin, if_neg hbegin]
        exact ih _ _ _

end Chunk

/-! ### The four copies -/

/-- `PRPList::read`. -/
def PRPList.read (offset length : Nat) (prpList : List PRP) : List DMARequest :=
  Chunk.loop false offset length (prpList.map Chunk.ofPRP) 0 0 false

/-- `PRPList::write`. -/
def PRPList.write (offset length : Nat) (prpList : List PRP) : List DMARequest :=
  Chunk.loop true offset length (prpList.map Chunk.ofPRP) 0 0 false

/-- `SGL::read`. -/
def SGL.read (offset length : Nat) (chunkList : List Chunk) : List DMARequest :=
  Chunk.loop false offset length chunkList 0 0 false

/-- `SGL::write`. -/
def SGL.write (offset length : Nat) (chunkList : List Chunk) : List DMARequest :=
  Chunk.loop true offset length chunkList 0 0 false

/-! ### The bytes of a transfer -/

/-- The addresses of the bytes of a chunk. A byte of an ignored one has none. -/
def Chunk.places (c : Chunk) : List (Option Nat) :=
  if c.ignore then List.replicate c.length none else (List.range' c.addr c.length).map some

/-- The bytes of the chunks, one chunk after the other. -/
def places (chunkList : List Chunk) : List (Option Nat) := chunkList.flatMap Chunk.places

/-- Bytes next to each other in the buffer, with their addresses. -/
def paired (k : Nat) (l : List (Option Nat)) : List (Nat × Nat) :=
  (l.zipIdx k).filterMap fun p => p.1.map fun addr => (p.2, addr)

/-- The bytes of a request: their positions in the buffer and their addresses. -/
def DMARequest.bytes (r : DMARequest) : List (Nat × Nat) :=
  (List.range r.size).map fun i => (r.buffer + i, r.addr + i)

theorem paired_append (k : Nat) (l l' : List (Option Nat)) :
    paired k (l ++ l') = paired k l ++ paired (k + l.length) l' := by
  rw [paired, List.zipIdx_append, List.filterMap_append, paired, paired, Nat.add_comm]

theorem paired_ignored (k n : Nat) : paired k (List.replicate n none) = [] := by
  induction n generalizing k with
  | zero => rfl
  | succ n ih => exact ih (k + 1)

theorem paired_data (write : Bool) (k addr n : Nat) :
    paired k ((List.range' addr n).map some) = DMARequest.bytes ⟨write, addr, n, k⟩ := by
  induction n generalizing k addr with
  | zero => rfl
  | succ n ih =>
    have hrest := ih (k + 1) (addr + 1)
    rw [DMARequest.bytes] at hrest ⊢
    rw [List.range'_succ, List.map_cons, List.range_succ_eq_map, List.map_cons, List.map_map]
    show (k, addr) :: paired (k + 1) ((List.range' (addr + 1) n).map some) = _
    rw [hrest]
    refine congrArg₂ List.cons rfl (List.map_congr_left fun i _ => ?_)
    show (k + 1 + i, addr + 1 + i) = (k + (i + 1), addr + (i + 1))
    rw [Nat.add_right_comm, Nat.add_right_comm addr]
    rfl

@[simp] theorem Chunk.length_places (c : Chunk) : c.places.length = c.length := by
  unfold Chunk.places
  cases c.ignore <;> simp

theorem places_cons (c : Chunk) (chunkList : List Chunk) :
    places (c :: chunkList) = c.places ++ places chunkList := rfl

/-- The bytes of a part of a chunk, as one request or none. -/
theorem paired_part (write : Bool) (c : Chunk) (k skip n : Nat) (h : skip + n ≤ c.length) :
    paired k ((c.places.drop skip).take n) =
      (if c.ignore then [] else [(⟨write, c.addr + skip, n, k⟩ : DMARequest)]).flatMap
        DMARequest.bytes := by
  unfold Chunk.places
  cases c.ignore with
  | true =>
    rw [if_pos rfl, if_pos rfl, List.drop_replicate, List.take_replicate]
    exact paired_ignored k _
  | false =>
    rw [if_neg Bool.false_ne_true, if_neg Bool.false_ne_true, ← List.map_drop, ← List.map_take,
      List.drop_range', List.take_range'_of_length_ge (by omega), paired_data write]
    simp

theorem length_places (chunkList : List Chunk) :
    (places chunkList).length = (chunkList.map Chunk.length).sum := by
  induction chunkList with
  | nil => rfl
  | cons c chunkList ih =>
    rw [places_cons, List.length_append, c.length_places, ih]
    rfl

/-- The first `n` bytes of two parts. -/
theorem take_append_min {α : Type*} (l l' : List α) (n : Nat) :
    (l ++ l').take n = l.take (min l.length n) ++ l'.take (n - l.length) := by
  rw [List.take_append]
  refine congrArg (· ++ _) ?_
  rcases Nat.le_total l.length n with hle | hle
  · rw [Nat.min_eq_left hle, List.take_of_length_le hle, List.take_length]
  · rw [Nat.min_eq_right hle]

section Bytes

variable {write : Bool} {offset length : Nat}

/-- Behind the first chunk, the requests go on where the buffer is filled up to. -/
theorem bytes_further (chunkList : List Chunk) (currentOffset : Nat) {totalRead : Nat}
    (h : totalRead ≤ length) :
    (Chunk.loop write offset length chunkList currentOffset totalRead true).flatMap
        DMARequest.bytes =
      paired totalRead ((places chunkList).take (length - totalRead)) := by
  induction chunkList generalizing currentOffset totalRead with
  | nil => rw [places, List.flatMap_nil, List.take_nil]; rfl
  | cons iter chunkList ih =>
    have hpart := paired_part write iter totalRead 0 (min iter.length (length - totalRead))
      (by omega)
    rw [List.drop_zero, Nat.add_zero] at hpart
    rw [Chunk.loop, if_pos rfl, List.flatMap_append, places_cons, take_append_min,
      iter.length_places, paired_append, hpart, List.length_take, iter.length_places]
    refine congrArg _ ?_
    split
    · next hend =>
      rw [show length - totalRead - iter.length = 0 by omega, List.take_zero]
      rfl
    · next hmore =>
      rw [ih _ (by omega), show min (min iter.length (length - totalRead)) iter.length =
        min iter.length (length - totalRead) by omega]
      refine congrArg (fun n => paired _ ((places chunkList).take n)) ?_
      omega

/-- The bytes of the requests are those of the transfer, next to their places in the buffer. -/
theorem bytes_loop (chunkList : List Chunk) {currentOffset : Nat} (h : currentOffset ≤ offset) :
    (Chunk.loop write offset length chunkList currentOffset 0 false).flatMap DMARequest.bytes =
      paired 0 (((places chunkList).drop (offset - currentOffset)).take length) := by
  induction chunkList generalizing currentOffset with
  | nil => rw [places, List.flatMap_nil, List.drop_nil, List.take_nil]; rfl
  | cons iter chunkList ih =>
    rw [Chunk.loop, if_neg Bool.false_ne_true]
    split
    · next hbegin =>
      -- the part of this chunk comes first, and the other chunks fill the rest
      have hpart := paired_part write iter 0 (offset - currentOffset)
        (min (iter.length - (offset - currentOffset)) length) (by omega)
      have hlength : (iter.places.drop (offset - currentOffset)).length =
          iter.length - (offset - currentOffset) := by
        rw [List.length_drop, iter.length_places]
      rw [List.flatMap_append, ← hpart, places_cons, List.drop_append, iter.length_places,
        show offset - currentOffset - iter.length = 0 by omega, List.drop_zero, take_append_min,
        hlength, bytes_further _ _ (Nat.min_le_right _ _), paired_append, List.length_take, hlength,
        show 0 + min (min (iter.length - (offset - currentOffset)) length)
          (iter.length - (offset - currentOffset)) =
            min (iter.length - (offset - currentOffset)) length by omega]
      refine congrArg (fun n => _ ++ paired _ ((places chunkList).take n)) ?_
      omega
    · next hskip =>
      have hbefore : iter.places.drop (offset - currentOffset) = [] := by
        refine List.drop_of_length_le ?_
        rw [iter.length_places]
        omega
      rw [ih (by omega), places_cons, List.drop_append, iter.length_places, hbefore,
        List.nil_append, Nat.sub_sub]

end Bytes

/-! ### Empty requests -/

/-- No chunk of data that begins within the next `n` bytes is empty. -/
def Filled : Nat → List Chunk → Prop
  | _, [] => True
  | n, iter :: chunkList =>
    n = 0 ∨ (iter.ignore = true ∨ 0 < iter.length) ∧ Filled (n - iter.length) chunkList

/-- Where the chunk of the first byte has the last one as well, no chunk of data follows it;
elsewhere no chunk of data up to the last byte is empty. -/
def NoneEmpty (length : Nat) : Nat → List Chunk → Prop
  | _, [] => True
  | offset, iter :: chunkList =>
    if offset < iter.length then
      if offset + length ≤ iter.length then ∀ next ∈ chunkList.head?, next.ignore = true
      else Filled (offset + length - iter.length) chunkList
    else NoneEmpty length (offset - iter.length) chunkList

instance decidableFilled : ∀ n chunkList, Decidable (Filled n chunkList)
  | _, [] => .isTrue trivial
  | n, iter :: chunkList =>
    have := decidableFilled (n - iter.length) chunkList
    decidable_of_iff (n = 0 ∨ (iter.ignore = true ∨ 0 < iter.length) ∧
      Filled (n - iter.length) chunkList) Iff.rfl

instance decidableNoneEmpty (length : Nat) :
    ∀ offset chunkList, Decidable (NoneEmpty length offset chunkList)
  | _, [] => .isTrue trivial
  | offset, iter :: chunkList =>
    have := decidableNoneEmpty length (offset - iter.length) chunkList
    decidable_of_iff (if offset < iter.length then
      if offset + length ≤ iter.length then ∀ next ∈ chunkList.head?, next.ignore = true
      else Filled (offset + length - iter.length) chunkList
    else NoneEmpty length (offset - iter.length) chunkList) Iff.rfl

section NoneEmpty

variable {write : Bool} {offset length : Nat}

theorem further_filled_iff (chunkList : List Chunk) (currentOffset : Nat) {totalRead : Nat}
    (h : totalRead < length) :
    (∀ r ∈ Chunk.loop write offset length chunkList currentOffset totalRead true, 0 < r.size) ↔
      Filled (length - totalRead) chunkList := by
  induction chunkList generalizing currentOffset totalRead with
  | nil => exact iff_of_true (fun r hr => absurd hr List.not_mem_nil) trivial
  | cons iter chunkList ih =>
    rw [Chunk.loop, if_pos rfl, List.forall_mem_append, Filled]
    have hfirst : (∀ r ∈ (if iter.ignore then [] else
        [(⟨write, iter.addr, min iter.length (length - totalRead), totalRead⟩ : DMARequest)]),
          0 < r.size) ↔ iter.ignore = true ∨ 0 < iter.length := by
      cases iter.ignore <;> simp
      omega
    rw [hfirst]
    split
    · next hend =>
      rw [show length - totalRead - iter.length = 0 by omega]
      constructor
      · rintro ⟨hiter, -⟩
        refine .inr ⟨hiter, ?_⟩
        cases chunkList with
        | nil => trivial
        | cons next rest => exact .inl rfl
      · rintro (hzero | ⟨hiter, -⟩)
        · omega
        · exact ⟨hiter, fun r hr => absurd hr List.not_mem_nil⟩
    · next hmore =>
      have hread : min iter.length (length - totalRead) = iter.length := by omega
      rw [hread, ih _ (by omega), Nat.sub_sub]
      exact ⟨.inr, fun h => h.resolve_left (by omega)⟩

theorem further_last_iff (chunkList : List Chunk) (currentOffset : Nat) :
    (∀ r ∈ Chunk.loop write offset length chunkList currentOffset length true, 0 < r.size) ↔
      ∀ next ∈ chunkList.head?, next.ignore = true := by
  cases chunkList with
  | nil => exact iff_of_true (fun r hr => absurd hr List.not_mem_nil) fun n hn => by cases hn
  | cons iter chunkList =>
    rw [Chunk.loop, if_pos rfl, Nat.sub_self, Nat.min_zero]
    dsimp only
    rw [if_pos (Nat.add_zero length), List.append_nil]
    cases hignore : iter.ignore <;> simp [hignore]

/-- No request is empty exactly when no chunk is that the loop gets to. -/
theorem noneEmpty_iff (hpos : 0 < length) (chunkList : List Chunk) {currentOffset : Nat}
    (h : currentOffset ≤ offset) :
    (∀ r ∈ Chunk.loop write offset length chunkList currentOffset 0 false, 0 < r.size) ↔
      NoneEmpty length (offset - currentOffset) chunkList := by
  induction chunkList generalizing currentOffset with
  | nil => exact iff_of_true (fun r hr => absurd hr List.not_mem_nil) trivial
  | cons iter chunkList ih =>
    rw [Chunk.loop, if_neg Bool.false_ne_true, NoneEmpty]
    by_cases hbegin : offset < currentOffset + iter.length
    · -- the transfer begins in this chunk, and may end there
      rw [if_pos hbegin, if_pos (by omega), List.forall_mem_append]
      have hfirst : ∀ r ∈ (if iter.ignore then [] else
          [(⟨write, iter.addr + (offset - currentOffset),
            min (iter.length - (offset - currentOffset)) length, 0⟩ : DMARequest)]),
            0 < r.size := by
        intro r hr
        cases hignore : iter.ignore with
        | true =>
          rw [hignore, if_pos rfl] at hr
          cases hr
        | false =>
          rw [hignore, if_neg Bool.false_ne_true] at hr
          obtain rfl := List.mem_singleton.mp hr
          dsimp only
          omega
      by_cases hall : offset - currentOffset + length ≤ iter.length
      · rw [if_pos hall]
        rw [Nat.min_eq_right (show length ≤ iter.length - (offset - currentOffset) by omega)]
          at hfirst ⊢
        rw [further_last_iff]
        exact and_iff_right hfirst
      · rw [if_neg hall]
        rw [Nat.min_eq_left (show iter.length - (offset - currentOffset) ≤ length by omega)]
          at hfirst ⊢
        rw [further_filled_iff _ _ (by omega),
          show length - (iter.length - (offset - currentOffset)) =
          offset - currentOffset + length - iter.length by omega]
        exact and_iff_right hfirst
    · rw [if_neg hbegin, if_neg (by omega), ih (by omega), Nat.sub_sub]

end NoneEmpty

/-! ### The callback -/

/-- `DMAContext` of a transfer: the requests that the host will answer, and the calls of
`function` so far. With the call the context is deleted. -/
structure DMAContext where
  pending : List DMARequest
  counter : Int
  calls : Nat

/-- `commonDMAHandler`. -/
def commonDMAHandler (c : DMAContext) : DMAContext :=
  let c := { c with counter := c.counter - 1 }
  if c.counter = 0 then { c with calls := c.calls + 1 } else c

/-- The context once the requests are made. The host drops those of no bytes
(sil/nvme/nvme.cc:439–443 and 495–499). -/
def DMAContext.new (requests : List DMARequest) : DMAContext :=
  let c : DMAContext := ⟨requests.filter fun r => 0 < r.size, requests.length, 0⟩
  if c.counter = 0 then commonDMAHandler { c with counter := 1 } else c

/-- The host answers one of the requests. -/
def DMAContext.answer (c : DMAContext) (k : Nat) : Except Fault DMAContext :=
  match c.pending[k]? with
  | none => .error (.badAccess "DMAEntry")
  | some _ => .ok (commonDMAHandler { c with pending := c.pending.eraseIdx k })

/-- In whatever order the host answers, the transfer is called back once, behind the last
answer. -/
def CallsBack (requests : List DMARequest) : Prop :=
  ∀ (order : List Nat) (c : DMAContext),
    order.foldlM DMAContext.answer (.new requests) = .ok c →
      c.calls = if c.pending = [] then 1 else 0

namespace DMAContext

variable {c c' : DMAContext} {requests : List DMARequest}

theorem answer_spec {k : Nat} (h : c.answer k = .ok c') :
    c'.pending.length + 1 = c.pending.length ∧ c'.counter = c.counter - 1 ∧
      c'.calls = if c.counter = 1 then c.calls + 1 else c.calls := by
  rw [answer] at h
  split at h
  · cases h
  · next hget =>
    obtain ⟨hlt, -⟩ := List.getElem?_eq_some_iff.mp hget
    cases h
    rw [commonDMAHandler]
    dsimp only
    have hlength := List.length_eraseIdx_of_lt hlt
    by_cases hone : c.counter = 1
    · rw [if_pos (by omega), if_pos hone]
      exact ⟨by dsimp only; omega, rfl, rfl⟩
    · rw [if_neg (by omega), if_neg hone]
      exact ⟨by dsimp only; omega, rfl, rfl⟩

/-- The counter is the number of the answers to come. -/
structure Counted (c : DMAContext) : Prop where
  counter : c.counter = c.pending.length
  calls : c.calls = if c.pending = [] then 1 else 0

theorem Counted.answer {k : Nat} (hc : Counted c) (h : c.answer k = .ok c') : Counted c' := by
  obtain ⟨hlength, hcounter, hcalls⟩ := answer_spec h
  have hne : c.pending ≠ [] := List.ne_nil_of_length_pos (by omega)
  refine ⟨by rw [hcounter, hc.counter]; omega, ?_⟩
  rw [hcalls, hc.calls, if_neg hne, hc.counter]
  by_cases hlast : c'.pending = []
  · rw [hlast, List.length_nil] at hlength
    rw [if_pos (by omega), if_pos hlast]
  · have hmore := List.length_pos_of_ne_nil hlast
    rw [if_neg (by omega), if_neg hlast]

theorem new_counted (h : ∀ r ∈ requests, 0 < r.size) : Counted (.new requests) := by
  have hall : requests.filter (fun r => 0 < r.size) = requests :=
    List.filter_eq_self.mpr fun r hr => decide_eq_true (h r hr)
  rw [new, hall]
  by_cases hnil : requests = []
  · subst hnil
    exact ⟨rfl, rfl⟩
  · have hlength := List.length_pos_of_ne_nil hnil
    dsimp only
    rw [if_neg (by omega)]
    exact ⟨rfl, (if_neg hnil).symm⟩

/-- A counter above the number of answers does not come down to zero. -/
theorem runs_dry {n : Nat} (hn : c.pending.length = n) (hcounter : (n : Int) < c.counter)
    (hcalls : c.calls = 0) :
    ∃ (order : List Nat) (c' : DMAContext), order.foldlM answer c = .ok c' ∧ c'.pending = [] ∧
      c'.calls = 0 := by
  induction n generalizing c with
  | zero => exact ⟨[], c, rfl, List.length_eq_zero_iff.mp hn, hcalls⟩
  | succ n ih =>
    obtain ⟨next, hfirst⟩ : ∃ next, c.answer 0 = .ok next := by
      rw [answer, List.getElem?_eq_getElem (by omega)]
      exact ⟨_, rfl⟩
    obtain ⟨hlength, hcounter', hcalls'⟩ := answer_spec hfirst
    obtain ⟨order, c', hrun, hdone⟩ := ih (c := next) (by omega) (by rw [hcounter']; omega)
      (by rw [hcalls', if_neg (by omega), hcalls])
    refine ⟨0 :: order, c', ?_, hdone⟩
    rw [List.foldlM_cons, hfirst]
    exact hrun

theorem callsBack_iff : CallsBack requests ↔ ∀ r ∈ requests, 0 < r.size := by
  constructor
  · intro h
    -- an empty request is counted but never answered: the answers of the others end too early
    by_contra hempty
    push Not at hempty
    obtain ⟨r, hr, hsize⟩ := hempty
    have hlt : (requests.filter fun r => 0 < r.size).length < requests.length := by
      refine lt_of_le_of_ne (List.length_filter_le _ _) fun heq => ?_
      have hall := List.length_filter_eq_length_iff.mp heq r hr
      rw [decide_eq_true_eq] at hall
      omega
    have hnew : DMAContext.new requests =
        ⟨requests.filter fun r => 0 < r.size, requests.length, 0⟩ := by
      rw [new]
      dsimp only
      rw [if_neg (by omega)]
    obtain ⟨order, c, hrun, hdone, hcalls⟩ := runs_dry (c := .new requests)
      (n := (requests.filter fun r => 0 < r.size).length) (by rw [hnew])
      (by rw [hnew]; dsimp only; omega) (by rw [hnew])
    have := h order c hrun
    rw [if_pos hdone, hcalls] at this
    cases this
  · intro h order c hrun
    exact (Run.foldlM_inv (fun c k c' hc => Counted.answer hc) (new_counted h) hrun).calls

end DMAContext

/-! ### Exact transfers -/

/-- The requests are not empty, their bytes are those of the transfer in order, each next to
its place in the buffer, and the transfer is called back. -/
structure ExactTransfer (offset length : Nat) (chunkList : List Chunk)
    (requests : List DMARequest) : Prop where
  size_pos : ∀ r ∈ requests, 0 < r.size
  bytes : ∃ l : List (Option Nat), l.length = length ∧
    (∀ i < length, l[i]? = (places chunkList)[offset + i]?) ∧
    requests.flatMap DMARequest.bytes = paired 0 l
  callback : CallsBack requests

variable {write : Bool} {offset length : Nat} {chunkList : List Chunk}

theorem loop_exact_iff (hpos : 0 < length)
    (hin : offset + length ≤ (chunkList.map Chunk.length).sum) :
    ExactTransfer offset length chunkList (Chunk.loop write offset length chunkList 0 0 false) ↔
      NoneEmpty length offset chunkList := by
  have hempty : (∀ r ∈ Chunk.loop write offset length chunkList 0 0 false, 0 < r.size) ↔
      NoneEmpty length (offset - 0) chunkList :=
    noneEmpty_iff hpos chunkList (Nat.zero_le offset)
  rw [Nat.sub_zero] at hempty
  constructor
  · intro h
    exact hempty.mp h.size_pos
  · intro h
    have hsize := hempty.mpr h
    refine ⟨hsize, ⟨((places chunkList).drop offset).take length, ?_, fun i hi => ?_, ?_⟩,
      DMAContext.callsBack_iff.mpr hsize⟩
    · rw [List.length_take, List.length_drop, length_places]
      omega
    · rw [List.getElem?_take_of_lt hi, List.getElem?_drop]
    · exact bytes_loop chunkList (Nat.zero_le offset)

/-- In all four copies of the loop a transfer is exact as long as no chunk of data is empty
that the loop gets to, and a transfer that ends in the chunk where it begins has no chunk of
data behind that one. -/
theorem scatter_exact_iff (offset length : Nat) (hpos : 0 < length) :
    (∀ prpList : List PRP, offset + length ≤ PRPList.covered prpList →
      (ExactTransfer offset length (prpList.map Chunk.ofPRP) (PRPList.read offset length prpList) ↔
        NoneEmpty length offset (prpList.map Chunk.ofPRP)) ∧
      (ExactTransfer offset length (prpList.map Chunk.ofPRP) (PRPList.write offset length prpList) ↔
        NoneEmpty length offset (prpList.map Chunk.ofPRP))) ∧
    ∀ chunkList : List Chunk, offset + length ≤ (chunkList.map Chunk.length).sum →
      (ExactTransfer offset length chunkList (SGL.read offset length chunkList) ↔
        NoneEmpty length offset chunkList) ∧
      (ExactTransfer offset length chunkList (SGL.write offset length chunkList) ↔
        NoneEmpty length offset chunkList) := by
  constructor
  · intro prpList hin
    have hsum : ((prpList.map Chunk.ofPRP).map Chunk.length).sum = PRPList.covered prpList := by
      rw [List.map_map]
      rfl
    rw [← hsum] at hin
    exact ⟨loop_exact_iff hpos hin, loop_exact_iff hpos hin⟩
  · intro chunkList hin
    exact ⟨loop_exact_iff hpos hin, loop_exact_iff hpos hin⟩

/-- Two pages, and the bytes on both sides of the border. -/
theorem scatter_exact_border : ExactTransfer 4000 200 ([⟨0x1000, 4096⟩, ⟨0x5000, 4096⟩].map
    Chunk.ofPRP) (PRPList.read 4000 200 [⟨0x1000, 4096⟩, ⟨0x5000, 4096⟩]) :=
  ((scatter_exact_iff 4000 200 (by decide)).1 [⟨0x1000, 4096⟩, ⟨0x5000, 4096⟩] (by decide)).1.mpr
    (by decide)

/-- Two pages, and only bytes of the first one: the transfer is not called back. -/
theorem not_exact_first_page : PRPList.read 0 4096 [⟨0x1000, 4096⟩, ⟨0x5000, 4096⟩] =
      [⟨false, 0x1000, 4096, 0⟩, ⟨false, 0x5000, 0, 4096⟩] ∧
    ¬ ExactTransfer 0 4096 ([⟨0x1000, 4096⟩, ⟨0x5000, 4096⟩].map Chunk.ofPRP)
      (PRPList.read 0 4096 [⟨0x1000, 4096⟩, ⟨0x5000, 4096⟩]) := by
  have hread : PRPList.read 0 4096 [⟨0x1000, 4096⟩, ⟨0x5000, 4096⟩] =
      [⟨false, 0x1000, 4096, 0⟩, ⟨false, 0x5000, 0, 4096⟩] := by decide
  refine ⟨hread, fun h => ?_⟩
  have hempty := h.size_pos ⟨false, 0x5000, 0, 4096⟩ (by rw [hread]; decide)
  exact absurd hempty (by decide)

end SimpleSSD.HIL
