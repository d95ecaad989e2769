import SimpleSSD.HIL.DMA
import SimpleSSD.HIL.NVMe.NamespaceRanges
import SimpleSSD.Lib.Run

/-!
# Read, Write and Compare (hil/nvme/namespace.cc:285–574)

A command of an attached namespace starts a request to the backend and a transfer by DMA,
and is answered by the one of them that ends last: `beginAt` counts them. The transfer ends
with the last of its requests to the host. The host drops a request of no bytes without an
answer (sil/nvme/nvme.cc:437–443 and 493–499).

The number of blocks is one more than the field of the command, in 16 bits. 65536 blocks
come to none, and the command is answered at once with the status it starts with.
-/

namespace SimpleSSD.HIL.NVMe

namespace Transfer

/-- `Namespace::read`, `write` and `compare`. -/
inductive Kind where
  | read | write | compare
  deriving DecidableEq, Repr

/-- The memory of the host, as words and as descriptors. -/
structure Host where
  memoryPageSize : Nat
  word : Nat → Nat
  descriptor : Nat → SGLDescriptor

/-- The field of the command that counts the blocks from zero. -/
def nlbField (req : SQEntryWrapper) : BitVec 16 := req.dword12.setWidth 16

/-- The first block of the command. -/
def slba (req : SQEntryWrapper) : Nat := (req.dword11 ++ req.dword10).toNat

/-- `IOContext` of a command, with the requests to the host that are not answered, and with
what has been asked of the backend, transferred and answered. -/
structure Job where
  resp : CQEntryWrapper
  asked : List (Nat × Nat)
  backend : Bool
  dma : List Nat
  counter : Nat
  beginAt : Nat
  transferred : Nat
  answers : List CQEntryWrapper
  deriving DecidableEq, Repr

/-- The chunks that the pointers of a command lead to, once the host has answered all reads
of pointers. -/
def chunks (host : Host) (req : SQEntryWrapper) (length : Nat) :
    Except Fault (Option (List Chunk)) :=
  if req.useSGL then SGL.new host.descriptor req.data1 req.data2
  else (PRPList.new host.word host.memoryPageSize req.data1.toNat req.data2.toNat length).map
    fun prpList => some (prpList.map Chunk.ofPRP)

/-- A command with nothing to wait for. -/
def Job.still (resp : CQEntryWrapper) (answers : List CQEntryWrapper) : Job :=
  ⟨resp, [], false, [], 0, 0, 0, answers⟩

/-- A command that has started the backend and the transfer. With no request to make, the
transfer ends by itself (dma.cc:243–247). -/
def Job.begin (resp : CQEntryWrapper) (slba nlb : Nat) (requests : List Nat) : Job where
  resp := resp
  asked := [(slba, nlb)]
  backend := true
  dma := if requests = [] then [0] else requests.filter (0 < ·)
  counter := if requests = [] then 1 else requests.length
  beginAt := 0
  transferred := 0
  answers := []

/-- `read`, `write` and `compare` up to the start of the backend and the transfer. -/
def start (dev : LPNInfo) (ns : Namespace) (host : Host) (req : SQEntryWrapper) :
    Except Fault Job :=
  let nlb := (nlbField req + 1).toNat
  let resp := CQEntryWrapper.new req
  match ns.transfer dev req with
  | .rejected resp => .ok (.still resp [resp])
  | .executed _ => do
    let chunkList ← chunks host req (nlb * ns.info.lbaSize)
    match chunkList with
    | none => .ok (.still resp [])
    | some chunkList =>
      .ok (.begin resp (slba req) nlb (Chunk.requests (nlb * ns.info.lbaSize) chunkList))

/-- The backend has ended, or the host has answered the `k`th open request. -/
inductive Event where
  | backend
  | dma (k : Nat)

/-- The answer of a command; `same` is what `memcmp` finds in a comparison. -/
def finalResp (kind : Kind) (same : Bool) (resp : CQEntryWrapper) : CQEntryWrapper :=
  if kind = .compare ∧ same = false then
    resp.makeStatus false false .mediaAndDataIntegrityError .compareFailure
  else resp

/-- `dmaDone`. -/
def Job.dmaDone (kind : Kind) (same : Bool) (j : Job) : Job :=
  let j := { j with beginAt := j.beginAt + 1 }
  if j.beginAt = 2 then { j with answers := j.answers ++ [finalResp kind same j.resp] } else j

/-- One of the two parts goes on. -/
def step (kind : Kind) (same : Bool) (j : Job) : Event → Except Fault Job
  | .backend =>
    if j.backend then .ok (Job.dmaDone kind same { j with backend := false })
    else .error (.badAccess "Request")
  | .dma k =>
    match j.dma[k]? with
    | none => .error (.badAccess "DMAContext")
    | some n =>
      let j := { j with
        dma := j.dma.eraseIdx k
        counter := j.counter - 1
        transferred := j.transferred + n }
      if j.counter = 0 then .ok (j.dmaDone kind same) else .ok j

/-! ### What a command should do -/

/-- Success, with all blocks asked of the backend and all bytes transferred. -/
structure Complete (ns : Namespace) (req : SQEntryWrapper) (j : Job) : Prop where
  answers : ∃ resp, j.answers = [resp] ∧ resp.status = .zero
  asked : j.asked = [(slba req, (nlbField req).toNat + 1)]
  transferred : j.transferred = ((nlbField req).toNat + 1) * ns.info.lbaSize

/-- Neither the backend nor the host has anything left to do. -/
def Quiescent (j : Job) : Prop := j.backend = false ∧ j.dma = []

/-- In whatever order the backend and the host go on, the command is answered once with
success, and not before everything has been asked for and transferred. -/
def Transfers (dev : LPNInfo) (ns : Namespace) (host : Host) (kind : Kind) (same : Bool)
    (req : SQEntryWrapper) : Prop :=
  ∃ j₀, start dev ns host req = .ok j₀ ∧ ∀ (events : List Event) (j : Job),
    events.foldlM (step kind same) j₀ = .ok j →
      (j.answers ≠ [] → Complete ns req j) ∧ (Quiescent j → Complete ns req j)

/-- The pointers of the command lead to chunks that hold the transfer. -/
def Mapped (ns : Namespace) (host : Host) (req : SQEntryWrapper) : Prop :=
  ∃ chunkList, chunks host req (((nlbField req).toNat + 1) * ns.info.lbaSize) =
    .ok (some chunkList) ∧ Chunk.Holds (((nlbField req).toNat + 1) * ns.info.lbaSize) chunkList

/-! ### The two parts -/

section Steps

variable {kind : Kind} {same : Bool} {resp : CQEntryWrapper} {first nlb bytes dropped : Nat}
  {j j' : Job} {requests : List Nat}

/-- What a command keeps while it waits for `bytes` bytes, when `dropped` of its requests are
never answered. -/
structure Waiting (kind : Kind) (same : Bool) (r : CQEntryWrapper) (first nlb bytes dropped : Nat)
    (j : Job) : Prop where
  resp : j.resp = r
  asked : j.asked = [(first, nlb)]
  counter : j.counter = j.dma.length + dropped
  moved : j.transferred + j.dma.sum = bytes
  beginAt : j.beginAt = (if j.backend then 0 else 1) + if j.counter = 0 then 1 else 0
  answers : j.answers = if j.beginAt = 2 then [finalResp kind same r] else []

/-- The requests that the host drops. -/
def emptyRequests (requests : List Nat) : Nat := (requests.filter (· = 0)).length

theorem sum_filter_pos (l : List Nat) : (l.filter (0 < ·)).sum = l.sum := by
  induction l with
  | nil => rfl
  | cons n l ih =>
    rw [List.sum_cons, ← ih]
    rcases Nat.eq_zero_or_pos n with rfl | hpos
    · rw [List.filter_cons_of_neg (by decide), Nat.zero_add]
    · rw [List.filter_cons_of_pos (by simpa using hpos), List.sum_cons]

theorem length_filter_pos (l : List Nat) :
    l.length = (l.filter (0 < ·)).length + emptyRequests l := by
  unfold emptyRequests
  induction l with
  | nil => rfl
  | cons n l ih =>
    rcases Nat.eq_zero_or_pos n with rfl | hpos
    · rw [List.filter_cons_of_neg (by decide), List.filter_cons_of_pos (by decide),
        List.length_cons, List.length_cons]
      omega
    · rw [List.filter_cons_of_pos (by simpa using hpos),
        List.filter_cons_of_neg (by simpa using Nat.ne_of_gt hpos), List.length_cons,
        List.length_cons]
      omega

/-- A command begins to wait. -/
theorem begin_waiting : Waiting kind same resp first nlb requests.sum (emptyRequests requests)
    (.begin resp first nlb requests) := by
  have hcounter : (Job.begin resp first nlb requests).counter ≠ 0 := by
    show (if requests = [] then 1 else requests.length) ≠ 0
    split
    · decide
    · next hne => exact Nat.ne_of_gt (List.length_pos_iff.mpr hne)
  refine ⟨rfl, rfl, ?_, ?_, ?_, rfl⟩
  · show (if requests = [] then 1 else requests.length) =
      (if requests = [] then [0] else requests.filter (0 < ·)).length + _
    split
    · next hnil => rw [hnil]; rfl
    · exact length_filter_pos requests
  · show 0 + (if requests = [] then [0] else requests.filter (0 < ·)).sum = requests.sum
    rw [Nat.zero_add]
    split
    · next hnil => rw [hnil]; rfl
    · exact sum_filter_pos requests
  · rw [if_neg hcounter]
    rfl

theorem sum_eraseIdx {l : List Nat} {k n : Nat} (h : l[k]? = some n) :
    n + (l.eraseIdx k).sum = l.sum := by
  obtain ⟨hk, rfl⟩ := List.getElem?_eq_some_iff.mp h
  exact (List.getElem_cons_eraseIdx_perm hk).sum_eq

/-- One of the two parts has ended. -/
theorem dmaDone_answers (h : j.answers = if j.beginAt = 2 then [finalResp kind same resp] else [])
    (hresp : j.resp = resp) (hlt : j.beginAt < 2) :
    (j.dmaDone kind same).answers =
      if (j.dmaDone kind same).beginAt = 2 then [finalResp kind same resp] else [] := by
  rw [if_neg (Nat.ne_of_lt hlt)] at h
  unfold Job.dmaDone
  dsimp only
  by_cases hend : j.beginAt + 1 = 2
  · rw [if_pos hend]
    dsimp only
    rw [if_pos hend, h, hresp]
    rfl
  · rw [if_neg hend]
    dsimp only
    rw [if_neg hend, h]

theorem dmaDone_fields (kind : Kind) (same : Bool) (j : Job) : (j.dmaDone kind same).resp = j.resp ∧
    (j.dmaDone kind same).asked = j.asked ∧ (j.dmaDone kind same).backend = j.backend ∧
    (j.dmaDone kind same).dma = j.dma ∧ (j.dmaDone kind same).counter = j.counter ∧
    (j.dmaDone kind same).transferred = j.transferred ∧
    (j.dmaDone kind same).beginAt = j.beginAt + 1 := by
  unfold Job.dmaDone
  dsimp only
  split <;> exact ⟨rfl, rfl, rfl, rfl, rfl, rfl, rfl⟩

/-- The end of a part, when `beginAt` does not count it yet. -/
theorem Waiting.ended (hresp : j.resp = resp) (hasked : j.asked = [(first, nlb)])
    (hcounter : j.counter = j.dma.length + dropped) (hmoved : j.transferred + j.dma.sum = bytes)
    (hbegin : j.beginAt + 1 = (if j.backend then 0 else 1) + if j.counter = 0 then 1 else 0)
    (hanswers : j.answers = if j.beginAt = 2 then [finalResp kind same resp] else []) :
    Waiting kind same resp first nlb bytes dropped (j.dmaDone kind same) := by
  have hlt : j.beginAt < 2 := by
    split at hbegin <;> split at hbegin <;> omega
  have hanswers' := dmaDone_answers hanswers hresp hlt
  obtain ⟨hr, ha, hb, hd, hc, ht, hbeg⟩ := dmaDone_fields kind same j
  exact ⟨hr.trans hresp, ha.trans hasked, by rw [hc, hd, hcounter], by rw [ht, hd, hmoved],
    by rw [hbeg, hb, hc, hbegin], hanswers'⟩

/-- A step of either part. -/
theorem step_waiting (h : Waiting kind same resp first nlb bytes dropped j) {e : Event}
    (hstep : step kind same j e = .ok j') :
    Waiting kind same resp first nlb bytes dropped j' := by
  cases e with
  | backend =>
    rw [step] at hstep
    split at hstep
    · next hbackend =>
      cases hstep
      have hbegin := h.beginAt
      rw [if_pos hbackend, Nat.zero_add] at hbegin
      refine Waiting.ended h.resp h.asked h.counter h.moved ?_ h.answers
      show j.beginAt + 1 = 1 + _
      rw [hbegin, Nat.add_comm]
    · cases hstep
  | dma k =>
    rw [step] at hstep
    cases hk : j.dma[k]? with
    | none =>
      rw [hk] at hstep
      cases hstep
    | some n =>
      rw [hk] at hstep
      dsimp only at hstep
      have hlength : (j.dma.eraseIdx k).length + 1 = j.dma.length := by
        obtain ⟨hlt, -⟩ := List.getElem?_eq_some_iff.mp hk
        rw [List.length_eraseIdx_of_lt hlt]
        omega
      have hsum := sum_eraseIdx hk
      have hcounter := h.counter
      have hmoved := h.moved
      have hbegin := h.beginAt
      rw [if_neg (show j.counter ≠ 0 by omega), Nat.add_zero] at hbegin
      split at hstep
      · next hzero =>
        cases hstep
        refine Waiting.ended h.resp h.asked (by dsimp only; omega) (by dsimp only; omega) ?_
          h.answers
        show j.beginAt + 1 = _ + if j.counter - 1 = 0 then 1 else 0
        rw [if_pos hzero, hbegin]
      · next hne =>
        cases hstep
        refine ⟨h.resp, h.asked, by dsimp only; omega, by dsimp only; omega, ?_, h.answers⟩
        show j.beginAt = _ + if j.counter - 1 = 0 then 1 else 0
        rw [if_neg hne, hbegin, Nat.add_zero]

/-- A whole run of the two parts. -/
theorem run_waiting {events : List Event} (h : Waiting kind same resp first nlb bytes dropped j)
    (hrun : events.foldlM (step kind same) j = .ok j') :
    Waiting kind same resp first nlb bytes dropped j' :=
  Run.foldlM_inv (fun _ _ _ hj hstep => step_waiting hj hstep) h hrun

/-- The answer comes when both parts have ended. -/
theorem Waiting.answered (h : Waiting kind same resp first nlb bytes dropped j)
    (hanswers : j.answers ≠ []) : j.answers = [finalResp kind same resp] ∧ dropped = 0 ∧
      j.transferred = bytes := by
  have hbegin := h.beginAt
  have hcounter := h.counter
  have hmoved := h.moved
  rw [h.answers] at hanswers ⊢
  split at hanswers
  · next htwo =>
    rw [if_pos htwo]
    have hzero : j.counter = 0 := by
      by_contra hne
      rw [if_neg hne] at hbegin
      split at hbegin <;> omega
    have hnil : j.dma = [] := List.length_eq_zero_iff.mp (by omega)
    rw [hnil] at hmoved
    exact ⟨rfl, by omega, hmoved⟩
  · exact absurd rfl hanswers

/-- When nothing is left to do and nothing has been dropped, the answer has come. -/
theorem Waiting.quiescent (h : Waiting kind same resp first nlb bytes 0 j) (hq : Quiescent j) :
    j.answers ≠ [] := by
  have hbegin := h.beginAt
  have hcounter := h.counter
  rw [hq.2] at hcounter
  have hcounter : j.counter = 0 := hcounter
  rw [hq.1, if_neg Bool.false_ne_true, if_pos hcounter] at hbegin
  rw [h.answers, if_pos hbegin]
  exact List.cons_ne_nil _ _

/-- Both parts can always go on to the end. -/
theorem exists_quiescent (kind : Kind) (same : Bool) (j : Job) :
    ∃ (events : List Event) (j' : Job), events.foldlM (step kind same) j = .ok j' ∧
      Quiescent j' := by
  generalize hn : j.dma.length = n
  induction n generalizing j with
  | zero =>
    have hnil := List.length_eq_zero_iff.mp hn
    cases hbackend : j.backend with
    | false => exact ⟨[], j, rfl, hbackend, hnil⟩
    | true =>
      refine ⟨[.backend], Job.dmaDone kind same { j with backend := false }, ?_, ?_⟩
      · rw [List.foldlM_cons, step, if_pos hbackend]
        rfl
      · obtain ⟨-, -, hb, hd, -⟩ := dmaDone_fields kind same
          { j with backend := false }
        exact ⟨hb, hd.trans hnil⟩
  | succ n ih =>
    obtain ⟨a, l, hcons⟩ := List.exists_cons_of_length_eq_add_one hn
    obtain ⟨j₁, hstep, hdma⟩ : ∃ j₁, step kind same j (.dma 0) = .ok j₁ ∧ j₁.dma = l := by
      rw [step, hcons]
      dsimp only [List.getElem?_cons_zero]
      split
      · exact ⟨_, rfl, (dmaDone_fields kind same _).2.2.2.1⟩
      · exact ⟨_, rfl, rfl⟩
    obtain ⟨events, j', hrun, hq⟩ := ih j₁ (by rw [hdma]; rw [hcons] at hn; exact Nat.succ.inj hn)
    refine ⟨.dma 0 :: events, j', ?_, hq⟩
    rw [List.foldlM_cons, hstep]
    exact hrun

end Steps

/-! ### The whole command -/

section Whole

variable {dev : LPNInfo} {ns : Namespace} {host : Host} {kind : Kind} {same : Bool}
  {req : SQEntryWrapper}

/-- The number of blocks, when it fits. -/
theorem nlb_eq (h : nlbField req ≠ 0xFFFF) :
    (nlbField req + 1).toNat = (nlbField req).toNat + 1 := by
  have hne : (nlbField req).toNat ≠ 0xFFFF := fun heq => h (BitVec.eq_of_toNat_eq heq)
  have hlt := (nlbField req).isLt
  rw [BitVec.toNat_add, Nat.mod_eq_of_lt (by simp; omega)]
  rfl

/-- 65536 blocks are none. -/
theorem start_wraps (hattached : ns.attached = true) (h : nlbField req = 0xFFFF) :
    start dev ns host req = .ok (.still (.new req) [.new req]) := by
  have hzero : (req.dword12.setWidth 16 + 1).toNat = 0 := by
    show (nlbField req + 1).toNat = 0
    rw [h]
    rfl
  unfold start Namespace.transfer
  dsimp only
  rw [hattached, if_neg (by decide), if_pos hzero]

/-- Otherwise the pointers of the command decide how it starts. -/
theorem start_eq (hattached : ns.attached = true) (h : nlbField req ≠ 0xFFFF) :
    start dev ns host req =
      (chunks host req (((nlbField req).toNat + 1) * ns.info.lbaSize)).map fun chunkList =>
        chunkList.elim (.still (.new req) []) fun chunkList =>
          .begin (.new req) (slba req) ((nlbField req).toNat + 1)
            (Chunk.requests (((nlbField req).toNat + 1) * ns.info.lbaSize) chunkList) := by
  have hne : ¬ (req.dword12.setWidth 16 + 1).toNat = 0 := by
    show ¬ (nlbField req + 1).toNat = 0
    rw [nlb_eq h]
    omega
  unfold start Namespace.transfer
  dsimp only
  rw [hattached, if_neg (by decide), if_neg hne, nlb_eq h]
  cases chunks host req (((nlbField req).toNat + 1) * ns.info.lbaSize) with
  | error e => rfl
  | ok found => cases found <;> rfl

theorem emptyRequests_eq_zero {requests : List Nat} :
    emptyRequests requests = 0 ↔ ∀ n ∈ requests, 0 < n := by
  rw [emptyRequests, List.length_eq_zero_iff, List.filter_eq_nil_iff]
  simp only [decide_eq_true_eq, Nat.pos_iff_ne_zero]

theorem finalResp_status (resp : CQEntryWrapper) (hresp : resp.status = .zero) :
    (finalResp kind same resp).status = .zero ↔ (kind = .compare → same = true) := by
  unfold finalResp
  cases same with
  | true => exact iff_of_true (by rwa [if_neg fun h => by cases h.2]) fun _ => rfl
  | false =>
    by_cases hkind : kind = .compare
    · rw [if_pos ⟨hkind, rfl⟩]
      refine iff_of_false (fun h => ?_) fun h => by cases h hkind
      cases h
    · rw [if_neg fun h => hkind h.1]
      exact iff_of_true hresp fun h => absurd h hkind

/-- A command with room in its counter, whose pointers lead to a list of chunks, does what it
should exactly when the chunks hold the transfer and a comparison finds no difference. -/
theorem begin_transfers_iff (kind : Kind) (same : Bool) {length : Nat} (chunkList : List Chunk)
    (hpos : 0 < length)
    (hlength : length = ((nlbField req).toNat + 1) * ns.info.lbaSize) :
    (∀ (events : List Event) (j : Job), events.foldlM (step kind same)
        (.begin (.new req) (slba req) ((nlbField req).toNat + 1)
          (Chunk.requests length chunkList)) = .ok j →
      (j.answers ≠ [] → Complete ns req j) ∧ (Quiescent j → Complete ns req j)) ↔
      Chunk.Holds length chunkList ∧ (kind = .compare → same = true) := by
  have hwaiting : Waiting kind same (.new req) (slba req) ((nlbField req).toNat + 1)
      (Chunk.requests length chunkList).sum (emptyRequests (Chunk.requests length chunkList))
      (.begin (.new req) (slba req) ((nlbField req).toNat + 1)
        (Chunk.requests length chunkList)) := begin_waiting
  rw [← Chunk.requests_iff hpos, ← emptyRequests_eq_zero,
    ← finalResp_status (.new req) rfl]
  constructor
  · intro h
    obtain ⟨events, j, hrun, hq⟩ := exists_quiescent kind same
      (.begin (.new req) (slba req) ((nlbField req).toNat + 1) (Chunk.requests length chunkList))
    have hcomplete := (h events j hrun).2 hq
    obtain ⟨resp, hresp, hzero⟩ := hcomplete.answers
    obtain ⟨hfinal, hdropped, hbytes⟩ := (run_waiting hwaiting hrun).answered
      (by rw [hresp]; exact List.cons_ne_nil _ _)
    have htransferred := hcomplete.transferred
    obtain rfl : resp = finalResp kind same (.new req) :=
      List.singleton_inj.mp (hresp.symm.trans hfinal)
    exact ⟨⟨hdropped, by omega⟩, hzero⟩
  · rintro ⟨⟨hdropped, hsum⟩, hzero⟩ events j hrun
    have hj := run_waiting hwaiting hrun
    rw [hdropped, hsum] at hj
    have hanswered : j.answers ≠ [] → Complete ns req j := fun hanswers => by
      obtain ⟨hfinal, -, hbytes⟩ := hj.answered hanswers
      exact ⟨⟨_, hfinal, hzero⟩, hj.asked, hbytes.trans hlength⟩
    exact ⟨hanswered, fun hq => hanswered (hj.quiescent hq)⟩

end Whole

/-- A command of an attached namespace is answered with success after everything has been
asked for and transferred exactly when it has fewer than 65536 blocks, its pointers lead to
chunks that hold them, and a comparison finds no difference. -/
theorem transfers_iff (dev : LPNInfo) (ns : Namespace) (host : Host) (kind : Kind) (same : Bool)
    (req : SQEntryWrapper) (hattached : ns.attached = true) (hlba : 0 < ns.info.lbaSize) :
    Transfers dev ns host kind same req ↔
      nlbField req ≠ 0xFFFF ∧ Mapped ns host req ∧ (kind = .compare → same = true) := by
  have hpos : 0 < ((nlbField req).toNat + 1) * ns.info.lbaSize :=
    Nat.mul_pos (Nat.succ_pos _) hlba
  by_cases hwraps : nlbField req = 0xFFFF
  · refine iff_of_false (fun h => ?_) fun h => h.1 hwraps
    obtain ⟨j₀, hstart, hruns⟩ := h
    rw [start_wraps hattached hwraps] at hstart
    cases hstart
    have hasked := ((hruns [] _ rfl).1 (List.cons_ne_nil _ _)).asked
    cases hasked
  · rw [Transfers, start_eq hattached hwraps]
    unfold Mapped
    cases hchunks : chunks host req (((nlbField req).toNat + 1) * ns.info.lbaSize) with
    | error e =>
      refine iff_of_false ?_ ?_
      · rintro ⟨j₀, hstart, -⟩
        cases hstart
      · rintro ⟨-, ⟨chunkList, hlist, -⟩, -⟩
        cases hlist
    | ok found =>
      cases found with
      | none =>
        refine iff_of_false ?_ ?_
        · rintro ⟨j₀, hstart, hruns⟩
          cases hstart
          -- nothing is left to do, and there is no answer
          obtain ⟨resp, hanswers, -⟩ := ((hruns [] _ rfl).2 ⟨rfl, rfl⟩).answers
          cases hanswers
        · rintro ⟨-, ⟨chunkList, hlist, -⟩, -⟩
          cases hlist
      | some chunkList =>
        have hiff := begin_transfers_iff kind same chunkList hpos rfl
        constructor
        · rintro ⟨j₀, hstart, hruns⟩
          cases hstart
          obtain ⟨hholds, hsame⟩ := hiff.mp hruns
          exact ⟨hwraps, ⟨chunkList, rfl, hholds⟩, hsame⟩
        · rintro ⟨-, ⟨chunkList', hlist, hholds⟩, hsame⟩
          obtain rfl := Option.some.inj (Except.ok.inj hlist)
          exact ⟨_, rfl, hiff.mpr ⟨hholds, hsame⟩⟩

/-! ### Instances -/

/-- A namespace of blocks of 4096 bytes. -/
def wholePages : Namespace := ⟨1, ⟨1024, 1024, 4194304, 0, 3, 0, 0, 4096, ⟨0, 1024⟩⟩, true, 0⟩

/-- A command on the page at 8192, with the number of its blocks from zero. -/
def command (nlb : BitVec 32) : SQEntryWrapper :=
  ⟨0x01, 0, 1, 8192, 0, 0, 0, nlb, 0, 1, 1, 0, 0, false⟩

/-- A host whose memory has no pointers. -/
def plainHost : Host := ⟨4096, fun _ => 0, fun _ => ⟨0, 0, 0⟩⟩

/-- One block is written. -/
theorem transfers_iff_one :
    Transfers Subsystem.smallDevice wholePages plainHost .write true (command 0) :=
  (transfers_iff Subsystem.smallDevice wholePages plainHost .write true (command 0) rfl
    (by decide)).mpr
      ⟨by decide, ⟨[⟨8192, 4096, false⟩], rfl, rfl, fun next hnext => by cases hnext⟩,
      fun _ => rfl⟩

/-- 65536 blocks are answered with success, and nothing is written. -/
theorem not_transfers_wraps :
    start Subsystem.smallDevice wholePages plainHost (command 0xFFFF) =
        .ok (.still (.new (command 0xFFFF)) [.new (command 0xFFFF)]) ∧
      ¬ Transfers Subsystem.smallDevice wholePages plainHost .write true (command 0xFFFF) := by
  have hstart : start Subsystem.smallDevice wholePages plainHost (command 0xFFFF) =
      .ok (.still (.new (command 0xFFFF)) [.new (command 0xFFFF)]) := rfl
  refine ⟨hstart, fun h => ?_⟩
  obtain ⟨j₀, hj₀, hruns⟩ := h
  obtain rfl := Except.ok.inj (hstart.symm.trans hj₀)
  have hasked := ((hruns [] _ rfl).1 (List.cons_ne_nil _ _)).asked
  cases hasked

/-- The second chunk is asked for nothing, which the host does not answer. -/
example : Chunk.requests 4096 [⟨8192, 8192, false⟩, ⟨16384, 4096, false⟩] = [4096, 0] := by decide

end Transfer

end SimpleSSD.HIL.NVMe
