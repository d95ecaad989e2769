import SimpleSSD.HIL.NVMe.AddressValidation
import SimpleSSD.HIL.NVMe.Transfer
import SimpleSSD.HIL.Scatter

/-!
# Get Log Page (subsystem.cc:560–629, namespace.cc:175–238, ocssd.cc:1792–1861)

The host asks for some dwords of a log from an offset on. All three copies of the command give the
offset to the transfer, which takes it for a place in the buffer of the host: so the log is sent
from its first byte, to where it should not go. The health logs are sent as 512 bytes, however
many were asked for, and no copy compares the window with the log. `log_window_iff` says which
windows are returned whatever buffer the host has.
-/

namespace SimpleSSD.HIL.NVMe

open Transfer (Host chunks)

/-! ### The fields of the command -/

namespace SQEntryWrapper

variable (req : SQEntryWrapper)

def numdl : BitVec 16 := ((req.dword10 &&& 0xFFFF0000) >>> 16).setWidth 16

def numdu : BitVec 16 := (req.dword11 &&& 0xFFFF).setWidth 16

def lid : BitVec 16 := (req.dword10 &&& 0xFFFF).setWidth 16

/-- `numdu << 16 | numdl`. -/
def numd : BitVec 32 := req.numdu.setWidth 32 <<< 16 ||| req.numdl.setWidth 32

/-- `req_size`, in 32 bits. -/
def reqSize : BitVec 32 := (req.numd + 1) * 4

def logOffset : BitVec 64 := req.dword13.setWidth 64 <<< 32 ||| req.dword12.setWidth 64

/-- How many bytes the host asks for. -/
def windowBytes : Nat := (req.numd.toNat + 1) * 4

/-- The command with other pointers. -/
def withPointers (data1 data2 : BitVec 64) (useSGL : Bool) : SQEntryWrapper :=
  { req with data1 := data1, data2 := data2, useSGL := useSGL }

end SQEntryWrapper

/-! ### The three copies -/

/-- What `getLogPage` does: its result, which is `true` where it has none, the answer that it
gives at once, and the requests of the transfer, after which it answers. -/
structure LogReply where
  ret : Bool
  answer : Option CQEntryWrapper
  requests : List DMARequest

namespace LogReply

/-- An answer at once. -/
def now (ret : Bool) (resp : CQEntryWrapper) : LogReply := ⟨ret, some resp, []⟩

/-- `dma->write`, over the pages of PRPs or the chunks of an SGL. With an SGL that has no chunks it
is never called. -/
def transfer (host : Host) (req : SQEntryWrapper) (size : Nat) : Except Fault LogReply := do
  let chunkList ← chunks host req req.reqSize.toNat
  match chunkList with
  | none => .ok ⟨true, none, []⟩
  | some chunkList =>
    .ok ⟨true, none, Chunk.loop true req.logOffset.toNat size chunkList 0 0 false⟩

end LogReply

/-- `invalidLogPage`, as each copy answers it. -/
def invalidLogPage (req : SQEntryWrapper) : CQEntryWrapper :=
  (CQEntryWrapper.new req).makeStatus true false .commandSpecificStatus .invalidLogPage

/-- `Subsystem::getLogPage`. -/
def Subsystem.getLogPage (host : Host) (req : SQEntryWrapper) : Except Fault LogReply :=
  match req.lid.toNat with
  | 0x01 => .ok (.now true (.new req))
  | 0x02 =>
    if req.namespaceID.toNat = nsidAll then LogReply.transfer host req 512
    else .ok (.now false (.new req))
  | 0x03 => .ok (.now true (.new req))
  | _ => .ok (.now true (invalidLogPage req))

/-- `Namespace::getLogPage`. -/
def Namespace.getLogPage (nsid : Nat) (host : Host) (req : SQEntryWrapper) :
    Except Fault LogReply :=
  match req.lid.toNat with
  | 0x02 =>
    if req.namespaceID.toNat = nsid then LogReply.transfer host req 512
    else .ok (.now true ((CQEntryWrapper.new req).makeStatus true false .commandSpecificStatus
      .namespaceNotAttached))
  | _ => .ok (.now true (invalidLogPage req))

/-- `OpenChannelSSD20::getLogPage`. -/
def OpenChannelSSD.getLogPage (host : Host) (req : SQEntryWrapper) : Except Fault LogReply :=
  match req.lid.toNat with
  | 0x01 | 0x02 | 0x03 => .ok (.now true (.new req))
  | 0xCA => LogReply.transfer host req req.reqSize.toNat
  | _ => .ok (.now true (invalidLogPage req))

/-- The logs that are transferred. -/
inductive LogPage where
  | smart
  | smartOf (nsid : Nat)
  | chunkInformation (p : OCSSDParameter)

namespace LogPage

/-- The bytes of the log. -/
def size : LogPage → Nat
  | smart => 512
  | smartOf _ => 512
  | chunkInformation p => 32 * p.descriptorLength

/-- The command is for the log. -/
def Selects (req : SQEntryWrapper) : LogPage → Prop
  | smart => req.lid = 0x02 ∧ req.namespaceID.toNat = nsidAll
  | smartOf nsid => req.lid = 0x02 ∧ req.namespaceID.toNat = nsid
  | chunkInformation _ => req.lid = 0xCA

def get (host : Host) (req : SQEntryWrapper) : LogPage → Except Fault LogReply
  | smart => Subsystem.getLogPage host req
  | smartOf nsid => Namespace.getLogPage nsid host req
  | chunkInformation _ => OpenChannelSSD.getLogPage host req

/-! ### What a command should do -/

/-- A window of the log goes to the first bytes of the buffer, each byte to its place, and nothing
else goes anywhere. A window that ends behind the log is refused. -/
structure Returns (log : LogPage) (host : Host) (req : SQEntryWrapper) : Prop where
  sent : req.logOffset.toNat + req.windowBytes ≤ log.size → ∀ chunkList,
    chunks host req req.windowBytes = .ok (some chunkList) →
      req.windowBytes ≤ (places chunkList).length → ∃ reply, log.get host req = .ok reply ∧
        reply.requests.flatMap DMARequest.bytes =
          paired req.logOffset.toNat ((places chunkList).take req.windowBytes)
  refused : log.size < req.logOffset.toNat + req.windowBytes → ∃ reply resp,
    log.get host req = .ok reply ∧ reply.answer = some resp ∧ resp.status ≠ .zero ∧
      reply.requests = []

/-- Whatever buffer the host has for it. -/
def ReturnsWindow (log : LogPage) (req : SQEntryWrapper) : Prop :=
  ∀ host data1 data2 useSGL, log.Returns host (req.withPointers data1 data2 useSGL)

/-- The window begins with the log. It is the whole of a health log. In the information about the
chunks it is not behind the end, and of less than 4 GiB. -/
def WholeWindow (req : SQEntryWrapper) : LogPage → Prop
  | chunkInformation p => req.logOffset = 0 ∧ req.windowBytes ≤ (chunkInformation p).size ∧
      req.windowBytes < 2 ^ 32
  | _ => req.logOffset = 0 ∧ req.windowBytes = 512

/-- How many bytes are transferred. -/
def sentBytes (req : SQEntryWrapper) : LogPage → Nat
  | chunkInformation _ => req.reqSize.toNat
  | _ => 512

end LogPage

/-! ### Windows from the beginning -/

section Windows

variable {log : LogPage} {host : Host} {req : SQEntryWrapper}

theorem toNat_reqSize (req : SQEntryWrapper) : req.reqSize.toNat = req.windowBytes % 2 ^ 32 := by
  have hfour : (4 : BitVec 32).toNat = 4 := rfl
  have hone : (1 : BitVec 32).toNat = 1 := rfl
  rw [SQEntryWrapper.reqSize, BitVec.toNat_mul, BitVec.toNat_add, hfour, hone, Nat.mod_mul_mod]
  rfl

theorem windowBytes_bounds (req : SQEntryWrapper) :
    0 < req.windowBytes ∧ req.windowBytes ≤ 2 ^ 34 := by
  have := req.numd.isLt
  rw [SQEntryWrapper.windowBytes]
  omega

/-- All copies begin a transfer. -/
theorem get_eq (h : log.Selects req) (host : Host) :
    log.get host req = LogReply.transfer host req (log.sentBytes req) := by
  cases log with
  | smart =>
    obtain ⟨hlid, hnsid⟩ := h
    show Subsystem.getLogPage host req = _
    rw [Subsystem.getLogPage, hlid]
    exact if_pos hnsid
  | smartOf nsid =>
    obtain ⟨hlid, hnsid⟩ := h
    show Namespace.getLogPage nsid host req = _
    rw [Namespace.getLogPage, hlid]
    exact if_pos hnsid
  | chunkInformation p =>
    have hlid : req.lid = 0xCA := h
    show OpenChannelSSD.getLogPage host req = _
    rw [OpenChannelSSD.getLogPage, hlid]
    rfl

/-- No copy refuses anything. -/
theorem transfer_answer {size : Nat} {reply : LogReply}
    (h : LogReply.transfer host req size = .ok reply) : reply.answer = none := by
  rw [LogReply.transfer, Except.bind_eq_ok] at h
  obtain ⟨chunkList, -, h⟩ := h
  cases chunkList <;> cases h <;> rfl

/-- What is sent. -/
theorem transfer_bytes {chunkList : List Chunk}
    (h : chunks host req req.reqSize.toNat = .ok (some chunkList)) (size : Nat) :
    ∃ reply, LogReply.transfer host req size = .ok reply ∧
      reply.requests.flatMap DMARequest.bytes =
        paired 0 (((places chunkList).drop req.logOffset.toNat).take size) := by
  refine ⟨⟨true, none, Chunk.loop true req.logOffset.toNat size chunkList 0 0 false⟩, ?_, ?_⟩
  · rw [LogReply.transfer, h]
    rfl
  · exact bytes_loop chunkList (Nat.zero_le _)

end Windows

/-! ### A buffer for any window -/

section Buffer

/-- Five blocks of nearly 4 GiB. -/
def longHost : Host where
  memoryPageSize := 4096
  word := fun _ => 0
  descriptor := fun address => ⟨.ofNat 64 (address / 16 * 2 ^ 32), 0xFFFFFFFF, 0⟩

/-- The command with a segment of their descriptors. -/
def SQEntryWrapper.withLongBuffer (req : SQEntryWrapper) : SQEntryWrapper :=
  req.withPointers 0 0x3000000000000050 true

def longBuffer : List Chunk := (List.range 5).map fun i => ⟨i * 2 ^ 32, 2 ^ 32 - 1, false⟩

theorem chunks_longBuffer (req : SQEntryWrapper) (length : Nat) :
    chunks longHost req.withLongBuffer length = .ok (some longBuffer) := by
  have htype : SGLDescriptor.type ⟨0, (0x3000000000000050 : BitVec 64).setWidth 32,
      ((0x3000000000000050 : BitVec 64) >>> 56).setWidth 8⟩ = .lastSegment := by decide
  have hsgl : chunks longHost req.withLongBuffer length =
      SGL.new longHost.descriptor 0 0x3000000000000050 := if_pos rfl
  rw [hsgl, SGL.new]
  dsimp only
  rw [htype]
  dsimp only
  rw [SGL.parseSGLSegment]
  rfl

/-- Bytes of data are all sent. -/
theorem length_paired_map_some (k : Nat) (l : List Nat) :
    (paired k (l.map some)).length = l.length := by
  induction l generalizing k with
  | nil => rfl
  | cons a l ih => exact congrArg Nat.succ (ih (k + 1))

theorem places_data {chunkList : List Chunk} (h : ∀ c ∈ chunkList, c.ignore = false) :
    places chunkList = (chunkList.flatMap fun c => List.range' c.addr c.length).map some := by
  induction chunkList with
  | nil => rfl
  | cons c chunkList ih =>
    rw [places_cons, ih fun c' hc' => h c' (List.mem_cons_of_mem c hc'), Chunk.places,
      h c List.mem_cons_self, if_neg Bool.false_ne_true, List.flatMap_cons, List.map_append]

/-- Two parts of a buffer of data are the same to the log only if both begin with it and are as
long. -/
theorem window_unique {l : List Nat} {offset size n : Nat} (hpos : 0 < n) (hn : n ≤ l.length)
    (hsize : size ≤ l.length)
    (h : paired 0 (((l.map some).drop offset).take size) = paired offset ((l.map some).take n)) :
    offset = 0 ∧ size = n := by
  rw [← List.map_drop, ← List.map_take, ← List.map_take] at h
  have hlength := congrArg List.length h
  rw [length_paired_map_some, length_paired_map_some, List.length_take, List.length_take,
    List.length_drop] at hlength
  have hoffset : offset = 0 := by
    cases hright : l.take n with
    | nil =>
      have := congrArg List.length hright
      rw [List.length_take, List.length_nil] at this
      omega
    | cons a rest =>
      cases hleft : (l.drop offset).take size with
      | nil =>
        have := congrArg List.length hleft
        rw [List.length_take, List.length_drop, List.length_nil] at this
        omega
      | cons b rest' =>
        -- the first byte is one of the log, and one of the window
        rw [hleft, hright] at h
        have hfirst : (0, b) = (offset, a) := (List.cons.inj h).1
        exact (congrArg Prod.fst hfirst).symm
  omega

end Buffer

/-! ### Which windows are returned -/

namespace LogPage

variable {log : LogPage} {req : SQEntryWrapper}

theorem WholeWindow.returns (h : log.WholeWindow req) (hselects : log.Selects req) :
    log.ReturnsWindow req := by
  have hwhole : req.logOffset = 0 ∧ req.windowBytes ≤ log.size ∧ req.windowBytes < 2 ^ 32 ∧
      log.sentBytes req = req.windowBytes := by
    have hmod := toNat_reqSize req
    cases log with
    | smart => exact ⟨h.1, h.2.le, by rw [h.2]; decide, h.2.symm⟩
    | smartOf nsid => exact ⟨h.1, h.2.le, by rw [h.2]; decide, h.2.symm⟩
    | chunkInformation p =>
      exact ⟨h.1, h.2.1, h.2.2, by rw [LogPage.sentBytes, hmod, Nat.mod_eq_of_lt h.2.2]⟩
  obtain ⟨hoffset, hsize, hlt, hsent⟩ := hwhole
  intro host data1 data2 useSGL
  -- the pointers are no part of the window
  have hoffset' : (req.withPointers data1 data2 useSGL).logOffset = 0 := hoffset
  have hselects' : log.Selects (req.withPointers data1 data2 useSGL) := by
    cases log <;> exact hselects
  have hreqSize : (req.withPointers data1 data2 useSGL).reqSize.toNat = req.windowBytes :=
    (toNat_reqSize req).trans (Nat.mod_eq_of_lt hlt)
  have hsent' : log.sentBytes (req.withPointers data1 data2 useSGL) = req.windowBytes := by
    cases log <;> exact hsent
  refine ⟨fun _ chunkList hchunks _ => ?_, fun hbehind => ?_⟩
  · rw [get_eq hselects', hsent', hoffset']
    have hchunks' : chunks host (req.withPointers data1 data2 useSGL)
        (req.withPointers data1 data2 useSGL).reqSize.toNat = .ok (some chunkList) := by
      rw [hreqSize]
      exact hchunks
    obtain ⟨reply, hreply, hbytes⟩ := transfer_bytes hchunks' req.windowBytes
    refine ⟨reply, hreply, ?_⟩
    rw [hbytes, hoffset']
    rfl
  · rw [hoffset'] at hbehind
    exact absurd hbehind (Nat.not_lt.mpr ((Nat.zero_add _).le.trans hsize))

/-- A window is returned to every buffer exactly when it begins with the log, and is the whole of a
health log, or in the information about the chunks and of less than 4 GiB. -/
theorem log_window_iff (log : LogPage) (req : SQEntryWrapper) (hselects : log.Selects req) :
    log.ReturnsWindow req ↔ log.WholeWindow req := by
  constructor
  · intro h
    obtain ⟨hsent, hrefused⟩ := h longHost 0 0x3000000000000050 true
    have hselects' : log.Selects req.withLongBuffer := by cases log <;> exact hselects
    obtain ⟨hpos, hle⟩ := windowBytes_bounds req
    have hbounds : req.logOffset.toNat + req.windowBytes ≤ log.size := by
      by_contra hbehind
      obtain ⟨reply, resp, hreply, hanswer, -⟩ := hrefused (Nat.lt_of_not_le hbehind)
      have hget := (get_eq hselects' longHost).symm.trans hreply
      rw [transfer_answer hget] at hanswer
      cases hanswer
    obtain ⟨l, hl, hlength⟩ : ∃ l : List Nat, places longBuffer = l.map some ∧
        l.length = 5 * (2 ^ 32 - 1) := by
      have hdata := places_data (show ∀ c ∈ longBuffer, c.ignore = false by decide)
      refine ⟨_, hdata, ?_⟩
      have hlen := length_places longBuffer
      rw [hdata, List.length_map] at hlen
      exact hlen
    obtain ⟨reply, hreply, hwindow⟩ := hsent hbounds longBuffer (chunks_longBuffer req _)
      (by rw [hl, List.length_map, hlength]; exact hle.trans (by decide))
    obtain ⟨reply', hreply', hbytes⟩ := transfer_bytes (chunks_longBuffer req req.reqSize.toNat)
      (log.sentBytes req)
    have hsame : reply' = reply := by
      have hget := (get_eq hselects' longHost).symm.trans hreply
      have hsize : log.sentBytes req.withLongBuffer = log.sentBytes req := by cases log <;> rfl
      rw [hsize] at hget
      exact Except.ok.inj (hreply'.symm.trans hget)
    rw [hsame] at hbytes
    have hlt : log.sentBytes req ≤ l.length := by
      have := req.reqSize.isLt
      rw [hlength]
      cases log with
      | smart => exact Nat.le_of_ble_eq_true rfl
      | smartOf nsid => exact Nat.le_of_ble_eq_true rfl
      | chunkInformation p => exact this.le.trans (by decide)
    obtain ⟨hoffset, hn⟩ := window_unique hpos (by omega) hlt (hl ▸ hbytes.symm.trans hwindow)
    have hzero : req.logOffset = 0 := BitVec.eq_of_toNat_eq hoffset
    cases log with
    | smart => exact ⟨hzero, hn.symm⟩
    | smartOf nsid => exact ⟨hzero, hn.symm⟩
    | chunkInformation p =>
      refine ⟨hzero, by omega, ?_⟩
      rw [← hn]
      exact req.reqSize.isLt
  · exact fun h => h.returns hselects

end LogPage

/-- Get Log Page of the health log of the controller: so many dwords, from an offset on. -/
def smartCommand (dwords offset : BitVec 32) : SQEntryWrapper :=
  ⟨0x02, 0, 0xFFFFFFFF, 0x1000, 0, (dwords - 1) <<< 16 ||| 0x02, 0, offset, 0, 0, 0, 0, 0, false⟩

theorem log_window_whole : LogPage.smart.ReturnsWindow (smartCommand 128 0) :=
  (LogPage.log_window_iff .smart (smartCommand 128 0) ⟨by decide, by decide⟩).mpr
    ⟨by decide, by decide⟩

/-- The last dword is asked for, with a buffer for it. The buffer ends before the place where the
transfer would begin, and nothing is sent. -/
theorem not_returns_last : ¬ LogPage.smart.ReturnsWindow (smartCommand 1 508) := by
  intro h
  have hchunks : chunks ⟨4096, fun _ => 0, fun _ => ⟨0, 0, 0⟩⟩
      ((smartCommand 1 508).withPointers 0x1000 0 false) 4 = .ok (some [⟨0x1000, 4, false⟩]) := rfl
  obtain ⟨reply, hreply, hwindow⟩ := (h _ 0x1000 0 false).sent (by decide) _ hchunks (by decide)
  obtain ⟨reply', hreply', hbytes⟩ := transfer_bytes hchunks 512
  have hselects : LogPage.smart.Selects ((smartCommand 1 508).withPointers 0x1000 0 false) :=
    ⟨by decide, by decide⟩
  rw [get_eq hselects] at hreply
  cases hreply.symm.trans hreply'
  exact absurd (hbytes.symm.trans hwindow) (by decide)

end SimpleSSD.HIL.NVMe
