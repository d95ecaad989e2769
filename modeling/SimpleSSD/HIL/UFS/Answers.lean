import SimpleSSD.HIL.UFS.Doorbell

/-!
# Which requests are answered

A request is over when its last callback has come, so it needs one as long as it is in
flight. A response without a place or a length is never fetched or written, a command
that is not SCSI is dropped by the device, and a transfer whose length is a multiple of
2^32 asks for no byte: the DMA interface ignores all three. Where none of this happens
(`Answered`), every request in flight is owed a callback, and every callback brings it
closer to its end (`left`).
-/

namespace SimpleSSD.HIL.UFS

/-! ### What the device waits for -/

/-- The blocks that a command reads or writes. -/
def UPIUCommand.blocks (req : UPIUCommand) : Nat :=
  match ScsiCommand.ofCode (req.cdbAt 0) with
  | some .read6 | some .write6 => req.nlb6
  | some .read10 | some .write10 => req.nlb10
  | _ => 0

/-- The callbacks that a wait takes. -/
def Wait.cost : Wait → Nat
  | .call => 1
  | .transfer sizes => sizes.length

/-- The callbacks that the waits take. -/
def costs (waits : List Wait) : Nat := (waits.map Wait.cost).sum

@[simp] theorem costs_nil : costs [] = 0 := rfl

@[simp] theorem costs_cons (wait : Wait) (waits : List Wait) :
    costs (wait :: waits) = wait.cost + costs waits := by
  rw [costs, List.map_cons, List.sum_cons, costs]

@[simp] theorem costs_append (waits waits' : List Wait) :
    costs (waits ++ waits') = costs waits + costs waits' := by
  rw [costs, List.map_append, List.sum_append, costs, costs]

/-- No DMA request of size zero is made. -/
def Nonzero (waits : List Wait) : Prop := ∀ sizes, .transfer sizes ∈ waits → ∀ n ∈ sizes, n ≠ 0

section Waits

variable {lbaSize length : Nat} {req : UPIUCommand} {prdt : List PRDT} {wait : Wait}
  {waits waits' : List Wait}

theorem Nonzero.append (h : Nonzero waits) (h' : Nonzero waits') : Nonzero (waits ++ waits') := by
  intro sizes hsizes
  rcases List.mem_append.mp hsizes with hsizes | hsizes
  · exact h sizes hsizes
  · exact h' sizes hsizes

theorem Nonzero.tail (h : Nonzero (wait :: waits)) : Nonzero waits :=
  fun sizes hsizes => h sizes (List.mem_cons_of_mem _ hsizes)

theorem nonzero_calls (n : Nat) : Nonzero (List.replicate n .call) := by
  intro sizes hsizes
  cases List.eq_of_mem_replicate hsizes

theorem costs_prdtTransfer : costs (prdtTransfer prdt length) ≤ prdt.length + 1 := by
  have hlength := @length_prdtSizes prdt (length % 2 ^ 32)
  simp only [prdtTransfer, costs_cons, costs_nil, Wait.cost]
  omega

theorem nonzero_prdtTransfer (h : prdt = [] ∨ length % 2 ^ 32 ≠ 0) :
    Nonzero (prdtTransfer prdt length) := by
  intro sizes hsizes n hn
  obtain rfl : sizes = prdtSizes prdt (length % 2 ^ 32) := by
    simpa [prdtTransfer] using hsizes
  rcases h with rfl | h
  · cases hn
  · exact (prdtSizes_pos (Nat.pos_of_ne_zero h) n hn).ne'

/-- The waits of a SCSI command: calls, and at most one transfer between them, of a fixed
length or of the blocks that the command names. -/
theorem scsiWaits_cases : (∃ n ≤ 2, scsiWaits lbaSize req prdt = List.replicate n .call) ∨
    ∃ length, (0 < req.blocks ∧ length = req.blocks * lbaSize ∨ length % 2 ^ 32 ≠ 0) ∧
      ∃ m n, m + n ≤ 2 ∧ scsiWaits lbaSize req prdt =
        List.replicate m .call ++ prdtTransfer prdt length ++ List.replicate n .call := by
  have hnone : ∃ n ≤ 2, ([] : List Wait) = List.replicate n .call := ⟨0, by omega, rfl⟩
  have hfixed : ∀ length, length % 2 ^ 32 ≠ 0 → ∃ length',
      (0 < req.blocks ∧ length' = req.blocks * lbaSize ∨ length' % 2 ^ 32 ≠ 0) ∧
        ∃ m n, m + n ≤ 2 ∧ prdtTransfer prdt length =
          List.replicate m .call ++ prdtTransfer prdt length' ++ List.replicate n .call :=
    fun length hlength => ⟨length, .inr hlength, 0, 0, by omega, by simp⟩
  rw [scsiWaits]
  split
  · split
    · exact .inr (hfixed 36 (by decide))
    · exact .inl hnone
  · split
    · next size hsize =>
      refine .inr (hfixed size ?_)
      unfold modePageSize at hsize
      split_ifs at hsize <;> cases hsize <;> decide
    · exact .inl hnone
  · exact .inr (hfixed 40 (by decide))
  · next hcode =>
    have hblocks : req.blocks = req.nlb6 := by rw [UPIUCommand.blocks, hcode]
    rw [readWaits, ← hblocks]
    split
    · next hpos => exact .inr ⟨_, .inl ⟨hpos, rfl⟩, 2, 0, by omega, by simp⟩
    · exact .inl hnone
  · next hcode =>
    have hblocks : req.blocks = req.nlb10 := by rw [UPIUCommand.blocks, hcode]
    rw [readWaits, ← hblocks]
    split
    · next hpos => exact .inr ⟨_, .inl ⟨hpos, rfl⟩, 2, 0, by omega, by simp⟩
    · exact .inl hnone
  · exact .inr (hfixed 8 (by decide))
  · exact .inr (hfixed 32 (by decide))
  · next hcode =>
    have hblocks : req.blocks = req.nlb6 := by rw [UPIUCommand.blocks, hcode]
    rw [writeWaits, ← hblocks]
    split
    · next hpos => exact .inr ⟨_, .inl ⟨hpos, rfl⟩, 0, 2, by omega, by simp⟩
    · exact .inl hnone
  · next hcode =>
    have hblocks : req.blocks = req.nlb10 := by rw [UPIUCommand.blocks, hcode]
    rw [writeWaits, ← hblocks]
    split
    · next hpos => exact .inr ⟨_, .inl ⟨hpos, rfl⟩, 0, 2, by omega, by simp⟩
    · exact .inl hnone
  · split
    · exact .inl ⟨2, le_rfl, rfl⟩
    · exact .inl hnone
  · exact .inl hnone

theorem costs_scsiWaits : costs (scsiWaits lbaSize req prdt) ≤ prdt.length + 3 := by
  have hcalls : ∀ n, costs (List.replicate n .call) = n := by
    intro n
    induction n with
    | zero => rfl
    | succ n ih => rw [List.replicate_succ, costs_cons, ih, Wait.cost, Nat.add_comm]
  rcases @scsiWaits_cases lbaSize req prdt with ⟨n, hn, h⟩ | ⟨length, -, m, n, hmn, h⟩
  · rw [h, hcalls]
    omega
  · have htransfer := @costs_prdtTransfer length prdt
    rw [h, costs_append, costs_append, hcalls, hcalls]
    omega

theorem nonzero_scsiWaits
    (h : prdt = [] ∨ req.blocks = 0 ∨ req.blocks * lbaSize % 2 ^ 32 ≠ 0) :
    Nonzero (scsiWaits lbaSize req prdt) := by
  rcases @scsiWaits_cases lbaSize req prdt with ⟨n, -, hwaits⟩ | ⟨length, hlength, m, n, -, hwaits⟩
  · rw [hwaits]
    exact nonzero_calls n
  · rw [hwaits]
    refine ((nonzero_calls m).append (nonzero_prdtTransfer ?_)).append (nonzero_calls n)
    rcases hlength with ⟨hpos, rfl⟩ | hlength
    · exact h.imp_right fun h => h.resolve_left hpos.ne'
    · exact .inr hlength

end Waits

/-! ### What a request is owed -/

/-- More callbacks than a request takes after its fetches. -/
def fetchCost : Nat := 2 ^ 16 + 16

/-- The events that a callback leaves to its request at most, itself included. -/
def Callback.weight : Callback → Nat
  | descriptorRead => 2 * fetchCost + 1
  | reqRead | prdtRead => fetchCost
  | call | transferred => 1
  | responseWritten => 3
  | descriptorWritten => 2

namespace RequestContext

/-- The request in the buffer is one that the device answers. -/
def Answerable (lbaSize : Nat) (ctx : RequestContext) : Prop :=
  (fetch ctx.transferReq 0).All fun b => b &&& 0x3F = UPIUOpcode.command.code →
    (UPIUCommand.new.set ctx.transferReq).All fun r => ctx.cmd = .scsi ∧
      (ctx.prdt = [] ∨ r.2.blocks = 0 ∨ r.2.blocks * lbaSize % 2 ^ 32 ≠ 0)

/-- What arrives describes a request that is answered. -/
def Answered (lbaSize : Nat) (ctx : RequestContext) : Arrival → Prop
  | .descriptorRead desc => desc.respUPIUOffset ≠ 0 ∧ desc.respUPIULength ≠ 0
  | .reqRead mem => ctx.prdtDone = true → (ctx.withReq mem).Answerable lbaSize
  | .prdtRead mem => ctx.reqDone = true → (ctx.withPRDT mem).Answerable lbaSize
  | _ => True

instance (lbaSize : Nat) (ctx : RequestContext) : Decidable (ctx.Answerable lbaSize) :=
  inferInstanceAs (Decidable (Except.All _ _))

instance (lbaSize : Nat) (ctx : RequestContext) : ∀ a, Decidable (ctx.Answered lbaSize a)
  | .descriptorRead _ => inferInstanceAs (Decidable (_ ∧ _))
  | .reqRead _ => inferInstanceAs (Decidable (_ → _))
  | .prdtRead _ => inferInstanceAs (Decidable (_ → _))
  | .call => instDecidableTrue
  | .transferred => instDecidableTrue
  | .responseWritten => instDecidableTrue
  | .descriptorWritten _ => instDecidableTrue

/-- A request in flight is owed the callbacks of its stage. -/
inductive Live (ctx : RequestContext) : Prop where
  | descriptor (hpending : ctx.pending = [.descriptorRead]) (hreq : ctx.reqDone = false)
      (hprdt : ctx.prdtDone = false) (hwaits : ctx.waits = []) (htable : ctx.prdt = [])
  | fetches (hpending : ctx.pending = [.prdtRead, .reqRead]) (hreq : ctx.reqDone = false)
      (hprdt : ctx.prdtDone = false) (hresp : ctx.transferReqDesc.respUPIULength ≠ 0)
      (hwaits : ctx.waits = []) (htable : ctx.prdt.length < 2 ^ 16)
  | request (hpending : ctx.pending = [.reqRead]) (hprdt : ctx.prdtDone = true)
      (hresp : ctx.transferReqDesc.respUPIULength ≠ 0) (hwaits : ctx.waits = [])
      (htable : ctx.prdt.length < 2 ^ 16)
  | table (hpending : ctx.pending = [.prdtRead]) (hreq : ctx.reqDone = true)
      (hresp : ctx.transferReqDesc.respUPIULength ≠ 0) (hwaits : ctx.waits = [])
  | call {waits : List Wait} (hpending : ctx.pending = [.call])
      (hresp : ctx.transferReqDesc.respUPIULength ≠ 0) (hwaits : ctx.waits = .call :: waits)
      (hrest : Nonzero waits)
  | transfer {sizes : List Nat} {waits : List Wait} (hcounter : 0 < ctx.counter)
      (hpending : ctx.pending = List.replicate ctx.counter .transferred)
      (hresp : ctx.transferReqDesc.respUPIULength ≠ 0)
        (hwaits : ctx.waits = .transfer sizes :: waits)
      (hrest : Nonzero waits)
  | response (hpending : ctx.pending = [.responseWritten]) (hwaits : ctx.waits = [])
  | writeBack (hpending : ctx.pending = [.descriptorWritten]) (hwaits : ctx.waits = [])

/-- The events left to a request at most. -/
def left (ctx : RequestContext) : Nat :=
  (ctx.pending.map Callback.weight).sum + if ctx.waits = [] then 0 else costs ctx.waits.tail + 3

section Live

variable {lbaSize size : Nat} {ctx ctx' : RequestContext} {arrival : Arrival} {callback : Callback}
  {waits : List Wait}

theorem new_live (i : Fin 32) : (new i).Live := .descriptor rfl rfl rfl rfl rfl

theorem Live.pending_ne_nil (h : ctx.Live) : ctx.pending ≠ [] := by
  cases h with
  | descriptor hpending => exact hpending ▸ List.cons_ne_nil _ _
  | fetches hpending => exact hpending ▸ List.cons_ne_nil _ _
  | request hpending => exact hpending ▸ List.cons_ne_nil _ _
  | table hpending => exact hpending ▸ List.cons_ne_nil _ _
  | call hpending => exact hpending ▸ List.cons_ne_nil _ _
  | transfer hcounter hpending =>
    rw [hpending]
    exact fun h => hcounter.ne' ((List.replicate_eq_nil_iff _).mp h)
  | response hpending => exact hpending ▸ List.cons_ne_nil _ _
  | writeBack hpending => exact hpending ▸ List.cons_ne_nil _ _

theorem left_of_waits {pending : List Callback} (hpending : ctx.pending = pending)
    (hwaits : ctx.waits = []) : ctx.left = (pending.map Callback.weight).sum := by
  rw [left, if_pos hwaits, hpending, Nat.add_zero]

theorem left_of_cons {pending : List Callback} {wait : Wait} (hpending : ctx.pending = pending)
    (hwaits : ctx.waits = wait :: waits) :
    ctx.left = (pending.map Callback.weight).sum + (costs waits + 3) := by
  rw [left, hwaits, if_neg (List.cons_ne_nil _ _), hpending, List.tail_cons]

theorem weight_le_left (h : callback ∈ ctx.pending) : callback.weight ≤ ctx.left := by
  have hsum := ((List.perm_cons_erase h).map Callback.weight).sum_nat
  rw [List.map_cons, List.sum_cons] at hsum
  rw [left, hsum]
  omega

theorem dma_of_ne (h : size ≠ 0) :
    ctx.dma size callback = { ctx with pending := callback :: ctx.pending } := if_neg h

theorem done_live (hresp : ctx.transferReqDesc.respUPIULength ≠ 0) (hpending : ctx.pending = []) :
    ctx.done.Live ∧ ctx.done.left = 3 := by
  have hsize : ctx.transferReqDesc.respUPIULength.toNat * 4 ≠ 0 := by
    have hpos : ctx.transferReqDesc.respUPIULength.toNat ≠ 0 :=
      fun h => hresp (UInt16.toNat_inj.mp h)
    omega
  have hdone : ctx.done = { ctx with waits := [], pending := [.responseWritten] } := by
    rw [done, dma_of_ne hsize]
    simp only [hpending]
  rw [hdone]
  exact ⟨.response rfl rfl, rfl⟩

/-- What the device begins is called back, as long as it asks for bytes. -/
theorem waitFor_live (hresp : ctx.transferReqDesc.respUPIULength ≠ 0) (hpending : ctx.pending = [])
    (hwaits : Nonzero waits) :
    (ctx.waitFor waits).Live ∧ (ctx.waitFor waits).left ≤ costs waits + 3 := by
  fun_induction waitFor with
  | case1 ctx =>
    obtain ⟨hlive, hleft⟩ := done_live hresp hpending
    exact ⟨hlive, hleft.le⟩
  | case2 waits ctx =>
    refine ⟨.call (by rw [hpending]) hresp rfl hwaits.tail, ?_⟩
    rw [left, hpending, if_neg (List.cons_ne_nil _ _), costs_cons]
    simp only [List.map_cons, List.map_nil, List.sum_cons, List.sum_nil, List.tail_cons,
      Callback.weight, Wait.cost]
    omega
  | case3 waits ctx ih =>
    obtain ⟨hlive, hleft⟩ := ih hresp hpending hwaits.tail
    refine ⟨hlive, hleft.trans ?_⟩
    rw [costs_cons]
    omega
  | case4 size sizes waits ctx =>
    have hall : ((size :: sizes).filter fun n => n ≠ 0) = size :: sizes := by
      refine List.filter_eq_self.mpr fun n hn => ?_
      exact decide_eq_true (hwaits (size :: sizes) List.mem_cons_self n hn)
    have howed : (((size :: sizes).filter fun n => n ≠ 0).map fun _ => Callback.transferred) ++
        ctx.pending = List.replicate (size :: sizes).length .transferred := by
      rw [hall, hpending, List.append_nil, List.map_const']
    refine ⟨.transfer (Nat.succ_pos _) howed hresp rfl hwaits.tail, ?_⟩
    rw [left, if_neg (List.cons_ne_nil _ _), howed, costs_cons, List.map_replicate]
    simp only [List.sum_replicate_nat, Callback.weight, Wait.cost, List.tail_cons]
    omega

/-- `doRequest` begins what is called back when the request is one that is answered. -/
theorem doRequest_live (hresp : ctx.transferReqDesc.respUPIULength ≠ 0)
    (hpending : ctx.pending = [])
    (htable : ctx.prdt.length < 2 ^ 16) (hans : ctx.Answerable lbaSize)
    (h : ctx.doRequest lbaSize = .ok ctx') : ctx'.Live ∧ ctx'.left < fetchCost := by
  rw [doRequest, Except.bind_eq_ok] at h
  obtain ⟨b, hb, h⟩ := h
  split at h
  · cases h
    obtain ⟨hlive, hleft⟩ := done_live hresp hpending
    exact ⟨hlive, by rw [hleft]; decide⟩
  split at h
  · cases h
    obtain ⟨hlive, hleft⟩ := waitFor_live hresp hpending (nonzero_calls 1)
    exact ⟨hlive, hleft.trans_lt (by decide)⟩
  split at h
  · next hcommand =>
    rw [Except.bind_eq_ok] at h
    obtain ⟨r, hr, h⟩ := h
    obtain ⟨hscsi, hbytes⟩ := (hans.of_ok hb hcommand).of_ok hr
    rw [hscsi] at h
    cases h
    obtain ⟨hlive, hleft⟩ := waitFor_live hresp hpending
      ((nonzero_scsiWaits hbytes).append (nonzero_calls 1))
    have hcosts := @costs_scsiWaits lbaSize r.2 ctx.prdt
    refine ⟨hlive, hleft.trans_lt ?_⟩
    rw [costs_append, fetchCost]
    simp only [List.replicate_one, costs_cons, costs_nil, Wait.cost]
    omega
  · cases h

/-- The only callback that is owed comes. -/
theorem called_of_one (hpending : ctx.pending = [callback]) :
    (ctx.called callback).pending = [] := by
  rw [called, hpending, List.erase_cons_head]

/-- Both fetches are begun. -/
theorem processUTPCommand_live (hoffset : ctx.transferReqDesc.respUPIUOffset ≠ 0)
    (hresp : ctx.transferReqDesc.respUPIULength ≠ 0) (hpending : ctx.pending = [])
    (hreq : ctx.reqDone = false) (hprdt : ctx.prdtDone = false) (hwaits : ctx.waits = [])
    (htable : ctx.prdt = []) :
    ctx.processUTPCommand.Live ∧ ctx.processUTPCommand.left ≤ 2 * fetchCost := by
  have hsize : ctx.transferReqDesc.respUPIUOffset.toNat * 4 ≠ 0 := by
    have hpos : ctx.transferReqDesc.respUPIUOffset.toNat ≠ 0 :=
      fun h => hoffset (UInt16.toNat_inj.mp h)
    omega
  rw [processUTPCommand, dma_of_ne hsize, hpending]
  dsimp only
  split
  · next hlength =>
    have hsize : ctx.transferReqDesc.prdtLength.toNat * 16 ≠ 0 := by
      have hpos : 0 < ctx.transferReqDesc.prdtLength.toNat := UInt16.lt_iff_toNat_lt.mp hlength
      omega
    rw [dma_of_ne hsize]
    refine ⟨.fetches rfl hreq hprdt hresp hwaits (htable ▸ by decide), ?_⟩
    exact Eq.trans_le (@left_of_waits _ [.prdtRead, .reqRead] rfl hwaits) (by decide)
  · refine ⟨.request rfl rfl hresp hwaits (htable ▸ by decide), ?_⟩
    exact Eq.trans_le (@left_of_waits _ [.reqRead] rfl hwaits) (by decide)

/-- The request arrives: it is processed if the table is there. -/
theorem reqRead_live {mem : Nat → UInt8} (hresp : ctx.transferReqDesc.respUPIULength ≠ 0)
    (hwaits : ctx.waits = []) (htable : ctx.prdt.length < 2 ^ 16)
    (hpending : ctx.pending = if ctx.prdtDone then [] else [.prdtRead])
    (hans : ctx.Answered lbaSize (.reqRead mem))
    (h : ctx.receive lbaSize (.reqRead mem) = .ok ctx') :
    ctx'.Live ∧ ctx'.left ≤ fetchCost ∧ (ctx.prdtDone = true → ctx'.left < fetchCost) := by
  rw [receive] at h
  split at h
  · next hdone =>
    rw [if_pos hdone] at hpending
    obtain ⟨hlive, hleft⟩ :=
      @doRequest_live _ (ctx.withReq mem) _ hresp hpending htable (hans hdone) h
    exact ⟨hlive, hleft.le, fun _ => hleft⟩
  · next hdone =>
    cases h
    rw [if_neg hdone] at hpending
    refine ⟨.table hpending rfl hresp hwaits, ?_, fun h => absurd h hdone⟩
    exact Eq.trans_le (left_of_waits hpending hwaits) (by decide)

/-- The table arrives: the request is processed if it is there. -/
theorem prdtRead_live {mem : Nat → PRDT} (hresp : ctx.transferReqDesc.respUPIULength ≠ 0)
    (hwaits : ctx.waits = []) (hpending : ctx.pending = if ctx.reqDone then [] else [.reqRead])
    (hans : ctx.Answered lbaSize (.prdtRead mem))
    (h : ctx.receive lbaSize (.prdtRead mem) = .ok ctx') :
    ctx'.Live ∧ ctx'.left ≤ fetchCost ∧ (ctx.reqDone = true → ctx'.left < fetchCost) := by
  have htable : (ctx.withPRDT mem).prdt.length < 2 ^ 16 := by
    rw [withPRDT, List.length_map, List.length_range]
    exact UInt16.toNat_lt _
  rw [receive] at h
  split at h
  · next hdone =>
    rw [if_pos hdone] at hpending
    obtain ⟨hlive, hleft⟩ :=
      @doRequest_live _ (ctx.withPRDT mem) _ hresp hpending htable (hans hdone) h
    exact ⟨hlive, hleft.le, fun _ => hleft⟩
  · next hdone =>
    cases h
    rw [if_neg hdone] at hpending
    refine ⟨.request hpending rfl hresp hwaits htable, ?_, fun h => absurd h hdone⟩
    exact Eq.trans_le (left_of_waits hpending hwaits) (by decide)

/-- The descriptor arrives: both fetches are begun. -/
theorem descriptorRead_live {desc : UTPTransferReqDesc} (hoffset : desc.respUPIUOffset ≠ 0)
    (hresp : desc.respUPIULength ≠ 0) (hpending : ctx.pending = []) (hreq : ctx.reqDone = false)
    (hprdt : ctx.prdtDone = false) (hwaits : ctx.waits = []) (htable : ctx.prdt = [])
    (h : ctx.receive lbaSize (.descriptorRead desc) = .ok ctx') :
    ctx'.Live ∧ ctx'.left ≤ 2 * fetchCost := by
  rw [receive] at h
  split at h
  · next cmd hcmd =>
    cases h
    exact @processUTPCommand_live { ctx with transferReqDesc := desc, cmd := cmd } hoffset hresp
      hpending hreq hprdt hwaits htable
  · cases h

/-- A call comes: what the device waits for next begins. -/
theorem call_live (hpending : ctx.pending = [.call])
    (hresp : ctx.transferReqDesc.respUPIULength ≠ 0) (hwaits : ctx.waits = .call :: waits)
    (hrest : Nonzero waits) (h : (ctx.called .call).receive lbaSize .call = .ok ctx') :
    ctx'.Live ∧ ctx'.left < ctx.left := by
  have htail : (ctx.called .call).waits.tail = waits := congrArg List.tail hwaits
  rw [receive, htail] at h
  cases h
  obtain ⟨hlive, hle⟩ := @waitFor_live (ctx.called .call) waits hresp (called_of_one hpending) hrest
  rw [left_of_cons hpending hwaits]
  exact ⟨hlive, hle.trans_lt (Nat.lt_add_of_pos_left (by decide))⟩

/-- A DMA request of a transfer is done: what the device waits for next begins with the last. -/
theorem transferred_live {sizes : List Nat} (hcounter : 0 < ctx.counter)
    (hpending : ctx.pending = List.replicate ctx.counter .transferred)
    (hresp : ctx.transferReqDesc.respUPIULength ≠ 0) (hwaits : ctx.waits = .transfer sizes :: waits)
    (hrest : Nonzero waits)
    (h : (ctx.called .transferred).receive lbaSize .transferred = .ok ctx') :
    ctx'.Live ∧ ctx'.left < ctx.left := by
  have hcalled : (ctx.called .transferred).pending =
      List.replicate (ctx.counter - 1) .transferred := by
    rw [called, hpending, List.erase_replicate_self]
  have htail : (ctx.called .transferred).waits.tail = waits := congrArg List.tail hwaits
  rw [left_of_cons hpending hwaits]
  rw [receive] at h
  dsimp only at h
  split at h
  · next hlast =>
    have hlast : ctx.counter - 1 = 0 := hlast
    rw [hlast] at hcalled
    rw [htail] at h
    cases h
    obtain ⟨hlive, hle⟩ := @waitFor_live
      { ctx.called .transferred with counter := (ctx.called .transferred).counter - 1 }
      waits hresp hcalled hrest
    refine ⟨hlive, hle.trans_lt ?_⟩
    rw [List.map_replicate, List.sum_replicate_nat, Callback.weight]
    omega
  · next hmore =>
    have hmore : ctx.counter - 1 ≠ 0 := hmore
    cases h
    refine ⟨.transfer (Nat.pos_of_ne_zero hmore) hcalled hresp hwaits hrest, ?_⟩
    refine Eq.trans_lt (left_of_cons hcalled hwaits) ?_
    rw [List.map_replicate, List.sum_replicate_nat, List.map_replicate, List.sum_replicate_nat,
      Callback.weight]
    omega

/-- The step of a request: a callback that it is owed brings it closer to its end, and
it is owed another one until its descriptor is written back. -/
theorem receive_live (h : ctx.Live) (howed : arrival.callback ∈ ctx.pending)
    (hans : ctx.Answered lbaSize arrival)
    (hreceive : (ctx.called arrival.callback).receive lbaSize arrival = .ok ctx') :
    ctx'.left < ctx.left ∧ ((∀ now, arrival ≠ .descriptorWritten now) → ctx'.Live) := by
  -- by the stage of the request: no callback but those it is owed can come
  cases h with
  | descriptor hpending hreq hprdt hwaits htable =>
    rw [hpending, List.mem_singleton] at howed
    rw [left_of_waits hpending hwaits]
    cases arrival with
    | descriptorRead desc =>
      obtain ⟨hlive, hle⟩ := @descriptorRead_live _ (ctx.called .descriptorRead) _ _ hans.1 hans.2
        (called_of_one hpending) hreq hprdt hwaits htable hreceive
      exact ⟨hle.trans_lt (by decide), fun _ => hlive⟩
    | _ => cases howed
  | fetches hpending hreq hprdt hresp hwaits htable =>
    rw [hpending] at howed
    rw [left_of_waits hpending hwaits]
    cases arrival with
    | reqRead mem =>
      have hleft : (ctx.called .reqRead).pending = if ctx.prdtDone then [] else [.prdtRead] := by
        rw [called, hpending, hprdt]
        rfl
      obtain ⟨hlive, hle, -⟩ := @reqRead_live _ (ctx.called .reqRead) _ _ hresp hwaits htable hleft
        hans hreceive
      exact ⟨hle.trans_lt (by decide), fun _ => hlive⟩
    | prdtRead mem =>
      have hleft : (ctx.called .prdtRead).pending = if ctx.reqDone then [] else [.reqRead] := by
        rw [called, hpending, hreq]
        rfl
      obtain ⟨hlive, hle, -⟩ := @prdtRead_live _ (ctx.called .prdtRead) _ _ hresp hwaits hleft hans
        hreceive
      exact ⟨hle.trans_lt (by decide), fun _ => hlive⟩
    | _ => simp [Arrival.callback] at howed
  | request hpending hprdt hresp hwaits htable =>
    rw [hpending, List.mem_singleton] at howed
    rw [left_of_waits hpending hwaits]
    cases arrival with
    | reqRead mem =>
      have hleft : (ctx.called .reqRead).pending = if ctx.prdtDone then [] else [.prdtRead] := by
        rw [called, hpending, hprdt]
        rfl
      obtain ⟨hlive, -, hlt⟩ := @reqRead_live _ (ctx.called .reqRead) _ _ hresp hwaits htable hleft
        hans hreceive
      exact ⟨hlt hprdt, fun _ => hlive⟩
    | _ => cases howed
  | table hpending hreq hresp hwaits =>
    rw [hpending, List.mem_singleton] at howed
    rw [left_of_waits hpending hwaits]
    cases arrival with
    | prdtRead mem =>
      have hleft : (ctx.called .prdtRead).pending = if ctx.reqDone then [] else [.reqRead] := by
        rw [called, hpending, hreq]
        rfl
      obtain ⟨hlive, -, hlt⟩ := @prdtRead_live _ (ctx.called .prdtRead) _ _ hresp hwaits hleft hans
        hreceive
      exact ⟨hlt hreq, fun _ => hlive⟩
    | _ => cases howed
  | @call waits hpending hresp hwaits hrest =>
    rw [hpending, List.mem_singleton] at howed
    cases arrival with
    | call =>
      obtain ⟨hlive, hlt⟩ := call_live hpending hresp hwaits hrest hreceive
      exact ⟨hlt, fun _ => hlive⟩
    | _ => cases howed
  | @transfer sizes waits hcounter hpending hresp hwaits hrest =>
    rw [hpending] at howed
    have harrival := List.eq_of_mem_replicate howed
    cases arrival with
    | transferred =>
      obtain ⟨hlive, hlt⟩ := transferred_live hcounter hpending hresp hwaits hrest hreceive
      exact ⟨hlt, fun _ => hlive⟩
    | _ => cases harrival
  | response hpending hwaits =>
    rw [hpending, List.mem_singleton] at howed
    rw [left_of_waits hpending hwaits]
    cases arrival with
    | responseWritten =>
      cases hreceive
      have hback : Callback.descriptorWritten :: (ctx.called .responseWritten).pending =
          [.descriptorWritten] := by rw [called_of_one hpending]
      refine ⟨Eq.trans_lt (left_of_waits hback hwaits) (by decide),
        fun _ => .writeBack hback hwaits⟩
    | _ => cases howed
  | writeBack hpending hwaits =>
    rw [hpending, List.mem_singleton] at howed
    rw [left_of_waits hpending hwaits]
    cases arrival with
    | descriptorWritten now =>
      cases hreceive
      have hnone := called_of_one hpending
      exact ⟨Eq.trans_lt (left_of_waits hnone hwaits) (by decide), fun h => absurd rfl (h now)⟩
    | _ => cases howed

end Live

end RequestContext

end SimpleSSD.HIL.UFS
