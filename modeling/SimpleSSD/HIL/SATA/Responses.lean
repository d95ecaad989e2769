import SimpleSSD.HIL.SATA.HBA

/-!
# The response protocol

A response takes four steps: its FIS is written, the write ends, the host acknowledges
it, its function is called. `InTurn` says that the responses take them one after
another. `submitFISPending` is never set, so the first response is written again when
another one is submitted behind it; a write to `P0IS` that comes before the end of the FIS
write counts as an acknowledgement, and so does one that leaves a status bit which the
register cannot keep; and a FIS that is no Register FIS clears bit 0 of `PxCI`. The runs
in which none of this happens are `Orderly`.
-/

namespace SimpleSSD.HIL.SATA

/-- The steps of a response. -/
def round (n : Nat) : List Event := [.write n, .written n, .acknowledged n, .called n]

/-- The steps of the first `n` responses, one after another. -/
def rounds (n : Nat) : List Event := (List.range n).flatMap round

theorem rounds_succ (n : Nat) : rounds (n + 1) = rounds n ++ round n := by
  rw [rounds, List.range_succ, List.flatMap_append, List.flatMap_singleton]
  rfl

namespace Completion

/-- A response always has a status bit. -/
theorem withMask_ne_zero (resp : Completion) : resp.withMask.maskIS ≠ 0#32 := by
  intro h
  have hkind := (BitVec.or_eq_zero_iff.mp (BitVec.or_eq_zero_iff.mp h).1).2
  split_ifs at hkind <;> exact absurd hkind (by decide)

end Completion

namespace HBA

/-! ### Responses in turn -/

/-- An event that keeps the responses in turn. -/
def Orderly (s : HBA) : Action → Prop
  | .submitFIS _ | .submitSignal _ => s.lResponseQueue = []
  | .writeP0IS temp => ∀ r ∈ s.lResponseQueue.head?, s.writes = [] ∧
      s.interruptStatus &&& r.maskIS &&& ~~~temp &&& ~~~writeMask = 0#32 ∧
      (s.interruptStatus &&& r.maskIS &&& ~~~temp = 0#32 →
        r.RegisterFIS r.slotIndex ∨ s.commandIssue.getLsbD r.slotIndex = false)
  | .doCompletion _ | .writeP0CI _ => True

instance (s : HBA) : ∀ a, Decidable (s.Orderly a)
  | .submitFIS _ => inferInstanceAs (Decidable (_ = []))
  | .submitSignal _ => inferInstanceAs (Decidable (_ = []))
  | .writeP0IS _ => inferInstanceAs (Decidable (∀ r ∈ s.lResponseQueue.head?, _))
  | .doCompletion _ => instDecidableTrue
  | .writeP0CI _ => instDecidableTrue

/-- A bit of `PxCI` is cleared only by the Register FIS of the command in its slot, with
its acknowledgement. -/
def ClearsOwn (s : HBA) (a : Action) : Prop :=
  ∀ s', s.exec a = .ok s' → ∀ i : Fin 32, s.commandIssue.getLsbD i = true →
    s'.commandIssue.getLsbD i = false → ∃ r ∈ s.lResponseQueue.head?, r.RegisterFIS i ∧
      s'.log = s.log ++ [.acknowledged r.id, .called r.id]

/-- Where the HBA stands when `n` responses are over. -/
inductive Stage (s : HBA) (n : Nat) : Prop where
  | idle (hqueue : s.lResponseQueue = []) (hwrites : s.writes = []) (hreported : s.reported = [])
      (hstatus : s.interruptStatus = 0#32) (hsubmitted : s.submitted = n) (hlog : s.log = rounds n)
  | writing (r : Response) (hqueue : s.lResponseQueue = [r]) (hid : r.id = n)
      (hmask : r.maskIS ≠ 0#32) (hwrites : s.writes = [(n, r.maskIS)]) (hreported : s.reported = [])
      (hstatus : s.interruptStatus = 0#32) (hsubmitted : s.submitted = n + 1)
      (hlog : s.log = rounds n ++ [.write n])
  | written (r : Response) (hqueue : s.lResponseQueue = [r]) (hid : r.id = n)
      (hwrites : s.writes = []) (hreported : s.reported = [(n, s.interruptStatus)])
      (hstatus : s.interruptStatus ≠ 0#32)
      (hcover : s.interruptStatus &&& r.maskIS = s.interruptStatus)
      (hsubmitted : s.submitted = n + 1) (hlog : s.log = rounds n ++ [.write n, .written n])

/-- The responses are in turn. -/
structure InTurn (s : HBA) : Prop where
  pending : s.submitFISPending = false
  stage : ∃ n, s.Stage n

section Steps

variable {s s' : HBA} {n k : Nat} {temp : BitVec 32} {resp : Completion} {action : Action}
  {actions : List Action} {r : Response}

theorem new_inTurn : new.InTurn := ⟨rfl, 0, .idle rfl rfl rfl rfl rfl rfl⟩

theorem submitFIS_inTurn (h : s.InTurn) (hqueue : s.lResponseQueue = []) :
    (s.submitFIS resp).InTurn := by
  obtain ⟨n, hstage⟩ := h.stage
  cases hstage with
  | idle _ hwrites hreported hstatus hsubmitted hlog =>
    have heq : s.submitFIS resp = { s with
        active := if resp.fis.type = FIS_TYPE_DEV_BITS then s.active &&& ~~~resp.fis.payload
          else s.active
        lResponseQueue := [⟨resp.withMask, n, false⟩]
        submitted := n + 1
        writes := [(n, resp.withMask.maskIS)]
        log := rounds n ++ [.write n] } := by
      simp [submitFIS, handleResponse, hqueue, hwrites, hsubmitted, hlog, h.pending]
    rw [heq]
    exact ⟨h.pending, n,
      .writing ⟨resp.withMask, n, false⟩ rfl rfl resp.withMask_ne_zero rfl hreported
      hstatus rfl rfl⟩
  | writing r hqueue' => simp [hqueue] at hqueue'
  | written r hqueue' => simp [hqueue] at hqueue'

theorem submitSignal_inTurn (h : s.InTurn) (hqueue : s.lResponseQueue = [])
    (hs' : s.submitSignal resp = .ok s') : s'.InTurn := by
  rw [submitSignal] at hs'
  split at hs'
  · obtain ⟨n, hstage⟩ := h.stage
    cases hstage with
    | idle _ hwrites hreported hstatus hsubmitted hlog =>
      cases hs'
      have hmask : PORT_IRQ_TF_ERR ||| PORT_IRQ_D2H_REG_FIS ≠ 0#32 := by decide
      refine ⟨h.pending, n, .writing
        ⟨{ resp with maskIS := PORT_IRQ_TF_ERR ||| PORT_IRQ_D2H_REG_FIS }, n, true⟩ ?_ rfl hmask
        ?_ hreported hstatus ?_ ?_⟩
      · rw [hqueue, hsubmitted]
        rfl
      · rw [hwrites, hsubmitted]
        rfl
      · rw [hsubmitted]
      · rw [hlog, hsubmitted]
    | writing r hqueue' => simp [hqueue] at hqueue'
    | written r hqueue' => simp [hqueue] at hqueue'
  · cases hs'

theorem doCompletion_inTurn (h : s.InTurn) : (s.doCompletion k).InTurn := by
  rw [doCompletion]
  split
  · exact h
  · next id mask hwrite =>
    obtain ⟨n, hstage⟩ := h.stage
    cases hstage with
    | idle _ hwrites => simp [hwrites] at hwrite
    | writing r hqueue hid hmask hwrites hreported hstatus hsubmitted hlog =>
      rw [hwrites] at hwrite
      cases k with
      | succ k => cases hwrite
      | zero =>
        cases hwrite
        have hstatus' : s.interruptStatus ||| r.maskIS = r.maskIS := by rw [hstatus, BitVec.zero_or]
        refine ⟨h.pending, id, .written r hqueue hid ?_ ?_ ?_ ?_ hsubmitted ?_⟩
        · rw [hwrites]
          rfl
        · rw [hreported, hstatus']
          rfl
        · rw [hstatus']
          exact hmask
        · rw [hstatus', BitVec.and_self]
        · rw [hlog, List.append_assoc]
          rfl
    | written r _ _ hwrites => simp [hwrites] at hwrite

theorem writeP0CI_inTurn (h : s.InTurn) : (s.writeP0CI temp).InTurn := by
  obtain ⟨hpending, n, hstage⟩ := h
  refine ⟨hpending, n, ?_⟩
  cases hstage with
  | idle hqueue hwrites hreported hstatus hsubmitted hlog =>
    exact .idle hqueue hwrites hreported hstatus hsubmitted hlog
  | writing r hqueue hid hmask hwrites hreported hstatus hsubmitted hlog =>
    exact .writing r hqueue hid hmask hwrites hreported hstatus hsubmitted hlog
  | written r hqueue hid hwrites hreported hstatus hcover hsubmitted hlog =>
    exact .written r hqueue hid hwrites hreported hstatus hcover hsubmitted hlog

/-! ### Acknowledgements -/

/-- A write that leaves no bit outside the mask clears what the host writes with one. -/
theorem and_writeMask {x y : BitVec 32} (h : x &&& y &&& ~~~writeMask = 0#32) :
    x &&& (y &&& writeMask) = x &&& y := by
  refine BitVec.eq_of_getLsbD_eq fun i hi => ?_
  have hbit := congrArg (fun z => z.getLsbD i) h
  simp only [BitVec.getLsbD_and, BitVec.getLsbD_not, hi, decide_true, Bool.true_and,
    BitVec.getLsbD_zero] at hbit ⊢
  cases hx : x.getLsbD i <;> cases hy : y.getLsbD i <;> simp_all

/-- What a write to `P0IS` does while the first response waits for its acknowledgement. -/
theorem writeP0IS_eq {id : Nat} (hqueue : s.lResponseQueue = [r])
    (hreported : s.reported = [(id, s.interruptStatus)])
    (hcover : s.interruptStatus &&& r.maskIS = s.interruptStatus)
    (hclean : s.interruptStatus &&& r.maskIS &&& ~~~temp &&& ~~~writeMask = 0#32) :
    s.writeP0IS temp = if s.interruptStatus &&& ~~~temp = 0#32 then
        { s with
          interruptStatus := 0#32
          commandIssue := s.commandIssue &&& ~~~BitVec.twoPow 32 r.slotIndex
          lResponseQueue := []
          submitFISPending := false
          reported := []
          log := s.log ++ [.acknowledged id, .called r.id] }
      else
        { s with
          interruptStatus := s.interruptStatus &&& ~~~temp
          reported := [(id, s.interruptStatus &&& ~~~temp)] } := by
  rw [hcover] at hclean
  have hstatus := and_writeMask hclean
  have hmask : s.interruptStatus &&& ~~~temp &&& r.maskIS = s.interruptStatus &&& ~~~temp := by
    rw [BitVec.and_assoc, BitVec.and_comm (~~~temp), ← BitVec.and_assoc, hcover]
  rw [writeP0IS, hstatus]
  split
  · next hclear =>
    have hack : s.acknowledge temp = { s with
        reported := [], log := s.log ++ [.acknowledged id] } := by
      simp [acknowledge, hreported, hclear]
    rw [hack, interruptCleared]
    simp only [hqueue, hclear]
    simp
  · next hleft =>
    have hack : s.acknowledge temp = { s with
        reported := [(id, s.interruptStatus &&& ~~~temp)] } := by
      simp [acknowledge, hreported, hleft]
    rw [hack, interruptCleared]
    simp only [hqueue, hmask, hleft, if_false]

/-- With no response in the queue a write to `P0IS` does nothing. -/
theorem writeP0IS_idle (hqueue : s.lResponseQueue = []) (hreported : s.reported = [])
    (hstatus : s.interruptStatus = 0#32) : s.writeP0IS temp = s := by
  have hack : s.acknowledge temp = s := by
    rw [acknowledge, hreported]
    show { s with reported := [], log := s.log ++ [] } = s
    rw [List.append_nil, ← hreported]
  rw [writeP0IS, hack, hstatus, BitVec.zero_and, ← hstatus, interruptCleared, hqueue]

theorem writeP0IS_inTurn (h : s.InTurn) (ha : s.Orderly (.writeP0IS temp)) :
    (s.writeP0IS temp).InTurn := by
  obtain ⟨hpending, n, hstage⟩ := h
  cases hstage with
  | idle hqueue hwrites hreported hstatus hsubmitted hlog =>
    rw [writeP0IS_idle hqueue hreported hstatus]
    exact ⟨hpending, n, .idle hqueue hwrites hreported hstatus hsubmitted hlog⟩
  | writing r hqueue hid hmask hwrites =>
    -- the write would come before the end of the FIS write
    have hnone := (ha r (by rw [hqueue]; rfl)).1
    rw [hwrites] at hnone
    cases hnone
  | written r hqueue hid hwrites hreported hstatus hcover hsubmitted hlog =>
    have hclean := (ha r (by rw [hqueue]; rfl)).2.1
    rw [writeP0IS_eq hqueue hreported hcover hclean]
    split
    · refine ⟨rfl, n + 1, .idle rfl hwrites rfl rfl hsubmitted ?_⟩
      rw [rounds_succ, hlog, hid, List.append_assoc]
      rfl
    · next hleft =>
      refine ⟨hpending, n, .written r hqueue hid hwrites rfl hleft ?_ hsubmitted hlog⟩
      show s.interruptStatus &&& ~~~temp &&& r.maskIS = s.interruptStatus &&& ~~~temp
      rw [BitVec.and_assoc, BitVec.and_comm (~~~temp), ← BitVec.and_assoc, hcover]

/-- Orderly events keep the responses in turn. -/
theorem exec_inTurn (h : s.InTurn) (ha : s.Orderly action) (hs' : s.exec action = .ok s') :
    s'.InTurn := by
  cases action with
  | submitFIS resp =>
    cases hs'
    exact submitFIS_inTurn h ha
  | submitSignal resp => exact submitSignal_inTurn h ha hs'
  | doCompletion k =>
    cases hs'
    exact doCompletion_inTurn h
  | writeP0IS temp =>
    cases hs'
    exact writeP0IS_inTurn h ha
  | writeP0CI temp =>
    cases hs'
    exact writeP0CI_inTurn h

/-! ### The bits of `PxCI` -/

theorem handleResponse_commandIssue : s.handleResponse.commandIssue = s.commandIssue := by
  rw [handleResponse]
  split
  · rfl
  · split <;> rfl

/-- Only a write to `P0IS` clears a bit. -/
theorem exec_commandIssue (h : s.exec action = .ok s') (hother : ∀ temp, action ≠ .writeP0IS temp)
    {i : Fin 32} (hset : s.commandIssue.getLsbD i = true) : s'.commandIssue.getLsbD i = true := by
  cases action with
  | submitFIS resp =>
    cases h
    rw [submitFIS, handleResponse_commandIssue]
    exact hset
  | submitSignal resp =>
    rw [exec, submitSignal] at h
    split at h
    · cases h
      exact hset
    · cases h
  | doCompletion k =>
    cases h
    rw [doCompletion]
    split <;> exact hset
  | writeP0IS temp => exact absurd rfl (hother temp)
  | writeP0CI temp =>
    cases h
    show (s.commandIssue ||| temp).getLsbD i = true
    rw [BitVec.getLsbD_or, hset, Bool.true_or]

theorem clearsOwn_of_inTurn (h : s.InTurn) (ha : s.Orderly action) : s.ClearsOwn action := by
  intro s' hs' i hset hclear
  by_cases hwrite : ∃ temp, action = .writeP0IS temp
  · obtain ⟨temp, rfl⟩ := hwrite
    cases hs'
    obtain ⟨n, hstage⟩ := h.stage
    cases hstage with
    | idle hqueue _ hreported hstatus =>
      rw [writeP0IS_idle hqueue hreported hstatus, hset] at hclear
      cases hclear
    | writing r hqueue hid hmask hwrites =>
      have hnone := (ha r (by rw [hqueue]; rfl)).1
      rw [hwrites] at hnone
      cases hnone
    | written r hqueue hid _ hreported hstatus hcover =>
      obtain ⟨-, hclean, hown⟩ := ha r (by rw [hqueue]; rfl)
      rw [writeP0IS_eq hqueue hreported hcover hclean] at hclear ⊢
      split at hclear
      · next hacked =>
        -- the bit that is cleared is that of the slot of the response
        have hslot : r.slotIndex = i := by
          rw [BitVec.getLsbD_and, hset, Bool.true_and, BitVec.getLsbD_not, BitVec.getLsbD_twoPow,
            decide_eq_true i.isLt, decide_eq_true r.slotIndex.isLt] at hclear
          exact Fin.ext (by simpa using hclear)
        have hcode : s.interruptStatus &&& r.maskIS &&& ~~~temp = 0#32 := by rw [hcover, hacked]
        have hregister := (hown hcode).resolve_right fun hbit => by
          rw [hslot, hset] at hbit
          cases hbit
        refine ⟨r, by rw [hqueue]; rfl, hslot ▸ hregister, ?_⟩
        rw [if_pos hacked, hid]
      · rw [hset] at hclear
        cases hclear
  · rw [exec_commandIssue hs' (fun temp htemp => hwrite ⟨temp, htemp⟩) hset] at hclear
    cases hclear

/-! ### Runs -/

theorem run_inTurn (hrun : Run.Along exec Orderly new actions)
    (h : actions.foldlM exec new = .ok s) : s.InTurn :=
  hrun.foldlM_inv (fun _ _ _ hs ha hs' => exec_inTurn hs ha hs') new_inTurn h

/-- What the host acknowledges in full, once it is in memory, is called. -/
theorem InTurn.writeP0IS_called (h : s.InTurn) (hr : r ∈ s.lResponseQueue.head?)
    (hwrites : s.writes = []) (htemp : r.maskIS &&& ~~~temp = 0#32) :
    (s.writeP0IS temp).log = s.log ++ [.acknowledged r.id, .called r.id] := by
  obtain ⟨n, hstage⟩ := h.stage
  cases hstage with
  | idle hqueue =>
    rw [hqueue] at hr
    cases hr
  | writing r' _ _ _ hwrites' =>
    rw [hwrites] at hwrites'
    cases hwrites'
  | written r' hqueue hid _ hreported hstatus hcover =>
    obtain rfl : r' = r := by
      rw [hqueue] at hr
      exact Option.some.inj hr
    have hacked : s.interruptStatus &&& ~~~temp = 0#32 := by
      rw [← hcover, BitVec.and_assoc, htemp, BitVec.and_zero]
    have hclean : s.interruptStatus &&& r'.maskIS &&& ~~~temp &&& ~~~writeMask = 0#32 := by
      rw [hcover, hacked, BitVec.zero_and]
    rw [writeP0IS_eq hqueue hreported hcover hclean, if_pos hacked, hid]

/-- The response protocol, in every orderly run: the responses are written, reach memory,
are acknowledged and called one after another, each once; no bit of `PxCI` is cleared but
by the Register FIS of the command in its slot; and what the host acknowledges is called. -/
theorem responses (hrun : Run.Along exec Orderly new actions)
    (h : actions.foldlM exec new = .ok s) :
    (∃ n m, m < 3 ∧ s.log = rounds n ++ (round n).take m ∧
      s.submitted = n + if m = 0 then 0 else 1) ∧
    Run.Along exec ClearsOwn new actions ∧
    ∀ r ∈ s.lResponseQueue.head?, s.writes = [] → ∀ temp, r.maskIS &&& ~~~temp = 0#32 →
      (s.writeP0IS temp).log = s.log ++ [.acknowledged r.id, .called r.id] := by
  have hturn := run_inTurn hrun h
  refine ⟨?_, ?_, fun r hr hwrites temp htemp => hturn.writeP0IS_called hr hwrites htemp⟩
  · obtain ⟨n, hstage⟩ := hturn.stage
    cases hstage with
    | idle hqueue hwrites hreported hstatus hsubmitted hlog =>
      exact ⟨n, 0, by decide, hlog.trans (List.append_nil _).symm, hsubmitted⟩
    | writing r hqueue hid hmask hwrites hreported hstatus hsubmitted hlog =>
      exact ⟨n, 1, by decide, hlog, hsubmitted⟩
    | written r hqueue hid hwrites hreported hstatus hcover hsubmitted hlog =>
      exact ⟨n, 2, by decide, hlog, hsubmitted⟩
  · exact hrun.imp (I := InTurn) (fun _ _ _ hs ha hs' => exec_inTurn hs ha hs')
      (fun _ _ hs ha => clearsOwn_of_inTurn hs ha) new_inTurn

theorem responses_one : ∃ s, [Action.writeP0CI 1#32, .submitFIS (.regD2H 0 0#32 0), .doCompletion 0,
      .writeP0IS 1#32, .submitFIS .dmaSetup, .doCompletion 0].foldlM exec new = .ok s ∧
    s.log = rounds 1 ++ [.write 1, .written 1] ∧ s.commandIssue = 0#32 ∧
    ∃ n m, m < 3 ∧ s.log = rounds n ++ (round n).take m := by
  obtain ⟨s, hrun, hlog, hclear⟩ : ∃ s, [Action.writeP0CI 1#32, .submitFIS (.regD2H 0 0#32 0),
      .doCompletion 0, .writeP0IS 1#32, .submitFIS .dmaSetup, .doCompletion 0].foldlM exec new =
        .ok s ∧
      s.log = rounds 1 ++ [.write 1, .written 1] ∧ s.commandIssue = 0#32 :=
    Except.exists_of_map (by decide +kernel)
  obtain ⟨⟨n, m, hm, hn, -⟩, -⟩ := responses (by decide +kernel) hrun
  exact ⟨s, hrun, hlog, hclear, n, m, hm, hn⟩

/-- The data of a queued read in slot 1 are ready before the host has acknowledged the
Register FIS: the Register FIS is written a second time. The acknowledgement of the DMA
Setup FIS then clears bit 0 of `PxCI`, the bit of a command that has no response yet. -/
theorem registerFIS_written_twice : ∃ s, [Action.writeP0CI 3#32, .submitFIS (.regD2H 1 0#32 0),
      .submitFIS .dmaSetup, .doCompletion 0, .writeP0IS 1#32, .doCompletion 0, .doCompletion 0,
      .writeP0IS 5#32].foldlM exec new = .ok s ∧
    s.log.count (.write 0) = 2 ∧ s.log.count (.write 1) = 1 ∧ s.commandIssue = 0#32 :=
  Except.exists_of_map (by decide +kernel)

end Steps

end HBA

end SimpleSSD.HIL.SATA
