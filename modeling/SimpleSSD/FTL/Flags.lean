import SimpleSSD.FTL.Steps

/-!
# The flags of flash requests

The flag of a flash request has one bit for each I/O unit of a page. Every request
that the FTL sends has a flag of this size: it takes the flag over from the call, or
makes one for a page of a victim. Nothing here depends on the number of units.
-/

namespace SimpleSSD.FTL

/-- The flash request of an event. -/
def Event.palRequest : Event → Option PAL.Request
  | .palRead req | .palWrite req | .palErase req => some req
  | .request | .dram | .updateDirty _ => none

/-- The call's flag has one bit for each of the `n` I/O units of a page. -/
def Op.Flagged (n : Nat) : Op → Prop
  | .read req | .write req => req.ioFlag.dataSize = n
  | .trim _ | .format _ | .undoCached _ => True

theorem palFlag_dataSize (cfg : Config) (flag : Bitset) (idx : Nat) :
    (palFlag cfg flag idx).dataSize = flag.dataSize := by
  rw [palFlag]
  split <;> rfl

theorem Block.getPageInfo_dataSize (b : Block) (pageIndex : Nat) (map : Bitset) :
    (b.getPageInfo pageIndex map).All fun r => r.2.dataSize = map.dataSize := by
  rw [getPageInfo]
  split
  · exact rfl
  · split
    · next h => exact h.symm
    · trivial

namespace PageMapping

/-- Every flash request of the trace has a flag of size `n`. -/
def Flagged (n : Nat) (s : PageMapping) : Prop :=
  ∀ e ∈ s.trace, ∀ r ∈ e.palRequest, r.ioFlag.dataSize = n

/-- The same for the requests that a collection has queued. -/
structure GcLocals.Flagged (n : Nat) (locals : GcLocals) : Prop where
  reads : ∀ r ∈ locals.readRequests, r.ioFlag.dataSize = n
  writes : ∀ r ∈ locals.writeRequests, r.ioFlag.dataSize = n
  erases : ∀ r ∈ locals.eraseRequests, r.ioFlag.dataSize = n

section Trace

variable {n : Nat} {s s' : PageMapping}

theorem Flagged.of_eq (hs : s.Flagged n) (h : s'.trace = s.trace) : s'.Flagged n := by
  rw [Flagged, h]
  exact hs

/-- A batch of requests with right flags. -/
theorem Flagged.append (events : List Event) (hs : s.Flagged n)
    (h : ∀ e ∈ events, ∀ r ∈ e.palRequest, r.ioFlag.dataSize = n)
    (htrace : s'.trace = events ++ s.trace) : s'.Flagged n := by
  intro e he
  rw [htrace] at he
  rcases List.mem_append.mp he with he | he
  · exact h e he
  · exact hs e he

theorem Flagged.log {e : Event} (hs : s.Flagged n)
    (h : ∀ r ∈ e.palRequest, r.ioFlag.dataSize = n) : (s.log e).Flagged n := by
  refine hs.append [e] (fun e' he' => ?_) rfl
  obtain rfl := List.mem_singleton.mp he'
  exact h

/-- An event that is no flash request. -/
theorem Flagged.log_other {e : Event} (hs : s.Flagged n) (h : e.palRequest = none) :
    (s.log e).Flagged n :=
  hs.log fun r hr => by
    rw [h] at hr
    cases hr

theorem Flagged.foldl_log {g : PAL.Request → Event} {l : List PAL.Request} (hs : s.Flagged n)
    (hg : ∀ r, (g r).palRequest = some r) (hl : ∀ r ∈ l, r.ioFlag.dataSize = n) :
    (l.foldl (fun s r => s.log (g r)) s).Flagged n := by
  induction l generalizing s with
  | nil => exact hs
  | cons r l ih =>
    refine ih (hs.log fun r' hr' => ?_) fun r' hr' => hl r' (List.mem_cons_of_mem r hr')
    rw [hg] at hr'
    cases hr'
    exact hl r List.mem_cons_self

end Trace

section Calls

variable {cfg : Config} {env : Env} {w : World} {n : Nat} {req : Request}

theorem readUnits_flagged {mapping : Nat → Except Fault (Nat × Nat)} {fill : Bool}
    (hreq : req.ioFlag.dataSize = n) (l : List Nat) (beginAt : Nat) (dead : Bool)
    {s : PageMapping} (hs : s.Flagged n) :
    (readUnits cfg env w req mapping fill l beginAt dead s).All (Flagged n) := by
  induction l generalizing beginAt dead s with
  | nil => exact hs
  | cons idx rest ih =>
    refine Except.all_iff.mpr fun s' h => ?_
    rcases readUnits_cons cfg env w h with ⟨-, h⟩ | ⟨-, page, -, h⟩
    · exact (ih _ _ hs).of_ok h
    · rcases h with ⟨-, h⟩ | ⟨-, -, rfl⟩ | ⟨-, -, b, r, beginAt', dead', -, -, h⟩
      · exact (ih _ _ hs).of_ok h
      · exact hs.of_eq (fillMapping_trace ..)
      · have hfill : (s.fillMapping cfg env w fill req.lpn page beginAt dead).2.Flagged n :=
          hs.of_eq (fillMapping_trace ..)
        have hnext : (s.afterRead cfg env w req fill page idx beginAt dead r.2).Flagged n := by
          refine (hfill.of_eq rfl).log fun r hr => ?_
          cases hr
          exact (palFlag_dataSize ..).trans hreq
        exact (ih _ _ hnext).of_ok h

theorem readInternal_flagged (hreq : req.ioFlag.dataSize = n) {s : PageMapping}
    (hs : s.Flagged n) : (s.readInternal cfg env w req).All (Flagged n) := by
  have hdram : (s.log .dram).Flagged n := hs.log_other rfl
  rw [readInternal]
  split
  · exact readUnits_flagged hreq _ _ _ (hdram.of_eq rfl)
  · split
    · exact readUnits_flagged hreq _ _ _ (hdram.of_eq rfl)
    · split
      · exact readUnits_flagged hreq _ _ _ hdram
      · exact hs

theorem lookupForWrite_flagged {sendToPAL : Bool} {s : PageMapping} (hs : s.Flagged n) :
    (s.lookupForWrite cfg env req sendToPAL).All fun r => r.2.2.Flagged n := by
  rw [lookupForWrite]
  split
  · refine Except.All.bind (Except.All.of_forall fun _ => trivial) fun p _ => ?_
    refine hs.of_eq ?_
    split <;> rfl
  · split
    · split
      · exact Except.All.bind (Except.All.of_forall fun _ => trivial) fun p _ => hs.of_eq rfl
      · exact hs
    · split
      · exact Except.All.bind (Except.All.of_forall fun _ => trivial) fun p _ => hs.of_eq rfl
      · exact hs.of_eq rfl

theorem readOldUnits_flagged (hreq : req.ioFlag.dataSize = n) (old : Nat × Nat)
    {s : PageMapping} (hs : s.Flagged n) : (s.readOldUnits cfg req old).Flagged n := by
  rw [readOldUnits]
  split
  · refine hs.log fun r hr => ?_
    cases hr
    exact hreq
  · exact hs

theorem programUnit_flagged (hreq : req.ioFlag.dataSize = n) {sendToPAL : Bool}
    {mappingList : Option Nat} {blk : Nat} (acc : WriteLocals × PageMapping) (idx : Nat)
    (hs : acc.2.Flagged n) :
    (programUnit cfg env w req sendToPAL mappingList blk acc idx).All fun r => r.2.Flagged n := by
  obtain ⟨locals, s⟩ := acc
  rw [programUnit]
  dsimp only
  split
  · split
    · trivial
    · next b _ =>
      refine Except.All.bind (Except.All.of_forall fun _ => trivial) fun kv _ => ?_
      refine Except.All.bind (Except.All.of_forall fun _ => trivial) fun old _ => ?_
      refine Except.All.bind (Except.All.of_forall fun _ => trivial) fun b' _ => ?_
      cases sendToPAL with
      | false => exact hs.of_eq rfl
      | true =>
        have hpool : ({ s with pool := s.pool.putBlock blk b' } : PageMapping).Flagged n :=
          hs.of_eq rfl
        refine Flagged.log (Flagged.of_eq (readOldUnits_flagged hreq old hpool)
          (loadMapping_trace ..)) fun r hr => ?_
        cases hr
        exact (palFlag_dataSize ..).trans hreq
  · exact hs

theorem programPage_flagged (hreq : req.ioFlag.dataSize = n) {sendToPAL : Bool}
    {s : PageMapping} (hs : s.Flagged n) :
    (s.programPage cfg env w req sendToPAL).All (Flagged n) := by
  refine (lookupForWrite_flagged hs).bind fun r hr => ?_
  refine Except.All.bind (Except.All.of_forall fun _ => trivial) fun q _ => ?_
  dsimp only
  split
  · trivial
  · have hpool : ({ r.2.2 with pool := q.2 } : PageMapping).Flagged n := hr.of_eq rfl
    refine Except.All.bind (Run.foldlM_all (I := fun acc => acc.2.Flagged n)
      (fun acc idx _ hacc => programUnit_flagged hreq acc idx hacc) ?_) fun acc hacc => hacc
    show Flagged n (if sendToPAL then _ else _)
    split
    · exact (hpool.log_other rfl).log_other rfl
    · exact hpool

/-! ### Collections -/

/-- The locals and the state of a collection. -/
def CollectFlagged (n : Nat) (acc : GcLocals × PageMapping) : Prop :=
  acc.1.Flagged n ∧ acc.2.Flagged n

theorem copyUnit_flagged {victim pageIndex blk : Nat} {lpns : List Nat} {bit : Bitset}
    {relocateCmt : Bool} (hbit : bit.dataSize = n) (acc : GcLocals × PageMapping) (idx : Nat)
    (hs : CollectFlagged n acc) :
    (copyUnit cfg victim pageIndex blk lpns bit relocateCmt acc idx).All (CollectFlagged n) := by
  obtain ⟨locals, s⟩ := acc
  obtain ⟨hlocals, hs⟩ := hs
  rw [copyUnit]
  dsimp only
  split
  · refine Except.All.bind (Except.All.of_forall fun _ => trivial) fun p _ => ?_
    split
    · trivial
    · split
      · trivial
      · refine Except.All.bind (Except.All.of_forall fun _ => trivial) fun _ _ => ?_
        split
        · trivial
        · refine Except.All.bind (Except.All.of_forall fun _ => trivial) fun b' _ => ?_
          refine ⟨⟨hlocals.reads, fun r hr => ?_, hlocals.erases⟩, ?_⟩
          · rcases List.mem_append.mp hr with hr | hr
            · exact hlocals.writes r hr
            · obtain rfl := List.mem_singleton.mp hr
              exact (palFlag_dataSize ..).trans hbit
          · exact (hs.log_other (e := .dram) rfl).of_eq rfl
  · exact ⟨hlocals, hs⟩

theorem copyPage_flagged {victim pageIndex : Nat} {lpns : List Nat} {bit : Bitset}
    {relocateCmt : Bool} (hbit : bit.dataSize = n) (acc : GcLocals × PageMapping)
    (hs : CollectFlagged n acc) :
    (copyPage cfg env victim pageIndex lpns bit relocateCmt acc).All (CollectFlagged n) := by
  refine Except.All.bind (Except.All.of_forall fun _ => trivial) fun q _ => ?_
  refine Run.foldlM_all (fun acc idx _ hacc => copyUnit_flagged hbit acc idx hacc) ?_
  exact ⟨hs.1, hs.2.of_eq rfl⟩

/-- The read of a page of a victim is queued with a flag of the right size. -/
theorem GcLocals.Flagged.read {locals : GcLocals} (h : locals.Flagged n) (victim pageIndex : Nat)
    {bit : Bitset} (hbit : bit.dataSize = n) :
    ∀ r ∈ locals.readRequests ++ [⟨victim, pageIndex, bit⟩], r.ioFlag.dataSize = n := by
  intro r hr
  rcases List.mem_append.mp hr with hr | hr
  · exact h.reads r hr
  · obtain rfl := List.mem_singleton.mp hr
    exact hbit

theorem scanPage_flagged (hn : cfg.ioUnitInPage = n) {victim : Nat}
    (acc : GcLocals × PageMapping) (pageIndex : Nat) (hs : CollectFlagged n acc) :
    (scanPage cfg env w victim acc pageIndex).All (CollectFlagged n) := by
  obtain ⟨locals, s⟩ := acc
  obtain ⟨hlocals, hs⟩ := hs
  have hbit : ∀ map : Bitset, map.dataSize = cfg.ioUnitInPage →
      (if cfg.randomIOTweak then map else map.setAll).dataSize = n := by
    intro map hmap
    split <;> exact hmap.trans hn
  rw [scanPage]
  split
  · rw [reclaimCachedPage]
    split
    · trivial
    · next b _ =>
      refine Except.All.bind (Except.All.of_forall fun _ => trivial) fun cached _ => ?_
      split
      · split
        · trivial
        · exact ⟨⟨hlocals.reads, hlocals.writes, hlocals.erases⟩, hs⟩
      · refine Except.All.bind (Except.All.of_forall fun _ => trivial) fun valid _ => ?_
        split
        · refine (b.getPageInfo_dataSize pageIndex _).bind fun r hr => ?_
          dsimp only
          split
          · split
            · trivial
            · have hreads := hlocals.read victim pageIndex (hbit r.2 hr)
              split
              · split
                · exact copyPage_flagged (hbit r.2 hr) _
                    ⟨⟨hreads, hlocals.writes, hlocals.erases⟩, hs⟩
                · exact ⟨⟨hreads, hlocals.writes, hlocals.erases⟩, hs⟩
              · exact ⟨⟨hreads, hlocals.writes, hlocals.erases⟩, hs⟩
          · exact ⟨⟨hlocals.reads, hlocals.writes, hlocals.erases⟩, hs⟩
        · exact ⟨hlocals, hs⟩
  · rw [reclaimPage]
    split
    · trivial
    · next b _ =>
      refine (b.getPageInfo_dataSize pageIndex _).bind fun r hr => ?_
      dsimp only
      split
      · refine Except.All.bind (Except.All.of_forall fun _ => trivial) fun valid _ => ?_
        split
        · exact copyPage_flagged (hbit r.2 hr) _
            ⟨⟨hlocals.read victim pageIndex (hbit r.2 hr), hlocals.writes, hlocals.erases⟩, hs⟩
        · exact ⟨⟨hlocals.reads, hlocals.writes, hlocals.erases⟩, hs⟩
      · exact ⟨⟨hlocals.reads, hlocals.writes, hlocals.erases⟩, hs⟩

theorem scanVictim_flagged (hn : cfg.ioUnitInPage = n) (acc : GcLocals × PageMapping)
    (victim : Nat) (hs : CollectFlagged n acc) :
    (scanVictim cfg env w acc victim).All (CollectFlagged n) := by
  rw [scanVictim]
  split
  · trivial
  · refine (Run.foldlM_all (fun acc page _ hacc => scanPage_flagged hn acc page hacc) hs).bind
      fun r hr => ?_
    refine ⟨⟨hr.1.reads, hr.1.writes, fun e he => ?_⟩, hr.2⟩
    rcases List.mem_append.mp he with he | he
    · exact hr.1.erases e he
    · obtain rfl := List.mem_singleton.mp he
      exact hn

theorem foldlM_eraseInternal_flagged {l : List PAL.Request}
    (hl : ∀ r ∈ l, r.ioFlag.dataSize = n) {s : PageMapping} (hs : s.Flagged n) :
    (l.foldlM (eraseInternal cfg) s).All (Flagged n) := by
  refine Run.foldlM_all (fun s r hr hs => ?_) hs
  refine Except.All.bind (Except.All.of_forall fun _ => trivial) fun p _ => ?_
  refine (hs.of_eq rfl).log fun r' hr' => ?_
  cases hr'
  exact hl r hr

theorem finishCollection_flagged {locals : GcLocals} {s : PageMapping}
    (hs : CollectFlagged n (locals, s)) : (finishCollection cfg locals s).All (Flagged n) := by
  obtain ⟨hlocals, hs⟩ := hs
  refine foldlM_eraseInternal_flagged hlocals.erases ?_
  exact (hs.foldl_log (fun _ => rfl) hlocals.reads).foldl_log (fun _ => rfl) hlocals.writes

theorem finishCachedCollection_flagged {locals : GcLocals} {s : PageMapping}
    (hs : CollectFlagged n (locals, s)) :
    (finishCachedCollection cfg locals s).All (Flagged n) := by
  obtain ⟨hlocals, hs⟩ := hs
  have hdirty : ∀ (l : List Nat) {s : PageMapping}, s.Flagged n →
      (l.foldl markDirty s).Flagged n := by
    intro l
    induction l with
    | nil => exact fun hs => hs
    | cons lpn l ih =>
      intro s hs
      have hlog : (s.log (.updateDirty lpn)).Flagged n := hs.log_other rfl
      exact ih (Flagged.log_other (hlog.of_eq rfl) rfl)
  have hmove : ∀ (l : List Nat) {s : PageMapping}, s.Flagged n →
      (l.foldl handToCache s).Flagged n := by
    intro l
    induction l with
    | nil => exact fun hs => hs
    | cons lpn l ih => exact fun hs => ih (Flagged.log_other (hs.of_eq rfl) rfl)
  have hreads := (hdirty locals.cachedValidLPN hs).foldl_log (g := .palRead) (fun _ => rfl)
    hlocals.reads
  refine Except.All.bind (foldlM_eraseInternal_flagged hlocals.erases ?_) fun s' hs' => ?_
  · split
    · exact hreads.foldl_log (fun _ => rfl) hlocals.writes
    · exact hreads
  · exact (hmove _ hs').of_eq rfl

theorem doGarbageCollection_flagged (hn : cfg.ioUnitInPage = n) (victims : List Nat)
    {s : PageMapping} (hs : s.Flagged n) :
    (doGarbageCollection cfg env w victims s).All (Flagged n) := by
  rw [doGarbageCollection]
  split
  · exact hs
  · split
    · exact hs
    · refine (Run.foldlM_all (I := CollectFlagged n)
        (fun acc victim _ hacc => scanVictim_flagged hn acc victim hacc) ?_).bind fun r hr => ?_
      · exact ⟨⟨by simp [GcLocals.empty], by simp [GcLocals.empty], by simp [GcLocals.empty]⟩, hs⟩
      · dsimp only
        split
        · exact finishCachedCollection_flagged hr
        · exact finishCollection_flagged hr

theorem selectVictimBlock_flagged {s : PageMapping} (hs : s.Flagged n) :
    (s.selectVictimBlock cfg env).All fun r => r.2.Flagged n :=
  Except.all_iff.mpr fun _ h =>
    hs.of_eq (by rw [((selectVictimBlock_sat cfg env s).of_ok h).1])

theorem writeInternal_flagged (hn : cfg.ioUnitInPage = n) (hreq : req.ioFlag.dataSize = n)
    {sendToPAL : Bool} {s : PageMapping} (hs : s.Flagged n) :
    (s.writeInternal cfg env w req sendToPAL).All (Flagged n) := by
  refine (programPage_flagged hreq hs).bind fun s₁ hs₁ => ?_
  rw [collectIfNeeded]
  split
  · split
    · exact (selectVictimBlock_flagged hs₁).bind fun r hr => doGarbageCollection_flagged hn r.1 hr
    · trivial
  · exact hs₁

theorem format_flagged (hn : cfg.ioUnitInPage = n) (range : LPNRange) {s : PageMapping}
    (hs : s.Flagged n) : (s.format cfg env w range).All (Flagged n) := by
  refine (Run.foldlM_all (I := fun acc => acc.1.Flagged n) (fun acc entry _ hacc => ?_) hs).bind
    fun r hr => doGarbageCollection_flagged hn _ hr
  obtain ⟨s, list⟩ := acc
  rw [formatEntry]
  split
  · exact Except.All.bind (Except.All.of_forall fun _ => trivial) fun p _ => hacc.of_eq rfl
  · exact hacc

end Calls

end PageMapping

section Runs

variable {cfg : Config} {env : Env}

/-- One call sends requests with right flags only. -/
theorem Op.exec_flagged {s : PageMapping} {call : World × Op} (hs : s.Flagged cfg.ioUnitInPage)
    (hcall : call.2.Flagged cfg.ioUnitInPage) :
    (Op.exec cfg env s call).All (PageMapping.Flagged cfg.ioUnitInPage) := by
  obtain ⟨w, op⟩ := call
  have hs' : (s.log .request).Flagged cfg.ioUnitInPage := hs.log_other rfl
  cases op with
  | read req =>
    show (PageMapping.read cfg env w req (s.log .request)).All _
    rw [PageMapping.read]
    split
    · exact PageMapping.readInternal_flagged hcall hs'
    · exact hs'
  | write req =>
    show (PageMapping.write cfg env w req (s.log .request)).All _
    rw [PageMapping.write]
    split
    · exact PageMapping.writeInternal_flagged rfl hcall hs'
    · exact hs'
  | trim req =>
    show (PageMapping.trim cfg req (s.log .request)).All _
    rw [PageMapping.trim]
    split
    · exact hs'
    · exact Except.All.bind (Except.All.of_forall fun _ => trivial) fun p _ =>
        (hs'.log_other (e := .dram) rfl).of_eq rfl
  | format range => exact PageMapping.format_flagged rfl range hs'
  | undoCached lpn =>
    show (PageMapping.undoCached cfg lpn (s.log .request)).All _
    rw [PageMapping.undoCached]
    split
    · exact hs'
    · exact Except.All.bind (Except.All.of_forall fun _ => trivial) fun p _ => hs'.of_eq rfl

/-- A device as it starts has sent such requests only. -/
theorem start_flagged {warmUp : Option World} {s : PageMapping}
    (h : PageMapping.start cfg env warmUp = .ok s) : s.Flagged cfg.ioUnitInPage := by
  have hinit : (PageMapping.init cfg env).All (PageMapping.Flagged cfg.ioUnitInPage) := by
    refine Except.All.bind (Except.All.of_forall fun _ => trivial) fun p _ => ?_
    intro e he
    cases he
  cases warmUp with
  | none => exact hinit.of_ok h
  | some w =>
    refine (hinit.bind fun s hs => ?_ : (PageMapping.boot cfg env w).All _).of_ok h
    exact Run.foldlM_all (fun s lpn _ hs => PageMapping.writeInternal_flagged rfl rfl hs) hs

/-- Every flash request of a run has a flag with one bit for each I/O unit of a page. -/
theorem run_flagged {s s' : PageMapping} {calls : List (World × Op)}
    (hs : s.Flagged cfg.ioUnitInPage)
    (hcalls : ∀ call ∈ calls, call.2.Flagged cfg.ioUnitInPage)
    (h : run cfg env s calls = .ok s') : s'.Flagged cfg.ioUnitInPage :=
  (Run.foldlM_all (fun _ call hmem hs => Op.exec_flagged hs (hcalls call hmem)) hs).of_ok h

end Runs

end SimpleSSD.FTL
