import SimpleSSD.ICL.Steps

/-!
# What the trace tells of the host's calls

The events `write`, `writeThrough`, `trim` and `format` stand for what the host asks of its data.
`run_hostCalls` says that a run leaves exactly one of them for every write, trim and format that it
was asked for, in order and with the same LCA or range, and none for anything else. So what is read
off the trace about host writes is a fact about the calls of the run (`newestOf`).
-/

namespace SimpleSSD.ICL

open GenericCache

/-- What the host asks of its data. -/
inductive HostCall where
  | write (lca : Nat)
  | trim (range : LPNRange)
  | format (range : LPNRange)
  deriving DecidableEq

def Event.hostCall : Event → Option HostCall
  | .write _ lca => some (.write lca)
  | .writeThrough lca => some (.write lca)
  | .trim range => some (.trim range)
  | .format range => some (.format range)
  | _ => none

def Op.hostCall : Op → Option HostCall
  | .write req => some (.write req.slpn)
  | .trim range => some (.trim range)
  | .format range => some (.format range)
  | _ => none

/-- The LCAs that `format` invalidates. -/
def formatted (range : LPNRange) : List Nat :=
  (List.range range.nlp).map fun i => (range.slpn + i) % 2 ^ 64

/-- The number of host writes, and the newest one of each LCA that was not trimmed or formatted
since. -/
structure HostWrites where
  writes : Nat
  newest : Nat → Option Nat

def HostWrites.step (h : HostWrites) : HostCall → HostWrites
  | .write lca => ⟨h.writes + 1, Function.update h.newest lca (some h.writes)⟩
  | .trim range => { h with newest := fun lca => if range.contains lca then none else h.newest lca }
  | .format range =>
    { h with newest := fun lca => if lca ∈ formatted range then none else h.newest lca }

/-- What the host has written after these calls. -/
def hostWrites (calls : List HostCall) : HostWrites :=
  calls.foldl HostWrites.step ⟨0, fun _ => none⟩

namespace GenericCache

variable {F : Type} {cfg : Config} {env : Env} {port : FTLPort F} {s s' : GenericCache F}
  {L : List HostCall}

/-- The host's calls in the trace, the last one first. -/
def hostCalls (s : GenericCache F) : List HostCall := s.trace.filterMap Event.hostCall

theorem hostCalls_log (e : Event) : (s.log e).hostCalls = e.hostCall.toList ++ s.hostCalls := by
  rw [hostCalls, log_trace, List.filterMap_cons]
  cases e.hostCall <;> rfl

theorem log_hostCalls {e : Event} (he : e.hostCall = none) (h : s.hostCalls = L) :
    (s.log e).hostCalls = L := by
  rw [hostCalls_log, he]
  exact h

/-! ### What the host does not see -/

theorem call_hostCalls {op : FTL.Op} (h : s.hostCalls = L) :
    (s.call cfg port op).All fun s' => s'.hostCalls = L := by
  refine (call_all cfg port op s).mono ?_
  rintro s' ⟨_, _, -, hmarked⟩
  rw [hostCalls, hmarked.trace]
  exact h

theorem evictLine_hostCalls {row : Nat} {pos : Nat × Nat} (h : s.hostCalls = L) :
    (s.evictLine cfg env port row pos).All fun s' => s'.hostCalls = L := by
  refine Except.All.bind (Q := fun s' : GenericCache F => s'.hostCalls = L) ?_ fun _ hs => hs
  rw [releaseLine]
  split
  · exact (call_hostCalls (s := s.countEviction _) h).bind fun _ hs =>
      call_hostCalls (log_hostCalls rfl hs)
  · exact call_hostCalls (s := s.countEviction _) h

theorem evictCache_hostCalls (h : s.hostCalls = L) :
    (s.evictCache cfg env port).All fun s' => s'.hostCalls = L := by
  refine Run.foldlM_all (fun s slot _ hs => ?_) h
  rw [evictSlot]
  split
  · exact hs
  · exact (evictLine_hostCalls hs).bind fun _ hs' => hs'

theorem reserveLine_hostCalls {R : List (Nat × Nat × Nat)} {lca : Nat} (h : s.hostCalls = L) :
    (reserveLine cfg env port (R, s) lca).All fun r => r.2.hostCalls = L := by
  rw [reserveLine]
  split
  · exact h
  · have hway : (s.takeWay cfg env port (cfg.calcSetIndex lca)).All fun r => r.2.hostCalls = L := by
      rw [takeWay]
      split
      · exact h
      · dsimp only
        split
        · exact Except.All.bind (Q := fun s₁ : GenericCache F => s₁.hostCalls = L)
            (evictCache_hostCalls h) fun _ hs => hs
        · trivial
    exact hway.bind fun _ hs => hs

theorem loadLine_hostCalls {entry : Nat × Nat × Nat} (h : s.hostCalls = L) :
    (s.loadLine cfg env port entry).All fun s' => s'.hostCalls = L :=
  (call_hostCalls h).bind fun s₁ hs₁ => log_hostCalls (s := s₁.putLine _ _) rfl hs₁

theorem readLines_hostCalls {lca : Nat} (h : s.hostCalls = L) :
    (s.readLines cfg env port lca).All fun s' => s'.hostCalls = L := by
  have hopen : (s.openWindow cfg lca).2.hostCalls = L := by
    unfold openWindow
    split <;> exact h
  rw [readLines]
  refine Except.All.bind (Q := fun r : List (Nat × Nat × Nat) × GenericCache F =>
    r.2.hostCalls = L) (Run.foldlM_all (fun _ _ _ hacc => reserveLine_hostCalls hacc) hopen) ?_
  intro r hr
  exact (evictCache_hostCalls hr).bind fun _ hs =>
    Run.foldlM_all (fun _ _ _ hs => loadLine_hostCalls hs) hs

theorem read_hostCalls {req : Request} (h : s.hostCalls = L) :
    (s.read cfg env port req).All fun r => r.2.hostCalls = L := by
  have hlookup : (s.lookupForRead cfg env req).2.2.hostCalls = L := by
    unfold lookupForRead
    dsimp only
    split <;> split <;> exact h
  rw [read]
  split
  · dsimp only
    split
    · exact (readLines_hostCalls hlookup).bind fun _ hs => hs
    · exact hlookup
  · exact (call_hostCalls h).bind fun _ hs => hs

theorem flush_hostCalls {range : LPNRange} (h : s.hostCalls = L) :
    (s.flush cfg port range).All fun s' => s'.hostCalls = L := by
  rw [flush]
  split
  · refine Except.All.bind (Q := fun r : Bitset × GenericCache F => r.2.hostCalls = L)
      (Run.foldlM_all (fun acc pos _ hacc => ?_) h) fun _ hr => hr
    rw [flushLine]
    split
    · split
      · exact (call_hostCalls (log_hostCalls rfl hacc)).bind fun _ hs => hs
      · exact hacc
    · exact hacc
  · exact h

/-! ### What it sees -/

theorem writeDirect_hostCalls {direct : Bool} {e : Event} {lca : Nat} :
    (s.writeDirect cfg port direct e lca).All fun s' =>
      s'.hostCalls = if direct then e.hostCall.toList ++ s.hostCalls else s.hostCalls := by
  rw [writeDirect]
  split
  · exact call_hostCalls (hostCalls_log e)
  · rfl

theorem insertLine_hostCalls {function : String} {lca : Nat} {dirty : Bool}
    {stored : Nat × Nat → Event} (c : Option HostCall)
    (hstored : ∀ pos, (stored pos).hostCall = c) :
    (s.insertLine cfg env port function lca dirty stored).All fun r =>
      r.2.hostCalls = c.toList ++ s.hostCalls := by
  have hput : ∀ (s₁ : GenericCache F) (pos : Nat × Nat) (line : Line), s₁.hostCalls = s.hostCalls →
      ((s₁.putLine pos line).log (stored pos)).hostCalls = c.toList ++ s.hostCalls := by
    intro s₁ pos line hs₁
    rw [hostCalls_log, hstored, ← hs₁]
    rfl
  rw [insertLine]
  dsimp only
  split
  · exact hput s _ _ rfl
  · refine (evictCache_hostCalls (s := s.fillEvictData cfg env _) rfl).bind fun s₁ hs₁ => ?_
    split
    · trivial
    · exact hput s₁ _ _ hs₁

/-- Every write of the host leaves one event, wherever its data goes. -/
theorem write_hostCalls {req : Request} :
    (s.write cfg env port req).All fun r => r.2.hostCalls = .write req.slpn :: s.hostCalls := by
  rw [write]
  by_cases hlen : req.length ≤ cfg.lineSize
  · simp only [hlen, decide_true]
    refine Except.All.bind (Q := fun s₁ => s₁ = s) rfl ?_
    rintro s₁ rfl
    split
    · split
      · exact hostCalls_log (.write _ req.slpn)
      · exact insertLine_hostCalls (some (.write req.slpn)) fun _ => rfl
    · exact writeDirect_hostCalls.bind fun _ hs => hs
  · simp only [hlen, decide_false]
    refine writeDirect_hostCalls.bind fun s₁ hs₁ => ?_
    split
    · split
      · exact hs₁
      · exact (insertLine_hostCalls none fun _ => rfl).mono fun r hr => hr.trans hs₁
    · exact hs₁

theorem writeVictimPagesToCache_hostCalls {req : Request} :
    (s.writeVictimPagesToCache cfg env port req).All fun r => r.2.hostCalls = s.hostCalls := by
  have hdirect : ∀ (s : GenericCache F) (direct : Bool),
      (s.writeDirect cfg port direct (.rewrite req.slpn) req.slpn).All fun s' =>
        s'.hostCalls = s.hostCalls := by
    intro s direct
    refine writeDirect_hostCalls.mono fun s' hs' => ?_
    rw [hs']
    exact ite_self _
  rw [writeVictimPagesToCache]
  refine (hdirect s _).bind fun s₁ hs₁ => ?_
  split
  · exact (insertLine_hostCalls none fun _ => rfl).mono fun r hr => hr.trans hs₁
  · exact (hdirect s₁ _).bind fun _ hs₂ => hs₂.trans hs₁

theorem trim_hostCalls {range : LPNRange} :
    (s.trim cfg port range).All fun s' => s'.hostCalls = .trim range :: s.hostCalls := by
  rw [trim]
  split
  · refine Except.All.bind (Q := fun r : Bitset × GenericCache F =>
      r.2.hostCalls = .trim range :: s.hostCalls) (Run.foldlM_all (fun acc pos _ hacc => ?_)
        (hostCalls_log (.trim range))) fun _ hr => hr
    rw [trimLine]
    split
    · exact (call_hostCalls hacc).bind fun _ hs => hs
    · exact hacc
  · exact hostCalls_log (.trim range)

theorem format_hostCalls {range : LPNRange} :
    (s.format cfg port range).All fun s' => s'.hostCalls = .format range :: s.hostCalls := by
  rw [format]
  refine call_hostCalls ?_
  split
  · refine List.foldlRecOn (motive := fun s' : GenericCache F =>
      s'.hostCalls = .format range :: s.hostCalls) _ _ (hostCalls_log (.format range))
        fun s₁ hs₁ lca _ => ?_
    unfold formatLine
    split <;> exact hs₁
  · exact hostCalls_log (.format range)

end GenericCache

variable {F : Type} {cfg : Config} {env : Env} {port : FTLPort F}

theorem Op.exec_hostCalls (s : GenericCache F) (call : Nat × Op) :
    (Op.exec cfg env port s call).All fun s' =>
      s'.hostCalls = call.2.hostCall.toList ++ s.hostCalls := by
  obtain ⟨n, op⟩ := call
  cases op with
  | read req => exact Except.All.map (read_hostCalls (s := { s with iclCount := n }) rfl)
  | write req => exact Except.All.map (write_hostCalls (s := { s with iclCount := n }))
  | flush range => exact flush_hostCalls (s := { s with iclCount := n }) rfl
  | trim range => exact trim_hostCalls (s := { s with iclCount := n })
  | format range => exact format_hostCalls (s := { s with iclCount := n })
  | writeVictimPagesToCache req =>
    exact Except.All.map (writeVictimPagesToCache_hostCalls (s := { s with iclCount := n }))

/-- The trace of a run holds the host's calls of the run, and no others. -/
theorem run_hostCalls (calls : List (Nat × Op)) (s : GenericCache F) :
    (run cfg env port s calls).All fun s' =>
      s'.hostCalls = (calls.filterMap fun call => call.2.hostCall).reverse ++ s.hostCalls := by
  induction calls generalizing s with
  | nil => rfl
  | cons call calls ih =>
    rw [run, List.foldlM_cons]
    refine (Op.exec_hostCalls s call).bind fun s₁ hs₁ => (ih s₁).mono fun s' hs' => ?_
    rw [hs', hs₁, List.filterMap_cons]
    cases call.2.hostCall <;> simp

end SimpleSSD.ICL
