import SimpleSSD.ICL.Steps

/-!
# What holds of every line

A property of single lines holds throughout a run when every assignment of the cache to a
line keeps it. `LineRule` lists the assignments, and `LineRule.run` is the induction over the
operations. The ticks that are assigned are those of the environment.
-/

namespace SimpleSSD.ICL

open GenericCache

/-- What to check of a property of lines, assignment by assignment. -/
structure LineRule (env : Env) (P : Line → Prop) : Prop where
  fresh : P {}
  marked {line n} : P line → P { line with dirty := true, accessCount := n }
  touched {line n k} : P line → P { line with lastAccessed := env.tick n, accessCount := k }
  evicted (n : Nat) : P ⟨0, env.tick n, env.tick n, false, false, 0⟩
  reserved {line n} : P line → P { line with
    insertedAt := env.tick n, lastAccessed := env.tick n, valid := true, dirty := false }
  loaded {line n lca} : P line → P { line with
    insertedAt := env.tick n, lastAccessed := env.tick n, tag := lca, valid := true
    accessCount := 1 }
  overwritten {line n d k} : P line → P { line with
    insertedAt := env.tick n, lastAccessed := env.tick n, dirty := d, accessCount := k }
  stored (n lca : Nat) (d : Bool) (k : Nat) : P ⟨lca, env.tick n, env.tick n, d, true, k⟩
  invalidated {line} : P line → P { line with valid := false }

namespace LineRule

variable {F : Type} {cfg : Config} {env : Env} {port : FTLPort F} {P : Line → Prop}
  {s s' : GenericCache F}

/-- All lines have the property. -/
def Holds (P : Line → Prop) (s : GenericCache F) : Prop := ∀ pos, P (s.cacheData pos)

theorem Holds.putLine (hs : Holds P s) {pos : Nat × Nat} {line : Line} (hline : P line) :
    Holds P (s.putLine pos line) := by
  intro p
  by_cases hp : p = pos
  · rw [hp, putLine_self]
    exact hline
  · rw [putLine_of_ne hp]
    exact hs p

variable (h : LineRule env P)

include h

theorem call {op : FTL.Op} (hs : Holds P s) : (s.call cfg port op).All (Holds P) := by
  refine (call_all cfg port op s).mono ?_
  rintro s' ⟨_, _, -, hmarked⟩ pos
  rcases hmarked.line pos with heq | ⟨-, n, heq⟩
  · rw [heq]
    exact hs pos
  · rw [heq]
    exact h.marked (hs pos)

theorem lasting : Lasting cfg port (Holds P) where
  call hs := h.call hs
  log hs := hs
  invalidateLine hs := hs.putLine (h.invalidated (hs _))

theorem evictLine {row : Nat} {pos : Nat × Nat} (hs : Holds P s) :
    (s.evictLine cfg env port row pos).All (Holds P) := by
  have hrelease : ((s.countEviction (s.cacheData pos).tag).releaseLine cfg port row pos).All
      (Holds P) := h.lasting.releaseLine (s := s.countEviction _) hs
  exact hrelease.bind fun s₁ hs₁ => hs₁.putLine (h.evicted _)

theorem evictCache (hs : Holds P s) : (s.evictCache cfg env port).All (Holds P) := by
  refine Run.foldlM_all (fun s slot _ hs => ?_) hs
  rw [evictSlot]
  split
  · exact hs
  · exact (h.evictLine hs).bind fun s₁ hs₁ => hs₁

theorem reserveLine {acc : List (Nat × Nat × Nat) × GenericCache F} {lca : Nat}
    (hs : Holds P acc.2) :
    (GenericCache.reserveLine cfg env port acc lca).All fun r => Holds P r.2 := by
  obtain ⟨R, s⟩ := acc
  rw [GenericCache.reserveLine]
  split
  · exact hs
  · have htake : (s.takeWay cfg env port (cfg.calcSetIndex lca)).All fun r => Holds P r.2 := by
      rw [takeWay]
      split
      · exact hs
      · dsimp only
        split
        · refine Except.All.bind (Q := Holds P) ?_ fun s₁ hs₁ => hs₁
          exact h.evictCache hs
        · trivial
    exact htake.bind fun r hr => hr.putLine (h.reserved (hr _))

theorem readLines {beginLCA : Nat} (hs : Holds P s) :
    (s.readLines cfg env port beginLCA).All (Holds P) := by
  have hopen : Holds P (s.openWindow cfg beginLCA).2 := by
    rw [openWindow]
    split <;> exact hs
  rw [GenericCache.readLines]
  refine Except.All.bind (Q := fun r : List (Nat × Nat × Nat) × GenericCache F => Holds P r.2)
    (Run.foldlM_all (fun acc lca _ hacc => h.reserveLine hacc) hopen) ?_
  rintro ⟨R, s₁⟩ hs₁
  refine (h.evictCache hs₁).bind fun s₂ hs₂ => ?_
  refine Run.foldlM_all (fun s entry _ hs => ?_) hs₂
  obtain ⟨lca, pos⟩ := entry
  exact (h.call hs).bind fun s₃ hs₃ => hs₃.putLine (h.loaded (hs₃ _))

theorem read {req : Request} (hs : Holds P s) :
    (s.read cfg env port req).All fun r => Holds P r.2 := by
  have hlookup : Holds P (s.lookupForRead cfg env req).2.2 := by
    have hdetect : Holds P (if cfg.useReadPrefetch then
        { s with readDetect := checkSequential cfg req s.readDetect } else s) := by
      split <;> exact hs
    rw [lookupForRead]
    dsimp only
    split
    · exact hdetect.putLine (h.touched (hdetect _))
    · exact hdetect
  rw [GenericCache.read]
  split
  · dsimp only
    split
    · exact (h.readLines hlookup).bind fun s₁ hs₁ => hs₁
    · exact hlookup
  · exact (h.call hs).bind fun s₁ hs₁ => hs₁

theorem insertLine {function : String} {lca : Nat} {dirty : Bool} {stored : Nat × Nat → Event}
    (hs : Holds P s) :
    (s.insertLine cfg env port function lca dirty stored).All fun r => Holds P r.2 := by
  rw [GenericCache.insertLine]
  dsimp only
  split
  · exact hs.putLine (h.stored _ _ _ _)
  · refine (h.evictCache (s := s.fillEvictData cfg env _) hs).bind fun s₁ hs₁ => ?_
    split
    · trivial
    · exact hs₁.putLine (h.stored _ _ _ _)

theorem write {req : Request} (hs : Holds P s) :
    (s.write cfg env port req).All fun r => Holds P r.2 := by
  rw [GenericCache.write]
  refine (h.lasting.writeDirect hs).bind fun s₁ hs₁ => ?_
  by_cases hcaching : cfg.useWriteCaching = true
  · rw [if_pos hcaching]
    cases s₁.getValidWay cfg req.slpn with
    | none => exact h.insertLine hs₁
    | some way => exact hs₁.putLine (h.overwritten (hs₁ _))
  · rw [if_neg hcaching]
    exact (h.lasting.writeDirect hs₁).bind fun s₂ hs₂ => hs₂

theorem writeVictimPagesToCache {req : Request} (hs : Holds P s) :
    (s.writeVictimPagesToCache cfg env port req).All fun r => Holds P r.2 := by
  rw [GenericCache.writeVictimPagesToCache]
  refine (h.lasting.writeDirect hs).bind fun s₁ hs₁ => ?_
  split
  · exact h.insertLine hs₁
  · exact (h.lasting.writeDirect hs₁).bind fun s₂ hs₂ => hs₂

/-- The property holds of every line in every state that a run reaches. -/
theorem run {pFTL : F} {calls : List (Nat × Op)} (hrun : ICL.run cfg env port (.init pFTL) calls =
    .ok s) : Holds P s := by
  refine Run.foldlM_inv (I := Holds P) (fun s call s' hs hexec => ?_) (fun _ => h.fresh) hrun
  obtain ⟨n, op⟩ := call
  have hs₀ : Holds P { s with iclCount := n } := hs
  refine Except.All.of_ok (Q := Holds P) ?_ hexec
  cases op with
  | read req => exact Except.All.map (h.read hs₀)
  | write req => exact Except.All.map (h.write hs₀)
  | flush range => exact h.lasting.flush hs₀
  | trim range => exact h.lasting.trim hs₀
  | format range => exact h.lasting.format hs₀
  | writeVictimPagesToCache req => exact Except.All.map (h.writeVictimPagesToCache hs₀)

end LineRule

end SimpleSSD.ICL
