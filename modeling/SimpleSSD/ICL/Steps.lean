import SimpleSSD.ICL.Requests

/-!
# What a call can do to the cache

Every operation of the cache is a sequence of a few steps: a line is touched,
evicted, reserved, loaded, stored or invalidated. `CacheInvariant` collects what
has to be checked of a property of caches, one field per step, and
`CacheInvariant.exec` is the induction over the loops of the operations.

A property may depend on the read in progress: `R` lists the lines that
`reserveLine` has reserved and `loadLine` has not filled yet. `Pass` is what
holds while a write longer than a line has reached the FTL and not the cache.
-/

namespace SimpleSSD.ICL

/-! ### Lookups -/

namespace GenericCache

variable {F : Type} {cfg : Config} {s s' : GenericCache F} {lca setIdx way : Nat}

theorem getValidWay_eq_some (h : s.getValidWay cfg lca = some way) :
    way < cfg.waySize ∧ (s.cacheData (cfg.calcSetIndex lca, way)).valid = true ∧
      (s.cacheData (cfg.calcSetIndex lca, way)).tag = lca := by
  have hway := List.mem_of_find?_eq_some h
  have hline := List.find?_some h
  rw [Bool.and_eq_true, beq_iff_eq] at hline
  exact ⟨List.mem_range.mp hway, hline⟩

theorem getValidWay_eq_none : s.getValidWay cfg lca = none ↔
    ∀ way < cfg.waySize, (s.cacheData (cfg.calcSetIndex lca, way)).valid = true →
      (s.cacheData (cfg.calcSetIndex lca, way)).tag ≠ lca := by
  simp [getValidWay]

theorem getEmptyWay_eq_some (h : s.getEmptyWay cfg setIdx = some way) :
    way < cfg.waySize ∧ (s.cacheData (setIdx, way)).valid = false := by
  have hfold : ∀ w, s.getEmptyWay cfg setIdx = some w →
      w < cfg.waySize ∧ (s.cacheData (setIdx, w)).valid = false := by
    unfold getEmptyWay
    refine List.foldlRecOn (motive := fun acc : Option Nat × Nat => ∀ w, acc.1 = some w →
      w < cfg.waySize ∧ (s.cacheData (setIdx, w)).valid = false) _ _ (by simp)
      fun acc hacc v hv w hw => ?_
    dsimp only at hw
    split at hw
    · next hempty =>
      rw [Option.some.injEq] at hw
      subst hw
      rw [Bool.and_eq_true, Bool.not_eq_true'] at hempty
      exact ⟨List.mem_range.mp hv, hempty.1⟩
    · exact hacc w hw
  exact hfold way h

/-! ### Marks and frames -/

/-- The FTL has marked lines dirty: nothing else has changed. -/
structure Marked (s s' : GenericCache F) : Prop where
  eq : s' = { s with cacheData := s'.cacheData, clock := s'.clock }
  line (pos : Nat × Nat) : s'.cacheData pos = s.cacheData pos ∨
    (s.cacheData pos).valid = true ∧
      ∃ n, s'.cacheData pos = { s.cacheData pos with dirty := true, accessCount := n }

theorem Marked.refl (s : GenericCache F) : s.Marked s := ⟨rfl, fun _ => .inl rfl⟩

theorem Marked.trans {s'' : GenericCache F} (h : s.Marked s') (h' : s'.Marked s'') :
    s.Marked s'' := by
  refine ⟨h'.eq.trans ?_, fun pos => ?_⟩
  · rw [h.eq]
  · rcases h'.line pos with he' | ⟨hv', n', he'⟩
    · rw [he']
      exact h.line pos
    · rcases h.line pos with he | ⟨hv, n, he⟩
      · rw [he] at hv' he'
        exact .inr ⟨hv', n', he'⟩
      · rw [he] at he'
        exact .inr ⟨hv, n', he'⟩

theorem Marked.valid (h : s.Marked s') (pos : Nat × Nat) :
    (s'.cacheData pos).valid = (s.cacheData pos).valid := by
  rcases h.line pos with he | ⟨-, n, he⟩ <;> rw [he]

theorem Marked.tag (h : s.Marked s') (pos : Nat × Nat) :
    (s'.cacheData pos).tag = (s.cacheData pos).tag := by
  rcases h.line pos with he | ⟨-, n, he⟩ <;> rw [he]

theorem Marked.dirty (h : s.Marked s') {pos : Nat × Nat} (hd : (s.cacheData pos).dirty = true) :
    (s'.cacheData pos).dirty = true := by
  rcases h.line pos with he | ⟨-, n, he⟩ <;> rw [he]
  exact hd

theorem Marked.trace (h : s.Marked s') : s'.trace = s.trace := by rw [h.eq]

theorem Marked.pFTL (h : s.Marked s') : s'.pFTL = s.pFTL := by rw [h.eq]

theorem Marked.evictData (h : s.Marked s') : s'.evictData = s.evictData := by rw [h.eq]

theorem updateDirty_marked (cfg : Config) (s : GenericCache F) (lca : Nat) :
    s.Marked (s.updateDirty cfg lca) := by
  rw [updateDirty]
  split
  · next way hway =>
    obtain ⟨-, hvalid, -⟩ := getValidWay_eq_some hway
    refine ⟨rfl, fun pos => ?_⟩
    by_cases hpos : pos = (cfg.calcSetIndex lca, way)
    · subst hpos
      exact .inr ⟨hvalid, (s.cacheData (cfg.calcSetIndex lca, way)).accessCount + 1,
        putLine_self s _ _⟩
    · exact .inl (putLine_of_ne hpos)
  · exact .refl s

theorem foldl_updateDirty_marked (cfg : Config) (lcas : List Nat) (s : GenericCache F) :
    s.Marked (lcas.foldl (updateDirty cfg) s) := by
  induction lcas generalizing s with
  | nil => exact .refl s
  | cons lca lcas ih => exact (updateDirty_marked cfg s lca).trans (ih _)

/-- What a call of the FTL changes besides the marks: the FTL and the trace. -/
theorem call_all (cfg : Config) (port : FTLPort F) (op : FTL.Op) (s : GenericCache F) :
    (s.call cfg port op).All fun s' => ∃ pFTL marked,
      port.call s.pFTL (s.world, op) = .ok (pFTL, marked) ∧
        Marked { s with pFTL := pFTL, trace := .ftl op :: s.trace } s' := by
  have hport : (port.call s.pFTL (s.world, op)).All fun r =>
      port.call s.pFTL (s.world, op) = .ok r := Except.all_iff.mpr fun _ h => h
  exact hport.bind fun r hr => ⟨r.1, r.2, hr, foldl_updateDirty_marked cfg r.2 _⟩

/-- Lines lose validity, and the valid ones keep their tags. -/
def Fewer (s s' : GenericCache F) : Prop :=
  ∀ pos, (s'.cacheData pos).valid = true →
    (s.cacheData pos).valid = true ∧ (s'.cacheData pos).tag = (s.cacheData pos).tag

theorem Fewer.refl (s : GenericCache F) : s.Fewer s := fun _ hv => ⟨hv, rfl⟩

theorem Marked.fewer (h : s.Marked s') : s.Fewer s' :=
  fun pos hv => ⟨h.valid pos ▸ hv, h.tag pos⟩

theorem Fewer.trans {s'' : GenericCache F} (h : s.Fewer s') (h' : s'.Fewer s'') : s.Fewer s'' :=
  fun pos hv => ⟨(h pos (h' pos hv).1).1, (h' pos hv).2.trans (h pos (h' pos hv).1).2⟩

theorem Fewer.getValidWay (h : s.Fewer s') (hnone : s.getValidWay cfg lca = none) :
    s'.getValidWay cfg lca = none := by
  rw [getValidWay_eq_none] at hnone ⊢
  intro way hway hv
  rw [(h _ hv).2]
  exact hnone way hway (h _ hv).1

theorem call_fewer (cfg : Config) (port : FTLPort F) (op : FTL.Op) (s : GenericCache F) :
    (s.call cfg port op).All s.Fewer := by
  refine (call_all cfg port op s).mono ?_
  rintro s' ⟨_, _, -, hmarked⟩
  exact hmarked.fewer

theorem fewer_putLine {pos : Nat × Nat} {line : Line}
    (h : line.valid = true → (s.cacheData pos).valid = true ∧ line.tag = (s.cacheData pos).tag) :
    s.Fewer (s.putLine pos line) := by
  intro p hv
  by_cases hp : p = pos
  · subst hp
    rw [putLine_self] at hv ⊢
    exact h hv
  · rw [putLine_of_ne hp] at hv ⊢
    exact ⟨hv, rfl⟩

/-! ### What lasts -/

/-- A property that a call of the FTL, an entry of the trace and the invalidation of a line
keep. -/
structure Lasting (cfg : Config) (port : FTLPort F) (Inv : GenericCache F → Prop) : Prop where
  call {s op} : Inv s → (s.call cfg port op).All Inv
  log {s e} : Inv s → Inv (s.log e)
  invalidateLine {s pos} : Inv s → Inv (s.invalidateLine pos)

namespace Lasting

variable {port : FTLPort F} {Inv : GenericCache F → Prop} {range : LPNRange}
  (hI : Lasting cfg port Inv)

include hI

theorem writeDirect {direct : Bool} {e : Event} (h : Inv s) :
    (s.writeDirect cfg port direct e lca).All Inv := by
  rw [GenericCache.writeDirect]
  split
  · exact hI.call (hI.log h)
  · exact h

theorem releaseLine {row : Nat} {pos : Nat × Nat} (h : Inv s) :
    (s.releaseLine cfg port row pos).All Inv := by
  rw [GenericCache.releaseLine]
  split
  · exact (hI.call h).bind fun s₁ h₁ => hI.call (hI.log h₁)
  · exact hI.call h

theorem flushLine {ioFlag : Bitset} {pos : Nat × Nat} (h : Inv s) :
    (GenericCache.flushLine cfg port range (ioFlag, s) pos).All fun r => Inv r.2 := by
  rw [GenericCache.flushLine]
  split
  · split
    · exact (hI.call (hI.log h)).bind fun s₁ h₁ => hI.invalidateLine h₁
    · exact hI.invalidateLine h
  · exact h

theorem flush (h : Inv s) : (s.flush cfg port range).All Inv := by
  rw [GenericCache.flush]
  split
  · exact Except.All.bind (Q := fun r : Bitset × GenericCache F => Inv r.2)
      (Run.foldlM_all (fun _ _ _ hacc => hI.flushLine hacc) h) fun r hr => hr
  · exact h

theorem trim (h : Inv s) : (s.trim cfg port range).All Inv := by
  have hline : ∀ (acc : Bitset × GenericCache F) (pos : Nat × Nat), Inv acc.2 →
      (trimLine cfg port range acc pos).All fun r => Inv r.2 := by
    rintro ⟨ioFlag, s⟩ pos h
    rw [trimLine]
    split
    · exact (hI.call h).bind fun s₁ h₁ => hI.invalidateLine h₁
    · exact h
  rw [GenericCache.trim]
  split
  · exact Except.All.bind (Q := fun r : Bitset × GenericCache F => Inv r.2)
      (Run.foldlM_all (fun acc pos _ hacc => hline acc pos hacc) (hI.log h)) fun r hr => hr
  · exact hI.log h

theorem format (h : Inv s) : (s.format cfg port range).All Inv := by
  have hline : ∀ (s : GenericCache F) (lca : Nat), Inv s → Inv (s.formatLine cfg lca) := by
    intro s lca h
    unfold formatLine
    split
    · exact hI.invalidateLine h
    · exact h
  rw [GenericCache.format]
  refine hI.call ?_
  split
  · exact List.foldlRecOn _ _ (hI.log h) fun s hs lca _ => hline s lca hs
  · exact hI.log h

end Lasting

/-- Lines only get lost. -/
theorem lasting_fewer (cfg : Config) (port : FTLPort F) (s : GenericCache F) :
    Lasting cfg port s.Fewer where
  call h := (call_fewer cfg port _ _).mono fun _ h' => h.trans h'
  log h := h
  invalidateLine h := h.trans (fewer_putLine (by simp))

/-! ### Evictions -/

section Evict

variable (env : Env) (port : FTLPort F)

/-- `evictData` is all null. -/
def Cleared (s : GenericCache F) : Prop := ∀ slot, s.evictData slot = none

def clear (s : GenericCache F) : GenericCache F := { s with evictData := fun _ => none }

theorem Cleared.clear_eq (h : s.Cleared) : s.clear = s := by
  have hdata : s.evictData = fun _ => none := funext h
  rw [clear, ← hdata]

theorem call_cleared (cfg : Config) (op : FTL.Op) (h : s.Cleared) :
    (s.call cfg port op).All Cleared := by
  refine (call_all cfg port op s).mono ?_
  rintro s' ⟨_, _, -, hmarked⟩ slot
  rw [hmarked.evictData]
  exact h slot

theorem lasting_cleared (cfg : Config) : Lasting cfg port Cleared where
  call h := call_cleared port cfg _ h
  log h := h
  invalidateLine h := h

theorem loadLine_cleared {entry : Nat × Nat × Nat} (cfg : Config) (h : s.Cleared) :
    (s.loadLine cfg env port entry).All Cleared := by
  obtain ⟨lca, pos⟩ := entry
  exact (call_cleared port cfg _ h).bind fun s₁ h₁ => h₁

/-- Every entry of `evictData` lies within its bounds and points at a line, in the
row of the line's unit. -/
def Aims (cfg : Config) (s : GenericCache F) (evictData : Nat × Nat → Option (Nat × Nat)) : Prop :=
  ∀ slot pos, evictData slot = some pos → slot ∈ cfg.slots ∧ pos ∈ cfg.positions ∧
    ((s.cacheData pos).valid = true →
      slot.1 = (s.cacheData pos).tag % cfg.lineCountInSuperPage)

theorem releaseLine_all (cfg : Config) (row : Nat) (pos : Nat × Nat) (s : GenericCache F) :
    (s.releaseLine cfg port row pos).All fun s' => s.Fewer s' ∧ s'.evictData = s.evictData := by
  have hlast : Lasting cfg port fun s' => s.Fewer s' ∧ s'.evictData = s.evictData := by
    refine ⟨fun {s₁ op} ⟨hfewer, hdata⟩ => (call_all cfg port op s₁).mono ?_, fun h => h,
      fun h => ⟨h.1.trans (fewer_putLine (by simp)), h.2⟩⟩
    rintro s' ⟨_, _, -, hmarked⟩
    exact ⟨hfewer.trans hmarked.fewer, hmarked.evictData.trans hdata⟩
  exact hlast.releaseLine ⟨.refl s, rfl⟩

theorem evictLine_all (cfg : Config) (row : Nat) (pos : Nat × Nat) (s : GenericCache F) :
    (s.evictLine cfg env port row pos).All fun s' => s.Fewer s' ∧
      (s'.cacheData pos).valid = false ∧ s'.evictData = s.evictData := by
  refine (releaseLine_all port cfg row pos _).bind ?_
  rintro s₁ ⟨hfewer, hdata⟩
  refine ⟨fun p hv => ?_, ?_, hdata⟩
  · by_cases hp : p = pos
    · subst hp
      simp at hv
    · rw [putLine_of_ne hp] at hv ⊢
      exact hfewer p hv
  · simp

theorem Fewer.aims (h : s.Fewer s') {evictData : Nat × Nat → Option (Nat × Nat)}
    (ha : s.Aims cfg evictData) : s'.Aims cfg evictData := by
  intro slot pos hslot
  obtain ⟨hmem, hpos, hrow⟩ := ha slot pos hslot
  refine ⟨hmem, hpos, fun hv => ?_⟩
  rw [(h pos hv).2]
  exact hrow (h pos hv).1

/-- The rule of `evictCache`: what every eviction of an aimed line keeps, it
keeps, and `evictData` is all null afterwards. -/
theorem evictCache_all {Inv : GenericCache F → Prop} (ha : s.Aims cfg s.evictData)
    (hclear : ∀ {s e}, Inv s → Inv { s with evictData := e })
    (hevict : ∀ {s row pos}, Inv s → pos ∈ cfg.positions →
      ((s.cacheData pos).valid = true →
        row = (s.cacheData pos).tag % cfg.lineCountInSuperPage) →
      (s.evictLine cfg env port row pos).All Inv)
    (hs : Inv s) :
    (s.evictCache cfg env port).All fun s' => Inv s' ∧ s.Fewer s' ∧ s'.Cleared := by
  refine Except.all_iff.mpr fun s' h => ?_
  have hloop := Run.foldlM_done (f := evictSlot cfg env port)
    (I := fun done s₁ => Inv s₁ ∧ s.Fewer s₁ ∧ s₁.Aims cfg s₁.evictData ∧
      ∀ slot ∈ done, s₁.evictData slot = none) ?_ ⟨hs, fun _ hv => ⟨hv, rfl⟩, ha, by simp⟩ h
  · obtain ⟨hinv, hfewer, haims, hnone⟩ := hloop
    refine ⟨hinv, hfewer, fun slot => ?_⟩
    cases hslot : s'.evictData slot with
    | none => rfl
    | some pos =>
      rw [hnone slot (haims slot pos hslot).1] at hslot
      cases hslot
  · rintro done slot rest s₁ s₂ - ⟨hinv, hfewer, haims, hnone⟩ hstep
    rw [evictSlot] at hstep
    split at hstep
    · next hslot =>
      cases hstep
      refine ⟨hinv, hfewer, haims, fun slot' hmem => ?_⟩
      rcases List.mem_append.mp hmem with hmem | hmem
      · exact hnone slot' hmem
      · rw [List.mem_singleton.mp hmem]
        exact hslot
    · next pos hslot =>
      obtain ⟨-, hpos, hrow⟩ := haims slot pos hslot
      obtain ⟨s₃, h₃, h₂⟩ := Except.bind_eq_ok.mp hstep
      cases h₂
      have hinv₃ := (hevict hinv hpos hrow).of_ok h₃
      obtain ⟨hfewer₃, -, hdata₃⟩ := (evictLine_all env port cfg slot.1 pos s₁).of_ok h₃
      have haims₃ : s₃.Aims cfg s₃.evictData := by
        rw [hdata₃]
        exact hfewer₃.aims haims
      refine ⟨hclear hinv₃, hfewer.trans hfewer₃, fun slot' pos' hslot' => ?_, fun slot' hmem => ?_⟩
      · by_cases heq : slot' = slot
        · subst heq
          simp at hslot'
        · simp only [Function.update_of_ne heq] at hslot'
          exact haims₃ slot' pos' hslot'
      · by_cases heq : slot' = slot
        · subst heq
          exact Function.update_self _ _ _
        · simp only [Function.update_of_ne heq, hdata₃]
          rcases List.mem_append.mp hmem with hmem | hmem
          · exact hnone slot' hmem
          · exact absurd (List.mem_singleton.mp hmem) heq

/-- Entries that are null are passed over. -/
theorem foldlM_evictSlot_idle {l : List (Nat × Nat)} (h : ∀ slot ∈ l, s.evictData slot = none) :
    l.foldlM (evictSlot cfg env port) s = .ok s := by
  induction l with
  | nil => rfl
  | cons slot l ih =>
    have hslot : s.evictSlot cfg env port slot = .ok s := by
      rw [evictSlot, h slot List.mem_cons_self]
    rw [List.foldlM_cons, Except.bind_eq_ok]
    exact ⟨s, hslot, ih fun slot' hmem => h slot' (List.mem_cons_of_mem slot hmem)⟩

/-- With one entry set, `evictCache` evicts that line. -/
theorem evictCache_single {slot pos : Nat × Nat} (hslot : slot ∈ cfg.slots) (hnull : s.Cleared) :
    { s with evictData := Function.update s.evictData slot (some pos) }.evictCache cfg env port =
      (evictLine cfg env port slot.1 pos
        { s with evictData := Function.update s.evictData slot (some pos) }).map clear := by
  obtain ⟨l₁, l₂, hslots, hnot⟩ := List.eq_append_cons_of_mem hslot
  generalize hs₁ : { s with evictData := Function.update s.evictData slot (some pos) } = s₁
  have hdata : s₁.evictData = Function.update s.evictData slot (some pos) := by rw [← hs₁]
  have hfirst : l₁.foldlM (evictSlot cfg env port) s₁ = .ok s₁ := by
    refine foldlM_evictSlot_idle env port fun slot' hmem => ?_
    rw [hdata, Function.update_of_ne (fun heq => hnot (by rwa [heq] at hmem))]
    exact hnull slot'
  rw [evictCache, hslots, List.foldlM_append, hfirst]
  show (slot :: l₂).foldlM (evictSlot cfg env port) s₁ = _
  rw [List.foldlM_cons, evictSlot, hdata, Function.update_self]
  have hline := evictLine_all env port cfg slot.1 pos s₁
  cases hevict : s₁.evictLine cfg env port slot.1 pos with
  | error e => simp [hevict, Bind.bind, Except.bind, Except.map]
  | ok s₂ =>
    obtain ⟨-, -, hdata₂⟩ := hline.of_ok hevict
    have hcleared : { s₂ with evictData := Function.update s₂.evictData slot none } = s₂.clear := by
      have : Function.update s₂.evictData slot none = fun _ => none := by
        funext slot'
        rw [hdata₂, hdata, Function.update_idem]
        by_cases heq : slot' = slot
        · rw [heq, Function.update_self]
        · rw [Function.update_of_ne heq]
          exact hnull slot'
      rw [this, clear]
    simp only [hevict, Bind.bind, Except.bind, Except.map, hcleared]
    exact foldlM_evictSlot_idle env port fun _ _ => rfl

/-- `compareFunction` picks one of its arguments. -/
theorem compareFunction_eq_some {place : List Nat} {a b : Option (Nat × Nat)} {pos : Nat × Nat}
    (h : s.compareFunction cfg env place a b = some pos) : a = some pos ∨ b = some pos := by
  unfold compareFunction at h
  split at h
  · split at h
    · exact .inl h
    · exact .inr h
  · exact .inl h
  · exact .inr h

/-- An entry may be set to a line of its row. -/
theorem Aims.update {evictData : Nat × Nat → Option (Nat × Nat)} (h : s.Aims cfg evictData)
    {slot : Nat × Nat} {entry : Option (Nat × Nat)}
    (hentry : ∀ pos, entry = some pos → slot ∈ cfg.slots ∧ pos ∈ cfg.positions ∧
      ((s.cacheData pos).valid = true →
        slot.1 = (s.cacheData pos).tag % cfg.lineCountInSuperPage)) :
    s.Aims cfg (Function.update evictData slot entry) := by
  intro slot' pos hslot
  by_cases heq : slot' = slot
  · subst heq
    rw [Function.update_self] at hslot
    exact hentry pos hslot
  · rw [Function.update_of_ne heq] at hslot
    exact h slot' pos hslot

/-- The entry of its own row and column suits a line. -/
theorem aims_calcIOPosition (cfg : Config) (s : GenericCache F) {pos : Nat × Nat}
    (hpos : pos ∈ cfg.positions) : cfg.calcIOPosition (s.cacheData pos).tag ∈ cfg.slots ∧
      pos ∈ cfg.positions ∧ ((s.cacheData pos).valid = true →
        (cfg.calcIOPosition (s.cacheData pos).tag).1 =
          (s.cacheData pos).tag % cfg.lineCountInSuperPage) :=
  ⟨cfg.calcIOPosition_mem_slots _, hpos, fun _ => cfg.calcIOPosition_row _⟩

theorem collectEvictData_aims (h : s.Aims cfg s.evictData) :
    s.Aims cfg (s.collectEvictData cfg env) := by
  refine List.foldlRecOn _ _ h fun evictData ha pos hpos => ?_
  dsimp only
  split
  · refine ha.update fun p hp => ?_
    rcases compareFunction_eq_some env hp with hp | hp
    · exact ha _ p hp
    · cases hp
      exact aims_calcIOPosition cfg s hpos
  · exact ha

theorem foldRows_aims {evictData : Nat × Nat → Option (Nat × Nat)} (h : s.Aims cfg evictData) :
    s.Aims cfg (s.foldRows cfg env evictData) := by
  refine List.foldlRecOn _ _ h fun evictData ha slot hslot => ?_
  have hnext : (slot.1, slot.2 + 1) ∈ cfg.slots := by
    have hmem : slot.1 < cfg.lineCountInSuperPage ∧ slot.2 < cfg.parallelIO - 1 := by
      obtain ⟨row, col⟩ := slot
      simpa using hslot
    have hcol : slot.2 + 1 < cfg.parallelIO := by omega
    simp [Config.slots, hmem.1, hcol]
  refine Aims.update (ha.update fun p hp => ?_) fun p hp => by cases hp
  rcases compareFunction_eq_some env hp with hp | hp
  · obtain ⟨-, hpos, hrow⟩ := ha slot p hp
    exact ⟨hnext, hpos, hrow⟩
  · exact ha _ p hp

theorem pLineToFlush_mem {setToFlush : Nat} {pos : Nat × Nat} (hset : setToFlush < cfg.setSize)
    (h : s.pLineToFlush cfg env setToFlush = some pos) : pos ∈ cfg.positions := by
  have hfold : ∀ p, s.pLineToFlush cfg env setToFlush = some p → p ∈ cfg.positions := by
    refine List.foldlRecOn (motive := fun best : Option (Nat × Nat) => ∀ p, best = some p →
      p ∈ cfg.positions) _ _ (by simp) fun best hbest way hway p hp => ?_
    split at hp
    · rcases compareFunction_eq_some env hp with hp | hp
      · exact hbest p hp
      · cases hp
        exact cfg.mem_positions.mpr ⟨hset, List.mem_range.mp hway⟩
    · exact hbest p hp
  exact hfold pos h

theorem addLineOf_aims {setToFlush : Nat} {evictData : Nat × Nat → Option (Nat × Nat)}
    (hset : setToFlush < cfg.setSize) (h : s.Aims cfg evictData) :
    s.Aims cfg (s.addLineOf cfg env setToFlush evictData) := by
  rw [addLineOf]
  split
  · exact h
  · split
    · next pos hpos =>
      refine h.update fun p hp => ?_
      cases hp
      exact aims_calcIOPosition cfg s (pLineToFlush_mem env hset hpos)
    · exact h

theorem fillEvictData_aims {setToFlush : Nat} (hset : setToFlush < cfg.setSize)
    (h : s.Aims cfg s.evictData) :
    (s.fillEvictData cfg env setToFlush).Aims cfg
      (s.fillEvictData cfg env setToFlush).evictData := by
  have hcollect := collectEvictData_aims env h
  refine addLineOf_aims (s := s) env hset ?_
  split
  · exact foldRows_aims env hcollect
  · exact hcollect

end Evict

end GenericCache

/-! ### Conditions on the steps of a call -/

/-- Conditions on the points at which a call can go wrong: an insertion by garbage
collection, an eviction by a read in progress, and the visit of one line by a
flush. -/
structure StepConditions (F : Type) where
  insert : Request → GenericCache F → Prop
  evict : List (Nat × Nat × Nat) → Nat × Nat → GenericCache F → Prop
  flush : LPNRange → Bitset × GenericCache F → Nat × Nat → Prop

section Conditions

variable {F : Type} (cfg : Config) (env : Env) (port : FTLPort F)

/-- The line that a read evicts for `lca`, if it evicts one, meets the condition. -/
def StepConditions.ReserveMeets (C : StepConditions F)
    (acc : List (Nat × Nat × Nat) × GenericCache F) (lca : Nat) : Prop :=
  acc.2.getValidWay cfg lca = none →
    acc.2.getEmptyWay cfg (cfg.calcSetIndex lca) = none →
      C.evict acc.1 (cfg.calcSetIndex lca, acc.2.evictFunction cfg env (cfg.calcSetIndex lca)) acc.2

/-- The loop of a read from `beginLCA` meets the conditions at every step. -/
def StepConditions.ReadMeets (C : StepConditions F) (s : GenericCache F) (beginLCA : Nat) : Prop :=
  Run.Along (GenericCache.reserveLine cfg env port) (C.ReserveMeets cfg env)
    ([], (s.openWindow cfg beginLCA).2) (s.openWindow cfg beginLCA).1

/-- The conditions hold at every point of the call that they speak about. -/
def Op.Meets (C : StepConditions F) (s : GenericCache F) (call : Nat × Op) : Prop :=
  let s := { s with iclCount := call.1 }
  match call.2 with
  | .read req =>
    cfg.useReadCaching = true → ∀ lca ∈ (s.lookupForRead cfg env req).2.1,
      C.ReadMeets cfg env port (s.lookupForRead cfg env req).2.2 lca
  | .flush range =>
    Run.Along (GenericCache.flushLine cfg port range) (C.flush range)
      (Bitset.new cfg.lineCountInSuperPage, s) cfg.positions
  | .writeVictimPagesToCache req => C.insert req s
  | _ => True

instance (C : StepConditions F) [∀ req s, Decidable (C.insert req s)]
    [∀ R pos s, Decidable (C.evict R pos s)] [∀ range acc pos, Decidable (C.flush range acc pos)]
    (s : GenericCache F) (call : Nat × Op) : Decidable (Op.Meets cfg env port C s call) :=
  have (acc : List (Nat × Nat × Nat) × GenericCache F) (lca : Nat) :
      Decidable (C.ReserveMeets cfg env acc lca) := inferInstanceAs (Decidable (_ → _ → _))
  have (s : GenericCache F) (lca : Nat) : Decidable (C.ReadMeets cfg env port s lca) :=
    inferInstanceAs (Decidable (Run.Along _ _ _ _))
  match call with
  | (_, .read _) => inferInstanceAs (Decidable (_ → ∀ lca ∈ (_ : Option Nat), _))
  | (_, .flush _) => inferInstanceAs (Decidable (Run.Along _ _ _ _))
  | (_, .writeVictimPagesToCache _) => inferInstanceAs (Decidable (C.insert _ _))
  | (_, .write _) => .isTrue trivial
  | (_, .trim _) => .isTrue trivial
  | (_, .format _) => .isTrue trivial

end Conditions

/-! ### The rule -/

open GenericCache

/-- What to check of a property of caches, step by step. `Inv R` is the property
while the lines of `R` are reserved, `Pass lca` the property while a long write
to `lca` has reached the FTL only. `fresh` says whether an insertion is known to
find no valid line of its LCA. -/
structure CacheInvariant {F : Type} (cfg : Config) (env : Env) (port : FTLPort F)
    (C : StepConditions F) (fresh : Prop) (Inv : List (Nat × Nat × Nat) → GenericCache F → Prop)
    (Pass : Nat → GenericCache F → Prop) : Prop where
  count {s n} : Inv [] s → Inv [] { s with iclCount := n }
  detect {s data} : Inv [] s → Inv [] { s with readDetect := data }
  trigger {s a b} : Inv [] s → Inv [] { s with prefetchTrigger := a, lastPrefetched := b }
  aim {R s evictData} : Inv R s → Inv R { s with evictData := evictData }
  touch {s pos t n} : Inv [] s → (s.cacheData pos).valid = true →
    Inv [] (s.putLine pos { s.cacheData pos with lastAccessed := t, accessCount := n })
  evictLine {R s row pos} : Inv R s → pos ∈ cfg.positions →
    ((s.cacheData pos).valid = true → row = (s.cacheData pos).tag % cfg.lineCountInSuperPage) →
    (R = [] ∨ C.evict R pos s.clear) → (s.evictLine cfg env port row pos).All (Inv R)
  reserve {R s lca way t} : Inv R s → s.getValidWay cfg lca = none → (∀ entry ∈ R, entry.1 ≠ lca) →
    way < cfg.waySize → (s.cacheData (cfg.calcSetIndex lca, way)).valid = false →
    Inv (R ++ [(lca, cfg.calcSetIndex lca, way)]) (s.putLine (cfg.calcSetIndex lca, way)
      { s.cacheData (cfg.calcSetIndex lca, way) with
        insertedAt := t, lastAccessed := t, valid := true, dirty := false })
  load {R s lca pos} : Inv ((lca, pos) :: R) s → (s.loadLine cfg env port (lca, pos)).All (Inv R)
  readThrough {s lca} : cfg.useReadCaching = false → Inv [] s →
    (s.call cfg port (.read (cfg.lineRequest lca))).All (Inv [])
  store {s lca way t dirty n e} : Inv [] s → s.getValidWay cfg lca = none → way < cfg.waySize →
    (s.cacheData (cfg.calcSetIndex lca, way)).valid = false →
    (dirty = true ∧ e = .write (cfg.calcSetIndex lca, way) lca ∨
      e = .mirror (cfg.calcSetIndex lca, way) lca) →
    Inv [] ((s.putLine (cfg.calcSetIndex lca, way) ⟨lca, t, t, dirty, true, n⟩).log e)
  insert {s lca way t dirty n} : Inv [] s → (fresh → s.getValidWay cfg lca = none) →
    way < cfg.waySize → (s.cacheData (cfg.calcSetIndex lca, way)).valid = false →
    Inv [] ((s.putLine (cfg.calcSetIndex lca, way) ⟨lca, t, t, dirty, true, n⟩).log
      (.insert (cfg.calcSetIndex lca, way) lca))
  insert_fresh {req s} : fresh → C.insert req s → s.getValidWay cfg req.slpn = none
  overwrite {s lca way t n} : Inv [] s → s.getValidWay cfg lca = some way →
    Inv [] ((s.putLine (cfg.calcSetIndex lca, way)
      { s.cacheData (cfg.calcSetIndex lca, way) with
        insertedAt := t, lastAccessed := t, dirty := true, accessCount := n }).log
      (.write (cfg.calcSetIndex lca, way) lca))
  writeThrough {s lca} : cfg.useWriteCaching = true → Inv [] s →
    (s.writeDirect cfg port true (.writeThrough lca) lca).All (Pass lca)
  pass_miss {s lca} : Pass lca s → s.getValidWay cfg lca = none → Inv [] s
  pass_hit {s lca way t n} : Pass lca s → s.getValidWay cfg lca = some way →
    Inv [] ((s.putLine (cfg.calcSetIndex lca, way)
      { s.cacheData (cfg.calcSetIndex lca, way) with
        insertedAt := t, lastAccessed := t, dirty := false, accessCount := n }).log
      (.mirror (cfg.calcSetIndex lca, way) lca))
  writeUncached {s lca} : cfg.useWriteCaching = false → Inv [] s →
    (s.writeDirect cfg port true (.writeThrough lca) lca).All (Inv [])
  rewrite {s lca} : Inv [] s → (fresh → s.getValidWay cfg lca = none) →
    (s.writeDirect cfg port true (.rewrite lca) lca).All (Inv [])
  flushLine {s range ioFlag pos} : Inv [] s → pos ∈ cfg.positions →
    ioFlag.dataSize = cfg.lineCountInSuperPage → C.flush range (ioFlag, s) pos →
    (GenericCache.flushLine cfg port range (ioFlag, s) pos).All fun r => Inv [] r.2
  trim {s range} : Inv [] s → (s.trim cfg port range).All (Inv [])
  format {s range} : Inv [] s → (s.format cfg port range).All (Inv [])

namespace CacheInvariant

variable {F : Type} {cfg : Config} {env : Env} {port : FTLPort F} {C : StepConditions F}
  {fresh : Prop} {Inv : List (Nat × Nat × Nat) → GenericCache F → Prop}
  {Pass : Nat → GenericCache F → Prop} (hI : CacheInvariant cfg env port C fresh Inv Pass)
  {s : GenericCache F}

include hI

/-- A way for a line that is not cached: `Inv` is kept, and the way is empty. -/
theorem takeWay {R : List (Nat × Nat × Nat)} {lca : Nat} (hs : Inv R s) (hclear : s.Cleared)
    (hnone : s.getValidWay cfg lca = none)
    (hevict : s.getEmptyWay cfg (cfg.calcSetIndex lca) = none →
      C.evict R (cfg.calcSetIndex lca, s.evictFunction cfg env (cfg.calcSetIndex lca)) s) :
    (s.takeWay cfg env port (cfg.calcSetIndex lca)).All fun r =>
      Inv R r.2 ∧ r.2.Cleared ∧ r.2.getValidWay cfg lca = none ∧ r.1 < cfg.waySize ∧
        (r.2.cacheData (cfg.calcSetIndex lca, r.1)).valid = false := by
  rw [GenericCache.takeWay]
  split
  · next way hway =>
    obtain ⟨hlt, hempty⟩ := getEmptyWay_eq_some hway
    exact ⟨hs, hclear, hnone, hlt, hempty⟩
  · next hfull =>
    dsimp only
    split
    · next hlt =>
      generalize hway : s.evictFunction cfg env (cfg.calcSetIndex lca) = way at hlt hevict ⊢
      have hpos : (cfg.calcSetIndex lca, way) ∈ cfg.positions :=
        cfg.mem_positions.mpr ⟨cfg.calcSetIndex_lt lca, hlt⟩
      rw [evictCache_single env port (cfg.calcIOPosition_mem_slots _) hclear]
      refine Except.All.bind (Q := fun s' : GenericCache F => Inv R s' ∧ s'.Cleared ∧
        s'.getValidWay cfg lca = none ∧
          (s'.cacheData (cfg.calcSetIndex lca, way)).valid = false) (Except.All.map ?_) ?_
      · refine Except.all_iff.mpr fun s₂ h₂ => ?_
        obtain ⟨hfewer, hempty, -⟩ := (evictLine_all env port cfg _ _ _).of_ok h₂
        have hinv := (hI.evictLine (hI.aim hs) hpos (fun _ => cfg.calcIOPosition_row _)
          (.inr (hclear.clear_eq.symm ▸ hevict hfull))).of_ok h₂
        exact ⟨hI.aim hinv, fun _ => rfl, hfewer.getValidWay hnone, hempty⟩
      · rintro s' ⟨hinv, hclear', hnone', hempty⟩
        exact ⟨hinv, hclear', hnone', hlt, hempty⟩
    · trivial

theorem reserveLine {R : List (Nat × Nat × Nat)} {lca : Nat} (hs : Inv R s) (hclear : s.Cleared)
    (hR : ∀ entry ∈ R, entry.1 ≠ lca) (hmeets : C.ReserveMeets cfg env (R, s) lca) :
    (GenericCache.reserveLine cfg env port (R, s) lca).All fun r => Inv r.1 r.2 ∧
      r.2.Cleared ∧ ∀ entry ∈ r.1, entry ∈ R ∨ entry.1 = lca := by
  rw [GenericCache.reserveLine]
  split
  · exact ⟨hs, hclear, fun entry hentry => .inl hentry⟩
  · next hnone =>
    rw [Option.isSome_iff_ne_none, not_not] at hnone
    refine (hI.takeWay hs hclear hnone (hmeets hnone)).bind ?_
    rintro ⟨way, s₁⟩ ⟨hinv, hclear₁, hnone₁, hlt, hempty⟩
    refine ⟨hI.reserve hinv hnone₁ hR hlt hempty, hclear₁, fun entry hentry => ?_⟩
    rcases List.mem_append.mp hentry with hentry | hentry
    · exact .inl hentry
    · exact .inr (by rw [List.mem_singleton.mp hentry])

/-- The loop over the window, which lists no LCA twice. -/
theorem reserveLines {lcas : List Nat} {acc : List (Nat × Nat × Nat) × GenericCache F}
    (hnodup : lcas.Nodup) (hR : ∀ entry ∈ acc.1, entry.1 ∉ lcas) (hs : Inv acc.1 acc.2)
    (hclear : acc.2.Cleared)
    (hmeets : Run.Along (GenericCache.reserveLine cfg env port) (C.ReserveMeets cfg env) acc lcas) :
    (lcas.foldlM (GenericCache.reserveLine cfg env port) acc).All fun r =>
      Inv r.1 r.2 ∧ r.2.Cleared := by
  induction lcas generalizing acc with
  | nil => exact ⟨hs, hclear⟩
  | cons lca lcas ih =>
    obtain ⟨hmeets, hrest⟩ := hmeets
    obtain ⟨hnot, hnodup⟩ := List.nodup_cons.mp hnodup
    rw [List.foldlM_cons]
    have hstep := hI.reserveLine hs hclear
      (fun entry hentry heq => hR entry hentry (heq ▸ List.mem_cons_self)) hmeets
    refine hstep.with_eq.bind ?_
    rintro acc₁ ⟨⟨hinv, hclear₁, hmem⟩, h₁⟩
    refine ih hnodup (fun entry hentry hin => ?_) hinv hclear₁ (hrest.of_ok h₁)
    rcases hmem entry hentry with hentry | heq
    · exact hR entry hentry (List.mem_cons_of_mem lca hin)
    · exact hnot (heq ▸ hin)

theorem loadLines {R : List (Nat × Nat × Nat)} (hs : Inv R s) (hclear : s.Cleared) :
    (R.foldlM (GenericCache.loadLine cfg env port) s).All fun s' => Inv [] s' ∧ s'.Cleared := by
  induction R generalizing s with
  | nil => exact ⟨hs, hclear⟩
  | cons entry R ih =>
    obtain ⟨lca, pos⟩ := entry
    rw [List.foldlM_cons]
    exact ((hI.load hs).and (loadLine_cleared env port cfg hclear)).bind
      fun s₁ hs₁ => ih hs₁.1 hs₁.2

theorem readLines {lca : Nat} (hs : Inv [] s) (hclear : s.Cleared)
    (hmeets : C.ReadMeets cfg env port s lca) :
    (s.readLines cfg env port lca).All fun s' => Inv [] s' ∧ s'.Cleared := by
  have hopen : Inv [] (s.openWindow cfg lca).2 ∧ (s.openWindow cfg lca).2.Cleared ∧
      (s.openWindow cfg lca).1.Nodup := by
    have hwindow : ∀ a b, (window a b).Nodup := fun a b =>
      List.nodup_range.map fun _ _ heq => Nat.add_left_cancel heq
    unfold openWindow
    split
    · exact ⟨hI.trigger hs, hclear, hwindow _ _⟩
    · exact ⟨hs, hclear, hwindow _ _⟩
  obtain ⟨hs, hclear, hnodup⟩ := hopen
  rw [GenericCache.readLines]
  refine (hI.reserveLines hnodup (fun _ hentry => by cases hentry) hs hclear hmeets).bind ?_
  rintro ⟨R, s₁⟩ ⟨hs₁, hclear₁⟩
  -- `evictData` is all null here, so the second `evictCache` has nothing to do
  have hidle : s₁.evictCache cfg env port = .ok s₁ :=
    foldlM_evictSlot_idle env port fun slot _ => hclear₁ slot
  show ((s₁.evictCache cfg env port) >>= _).All _
  rw [hidle]
  exact hI.loadLines hs₁ hclear₁

theorem read {req : Request} (hs : Inv [] s) (hclear : s.Cleared)
    (hmeets : cfg.useReadCaching = true → ∀ lca ∈ (s.lookupForRead cfg env req).2.1,
      C.ReadMeets cfg env port (s.lookupForRead cfg env req).2.2 lca) :
    (s.read cfg env port req).All fun r => Inv [] r.2 ∧ r.2.Cleared := by
  have hlookup : Inv [] (s.lookupForRead cfg env req).2.2 ∧
      (s.lookupForRead cfg env req).2.2.Cleared := by
    have hdetect : Inv [] (if cfg.useReadPrefetch then
        { s with readDetect := checkSequential cfg req s.readDetect } else s) ∧
        (if cfg.useReadPrefetch then
          { s with readDetect := checkSequential cfg req s.readDetect } else s).Cleared := by
      split
      · exact ⟨hI.detect hs, hclear⟩
      · exact ⟨hs, hclear⟩
    unfold lookupForRead
    dsimp only
    split
    · next way hway =>
      obtain ⟨-, hvalid, -⟩ := getValidWay_eq_some hway
      exact ⟨hI.touch hdetect.1 hvalid, hdetect.2⟩
    · exact hdetect
  rw [GenericCache.read]
  split
  · next hcaching =>
    have hmeets := hmeets hcaching
    dsimp only
    split
    · next lca hlca =>
      exact (hI.readLines hlookup.1 hlookup.2 (hmeets lca hlca)).bind fun s' hs' => hs'
    · exact hlookup
  · next hcaching =>
    exact ((hI.readThrough (by simpa using hcaching) hs).and (call_cleared port cfg _ hclear)).bind
      fun s' hs' => hs'

/-- A line is inserted for an LCA: `hput` says that `Inv` is kept when it is put
into an empty way. -/
theorem insertLine {function : String} {lca : Nat} {dirty : Bool} {stored : Nat × Nat → Event}
    {K : Prop} (hs : Inv [] s) (hclear : s.Cleared)
    (hnone : K → s.getValidWay cfg lca = none)
    (hput : ∀ {s way t d n}, Inv [] s → (K → s.getValidWay cfg lca = none) →
      way < cfg.waySize → (s.cacheData (cfg.calcSetIndex lca, way)).valid = false →
      (d = dirty ∨ d = true) →
      Inv [] ((s.putLine (cfg.calcSetIndex lca, way) ⟨lca, t, t, d, true, n⟩).log
        (stored (cfg.calcSetIndex lca, way)))) :
    (s.insertLine cfg env port function lca dirty stored).All fun r =>
      Inv [] r.2 ∧ r.2.Cleared := by
  rw [GenericCache.insertLine]
  dsimp only
  split
  · next way hway =>
    obtain ⟨hlt, hempty⟩ := getEmptyWay_eq_some hway
    exact ⟨hput hs hnone hlt hempty (.inl rfl), hclear⟩
  · have haims : s.Aims cfg s.evictData := by
      intro slot pos hslot
      rw [hclear slot] at hslot
      cases hslot
    have hevict : ((s.fillEvictData cfg env (cfg.calcSetIndex lca)).evictCache cfg env port).All
        fun s₁ => Inv [] s₁ ∧ s.Fewer s₁ ∧ s₁.Cleared :=
      evictCache_all env port (fillEvictData_aims env (cfg.calcSetIndex_lt lca) haims)
        (fun hs => hI.aim hs) (fun hs hpos hrow => hI.evictLine hs hpos hrow (.inl rfl)) (hI.aim hs)
    refine hevict.bind ?_
    rintro s₁ ⟨hs₁, hfewer, hclear₁⟩
    split
    · trivial
    · next way hway =>
      obtain ⟨hlt, hempty⟩ := getEmptyWay_eq_some hway
      exact ⟨hput hs₁ (fun hk => hfewer.getValidWay (hnone hk)) hlt hempty (.inr rfl), hclear₁⟩

theorem write {req : Request} (hs : Inv [] s) (hclear : s.Cleared) :
    (s.write cfg env port req).All fun r => Inv [] r.2 ∧ r.2.Cleared := by
  rw [GenericCache.write]
  by_cases hlen : req.length ≤ cfg.lineSize
  · simp only [hlen, decide_true]
    refine Except.All.bind (Q := fun s₁ => s₁ = s) rfl ?_
    rintro s₁ rfl
    split
    · split
      · next way hway => exact ⟨hI.overwrite hs hway, hclear⟩
      · next hnone =>
        refine hI.insertLine (K := True) hs hclear (fun _ => hnone) ?_
        intro s₁ way t d n hs₁ hnone₁ hlt hempty hd
        rw [if_pos trivial]
        exact hI.store hs₁ (hnone₁ trivial) hlt hempty (.inl ⟨by simpa using hd, rfl⟩)
    · next hcaching =>
      exact ((hI.writeUncached (by simpa using hcaching) hs).and
        ((lasting_cleared port cfg).writeDirect hclear)).bind fun s₂ hs₂ => hs₂
  · simp only [hlen, decide_false]
    have hdirect : (s.writeDirect cfg port true (.writeThrough req.slpn) req.slpn).All Cleared :=
      (lasting_cleared port cfg).writeDirect hclear
    by_cases hcaching : cfg.useWriteCaching = true
    · refine ((hI.writeThrough hcaching hs).and hdirect).bind ?_
      rintro s₁ ⟨hs₁, hclear₁⟩
      rw [if_pos hcaching]
      split
      · next way hway => exact ⟨hI.pass_hit hs₁ hway, hclear₁⟩
      · next hnone =>
        refine hI.insertLine (K := True) (hI.pass_miss hs₁ hnone) hclear₁ (fun _ => hnone) ?_
        intro s₂ way t d n hs₂ hnone₂ hlt hempty _
        exact hI.store hs₂ (hnone₂ trivial) hlt hempty (.inr rfl)
    · refine ((hI.writeUncached (by simpa using hcaching) hs).and hdirect).bind ?_
      rintro s₁ hs₁
      rw [if_neg hcaching]
      exact hs₁

theorem writeVictimPagesToCache {req : Request} (hs : Inv [] s) (hclear : s.Cleared)
    (hmeets : C.insert req s) :
    (s.writeVictimPagesToCache cfg env port req).All fun r => Inv [] r.2 ∧ r.2.Cleared := by
  have hnone : fresh → s.getValidWay cfg req.slpn = none := fun hf => hI.insert_fresh hf hmeets
  have hdirect : ∀ {s : GenericCache F} (direct : Bool), Inv [] s → s.Cleared →
      (fresh → s.getValidWay cfg req.slpn = none) →
      (s.writeDirect cfg port direct (.rewrite req.slpn) req.slpn).All
        fun s₁ => Inv [] s₁ ∧ s.Fewer s₁ ∧ s₁.Cleared := by
    intro s direct hs hclear hnone
    refine Except.All.and ?_ (((lasting_fewer cfg port s).writeDirect (.refl s)).and
      ((lasting_cleared port cfg).writeDirect hclear))
    cases direct with
    | true => exact hI.rewrite hs hnone
    | false => exact hs
  rw [GenericCache.writeVictimPagesToCache]
  refine (hdirect _ hs hclear hnone).bind ?_
  rintro s₁ ⟨hs₁, hfewer₁, hclear₁⟩
  have hnone₁ : fresh → s₁.getValidWay cfg req.slpn = none := fun hf =>
    hfewer₁.getValidWay (hnone hf)
  split
  · exact hI.insertLine (K := fresh) hs₁ hclear₁ hnone₁
      fun hs₂ hnone₂ hlt hempty _ => hI.insert hs₂ hnone₂ hlt hempty
  · exact (hdirect _ hs₁ hclear₁ hnone₁).bind fun _ hs₂ => ⟨hs₂.1, hs₂.2.2⟩

theorem flush {range : LPNRange} (hs : Inv [] s) (hclear : s.Cleared)
    (hmeets : Run.Along (GenericCache.flushLine cfg port range) (C.flush range)
      (Bitset.new cfg.lineCountInSuperPage, s) cfg.positions) :
    (s.flush cfg port range).All fun s' => Inv [] s' ∧ s'.Cleared := by
  have hsize : ∀ acc pos, acc.1.dataSize = cfg.lineCountInSuperPage →
      (GenericCache.flushLine cfg port range acc pos).All fun r =>
        r.1.dataSize = cfg.lineCountInSuperPage := by
    rintro ⟨ioFlag, s⟩ pos h
    rw [GenericCache.flushLine]
    split
    · split
      · exact (call_fewer cfg port _ _).bind fun s₁ _ => h
      · exact h
    · exact h
  rw [GenericCache.flush]
  split
  · refine Except.All.bind (Q := fun r => r.1.dataSize = cfg.lineCountInSuperPage ∧ Inv [] r.2 ∧
      r.2.Cleared) ?_ ?_
    · refine hmeets.all (fun acc pos hpos hacc hflush => ?_) ⟨rfl, hs, hclear⟩
      exact (hsize acc pos hacc.1).and ((hI.flushLine hacc.2.1 hpos hacc.1 hflush).and
        ((lasting_cleared port cfg).flushLine hacc.2.2))
    · rintro ⟨_, s₁⟩ hr
      exact hr.2
  · exact ⟨hs, hclear⟩

/-- One call keeps the property when its steps meet their conditions. -/
theorem exec {call : Nat × Op} (hs : Inv [] s ∧ s.Cleared)
    (hmeets : Op.Meets cfg env port C s call) :
    (Op.exec cfg env port s call).All fun s' => Inv [] s' ∧ s'.Cleared := by
  obtain ⟨n, op⟩ := call
  obtain ⟨hs, hclear⟩ := hs
  have hs := hI.count (n := n) hs
  cases op with
  | read req => exact Except.All.map (hI.read hs hclear hmeets)
  | write req => exact Except.All.map (hI.write hs hclear)
  | flush range => exact hI.flush hs hclear hmeets
  | trim range => exact (hI.trim hs).and ((lasting_cleared port cfg).trim hclear)
  | format range => exact (hI.format hs).and ((lasting_cleared port cfg).format hclear)
  | writeVictimPagesToCache req =>
    exact Except.All.map (hI.writeVictimPagesToCache hs hclear hmeets)

/-- The invariant rule: a run of calls whose steps meet their conditions. -/
theorem run {calls : List (Nat × Op)} (hs : Inv [] s ∧ s.Cleared)
    (hmeets : Run.Along (Op.exec cfg env port) (Op.Meets cfg env port C) s calls) :
    (ICL.run cfg env port s calls).All fun s' => Inv [] s' ∧ s'.Cleared :=
  hmeets.all (fun _ _ _ hs hmeets => hI.exec hs hmeets) hs

end CacheInvariant

end SimpleSSD.ICL
