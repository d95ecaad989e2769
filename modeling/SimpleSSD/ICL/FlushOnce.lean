import SimpleSSD.ICL.Trim

/-!
# What a flush writes (icl/generic_cache.cc:2311–2342)

A flush is there to write each valid dirty line of its range once. It does not ask whether
a line is valid, its request keeps the flags of the lines before, and above all a line that
it has written stays dirty: `evictCache` resets the flags of its request for every line, and
cleans the line. So every later flush of the range writes the line again.
-/

namespace SimpleSSD.ICL

namespace GenericCache

variable {F : Type} {cfg : Config} {port : FTLPort F} {range : LPNRange} {s s' s₀ : GenericCache F}

/-- The request of an event that is a write of the FTL. -/
def ftlWrite : Event → Option FTL.Request
  | .ftl (.write req) => some req
  | _ => none

/-- The writes of the FTL since a state, the last one first. -/
def writesSince (s s' : GenericCache F) : List FTL.Request :=
  (s'.trace.take (s'.trace.length - s.trace.length)).filterMap ftlWrite

/-- The valid dirty lines whose tags are in the range. -/
def dirtyLines (cfg : Config) (range : LPNRange) (s : GenericCache F) : List (Nat × Nat) :=
  cfg.positions.filter fun pos =>
    InRange range (s.cacheData pos).tag ∧ (s.cacheData pos).valid ∧ (s.cacheData pos).dirty

/-- A flush that writes each valid dirty line of the range once and with its own flag only,
leaves none, and need not be repeated. -/
def FlushesOnce (cfg : Config) (port : FTLPort F) (range : LPNRange) (s : GenericCache F) : Prop :=
  ∃ s' s'', s.flush cfg port range = .ok s' ∧
    (writesSince s s').Perm
      ((dirtyLines cfg range s).map fun pos => cfg.lineRequest (s.cacheData pos).tag) ∧
    dirtyLines cfg range s' = [] ∧
    s'.flush cfg port range = .ok s'' ∧ writesSince s' s'' = []

/-- No line in the range has its dirty bit set, but for an invalid one that the flush does not
visit, as it does nothing without caching or the range wraps around. -/
def NothingDirty (cfg : Config) (range : LPNRange) (s : GenericCache F) : Prop :=
  ∀ pos ∈ cfg.positions, InRange range (s.cacheData pos).tag → (s.cacheData pos).dirty = true →
    (s.cacheData pos).valid = false ∧
      ¬ ((cfg.useReadCaching || cfg.useWriteCaching) = true ∧
        range.contains (s.cacheData pos).tag = true)

instance (cfg : Config) (range : LPNRange) (s : GenericCache F) :
    Decidable (NothingDirty cfg range s) :=
  inferInstanceAs (Decidable (∀ pos ∈ cfg.positions, _ → _ → _ ∧ ¬ (_ ∧ _)))

theorem dirtyLines_eq_nil : dirtyLines cfg range s = [] ↔
    ∀ pos ∈ cfg.positions, InRange range (s.cacheData pos).tag →
      (s.cacheData pos).dirty = true → (s.cacheData pos).valid = false := by
  rw [dirtyLines, List.filter_eq_nil_iff]
  refine forall₂_congr fun pos _ => ?_
  cases (s.cacheData pos).valid <;> cases (s.cacheData pos).dirty <;> simp

theorem writesSince_of_trace (added : List Event) (h : s'.trace = added ++ s.trace) :
    writesSince s s' = added.filterMap ftlWrite := by
  rw [writesSince, h, List.length_append, Nat.add_sub_cancel, List.take_left]

/-! ### Without dirty lines -/

/-- What a flush of lines that are all clean leaves behind. -/
structure Kept (s s' : GenericCache F) : Prop where
  trace : s'.trace = s.trace
  tag : ∀ pos, (s'.cacheData pos).tag = (s.cacheData pos).tag
  dirty : ∀ pos, (s'.cacheData pos).dirty = (s.cacheData pos).dirty
  valid : ∀ pos, (s'.cacheData pos).valid = true → (s.cacheData pos).valid = true

theorem Kept.refl (s : GenericCache F) : s.Kept s :=
  ⟨rfl, fun _ => rfl, fun _ => rfl, fun _ h => h⟩

theorem Kept.invalidateLine (h : s.Kept s') (pos : Nat × Nat) : s.Kept (s'.invalidateLine pos) := by
  have hline : ∀ p, ((s'.invalidateLine pos).cacheData p).tag = (s'.cacheData p).tag ∧
      ((s'.invalidateLine pos).cacheData p).dirty = (s'.cacheData p).dirty ∧
      (((s'.invalidateLine pos).cacheData p).valid = true → (s'.cacheData p).valid = true) := by
    intro p
    rw [GenericCache.invalidateLine]
    by_cases hp : p = pos
    · subst hp
      rw [putLine_self]
      exact ⟨rfl, rfl, fun hv => by cases hv⟩
    · rw [putLine_of_ne hp]
      exact ⟨rfl, rfl, id⟩
  exact ⟨h.trace, fun p => (hline p).1.trans (h.tag p), fun p => (hline p).2.1.trans (h.dirty p),
    fun p hv => h.valid p ((hline p).2.2 hv)⟩

/-- A flush that visits no dirty line calls the FTL for none. -/
theorem flush_clean (port : FTLPort F) (hclean : ∀ pos ∈ cfg.positions,
    range.contains (s.cacheData pos).tag = true → (s.cacheData pos).dirty = false) :
    ∃ s', s.flush cfg port range = .ok s' ∧ s.Kept s' := by
  have hloop : ∀ (l : List (Nat × Nat)) (acc : Bitset × GenericCache F), s.Kept acc.2 →
      (∀ pos ∈ l, pos ∈ cfg.positions) →
      ∃ r, l.foldlM (flushLine cfg port range) acc = .ok r ∧ s.Kept r.2 := by
    intro l
    induction l with
    | nil => exact fun acc hacc _ => ⟨acc, rfl, hacc⟩
    | cons pos l ih =>
      rintro ⟨ioFlag, s₁⟩ hacc hl
      obtain ⟨hpos, hl⟩ := List.forall_mem_cons.mp hl
      have hstep : ∃ r, flushLine cfg port range (ioFlag, s₁) pos = .ok r ∧ s.Kept r.2 := by
        rw [flushLine]
        split
        · next hrange =>
          rw [hacc.tag] at hrange
          have hnot : ¬ (s₁.cacheData pos).dirty = true := by
            rw [hacc.dirty, hclean pos hpos hrange]
            exact Bool.false_ne_true
          rw [if_neg hnot]
          exact ⟨_, rfl, hacc.invalidateLine pos⟩
        · exact ⟨_, rfl, hacc⟩
      obtain ⟨r, hr, hkept⟩ := hstep
      obtain ⟨r', hr', hkept'⟩ := ih r hkept hl
      refine ⟨r', ?_, hkept'⟩
      rw [List.foldlM_cons, hr]
      exact hr'
  rw [flush]
  split
  · obtain ⟨r, hr, hkept⟩ := hloop cfg.positions (Bitset.new cfg.lineCountInSuperPage, s)
      (.refl s) fun _ h => h
    rw [hr]
    exact ⟨r.2, rfl, hkept⟩
  · exact ⟨s, rfl, .refl s⟩

/-! ### With a dirty line -/

/-- What a flush does to the lines in any case, after some of them. -/
structure FlushLoop (range : LPNRange) (s₀ : GenericCache F) (done : List (Nat × Nat))
    (s : GenericCache F) : Prop where
  tag : ∀ pos, (s.cacheData pos).tag = (s₀.cacheData pos).tag
  dirty : ∀ pos, (s₀.cacheData pos).dirty = true → (s.cacheData pos).dirty = true
  valid : ∀ pos, ¬ range.contains (s₀.cacheData pos).tag = true →
    (s.cacheData pos).valid = (s₀.cacheData pos).valid
  written : ∃ added, s.trace = added ++ s₀.trace ∧ ∀ pos ∈ done,
    range.contains (s₀.cacheData pos).tag = true → (s₀.cacheData pos).dirty = true →
      added.filterMap ftlWrite ≠ []

theorem FlushLoop.start : FlushLoop range s₀ [] s₀ :=
  ⟨fun _ => rfl, fun _ h => h, fun _ _ => rfl, [], rfl, by simp⟩

/-- A visited line becomes invalid, after calls of the FTL. -/
theorem FlushLoop.invalidate {done : List (Nat × Nat)} {pos : Nat × Nat} {s₁ : GenericCache F}
    (added : List Event) (h : FlushLoop range s₀ done s)
    (hrange : range.contains (s.cacheData pos).tag = true) (hlines : s.Marked { s₁ with
      pFTL := s.pFTL, trace := s.trace }) (htrace : s₁.trace = added ++ s.trace)
    (hwritten : (s.cacheData pos).dirty = true → added.filterMap ftlWrite ≠ []) :
    FlushLoop range s₀ (done ++ [pos]) (s₁.invalidateLine pos) := by
  obtain ⟨before, hbefore, hdone⟩ := h.written
  have htag : ∀ p, ((s₁.invalidateLine pos).cacheData p).tag = (s.cacheData p).tag := by
    intro p
    rw [← hlines.tag p, invalidateLine]
    by_cases hp : p = pos
    · subst hp
      rw [putLine_self]
    · rw [putLine_of_ne hp]
  refine ⟨fun p => (htag p).trans (h.tag p), fun p hp => ?_, fun p hp => ?_,
    added ++ before, ?_, fun p hp hin hd => ?_⟩
  · have hdirty := hlines.dirty (h.dirty p hp)
    rw [invalidateLine]
    by_cases heq : p = pos
    · subst heq
      rw [putLine_self]
      exact hdirty
    · rw [putLine_of_ne heq]
      exact hdirty
  · have hne : p ≠ pos := by
      rintro rfl
      rw [h.tag] at hrange
      exact hp hrange
    rw [invalidateLine, putLine_of_ne hne, ← h.valid p hp]
    exact hlines.valid p
  · rw [List.append_assoc, ← hbefore, ← htrace]
    rfl
  · rw [List.filterMap_append]
    rcases List.mem_append.mp hp with hp | hp
    · exact List.append_ne_nil_of_right_ne_nil _ (hdone p hp hin hd)
    · obtain rfl := List.mem_singleton.mp hp
      exact List.append_ne_nil_of_left_ne_nil (hwritten (h.dirty p hd)) _

theorem FlushLoop.step {done : List (Nat × Nat)} {pos : Nat × Nat} {ioFlag : Bitset}
    {r : Bitset × GenericCache F} (h : FlushLoop range s₀ done s)
    (hstep : flushLine cfg port range (ioFlag, s) pos = .ok r) :
    FlushLoop range s₀ (done ++ [pos]) r.2 := by
  rw [flushLine] at hstep
  split at hstep
  · next hrange =>
    split at hstep
    · next hdirty =>
      obtain ⟨s₁, hcall, hr⟩ := Except.bind_eq_ok.mp hstep
      cases hr
      obtain ⟨pFTL, _, -, hmarked⟩ := (call_all cfg port _ _).of_ok hcall
      refine h.invalidate [.ftl (.write _), .writeBack pos _ _] hrange ⟨?_, hmarked.line⟩
        hmarked.trace fun _ => by simp [ftlWrite]
      have heq := hmarked.eq
      rw [heq]
      rfl
    · next hclean =>
      cases hstep
      exact h.invalidate [] hrange (.refl s) rfl fun hd => absurd hd hclean
  · next hout =>
    cases hstep
    obtain ⟨added, htrace, hdone⟩ := h.written
    refine ⟨h.tag, h.dirty, h.valid, added, htrace, fun p hp hin hd => ?_⟩
    rcases List.mem_append.mp hp with hp | hp
    · exact hdone p hp hin hd
    · obtain rfl := List.mem_singleton.mp hp
      rw [h.tag] at hout
      exact absurd hin hout

/-- What any flush with caching leaves behind: the dirty bits stay. -/
theorem flush_keeps_dirty (hon : (cfg.useReadCaching || cfg.useWriteCaching) = true)
    (h : s.flush cfg port range = .ok s') : FlushLoop range s cfg.positions s' := by
  rw [flush, if_pos hon] at h
  obtain ⟨r, hloop, hr⟩ := Except.bind_eq_ok.mp h
  cases hr
  exact Run.foldlM_done (I := fun done r => FlushLoop range s done r.2)
    (fun done pos rest acc r _ hacc hstep => hacc.step hstep) .start hloop

/-- In every state: a flush writes each dirty line once exactly when it has none to write. -/
theorem flushesOnce_iff (cfg : Config) (port : FTLPort F) (range : LPNRange)
    (s : GenericCache F) : FlushesOnce cfg port range s ↔ NothingDirty cfg range s := by
  constructor
  · rintro ⟨s', s'', hflush, -, hnone, hagain, hwrites⟩ pos hpos hin hdirty
    rw [dirtyLines_eq_nil] at hnone
    by_cases hon : (cfg.useReadCaching || cfg.useWriteCaching) = true
    · have hfirst := flush_keeps_dirty hon hflush
      have hsecond := flush_keeps_dirty hon hagain
      have hnot : ¬ range.contains (s.cacheData pos).tag = true := by
        intro hcontains
        -- the line is dirty still, and the second flush writes it
        obtain ⟨added, htrace, hwritten⟩ := hsecond.written
        rw [writesSince_of_trace added htrace] at hwrites
        exact hwritten pos hpos (by rwa [hfirst.tag]) (hfirst.dirty pos hdirty) hwrites
      refine ⟨?_, fun h => hnot h.2⟩
      rw [← hfirst.valid pos hnot]
      exact hnone pos hpos (by rwa [hfirst.tag]) (hfirst.dirty pos hdirty)
    · rw [flush, if_neg hon] at hflush
      cases hflush
      exact ⟨hnone pos hpos hin hdirty, fun h => hon h.1⟩
  · intro hsafe
    have hempty : dirtyLines cfg range s = [] :=
      dirtyLines_eq_nil.mpr fun pos hpos hin hdirty => (hsafe pos hpos hin hdirty).1
    by_cases hon : (cfg.useReadCaching || cfg.useWriteCaching) = true
    · have hclean : ∀ pos ∈ cfg.positions, range.contains (s.cacheData pos).tag = true →
          (s.cacheData pos).dirty = false := by
        intro pos hpos hcontains
        by_contra hdirty
        exact (hsafe pos hpos (inRange_of_contains hcontains) (by simpa using hdirty)).2
          ⟨hon, hcontains⟩
      obtain ⟨s', hflush, hkept⟩ := flush_clean port hclean
      obtain ⟨s'', hagain, hkept'⟩ := flush_clean (s := s') port fun pos hpos hin => by
        rw [hkept.dirty]
        exact hclean pos hpos (by rwa [hkept.tag] at hin)
      refine ⟨s', s'', hflush, ?_, ?_, hagain, writesSince_of_trace [] hkept'.trace⟩
      · rw [writesSince_of_trace [] hkept.trace, hempty]
        exact List.Perm.nil
      · refine dirtyLines_eq_nil.mpr fun pos hpos hin hdirty => ?_
        rw [hkept.tag] at hin
        rw [hkept.dirty] at hdirty
        by_contra hvalid
        have := hkept.valid pos (by simpa using hvalid)
        rw [(hsafe pos hpos hin hdirty).1] at this
        cases this
    · have hflush : s.flush cfg port range = .ok s := by rw [flush, if_neg hon]
      refine ⟨s, s, hflush, ?_, hempty, hflush, writesSince_of_trace [] rfl⟩
      rw [writesSince_of_trace [] rfl, hempty]
      exact List.Perm.nil

/-- A page is written and its range is flushed twice: it reaches the FTL twice. -/
theorem flush_writes_again : ∃ pFTL s, smallDevice 4 = .ok pFTL ∧
    smallRun 4 [.write (.line 1)] pFTL = .ok s ∧
    ¬ FlushesOnce .small (smallPort 4) ⟨1, 1⟩ s := by
  obtain ⟨pFTL, hinit, hrun⟩ := Except.exists_of_map (x := smallDevice 4)
    (p := fun pFTL => (smallRun 4 [.write (.line 1)] pFTL).map (fun s =>
      decide ((s.flush .small (smallPort 4) ⟨1, 1⟩).map (fun s' =>
        decide ((s'.flush .small (smallPort 4) ⟨1, 1⟩).map (fun s'' =>
          decide ((writesSince s' s'').length = 1)) = .ok true)) = .ok true)) = .ok true)
    (by decide +kernel)
  obtain ⟨s, hs, hflush⟩ := Except.exists_of_map hrun
  refine ⟨pFTL, s, hinit, hs, ?_⟩
  rintro ⟨s', s'', hs', -, -, hs'', hnone⟩
  obtain ⟨s₁, hs₁, hagain⟩ := Except.exists_of_map hflush
  obtain rfl := Except.ok.inj (hs₁.symm.trans hs')
  obtain ⟨s₂, hs₂, hone⟩ := Except.exists_of_map hagain
  obtain rfl := Except.ok.inj (hs₂.symm.trans hs'')
  rw [hnone] at hone
  cases hone

end GenericCache

end SimpleSSD.ICL
