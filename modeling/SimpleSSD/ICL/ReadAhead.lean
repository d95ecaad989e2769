import SimpleSSD.ICL.FormatRange
import SimpleSSD.ICL.FullSet

/-!
# A read that misses, with its read-ahead (icl/generic_cache.cc:832–1076)

The read goes over its window twice. The first loop takes a way for each LCA that the cache
does not hold, and makes its line valid; only the second loop reads the lines from the FTL and
gives them their tags. In between the line has the tag that was left in it: when that is a
later LCA of the window, the first loop takes it for the line of that LCA, which is then never
read. And where a set is full, the first loop evicts what the policy names, be it a line of the
window or one that it has just taken.
-/

namespace SimpleSSD.ICL

/-- A line is read by a request of its own. -/
theorem Config.lineRequest_injective (cfg : Config) : Function.Injective cfg.lineRequest := by
  intro a b h
  have hlpn : a / cfg.lineCountInSuperPage = b / cfg.lineCountInSuperPage :=
    congrArg FTL.Request.lpn h
  have hflag : a % cfg.lineCountInSuperPage ∈ (cfg.lineRequest a).ioFlag.bits :=
    Finset.mem_filter.mpr
      ⟨Finset.mem_range.mpr (Nat.mod_lt a cfg.lineCountInSuperPage_pos), rfl⟩
  rw [h] at hflag
  have hunit : a % cfg.lineCountInSuperPage = b % cfg.lineCountInSuperPage :=
    (Finset.mem_filter.mp hflag).2
  rw [← Nat.div_add_mod a cfg.lineCountInSuperPage, hlpn, hunit, Nat.div_add_mod]

namespace GenericCache

variable {F : Type} {cfg : Config} {env : Env} {port : FTLPort F} {s s' t t' : GenericCache F}
  {R : List (Nat × Nat × Nat)} {lca : Nat} {pos : Nat × Nat}

/-- The request of an event that is a read of the FTL. -/
def ftlRead : Event → Option FTL.Request
  | .ftl (.read req) => some req
  | _ => none

/-- The reads of the FTL, the last one first. -/
def ftlReads (s : GenericCache F) : List FTL.Request := s.trace.filterMap ftlRead

/-- The line at `pos` is a valid line of the LCA. -/
def HasLine (s : GenericCache F) (pos : Nat × Nat) (lca : Nat) : Prop :=
  (s.cacheData pos).valid = true ∧ (s.cacheData pos).tag = lca

/-- The LCAs of a list that the cache does not hold. -/
def missing (cfg : Config) (s : GenericCache F) (lcas : List Nat) : List Nat :=
  lcas.filter fun l => (s.getValidWay cfg l).isNone

theorem mem_missing {lcas : List Nat} {l : Nat} :
    l ∈ missing cfg s lcas ↔ l ∈ lcas ∧ s.getValidWay cfg l = none := by
  rw [missing, List.mem_filter, Option.isNone_iff_eq_none]

theorem HasLine.getValidWay_ne_none {l : Nat} (h : s.HasLine pos l)
    (hset : pos.1 = cfg.calcSetIndex l) (hway : pos.2 < cfg.waySize) :
    s.getValidWay cfg l ≠ none := by
  intro hnone
  have hpos : (cfg.calcSetIndex l, pos.2) = pos := by rw [← hset]
  rw [← hpos] at h
  exact getValidWay_eq_none.mp hnone pos.2 hway h.1 h.2

theorem HasLine.set {l : Nat} (h : s.HasLine pos l) (hsets : InSets cfg [] s) :
    pos.1 = cfg.calcSetIndex l := by
  rw [← h.2]
  exact (hsets.in_set pos h.1 (unreserved_nil pos)).symm

theorem HasLine.unique {l : Nat} {p : Nat × Nat} (h : s.HasLine pos l) (h' : s.HasLine p l)
    (hsets : InSets cfg [] s) (hone : OneWay cfg s l) (hway : pos.2 < cfg.waySize)
    (hway' : p.2 < cfg.waySize) : pos = p := by
  have hset := h.set hsets
  have hset' := h'.set hsets
  refine Prod.ext (hset.trans hset'.symm) (hone pos.2 hway p.2 hway' ?_ ?_ ?_ ?_)
  · rw [← hset]
    exact h.1
  · rw [← hset]
    exact h.2
  · rw [← hset']
    exact h'.1
  · rw [← hset']
    exact h'.2

/-! ### What an eviction leaves alone -/

/-- The lines other than the one at `pos` stay valid or invalid and keep their tags, and dirty
ones stay dirty. Nothing is read from the FTL. -/
structure SparesOthers (pos : Nat × Nat) (s s' : GenericCache F) : Prop where
  valid : ∀ p, p ≠ pos → (s'.cacheData p).valid = (s.cacheData p).valid
  tag : ∀ p, p ≠ pos → (s'.cacheData p).tag = (s.cacheData p).tag
  dirty : ∀ p, p ≠ pos → (s.cacheData p).dirty = true → (s'.cacheData p).dirty = true
  reads : s'.ftlReads = s.ftlReads

theorem SparesOthers.refl (pos : Nat × Nat) (s : GenericCache F) : SparesOthers pos s s :=
  ⟨fun _ _ => rfl, fun _ _ => rfl, fun _ _ h => h, rfl⟩

theorem SparesOthers.trans {s'' : GenericCache F} (h : SparesOthers pos s s')
    (h' : SparesOthers pos s' s'') : SparesOthers pos s s'' where
  valid p hp := (h'.valid p hp).trans (h.valid p hp)
  tag p hp := (h'.tag p hp).trans (h.tag p hp)
  dirty p hp hd := h'.dirty p hp (h.dirty p hp hd)
  reads := h'.reads.trans h.reads

theorem SparesOthers.putLine (h : SparesOthers pos s s') (line : Line) :
    SparesOthers pos s (s'.putLine pos line) where
  valid p hp := by
    rw [putLine_of_ne hp]
    exact h.valid p hp
  tag p hp := by
    rw [putLine_of_ne hp]
    exact h.tag p hp
  dirty p hp hd := by
    rw [putLine_of_ne hp]
    exact h.dirty p hp hd
  reads := h.reads

theorem call_sparesOthers {op : FTL.Op} (pos : Nat × Nat) (hop : ftlRead (.ftl op) = none) :
    (s.call cfg port op).All (SparesOthers pos s) := by
  refine (call_all cfg port op s).mono ?_
  rintro s' ⟨pFTL, marked, -, hmarked⟩
  refine ⟨fun p _ => hmarked.valid p, fun p _ => hmarked.tag p, fun p _ hd => hmarked.dirty hd, ?_⟩
  rw [ftlReads, hmarked.trace, List.filterMap_cons_none hop]
  rfl

theorem evictLine_sparesOthers (row : Nat) :
    (s.evictLine cfg env port row pos).All fun s' =>
      SparesOthers pos s s' ∧ (s'.cacheData pos).tag = 0 := by
  have hcount : SparesOthers pos s (s.countEviction (s.cacheData pos).tag) :=
    ⟨fun _ _ => rfl, fun _ _ => rfl, fun _ _ h => h, rfl⟩
  have hrelease : ((s.countEviction (s.cacheData pos).tag).releaseLine cfg port row pos).All
      (SparesOthers pos s) := by
    rw [releaseLine]
    dsimp only
    split
    · refine ((call_sparesOthers pos rfl).mono fun _ h => hcount.trans h).bind fun s₁ h₁ => ?_
      have hlog : SparesOthers pos s (s₁.log (.writeBack pos
          ((s.countEviction (s.cacheData pos).tag).cacheData pos).tag
          ⟨((s.countEviction (s.cacheData pos).tag).cacheData pos).tag / cfg.lineCountInSuperPage,
            Bitset.single cfg.lineCountInSuperPage row⟩)) :=
        ⟨h₁.valid, h₁.tag, h₁.dirty, h₁.reads⟩
      exact (call_sparesOthers pos rfl).mono fun _ h => hlog.trans h
    · exact (call_sparesOthers pos rfl).mono fun _ h => hcount.trans h
  refine hrelease.bind fun s₁ h₁ => ⟨h₁.putLine _, ?_⟩
  rw [putLine_self]

/-! ### The first loop -/

/-- A way is taken for an LCA that is not found: the line of a way that is empty, with the tag
that was left in it, or the one that is evicted, without a tag. -/
structure TakesWay (cfg : Config) (env : Env) (lca : Nat) (pos : Nat × Nat)
    (t t' : GenericCache F) : Prop where
  missing : t.getValidWay cfg lca = none
  set : pos.1 = cfg.calcSetIndex lca
  way : pos.2 < cfg.waySize
  valid : (t'.cacheData pos).valid = true
  clean : (t'.cacheData pos).dirty = false
  others : SparesOthers pos t t'
  source : t.getEmptyWay cfg pos.1 = some pos.2 ∧ (t'.cacheData pos).tag = (t.cacheData pos).tag ∨
    t.getEmptyWay cfg pos.1 = none ∧ t.evictFunction cfg env pos.1 = pos.2 ∧
      (t'.cacheData pos).tag = 0

theorem takeWay_spec (hclear : t.Cleared) (setIdx : Nat) :
    (t.takeWay cfg env port setIdx).All fun r => r.1 < cfg.waySize ∧ r.2.Cleared ∧
      SparesOthers (setIdx, r.1) t r.2 ∧
      (t.getEmptyWay cfg setIdx = some r.1 ∧
          (r.2.cacheData (setIdx, r.1)).tag = (t.cacheData (setIdx, r.1)).tag ∨
        t.getEmptyWay cfg setIdx = none ∧ t.evictFunction cfg env setIdx = r.1 ∧
          (r.2.cacheData (setIdx, r.1)).tag = 0) := by
  rw [takeWay]
  split
  · next way hway =>
    exact ⟨(getEmptyWay_eq_some hway).1, hclear, .refl _ _, .inl ⟨hway, rfl⟩⟩
  · next hfull =>
    dsimp only
    split
    · next hlt =>
      rw [evictCache_single env port (cfg.calcIOPosition_mem_slots _) hclear]
      refine Except.All.bind (Q := fun t' : GenericCache F => t'.Cleared ∧
        SparesOthers (setIdx, t.evictFunction cfg env setIdx) t t' ∧
          (t'.cacheData (setIdx, t.evictFunction cfg env setIdx)).tag = 0)
        (Except.All.map ((evictLine_sparesOthers _).mono fun t' h => ?_)) fun t' h => ?_
      · exact ⟨fun _ => rfl, ⟨h.1.valid, h.1.tag, h.1.dirty, h.1.reads⟩, h.2⟩
      · exact ⟨hlt, h.1, h.2.1, .inr ⟨hfull, rfl, h.2.2⟩⟩
    · trivial

/-- An LCA that is found is passed over; any other one takes a way. -/
theorem reserveLine_spec (hclear : t.Cleared) :
    (reserveLine cfg env port (R, t) lca).All fun r => r.2.Cleared ∧
      (t.getValidWay cfg lca ≠ none ∧ r = (R, t) ∨
        ∃ pos, r.1 = R ++ [(lca, pos)] ∧ TakesWay cfg env lca pos t r.2) := by
  rw [reserveLine]
  split
  · next hsome => exact ⟨hclear, .inl ⟨Option.isSome_iff_ne_none.mp hsome, rfl⟩⟩
  · next hnone =>
    rw [Option.isSome_iff_ne_none, not_not] at hnone
    refine (takeWay_spec hclear _).bind ?_
    rintro ⟨way, t₁⟩ ⟨hway, hclear₁, hothers, hsource⟩
    refine ⟨hclear₁, .inr ⟨(cfg.calcSetIndex lca, way), rfl, hnone, rfl, hway, ?_, ?_,
      hothers.putLine _, ?_⟩⟩
    · rw [putLine_self]
    · rw [putLine_self]
    · rw [putLine_self]
      exact hsource

/-- What the first loop does from a state on, which takes ways for the entries `more`. -/
structure Reserves (cfg : Config) (more : List (Nat × Nat × Nat)) (t t' : GenericCache F) :
    Prop where
  valid : ∀ p, Unreserved more p → (t'.cacheData p).valid = (t.cacheData p).valid
  tag : ∀ p, Unreserved more p → (t'.cacheData p).tag = (t.cacheData p).tag
  dirty : ∀ p, Unreserved more p → (t.cacheData p).dirty = true → (t'.cacheData p).dirty = true
  taken : ∀ entry ∈ more, entry.2.1 = cfg.calcSetIndex entry.1 ∧ entry.2.2 < cfg.waySize ∧
    (t'.cacheData entry.2).valid = true
  reads : t'.ftlReads = t.ftlReads
  /-- An LCA that is found takes no way. -/
  found : ∀ p l, t.HasLine p l → p.1 = cfg.calcSetIndex l → p.2 < cfg.waySize →
    Unreserved more p → l ∉ more.map Prod.fst

theorem Reserves.refl (cfg : Config) (t : GenericCache F) : Reserves cfg [] t t :=
  ⟨fun _ _ => rfl, fun _ _ => rfl, fun _ _ h => h, by simp, rfl, by simp⟩

/-- One more way is taken at the beginning. -/
theorem Reserves.cons {more : List (Nat × Nat × Nat)} {t₁ : GenericCache F}
    (htake : TakesWay cfg env lca pos t t₁) (h : Reserves cfg more t₁ t') :
    Reserves cfg ((lca, pos) :: more) t t' := by
  have hcons : ∀ {p}, Unreserved ((lca, pos) :: more) p → p ≠ pos ∧ Unreserved more p :=
    fun hun => ⟨fun heq => hun (lca, pos) List.mem_cons_self heq.symm,
      fun entry hentry => hun entry (List.mem_cons_of_mem _ hentry)⟩
  refine ⟨fun p hun => ?_, fun p hun => ?_, fun p hun hd => ?_, fun entry hentry => ?_,
    h.reads.trans htake.others.reads, fun p l hline hset hway hun => ?_⟩
  · exact (h.valid p (hcons hun).2).trans (htake.others.valid p (hcons hun).1)
  · exact (h.tag p (hcons hun).2).trans (htake.others.tag p (hcons hun).1)
  · exact h.dirty p (hcons hun).2 (htake.others.dirty p (hcons hun).1 hd)
  · rcases List.mem_cons.mp hentry with rfl | hentry
    · refine ⟨htake.set, htake.way, ?_⟩
      by_cases hun : Unreserved more pos
      · rw [h.valid pos hun]
        exact htake.valid
      · -- the way is taken again, which leaves it valid as well
        unfold Unreserved at hun
        push Not at hun
        obtain ⟨entry, hentry, heq⟩ := hun
        rw [← heq]
        exact (h.taken entry hentry).2.2
    · exact h.taken entry hentry
  · obtain ⟨hne, hun⟩ := hcons hun
    have hline₁ : t₁.HasLine p l := by
      rw [HasLine, htake.others.valid p hne, htake.others.tag p hne]
      exact hline
    rw [List.map_cons, List.mem_cons, not_or]
    refine ⟨fun heq => ?_, h.found p l hline₁ hset hway hun⟩
    subst heq
    exact hline.getValidWay_ne_none hset hway htake.missing

theorem reserveLines_spec {lcas : List Nat} {r : List (Nat × Nat × Nat) × GenericCache F}
    (hclear : t.Cleared) (h : lcas.foldlM (reserveLine cfg env port) (R, t) = .ok r) :
    r.2.Cleared ∧ ∃ more, r.1 = R ++ more ∧ (more.map Prod.fst).Sublist lcas ∧
      Reserves cfg more t r.2 := by
  induction lcas generalizing R t with
  | nil =>
    cases h
    exact ⟨hclear, [], (List.append_nil R).symm, List.Sublist.refl _, .refl cfg t⟩
  | cons lca lcas ih =>
    rw [List.foldlM_cons, Except.bind_eq_ok] at h
    obtain ⟨⟨R₁, t₁⟩, h₁, h⟩ := h
    obtain ⟨hclear₁, hstep⟩ := (reserveLine_spec hclear).of_ok h₁
    obtain ⟨hclear', more, hmore, hsub, hreserves⟩ := ih hclear₁ h
    refine ⟨hclear', ?_⟩
    rcases hstep with ⟨-, heq⟩ | ⟨pos, hR, htake⟩
    · cases heq
      exact ⟨more, hmore, hsub.cons lca, hreserves⟩
    · refine ⟨(lca, pos) :: more, ?_, hsub.cons_cons lca, hreserves.cons htake⟩
      have hR : R₁ = R ++ [(lca, pos)] := hR
      rw [hmore, hR, List.append_assoc]
      rfl

/-! ### The second loop -/

/-- The FTL passes nothing to `updateDirty` during a read. -/
def QuietReads (port : FTLPort F) : Prop :=
  ∀ f world req r, port.call f (world, .read req) = .ok r → r.2 = []

theorem loadLine_spec (hquiet : QuietReads port) (entry : Nat × Nat × Nat) :
    (t.loadLine cfg env port entry).All fun t' =>
      (t'.cacheData entry.2).tag = entry.1 ∧ (t'.cacheData entry.2).valid = true ∧
      (t'.cacheData entry.2).dirty = (t.cacheData entry.2).dirty ∧
      (∀ p, p ≠ entry.2 → t'.cacheData p = t.cacheData p) ∧
      t'.ftlReads = cfg.lineRequest entry.1 :: t.ftlReads := by
  obtain ⟨lca, pos⟩ := entry
  have hcall : (t.call cfg port (.read (cfg.lineRequest lca))).All fun t₁ =>
      t₁.cacheData = t.cacheData ∧ t₁.trace = .ftl (.read (cfg.lineRequest lca)) :: t.trace := by
    have hport : (port.call t.pFTL (t.world, .read (cfg.lineRequest lca))).All fun r => r.2 = [] :=
      Except.all_iff.mpr fun r hr => hquiet _ _ _ _ hr
    refine hport.bind ?_
    rintro ⟨pFTL, _⟩ rfl
    exact ⟨rfl, rfl⟩
  refine hcall.bind fun t₁ ⟨hlines, htrace⟩ => ?_
  rw [← hlines]
  refine ⟨?_, ?_, ?_, fun p hp => putLine_of_ne hp, ?_⟩
  iterate 3 rw [log_cacheData, putLine_self]
  rw [ftlReads, log_trace, putLine_trace, htrace]
  rfl

theorem loadLines_spec (hquiet : QuietReads port) (hnodup : (R.map Prod.snd).Nodup)
    (h : R.foldlM (loadLine cfg env port) t = .ok t') :
    (∀ entry ∈ R, (t'.cacheData entry.2).tag = entry.1 ∧ (t'.cacheData entry.2).valid = true ∧
      (t'.cacheData entry.2).dirty = (t.cacheData entry.2).dirty) ∧
    (∀ p, Unreserved R p → t'.cacheData p = t.cacheData p) ∧
    t'.ftlReads = (R.map fun entry => cfg.lineRequest entry.1).reverse ++ t.ftlReads := by
  induction R generalizing t with
  | nil =>
    cases h
    exact ⟨by simp, fun _ _ => rfl, rfl⟩
  | cons entry R ih =>
    rw [List.foldlM_cons, Except.bind_eq_ok] at h
    obtain ⟨t₁, h₁, h⟩ := h
    rw [List.map_cons, List.nodup_cons] at hnodup
    obtain ⟨hentries, hothers, hreads⟩ := ih hnodup.2 h
    obtain ⟨htag, hvalid, hdirty, hothers₁, hreads₁⟩ := (loadLine_spec hquiet entry).of_ok h₁
    have hne : ∀ other ∈ R, other.2 ≠ entry.2 := fun other hother heq =>
      hnodup.1 (heq ▸ List.mem_map_of_mem hother)
    refine ⟨fun other hother => ?_, fun p hun => ?_, ?_⟩
    · rcases List.mem_cons.mp hother with rfl | hother
      · rw [hothers _ hne]
        exact ⟨htag, hvalid, hdirty⟩
      · obtain ⟨htag', hvalid', hdirty'⟩ := hentries other hother
        rw [hothers₁ _ (hne other hother)] at hdirty'
        exact ⟨htag', hvalid', hdirty'⟩
    · rw [hothers p fun other hother => hun other (List.mem_cons_of_mem _ hother),
        hothers₁ p (Ne.symm (hun entry List.mem_cons_self))]
    · rw [hreads, hreads₁, List.map_cons, List.reverse_cons, List.append_assoc]
      rfl

/-! ### Ways that are taken safely -/

/-- The way that is taken for `lca`, which the loop does not find, does not hold what the window
`lcas` is about: not the tag of a later LCA that the cache did not hold at the start `s`, and
where a line is evicted for it, neither a line that the loop has taken nor a valid line of the
window. And the FTL marks none of the lines taken as dirty during the eviction. -/
structure SafeWay (cfg : Config) (env : Env) (port : FTLPort F) (s : GenericCache F)
    (lcas : List Nat) (acc : List (Nat × Nat × Nat) × GenericCache F) (lca : Nat) : Prop where
  stale : ∀ way ∈ acc.2.getEmptyWay cfg (cfg.calcSetIndex lca), ∀ l ∈ lcas, lca < l →
    cfg.calcSetIndex l = cfg.calcSetIndex lca → s.getValidWay cfg l = none →
      (acc.2.cacheData (cfg.calcSetIndex lca, way)).tag ≠ l
  evicted : acc.2.getEmptyWay cfg (cfg.calcSetIndex lca) = none →
    Unreserved acc.1
        (cfg.calcSetIndex lca, acc.2.evictFunction cfg env (cfg.calcSetIndex lca)) ∧
      ∀ l ∈ lcas, ¬ acc.2.HasLine
        (cfg.calcSetIndex lca, acc.2.evictFunction cfg env (cfg.calcSetIndex lca)) l
  unmarked : (reserveLine cfg env port acc lca).All fun r =>
    ∀ entry ∈ r.1, (r.2.cacheData entry.2).dirty = false

/-- Nothing is asked where the LCA is found. -/
def ReserveSafe (cfg : Config) (env : Env) (port : FTLPort F) (s : GenericCache F)
    (lcas : List Nat) (acc : List (Nat × Nat × Nat) × GenericCache F) (lca : Nat) : Prop :=
  acc.2.getValidWay cfg lca = none → SafeWay cfg env port s lcas acc lca

/-- The first loop from the state `s`, after the LCAs `done` of the window `lcas`: it has taken
one way for each of them that was missing, and kept the lines of the window. -/
structure Reserving (cfg : Config) (s : GenericCache F) (lcas done : List Nat)
    (acc : List (Nat × Nat × Nat) × GenericCache F) : Prop where
  cleared : acc.2.Cleared
  fetched : acc.1.map Prod.fst = missing cfg s done
  nodup : (acc.1.map Prod.snd).Nodup
  taken : ∀ entry ∈ acc.1, (acc.2.cacheData entry.2).valid = true ∧
    (acc.2.cacheData entry.2).dirty = false
  stale : ∀ entry ∈ acc.1, ∀ l ∈ lcas, l ∉ done → cfg.calcSetIndex l = entry.2.1 →
    s.getValidWay cfg l = none → (acc.2.cacheData entry.2).tag ≠ l
  fewer : ∀ p l, acc.2.HasLine p l → Unreserved acc.1 p → s.HasLine p l
  kept : ∀ p, ∀ l ∈ lcas, s.HasLine p l → Unreserved acc.1 p ∧ acc.2.HasLine p l

namespace Reserving

variable {lcas done rest : List Nat} {acc acc' : List (Nat × Nat × Nat) × GenericCache F}

theorem start (hclear : s.Cleared) (lcas : List Nat) : Reserving cfg s lcas [] ([], s) :=
  ⟨hclear, rfl, List.nodup_nil, by simp, by simp, fun _ _ h _ => h,
    fun _ _ _ h => ⟨unreserved_nil _, h⟩⟩

/-- The loop finds an LCA of the window exactly if the cache held it at the start. -/
theorem getValidWay_eq_none_iff (h : Reserving cfg s lcas done acc) (hmem : lca ∈ lcas)
    (hnew : lca ∉ done) : acc.2.getValidWay cfg lca = none ↔ s.getValidWay cfg lca = none := by
  constructor
  · intro hnone
    rw [getValidWay_eq_none] at hnone ⊢
    intro way hway hv ht
    obtain ⟨-, hv', ht'⟩ := h.kept _ lca hmem ⟨hv, ht⟩
    exact hnone way hway hv' ht'
  · intro hnone
    rw [getValidWay_eq_none]
    intro way hway hv ht
    by_cases hun : Unreserved acc.1 (cfg.calcSetIndex lca, way)
    · obtain ⟨hv', ht'⟩ := h.fewer _ lca ⟨hv, ht⟩ hun
      exact getValidWay_eq_none.mp hnone way hway hv' ht'
    · -- a line that was taken has another tag
      unfold Unreserved at hun
      push Not at hun
      obtain ⟨entry, hentry, heq⟩ := hun
      refine h.stale entry hentry lca hmem hnew ?_ hnone ?_
      · rw [heq]
      · rw [heq]
        exact ht

/-- The way that is taken is none of the loop's, and does not hold a line of the window. -/
theorem free (h : Reserving cfg s lcas done acc) (hsafe : SafeWay cfg env port s lcas acc lca)
    (htake : TakesWay cfg env lca pos acc.2 acc'.2) :
    Unreserved acc.1 pos ∧ ∀ l ∈ lcas, ¬ acc.2.HasLine pos l := by
  rcases htake.source with ⟨hempty, -⟩ | ⟨hfull, hway, -⟩
  · have hinvalid := (getEmptyWay_eq_some hempty).2
    refine ⟨fun entry hentry heq => ?_, fun l _ hline => ?_⟩
    · have hvalid := (h.taken entry hentry).1
      rw [heq, hinvalid] at hvalid
      cases hvalid
    · have hvalid := hline.1
      rw [hinvalid] at hvalid
      cases hvalid
  · have hpos : (cfg.calcSetIndex lca, pos.2) = pos := by rw [← htake.set]
    rw [htake.set] at hfull hway
    have hevicted := hsafe.evicted hfull
    rw [hway, hpos] at hevicted
    exact hevicted

/-- What is left of the window lies behind the LCA at hand. -/
theorem lt_of_later {l : Nat} (hsorted : lcas.Pairwise (· < ·))
    (hsplit : lcas = done ++ lca :: rest) (hl : l ∈ lcas) (hnot : l ∉ done ++ [lca]) : lca < l := by
  rw [hsplit] at hl hsorted
  rcases List.mem_append.mp hl with hl | hl
  · exact absurd (List.mem_append_left _ hl) hnot
  · rcases List.mem_cons.mp hl with rfl | hl
    · exact absurd (by simp) hnot
    · exact List.rel_of_pairwise_cons (List.pairwise_append.mp hsorted).2.1 hl

theorem step (hsorted : lcas.Pairwise (· < ·)) (hsplit : lcas = done ++ lca :: rest)
    (h : Reserving cfg s lcas done acc) (hsafe : ReserveSafe cfg env port s lcas acc lca)
    (hstep : reserveLine cfg env port acc lca = .ok acc') :
    Reserving cfg s lcas (done ++ [lca]) acc' := by
  have hmem : lca ∈ lcas := by rw [hsplit]; simp
  have hnodup : lcas.Nodup := hsorted.imp fun h => Nat.ne_of_lt h
  have hnew : lca ∉ done := by
    rw [hsplit, List.nodup_append] at hnodup
    exact fun hdone => hnodup.2.2 lca hdone lca List.mem_cons_self rfl
  have hmissing := h.getValidWay_eq_none_iff hmem hnew
  obtain ⟨hclear, hcases⟩ := (reserveLine_spec (R := acc.1) h.cleared).of_ok hstep
  rcases hcases with ⟨hsome, rfl⟩ | ⟨pos, hR, htake⟩
  · have hcached : s.getValidWay cfg lca ≠ none := fun hnone => hsome (hmissing.mpr hnone)
    refine ⟨hclear, ?_, h.nodup, h.taken, fun entry hentry l hl hnot => ?_, h.fewer, h.kept⟩
    · rw [h.fetched, missing, missing, List.filter_append]
      simp [Option.isNone_iff_eq_none, hcached]
    · exact h.stale entry hentry l hl fun hdone => hnot (List.mem_append_left _ hdone)
  · have hsafe := hsafe htake.missing
    have hpos : (cfg.calcSetIndex lca, pos.2) = pos := by rw [← htake.set]
    have hfree := h.free hsafe htake
    have hline : ∀ {p l}, p ≠ pos → (acc'.2.HasLine p l ↔ acc.2.HasLine p l) := by
      intro p l hp
      rw [HasLine, HasLine, htake.others.valid p hp, htake.others.tag p hp]
    have hold : ∀ entry ∈ acc.1, entry.2 ≠ pos := hfree.1
    refine ⟨hclear, ?_, ?_, fun entry hentry => ?_, fun entry hentry l hl hnot hset hnone => ?_,
      fun p l hp hun => ?_, fun p l hl hp => ?_⟩
    · rw [hR, List.map_append, h.fetched, missing, missing, List.filter_append]
      simp [hmissing.mp htake.missing]
    · rw [hR, List.map_append, List.nodup_append]
      refine ⟨h.nodup, List.nodup_singleton _, fun p hp p' hp' => ?_⟩
      obtain ⟨entry, hentry, rfl⟩ := List.mem_map.mp hp
      rw [List.mem_singleton.mp hp']
      exact hold entry hentry
    · refine ⟨?_, (hsafe.unmarked.of_ok hstep) entry hentry⟩
      rw [hR] at hentry
      rcases List.mem_append.mp hentry with hentry | hentry
      · rw [htake.others.valid _ (hold entry hentry)]
        exact (h.taken entry hentry).1
      · rw [List.mem_singleton.mp hentry]
        exact htake.valid
    · have hnot' : l ∉ done := fun hdone => hnot (List.mem_append_left _ hdone)
      rw [hR] at hentry
      rcases List.mem_append.mp hentry with hentry | hentry
      · rw [htake.others.tag _ (hold entry hentry)]
        exact h.stale entry hentry l hl hnot' hset hnone
      · rw [List.mem_singleton.mp hentry] at hset ⊢
        have hlt : lca < l := lt_of_later hsorted hsplit hl hnot
        rcases htake.source with ⟨hempty, htag⟩ | ⟨-, -, htag⟩
        · rw [htake.set] at hempty
          have hstale := hsafe.stale pos.2 hempty l hl hlt (hset.trans htake.set) hnone
          rw [hpos] at hstale
          rw [htag]
          exact hstale
        · rw [htag]
          omega
    · rw [hR] at hun
      have hne : p ≠ pos := fun heq => hun (lca, pos) (by simp) heq.symm
      exact h.fewer p l ((hline hne).mp hp) hun.of_append
    · obtain ⟨hun, hp⟩ := h.kept p l hl hp
      have hne : p ≠ pos := by
        rintro rfl
        exact hfree.2 l hl hp
      refine ⟨fun entry hentry => ?_, (hline hne).mpr hp⟩
      rw [hR] at hentry
      rcases List.mem_append.mp hentry with hentry | hentry
      · exact hun entry hentry
      · rw [List.mem_singleton.mp hentry]
        exact hne.symm

end Reserving

/-- What the first loop is to leave behind, for the window `lcas` from the state `s`: one way
for each LCA that was missing, with a clean line, and a line for each one that was not. -/
structure ReservedOnce (cfg : Config) (s : GenericCache F) (lcas : List Nat)
    (r : List (Nat × Nat × Nat) × GenericCache F) : Prop where
  fetched : ∀ l, l ∈ r.1.map Prod.fst ↔ l ∈ missing cfg s lcas
  nodup : (r.1.map Prod.snd).Nodup
  clean : ∀ entry ∈ r.1, (r.2.cacheData entry.2).dirty = false
  kept : ∀ l ∈ lcas, s.getValidWay cfg l ≠ none →
    ∃ p ∈ cfg.positions, Unreserved r.1 p ∧ r.2.HasLine p l

section Loop

variable {lcas : List Nat} {r : List (Nat × Nat × Nat) × GenericCache F}

/-- What holds of the loop's ways at its end was so when it took each of them. -/
theorem Reserving.safe {done rest : List Nat}
    {acc acc' : List (Nat × Nat × Nat) × GenericCache F} (hsorted : lcas.Pairwise (· < ·))
    (hsplit : lcas = done ++ lca :: rest) (hsets : InSets cfg [] s)
    (hone : ∀ l ∈ lcas, OneWay cfg s l) (hr : ReservedOnce cfg s lcas r)
    (h : Reserving cfg s lcas done acc) (hstep : reserveLine cfg env port acc lca = .ok acc')
    (hrest : rest.foldlM (reserveLine cfg env port) acc' = .ok r) :
    ReserveSafe cfg env port s lcas acc lca := by
  intro hnone
  obtain ⟨hclear, hcases⟩ := (reserveLine_spec (R := acc.1) h.cleared).of_ok hstep
  rcases hcases with ⟨hsome, -⟩ | ⟨pos, hR, htake⟩
  · exact absurd hnone hsome
  obtain ⟨-, more, hmore, hsub, hreserves⟩ := reserveLines_spec (R := acc'.1) hclear hrest
  have hpos : (cfg.calcSetIndex lca, pos.2) = pos := by rw [← htake.set]
  have hnodup := hr.nodup
  rw [hmore, List.map_append, List.nodup_append] at hnodup
  -- no way is taken again
  have hagain : ∀ entry ∈ acc'.1, Unreserved more entry.2 := fun entry hentry other hother heq =>
    hnodup.2.2 _ (List.mem_map_of_mem hentry) _ (List.mem_map_of_mem hother) heq.symm
  have hentry : (lca, pos) ∈ acc'.1 := by
    rw [hR]
    simp
  have hbefore : ∀ l ∈ done, l < lca := by
    rw [hsplit, List.pairwise_append] at hsorted
    exact fun l hl => hsorted.2.2 l hl lca List.mem_cons_self
  refine ⟨fun way hway l hl hlt hset hmiss htag => ?_, fun hfull => ?_, ?_⟩
  · rcases htake.source with ⟨hempty, hold⟩ | ⟨hfull, -⟩
    · rw [htake.set, hway, Option.some.injEq] at hempty
      rw [hempty, hpos] at htag
      -- the line of `pos` is taken for the one of `l`, which is not fetched
      have hfound : l ∉ more.map Prod.fst :=
        hreserves.found pos l ⟨htake.valid, hold.trans htag⟩ (htake.set.trans hset.symm) htake.way
          (hagain _ hentry)
      have hfetched := (hr.fetched l).mpr (mem_missing.mpr ⟨hl, hmiss⟩)
      rw [hmore, List.map_append, List.mem_append] at hfetched
      rcases hfetched with hfetched | hfetched
      · rw [hR, List.map_append, List.mem_append, h.fetched, mem_missing] at hfetched
        rcases hfetched with ⟨hdone, -⟩ | hlast
        · exact absurd (hbefore l hdone) (Nat.not_lt.mpr hlt.le)
        · have heq : l = lca := by simpa using hlast
          omega
      · exact hfound hfetched
    · rw [htake.set, hway] at hfull
      cases hfull
  · rcases htake.source with ⟨hempty, -⟩ | ⟨-, hway, -⟩
    · rw [htake.set, hfull] at hempty
      cases hempty
    rw [htake.set] at hway
    rw [hway, hpos]
    have hun : Unreserved acc.1 pos := by
      have hways := hnodup.1
      rw [hR, List.map_append, List.nodup_append] at hways
      exact fun entry hentry heq =>
        hways.2.2 _ (List.mem_map_of_mem hentry) pos (by simp) heq
    refine ⟨hun, fun l hl hline => ?_⟩
    -- the only line of `l` would go
    have hline₀ := h.fewer pos l hline hun
    obtain ⟨p, hp, hunp, hlinep⟩ :=
      hr.kept l hl (hline₀.getValidWay_ne_none (hline₀.set hsets) htake.way)
    rw [hmore] at hunp
    have hne : p ≠ pos := fun heq => hunp _ (List.mem_append_left _ hentry) heq.symm
    have hunmore : Unreserved more p := fun entry hentry =>
      hunp entry (List.mem_append_right _ hentry)
    have hunacc : Unreserved acc.1 p := fun entry hentry =>
      hunp entry (List.mem_append_left _ (by rw [hR]; exact List.mem_append_left _ hentry))
    have hlinep₀ : s.HasLine p l := by
      refine h.fewer p l ?_ hunacc
      rw [HasLine, hreserves.valid p hunmore, hreserves.tag p hunmore,
        htake.others.valid p hne, htake.others.tag p hne] at hlinep
      exact hlinep
    exact hne (hlinep₀.unique hline₀ hsets (hone l hl) (cfg.mem_positions.mp hp).2 htake.way)
  · refine Except.all_iff.mpr fun r' hr' other hother => ?_
    rw [hstep] at hr'
    cases hr'
    by_contra hdirty
    have hlast := hreserves.dirty other.2 (hagain other hother) (by simpa using hdirty)
    rw [hr.clean other (by rw [hmore]; exact List.mem_append_left _ hother)] at hlast
    cases hlast

theorem Reserving.reservedOnce (h : Reserving cfg s lcas lcas r) : ReservedOnce cfg s lcas r where
  fetched l := by rw [h.fetched]
  nodup := h.nodup
  clean entry hentry := (h.taken entry hentry).2
  kept l hl hcached := by
    obtain ⟨way, hway⟩ := Option.ne_none_iff_exists'.mp hcached
    obtain ⟨hlt, hline⟩ := getValidWay_eq_some hway
    exact ⟨_, cfg.mem_positions.mpr ⟨cfg.calcSetIndex_lt l, hlt⟩, h.kept _ l hl hline⟩

/-- The first loop takes its ways safely exactly if it leaves behind what it is to leave. -/
theorem reservedOnce_iff (hsorted : lcas.Pairwise (· < ·)) (hclear : s.Cleared)
    (hsets : InSets cfg [] s) (hone : ∀ l ∈ lcas, OneWay cfg s l)
    (h : lcas.foldlM (reserveLine cfg env port) ([], s) = .ok r) :
    ReservedOnce cfg s lcas r ↔
      Run.Along (reserveLine cfg env port) (ReserveSafe cfg env port s lcas) ([], s) lcas := by
  constructor
  · intro hr
    have hloop : ∀ (rest done : List Nat) (acc : List (Nat × Nat × Nat) × GenericCache F),
        lcas = done ++ rest → Reserving cfg s lcas done acc →
        rest.foldlM (reserveLine cfg env port) acc = .ok r →
        Run.Along (reserveLine cfg env port) (ReserveSafe cfg env port s lcas) acc rest := by
      intro rest
      induction rest with
      | nil => exact fun _ _ _ _ _ => trivial
      | cons lca rest ih =>
        intro done acc hsplit hacc hrest
        rw [List.foldlM_cons, Except.bind_eq_ok] at hrest
        obtain ⟨acc₁, hstep, hrest⟩ := hrest
        have hsafe := hacc.safe hsorted hsplit hsets hone hr hstep hrest
        refine ⟨hsafe, Except.all_iff.mpr fun acc' hacc' => ?_⟩
        rw [hstep] at hacc'
        cases hacc'
        exact ih (done ++ [lca]) acc₁ (by simpa using hsplit)
          (hacc.step hsorted hsplit hsafe hstep) hrest
    exact hloop lcas [] ([], s) rfl (.start hclear lcas) h
  · intro hsafe
    have hend : Reserving cfg s lcas lcas r := by
      refine hsafe.foldlM_done (I := Reserving cfg s lcas) ?_ rfl (.start hclear lcas) h
      exact fun done lca rest acc acc' hsplit hacc hsafe hstep =>
        hacc.step hsorted hsplit hsafe hstep
    exact hend.reservedOnce

end Loop

/-! ### Each page once -/

/-- A read for `requested` over the window `lcas`, from the state `s` to `s'`: one read of the
FTL for each LCA that was missing and no other one, no way taken twice, and afterwards one
valid line of each LCA, which is clean unless the LCA was cached before. -/
structure FetchesOnce (cfg : Config) (env : Env) (port : FTLPort F) (lcas : List Nat)
    (requested : Nat) (s s' : GenericCache F) : Prop where
  reads : s'.ftlReads.Perm ((missing cfg s lcas).map cfg.lineRequest ++ s.ftlReads)
  ways : (lcas.foldlM (reserveLine cfg env port) ([], s)).All fun r => (r.1.map Prod.snd).Nodup
  held : ∀ l, l = requested ∨ l ∈ lcas → ∃ pos ∈ cfg.positions, s'.HasLine pos l ∧
    (∀ p ∈ cfg.positions, s'.HasLine p l → p = pos) ∧
    ((s'.cacheData pos).dirty = false ∨ s.getValidWay cfg l ≠ none)

section Load

variable {lcas : List Nat} {r : List (Nat × Nat × Nat) × GenericCache F} {requested : Nat}

/-- A valid line after both loops was taken for its LCA, or was there before. -/
theorem hasLine_cases (hquiet : QuietReads port) (hreserves : Reserves cfg r.1 s r.2)
    (hnodup : (r.1.map Prod.snd).Nodup) (hload : r.1.foldlM (loadLine cfg env port) r.2 = .ok s')
    {p : Nat × Nat} {l : Nat} (h : s'.HasLine p l) :
    (l, p) ∈ r.1 ∨ Unreserved r.1 p ∧ r.2.HasLine p l ∧ s.HasLine p l := by
  obtain ⟨hentries, hothers, -⟩ := loadLines_spec hquiet hnodup hload
  by_cases hun : Unreserved r.1 p
  · rw [HasLine, hothers p hun] at h
    refine .inr ⟨hun, h, ?_⟩
    rw [HasLine, ← hreserves.valid p hun, ← hreserves.tag p hun]
    exact h
  · unfold Unreserved at hun
    push Not at hun
    obtain ⟨entry, hentry, rfl⟩ := hun
    have htag := (hentries entry hentry).1
    rw [h.2] at htag
    rw [htag]
    exact .inl hentry

/-- What the read is to do rests on its first loop. -/
theorem fetchesOnce_iff (hquiet : QuietReads port) (hnodup : lcas.Nodup)
    (hclear : s.Cleared) (hsets : InSets cfg [] s) (hone : ∀ l ∈ lcas, OneWay cfg s l)
    (hmem : requested ∈ lcas) (h : lcas.foldlM (reserveLine cfg env port) ([], s) = .ok r)
    (hload : r.1.foldlM (loadLine cfg env port) r.2 = .ok s') :
    FetchesOnce cfg env port lcas requested s s' ↔ ReservedOnce cfg s lcas r := by
  obtain ⟨-, more, hmore, hsub, hreserves⟩ := reserveLines_spec hclear h
  rw [List.nil_append] at hmore
  subst hmore
  have hfst : (r.1.map Prod.fst).Nodup := hsub.nodup hnodup
  have hpos : ∀ entry ∈ r.1, entry.2 ∈ cfg.positions := by
    intro entry hentry
    obtain ⟨hset, hway, -⟩ := hreserves.taken entry hentry
    refine cfg.mem_positions.mpr ⟨?_, hway⟩
    rw [hset]
    exact cfg.calcSetIndex_lt _
  -- once no way is reserved twice, the pages read are those that reserved one
  have hreads : ∀ hways : (r.1.map Prod.snd).Nodup,
      s'.ftlReads.Perm ((missing cfg s lcas).map cfg.lineRequest ++ s.ftlReads) ↔
        (r.1.map Prod.fst).Perm (missing cfg s lcas) := by
    intro hways
    have hrev := List.reverse_perm (r.1.map fun entry => cfg.lineRequest entry.1)
    rw [(loadLines_spec hquiet hways hload).2.2, hreserves.reads, List.perm_append_right_iff,
      ← List.map_perm_map_iff cfg.lineRequest_injective, List.map_map]
    exact ⟨hrev.symm.trans, hrev.trans⟩
  constructor
  · intro hf
    have hways := hf.ways.of_ok h
    obtain ⟨hentries, hothers, -⟩ := loadLines_spec hquiet hways hload
    have hfetched : ∀ l, l ∈ r.1.map Prod.fst ↔ l ∈ missing cfg s lcas := fun l =>
      ((hreads hways).mp hf.reads).mem_iff
    refine ⟨hfetched, hways, fun entry hentry => ?_, fun l hl hcached => ?_⟩
    · obtain ⟨hl, hnone⟩ := mem_missing.mp ((hfetched _).mp (List.mem_map_of_mem hentry))
      obtain ⟨pos, -, -, hunique, hclean⟩ := hf.held entry.1 (.inr hl)
      obtain ⟨htag, hvalid, hdirty⟩ := hentries entry hentry
      have heq := hunique entry.2 (hpos entry hentry) ⟨hvalid, htag⟩
      rw [← heq, hdirty] at hclean
      exact hclean.resolve_right fun h => h hnone
    · obtain ⟨pos, hmem, hline, -⟩ := hf.held l (.inr hl)
      rcases hasLine_cases hquiet hreserves hways hload hline with hentry | ⟨hun, hline', -⟩
      · have hnone := (mem_missing.mp ((hfetched l).mp (List.mem_map_of_mem hentry))).2
        exact absurd hnone hcached
      · exact ⟨pos, hmem, hun, hline'⟩
  · intro hr
    obtain ⟨hentries, hothers, -⟩ := loadLines_spec hquiet hr.nodup hload
    refine ⟨?_, Except.all_iff.mpr fun r' hr' => ?_, fun l hl => ?_⟩
    · refine (hreads hr.nodup).mpr ((List.perm_ext_iff_of_nodup hfst ?_).mpr hr.fetched)
      exact hnodup.filter _
    · rw [h] at hr'
      cases hr'
      exact hr.nodup
    · have hl : l ∈ lcas := by
        rcases hl with rfl | hl
        · exact hmem
        · exact hl
      by_cases hnone : s.getValidWay cfg l = none
      · have hfetched := (hr.fetched l).mpr (mem_missing.mpr ⟨hl, hnone⟩)
        obtain ⟨entry, hentry, rfl⟩ := List.mem_map.mp hfetched
        obtain ⟨htag, hvalid, hdirty⟩ := hentries entry hentry
        refine ⟨entry.2, hpos entry hentry, ⟨hvalid, htag⟩, fun p hp hline => ?_, .inl ?_⟩
        · rcases hasLine_cases hquiet hreserves hr.nodup hload hline with hother | ⟨-, -, hline⟩
          · exact congrArg Prod.snd (List.inj_on_of_nodup_map hfst hother hentry rfl)
          · have hcached := hline.getValidWay_ne_none (hline.set hsets)
              (cfg.mem_positions.mp hp).2
            exact absurd hnone hcached
        · rw [hdirty]
          exact hr.clean entry hentry
      · obtain ⟨pos, hpos, hun, hline⟩ := hr.kept l hl hnone
        have hline₀ : s.HasLine pos l := by
          rw [HasLine, ← hreserves.valid pos hun, ← hreserves.tag pos hun]
          exact hline
        refine ⟨pos, hpos, ?_, fun p hp hlinep => ?_, .inr hnone⟩
        · rw [HasLine, hothers pos hun]
          exact hline
        · rcases hasLine_cases hquiet hreserves hr.nodup hload hlinep with hentry | ⟨-, -, hline⟩
          · have hmissing := (hr.fetched l).mp (List.mem_map_of_mem hentry)
            exact absurd (mem_missing.mp hmissing).2 hnone
          · exact hline.unique hline₀ hsets (hone l hl) (cfg.mem_positions.mp hp).2
              (cfg.mem_positions.mp hpos).2

end Load

/-! ### The read -/

/-- The window of a read that misses, and the state in which its first loop begins: the lines
are still those of `s`. -/
def readWindow (cfg : Config) (env : Env) (req : Request) (s : GenericCache F) :
    List Nat × GenericCache F :=
  (s.lookupForRead cfg env req).2.2.openWindow cfg req.slpn

/-- The window does not wrap around, none of its LCAs has two lines, and every way that the
first loop takes is taken safely. -/
structure ReadsSafely (cfg : Config) (env : Env) (port : FTLPort F) (req : Request)
    (s : GenericCache F) : Prop where
  window : (s.readWindow cfg env req).1 ≠ []
  single : ∀ l ∈ (s.readWindow cfg env req).1, OneWay cfg s l
  ways : Run.Along (reserveLine cfg env port)
    (ReserveSafe cfg env port (s.readWindow cfg env req).2 (s.readWindow cfg env req).1)
    ([], (s.readWindow cfg env req).2) (s.readWindow cfg env req).1

section Read

variable {req : Request} {hit : Bool}

theorem window_sorted (a b : Nat) : (window a b).Pairwise (· < ·) :=
  List.pairwise_lt_range.map _ fun _ _ h => Nat.add_lt_add_left h a

theorem mem_window_self {a b : Nat} (h : window a b ≠ []) : a ∈ window a b := by
  have hlt : 0 < b - a := by
    by_contra hle
    have hzero : b - a = 0 := by omega
    rw [window, hzero] at h
    exact h rfl
  exact List.mem_map.mpr ⟨0, List.mem_range.mpr hlt, Nat.add_zero a⟩

theorem openWindow_fst (beginLCA : Nat) (s : GenericCache F) :
    ∃ endLCA, (s.openWindow cfg beginLCA).1 = window beginLCA endLCA := by
  rw [openWindow]
  split
  · exact ⟨_, rfl⟩
  · exact ⟨_, rfl⟩

theorem lookupForRead_miss (env : Env) (hmiss : s.getValidWay cfg req.slpn = none) :
    ∃ s₁ : GenericCache F, s.lookupForRead cfg env req = (false, some req.slpn, s₁) ∧
      s₁.cacheData = s.cacheData ∧ s₁.evictData = s.evictData := by
  rw [lookupForRead]
  dsimp only
  have hmiss' : (if cfg.useReadPrefetch then
      { s with readDetect := checkSequential cfg req s.readDetect } else s).getValidWay cfg req.slpn
      = none := by
    split
    · exact hmiss
    · exact hmiss
  rw [hmiss']
  refine ⟨_, rfl, ?_, ?_⟩
  · split <;> rfl
  · split <;> rfl

theorem readWindow_lines (env : Env) (hmiss : s.getValidWay cfg req.slpn = none) :
    (s.readWindow cfg env req).2.cacheData = s.cacheData ∧
      (s.readWindow cfg env req).2.evictData = s.evictData := by
  obtain ⟨s₁, hlookup, hlines, hdata⟩ := lookupForRead_miss env hmiss
  rw [readWindow, hlookup, openWindow]
  dsimp only
  split
  · exact ⟨hlines, hdata⟩
  · exact ⟨hlines, hdata⟩

/-- A read that misses is its two loops: between them there is nothing to evict. -/
theorem read_miss (hcaching : cfg.useReadCaching = true)
    (hmiss : s.getValidWay cfg req.slpn = none) (hclear : s.Cleared)
    (h : s.read cfg env port req = .ok (hit, s')) :
    ∃ r, (s.readWindow cfg env req).1.foldlM (reserveLine cfg env port)
        ([], (s.readWindow cfg env req).2) = .ok r ∧
      r.1.foldlM (loadLine cfg env port) r.2 = .ok s' := by
  have hclear₂ : (s.readWindow cfg env req).2.Cleared := by
    intro slot
    rw [(readWindow_lines env hmiss).2]
    exact hclear slot
  obtain ⟨s₁, hlookup, -⟩ := lookupForRead_miss env hmiss
  rw [readWindow, hlookup] at hclear₂ ⊢
  rw [read, if_pos hcaching, hlookup] at h
  obtain ⟨s₂, hlines, h⟩ := Except.bind_eq_ok.mp h
  cases h
  rw [readLines] at hlines
  obtain ⟨r, hreserve, hlines⟩ := Except.bind_eq_ok.mp hlines
  have hclear₃ := (reserveLines_spec hclear₂ hreserve).1
  have hidle : r.2.evictCache cfg env port = .ok r.2 :=
    foldlM_evictSlot_idle env port fun slot _ => hclear₃ slot
  obtain ⟨s₃, hevict, hload⟩ := Except.bind_eq_ok.mp hlines
  rw [hidle] at hevict
  cases hevict
  exact ⟨r, hreserve, hload⟩

theorem quietReads_pageMapping (ftl : FTL.Config) (ftlEnv : FTL.Env) :
    QuietReads (pageMapping ftl ftlEnv) := by
  intro f world req r h
  obtain ⟨f', hexec, rfl⟩ := Except.map_eq_ok.mp h
  have hrequest : FTL.PageMapping.Marks f [] (f.log .request) := ⟨[.request], rfl, rfl⟩
  exact markedBy_of_marks (hrequest.trans (FTL.PageMapping.marks_read hexec))

/-- The read in a state whose lines are in their sets, over an FTL that marks nothing during a
read. -/
theorem read_fetchesOnce_iff (hquiet : QuietReads port) (hcaching : cfg.useReadCaching = true)
    (hclear : s.Cleared) (hsets : InSets cfg [] s) (hmiss : s.getValidWay cfg req.slpn = none)
    (hone : ∀ l ∈ (s.readWindow cfg env req).1, OneWay cfg s l)
    (h : s.read cfg env port req = .ok (hit, s')) :
    FetchesOnce cfg env port (s.readWindow cfg env req).1 req.slpn (s.readWindow cfg env req).2 s' ↔
      ReadsSafely cfg env port req s := by
  obtain ⟨r, hreserve, hload⟩ := read_miss hcaching hmiss hclear h
  obtain ⟨hlines, hdata⟩ := readWindow_lines env hmiss
  have hwindow : ∃ endLCA, (s.readWindow cfg env req).1 = window req.slpn endLCA := by
    obtain ⟨s₁, hlookup, -⟩ := lookupForRead_miss env hmiss
    rw [readWindow, hlookup]
    exact openWindow_fst _ _
  have hmem : (s.readWindow cfg env req).1 ≠ [] → req.slpn ∈ (s.readWindow cfg env req).1 := by
    obtain ⟨endLCA, hwindow⟩ := hwindow
    rw [hwindow]
    exact mem_window_self
  have hsorted : (s.readWindow cfg env req).1.Pairwise (· < ·) := by
    obtain ⟨endLCA, hwindow⟩ := hwindow
    rw [hwindow]
    exact window_sorted _ _
  have hclear₂ : (s.readWindow cfg env req).2.Cleared := by
    intro slot
    rw [hdata]
    exact hclear slot
  have hsets₂ : InSets cfg [] (s.readWindow cfg env req).2 := hsets.congr hlines
  have hone₂ : ∀ l ∈ (s.readWindow cfg env req).1, OneWay cfg (s.readWindow cfg env req).2 l := by
    intro l hl
    rw [OneWay, hlines]
    exact hone l hl
  have hnodup := hsorted.imp fun h => Nat.ne_of_lt h
  have hways := reservedOnce_iff hsorted hclear₂ hsets₂ hone₂ hreserve
  constructor
  · intro hf
    have hne : (s.readWindow cfg env req).1 ≠ [] := by
      -- nothing is done for an empty window
      intro hnil
      rw [hnil] at hreserve
      cases hreserve
      cases hload
      obtain ⟨pos, hpos, hline, -⟩ := hf.held req.slpn (.inl rfl)
      rw [HasLine, hlines] at hline
      have hcached : s.getValidWay cfg req.slpn ≠ none :=
        HasLine.getValidWay_ne_none hline (HasLine.set hline hsets) (cfg.mem_positions.mp hpos).2
      exact hcached hmiss
    refine ⟨hne, hone, hways.mp ?_⟩
    exact (fetchesOnce_iff hquiet hnodup hclear₂ hsets₂ hone₂ (hmem hne) hreserve hload).mp hf
  · intro hsafe
    exact (fetchesOnce_iff hquiet hnodup hclear₂ hsets₂ hone₂ (hmem hsafe.window) hreserve
      hload).mpr (hways.mpr hsafe.ways)

end Read

end GenericCache

open GenericCache

/-- A read that misses in a reachable state fetches each page of its window once when it reads
safely; and when no page of the window has two lines, only then. -/
theorem read_fetches_once_iff (cfg : Config) (env : Env) (ftl : FTL.Config) (ftlEnv : FTL.Env)
    (pFTL : FTL.PageMapping) (calls : List (Nat × Op)) {s s₀ s' : GenericCache FTL.PageMapping}
    (hrun : run cfg env (pageMapping ftl ftlEnv) (.init pFTL) calls = .ok s) (iclCount : Nat)
    (hs₀ : s₀ = { s with iclCount := iclCount }) (req : Request) {hit : Bool}
    (hcaching : cfg.useReadCaching = true) (hmiss : s₀.getValidWay cfg req.slpn = none)
    (hread : s₀.read cfg env (pageMapping ftl ftlEnv) req = .ok (hit, s')) :
    (ReadsSafely cfg env (pageMapping ftl ftlEnv) req s₀ →
      FetchesOnce cfg env (pageMapping ftl ftlEnv) (s₀.readWindow cfg env req).1 req.slpn
        (s₀.readWindow cfg env req).2 s') ∧
    ((∀ l ∈ (s₀.readWindow cfg env req).1, OneWay cfg s₀ l) →
      FetchesOnce cfg env (pageMapping ftl ftlEnv) (s₀.readWindow cfg env req).1 req.slpn
        (s₀.readWindow cfg env req).2 s' →
      ReadsSafely cfg env (pageMapping ftl ftlEnv) req s₀) := by
  have hclear : s₀.Cleared := by
    rw [hs₀]
    exact (run_cleared hrun : s.Cleared)
  have hsets : InSets cfg [] s₀ := (run_inSets hrun).congr (by rw [hs₀])
  have hquiet := quietReads_pageMapping ftl ftlEnv
  refine ⟨fun hsafe => ?_, fun hone hf => ?_⟩
  · exact (read_fetchesOnce_iff hquiet hcaching hclear hsets hmiss hsafe.single hread).mpr hsafe
  · exact (read_fetchesOnce_iff hquiet hcaching hclear hsets hmiss hone hread).mp hf

/-! ### Two reads with read-ahead -/

instance (s : GenericCache F) (pos : Nat × Nat) (lca : Nat) : Decidable (s.HasLine pos lca) :=
  inferInstanceAs (Decidable (_ ∧ _))

instance (cfg : Config) (s : GenericCache F) (lca : Nat) : Decidable (OneWay cfg s lca) :=
  decidable_of_iff (∀ way < cfg.waySize, ∀ way' < cfg.waySize,
      s.HasLine (cfg.calcSetIndex lca, way) lca → s.HasLine (cfg.calcSetIndex lca, way') lca →
        way = way')
    ⟨fun h way hway way' hway' hv ht hv' ht' => h way hway way' hway' ⟨hv, ht⟩ ⟨hv', ht'⟩,
      fun h way hway way' hway' hl hl' => h way hway way' hway' hl.1 hl.2 hl'.1 hl'.2⟩

instance (cfg : Config) (env : Env) (port : FTLPort F) (s : GenericCache F) (lcas : List Nat)
    (acc : List (Nat × Nat × Nat) × GenericCache F) (lca : Nat) :
    Decidable (SafeWay cfg env port s lcas acc lca) :=
  decidable_of_iff
    ((∀ way ∈ acc.2.getEmptyWay cfg (cfg.calcSetIndex lca), ∀ l ∈ lcas, lca < l →
        cfg.calcSetIndex l = cfg.calcSetIndex lca → s.getValidWay cfg l = none →
          (acc.2.cacheData (cfg.calcSetIndex lca, way)).tag ≠ l) ∧
      (acc.2.getEmptyWay cfg (cfg.calcSetIndex lca) = none →
        Unreserved acc.1
            (cfg.calcSetIndex lca, acc.2.evictFunction cfg env (cfg.calcSetIndex lca)) ∧
          ∀ l ∈ lcas, ¬ acc.2.HasLine
            (cfg.calcSetIndex lca, acc.2.evictFunction cfg env (cfg.calcSetIndex lca)) l) ∧
      (reserveLine cfg env port acc lca).All fun r =>
        ∀ entry ∈ r.1, (r.2.cacheData entry.2).dirty = false)
    ⟨fun ⟨h₁, h₂, h₃⟩ => ⟨h₁, h₂, h₃⟩, fun ⟨h₁, h₂, h₃⟩ => ⟨h₁, h₂, h₃⟩⟩

instance (cfg : Config) (env : Env) (port : FTLPort F) (s : GenericCache F) (lcas : List Nat)
    (acc : List (Nat × Nat × Nat) × GenericCache F) (lca : Nat) :
    Decidable (ReserveSafe cfg env port s lcas acc lca) := inferInstanceAs (Decidable (_ → _))

instance (cfg : Config) (env : Env) (port : FTLPort F) (req : Request) (s : GenericCache F) :
    Decidable (ReadsSafely cfg env port req s) :=
  decidable_of_iff ((s.readWindow cfg env req).1 ≠ [] ∧
      (∀ l ∈ (s.readWindow cfg env req).1, OneWay cfg s l) ∧
      Run.Along (reserveLine cfg env port)
        (ReserveSafe cfg env port (s.readWindow cfg env req).2 (s.readWindow cfg env req).1)
        ([], (s.readWindow cfg env req).2) (s.readWindow cfg env req).1)
    ⟨fun ⟨h₁, h₂, h₃⟩ => ⟨h₁, h₂, h₃⟩, fun ⟨h₁, h₂, h₃⟩ => ⟨h₁, h₂, h₃⟩⟩

/-- The small cache with read-ahead over two pages. -/
def Config.ahead : Config :=
  { Config.small with parallelIO := 2, useReadPrefetch := true, parallelIO_pos := Nat.two_pos }

/-- Page 1 is read, and then page 2 with page 3 ahead: both are fetched. -/
theorem read_fetches_once_ahead : ∃ pFTL s s', smallDevice 4 = .ok pFTL ∧
    run .ahead .ticking (smallPort 4) (.init pFTL) [(0, .read ⟨2, 0, 4096, 1⟩)] = .ok s ∧
    s.read .ahead .ticking (smallPort 4) ⟨3, 0, 4096, 2⟩ = .ok (false, s') ∧
    (s.readWindow .ahead .ticking ⟨3, 0, 4096, 2⟩).1 = [2, 3] ∧
    FetchesOnce .ahead .ticking (smallPort 4) [2, 3] 2
      (s.readWindow .ahead .ticking ⟨3, 0, 4096, 2⟩).2 s' := by
  obtain ⟨pFTL, hinit, hrun⟩ := Except.exists_of_map (x := smallDevice 4)
    (p := fun pFTL => (run .ahead .ticking (smallPort 4) (.init pFTL)
      [(0, .read ⟨2, 0, 4096, 1⟩)]).map (fun s => decide (s.iclCount = 0 ∧
        s.getValidWay .ahead 2 = none ∧
        (s.readWindow .ahead .ticking ⟨3, 0, 4096, 2⟩).1 = [2, 3] ∧
        ReadsSafely .ahead .ticking (smallPort 4) ⟨3, 0, 4096, 2⟩ s ∧
        (s.read .ahead .ticking (smallPort 4) ⟨3, 0, 4096, 2⟩).map Prod.fst = .ok false)) =
          .ok true)
    (by decide +kernel)
  obtain ⟨s, hs, hcount, hmiss, hwindow, hsafe, hread⟩ := Except.exists_of_map hrun
  obtain ⟨⟨hit, s'⟩, hread, rfl⟩ := Except.map_eq_ok.mp hread
  have hsame : s = { s with iclCount := 0 } := by rw [← hcount]
  have honce := (read_fetches_once_iff .ahead .ticking (.small 4) .zero pFTL _ hs 0 hsame
    ⟨3, 0, 4096, 2⟩ rfl hmiss hread).1 hsafe
  rw [hwindow] at honce
  exact ⟨pFTL, s, s', hinit, hs, hread, hwindow, honce⟩

/-- Page 3 is written and flushed, which leaves its tag in an invalid line. The read of page 2
takes that line, and then takes it for the one of page 3, although the window of two pages fits
into the set. -/
theorem read_ahead_skips_page : ∃ pFTL s s', smallDevice 4 = .ok pFTL ∧
    run .ahead .ticking (smallPort 4) (.init pFTL)
      [(0, .write (.line 3)), (0, .flush ⟨3, 1⟩), (0, .read ⟨2, 0, 4096, 1⟩)] = .ok s ∧
    s.getValidWay .ahead 2 = none ∧ s.getValidWay .ahead 3 = none ∧
    s.read .ahead .ticking (smallPort 4) ⟨3, 0, 4096, 2⟩ = .ok (false, s') ∧
    (s.readWindow .ahead .ticking ⟨3, 0, 4096, 2⟩).1 = [2, 3] ∧
    Config.ahead.setSize = 1 ∧ Config.ahead.waySize = 2 ∧
    s'.getValidWay .ahead 3 = none ∧
    ¬ FetchesOnce .ahead .ticking (smallPort 4) [2, 3] 2
      (s.readWindow .ahead .ticking ⟨3, 0, 4096, 2⟩).2 s' := by
  obtain ⟨pFTL, hinit, hrun⟩ := Except.exists_of_map (x := smallDevice 4)
    (p := fun pFTL => (run .ahead .ticking (smallPort 4) (.init pFTL)
      [(0, .write (.line 3)), (0, .flush ⟨3, 1⟩), (0, .read ⟨2, 0, 4096, 1⟩)]).map (fun s =>
        decide (s.getValidWay .ahead 2 = none ∧ s.getValidWay .ahead 3 = none ∧
        (s.readWindow .ahead .ticking ⟨3, 0, 4096, 2⟩).1 = [2, 3] ∧
        (s.read .ahead .ticking (smallPort 4) ⟨3, 0, 4096, 2⟩).map
          (fun r => (r.1, r.2.getValidWay .ahead 3)) = .ok (false, none))) = .ok true)
    (by decide +kernel)
  obtain ⟨s, hs, hmiss, hmiss₃, hwindow, hread⟩ := Except.exists_of_map hrun
  obtain ⟨⟨hit, s'⟩, hread, hresult⟩ := Except.map_eq_ok.mp hread
  obtain ⟨rfl, hlost⟩ := Prod.mk.inj hresult
  refine ⟨pFTL, s, s', hinit, hs, hmiss, hmiss₃, hread, hwindow, by decide, by decide, hlost,
    fun honce => ?_⟩
  obtain ⟨⟨setIdx, way⟩, hpos, hline, -⟩ := honce.held 3 (.inr (by decide))
  obtain ⟨hset, hway⟩ := Config.ahead.mem_positions.mp hpos
  have hzero : setIdx = Config.ahead.calcSetIndex 3 := by
    have hone : Config.ahead.setSize = 1 := by decide
    have hthree : Config.ahead.calcSetIndex 3 = 0 := by decide
    have hlt : setIdx < Config.ahead.setSize := hset
    omega
  exact hline.getValidWay_ne_none hzero hway hlost

end SimpleSSD.ICL
