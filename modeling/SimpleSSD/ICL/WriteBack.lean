import SimpleSSD.ICL.HostWrites
import SimpleSSD.ICL.Tags

/-!
# Host writes and the write-back cache

`Ledger` replays the events of the cache and keeps, for every LCA, which host
write is its newest and which one the last FTL write of the LCA carried, and for
every line which host write its data comes from. `Durable` says that no newest
write is lost and that no FTL write carries older data; the newest writes are those
among the calls of the run (`ledger_newest`).

`flush` looks at the dirty bit of a line but not at its valid bit, and does not
clear the flags of its request from one line to the next. A read-ahead can evict
a line that it has reserved under an old tag. `insertLine` for a page that the
cache holds makes a second line of it. Where none of this happens, the cache is
durable.
-/

namespace SimpleSSD.ICL

open GenericCache

/-! ### The ledger -/

/-- Host writes are numbered in the order in which they happen. -/
structure Ledger where
  writes : Nat
  /-- The newest host write, unless the LCA was trimmed or formatted since. -/
  newest : Nat → Option Nat
  /-- The host write whose data the last FTL write for the LCA carried. -/
  flash : Nat → Option Nat
  /-- The host write whose data the line holds. -/
  held : Nat × Nat → Option Nat
  /-- The LCAs for which an FTL write carried other data than the newest. -/
  stale : List Nat

def Ledger.empty : Ledger := ⟨0, fun _ => none, fun _ => none, fun _ => none, []⟩

/-- An FTL write of the units `lcas`, where `data lca` is what it carries. -/
def Ledger.issue (g : Ledger) (lcas : List Nat) (data : Nat → Option Nat) : Ledger :=
  { g with
    flash := fun lca => if lca ∈ lcas then data lca else g.flash lca
    stale := g.stale ++ lcas.filter fun lca => g.newest lca ≠ none ∧ g.newest lca ≠ data lca }

/-- The LCAs of an FTL request. -/
def Config.requestLines (cfg : Config) (req : FTL.Request) : List Nat :=
  ((List.range cfg.lineCountInSuperPage).filter req.ioFlag.test).map
    (req.lpn * cfg.lineCountInSuperPage + ·)

/-- What one event means for the data. A line that is written back carries its
data to its own LCA, and to no other LCA of the request. -/
def Ledger.step (cfg : Config) (g : Ledger) : Event → Ledger
  | .ftl _ => g
  | .write pos lca =>
    { g with
      writes := g.writes + 1
      newest := Function.update g.newest lca (some g.writes)
      held := Function.update g.held pos (some g.writes) }
  | .writeThrough lca =>
    { g with
      writes := g.writes + 1
      newest := Function.update g.newest lca (some g.writes)
      flash := Function.update g.flash lca (some g.writes) }
  | .mirror pos lca => { g with held := Function.update g.held pos (g.newest lca) }
  | .insert pos lca => { g with held := Function.update g.held pos (g.flash lca) }
  | .rewrite lca => g.issue [lca] g.flash
  | .load pos lca => { g with held := Function.update g.held pos (g.flash lca) }
  | .writeBack pos tag req =>
    g.issue (cfg.requestLines req) fun lca => if lca = tag then g.held pos else none
  | .trim range => { g with newest := fun lca => if range.contains lca then none else g.newest lca }
  | .format range =>
    { g with newest := fun lca => if lca ∈ formatted range then none else g.newest lca }

/-- The ledger of a history, which lists the last event first. -/
def ledger (cfg : Config) (trace : List Event) : Ledger :=
  trace.foldr (fun e g => g.step cfg e) .empty

@[simp] theorem ledger_cons (cfg : Config) (e : Event) (trace : List Event) :
    ledger cfg (e :: trace) = (ledger cfg trace).step cfg e := rfl

/-- The newest host writes are those of the host's calls. -/
theorem ledger_newest (cfg : Config) (trace : List Event) :
    (⟨(ledger cfg trace).writes, (ledger cfg trace).newest⟩ : HostWrites) =
      hostWrites (trace.filterMap Event.hostCall).reverse := by
  induction trace with
  | nil => rfl
  | cons e trace ih =>
    have hcall : ∀ c, hostWrites (c :: trace.filterMap Event.hostCall).reverse =
        HostWrites.step ⟨(ledger cfg trace).writes, (ledger cfg trace).newest⟩ c := by
      intro c
      rw [ih, hostWrites, List.reverse_cons, List.foldl_append]
      rfl
    rw [ledger_cons, List.filterMap_cons]
    cases e with
    | write pos lca => exact (hcall (.write lca)).symm
    | writeThrough lca => exact (hcall (.write lca)).symm
    | trim range => exact (hcall (.trim range)).symm
    | format range => exact (hcall (.format range)).symm
    | _ => exact ih

/-- No write is lost or reverted: the newest write of an LCA is in a valid dirty
line, or the last FTL write for the LCA carried it; and no FTL write carried
other data than the newest. -/
structure Durable {F : Type} (cfg : Config) (s : GenericCache F) : Prop where
  kept (lca v : Nat) : (ledger cfg s.trace).newest lca = some v →
    (∃ pos ∈ cfg.positions, (s.cacheData pos).valid = true ∧ (s.cacheData pos).tag = lca ∧
      (s.cacheData pos).dirty = true ∧ (ledger cfg s.trace).held pos = some v) ∨
    (ledger cfg s.trace).flash lca = some v
  no_stale : (ledger cfg s.trace).stale = []

theorem Config.mem_requestLines (cfg : Config) (req : FTL.Request) (lca : Nat) :
    lca ∈ cfg.requestLines req ↔ lca / cfg.lineCountInSuperPage = req.lpn ∧
      req.ioFlag.test (lca % cfg.lineCountInSuperPage) = true := by
  have hpos := cfg.lineCountInSuperPage_pos
  simp only [requestLines, List.mem_map, List.mem_filter, List.mem_range]
  constructor
  · rintro ⟨u, ⟨hu, htest⟩, rfl⟩
    have hdiv : (req.lpn * cfg.lineCountInSuperPage + u) / cfg.lineCountInSuperPage = req.lpn := by
      rw [Nat.mul_comm, Nat.mul_add_div hpos, Nat.div_eq_of_lt hu, Nat.add_zero]
    have hmod : (req.lpn * cfg.lineCountInSuperPage + u) % cfg.lineCountInSuperPage = u := by
      rw [Nat.mul_comm, Nat.mul_add_mod, Nat.mod_eq_of_lt hu]
    rw [hdiv, hmod]
    exact ⟨rfl, htest⟩
  · rintro ⟨hdiv, htest⟩
    refine ⟨lca % cfg.lineCountInSuperPage, ⟨Nat.mod_lt _ hpos, htest⟩, ?_⟩
    rw [← hdiv, Nat.mul_comm]
    exact Nat.div_add_mod lca _

/-- A request whose only flag is that of the line's unit is for this line. -/
theorem Config.requestLines_line (cfg : Config) {req : FTL.Request} {tag : Nat}
    (hlpn : req.lpn = tag / cfg.lineCountInSuperPage)
    (hflag : ∀ u, req.ioFlag.test u = true ↔ u = tag % cfg.lineCountInSuperPage) (lca : Nat) :
    lca ∈ cfg.requestLines req ↔ lca = tag := by
  rw [cfg.mem_requestLines, hlpn, hflag]
  constructor
  · rintro ⟨hdiv, hmod⟩
    rw [← Nat.div_add_mod lca cfg.lineCountInSuperPage, hdiv, hmod]
    exact Nat.div_add_mod tag _
  · rintro rfl
    exact ⟨rfl, rfl⟩

/-! ### The invariant -/

/-- `Durable` while the lines of `R` are reserved. Every valid line holds the
newest data of its tag. -/
structure Backed {F : Type} (cfg : Config) (R : List (Nat × Nat × Nat)) (s : GenericCache F) :
    Prop where
  tagged : Tagged cfg R s
  fresh (pos : Nat × Nat) (v : Nat) : (s.cacheData pos).valid = true → Unreserved R pos →
    (ledger cfg s.trace).newest (s.cacheData pos).tag = some v →
    (ledger cfg s.trace).held pos = some v
  kept (lca v : Nat) : (ledger cfg s.trace).newest lca = some v →
    (∃ pos, (s.cacheData pos).valid = true ∧ Unreserved R pos ∧ (s.cacheData pos).tag = lca ∧
      (s.cacheData pos).dirty = true) ∨ (ledger cfg s.trace).flash lca = some v
  no_stale : (ledger cfg s.trace).stale = []

/-- The newest data of the line is in the FTL. -/
def Flushed {F : Type} (cfg : Config) (R : List (Nat × Nat × Nat)) (s : GenericCache F)
    (pos : Nat × Nat) : Prop :=
  (s.cacheData pos).valid = true → Unreserved R pos → ∀ v,
    (ledger cfg s.trace).newest (s.cacheData pos).tag = some v →
    (ledger cfg s.trace).flash (s.cacheData pos).tag = some v

variable {F : Type} {cfg : Config} {env : Env} {port : FTLPort F} {R : List (Nat × Nat × Nat)}
  {s s' : GenericCache F} {lca way : Nat} {pos : Nat × Nat} {line : Line}

namespace Backed

theorem durable (h : Backed cfg [] s) : Durable cfg s where
  kept lca v hv := by
    rcases h.kept lca v hv with ⟨pos, hvalid, hun, htag, hdirty⟩ | hflash
    · refine .inl ⟨pos, h.tagged.within pos hvalid, hvalid, htag, hdirty, ?_⟩
      exact h.fresh pos v hvalid hun (htag ▸ hv)
    · exact .inr hflash
  no_stale := h.no_stale

theorem init (pFTL : F) : Backed cfg [] (GenericCache.init pFTL) where
  tagged := Tagged.init pFTL
  fresh := by rintro _ _ ⟨⟩
  kept := by rintro _ _ ⟨⟩
  no_stale := rfl

theorem congr (h : Backed cfg R s) (hlines : s'.cacheData = s.cacheData)
    (hledger : ledger cfg s'.trace = ledger cfg s.trace) : Backed cfg R s' where
  tagged := h.tagged.congr hlines
  fresh := by
    rw [hlines, hledger]
    exact h.fresh
  kept := by
    rw [hlines, hledger]
    exact h.kept
  no_stale := by
    rw [hledger]
    exact h.no_stale

/-- Marks only add dirty lines. -/
theorem marked (h : Backed cfg R s) (hm : s.Marked s') : Backed cfg R s' where
  tagged := h.tagged.fewer hm.fewer
  fresh pos v hv hun := by
    rw [hm.tag, hm.trace]
    exact h.fresh pos v (hm.valid pos ▸ hv) hun
  kept lca v := by
    rw [hm.trace]
    intro hv
    rcases h.kept lca v hv with ⟨pos, hvalid, hun, htag, hdirty⟩ | hflash
    · exact .inl ⟨pos, (hm.valid pos).trans hvalid, hun, (hm.tag pos).trans htag, hm.dirty hdirty⟩
    · exact .inr hflash
  no_stale := by
    rw [hm.trace]
    exact h.no_stale

/-- An LCA without a valid dirty line is in the FTL. -/
theorem flash_eq (h : Backed cfg R s)
    (hnone : ∀ pos, (s.cacheData pos).valid = true → Unreserved R pos →
      (s.cacheData pos).tag = lca → (s.cacheData pos).dirty = false) {v : Nat}
    (hv : (ledger cfg s.trace).newest lca = some v) : (ledger cfg s.trace).flash lca = some v := by
  rcases h.kept lca v hv with ⟨pos, hvalid, hun, htag, hdirty⟩ | hflash
  · rw [hnone pos hvalid hun htag] at hdirty
    cases hdirty
  · exact hflash

theorem flash_eq_of_none (h : Backed cfg R s) (hnone : s.getValidWay cfg lca = none) {v : Nat}
    (hv : (ledger cfg s.trace).newest lca = some v) : (ledger cfg s.trace).flash lca = some v :=
  h.flash_eq (fun _ hvalid hun htag => absurd htag (h.tagged.tag_ne hnone hvalid hun)) hv

/-- A clean line is in the FTL. -/
theorem flushed_of_clean (h : Backed cfg R s) (hclean : (s.cacheData pos).dirty = false) :
    Flushed cfg R s pos := by
  intro hvalid hun v hv
  refine h.flash_eq (fun p hvalid' hun' htag => ?_) hv
  rw [h.tagged.unique p pos hvalid' hvalid hun' hun htag]
  exact hclean

/-- A line whose data is in the FTL may go. -/
theorem drop (h : Backed cfg R s) (hline : line.valid = false) (hflushed : Flushed cfg R s pos) :
    Backed cfg R (s.putLine pos line) where
  tagged := h.tagged.fewer (fewer_putLine (by simp [hline]))
  fresh p v hv hun := by
    by_cases hp : p = pos
    · subst hp
      rw [putLine_self, hline] at hv
      cases hv
    · rw [putLine_of_ne hp] at hv ⊢
      exact h.fresh p v hv hun
  kept lca v hv := by
    rcases h.kept lca v hv with ⟨p, hvalid, hun, htag, hdirty⟩ | hflash
    · by_cases hp : p = pos
      · subst hp
        subst htag
        exact .inr (hflushed hvalid hun v hv)
      · refine .inl ⟨p, ?_⟩
        rw [putLine_of_ne hp]
        exact ⟨hvalid, hun, htag, hdirty⟩
    · exact .inr hflash
  no_stale := h.no_stale

/-- A valid line is written back under its own tag. -/
theorem writeBack (h : Backed cfg R s) (req : FTL.Request)
    (hvalid : (s.cacheData pos).valid = true) (hun : Unreserved R pos)
    (hreq : ∀ lca, lca ∈ cfg.requestLines req ↔ lca = (s.cacheData pos).tag) :
    Backed cfg R (s.log (.writeBack pos (s.cacheData pos).tag req)) ∧
      Flushed cfg R (s.log (.writeBack pos (s.cacheData pos).tag req)) pos := by
  have hflash : ∀ lca, (ledger cfg (s.log (.writeBack pos (s.cacheData pos).tag req)).trace).flash
      lca = if lca = (s.cacheData pos).tag then (ledger cfg s.trace).held pos
        else (ledger cfg s.trace).flash lca := by
    intro lca
    simp only [log_trace, ledger_cons, Ledger.step, Ledger.issue, hreq]
    split <;> rfl
  refine ⟨⟨h.tagged.log, h.fresh, fun lca v hv => ?_, ?_⟩, fun _ _ v hv => ?_⟩
  · rw [hflash]
    split
    · next htag =>
      subst htag
      exact .inr (h.fresh pos v hvalid hun hv)
    · exact h.kept lca v hv
  · have hheld : (ledger cfg s.trace).newest (s.cacheData pos).tag ≠ none →
        (ledger cfg s.trace).newest (s.cacheData pos).tag = (ledger cfg s.trace).held pos := by
      intro hne
      obtain ⟨v, hv⟩ := Option.ne_none_iff_exists'.mp hne
      rw [hv, h.fresh pos v hvalid hun hv]
    rw [log_trace, ledger_cons, Ledger.step, Ledger.issue, h.no_stale, List.nil_append,
      List.filter_eq_nil_iff]
    intro lca hlca
    obtain rfl := (hreq lca).mp hlca
    simpa using hheld
  · rw [log_cacheData, hflash, if_pos rfl]
    exact h.fresh pos v hvalid hun hv

end Backed

/-- What a call of the FTL leaves as it is. -/
theorem call_frame (cfg : Config) (port : FTLPort F) (op : FTL.Op) (s : GenericCache F)
    (R : List (Nat × Nat × Nat)) (pos : Nat × Nat) :
    (s.call cfg port op).All fun s' => (Backed cfg R s → Backed cfg R s') ∧
      (Flushed cfg R s pos → Flushed cfg R s' pos) ∧
      (s'.cacheData pos).valid = (s.cacheData pos).valid ∧
      (s'.cacheData pos).tag = (s.cacheData pos).tag ∧
      ledger cfg s'.trace = ledger cfg s.trace := by
  refine (call_all cfg port op s).mono ?_
  rintro s' ⟨pFTL, _, -, hm⟩
  have hledger : ledger cfg s'.trace = ledger cfg s.trace := by
    rw [hm.trace]
    rfl
  have hbase : Backed cfg R s → Backed cfg R
      { s with pFTL := pFTL, trace := .ftl op :: s.trace } := fun h => h.congr rfl rfl
  refine ⟨fun h => (hbase h).marked hm, fun h hv hun v hnew => ?_, hm.valid pos, hm.tag pos,
    hledger⟩
  rw [hledger, hm.tag] at hnew ⊢
  exact h (hm.valid pos ▸ hv) hun v hnew

theorem Backed.call {op : FTL.Op} (h : Backed cfg R s) (port : FTLPort F) :
    (s.call cfg port op).All (Backed cfg R) :=
  (call_frame cfg port op s R (0, 0)).mono fun _ hs => hs.1 h

/-! ### The steps -/

/-- An evicted line that is valid and dirty is written back. -/
theorem Backed.releaseLine {row : Nat} (h : Backed cfg R s)
    (hrow : (s.cacheData pos).valid = true →
      row = (s.cacheData pos).tag % cfg.lineCountInSuperPage)
    (hreserved : (s.cacheData pos).dirty = true → Unreserved R pos) :
    (s.releaseLine cfg port row pos).All fun s' => Backed cfg R s' ∧ Flushed cfg R s' pos := by
  rw [GenericCache.releaseLine]
  split
  · next hdirty =>
    rw [Bool.and_eq_true] at hdirty
    refine (call_frame cfg port _ s R pos).bind ?_
    rintro s₁ ⟨hback, -, hv, ht, -⟩
    have hwrite := (hback h).writeBack ⟨(s.cacheData pos).tag / cfg.lineCountInSuperPage,
      Bitset.single cfg.lineCountInSuperPage row⟩ (hv.trans hdirty.1) (hreserved hdirty.2) ?_
    · rw [ht] at hwrite
      refine (call_frame cfg port _ _ R pos).mono fun s₂ hs₂ => ?_
      exact ⟨hs₂.1 hwrite.1, hs₂.2.1 hwrite.2⟩
    · rw [ht]
      refine cfg.requestLines_line rfl fun u => ?_
      have hlt : (s.cacheData pos).tag % cfg.lineCountInSuperPage < cfg.lineCountInSuperPage :=
        Nat.mod_lt _ cfg.lineCountInSuperPage_pos
      rw [hrow hdirty.1, Bitset.test, Bitset.single, decide_eq_true_iff, Finset.mem_filter,
        Finset.mem_range]
      constructor
      · exact fun hu => hu.2
      · rintro rfl
        exact ⟨hlt, rfl⟩
  · next hclean =>
    have hflushed : Flushed cfg R s pos := by
      intro hvalid hun v hv
      refine h.flushed_of_clean ?_ hvalid hun v hv
      simpa [hvalid] using hclean
    exact (call_frame cfg port _ s R pos).mono fun s₁ hs => ⟨hs.1 h, hs.2.1 hflushed⟩

theorem Backed.evictLine {row : Nat} (h : Backed cfg R s)
    (hrow : (s.cacheData pos).valid = true →
      row = (s.cacheData pos).tag % cfg.lineCountInSuperPage)
    (hreserved : (s.cacheData pos).dirty = true → Unreserved R pos) :
    (s.evictLine cfg env port row pos).All (Backed cfg R) := by
  have hcount : Backed cfg R (s.countEviction (s.cacheData pos).tag) := h.congr rfl rfl
  exact (hcount.releaseLine hrow hreserved).bind fun s₁ hs => hs.1.drop rfl hs.2

/-- A reserved line may be anything. -/
theorem Backed.reserve (h : Backed cfg R s) (hnone : s.getValidWay cfg lca = none)
    (hR : ∀ entry ∈ R, entry.1 ≠ lca) (hway : way < cfg.waySize)
    (hempty : (s.cacheData (cfg.calcSetIndex lca, way)).valid = false) :
    Backed cfg (R ++ [(lca, cfg.calcSetIndex lca, way)])
      (s.putLine (cfg.calcSetIndex lca, way) line) := by
  have hne : ∀ {p}, Unreserved (R ++ [(lca, cfg.calcSetIndex lca, way)]) p →
      p ≠ (cfg.calcSetIndex lca, way) := by
    intro p hun heq
    exact hun (lca, cfg.calcSetIndex lca, way) (by simp) heq.symm
  refine ⟨h.tagged.reserve hnone hR hway, fun p v hv hun => ?_, fun l v hv => ?_, h.no_stale⟩
  · rw [putLine_of_ne (hne hun)] at hv ⊢
    exact h.fresh p v hv hun.of_append
  · rcases h.kept l v hv with ⟨p, hvalid, hun, htag, hdirty⟩ | hflash
    · have hp : p ≠ (cfg.calcSetIndex lca, way) := by
        rintro rfl
        rw [hempty] at hvalid
        cases hvalid
      refine .inl ⟨p, ?_⟩
      rw [putLine_of_ne hp]
      refine ⟨hvalid, fun entry hentry => ?_, htag, hdirty⟩
      rcases List.mem_append.mp hentry with hentry | hentry
      · exact hun entry hentry
      · rw [List.mem_singleton.mp hentry]
        exact hp.symm
    · exact .inr hflash

/-- A line takes data `x` for an LCA of which there is no other line. -/
theorem Backed.fill {R' : List (Nat × Nat × Nat)} {e : Event} {x : Option Nat}
    (h : Backed cfg R s) (htagged : Tagged cfg R' (s.putLine pos line)) (htag : line.tag = lca)
    (hun : ∀ p, p ≠ pos → (Unreserved R' p ↔ Unreserved R p))
    (hother : ∀ p, p ≠ pos → (s.cacheData p).valid = true → Unreserved R p →
      (s.cacheData p).tag ≠ lca)
    (hgone : (s.cacheData pos).valid = true → Unreserved R pos → (s.cacheData pos).tag = lca)
    (hledger : (ledger cfg s.trace).step cfg e =
      { ledger cfg s.trace with held := Function.update (ledger cfg s.trace).held pos x })
    (hx : ∀ v, (ledger cfg s.trace).newest lca = some v → x = some v)
    (hflash : line.valid = true ∧ line.dirty = true ∧ Unreserved R' pos ∨
      ∀ v, (ledger cfg s.trace).newest lca = some v → (ledger cfg s.trace).flash lca = some v) :
    Backed cfg R' ((s.putLine pos line).log e) := by
  have hheld : ∀ p, (ledger cfg ((s.putLine pos line).log e).trace).held p =
      if p = pos then x else (ledger cfg s.trace).held p := by
    intro p
    rw [log_trace, putLine_trace, ledger_cons, hledger]
    exact Function.update_apply _ _ _ _
  have hnewest : ∀ l, (ledger cfg ((s.putLine pos line).log e).trace).newest l =
      (ledger cfg s.trace).newest l := by
    intro l
    rw [log_trace, putLine_trace, ledger_cons, hledger]
  have hflash' : ∀ l, (ledger cfg ((s.putLine pos line).log e).trace).flash l =
      (ledger cfg s.trace).flash l := by
    intro l
    rw [log_trace, putLine_trace, ledger_cons, hledger]
  refine ⟨htagged.log, fun p v hv hunp => ?_, fun l v hv => ?_, ?_⟩
  · rw [hnewest, hheld, log_cacheData]
    rw [log_cacheData] at hv
    by_cases hp : p = pos
    · subst hp
      rw [putLine_self, htag, if_pos rfl]
      exact hx v
    · rw [putLine_of_ne hp] at hv ⊢
      rw [if_neg hp]
      exact h.fresh p v hv ((hun p hp).mp hunp)
  · rw [hnewest] at hv
    rw [hflash', log_cacheData]
    by_cases hl : l = lca
    · subst hl
      rcases hflash with ⟨hvalid, hdirty, hunp⟩ | hflash
      · exact .inl ⟨pos, by rwa [putLine_self], hunp, by rwa [putLine_self], by rwa [putLine_self]⟩
      · exact .inr (hflash v hv)
    · rcases h.kept l v hv with ⟨p, hvalid, hunp, htagp, hdirty⟩ | hflash
      · have hp : p ≠ pos := by
          rintro rfl
          exact hl (htagp ▸ hgone hvalid hunp)
        refine .inl ⟨p, ?_⟩
        rw [putLine_of_ne hp]
        exact ⟨hvalid, (hun p hp).mpr hunp, htagp, hdirty⟩
      · exact .inr hflash
  · rw [log_trace, putLine_trace, ledger_cons, hledger]
    exact h.no_stale

/-- A host write enters a line, and there is no other line of its LCA. -/
theorem Backed.hostWrite (h : Backed cfg [] s) (htagged : Tagged cfg [] (s.putLine pos line))
    (htag : line.tag = lca) (hvalid : line.valid = true) (hdirty : line.dirty = true)
    (hother : ∀ p, p ≠ pos → (s.cacheData p).valid = true → (s.cacheData p).tag ≠ lca)
    (hgone : (s.cacheData pos).valid = true → (s.cacheData pos).tag = lca) :
    Backed cfg [] ((s.putLine pos line).log (.write pos lca)) := by
  refine ⟨htagged.log, fun p v hv _ => ?_, fun l v hv => ?_, h.no_stale⟩
  · simp only [log_trace, putLine_trace, ledger_cons, Ledger.step, log_cacheData] at hv ⊢
    by_cases hp : p = pos
    · subst hp
      rw [putLine_self, htag, Function.update_self, Function.update_self]
      exact id
    · rw [putLine_of_ne hp] at hv ⊢
      rw [Function.update_of_ne (hother p hp hv), Function.update_of_ne hp]
      exact h.fresh p v hv (unreserved_nil p)
  · simp only [log_trace, putLine_trace, ledger_cons, Ledger.step, log_cacheData] at hv ⊢
    by_cases hl : l = lca
    · subst hl
      exact .inl ⟨pos, by rwa [putLine_self], unreserved_nil _, by rwa [putLine_self],
        by rwa [putLine_self]⟩
    · rw [Function.update_of_ne hl] at hv
      rcases h.kept l v hv with ⟨p, hvp, hunp, htagp, hdirtyp⟩ | hflash
      · have hp : p ≠ pos := by
          rintro rfl
          exact hl (htagp ▸ hgone hvp)
        refine .inl ⟨p, ?_⟩
        rw [putLine_of_ne hp]
        exact ⟨hvp, hunp, htagp, hdirtyp⟩
      · exact .inr hflash

/-- A write to `lca` has reached the FTL and not the cache. -/
structure Passed {F : Type} (cfg : Config) (lca : Nat) (s : GenericCache F) : Prop where
  tagged : Tagged cfg [] s
  fresh (pos : Nat × Nat) (v : Nat) : (s.cacheData pos).valid = true →
    (s.cacheData pos).tag ≠ lca → (ledger cfg s.trace).newest (s.cacheData pos).tag = some v →
    (ledger cfg s.trace).held pos = some v
  kept (l v : Nat) : l ≠ lca → (ledger cfg s.trace).newest l = some v →
    (∃ pos, (s.cacheData pos).valid = true ∧ (s.cacheData pos).tag = l ∧
      (s.cacheData pos).dirty = true) ∨ (ledger cfg s.trace).flash l = some v
  through : (ledger cfg s.trace).newest lca = (ledger cfg s.trace).flash lca
  no_stale : (ledger cfg s.trace).stale = []

theorem Backed.writeThrough (h : Backed cfg [] s) :
    (s.writeDirect cfg port true (.writeThrough lca) lca).All (Passed cfg lca) := by
  rw [GenericCache.writeDirect, if_pos rfl]
  refine (call_all cfg port _ _).mono ?_
  rintro s' ⟨pFTL, _, -, hm⟩
  have hledger : ledger cfg s'.trace = (ledger cfg s.trace).step cfg (.writeThrough lca) := by
    rw [hm.trace]
    rfl
  have htagged : Tagged cfg [] s' := by
    refine Tagged.fewer (s := { s with pFTL := pFTL }) (h.tagged.congr rfl) fun pos hv => ?_
    exact hm.fewer pos hv
  have hnewest : ∀ l, l ≠ lca →
      (ledger cfg s'.trace).newest l = (ledger cfg s.trace).newest l := by
    intro l hl
    rw [hledger]
    exact Function.update_of_ne hl _ _
  have hflash : ∀ l, l ≠ lca → (ledger cfg s'.trace).flash l = (ledger cfg s.trace).flash l := by
    intro l hl
    rw [hledger]
    exact Function.update_of_ne hl _ _
  refine ⟨htagged, fun pos v hv htag hnew => ?_, fun l v hl hnew => ?_, ?_, ?_⟩
  · rw [hnewest _ htag, hm.tag] at hnew
    rw [hledger]
    exact h.fresh pos v (hm.valid pos ▸ hv) (unreserved_nil pos) hnew
  · rw [hnewest l hl] at hnew
    rw [hflash l hl]
    rcases h.kept l v hnew with ⟨pos, hvalid, -, htag, hdirty⟩ | hflash
    · exact .inl ⟨pos, (hm.valid pos).trans hvalid, (hm.tag pos).trans htag, hm.dirty hdirty⟩
    · exact .inr hflash
  · rw [hledger]
    simp only [Ledger.step, Function.update_self]
  · rw [hledger]
    exact h.no_stale

/-- With the line of the LCA out of the way, all is well again. -/
theorem Passed.backed (h : Passed cfg lca s)
    (hgone : ∀ pos, (s.cacheData pos).valid = true → (s.cacheData pos).tag ≠ lca) :
    Backed cfg [] s where
  tagged := h.tagged
  fresh pos v hv _ hnew := h.fresh pos v hv (hgone pos hv) hnew
  kept l v hnew := by
    by_cases hl : l = lca
    · subst hl
      exact .inr (h.through ▸ hnew)
    · rcases h.kept l v hl hnew with ⟨pos, hvalid, htag, hdirty⟩ | hflash
      · exact .inl ⟨pos, hvalid, unreserved_nil pos, htag, hdirty⟩
      · exact .inr hflash
  no_stale := h.no_stale

theorem Passed.hit (h : Passed cfg lca s) (hway : s.getValidWay cfg lca = some way)
    (htag : line.tag = lca) :
    Backed cfg [] ((s.putLine (cfg.calcSetIndex lca, way) line).log
      (.mirror (cfg.calcSetIndex lca, way) lca)) := by
  obtain ⟨hlt, hv, ht⟩ := getValidWay_eq_some hway
  generalize hpos : (cfg.calcSetIndex lca, way) = pos at hv ht ⊢
  have hone : ∀ p, (s.cacheData p).valid = true → (s.cacheData p).tag = lca → p = pos := by
    intro p hpv hpt
    rw [← hpos]
    exact h.tagged.eq_of_tag hway hpv hpt
  -- take the line out, then put the new one in
  let out := s.putLine pos { s.cacheData pos with valid := false }
  have hfew : s.Fewer out := fewer_putLine (by simp)
  have hout : Passed cfg lca out := by
    refine ⟨h.tagged.fewer hfew, fun p v hpv hpt hnew => ?_, fun l v hl hnew => ?_, h.through,
      h.no_stale⟩
    · rw [(hfew p hpv).2] at hpt hnew
      exact h.fresh p v (hfew p hpv).1 hpt hnew
    · rcases h.kept l v hl hnew with ⟨p, hpv, hpt, hpd⟩ | hflash
      · have hp : p ≠ pos := by
          rintro rfl
          exact hl (hpt.symm.trans ht)
        refine .inl ⟨p, ?_⟩
        rw [putLine_of_ne hp]
        exact ⟨hpv, hpt, hpd⟩
      · exact .inr hflash
  have hgone : ∀ p, (out.cacheData p).valid = true → (out.cacheData p).tag ≠ lca := by
    intro p hpv hpt
    rw [(hfew p hpv).2] at hpt
    obtain rfl := hone p (hfew p hpv).1 hpt
    simp [out] at hpv
  have hback := hout.backed hgone
  have hlines : (out.putLine pos line).cacheData = (s.putLine pos line).cacheData :=
    Function.update_idem _ _ _
  have htagged : Tagged cfg [] (out.putLine pos line) := by
    refine (h.tagged.fewer (fewer_putLine fun _ => ⟨hv, htag.trans ht.symm⟩)).congr hlines
  have hfill := hback.fill (e := .mirror pos lca) htagged htag (fun _ _ => Iff.rfl)
    (fun p _ hpv _ => hgone p hpv) (fun hpv => by simp [out] at hpv) rfl (fun v hnew => hnew)
    (.inr fun v hnew => hout.through ▸ hnew)
  exact hfill.congr hlines.symm rfl

/-- A page that the cache does not hold goes back as it came. -/
theorem Backed.rewrite (h : Backed cfg [] s) (hnone : s.getValidWay cfg lca = none) :
    (s.writeDirect cfg port true (.rewrite lca) lca).All (Backed cfg []) := by
  rw [GenericCache.writeDirect, if_pos rfl]
  refine Backed.call ?_ port
  have hflash : ∀ l, (ledger cfg (s.log (.rewrite lca)).trace).flash l =
      (ledger cfg s.trace).flash l := by
    intro l
    show (if l ∈ [lca] then _ else _) = _
    split <;> rfl
  refine ⟨h.tagged.log, h.fresh, fun l v hv => ?_, ?_⟩
  · rw [hflash]
    exact h.kept l v hv
  · rw [log_trace, ledger_cons, Ledger.step, Ledger.issue, h.no_stale, List.nil_append,
      List.filter_eq_nil_iff]
    intro l hl
    obtain rfl := List.mem_singleton.mp hl
    cases hnew : (ledger cfg s.trace).newest l with
    | none => simp
    | some v => simp [h.flash_eq_of_none hnone hnew]

theorem Backed.invalidateLine (h : Backed cfg [] s) (hflushed : Flushed cfg [] s pos) :
    Backed cfg [] (s.invalidateLine pos) :=
  h.drop rfl hflushed

/-! ### The conditions -/

/-- Garbage collection inserts only pages of which the cache holds no valid line;
a read evicts no line that it has reserved and the FTL has marked dirty; a flush
finds no invalid dirty line in its range, and two dirty lines only if they are
the same unit of their superpages. -/
def writeBackConditions (cfg : Config) : StepConditions F where
  insert req s := s.getValidWay cfg req.slpn = none
  evict R pos s := (s.cacheData pos).dirty = true → Unreserved R pos
  flush range acc pos :=
    let line := acc.2.cacheData pos
    range.contains line.tag = true → line.dirty = true →
      line.valid = true ∧ ∀ u ∈ acc.1.bits, u = line.tag % cfg.lineCountInSuperPage

instance (cfg : Config) (req : Request) (s : GenericCache F) :
    Decidable ((writeBackConditions cfg).insert req s) := inferInstanceAs (Decidable (_ = _))

instance (cfg : Config) (R : List (Nat × Nat × Nat)) (pos : Nat × Nat) (s : GenericCache F) :
    Decidable ((writeBackConditions cfg).evict R pos s) := inferInstanceAs (Decidable (_ → _))

instance (cfg : Config) (range : LPNRange) (acc : Bitset × GenericCache F) (pos : Nat × Nat) :
    Decidable ((writeBackConditions cfg).flush range acc pos) :=
  inferInstanceAs (Decidable (_ → _ → _ ∧ ∀ u ∈ acc.1.bits, _))

theorem Backed.flushLine {range : LPNRange} {ioFlag : Bitset} (h : Backed cfg [] s)
    (hsize : ioFlag.dataSize = cfg.lineCountInSuperPage)
    (hmeets : (writeBackConditions cfg).flush range (ioFlag, s) pos) :
    (GenericCache.flushLine cfg port range (ioFlag, s) pos).All fun r => Backed cfg [] r.2 := by
  rw [GenericCache.flushLine]
  split
  · next hrange =>
    split
    · next hdirty =>
      obtain ⟨hvalid, hflags⟩ := hmeets hrange hdirty
      have hreq := h.writeBack ⟨(s.cacheData pos).tag / cfg.lineCountInSuperPage,
        ioFlag.insert ((s.cacheData pos).tag % cfg.lineCountInSuperPage)⟩ hvalid
        (unreserved_nil pos) ?_
      · refine (call_frame cfg port _ _ [] pos).bind fun s₁ hs₁ => ?_
        exact (hs₁.1 hreq.1).invalidateLine (hs₁.2.1 hreq.2)
      · refine cfg.requestLines_line rfl fun u => ?_
        have hlt : (s.cacheData pos).tag % cfg.lineCountInSuperPage < cfg.lineCountInSuperPage :=
          Nat.mod_lt _ cfg.lineCountInSuperPage_pos
        rw [Bitset.test, Bitset.insert, decide_eq_true_iff, Finset.mem_filter, Finset.mem_range,
          hsize]
        constructor
        · rintro ⟨-, hu | hu⟩
          · exact hu
          · exact hflags u hu
        · rintro rfl
          exact ⟨hlt, .inl rfl⟩
    · next hclean => exact h.invalidateLine (h.flushed_of_clean (by simpa using hclean))
  · exact h

/-- While a trim or a format runs: what is in its range has no newest write. -/
theorem Backed.forgotten (h : Backed cfg [] s) {gone : Nat → Bool}
    (hgone : ∀ l, gone l = true → (ledger cfg s.trace).newest l = none)
    (hpos : gone (s.cacheData pos).tag = true) : Backed cfg [] (s.invalidateLine pos) := by
  refine h.invalidateLine fun _ _ v hv => ?_
  rw [hgone _ hpos] at hv
  cases hv

/-- The event of a trim or a format takes newest writes away. -/
theorem Backed.forget {e : Event} (h : Backed cfg [] s) (gone : Nat → Bool)
    (hledger : (ledger cfg s.trace).step cfg e =
      { ledger cfg s.trace with
        newest := fun l => if gone l then none else (ledger cfg s.trace).newest l }) :
    Backed cfg [] (s.log e) ∧
      ∀ l, gone l = true → (ledger cfg (s.log e).trace).newest l = none := by
  have hnewest : ∀ l v, (ledger cfg (s.log e).trace).newest l = some v →
      (ledger cfg s.trace).newest l = some v := by
    intro l v
    rw [log_trace, ledger_cons, hledger]
    dsimp only
    split
    · rintro ⟨⟩
    · exact id
  refine ⟨⟨h.tagged.log, fun p v hv hun hnew => ?_, fun l v hnew => ?_, ?_⟩, fun l hl => ?_⟩
  · rw [log_trace, ledger_cons, hledger]
    exact h.fresh p v hv hun (hnewest _ v hnew)
  · rw [log_trace, ledger_cons, hledger]
    exact h.kept l v (hnewest l v hnew)
  · rw [log_trace, ledger_cons, hledger]
    exact h.no_stale
  · rw [log_trace, ledger_cons, hledger]
    exact if_pos hl

theorem Backed.trim {range : LPNRange} (h : Backed cfg [] s) :
    (s.trim cfg port range).All (Backed cfg []) := by
  have hstart := h.forget (e := .trim range) range.contains rfl
  rw [GenericCache.trim]
  split
  · refine Except.All.bind (Q := fun r : Bitset × GenericCache F => Backed cfg [] r.2 ∧
      ∀ l, range.contains l = true → (ledger cfg r.2.trace).newest l = none) ?_ ?_
    · refine Run.foldlM_all ?_ hstart
      rintro ⟨ioFlag, s⟩ pos - ⟨hs, hgone⟩
      rw [GenericCache.trimLine]
      split
      · next hrange =>
        refine (call_frame cfg port _ s [] pos).bind fun s₁ hs₁ => ?_
        obtain ⟨hback, -, -, htag, hledger⟩ := hs₁
        have hgone₁ : ∀ l, range.contains l = true → (ledger cfg s₁.trace).newest l = none := by
          rw [hledger]
          exact hgone
        exact ⟨(hback hs).forgotten hgone₁ (by rwa [htag]), hgone₁⟩
      · exact ⟨hs, hgone⟩
    · rintro ⟨_, s₁⟩ hs
      exact hs.1
  · exact hstart.1

theorem Backed.format {range : LPNRange} (h : Backed cfg [] s) :
    (s.format cfg port range).All (Backed cfg []) := by
  have hstart := h.forget (e := .format range) (fun l => decide (l ∈ formatted range))
    (by simp [Ledger.step])
  rw [GenericCache.format]
  refine Backed.call ?_ port
  split
  · have hloop := List.foldlRecOn (motive := fun s : GenericCache F => Backed cfg [] s ∧
      ∀ l, decide (l ∈ formatted range) = true → (ledger cfg s.trace).newest l = none)
      (formatted range) (formatLine cfg) hstart ?_
    · exact hloop.1
    · rintro s ⟨hs, hgone⟩ lca hlca
      rw [formatLine]
      split
      · next way hway =>
        obtain ⟨-, -, htag⟩ := getValidWay_eq_some hway
        exact ⟨hs.forgotten hgone (by rw [htag]; exact decide_eq_true hlca), hgone⟩
      · exact ⟨hs, hgone⟩
  · exact hstart.1

/-- A line may get new ticks and counts. -/
theorem Backed.restamp (h : Backed cfg [] s) (hv : line.valid = (s.cacheData pos).valid)
    (ht : line.tag = (s.cacheData pos).tag) (hd : line.dirty = (s.cacheData pos).dirty) :
    Backed cfg [] (s.putLine pos line) := by
  have hsame : ∀ p, ((s.putLine pos line).cacheData p).valid = (s.cacheData p).valid ∧
      ((s.putLine pos line).cacheData p).tag = (s.cacheData p).tag ∧
      ((s.putLine pos line).cacheData p).dirty = (s.cacheData p).dirty := by
    intro p
    by_cases hp : p = pos
    · subst hp
      rw [putLine_self]
      exact ⟨hv, ht, hd⟩
    · rw [putLine_of_ne hp]
      exact ⟨rfl, rfl, rfl⟩
  refine ⟨h.tagged.fewer fun p hpv => ⟨(hsame p).1 ▸ hpv, (hsame p).2.1⟩,
    fun p v hpv hun => ?_, fun l v hnew => ?_, h.no_stale⟩
  · rw [(hsame p).2.1]
    exact h.fresh p v ((hsame p).1 ▸ hpv) hun
  · rcases h.kept l v hnew with ⟨p, hpv, hun, hpt, hpd⟩ | hflash
    · exact .inl ⟨p, (hsame p).1.trans hpv, hun, (hsame p).2.1.trans hpt, (hsame p).2.2.trans hpd⟩
    · exact .inr hflash

theorem Backed.loadLine (h : Backed cfg ((lca, pos) :: R) s) :
    (s.loadLine cfg env port (lca, pos)).All (Backed cfg R) := by
  refine (h.call port).bind fun s₁ hs₁ => ?_
  have hfree := (hs₁.tagged.pending (lca, pos) List.mem_cons_self).2.2
  have hsettled : ∀ v, (ledger cfg s₁.trace).newest lca = some v →
      (ledger cfg s₁.trace).flash lca = some v := fun v hv =>
    hs₁.flash_eq (fun p hvalid hun htag => absurd htag (hfree p hvalid hun)) hv
  have hun : ∀ p, p ≠ pos → (Unreserved R p ↔ Unreserved ((lca, pos) :: R) p) := by
    intro p hp
    simp [Unreserved, hp.symm]
  refine hs₁.fill (e := .load pos lca) (x := (ledger cfg s₁.trace).flash lca)
    (hs₁.tagged.load _ rfl) rfl hun (fun p _ hvalid hunp => hfree p hvalid hunp)
      (fun _ hunp => ?_) rfl
    hsettled (.inr hsettled)
  exact absurd rfl (hunp (lca, pos) List.mem_cons_self)

/-- A line for an LCA that has none takes data that is in the FTL. -/
theorem Backed.fillEmpty {e : Event} {x : Option Nat} (h : Backed cfg [] s)
    (hnone : s.getValidWay cfg lca = none) (hway : way < cfg.waySize)
    (hempty : (s.cacheData (cfg.calcSetIndex lca, way)).valid = false) (htag : line.tag = lca)
    (hledger : (ledger cfg s.trace).step cfg e = { ledger cfg s.trace with
      held := Function.update (ledger cfg s.trace).held (cfg.calcSetIndex lca, way) x })
    (hx : ∀ v, (ledger cfg s.trace).newest lca = some v → x = some v) :
    Backed cfg [] ((s.putLine (cfg.calcSetIndex lca, way) line).log e) := by
  refine h.fill (h.tagged.store hnone hway htag) htag (fun _ _ => Iff.rfl)
    (fun p _ hvalid hun => h.tagged.tag_ne hnone hvalid hun) (fun hvalid => ?_) hledger hx
    (.inr fun v hv => h.flash_eq_of_none hnone hv)
  rw [hempty] at hvalid
  cases hvalid

/-- What the steps of the cache do to the host's data. -/
theorem backed_invariant (hcaching : cfg.useWriteCaching = true) :
    CacheInvariant cfg env port (writeBackConditions cfg) True (Backed (F := F) cfg)
      (Passed cfg) where
  count h := h.congr rfl rfl
  detect h := h.congr rfl rfl
  trigger h := h.congr rfl rfl
  aim h := h.congr rfl rfl
  touch h _ := h.restamp rfl rfl rfl
  evictLine h _ hrow hcond := h.evictLine hrow fun hdirty => by
    rcases hcond with rfl | hcond
    · exact unreserved_nil _
    · exact hcond hdirty
  reserve h hnone hR hway hempty := h.reserve hnone hR hway hempty
  load h := h.loadLine
  readThrough _ h := h.call port
  store h hnone hway hempty he := by
    rcases he with ⟨hdirty, rfl⟩ | rfl
    · refine h.hostWrite (h.tagged.store hnone hway rfl) rfl rfl hdirty
        (fun p _ hv => h.tagged.tag_ne hnone hv (unreserved_nil p)) fun hv => ?_
      rw [hempty] at hv
      cases hv
    · exact h.fillEmpty hnone hway hempty rfl rfl fun v hv => hv
  insert h hnone hway hempty :=
    h.fillEmpty (hnone trivial) hway hempty rfl rfl fun v hv =>
      h.flash_eq_of_none (hnone trivial) hv
  insert_fresh _ h := h
  overwrite h hway := by
    obtain ⟨-, hv, ht⟩ := getValidWay_eq_some hway
    refine h.hostWrite (h.tagged.fewer (fewer_putLine fun _ => ⟨hv, rfl⟩)) ht hv rfl
      (fun p hp hpv hpt => ?_) fun _ => ht
    exact hp (h.tagged.eq_of_tag hway hpv hpt)
  writeThrough _ h := h.writeThrough
  pass_miss h hnone := h.backed fun pos hv => h.tagged.tag_ne hnone hv (unreserved_nil pos)
  pass_hit h hway := h.hit hway (getValidWay_eq_some hway).2.2
  writeUncached hoff h := by
    rw [hcaching] at hoff
    cases hoff
  rewrite h hnone := h.rewrite (hnone trivial)
  flushLine h _ hsize hmeets := h.flushLine hsize hmeets
  trim h := h.trim
  format h := h.format

/-- Writes to more pages than the cache has lines, a read, a flush and a trim. -/
def durableCalls : List Op :=
  [.write (.line 1), .write (.line 2), .write (.line 3), .read (.line 1), .flush ⟨1, 1⟩,
    .write (.line 1), .trim ⟨3, 1⟩, .read (.line 2)]

/-- A page written and flushed three times, in a cache of two lines. -/
def revertingCalls : List Op :=
  [.write (.line 1), .flush ⟨1, 1⟩, .write (.line 1), .flush ⟨1, 1⟩, .write (.line 1),
    .flush ⟨1, 1⟩]

end SimpleSSD.ICL
