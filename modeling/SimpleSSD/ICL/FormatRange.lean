import SimpleSSD.ICL.Trim
import SimpleSSD.ICL.WriteBack

/-!
# The range of a format (icl/generic_cache.cc:2374–2399)

`format` invalidates the LCAs of its range in the cache and then formats a range of
superpages in the FTL. First superpage and number of superpages are converted each for
itself, so the range is right only when the units in front of the first LCA in its superpage
and the units behind the last whole superpage fit into one superpage; and the number of
superpages of an empty range is that of all of them.

In the cache one line is invalidated for each LCA, the first that is found.
-/

namespace SimpleSSD.ICL

namespace GenericCache

variable {F : Type} {cfg : Config} {env : Env} {port : FTLPort F} {range : LPNRange}
  {s s' : GenericCache F} {lca : Nat}

/-! ### Superpages -/

/-- The superpages of a range of LCAs. -/
theorem exists_div_eq_iff {l a n p : Nat} (hl : 0 < l) (hn : 0 < n) :
    (∃ lca, (a ≤ lca ∧ lca < a + n) ∧ lca / l = p) ↔ a / l ≤ p ∧ p ≤ (a + (n - 1)) / l := by
  constructor
  · rintro ⟨lca, ⟨hle, hlt⟩, rfl⟩
    exact ⟨Nat.div_le_div_right hle, Nat.div_le_div_right (by omega)⟩
  · rintro ⟨hle, hge⟩
    -- the first LCA of the superpage, unless the range begins within it
    refine ⟨max a (p * l), ⟨le_max_left _ _, ?_⟩, ?_⟩
    · have : p * l ≤ a + (n - 1) := (Nat.le_div_iff_mul_le hl).mp hge
      omega
    · rcases Nat.le_total a (p * l) with h | h
      · rw [max_eq_right h]
        exact Nat.mul_div_cancel p hl
      · rw [max_eq_left h]
        exact Nat.le_antisymm hle ((Nat.le_div_iff_mul_le hl).mpr h)

/-- The range of superpages that `format` gives to the FTL. -/
def superpageRange (cfg : Config) (range : LPNRange) : LPNRange :=
  ⟨range.slpn / cfg.lineCountInSuperPage,
    ((range.nlp + (2 ^ 64 - 1)) % 2 ^ 64 / cfg.lineCountInSuperPage + 1) % 2 ^ 64⟩

/-- The superpages of this range are those that the range of LCAs meets. -/
def ExactRange (cfg : Config) (range r : LPNRange) : Prop :=
  ∀ lpn, InRange r lpn ↔ ∃ lca, InRange range lca ∧ lca / cfg.lineCountInSuperPage = lpn

/-- An empty range of single-unit superpages, or units in front and behind that fit into one
superpage. -/
def Converts (cfg : Config) (range : LPNRange) : Prop :=
  if range.nlp = 0 then cfg.lineCountInSuperPage = 1
  else range.slpn % cfg.lineCountInSuperPage + (range.nlp - 1) % cfg.lineCountInSuperPage <
    cfg.lineCountInSuperPage

instance (cfg : Config) (range : LPNRange) : Decidable (Converts cfg range) :=
  inferInstanceAs (Decidable (ite _ _ _))

theorem exactRange_iff (hnlp : range.nlp < 2 ^ 64) :
    ExactRange cfg range (superpageRange cfg range) ↔ Converts cfg range := by
  have hl := cfg.lineCountInSuperPage_pos
  rw [ExactRange, Converts, superpageRange]
  generalize cfg.lineCountInSuperPage = l at *
  obtain ⟨slpn, nlp⟩ := range
  dsimp only [InRange] at *
  rcases Nat.eq_zero_or_pos nlp with rfl | hpos
  · rw [if_pos rfl]
    constructor
    · intro h
      by_contra hne
      -- the number of superpages is neither 0 nor wraps to 0
      have hlt : (2 ^ 64 - 1) / l + 1 < 2 ^ 64 :=
        Nat.succ_lt_of_lt_pred (Nat.div_lt_self (by decide) (by omega))
      obtain ⟨lca, hlca, -⟩ := (h (slpn / l)).mp ⟨le_rfl, by
        rw [Nat.zero_add, Nat.mod_eq_of_lt (by omega : 2 ^ 64 - 1 < 2 ^ 64), Nat.mod_eq_of_lt hlt]
        exact Nat.lt_add_of_pos_right (Nat.succ_pos _)⟩
      omega
    · rintro rfl lpn
      constructor
      · intro h
        omega
      · rintro ⟨lca, hlca, -⟩
        omega
  · rw [if_neg hpos.ne']
    have hcount : ((nlp + (2 ^ 64 - 1)) % 2 ^ 64 / l + 1) % 2 ^ 64 = (nlp - 1) / l + 1 := by
      rw [show (nlp + (2 ^ 64 - 1)) % 2 ^ 64 = nlp - 1 by omega]
      have := Nat.div_le_self (nlp - 1) l
      exact Nat.mod_eq_of_lt (by omega)
    have hsplit := Nat.add_div (a := slpn) (b := nlp - 1) hl
    simp only [exists_div_eq_iff hl hpos, hcount, hsplit]
    constructor
    · intro h
      by_contra hge
      have := (h (slpn / l + (nlp - 1) / l + 1)).mpr
      rw [if_pos (by omega)] at this
      omega
    · intro hlt lpn
      rw [if_neg (by omega)]
      omega

/-! ### Lines -/

/-- No two ways of the set hold the LCA. -/
def OneWay (cfg : Config) (s : GenericCache F) (lca : Nat) : Prop :=
  ∀ way < cfg.waySize, ∀ way' < cfg.waySize,
    (s.cacheData (cfg.calcSetIndex lca, way)).valid = true →
    (s.cacheData (cfg.calcSetIndex lca, way)).tag = lca →
    (s.cacheData (cfg.calcSetIndex lca, way')).valid = true →
    (s.cacheData (cfg.calcSetIndex lca, way')).tag = lca → way = way'

theorem OneWay.fewer (h : OneWay cfg s lca) (hf : s.Fewer s') : OneWay cfg s' lca := by
  intro way hway way' hway' hv ht hv' ht'
  obtain ⟨hv₀, ht₀⟩ := hf _ hv
  obtain ⟨hv₀', ht₀'⟩ := hf _ hv'
  exact h way hway way' hway' hv₀ (ht₀.symm.trans ht) hv₀' (ht₀'.symm.trans ht')

theorem foldl_formatLine_fewer (cfg : Config) (lcas : List Nat) (s : GenericCache F) :
    s.Fewer (lcas.foldl (formatLine cfg) s) := by
  refine List.foldlRecOn _ _ (.refl s) fun s₁ h₁ lca _ => h₁.trans ?_
  rw [formatLine]
  split
  · exact fewer_putLine fun hv => by cases hv
  · exact .refl s₁

/-- The lines of other LCAs are left alone. -/
theorem formatLine_of_ne (cfg : Config) {other : Nat} {pos : Nat × Nat}
    (h : (s.cacheData pos).tag ≠ other) :
    (s.formatLine cfg other).cacheData pos = s.cacheData pos := by
  rw [formatLine]
  split
  · next way hway =>
    refine putLine_of_ne fun heq => ?_
    rw [heq] at h
    exact h (getValidWay_eq_some hway).2.2
  · rfl

theorem formatLine_self (h : OneWay cfg s lca) :
    (s.formatLine cfg lca).getValidWay cfg lca = none := by
  rw [formatLine]
  split
  · next way hway =>
    obtain ⟨hlt, hv, ht⟩ := getValidWay_eq_some hway
    refine getValidWay_eq_none.mpr fun way' hlt' hv' ht' => ?_
    by_cases heq : way' = way
    · subst heq
      rw [invalidateLine, putLine_self] at hv'
      cases hv'
    · rw [invalidateLine, putLine_of_ne fun hpos => heq (Prod.mk.inj hpos).2] at hv' ht'
      exact heq (h way' hlt' way hlt hv' ht' hv ht)
  · next hnone => exact hnone

theorem foldl_formatLine_of_notMem {lcas : List Nat} {pos : Nat × Nat} {s : GenericCache F}
    (h : (s.cacheData pos).tag ∉ lcas) :
    (lcas.foldl (formatLine cfg) s).cacheData pos = s.cacheData pos := by
  induction lcas generalizing s with
  | nil => rfl
  | cons other lcas ih =>
    obtain ⟨hne, hrest⟩ := List.ne_and_not_mem_of_not_mem_cons h
    have hline := formatLine_of_ne cfg hne
    rw [List.foldl_cons, ih (by rwa [hline]), hline]

/-- The loop leaves no line of an LCA iff there was no second one. -/
theorem foldl_formatLine_iff {lcas : List Nat} (hnodup : lcas.Nodup) (hmem : lca ∈ lcas)
    (s : GenericCache F) :
    (lcas.foldl (formatLine cfg) s).getValidWay cfg lca = none ↔ OneWay cfg s lca := by
  obtain ⟨before, behind, rfl⟩ := List.append_of_mem hmem
  obtain ⟨-, hnodup', hcross⟩ := List.nodup_append.mp hnodup
  have hbefore : lca ∉ before := fun h => hcross lca h lca List.mem_cons_self rfl
  have hbehind : lca ∉ behind := (List.nodup_cons.mp hnodup').1
  rw [List.foldl_append, List.foldl_cons]
  generalize hs₁ : before.foldl (formatLine cfg) s = s₁
  constructor
  · intro hnone way hway way' hway' hv ht hv' ht'
    by_contra hne
    -- of the two lines one is still valid when the loop has passed the LCA
    have hkept : ∀ w, (s.cacheData (cfg.calcSetIndex lca, w)).tag = lca →
        s₁.cacheData (cfg.calcSetIndex lca, w) = s.cacheData (cfg.calcSetIndex lca, w) := by
      intro w hw
      rw [← hs₁]
      exact foldl_formatLine_of_notMem (by rwa [hw])
    have hleft : ∃ w < cfg.waySize, ((s₁.formatLine cfg lca).cacheData
        (cfg.calcSetIndex lca, w)).valid = true ∧
        ((s₁.formatLine cfg lca).cacheData (cfg.calcSetIndex lca, w)).tag = lca := by
      rw [formatLine]
      split
      · next first _ =>
        by_cases hfirst : way = first
        · refine ⟨way', hway', ?_⟩
          rw [invalidateLine, putLine_of_ne fun hpos => hne (hfirst.trans
            (Prod.mk.inj hpos).2.symm), hkept way' ht']
          exact ⟨hv', ht'⟩
        · refine ⟨way, hway, ?_⟩
          rw [invalidateLine, putLine_of_ne fun hpos => hfirst (Prod.mk.inj hpos).2, hkept way ht]
          exact ⟨hv, ht⟩
      · refine ⟨way, hway, ?_⟩
        rw [hkept way ht]
        exact ⟨hv, ht⟩
    obtain ⟨w, hw, hvw, htw⟩ := hleft
    have hfinal : (behind.foldl (formatLine cfg) (s₁.formatLine cfg lca)).cacheData
        (cfg.calcSetIndex lca, w) = (s₁.formatLine cfg lca).cacheData (cfg.calcSetIndex lca, w) :=
      foldl_formatLine_of_notMem (by rwa [htw])
    refine getValidWay_eq_none.mp hnone w hw ?_ ?_
    · rw [hfinal]
      exact hvw
    · rw [hfinal]
      exact htw
  · intro hone
    have hone₁ : OneWay cfg s₁ lca := by
      rw [← hs₁]
      exact hone.fewer (foldl_formatLine_fewer cfg before s)
    exact (foldl_formatLine_fewer cfg behind _).getValidWay (formatLine_self hone₁)

/-- The LCAs of a range of 64 bits, each once. -/
theorem mem_formatted (hlca : lca < 2 ^ 64) (hin : InRange range lca) : lca ∈ formatted range := by
  obtain ⟨hle, hlt⟩ := hin
  refine List.mem_map.mpr ⟨lca - range.slpn, List.mem_range.mpr (by omega), ?_⟩
  rw [Nat.add_sub_cancel' hle, Nat.mod_eq_of_lt hlca]

theorem nodup_formatted (hnlp : range.nlp < 2 ^ 64) : (formatted range).Nodup := by
  refine List.Nodup.map_on (fun i hi j hj heq => ?_) List.nodup_range
  rw [List.mem_range] at hi hj
  omega

/-! ### Runs -/

/-- No line is valid. -/
def Empty (s : GenericCache F) : Prop := ∀ pos, (s.cacheData pos).valid = false

theorem Empty.call (hs : s.Empty) (op : FTL.Op) : (s.call cfg port op).All Empty := by
  refine (call_all cfg port op s).mono ?_
  rintro s' ⟨_, _, -, hmarked⟩ pos
  rw [hmarked.valid]
  exact hs pos

theorem Empty.writeDirect (hs : s.Empty) (direct : Bool) (e : Event) (lca : Nat) :
    (s.writeDirect cfg port direct e lca).All Empty := by
  rw [GenericCache.writeDirect]
  split
  · exact Empty.call (s := s.log e) hs _
  · exact hs

/-- Without caching no line ever is valid. -/
theorem run_uncached {pFTL : F} {calls : List (Nat × Op)}
    (hoff : ¬ (cfg.useReadCaching || cfg.useWriteCaching) = true)
    (h : run cfg env port (.init pFTL) calls = .ok s) : s.Empty := by
  have hread : ¬ cfg.useReadCaching = true := fun h => hoff (by rw [h, Bool.true_or])
  have hwrite : ¬ cfg.useWriteCaching = true := fun h => hoff (by rw [h, Bool.or_true])
  refine Run.foldlM_inv (I := Empty) (fun s call s' hs hexec => ?_) (fun _ => rfl) h
  obtain ⟨n, op⟩ := call
  refine Except.All.of_ok (Q := Empty) ?_ hexec
  rw [Op.exec]
  dsimp only
  have hs₀ : Empty { s with iclCount := n } := hs
  generalize ({ s with iclCount := n } : GenericCache F) = s₀ at hs₀ ⊢
  cases op with
  | read req =>
    refine Except.All.map ?_
    rw [read, if_neg hread]
    exact (hs₀.call _).bind fun s₁ hs₁ => hs₁
  | write req =>
    refine Except.All.map ?_
    rw [write]
    refine (hs₀.writeDirect _ _ _).bind fun s₁ hs₁ => ?_
    rw [if_neg hwrite]
    exact (hs₁.writeDirect _ _ _).bind fun s₂ hs₂ => hs₂
  | flush range =>
    dsimp only
    rw [flush, if_neg hoff]
    exact hs₀
  | trim range =>
    dsimp only
    rw [trim]
    dsimp only
    rw [if_neg hoff]
    exact hs₀
  | format range =>
    dsimp only
    rw [format, if_neg hoff]
    exact Empty.call (s := s₀.log _) hs₀ _
  | writeVictimPagesToCache req =>
    refine Except.All.map ?_
    rw [writeVictimPagesToCache]
    refine (hs₀.writeDirect _ _ _).bind fun s₁ hs₁ => ?_
    rw [if_neg hwrite]
    exact (hs₁.writeDirect _ _ _).bind fun s₂ hs₂ => hs₂

/-- A format that has returned: the FTL was given the superpages that the range meets, and no
LCA of the range is valid. -/
structure FormatsExactly (cfg : Config) (range : LPNRange) (s' : GenericCache F) : Prop where
  superpages : ∃ r rest, s'.trace = .ftl (.format r) :: rest ∧ ExactRange cfg range r
  invalid : ∀ lca < 2 ^ 64, InRange range lca → s'.getValidWay cfg lca = none

/-- What a format leaves behind in the cache, and the range of superpages. -/
theorem format_spec (h : s.format cfg port range = .ok s') :
    (∃ rest, s'.trace = .ftl (.format (superpageRange cfg range)) :: rest) ∧
      ∀ lca, s'.getValidWay cfg lca = none ↔
        (if cfg.useReadCaching || cfg.useWriteCaching then
          (formatted range).foldl (formatLine cfg) (s.log (.format range))
        else s.log (.format range)).getValidWay cfg lca = none := by
  rw [format] at h
  obtain ⟨pFTL, _, -, hmarked⟩ := (call_all cfg port _ _).of_ok h
  refine ⟨⟨_, hmarked.trace⟩, fun lca => ?_⟩
  have hsame : ∀ pos : Nat × Nat, (s'.cacheData pos).valid = _ ∧ (s'.cacheData pos).tag = _ :=
    fun pos => ⟨hmarked.valid pos, hmarked.tag pos⟩
  rw [getValidWay_eq_none, getValidWay_eq_none]
  simp only [hsame]
  rfl

/-- An exact format has given the superpages of the range. -/
theorem FormatsExactly.converts (hexact : FormatsExactly cfg range s')
    (h : s.format cfg port range = .ok s') : ExactRange cfg range (superpageRange cfg range) := by
  obtain ⟨r, rest, htrace, hexact⟩ := hexact.superpages
  obtain ⟨⟨rest', htrace'⟩, -⟩ := format_spec h
  rw [htrace] at htrace'
  cases htrace'
  exact hexact

/-- Over every run: a format is exact iff its range converts and no LCA of it is held twice. -/
theorem format_exact_iff (cfg : Config) (env : Env) (port : FTLPort F) (pFTL : F)
    (calls : List (Nat × Op)) (range : LPNRange) (hnlp : range.nlp < 2 ^ 64)
    {s s' : GenericCache F} (hrun : run cfg env port (.init pFTL) calls = .ok s)
    (h : s.format cfg port range = .ok s') :
    FormatsExactly cfg range s' ↔
      Converts cfg range ∧ ∀ lca < 2 ^ 64, InRange range lca → OneWay cfg s lca := by
  obtain ⟨⟨rest, htrace⟩, hlines⟩ := format_spec h
  have hline : ∀ lca < 2 ^ 64, InRange range lca →
      (s'.getValidWay cfg lca = none ↔ OneWay cfg s lca) := by
    intro lca hlca hin
    rw [hlines]
    by_cases hon : (cfg.useReadCaching || cfg.useWriteCaching) = true
    · rw [if_pos hon]
      exact foldl_formatLine_iff (nodup_formatted hnlp) (mem_formatted hlca hin) _
    · rw [if_neg hon]
      have hempty := run_uncached hon hrun
      have hnot : ∀ way, ¬ (s.cacheData (cfg.calcSetIndex lca, way)).valid = true := by
        intro way
        rw [hempty]
        exact Bool.false_ne_true
      exact iff_of_true (getValidWay_eq_none.mpr fun way _ hv => absurd hv (hnot way))
        fun way _ _ _ hv => absurd hv (hnot way)
  rw [← exactRange_iff hnlp]
  constructor
  · intro hexact
    exact ⟨hexact.converts h,
      fun lca hlca hin => (hline lca hlca hin).mp (hexact.invalid lca hlca hin)⟩
  · rintro ⟨hexact, hone⟩
    exact ⟨⟨_, rest, htrace, hexact⟩,
      fun lca hlca hin => (hline lca hlca hin).mpr (hone lca hlca hin)⟩

/-- The small cache with lines of half a superpage. -/
def halves : Config :=
  { Config.small with
    ioUnitInPage := 2, useRandomIOTweak := true, ioUnitInPage_pos := Nat.two_pos
    setSize_pos := by decide }

/-- A run of calls on the cache of half superpages. -/
def halvesRun (calls : List Op) (pFTL : FTL.PageMapping) :
    Except Fault (GenericCache FTL.PageMapping) :=
  run halves .ticking (pageMapping (.pairedTweak 3) .zero) (.init pFTL)
    (calls.map fun op => (0, op))

/-- Two halves of superpage 1 are written and formatted. -/
theorem format_exact_halves : ∃ pFTL s s',
    FTL.PageMapping.init (.pairedTweak 3) .zero = .ok pFTL ∧
    halvesRun [.write ⟨0, 0, 2048, 2⟩, .write ⟨0, 0, 2048, 3⟩] pFTL = .ok s ∧
    s.format halves (pageMapping (.pairedTweak 3) .zero) ⟨2, 2⟩ = .ok s' ∧
    (FormatsExactly halves ⟨2, 2⟩ s' ↔
      Converts halves ⟨2, 2⟩ ∧ ∀ lca < 2 ^ 64, InRange ⟨2, 2⟩ lca → OneWay halves s lca) := by
  obtain ⟨pFTL, hinit, hrun⟩ := Except.exists_of_map
    (x := FTL.PageMapping.init (.pairedTweak 3) .zero)
    (p := fun pFTL =>
      (halvesRun [.write ⟨0, 0, 2048, 2⟩, .write ⟨0, 0, 2048, 3⟩] pFTL).map (fun s =>
        decide ((s.format halves (pageMapping (.pairedTweak 3) .zero) ⟨2, 2⟩).map
          (fun _ => true) = .ok true)) = .ok true)
    (by decide +kernel)
  obtain ⟨s, hs, hformat⟩ := Except.exists_of_map hrun
  obtain ⟨s', hs', -⟩ := Except.map_eq_ok.mp hformat
  exact ⟨pFTL, s, s', hinit, hs, hs',
    format_exact_iff halves .ticking (pageMapping (.pairedTweak 3) .zero) pFTL _ ⟨2, 2⟩ (by decide)
      hs hs'⟩

/-- A range with one half of each of two superpages formats the first of them, and an empty
range formats all. A page that has been inserted twice stays in the cache. -/
theorem format_not_exact :
    (∃ pFTL s, FTL.PageMapping.init (.pairedTweak 3) .zero = .ok pFTL ∧
      (GenericCache.init pFTL).format halves (pageMapping (.pairedTweak 3) .zero) ⟨1, 2⟩ = .ok s ∧
      ¬ FormatsExactly halves ⟨1, 2⟩ s) ∧
    (∃ pFTL s, FTL.PageMapping.init (.pairedTweak 3) .zero = .ok pFTL ∧
      (GenericCache.init pFTL).format halves (pageMapping (.pairedTweak 3) .zero) ⟨0, 0⟩ = .ok s ∧
      ¬ FormatsExactly halves ⟨0, 0⟩ s) ∧
    ∃ pFTL s s', smallDevice 4 = .ok pFTL ∧
      smallRun 4 [.write (.line 1), .writeVictimPagesToCache (.line 1)] pFTL = .ok s ∧
      s.format .small (smallPort 4) ⟨1, 1⟩ = .ok s' ∧ ¬ FormatsExactly .small ⟨1, 1⟩ s' := by
  refine ⟨?_, ?_, ?_⟩
  · obtain ⟨pFTL, hinit, hrun⟩ := Except.exists_of_map
      (x := FTL.PageMapping.init (.pairedTweak 3) .zero)
      (p := fun pFTL => ((GenericCache.init pFTL).format halves
        (pageMapping (.pairedTweak 3) .zero) ⟨1, 2⟩).map (fun _ => true) = .ok true)
      (by decide +kernel)
    obtain ⟨s, hs, -⟩ := Except.map_eq_ok.mp hrun
    refine ⟨pFTL, s, hinit, hs, fun h => ?_⟩
    have hlast : ¬ InRange (superpageRange halves ⟨1, 2⟩) 1 := by decide
    exact hlast ((h.converts hs 1).mpr ⟨2, by decide, by decide⟩)
  · obtain ⟨pFTL, hinit, hrun⟩ := Except.exists_of_map
      (x := FTL.PageMapping.init (.pairedTweak 3) .zero)
      (p := fun pFTL => ((GenericCache.init pFTL).format halves
        (pageMapping (.pairedTweak 3) .zero) ⟨0, 0⟩).map (fun _ => true) = .ok true)
      (by decide +kernel)
    obtain ⟨s, hs, -⟩ := Except.map_eq_ok.mp hrun
    refine ⟨pFTL, s, hinit, hs, fun h => ?_⟩
    obtain ⟨lca, ⟨hle, hlt⟩, -⟩ := (h.converts hs 0).mp (by decide)
    exact absurd (hle.trans_lt hlt) (by decide)
  · obtain ⟨pFTL, hinit, hrun⟩ := Except.exists_of_map (x := smallDevice 4)
      (p := fun pFTL =>
        (smallRun 4 [.write (.line 1), .writeVictimPagesToCache (.line 1)] pFTL).map (fun s =>
          decide ((s.format .small (smallPort 4) ⟨1, 1⟩).map (fun s' =>
            decide (s'.getValidWay .small 1 = some 1)) = .ok true)) = .ok true)
      (by decide +kernel)
    obtain ⟨s, hs, hformat⟩ := Except.exists_of_map hrun
    obtain ⟨s', hs', hvalid⟩ := Except.exists_of_map hformat
    refine ⟨pFTL, s, s', hinit, hs, hs', fun h => ?_⟩
    have hnone := h.invalid 1 (by decide) (by decide)
    rw [hvalid] at hnone
    cases hnone

end GenericCache

end SimpleSSD.ICL
