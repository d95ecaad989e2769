import SimpleSSD.FTL.FlashPaths
import SimpleSSD.FTL.TableBacked

/-!
# The flash operation discipline

Every call of a run takes the flash array along a path of `FlashArray.Step`: what it
reads has been programmed since the last erase, what it writes it has just
programmed, and all of it lies in the device (`run_disciplined`).

This needs conditions on the steps. A write of part of a page reads the rest from the
page that `table` names, and an entry made by this very write names none
(`ReadsOld`); `not_disciplined_partial` is such a write. A hit in a mapping cache may
be stale, on a read and on a write, and a collection may lose a page that is still
mapped, so that a later read meets a page that was erased.
-/

namespace SimpleSSD.FTL

namespace PageMapping

section Conditions

variable (cfg : Config) (req : Request) (s : PageMapping)

/-- The mapping caches give the page that `table` names, or one whose read is dropped
because its block is listed. -/
def ReadsTable : Prop :=
  cfg.ioUnitInPage = 1 → ∀ page ∈ s.cachedMapping cfg req.lpn,
    page.1 ∉ s.pool.erasedBlockId → s.lookup req.lpn = some page

instance : Decidable (s.ReadsTable cfg req) :=
  inferInstanceAs (Decidable (_ → ∀ page ∈ s.cachedMapping cfg req.lpn, _))

/-- Without the tweak, a write of part of a page finds the page mapped. -/
def ReadsOld : Prop :=
  cfg.randomIOTweak = false → req.ioFlag.all = false → (s.lookup req.lpn).isSome = true

instance : Decidable (s.ReadsOld cfg req) := inferInstanceAs (Decidable (_ → _ → _))

/-- With one mapping a page, a hit of the write in the mapping caches is harmless. -/
def HitsFirst : Prop := cfg.bitsetSize = 1 → s.WriteHitsFirst cfg req

instance : Decidable (s.HitsFirst cfg req) := inferInstanceAs (Decidable (_ → _))

end Conditions

end PageMapping

/-- A write hits the mapping caches harmlessly and has an old page if it needs one,
and a page scan loses no page. -/
@[reducible] def FlashConditions (cfg : Config) : StepConditions where
  write := fun _ req s => s.HitsFirst cfg req ∧ s.ReadsOld cfg req
  scan := PageMapping.ScanSpares cfg
  trim := fun _ _ => True
  format := fun _ _ => True

/-- The conditions under which a call keeps the discipline. -/
def Op.Disciplined (cfg : Config) (env : Env) (s : PageMapping) (call : World × Op) : Prop :=
  Op.Meets cfg env (FlashConditions cfg) s call ∧
    match call.2 with
    | .read req => s.ReadsTable cfg req
    | .write _ | .trim _ | .format _ | .undoCached _ => True

instance (cfg : Config) (env : Env) (s : PageMapping) (call : World × Op) :
    Decidable (Op.Disciplined cfg env s call) :=
  match call with
  | (_, .read _) => inferInstanceAs (Decidable (_ ∧ PageMapping.ReadsTable cfg _ s))
  | (_, .write _) => inferInstanceAs (Decidable (_ ∧ True))
  | (_, .trim _) => inferInstanceAs (Decidable (_ ∧ True))
  | (_, .format _) => inferInstanceAs (Decidable (_ ∧ True))
  | (_, .undoCached _) => inferInstanceAs (Decidable (_ ∧ True))

namespace PageMapping

open FlashArray (Path Step)

section Calls

variable {cfg : Config} {env : Env} {w : World} {req : Request} {s s' : PageMapping}

/-- What `table` names has been programmed. -/
theorem TableBacked.programmed (hs : s.TableBacked cfg) (hone : cfg.bitsetSize = 1) {l : Nat}
    {page : Nat × Nat} (h : s.lookup l = some page) : (page, 0) ∈ s.pool.programmed cfg :=
  BlockPool.programmed_of_content (by omega) (hs.stored hone l page h)

/-- Reads. -/
theorem TableBacked.read (hs : s.TableBacked cfg) (hread : s.ReadsTable cfg req)
    (h : s.read cfg env w req = .ok s') :
    s'.TableBacked cfg ∧ Path cfg (s.flash cfg) (s'.flash cfg) := by
  rw [PageMapping.read] at h
  split at h
  · obtain ⟨htable, hcontent⟩ := readInternal_frame h
    have hwf := ((BlockPool.wellFormed_access cfg).touch.readInternal hs.wf).of_ok h
    refine ⟨hs.congr hwf htable hcontent,
      readInternal_path hs.wf (fun hone page hpage _ hmem => ?_) h⟩
    have hlookup : s.lookup req.lpn = some page := by
      rcases Option.or_eq_some_iff.mp hpage with hcached | ⟨-, htable⟩
      · exact hread hone page hcached hmem
      · exact htable
    exact hs.programmed (Config.bitsetSize_one hone) hlookup
  · cases h
    exact ⟨hs, .refl⟩

/-- The end of a write: the victims that `selectVictimBlock` picks are collected. -/
theorem TableBacked.collectIfNeeded (hs : s.TableBacked cfg) (hpages : 0 < cfg.pagesInBlock)
    (hspares : s.pool.freeBlockRatio cfg < cfg.gcThreshold →
      (s.selectVictimBlock cfg env).All fun r => r.2.Scans cfg env (ScanSpares cfg) w r.1)
    (h : s.collectIfNeeded cfg env w true = .ok s') :
    s'.TableBacked cfg ∧ Path cfg (s.flash cfg) (s'.flash cfg) := by
  rcases collectIfNeeded_cases h with rfl | ⟨victims, hratio, hselect, h⟩
  · exact ⟨hs, .refl⟩
  · have hs₁ : TableBacked cfg { s with pool := { s.pool with bReclaimMore := false } } :=
      hs.congr ((BlockPool.wellFormed_invariant cfg env).select hs.wf) rfl rfl
    have hpath := doGarbageCollection_path (by exact hs₁.wf) (fun _ => hpages) h
    exact ⟨hs₁.doGarbageCollection ((hspares hratio).of_ok hselect) h, hpath⟩

theorem TableBacked.write (hs : s.TableBacked cfg)
    (hmeets : 0 < req.ioFlag.count → (s.HitsFirst cfg req ∧ s.ReadsOld cfg req) ∧
      (s.programPage cfg env w req true).All fun s₁ =>
        s₁.pool.freeBlockRatio cfg < cfg.gcThreshold →
          (s₁.selectVictimBlock cfg env).All fun r => r.2.Scans cfg env (ScanSpares cfg) w r.1)
    (h : s.write cfg env w req = .ok s') :
    s'.TableBacked cfg ∧ Path cfg (s.flash cfg) (s'.flash cfg) := by
  rw [PageMapping.write] at h
  split at h
  · next hcount =>
    obtain ⟨⟨hhit, hold⟩, hgc⟩ := hmeets hcount
    rw [writeInternal, Except.bind_eq_ok] at h
    obtain ⟨s₁, hprog, h⟩ := h
    have hwant := exists_wants hcount (programPage_size hs.wf hprog)
    have hs₁ := hs.programPage hwant hhit (.inl rfl) hprog
    have hpath : Path cfg (s.flash cfg) (s₁.flash cfg) := by
      refine programPage_path hs.wf (fun htweak hall => ?_) hprog
      have hone : cfg.bitsetSize = 1 := by simp [Config.bitsetSize, htweak]
      obtain ⟨page, hpage⟩ := Option.isSome_iff_exists.mp (hold htweak hall)
      exact ⟨hhit hone, page, hpage, hs.programmed hone hpage⟩
    obtain ⟨hs', hpath'⟩ := hs₁.collectIfNeeded (hs.pages_of_programPage hwant hprog)
      (hgc.of_ok hprog) h
    exact ⟨hs', hpath.trans hpath'⟩
  · cases h
    exact ⟨hs, .refl⟩

/-- Calls that only touch blocks and reach no flash. -/
theorem path_of_touched (hflash : s'.pool.flash cfg [] s.trace = s.flash cfg)
    (htrace : ∃ events, s'.trace = events ++ s.trace ∧ ∀ e ∈ events, e.palRequest = none) :
    Path cfg (s.flash cfg) (s'.flash cfg) := by
  obtain ⟨events, htrace, hevents⟩ := htrace
  have hothers : Path cfg (s.flash cfg) { s.flash cfg with trace := events ++ s.trace } :=
    Path.others (a := s.flash cfg) hevents
  have hend : s'.flash cfg = { s.flash cfg with trace := events ++ s.trace } := by
    rw [← hflash, flash, htrace]
    rfl
  rw [hend]
  exact hothers

theorem trim_path (h : s.trim cfg req = .ok s') :
    Path cfg (s.flash cfg) (s'.flash cfg) := by
  have hflash := ((BlockPool.describes_touch (s.flash cfg)).trim (s := s) rfl).of_ok h
  refine path_of_touched hflash ?_
  rcases trim_cases h with ⟨-, rfl⟩ | ⟨vec, pool, -, -, rfl⟩
  · exact ⟨[], rfl, by simp⟩
  · exact ⟨[.dram], rfl, by simp [Event.palRequest]⟩

theorem undoCached_path {lpn : Nat} (h : s.undoCached cfg lpn = .ok s') :
    Path cfg (s.flash cfg) (s'.flash cfg) := by
  have hflash := ((BlockPool.describes_touch (s.flash cfg)).undoCached (s := s) rfl).of_ok h
  refine path_of_touched hflash ?_
  obtain ⟨pool, rfl⟩ := undoCached_pool h
  exact ⟨[], rfl, by simp⟩

/-- The loop of `format` over the entries calls no device. -/
theorem formatEntries_path {range : LPNRange} {acc : PageMapping × List Nat}
    (h : s.table.entries.foldlM (formatEntry cfg range) (s, []) = .ok acc) :
    Path cfg (s.flash cfg) (acc.1.flash cfg) := by
  have hflash : acc.1.pool.flash cfg [] s.trace = s.flash cfg ∧ acc.1.trace = s.trace := by
    refine Run.foldlM_inv (I := fun acc : PageMapping × List Nat =>
      acc.1.pool.flash cfg [] s.trace = s.flash cfg ∧ acc.1.trace = s.trace)
      (fun acc entry acc' hacc hstep => ?_) ⟨rfl, rfl⟩ h
    refine ⟨((BlockPool.describes_touch (s.flash cfg)).formatEntry acc entry hacc.1).of_ok hstep,
      ?_⟩
    rcases formatEntry_cases hstep with ⟨-, rfl⟩ | ⟨pool, -, -, rfl⟩
    · exact hacc.2
    · exact hacc.2
  exact path_of_touched hflash.1 ⟨[], hflash.2, by simp⟩

/-- One call keeps the invariant and drives the flash by the rules. -/
theorem TableBacked.exec (hs : s.TableBacked cfg) {call : World × Op}
    (hcall : Op.Disciplined cfg env s call) (h : Op.exec cfg env s call = .ok s') :
    s'.TableBacked cfg ∧ Path cfg (s.flash cfg) (s'.flash cfg) := by
  obtain ⟨w, op⟩ := call
  obtain ⟨hmeets, hread⟩ := hcall
  have hs₀ : (s.log .request).TableBacked cfg := hs.congr hs.wf rfl rfl
  have hpath₀ : Path cfg (s.flash cfg) ((s.log .request).flash cfg) := (Quiet.log rfl s).path []
  have hrest : s'.TableBacked cfg ∧ Path cfg ((s.log .request).flash cfg) (s'.flash cfg) := by
    cases op with
    | read req => exact hs₀.read hread h
    | write req => exact hs₀.write hmeets h
    | trim req => exact ⟨hs₀.trim h, trim_path h⟩
    | format range =>
      rw [Op.exec] at h
      simp only [PageMapping.format] at h
      rw [Except.bind_eq_ok] at h
      obtain ⟨acc, hentries, h⟩ := h
      obtain ⟨hacc, hpages⟩ := hs₀.formatEntries hentries
      refine ⟨hacc.doGarbageCollection (hmeets.2.of_ok hentries) h,
        (formatEntries_path hentries).trans (doGarbageCollection_path hacc.wf (fun hne => ?_) h)⟩
      -- a victim comes from an entry
      refine hpages fun hnil => hne ?_
      rw [hnil]
      rfl
    | undoCached lpn =>
      obtain ⟨htable, hcontent⟩ := undoCached_frame h
      have hwf : s'.pool.WellFormed cfg :=
        ((BlockPool.wellFormed_access cfg).touch.undoCached (s := s.log .request) hs.wf).of_ok h
      exact ⟨hs₀.congr hwf htable hcontent, undoCached_path h⟩
  exact ⟨hrest.1, hpath₀.trans hrest.2⟩

end Calls

end PageMapping

section Reachable

variable {cfg : Config} {env : Env}

/-- A run whose calls meet the conditions drives the flash by the rules: from the
array that the metadata describe at its start to the one they describe at its end. -/
theorem run_disciplined (warmUp : Option World) (calls : List (World × Op))
    (s₀ s : PageMapping) (hstart : PageMapping.start cfg env warmUp = .ok s₀)
    (hcalls : Run.Along (Op.exec cfg env) (Op.Disciplined cfg env) s₀ calls)
    (hrun : run cfg env s₀ calls = .ok s) : FlashArray.Path cfg (s₀.flash cfg) (s.flash cfg) := by
  have hend : s.TableBacked cfg ∧ FlashArray.Path cfg (s₀.flash cfg) (s.flash cfg) := by
    refine hcalls.foldlM_inv (I := fun s =>
      s.TableBacked cfg ∧ FlashArray.Path cfg (s₀.flash cfg) (s.flash cfg))
      (fun s call s' hs hcall h => ?_) ⟨PageMapping.start_backed hstart, .refl⟩ hrun
    obtain ⟨hs', hpath⟩ := hs.1.exec hcall h
    exact ⟨hs', hs.2.trans hpath⟩
  exact hend.2

/-- The small device with two I/O units a page. -/
def Config.paired (n : Nat) : Config := { Config.small n with ioUnitInPage := 2 }

/-- Both units of a page of this device. -/
def Request.both (lpn : Nat) : Request := ⟨lpn, (Bitset.new 2).setAll⟩

/-- The first unit of a page of this device. -/
def Request.first (lpn : Nat) : Request := ⟨lpn, (Bitset.new 2).insert 0⟩

/-- A page is written, then one unit of it, which reads the other unit back. -/
theorem run_disciplined_partial : ∃ s₀ s, PageMapping.start (.paired 3) .zero none = .ok s₀ ∧
    run (.paired 3) .zero s₀ (calls [.write (.both 0), .write (.first 0), .trim (.both 0)]) =
      .ok s ∧ FlashArray.Path (.paired 3) (s₀.flash (.paired 3)) (s.flash (.paired 3)) := by
  obtain ⟨s₀, hstart, hcalls, hrun⟩ := Except.exists_of_map
    (p := fun s₀ => Run.Along (Op.exec (.paired 3) .zero) (Op.Disciplined (.paired 3) .zero) s₀
        (calls [.write (.both 0), .write (.first 0), .trim (.both 0)]) ∧
      (run (.paired 3) .zero s₀ (calls [.write (.both 0), .write (.first 0), .trim (.both 0)])).map
        (fun _ => decide True) = .ok true)
    (by decide +kernel : (PageMapping.start (.paired 3) .zero none).map _ = .ok true)
  obtain ⟨s, hs, -⟩ := Except.exists_of_map hrun
  exact ⟨s₀, s, hstart, hs, run_disciplined none _ s₀ s hstart hcalls hs⟩

/-- The first write of a page, of one unit: the other unit is read from the entry that
the write has just made, which names the block behind the last one. -/
theorem not_disciplined_partial : ∃ s₀ s, PageMapping.start (.paired 3) .zero none = .ok s₀ ∧
    run (.paired 3) .zero s₀ (calls [.write (.first 0)]) = .ok s ∧
    ¬ FlashArray.Path (.paired 3) (s₀.flash (.paired 3)) (s.flash (.paired 3)) := by
  obtain ⟨s₀, hstart, htrace, hrun⟩ := Except.exists_of_map
    (p := fun s₀ => (∀ e ∈ s₀.trace, ∀ r ∈ e.palRequest,
        (Config.paired 3).InRange (r.blockIndex, r.pageIndex)) ∧
      (run (.paired 3) .zero s₀ (calls [.write (.first 0)])).map (fun s =>
        decide (∃ e ∈ s.trace, ∃ r ∈ e.palRequest,
          ¬ (Config.paired 3).InRange (r.blockIndex, r.pageIndex))) = .ok true)
    (by decide +kernel : (PageMapping.start (.paired 3) .zero none).map _ = .ok true)
  obtain ⟨s, hs, e, he, r, hr, hrange⟩ := Except.exists_of_map hrun
  exact ⟨s₀, s, hstart, hs, fun hpath => hrange (hpath.inRange htrace e he r hr)⟩

end Reachable

end SimpleSSD.FTL
