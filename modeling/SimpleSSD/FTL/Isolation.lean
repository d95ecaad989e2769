import SimpleSSD.FTL.Bijection

/-!
# A write changes one entry

A write that triggers no collection should set the entry of its own page, leave
the page that this entry named invalid, and touch no other entry and no valid
bit of a page that another entry names (`Isolates`). In a run that has kept the
mapping a bijection, `WriteHitsFirst` is exactly the condition for that.
-/

namespace SimpleSSD.FTL

/-- The valid bit of a flash page of a block in use. -/
def BlockPool.Valid (p : BlockPool) (page : Nat × Nat) : Prop :=
  ∃ b, p.blocks.find? page.1 = some b ∧ (page.2, 0) ∈ b.validBits

theorem BlockPool.valid_iff {p : BlockPool} {page : Nat × Nat} :
    p.Valid page ↔ ∃ l, p.content page = some l := by
  simp only [Valid, content, Option.bind_eq_some_iff, Block.contentAt]
  constructor
  · rintro ⟨b, hb, hvalid⟩
    exact ⟨_, b, hb, if_pos hvalid⟩
  · rintro ⟨l, b, hb, hl⟩
    refine ⟨b, hb, ?_⟩
    by_contra hinvalid
    rw [if_neg hinvalid] at hl
    cases hl

theorem BlockPool.not_valid_iff {p : BlockPool} {page : Nat × Nat} :
    ¬ p.Valid page ↔ p.content page = none := by
  rw [valid_iff, ← Option.ne_none_iff_exists', not_not]

namespace PageMapping

/-- The write leaves enough free blocks to collect no garbage at its end. -/
def TriggersNoGC (cfg : Config) (env : Env) (w : World) (req : Request) (s : PageMapping) : Prop :=
  (s.programPage cfg env w req true).All fun s₁ =>
    ¬ s₁.pool.freeBlockRatio cfg < cfg.gcThreshold

instance (cfg : Config) (env : Env) (w : World) (req : Request) (s : PageMapping) :
    Decidable (s.TriggersNoGC cfg env w req) :=
  inferInstanceAs (Decidable ((s.programPage cfg env w req true).All _))

/-- The entry of the page written names the one page that the call programs, the
page that it named before is invalid, and the other entries and the valid bits
of the pages that they name are as before. -/
structure Isolates (cfg : Config) (s : PageMapping) (req : Request) (s' : PageMapping) : Prop where
  named : ∃ events new, s'.trace = events ++ s.trace ∧
    palWrites events = [⟨new.1, new.2, palFlag cfg req.ioFlag 0⟩] ∧
    s'.table.find? req.lpn = some [new]
  old : ∀ page, s.table.find? req.lpn = some [page] → ¬ s'.pool.Valid page
  others : ∀ l, l ≠ req.lpn → s'.table.find? l = s.table.find? l ∧
    ∀ page, s.table.find? l = some [page] → (s'.pool.Valid page ↔ s.pool.Valid page)

section Isolation

variable {cfg : Config} {env : Env} {w : World} {req : Request} {key : Nat} {new : Nat × Nat}
  {s s' : PageMapping}

/-- The entry of a page that is programmed under a harmless hit is isolated. -/
theorem Programs.isolates (hone : cfg.ioUnitInPage = 1) (hs : s.Mapped cfg)
    (hhit : WriteHitsFirst cfg req s) (hp : Programs cfg s req key new s')
    {events : List Event} (htrace : s'.trace = events ++ s.trace)
    (hwrites : palWrites events = [⟨new.1, new.2, palFlag cfg req.ioFlag 0⟩]) :
    Isolates cfg s req s' := by
  obtain rfl : key = req.lpn := by
    have hkey := hp.key_eq
    rw [hhit.writtenKey_eq] at hkey
    exact (Option.some.inj hkey).symm
  have hstores : ∀ l page, s.table.find? l = some [page] → s.pool.content page = some l :=
    fun l page h => (hs.linked l page).mp ((find?_of_lookup hone hs.shape).mpr h)
  -- no entry names the page programmed: it stored nothing
  have hnew : ∀ l page, s.table.find? l = some [page] → page ≠ new := by
    rintro l page h rfl
    have hfresh := hp.fresh
    rw [hstores l page h] at hfresh
    cases hfresh
  have hcontent : ∀ page, page ≠ new →
      s'.pool.content page = clear s.pool.content (s.lookup req.lpn) page := by
    intro page hne
    rw [hp.content, Function.update_of_ne hne, hhit.readMapping_eq]
  refine ⟨⟨events, new, htrace, hwrites, by rw [hp.table, if_pos rfl]⟩, fun page hpage => ?_,
    fun l hl => ⟨by rw [hp.table, if_neg hl], fun page hpage => ?_⟩⟩
  · rw [BlockPool.not_valid_iff, hcontent page (hnew _ _ hpage),
      (find?_of_lookup hone hs.shape).mpr hpage, clear_some, Function.update_self]
  · have hsame : s'.pool.content page = s.pool.content page := by
      rw [hcontent page (hnew _ _ hpage), clear, if_neg]
      intro hold
      exact hl (hs.linked.injective ((find?_of_lookup hone hs.shape).mpr hpage) hold)
    rw [BlockPool.valid_iff, BlockPool.valid_iff, hsame]

/-- A write that is isolated has hit harmlessly: any other entry set or any other
page invalidated shows. -/
theorem Programs.hitsFirst (hone : cfg.ioUnitInPage = 1) (hs : s.Mapped cfg)
    (hp : Programs cfg s req key new s') {events : List Event}
    (htrace : s'.trace = events ++ s.trace)
    (hwrites : palWrites events = [⟨new.1, new.2, palFlag cfg req.ioFlag 0⟩])
    (hi : Isolates cfg s req s') : WriteHitsFirst cfg req s := by
  intro page hpage
  have hstores : ∀ l page, s.table.find? l = some [page] → s.pool.content page = some l :=
    fun l page h => (hs.linked l page).mp ((find?_of_lookup hone hs.shape).mpr h)
  have hnamed : s'.table.find? req.lpn = some [new] := by
    obtain ⟨events', new', htrace', hwrites', hnamed⟩ := hi.named
    obtain rfl : events' = events := List.append_cancel_right (htrace'.symm.trans htrace)
    rw [hwrites] at hwrites'
    have hsame := List.singleton_inj.mp hwrites'
    rw [PAL.Request.mk.injEq] at hsame
    obtain rfl : new' = new := Prod.ext hsame.1.symm hsame.2.1.symm
    exact hnamed
  have hkey : req.lpn = key := by
    by_contra hne
    rw [hp.table, if_neg hne] at hnamed
    have hfresh := hp.fresh
    rw [hstores _ _ hnamed] at hfresh
    cases hfresh
  subst hkey
  -- the entry set is the first one, so the page found in the caches must be its page
  have hbegin := hp.key_eq
  rw [writtenKey, hpage, Option.isSome_some, if_pos rfl] at hbegin
  obtain ⟨⟨l, vec⟩, hfirst, rfl⟩ := Option.map_eq_some_iff.mp hbegin
  have hvec := UnorderedMap.find?_of_begin? hfirst
  have hlen : vec.length = 1 := by rw [hs.shape _ _ hvec, Config.bitsetSize_one hone]
  obtain ⟨old, rfl⟩ := List.length_eq_one_iff.mp hlen
  have hfound : s.readMapping cfg req.lpn 0 = some page := by
    rw [readMapping, hpage]
    rfl
  obtain rfl : old = page := by
    by_contra hne
    have hinvalid := BlockPool.not_valid_iff.mp (hi.old old hvec)
    have hnew : old ≠ new := by
      rintro rfl
      have hfresh := hp.fresh
      rw [hstores _ _ hvec] at hfresh
      cases hfresh
    rw [hp.content, hfound, Function.update_of_ne hnew, clear_some, Function.update_of_ne hne,
      hstores _ _ hvec] at hinvalid
    cases hinvalid
  exact hfirst

end Isolation

end PageMapping

section Reachable

variable {cfg : Config} {env : Env}

/-- With one I/O unit a page, after a run whose steps meet `MappingConditions`, a
write that triggers no collection is isolated exactly when its page is in no
mapping cache, or the first entry of `table` is its own and names the page of
the hit. -/
theorem write_isolated (hone : cfg.ioUnitInPage = 1) (warmUp : Option World)
    (calls : List (World × Op)) (s₀ s s' : PageMapping)
    (hstart : PageMapping.start cfg env warmUp = .ok s₀)
    (hmeets : Run.Along (Op.exec cfg env) (Op.Meets cfg env (MappingConditions cfg)) s₀ calls)
    (hrun : run cfg env s₀ calls = .ok s) (w : World) (req : Request)
    (hcount : 0 < req.ioFlag.count) (hquiet : s.TriggersNoGC cfg env w req)
    (hwrite : s.write cfg env w req = .ok s') :
    s.Isolates cfg req s' ↔ s.WriteHitsFirst cfg req := by
  have hs := run_mapped hone hstart hmeets hrun
  rw [PageMapping.write, if_pos hcount, PageMapping.writeInternal, Except.bind_eq_ok] at hwrite
  obtain ⟨s₁, hprog, hcollect⟩ := hwrite
  rw [PageMapping.collectIfNeeded, if_neg (hquiet.of_ok hprog)] at hcollect
  cases hcollect
  have hwant := PageMapping.wants_of_count hone hcount (PageMapping.programPage_size hs.wf hprog)
  obtain ⟨key, new, hp, htrace⟩ :=
    PageMapping.programPage_spec (Config.bitsetSize_one hone) hwant hs.wf hs.shape (.inl rfl) hprog
  obtain ⟨events, htrace, hwrites⟩ := htrace rfl
  exact ⟨hp.hitsFirst hone hs htrace hwrites, fun hhit => hp.isolates hone hs hhit htrace hwrites⟩

/-- A write that hits `cmt` while its page is the only one mapped. -/
theorem write_isolated_cached : ∃ s₀ s s', PageMapping.start (.cached 3) .zero none = .ok s₀ ∧
    run (.cached 3) .zero s₀ (calls [.write (.page 0)]) = .ok s ∧
    s.write (.cached 3) .zero .zero (.page 0) = .ok s' ∧
    s.Isolates (.cached 3) (.page 0) s' := by
  obtain ⟨s₀, hstart, hmeets, hrun⟩ := Except.exists_of_map
    (p := fun s₀ => Run.Along (Op.exec (.cached 3) .zero)
      (Op.Meets (.cached 3) .zero (MappingConditions (.cached 3))) s₀ (calls [.write (.page 0)]) ∧
      (run (.cached 3) .zero s₀ (calls [.write (.page 0)])).map (fun s => decide
        (s.TriggersNoGC (.cached 3) .zero .zero (.page 0) ∧ s.WriteHitsFirst (.cached 3) (.page 0) ∧
          (s.write (.cached 3) .zero .zero (.page 0)).map (fun _ => decide True) = .ok true)) =
        .ok true)
    (by decide +kernel : (PageMapping.start (.cached 3) .zero none).map _ = .ok true)
  obtain ⟨s, hs, hquiet, hhit, hwrite⟩ := Except.exists_of_map hrun
  obtain ⟨s', hs', -⟩ := Except.exists_of_map hwrite
  exact ⟨s₀, s, s', hstart, hs, hs', (write_isolated (by decide) none _ s₀ s s' hstart hmeets hs
    .zero (.page 0) (by decide) hquiet hs').mpr hhit⟩

/-- The second write of page 0 hits `cmt` and moves the entry of page 1. -/
theorem write_not_isolated : ∃ s₀ s s', PageMapping.start (.cached 3) .zero none = .ok s₀ ∧
    run (.cached 3) .zero s₀ (calls [.write (.page 0), .write (.page 1)]) = .ok s ∧
    s.TriggersNoGC (.cached 3) .zero .zero (.page 0) ∧
    s.write (.cached 3) .zero .zero (.page 0) = .ok s' ∧
    ¬ s.Isolates (.cached 3) (.page 0) s' := by
  obtain ⟨s₀, hstart, hrun⟩ := Except.exists_of_map
    (p := fun s₀ => (run (.cached 3) .zero s₀ (calls [.write (.page 0), .write (.page 1)])).map
      (fun s => decide (s.TriggersNoGC (.cached 3) .zero .zero (.page 0) ∧
        (s.write (.cached 3) .zero .zero (.page 0)).map (fun s' =>
          decide (s'.table.find? 1 ≠ s.table.find? 1)) = .ok true)) = .ok true)
    (by decide +kernel : (PageMapping.start (.cached 3) .zero none).map _ = .ok true)
  obtain ⟨s, hs, hquiet, hwrite⟩ := Except.exists_of_map hrun
  obtain ⟨s', hs', hmoved⟩ := Except.exists_of_map hwrite
  exact ⟨s₀, s, s', hstart, hs, hquiet, hs', fun hi => hmoved (hi.others 1 (by decide)).1⟩

end Reachable

end SimpleSSD.FTL
