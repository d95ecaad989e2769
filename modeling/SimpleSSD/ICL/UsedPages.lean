import SimpleSSD.FTL.Trim
import SimpleSSD.Lib.Counting

/-!
# How many pages are in use (icl.cc:247–251, page_mapping.cc:457–474)

The host layers count logical pages in units of the cache line: with the random-I/O tweak a page
of the host is one I/O unit, `ioUnitInPage` of which make up a superpage of the FTL; without it
the two are the same. `ICL::getUsedPageCount` divides the bounds of its range by `ioUnitInPage`
and multiplies the FTL's count back, with the tweak and without it.
-/

namespace SimpleSSD

namespace FTL

/-- `status.totalLogicalPages` (page_mapping.cc:40). -/
def Config.totalLogicalPages (cfg : Config) : Nat := cfg.totalLogicalBlocks * cfg.pagesInBlock

namespace PageMapping

/-- `table.count(lpn) > 0`. -/
def inTable (s : PageMapping) (lpn : Nat) : Bool := (s.table.find? lpn).isSome

/-- The loop of `getStatus` (page_mapping.cc:466–470). -/
def countMapped (s : PageMapping) (lpnBegin lpnEnd : Nat) : Nat :=
  countIn s.inTable lpnBegin lpnEnd

/-- `getStatus(lpnBegin, lpnEnd)->mappedLogicalPages` (page_mapping.cc:457–474). -/
def mappedLogicalPages (cfg : Config) (s : PageMapping) (lpnBegin lpnEnd : Nat) : Nat :=
  if lpnBegin = 0 ∧ cfg.totalLogicalPages ≤ lpnEnd then s.table.size
  else s.countMapped lpnBegin lpnEnd

/-- The page that the FTL maps a logical page of the host to, if it maps it. -/
def hostMapping (cfg : Config) (s : PageMapping) (lca : Nat) : Option (Nat × Nat) :=
  (s.tableMapping (lca / cfg.bitsetSize) (lca % cfg.bitsetSize)).filter fun page => cfg.InRange page

def hostMapped (cfg : Config) (s : PageMapping) (lca : Nat) : Bool := (s.hostMapping cfg lca).isSome

end PageMapping

end FTL

namespace ICL

open FTL (PageMapping)

/-- `getUsedPageCount` (icl.cc:247–251). -/
def getUsedPageCount (cfg : FTL.Config) (s : PageMapping) (lcaBegin lcaEnd : Nat) : Nat :=
  let ratio := cfg.ioUnitInPage
  s.mappedLogicalPages cfg (lcaBegin / ratio) (lcaEnd / ratio) * ratio

/-- The logical pages of the host in `[lcaBegin, lcaEnd)` that are mapped. -/
def hostPages (cfg : FTL.Config) (s : PageMapping) (lcaBegin lcaEnd : Nat) : Nat :=
  countIn (s.hostMapped cfg) lcaBegin lcaEnd

/-- Every range is reported as it is mapped, and the shortcut of `getStatus` returns what its
loop would. -/
def Agrees (cfg : FTL.Config) (s : PageMapping) : Prop :=
  (∀ b e, getUsedPageCount cfg s b e = hostPages cfg s b e) ∧
    ∀ e, cfg.totalLogicalPages ≤ e → s.table.size = s.countMapped 0 e

variable {cfg : FTL.Config} {s : PageMapping} {b e k : Nat}

/-! ### The table as a set of pages -/

theorem inTable_iff : s.inTable k = true ↔ k ∈ s.table := by
  rw [PageMapping.inTable, Option.isSome_iff_exists, UnorderedMap.mem_iff_find?]

/-- A page of the host that is mapped has its superpage in the table. -/
theorem inTable_of_hostMapped (h : s.hostMapped cfg k = true) :
    s.inTable (k / cfg.bitsetSize) = true := by
  rw [PageMapping.hostMapped, Option.isSome_iff_exists] at h
  obtain ⟨page, hpage⟩ := h
  obtain ⟨htable, -⟩ := Option.filter_eq_some_iff.mp hpage
  obtain ⟨vec, hvec, -⟩ := Option.bind_eq_some_iff.mp htable
  rw [PageMapping.inTable, hvec]
  rfl

/-- The loop meets the entries of the table in its range, and the whole table has those behind. -/
theorem size_eq_countMapped (s : PageMapping) (e : Nat) :
    s.table.size = s.countMapped 0 e + s.table.keys.countP fun k => decide (e ≤ k) := by
  have hmem : s.countMapped 0 e = countIn (fun a => s.table.keys.contains a) 0 e := by
    refine countIn_congr fun a _ _ => ?_
    rw [Bool.eq_iff_iff, inTable_iff, List.contains_iff_mem]
    exact Iff.rfl
  have hcount := countIn_mem (l := s.table.keys) s.table.nodupKeys 0 e
  rw [hmem, hcount, ← s.table.length_keys,
    List.length_eq_countP_add_countP fun k => decide (0 ≤ k ∧ k < e)]
  congr 1
  refine List.countP_congr fun a _ => ?_
  simp

/-! ### One range -/

/-- What `getStatus` counts beyond the range when it returns the size of the table. -/
def beyond (cfg : FTL.Config) (s : PageMapping) (lpnBegin lpnEnd : Nat) : Nat :=
  if lpnBegin = 0 ∧ cfg.totalLogicalPages ≤ lpnEnd
  then s.table.keys.countP fun k => decide (lpnEnd ≤ k) else 0

theorem mappedLogicalPages_eq (cfg : FTL.Config) (s : PageMapping) (lpnBegin lpnEnd : Nat) :
    s.mappedLogicalPages cfg lpnBegin lpnEnd =
      s.countMapped lpnBegin lpnEnd + beyond cfg s lpnBegin lpnEnd := by
  rw [PageMapping.mappedLogicalPages, beyond]
  split
  · next h =>
    rw [h.1]
    exact size_eq_countMapped s lpnEnd
  · rfl

/-- A page of the host that is not mapped, in a superpage that has an entry. -/
def hole (cfg : FTL.Config) (s : PageMapping) (lca : Nat) : Bool :=
  s.inTable (lca / cfg.bitsetSize) && !s.hostMapped cfg lca

/-- When a superpage holds `ioUnitInPage` pages of the host, the report of a range is right
exactly when four counts balance: the holes of the superpages that are counted, the mapped pages
in front of the range that are counted with its first superpage, the entries behind the range
that the shortcut adds, and the mapped pages of the last superpage that are left out. -/
theorem getUsedPageCount_eq_iff (hunits : cfg.bitsetSize = cfg.ioUnitInPage) (hle : b ≤ e) :
    getUsedPageCount cfg s b e = hostPages cfg s b e ↔
      countIn (hole cfg s) (cfg.ioUnitInPage * (b / cfg.ioUnitInPage))
          (cfg.ioUnitInPage * (e / cfg.ioUnitInPage)) +
        hostPages cfg s (cfg.ioUnitInPage * (b / cfg.ioUnitInPage)) b +
        cfg.ioUnitInPage * beyond cfg s (b / cfg.ioUnitInPage) (e / cfg.ioUnitInPage) =
      hostPages cfg s (cfg.ioUnitInPage * (e / cfg.ioUnitInPage)) e := by
  set r := cfg.ioUnitInPage with hr
  have hb : r * (b / r) ≤ b := Nat.mul_div_le b r
  have he : r * (e / r) ≤ e := Nat.mul_div_le e r
  have hbe : r * (b / r) ≤ r * (e / r) := Nat.mul_le_mul_left r (Nat.div_le_div_right hle)
  -- what the code counts, as pages of the host
  have hcounted : r * s.countMapped (b / r) (e / r) =
      hostPages cfg s (r * (b / r)) (r * (e / r)) +
        countIn (hole cfg s) (r * (b / r)) (r * (e / r)) := by
    have hhole : hole cfg s = fun a => s.inTable (a / r) && !s.hostMapped cfg a := by
      funext a
      rw [hole, hunits]
    rw [PageMapping.countMapped, ← countIn_div, hhole]
    exact countIn_eq_add fun a ha => hunits ▸ inTable_of_hostMapped ha
  have hfirst : hostPages cfg s (r * (b / r)) e =
      hostPages cfg s (r * (b / r)) b + hostPages cfg s b e := countIn_add hb hle
  have hlast : hostPages cfg s (r * (b / r)) e =
      hostPages cfg s (r * (b / r)) (r * (e / r)) + hostPages cfg s (r * (e / r)) e :=
    countIn_add hbe he
  have hreport : getUsedPageCount cfg s b e =
      r * s.countMapped (b / r) (e / r) + r * beyond cfg s (b / r) (e / r) := by
    rw [getUsedPageCount, mappedLogicalPages_eq, Nat.mul_comm, Nat.mul_add]
  omega

/-! ### All ranges -/

theorem countMapped_of_empty (h : s.table.size = 0) (b e : Nat) : s.countMapped b e = 0 := by
  refine countIn_eq_zero fun a => ?_
  have hnil : s.table.entries = [] := List.eq_nil_of_length_eq_zero h
  rw [PageMapping.inTable, Option.isSome_eq_false_iff, Option.isNone_iff_eq_none,
    UnorderedMap.find?_eq_none_iff, UnorderedMap.mem_iff, hnil]
  simp

/-- A page in the table is counted in each range that starts with it. -/
theorem le_mappedLogicalPages (h : k ∈ s.table) (cfg : FTL.Config) :
    1 ≤ s.mappedLogicalPages cfg k (k + 1) := by
  rw [mappedLogicalPages_eq, PageMapping.countMapped, countIn_succ, if_pos (inTable_iff.mpr h)]
  omega

/-- With several units in a page, the range that holds the last unit of a superpage in the table
is reported with all of them. -/
theorem getUsedPageCount_lastUnit (h : k ∈ s.table) (hunits : 0 < cfg.ioUnitInPage) :
    cfg.ioUnitInPage ≤ getUsedPageCount cfg s (cfg.ioUnitInPage * (k + 1) - 1)
      (cfg.ioUnitInPage * (k + 1)) := by
  have hbegin : (cfg.ioUnitInPage * (k + 1) - 1) / cfg.ioUnitInPage = k := by
    refine Nat.div_eq_of_lt_le ?_ ?_
    · rw [Nat.mul_succ, Nat.mul_comm k]
      omega
    · rw [Nat.mul_comm (k + 1)]
      have hpos : 0 < cfg.ioUnitInPage * (k + 1) := Nat.mul_pos hunits (Nat.succ_pos k)
      omega
  rw [getUsedPageCount, hbegin, Nat.mul_div_cancel_left _ hunits]
  exact Nat.le_mul_of_pos_left _ (le_mappedLogicalPages h cfg)

/-- The report agrees with the mapping on all ranges exactly when nothing is mapped, or a page is
one I/O unit and every entry of the table is below the device's size and names a page of it. -/
theorem agrees_iff (hunits : 0 < cfg.ioUnitInPage) :
    Agrees cfg s ↔ s.table.size = 0 ∨ (cfg.ioUnitInPage = 1 ∧
      ∀ k ∈ s.table, k < cfg.totalLogicalPages ∧ s.hostMapped cfg k = true) := by
  constructor
  · rintro ⟨hreport, hshortcut⟩
    by_cases hempty : s.table.size = 0
    · exact .inl hempty
    -- a page in the table limits a superpage to one unit
    have hone : cfg.ioUnitInPage = 1 := by
      obtain ⟨entry, hentry⟩ := List.exists_mem_of_length_pos (Nat.pos_of_ne_zero hempty)
      have hk : entry.1 ∈ s.table := UnorderedMap.mem_iff.mpr ⟨entry.2, hentry⟩
      have hle := @getUsedPageCount_lastUnit cfg _ _ hk hunits
      rw [hreport] at hle
      have hcount := countIn_le (s.hostMapped cfg) (cfg.ioUnitInPage * (entry.1 + 1) - 1)
        (cfg.ioUnitInPage * (entry.1 + 1))
      rw [hostPages] at hle
      omega
    refine .inr ⟨hone, fun k hk => ⟨?_, ?_⟩⟩
    · -- the loop over the whole device meets every entry
      have hsize := hshortcut cfg.totalLogicalPages le_rfl
      rw [size_eq_countMapped s cfg.totalLogicalPages] at hsize
      have hnone : s.table.keys.countP (fun k => decide (cfg.totalLogicalPages ≤ k)) = 0 := by
        omega
      have hk' := List.countP_eq_zero.mp hnone k hk
      simpa using hk'
    · have hcount := hreport k (k + 1)
      rw [hostPages, countIn_succ, getUsedPageCount, hone, Nat.div_one, Nat.div_one,
        Nat.mul_one] at hcount
      have hle := le_mappedLogicalPages hk cfg
      by_contra hnot
      rw [if_neg hnot] at hcount
      omega
  · rintro (hempty | ⟨hone, hall⟩)
    · -- nothing is mapped, and nothing is counted
      have hreport : ∀ b e, s.mappedLogicalPages cfg b e = 0 := by
        intro b e
        rw [PageMapping.mappedLogicalPages]
        split
        · exact hempty
        · exact countMapped_of_empty hempty b e
      refine ⟨fun b e => ?_, fun e _ => ?_⟩
      · rw [getUsedPageCount, hreport, Nat.zero_mul, hostPages]
        refine (countIn_eq_zero fun a => ?_).symm
        by_contra hmapped
        have hin := inTable_iff.mp
          (inTable_of_hostMapped (Bool.eq_true_of_not_eq_false hmapped))
        obtain ⟨v, hv⟩ := UnorderedMap.mem_iff.mp hin
        rw [List.eq_nil_of_length_eq_zero hempty] at hv
        cases hv
      · rw [hempty, countMapped_of_empty hempty]
    · have hnone : ∀ e, cfg.totalLogicalPages ≤ e →
          s.table.keys.countP (fun k => decide (e ≤ k)) = 0 := by
        intro e he
        refine List.countP_eq_zero.mpr fun k hk => ?_
        have hlt := (hall k hk).1
        simp only [decide_eq_true_eq]
        omega
      have hbitset : cfg.bitsetSize = 1 := FTL.Config.bitsetSize_one hone
      have hsame : ∀ k, s.inTable k = s.hostMapped cfg k := by
        intro k
        rw [Bool.eq_iff_iff]
        constructor
        · intro hk
          exact (hall k (inTable_iff.mp hk)).2
        · intro hk
          have hin := inTable_of_hostMapped hk
          rwa [hbitset, Nat.div_one] at hin
      refine ⟨fun b e => ?_, fun e he => ?_⟩
      · rw [getUsedPageCount, hone, Nat.div_one, Nat.div_one, Nat.mul_one, mappedLogicalPages_eq,
          PageMapping.countMapped, hostPages, countIn_congr fun a _ _ => hsame a, beyond]
        split
        · next hrange => rw [hnone e hrange.2, Nat.add_zero]
        · rfl
      · rw [size_eq_countMapped s e, hnone e he, Nat.add_zero]

/-- The report of used pages: on all ranges it agrees with the mapping exactly when nothing is
mapped, or a page is one I/O unit and every entry is a mapping within the device; and where a
superpage holds `ioUnitInPage` pages of the host, on one range exactly when the holes, the pages
in front and the entries behind balance the pages left out at the end. -/
theorem used_pages_agree (hunits : 0 < cfg.ioUnitInPage) :
    (Agrees cfg s ↔ s.table.size = 0 ∨ (cfg.ioUnitInPage = 1 ∧
      ∀ k ∈ s.table, k < cfg.totalLogicalPages ∧ s.hostMapped cfg k = true)) ∧
    (cfg.bitsetSize = cfg.ioUnitInPage → ∀ b e, b ≤ e →
      (getUsedPageCount cfg s b e = hostPages cfg s b e ↔
        countIn (hole cfg s) (cfg.ioUnitInPage * (b / cfg.ioUnitInPage))
            (cfg.ioUnitInPage * (e / cfg.ioUnitInPage)) +
          hostPages cfg s (cfg.ioUnitInPage * (b / cfg.ioUnitInPage)) b +
          cfg.ioUnitInPage * beyond cfg s (b / cfg.ioUnitInPage) (e / cfg.ioUnitInPage) =
        hostPages cfg s (cfg.ioUnitInPage * (e / cfg.ioUnitInPage)) e)) :=
  ⟨agrees_iff hunits, fun hbitset _ _ hle => getUsedPageCount_eq_iff hbitset hle⟩

/-- One page is written on a device with one unit in a page. -/
theorem used_pages_agree_oneWrite : ∃ s₀ s,
    PageMapping.start (.small 3) .zero none = .ok s₀ ∧
    FTL.run (.small 3) .zero s₀ (FTL.calls [.write (.page 0)]) = .ok s ∧ Agrees (.small 3) s ∧
    getUsedPageCount (.small 3) s 0 1 = hostPages (.small 3) s 0 1 := by
  obtain ⟨s₀, hstart, hrun⟩ := Except.exists_of_map
    (x := PageMapping.start (.small 3) .zero none)
    (p := fun s₀ => (FTL.run (.small 3) .zero s₀ (FTL.calls [.write (.page 0)])).map
      (fun s => decide (s.table.keys = [0] ∧ s.hostMapped (.small 3) 0 = true)) = .ok true)
    (by decide +kernel)
  obtain ⟨s, hs, hkeys, hmapped⟩ := Except.exists_of_map hrun
  obtain ⟨hall, hrange⟩ := @used_pages_agree (.small 3) s (by decide)
  have hagrees : Agrees (.small 3) s := by
    refine hall.mpr (.inr ⟨rfl, fun k hk => ?_⟩)
    have hzero : k ∈ s.table.keys := hk
    rw [hkeys, List.mem_singleton] at hzero
    rw [hzero]
    exact ⟨by decide, hmapped⟩
  refine ⟨s₀, s, hstart, hs, hagrees, (hrange rfl 0 1 (by decide)).mpr ?_⟩
  -- both bounds are whole superpages, so it is enough that there are no holes
  have hhole : hole (.small 3) s 0 = false := by
    rw [hole]
    exact (congrArg (fun x => s.inTable (0 / 1) && !x) hmapped).trans (Bool.and_false _)
  show countIn (hole (.small 3) s) 0 1 + 0 + 1 * 0 = 0
  rw [show countIn (hole (.small 3) s) 0 1 = _ from countIn_succ _ 0, hhole]
  rfl

/-- One unit of superpage 0 is written. The superpage is reported as two pages of the host; a
range that ends inside it is reported as empty. -/
theorem partly_written_misreported : ∃ s₀ s,
    PageMapping.start (.pairedTweak 3) .zero none = .ok s₀ ∧
    FTL.run (.pairedTweak 3) .zero s₀
      (FTL.calls [.write ⟨0, (Bitset.new 2).insert 0⟩]) = .ok s ∧
    getUsedPageCount (.pairedTweak 3) s 0 2 = 2 ∧ hostPages (.pairedTweak 3) s 0 2 = 1 ∧
    getUsedPageCount (.pairedTweak 3) s 0 1 = 0 ∧ hostPages (.pairedTweak 3) s 0 1 = 1 ∧
    ¬ Agrees (.pairedTweak 3) s := by
  obtain ⟨s₀, hstart, hrun⟩ := Except.exists_of_map
    (x := PageMapping.start (.pairedTweak 3) .zero none)
    (p := fun s₀ => (FTL.run (.pairedTweak 3) .zero s₀
        (FTL.calls [.write ⟨0, (Bitset.new 2).insert 0⟩])).map
      (fun s => decide (getUsedPageCount (.pairedTweak 3) s 0 2 = 2 ∧
        hostPages (.pairedTweak 3) s 0 2 = 1 ∧ getUsedPageCount (.pairedTweak 3) s 0 1 = 0 ∧
        hostPages (.pairedTweak 3) s 0 1 = 1)) = .ok true)
    (by decide +kernel)
  obtain ⟨s, hs, htwo, hone, hzero, hone'⟩ := Except.exists_of_map hrun
  refine ⟨s₀, s, hstart, hs, htwo, hone, hzero, hone', fun hagrees => ?_⟩
  have hsame := hagrees.1 0 2
  omega

end ICL

end SimpleSSD
