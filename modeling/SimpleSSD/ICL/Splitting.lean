import SimpleSSD.Lib.Run
import SimpleSSD.ICL.Requests

/-!
# Splitting of requests (icl/icl.cc:71–166)

`ICL` hands a request to the cache page by page. The loops of `read` and `write` make the
same sub-requests: the `i`-th one is for logical page `slpn + i`, has the offset of the
request when it is the first, and has up to a page of the bytes that remain. The first one
is not shortened by its offset, so the sub-requests are those bytes of the request that
lie in their page only when the offset is zero or the request fits into its first page.
-/

namespace SimpleSSD.ICL

variable {cfg : Config} {req : HostRequest}

/-- The sub-requests in order. -/
def HostRequest.subRequests (cfg : Config) (req : HostRequest) : List Request :=
  (List.range req.range.nlp).map fun i => req.unit cfg (req.length - i * cfg.logicalPageSize) i

section Loops

variable {F : Type} (env : Env) (port : FTLPort F)

/-- What `ICL::read` does with a sub-request. -/
def GenericCache.readSub (cfg : Config) (s : GenericCache F) (unit : Request) :
    Except Fault (GenericCache F) :=
  (s.count.read cfg env port unit).map Prod.snd

/-- What `ICL::write` does with a sub-request. -/
def GenericCache.writeSub (cfg : Config) (s : GenericCache F) (unit : Request) :
    Except Fault (GenericCache F) := do
  let (_, s) ← s.count.write cfg env port unit
  if port.putPagesInCache s.pFTL then writeToCacheMimic cfg env port s else .ok s

/-- A loop that takes a page of the remaining bytes at a time goes through the sub-requests. -/
theorem foldlM_subRequests {step : GenericCache F → Request → Except Fault (GenericCache F)}
    {body : Nat × GenericCache F → Nat → Except Fault (Nat × GenericCache F)}
    (hbody : ∀ acc i, body acc i = (step acc.2 (req.unit cfg acc.1 i)).map fun s =>
      (acc.1 - (req.unit cfg acc.1 i).length, s)) (s : GenericCache F) :
    ((List.range req.range.nlp).foldlM body (req.length, s)).map Prod.snd =
      (req.subRequests cfg).foldlM step s := by
  have hrest : ∀ k i s, ((List.range' i k).foldlM body
      (req.length - i * cfg.logicalPageSize, s)).map Prod.snd =
      ((List.range' i k).map fun i =>
        req.unit cfg (req.length - i * cfg.logicalPageSize) i).foldlM step s := by
    intro k
    induction k with
    | zero =>
      intro i s
      rfl
    | succ k ih =>
      intro i s
      rw [List.range'_succ, List.map_cons, List.foldlM_cons, List.foldlM_cons, hbody]
      cases step s (req.unit cfg (req.length - i * cfg.logicalPageSize) i) with
      | error e => rfl
      | ok s' =>
        -- what remains behind page `i`
        have hremain : req.length - i * cfg.logicalPageSize -
            (req.unit cfg (req.length - i * cfg.logicalPageSize) i).length =
            req.length - (i + 1) * cfg.logicalPageSize := by
          show req.length - i * cfg.logicalPageSize -
            min (req.length - i * cfg.logicalPageSize) cfg.logicalPageSize = _
          rw [Nat.succ_mul]
          omega
        have := ih (i + 1) s'
        rw [← hremain] at this
        exact this
  have h := hrest req.range.nlp 0 s
  rw [Nat.zero_mul, Nat.sub_zero, ← List.range_eq_range'] at h
  exact h

theorem exec_read (s : GenericCache F) :
    HostOp.exec cfg env port s (.read req) =
      (req.subRequests cfg).foldlM (GenericCache.readSub env port cfg) s := by
  refine foldlM_subRequests (fun acc i => ?_) s
  rw [readUnit, GenericCache.readSub]
  cases GenericCache.read cfg env port (req.unit cfg acc.1 i) acc.2.count <;> rfl

theorem exec_write (s : GenericCache F) :
    HostOp.exec cfg env port s (.write req) =
      (req.subRequests cfg).foldlM (GenericCache.writeSub env port cfg) s := by
  refine foldlM_subRequests (fun acc i => ?_) s
  rw [writeUnit, GenericCache.writeSub]
  cases GenericCache.write cfg env port (req.unit cfg acc.1 i) acc.2.count with
  | error e => rfl
  | ok r =>
    dsimp only [Bind.bind, Except.bind]
    by_cases hput : port.putPagesInCache r.2.pFTL = true
    · rw [if_pos hput, if_pos hput]
      cases writeToCacheMimic cfg env port r.2 <;> rfl
    · rw [if_neg hput, if_neg hput]
      rfl

end Loops

/-! ### Bytes -/

/-- The first byte of a sub-request. -/
def Request.first (cfg : Config) (r : Request) : Nat := r.slpn * cfg.logicalPageSize + r.offset

/-- The first byte of a request. -/
def HostRequest.first (cfg : Config) (req : HostRequest) : Nat :=
  req.range.slpn * cfg.logicalPageSize + req.offset

/-- The sub-requests split the bytes of the request. -/
structure HostRequest.Exact (cfg : Config) (req : HostRequest) (l : List Request) : Prop where
  nonempty : ∀ r ∈ l, 0 < r.length
  inPage : ∀ r ∈ l, r.offset + r.length ≤ cfg.logicalPageSize
  contiguous : l.IsChain fun r r' => r.first cfg + r.length = r'.first cfg
  covers : ∀ x, (∃ r ∈ l, r.first cfg ≤ x ∧ x < r.first cfg + r.length) ↔
    req.first cfg ≤ x ∧ x < req.first cfg + req.length
  flags : ∀ lpn unit, (∃ r ∈ l, (cfg.lineRequest r.slpn).lpn = lpn ∧
      unit ∈ (cfg.lineRequest r.slpn).ioFlag.bits) ↔
    ∃ x, req.first cfg ≤ x ∧ x < req.first cfg + req.length ∧
      x / cfg.logicalPageSize / cfg.lineCountInSuperPage = lpn ∧
      x / cfg.logicalPageSize % cfg.lineCountInSuperPage = unit

/-- The flag of a line. -/
theorem lineRequest_flag (lca lpn unit : Nat) :
    ((cfg.lineRequest lca).lpn = lpn ∧ unit ∈ (cfg.lineRequest lca).ioFlag.bits) ↔
      lca / cfg.lineCountInSuperPage = lpn ∧ lca % cfg.lineCountInSuperPage = unit := by
  have hlt : lca % cfg.lineCountInSuperPage < cfg.lineCountInSuperPage :=
    Nat.mod_lt _ cfg.lineCountInSuperPage_pos
  simp only [Config.lineRequest, Bitset.single, Finset.mem_filter, Finset.mem_range]
  constructor
  · rintro ⟨h, -, rfl⟩
    exact ⟨h, rfl⟩
  · rintro ⟨h, rfl⟩
    exact ⟨h, hlt, rfl⟩

section Exact

variable {i : Nat}

/-- The condition under which the split is right: the first page need not be shortened, and
the page numbers do not wrap around. -/
def HostRequest.Splits (cfg : Config) (req : HostRequest) : Prop :=
  (req.offset = 0 ∨ req.offset + req.length ≤ cfg.logicalPageSize) ∧
    req.range.slpn + req.range.nlp ≤ 2 ^ 64

instance (cfg : Config) (req : HostRequest) : Decidable (req.Splits cfg) :=
  inferInstanceAs (Decidable (_ ∧ _))

/-- The pages of a request, as its `nlp` counts them. -/
theorem lt_nlp_iff (hpage : 0 < cfg.logicalPageSize)
    (hnlp : req.range.nlp = (req.offset + req.length + cfg.logicalPageSize - 1) /
      cfg.logicalPageSize) :
    i < req.range.nlp ↔ i * cfg.logicalPageSize < req.offset + req.length := by
  rw [hnlp, Nat.lt_iff_add_one_le, Nat.le_div_iff_mul_le hpage, Nat.succ_mul]
  omega

/-- The bytes of sub-request `i`: those of the request that lie in page `slpn + i`. -/
theorem unit_bytes (hoff : req.offset < cfg.logicalPageSize) (hsplits : req.Splits cfg)
    (hi : i < req.range.nlp) (hlt : i * cfg.logicalPageSize < req.offset + req.length)
    {r : Request} (hr : r = req.unit cfg (req.length - i * cfg.logicalPageSize) i) :
    r.slpn = req.range.slpn + i ∧
      i * cfg.logicalPageSize + r.offset = max req.offset (i * cfg.logicalPageSize) ∧
      i * cfg.logicalPageSize + r.offset + r.length =
        min (req.offset + req.length) ((i + 1) * cfg.logicalPageSize) := by
  obtain ⟨hfirst, hwrap⟩ := hsplits
  have hslpn : r.slpn = (req.range.slpn + i) % 2 ^ 64 := by rw [hr]; rfl
  have hlength : r.length = min (req.length - i * cfg.logicalPageSize) cfg.logicalPageSize := by
    rw [hr]; rfl
  have hoffset : r.offset = if i = 0 then req.offset else 0 := by rw [hr]; rfl
  have hsucc : (i + 1) * cfg.logicalPageSize = i * cfg.logicalPageSize + cfg.logicalPageSize :=
    Nat.succ_mul _ _
  rw [hslpn, hlength, hoffset, hsucc]
  rcases Nat.eq_zero_or_pos i with rfl | hpos
  · rw [if_pos rfl, Nat.zero_mul]
    exact ⟨Nat.mod_eq_of_lt (by omega), by omega, by omega⟩
  · rw [if_neg (Nat.ne_of_gt hpos)]
    have hle : cfg.logicalPageSize ≤ i * cfg.logicalPageSize := Nat.le_mul_of_pos_left _ hpos
    exact ⟨Nat.mod_eq_of_lt (by omega), by omega, by omega⟩

variable (hoff : req.offset < cfg.logicalPageSize)
  (hnlp : req.range.nlp = (req.offset + req.length + cfg.logicalPageSize - 1) /
    cfg.logicalPageSize)

include hoff hnlp

/-- The bytes of a sub-request in the numbering of the whole device. -/
theorem unit_first (hsplits : req.Splits cfg) (hi : i < req.range.nlp) {r : Request}
    (hr : r = req.unit cfg (req.length - i * cfg.logicalPageSize) i) :
    r.slpn = req.range.slpn + i ∧ i * cfg.logicalPageSize < req.offset + req.length ∧
      r.first cfg = req.range.slpn * cfg.logicalPageSize +
        max req.offset (i * cfg.logicalPageSize) ∧
      r.first cfg + r.length = req.range.slpn * cfg.logicalPageSize +
        min (req.offset + req.length) ((i + 1) * cfg.logicalPageSize) := by
  have hlt := (lt_nlp_iff (by omega) hnlp).mp hi
  obtain ⟨hslpn, hfirst, hend⟩ := unit_bytes hoff hsplits hi hlt hr
  refine ⟨hslpn, hlt, ?_, ?_⟩
  · rw [Request.first, hslpn, Nat.add_mul, Nat.add_assoc, hfirst]
  · rw [Request.first, hslpn, Nat.add_mul, Nat.add_assoc, Nat.add_assoc, ← Nat.add_assoc (i * _),
      hend]

/-- A sub-request has bytes and stays in its page. -/
theorem subRequest_inPage (hlength : 0 < req.length) (hsplits : req.Splits cfg) {r : Request}
    (hr : r ∈ req.subRequests cfg) :
    0 < r.length ∧ r.offset + r.length ≤ cfg.logicalPageSize ∧
      req.first cfg ≤ r.first cfg ∧ r.first cfg + r.length ≤ req.first cfg + req.length := by
  obtain ⟨i, hi, hr⟩ := List.mem_map.mp hr
  obtain ⟨hslpn, hlt, hfirst, hend⟩ :=
    unit_first hoff hnlp hsplits (List.mem_range.mp hi) hr.symm
  have hpage : r.first cfg = req.range.slpn * cfg.logicalPageSize + i * cfg.logicalPageSize +
      r.offset := by
    rw [Request.first, hslpn, Nat.add_mul]
  have hreq : req.first cfg = req.range.slpn * cfg.logicalPageSize + req.offset := rfl
  have hsucc : (i + 1) * cfg.logicalPageSize = i * cfg.logicalPageSize + cfg.logicalPageSize :=
    Nat.succ_mul _ _
  rw [hsucc] at hend
  omega

/-- Every byte of the request is in the sub-request for its page. -/
theorem subRequest_of_byte (hsplits : req.Splits cfg) {x : Nat} (hx : req.first cfg ≤ x)
    (hx' : x < req.first cfg + req.length) :
    ∃ r ∈ req.subRequests cfg, r.first cfg ≤ x ∧ x < r.first cfg + r.length := by
  have hpage : 0 < cfg.logicalPageSize := by omega
  have hreq : req.first cfg = req.range.slpn * cfg.logicalPageSize + req.offset := rfl
  -- the page of the byte, counted from the first page of the request
  let i := (x - req.range.slpn * cfg.logicalPageSize) / cfg.logicalPageSize
  have hle : i * cfg.logicalPageSize ≤ x - req.range.slpn * cfg.logicalPageSize :=
    Nat.div_mul_le_self _ _
  have hgt : x - req.range.slpn * cfg.logicalPageSize < (i + 1) * cfg.logicalPageSize := by
    rw [Nat.succ_mul]
    exact Nat.lt_div_mul_add hpage
  have hi : i < req.range.nlp := (lt_nlp_iff hpage hnlp).mpr (by omega)
  obtain ⟨-, -, hfirst, hend⟩ := unit_first hoff hnlp hsplits hi rfl
  exact ⟨_, List.mem_map_of_mem (List.mem_range.mpr hi), by omega, by omega⟩

/-- Under the condition the split is right. -/
theorem exact_of_splits (hlength : 0 < req.length) (hsplits : req.Splits cfg) :
    req.Exact cfg (req.subRequests cfg) := by
  have hpage : 0 < cfg.logicalPageSize := by omega
  have hin := fun r hr => subRequest_inPage (r := r) hoff hnlp hlength hsplits hr
  have hof := fun x hx hx' => subRequest_of_byte (x := x) hoff hnlp hsplits hx hx'
  have hdiv : ∀ r ∈ req.subRequests cfg, ∀ x, r.first cfg ≤ x → x < r.first cfg + r.length →
      x / cfg.logicalPageSize = r.slpn := by
    intro r hr x hx hx'
    have hfirst : r.first cfg = r.slpn * cfg.logicalPageSize + r.offset := rfl
    have hoffset := (hin r hr).2.1
    refine (Nat.div_eq_iff hpage).mpr ⟨by omega, ?_⟩
    omega
  refine ⟨fun r hr => (hin r hr).1, fun r hr => (hin r hr).2.1, ?_, fun x => ⟨?_, ?_⟩, ?_⟩
  · rw [HostRequest.subRequests, List.isChain_map, List.isChain_range]
    intro i hi
    obtain ⟨-, -, -, hend⟩ := unit_first hoff hnlp hsplits (show i < req.range.nlp by omega) rfl
    obtain ⟨-, hlt, hfirst, -⟩ :=
      unit_first hoff hnlp hsplits (show i + 1 < req.range.nlp by omega) rfl
    have hle : cfg.logicalPageSize ≤ (i + 1) * cfg.logicalPageSize :=
      Nat.le_mul_of_pos_left _ (Nat.succ_pos i)
    rw [hend, hfirst]
    omega
  · rintro ⟨r, hr, hx, hx'⟩
    obtain ⟨-, -, hfirst, hend⟩ := hin r hr
    exact ⟨by omega, by omega⟩
  · rintro ⟨hx, hx'⟩
    exact hof x hx hx'
  · intro lpn unit
    constructor
    · rintro ⟨r, hr, hflag⟩
      rw [lineRequest_flag] at hflag
      obtain ⟨hpos, -, hfirst, hend⟩ := hin r hr
      refine ⟨r.first cfg, hfirst, by omega, ?_⟩
      rw [hdiv r hr _ le_rfl (by omega)]
      exact hflag
    · rintro ⟨x, hx, hx', hflag⟩
      obtain ⟨r, hr, hfirst, hend⟩ := hof x hx hx'
      rw [hdiv r hr x hfirst hend] at hflag
      exact ⟨r, hr, lineRequest_flag r.slpn lpn unit |>.mpr hflag⟩

/-- A split that is right tells that the first page need not be shortened and that the page
numbers do not wrap around. -/
theorem splits_of_exact (hslpn : req.range.slpn < 2 ^ 64) (hlength : req.length < 2 ^ 64)
    (hpos : 0 < req.length) (hexact : req.Exact cfg (req.subRequests cfg)) : req.Splits cfg := by
  have hpage : 0 < cfg.logicalPageSize := by omega
  have hunit : ∀ i < req.range.nlp,
      req.unit cfg (req.length - i * cfg.logicalPageSize) i ∈ req.subRequests cfg := fun i hi =>
    List.mem_map_of_mem (List.mem_range.mpr hi)
  constructor
  · by_contra hfirst
    have hle := hexact.inPage _ (hunit 0 ((lt_nlp_iff hpage hnlp).mpr (by omega)))
    have hle : req.offset + min (req.length - 0 * cfg.logicalPageSize) cfg.logicalPageSize ≤
        cfg.logicalPageSize := hle
    omega
  · by_contra hwrap
    -- the sub-request whose page number is 0 again
    let i := 2 ^ 64 - req.range.slpn
    have hi : i < req.range.nlp := by omega
    have hmem := hunit i hi
    generalize hr : req.unit cfg (req.length - i * cfg.logicalPageSize) i = r at hmem
    have hslpn' : r.slpn = 0 := by
      rw [← hr]
      show (req.range.slpn + i) % 2 ^ 64 = 0
      rw [show req.range.slpn + i = 2 ^ 64 by omega]
      rfl
    have hoffset : r.offset = 0 := by
      rw [← hr]
      exact if_neg (by omega)
    have hzero : r.first cfg = 0 := by rw [Request.first, hslpn', hoffset, Nat.zero_mul]
    have hcover := (hexact.covers 0).mp ⟨r, hmem, by omega, by
      have := hexact.nonempty r hmem
      omega⟩
    have hreq : req.range.slpn * cfg.logicalPageSize + req.offset ≤ 0 := hcover.1
    have hstart : req.range.slpn = 0 := by
      rcases Nat.eq_zero_or_pos req.range.slpn with h | h
      · exact h
      · have := Nat.le_mul_of_pos_right req.range.slpn hpage
        omega
    have hlt := (lt_nlp_iff hpage hnlp).mp hi
    have hle : i ≤ i * cfg.logicalPageSize := Nat.le_mul_of_pos_right i hpage
    omega

end Exact

/-- `read` and `write` go through the same sub-requests, and these split the bytes of the
request exactly when the first page need not be shortened. -/
theorem split_exact_iff (cfg : Config) (req : HostRequest) (hslpn : req.range.slpn < 2 ^ 64)
    (hlength : req.length < 2 ^ 64) (hpos : 0 < req.length)
    (hoff : req.offset < cfg.logicalPageSize)
    (hnlp : req.range.nlp = (req.offset + req.length + cfg.logicalPageSize - 1) /
      cfg.logicalPageSize) :
    (∀ (F : Type) (env : Env) (port : FTLPort F) (s : GenericCache F),
      HostOp.exec cfg env port s (.read req) =
          (req.subRequests cfg).foldlM (GenericCache.readSub env port cfg) s ∧
        HostOp.exec cfg env port s (.write req) =
          (req.subRequests cfg).foldlM (GenericCache.writeSub env port cfg) s) ∧
      (req.Exact cfg (req.subRequests cfg) ↔ req.Splits cfg) :=
  ⟨fun _ env port s => ⟨exec_read env port s, exec_write env port s⟩,
    splits_of_exact hoff hnlp hslpn hlength hpos, exact_of_splits hoff hnlp hpos⟩

/-- A request that begins inside a page and ends in it, and one of more than two pages. -/
theorem split_exact_iff_small :
    (HostRequest.Exact .small ⟨0, 512, 1024, ⟨7, 1⟩⟩ (HostRequest.subRequests .small
        ⟨0, 512, 1024, ⟨7, 1⟩⟩) ↔ HostRequest.Splits .small ⟨0, 512, 1024, ⟨7, 1⟩⟩) ∧
      (HostRequest.Exact .small ⟨0, 0, 8193, ⟨2, 3⟩⟩ (HostRequest.subRequests .small
        ⟨0, 0, 8193, ⟨2, 3⟩⟩) ↔ HostRequest.Splits .small ⟨0, 0, 8193, ⟨2, 3⟩⟩) :=
  ⟨(split_exact_iff .small ⟨0, 512, 1024, ⟨7, 1⟩⟩ (by decide) (by decide) (by decide) (by decide)
      (by decide)).2,
    (split_exact_iff .small ⟨0, 0, 8193, ⟨2, 3⟩⟩ (by decide) (by decide) (by decide) (by decide)
      (by decide)).2⟩

/-- A page of bytes from the middle of page 0 on: the first sub-request leaves the page, and
the second one is empty. -/
theorem split_leaves_page :
    HostRequest.subRequests .small ⟨0, 2048, 4096, ⟨0, 2⟩⟩ = [⟨0, 2048, 4096, 0⟩, ⟨0, 0, 0, 1⟩] ∧
      ¬ HostRequest.Exact .small ⟨0, 2048, 4096, ⟨0, 2⟩⟩
        (HostRequest.subRequests .small ⟨0, 2048, 4096, ⟨0, 2⟩⟩) :=
  ⟨by decide, fun h => absurd (h.inPage ⟨0, 2048, 4096, 0⟩ (by decide)) (by decide)⟩

end SimpleSSD.ICL
