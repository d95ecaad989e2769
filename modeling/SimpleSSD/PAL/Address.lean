import SimpleSSD.Lib.MixedRadix
import SimpleSSD.Lib.Run
import SimpleSSD.PAL.Config

/-!
# Flash addresses of a request (pal_old.cc:169–331)

`convertCPDPBP` takes the block index of a request apart at the places of the page
allocation that the super block does not span, and counts through the places that
it does span, one flag bit each. The source has the counting once for every number
of places; here it is one recursion over them.

`slot` is the address of one flag bit, in closed form. `convertCPDPBP_eq` says that
the loops list exactly the slots of the bits that are set.
-/

namespace SimpleSSD.PAL

/-- `CPDPBP` (SimpleSSD_types.h:216–224). -/
structure CPDPBP where
  channel : Nat
  package : Nat
  die : Nat
  plane : Nat
  block : Nat
  page : Nat
  deriving DecidableEq, Repr

namespace CPDPBP

def coord (addr : CPDPBP) : AddrIndex → Nat
  | .channel => addr.channel
  | .package => addr.package
  | .die => addr.die
  | .plane => addr.plane

def set (addr : CPDPBP) (idx : AddrIndex) (v : Nat) : CPDPBP :=
  match idx with
  | .channel => { addr with channel := v }
  | .package => { addr with package := v }
  | .die => { addr with die := v }
  | .plane => { addr with plane := v }

/-- The address with these coordinates. -/
def ofCoord (c : AddrIndex → Nat) (block page : Nat) : CPDPBP :=
  ⟨c .channel, c .package, c .die, c .plane, block, page⟩

@[simp] theorem ofCoord_coord (addr : CPDPBP) : ofCoord addr.coord addr.block addr.page = addr :=
  rfl

@[simp] theorem coord_ofCoord (c : AddrIndex → Nat) (block page : Nat) :
    (ofCoord c block page).coord = c := by
  funext idx
  cases idx <;> rfl

theorem set_ofCoord (c : AddrIndex → Nat) (block page : Nat) (idx : AddrIndex) (v : Nat) :
    (ofCoord c block page).set idx v = ofCoord (Function.update c idx v) block page := by
  cases idx <;> rfl

end CPDPBP

/-- What `convertCPDPBP` reads of the PAL. -/
structure PALOLD where
  param : Parameter
  pageAllocation : List AddrIndex
  superblock : AddrIndex → Bool
  useMultiplaneOP : Bool
  bRandomTweak : Bool

namespace PALOLD

/-- The PAL of a configuration. -/
def new (cfg : Config) (bRandomTweak : Bool) : Except Fault PALOLD := do
  let settings ← cfg.update
  let param ← Parameter.new cfg settings
  .ok {
    param := param
    pageAllocation := settings.pageAllocation
    superblock := settings.superblock
    useMultiplaneOP := cfg.useMultiPlaneOperation
    bRandomTweak := bRandomTweak }

section Convert

variable (pal : PALOLD)

/-- Locals of `convertCPDPBP`: `ptr` lists the places that `ptr[0]`, `ptr[1]`, … point at. -/
structure Cursor where
  addr : CPDPBP
  tmp : Nat
  ptr : List AddrIndex

/-- The test of the plane case, which multi-plane operation skips. -/
def skips (idx : AddrIndex) : Bool := pal.useMultiplaneOP && idx = .plane

/-- One iteration of the loop over the page allocation (pal_old.cc:198–251). -/
def takeIndex (acc : Cursor) (idx : AddrIndex) : Except Fault Cursor :=
  if pal.skips idx then .ok acc
  else if pal.superblock idx then .ok { acc with ptr := acc.ptr ++ [idx] }
  else if pal.param.count idx = 0 then .error (.badAccess "tmp % 0")
  else .ok {
    acc with
    addr := acc.addr.set idx (acc.tmp % pal.param.count idx)
    tmp := acc.tmp / pal.param.count idx }

/-- The nested loops (pal_old.cc:257–325), the outermost place first. The innermost
body tests the next bit of the flag. -/
def expand (ioFlag : Bitset) : List AddrIndex → CPDPBP → Nat × List CPDPBP → Nat × List CPDPBP
  | [], addr, (tmp, list) => (tmp + 1, if ioFlag.test tmp then list ++ [addr] else list)
  | idx :: rest, addr, acc =>
    (List.range (pal.param.count idx)).foldl (fun acc i => expand ioFlag rest (addr.set idx i) acc)
      acc

/-- The size check of the flag (pal_old.cc:183–190). Without the tweak a flag of another
size is replaced; `set()` on an empty one writes in front of its bytes. -/
def checkFlag (ioFlag : Bitset) : Except Fault Bitset :=
  if ioFlag.dataSize = pal.param.pageInSuperPage then .ok ioFlag
  else if pal.bRandomTweak then
    .error (.panic "PALOLD::convertCPDPBP" "Invalid size of I/O flag")
  else if pal.param.pageInSuperPage = 0 then .error (.badAccess "Bitset::set")
  else .ok (Bitset.new pal.param.pageInSuperPage).setAll

/-- `convertCPDPBP` (pal_old.cc:169–331): the request with its flag as the call leaves it,
and the list. The fields of `addr` that the loop leaves unset are set before they are read. -/
def convertCPDPBP (req : Request) : Except Fault (Request × List CPDPBP) := do
  let ioFlag ← pal.checkFlag req.ioFlag
  let cur ← pal.pageAllocation.foldlM pal.takeIndex ⟨⟨0, 0, 0, 0, 0, 0⟩, req.blockIndex, []⟩
  let addr := { cur.addr with block := cur.tmp, page := req.pageIndex }
  let acc := pal.expand ioFlag cur.ptr.reverse addr (0, [])
  if acc.1 ≠ pal.param.pageInSuperPage then
    .error (.panic "PALOLD::convertCPDPBP" "I/O flag size != # pages in super page")
  else .ok ({ req with ioFlag := ioFlag }, acc.2)

end Convert

/-! ### The address of a flag bit -/

section Slot

variable (pal : PALOLD)

/-- The places that a block index is taken apart at. -/
def outer : List AddrIndex :=
  pal.pageAllocation.filter fun idx => !pal.skips idx && !pal.superblock idx

/-- The places that the flag bits are counted at, the first one fastest. -/
def inner : List AddrIndex :=
  pal.pageAllocation.filter fun idx => !pal.skips idx && pal.superblock idx

/-- The address of bit `i` of a request for block `b`. -/
def slot (b i page : Nat) : CPDPBP :=
  let (c, block) := MixedRadix.digits pal.param.count pal.outer (fun _ => 0) b
  CPDPBP.ofCoord (MixedRadix.digits pal.param.count pal.inner c i).1 block page

end Slot

section Loops

variable {pal : PALOLD}

/-- The loop over the page allocation computes digits and collects the other places. -/
theorem foldlM_takeIndex (pal : PALOLD) (l : List AddrIndex) (hpos : ∀ idx ∈ l, ¬ pal.skips idx →
      ¬ pal.superblock idx → 0 < pal.param.count idx) (c : AddrIndex → Nat)
    (block page tmp : Nat) (ptr : List AddrIndex) :
    l.foldlM pal.takeIndex ⟨CPDPBP.ofCoord c block page, tmp, ptr⟩ =
      .ok ⟨CPDPBP.ofCoord (MixedRadix.digits pal.param.count
          (l.filter fun idx => !pal.skips idx && !pal.superblock idx) c tmp).1 block page,
        (MixedRadix.digits pal.param.count
          (l.filter fun idx => !pal.skips idx && !pal.superblock idx) c tmp).2,
        ptr ++ l.filter fun idx => !pal.skips idx && pal.superblock idx⟩ := by
  induction l generalizing c tmp ptr with
  | nil => simp [MixedRadix.digits]
  | cons idx l ih =>
    have hrest := fun idx' h => hpos idx' (List.mem_cons_of_mem idx h)
    rw [List.foldlM_cons]
    by_cases hskip : pal.skips idx
    · have htake : pal.takeIndex ⟨CPDPBP.ofCoord c block page, tmp, ptr⟩ idx =
          .ok ⟨CPDPBP.ofCoord c block page, tmp, ptr⟩ := if_pos hskip
      simp only [htake, Bind.bind, Except.bind]
      rw [ih hrest]
      simp [hskip]
    · by_cases hmem : pal.superblock idx
      · have htake : pal.takeIndex ⟨CPDPBP.ofCoord c block page, tmp, ptr⟩ idx =
            .ok ⟨CPDPBP.ofCoord c block page, tmp, ptr ++ [idx]⟩ := by
          simp [takeIndex, hskip, hmem]
        simp only [htake, Bind.bind, Except.bind]
        rw [ih hrest]
        simp [hskip, hmem]
      · have hcount := hpos idx List.mem_cons_self hskip hmem
        have htake : pal.takeIndex ⟨CPDPBP.ofCoord c block page, tmp, ptr⟩ idx =
            .ok ⟨CPDPBP.ofCoord (Function.update c idx (tmp % pal.param.count idx)) block page,
              tmp / pal.param.count idx, ptr⟩ := by
          simp [takeIndex, hskip, hmem, hcount.ne', CPDPBP.set_ofCoord]
        simp only [htake, Bind.bind, Except.bind]
        rw [ih hrest]
        simp [hskip, hmem, MixedRadix.digits]

/-- An outer place without any number stops the loop. -/
theorem foldlM_takeIndex_zero (pal : PALOLD) (l : List AddrIndex) (cur : Cursor)
    (h : ∃ idx ∈ l, ¬ pal.skips idx ∧ ¬ pal.superblock idx ∧ pal.param.count idx = 0) :
    l.foldlM pal.takeIndex cur = .error (.badAccess "tmp % 0") := by
  induction l generalizing cur with
  | nil =>
    obtain ⟨idx, hidx, -⟩ := h
    cases hidx
  | cons idx l ih =>
    rw [List.foldlM_cons]
    by_cases hzero : ¬ pal.skips idx ∧ ¬ pal.superblock idx ∧ pal.param.count idx = 0
    · rw [takeIndex, if_neg hzero.1, if_neg hzero.2.1, if_pos hzero.2.2]
      rfl
    · have hrest : ∃ idx ∈ l, ¬ pal.skips idx ∧ ¬ pal.superblock idx ∧ pal.param.count idx = 0 := by
        obtain ⟨idx', hidx', h⟩ := h
        rcases List.mem_cons.mp hidx' with rfl | hidx'
        · exact absurd h hzero
        · exact ⟨idx', hidx', h⟩
      cases htake : pal.takeIndex cur idx with
      | ok cur' => exact ih cur' hrest
      | error e =>
        rw [takeIndex] at htake
        split at htake
        · cases htake
        · split at htake
          · cases htake
          · split at htake <;> cases htake
            rfl

/-- The positions from `tmp` on, `n` of them, that the flag has set. -/
def selected (ioFlag : Bitset) (tmp n : Nat) : List Nat :=
  (List.range n).filter fun i => ioFlag.test (tmp + i)

theorem selected_add (ioFlag : Bitset) (tmp m n : Nat) :
    selected ioFlag tmp (m + n) =
      selected ioFlag tmp m ++ (selected ioFlag (tmp + m) n).map (m + ·) := by
  rw [selected, List.range_add, List.filter_append, List.filter_map]
  simp only [selected, Function.comp_def, Nat.add_assoc]

/-- The nested loops list the digits of the selected positions. -/
theorem expand_spec (pal : PALOLD) (ioFlag : Bitset) (ks : List AddrIndex) (hnodup : ks.Nodup)
    (c : AddrIndex → Nat) (block page tmp : Nat) (list : List CPDPBP) :
    pal.expand ioFlag ks.reverse (CPDPBP.ofCoord c block page) (tmp, list) =
      (tmp + MixedRadix.size pal.param.count ks,
        list ++ (selected ioFlag tmp (MixedRadix.size pal.param.count ks)).map fun i =>
          CPDPBP.ofCoord (MixedRadix.digits pal.param.count ks c i).1 block page) := by
  induction ks using List.reverseRecOn generalizing c tmp list with
  | nil =>
    rw [List.reverse_nil, expand, MixedRadix.size_nil]
    by_cases h : ioFlag.test tmp <;> simp [selected, h, MixedRadix.digits]
  | append_singleton ks k ih =>
    have hk : k ∉ ks := fun hk => List.disjoint_of_nodup_append hnodup hk List.mem_cons_self
    have hnodup := List.Nodup.of_append_left hnodup
    generalize hn : pal.param.count k = n
    have hsize : MixedRadix.size pal.param.count (ks ++ [k]) =
        MixedRadix.size pal.param.count ks * n := by
      rw [MixedRadix.size_append, MixedRadix.size_cons, MixedRadix.size_nil, hn, Nat.mul_one]
    rw [List.reverse_append, List.reverse_singleton, List.singleton_append, expand, hn, hsize]
    -- the outer loop after `j ≤ n` rounds has tested `j` times the inner positions
    have hloop : ∀ j ≤ n, (List.range j).foldl (fun acc i => pal.expand ioFlag ks.reverse
          ((CPDPBP.ofCoord c block page).set k i) acc) (tmp, list) =
        (tmp + MixedRadix.size pal.param.count ks * j,
          list ++ (selected ioFlag tmp (MixedRadix.size pal.param.count ks * j)).map fun i =>
            CPDPBP.ofCoord (MixedRadix.digits pal.param.count (ks ++ [k]) c i).1 block page) := by
      intro j hj
      induction j with
      | zero => simp [selected]
      | succ j ihj =>
        rw [List.range_succ, List.foldl_append, ihj (by omega), List.foldl_cons, List.foldl_nil,
          CPDPBP.set_ofCoord, ih hnodup, Nat.mul_succ, selected_add, List.map_append,
          List.map_map, Nat.add_assoc, List.append_assoc]
        congr 3
        refine List.map_congr_left fun i hi => ?_
        have hlt : i < MixedRadix.size pal.param.count ks :=
          List.mem_range.mp (List.mem_of_mem_filter hi)
        have hdiv : (MixedRadix.size pal.param.count ks * j + i) /
            MixedRadix.size pal.param.count ks = j := by
          rw [Nat.mul_add_div (by omega), Nat.div_eq_of_lt hlt, Nat.add_zero]
        rw [Function.comp_apply, MixedRadix.digits_update hk, MixedRadix.digits_append,
          MixedRadix.digits_snd, hdiv, MixedRadix.digits, MixedRadix.digits, hn,
          Nat.mod_eq_of_lt (by omega), Nat.add_comm _ i, MixedRadix.digits_fst_add]
    exact hloop n le_rfl

/-- The call lists the slots of the set bits of a flag of the right size. -/
theorem convertCPDPBP_eq (hnodup : pal.pageAllocation.Nodup)
    (hpos : ∀ idx ∈ pal.outer, 0 < pal.param.count idx)
    (hsize : MixedRadix.size pal.param.count pal.inner = pal.param.pageInSuperPage)
    (req : Request) (hflag : req.ioFlag.dataSize = pal.param.pageInSuperPage) :
    pal.convertCPDPBP req = .ok (req,
      (selected req.ioFlag 0 pal.param.pageInSuperPage).map fun i =>
        pal.slot req.blockIndex i req.pageIndex) := by
  let taken := MixedRadix.digits pal.param.count pal.outer (fun _ => 0) req.blockIndex
  have hfold : pal.pageAllocation.foldlM pal.takeIndex ⟨⟨0, 0, 0, 0, 0, 0⟩, req.blockIndex, []⟩ =
      .ok ⟨CPDPBP.ofCoord taken.1 0 0, taken.2, pal.inner⟩ :=
    pal.foldlM_takeIndex pal.pageAllocation
      (fun idx hmem hskip hsuper => hpos idx (by simp [outer, hmem, hskip, hsuper]))
      (fun _ => 0) 0 0 req.blockIndex []
  have hexpand := pal.expand_spec req.ioFlag pal.inner (hnodup.filter _) taken.1 taken.2
    req.pageIndex 0 []
  rw [hsize, Nat.zero_add, List.nil_append] at hexpand
  have haddr : { CPDPBP.ofCoord taken.1 0 0 with block := taken.2, page := req.pageIndex } =
      CPDPBP.ofCoord taken.1 taken.2 req.pageIndex := rfl
  simp only [convertCPDPBP, checkFlag, if_pos hflag, hfold, Bind.bind, Except.bind, haddr,
    hexpand, ne_eq, not_true_eq_false, if_false]
  rfl

/-- A flag of the right size passes both checks. -/
theorem convertCPDPBP_foreign (hnodup : pal.pageAllocation.Nodup)
    (hsize : MixedRadix.size pal.param.count pal.inner = pal.param.pageInSuperPage)
    {req : Request} (hflag : req.ioFlag.dataSize = pal.param.pageInSuperPage) (m : String) :
    pal.convertCPDPBP req ≠ .error (.panic "PALOLD::convertCPDPBP" m) := by
  intro h
  by_cases hpos : ∀ idx ∈ pal.outer, 0 < pal.param.count idx
  · rw [convertCPDPBP_eq hnodup hpos hsize req hflag] at h
    cases h
  · simp only [not_forall, outer, List.mem_filter, Bool.and_eq_true, Bool.not_eq_true',
      Nat.not_lt, Nat.le_zero] at hpos
    obtain ⟨idx, ⟨hmem, hskip, hsuper⟩, hzero⟩ := hpos
    rw [convertCPDPBP, checkFlag, if_pos hflag] at h
    simp only [Bind.bind, Except.bind] at h
    rw [foldlM_takeIndex_zero pal _ _ ⟨idx, hmem, by simp [hskip], by simp [hsuper], hzero⟩] at h
    cases h

/-- Without the tweak a flag of another size is replaced by a full one. -/
theorem convertCPDPBP_refill (htweak : pal.bRandomTweak = false)
    (hpages : pal.param.pageInSuperPage ≠ 0) {req : Request}
    (hflag : req.ioFlag.dataSize ≠ pal.param.pageInSuperPage) :
    pal.convertCPDPBP req =
      pal.convertCPDPBP { req with ioFlag := (Bitset.new pal.param.pageInSuperPage).setAll } := by
  have hfull : (Bitset.new pal.param.pageInSuperPage).setAll.dataSize = pal.param.pageInSuperPage :=
    rfl
  rw [convertCPDPBP, convertCPDPBP, checkFlag, if_neg hflag, htweak, if_neg Bool.false_ne_true,
    if_neg hpages, checkFlag, if_pos hfull]

/-- Neither check fails on a flag of the right size, nor on any flag without the tweak. -/
theorem convertCPDPBP_checked (hnodup : pal.pageAllocation.Nodup)
    (hsize : MixedRadix.size pal.param.count pal.inner = pal.param.pageInSuperPage)
    {req : Request}
    (hflag : pal.bRandomTweak = true → req.ioFlag.dataSize = pal.param.pageInSuperPage)
    (m : String) :
    pal.convertCPDPBP req ≠ .error (.panic "PALOLD::convertCPDPBP" m) := by
  by_cases hright : req.ioFlag.dataSize = pal.param.pageInSuperPage
  · exact convertCPDPBP_foreign hnodup hsize hright m
  · have htweak : pal.bRandomTweak = false := Bool.eq_false_iff.mpr fun h => hright (hflag h)
    by_cases hpages : pal.param.pageInSuperPage = 0
    · intro h
      rw [convertCPDPBP, checkFlag, if_neg hright, htweak, if_neg Bool.false_ne_true,
        if_pos hpages] at h
      cases h
    · rw [convertCPDPBP_refill htweak hpages hright]
      exact convertCPDPBP_foreign hnodup hsize rfl m

end Loops

end PALOLD

end SimpleSSD.PAL
