import SimpleSSD.HIL.NVMe.ChunkWrites
import SimpleSSD.Lib.Run

/-!
# The discipline of the chunks

A reset keeps the chunks exactly when no closed chunk comes after one that is refused: its
descriptor would be reset, but not its block. Over a run, with the writes, the chunks are as they
are advertised exactly when every command is in order.
-/

namespace SimpleSSD.HIL.NVMe

open PAL (CPDPBP)
open ChunkUpdate (eraseRefused erasePage)
open ZoneOp (written writes)

section Resets

variable {p : OCSSDParameter} {desc : Nat → ChunkDescriptor} {flash : List (ZoneOp CPDPBP)}
  {ts : List (ChunkAddress × Nat)}

/-- The descriptors after a round of `eraseInternal`. -/
def resetDesc (desc : Nat → ChunkDescriptor) (e : ChunkUpdateEntry) : Nat → ChunkDescriptor :=
  match eraseRefused (desc e.desc) with
  | some _ => desc
  | none => Function.update desc e.desc ⟨.free, 0⟩

/-- How many resets come before the first one that is refused. -/
def acceptResets : (Nat → ChunkDescriptor) → List ChunkUpdateEntry → Nat
  | _, [] => 0
  | desc, e :: rest =>
    match eraseRefused (desc e.desc) with
    | some _ => 0
    | none => acceptResets (Function.update desc e.desc ⟨.free, 0⟩) rest + 1

theorem eraseRefused_eq_none (d : ChunkDescriptor) :
    eraseRefused d = none ↔ d.chunkState = .closed := by
  rw [eraseRefused]
  cases d.chunkState <;> simp

theorem acceptResets_closed {e : ChunkUpdateEntry} {rest : List ChunkUpdateEntry}
    (h : (desc e.desc).chunkState = .closed) : acceptResets desc (e :: rest) =
      acceptResets (Function.update desc e.desc ⟨.free, 0⟩) rest + 1 := by
  rw [acceptResets, (eraseRefused_eq_none _).mpr h]

theorem acceptResets_of_ne {e : ChunkUpdateEntry} {rest : List ChunkUpdateEntry}
    (h : (desc e.desc).chunkState ≠ .closed) : acceptResets desc (e :: rest) = 0 := by
  rw [acceptResets]
  split
  · rfl
  · next hnone => exact absurd ((eraseRefused_eq_none _).mp hnone) h

theorem resetDesc_closed {e : ChunkUpdateEntry} (h : (desc e.desc).chunkState = .closed) :
    resetDesc desc e = Function.update desc e.desc ⟨.free, 0⟩ := by
  rw [resetDesc, (eraseRefused_eq_none _).mpr h]

theorem resetDesc_of_ne {e : ChunkUpdateEntry} (h : (desc e.desc).chunkState ≠ .closed) :
    resetDesc desc e = desc := by
  rw [resetDesc]
  split
  · rfl
  · next hnone => exact absurd ((eraseRefused_eq_none _).mp hnone) h

theorem erasePage_closed {u : ChunkUpdate} {e : ChunkUpdateEntry}
    (h : (u.pDescriptor e.desc).chunkState = .closed) : erasePage u e =
      ChunkUpdate.next
        { u with pDescriptor := Function.update u.pDescriptor e.desc ⟨.free, 0⟩ } := by
  rw [erasePage, (eraseRefused_eq_none _).mpr h]

theorem erasePage_of_ne {u : ChunkUpdate} {e : ChunkUpdateEntry}
    (h : (u.pDescriptor e.desc).chunkState ≠ .closed) : ∃ status, erasePage u e =
      ChunkUpdate.next { u with err := true, resp := { u.resp with status := status } } := by
  rw [erasePage]
  split
  · exact ⟨_, rfl⟩
  · next hnone => exact absurd ((eraseRefused_eq_none _).mp hnone) h

theorem erasePage_desc (u : ChunkUpdate) (e : ChunkUpdateEntry) :
    (erasePage u e).pDescriptor = resetDesc u.pDescriptor e := by
  by_cases h : (u.pDescriptor e.desc).chunkState = .closed
  · rw [erasePage_closed h, resetDesc_closed h]
    rfl
  · obtain ⟨status, heq⟩ := erasePage_of_ne h
    rw [heq, resetDesc_of_ne h]
    rfl

theorem erasePages_desc (u : ChunkUpdate) (entries : List ChunkUpdateEntry) :
    (entries.foldl erasePage u).pDescriptor = entries.foldl resetDesc u.pDescriptor := by
  induction entries generalizing u with
  | nil => rfl
  | cons e rest ih => rw [List.foldl_cons, List.foldl_cons, ih, erasePage_desc]

theorem erasePages_err {n i : Nat} {u : ChunkUpdate} (h : u.Marked n i) (hlt : n < i)
    (entries : List ChunkUpdateEntry) :
    (entries.foldl erasePage u).Marked n (i + entries.length) := by
  induction entries generalizing u i with
  | nil => exact h
  | cons e rest ih =>
    have herr : u.err = true := by
      rw [h.err]
      exact decide_eq_true hlt
    have hnext : (erasePage u e).Marked n (i + 1) := by
      by_cases hclosed : (u.pDescriptor e.desc).chunkState = .closed
      · rw [erasePage_closed hclosed]
        exact h.next_err rfl ⟨rfl, rfl⟩ herr
      · obtain ⟨status, heq⟩ := erasePage_of_ne hclosed
        rw [heq]
        exact h.next_err rfl ⟨rfl, rfl⟩ rfl
    have hmarked := ih hnext (by omega)
    rwa [Nat.add_assoc, Nat.add_comm 1] at hmarked

theorem erasePages_marked {i : Nat} {u : ChunkUpdate} (h : u.Marked i i)
    (entries : List ChunkUpdateEntry) :
    (entries.foldl erasePage u).Marked (i + acceptResets u.pDescriptor entries)
      (i + entries.length) := by
  induction entries generalizing u i with
  | nil => exact h
  | cons e rest ih =>
    rw [List.foldl_cons, List.length_cons]
    by_cases hclosed : (u.pDescriptor e.desc).chunkState = .closed
    · have hnext : (erasePage u e).Marked (i + 1) (i + 1) := by
        rw [erasePage_closed hclosed]
        refine h.next_ok rfl ⟨rfl, rfl⟩ ?_
        rw [h.err]
        exact decide_eq_false (lt_irrefl i)
      have hmarked := ih hnext
      rw [erasePage_desc, resetDesc_closed hclosed] at hmarked
      rw [acceptResets_closed hclosed]
      rwa [Nat.add_assoc, Nat.add_comm 1, Nat.add_assoc, Nat.add_comm 1] at hmarked
    · obtain ⟨status, heq⟩ := erasePage_of_ne hclosed
      have hnext : (erasePage u e).Marked i (i + 1) := by
        rw [heq]
        exact h.next_err rfl ⟨rfl, rfl⟩ rfl
      have hmarked := erasePages_err hnext (Nat.lt_succ_self i) rest
      rw [acceptResets_of_ne hclosed]
      rwa [Nat.add_assoc, Nat.add_comm 1] at hmarked

/-- The chunks are in order for a reset: after the first one that is not closed, none is. -/
def ResetsInOrder : (Nat → Bool) → List ChunkUpdateEntry → Prop
  | _, [] => True
  | closed, e :: rest =>
    if closed e.desc then ResetsInOrder (Function.update closed e.desc false) rest
    else ∀ e' ∈ rest, closed e'.desc = false

/-- The chunk can be reset. -/
def isClosed (desc : Nat → ChunkDescriptor) (idx : Nat) : Bool := (desc idx).chunkState = .closed

theorem isClosed_reset (desc : Nat → ChunkDescriptor) (idx : Nat) :
    isClosed (Function.update desc idx ⟨.free, 0⟩) = Function.update (isClosed desc) idx false := by
  funext i
  by_cases h : i = idx
  · subst h
    rw [isClosed, Function.update_self, Function.update_self]
    rfl
  · rw [isClosed, Function.update_of_ne h, Function.update_of_ne h]
    rfl

/-- A chunk that is not closed stays so, and the chunks of the entries become so. -/
theorem foldl_resetDesc_not_closed (desc : Nat → ChunkDescriptor)
    (entries : List ChunkUpdateEntry) :
    (∀ idx, (desc idx).chunkState ≠ .closed → (entries.foldl resetDesc desc) idx = desc idx) ∧
      ∀ e ∈ entries, ((entries.foldl resetDesc desc) e.desc).chunkState ≠ .closed := by
  induction entries generalizing desc with
  | nil => exact ⟨fun _ _ => rfl, fun _ he => by cases he⟩
  | cons e rest ih =>
    rw [List.foldl_cons]
    have hround : ((resetDesc desc e) e.desc).chunkState ≠ .closed := by
      by_cases hclosed : (desc e.desc).chunkState = .closed
      · rw [resetDesc_closed hclosed, Function.update_self]
        intro h
        cases h
      · rwa [resetDesc_of_ne hclosed]
    obtain ⟨hkeep, hentries⟩ := ih (resetDesc desc e)
    constructor
    · intro idx hidx
      have hsame : resetDesc desc e idx = desc idx := by
        by_cases hclosed : (desc e.desc).chunkState = .closed
        · have hne : idx ≠ e.desc := by
            intro heq
            exact hidx (heq ▸ hclosed)
          rw [resetDesc_closed hclosed, Function.update_of_ne hne]
        · rw [resetDesc_of_ne hclosed]
      rw [hkeep idx (by rwa [hsame]), hsame]
    · intro e' he'
      rcases List.mem_cons.mp he' with rfl | he'
      · rwa [hkeep e'.desc hround]
      · exact hentries e' he'

theorem foldl_resetDesc_of_not_closed {entries : List ChunkUpdateEntry}
    (h : ∀ e ∈ entries, isClosed desc e.desc = false) : entries.foldl resetDesc desc = desc := by
  induction entries with
  | nil => rfl
  | cons e rest ih =>
    have hfirst : (desc e.desc).chunkState ≠ .closed :=
      of_decide_eq_false (h e List.mem_cons_self)
    rw [List.foldl_cons, resetDesc_of_ne hfirst]
    exact ih fun e' he' => h e' (List.mem_cons_of_mem e he')

/-- Descriptors that are reset without their blocks are kept only if no chunk was closed. -/
theorem foldl_resetDesc_kept_iff (h : Kept p desc flash) (hts : p.Targets ts) :
    Kept p ((ts.map fun t => (p.entry t).2).foldl resetDesc desc) flash ↔
      ∀ e ∈ ts.map fun t => (p.entry t).2, isClosed desc e.desc = false := by
  constructor
  · intro hk e he
    obtain ⟨t, ht, rfl⟩ := List.mem_map.mp he
    -- before and after, the chunk is closed exactly when all its pages are written
    have hbefore := (h t.1 (hts t ht).1).closed
    have hafter := (hk t.1 (hts t ht).1).closed
    have hnot := (foldl_resetDesc_not_closed desc _).2 _ he
    exact decide_eq_false fun hclosed => hnot (hafter.mpr (hbefore.mp hclosed))
  · intro hall
    rwa [foldl_resetDesc_of_not_closed hall]

/-- A chunk and its block are reset. -/
theorem Kept.reset {a : ChunkAddress} (h : Kept p desc flash) (ha : p.Contains a) :
    Kept p (Function.update desc (p.getChunkDescriptor a) ⟨.free, 0⟩)
      (flash ++ [.reset (p.convert a 0)]) := by
  refine h.update ha ?_ fun zone => ZoneOp.written_reset_of_ne
  rw [ZoneOp.written_reset_self]
  exact chunkKept_free p

/-- The chunks as resets of the flash. -/
def targetResets (p : OCSSDParameter) (ts : List (ChunkAddress × Nat)) : List (ZoneOp CPDPBP) :=
  ts.map fun t => .reset (p.convert t.1 0)

/-- A kept device stays kept exactly when the chunks that are reset are in order. -/
theorem resets_kept_iff (h : Kept p desc flash) (hts : p.Targets ts) :
    Kept p ((ts.map fun t => (p.entry t).2).foldl resetDesc desc)
        (flash ++ targetResets p (ts.take (acceptResets desc (ts.map fun t => (p.entry t).2)))) ↔
      ResetsInOrder (isClosed desc) (ts.map fun t => (p.entry t).2) := by
  induction ts generalizing desc flash with
  | nil =>
    refine iff_of_true ?_ trivial
    simpa [targetResets] using h
  | cons t rest ih =>
    have hcontains := (hts t List.mem_cons_self).1
    have hrest : p.Targets rest := fun x hx => hts x (List.mem_cons_of_mem t hx)
    rw [List.map_cons, List.foldl_cons, ResetsInOrder]
    by_cases hclosed : (desc (p.entry t).2.desc).chunkState = .closed
    · have htrue : isClosed desc (p.entry t).2.desc = true := decide_eq_true hclosed
      have hih := ih (h.reset hcontains) hrest
      rw [acceptResets_closed hclosed, if_pos htrue, resetDesc_closed hclosed, ← isClosed_reset]
      rwa [List.append_assoc] at hih
    · have hfalse : isClosed desc (p.entry t).2.desc = false := decide_eq_false hclosed
      have hempty : targetResets p ((t :: rest).take 0) = [] := rfl
      rw [acceptResets_of_ne hclosed, hfalse, if_neg Bool.false_ne_true, resetDesc_of_ne hclosed,
        hempty, List.append_nil]
      exact foldl_resetDesc_kept_iff h hrest

theorem map_palErase (ts : List (ChunkAddress × Nat)) :
    (ts.map fun t => (p.entry t).1).map OpenChannelSSD.palErase = targetResets p ts := by
  rw [targetResets, List.map_map]
  rfl

/-- A reset keeps the chunks exactly when they are in order. -/
theorem eraseInternal_kept_iff {s : OpenChannelSSD} {lbaList : List Nat}
    (h : Kept p s.pDescriptor s.flash) (hlba : ∀ lba ∈ lbaList, OpenChannelSSD.InGeometry p lba)
    (hlength : lbaList.length ≤ 64) :
    Kept p (s.eraseInternal p lbaList).2.pDescriptor (s.eraseInternal p lbaList).2.flash ↔
      ResetsInOrder (isClosed s.pDescriptor) ((p.convertUnit true lbaList).map Prod.snd) := by
  obtain ⟨ts, hts, htargets, hle⟩ := OCSSDParameter.convertUnit_entries true hlba
  have hentries : (ts.map p.entry).map Prod.snd = ts.map fun t => (p.entry t).2 := List.map_map
  have hlist : (ts.map p.entry).map Prod.fst = ts.map fun t => (p.entry t).1 := List.map_map
  have hmarked := erasePages_marked (ChunkUpdate.start_marked s.pDescriptor)
    (ts.map fun t => (p.entry t).2)
  have hstart : (ChunkUpdate.start s.pDescriptor).pDescriptor = s.pDescriptor := rfl
  simp only [hstart, Nat.zero_add, List.length_map] at hmarked
  have hfinish := ChunkUpdate.finish_list (ts.map fun t => (p.entry t).1)
    (by rw [List.length_map]; exact hmarked)
  -- a vector command has no more chunks than bits
  rw [← List.map_take, ← List.map_drop, List.drop_eq_nil_of_le (by omega), List.map_nil,
    List.append_nil] at hfinish
  have hstate : (s.eraseInternal p lbaList).2 =
      ⟨(ts.map fun t => (p.entry t).2).foldl resetDesc s.pDescriptor, s.flash ++ targetResets p
        (ts.take (acceptResets s.pDescriptor (ts.map fun t => (p.entry t).2)))⟩ := by
    rw [OpenChannelSSD.eraseInternal, hts, hentries, hlist]
    dsimp only
    rw [hfinish, map_palErase, erasePages_desc, hstart]
  rw [hstate, hts, hentries]
  exact resets_kept_iff h htargets

end Resets

namespace OpenChannelSSD

variable {p : OCSSDParameter} {s s' : OpenChannelSSD} {c : Command}

/-- Every chunk is as it is advertised: the pages that went to the flash since its last reset are
the first ones, each once and in increasing order, and the descriptor says how many. -/
def Disciplined (p : OCSSDParameter) (s : OpenChannelSSD) : Prop :=
  Kept p s.pDescriptor s.flash

/-- The command leaves every chunk as it is advertised. -/
def Keeps (p : OCSSDParameter) (s : OpenChannelSSD) (c : Command) : Prop :=
  ∃ s', s.exec p c = .ok s' ∧ s'.Disciplined p

/-- The command is in order. Each page of a write is the next one of its chunk, up to the first one
that is refused, and a write of more than 64 pages has none that is; in a reset no closed chunk
comes after one that is not closed. -/
def Respects (p : OCSSDParameter) (s : OpenChannelSSD) : Command → Prop
  | .write slba nlb =>
    (nlb + 1) % 2 ^ 16 = 0 ∨
      InOrder p ((p.convertUnit false (Command.write slba nlb).lbaList).length ≤ 64)
        (nextPage p s.pDescriptor)
        ((p.convertUnit false (Command.write slba nlb).lbaList).map Prod.snd)
  | .vectorChunkWrite lbaList =>
    InOrder p ((p.convertUnit false lbaList).length ≤ 64) (nextPage p s.pDescriptor)
      ((p.convertUnit false lbaList).map Prod.snd)
  | .vectorChunkReset lbaList =>
    ResetsInOrder (isClosed s.pDescriptor) ((p.convertUnit true lbaList).map Prod.snd)

theorem init_disciplined (p : OCSSDParameter) : init.Disciplined p :=
  fun _ _ => chunkKept_free p

/-- A command leaves the chunks as they are advertised exactly when it is in order. -/
theorem keeps_iff (h : s.Disciplined p) (hvalid : Valid p s c) : Keeps p s c ↔ Respects p s c := by
  cases c with
  | write slba nlb =>
    have hwrite := writeInternal_kept_iff h hvalid.1
    by_cases hzero : (nlb + 1) % 2 ^ 16 = 0
    · have hexec : s.exec p (.write slba nlb) = .ok s := if_pos hzero
      exact iff_of_true ⟨s, hexec, h⟩ (.inl hzero)
    · have hexec : s.exec p (.write slba nlb) =
          .ok (s.writeInternal p (Command.write slba nlb).lbaList).2 := if_neg hzero
      constructor
      · rintro ⟨s', hs', hk⟩
        rw [hexec] at hs'
        cases hs'
        exact .inr (hwrite.mp hk)
      · rintro (hz | horder)
        · exact absurd hz hzero
        · exact ⟨_, hexec, hwrite.mpr horder⟩
  | vectorChunkWrite lbaList =>
    have hwrite := writeInternal_kept_iff h hvalid.1
    constructor
    · rintro ⟨s', hs', hk⟩
      cases hs'
      exact hwrite.mp hk
    · intro horder
      exact ⟨_, rfl, hwrite.mpr horder⟩
  | vectorChunkReset lbaList =>
    have herase := eraseInternal_kept_iff h hvalid.1 hvalid.2
    constructor
    · rintro ⟨s', hs', hk⟩
      cases hs'
      exact herase.mp hk
    · intro horder
      exact ⟨_, rfl, herase.mpr horder⟩

/-- Over every run each command leaves the chunks as they are advertised exactly when each is in
order. -/
theorem run_disciplined_iff {commands : List Command}
    (hvalid : Run.Along (exec p) (Valid p) init commands) :
    init.Disciplined p ∧
      (Run.Along (exec p) (Keeps p) init commands ↔
        Run.Along (exec p) (Respects p) init commands) := by
  refine ⟨init_disciplined p, ?_⟩
  refine hvalid.iff (I := Disciplined p) (init_disciplined p) (fun s c hs _ hkeeps => ?_)
    fun s c hs hc => keeps_iff hs hc
  obtain ⟨s', hok, hs'⟩ := hkeeps
  rw [hok]
  exact hs'

/-- Two chunks of two pages, each of a logical block. -/
def twoChunks : OCSSDParameter where
  channel := 1
  package := 1
  die := 1
  plane := 1
  block := 2
  page := 2
  pageSize := ocssdLbaSize
  useMP := false
  page_pos := Nat.two_pos
  pageSize_lt := by decide
  lbaSize_le := by decide
  blocks_lt := by decide

/-- The first chunk is filled, and reset; then its first page is written again. -/
def refilled : List Command :=
  [.vectorChunkWrite [0, 2], .vectorChunkWrite [1], .vectorChunkReset [0, 2], .write 0 0]

theorem run_disciplined_iff_refilled : init.Disciplined twoChunks ∧
    (Run.Along (exec twoChunks) (Keeps twoChunks) init refilled ↔
      Run.Along (exec twoChunks) (Respects twoChunks) init refilled) :=
  run_disciplined_iff (by decide +kernel)

/-- The second page of a fresh chunk is written before the first: the chunk is closed, and its
first page is not programmed. -/
theorem not_disciplined_skip :
    Run.Along (exec twoChunks) (Valid twoChunks) init [.vectorChunkWrite [1]] ∧
      ∃ s, [.vectorChunkWrite [1]].foldlM (exec twoChunks) init = .ok s ∧
        ¬ s.Disciplined twoChunks ∧ s.pDescriptor 0 = ⟨.closed, 2⟩ ∧
          written (twoChunks.convert ⟨0, 0, 0⟩ 0) s.flash = [1] :=
  ⟨by decide +kernel, _, rfl,
    fun h => absurd (h ⟨0, 0, 0⟩ ⟨by decide, by decide, by decide⟩).sequential (by decide +kernel),
    by decide +kernel, by decide +kernel⟩

end OpenChannelSSD

end SimpleSSD.HIL.NVMe
