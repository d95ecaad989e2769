import SimpleSSD.HIL.NVMe.ChunkMask

/-!
# Writes to chunks

The chunks are advertised as written sequentially: the pages that went to the flash since the last
reset are the first ones, each once and in increasing order, and the descriptor says how many. A
write keeps this exactly when its pages are in order: a page past the next one of its chunk is not
refused, and a refused page past the 64th is written nevertheless.
-/

namespace SimpleSSD.HIL.NVMe

open PAL (CPDPBP)

namespace OCSSDParameter

variable {p : OCSSDParameter} {a b : ChunkAddress}

/-- The chunk is one of the device. -/
def Contains (p : OCSSDParameter) (a : ChunkAddress) : Prop :=
  a.group < p.group ∧ a.parallelUnit < p.parallelUnit ∧ a.chunk < p.chunk

theorem mul_add_inj {n x y i j : Nat} (hi : i < n) (hj : j < n) (h : x * n + i = y * n + j) :
    x = y ∧ i = j := by
  have hpos : 0 < n := (Nat.zero_le i).trans_lt hi
  have hmod := congrArg (· % n) h
  have hdiv := congrArg (· / n) h
  simp only [Nat.mul_add_mod_self_right, Nat.mod_eq_of_lt hi, Nat.mod_eq_of_lt hj] at hmod
  simp only [Nat.add_comm _ i, Nat.add_comm _ j, Nat.add_mul_div_right _ _ hpos,
    Nat.div_eq_of_lt hi, Nat.div_eq_of_lt hj, Nat.zero_add] at hdiv
  exact ⟨hdiv, hmod⟩

theorem mul_add_lt {n m x i : Nat} (hx : x < m) (hi : i < n) : x * n + i < m * n := by
  have hmul := Nat.mul_le_mul_right n hx
  rw [Nat.succ_mul] at hmul
  omega

/-- The chunks can be counted in 32 bits. -/
theorem chunks_lt (p : OCSSDParameter) : p.group * p.parallelUnit * p.chunk < 2 ^ 32 := by
  have hchunk : p.chunk ≤ p.plane * p.block := by
    rw [chunk]
    split
    · next hmp =>
      have hlba := p.lbaSize_le
      rw [if_pos hmp] at hlba
      have hplane : 0 < p.plane := by
        rcases Nat.eq_zero_or_pos p.plane with hzero | hpos
        · rw [hzero, Nat.mul_zero] at hlba
          exact absurd hlba (by decide)
        · exact hpos
      rw [Nat.mul_one]
      exact Nat.le_mul_of_pos_left p.block hplane
    · exact (Nat.mul_comm p.block p.plane).le
  calc p.group * p.parallelUnit * p.chunk
    _ ≤ p.channel * (p.package * p.die) * (p.plane * p.block) := Nat.mul_le_mul_left _ hchunk
    _ = p.channel * p.package * p.die * p.plane * p.block := by simp only [Nat.mul_assoc]
    _ < 2 ^ 32 := p.blocks_lt

/-- The descriptors of the chunks are one behind the other. -/
theorem getChunkDescriptor_eq (ha : p.Contains a) : p.getChunkDescriptor a =
    (a.group * p.parallelUnit + a.parallelUnit) * p.chunk + a.chunk ∧
      p.getChunkDescriptor a < p.group * p.parallelUnit * p.chunk := by
  have hlt : (a.group * p.parallelUnit + a.parallelUnit) * p.chunk + a.chunk <
      p.group * p.parallelUnit * p.chunk := mul_add_lt (mul_add_lt ha.1 ha.2.1) ha.2.2
  have heq : p.getChunkDescriptor a =
      (a.group * p.parallelUnit + a.parallelUnit) * p.chunk + a.chunk := by
    rw [getChunkDescriptor, ← Nat.add_mul]
    exact Nat.mod_eq_of_lt (hlt.trans p.chunks_lt)
  exact ⟨heq, heq ▸ hlt⟩

/-- Two chunks have two descriptors. -/
theorem getChunkDescriptor_inj (ha : p.Contains a) (hb : p.Contains b)
    (h : p.getChunkDescriptor a = p.getChunkDescriptor b) : a = b := by
  rw [(getChunkDescriptor_eq ha).1, (getChunkDescriptor_eq hb).1] at h
  obtain ⟨hunits, hchunk⟩ := mul_add_inj ha.2.2 hb.2.2 h
  obtain ⟨hgroup, hunit⟩ := mul_add_inj ha.2.1 hb.2.1 hunits
  cases a
  cases b
  simp_all

/-- Two chunks have two blocks. -/
theorem convert_inj (h : p.convert a 0 = p.convert b 0) : a = b := by
  rw [convert, convert, CPDPBP.mk.injEq] at h
  obtain ⟨hgroup, hpackage, hdie, hplane, hblock, -⟩ := h
  have hunit : a.parallelUnit = b.parallelUnit := by
    rw [← Nat.div_add_mod a.parallelUnit p.die, hpackage, hdie, Nat.div_add_mod]
  have hchunk : a.chunk = b.chunk := by
    by_cases hmp : p.useMP = true
    · rwa [if_pos hmp, if_pos hmp] at hblock
    · rw [if_neg hmp, if_neg hmp] at hplane hblock
      rw [← Nat.div_add_mod a.chunk p.plane, hplane, hblock, Nat.div_add_mod]
  cases a
  cases b
  simp_all

theorem writeSize_pos (p : OCSSDParameter) : 0 < p.writeSize :=
  Nat.div_pos p.lbaSize_le (by decide)

/-- The page `t.2` of the chunk `t.1`. -/
def entry (p : OCSSDParameter) (t : ChunkAddress × Nat) : ChunkPage :=
  (p.convert t.1 t.2, ⟨p.getChunkDescriptor t.1, t.2⟩)

/-- The pages are ones of the device. -/
def Targets (p : OCSSDParameter) (ts : List (ChunkAddress × Nat)) : Prop :=
  ∀ t ∈ ts, p.Contains t.1 ∧ (t.2 + 1) * p.writeSize < 2 ^ 32

theorem pageOf_eq (lba : Nat) :
    p.pageOf lba = p.entry ((p.parseLBA lba).1, (p.parseLBA lba).2 / p.writeSize) := rfl

theorem page_bound {l : Nat} (hl : l < p.chunkSize) :
    (l / p.writeSize + 1) * p.writeSize < 2 ^ 32 := by
  have hchunk : p.chunkSize ≤ 2 ^ 20 := by
    refine Nat.div_le_of_le_mul ?_
    have hlt := Nat.mod_lt (p.page * p.superPageSize) (show 0 < 2 ^ 32 by decide)
    rw [ocssdLbaSize]
    omega
  have hsize : p.writeSize ≤ 2 ^ 20 := by
    refine Nat.div_le_of_le_mul ?_
    have hlt : p.superPageSize < 2 ^ 32 := by
      rw [superPageSize]
      split
      · exact Nat.mod_lt _ (by decide)
      · exact p.pageSize_lt
    rw [ocssdLbaSize]
    omega
  have hmul := Nat.div_mul_le_self l p.writeSize
  rw [Nat.add_mul, Nat.one_mul]
  omega

theorem push_cases (block : Bool) (pages : List ChunkPage) (page : ChunkPage) :
    push block pages page = pages ∨ push block pages page = pages ++ [page] := by
  rw [push]
  split
  · exact .inr rfl
  · next back _ =>
    by_cases hsame :
        (if block then { back.1 with page := page.1.page } else back.1) = page.1
    · exact .inl (if_pos hsame)
    · exact .inr (if_neg hsame)

/-- `convertUnit` gives pages of the device, no more than logical blocks. -/
theorem convertUnit_entries (block : Bool) {lbaList : List Nat}
    (h : ∀ lba ∈ lbaList, OpenChannelSSD.InGeometry p lba) : ∃ ts,
      p.convertUnit block lbaList = ts.map p.entry ∧ p.Targets ts ∧ ts.length ≤ lbaList.length := by
  induction lbaList using List.reverseRecOn with
  | nil => exact ⟨[], rfl, (fun _ ht => by cases ht), le_rfl⟩
  | append_singleton l lba ih =>
    obtain ⟨ts, hts, htargets, hlength⟩ := ih fun x hx => h x (List.mem_append_left _ hx)
    obtain ⟨hgroup, hunit, hchunk, hl⟩ := h lba (by simp)
    have hfold : p.convertUnit block (l ++ [lba]) =
        push block (p.convertUnit block l) (p.pageOf lba) := by
      rw [convertUnit, convertUnit, List.foldl_append]
      rfl
    rw [hfold, hts, pageOf_eq, List.length_append, List.length_singleton]
    rcases push_cases block (ts.map p.entry)
      (p.entry ((p.parseLBA lba).1, (p.parseLBA lba).2 / p.writeSize)) with heq | heq
    · exact ⟨ts, heq, htargets, by omega⟩
    · refine ⟨ts ++ [((p.parseLBA lba).1, (p.parseLBA lba).2 / p.writeSize)], ?_, fun t ht => ?_,
        by simp; omega⟩
      · rw [heq, List.map_append]
        rfl
      rcases List.mem_append.mp ht with ht | ht
      · exact htargets t ht
      · rw [List.mem_singleton.mp ht]
        exact ⟨⟨hgroup, hunit, hchunk⟩, page_bound hl⟩

end OCSSDParameter

open ChunkUpdate (writeRefused advance eraseRefused writePage erasePage)
open ZoneOp (Sequential written writes)

/-- A descriptor says which pages of its chunk are written. -/
structure ChunkKept (p : OCSSDParameter) (desc : ChunkDescriptor) (pages : List Nat) : Prop where
  sequential : Sequential pages
  writePointer : desc.writePointer = pages.length * p.writeSize
  free : desc.chunkState = .free ↔ pages = []
  closed : desc.chunkState = .closed ↔ pages.length = p.page
  opened : desc.chunkState = .opened ↔ pages ≠ [] ∧ pages.length ≠ p.page

section Chunk

variable {p : OCSSDParameter} {desc : ChunkDescriptor} {pages : List Nat} {page : Nat}

theorem ChunkKept.not_offline (h : ChunkKept p desc pages) : desc.chunkState ≠ .offline := by
  intro hoffline
  have hfree := h.free
  have hclosed := h.closed
  have hopened := h.opened
  rw [hoffline] at hfree hclosed hopened
  by_cases hnil : pages = []
  · exact absurd (hfree.mpr hnil) (by simp)
  · by_cases hfull : pages.length = p.page
    · exact absurd (hclosed.mpr hfull) (by simp)
    · exact absurd (hopened.mpr ⟨hnil, hfull⟩) (by simp)

theorem ChunkKept.nextPage (h : ChunkKept p desc pages) :
    desc.writePointer / p.writeSize = pages.length := by
  rw [h.writePointer, Nat.mul_div_cancel _ p.writeSize_pos]

/-- Refused are the pages behind the write pointer, and all pages of a full chunk. -/
theorem ChunkKept.writeRefused_iff (h : ChunkKept p desc pages) (page : Nat) :
    writeRefused p desc page ↔ page < pages.length ∨ pages.length = p.page := by
  rw [writeRefused, h.nextPage]
  cases hstate : desc.chunkState with
  | offline => exact absurd hstate h.not_offline
  | closed => exact iff_of_true (.inr (.inl rfl)) (.inr (h.closed.mp hstate))
  | free =>
    have hpos := p.page_pos
    rw [h.free.mp hstate]
    refine iff_of_false (by simp) ?_
    rw [List.length_nil]
    omega
  | opened =>
    have hfull := (h.opened.mp hstate).2
    simp [hfull]

/-- The next page is written. -/
theorem ChunkKept.advance (h : ChunkKept p desc pages)
    (hbound : (pages.length + 1) * p.writeSize < 2 ^ 32) :
    ChunkKept p (advance p pages.length) (pages ++ [pages.length]) := by
  have hpos := p.page_pos
  have hlength : (pages ++ [pages.length]).length = pages.length + 1 := by simp
  have hne : pages ++ [pages.length] ≠ [] := by simp
  refine ⟨ZoneOp.sequential_concat_iff.mpr ⟨h.sequential, rfl⟩, ?_, ?_, ?_, ?_⟩
  · rw [hlength]
    exact Nat.mod_eq_of_lt hbound
  · refine iff_of_false ?_ hne
    rw [ChunkUpdate.advance]
    split <;> simp
  · rw [hlength, ChunkUpdate.advance]
    split
    · exact iff_of_true rfl (by omega)
    · exact iff_of_false (by simp) (by omega)
  · rw [hlength, ChunkUpdate.advance]
    split
    · exact iff_of_false (by simp) (by omega)
    · exact iff_of_true rfl ⟨hne, by omega⟩

theorem chunkKept_free (p : OCSSDParameter) : ChunkKept p ⟨.free, 0⟩ [] := by
  have hpos := p.page_pos
  refine ⟨ZoneOp.sequential_nil, by simp, by simp, iff_of_false (by simp) ?_, by simp⟩
  rw [List.length_nil]
  omega

end Chunk

/-- Every chunk of the device is kept. -/
def Kept (p : OCSSDParameter) (desc : Nat → ChunkDescriptor) (flash : List (ZoneOp CPDPBP)) :
    Prop :=
  ∀ a, p.Contains a → ChunkKept p (desc (p.getChunkDescriptor a)) (written (p.convert a 0) flash)

/-! ### Writes -/

section Writes

variable {p : OCSSDParameter} {desc : Nat → ChunkDescriptor} {flash : List (ZoneOp CPDPBP)}
  {ts : List (ChunkAddress × Nat)}

/-- The pages before the first one that is refused, and the descriptors after them. -/
def acceptWrites (p : OCSSDParameter) :
    (Nat → ChunkDescriptor) → List ChunkUpdateEntry → Nat × (Nat → ChunkDescriptor)
  | desc, [] => (0, desc)
  | desc, e :: rest =>
    if writeRefused p (desc e.desc) e.pageIdx then (0, desc)
    else
      let r := acceptWrites p (Function.update desc e.desc (advance p e.pageIdx)) rest
      (r.1 + 1, r.2)

/-- Once there was an error, the loop only sets bits. -/
theorem writePages_err {n i : Nat} {u : ChunkUpdate} (h : u.Marked n i) (hlt : n < i)
    (entries : List ChunkUpdateEntry) :
    (entries.foldl (writePage p) u).Marked n (i + entries.length) ∧
      (entries.foldl (writePage p) u).pDescriptor = u.pDescriptor := by
  induction entries generalizing u i with
  | nil => exact ⟨h, rfl⟩
  | cons e rest ih =>
    have herr : u.err = true := by
      rw [h.err]
      exact decide_eq_true hlt
    have hround : writePage p u e =
        ChunkUpdate.next { u with err := true, resp := { u.resp with status := some 0xF2 } } :=
      if_pos (.inl herr)
    have hnext : (writePage p u e).Marked n (i + 1) := by
      rw [hround]
      exact h.next_err rfl ⟨rfl, rfl⟩ rfl
    obtain ⟨hmarked, hdesc⟩ := ih hnext (by omega)
    rw [List.foldl_cons, List.length_cons]
    refine ⟨?_, hdesc.trans ?_⟩
    · rwa [Nat.add_assoc, Nat.add_comm 1] at hmarked
    · rw [hround]
      rfl

/-- The loop marks the pages from the first one on that is refused. -/
theorem writePages_marked {i : Nat} {u : ChunkUpdate} (h : u.Marked i i)
    (entries : List ChunkUpdateEntry) :
    (entries.foldl (writePage p) u).Marked (i + (acceptWrites p u.pDescriptor entries).1)
        (i + entries.length) ∧
      (entries.foldl (writePage p) u).pDescriptor = (acceptWrites p u.pDescriptor entries).2 := by
  induction entries generalizing u i with
  | nil => exact ⟨h, rfl⟩
  | cons e rest ih =>
    have herr : u.err = false := by
      rw [h.err]
      exact decide_eq_false (lt_irrefl i)
    rw [List.foldl_cons, List.length_cons, acceptWrites]
    by_cases hrefused : writeRefused p (u.pDescriptor e.desc) e.pageIdx
    · have hround : writePage p u e =
          ChunkUpdate.next { u with err := true, resp := { u.resp with status := some 0xF2 } } :=
        if_pos (.inr hrefused)
      have hnext : (writePage p u e).Marked i (i + 1) := by
        rw [hround]
        exact h.next_err rfl ⟨rfl, rfl⟩ rfl
      obtain ⟨hmarked, hdesc⟩ := writePages_err (p := p) hnext (Nat.lt_succ_self i) rest
      rw [if_pos hrefused]
      refine ⟨?_, hdesc.trans ?_⟩
      · rwa [Nat.add_assoc, Nat.add_comm 1] at hmarked
      · rw [hround]
        rfl
    · have hround : writePage p u e = ChunkUpdate.next { u with
          pDescriptor := Function.update u.pDescriptor e.desc (advance p e.pageIdx) } :=
        if_neg (by simp [herr, hrefused])
      have hnext : (writePage p u e).Marked (i + 1) (i + 1) := by
        rw [hround]
        exact h.next_ok rfl ⟨rfl, rfl⟩ herr
      have hdesc : (writePage p u e).pDescriptor =
          Function.update u.pDescriptor e.desc (advance p e.pageIdx) := by
        rw [hround]
        rfl
      obtain ⟨hmarked, hdesc'⟩ := ih hnext
      rw [if_neg hrefused]
      rw [hdesc] at hmarked hdesc'
      refine ⟨?_, hdesc'⟩
      rwa [Nat.add_assoc, Nat.add_comm 1, Nat.add_assoc, Nat.add_comm 1] at hmarked

/-- The pages as writes to the flash. -/
def targetWrites (p : OCSSDParameter) (ts : List (ChunkAddress × Nat)) : List (ZoneOp CPDPBP) :=
  writes (ts.map fun t => (p.convert t.1 0, t.2))

/-- The pages are in order: each is the next one of its chunk, up to the first that is refused,
because it is behind the next one or the chunk is full; and if there is one, the command has
no more pages than bits. -/
def InOrder (p : OCSSDParameter) (short : Prop) : (Nat → Nat) → List ChunkUpdateEntry → Prop
  | _, [] => True
  | next, e :: rest =>
    (e.pageIdx < next e.desc ∨ next e.desc = p.page) ∧ short ∨
      e.pageIdx = next e.desc ∧ next e.desc ≠ p.page ∧
        InOrder p short (Function.update next e.desc (next e.desc + 1)) rest

/-- A chunk with a page that is out of order is not kept, whatever is written after it. -/
theorem not_kept_of_gap {a : ChunkAddress} {page : Nat} {more : List (CPDPBP × Nat)}
    (ha : p.Contains a) (hpage : page ≠ (written (p.convert a 0) flash).length) :
    ¬ Kept p desc (flash ++ [.write (p.convert a 0) page] ++ writes more) := by
  intro h
  have hsequential := (h a ha).sequential
  rw [ZoneOp.written_writes, ZoneOp.written_write_self] at hsequential
  exact hpage (ZoneOp.sequential_concat_iff.mp hsequential.of_append).2

/-- A chunk to which something is written without its descriptor is not kept. -/
theorem eq_nil_of_kept {more : List (ChunkAddress × Nat)} (h : Kept p desc flash)
    (h' : Kept p desc (flash ++ targetWrites p more)) (hmore : p.Targets more) : more = [] := by
  cases more with
  | nil => rfl
  | cons t rest =>
    have hpointer := (h t.1 (hmore t List.mem_cons_self).1).writePointer
    have hpointer' := (h' t.1 (hmore t List.mem_cons_self).1).writePointer
    rw [targetWrites, ZoneOp.written_writes, hpointer] at hpointer'
    have hlength := Nat.eq_of_mul_eq_mul_right p.writeSize_pos hpointer'
    simp at hlength

theorem acceptWrites_refused {e : ChunkUpdateEntry} {rest : List ChunkUpdateEntry}
    (h : writeRefused p (desc e.desc) e.pageIdx) : acceptWrites p desc (e :: rest) = (0, desc) :=
  if_pos h

theorem acceptWrites_written {e : ChunkUpdateEntry} {rest : List ChunkUpdateEntry}
    (h : ¬ writeRefused p (desc e.desc) e.pageIdx) : acceptWrites p desc (e :: rest) =
      ((acceptWrites p (Function.update desc e.desc (advance p e.pageIdx)) rest).1 + 1,
        (acceptWrites p (Function.update desc e.desc (advance p e.pageIdx)) rest).2) :=
  if_neg h

/-- An operation on the block of a chunk changes the descriptor of this chunk. -/
theorem Kept.update {a : ChunkAddress} {op : ZoneOp CPDPBP} {d : ChunkDescriptor}
    (h : Kept p desc flash) (ha : p.Contains a)
    (hself : ChunkKept p d (written (p.convert a 0) (flash ++ [op])))
    (hother : ∀ zone, p.convert a 0 ≠ zone → written zone (flash ++ [op]) = written zone flash) :
    Kept p (Function.update desc (p.getChunkDescriptor a) d) (flash ++ [op]) := by
  intro b hb
  by_cases hab : b = a
  · subst hab
    rwa [Function.update_self]
  · have hdesc : p.getChunkDescriptor b ≠ p.getChunkDescriptor a := fun heq =>
      hab (OCSSDParameter.getChunkDescriptor_inj hb ha heq)
    have hblock : p.convert a 0 ≠ p.convert b 0 := fun heq =>
      hab (OCSSDParameter.convert_inj heq).symm
    rw [Function.update_of_ne hdesc, hother _ hblock]
    exact h b hb

/-- The next page of a chunk is written. -/
theorem Kept.write {a : ChunkAddress} (h : Kept p desc flash) (ha : p.Contains a)
    (hbound : ((written (p.convert a 0) flash).length + 1) * p.writeSize < 2 ^ 32) :
    Kept p (Function.update desc (p.getChunkDescriptor a)
        (advance p (written (p.convert a 0) flash).length))
      (flash ++ [.write (p.convert a 0) (written (p.convert a 0) flash).length]) := by
  refine h.update ha ?_ fun zone => ZoneOp.written_write_of_ne
  rw [ZoneOp.written_write_self]
  exact (h a ha).advance hbound

/-- A kept device stays kept exactly when the pages that are written are in order. The pages of
`extra` are those that are written although they are refused. -/
theorem writes_kept_iff (short : Prop) (next : Nat → Nat) (extra : List (ChunkAddress × Nat))
    {n : Nat} {desc' : Nat → ChunkDescriptor} (h : Kept p desc flash)
    (hnext : ∀ a, p.Contains a →
      next (p.getChunkDescriptor a) = (written (p.convert a 0) flash).length)
    (hts : p.Targets ts) (hextra : p.Targets extra) (hshort : extra = [] ↔ short)
    (hr : acceptWrites p desc (ts.map fun t => (p.entry t).2) = (n, desc')) :
    Kept p desc' (flash ++ targetWrites p (ts.take n) ++
        targetWrites p (if n < ts.length then extra else [])) ↔
      InOrder p short next (ts.map fun t => (p.entry t).2) := by
  induction ts generalizing desc flash next n with
  | nil =>
    cases hr
    refine iff_of_true ?_ trivial
    simpa [targetWrites, writes] using h
  | cons t rest ih =>
    obtain ⟨hcontains, hbound⟩ := hts t List.mem_cons_self
    have hrest : p.Targets rest := fun x hx => hts x (List.mem_cons_of_mem t hx)
    have hrefused := (h t.1 hcontains).writeRefused_iff t.2
    have ht := hnext t.1 hcontains
    have horder : InOrder p short next ((t :: rest).map fun t => (p.entry t).2) ↔
        (t.2 < (written (p.convert t.1 0) flash).length ∨
            (written (p.convert t.1 0) flash).length = p.page) ∧ short ∨
          t.2 = (written (p.convert t.1 0) flash).length ∧
            (written (p.convert t.1 0) flash).length ≠ p.page ∧
              InOrder p short (Function.update next (p.getChunkDescriptor t.1)
                ((written (p.convert t.1 0) flash).length + 1))
                (rest.map fun t => (p.entry t).2) := by
      rw [← ht]
      exact Iff.rfl
    rw [horder]
    rw [List.map_cons] at hr
    by_cases hrefuse : writeRefused p (desc (p.getChunkDescriptor t.1)) t.2
    · -- the first page that is refused
      have hbehind := hrefused.mp hrefuse
      rw [acceptWrites_refused hrefuse] at hr
      cases hr
      have hempty : targetWrites p ((t :: rest).take 0) = [] := rfl
      rw [hempty, List.append_nil, List.length_cons, if_pos (Nat.succ_pos _)]
      constructor
      · intro hk
        exact .inl ⟨hbehind, hshort.mp (eq_nil_of_kept h hk hextra)⟩
      · rintro (⟨-, hs⟩ | ⟨heq, hne, -⟩)
        · rw [hshort.mpr hs]
          simpa [targetWrites, writes] using h
        · omega
    · have hnot := mt hrefused.mpr hrefuse
      rw [not_or, Nat.not_lt] at hnot
      rw [acceptWrites_written hrefuse] at hr
      obtain ⟨hn, hdesc'⟩ := Prod.mk.inj hr
      obtain ⟨m, hm, rfl⟩ : ∃ m, acceptWrites p (Function.update desc (p.getChunkDescriptor t.1)
          (advance p t.2)) (rest.map fun t => (p.entry t).2) = (m, desc') ∧ n = m + 1 :=
        ⟨_, Prod.ext rfl hdesc', hn.symm⟩
      have htake : targetWrites p ((t :: rest).take (m + 1)) =
          [.write (p.convert t.1 0) t.2] ++ targetWrites p (rest.take m) := rfl
      have hlt : (if m + 1 < (t :: rest).length then extra else []) =
          if m < rest.length then extra else [] := by
        simp only [List.length_cons, Nat.add_lt_add_iff_right]
      rw [htake, hlt, ← List.append_assoc]
      by_cases heq : t.2 = (written (p.convert t.1 0) flash).length
      · -- the next page of its chunk
        rw [heq] at hbound hm ⊢
        have hih := ih (Function.update next (p.getChunkDescriptor t.1)
          ((written (p.convert t.1 0) flash).length + 1)) (h.write hcontains hbound) ?_ hrest hm
        · rw [hih]
          refine ⟨fun ho => .inr ⟨rfl, hnot.2, ho⟩, ?_⟩
          rintro (⟨hbehind, -⟩ | ⟨-, -, ho⟩)
          · omega
          · exact ho
        · intro b hb
          by_cases hbt : b = t.1
          · subst hbt
            rw [Function.update_self, ZoneOp.written_write_self, List.length_append,
              List.length_singleton]
          · have hdesc : p.getChunkDescriptor b ≠ p.getChunkDescriptor t.1 := fun he =>
              hbt (OCSSDParameter.getChunkDescriptor_inj hb hcontains he)
            have hblock : p.convert t.1 0 ≠ p.convert b 0 := fun he =>
              hbt (OCSSDParameter.convert_inj he).symm
            rw [Function.update_of_ne hdesc, ZoneOp.written_write_of_ne hblock]
            exact hnext b hb
      · -- past the next page
        refine iff_of_false ?_ ?_
        · rw [List.append_assoc, targetWrites, targetWrites, writes, writes, ← List.map_append]
          exact not_kept_of_gap hcontains heq
        · rintro (⟨hbehind, -⟩ | ⟨heq', -⟩)
          · omega
          · exact heq heq'

/-- The next page of a chunk, as its descriptor has it. -/
def nextPage (p : OCSSDParameter) (desc : Nat → ChunkDescriptor) (idx : Nat) : Nat :=
  (desc idx).writePointer / p.writeSize

theorem Kept.nextPage (h : Kept p desc flash) (a : ChunkAddress) (ha : p.Contains a) :
    nextPage p desc (p.getChunkDescriptor a) = (written (p.convert a 0) flash).length :=
  (h a ha).nextPage

theorem map_palWrite (ts : List (ChunkAddress × Nat)) :
    (ts.map fun t => (p.entry t).1).map OpenChannelSSD.palWrite = targetWrites p ts := by
  rw [targetWrites, writes, List.map_map, List.map_map]
  rfl

/-- A write keeps the chunks exactly when its pages are in order. -/
theorem writeInternal_kept_iff {s : OpenChannelSSD} {lbaList : List Nat}
    (h : Kept p s.pDescriptor s.flash) (hlba : ∀ lba ∈ lbaList, OpenChannelSSD.InGeometry p lba) :
    Kept p (s.writeInternal p lbaList).2.pDescriptor (s.writeInternal p lbaList).2.flash ↔
      InOrder p ((p.convertUnit false lbaList).length ≤ 64) (nextPage p s.pDescriptor)
        ((p.convertUnit false lbaList).map Prod.snd) := by
  obtain ⟨ts, hts, htargets, -⟩ := OCSSDParameter.convertUnit_entries false hlba
  obtain ⟨n, desc', hr⟩ : ∃ n desc', acceptWrites p s.pDescriptor (ts.map fun t => (p.entry t).2) =
    (n, desc') := ⟨_, _, rfl⟩
  have hentries : (ts.map p.entry).map Prod.snd = ts.map fun t => (p.entry t).2 := List.map_map
  have hlist : (ts.map p.entry).map Prod.fst = ts.map fun t => (p.entry t).1 := List.map_map
  obtain ⟨hmarked, hdesc⟩ := writePages_marked (p := p) (ChunkUpdate.start_marked s.pDescriptor)
    (ts.map fun t => (p.entry t).2)
  have hstart : (ChunkUpdate.start s.pDescriptor).pDescriptor = s.pDescriptor := rfl
  rw [hstart, hr] at hmarked hdesc
  simp only [Nat.zero_add, List.length_map] at hmarked
  have hn : n ≤ ts.length := hmarked.le
  have hfinish := ChunkUpdate.finish_list (ts.map fun t => (p.entry t).1)
    (by rw [List.length_map]; exact hmarked)
  rw [← List.map_take, ← List.map_drop] at hfinish
  -- the pages past the bits are written although they are refused
  have hextra : (if n < ts.length then (if n < ts.length then ts.drop (max n 64)
      else if ts.length ≤ 64 then [] else ts) else []) = ts.drop (max n 64) := by
    split
    · rfl
    · rw [List.drop_eq_nil_of_le (by omega)]
  have hiff := writes_kept_iff (ts.length ≤ 64) (nextPage p s.pDescriptor)
    (if n < ts.length then ts.drop (max n 64) else if ts.length ≤ 64 then [] else ts)
    h h.nextPage htargets ?_ ?_ hr
  · rw [hextra] at hiff
    have hstate : (s.writeInternal p lbaList).2 = ⟨desc', s.flash ++ targetWrites p (ts.take n) ++
        targetWrites p (ts.drop (max n 64))⟩ := by
      rw [OpenChannelSSD.writeInternal, hts, hentries, hlist]
      dsimp only
      rw [hfinish, List.map_append, map_palWrite, map_palWrite, hdesc, List.append_assoc]
    rw [hstate, hts, hentries, List.length_map]
    exact hiff
  · intro t ht
    split at ht
    · exact htargets t (List.mem_of_mem_drop ht)
    · split at ht
      · cases ht
      · exact htargets t ht
  · split
    · rw [List.drop_eq_nil_iff]
      omega
    · split
      · exact iff_of_true rfl ‹_›
      · next hlong =>
        exact iff_of_false (fun hnil => hlong (by rw [hnil]; exact Nat.zero_le _)) hlong

end Writes

end SimpleSSD.HIL.NVMe
