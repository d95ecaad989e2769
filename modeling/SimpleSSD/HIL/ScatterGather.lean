import Mathlib.Data.FinEnum
import Mathlib.Data.Fintype.Prod
import SimpleSSD.HIL.Scatter
import SimpleSSD.Lib.Follow

/-!
# Scatter gather lists (hil/nvme/dma.cc:310–421)

The list of a command is one descriptor of data, or a chain of segments in host memory, each
read by DMA when the one before it has been parsed. `Chain` says what such a list is: the
descriptors of a segment describe data, or are of a type that is not known and left out, and the
last one may point to the next segment.

The device accepts a list exactly when it is one, and then its chunks are those of the list
(`new_eq_some_iff`). A chain that never ends is recognized by its length: with the addresses and
lengths that there are, the device would go in circles.
-/

namespace SimpleSSD.HIL

namespace SGLDescriptor

/-- The descriptor points to a segment. -/
def Pointer (desc : SGLDescriptor) : Prop := desc.type = .segment ∨ desc.type = .lastSegment

/-- The descriptor does not point to a segment, and the subtype of one that describes data is an
address. -/
def Plain (desc : SGLDescriptor) : Prop :=
  ¬ desc.Pointer ∧ (desc.type ≠ .other → desc.id &&& 0x0F = 0)

/-- The data that a plain descriptor describes. -/
def chunk? (desc : SGLDescriptor) : Option Chunk :=
  if desc.type = .other then none
  else some ⟨desc.address.toNat, desc.length.toNat, desc.type = .bitBucket⟩

instance (desc : SGLDescriptor) : Decidable desc.Pointer := inferInstanceAs (Decidable (_ ∨ _))

instance (desc : SGLDescriptor) : Decidable desc.Plain := inferInstanceAs (Decidable (_ ∧ _))

end SGLDescriptor

namespace SGL

/-- The descriptors of a segment. -/
def segment (descriptor : Nat → SGLDescriptor) (address : BitVec 64) (length : BitVec 32) :
    List SGLDescriptor :=
  (List.range (length.toNat / 16)).map fun i => descriptor (address.toNat + 16 * i)

/-- A segment is not empty, and made up of descriptors. -/
def Whole (length : BitVec 32) : Prop := length.toNat ≠ 0 ∧ length.toNat % 16 = 0

/-- A chain of segments, with the chunks that its descriptors describe. -/
inductive Chain (descriptor : Nat → SGLDescriptor) : BitVec 64 → BitVec 32 → List Chunk → Prop where
  | last {address : BitVec 64} {length : BitVec 32} {descs : List SGLDescriptor}
      (whole : Whole length) (segment : segment descriptor address length = descs)
      (plain : ∀ desc ∈ descs, desc.Plain) :
      Chain descriptor address length (descs.filterMap SGLDescriptor.chunk?)
  | link {address : BitVec 64} {length : BitVec 32} {descs : List SGLDescriptor}
      {pointer : SGLDescriptor} {rest : List Chunk}
      (whole : Whole length) (segment : segment descriptor address length = descs ++ [pointer])
      (plain : ∀ desc ∈ descs, desc.Plain) (points : pointer.Pointer)
      (next : Chain descriptor pointer.address pointer.length rest) :
      Chain descriptor address length (descs.filterMap SGLDescriptor.chunk? ++ rest)

/-- The list of a command, whose first descriptor is in the command. -/
def Lists (descriptor : Nat → SGLDescriptor) (first : SGLDescriptor) (chunkList : List Chunk) :
    Prop :=
  match first.type with
  | .dataBlock | .keyedDataBlock => first.Plain ∧ chunkList = first.chunk?.toList
  | .segment | .lastSegment => Chain descriptor first.address first.length chunkList
  | _ => False

/-! ### One segment -/

section Segment

variable {chunkList chunkList' : List Chunk} {desc : SGLDescriptor} {descs : List SGLDescriptor}

theorem parseSGLDescriptor_eq (htype : desc.type ≠ .other) (hpointer : ¬ desc.Pointer) :
    parseSGLDescriptor chunkList desc =
      if desc.id &&& 0x0F ≠ 0 then
        .error (.panic "parseSGLDescriptor" "Unexpected SGL subtype")
      else .ok (chunkList ++ desc.chunk?.toList) := by
  rw [SGLDescriptor.Pointer] at hpointer
  rw [parseSGLDescriptor, SGLDescriptor.chunk?]
  cases h : desc.type with
  | dataBlock => rfl
  | keyedDataBlock => rfl
  | bitBucket => rfl
  | segment => exact absurd (.inl h) hpointer
  | lastSegment => exact absurd (.inr h) hpointer
  | other => exact absurd h htype

/-- A descriptor that does not point to a segment. -/
theorem readDescriptors_cons (hpointer : ¬ desc.Pointer) :
    readDescriptors (desc :: descs) chunkList =
      if desc.Plain then readDescriptors descs (chunkList ++ desc.chunk?.toList)
      else .error (.panic "parseSGLDescriptor" "Unexpected SGL subtype") := by
  by_cases htype : desc.type = .other
  · have hplain : desc.Plain := ⟨hpointer, fun h => absurd htype h⟩
    rw [if_pos hplain, readDescriptors, htype, SGLDescriptor.chunk?, if_pos htype,
      Option.toList_none, List.append_nil]
  · have hdata : readDescriptors (desc :: descs) chunkList =
        (parseSGLDescriptor chunkList desc >>= readDescriptors descs) := by
      rw [readDescriptors]
      cases h : desc.type with
      | dataBlock => rfl
      | keyedDataBlock => rfl
      | bitBucket => rfl
      | segment => exact absurd (.inl h) hpointer
      | lastSegment => exact absurd (.inr h) hpointer
      | other => exact absurd h htype
    rw [hdata, parseSGLDescriptor_eq htype hpointer]
    by_cases hsubtype : desc.id &&& 0x0F = 0
    · rw [if_neg (not_not.mpr hsubtype), if_pos ⟨hpointer, fun _ => hsubtype⟩]
      rfl
    · rw [if_pos hsubtype, if_neg fun hplain => hsubtype (hplain.2 htype)]
      rfl

/-- What is read of a segment. -/
theorem readDescriptors_eq_ok_iff {next : Option SGLDescriptor} :
    readDescriptors descs chunkList = .ok (chunkList', next) ↔
      (next = none ∧ (∀ desc ∈ descs, desc.Plain) ∧
        chunkList' = chunkList ++ descs.filterMap SGLDescriptor.chunk?) ∨
      ∃ before pointer, next = some pointer ∧ descs = before ++ [pointer] ∧ pointer.Pointer ∧
        (∀ desc ∈ before, desc.Plain) ∧
        chunkList' = chunkList ++ before.filterMap SGLDescriptor.chunk? := by
  induction descs generalizing chunkList with
  | nil =>
    constructor
    · rintro ⟨⟩
      exact .inl ⟨rfl, fun desc hdesc => absurd hdesc List.not_mem_nil, (List.append_nil _).symm⟩
    · rintro (⟨rfl, -, rfl⟩ | ⟨before, pointer, -, hnil, -⟩)
      · rw [List.filterMap_nil, List.append_nil]
        rfl
      · exact absurd hnil.symm (List.append_ne_nil_of_right_ne_nil _ (List.cons_ne_nil _ _))
  | cons desc descs ih =>
    by_cases hpointer : desc.Pointer
    · -- a pointer is the last descriptor of its segment
      have hread : readDescriptors (desc :: descs) chunkList =
          if descs = [] then .ok (chunkList, some desc)
          else .error (.panic "parseSGLSegment" "Invalid SGL segment") := by
        rw [readDescriptors]
        rcases hpointer with h | h <;> rw [h]
      rw [hread]
      constructor
      · split
        · next hnil =>
          rintro ⟨⟩
          subst hnil
          exact .inr ⟨[], desc, rfl, rfl, hpointer, fun d hd => absurd hd List.not_mem_nil,
            (List.append_nil _).symm⟩
        · rintro ⟨⟩
      · rintro (⟨-, hplain, -⟩ | ⟨before, pointer, rfl, heq, -, hplain, rfl⟩)
        · exact absurd hpointer (hplain desc List.mem_cons_self).1
        · cases before with
          | nil =>
            obtain ⟨rfl, rfl⟩ := List.cons.inj heq
            rw [if_pos rfl, List.filterMap_nil, List.append_nil]
          | cons first before =>
            obtain ⟨rfl, -⟩ := List.cons.inj heq
            exact absurd hpointer (hplain desc List.mem_cons_self).1
    · rw [readDescriptors_cons hpointer]
      by_cases hplain : desc.Plain
      · rw [if_pos hplain, ih]
        have hchunks : ∀ l, chunkList ++ desc.chunk?.toList ++ l.filterMap SGLDescriptor.chunk? =
            chunkList ++ (desc :: l).filterMap SGLDescriptor.chunk? := by
          intro l
          rw [List.append_assoc, List.filterMap_cons]
          cases desc.chunk? <;> rfl
        constructor
        · rintro (⟨rfl, hall, rfl⟩ | ⟨before, pointer, rfl, rfl, hpoints, hall, rfl⟩)
          · exact .inl ⟨rfl, List.forall_mem_cons.mpr ⟨hplain, hall⟩, hchunks descs⟩
          · exact .inr ⟨desc :: before, pointer, rfl, rfl, hpoints,
              List.forall_mem_cons.mpr ⟨hplain, hall⟩, hchunks before⟩
        · rintro (⟨rfl, hall, rfl⟩ | ⟨before, pointer, rfl, heq, hpoints, hall, rfl⟩)
          · exact .inl ⟨rfl, (List.forall_mem_cons.mp hall).2, (hchunks descs).symm⟩
          · cases before with
            | nil =>
              obtain ⟨rfl, -⟩ := List.cons.inj heq
              exact absurd hpoints hpointer
            | cons first before =>
              obtain ⟨rfl, rfl⟩ := List.cons.inj heq
              exact .inr ⟨before, pointer, rfl, rfl, hpoints, (List.forall_mem_cons.mp hall).2,
                (hchunks before).symm⟩
      · rw [if_neg hplain]
        refine iff_of_false (fun h => by cases h) ?_
        rintro (⟨-, hall, -⟩ | ⟨before, pointer, -, heq, hpoints, hall, -⟩)
        · exact hplain (hall desc List.mem_cons_self)
        · cases before with
          | nil =>
            obtain ⟨rfl, -⟩ := List.cons.inj heq
            exact hpointer hpoints
          | cons first before =>
            obtain ⟨rfl, -⟩ := List.cons.inj heq
            exact hplain (hall desc List.mem_cons_self)

end Segment

/-! ### The chain -/

section Chain

variable {descriptor : Nat → SGLDescriptor} {address : BitVec 64} {length : BitVec 32}
  {chunkList chunkList' : List Chunk}

/-- The segment behind another one, by its address and length. -/
def follow (descriptor : Nat → SGLDescriptor) (place : BitVec 64 × BitVec 32) :
    Option (BitVec 64 × BitVec 32) :=
  match (segment descriptor place.1 place.2).getLast? with
  | some pointer => if pointer.Pointer then some (pointer.address, pointer.length) else none
  | none => none

theorem parseSGLSegment_whole (hwhole : Whole length) (fuel : Nat) :
    parseSGLSegment descriptor (fuel + 1) address.toNat length.toNat chunkList =
      readDescriptors (segment descriptor address length) chunkList >>= fun read =>
        match read.2 with
        | none => .ok (some read.1)
        | some desc =>
          parseSGLSegment descriptor fuel desc.address.toNat desc.length.toNat read.1 := by
  rw [parseSGLSegment, if_neg hwhole.1, if_neg (not_not.mpr hwhole.2)]
  rfl

/-- A segment from which a list is read to its end. -/
theorem Chain.of_parse {fuel : Nat}
    (h : parseSGLSegment descriptor fuel address.toNat length.toNat chunkList =
      .ok (some chunkList')) :
    ∃ rest, chunkList' = chunkList ++ rest ∧ Chain descriptor address length rest := by
  induction fuel generalizing address length chunkList with
  | zero => cases h
  | succ fuel ih =>
    have hwhole : Whole length := by
      rw [parseSGLSegment] at h
      refine ⟨fun hzero => ?_, by_contra fun hpart => ?_⟩
      · rw [if_pos hzero] at h
        cases h
      · split at h
        · cases h
        · cases h
    rw [parseSGLSegment_whole hwhole, Except.bind_eq_ok] at h
    obtain ⟨⟨read, next⟩, hread, h⟩ := h
    rcases readDescriptors_eq_ok_iff.mp hread with ⟨rfl, hplain, rfl⟩ |
      ⟨before, pointer, rfl, hsegment, hpoints, hplain, rfl⟩
    · cases h
      exact ⟨_, rfl, .last hwhole rfl hplain⟩
    · obtain ⟨rest, rfl, hrest⟩ := ih h
      exact ⟨_, List.append_assoc _ _ _, .link hwhole hsegment hplain hpoints hrest⟩

/-- A chain is read to its end with more fuel than it has links. -/
theorem Chain.parse (h : Chain descriptor address length chunkList') : ∃ n,
    Ends (follow descriptor) (address, length) n ∧ ∀ fuel, n < fuel → ∀ chunkList,
      parseSGLSegment descriptor fuel address.toNat length.toNat chunkList =
        .ok (some (chunkList ++ chunkList')) := by
  induction h with
  | @last address length descs hwhole hsegment hplain =>
    refine ⟨0, .last ?_, fun fuel hfuel chunkList => ?_⟩
    · rw [follow, hsegment]
      split
      · next pointer hlast => exact if_neg (hplain pointer (List.mem_of_getLast? hlast)).1
      · rfl
    · obtain ⟨fuel, rfl⟩ := Nat.exists_eq_succ_of_ne_zero (Nat.ne_of_gt hfuel)
      rw [parseSGLSegment_whole hwhole, hsegment,
        readDescriptors_eq_ok_iff.mpr (.inl ⟨rfl, hplain, rfl⟩)]
      rfl
  | @link address length descs pointer rest hwhole hsegment hplain hpoints _ ih =>
    obtain ⟨n, hends, hparse⟩ := ih
    refine ⟨n + 1, .link ?_ hends, fun fuel hfuel chunkList => ?_⟩
    · rw [follow, hsegment, List.getLast?_concat]
      exact if_pos hpoints
    · obtain ⟨fuel, rfl⟩ := Nat.exists_eq_succ_of_ne_zero (show fuel ≠ 0 by omega)
      rw [parseSGLSegment_whole hwhole, hsegment,
        readDescriptors_eq_ok_iff.mpr (.inr ⟨descs, pointer, rfl, rfl, hpoints, hplain, rfl⟩),
        Except.ok_bind]
      dsimp only
      rw [hparse fuel (by omega), List.append_assoc]

theorem card_places : Fintype.card (BitVec 64 × BitVec 32) = 2 ^ 96 := by
  rw [Fintype.card_prod, ← FinEnum.card_eq_fintypeCard, ← FinEnum.card_eq_fintypeCard,
    FinEnum.card_bitVec, FinEnum.card_bitVec]
  rfl

/-- The device finds the data of a command exactly when the command has a list, and then it finds
the data of the list. -/
theorem new_eq_some_iff (descriptor : Nat → SGLDescriptor) (prp1 prp2 : BitVec 64)
    (chunkList : List Chunk) :
    new descriptor prp1 prp2 = .ok (some chunkList) ↔
      Lists descriptor ⟨prp1, prp2.setWidth 32, (prp2 >>> 56).setWidth 8⟩ chunkList := by
  generalize hfirst : (⟨prp1, prp2.setWidth 32, (prp2 >>> 56).setWidth 8⟩ : SGLDescriptor) = first
  have hnew : new descriptor prp1 prp2 = match first.type with
      | .dataBlock | .keyedDataBlock => (parseSGLDescriptor [] first).map some
      | .segment | .lastSegment =>
        parseSGLSegment descriptor (2 ^ 96 + 1) first.address.toNat first.length.toNat []
      | _ => .ok none := by
    rw [← hfirst]
    rfl
  rw [hnew]
  have hdata (htype : first.type ≠ .other) (hpointer : ¬ first.Pointer) :
      (parseSGLDescriptor [] first).map some = .ok (some chunkList) ↔
        first.Plain ∧ chunkList = first.chunk?.toList := by
    rw [parseSGLDescriptor_eq htype hpointer, Except.map_eq_ok]
    by_cases hsubtype : first.id &&& 0x0F = 0
    · rw [if_neg (not_not.mpr hsubtype), List.nil_append]
      constructor
      · rintro ⟨_, ⟨⟩, ⟨⟩⟩
        exact ⟨⟨hpointer, fun _ => hsubtype⟩, rfl⟩
      · rintro ⟨-, rfl⟩
        exact ⟨_, rfl, rfl⟩
    · rw [if_pos hsubtype]
      exact iff_of_false (fun ⟨_, h, _⟩ => by cases h) fun h => hsubtype (h.1.2 htype)
  have hchain : parseSGLSegment descriptor (2 ^ 96 + 1) first.address.toNat first.length.toNat [] =
      .ok (some chunkList) ↔ Chain descriptor first.address first.length chunkList := by
    constructor
    · intro h
      obtain ⟨rest, rfl, hrest⟩ := Chain.of_parse h
      exact hrest
    · intro h
      -- no way is longer than there are places
      obtain ⟨n, hends, hparse⟩ := h.parse
      exact hparse _ (Nat.lt_succ_of_lt (card_places ▸ hends.lt_card)) []
  cases htype : first.type with
  | dataBlock =>
    rw [Lists, htype]
    exact hdata (by rw [htype]; decide) (by rw [SGLDescriptor.Pointer, htype]; decide)
  | keyedDataBlock =>
    rw [Lists, htype]
    exact hdata (by rw [htype]; decide) (by rw [SGLDescriptor.Pointer, htype]; decide)
  | segment =>
    rw [Lists, htype]
    exact hchain
  | lastSegment =>
    rw [Lists, htype]
    exact hchain
  | bitBucket =>
    rw [Lists, htype]
    exact iff_of_false (fun h => by cases h) id
  | other =>
    rw [Lists, htype]
    exact iff_of_false (fun h => by cases h) id

/-- A segment of one block of data and a pointer, and a last segment that discards the rest. -/
example : new (fun address => match address with
      | 0x1000 => ⟨0x8000, 512, 0x00⟩
      | 0x1010 => ⟨0x2000, 16, 0x30⟩
      | 0x2000 => ⟨0, 64, 0x10⟩
      | _ => ⟨0, 0, 0xF0⟩) 0x1000 0x2000000000000020 =
    .ok (some [⟨0x8000, 512, false⟩, ⟨0, 64, true⟩]) := by decide

end Chain

end SGL

end SimpleSSD.HIL
