import SimpleSSD.PAL.SlotSearch

/-!
# The periodic flush is invisible (PAL2.cc:646–677)

`flushFreeSlots` forgets the free slots that end before a tick, to save memory. The states
with and without the flush `Agree` from that tick on: they have the same start points and
the same slots but for those that end earlier.

- A search from the tick or a later one finds the same slot in both (`Agree.search`).
- What is taken out of that slot, and the rests that are put back, are the same
  (`Agree.insertFreeSlot`).

Hence a command that arrives no earlier than the tick is scheduled alike, and the states
agree again behind it.
-/

namespace SimpleSSD.PAL

namespace FreeSlots

variable {fs fs' : FreeSlots} {sp t k s e tickLen tickFrom : Nat}

/-- The slots that end at tick `t` or later are the same. -/
structure Agree (t : Nat) (fs fs' : FreeSlots) : Prop where
  lengths : fs.lengths = fs'.lengths
  slots : ∀ {k s e}, t ≤ e → (fs.Slot k s e ↔ fs'.Slot k s e)

namespace Agree

theorem refl (t : Nat) (fs : FreeSlots) : Agree t fs fs := ⟨rfl, fun _ => Iff.rfl⟩

theorem lastBucket (h : Agree t fs fs') (tickLen : Nat) :
    fs.lastBucket tickLen = fs'.lastBucket tickLen := by
  rw [FreeSlots.lastBucket, FreeSlots.lastBucket, h.lengths]

theorem bucketsFrom (h : Agree t fs fs') (tickLen : Nat) :
    fs.bucketsFrom tickLen = fs'.bucketsFrom tickLen := by
  rw [FreeSlots.bucketsFrom, FreeSlots.bucketsFrom, h.lastBucket, h.lengths]

theorem roomAt (h : Agree t fs fs') (hlive : t < tickFrom + tickLen)
    (hroom : fs.RoomAt tickLen tickFrom k s) : fs'.RoomAt tickLen tickFrom k s := by
  obtain ⟨hk, e, hslot, hs, he⟩ := hroom
  refine ⟨h.bucketsFrom tickLen ▸ hk, e, (h.slots ?_).mp hslot, hs, he⟩
  omega

/-- Room from tick `t` on in one of them is room in the other. -/
theorem noRoom (h : Agree t fs fs') (hle : t ≤ tickFrom) (hlen : 0 < tickLen)
    (hnone : fs.NoRoom tickLen tickFrom) : fs'.NoRoom tickLen tickFrom := by
  rintro k s e t' hslot hfrom ⟨hs, he⟩
  refine hnone k s e t' ((h.slots ?_).mpr hslot) hfrom ⟨hs, he⟩
  omega

/-- The earliest start in one of them is the earliest start in the other. -/
theorem earliest (h : Agree t fs fs') (hle : t ≤ tickFrom) (hlen : 0 < tickLen) {startTick t₁ : Nat}
    (hearly : fs.Earliest tickLen tickFrom startTick t₁) :
    fs'.Earliest tickLen tickFrom startTick t₁ := by
  obtain ⟨⟨k, e, hslot, hs, he⟩, hfrom, hleast⟩ := hearly
  refine ⟨⟨k, e, (h.slots (by omega)).mp hslot, hs, he⟩, hfrom, ?_⟩
  intro k' s' e' t' hslot' hfrom' hholds
  obtain ⟨hs', he'⟩ := id hholds
  exact hleast k' s' e' t' ((h.slots (by omega)).mpr hslot') hfrom' hholds

end Agree

/-- The earliest start is in one place only. -/
theorem Valid.earliest_unique (h : fs.Valid sp) (hlen : 0 < tickLen)
    {startTick startTick' t₁ t₂ : Nat}
    (h₁ : fs.Earliest tickLen tickFrom startTick t₁)
    (h₂ : fs.Earliest tickLen tickFrom startTick' t₂) : startTick = startTick' ∧ t₁ = t₂ := by
  obtain ⟨⟨k, e, hslot, hs, he⟩, hfrom, hleast⟩ := h₁
  obtain ⟨⟨k', e', hslot', hs', he'⟩, hfrom', hleast'⟩ := h₂
  have hle := hleast k' _ e' t₂ hslot' hfrom' ⟨hs', he'⟩
  have hle' := hleast' k _ e t₁ hslot hfrom ⟨hs, he⟩
  obtain rfl : t₁ = t₂ := Nat.le_antisymm hle hle'
  exact ⟨(h.apart hslot hslot' hs (by omega) hs' (by omega)).2.1, rfl⟩

/-- A search from tick `t` on has the same outcome in both. -/
theorem Agree.findFreeTime (h : Agree t fs fs') (hv : fs.Valid sp) (hv' : fs'.Valid sp)
    (hle : t ≤ tickFrom) (hlen : 0 < tickLen) (hwrap : tickLen + tickFrom < 2 ^ 64)
    (hwrap' : tickLen + sp < 2 ^ 64) :
    fs.findFreeTime tickLen tickFrom = fs'.findFreeTime tickLen tickFrom := by
  obtain ⟨hnone, hsome⟩ := hv.exactSearch hwrap hwrap' (by omega)
  obtain ⟨hnone', hsome'⟩ := hv'.exactSearch hwrap hwrap' (by omega)
  cases hfind : fs.findFreeTime tickLen tickFrom with
  | none =>
    cases hfind' : fs'.findFreeTime tickLen tickFrom with
    | none => rfl
    | some r =>
      obtain ⟨⟨k, e, hslot, hholds⟩, hfrom, -⟩ := hsome' r.1 r.2 hfind'
      exact absurd hholds (h.noRoom hle hlen (hnone hfind) k r.1 e _ hslot hfrom)
  | some r =>
    have hearly := h.earliest hle hlen (hsome r.1 r.2 hfind)
    cases hfind' : fs'.findFreeTime tickLen tickFrom with
    | none =>
      obtain ⟨⟨k, e, hslot, hholds⟩, hfrom, -⟩ := hearly
      exact absurd hholds (hnone' hfind' k r.1 e _ hslot hfrom)
    | some r' =>
      obtain ⟨hstart, -⟩ := hv'.earliest_unique hlen hearly (hsome' r'.1 r'.2 hfind')
      -- the flag says whether the slot begins behind `tickFrom`
      have hflag : ∀ {gs : FreeSlots} {g : Nat × Bool}, gs.Finds tickLen tickFrom g →
          g.2 = decide (tickFrom < g.1) := by
        rintro gs g (⟨hc, k, -, e, -, hs, -⟩ | ⟨hc, hlt, -⟩)
        · rw [hc, eq_comm, decide_eq_false_iff_not]
          omega
        · rw [hc, eq_comm, decide_eq_true_iff]
          exact hlt
      have hf := hflag (hv.findFreeTime_spec hwrap hwrap' (by omega) hfind)
      have hf' := hflag (hv'.findFreeTime_spec hwrap hwrap' (by omega) hfind')
      rw [← hstart, ← hf] at hf'
      exact congrArg some (Prod.ext hstart hf'.symm)

/-! ### Slots that are added -/

/-- The slot that is added for a duration. -/
def Piece (fs : FreeSlots) (tickLen tickFrom k s e : Nat) : Prop :=
  s = tickFrom ∧ e + 1 = tickFrom + tickLen ∧ fs.lastBucket tickLen = some k

/-- The slots after a piece has been put back. -/
theorem slot_addIf_iff (c : Prop) [Decidable c]
    (hadd : c → 0 < tickLen ∧ tickFrom + tickLen < 2 ^ 64 ∧ ∀ k e, ¬ fs.Slot k tickFrom e) :
    (fs.addIf c tickLen tickFrom).Slot k s e ↔
      fs.Slot k s e ∨ (c ∧ fs.Piece tickLen tickFrom k s e) := by
  constructor
  · intro hslot
    rw [addIf] at hslot
    split at hslot
    · next hc =>
      obtain ⟨hlen, hwrap, -⟩ := hadd hc
      exact (slot_addFreeSlot hlen hwrap hslot).imp id fun h => ⟨hc, h⟩
    · exact .inl hslot
  · rintro (hslot | ⟨hc, rfl, he, hlast⟩)
    · exact hslot.addIf c
    · obtain ⟨hlen, hwrap, hfree⟩ := hadd hc
      have hk : k ∈ fs.lengths := (List.mem_filter.mp (List.mem_of_getLast? hlast)).1
      rw [addIf, if_pos hc, Slot, addFreeSlot_lengths, addFreeSlot_slots, if_pos hlast,
        tickAdd_eq hwrap, tickSub_eq (by omega) hwrap, ← he, Nat.add_sub_cancel]
      refine ⟨hk, (mem_insertSlot _ _).2 fun f hf heq => hfree k f.2 ⟨hk, ?_⟩⟩
      rw [← show f.1 = s from heq]
      exact hf

/-- The same piece is put back into both. -/
theorem Agree.addIf (h : Agree t fs fs') (c : Prop) [Decidable c]
    (hadd : c → 0 < tickLen ∧ tickFrom + tickLen < 2 ^ 64 ∧ ∀ k e, ¬ fs.Slot k tickFrom e)
    (hadd' : c → 0 < tickLen ∧ tickFrom + tickLen < 2 ^ 64 ∧ ∀ k e, ¬ fs'.Slot k tickFrom e) :
    Agree t (fs.addIf c tickLen tickFrom) (fs'.addIf c tickLen tickFrom) where
  lengths := by simpa using h.lengths
  slots he := by
    rw [slot_addIf_iff c hadd, slot_addIf_iff c hadd', h.slots he, Piece, Piece, h.lastBucket]

theorem Agree.eraseSlot (h : Agree t fs fs') (k startTick : Nat) :
    Agree t (fs.eraseSlot k startTick) (fs'.eraseSlot k startTick) where
  lengths := h.lengths
  slots he := by rw [slot_eraseSlot, slot_eraseSlot, h.slots he]

/-- No slot begins where another one has been erased. -/
theorem Valid.slot_eraseSlot_out (h : fs.Valid sp) (hslot : fs.Slot k s e) {k' s' e' : Nat}
    (hslot' : (fs.eraseSlot k s).Slot k' s' e') : ¬ (s ≤ s' ∧ s' ≤ e) := by
  rintro ⟨hs, he⟩
  rw [slot_eraseSlot] at hslot'
  obtain ⟨hk, hs', -⟩ := h.apart hslot'.1 hslot le_rfl (h.bounds hslot'.1).1 hs he
  exact hslot'.2 ⟨hk, hs'⟩

/-- The flush forgets only slots that end before its tick. -/
theorem agree_flushAFreeSlot (currentTick : Nat) (fs : FreeSlots) :
    Agree currentTick (fs.flushAFreeSlot currentTick) fs where
  lengths := rfl
  slots := by
    intro k s e he
    have hkept : ∀ l : List (Nat × Nat), (s, e) ∈ l →
        (s, e) ∈ l.dropWhile fun f => f.2 < currentTick := by
      intro l hmem
      induction l with
      | nil => cases hmem
      | cons f l ih =>
        rw [List.dropWhile_cons]
        split
        · next hf =>
          rcases List.mem_cons.mp hmem with rfl | hmem
          · rw [decide_eq_true_iff] at hf
            dsimp only at hf
            omega
          · exact ih hmem
        · exact hmem
    constructor
    · rintro ⟨hk, hmem⟩
      exact ⟨hk, (List.dropWhile_sublist _).subset hmem⟩
    · rintro ⟨hk, hmem⟩
      exact ⟨hk, hkept _ hmem⟩

end FreeSlots

namespace Resource

variable {r r' : Resource} {t tickLen tickFrom startTick : Nat}

/-- Two resources with the same start point and the same slots from tick `t` on. -/
structure Agree (t : Nat) (r r' : Resource) : Prop where
  startPoint : r.startPoint = r'.startPoint
  freeSlots : FreeSlots.Agree t r.freeSlots r'.freeSlots

namespace Agree

theorem refl (t : Nat) (r : Resource) : Agree t r r := ⟨rfl, .refl t _⟩

theorem room (h : Agree t r r') (hlive : t < tickFrom + tickLen)
    (hroom : r.Room tickLen tickFrom startTick) : r'.Room tickLen tickFrom startTick := by
  rcases hroom with ⟨rfl, hle⟩ | ⟨k, hroom⟩
  · exact .inl ⟨h.startPoint, hle⟩
  · exact .inr ⟨k, h.freeSlots.roomAt hlive hroom⟩

/-- A search from tick `t` on ends at the same tick and in the same slot. -/
theorem search (h : Agree t r r') (hr : r.Valid) (hr' : r'.Valid) (tickLen : Nat) {tickFrom : Nat}
    (hle : t ≤ tickFrom) (hlen : 0 < tickLen) (hwrap : tickLen + tickFrom < 2 ^ 64)
    (hwrap' : tickLen + r.startPoint < 2 ^ 64) :
    r.search tickLen tickFrom = r'.search tickLen tickFrom := by
  have hfind := h.freeSlots.findFreeTime hr (h.startPoint ▸ hr') hle hlen hwrap hwrap'
  rw [Resource.search, Resource.search, hfind, h.startPoint]

/-- The slots that remain when the same duration is taken out of both. -/
theorem insertFreeSlot_slot (h : Agree t r r') (hr : r.Valid) (hr' : r'.Valid) {k e : Nat}
    (split : Bool) (hk : k ∈ r.freeSlots.bucketsFrom tickLen)
    (hslot : r.freeSlots.Slot k startTick e) (hle : startTick ≤ tickFrom)
    (he : tickFrom + tickLen ≤ e + 1) (hlive : t < tickFrom + tickLen)
    (hwrap : r.startPoint < 2 ^ 64) (hsplit : split = true → 0 < tickLen) {r₁ r₁' : Resource}
    (hins : r.insertFreeSlot tickLen tickFrom startTick split = .ok r₁)
    (hins' : r'.insertFreeSlot tickLen tickFrom startTick split = .ok r₁') : Agree t r₁ r₁' := by
  have hslot' : r'.freeSlots.Slot k startTick e := (h.freeSlots.slots (by omega)).mp hslot
  have hesp := (hr.bounds hslot).2
  rw [insertFreeSlot_slot_eq split hr hk hslot hle he hwrap (by omega)] at hins
  rw [insertFreeSlot_slot_eq split hr' (h.freeSlots.bucketsFrom tickLen ▸ hk) hslot' hle he
    (h.startPoint ▸ hwrap) (by omega)] at hins'
  cases hins
  cases hins'
  refine ⟨h.startPoint, ?_⟩
  -- nothing begins inside the erased slot but the pieces that have been put back
  have hfront : ∀ {gs : FreeSlots} {sp : Nat}, gs.Valid sp → gs.Slot k startTick e →
      startTick < tickFrom → 0 < tickFrom - startTick ∧
        startTick + (tickFrom - startTick) < 2 ^ 64 ∧
        ∀ k' e', ¬ (gs.eraseSlot k startTick).Slot k' startTick e' := by
    intro gs sp hgs hin hlt
    refine ⟨by omega, by omega, fun k' e' hin' => hgs.slot_eraseSlot_out hin hin' ⟨le_rfl, ?_⟩⟩
    omega
  have hcut : ∀ {gs : FreeSlots} {sp : Nat}, gs.Valid sp → gs.Slot k startTick e →
      split = true → 0 < tickLen ∧ tickFrom + tickLen < 2 ^ 64 ∧
        ∀ k' e', ¬ ((gs.eraseSlot k startTick).addIf (startTick < tickFrom)
          (tickFrom - startTick) startTick).Slot k' tickFrom e' := by
    intro gs sp hgs hin hsplit₁
    refine ⟨hsplit hsplit₁, by omega, fun k' e' hin' => ?_⟩
    have := hsplit hsplit₁
    rw [FreeSlots.slot_addIf_iff _ (hfront hgs hin)] at hin'
    rcases hin' with hin' | ⟨hlt, hs, -⟩
    · exact hgs.slot_eraseSlot_out hin hin' ⟨hle, by omega⟩
    · omega
  have hback : ∀ {gs : FreeSlots} {sp : Nat}, gs.Valid sp → gs.Slot k startTick e →
      tickFrom + tickLen ≤ e → 0 < e + 1 - (tickFrom + tickLen) ∧
        tickFrom + tickLen + (e + 1 - (tickFrom + tickLen)) < 2 ^ 64 ∧
        ∀ k' e', ¬ (((gs.eraseSlot k startTick).addIf (startTick < tickFrom)
          (tickFrom - startTick) startTick).addIf (split = true) tickLen tickFrom).Slot k'
            (tickFrom + tickLen) e' := by
    intro gs sp hgs hin hend
    refine ⟨by omega, by omega, fun k' e' hin' => ?_⟩
    rw [FreeSlots.slot_addIf_iff _ (hcut hgs hin), FreeSlots.slot_addIf_iff _ (hfront hgs hin)]
      at hin'
    rcases hin' with (hin' | ⟨hlt, hs, -⟩) | ⟨hsplit₁, hs, -⟩
    · exact hgs.slot_eraseSlot_out hin hin' ⟨by omega, hend⟩
    · omega
    · have := hsplit hsplit₁
      omega
  exact (((h.freeSlots.eraseSlot k startTick).addIf _ (hfront hr hslot)
    (hfront hr' hslot')).addIf _ (hcut hr hslot) (hcut hr' hslot')).addIf _ (hback hr hslot)
      (hback hr' hslot')

/-- The slots that remain when the same duration is taken out of both free ends. -/
theorem insertFreeSlot_end (h : Agree t r r') (hr : r.Valid) (hr' : r'.Valid) (split : Bool)
    (hle : r.startPoint ≤ tickFrom) (hwrap : tickFrom + tickLen < 2 ^ 64)
    (hsplit : split = true → 0 < tickLen) {r₁ r₁' : Resource}
    (hins : r.insertFreeSlot tickLen tickFrom r.startPoint split = .ok r₁)
    (hins' : r'.insertFreeSlot tickLen tickFrom r.startPoint split = .ok r₁') :
    Agree t r₁ r₁' := by
  rw [insertFreeSlot_end_eq split hle hwrap] at hins
  rw [h.startPoint, insertFreeSlot_end_eq split (h.startPoint ▸ hle) hwrap, ← h.startPoint] at hins'
  cases hins
  cases hins'
  refine ⟨rfl, ?_⟩
  -- no slot begins at the start point or behind it
  have hcut : ∀ {gs : FreeSlots}, gs.Valid r.startPoint → split = true →
      0 < tickLen ∧ tickFrom + tickLen < 2 ^ 64 ∧ ∀ k e, ¬ gs.Slot k tickFrom e := by
    intro gs hgs hsplit₁
    refine ⟨hsplit hsplit₁, hwrap, fun k e hin => ?_⟩
    have := hgs.bounds hin
    omega
  have hfront : ∀ {gs : FreeSlots}, gs.Valid r.startPoint → r.startPoint < tickFrom →
      0 < tickFrom - r.startPoint ∧ r.startPoint + (tickFrom - r.startPoint) < 2 ^ 64 ∧
        ∀ k e, ¬ (gs.addIf (split = true) tickLen tickFrom).Slot k r.startPoint e := by
    intro gs hgs hlt
    refine ⟨by omega, by omega, fun k e hin => ?_⟩
    rw [FreeSlots.slot_addIf_iff _ (hcut hgs)] at hin
    rcases hin with hin | ⟨-, hs, -⟩
    · have := hgs.bounds hin
      omega
    · omega
  have hv' : r'.freeSlots.Valid r.startPoint := h.startPoint ▸ hr'
  exact (h.freeSlots.addIf _ (hcut hr) (hcut hv')).addIf _ (hfront hr) (hfront hv')

/-- A duration for which there is room is taken out of both alike. -/
theorem insertFreeSlot (h : Agree t r r') (hr : r.Valid) (hr' : r'.Valid) (split : Bool)
    (hroom : r.Room tickLen tickFrom startTick) (hlive : t < tickFrom + tickLen)
    (hwrap : tickFrom + tickLen < 2 ^ 64) (hwrap' : r.startPoint < 2 ^ 64)
    (hsplit : split = true → 0 < tickLen) {r₁ : Resource}
    (hins : r.insertFreeSlot tickLen tickFrom startTick split = .ok r₁) :
    ∃ r₁', r'.insertFreeSlot tickLen tickFrom startTick split = .ok r₁' ∧ r₁'.Valid ∧
      Agree t r₁ r₁' := by
  obtain ⟨r₁', hins', htake⟩ := insertFreeSlot_spec split hr' (h.room hlive hroom) hwrap
    (h.startPoint ▸ hwrap') (by omega) hsplit
  refine ⟨r₁', hins', htake.valid, ?_⟩
  rcases hroom with ⟨rfl, hle⟩ | ⟨k, hk, e, hslot, hle, he⟩
  · exact h.insertFreeSlot_end hr hr' split hle hwrap hsplit hins hins'
  · exact h.insertFreeSlot_slot hr hr' split hk hslot hle he hlive hwrap' hsplit hins hins'

/-- After a flush of one of them they agree from its tick on. -/
theorem flush (h : Agree t r r') {t' currentTick : Nat} (hle : t ≤ t') (hle' : currentTick ≤ t') :
    Agree t' { r with freeSlots := r.freeSlots.flushAFreeSlot currentTick } r' where
  startPoint := h.startPoint
  freeSlots := ⟨h.freeSlots.lengths, fun he =>
    ((FreeSlots.agree_flushAFreeSlot currentTick r.freeSlots).slots (hle'.trans he)).trans
      (h.freeSlots.slots (hle.trans he))⟩

end Agree

end Resource

/-! ### A call -/

section Loops

variable {ch ch' die die' : Resource} {lat : Latencies} {bound t : Nat}

/-- Every round of `LOOP1` from tick `t` on is the same. -/
theorem loop1_agree (hc : Resource.Agree t ch ch') (hd : Resource.Agree t die die')
    (hch : ch.Valid) (hdie : die.Valid) (hch' : ch'.Valid) (hdie' : die'.Valid)
    (hb : Bound ch die lat bound) (rounds from₀ : Nat) (hle : t ≤ from₀) (hfrom : from₀ ≤ bound) :
    loop1 ch die lat rounds from₀ = loop1 ch' die' lat rounds from₀ := by
  have htotal := lat.total_eq
  induction rounds generalizing from₀ with
  | zero => rfl
  | succ rounds ih =>
    obtain ⟨hle₀, hleM, hgeM, -, -, -⟩ := round1_spec hch hdie hb hfrom rfl rfl
    obtain ⟨hbch, hbdie, hticks, -, hdma0, -⟩ := id hb
    have hmem : tickAdd lat.latDMA0 lat.latMEM = lat.latDMA0 + lat.latMEM :=
      tickAdd_eq (by omega)
    have h₀ := hc.search hch hch' _ hle hdma0 (by omega) (by omega)
    have hM := hd.search hdie hdie' (tickAdd lat.latDMA0 lat.latMEM)
      (hle.trans hle₀) (by omega) (by omega) (by omega)
    rw [loop1, loop1]
    rw [← h₀, ← hM]
    have hV := hc.search hch hch' _ (hle.trans (hle₀.trans hleM)) hdma0 (by omega) (by omega)
    rw [← hV]
    split
    · rfl
    · split
      · rfl
      · exact ih _ (hle.trans (hle₀.trans hleM)) hgeM

/-- Every round of `LOOP0` from tick `t` on is the same. -/
theorem loop0_agree (hc : Resource.Agree t ch ch') (hd : Resource.Agree t die die')
    (hch : ch.Valid) (hdie : die.Valid) (hch' : ch'.Valid) (hdie' : die'.Valid)
    (hb : Bound ch die lat bound) (rounds from₀ : Nat) (hle : t ≤ from₀) (hfrom : from₀ ≤ bound) :
    loop0 ch die lat rounds from₀ = loop0 ch' die' lat rounds from₀ := by
  have htotal := lat.total_eq
  induction rounds generalizing from₀ with
  | zero => rfl
  | succ rounds ih =>
    obtain ⟨hbch, hbdie, hticks, hboth, hdma0, hanti⟩ := id hb
    obtain ⟨t₀, td, tm, h, hle₀, hge₀, hroom0, hroomM⟩ :=
      loop1_spec hch hdie hb (2 ^ 64) from₀ hfrom (by omega)
    have hsame := loop1_agree hc hd hch hdie hch' hdie' hb (2 ^ 64) from₀ hle hfrom
    rw [loop0, loop0, ← hsame, h]
    simp only [Bind.bind, Except.bind]
    have hdma1 : tickAdd lat.latDMA1 lat.latANTI = lat.latDMA1 + lat.latANTI :=
      tickAdd_eq (by omega)
    have hmem : tickAdd lat.latDMA0 lat.latMEM = lat.latDMA0 + lat.latMEM :=
      tickAdd_eq (by omega)
    have hfrom₁ : tickAdd t₀ (tickAdd lat.latDMA0 lat.latMEM) =
        t₀ + (lat.latDMA0 + lat.latMEM) := by rw [hmem, tickAdd_eq (by omega)]
    have h₁ := hc.search hch hch' (tickAdd lat.latDMA1 lat.latANTI)
      (show t ≤ tickAdd t₀ (tickAdd lat.latDMA0 lat.latMEM) by omega) (by omega) (by omega)
      (by omega)
    obtain ⟨hle1, hge1, -⟩ := Resource.search_spec hch
      (show tickAdd lat.latDMA1 lat.latANTI + tickAdd t₀ (tickAdd lat.latDMA0 lat.latMEM) <
        2 ^ 64 by omega) (by omega) (by omega)
    rw [← h₁]
    generalize hfound : ch.search (tickAdd lat.latDMA1 lat.latANTI)
      (tickAdd t₀ (tickAdd lat.latDMA0 lat.latMEM)) = found1 at *
    generalize hlat : tickSub (tickAdd (tickAdd found1.1 lat.latDMA1) lat.latANTI) t₀ = totalLat
    obtain ⟨-, hlater⟩ := round0_spec hch hdie hb hge₀ hroom0 hroomM hfound hlat
    rw [tickAdd_eq (a := found1.1) (by omega), tickAdd_eq (by omega),
      tickSub_eq (by omega) (by omega)] at hlat
    have hV := hd.search hdie hdie' totalLat (hle.trans hle₀) (by omega) (by omega)
      (by omega)
    rw [← hV]
    split
    · rfl
    · next hne =>
      obtain ⟨hlt, hge⟩ := hlater hne
      exact ih _ (by omega) hge

/-- The same is taken out of both, and they agree again. -/
theorem assign_agree (hc : Resource.Agree t ch ch') (hd : Resource.Agree t die die')
    (hch : ch.Valid) (hdie : die.Valid) (hch' : ch'.Valid) (hdie' : die'.Valid)
    (hb : Bound ch die lat bound) {plan : Plan} (hle : t ≤ plan.DMA0tickFrom)
    (hplan : plan.Fits ch die lat bound) {ts : TimeSlot × TimeSlot × TimeSlot}
    {ch₁ die₁ : Resource} (h : assign ch die lat plan = .ok (ts, ch₁, die₁)) :
    ∃ ch₁' die₁', assign ch' die' lat plan = .ok (ts, ch₁', die₁') ∧
      Resource.Agree t ch₁ ch₁' ∧ Resource.Agree t die₁ die₁' := by
  have htotal := lat.total_eq
  obtain ⟨hbch, hbdie, hticks, hboth, hdma0, hanti⟩ := hb
  obtain ⟨hbound, hroom0, hroomM, -, hbehind, hbefore, hlat⟩ := hplan
  have hdma1 : tickAdd lat.latDMA1 lat.latANTI = lat.latDMA1 + lat.latANTI :=
    tickAdd_eq (by omega)
  have hanti2 : tickAdd lat.latANTI lat.latANTI = lat.latANTI + lat.latANTI :=
    tickAdd_eq (by omega)
  -- the first transfer
  obtain ⟨c₁, hins₁, htake₁⟩ := Resource.insertFreeSlot_spec false hch hroom0
    (by omega) (by omega) (by omega) (by simp)
  obtain ⟨c₁', hins₁', hv₁', hagree₁⟩ := hc.insertFreeSlot hch hch' false hroom0 (by omega)
    (by omega) (by omega) (by simp) hins₁
  have hstart₁ : c₁.startPoint ≤ bound + lat.latDMA0 := by
    rw [htake₁.startPoint]
    split <;> omega
  -- the second one
  obtain ⟨hle1, hge1, hroom1⟩ := Resource.search_spec htake₁.valid
    (show lat.latDMA1 + lat.latANTI + plan.DMA1tickFrom < 2 ^ 64 by omega) (by omega) (by omega)
  have hsearch₁ := hagree₁.search htake₁.valid hv₁' (lat.latDMA1 + lat.latANTI)
    (show t ≤ plan.DMA1tickFrom by omega) (by omega) (by omega) (by omega)
  generalize hfound1 : c₁.search (lat.latDMA1 + lat.latANTI) plan.DMA1tickFrom = found1 at *
  obtain ⟨d, tick⟩ := found1
  dsimp only at hle1 hge1 hroom1
  have hroom2 := hroom1.behind htake₁.valid
  obtain ⟨c₂, hins₂, htake₂⟩ := Resource.insertFreeSlot_spec false htake₁.valid hroom2
    (by omega) (by omega) (by omega) (by simp)
  obtain ⟨c₂', hins₂', hv₂', hagree₂⟩ := hagree₁.insertFreeSlot htake₁.valid hv₁' false hroom2
    (by omega) (by omega) (by omega) (by simp) hins₂
  have hstart₂ : c₂.startPoint ≤ bound + lat.latDMA0 + lat.latMEM + lat.latANTI + lat.latDMA1 := by
    rw [htake₂.startPoint]
    split <;> omega
  -- the die
  obtain ⟨d₁, hinsD, htakeD⟩ := Resource.insertFreeSlot_spec false hdie hroomM
    (by omega) (by omega) (by omega) (by simp)
  obtain ⟨d₁', hinsD', -, hagreeD⟩ := hd.insertFreeSlot hdie hdie' false hroomM (by omega)
    (by omega) (by omega) (by simp) hinsD
  -- the slot that is cut out behind the first transfer
  obtain ⟨-, hge3, hroom3⟩ := Resource.search_spec htake₂.valid
    (show lat.latANTI + lat.latANTI + (plan.DMA0tickFrom + lat.latDMA0) < 2 ^ 64 by omega)
    (by omega) (by omega)
  have hsearch₃ := hagree₂.search htake₂.valid hv₂' (lat.latANTI + lat.latANTI)
    (show t ≤ plan.DMA0tickFrom + lat.latDMA0 by omega) (by omega) (by omega) (by omega)
  rw [assign, hins₁] at h
  rw [assign, hins₁']
  simp only [Bind.bind, Except.bind, hdma1, hanti2, hfound1, ← hsearch₁, later_eq hroom1.le,
    latest_eq hroom1.le, later_eq hroom0.le, latest_eq hroom0.le, latest_eq hroomM.le,
    tickAdd_eq (show d + lat.latANTI < 2 ^ 64 by omega), hins₂, hins₂', hinsD, hinsD',
    tickAdd_eq (show plan.DMA0tickFrom + lat.latDMA0 < 2 ^ 64 by omega), ← hsearch₃] at h ⊢
  split at h
  · next heq =>
    obtain ⟨c₃, hins₃, -⟩ := Resource.insertFreeSlot_spec true htake₂.valid hroom3 (by omega)
      (by omega) (by omega) (by omega)
    obtain ⟨c₃', hins₃', -, hagree₃⟩ := hagree₂.insertFreeSlot htake₂.valid hv₂' true hroom3
      (by omega) (by omega) (by omega) (by omega) hins₃
    rw [hins₃] at h
    rw [if_pos heq, hins₃']
    cases h
    exact ⟨c₃', d₁', rfl, hagree₃, hagreeD⟩
  · next hne =>
    rw [if_neg hne]
    cases h
    exact ⟨c₂', d₁', rfl, hagree₂, hagreeD⟩

end Loops

namespace PAL2

variable {flash : Flash} {s s' : PAL2} {cmd : Command} {t : Nat}

/-- All resources agree from tick `t` on. -/
structure Agree (t : Nat) (s s' : PAL2) : Prop where
  channels : ∀ c, Resource.Agree t (s.channels c) (s'.channels c)
  dies : ∀ d, Resource.Agree t (s.dies d) (s'.dies d)

theorem Agree.refl (t : Nat) (s : PAL2) : Agree t s s := ⟨fun _ => .refl t _, fun _ => .refl t _⟩

theorem Agree.fits (h : Agree t s s') (hfits : s.Fits flash cmd) : s'.Fits flash cmd where
  channel := hfits.channel
  die := hfits.die
  ticks := by
    rw [← (h.channels _).startPoint, ← (h.dies _).startPoint]
    exact hfits.ticks
  dma0 := hfits.dma0
  anti := hfits.anti

/-- A flush of one of the states is not seen from its tick on. -/
theorem Agree.flush (h : Agree t s s') {t' currentTick : Nat} (hle : t ≤ t')
    (hle' : currentTick ≤ t') : Agree t' (s.flushFreeSlots currentTick) s' :=
  ⟨fun c => (h.channels c).flush hle hle', fun d => (h.dies d).flush hle hle'⟩

theorem Valid.flush (h : s.Valid) (currentTick : Nat) : (s.flushFreeSlots currentTick).Valid :=
  ⟨fun c => (h.channels c).flushAFreeSlot currentTick,
    fun d => (h.dies d).flushAFreeSlot currentTick⟩

/-- A command that arrives at tick `t` or later is scheduled alike. -/
theorem Agree.timelineScheduling (h : Agree t s s') (hs : s.Valid) (hs' : s'.Valid)
    (hfits : s.Fits flash cmd) (hle : t ≤ cmd.arrived) :
    ∃ schedule s₁ s₁', s.timelineScheduling flash cmd = .ok (schedule, s₁) ∧
      s'.timelineScheduling flash cmd = .ok (schedule, s₁') ∧
      Serves flash s cmd schedule s₁ ∧ s₁'.Valid ∧ Agree t s₁ s₁' := by
  obtain ⟨schedule, s₁, hcall, hserves⟩ := timelineScheduling_spec hs hfits
  obtain ⟨schedule', s₁', hcall', hserves'⟩ := timelineScheduling_spec hs' (h.fits hfits)
  obtain ⟨hchannel, hdie, hticks, hdma0, hanti⟩ := id hfits
  have hc := h.channels cmd.addr.channel
  have hd := h.dies (flash.dieIdx cmd.addr)
  have hbound := hfits.bound
  obtain ⟨plan, hloop, harrived, hplan⟩ := loop0_spec (hs.channels _) (hs.dies _) hbound (2 ^ 64)
    cmd.arrived (by omega) (by omega)
  obtain ⟨ch₁, die₁, tick, hassign, -⟩ := assign_spec (hs.channels _) (hs.dies _) hbound hplan
  -- both calls make the same plan, and take it out alike
  have hloop' := loop0_agree hc hd (hs.channels _) (hs.dies _) (hs'.channels _) (hs'.dies _)
    hbound (2 ^ 64) cmd.arrived hle (by omega)
  rw [hloop] at hloop'
  obtain ⟨ch₁', die₁', hassign', hagreeCh, hagreeDie⟩ := assign_agree hc hd (hs.channels _)
    (hs.dies _) (hs'.channels _) (hs'.dies _) hbound (hle.trans harrived) hplan hassign
  have hin : ¬ ¬ (cmd.addr.channel < flash.param.channel ∧
      flash.dieIdx cmd.addr < flash.totalDie) := by simp [hchannel, hdie]
  have heq := hcall
  have heq' := hcall'
  rw [PAL2.timelineScheduling, if_neg hin] at heq heq'
  simp only [hloop, ← hloop', hassign, hassign', Bind.bind, Except.bind, Except.ok.injEq,
    Prod.mk.injEq] at heq heq'
  obtain ⟨rfl, rfl⟩ := heq
  obtain ⟨rfl, rfl⟩ := heq'
  refine ⟨_, _, _, hcall, hcall', hserves, hserves'.valid, fun c => ?_, fun d => ?_⟩
  · dsimp only
    rcases eq_or_ne c cmd.addr.channel with rfl | hne
    · rw [Function.update_self, Function.update_self]
      exact hagreeCh
    · rw [Function.update_of_ne hne, Function.update_of_ne hne]
      exact h.channels c
  · dsimp only
    rcases eq_or_ne d (flash.dieIdx cmd.addr) with rfl | hne
    · rw [Function.update_self, Function.update_self]
      exact hagreeDie
    · rw [Function.update_of_ne hne, Function.update_of_ne hne]
      exact h.dies d

end PAL2

end SimpleSSD.PAL
