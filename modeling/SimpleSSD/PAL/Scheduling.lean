import SimpleSSD.Lib.Run
import SimpleSSD.PAL.PAL2
import SimpleSSD.PAL.Resource

/-!
# What `TimelineScheduling` decides

The two loops end, since every further round begins at a later tick and no round begins
behind both start points. They end with a `Plan` that fits: the channel has room for both
transfers and the die for the whole operation. `assign` then takes these ticks out and
nothing else; only the second transfer may still move to a later tick, when the rest of
the slot behind the first transfer has been forgotten.
-/

namespace SimpleSSD.PAL

/-- All latencies of a command, with those of the slots that are cut out for later ones. -/
def Latencies.total (lat : Latencies) : Nat :=
  lat.latDMA0 + lat.latMEM + lat.latDMA1 + 3 * lat.latANTI

theorem Latencies.total_eq (lat : Latencies) :
    lat.total = lat.latDMA0 + lat.latMEM + lat.latDMA1 + 3 * lat.latANTI := rfl

/-- No tick of the search up to `bound` wraps around, and the first transfer takes time. -/
structure Bound (ch die : Resource) (lat : Latencies) (bound : Nat) : Prop where
  startCh : ch.startPoint ≤ bound
  startDie : die.startPoint ≤ bound
  ticks : bound + lat.total < 2 ^ 64
  both : ch.startPoint + die.startPoint + lat.total < 2 ^ 64
  dma0 : 0 < lat.latDMA0
  anti : 0 < lat.latANTI

/-- The channel has room for both transfers and the die for the operation. -/
structure Plan.Fits (plan : Plan) (ch die : Resource) (lat : Latencies) (bound : Nat) : Prop where
  le : plan.DMA0tickFrom ≤ bound
  dma0 : ch.Room lat.latDMA0 plan.DMA0tickFrom plan.tickDMA0
  mem : die.Room plan.totalLat plan.DMA0tickFrom plan.tickMEM
  dma1 : ∃ tick, ch.Room (lat.latDMA1 + lat.latANTI) plan.DMA1tickFrom tick
  behind : plan.DMA0tickFrom + lat.latDMA0 + lat.latMEM ≤ plan.DMA1tickFrom
  before : plan.DMA1tickFrom ≤
    max (plan.DMA0tickFrom + lat.latDMA0 + lat.latMEM) ch.startPoint
  total : plan.DMA0tickFrom + plan.totalLat = plan.DMA1tickFrom + lat.latDMA1 + lat.latANTI

section Loops

variable {ch die : Resource} {lat : Latencies} {bound : Nat}

/-- One round of `LOOP1`: it leaves the loop with room in both resources at its tick, or the
next one begins later, and no later than the bound. -/
theorem round1_spec (hch : ch.Valid) (hdie : die.Valid) (hb : Bound ch die lat bound)
    {from₀ : Nat} (hfrom : from₀ ≤ bound) {found0 foundM : Nat × Nat}
    (h₀ : ch.search lat.latDMA0 from₀ = found0)
    (hM : die.search (tickAdd lat.latDMA0 lat.latMEM) found0.1 = foundM) :
    from₀ ≤ found0.1 ∧ found0.1 ≤ foundM.1 ∧ foundM.1 ≤ bound ∧
      (foundM.2 = found0.2 → ch.Room lat.latDMA0 found0.1 found0.2 ∧
        die.Room (lat.latDMA0 + lat.latMEM) found0.1 foundM.2) ∧
      ((ch.search lat.latDMA0 foundM.1).2 = found0.2 → ch.Room lat.latDMA0 foundM.1 found0.2 ∧
        die.Room (lat.latDMA0 + lat.latMEM) foundM.1 foundM.2) ∧
      ((ch.search lat.latDMA0 foundM.1).2 ≠ found0.2 → from₀ < foundM.1) := by
  have htotal := lat.total_eq
  obtain ⟨hbch, hbdie, hticks, -, hdma0, -⟩ := hb
  have hmem : tickAdd lat.latDMA0 lat.latMEM = lat.latDMA0 + lat.latMEM := tickAdd_eq (by omega)
  rw [hmem] at hM
  obtain ⟨hle₀, hge₀, hroom₀⟩ := Resource.search_spec hch
    (show lat.latDMA0 + from₀ < 2 ^ 64 by omega) (by omega) (by omega)
  rw [h₀] at hle₀ hge₀ hroom₀
  obtain ⟨hleM, hgeM, hroomM⟩ := Resource.search_spec hdie
    (show lat.latDMA0 + lat.latMEM + found0.1 < 2 ^ 64 by omega) (by omega) (by omega)
  have hstaysM := Resource.search_stays hdie
    (show lat.latDMA0 + lat.latMEM + found0.1 < 2 ^ 64 by omega) (by omega) (by omega)
  rw [hM] at hleM hgeM hroomM hstaysM
  have hroomV := (Resource.search_spec hch
    (show lat.latDMA0 + foundM.1 < 2 ^ 64 by omega) (by omega) (by omega)).2.2
  have hstaysV := Resource.search_stays hch
    (show lat.latDMA0 + foundM.1 < 2 ^ 64 by omega) (by omega) (by omega)
  refine ⟨hle₀, hleM, by omega, fun heq => ⟨hroom₀, ?_⟩, fun heq => ⟨?_, hroomM⟩, fun hne => ?_⟩
  · -- the slot of the die begins no later than the first transfer
    rw [hstaysM (heq ▸ hroom₀.le)] at hroomM
    exact hroomM
  · rw [hstaysV (heq ▸ hroom₀.le.trans hleM), heq] at hroomV
    exact hroomV
  · refine Nat.lt_of_le_of_ne (hle₀.trans hleM) fun heq => hne ?_
    rw [← heq, h₀]

/-- `LOOP1` ends at a tick at which both resources have room. -/
theorem loop1_spec (hch : ch.Valid) (hdie : die.Valid) (hb : Bound ch die lat bound)
    (rounds from₀ : Nat) (hfrom : from₀ ≤ bound) (hrounds : bound - from₀ < rounds) :
    ∃ t td tm, loop1 ch die lat rounds from₀ = .ok (t, td, tm) ∧ from₀ ≤ t ∧ t ≤ bound ∧
      ch.Room lat.latDMA0 t td ∧ die.Room (lat.latDMA0 + lat.latMEM) t tm := by
  induction rounds generalizing from₀ with
  | zero => omega
  | succ rounds ih =>
    rw [loop1]
    generalize h₀ : ch.search lat.latDMA0 from₀ = found0
    generalize hM : die.search (tickAdd lat.latDMA0 lat.latMEM) found0.1 = foundM
    obtain ⟨hle₀, hleM, hgeM, hleaves, hverified, hlater⟩ := round1_spec hch hdie hb hfrom h₀ hM
    split
    · next heq =>
      obtain ⟨hroom₀, hroomM⟩ := hleaves heq
      exact ⟨_, _, _, rfl, hle₀, by omega, hroom₀, hroomM⟩
    · split
      · next heq =>
        obtain ⟨hroom₀, hroomM⟩ := hverified heq
        exact ⟨_, _, _, rfl, by omega, by omega, hroom₀, hroomM⟩
      · next hne =>
        have hlt := hlater hne
        obtain ⟨t, td, tm, h, hle, hrest⟩ := ih foundM.1 (by omega) (by omega)
        exact ⟨t, td, tm, h, by omega, hrest⟩

/-- One round of `LOOP0` behind `LOOP1`: it leaves the loop with a plan that fits, or the next
one begins later, and no later than the bound. -/
theorem round0_spec (hch : ch.Valid) (hdie : die.Valid) (hb : Bound ch die lat bound)
    {t td tm : Nat} (ht : t ≤ bound) (hroom0 : ch.Room lat.latDMA0 t td)
    (hroomM : die.Room (lat.latDMA0 + lat.latMEM) t tm) {found1 : Nat × Nat} {totalLat : Nat}
    (h₁ : ch.search (tickAdd lat.latDMA1 lat.latANTI)
      (tickAdd t (tickAdd lat.latDMA0 lat.latMEM)) = found1)
    (hlat : tickSub (tickAdd (tickAdd found1.1 lat.latDMA1) lat.latANTI) t = totalLat) :
    ((die.search totalLat t).2 = tm → Plan.Fits ⟨t, td, tm, found1.1, totalLat⟩ ch die lat bound) ∧
      ((die.search totalLat t).2 ≠ tm →
        t < (die.search totalLat t).2 ∧ (die.search totalLat t).2 ≤ bound) := by
  have htotal := lat.total_eq
  obtain ⟨hbch, hbdie, hticks, hboth, hdma0, hanti⟩ := hb
  rw [tickAdd_eq (a := lat.latDMA0) (by omega), tickAdd_eq (a := lat.latDMA1) (by omega),
    tickAdd_eq (a := t) (by omega)] at h₁
  obtain ⟨hle1, hge1, hroom1⟩ := Resource.search_spec hch
    (show lat.latDMA1 + lat.latANTI + (t + (lat.latDMA0 + lat.latMEM)) < 2 ^ 64 by omega)
    (by omega) (by omega)
  rw [h₁] at hle1 hge1 hroom1
  rw [tickAdd_eq (a := found1.1) (by omega), tickAdd_eq (by omega),
    tickSub_eq (by omega) (by omega)] at hlat
  obtain ⟨-, hgeV, hroomV⟩ := Resource.search_spec hdie
    (show totalLat + t < 2 ^ 64 by omega) (by omega) (by omega)
  have hstays := Resource.search_stays hdie
    (show totalLat + t < 2 ^ 64 by omega) (by omega) (by omega)
  constructor
  · intro heq
    rw [hstays (heq ▸ hroomM.le), heq] at hroomV
    exact ⟨ht, hroom0, hroomV, ⟨_, hroom1⟩, by dsimp only; omega, by dsimp only; omega,
      by dsimp only; omega⟩
  · intro hne
    have hbound := hroomV.le
    refine ⟨Nat.not_le.mp fun hle => hne ?_, by omega⟩
    -- room for the whole operation at this tick would be room in the same slot
    rw [hstays hle] at hroomV
    exact Resource.Room.unique hdie (by omega) (by omega) hroomV hroomM

/-- `LOOP0` ends with a plan that fits. -/
theorem loop0_spec (hch : ch.Valid) (hdie : die.Valid) (hb : Bound ch die lat bound)
    (rounds from₀ : Nat) (hfrom : from₀ ≤ bound) (hrounds : bound - from₀ < rounds) :
    ∃ plan, loop0 ch die lat rounds from₀ = .ok plan ∧ from₀ ≤ plan.DMA0tickFrom ∧
      plan.Fits ch die lat bound := by
  have hbound := hb.ticks
  induction rounds generalizing from₀ with
  | zero => omega
  | succ rounds ih =>
    obtain ⟨t, td, tm, h, hle, hge, hroom0, hroomM⟩ :=
      loop1_spec hch hdie hb (2 ^ 64) from₀ hfrom (by omega)
    simp only [loop0, h, Bind.bind, Except.bind]
    generalize h₁ : ch.search (tickAdd lat.latDMA1 lat.latANTI)
      (tickAdd t (tickAdd lat.latDMA0 lat.latMEM)) = found1
    generalize hlat : tickSub (tickAdd (tickAdd found1.1 lat.latDMA1) lat.latANTI) t = totalLat
    obtain ⟨hfits, hlater⟩ := round0_spec hch hdie hb hge hroom0 hroomM h₁ hlat
    split
    · next heq => exact ⟨_, rfl, hle, hfits heq⟩
    · next hne =>
      obtain ⟨hlt, hle'⟩ := hlater hne
      obtain ⟨plan, h, hle'', hfits⟩ := ih _ hle' (by omega)
      exact ⟨plan, h, by omega, hfits⟩

end Loops

/-! ### The assignment -/

section Assign

variable {ch die : Resource} {lat : Latencies} {bound : Nat} {plan : Plan}

/-- Where a slot of the channel and the die have room for the whole operation from `tick` on,
the rest of the slot behind the first transfer is long enough for some bucket. -/
def RestKept (ch die : Resource) (lat : Latencies) (arrived : Nat) : Prop :=
  ∀ k s e tick, ch.freeSlots.Slot k s e → s ≤ tick → arrived ≤ tick →
    tick + (lat.latDMA0 + lat.latMEM + lat.latDMA1 + lat.latANTI) ≤ e + 1 →
    Set.Ico tick (tick + (lat.latDMA0 + lat.latMEM + lat.latDMA1 + lat.latANTI)) ⊆ die.free →
    ∃ k' ∈ ch.freeSlots.lengths, k' ≤ e + 1 - (tick + lat.latDMA0)

/-- The first transfer leaves the room for the second one. -/
theorem room_of_restKept {ch₁ : Resource}
    (htake : ch.Takes ch₁ lat.latDMA0 plan.DMA0tickFrom plan.tickDMA0 false)
    (hplan : plan.Fits ch die lat bound) (hanti : 0 < lat.latANTI)
    (hkept : RestKept ch die lat plan.DMA0tickFrom) :
    ∃ tick, ch₁.Room (lat.latDMA1 + lat.latANTI) plan.DMA1tickFrom tick := by
  obtain ⟨-, hroom0, hroomM, ⟨tick1, hroom1⟩, hbehind, -, hlat⟩ := hplan
  rcases hroom1 with ⟨rfl, hle⟩ | ⟨k, hk, e, hslot, hs, he⟩
  · refine ⟨ch₁.startPoint, .inl ⟨rfl, ?_⟩⟩
    rw [htake.startPoint]
    split <;> omega
  · -- a slot of the channel: either another one than that of the first transfer, or its rest
    suffices hnew : ∃ k' s', ch₁.freeSlots.Slot k' s' e ∧ s' ≤ plan.DMA1tickFrom by
      obtain ⟨k', s', hslot', hs'⟩ := hnew
      exact ⟨s', .inr ⟨k', htake.valid.mem_bucketsFrom hslot' (by omega), e, hslot', hs', he⟩⟩
    by_cases heq : tick1 = plan.tickDMA0
    · rw [heq] at hslot hs
      have hfree : Set.Ico plan.DMA0tickFrom (plan.DMA0tickFrom +
          (lat.latDMA0 + lat.latMEM + lat.latDMA1 + lat.latANTI)) ⊆ die.free :=
        (Set.Ico_subset_Ico_right (by omega)).trans hroomM.subset_free
      obtain ⟨k', hk', hle'⟩ := hkept k _ e _ hslot hroom0.le le_rfl (by omega) hfree
      obtain ⟨k₁, hslot₁⟩ := htake.rest hslot (by omega) hk' hle'
      exact ⟨k₁, _, hslot₁, by omega⟩
    · exact ⟨k, tick1, htake.keeps hslot heq, hs⟩

/-- What `assign` does: the second transfer starts at `tick + latANTI`. -/
structure Assigns (ch die : Resource) (lat : Latencies) (plan : Plan) (ch' die' : Resource)
    (tick : Nat) : Prop where
  validCh : ch'.Valid
  validDie : die'.Valid
  later : plan.DMA1tickFrom ≤ tick
  stays : RestKept ch die lat plan.DMA0tickFrom → tick = plan.DMA1tickFrom
  wrap : tick + lat.latANTI + lat.latDMA1 < 2 ^ 64
  dma1Free : Set.Ico (tick + lat.latANTI) (tick + lat.latANTI + lat.latDMA1) ⊆ ch.free
  freeCh : ch'.free ⊆
    (ch.free \ Set.Ico plan.DMA0tickFrom (plan.DMA0tickFrom + lat.latDMA0)) \
      Set.Ico (tick + lat.latANTI) (tick + lat.latANTI + lat.latDMA1)
  freeDie : die'.free ⊆
    die.free \ Set.Ico plan.DMA0tickFrom (plan.DMA0tickFrom + plan.totalLat)

theorem later_eq {a b : Nat} (h : a ≤ b) : (if a < b then b else a) = b := by
  split <;> omega

theorem latest_eq {a b : Nat} (h : a ≤ b) : (if b < a then a else b) = b :=
  if_neg (Nat.not_lt.mpr h)

theorem assign_spec (hch : ch.Valid) (hdie : die.Valid) (hb : Bound ch die lat bound)
    (hplan : plan.Fits ch die lat bound) :
    ∃ ch' die' tick, assign ch die lat plan = .ok
        ((TimeSlot.new plan.DMA0tickFrom lat.latDMA0,
          TimeSlot.new plan.DMA0tickFrom plan.totalLat,
          TimeSlot.new (tick + lat.latANTI) lat.latDMA1), ch', die') ∧
      Assigns ch die lat plan ch' die' tick := by
  have htotal := lat.total_eq
  obtain ⟨hbch, hbdie, hticks, hboth, hdma0, hanti⟩ := hb
  have hkept := fun (ch₁ : Resource)
      (htake : ch.Takes ch₁ lat.latDMA0 plan.DMA0tickFrom plan.tickDMA0 false) =>
    room_of_restKept htake hplan hanti
  obtain ⟨hle, hroom0, hroomM, -, hbehind, hbefore, hlat⟩ := hplan
  have hdma1 : tickAdd lat.latDMA1 lat.latANTI = lat.latDMA1 + lat.latANTI :=
    tickAdd_eq (by omega)
  have hanti2 : tickAdd lat.latANTI lat.latANTI = lat.latANTI + lat.latANTI :=
    tickAdd_eq (by omega)
  -- the first transfer
  obtain ⟨ch₁, hins₁, htake₁⟩ := Resource.insertFreeSlot_spec false hch hroom0
    (by omega) (by omega) (by omega) (by simp)
  have hstart₁ : ch₁.startPoint ≤ bound + lat.latDMA0 := by
    rw [htake₁.startPoint]
    split <;> omega
  -- the second one, searched for again
  obtain ⟨hle1, hge1, hroom1'⟩ := Resource.search_spec htake₁.valid
    (show lat.latDMA1 + lat.latANTI + plan.DMA1tickFrom < 2 ^ 64 by omega) (by omega) (by omega)
  have hstays : RestKept ch die lat plan.DMA0tickFrom →
      (ch₁.search (lat.latDMA1 + lat.latANTI) plan.DMA1tickFrom).1 = plan.DMA1tickFrom :=
      fun h => by
    obtain ⟨tick, hroom⟩ := hkept ch₁ htake₁ h
    exact Resource.search_of_room htake₁.valid (by omega) (by omega) (by omega) hroom
  generalize hfound1 : ch₁.search (lat.latDMA1 + lat.latANTI) plan.DMA1tickFrom = found1 at *
  obtain ⟨d, tick⟩ := found1
  dsimp only at hle1 hge1 hroom1' hstays
  have hroom2 := hroom1'.behind htake₁.valid
  obtain ⟨ch₂, hins₂, htake₂⟩ := Resource.insertFreeSlot_spec false htake₁.valid hroom2
    (by omega) (by omega) (by omega) (by simp)
  have hstart₂ : ch₂.startPoint ≤ bound + lat.latDMA0 + lat.latMEM + lat.latANTI + lat.latDMA1 := by
    rw [htake₂.startPoint]
    split <;> omega
  obtain ⟨die', hinsD, htakeD⟩ := Resource.insertFreeSlot_spec false hdie hroomM
    (by omega) (by omega) (by omega) (by simp)
  -- the slot that is cut out behind the first transfer
  obtain ⟨hle3, hge3, hroom3⟩ := Resource.search_spec htake₂.valid
    (show lat.latANTI + lat.latANTI + (plan.DMA0tickFrom + lat.latDMA0) < 2 ^ 64 by omega)
    (by omega) (by omega)
  have hcut : ∃ ch₃, (if (ch₂.search (lat.latANTI + lat.latANTI)
        (plan.DMA0tickFrom + lat.latDMA0)).1 = plan.DMA0tickFrom + lat.latDMA0
      then ch₂.insertFreeSlot (lat.latANTI + lat.latANTI) (ch₂.search (lat.latANTI + lat.latANTI)
        (plan.DMA0tickFrom + lat.latDMA0)).1 (ch₂.search (lat.latANTI + lat.latANTI)
        (plan.DMA0tickFrom + lat.latDMA0)).2 true else .ok ch₂) = .ok ch₃ ∧ ch₃.Valid ∧
      ∀ x ∈ ch₃.free, x ∈ ch₂.free := by
    split
    · next heq =>
      obtain ⟨ch₃, hins₃, htake₃⟩ := Resource.insertFreeSlot_spec true htake₂.valid
        hroom3 (by omega) (by omega) (by omega) (by omega)
      exact ⟨ch₃, hins₃, htake₃.valid, fun x hx => (htake₃.free x hx).1⟩
    · exact ⟨ch₂, rfl, htake₂.valid, fun x hx => hx⟩
  obtain ⟨ch₃, hins₃, hvalid₃, hfree₃⟩ := hcut
  refine ⟨ch₃, die', d, ?_, hvalid₃, htakeD.valid, hle1, hstays, by omega, fun x hx => ?_,
    fun x hx => ?_, fun x hx => ⟨(htakeD.free x hx).1, (htakeD.free x hx).2 rfl⟩⟩
  · rw [assign, hins₁]
    simp only [Bind.bind, Except.bind, hdma1, hanti2, hfound1, later_eq hroom1'.le,
      latest_eq hroom1'.le, later_eq hroom0.le, latest_eq hroom0.le, latest_eq hroomM.le,
      tickAdd_eq (show d + lat.latANTI < 2 ^ 64 by omega), hins₂, hinsD,
      tickAdd_eq (show plan.DMA0tickFrom + lat.latDMA0 < 2 ^ 64 by omega)]
    split at hins₃
    · next heq => rw [if_pos heq, hins₃]
    · next hne =>
      cases hins₃
      rw [if_neg hne]
  · exact (htake₁.free x (hroom2.subset_free hx)).1
  · have h₂ := htake₂.free x (hfree₃ x hx)
    have h₁ := htake₁.free x h₂.1
    exact ⟨⟨h₁.1, h₁.2 rfl⟩, h₂.2 rfl⟩

end Assign

/-! ### A call -/

/-- The ticks of a time slot. -/
def TimeSlot.ticks (ts : TimeSlot) : Set Nat := Set.Icc ts.StartTick ts.EndTick

theorem TimeSlot.new_EndTick (startTick duration : Nat) (hpos : 0 < startTick + duration)
    (hwrap : startTick + duration < 2 ^ 64) :
    (TimeSlot.new startTick duration).EndTick + 1 = startTick + duration := by
  show tickSub (tickAdd startTick duration) 1 + 1 = startTick + duration
  rw [tickAdd_eq hwrap, tickSub_eq (by omega) hwrap]
  omega

theorem TimeSlot.ticks_new (startTick duration : Nat) (hpos : 0 < startTick + duration)
    (hwrap : startTick + duration < 2 ^ 64) :
    (TimeSlot.new startTick duration).ticks = Set.Ico startTick (startTick + duration) := by
  have hend := TimeSlot.new_EndTick startTick duration hpos hwrap
  ext x
  constructor
  · rintro ⟨hx, hx'⟩
    exact ⟨hx, by omega⟩
  · rintro ⟨hx, hx'⟩
    exact ⟨hx, by omega⟩

namespace PAL2

variable {flash : Flash} {s s' : PAL2} {cmd : Command} {schedule : Schedule}

/-- All resources meet their invariant. -/
structure Valid (s : PAL2) : Prop where
  channels : ∀ c, (s.channels c).Valid
  dies : ∀ d, (s.dies d).Valid

/-- The address exists, no tick of the call wraps around, and sending a command takes time. -/
structure Fits (flash : Flash) (s : PAL2) (cmd : Command) : Prop where
  channel : cmd.addr.channel < flash.param.channel
  die : flash.dieIdx cmd.addr < flash.totalDie
  ticks : cmd.arrived + (s.channels cmd.addr.channel).startPoint +
    (s.dies (flash.dieIdx cmd.addr)).startPoint + (flash.latencies cmd).total < 2 ^ 64
  dma0 : 0 < (flash.latencies cmd).latDMA0
  anti : 0 < (flash.latencies cmd).latANTI

instance (flash : Flash) (s : PAL2) (cmd : Command) : Decidable (s.Fits flash cmd) :=
  decidable_of_iff (cmd.addr.channel < flash.param.channel ∧
      flash.dieIdx cmd.addr < flash.totalDie ∧
      cmd.arrived + (s.channels cmd.addr.channel).startPoint +
        (s.dies (flash.dieIdx cmd.addr)).startPoint + (flash.latencies cmd).total < 2 ^ 64 ∧
      0 < (flash.latencies cmd).latDMA0 ∧ 0 < (flash.latencies cmd).latANTI)
    ⟨fun ⟨h₁, h₂, h₃, h₄, h₅⟩ => ⟨h₁, h₂, h₃, h₄, h₅⟩, fun ⟨h₁, h₂, h₃, h₄, h₅⟩ =>
      ⟨h₁, h₂, h₃, h₄, h₅⟩⟩

/-- The part of the schedule that always is in order. -/
structure Timed (lat : Latencies) (cmd : Command) (schedule : Schedule) : Prop where
  arrived : cmd.arrived ≤ schedule.tsDMA0.StartTick
  dma0 : schedule.tsDMA0.EndTick + 1 = schedule.tsDMA0.StartTick + lat.latDMA0
  dma1 : schedule.tsDMA1.EndTick + 1 = schedule.tsDMA1.StartTick + lat.latDMA1
  mem : schedule.tsMEM.StartTick + lat.latDMA0 + lat.latMEM + lat.latDMA1 ≤
    schedule.tsMEM.EndTick + 1
  behind : schedule.tsDMA0.EndTick + 1 + lat.latMEM ≤ schedule.tsDMA1.StartTick
  begins : schedule.tsMEM.StartTick = schedule.tsDMA0.StartTick
  finished : schedule.finished = schedule.tsDMA1.EndTick

/-- The room for a whole operation that the channel of a command has left. -/
def RestKept (flash : Flash) (s : PAL2) (cmd : Command) : Prop :=
  PAL.RestKept (s.channels cmd.addr.channel) (s.dies (flash.dieIdx cmd.addr))
    (flash.latencies cmd) cmd.arrived

/-- The search of a command that fits begins below the bound on its ticks. -/
theorem Fits.bound (h : s.Fits flash cmd) :
    Bound (s.channels cmd.addr.channel) (s.dies (flash.dieIdx cmd.addr)) (flash.latencies cmd)
      (cmd.arrived + (s.channels cmd.addr.channel).startPoint +
        (s.dies (flash.dieIdx cmd.addr)).startPoint) := by
  have hticks := h.ticks
  exact ⟨by omega, by omega, hticks, by omega, h.dma0, h.anti⟩

/-- What a call does. -/
structure Serves (flash : Flash) (s : PAL2) (cmd : Command) (schedule : Schedule) (s' : PAL2) :
    Prop where
  valid : s'.Valid
  channel : schedule.channel = cmd.addr.channel
  die : schedule.die = flash.dieIdx cmd.addr
  timed : Timed (flash.latencies cmd) cmd schedule
  ends : s.RestKept flash cmd → schedule.tsDMA1.EndTick ≤ schedule.tsMEM.EndTick
  dma0Free : schedule.tsDMA0.ticks ⊆ (s.channels schedule.channel).free
  dma1Free : schedule.tsDMA1.ticks ⊆ (s.channels schedule.channel).free \ schedule.tsDMA0.ticks
  memFree : schedule.tsMEM.ticks ⊆ (s.dies schedule.die).free
  freeCh : (s'.channels schedule.channel).free ⊆
    ((s.channels schedule.channel).free \ schedule.tsDMA0.ticks) \ schedule.tsDMA1.ticks
  freeDie : (s'.dies schedule.die).free ⊆ (s.dies schedule.die).free \ schedule.tsMEM.ticks
  otherCh : ∀ c, c ≠ schedule.channel → s'.channels c = s.channels c
  otherDie : ∀ d, d ≠ schedule.die → s'.dies d = s.dies d

/-- Every call that fits is served. -/
theorem timelineScheduling_spec (hs : s.Valid) (h : s.Fits flash cmd) :
    ∃ schedule s', s.timelineScheduling flash cmd = .ok (schedule, s') ∧
      Serves flash s cmd schedule s' := by
  obtain ⟨hchannel, hdie, hticks, hdma0, hanti⟩ := id h
  have hvalidCh := hs.channels cmd.addr.channel
  have hvalidDie := hs.dies (flash.dieIdx cmd.addr)
  have htotal := (flash.latencies cmd).total_eq
  have hbound := h.bound
  -- a plan that fits is found, and carried out on this channel and this die alone
  obtain ⟨plan, hloop, harrived, hfits⟩ := loop0_spec hvalidCh hvalidDie hbound (2 ^ 64)
    cmd.arrived (by omega) (by omega)
  obtain ⟨ch', die', tick, hassign, hdoes⟩ := assign_spec hvalidCh hvalidDie hbound hfits
  obtain ⟨hle, hroom0, hroomM, -, hbehind, hbefore, hlat⟩ := hfits
  obtain ⟨hvalidCh', hvalidDie', hlater, hstays, hwrap, hdma1Free, hfreeCh, hfreeDie⟩ := hdoes
  generalize hlat' : flash.latencies cmd = lat at *
  have hend0 := TimeSlot.new_EndTick plan.DMA0tickFrom lat.latDMA0 (by omega) (by omega)
  have hendM := TimeSlot.new_EndTick plan.DMA0tickFrom plan.totalLat (by omega) (by omega)
  have hend1 := TimeSlot.new_EndTick (tick + lat.latANTI) lat.latDMA1 (by omega) (by omega)
  have hticks0 := TimeSlot.ticks_new plan.DMA0tickFrom lat.latDMA0 (by omega) (by omega)
  have hticksM := TimeSlot.ticks_new plan.DMA0tickFrom plan.totalLat (by omega) (by omega)
  have hticks1 := TimeSlot.ticks_new (tick + lat.latANTI) lat.latDMA1 (by omega) (by omega)
  refine ⟨⟨cmd.addr.channel, flash.dieIdx cmd.addr, .new plan.DMA0tickFrom lat.latDMA0,
      .new plan.DMA0tickFrom plan.totalLat, .new (tick + lat.latANTI) lat.latDMA1,
      (TimeSlot.new (tick + lat.latANTI) lat.latDMA1).EndTick⟩,
    ⟨Function.update s.channels cmd.addr.channel ch',
      Function.update s.dies (flash.dieIdx cmd.addr) die'⟩, ?_, {
    valid := ⟨fun c => ?_, fun d => ?_⟩
    channel := rfl
    die := rfl
    timed := ?_
    ends := fun hkept => ?_
    dma0Free := hticks0 ▸ hroom0.subset_free
    dma1Free := hticks1 ▸ hticks0 ▸ fun x hx => ⟨hdma1Free hx, fun hx₀ => ?_⟩
    memFree := hticksM ▸ hroomM.subset_free
    freeCh := ?_
    freeDie := ?_
    otherCh := fun c hc => Function.update_of_ne hc _ _
    otherDie := fun d hd => Function.update_of_ne hd _ _ }⟩
  · rw [timelineScheduling, if_neg (by simp [hchannel, hdie]), hlat']
    simp only [hloop, hassign, Bind.bind, Except.bind]
  · dsimp only
    rcases eq_or_ne c cmd.addr.channel with rfl | hne
    · rw [Function.update_self]
      exact hvalidCh'
    · rw [Function.update_of_ne hne]
      exact hs.channels c
  · dsimp only
    rcases eq_or_ne d (flash.dieIdx cmd.addr) with rfl | hne
    · rw [Function.update_self]
      exact hvalidDie'
    · rw [Function.update_of_ne hne]
      exact hs.dies d
  · rw [hlat']
    refine ⟨harrived, hend0, hend1, ?_, ?_, rfl, rfl⟩
    · show plan.DMA0tickFrom + lat.latDMA0 + lat.latMEM + lat.latDMA1 ≤ _
      rw [hendM]
      omega
    · rw [hend0]
      show _ ≤ tick + lat.latANTI
      omega
  · rw [RestKept, hlat'] at hkept
    have htick := hstays fun k s e tick hslot hs hle' => hkept k s e tick hslot hs
      (harrived.trans hle')
    dsimp only
    omega
  · have := hx.1
    have := hx₀.2
    omega
  · dsimp only
    rw [hticks0, hticks1, Function.update_self]
    exact hfreeCh
  · dsimp only
    rw [hticksM, Function.update_self]
    exact hfreeDie

end PAL2

end SimpleSSD.PAL
