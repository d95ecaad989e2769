import SimpleSSD.Lib.Run
import SimpleSSD.Util.Def

/-!
# The request generator (igl/request/request_generator.cc:27–113 and 170–240)

The generator makes requests of one size in the region from `offset` on. A random offset is
drawn from a range that includes the end of the region, and is rounded down to the alignment;
nothing looks at the end of the request. A sequential offset is taken modulo the size of the
region and moved back by the length of the request when that does not fit: the offset need
not be aligned afterwards, and for an offset below the length the subtraction underflows.

Only what makes the addresses is modelled, in 64 bits.
-/

namespace SimpleSSD.IGL

/-- `IO_TYPE`. -/
inductive IOType where
  | read | write | randRead | randWrite | readWrite | randRW
  deriving DecidableEq, Repr

/-- The types whose addresses are drawn. -/
def IOType.isRandom : IOType → Bool
  | .randRead | .randWrite | .randRW => true
  | .read | .write | .readWrite => false

/-- What is read from the configuration. -/
structure RequestConfig where
  type : IOType
  offset : UInt64
  size : UInt64
  blocksize : UInt64
  blockalign : UInt64

/-- `RequestGenerator`. -/
structure RequestGenerator where
  type : IOType
  io_count : Nat
  offset : Nat
  size : Nat
  blocksize : Nat
  blockalign : Nat
  deriving DecidableEq, Repr

/-- An offset with the length of its request, and whether a subtraction has underflowed. -/
structure Address where
  off : Nat
  len : Nat
  underflow : Bool
  deriving DecidableEq, Repr

namespace RequestGenerator

/-- The constructor. -/
def new (c : RequestConfig) : RequestGenerator where
  type := c.type
  io_count := 0
  offset := c.offset.toNat
  size := c.size.toNat
  blocksize := c.blocksize.toNat
  blockalign := if c.blockalign.toNat = 0 then c.blocksize.toNat else c.blockalign.toNat

/-- `init`. -/
def init (bytesize : UInt64) (bs : UInt32) (s : RequestGenerator) : Except Fault RequestGenerator :=
  let bytesize := bytesize.toNat
  let bs := bs.toNat
  if bytesize < s.offset then
    .error (.panic "RequestGenerator::init" "offset is larger than SSD size")
  else if s.blocksize < bs then
    .error (.panic "RequestGenerator::init" "blocksize is smaller than SSD's logical block")
  else if s.blockalign < bs then
    .error (.panic "RequestGenerator::init" "blockalign is smaller than SSD's logical block")
  else if bs = 0 then .error (.badAccess "division by zero")
  else
    let blocksize := if s.blocksize % bs ≠ 0 then s.blocksize / bs * bs else s.blocksize
    let blockalign := if s.blockalign % bs ≠ 0 then s.blockalign / bs * bs else s.blockalign
    let offset := if s.offset % blockalign ≠ 0 then s.offset / blockalign * blockalign else s.offset
    let size := if s.size = 0 ∨ bytesize < (offset + s.size) % 2 ^ 64 then bytesize - offset
      else s.size
    if size = 0 then .error (.panic "RequestGenerator::init" "Invalid offset and size provided")
    else .ok { s with offset, size, blocksize, blockalign }

/-- The loop of `generateAddress` for sequential addresses. -/
def limit (size : Nat) : Nat → Address → Except Fault Address
  | 0, _ => .error (.diverges "RequestGenerator::generateAddress")
  | fuel + 1, a =>
    if size < (a.off + a.len) % 2 ^ 64 then
      if size ≤ a.off then limit size fuel { a with off := a.off - size }
      else
        limit size fuel { a with
          off := (a.off + 2 ^ 64 - a.len) % 2 ^ 64
          underflow := a.underflow || decide (a.off < a.len) }
    else .ok a

/-- `generateAddress`, with what `randgen` has drawn. -/
def generateAddress (draw : Nat) (s : RequestGenerator) : Except Fault Address :=
  if s.type.isRandom then .ok ⟨draw - draw % s.blockalign, s.blocksize, false⟩
  else
    (limit s.size (2 ^ 64 + 1) ⟨s.io_count * s.blockalign % 2 ^ 64, s.blocksize, false⟩).map
      fun a => { a with off := (a.off + s.offset) % 2 ^ 64 }

/-- The addresses of the requests that `_submitIO` makes. -/
def generate : List Nat → RequestGenerator → Except Fault (List Address)
  | [], _ => .ok []
  | draw :: draws, s => do
    let a ← s.generateAddress draw
    let rest ← generate draws { s with io_count := (s.io_count + 1) % 2 ^ 64 }
    .ok (a :: rest)

/-- What `randgen` draws: the end of the region is among it. From an end that has wrapped around
nothing can be drawn. -/
def Drawn (s : RequestGenerator) (draw : Nat) : Prop :=
  s.offset ≤ draw ∧ draw ≤ (s.offset + s.size) % 2 ^ 64

/-- The request lies in the region, at the alignment, and nothing has underflowed. -/
structure Inside (s : RequestGenerator) (a : Address) : Prop where
  base : s.offset ≤ a.off
  fits : a.off + a.len ≤ s.offset + s.size
  aligned : s.blockalign ∣ a.off - s.offset
  noUnderflow : a.underflow = false

/-- A request has room behind an offset that counts from the base: it does not go beyond the
size of the region, its address exists, and the offset is aligned. -/
def Room (s : RequestGenerator) (x : Nat) : Prop :=
  x + s.blocksize ≤ s.size ∧ x + s.offset < 2 ^ 64 ∧ s.blockalign ∣ x

/-- The offsets for which the correction leaves a request in the region: the request has room
there, or goes beyond the region and has room when it is moved back by its length. -/
def Suits (s : RequestGenerator) (r : Nat) : Prop :=
  s.Room r ∨ s.size < r + s.blocksize ∧ s.blocksize ≤ r ∧ s.Room (r - s.blocksize)

/-- The condition under which the `count`th request is inside. A random request fits behind the
beginning of the aligned block that is drawn; a sequential one does not wrap around, and its
offset modulo the size of the region suits. -/
def Fits (s : RequestGenerator) (count draw : Nat) : Prop :=
  if s.type.isRandom then
    (draw - s.offset) / s.blockalign * s.blockalign + s.blocksize ≤ s.size
  else
    count * s.blockalign % 2 ^ 64 + s.blocksize < 2 ^ 64 ∧
      s.Suits (count * s.blockalign % 2 ^ 64 % s.size)

/-- What `init` leaves. -/
structure Accepted (s : RequestGenerator) : Prop where
  offset_lt : s.offset < 2 ^ 64
  size_pos : 0 < s.size
  size_lt : s.size < 2 ^ 64
  blocksize_pos : 0 < s.blocksize
  blocksize_lt : s.blocksize < 2 ^ 64
  blockalign_pos : 0 < s.blockalign
  aligned : s.blockalign ∣ s.offset

section Init

variable {s : RequestGenerator} {c : RequestConfig} {bytesize : UInt64} {bs : UInt32}

theorem roundDown_pos {n d : Nat} (hd : 0 < d) (hle : d ≤ n) :
    0 < if n % d ≠ 0 then n / d * d else n := by
  split
  · exact Nat.mul_pos (Nat.div_pos hle hd) hd
  · omega

theorem roundDown_le (n d : Nat) : (if n % d ≠ 0 then n / d * d else n) ≤ n := by
  split
  · exact Nat.div_mul_le_self n d
  · exact Nat.le_refl n

theorem dvd_roundDown (n d : Nat) : d ∣ if n % d ≠ 0 then n / d * d else n := by
  split
  · exact Dvd.intro_left (n / d) rfl
  · next h => exact Nat.dvd_of_mod_eq_zero (not_not.mp h)

theorem accepted_init (h : (new c).init bytesize bs = .ok s) : s.Accepted ∧ s.io_count = 0 := by
  have hoffset := c.offset.toNat_lt
  have hsize := c.size.toNat_lt
  have hblocksize := c.blocksize.toNat_lt
  have hbytesize := bytesize.toNat_lt
  rw [init] at h
  dsimp only at h
  -- the rounded values are made variables before the checks are gone through
  have hblock := @roundDown_pos (new c).blocksize bs.toNat
  have hblock_le := roundDown_le (new c).blocksize bs.toNat
  have halign := @roundDown_pos (new c).blockalign bs.toNat
  generalize (if (new c).blocksize % bs.toNat ≠ 0 then (new c).blocksize / bs.toNat * bs.toNat
    else (new c).blocksize) = blocksize at *
  generalize (if (new c).blockalign % bs.toNat ≠ 0 then (new c).blockalign / bs.toNat * bs.toNat
    else (new c).blockalign) = blockalign at *
  have haligned := dvd_roundDown (new c).offset blockalign
  have hbase := roundDown_le (new c).offset blockalign
  generalize (if (new c).offset % blockalign ≠ 0 then (new c).offset / blockalign * blockalign
    else (new c).offset) = offset at *
  have hregion : (if (new c).size = 0 ∨ bytesize.toNat < (offset + (new c).size) % 2 ^ 64 then
      bytesize.toNat - offset else (new c).size) < 2 ^ 64 := by
    split
    · omega
    · exact hsize
  generalize (if (new c).size = 0 ∨ bytesize.toNat < (offset + (new c).size) % 2 ^ 64 then
    bytesize.toNat - offset else (new c).size) = size at *
  split at h
  · cases h
  split at h
  · cases h
  split at h
  · cases h
  split at h
  · cases h
  split at h
  · cases h
  · next hle hle' hbs hpos =>
    cases h
    have hbs := Nat.pos_of_ne_zero hbs
    exact ⟨⟨hbase.trans_lt hoffset, Nat.pos_of_ne_zero hpos, hregion,
      hblock hbs (Nat.le_of_not_lt hle), hblock_le.trans_lt hblocksize,
      halign hbs (Nat.le_of_not_lt hle'), haligned⟩, rfl⟩

end Init

/-! ### Sequential addresses -/

section Limit

variable {size fuel : Nat} {a : Address}

/-- What the loop comes to, below 2^64. -/
def limited (size : Nat) (a : Address) : Address :=
  let r := a.off % size
  if r + a.len ≤ size then { a with off := r }
  else if a.len ≤ r then { a with off := r - a.len }
  else { a with off := r + 2 ^ 64 - a.len, underflow := true }

/-- A request that fits ends the loop. -/
theorem limit_done (hfits : (a.off + a.len) % 2 ^ 64 ≤ size) (hfuel : 0 < fuel) :
    limit size fuel a = .ok a := by
  cases fuel with
  | zero => omega
  | succ fuel => exact if_neg (Nat.not_lt.mpr hfits)

/-- The loop takes the offset modulo the size, and then moves the request back. -/
theorem limit_eq (hsize : 0 < size) (hlen : 0 < a.len) (hsum : a.off + a.len < 2 ^ 64)
    (hfuel : a.off + 2 ≤ fuel) : limit size fuel a = .ok (limited size a) := by
  induction fuel generalizing a with
  | zero => omega
  | succ fuel ih =>
    rw [limit, Nat.mod_eq_of_lt hsum]
    by_cases hin : a.off + a.len ≤ size
    · have hr : a.off % size = a.off := Nat.mod_eq_of_lt (by omega)
      rw [if_neg (Nat.not_lt.mpr hin), limited]
      rw [hr, if_pos hin]
    · rw [if_pos (Nat.lt_of_not_le hin)]
      by_cases hbehind : size ≤ a.off
      · have hr : (a.off - size) % size = a.off % size := (Nat.mod_eq_sub_mod hbehind).symm
        rw [if_pos hbehind, @ih { a with off := a.off - size } hlen
          (show a.off - size + a.len < 2 ^ 64 by omega) (show a.off - size + 2 ≤ fuel by omega)]
        rw [limited, limited]
        dsimp only
        rw [hr]
      · have hr : a.off % size = a.off := Nat.mod_eq_of_lt (by omega)
        rw [if_neg hbehind, limited]
        rw [hr, if_neg hin]
        -- moved back the request fits, also with an offset that has wrapped around
        by_cases hback : a.len ≤ a.off
        · rw [if_pos hback, decide_eq_false (Nat.not_lt.mpr hback), Bool.or_false,
            show a.off + 2 ^ 64 - a.len = a.off - a.len + 2 ^ 64 by omega, Nat.add_mod_right,
            Nat.mod_eq_of_lt (by omega)]
          refine limit_done ?_ (by omega)
          show (a.off - a.len + a.len) % 2 ^ 64 ≤ size
          rw [Nat.mod_eq_of_lt (by omega)]
          omega
        · rw [if_neg hback, decide_eq_true (Nat.lt_of_not_le hback), Bool.or_true,
            Nat.mod_eq_of_lt (by omega)]
          refine limit_done ?_ (by omega)
          show (a.off + 2 ^ 64 - a.len + a.len) % 2 ^ 64 ≤ size
          rw [Nat.sub_add_cancel (by omega), Nat.add_mod_right, Nat.mod_eq_of_lt (by omega)]
          omega

/-- A request that goes beyond 2^64 is left there. -/
theorem limit_wraps (hsize : 0 < size) (hlen : a.len < 2 ^ 64) (hoff : a.off < 2 ^ 64)
    (hsum : 2 ^ 64 ≤ a.off + a.len) (hfuel : a.off < fuel) :
    ∃ a', limit size fuel a = .ok a' ∧ a'.off < 2 ^ 64 ∧ 2 ^ 64 ≤ a'.off + a'.len := by
  induction fuel generalizing a with
  | zero => omega
  | succ fuel ih =>
    have hmod : (a.off + a.len) % 2 ^ 64 = a.off + a.len - 2 ^ 64 := by
      rw [Nat.mod_eq_sub_mod hsum]
      exact Nat.mod_eq_of_lt (by omega)
    rw [limit, hmod]
    by_cases hin : size < a.off + a.len - 2 ^ 64
    · rw [if_pos hin, if_pos (by omega)]
      exact @ih { a with off := a.off - size } hlen (show a.off - size < 2 ^ 64 by omega)
        (show 2 ^ 64 ≤ a.off - size + a.len by omega) (show a.off - size < fuel by omega)
    · rw [if_neg hin]
      exact ⟨a, rfl, hoff, hsum⟩

end Limit

/-! ### Single requests -/

section Address

variable {s : RequestGenerator} {draw : Nat}

/-- Rounding down to the alignment counts from the base. -/
theorem Accepted.roundDown_draw (h : s.Accepted) (hdraw : s.offset ≤ draw) :
    draw - draw % s.blockalign =
      s.offset + (draw - s.offset) / s.blockalign * s.blockalign := by
  obtain ⟨k, hk⟩ := h.aligned
  have hdiv := Nat.div_add_mod (draw - s.offset) s.blockalign
  have hmod : draw % s.blockalign = (draw - s.offset) % s.blockalign := by
    calc draw % s.blockalign = (draw - s.offset + s.blockalign * k) % s.blockalign := by
          rw [← hk, Nat.sub_add_cancel hdraw]
      _ = (draw - s.offset) % s.blockalign := Nat.add_mul_mod_self_left _ _ _
  rw [Nat.mul_comm] at hdiv
  omega

theorem Accepted.random_iff (h : s.Accepted) (hrandom : s.type.isRandom = true)
    (hdraw : s.Drawn draw) :
    (∃ a, s.generateAddress draw = .ok a ∧ s.Inside a) ↔
      (draw - s.offset) / s.blockalign * s.blockalign + s.blocksize ≤ s.size := by
  have hround := h.roundDown_draw hdraw.1
  rw [generateAddress, if_pos hrandom, hround]
  constructor
  · rintro ⟨a, ha, hinside⟩
    obtain rfl := Except.ok.inj ha
    have hfits : s.offset + _ + s.blocksize ≤ s.offset + s.size := hinside.fits
    omega
  · intro hle
    refine ⟨_, rfl, Nat.le_add_right _ _, ?_, ?_, rfl⟩
    · show s.offset + (draw - s.offset) / s.blockalign * s.blockalign + s.blocksize ≤ _
      omega
    · show s.blockalign ∣ s.offset + (draw - s.offset) / s.blockalign * s.blockalign - s.offset
      rw [Nat.add_sub_cancel_left]
      exact Dvd.intro_left _ rfl

/-- With the base added to its offset, a request is inside when it has room there. -/
theorem Accepted.inside_iff_room (h : s.Accepted) {x : Nat} (hx : x < 2 ^ 64) :
    s.Inside ⟨(x + s.offset) % 2 ^ 64, s.blocksize, false⟩ ↔ s.Room x := by
  have hoffset := h.offset_lt
  constructor
  · rintro ⟨hbase, hfits, haligned, -⟩
    dsimp only at hbase hfits haligned
    -- an address that has wrapped around is in front of the base
    have hend : x + s.offset < 2 ^ 64 := by omega
    rw [Nat.mod_eq_of_lt hend] at hfits haligned
    rw [Nat.add_sub_cancel] at haligned
    exact ⟨by omega, hend, haligned⟩
  · rintro ⟨hfits, hend, haligned⟩
    rw [Nat.mod_eq_of_lt hend]
    refine ⟨Nat.le_add_left _ _, ?_, ?_, rfl⟩
    · show x + s.offset + s.blocksize ≤ s.offset + s.size
      omega
    · show s.blockalign ∣ x + s.offset - s.offset
      rwa [Nat.add_sub_cancel]

/-- The loop leaves a request that has room, as it is or moved back. -/
theorem Accepted.inside_limited_iff (h : s.Accepted) (off : Nat) :
    s.Inside { limited s.size ⟨off, s.blocksize, false⟩ with
      off := ((limited s.size ⟨off, s.blocksize, false⟩).off + s.offset) % 2 ^ 64 } ↔
        s.Suits (off % s.size) := by
  have hr : off % s.size < 2 ^ 64 := (Nat.mod_lt off h.size_pos).trans h.size_lt
  rw [limited, Suits]
  dsimp only
  generalize off % s.size = r at *
  by_cases hin : r + s.blocksize ≤ s.size
  · rw [if_pos hin]
    refine (h.inside_iff_room hr).trans ⟨.inl, ?_⟩
    rintro (hroom | ⟨hout, -⟩)
    · exact hroom
    · exact absurd hin (Nat.not_le.mpr hout)
  · rw [if_neg hin]
    by_cases hback : s.blocksize ≤ r
    · rw [if_pos hback]
      refine (h.inside_iff_room (show r - s.blocksize < 2 ^ 64 by omega)).trans ⟨?_, ?_⟩
      · intro hroom
        exact .inr ⟨Nat.lt_of_not_le hin, hback, hroom⟩
      · rintro (⟨hle, -⟩ | ⟨-, -, hroom⟩)
        · exact absurd hle hin
        · exact hroom
    · rw [if_neg hback]
      refine iff_of_false (fun hinside => ?_) ?_
      · cases hinside.noUnderflow
      · rintro (⟨hle, -⟩ | ⟨-, hle, -⟩)
        · exact hin hle
        · exact hback hle

theorem Accepted.sequential_iff (h : s.Accepted) (hrandom : s.type.isRandom = false) :
    (∃ a, s.generateAddress draw = .ok a ∧ s.Inside a) ↔
      s.io_count * s.blockalign % 2 ^ 64 + s.blocksize < 2 ^ 64 ∧
        s.Suits (s.io_count * s.blockalign % 2 ^ 64 % s.size) := by
  have hoff : s.io_count * s.blockalign % 2 ^ 64 < 2 ^ 64 := Nat.mod_lt _ (by decide)
  rw [generateAddress, hrandom, if_neg Bool.false_ne_true]
  generalize s.io_count * s.blockalign % 2 ^ 64 = off at *
  by_cases hsum : off + s.blocksize < 2 ^ 64
  · rw [@limit_eq s.size (2 ^ 64 + 1) ⟨off, s.blocksize, false⟩ h.size_pos h.blocksize_pos hsum
      (show off + 2 ≤ 2 ^ 64 + 1 by omega), Except.map, ← h.inside_limited_iff off]
    constructor
    · rintro ⟨a, ha, hinside⟩
      obtain rfl := Except.ok.inj ha
      exact ⟨hsum, hinside⟩
    · rintro ⟨-, hinside⟩
      exact ⟨_, rfl, hinside⟩
  · -- the request goes beyond 2^64, so that it ends behind the region or begins in front of it
    refine iff_of_false ?_ fun hfits => hsum hfits.1
    obtain ⟨a, hlimit, hlt, hbeyond⟩ := @limit_wraps s.size (2 ^ 64 + 1) ⟨off, s.blocksize, false⟩
      h.size_pos h.blocksize_lt hoff (Nat.le_of_not_lt hsum) (show off < 2 ^ 64 + 1 by omega)
    rw [hlimit]
    rintro ⟨a', ha', hinside⟩
    obtain rfl := Except.ok.inj ha'
    have hbase : s.offset ≤ (a.off + s.offset) % 2 ^ 64 := hinside.base
    have hfits : (a.off + s.offset) % 2 ^ 64 + a.len ≤ s.offset + s.size := hinside.fits
    have hoffset := h.offset_lt
    have hsize := h.size_lt
    omega

/-- A request is inside exactly when it fits. -/
theorem Accepted.generateAddress_iff (h : s.Accepted)
    (hdraw : s.type.isRandom = true → s.Drawn draw) :
    (∃ a, s.generateAddress draw = .ok a ∧ s.Inside a) ↔ s.Fits s.io_count draw := by
  rw [Fits]
  cases hrandom : s.type.isRandom with
  | true =>
    rw [if_pos rfl]
    exact h.random_iff hrandom (hdraw hrandom)
  | false =>
    rw [if_neg Bool.false_ne_true]
    exact h.sequential_iff hrandom

/-- With a region of whole aligned blocks and requests that are not longer, every sequential
request below 2^64 is inside. -/
theorem Accepted.fits_of_dvd (h : s.Accepted) (hend : s.offset + s.size < 2 ^ 64)
    (hrandom : s.type.isRandom = false)
    (hdvd : s.blockalign ∣ s.size) (hle : s.blocksize ≤ s.blockalign) {count : Nat}
    (hcount : count * s.blockalign + s.blocksize < 2 ^ 64) : s.Fits count draw := by
  rw [Fits, hrandom, if_neg Bool.false_ne_true, Nat.mod_eq_of_lt (by omega)]
  have hr := Nat.mod_lt (count * s.blockalign) h.size_pos
  have haligned : s.blockalign ∣ count * s.blockalign % s.size :=
    (Nat.dvd_mod_iff hdvd).mpr (Dvd.intro_left _ rfl)
  refine ⟨hcount, .inl ⟨?_, by omega, haligned⟩⟩
  -- an aligned offset below the size of the region leaves room for a block
  obtain ⟨j, hj⟩ := haligned
  obtain ⟨m, hm⟩ := hdvd
  rw [hj, hm] at hr
  have hlt : j + 1 ≤ m := Nat.lt_of_mul_lt_mul_left hr
  have hmul := Nat.mul_le_mul_left s.blockalign hlt
  rw [Nat.mul_succ] at hmul
  omega

end Address

/-! ### Runs -/

section Run

variable {s : RequestGenerator} {a : Address} {count : Nat}

theorem inside_count : Inside { s with io_count := count } a ↔ s.Inside a :=
  ⟨fun h => ⟨h.base, h.fits, h.aligned, h.noUnderflow⟩,
    fun h => ⟨h.base, h.fits, h.aligned, h.noUnderflow⟩⟩

theorem Accepted.recount (h : s.Accepted) (count : Nat) : Accepted { s with io_count := count } :=
  ⟨h.offset_lt, h.size_pos, h.size_lt, h.blocksize_pos, h.blocksize_lt, h.blockalign_pos,
    h.aligned⟩

/-- The requests from some count on. -/
theorem Accepted.generate_iff (h : s.Accepted) {draws : List Nat}
    (hdraws : s.type.isRandom = true → ∀ d ∈ draws, s.Drawn d) (hcount : count < 2 ^ 64) :
    (∃ as, generate draws { s with io_count := count } = .ok as ∧ ∀ a ∈ as, s.Inside a) ↔
      ∀ k d, draws[k]? = some d → s.Fits ((count + k) % 2 ^ 64) d := by
  induction draws generalizing count with
  | nil => exact iff_of_true ⟨[], rfl, fun a ha => by cases ha⟩ fun k d hk => by cases hk
  | cons draw draws ih =>
    have hfirst := (h.recount count).generateAddress_iff
      fun hrandom => hdraws hrandom draw List.mem_cons_self
    have hrest := @ih ((count + 1) % 2 ^ 64)
      (fun hrandom d hd => hdraws hrandom d (List.mem_cons_of_mem draw hd))
      (Nat.mod_lt _ (by decide))
    simp only [inside_count] at hfirst
    have hshift : ∀ k, ((count + 1) % 2 ^ 64 + k) % 2 ^ 64 = (count + (k + 1)) % 2 ^ 64 :=
      fun k => by rw [Nat.mod_add_mod, Nat.add_assoc, Nat.add_comm 1 k]
    rw [generate]
    constructor
    · rintro ⟨as, has, hinside⟩
      obtain ⟨a, ha, has⟩ := Except.bind_eq_ok.mp has
      obtain ⟨rest, hrun, has⟩ := Except.bind_eq_ok.mp has
      obtain rfl := Except.ok.inj has
      intro k d hk
      cases k with
      | zero =>
        obtain rfl := Option.some.inj hk
        rw [Nat.add_zero, Nat.mod_eq_of_lt hcount]
        exact hfirst.mp ⟨a, ha, hinside a List.mem_cons_self⟩
      | succ k =>
        rw [← hshift]
        exact hrest.mp ⟨rest, hrun, fun a ha => hinside a (List.mem_cons_of_mem _ ha)⟩ k d hk
    · intro hall
      have hfit := hall 0 draw rfl
      rw [Nat.add_zero, Nat.mod_eq_of_lt hcount] at hfit
      obtain ⟨a, ha, hinside⟩ := hfirst.mpr hfit
      obtain ⟨rest, hrun, hinside'⟩ := hrest.mpr fun k d hk => by
        rw [hshift]
        exact hall (k + 1) d hk
      refine ⟨a :: rest, ?_, List.forall_mem_cons.mpr ⟨hinside, hinside'⟩⟩
      rw [ha, Except.ok_bind, hrun]
      rfl

end Run

/-- The requests of a configuration that `init` accepts are all inside the region exactly when
each of them fits. -/
theorem generate_inside_iff (c : RequestConfig) (bytesize : UInt64) (bs : UInt32)
    (s : RequestGenerator) (hinit : (new c).init bytesize bs = .ok s) (draws : List Nat)
    (hdraws : s.type.isRandom = true → ∀ d ∈ draws, s.Drawn d) :
    (∃ as, s.generate draws = .ok as ∧ ∀ a ∈ as, s.Inside a) ↔
      ∀ k d, draws[k]? = some d → s.Fits (k % 2 ^ 64) d := by
  obtain ⟨haccepted, hzero⟩ := accepted_init hinit
  have heq : { s with io_count := 0 } = s := by rw [← hzero]
  have hiff := @Accepted.generate_iff s 0 haccepted draws hdraws (by decide)
  rw [heq] at hiff
  simp only [Nat.zero_add] at hiff
  exact hiff

/-! ### A region of two blocks -/

section Blocks

/-- Reading the region block by block. -/
def blockReads : RequestConfig := ⟨.read, 0, 8192, 4096, 4096⟩

/-- Reading a block of it at random. -/
def blockRandomReads : RequestConfig := ⟨.randRead, 0, 8192, 4096, 4096⟩

theorem generate_inside_blockReads :
    (new blockReads).init 8192 512 = .ok (new blockReads) ∧
      ∃ as, generate [0, 0, 0] (new blockReads) = .ok as ∧ ∀ a ∈ as, (new blockReads).Inside a := by
  refine ⟨rfl, ?_⟩
  refine (generate_inside_iff blockReads 8192 512 (new blockReads) rfl [0, 0, 0]
    (fun hrandom => by cases hrandom)).mpr fun k d hk => ?_
  have hlt : k < 3 := (List.getElem?_eq_some_iff.mp hk).1
  have hinit : (new blockReads).init 8192 512 = .ok (new blockReads) := rfl
  refine (accepted_init hinit).1.fits_of_dvd ?_ rfl ?_ ?_ ?_
  · decide
  · exact ⟨2, rfl⟩
  · decide
  · show k % 2 ^ 64 * 4096 + 4096 < 2 ^ 64
    omega

/-- The end of the region may be drawn, and the request then begins there. -/
theorem not_inside_blockRandomReads :
    (new blockRandomReads).init 8192 512 = .ok (new blockRandomReads) ∧
      (∀ d ∈ [8192], (new blockRandomReads).Drawn d) ∧
      generate [8192] (new blockRandomReads) = .ok [⟨8192, 4096, false⟩] ∧
      ¬ ∃ as, generate [8192] (new blockRandomReads) = .ok as ∧
          ∀ a ∈ as, (new blockRandomReads).Inside a := by
  refine ⟨rfl, fun d hd => ?_, rfl, ?_⟩
  · obtain rfl := List.mem_singleton.mp hd
    exact ⟨by decide, by decide⟩
  · rintro ⟨as, has, hinside⟩
    obtain rfl := Except.ok.inj has
    have hfits := (hinside _ List.mem_cons_self).fits
    exact absurd hfits (by decide)

end Blocks

end RequestGenerator

end SimpleSSD.IGL
