import SimpleSSD.HIL.UFS.RoundTrip

/-!
# Query descriptors (hil/ufs/device.cc:289–395)

`processQueryCommand` announces as many bytes as the host asks for in the header of the response,
and only then cuts the request down to the size of the descriptor; the payload has the smaller
size. For a string the two bytes of its header are written into the payload, and taken off the
length of the copy, whatever that is.

A payload is the list of its bytes; `calloc` clears it. The descriptors and strings are members of
the device with the sizes that they have there, and any contents: for an unknown LUN or string
the payload keeps its zeros. A length that underflows is a negative number here: the code passes it
as a `size_t`, which no array has room for.
-/

namespace SimpleSSD.HIL.UFS

open Buffer

def IDN_DEVICE_LENGTH : UInt16 := 0x1F
def IDN_POWER_LENGTH : UInt16 := 0x62
def IDN_STRING_LENGTH : UInt16 := 0xFE
def IDN_UNIT_LENGTH : UInt16 := 0x23

/-- `OPCODE_READ_DESCRIPTOR`. -/
def OPCODE_READ_DESCRIPTOR : UInt8 := 0x01

/-- `DESCRIPTOR_IDN`, the descriptors that are implemented. -/
inductive DescriptorIdn where
  | device | unit | string | power
  deriving DecidableEq, Repr

namespace DescriptorIdn

def code : DescriptorIdn → UInt8
  | device => 0x00
  | unit => 0x02
  | string => 0x05
  | power => 0x08

def ofCode (idn : UInt8) : Option DescriptorIdn :=
  [device, unit, string, power].find? fun d => d.code = idn

end DescriptorIdn

/-- The members of `Device` that queries read. -/
structure Descriptors where
  lunReportLuns : Bytes 0x23
  lunUFSDevice : Bytes 0x23
  lunBoot : Bytes 0x23
  lunRPMB : Bytes 0x23
  lun : Bytes 0x23
  deviceDescriptor : Bytes 0x1F
  powerDescriptor : Bytes 0x62
  strManufacturer : Bytes (0xFE - 2)
  strProductName : Bytes (0xFE - 2)
  strSerialNumber : Bytes (0xFE - 2)
  strOEMID : Bytes (0xFE - 2)
  strProductRevision : Bytes (0xFE - 2)

namespace Descriptors

/-- The unit descriptor of a LUN (device.cc:315–335). -/
def unitDescriptor (d : Descriptors) (lun : UInt8) : Option (Bytes 0x23) :=
  if lun = 0x80 ||| 0x01 then some d.lunReportLuns
  else if lun = 0x80 ||| 0x50 then some d.lunUFSDevice
  else if lun = 0x80 ||| 0x30 then some d.lunBoot
  else if lun = 0x80 ||| 0x44 then some d.lunRPMB
  else if lun = 0x00 then some d.lun
  else none

/-- The string of an index (device.cc:362–382). -/
def string (d : Descriptors) (index : UInt8) : Option (Bytes (0xFE - 2)) :=
  if index = 0 then some d.strManufacturer
  else if index = 1 then some d.strProductName
  else if index = 2 then some d.strSerialNumber
  else if index = 3 then some d.strOEMID
  else if index = 4 then some d.strProductRevision
  else none

end Descriptors

/-! ### Payloads -/

/-- `calloc(n, 1)`. -/
def calloc (n : UInt16) : List UInt8 := List.replicate n.toNat 0

/-- `memcpy(data + i, source, n)`, within both arrays. -/
def memcpy (data : List UInt8) (i : Nat) (source : List UInt8) (n : Int) :
    Except Fault (List UInt8) :=
  if n < 0 then .error (.badAccess "length")
  else do
    let bytes ← read (Fault.badAccess "source") source 0 n.toNat
    write (.badAccess "data") data i bytes.1

/-- `UPIUQueryResp()`: the constructor sets the header and the pointer only. -/
def UPIUQueryResp.new (memory : UPIUQuery) : UPIUQueryResp :=
  { memory with header := .new, data := [] }

/-- What all branches begin with: the length of the request is announced, and cut down. -/
def allocate (size : UInt16) (req : UPIUQueryReq) (resp : UPIUQueryResp) :
    UPIUQueryReq × UPIUQueryResp :=
  let header := { resp.header with dataSegmentLength := req.length }
  let length := if size < req.length then size else req.length
  ({ req with length }, { resp with header, length := size, data := calloc length })

/-- A descriptor of a fixed size; there is none for an unknown LUN. -/
def readFixed {k : Nat} (size : UInt16) (source : Option (Bytes k)) (req : UPIUQueryReq)
    (resp : UPIUQueryResp) : Except Fault (UPIUQueryReq × UPIUQueryResp) := do
  let (req, resp) := allocate size req resp
  match source with
  | none => .ok (req, resp)
  | some source =>
    let data ← memcpy resp.data 0 source.1 req.length.toNat
    .ok (req, { resp with data })

/-- The header of a string, `data[0]` and `data[1]`. -/
def stringHeader (data : List UInt8) : Except Fault (List UInt8) := do
  let data ← write (.badAccess "data") data 0 [IDN_STRING_LENGTH.toUInt8]
  write (.badAccess "data") data 1 [DescriptorIdn.string.code]

/-- A string (device.cc:353–383): its header, and the copy behind it. -/
def readString (d : Descriptors) (req : UPIUQueryReq) (resp : UPIUQueryResp) :
    Except Fault (UPIUQueryReq × UPIUQueryResp) := do
  let (req, resp) := allocate IDN_STRING_LENGTH req resp
  let data ← stringHeader resp.data
  match d.string req.index with
  | none => .ok (req, { resp with data })
  | some source =>
    let data ← memcpy data 2 source.1 (req.length.toNat - 2)
    .ok (req, { resp with data })

/-- The fields of a request that its response repeats. -/
def UPIUQueryResp.repeating (req : UPIUQueryReq) (resp : UPIUQueryResp) : UPIUQueryResp :=
  { resp with
    opcode := req.opcode, idn := req.idn, index := req.index, selector := req.selector
    length := req.length }

/-- `processQueryCommand`: the request and the response that it leaves. -/
def processQueryCommand (d : Descriptors) (req : UPIUQueryReq) (resp : UPIUQueryResp) :
    Except Fault (UPIUQueryReq × UPIUQueryResp) :=
  let resp := UPIUQueryResp.repeating req resp
  if req.opcode = OPCODE_READ_DESCRIPTOR then
    match DescriptorIdn.ofCode req.idn with
    | some .device => readFixed IDN_DEVICE_LENGTH (some d.deviceDescriptor) req resp
    | some .unit => readFixed IDN_UNIT_LENGTH (d.unitDescriptor req.header.lun) req resp
    | some .power => readFixed IDN_POWER_LENGTH (some d.powerDescriptor) req resp
    | some .string => readString d req resp
    | none => .ok (req, resp)
  else .ok (req, resp)

/-! ### Well-formed answers -/

/-- The command returns a response with as many bytes as it announces, and the encoder gets by
with them, whatever buffer it is given. -/
def QueryWellFormed (d : Descriptors) (req : UPIUQueryReq) (resp : UPIUQueryResp) : Prop :=
  ∃ req' resp', processQueryCommand d req resp = .ok (req', resp') ∧
    resp'.header.dataSegmentLength.toNat = resp'.data.length ∧
      ∀ buffer, ∃ r, UPIUQueryResp.get resp' buffer = .ok r

/-- No more is asked for than the descriptor has, and of a string at least its header. -/
def QueryFits (req : UPIUQueryReq) : Prop :=
  match DescriptorIdn.ofCode req.idn with
  | some .device => req.length ≤ IDN_DEVICE_LENGTH
  | some .unit => req.length ≤ IDN_UNIT_LENGTH
  | some .power => req.length ≤ IDN_POWER_LENGTH
  | some .string => 2 ≤ req.length ∧ req.length ≤ IDN_STRING_LENGTH
  | none => True

/-! ### The encoder -/

section Encoder

variable {header : UPIUHeader} {data buffer : List UInt8}

/-- With all announced bytes there, the data segment is copied or refused. -/
theorem getData_total (ret : Bool) (hdata : data.length = header.dataSegmentLength.toNat) :
    ∃ r, getData ret header data buffer = .ok r := by
  unfold getData
  split
  · split
    · next hlt =>
      have hread : read (Fault.badAccess "data") data 0 header.dataSegmentLength.toNat =
          .ok ⟨data, hdata⟩ := Stores.refl.read hdata
      rw [hread, Except.ok_bind, put_ok (by rw [hdata]; omega), Except.ok_bind]
      exact ⟨_, rfl⟩
    · exact ⟨_, rfl⟩
  · exact ⟨_, rfl⟩

theorem UPIUQuery.get_total (code : UPIUOpcode) (u : UPIUQuery)
    (hdata : u.header.dataSegmentLength.toNat = u.data.length) (buffer : List UInt8) :
    ∃ r, u.get code buffer = .ok r := by
  by_cases hlen : 32 ≤ buffer.length
  · obtain ⟨b₀, hlen₀, -, hencode⟩ := @encodeAs_spec buffer _ code u u.header hlen
    obtain ⟨b₁, hput₁, hlen₁, -⟩ :=
      @put_spec b₀ [u.opcode, u.idn, u.index, u.selector] 12 (by simp; omega)
    obtain ⟨b₂, hput₂, hlen₂, -⟩ := @put_spec b₁ (be16 u.length) 18 (by simp; omega)
    obtain ⟨b₃, hput₃, hlen₃, -⟩ := @put_spec b₂ (be32 u.val1) 20 (by simp; omega)
    obtain ⟨b₄, hput₄, hlen₄, -⟩ := @put_spec b₃ (be32 u.val2) 24 (by simp; omega)
    obtain ⟨b₅, hput₅, hlen₅, -⟩ := @put_spec b₄ (List.replicate 4 0) 28 (by simp; omega)
    obtain ⟨r, hget⟩ :=
      @getData_total (u.header.stamp code) u.data b₅ true hdata.symm
    refine ⟨(r.1, { u with header := u.header.stamp code }, r.2), ?_⟩
    rw [get, hencode, hput₁, Except.ok_bind, hput₂, Except.ok_bind, hput₃, Except.ok_bind, hput₄,
      Except.ok_bind, hput₅, Except.ok_bind, hget, Except.ok_bind]
  · exact ⟨_, by rw [get, encodeAs, if_neg (by omega)]⟩

end Encoder

/-! ### The payloads -/

section Payloads

variable {data source : List UInt8} {i k : Nat} {n : Int} {size : UInt16} {d : Descriptors}
  {req : UPIUQueryReq} {resp memory : UPIUQuery}

theorem memcpy_ok (hn : 0 ≤ n) (hsource : n ≤ source.length) (hdata : i + n ≤ data.length) :
    ∃ data', memcpy data i source n = .ok data' ∧ data'.length = data.length := by
  have hread : read (Fault.badAccess "source") source 0 n.toNat =
      .ok ⟨slice source 0 n.toNat, length_slice (by omega)⟩ := read_ok (by omega)
  have hwrite : write (Fault.badAccess "data") data i (slice source 0 n.toNat) =
      .ok (overwrite data i (slice source 0 n.toNat)) :=
    write_ok (by rw [length_slice (by omega)]; omega)
  refine ⟨overwrite data i (slice source 0 n.toNat), ?_, length_overwrite⟩
  rw [memcpy, if_neg (by omega), hread, Except.ok_bind, hwrite]

/-- The length that is left of a request. -/
theorem allocate_length (size : UInt16) (req : UPIUQueryReq) (resp : UPIUQuery) :
    (allocate size req resp).1.length.toNat = min size.toNat req.length.toNat ∧
      (allocate size req resp).2.data.length = min size.toNat req.length.toNat ∧
      (allocate size req resp).2.header.dataSegmentLength = req.length := by
  have hmin : (if size < req.length then size else req.length).toNat =
      min size.toNat req.length.toNat := by
    split
    · next hlt =>
      have := UInt16.lt_iff_toNat_lt.mp hlt
      omega
    · next hle =>
      rw [UInt16.lt_iff_toNat_lt] at hle
      omega
  refine ⟨hmin, ?_, rfl⟩
  show (calloc _).length = _
  rw [calloc, List.length_replicate, hmin]

/-- A fixed descriptor is always copied, and it announces what was asked for. -/
theorem readFixed_spec (source : Option (Bytes k)) (hk : k = size.toNat) :
    ∃ req' resp', readFixed size source req resp = .ok (req', resp') ∧
      resp'.header.dataSegmentLength = req.length ∧
      resp'.data.length = min size.toNat req.length.toNat := by
  obtain ⟨hlength, hdata, hheader⟩ := allocate_length size req resp
  unfold readFixed
  cases source with
  | none => exact ⟨_, _, rfl, hheader, hdata⟩
  | some source =>
    obtain ⟨data, hcopy, hlen⟩ := @memcpy_ok (allocate size req resp).2.data source.1 0
      (allocate size req resp).1.length.toNat (by omega) (by rw [source.2]; omega) (by omega)
    dsimp only at hcopy ⊢
    rw [hcopy]
    exact ⟨_, _, rfl, hheader, hlen.trans hdata⟩

/-- The header fits a payload of two bytes. -/
theorem stringHeader_ok (hdata : 2 ≤ data.length) :
    ∃ data', stringHeader data = .ok data' ∧ data'.length = data.length := by
  have hfirst : write (Fault.badAccess "data") data 0 [IDN_STRING_LENGTH.toUInt8] =
      .ok (overwrite data 0 [IDN_STRING_LENGTH.toUInt8]) := write_ok (by
    show 0 + 1 ≤ data.length
    omega)
  have hlen : (overwrite data 0 [IDN_STRING_LENGTH.toUInt8]).length = data.length :=
    length_overwrite
  refine ⟨overwrite (overwrite data 0 [IDN_STRING_LENGTH.toUInt8]) 1 [DescriptorIdn.string.code],
    ?_, length_overwrite.trans hlen⟩
  rw [stringHeader, hfirst, Except.ok_bind]
  refine write_ok ?_
  show 1 + 1 ≤ _
  omega

/-- One of its bytes is behind a shorter payload. -/
theorem stringHeader_short (hdata : data.length < 2) :
    stringHeader data = .error (.badAccess "data") := by
  unfold stringHeader
  by_cases hzero : data.length = 0
  · have hfirst : write (Fault.badAccess "data") data 0 [IDN_STRING_LENGTH.toUInt8] =
        .error (.badAccess "data") := if_neg (by
      show ¬ 0 + 1 ≤ data.length
      omega)
    rw [hfirst]
    rfl
  · have hfirst : write (Fault.badAccess "data") data 0 [IDN_STRING_LENGTH.toUInt8] =
        .ok (overwrite data 0 [IDN_STRING_LENGTH.toUInt8]) := write_ok (by
      show 0 + 1 ≤ data.length
      omega)
    have hlen : (overwrite data 0 [IDN_STRING_LENGTH.toUInt8]).length = data.length :=
      length_overwrite
    rw [hfirst, Except.ok_bind]
    refine if_neg ?_
    show ¬ 1 + 1 ≤ _
    omega

/-- A string is copied if it has room for its header. -/
theorem readString_spec (hreq : 2 ≤ req.length.toNat) :
    ∃ req' resp', readString d req resp = .ok (req', resp') ∧
      resp'.header.dataSegmentLength = req.length ∧
      resp'.data.length = min IDN_STRING_LENGTH.toNat req.length.toNat := by
  have hsize : IDN_STRING_LENGTH.toNat = 0xFE := rfl
  obtain ⟨hlength, hdata, hheader⟩ := allocate_length IDN_STRING_LENGTH req resp
  obtain ⟨data₂, hwrite, hlen₂⟩ :=
    @stringHeader_ok (allocate IDN_STRING_LENGTH req resp).2.data (by omega)
  unfold readString
  dsimp only
  rw [hwrite, Except.ok_bind,
    show (allocate IDN_STRING_LENGTH req resp).1.index = req.index from rfl]
  cases d.string req.index with
  | none => exact ⟨_, _, rfl, hheader, hlen₂.trans hdata⟩
  | some source =>
    obtain ⟨data, hcopy, hlen⟩ := @memcpy_ok data₂ source.1 2
      ((allocate IDN_STRING_LENGTH req resp).1.length.toNat - 2) (by omega)
      (by rw [source.2]; omega) (by omega)
    dsimp only
    rw [hcopy]
    exact ⟨_, _, rfl, hheader, hlen.trans (hlen₂.trans hdata)⟩

/-- Without that room its header is written behind the payload. -/
theorem readString_short (hreq : req.length.toNat < 2) :
    readString d req resp = .error (.badAccess "data") := by
  obtain ⟨-, hdata, -⟩ := allocate_length IDN_STRING_LENGTH req resp
  unfold readString
  dsimp only
  rw [stringHeader_short (by omega)]
  rfl

/-! ### Queries -/

/-- A response that was built is well formed iff it has all that it announces. -/
theorem wellFormed_iff {req' : UPIUQueryReq} {resp' : UPIUQueryResp}
    (h : processQueryCommand d req resp = .ok (req', resp')) :
    QueryWellFormed d req resp ↔
      resp'.header.dataSegmentLength.toNat = resp'.data.length := by
  constructor
  · rintro ⟨req₁, resp₁, h₁, hlen, -⟩
    rw [h] at h₁
    cases h₁
    exact hlen
  · intro hlen
    exact ⟨req', resp', h, hlen, UPIUQuery.get_total .queryResponse resp' hlen⟩

end Payloads

/-- A read of a descriptor is answered with a well-formed response iff the length that it asks for
fits the descriptor. -/
theorem query_wellFormed_iff (d : Descriptors) (req : UPIUQueryReq) (memory : UPIUQuery)
    (hop : req.opcode = OPCODE_READ_DESCRIPTOR) :
    QueryWellFormed d req (.new memory) ↔ QueryFits req := by
  have hfixed : ∀ {k : Nat} (size : UInt16) (source : Option (Bytes k)), k = size.toNat →
      processQueryCommand d req (.new memory) =
        readFixed size source req (.repeating req (.new memory)) →
      (QueryWellFormed d req (.new memory) ↔ req.length ≤ size) := by
    intro k size source hk hprocess
    obtain ⟨req', resp', hread, hheader, hdata⟩ :=
      @readFixed_spec k size req (UPIUQueryResp.repeating req (.new memory)) source hk
    rw [wellFormed_iff (hprocess.trans hread), hheader, hdata, UInt16.le_iff_toNat_le]
    omega
  unfold QueryFits
  cases hidn : DescriptorIdn.ofCode req.idn with
  | none =>
    -- nothing is announced, and nothing is there
    have hprocess : processQueryCommand d req (.new memory) =
        .ok (req, .repeating req (.new memory)) := by
      unfold processQueryCommand
      rw [if_pos hop, hidn]
    rw [wellFormed_iff hprocess]
    exact ⟨fun _ => trivial, fun _ => rfl⟩
  | some idn =>
    cases idn with
    | device =>
      refine hfixed IDN_DEVICE_LENGTH (some d.deviceDescriptor) rfl ?_
      unfold processQueryCommand
      rw [if_pos hop, hidn]
    | unit =>
      refine hfixed IDN_UNIT_LENGTH (d.unitDescriptor req.header.lun) rfl ?_
      unfold processQueryCommand
      rw [if_pos hop, hidn]
    | power =>
      refine hfixed IDN_POWER_LENGTH (some d.powerDescriptor) rfl ?_
      unfold processQueryCommand
      rw [if_pos hop, hidn]
    | string =>
      have hprocess : processQueryCommand d req (.new memory) =
          readString d req (.repeating req (.new memory)) := by
        unfold processQueryCommand
        rw [if_pos hop, hidn]
      have htwo : (2 : UInt16) ≤ req.length ↔ 2 ≤ req.length.toNat := UInt16.le_iff_toNat_le
      dsimp only
      rw [htwo, UInt16.le_iff_toNat_le]
      by_cases hreq : 2 ≤ req.length.toNat
      · obtain ⟨req', resp', hread, hheader, hdata⟩ :=
          @readString_spec d req (UPIUQueryResp.repeating req (.new memory)) hreq
        rw [wellFormed_iff (hprocess.trans hread), hheader, hdata]
        omega
      · refine ⟨?_, fun h => absurd h.1 hreq⟩
        rintro ⟨req', resp', h, -⟩
        rw [hprocess, readString_short (by omega)] at h
        cases h

/-- A device whose descriptors are all zeros. -/
def blankDescriptors : Descriptors :=
  let lun : Bytes 0x23 := ⟨.replicate 0x23 0, List.length_replicate⟩
  let string : Bytes (0xFE - 2) := ⟨.replicate (0xFE - 2) 0, List.length_replicate⟩
  ⟨lun, lun, lun, lun, lun, ⟨.replicate 0x1F 0, List.length_replicate⟩,
    ⟨.replicate 0x62 0, List.length_replicate⟩, string, string, string, string, string⟩

/-- Read Descriptor. -/
def readDescriptor (idn index : UInt8) (length : UInt16) : UPIUQueryReq :=
  ⟨.new, OPCODE_READ_DESCRIPTOR, idn, index, 0, length, 0, 0, []⟩

/-- A string is asked for with the length that it has. -/
theorem query_wellFormed_string :
    QueryWellFormed blankDescriptors (readDescriptor 5 1 0xFE) (.new (readDescriptor 0 0 0)) :=
  (query_wellFormed_iff blankDescriptors (readDescriptor 5 1 0xFE) (readDescriptor 0 0 0) rfl).mpr
    (show (2 : UInt16) ≤ 0xFE ∧ (0xFE : UInt16) ≤ IDN_STRING_LENGTH by decide)

/-- For the device descriptor with 255 bytes, as many are announced, and 31 are there; and the
header of a string of one byte does not fit. -/
theorem not_wellFormed_long :
    ¬ QueryWellFormed blankDescriptors (readDescriptor 0 0 0xFF) (.new (readDescriptor 0 0 0)) ∧
      ¬ QueryWellFormed blankDescriptors (readDescriptor 5 1 1) (.new (readDescriptor 0 0 0)) := by
  constructor
  · obtain ⟨req', resp', hread, hheader, hdata⟩ := @readFixed_spec _ IDN_DEVICE_LENGTH
      (readDescriptor 0 0 0xFF)
      (UPIUQueryResp.repeating (readDescriptor 0 0 0xFF) (.new (readDescriptor 0 0 0)))
      (some blankDescriptors.deviceDescriptor) rfl
    have hprocess : processQueryCommand blankDescriptors (readDescriptor 0 0 0xFF)
        (.new (readDescriptor 0 0 0)) = .ok (req', resp') := hread
    rw [wellFormed_iff hprocess, hheader, hdata]
    decide
  · rintro ⟨req', resp', h, -⟩
    have hprocess : processQueryCommand blankDescriptors (readDescriptor 5 1 1)
        (.new (readDescriptor 0 0 0)) = .error (.badAccess "data") := readString_short (by decide)
    rw [hprocess] at h
    cases h

end SimpleSSD.HIL.UFS
