import SimpleSSD.HIL.UFS.UPIU
import SimpleSSD.Lib.Run

/-!
# What the UPIU codecs restore and what they reject

`get` leaves the fields at their places of the buffer, where `set` finds them
(`Stores`). Six of the seven types are restored (`UPIU.Restores`); a Response only
with `senseData` zero behind the sense bytes, since no more than these are sent.

`set` of a Ready To Transfer tests for the opcode of Data In, so it rejects its own
encoding and accepts that of another type. `set` of a Response copies as many sense
bytes as the buffer says, past the buffer and past `senseData`. Every `set` looks at
the first byte before it looks at the length.
-/

namespace SimpleSSD.HIL.UFS

open Buffer

/-! ### Round trips -/

section Frame

variable {header old : UPIUHeader} {opcode : UPIUOpcode} {buffer l : List UInt8} {i k n : Nat}
  {x : UInt8}

theorem UPIUOpcode.code_and (opcode : UPIUOpcode) : opcode.code &&& 0x3F = opcode.code := by
  cases opcode <;> decide

@[simp] theorem UPIUHeader.length_bytes : header.bytes.length = 12 := rfl

theorem UPIUHeader.offset_stamp : (header.stamp opcode).offset = 0 := by
  have hcode : opcode.code &&& 0x80 = 0 := by cases opcode <;> decide
  exact if_neg (not_not.mpr hcode)

theorem put_ok (h : i + l.length ≤ buffer.length) : put buffer i l = .ok (overwrite buffer i l) :=
  write_ok h

/-- The bytes are put in place, and what stands elsewhere stays. -/
theorem put_spec (h : i + l.length ≤ buffer.length) :
    ∃ buffer', put buffer i l = .ok buffer' ∧ buffer'.length = buffer.length ∧ Stores buffer' i l ∧
      ∀ j l', Stores buffer j l' → j + l'.length ≤ i ∨ i + l.length ≤ j → Stores buffer' j l' :=
  ⟨_, put_ok h, length_overwrite, .overwrite h, fun _ _ hs hij => hs.frame hij⟩

theorem fetch_stores (h : Stores buffer i l) (hx : l[k]? = some x) (hn : i + k = n) :
    fetch buffer n = .ok x := h.byte hx hn

theorem copy_stores (h : Stores buffer i l) (hn : l.length = n) :
    copy buffer i n = .ok ⟨l, hn⟩ := h.read hn

/-- The header is read back. -/
theorem UPIUHeader.set_stamp (h : Stores buffer 0 (header.stamp opcode).bytes) (old : UPIUHeader) :
    old.set buffer = .ok (true, header.stamp opcode) := by
  have hlen : 12 ≤ buffer.length := h.fits
  have hfetch : ∀ k x, (header.stamp opcode).bytes[k]? = some x → fetch buffer k = .ok x := by
    intro k x hx
    exact fetch_stores h hx (Nat.zero_add k)
  rw [set, if_pos (show 11 < buffer.length from hlen), hfetch 0 _ rfl, Except.ok_bind,
    hfetch 1 _ rfl, Except.ok_bind, hfetch 2 _ rfl, Except.ok_bind, hfetch 3 _ rfl, Except.ok_bind,
    hfetch 4 _ rfl, Except.ok_bind, hfetch 5 _ rfl, Except.ok_bind, hfetch 6 _ rfl, Except.ok_bind,
    hfetch 7 _ rfl, Except.ok_bind, hfetch 8 _ rfl, Except.ok_bind, hfetch 9 _ rfl, Except.ok_bind,
    hfetch 10 _ rfl, Except.ok_bind, hfetch 11 _ rfl, Except.ok_bind, ofBe16_be16]
  simp only [stamp, UPIUOpcode.code_and]

theorem encodeAs_spec {α : Type} (opcode : UPIUOpcode) (u : α) (header : UPIUHeader)
    (hlen : 32 ≤ buffer.length) : ∃ buffer', buffer'.length = buffer.length ∧
      Stores buffer' 0 (header.stamp opcode).bytes ∧
      ∀ body : Bool → UPIUHeader → List UInt8 → Except Fault (Bool × α × List UInt8),
        encodeAs opcode u header buffer body = body true (header.stamp opcode) buffer' := by
  obtain ⟨buffer', hput, hlength, hstores, -⟩ :=
    @put_spec buffer (header.stamp opcode).bytes 0 (by rw [UPIUHeader.length_bytes]; omega)
  refine ⟨buffer', hlength, hstores, fun body => ?_⟩
  have hget : (header.stamp opcode).get buffer = .ok (true, buffer') := by
    rw [UPIUHeader.get, if_pos (by omega), hput, Except.ok_bind]
  rw [encodeAs, if_pos (by omega)]
  simp only [hget, Except.ok_bind]

theorem decodeAs_stamp {α : Type} {v : α} {body : Bool → UPIUHeader → Except Fault (Bool × α)}
    (hlen : 32 ≤ buffer.length) (h : Stores buffer 0 (header.stamp opcode).bytes) :
    decodeAs opcode v old buffer body = body true (header.stamp opcode) := by
  have htype : fetch buffer 0 = .ok ((header.stamp opcode).transactionType &&& 0x3F) :=
    fetch_stores h rfl (Nat.zero_add 0)
  rw [decodeAs, htype, Except.ok_bind, if_pos, UPIUHeader.set_stamp h, Except.ok_bind]
  refine ⟨?_, by omega⟩
  rw [UPIUHeader.stamp, opcode.code_and, opcode.code_and]

/-! ### The data segment -/

variable {data : List UInt8}

theorem getData_spec (hdata : data.length = header.dataSegmentLength.toNat)
    (hlen : 32 + header.dataSegmentLength.toNat ≤ buffer.length) :
    ∃ buffer', getData true header data buffer = .ok (true, buffer') ∧
      buffer'.length = buffer.length ∧ Stores buffer' 32 data ∧
      ∀ i l, Stores buffer i l → i + l.length ≤ 32 → Stores buffer' i l := by
  rw [getData]
  split
  · next hpos =>
    have hread : read (Fault.badAccess "data") data 0 header.dataSegmentLength.toNat =
        .ok ⟨data, hdata⟩ := Stores.refl.read hdata
    rw [if_pos (by omega), hread, Except.ok_bind, put_ok (by rw [hdata]; omega), Except.ok_bind]
    refine ⟨_, rfl, length_overwrite, .overwrite (by rw [hdata]; omega), fun i l h hil => ?_⟩
    exact h.frame (.inl hil)
  · next hzero =>
    have hnil : data = [] := by
      rw [← List.length_eq_zero_iff, hdata]
      rw [UInt16.lt_iff_toNat_lt] at hzero
      exact Nat.eq_zero_of_not_pos hzero
    subst hnil
    exact ⟨buffer, rfl, rfl, ⟨by simpa using by omega, by rintro k ⟨⟩⟩, fun i l h _ => h⟩

theorem setData_stores (hdata : data.length = header.dataSegmentLength.toNat)
    (hoffset : header.offset = 0) (h : Stores buffer 32 data) :
    setData true header [] buffer = .ok (true, data) := by
  have hfits := h.fits
  rw [setData]
  split
  · rw [hoffset, if_pos (by omega), copy_stores h hdata, Except.ok_bind]
  · next hzero =>
    have hnil : data = [] := by
      rw [← List.length_eq_zero_iff, hdata]
      rw [UInt16.lt_iff_toNat_lt] at hzero
      exact Nat.eq_zero_of_not_pos hzero
    rw [hnil]

end Frame

/-! ### The types -/

section Types

variable {buffer : List UInt8}

theorem UPIUCommand.set_get (u v : UPIUCommand) (hlen : 32 ≤ buffer.length) :
    ∃ buffer', u.get buffer = .ok (true, { u with header := u.header.stamp .command }, buffer') ∧
      v.set buffer' = .ok (true, { u with header := u.header.stamp .command }) := by
  obtain ⟨b₀, hlen₀, hheader, hencode⟩ := encodeAs_spec .command u u.header hlen
  have hfour : (be32 u.expectedDataLength).length = 4 := rfl
  have hcdb := u.cdb.2
  obtain ⟨b₁, hput₁, hlen₁, hlength, hframe₁⟩ :=
    @put_spec b₀ (be32 u.expectedDataLength) 12 (by omega)
  obtain ⟨b₂, hput₂, hlen₂, hcdb₂, hframe₂⟩ := @put_spec b₁ u.cdb.1 16 (by omega)
  refine ⟨b₂, ?_, ?_⟩
  · rw [get, hencode, hput₁, Except.ok_bind, hput₂, Except.ok_bind]
  · have hlength₂ := hframe₂ _ _ hlength (.inl (by omega))
    have hheader₂ := hframe₂ _ _ (hframe₁ _ _ hheader (.inl (by simp))) (.inl (by simp))
    rw [set, decodeAs_stamp (by omega) hheader₂, copy_stores hlength₂ hfour, Except.ok_bind,
      copy_stores hcdb₂ hcdb, Except.ok_bind, ofBe32_be32]

/-- The bytes of offset and count. -/
theorem UPIUReadyToTransfer.get_spec (u : UPIUReadyToTransfer) (hlen : 32 ≤ buffer.length) :
    ∃ buffer', u.get buffer =
        .ok (true, { u with header := u.header.stamp .readyToTransfer }, buffer') ∧
      Stores buffer' 0 (u.header.stamp .readyToTransfer).bytes := by
  obtain ⟨b₀, hlen₀, hheader, hencode⟩ := encodeAs_spec .readyToTransfer u u.header hlen
  obtain ⟨b₁, hput₁, hlen₁, -, hframe₁⟩ := @put_spec b₀ (be32 u.offset) 12 (by simp; omega)
  obtain ⟨b₂, hput₂, hlen₂, -, hframe₂⟩ := @put_spec b₁ (be32 u.count) 16 (by simp; omega)
  obtain ⟨b₃, hput₃, -, -, hframe₃⟩ := @put_spec b₂ (List.replicate 12 0) 20 (by simp; omega)
  refine ⟨b₃, ?_, ?_⟩
  · rw [get, hencode, hput₁, Except.ok_bind, hput₂, Except.ok_bind, hput₃, Except.ok_bind]
  · exact hframe₃ _ _ (hframe₂ _ _ (hframe₁ _ _ hheader (.inl (by simp))) (.inl (by simp)))
      (.inl (by simp))

theorem UPIUData.set_get (code : UPIUOpcode) (u v : UPIUData)
    (hdata : u.data.length = u.header.dataSegmentLength.toNat) (hfresh : v.data = [])
    (hlen : u.getLength = buffer.length) :
    ∃ buffer', u.get code buffer = .ok (true, { u with header := u.header.stamp code }, buffer') ∧
      v.set code buffer' = .ok (true, { u with header := u.header.stamp code }) := by
  have hlen : 32 + (u.header.stamp code).dataSegmentLength.toNat = buffer.length := hlen
  have hdata : u.data.length = (u.header.stamp code).dataSegmentLength.toNat := hdata
  obtain ⟨b₀, hlen₀, hheader, hencode⟩ := @encodeAs_spec buffer _ code u u.header (by omega)
  obtain ⟨b₁, hput₁, hlen₁, hoffset, hframe₁⟩ := @put_spec b₀ (be32 u.offset) 12 (by simp; omega)
  obtain ⟨b₂, hput₂, hlen₂, hcount, hframe₂⟩ := @put_spec b₁ (be32 u.count) 16 (by simp; omega)
  obtain ⟨b₃, hput₃, hlen₃, -, hframe₃⟩ := @put_spec b₂ (List.replicate 12 0) 20 (by simp; omega)
  obtain ⟨b₄, hget, hlen₄, hsegment, hframe₄⟩ :=
    @getData_spec (u.header.stamp code) b₃ u.data hdata (by omega)
  refine ⟨b₄, ?_, ?_⟩
  · rw [get, hencode, hput₁, Except.ok_bind, hput₂, Except.ok_bind, hput₃, Except.ok_bind, hget,
      Except.ok_bind]
  · have hheader' : Stores b₃ 0 (u.header.stamp code).bytes :=
      hframe₃ _ _ (hframe₂ _ _ (hframe₁ _ _ hheader (.inl (by simp))) (.inl (by simp)))
        (.inl (by simp))
    have hoffset' : Stores b₃ 12 (be32 u.offset) :=
      hframe₃ _ _ (hframe₂ _ _ hoffset (.inl (by simp))) (.inl (by simp))
    have hcount' : Stores b₃ 16 (be32 u.count) := hframe₃ _ _ hcount (.inl (by simp))
    rw [set, decodeAs_stamp (by omega) (hframe₄ _ _ hheader' (by simp)),
      copy_stores (hframe₄ _ _ hoffset' (by simp)) (length_be32 _), Except.ok_bind,
      copy_stores (hframe₄ _ _ hcount' (by simp)) (length_be32 _), Except.ok_bind, hfresh,
      setData_stores hdata UPIUHeader.offset_stamp hsegment, Except.ok_bind, ofBe32_be32,
      ofBe32_be32]

theorem UPIUQuery.set_get (code : UPIUOpcode) (u v : UPIUQuery)
    (hdata : u.data.length = u.header.dataSegmentLength.toNat) (hfresh : v.data = [])
    (hlen : u.getLength = buffer.length) :
    ∃ buffer', u.get code buffer = .ok (true, { u with header := u.header.stamp code }, buffer') ∧
      v.set code buffer' = .ok (true, { u with header := u.header.stamp code }) := by
  have hlen : 32 + (u.header.stamp code).dataSegmentLength.toNat = buffer.length := hlen
  have hdata : u.data.length = (u.header.stamp code).dataSegmentLength.toNat := hdata
  obtain ⟨b₀, hlen₀, hheader, hencode⟩ := @encodeAs_spec buffer _ code u u.header (by omega)
  obtain ⟨b₁, hput₁, hlen₁, hfields, hframe₁⟩ :=
    @put_spec b₀ [u.opcode, u.idn, u.index, u.selector] 12 (by simp; omega)
  obtain ⟨b₂, hput₂, hlen₂, hlength, hframe₂⟩ := @put_spec b₁ (be16 u.length) 18 (by simp; omega)
  obtain ⟨b₃, hput₃, hlen₃, hval1, hframe₃⟩ := @put_spec b₂ (be32 u.val1) 20 (by simp; omega)
  obtain ⟨b₄, hput₄, hlen₄, hval2, hframe₄⟩ := @put_spec b₃ (be32 u.val2) 24 (by simp; omega)
  obtain ⟨b₅, hput₅, hlen₅, -, hframe₅⟩ := @put_spec b₄ (List.replicate 4 0) 28 (by simp; omega)
  obtain ⟨b₆, hget, hlen₆, hsegment, hframe₆⟩ :=
    @getData_spec (u.header.stamp code) b₅ u.data hdata (by omega)
  refine ⟨b₆, ?_, ?_⟩
  · rw [get, hencode, hput₁, Except.ok_bind, hput₂, Except.ok_bind, hput₃, Except.ok_bind, hput₄,
      Except.ok_bind, hput₅, Except.ok_bind, hget, Except.ok_bind]
  · -- what the first write put in place is there after the last
    have hlast : ∀ i l, Stores b₂ i l → i + l.length ≤ 20 → Stores b₆ i l := by
      intro i l h hi
      have h₃ := hframe₃ _ _ h (.inl hi)
      have h₄ := hframe₄ _ _ h₃ (.inl (by omega))
      have h₅ := hframe₅ _ _ h₄ (.inl (by omega))
      exact hframe₆ _ _ h₅ (by omega)
    have hheader' := hlast _ _ (hframe₂ _ _ (hframe₁ _ _ hheader (.inl (by simp)))
      (.inl (by simp))) (by simp)
    have hfields' := hlast _ _ (hframe₂ _ _ hfields (.inl (by simp))) (by simp)
    have hlength' := hlast _ _ hlength (by simp)
    have hval1' := hframe₆ _ _ (hframe₅ _ _ (hframe₄ _ _ hval1 (.inl (by simp))) (.inl (by simp)))
      (by simp)
    have hval2' := hframe₆ _ _ (hframe₅ _ _ hval2 (.inl (by simp))) (by simp)
    rw [set, decodeAs_stamp (by omega) hheader', fetch_stores hfields' rfl (Nat.add_zero 12),
      Except.ok_bind, @fetch_stores _ _ _ 1 13 _ hfields' rfl rfl, Except.ok_bind,
      @fetch_stores _ _ _ 2 14 _ hfields' rfl rfl, Except.ok_bind,
      @fetch_stores _ _ _ 3 15 _ hfields' rfl rfl, Except.ok_bind,
      @fetch_stores _ _ _ 0 18 _ hlength' rfl rfl, Except.ok_bind,
      @fetch_stores _ _ _ 1 19 _ hlength' rfl rfl, Except.ok_bind,
      copy_stores hval1' (length_be32 _), Except.ok_bind, copy_stores hval2' (length_be32 _),
      Except.ok_bind, hfresh, setData_stores hdata UPIUHeader.offset_stamp hsegment, Except.ok_bind,
      ofBe16_be16, ofBe32_be32, ofBe32_be32]

/-- `senseData` as a new Response gets it: the sense bytes, then zeros. -/
def UPIUResponse.received (u : UPIUResponse) : Bytes 18 :=
  ⟨overwrite UPIUResponse.new.senseData.1 0 (slice u.senseData.1 0 u.senseLength.toNat),
    length_overwrite.trans UPIUResponse.new.senseData.2⟩

theorem UPIUResponse.received_val {u : UPIUResponse} (hsense : u.senseLength.toNat ≤ 18) :
    u.received.1 = u.senseData.1.take u.senseLength.toNat ++
      List.replicate (u.senseData.1.length - u.senseLength.toNat) 0 := by
  have hdata := u.senseData.2
  refine overwrite_zeros ?_ (by omega)
  rw [hdata]
  rfl

theorem UPIUResponse.received_eq {u : UPIUResponse} (hsense : u.senseLength.toNat ≤ 18) :
    u.received = u.senseData ↔ ∀ x ∈ u.senseData.1.drop u.senseLength.toNat, x = 0 := by
  rw [← Subtype.coe_inj, received_val hsense, take_append_zeros]

/-- The payload of a Response is the length of the sense bytes and these. -/
def UPIUResponse.Matches (u : UPIUResponse) : Prop :=
  u.senseLength.toNat ≤ 18 ∧
    (u.header.dataSegmentLength = 0 ∧ u.senseLength = 0 ∨
      u.header.dataSegmentLength.toNat = u.senseLength.toNat + 2)

theorem UPIUResponse.set_get (u : UPIUResponse) (hmatches : u.Matches)
    (hlen : u.getLength = buffer.length) :
    ∃ buffer', u.get buffer = .ok (true, { u with header := u.header.stamp .response }, buffer') ∧
      UPIUResponse.new.set buffer' =
        .ok (true, { u with header := u.header.stamp .response, senseData := u.received }) := by
  obtain ⟨hsense, hsegment⟩ := hmatches
  have hlen : 32 + (u.header.stamp .response).dataSegmentLength.toNat = buffer.length := hlen
  have hdata := u.senseData.2
  obtain ⟨b₀, hlen₀, hheader, hencode⟩ := @encodeAs_spec buffer _ .response u u.header (by omega)
  obtain ⟨b₁, hput₁, hlen₁, hcount, hframe₁⟩ :=
    @put_spec b₀ (be32 u.residualCount) 12 (by simp; omega)
  obtain ⟨b₂, hput₂, hlen₂, -, hframe₂⟩ := @put_spec b₁ (List.replicate 16 0) 16 (by simp; omega)
  have hheader₂ := hframe₂ _ _ (hframe₁ _ _ hheader (.inl (by simp))) (.inl (by simp))
  have hcount₂ := hframe₂ _ _ hcount (.inl (by simp))
  rcases hsegment with ⟨hzero, hnone⟩ | hsegment
  · -- no data segment
    have hnot : ¬ 0 < (u.header.stamp .response).dataSegmentLength := by
      show ¬ 0 < u.header.dataSegmentLength
      rw [hzero]
      decide
    refine ⟨b₂, ?_, ?_⟩
    · rw [get, hencode]
      dsimp only
      rw [hput₁, Except.ok_bind, hput₂, Except.ok_bind, if_neg hnot]
    · have hreceived : u.received = UPIUResponse.new.senseData := by
        rw [← Subtype.coe_inj, received_val hsense, hnone, hdata]
        rfl
      rw [set, decodeAs_stamp (by omega) hheader₂, copy_stores hcount₂ (length_be32 _),
        Except.ok_bind]
      dsimp only
      rw [if_neg hnot, ofBe32_be32, hreceived, hnone]
      rfl
  · have hpos : 0 < (u.header.stamp .response).dataSegmentLength := by
      rw [UInt16.lt_iff_toNat_lt]
      show 0 < u.header.dataSegmentLength.toNat
      omega
    have hlong : 31 + (u.header.stamp .response).dataSegmentLength.toNat < b₂.length := by omega
    have hsegment : (u.header.stamp .response).dataSegmentLength.toNat = u.senseLength.toNat + 2 :=
      hsegment
    obtain ⟨b₃, hput₃, hlen₃, hlength, hframe₃⟩ :=
      @put_spec b₂ (be16 u.senseLength) 32 (by simp; omega)
    have hread := @Buffer.read_ok _ (Fault.badAccess "senseData") u.senseData.1 0
      u.senseLength.toNat (by omega)
    have htake : slice u.senseData.1 0 u.senseLength.toNat =
      u.senseData.1.take u.senseLength.toNat := rfl
    have hslice := @length_slice u.senseData.1 0 u.senseLength.toNat (by omega)
    obtain ⟨b₄, hput₄, hlen₄, hbytes, hframe₄⟩ :=
      @put_spec b₃ (slice u.senseData.1 0 u.senseLength.toNat) 34 (by rw [hslice]; omega)
    refine ⟨b₄, ?_, ?_⟩
    · rw [get, hencode]
      dsimp only
      rw [hput₁, Except.ok_bind, hput₂, Except.ok_bind, if_pos hpos, if_pos hlong, hput₃,
        Except.ok_bind, hread, Except.ok_bind, hput₄, Except.ok_bind]
    · have hlast : ∀ i l, Stores b₂ i l → i + l.length ≤ 32 → Stores b₄ i l := by
        intro i l h hi
        exact hframe₄ _ _ (hframe₃ _ _ h (.inl hi)) (.inl (by omega))
      have hlength' := hframe₄ _ _ hlength (.inl (by simp))
      have hstore : 0 + (slice u.senseData.1 0 u.senseLength.toNat).length ≤ 18 := by
        rw [hslice]
        omega
      rw [set, decodeAs_stamp (by omega) (hlast _ _ hheader₂ (by simp)),
        copy_stores (hlast _ _ hcount₂ (by simp)) (length_be32 _), Except.ok_bind]
      dsimp only
      rw [if_pos hpos, UPIUHeader.offset_stamp, if_pos (by omega),
        @fetch_stores _ _ _ 0 32 _ hlength' rfl rfl, Except.ok_bind,
        @fetch_stores _ _ _ 1 33 _ hlength' rfl rfl, Except.ok_bind, ofBe16_be16,
        copy_stores hbytes hslice, Except.ok_bind, store, if_pos hstore, Except.ok_bind,
          ofBe32_be32]
      rfl

end Types

namespace UPIU

/-- The payload is as long as the header says. -/
def Matches : UPIU → Prop
  | .command _ => True
  | .response u => u.Matches
  | .queryReq u | .queryResp u => u.data.length = u.header.dataSegmentLength.toNat
  | .dataOut u | .dataIn u => u.data.length = u.header.dataSegmentLength.toNat
  | .readyToTransfer _ => True

/-- An object as its constructor leaves it. That of a query sets `header` and `data`
only. -/
def Fresh : UPIU → Prop
  | .command u => u = .new
  | .response u => u = .new
  | .queryReq u | .queryResp u => u.header = .new ∧ u.data = []
  | .dataOut u | .dataIn u => u = UPIUData.new
  | .readyToTransfer u => u = .new

/-- The object after its `get`, which sets the transaction type of the header. -/
def stamped : UPIU → UPIU
  | .command u => .command { u with header := u.header.stamp .command }
  | .response u => .response { u with header := u.header.stamp .response }
  | .queryReq u => .queryReq { u with header := u.header.stamp .queryRequest }
  | .queryResp u => .queryResp { u with header := u.header.stamp .queryResponse }
  | .dataOut u => .dataOut { u with header := u.header.stamp .dataOut }
  | .dataIn u => .dataIn { u with header := u.header.stamp .dataIn }
  | .readyToTransfer u => .readyToTransfer { u with header := u.header.stamp .readyToTransfer }

/-- What `get` of `u` leaves in the buffer, `set` of `v` reads back. -/
def RoundTrip (u v : UPIU) (buffer : List UInt8) : Prop :=
  ∃ buffer', u.get buffer = .ok (true, u.stamped, buffer') ∧ v.set buffer' = .ok (true, u.stamped)

/-- The objects that a round trip restores. -/
def Restores : UPIU → Prop
  | .response u => ∀ x ∈ u.senseData.1.drop u.senseLength.toNat, x = 0
  | .readyToTransfer _ => False
  | _ => True

theorem roundTrip_iff {u v : UPIU} {buffer : List UInt8} (hmatches : u.Matches) (hfresh : v.Fresh)
    (hkind : v.kind = u.kind) (hlen : u.getLength = buffer.length) :
    u.RoundTrip v buffer ↔ u.Restores := by
  cases u <;> cases v <;> first | cases hkind; done | skip
  case command.command u v =>
    refine iff_of_true ?_ trivial
    obtain ⟨buffer', hget, hset⟩ := u.set_get v (Nat.le_of_eq hlen)
    exact ⟨buffer', by rw [UPIU.get, hget]; rfl, by rw [UPIU.set, hset]; rfl⟩
  case response.response u v =>
    subst hfresh
    obtain ⟨buffer', hget, hset⟩ := u.set_get hmatches hlen
    rw [Restores, ← UPIUResponse.received_eq hmatches.1]
    constructor
    · rintro ⟨buffer'', hget', hset'⟩
      rw [UPIU.get, hget] at hget'
      cases hget'
      rw [UPIU.set, hset] at hset'
      exact congrArg UPIUResponse.senseData
        (UPIU.response.inj (congrArg Prod.snd (Except.ok.inj hset')))
    · intro hreceived
      refine ⟨buffer', by rw [UPIU.get, hget]; rfl, ?_⟩
      rw [UPIU.set, hset, hreceived]
      rfl
  case queryReq.queryReq u v =>
    refine iff_of_true ?_ trivial
    obtain ⟨buffer', hget, hset⟩ := UPIUQuery.set_get .queryRequest u v hmatches hfresh.2 hlen
    refine ⟨buffer', ?_, ?_⟩
    · rw [UPIU.get, UPIUQueryReq.get, hget]
      rfl
    · rw [UPIU.set, UPIUQueryReq.set, hset]
      rfl
  case queryResp.queryResp u v =>
    refine iff_of_true ?_ trivial
    obtain ⟨buffer', hget, hset⟩ := UPIUQuery.set_get .queryResponse u v hmatches hfresh.2 hlen
    refine ⟨buffer', ?_, ?_⟩
    · rw [UPIU.get, UPIUQueryResp.get, hget]
      rfl
    · rw [UPIU.set, UPIUQueryResp.set, hset]
      rfl
  case dataOut.dataOut u v =>
    refine iff_of_true ?_ trivial
    subst hfresh
    obtain ⟨buffer', hget, hset⟩ := UPIUData.set_get .dataOut u .new hmatches rfl hlen
    refine ⟨buffer', ?_, ?_⟩
    · rw [UPIU.get, UPIUDataOut.get, hget]
      rfl
    · rw [UPIU.set, UPIUDataOut.set, hset]
      rfl
  case dataIn.dataIn u v =>
    refine iff_of_true ?_ trivial
    subst hfresh
    obtain ⟨buffer', hget, hset⟩ := UPIUData.set_get .dataIn u .new hmatches rfl hlen
    refine ⟨buffer', ?_, ?_⟩
    · rw [UPIU.get, UPIUDataIn.get, hget]
      rfl
    · rw [UPIU.set, UPIUDataIn.set, hset]
      rfl
  case readyToTransfer.readyToTransfer u v =>
    -- the opcode that `get` writes is not the one that `set` expects
    refine iff_of_false ?_ not_false
    rintro ⟨buffer', hget, hset⟩
    obtain ⟨buffer'', hget', hheader⟩ := u.get_spec (Nat.le_of_eq hlen)
    rw [UPIU.get, hget'] at hget
    cases hget
    have hfirst : fetch buffer'' 0 = .ok (UPIUOpcode.readyToTransfer.code &&& 0x3F) :=
      fetch_stores hheader rfl (Nat.zero_add 0)
    rw [UPIU.set, UPIUReadyToTransfer.set, decodeAs, hfirst, Except.ok_bind,
      if_neg fun h => absurd h.1 (by decide)] at hset
    cases hset

end UPIU

/-! ### What `set` rejects -/

/-- The header that the first twelve bytes spell. -/
def UPIUHeader.parse (buffer : List UInt8) : UPIUHeader where
  transactionType := buffer.getD 0 0
  flags := buffer.getD 1 0
  lun := buffer.getD 2 0
  taskTag := buffer.getD 3 0
  commandSetType := buffer.getD 4 0
  function := buffer.getD 5 0
  response := buffer.getD 6 0
  status := buffer.getD 7 0
  ehsLength := buffer.getD 8 0
  deviceInfo := buffer.getD 9 0
  dataSegmentLength := ofBe16 (buffer.getD 10 0) (buffer.getD 11 0)

/-- The buffer is of the type with this opcode. -/
def Typed (opcode : UPIUOpcode) (buffer : List UInt8) : Prop :=
  buffer.getD 0 0 &&& 0x3F = opcode.code

instance (opcode : UPIUOpcode) (buffer : List UInt8) : Decidable (Typed opcode buffer) :=
  inferInstanceAs (Decidable (_ = _))

/-- The length that a UPIU with this header has: 32 bytes and the data segment. -/
def UPIUHeader.announced (header : UPIUHeader) : Nat :=
  if 0 < header.dataSegmentLength then 32 + header.offset + header.dataSegmentLength.toNat else 32

section Reject

variable {buffer : List UInt8} {opcode : UPIUOpcode} {header old : UPIUHeader} {i n : Nat}

theorem fetch_lt (h : i < buffer.length) : fetch buffer i = .ok (buffer.getD i 0) := by
  rw [fetch, byte_lt h, List.getD_eq_getElem?_getD, List.getElem?_eq_getElem h, Option.getD_some]

theorem fetch_out (h : buffer.length ≤ i) : fetch buffer i = .error (.badAccess "buffer") :=
  byte_out h

theorem copy_ok (h : i + n ≤ buffer.length) :
    copy buffer i n = .ok ⟨slice buffer i n, length_slice h⟩ := read_ok h

theorem copy_out (h : buffer.length < i + n) : copy buffer i n = .error (.badAccess "buffer") :=
  read_out h

theorem UPIUHeader.set_parse (h : 12 ≤ buffer.length) :
    old.set buffer = .ok (true, parse buffer) := by
  rw [set, if_pos (show 11 < buffer.length from h), fetch_lt (by omega), Except.ok_bind,
    fetch_lt (by omega), Except.ok_bind, fetch_lt (by omega), Except.ok_bind, fetch_lt (by omega),
    Except.ok_bind, fetch_lt (by omega), Except.ok_bind, fetch_lt (by omega), Except.ok_bind,
    fetch_lt (by omega), Except.ok_bind, fetch_lt (by omega), Except.ok_bind, fetch_lt (by omega),
    Except.ok_bind, fetch_lt (by omega), Except.ok_bind, fetch_lt (by omega), Except.ok_bind,
    fetch_lt (by omega), Except.ok_bind]
  rfl

variable {α : Type} {u : α} {body : Bool → UPIUHeader → Except Fault (Bool × α)}

theorem decodeAs_pos (htype : Typed opcode buffer) (hlen : 31 < buffer.length) :
    decodeAs opcode u old buffer body = body true (.parse buffer) := by
  rw [decodeAs, fetch_lt (by omega), Except.ok_bind, if_pos ⟨htype, hlen⟩,
    UPIUHeader.set_parse (by omega), Except.ok_bind]

theorem decodeAs_neg (hne : buffer ≠ []) (h : ¬ (Typed opcode buffer ∧ 31 < buffer.length)) :
    decodeAs opcode u old buffer body = .ok (false, u) := by
  rw [decodeAs, fetch_lt (List.length_pos_of_ne_nil hne), Except.ok_bind]
  exact if_neg h

/-- The data segment is read if the buffer holds what the header announces. -/
theorem setData_cases (ret : Bool) (data : List UInt8) (hlen : 31 < buffer.length) :
    ∃ ret' data', setData ret header data buffer = .ok (ret', data') ∧
      (buffer.length < header.announced → ret' = false) := by
  rw [setData, UPIUHeader.announced]
  split
  · split
    · rw [copy_ok (by omega), Except.ok_bind]
      exact ⟨_, _, rfl, fun h => absurd h (by omega)⟩
    · exact ⟨_, _, rfl, fun _ => rfl⟩
  · exact ⟨_, _, rfl, fun h => absurd h (by omega)⟩

/-- `set` returns, and returns false on a buffer of another type or shorter than
announced. -/
def Refuses {α : Type} (opcode : UPIUOpcode) (announced : Nat) (buffer : List UInt8)
    (result : Except Fault (Bool × α)) : Prop :=
  ∃ ret u, result = .ok (ret, u) ∧ (¬ Typed opcode buffer → ret = false) ∧
    (buffer.length < announced → ret = false)

theorem not_refuses_error {announced : Nat} {e : Fault} :
    ¬ Refuses opcode announced buffer (.error e : Except Fault (Bool × α)) := by
  rintro ⟨ret, u, ⟨⟩, -⟩

/-- A buffer that the frame turns away is refused. -/
theorem refuses_neg {announced : Nat} (hne : buffer ≠ [])
    (h : ¬ (Typed opcode buffer ∧ 31 < buffer.length)) {opcode' : UPIUOpcode} :
    Refuses opcode' announced buffer (decodeAs opcode u old buffer body) :=
  ⟨false, u, decodeAs_neg hne h, fun _ => rfl, fun _ => rfl⟩

/-- The frame refuses every buffer with a byte in it when its body does not fail. -/
theorem decodeAs_refuses {announced : Nat} (hbody : Typed opcode buffer → 31 < buffer.length →
      ∃ ret v, body true (.parse buffer) = .ok (ret, v) ∧
        (buffer.length < announced → ret = false)) :
    Refuses opcode announced buffer (decodeAs opcode u old buffer body) ↔ buffer ≠ [] := by
  constructor
  · rintro h rfl
    exact not_refuses_error h
  · intro hne
    by_cases h : Typed opcode buffer ∧ 31 < buffer.length
    · obtain ⟨ret, v, hset, hshort⟩ := hbody h.1 h.2
      exact ⟨ret, v, (decodeAs_pos h.1 h.2).trans hset, fun hnot => absurd h.1 hnot, hshort⟩
    · exact refuses_neg hne h

end Reject

section Types

variable {buffer : List UInt8}

theorem UPIUCommand.refuses_iff (u : UPIUCommand) :
    Refuses .command 32 buffer (u.set buffer) ↔ buffer ≠ [] := by
  refine decodeAs_refuses fun _ hlen => ?_
  rw [copy_ok (by omega), Except.ok_bind, copy_ok (by omega), Except.ok_bind]
  exact ⟨_, _, rfl, fun h => absurd h (by omega)⟩

theorem UPIUQuery.refuses_iff (code : UPIUOpcode) (u : UPIUQuery) :
    Refuses code (UPIUHeader.parse buffer).announced buffer (u.set code buffer) ↔ buffer ≠ [] := by
  refine decodeAs_refuses fun _ hlen => ?_
  obtain ⟨ret, data, hdata, hshort⟩ := @setData_cases buffer (.parse buffer) true u.data hlen
  rw [fetch_lt (by omega), Except.ok_bind, fetch_lt (by omega), Except.ok_bind, fetch_lt (by omega),
    Except.ok_bind, fetch_lt (by omega), Except.ok_bind, fetch_lt (by omega), Except.ok_bind,
    fetch_lt (by omega), Except.ok_bind, copy_ok (by omega), Except.ok_bind, copy_ok (by omega),
    Except.ok_bind, hdata, Except.ok_bind]
  exact ⟨_, _, rfl, hshort⟩

theorem UPIUData.refuses_iff (code : UPIUOpcode) (u : UPIUData) :
    Refuses code (UPIUHeader.parse buffer).announced buffer (u.set code buffer) ↔ buffer ≠ [] := by
  refine decodeAs_refuses fun _ hlen => ?_
  obtain ⟨ret, data, hdata, hshort⟩ := @setData_cases buffer (.parse buffer) true u.data hlen
  rw [copy_ok (by omega), Except.ok_bind, copy_ok (by omega), Except.ok_bind, hdata, Except.ok_bind]
  exact ⟨_, _, rfl, hshort⟩

/-- A buffer of Data In is accepted. -/
theorem UPIUReadyToTransfer.refuses_iff (u : UPIUReadyToTransfer) :
    Refuses .readyToTransfer 32 buffer (u.set buffer) ↔
      buffer ≠ [] ∧ ¬ (Typed .dataIn buffer ∧ 31 < buffer.length) := by
  constructor
  · intro h
    refine ⟨?_, ?_⟩
    · rintro rfl
      exact not_refuses_error h
    · rintro ⟨htype, hlen⟩
      obtain ⟨ret, v, hset, hnot, -⟩ := h
      rw [set, decodeAs_pos htype hlen, copy_ok (by omega), Except.ok_bind, copy_ok (by omega),
        Except.ok_bind] at hset
      cases hset
      have hother : ¬ Typed .readyToTransfer buffer := by
        intro h
        exact absurd (htype.symm.trans h) (by decide)
      cases hnot hother
  · rintro ⟨hne, h⟩
    exact refuses_neg hne h

/-- The buffer holds the sense bytes that it says it holds, and `senseData` has room
for them. -/
def SenseFits (buffer : List UInt8) : Prop :=
  34 + (UPIUHeader.parse buffer).offset +
      (ofBe16 (buffer.getD (32 + (UPIUHeader.parse buffer).offset) 0)
        (buffer.getD (33 + (UPIUHeader.parse buffer).offset) 0)).toNat ≤ buffer.length ∧
    (ofBe16 (buffer.getD (32 + (UPIUHeader.parse buffer).offset) 0)
      (buffer.getD (33 + (UPIUHeader.parse buffer).offset) 0)).toNat ≤ 18

instance (buffer : List UInt8) : Decidable (SenseFits buffer) :=
  inferInstanceAs (Decidable (_ ∧ _))

/-- `set` of a Response comes to the sense bytes. -/
def ReadsSense (buffer : List UInt8) : Prop :=
  Typed .response buffer ∧ 31 < buffer.length ∧ 0 < (UPIUHeader.parse buffer).dataSegmentLength ∧
    (UPIUHeader.parse buffer).announced ≤ buffer.length

instance (buffer : List UInt8) : Decidable (ReadsSense buffer) :=
  inferInstanceAs (Decidable (_ ∧ _))

theorem ReadsSense.segment (h : ReadsSense buffer) : 31 + (UPIUHeader.parse buffer).offset +
    (UPIUHeader.parse buffer).dataSegmentLength.toNat < buffer.length := by
  obtain ⟨-, -, hpos, hannounced⟩ := h
  rw [UPIUHeader.announced, if_pos hpos] at hannounced
  omega

theorem UPIUResponse.set_fits (u : UPIUResponse) (h : ReadsSense buffer)
    (hfits : SenseFits buffer) :
    ∃ v, u.set buffer = .ok (true, v) := by
  obtain ⟨hend, hroom⟩ := hfits
  rw [set, decodeAs_pos h.1 h.2.1, copy_ok (by have := h.2.1; omega), Except.ok_bind]
  dsimp only
  rw [if_pos h.2.2.1, if_pos h.segment, fetch_lt (by omega), Except.ok_bind, fetch_lt (by omega),
    Except.ok_bind, copy_ok hend, Except.ok_bind, store,
    if_pos (by rw [length_slice hend]; omega), Except.ok_bind]
  exact ⟨_, rfl⟩

/-- Sense bytes behind the buffer, or more than `senseData` has room for. -/
theorem UPIUResponse.set_overruns (u : UPIUResponse) (h : ReadsSense buffer)
    (hnot : ¬ SenseFits buffer) : ∃ e, u.set buffer = .error e := by
  have hsegment := h.segment
  have hpos := h.2.2.1
  rw [UInt16.lt_iff_toNat_lt] at hpos
  have hpos : 0 < (UPIUHeader.parse buffer).dataSegmentLength.toNat := hpos
  rw [set, decodeAs_pos h.1 h.2.1, copy_ok (by have := h.2.1; omega), Except.ok_bind]
  dsimp only
  rw [if_pos h.2.2.1, if_pos hsegment, fetch_lt (by omega), Except.ok_bind]
  rcases Nat.lt_or_ge (33 + (UPIUHeader.parse buffer).offset) buffer.length with hlow | hlow
  · rw [fetch_lt hlow, Except.ok_bind]
    generalize hsense : ofBe16 (buffer.getD (32 + (UPIUHeader.parse buffer).offset) 0)
      (buffer.getD (33 + (UPIUHeader.parse buffer).offset) 0) = sense
    rcases Nat.lt_or_ge buffer.length (34 + (UPIUHeader.parse buffer).offset + sense.toNat) with
      hend | hend
    · rw [copy_out hend]
      exact ⟨_, rfl⟩
    · have hroom : ¬ 0 + (slice buffer (34 + (UPIUHeader.parse buffer).offset)
          sense.toNat).length ≤ 18 := by
        rw [length_slice hend]
        intro hroom
        refine hnot ⟨?_, ?_⟩
        · rw [hsense]
          exact hend
        · rw [hsense]
          omega
      rw [copy_ok hend, Except.ok_bind, store, if_neg hroom]
      exact ⟨_, rfl⟩
  · rw [fetch_out hlow]
    exact ⟨_, rfl⟩

theorem UPIUResponse.refuses_iff (u : UPIUResponse) :
    Refuses .response (UPIUHeader.parse buffer).announced buffer (u.set buffer) ↔
      buffer ≠ [] ∧ (ReadsSense buffer → SenseFits buffer) := by
  by_cases hreads : ReadsSense buffer
  · have hne : buffer ≠ [] := by
      rintro rfl
      exact absurd hreads.2.1 (by decide)
    by_cases hfits : SenseFits buffer
    · obtain ⟨v, hset⟩ := u.set_fits hreads hfits
      refine iff_of_true ⟨true, v, hset, fun h => absurd hreads.1 h, fun h => ?_⟩
        ⟨hne, fun _ => hfits⟩
      exact absurd hreads.2.2.2 (Nat.not_le_of_lt h)
    · obtain ⟨e, hset⟩ := u.set_overruns hreads hfits
      rw [hset]
      exact iff_of_false not_refuses_error fun h => hfits (h.2 hreads)
  · -- the sense bytes are not looked at
    refine (decodeAs_refuses fun htype hlen => ?_).trans
      (and_iff_left fun h => absurd h hreads).symm
    rw [copy_ok (by omega), Except.ok_bind]
    dsimp only
    rw [UPIUHeader.announced]
    split
    · next hpos =>
      rw [if_neg fun hsegment => hreads ⟨htype, hlen, hpos, ?_⟩]
      · exact ⟨_, _, rfl, fun _ => rfl⟩
      · rw [UPIUHeader.announced, if_pos hpos]
        omega
    · exact ⟨_, _, rfl, fun h => absurd h (by omega)⟩

end Types

namespace UPIU

/-- The length that the buffer announces for an object of the type of `v`. -/
def announced (v : UPIU) (buffer : List UInt8) : Nat :=
  match v with
  | .command _ | .readyToTransfer _ => 32
  | _ => (UPIUHeader.parse buffer).announced

/-- The buffers on which `set` keeps within its arrays and refuses what it should. -/
def Guards (v : UPIU) (buffer : List UInt8) : Prop :=
  buffer ≠ [] ∧
    match v with
    | .response _ => ReadsSense buffer → SenseFits buffer
    | .readyToTransfer _ => ¬ (Typed .dataIn buffer ∧ 31 < buffer.length)
    | _ => True

theorem refuses_map {α β : Type} {g : α → β} {opcode : UPIUOpcode} {n : Nat} {buffer : List UInt8}
    {result : Except Fault (Bool × α)} :
    Refuses opcode n buffer (result.map fun r => (r.1, g r.2)) ↔
      Refuses opcode n buffer result := by
  cases result with
  | error e => exact iff_of_false not_refuses_error not_refuses_error
  | ok r =>
    constructor
    · rintro ⟨ret, v, h, hrefuses⟩
      cases h
      exact ⟨r.1, r.2, rfl, hrefuses⟩
    · rintro ⟨ret, v, h, hrefuses⟩
      cases h
      exact ⟨ret, g v, rfl, hrefuses⟩

theorem refuses_iff (v : UPIU) (buffer : List UInt8) :
    Refuses v.kind (v.announced buffer) buffer (v.set buffer) ↔ v.Guards buffer := by
  cases v with
  | command u => exact refuses_map.trans (u.refuses_iff.trans (and_iff_left trivial).symm)
  | response u => exact refuses_map.trans u.refuses_iff
  | queryReq u =>
    exact refuses_map.trans ((UPIUQuery.refuses_iff _ u).trans (and_iff_left trivial).symm)
  | queryResp u =>
    exact refuses_map.trans ((UPIUQuery.refuses_iff _ u).trans (and_iff_left trivial).symm)
  | dataOut u =>
    exact refuses_map.trans ((UPIUData.refuses_iff _ u).trans (and_iff_left trivial).symm)
  | dataIn u =>
    exact refuses_map.trans ((UPIUData.refuses_iff _ u).trans (and_iff_left trivial).symm)
  | readyToTransfer u => exact refuses_map.trans u.refuses_iff

/-- The codecs restore what matches its header exactly when it is neither a Ready To
Transfer nor a Response with bytes behind its sense data. On any buffer, `set` keeps
within its arrays and refuses other types and short buffers exactly when the buffer is
not empty, the sense bytes of a Response fit, and a Ready To Transfer is not given a
Data In. -/
theorem codec (u v : UPIU) (buffer : List UInt8) :
    (u.Matches → v.Fresh → v.kind = u.kind → u.getLength = buffer.length →
      (u.RoundTrip v buffer ↔ u.Restores)) ∧
    (Refuses v.kind (v.announced buffer) buffer (v.set buffer) ↔ v.Guards buffer) :=
  ⟨fun hmatches hfresh hkind hlen => roundTrip_iff hmatches hfresh hkind hlen, refuses_iff v buffer⟩

/-- A Response with all its sense bytes, as it reports an illegal request. -/
def illegalRequest : UPIUResponse where
  header := { UPIUHeader.new with dataSegmentLength := 20 }
  residualCount := 0
  senseLength := 18
  senseData := ⟨[0x70, 0, 0x05, 0, 0, 0, 0, 0x0A, 0, 0, 0, 0, 0, 0, 0, 0, 0, 0], rfl⟩

theorem codec_illegalRequest :
    (UPIU.response illegalRequest).RoundTrip (.response .new) (List.replicate 52 0) ∧
      Refuses .response 32 (List.replicate 52 0)
        (UPIU.set (.response .new) (List.replicate 52 0)) := by
  obtain ⟨hround, hrefuses⟩ :=
    codec (.response illegalRequest) (.response .new) (List.replicate 52 0)
  refine ⟨(hround ⟨by decide, .inr rfl⟩ rfl rfl rfl).mpr ?_, hrefuses.mpr ⟨by decide, ?_⟩⟩
  · intro x hx
    cases hx
  · intro h
    exact absurd h.1 (by decide)

/-- The encoding of a Ready To Transfer is rejected by its own decoder. -/
theorem readyToTransfer_rejected : ∃ buffer',
    (UPIU.readyToTransfer .new).get (List.replicate 32 0) =
      .ok (true, (UPIU.readyToTransfer .new).stamped, buffer') ∧
    (UPIU.readyToTransfer .new).set buffer' = .ok (false, .readyToTransfer .new) :=
  ⟨UPIUOpcode.readyToTransfer.code :: List.replicate 31 0, by decide +kernel, by decide +kernel⟩

end UPIU

end SimpleSSD.HIL.UFS
