import SimpleSSD.Lib.Buffer
import SimpleSSD.Util.Def

/-!
# UPIU structures (hil/ufs/def.hh, hil/ufs/def.cc)

The seven UPIU types with an encoder `get` and a decoder `set` of their own. A
buffer is the `length` bytes that the function is given: a read or write at or
beyond `length` is a `badAccess`. A null `data` pointer is the empty list.

`get` and `set` return what the function returns with the object and the buffer
that it leaves. Two pairs of types differ in the opcode only, and share
`UPIUQuery` and `UPIUData`.
-/

namespace SimpleSSD.HIL.UFS

open Buffer

/-- `UPIU_OPCODE`. -/
inductive UPIUOpcode where
  | nopOut
  | command
  | dataOut
  | taskMgmtReq
  | queryRequest
  | nopIn
  | response
  | dataIn
  | taskMgmtResp
  | readyToTransfer
  | queryResponse
  | rejectUPIU
  deriving DecidableEq, Repr

def UPIUOpcode.code : UPIUOpcode → UInt8
  | .nopOut => 0x00
  | .command => 0x01
  | .dataOut => 0x02
  | .taskMgmtReq => 0x04
  | .queryRequest => 0x16
  | .nopIn => 0x20
  | .response => 0x21
  | .dataIn => 0x22
  | .taskMgmtResp => 0x24
  | .readyToTransfer => 0x31
  | .queryResponse => 0x36
  | .rejectUPIU => 0x3F

/-! ### Accesses -/

/-- `buffer[i]`. -/
def fetch (buffer : List UInt8) (i : Nat) : Except Fault UInt8 :=
  byte (.badAccess "buffer") buffer i

/-- `memcpy` of `n` bytes from `buffer + i`. -/
def copy (buffer : List UInt8) (i n : Nat) : Except Fault (Bytes n) :=
  read (.badAccess "buffer") buffer i n

/-- Assignments to consecutive bytes, `memcpy` or `memset`, to `buffer + i`. -/
def put (buffer : List UInt8) (i : Nat) (l : List UInt8) : Except Fault (List UInt8) :=
  write (.badAccess "buffer") buffer i l

/-! ### The header -/

structure UPIUHeader where
  transactionType : UInt8
  flags : UInt8
  lun : UInt8
  taskTag : UInt8
  commandSetType : UInt8
  function : UInt8
  response : UInt8
  status : UInt8
  ehsLength : UInt8
  deviceInfo : UInt8
  dataSegmentLength : UInt16
  deriving DecidableEq, Repr

namespace UPIUHeader

/-- `UPIU()`. -/
def new : UPIUHeader := ⟨0, 0, 0, 0, 0, 0, 0, 0, 0, 0, 0⟩

/-- `UPIU::set` (def.cc:41–61). -/
def set (header : UPIUHeader) (buffer : List UInt8) : Except Fault (Bool × UPIUHeader) :=
  if 11 < buffer.length then do
    let transactionType ← fetch buffer 0
    let flags ← fetch buffer 1
    let lun ← fetch buffer 2
    let taskTag ← fetch buffer 3
    let commandSetType ← fetch buffer 4
    let function ← fetch buffer 5
    let response ← fetch buffer 6
    let status ← fetch buffer 7
    let ehsLength ← fetch buffer 8
    let deviceInfo ← fetch buffer 9
    let high ← fetch buffer 10
    let low ← fetch buffer 11
    .ok (true, {
      transactionType, flags, lun, taskTag, commandSetType, function, response, status, ehsLength,
      deviceInfo, dataSegmentLength := ofBe16 high low })
  else .ok (false, header)

/-- The twelve bytes that `UPIU::get` writes. -/
def bytes (header : UPIUHeader) : List UInt8 :=
  [header.transactionType &&& 0x3F, header.flags, header.lun, header.taskTag,
    header.commandSetType, header.function, header.response, header.status, header.ehsLength,
    header.deviceInfo] ++ be16 header.dataSegmentLength

/-- `UPIU::get` (def.cc:63–84). -/
def get (header : UPIUHeader) (buffer : List UInt8) : Except Fault (Bool × List UInt8) :=
  if 11 < buffer.length then do
    let buffer ← put buffer 0 header.bytes
    .ok (true, buffer)
  else .ok (false, buffer)

/-- `header.transactionType = code`. -/
def stamp (header : UPIUHeader) (opcode : UPIUOpcode) : UPIUHeader :=
  { header with transactionType := opcode.code }

/-- Where the data segment starts behind the first 32 bytes. -/
def offset (header : UPIUHeader) : Nat := if header.transactionType &&& 0x80 ≠ 0 then 4 else 0

end UPIUHeader

/-! ### What the types share -/

/-- The frame of `set`: `body` runs with the header that was read. -/
def decodeAs {α : Type} (opcode : UPIUOpcode) (u : α) (header : UPIUHeader) (buffer : List UInt8)
    (body : Bool → UPIUHeader → Except Fault (Bool × α)) : Except Fault (Bool × α) := do
  -- the byte is read before the length is compared
  let b ← fetch buffer 0
  if b &&& 0x3F = opcode.code ∧ 31 < buffer.length then do
    let (ret, header) ← header.set buffer
    body ret header
  else .ok (false, u)

/-- The frame of `get`: `body` runs with the header that was written. -/
def encodeAs {α : Type} (opcode : UPIUOpcode) (u : α) (header : UPIUHeader) (buffer : List UInt8)
    (body : Bool → UPIUHeader → List UInt8 → Except Fault (Bool × α × List UInt8)) :
    Except Fault (Bool × α × List UInt8) :=
  if 31 < buffer.length then do
    let header := header.stamp opcode
    let (ret, buffer) ← header.get buffer
    body ret header buffer
  else .ok (false, u, buffer)

/-- The data segment of `set`: `data` is replaced when the buffer holds all of it. -/
def setData (ret : Bool) (header : UPIUHeader) (data buffer : List UInt8) :
    Except Fault (Bool × List UInt8) :=
  if 0 < header.dataSegmentLength then
    if 31 + header.offset + header.dataSegmentLength.toNat < buffer.length then do
      let data ← copy buffer (32 + header.offset) header.dataSegmentLength.toNat
      .ok (ret, data.1)
    else .ok (false, data)
  else .ok (ret, data)

/-- The data segment of `get`. -/
def getData (ret : Bool) (header : UPIUHeader) (data buffer : List UInt8) :
    Except Fault (Bool × List UInt8) :=
  if 0 < header.dataSegmentLength then
    if 31 + header.dataSegmentLength.toNat < buffer.length then do
      let segment ← read (.badAccess "data") data 0 header.dataSegmentLength.toNat
      let buffer ← put buffer 32 segment.1
      .ok (ret, buffer)
    else .ok (false, buffer)
  else .ok (ret, buffer)

/-! ### Commands -/

structure UPIUCommand where
  header : UPIUHeader
  expectedDataLength : UInt32
  cdb : Bytes 16
  deriving DecidableEq

namespace UPIUCommand

/-- `UPIUCommand()`. -/
def new : UPIUCommand := ⟨.new, 0, ⟨List.replicate 16 0, rfl⟩⟩

/-- `UPIUCommand::set` (def.cc:96–111). -/
def set (u : UPIUCommand) (buffer : List UInt8) : Except Fault (Bool × UPIUCommand) :=
  decodeAs .command u u.header buffer fun ret header => do
    let temp ← copy buffer 12 4
    let cdb ← copy buffer 16 16
    .ok (ret, { header, expectedDataLength := ofBe32 temp, cdb })

/-- `UPIUCommand::get` (def.cc:113–129). -/
def get (u : UPIUCommand) (buffer : List UInt8) : Except Fault (Bool × UPIUCommand × List UInt8) :=
  encodeAs .command u u.header buffer fun ret header buffer => do
    let buffer ← put buffer 12 (be32 u.expectedDataLength)
    let buffer ← put buffer 16 u.cdb.1
    .ok (ret, { u with header }, buffer)

/-- `UPIUCommand::getLength`. -/
def getLength (_ : UPIUCommand) : Nat := 32

end UPIUCommand

/-! ### Responses -/

structure UPIUResponse where
  header : UPIUHeader
  residualCount : UInt32
  senseLength : UInt16
  senseData : Bytes 18
  deriving DecidableEq

namespace UPIUResponse

/-- `UPIUResponse()`. -/
def new : UPIUResponse := ⟨.new, 0, 0, ⟨List.replicate 18 0, rfl⟩⟩

/-- `UPIUResponse::set` (def.cc:141–167). The sense bytes are as many as the two
bytes before them say. -/
def set (u : UPIUResponse) (buffer : List UInt8) : Except Fault (Bool × UPIUResponse) :=
  decodeAs .response u u.header buffer fun ret header => do
    let temp ← copy buffer 12 4
    let u := { u with header, residualCount := ofBe32 temp }
    if 0 < header.dataSegmentLength then
      if 31 + header.offset + header.dataSegmentLength.toNat < buffer.length then do
        let high ← fetch buffer (32 + header.offset)
        let low ← fetch buffer (33 + header.offset)
        let sense ← copy buffer (34 + header.offset) (ofBe16 high low).toNat
        let senseData ← store (.badAccess "senseData") u.senseData 0 sense.1
        .ok (ret, { u with senseLength := ofBe16 high low, senseData })
      else .ok (false, u)
    else .ok (ret, u)

/-- `UPIUResponse::get` (def.cc:169–196). -/
def get (u : UPIUResponse) (buffer : List UInt8) :
    Except Fault (Bool × UPIUResponse × List UInt8) :=
  encodeAs .response u u.header buffer fun ret header buffer => do
    let u := { u with header }
    let buffer ← put buffer 12 (be32 u.residualCount)
    let buffer ← put buffer 16 (List.replicate 16 0)
    if 0 < header.dataSegmentLength then
      if 31 + header.dataSegmentLength.toNat < buffer.length then do
        let buffer ← put buffer 32 (be16 u.senseLength)
        let sense ← read (.badAccess "senseData") u.senseData.1 0 u.senseLength.toNat
        let buffer ← put buffer 34 sense.1
        .ok (ret, u, buffer)
      else .ok (false, u, buffer)
    else .ok (ret, u, buffer)

/-- `UPIUResponse::getLength`. -/
def getLength (u : UPIUResponse) : Nat := 32 + u.header.dataSegmentLength.toNat

end UPIUResponse

/-! ### Queries -/

structure UPIUQuery where
  header : UPIUHeader
  opcode : UInt8
  idn : UInt8
  index : UInt8
  selector : UInt8
  length : UInt16
  val1 : UInt32
  val2 : UInt32
  data : List UInt8
  deriving DecidableEq

namespace UPIUQuery

/-- `set` of a query. -/
def set (code : UPIUOpcode) (u : UPIUQuery) (buffer : List UInt8) :
    Except Fault (Bool × UPIUQuery) :=
  decodeAs code u u.header buffer fun ret header => do
    let opcode ← fetch buffer 12
    let idn ← fetch buffer 13
    let index ← fetch buffer 14
    let selector ← fetch buffer 15
    let high ← fetch buffer 18
    let low ← fetch buffer 19
    let val1 ← copy buffer 20 4
    let val2 ← copy buffer 24 4
    let (ret, data) ← setData ret header u.data buffer
    .ok (ret, {
      header, opcode, idn, index, selector, data, length := ofBe16 high low, val1 := ofBe32 val1,
      val2 := ofBe32 val2 })

/-- `get` of a query. -/
def get (code : UPIUOpcode) (u : UPIUQuery) (buffer : List UInt8) :
    Except Fault (Bool × UPIUQuery × List UInt8) :=
  encodeAs code u u.header buffer fun ret header buffer => do
    let buffer ← put buffer 12 [u.opcode, u.idn, u.index, u.selector]
    let buffer ← put buffer 18 (be16 u.length)
    let buffer ← put buffer 20 (be32 u.val1)
    let buffer ← put buffer 24 (be32 u.val2)
    let buffer ← put buffer 28 (List.replicate 4 0)
    let (ret, buffer) ← getData ret header u.data buffer
    .ok (ret, { u with header }, buffer)

/-- `getLength` of a query. -/
def getLength (u : UPIUQuery) : Nat := 32 + u.header.dataSegmentLength.toNat

end UPIUQuery

abbrev UPIUQueryReq := UPIUQuery

/-- `UPIUQueryReq::set` (def.cc:210–247). -/
def UPIUQueryReq.set : UPIUQueryReq → List UInt8 → Except Fault (Bool × UPIUQueryReq) :=
  UPIUQuery.set .queryRequest

/-- `UPIUQueryReq::get` (def.cc:249–284). -/
def UPIUQueryReq.get : UPIUQueryReq → List UInt8 →
    Except Fault (Bool × UPIUQueryReq × List UInt8) :=
  UPIUQuery.get .queryRequest

abbrev UPIUQueryResp := UPIUQuery

/-- `UPIUQueryResp::set` (def.cc:298–335). -/
def UPIUQueryResp.set : UPIUQueryResp → List UInt8 → Except Fault (Bool × UPIUQueryResp) :=
  UPIUQuery.set .queryResponse

/-- `UPIUQueryResp::get` (def.cc:337–372). -/
def UPIUQueryResp.get :
    UPIUQueryResp → List UInt8 → Except Fault (Bool × UPIUQueryResp × List UInt8) :=
  UPIUQuery.get .queryResponse

/-! ### Data transfers -/

structure UPIUData where
  header : UPIUHeader
  offset : UInt32
  count : UInt32
  data : List UInt8
  deriving DecidableEq

namespace UPIUData

/-- `UPIUDataOut()` and `UPIUDataIn()`. -/
def new : UPIUData := ⟨.new, 0, 0, []⟩

/-- `set` of a data transfer. -/
def set (code : UPIUOpcode) (u : UPIUData) (buffer : List UInt8) : Except Fault (Bool × UPIUData) :=
  decodeAs code u u.header buffer fun ret header => do
    let offset ← copy buffer 12 4
    let count ← copy buffer 16 4
    let (ret, data) ← setData ret header u.data buffer
    .ok (ret, { header, offset := ofBe32 offset, count := ofBe32 count, data })

/-- `get` of a data transfer. -/
def get (code : UPIUOpcode) (u : UPIUData) (buffer : List UInt8) :
    Except Fault (Bool × UPIUData × List UInt8) :=
  encodeAs code u u.header buffer fun ret header buffer => do
    let buffer ← put buffer 12 (be32 u.offset)
    let buffer ← put buffer 16 (be32 u.count)
    let buffer ← put buffer 20 (List.replicate 12 0)
    let (ret, buffer) ← getData ret header u.data buffer
    .ok (ret, { u with header }, buffer)

/-- `getLength` of a data transfer. -/
def getLength (u : UPIUData) : Nat := 32 + u.header.dataSegmentLength.toNat

end UPIUData

abbrev UPIUDataOut := UPIUData

/-- `UPIUDataOut::set` (def.cc:386–417). -/
def UPIUDataOut.set : UPIUDataOut → List UInt8 → Except Fault (Bool × UPIUDataOut) :=
  UPIUData.set .dataOut

/-- `UPIUDataOut::get` (def.cc:419–447). -/
def UPIUDataOut.get : UPIUDataOut → List UInt8 → Except Fault (Bool × UPIUDataOut × List UInt8) :=
  UPIUData.get .dataOut

abbrev UPIUDataIn := UPIUData

/-- `UPIUDataIn::set` (def.cc:461–492). -/
def UPIUDataIn.set : UPIUDataIn → List UInt8 → Except Fault (Bool × UPIUDataIn) :=
  UPIUData.set .dataIn

/-- `UPIUDataIn::get` (def.cc:494–522). -/
def UPIUDataIn.get : UPIUDataIn → List UInt8 → Except Fault (Bool × UPIUDataIn × List UInt8) :=
  UPIUData.get .dataIn

/-! ### Ready to transfer -/

structure UPIUReadyToTransfer where
  header : UPIUHeader
  offset : UInt32
  count : UInt32
  deriving DecidableEq

namespace UPIUReadyToTransfer

/-- `UPIUReadyToTransfer()`. -/
def new : UPIUReadyToTransfer := ⟨.new, 0, 0⟩

/-- `UPIUReadyToTransfer::set` (def.cc:532–548). It tests for the opcode of Data In. -/
def set (u : UPIUReadyToTransfer) (buffer : List UInt8) :
    Except Fault (Bool × UPIUReadyToTransfer) :=
  decodeAs .dataIn u u.header buffer fun ret header => do
    let offset ← copy buffer 12 4
    let count ← copy buffer 16 4
    .ok (ret, { header, offset := ofBe32 offset, count := ofBe32 count })

/-- `UPIUReadyToTransfer::get` (def.cc:550–569). -/
def get (u : UPIUReadyToTransfer) (buffer : List UInt8) :
    Except Fault (Bool × UPIUReadyToTransfer × List UInt8) :=
  encodeAs .readyToTransfer u u.header buffer fun ret header buffer => do
    let buffer ← put buffer 12 (be32 u.offset)
    let buffer ← put buffer 16 (be32 u.count)
    let buffer ← put buffer 20 (List.replicate 12 0)
    .ok (ret, { u with header }, buffer)

/-- `UPIUReadyToTransfer::getLength`. -/
def getLength (_ : UPIUReadyToTransfer) : Nat := 32

end UPIUReadyToTransfer

/-! ### Dispatch -/

/-- An object of one of the types. -/
inductive UPIU where
  | command (u : UPIUCommand)
  | response (u : UPIUResponse)
  | queryReq (u : UPIUQueryReq)
  | queryResp (u : UPIUQueryResp)
  | dataOut (u : UPIUDataOut)
  | dataIn (u : UPIUDataIn)
  | readyToTransfer (u : UPIUReadyToTransfer)
  deriving DecidableEq

namespace UPIU

/-- The opcode of the type. -/
def kind : UPIU → UPIUOpcode
  | .command _ => .command
  | .response _ => .response
  | .queryReq _ => .queryRequest
  | .queryResp _ => .queryResponse
  | .dataOut _ => .dataOut
  | .dataIn _ => .dataIn
  | .readyToTransfer _ => .readyToTransfer

/-- The virtual `set`. -/
def set : UPIU → List UInt8 → Except Fault (Bool × UPIU)
  | .command u, buffer => (u.set buffer).map fun r => (r.1, .command r.2)
  | .response u, buffer => (u.set buffer).map fun r => (r.1, .response r.2)
  | .queryReq u, buffer => (UPIUQueryReq.set u buffer).map fun r => (r.1, .queryReq r.2)
  | .queryResp u, buffer => (UPIUQueryResp.set u buffer).map fun r => (r.1, .queryResp r.2)
  | .dataOut u, buffer => (UPIUDataOut.set u buffer).map fun r => (r.1, .dataOut r.2)
  | .dataIn u, buffer => (UPIUDataIn.set u buffer).map fun r => (r.1, .dataIn r.2)
  | .readyToTransfer u, buffer => (u.set buffer).map fun r => (r.1, .readyToTransfer r.2)

/-- The virtual `get`. -/
def get : UPIU → List UInt8 → Except Fault (Bool × UPIU × List UInt8)
  | .command u, buffer => (u.get buffer).map fun r => (r.1, .command r.2.1, r.2.2)
  | .response u, buffer => (u.get buffer).map fun r => (r.1, .response r.2.1, r.2.2)
  | .queryReq u, buffer => (UPIUQueryReq.get u buffer).map fun r => (r.1, .queryReq r.2.1, r.2.2)
  | .queryResp u, buffer => (UPIUQueryResp.get u buffer).map fun r => (r.1, .queryResp r.2.1, r.2.2)
  | .dataOut u, buffer => (UPIUDataOut.get u buffer).map fun r => (r.1, .dataOut r.2.1, r.2.2)
  | .dataIn u, buffer => (UPIUDataIn.get u buffer).map fun r => (r.1, .dataIn r.2.1, r.2.2)
  | .readyToTransfer u, buffer => (u.get buffer).map fun r => (r.1, .readyToTransfer r.2.1, r.2.2)

/-- The virtual `getLength`. -/
def getLength : UPIU → Nat
  | .command u => u.getLength
  | .response u => u.getLength
  | .queryReq u => UPIUQuery.getLength u
  | .queryResp u => UPIUQuery.getLength u
  | .dataOut u => UPIUData.getLength u
  | .dataIn u => UPIUData.getLength u
  | .readyToTransfer u => u.getLength

end UPIU

end SimpleSSD.HIL.UFS
