import VectorStore.Foundation.Bytes
import VectorStore.Value

/-!
# The bytes of a key

The program keeps a key as bytes: the number of values, and behind it every value as a tag and its
data.  Numbers are written with the least significant byte first, but for the scale of a decimal;
values of any length follow their length.  Reading out of the bounds of the bytes panics, as does a
value that no key can have.
-/

namespace VectorStore

namespace Encoded

/-! ## Tags and sizes -/

/-- The tags of the values, the `TAG_` constants. -/
inductive Tag where
  | empty
  | boolean
  | tinyInt
  | smallInt
  | int
  | bigInt
  | float
  | double
  | text
  | ascii
  | uuid
  | timeuuid
  | date
  | time
  | timestamp
  | inetV4
  | inetV6
  | counter
  | blob
  | varint
  | decimal
deriving DecidableEq

/-- The byte of a tag. -/
def Tag.byte : Tag → UInt8
  | empty => 0
  | boolean => 1
  | tinyInt => 2
  | smallInt => 3
  | int => 4
  | bigInt => 5
  | float => 6
  | double => 7
  | text => 8
  | ascii => 9
  | uuid => 10
  | timeuuid => 11
  | date => 12
  | time => 13
  | timestamp => 14
  | inetV4 => 15
  | inetV6 => 16
  | counter => 17
  | blob => 18
  | varint => 19
  | decimal => 20

/-- The tag that a byte stands for. -/
def Tag.ofByte (byte : UInt8) : Option Tag :=
  match byte.toNat with
  | 0 => some empty
  | 1 => some boolean
  | 2 => some tinyInt
  | 3 => some smallInt
  | 4 => some int
  | 5 => some bigInt
  | 6 => some float
  | 7 => some double
  | 8 => some text
  | 9 => some ascii
  | 10 => some uuid
  | 11 => some timeuuid
  | 12 => some date
  | 13 => some time
  | 14 => some timestamp
  | 15 => some inetV4
  | 16 => some inetV6
  | 17 => some counter
  | 18 => some blob
  | 19 => some varint
  | 20 => some decimal
  | _ => none

theorem Tag.ofByte_byte (tag : Tag) : ofByte tag.byte = some tag := by
  cases tag <;> rfl

def countSize : ℕ := 1

def tagSize : ℕ := 1

def varLenSize : ℕ := 4

def dataOffset : ℕ := tagSize

def varDataOffset : ℕ := tagSize + varLenSize

def byteSize : ℕ := 1

def ipv4Size : ℕ := 4

def uuidSize : ℕ := 16

/-- The number of values a key can have. -/
def maxColumns : ℕ := 255

/-! ## Encoding -/

/-- `unsupported`; the message goes on with the value. -/
def unsupported : Failure :=
  .panic "CqlValue variant not supported for InvariantKey encoding"

/-- The bytes of a text. -/
def asBytes (s : String) : List UInt8 := s.toByteArray.data.toList

/-- `encoded_size`. -/
def encodedSize : CqlValue → Except Failure ℕ
  | .empty => .ok tagSize
  | .boolean _ | .tinyInt _ => .ok (tagSize + byteSize)
  | .smallInt _ => .ok (tagSize + 2)
  | .int _ | .float _ | .date _ => .ok (tagSize + 4)
  | .bigInt _ | .double _ | .time _ | .timestamp _ | .counter _ => .ok (tagSize + 8)
  | .uuid _ | .timeuuid _ => .ok (tagSize + uuidSize)
  | .inet (.v4 _) => .ok (tagSize + ipv4Size)
  | .inet (.v6 _) => .ok (tagSize + uuidSize)
  | .text s => .ok (tagSize + varLenSize + s.utf8ByteSize)
  | .ascii s => .ok (tagSize + varLenSize + s.utf8ByteSize)
  | .blob b => .ok (tagSize + varLenSize + b.length)
  | .varint digits => .ok (tagSize + varLenSize + digits.length)
  | .decimal d => .ok (tagSize + varLenSize + 4 + d.digits.length)
  | .vector _ | .nested _ => .error unsupported

/-- A length that has to fit a `u32`. -/
def tryU32 (len : ℕ) (message : String) : Except Failure (BitVec 32) :=
  if len < 2 ^ 32 then .ok (.ofNat 32 len) else .error (.panic message)

/-- `encode_value`: the buffer with the bytes of the value behind it. -/
def encodeValue (buf : List UInt8) : CqlValue → Except Failure (List UInt8)
  | .empty => .ok (buf ++ [Tag.empty.byte])
  | .boolean v => .ok (buf ++ [Tag.boolean.byte] ++ [v.toUInt8])
  | .tinyInt v => .ok (buf ++ [Tag.tinyInt.byte] ++ toLeBytes v.toBitVec)
  | .smallInt v => .ok (buf ++ [Tag.smallInt.byte] ++ toLeBytes v.toBitVec)
  | .int v => .ok (buf ++ [Tag.int.byte] ++ toLeBytes v.toBitVec)
  | .bigInt v => .ok (buf ++ [Tag.bigInt.byte] ++ toLeBytes v.toBitVec)
  | .float bits => .ok (buf ++ [Tag.float.byte] ++ toLeBytes bits.toBitVec)
  | .double bits => .ok (buf ++ [Tag.double.byte] ++ toLeBytes bits.toBitVec)
  | .text s => do
    let len ← tryU32 s.utf8ByteSize "Text value too large for InvariantKey encoding"
    .ok (buf ++ [Tag.text.byte] ++ toLeBytes len ++ asBytes s)
  | .ascii s => do
    let len ← tryU32 s.utf8ByteSize "Ascii value too large for InvariantKey encoding"
    .ok (buf ++ [Tag.ascii.byte] ++ toLeBytes len ++ asBytes s)
  | .blob b => do
    let len ← tryU32 b.length "Blob value too large for InvariantKey encoding"
    .ok (buf ++ [Tag.blob.byte] ++ toLeBytes len ++ b)
  | .varint digits => do
    let len ← tryU32 digits.length "Varint value too large for InvariantKey encoding"
    .ok (buf ++ [Tag.varint.byte] ++ toLeBytes len ++ digits)
  | .decimal d => do
    let payloadLen ← tryU32 (4 + d.digits.length)
      "Decimal value too large for InvariantKey encoding"
    .ok (buf ++ [Tag.decimal.byte] ++ toLeBytes payloadLen ++ toBeBytes d.scale.toBitVec ++ d.digits)
  | .uuid v => .ok (buf ++ [Tag.uuid.byte] ++ toBeBytes v)
  | .timeuuid v => .ok (buf ++ [Tag.timeuuid.byte] ++ toBeBytes v)
  | .date v => .ok (buf ++ [Tag.date.byte] ++ toLeBytes v.toBitVec)
  | .time v => .ok (buf ++ [Tag.time.byte] ++ toLeBytes v.toBitVec)
  | .timestamp v => .ok (buf ++ [Tag.timestamp.byte] ++ toLeBytes v.toBitVec)
  | .inet (.v4 octets) => .ok (buf ++ [Tag.inetV4.byte] ++ toBeBytes octets)
  | .inet (.v6 octets) => .ok (buf ++ [Tag.inetV6.byte] ++ toBeBytes octets)
  | .counter v => .ok (buf ++ [Tag.counter.byte] ++ toLeBytes v.toBitVec)
  | .vector _ | .nested _ => .error unsupported

/-! ## Decoding -/

/-- `data[idx]`. -/
def index (idx : ℕ) (data : List UInt8) : Except Failure UInt8 :=
  match data[idx]? with
  | some byte => .ok byte
  | none => .error (.panic
      s!"index out of bounds: the len is {data.length} but the index is {idx}")

/-- `&data[start..start + size]`. -/
def range (start size : ℕ) (data : List UInt8) : Except Failure (List UInt8) :=
  if start + size ≤ data.length then .ok (slice start (start + size) data)
  else .error (.panic
    s!"range end index {start + size} out of range for slice of length {data.length}")

/-- `&data[start..]`. -/
def rangeFrom (start : ℕ) (data : List UInt8) : Except Failure (List UInt8) :=
  if start ≤ data.length then .ok (data.drop start)
  else .error (.panic
    s!"range start index {start} out of range for slice of length {data.length}")

/-- `read_fixed`. -/
def readFixed (n : ℕ) (data : List UInt8) : Except Failure (List UInt8) := range dataOffset n data

/-- `read_var_len`. -/
def readVarLen (data : List UInt8) : Except Failure ℕ := do
  let bytes ← range dataOffset varLenSize data
  .ok (ofLeBytes bytes)

/-- The tag at the front of the data. -/
def readTag (data : List UInt8) : Except Failure Tag := do
  let byte ← index 0 data
  match Tag.ofByte byte with
  | some tag => .ok tag
  | none => .error (.panic s!"Unknown tag in InvariantKey data: {byte}")

/-- `skip_value`: the number of bytes of the first value. -/
def skipValue (data : List UInt8) : Except Failure ℕ := do
  match ← readTag data with
  | .empty => .ok tagSize
  | .boolean | .tinyInt => .ok (tagSize + byteSize)
  | .smallInt => .ok (tagSize + 2)
  | .int | .float | .date => .ok (tagSize + 4)
  | .inetV4 => .ok (tagSize + ipv4Size)
  | .bigInt | .double | .time | .timestamp | .counter => .ok (tagSize + 8)
  | .uuid | .timeuuid | .inetV6 => .ok (tagSize + uuidSize)
  | .text | .ascii | .blob | .varint | .decimal =>
    let len ← readVarLen data
    .ok (varDataOffset + len)

/-- `String::from_utf8`. -/
def fromUtf8 (bytes : List UInt8) (message : String) : Except Failure String :=
  match String.fromUTF8? bytes.toByteArray with
  | some s => .ok s
  | none => .error (.panic message)

/-- `decode_value`: the first value and the number of its bytes. -/
def decodeValue (data : List UInt8) : Except Failure (CqlValue × ℕ) := do
  match ← readTag data with
  | .empty => .ok (.empty, tagSize)
  | .boolean =>
    let byte ← index dataOffset data
    .ok (.boolean (byte != 0), tagSize + byteSize)
  | .tinyInt =>
    let v ← readFixed 1 data
    .ok (.tinyInt (.ofBitVec (ofWordLe 8 v)), tagSize + byteSize)
  | .smallInt =>
    let v ← readFixed 2 data
    .ok (.smallInt (.ofBitVec (ofWordLe 16 v)), tagSize + 2)
  | .int =>
    let v ← readFixed 4 data
    .ok (.int (.ofBitVec (ofWordLe 32 v)), tagSize + 4)
  | .bigInt =>
    let v ← readFixed 8 data
    .ok (.bigInt (.ofBitVec (ofWordLe 64 v)), tagSize + 8)
  | .float =>
    let v ← readFixed 4 data
    .ok (.float (.ofBitVec (ofWordLe 32 v)), tagSize + 4)
  | .double =>
    let v ← readFixed 8 data
    .ok (.double (.ofBitVec (ofWordLe 64 v)), tagSize + 8)
  | .text =>
    let len ← readVarLen data
    let bytes ← range varDataOffset len data
    let s ← fromUtf8 bytes "invalid UTF-8 in InvariantKey Text value"
    .ok (.text s, varDataOffset + len)
  | .ascii =>
    let len ← readVarLen data
    let bytes ← range varDataOffset len data
    let s ← fromUtf8 bytes "invalid UTF-8 in InvariantKey Ascii value"
    .ok (.ascii s, varDataOffset + len)
  | .blob =>
    let len ← readVarLen data
    let bytes ← range varDataOffset len data
    .ok (.blob bytes, varDataOffset + len)
  | .varint =>
    let len ← readVarLen data
    let bytes ← range varDataOffset len data
    .ok (.varint bytes, varDataOffset + len)
  | .decimal =>
    let len ← readVarLen data
    let payload ← range varDataOffset len data
    let scale ← range 0 4 payload
    let varintBytes ← rangeFrom 4 payload
    .ok (.decimal ⟨varintBytes, .ofBitVec (ofWordBe 32 scale)⟩, varDataOffset + len)
  | .uuid =>
    let bytes ← readFixed 16 data
    .ok (.uuid (ofWordBe 128 bytes), tagSize + uuidSize)
  | .timeuuid =>
    let bytes ← readFixed 16 data
    .ok (.timeuuid (ofWordBe 128 bytes), tagSize + uuidSize)
  | .date =>
    let v ← readFixed 4 data
    .ok (.date (.ofBitVec (ofWordLe 32 v)), tagSize + 4)
  | .time =>
    let v ← readFixed 8 data
    .ok (.time (.ofBitVec (ofWordLe 64 v)), tagSize + 8)
  | .timestamp =>
    let v ← readFixed 8 data
    .ok (.timestamp (.ofBitVec (ofWordLe 64 v)), tagSize + 8)
  | .inetV4 =>
    let octets ← readFixed 4 data
    .ok (.inet (.v4 (ofWordBe 32 octets)), tagSize + ipv4Size)
  | .inetV6 =>
    let octets ← readFixed 16 data
    .ok (.inet (.v6 (ofWordBe 128 octets)), tagSize + uuidSize)
  | .counter =>
    let v ← readFixed 8 data
    .ok (.counter (.ofBitVec (ofWordLe 64 v)), tagSize + 8)

/-! ## Keys -/

/-- `InvariantKey`, as it is stored. -/
structure InvariantKey where
  data : List UInt8
deriving DecidableEq

/-- An assertion of the code. -/
def assert (condition : Bool) (message : String) : Except Failure Unit :=
  if condition then .ok () else .error (.panic message)

namespace InvariantKey

/-- `InvariantKey::encode`, with its debug assertions. -/
def encode (values : List CqlValue) : Except Failure InvariantKey := do
  assert (values.length ≤ maxColumns) "assertion failed: values.len() <= Self::MAX_COLUMNS"
  let sizes ← values.mapM encodedSize
  let total := countSize + sizes.sum
  let buf ← values.foldlM encodeValue [UInt8.ofNat values.length]
  assert (buf.length = total)
    s!"assertion `left == right` failed\n  left: {buf.length}\n right: {total}"
  .ok ⟨buf⟩

/-- `InvariantKey::new`. -/
def new (values : List CqlValue) : Except Failure InvariantKey := do
  assert (values.length ≤ maxColumns)
    s!"InvariantKey supports at most {maxColumns} columns, got {values.length}"
  encode values

/-- A step of `InvariantKey::from_iter`: the count at the front goes up with every value. -/
def pushValue (buf : List UInt8) (value : CqlValue) : Except Failure (List UInt8) := do
  let buf ← encodeValue buf value
  .ok (buf.modify 0 (· + 1))

/-- `InvariantKey::from_iter`. -/
def fromIter (values : List CqlValue) : Except Failure InvariantKey := do
  let buf ← (values.take maxColumns).foldlM pushValue [0]
  .ok ⟨buf⟩

/-- `InvariantKey::len`. -/
def len (key : InvariantKey) : Except Failure ℕ := do
  let count ← index 0 key.data
  .ok count.toNat

/-- `InvariantKey::is_empty`. -/
def isEmpty (key : InvariantKey) : Except Failure Bool := do
  let count ← index 0 key.data
  .ok (count == 0)

/-- The offset behind a number of values. -/
def skipValues (data : List UInt8) : ℕ → ℕ → Except Failure ℕ
  | 0, offset => .ok offset
  | n + 1, offset => do
    let rest ← rangeFrom offset data
    let size ← skipValue rest
    skipValues data n (offset + size)

/-- `InvariantKey::get`. -/
def get (key : InvariantKey) (idx : ℕ) : Except Failure (Option CqlValue) := do
  let count ← key.len
  if count ≤ idx then .ok none
  else
    let offset ← skipValues key.data idx countSize
    let rest ← rangeFrom offset key.data
    let (value, _) ← decodeValue rest
    .ok (some value)

end InvariantKey

/-! ## Iteration -/

/-- `InvariantKeyIter`. -/
structure InvariantKeyIter where
  data : List UInt8
  offset : ℕ
  remaining : ℕ
deriving DecidableEq

/-- `InvariantKey::iter`. -/
def InvariantKey.iter (key : InvariantKey) : Except Failure InvariantKeyIter := do
  let count ← key.len
  .ok ⟨key.data, countSize, count⟩

namespace InvariantKeyIter

/-- `InvariantKeyIter::next`: the next value, and the iterator behind it. -/
def next (iter : InvariantKeyIter) : Except Failure (Option (CqlValue × InvariantKeyIter)) :=
  if iter.remaining = 0 then .ok none
  else do
    let rest ← rangeFrom iter.offset iter.data
    let (value, consumed) ← decodeValue rest
    .ok (some (value,
      { iter with offset := iter.offset + consumed, remaining := iter.remaining - 1 }))

/-- `InvariantKeyIter::size_hint`. -/
def sizeHint (iter : InvariantKeyIter) : ℕ × Option ℕ := (iter.remaining, some iter.remaining)

theorem remaining_next_lt {iter iter' : InvariantKeyIter} {value : CqlValue}
    (h : iter.next = .ok (some (value, iter'))) : iter'.remaining < iter.remaining := by
  unfold next at h
  split at h
  · cases h
  · next hpos =>
    obtain ⟨rest, hrest, h⟩ := bind_eq_ok h
    obtain ⟨⟨value', consumed⟩, hdecode, h⟩ := bind_eq_ok h
    cases h
    exact Nat.sub_one_lt hpos

/-- The values that an iterator yields until it has no more. -/
def collect (iter : InvariantKeyIter) : Except Failure (List CqlValue) :=
  match h : iter.next with
  | .error e => .error e
  | .ok none => .ok []
  | .ok (some (value, iter')) =>
    have := remaining_next_lt h
    iter'.collect.map (value :: ·)
termination_by iter.remaining

theorem collect_of_next_none {iter : InvariantKeyIter} (h : iter.next = .ok none) :
    iter.collect = .ok [] := by
  rw [collect]
  split
  · next e he => cases h.symm.trans he
  · rfl
  · next value iter' hnext => cases h.symm.trans hnext

theorem collect_of_next_some {iter iter' : InvariantKeyIter} {value : CqlValue}
    (h : iter.next = .ok (some (value, iter'))) :
    iter.collect = iter'.collect.map (value :: ·) := by
  rw [collect]
  split
  · next e he => cases h.symm.trans he
  · next hnone => cases h.symm.trans hnone
  · next value' iter'' hnext =>
    cases h.symm.trans hnext
    rfl

end InvariantKeyIter

end Encoded

end VectorStore
