import VectorStore.Key.Encoding

/-!
# The bytes of a value

The bytes written for a value announce their own number: skipping the value and reading it back
consume exactly these bytes, whatever lies behind them.  A value has data of a fixed size, or its
data lies behind its length.
-/

namespace VectorStore

namespace Encoded

/-- The value can be part of a key: it is a scalar, and the length of its data fits 32 bits. -/
def Encodable : CqlValue → Prop
  | .text s | .ascii s => s.utf8ByteSize < 2 ^ 32
  | .blob b => b.length < 2 ^ 32
  | .varint digits => digits.length < 2 ^ 32
  | .decimal d => 4 + d.digits.length < 2 ^ 32
  | .vector _ | .nested _ => False
  | _ => True

/-- What is written for the value: as many bytes as announced, and the value is skipped and read
back wherever they are. -/
structure Encodes (value : CqlValue) (bytes : List UInt8) : Prop where
  size : encodedSize value = .ok bytes.length
  write : ∀ buf, encodeValue buf value = .ok (buf ++ bytes)
  skip : ∀ rest, skipValue (bytes ++ rest) = .ok bytes.length
  read : ∀ rest, decodeValue (bytes ++ rest) = .ok (value, bytes.length)

/-! ## Reading -/

section Reading

variable {data payload rest : List UInt8} {n start : ℕ} {tag : Tag}

theorem bind_of_ok {ε α β : Type} {x : Except ε α} {f : α → Except ε β} {a : α} {r : Except ε β}
    (hx : x = .ok a) (hf : f a = r) : (x >>= f) = r := by
  rw [hx]
  exact hf

theorem index_cons (byte : UInt8) (rest : List UInt8) : index 0 (byte :: rest) = .ok byte := rfl

theorem readTag_cons (tag : Tag) (rest : List UInt8) : readTag (tag.byte :: rest) = .ok tag := by
  refine bind_of_ok (index_cons ..) ?_
  rw [Tag.ofByte_byte]

/-- A range in the middle of the data. -/
theorem range_append (front : List UInt8) (hfront : front.length = start)
    (hpayload : payload.length = n) (rest : List UInt8) :
    range start n (front ++ (payload ++ rest)) = .ok payload := by
  subst hfront hpayload
  have hle : front.length + payload.length ≤ (front ++ (payload ++ rest)).length := by
    rw [← List.append_assoc, List.length_append, List.length_append]
    exact Nat.le_add_right ..
  have hslice := slice_append front (payload ++ rest) 0 payload.length
  rw [Nat.add_zero, slice_front] at hslice
  rw [range, if_pos hle, hslice]

/-- The data of a fixed size behind a tag. -/
theorem readFixed_cons (byte : UInt8) (hpayload : payload.length = n) (rest : List UInt8) :
    readFixed n (byte :: (payload ++ rest)) = .ok payload :=
  range_append [byte] rfl hpayload rest

/-- The data behind a number of bytes. -/
theorem rangeFrom_append {front : List UInt8} (hfront : front.length = start) (rest : List UInt8) :
    rangeFrom start (front ++ rest) = .ok rest := by
  subst hfront
  rw [rangeFrom, if_pos (by rw [List.length_append]; exact Nat.le_add_right ..), List.drop_left]

/-- The length behind a tag. -/
theorem readVarLen_cons (byte : UInt8) (hn : n < 2 ^ 32) (rest : List UInt8) :
    readVarLen (byte :: (toLeBytes (BitVec.ofNat 32 n) ++ rest)) = .ok n := by
  have hlength : (toLeBytes (BitVec.ofNat 32 n)).length = varLenSize := length_toLeBytes _
  refine bind_of_ok (readFixed_cons byte hlength rest) ?_
  rw [toLeBytes, ofLeBytes_leBytes, toNat_mod_bytes (by decide), BitVec.toNat_ofNat,
    Nat.mod_eq_of_lt hn]

/-- The data behind a tag and its length. -/
theorem range_varData (byte : UInt8) (len : BitVec 32) (hpayload : payload.length = n)
    (rest : List UInt8) :
    range varDataOffset n (byte :: (toLeBytes len ++ (payload ++ rest))) = .ok payload :=
  range_append (byte :: toLeBytes len) (congrArg Nat.succ (length_toLeBytes len)) hpayload rest

theorem fromUtf8_asBytes (s message : String) : fromUtf8 (asBytes s) message = .ok s := by
  have hbytes : (asBytes s).toByteArray = s.toByteArray :=
    ByteArray.ext (by rw [asBytes, List.data_toByteArray, Array.toArray_toList])
  have hread : String.fromUTF8? s.toByteArray = some s := dif_pos s.isValidUTF8
  rw [fromUtf8, hbytes, hread]

theorem length_asBytes (s : String) : (asBytes s).length = s.utf8ByteSize := rfl

end Reading

/-! ## The two kinds of data -/

namespace Encodes

variable {value : CqlValue} {payload : List UInt8}

/-- A value with data of a fixed size. -/
theorem fixed (tag : Tag) {n : ℕ} (hpayload : payload.length = n)
    (size : encodedSize value = .ok (tagSize + n))
    (write : ∀ buf, encodeValue buf value = .ok (buf ++ [tag.byte] ++ payload))
    (skip : ∀ data, readTag data = .ok tag → skipValue data = .ok (tagSize + n))
    (read : ∀ data, readTag data = .ok tag → readFixed n data = .ok payload →
      decodeValue data = .ok (value, tagSize + n)) :
    Encodes value (tag.byte :: payload) := by
  have hlength : (tag.byte :: payload).length = tagSize + n := by
    rw [List.length_cons, hpayload, Nat.add_comm]
    rfl
  constructor
  case size => rw [size, hlength]
  case write =>
    intro buf
    rw [write, List.append_assoc, List.singleton_append]
  case skip =>
    intro rest
    rw [hlength]
    exact skip _ (readTag_cons ..)
  case read =>
    intro rest
    rw [hlength]
    exact read _ (readTag_cons ..) (readFixed_cons _ hpayload rest)

/-- A value whose data lies behind its length. -/
theorem ofLength (tag : Tag) {n : ℕ} (hpayload : payload.length = n) (hn : n < 2 ^ 32)
    (size : encodedSize value = .ok (tagSize + varLenSize + n))
    (write : ∀ buf, encodeValue buf value =
      .ok (buf ++ [tag.byte] ++ toLeBytes (BitVec.ofNat 32 n) ++ payload))
    (read : ∀ data, readTag data = .ok tag → readVarLen data = .ok n →
      range varDataOffset n data = .ok payload →
      decodeValue data = .ok (value, varDataOffset + n))
    (skip : ∀ data, readTag data = .ok tag → readVarLen data = .ok n →
      skipValue data = .ok (varDataOffset + n) := by
      exact fun _ htag hlen => bind_of_ok htag (bind_of_ok hlen rfl)) :
    Encodes value (tag.byte :: (toLeBytes (BitVec.ofNat 32 n) ++ payload)) := by
  have hlength : (tag.byte :: (toLeBytes (BitVec.ofNat 32 n) ++ payload)).length =
      varDataOffset + n := by
    rw [List.length_cons, List.length_append, length_toLeBytes, hpayload, Nat.add_right_comm,
      Nat.add_comm (32 / 8)]
    rfl
  have hassoc : ∀ rest, tag.byte :: (toLeBytes (BitVec.ofNat 32 n) ++ payload) ++ rest =
      tag.byte :: (toLeBytes (BitVec.ofNat 32 n) ++ (payload ++ rest)) := by
    intro rest
    rw [List.cons_append, List.append_assoc]
  constructor
  case size =>
    rw [size, hlength]
    rfl
  case write =>
    intro buf
    rw [write, List.append_assoc, List.append_assoc, List.singleton_append]
  case skip =>
    intro rest
    rw [hlength, hassoc]
    exact skip _ (readTag_cons ..) (readVarLen_cons _ hn _)
  case read =>
    intro rest
    rw [hlength, hassoc]
    exact read _ (readTag_cons ..) (readVarLen_cons _ hn _) (range_varData _ _ hpayload rest)

/-- A word with its least significant byte first.  The functions that write, skip and read it agree
by computation. -/
theorem wordLe (tag : Tag) {w : ℕ} (word : BitVec w) (ofWord : BitVec w → CqlValue)
    (hw : 8 ∣ w := by decide)
    (size : encodedSize (ofWord word) = .ok (tagSize + w / 8) := by rfl)
    (write : ∀ buf, encodeValue buf (ofWord word) =
      .ok (buf ++ [tag.byte] ++ toLeBytes word) := by exact fun _ => rfl)
    (skip : ∀ data, readTag data = .ok tag → skipValue data = .ok (tagSize + w / 8) := by
      exact fun _ htag => bind_of_ok htag rfl)
    (read : ∀ data bytes, readTag data = .ok tag → readFixed (w / 8) data = .ok bytes →
      decodeValue data = .ok (ofWord (ofWordLe w bytes), tagSize + w / 8) := by
      exact fun _ _ htag hfixed => bind_of_ok htag (bind_of_ok hfixed rfl)) :
    Encodes (ofWord word) (tag.byte :: toLeBytes word) := by
  refine fixed tag (length_toLeBytes word) size write skip fun data htag hfixed => ?_
  rw [read data _ htag hfixed, ofWordLe_toLeBytes hw]

/-- A word with its most significant byte first. -/
theorem wordBe (tag : Tag) {w : ℕ} (word : BitVec w) (ofWord : BitVec w → CqlValue)
    (hw : 8 ∣ w := by decide)
    (size : encodedSize (ofWord word) = .ok (tagSize + w / 8) := by rfl)
    (write : ∀ buf, encodeValue buf (ofWord word) =
      .ok (buf ++ [tag.byte] ++ toBeBytes word) := by exact fun _ => rfl)
    (skip : ∀ data, readTag data = .ok tag → skipValue data = .ok (tagSize + w / 8) := by
      exact fun _ htag => bind_of_ok htag rfl)
    (read : ∀ data bytes, readTag data = .ok tag → readFixed (w / 8) data = .ok bytes →
      decodeValue data = .ok (ofWord (ofWordBe w bytes), tagSize + w / 8) := by
      exact fun _ _ htag hfixed => bind_of_ok htag (bind_of_ok hfixed rfl)) :
    Encodes (ofWord word) (tag.byte :: toBeBytes word) := by
  refine fixed tag (length_toBeBytes word) size write skip fun data htag hfixed => ?_
  rw [read data _ htag hfixed, ofWordBe_toBeBytes hw]

theorem empty : Encodes .empty [Tag.empty.byte] := by
  refine fixed .empty rfl rfl (fun buf => ?_) (fun _ htag => bind_of_ok htag rfl)
    fun _ htag _ => bind_of_ok htag rfl
  rw [List.append_nil]
  rfl

theorem boolean (v : Bool) : Encodes (.boolean v) [Tag.boolean.byte, v.toUInt8] where
  size := rfl
  write buf := by
    rw [encodeValue, List.append_assoc]
    rfl
  skip rest := bind_of_ok (readTag_cons ..) rfl
  read rest := by
    refine bind_of_ok (readTag_cons ..) (bind_of_ok rfl ?_)
    cases v <;> rfl

theorem text {s : String} (h : s.utf8ByteSize < 2 ^ 32) :
    Encodes (.text s) (Tag.text.byte :: (toLeBytes (.ofNat 32 s.utf8ByteSize) ++ asBytes s)) :=
  ofLength .text (length_asBytes s) h rfl (fun _ => bind_of_ok (if_pos h) rfl)
    fun _ htag hlen hrange =>
      bind_of_ok htag (bind_of_ok hlen (bind_of_ok hrange (bind_of_ok (fromUtf8_asBytes ..) rfl)))

theorem ascii {s : String} (h : s.utf8ByteSize < 2 ^ 32) :
    Encodes (.ascii s) (Tag.ascii.byte :: (toLeBytes (.ofNat 32 s.utf8ByteSize) ++ asBytes s)) :=
  ofLength .ascii (length_asBytes s) h rfl (fun _ => bind_of_ok (if_pos h) rfl)
    fun _ htag hlen hrange =>
      bind_of_ok htag (bind_of_ok hlen (bind_of_ok hrange (bind_of_ok (fromUtf8_asBytes ..) rfl)))

theorem blob {b : List UInt8} (h : b.length < 2 ^ 32) :
    Encodes (.blob b) (Tag.blob.byte :: (toLeBytes (.ofNat 32 b.length) ++ b)) :=
  ofLength .blob rfl h rfl (fun _ => bind_of_ok (if_pos h) rfl)
    fun _ htag hlen hrange => bind_of_ok htag (bind_of_ok hlen (bind_of_ok hrange rfl))

theorem varint {digits : List UInt8} (h : digits.length < 2 ^ 32) :
    Encodes (.varint digits)
      (Tag.varint.byte :: (toLeBytes (.ofNat 32 digits.length) ++ digits)) :=
  ofLength .varint rfl h rfl (fun _ => bind_of_ok (if_pos h) rfl)
    fun _ htag hlen hrange => bind_of_ok htag (bind_of_ok hlen (bind_of_ok hrange rfl))

/-- The scale and the digits of a decimal are the data behind its length. -/
theorem decimal {d : CqlDecimal} (h : 4 + d.digits.length < 2 ^ 32) :
    Encodes (.decimal d) (Tag.decimal.byte :: (toLeBytes (.ofNat 32 (4 + d.digits.length)) ++
      (toBeBytes d.scale.toBitVec ++ d.digits))) := by
  have hscale : (toBeBytes d.scale.toBitVec).length = 4 := length_toBeBytes _
  have hlength : (toBeBytes d.scale.toBitVec ++ d.digits).length = 4 + d.digits.length := by
    rw [List.length_append, hscale]
  have hsize : encodedSize (.decimal d) =
      .ok (tagSize + varLenSize + (4 + d.digits.length)) :=
    congrArg Except.ok (Nat.add_assoc ..)
  refine ofLength .decimal hlength h hsize (fun buf => ?_) fun data htag hlen hrange => ?_
  · refine bind_of_ok (if_pos h) ?_
    rw [← List.append_assoc]
  · refine bind_of_ok htag (bind_of_ok hlen (bind_of_ok hrange ?_))
    refine bind_of_ok (range_append [] rfl hscale d.digits) (bind_of_ok (rangeFrom_append hscale _) ?_)
    rw [ofWordBe_toBeBytes (by decide)]
    rfl

end Encodes

/-- Every value that a key can have is written, skipped and read back as the same bytes. -/
theorem exists_encodes {value : CqlValue} (h : Encodable value) : ∃ bytes, Encodes value bytes := by
  cases value with
  | ascii s => exact ⟨_, .ascii h⟩
  | bigInt v => exact ⟨_, .wordLe .bigInt v.toBitVec (.bigInt <| .ofBitVec ·)⟩
  | blob b => exact ⟨_, .blob h⟩
  | boolean v => exact ⟨_, .boolean v⟩
  | counter v => exact ⟨_, .wordLe .counter v.toBitVec (.counter <| .ofBitVec ·)⟩
  | date v => exact ⟨_, .wordLe .date v.toBitVec (.date <| .ofBitVec ·)⟩
  | decimal d => exact ⟨_, .decimal h⟩
  | double bits => exact ⟨_, .wordLe .double bits.toBitVec (.double <| .ofBitVec ·)⟩
  | empty => exact ⟨_, .empty⟩
  | float bits => exact ⟨_, .wordLe .float bits.toBitVec (.float <| .ofBitVec ·)⟩
  | inet ip =>
    cases ip with
    | v4 octets => exact ⟨_, .wordBe .inetV4 octets (.inet <| .v4 ·)⟩
    | v6 octets => exact ⟨_, .wordBe .inetV6 octets (.inet <| .v6 ·)⟩
  | int v => exact ⟨_, .wordLe .int v.toBitVec (.int <| .ofBitVec ·)⟩
  | smallInt v => exact ⟨_, .wordLe .smallInt v.toBitVec (.smallInt <| .ofBitVec ·)⟩
  | text s => exact ⟨_, .text h⟩
  | time v => exact ⟨_, .wordLe .time v.toBitVec (.time <| .ofBitVec ·)⟩
  | timestamp v => exact ⟨_, .wordLe .timestamp v.toBitVec (.timestamp <| .ofBitVec ·)⟩
  | timeuuid v => exact ⟨_, .wordBe .timeuuid v .timeuuid⟩
  | tinyInt v => exact ⟨_, .wordLe .tinyInt v.toBitVec (.tinyInt <| .ofBitVec ·)⟩
  | uuid v => exact ⟨_, .wordBe .uuid v .uuid⟩
  | varint digits => exact ⟨_, .varint h⟩
  | vector elements => exact h.elim
  | nested debug => exact h.elim

end Encoded

end VectorStore
