import VectorStore.Key.Values

/-!
# Keys are their values

The bytes of a key are the count and the bytes of its values, one behind the other.  Each value lies
where the values before it end, so that a key gives back its values, one by one or all of them, and
two keys with the same bytes have the same values.  This is why a key may be taken for the list of
its values.
-/

namespace VectorStore

namespace Encoded

/-- The values that a key can have. -/
structure IsKey (values : List CqlValue) : Prop where
  length_le : values.length ≤ maxColumns
  encodable : ∀ value ∈ values, Encodable value

/-- The bytes of a value. -/
def valueBytes (value : CqlValue) : List UInt8 := (encodeValue [] value).toOption.getD []

theorem encodes_valueBytes {value : CqlValue} (h : Encodable value) :
    Encodes value (valueBytes value) := by
  obtain ⟨bytes, hbytes⟩ := exists_encodes h
  rwa [valueBytes, hbytes.write]

/-- Only values that a key can have are written. -/
theorem encodable_of_encodeValue {buf buf' : List UInt8} {value : CqlValue}
    (h : encodeValue buf value = .ok buf') : Encodable value := by
  have hlen : ∀ {len : ℕ} {message : String} {n : BitVec 32},
      tryU32 len message = .ok n → len < 2 ^ 32 := by
    intro len message n hn
    unfold tryU32 at hn
    split at hn
    · assumption
    · cases hn
  cases value with
  | text s | ascii s | blob b | varint digits | decimal d =>
    obtain ⟨n, hn, -⟩ := bind_eq_ok h
    exact hlen hn
  | vector elements | nested debug => cases h
  | _ => trivial

theorem encodable_of_foldlM {buf buf' : List UInt8} {values : List CqlValue}
    (h : values.foldlM encodeValue buf = .ok buf') : ∀ value ∈ values, Encodable value := by
  induction values generalizing buf with
  | nil => exact List.forall_mem_nil _
  | cons value values ih =>
    obtain ⟨buf₁, hvalue, hvalues⟩ := bind_eq_ok h
    exact List.forall_mem_cons.mpr ⟨encodable_of_encodeValue hvalue, ih hvalues⟩

/-! ## Writing -/

theorem pushValue_eq {value : CqlValue} (hvalue : Encodable value) (n : ℕ) (bytes : List UInt8) :
    InvariantKey.pushValue (UInt8.ofNat n :: bytes) value =
      .ok (UInt8.ofNat (n + 1) :: (bytes ++ valueBytes value)) := by
  refine bind_of_ok ((encodes_valueBytes hvalue).write _) ?_
  rw [List.cons_append, List.modify_zero_cons, UInt8.ofNat_add]
  rfl

section Writing

variable {values : List CqlValue} (h : ∀ value ∈ values, Encodable value)
include h

theorem mapM_encodedSize :
    values.mapM encodedSize = .ok (values.map fun value => (valueBytes value).length) := by
  induction values with
  | nil => rfl
  | cons value values ih =>
    obtain ⟨hvalue, hvalues⟩ := List.forall_mem_cons.mp h
    exact mapM_cons_eq_ok.mpr ⟨_, _, (encodes_valueBytes hvalue).size, ih hvalues, rfl⟩

theorem foldlM_encodeValue (buf : List UInt8) :
    values.foldlM encodeValue buf = .ok (buf ++ values.flatMap valueBytes) := by
  induction values generalizing buf with
  | nil => rw [List.flatMap_nil, List.append_nil]; rfl
  | cons value values ih =>
    obtain ⟨hvalue, hvalues⟩ := List.forall_mem_cons.mp h
    rw [List.foldlM_cons, List.flatMap_cons, ← List.append_assoc]
    exact bind_of_ok ((encodes_valueBytes hvalue).write buf) (ih hvalues _)

theorem foldlM_pushValue (n : ℕ) (bytes : List UInt8) :
    values.foldlM InvariantKey.pushValue (UInt8.ofNat n :: bytes) =
      .ok (UInt8.ofNat (n + values.length) :: (bytes ++ values.flatMap valueBytes)) := by
  induction values generalizing n bytes with
  | nil => rw [List.flatMap_nil, List.append_nil]; rfl
  | cons value values ih =>
    obtain ⟨hvalue, hvalues⟩ := List.forall_mem_cons.mp h
    rw [List.foldlM_cons, List.flatMap_cons, ← List.append_assoc, List.length_cons,
      Nat.add_comm values.length, ← Nat.add_assoc]
    exact bind_of_ok (pushValue_eq hvalue n bytes) (ih hvalues _ _)

end Writing

/-! ## Reading -/

/-- The bytes of a list of values. -/
def keyBytes (values : List CqlValue) : List UInt8 :=
  UInt8.ofNat values.length :: values.flatMap valueBytes

/-- Where a value starts in the bytes of a key. -/
def valueOffset (values : List CqlValue) (idx : ℕ) : ℕ :=
  countSize + recordOffset valueBytes values idx

section Reading

variable {values : List CqlValue} (h : ∀ value ∈ values, Encodable value)

theorem rangeFrom_valueOffset (values : List CqlValue) (idx : ℕ) :
    rangeFrom (valueOffset values idx) (keyBytes values) =
      .ok ((values.drop idx).flatMap valueBytes) := by
  have hle : valueOffset values idx ≤ (keyBytes values).length := by
    rw [valueOffset, keyBytes, List.length_cons, Nat.add_comm]
    exact Nat.add_le_add_right (recordOffset_le ..) _
  rw [rangeFrom, if_pos hle, valueOffset, keyBytes, Nat.add_comm, countSize, List.drop_succ_cons,
    drop_recordOffset]

/-- The bytes from the start of a value on start with those of the value. -/
theorem flatMap_drop {idx : ℕ} {value : CqlValue} (hget : values[idx]? = some value) :
    (values.drop idx).flatMap valueBytes =
      valueBytes value ++ (values.drop (idx + 1)).flatMap valueBytes := by
  obtain ⟨hlt, rfl⟩ := List.getElem?_eq_some_iff.mp hget
  rw [List.drop_eq_getElem_cons hlt, List.flatMap_cons]

include h

theorem skipValue_at {idx : ℕ} {value : CqlValue} (hget : values[idx]? = some value) :
    skipValue ((values.drop idx).flatMap valueBytes) = .ok (valueBytes value).length := by
  rw [flatMap_drop hget]
  exact (encodes_valueBytes (h value (List.mem_of_getElem? hget))).skip _

theorem decodeValue_at {idx : ℕ} {value : CqlValue} (hget : values[idx]? = some value) :
    decodeValue ((values.drop idx).flatMap valueBytes) =
      .ok (value, (valueBytes value).length) := by
  rw [flatMap_drop hget]
  exact (encodes_valueBytes (h value (List.mem_of_getElem? hget))).read _

/-- Skipping values leads from the start of a value to the start of another one. -/
theorem skipValues_at {n idx : ℕ} (hle : idx + n ≤ values.length) :
    InvariantKey.skipValues (keyBytes values) n (valueOffset values idx) =
      .ok (valueOffset values (idx + n)) := by
  induction n generalizing idx with
  | zero => rfl
  | succ n ih =>
    have hget : values[idx]? = some values[idx] := List.getElem?_eq_getElem (by omega)
    have hnext : valueOffset values idx + (valueBytes values[idx]).length =
        valueOffset values (idx + 1) := by
      rw [valueOffset, valueOffset, recordOffset_succ valueBytes hget, Nat.add_assoc]
    refine bind_of_ok (rangeFrom_valueOffset ..) (bind_of_ok (skipValue_at h hget) ?_)
    rw [hnext, ih (by omega), Nat.add_right_comm, Nat.add_assoc]

/-- The iterator in front of a value. -/
theorem next_at {idx : ℕ} {value : CqlValue} (hget : values[idx]? = some value) :
    InvariantKeyIter.next ⟨keyBytes values, valueOffset values idx, values.length - idx⟩ =
      .ok (some (value,
        ⟨keyBytes values, valueOffset values (idx + 1), values.length - (idx + 1)⟩)) := by
  have hlt : idx < values.length := (List.getElem?_eq_some_iff.mp hget).1
  have hpos : values.length - idx ≠ 0 := by omega
  have hnext : valueOffset values idx + (valueBytes value).length =
      valueOffset values (idx + 1) := by
    rw [valueOffset, valueOffset, recordOffset_succ valueBytes hget, Nat.add_assoc]
  rw [InvariantKeyIter.next, if_neg hpos]
  refine bind_of_ok (rangeFrom_valueOffset ..) (bind_of_ok (decodeValue_at h hget) ?_)
  dsimp only
  rw [hnext, Nat.sub_sub]

/-- The iterator in front of a value yields the value and those behind it. -/
theorem collect_at {n idx : ℕ} (hn : values.length - idx = n) :
    InvariantKeyIter.collect ⟨keyBytes values, valueOffset values idx, n⟩ =
      .ok (values.drop idx) := by
  induction n generalizing idx with
  | zero =>
    rw [List.drop_eq_nil_of_le (Nat.sub_eq_zero_iff_le.mp hn)]
    exact InvariantKeyIter.collect_of_next_none rfl
  | succ n ih =>
    have hlt : idx < values.length := by omega
    have hnext := next_at h (List.getElem?_eq_getElem hlt)
    have hn' : values.length - (idx + 1) = n := by omega
    rw [hn, hn'] at hnext
    rw [InvariantKeyIter.collect_of_next_some hnext, ih hn', List.drop_eq_getElem_cons hlt]
    rfl

end Reading

/-! ## Keys -/

/-- A value of every type. -/
def Sample.keyValues : List CqlValue :=
  [.empty, .boolean true, .tinyInt (-128), .smallInt (-256), .int 100000, .bigInt (-123456789000),
    .varint [0xff, 0], .float 0x40490fdb, .double 0x4005bf0a8b145769, .decimal ⟨[3, 0xe8], 2⟩,
    .text "hello world", .ascii "ascii", .blob [0xde, 0xad, 0xbe, 0xef], .uuid 0x1234,
    .timeuuid 0x1234, .date 19000, .time 43200000000000, .timestamp (-1700000000000),
    .inet (.v4 0x7f000001), .inet (.v6 1), .counter 42]

/-- Two keys whose decimals are equal as numbers. -/
def Sample.oneAndAHalf : List CqlValue := [.text "a", .decimal ⟨[15], 1⟩]

def Sample.oneFifty : List CqlValue := [.text "a", .decimal ⟨[0, 150], 2⟩]

namespace InvariantKey

variable {values : List CqlValue}

/-- What the key of a list of values is: every way to make it makes the same bytes, as many as the
sizes announce, and every way to read it gives back the values. -/
structure Holds (key : InvariantKey) (values : List CqlValue) : Prop where
  new : new values = .ok key
  encode : encode values = .ok key
  fromIter : fromIter values = .ok key
  size : ∃ sizes, values.mapM encodedSize = .ok sizes ∧ key.data.length = countSize + sizes.sum
  len : key.len = .ok values.length
  isEmpty : key.isEmpty = .ok values.isEmpty
  get : ∀ idx, key.get idx = .ok values[idx]?
  iter : ∃ iter, key.iter = .ok iter ∧ iter.sizeHint = (values.length, some values.length) ∧
    iter.collect = .ok values

theorem length_keyBytes (values : List CqlValue) : (keyBytes values).length =
    countSize + (values.map fun value => (valueBytes value).length).sum := by
  rw [keyBytes, List.length_cons, List.length_flatMap, Nat.add_comm]
  rfl

theorem encode_eq (h : IsKey values) : encode values = .ok ⟨keyBytes values⟩ := by
  have hcount : decide (values.length ≤ maxColumns) = true := decide_eq_true h.length_le
  have htotal : decide ((keyBytes values).length =
      countSize + (values.map fun value => (valueBytes value).length).sum) = true :=
    decide_eq_true (length_keyBytes values)
  refine bind_of_ok (if_pos hcount) (bind_of_ok (mapM_encodedSize h.encodable) ?_)
  exact bind_of_ok (foldlM_encodeValue h.encodable _) (bind_of_ok (if_pos htotal) rfl)

theorem new_eq (h : IsKey values) : new values = .ok ⟨keyBytes values⟩ :=
  bind_of_ok (if_pos (decide_eq_true h.length_le)) (encode_eq h)

theorem fromIter_eq (h : ∀ value ∈ values, Encodable value) :
    fromIter values = .ok ⟨keyBytes (values.take maxColumns)⟩ := by
  have htake : ∀ value ∈ values.take maxColumns, Encodable value := fun value hmem =>
    h value (List.mem_of_mem_take hmem)
  have hfold := foldlM_pushValue htake 0 []
  rw [Nat.zero_add, List.nil_append] at hfold
  exact bind_of_ok hfold rfl

theorem len_eq (h : values.length ≤ maxColumns) :
    len ⟨keyBytes values⟩ = .ok values.length := by
  have hlt : values.length < 2 ^ 8 := Nat.lt_succ_of_le h
  refine bind_of_ok (index_cons ..) ?_
  rw [UInt8.toNat_ofNat', Nat.mod_eq_of_lt hlt]

theorem isEmpty_eq (h : values.length ≤ maxColumns) :
    isEmpty ⟨keyBytes values⟩ = .ok values.isEmpty := by
  have hlt : values.length < 2 ^ 8 := Nat.lt_succ_of_le h
  refine bind_of_ok (index_cons ..) (congrArg Except.ok ?_)
  rw [Bool.eq_iff_iff, beq_iff_eq, ← UInt8.toNat_inj, UInt8.toNat_ofNat', Nat.mod_eq_of_lt hlt,
    List.isEmpty_iff, ← List.length_eq_zero_iff]
  rfl

theorem get_eq (h : IsKey values) (idx : ℕ) : get ⟨keyBytes values⟩ idx = .ok values[idx]? := by
  refine bind_of_ok (len_eq h.length_le) ?_
  by_cases hlt : idx < values.length
  · have hget : values[idx]? = some values[idx] := List.getElem?_eq_getElem hlt
    have hskip := @skipValues_at values h.encodable idx 0 (by omega)
    rw [Nat.zero_add] at hskip
    rw [if_neg (not_le.mpr hlt)]
    refine bind_of_ok hskip (bind_of_ok (rangeFrom_valueOffset ..) ?_)
    exact bind_of_ok (decodeValue_at h.encodable hget) (congrArg Except.ok hget.symm)
  · rw [if_pos (not_lt.mp hlt), List.getElem?_eq_none (not_lt.mp hlt)]

theorem iter_eq (h : IsKey values) :
    ∃ iter, InvariantKey.iter ⟨keyBytes values⟩ = .ok iter ∧
      iter.sizeHint = (values.length, some values.length) ∧ iter.collect = .ok values :=
  ⟨⟨keyBytes values, valueOffset values 0, values.length⟩, bind_of_ok (len_eq h.length_le) rfl, rfl,
    collect_at h.encodable rfl⟩

theorem holds_keyBytes (h : IsKey values) : Holds ⟨keyBytes values⟩ values where
  new := new_eq h
  encode := encode_eq h
  fromIter := by rw [fromIter_eq h.encodable, List.take_of_length_le h.length_le]
  size := ⟨_, mapM_encodedSize h.encodable, length_keyBytes values⟩
  len := len_eq h.length_le
  isEmpty := isEmpty_eq h.length_le
  get := get_eq h
  iter := iter_eq h

/-- A key has the values of one list only. -/
theorem Holds.unique {key : InvariantKey} {values values' : List CqlValue} (h : Holds key values)
    (h' : Holds key values') : values = values' := by
  obtain ⟨iter, hiter, -, hvalues⟩ := h.iter
  obtain ⟨iter', hiter', -, hvalues'⟩ := h'.iter
  cases hiter.symm.trans hiter'
  exact Except.ok.inj (hvalues.symm.trans hvalues')

theorem encode_inj {values values' : List CqlValue} (h : IsKey values) (h' : IsKey values') :
    encode values = encode values' ↔ values = values' := by
  refine ⟨fun heq => ?_, fun heq => congrArg encode heq⟩
  have hbytes : InvariantKey.mk (keyBytes values) = ⟨keyBytes values'⟩ :=
    Except.ok.inj ((encode_eq h).symm.trans (heq.trans (encode_eq h')))
  exact (holds_keyBytes h).unique (hbytes ▸ holds_keyBytes h')

/-- A key is made of the values of a key only: any other list panics. -/
theorem exists_new_iff : (∃ key, new values = .ok key) ↔ IsKey values := by
  constructor
  · rintro ⟨key, hkey⟩
    obtain ⟨_, hlength, hkey⟩ := bind_eq_ok hkey
    obtain ⟨_, _, hkey⟩ := bind_eq_ok hkey
    obtain ⟨sizes, _, hkey⟩ := bind_eq_ok hkey
    obtain ⟨buf, hbuf, _⟩ := bind_eq_ok hkey
    refine ⟨?_, encodable_of_foldlM hbuf⟩
    unfold assert at hlength
    split at hlength
    · next hle => exact of_decide_eq_true hle
    · cases hlength
  · intro h
    exact ⟨_, new_eq h⟩

/-- The bytes of a key stand for the list of values that the tables take for it. -/
theorem fromIter_holds (h : ∀ value ∈ values, Encodable value) :
    ∃ key, fromIter values = .ok key ∧ Holds key (VectorStore.InvariantKey.fromIter values).values := by
  have hkey : IsKey (values.take maxColumns) :=
    ⟨List.length_take_le .., fun value hmem => h value (List.mem_of_mem_take hmem)⟩
  exact ⟨_, fromIter_eq h, holds_keyBytes hkey⟩

/-- Keys are their values: the bytes of a list of values give back the values, each value is
written, announced, skipped and read as the same bytes wherever it lies, and lists of values have
the same bytes only if they are the same.  No other list makes a key, and the values that the tables
take for a key are those of its bytes. -/
theorem faithful_codec :
    (∀ values, IsKey values → ∃ key, Holds key values) ∧
      (∀ value, Encodable value → ∃ bytes, Encodes value bytes) ∧
      (∀ values values', IsKey values → IsKey values' →
        (encode values = encode values' ↔ values = values')) ∧
      (∀ values, (∃ key, new values = .ok key) ↔ IsKey values) ∧
      ∀ values, (∀ value ∈ values, Encodable value) → ∃ key, fromIter values = .ok key ∧
        Holds key (VectorStore.InvariantKey.fromIter values).values :=
  ⟨fun _ h => ⟨_, holds_keyBytes h⟩, fun _ h => exists_encodes h, fun _ _ h h' => encode_inj h h',
    fun _ => exists_new_iff, fun _ h => fromIter_holds h⟩

theorem isKey_sample : IsKey Sample.keyValues := by
  refine ⟨by decide, fun value hmem => ?_⟩
  fin_cases hmem <;> (unfold Encodable; decide +kernel)

/-- Two keys that are equal as numbers have different bytes. -/
theorem faithful_codec_sample :
    (∃ key, Holds key Sample.keyValues) ∧
      (∃ bytes, Encodes (.decimal ⟨[3, 0xe8], 2⟩) bytes) ∧
      (encode Sample.oneAndAHalf = encode Sample.oneFifty ↔
        Sample.oneAndAHalf = Sample.oneFifty) ∧
      ((∃ key, new Sample.oneFifty = .ok key) ↔ IsKey Sample.oneFifty) ∧
      ∃ key, fromIter Sample.oneFifty = .ok key ∧
        Holds key (VectorStore.InvariantKey.fromIter Sample.oneFifty).values := by
  have hkey : IsKey Sample.oneAndAHalf ∧ IsKey Sample.oneFifty := by
    constructor <;>
    · refine ⟨by decide, fun value hmem => ?_⟩
      fin_cases hmem <;> (unfold Encodable; decide +kernel)
  obtain ⟨hholds, hencodes, hinj, hnew, hiter⟩ := faithful_codec
  exact ⟨hholds _ isKey_sample, hencodes _ (by unfold Encodable; decide),
    hinj _ _ hkey.1 hkey.2, hnew _, hiter _ hkey.2.encodable⟩

end InvariantKey

end Encoded

end VectorStore
