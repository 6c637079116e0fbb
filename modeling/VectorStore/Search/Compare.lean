import VectorStore.Value

/-!
# Comparison of CQL values

`cmp` orders two values of one type, where the type has an order the code knows.  Floats compare as
numbers, so that the two zeros are equal and a NaN compares with nothing; varints and decimals
compare as numbers, whatever bytes encode them.
-/

namespace VectorStore

/-! ## Numbers -/

/-- The order of floats on bit patterns, given the sign bit and the pattern of infinity. -/
def floatPartialCmp (sign infinity : ℕ) (a b : ℕ) : Option Ordering :=
  let isNaN (bits : ℕ) : Bool := bits % sign > infinity
  let key (bits : ℕ) : ℤ := if bits < sign then bits else -(bits - sign : ℕ)
  if isNaN a || isNaN b then none else some (compare (key a) (key b))

/-- `BigInt::from_signed_bytes_be` of the crate `num-bigint`, as documented: a big-endian two's
complement number. -/
def signedBytesBe (digits : List UInt8) : ℤ :=
  let unsigned : ℕ := digits.foldl (fun acc digit => acc * 256 + digit.toNat) 0
  match digits with
  | [] => 0
  | first :: _ => if first < 128 then unsigned else unsigned - 256 ^ digits.length

/-- `BigDecimal: Ord` of the crate `bigdecimal`, as documented: decimals compare as numbers, here by
the digits at the greater of the two scales. -/
def CqlDecimal.cmp (a b : CqlDecimal) : Ordering :=
  let scale := max a.scale.toInt b.scale.toInt
  let digits (d : CqlDecimal) : ℤ := signedBytesBe d.digits * 10 ^ (scale - d.scale.toInt).toNat
  compare (digits a) (digits b)

/-! ## Addresses and identifiers -/

/-- The bytes of a word, from the first to the last. -/
def bytesBe (size : ℕ) (bits : ℕ) : List ℕ :=
  (List.range size).map fun i => bits / 256 ^ (size - 1 - i) % 256

/-- The octets of an address. -/
def IpAddr.octets : IpAddr → List ℕ
  | v4 octets => bytesBe 4 octets.toNat
  | v6 octets => bytesBe 16 octets.toNat

/-- `inet_cmp`. -/
def inetCmp (lhs rhs : IpAddr) : Ordering := compare lhs.octets rhs.octets

/-- `uuid_timeuuid_msb`, on the first eight bytes. -/
def uuidTimeuuidMsb (bytes : List ℕ) : ℕ :=
  let byte (i : ℕ) : ℕ := bytes.getD i 0
  [byte 6 % 16, byte 7, byte 4, byte 5, byte 0, byte 1, byte 2, byte 3].foldl
    (fun acc byte => acc * 256 + byte) 0

/-- `uuid_cmp`. -/
def uuidCmp (a b : BitVec 128) : Ordering :=
  let a := bytesBe 16 a.toNat
  let b := bytesBe 16 b.toNat
  let va := a.getD 6 0 / 16
  let vb := b.getD 6 0 / 16
  if va ≠ vb then compare va vb
  else if va = 1 then
    (compare (uuidTimeuuidMsb a) (uuidTimeuuidMsb b)).then (compare (a.drop 8) (b.drop 8))
  else compare a b

/-- `CqlTimeuuid: Ord`, a function of the driver. -/
class TimeuuidOrd where
  cmp : BitVec 128 → BitVec 128 → Ordering

/-! ## Values -/

/-- `cql_types::cmp`.  `none` matches no row. -/
def CqlValue.cmp [TimeuuidOrd] : CqlValue → CqlValue → Option Ordering
  | .tinyInt a, .tinyInt b => some (compare a.toInt b.toInt)
  | .smallInt a, .smallInt b => some (compare a.toInt b.toInt)
  | .int a, .int b => some (compare a.toInt b.toInt)
  | .bigInt a, .bigInt b => some (compare a.toInt b.toInt)
  | .float a, .float b => floatPartialCmp (2 ^ 31) 0x7f800000 a.toNat b.toNat
  | .double a, .double b => floatPartialCmp (2 ^ 63) 0x7ff0000000000000 a.toNat b.toNat
  | .counter a, .counter b => some (compare a.toInt b.toInt)
  | .varint a, .varint b => some (compare (signedBytesBe a) (signedBytesBe b))
  | .decimal a, .decimal b => some (a.cmp b)
  | .text a, .text b => some (compare a b)
  | .ascii a, .ascii b => some (compare a b)
  | .date a, .date b => some (compare a.toNat b.toNat)
  | .time a, .time b => some (compare a.toInt b.toInt)
  | .timestamp a, .timestamp b => some (compare a.toInt b.toInt)
  | .inet a, .inet b => some (inetCmp a b)
  | .blob a, .blob b => some (compare (a.map UInt8.toNat) (b.map UInt8.toNat))
  | .boolean a, .boolean b => some (compare a b)
  | .timeuuid a, .timeuuid b => some (TimeuuidOrd.cmp a b)
  | .uuid a, .uuid b => some (uuidCmp a b)
  | _, _ => none

/-- The values compare equal. -/
def CqlValue.CmpEq [TimeuuidOrd] (a b : CqlValue) : Prop := a.cmp b = some .eq

instance [TimeuuidOrd] (a b : CqlValue) : Decidable (a.CmpEq b) :=
  inferInstanceAs (Decidable (a.cmp b = some .eq))

/-- What `CqlTimeuuid` compares, as documented: the timestamp, then the last eight bytes, each of them
as a signed one. -/
def Sample.timeuuidKey (id : BitVec 128) : List ℕ :=
  let bytes := bytesBe 16 id.toNat
  uuidTimeuuidMsb bytes :: (bytes.drop 8).map fun byte => (byte + 128) % 256

/-- The documented order of `CqlTimeuuid`. -/
@[reducible] def Sample.timeuuids : TimeuuidOrd :=
  ⟨fun a b => compare (Sample.timeuuidKey a) (Sample.timeuuidKey b)⟩

end VectorStore
