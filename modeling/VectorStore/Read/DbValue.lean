import VectorStore.Value

/-!
# Values read from the database

A value of a row arrives as a `DbValue`: an embedding that the driver decoded, or any other CQL
value.  An Alternator table keeps its attributes as blobs with a one-byte tag; what is behind the
tag is decoded here, except for the parts that the driver and the JSON reader do.
-/

namespace VectorStore

/-- What the code takes from the driver and from the JSON reader. -/
class Driver where
  /-- `CqlValue::deserialize` for a native type; the error as it is printed. -/
  deserialize : NativeType → List UInt8 → Except String CqlValue
  /-- A JSON list of numbers as 32-bit floats; the error as it is printed. -/
  parseJson : List UInt8 → Except String (List UInt32)
  /-- A CQL value as `{:?}` prints it. -/
  debugValue : CqlValue → String
  /-- A list of floats as `{:?}` prints it. -/
  debugFloats : List UInt32 → String

/-- A single value of a row. -/
inductive DbValue where
  /-- A value of a native vector column. -/
  | vector (value : Vector)
  /-- Any other value. -/
  | value (value : CqlValue)
deriving DecidableEq

/-- A value as `{:?}` prints it. -/
def DbValue.debug [Driver] : DbValue → String
  | vector v => s!"Vector(Vector({Driver.debugFloats v.components}))"
  | value v => s!"Value({Driver.debugValue v})"

/-! ## Alternator values -/

namespace Alternator

/-- String values. -/
def typeS : UInt8 := 0

/-- Bytes values. -/
def typeB : UInt8 := 1

/-- Number values. -/
def typeN : UInt8 := 3

/-- Unoptimized JSON values. -/
def typeJson : UInt8 := 4

/-- Sequential 32-bit floats. -/
def typeFloat32Vector : UInt8 := 5

/-- A byte as `{:#04x}` prints it. -/
def hex (byte : UInt8) : String :=
  let digits := Nat.toDigits 16 byte.toNat
  String.ofList (['0', 'x'] ++ List.replicate (2 - digits.length) '0' ++ digits)

/-- The tag of the values of a native type. -/
def expectedTag : NativeType → Except String UInt8
  | .text | .ascii => .ok typeS
  | .blob => .ok typeB
  | .decimal => .ok typeN
  | other => .error <| s!"unsupported native type {other.debug} for an Alternator " ++
      "filtering/partition-key attribute"

/-- `parse_alternator_scalar`. -/
def parseScalar [Driver] (bytes : List UInt8) (nativeType : NativeType) : Except String CqlValue := do
  let expected ← expectedTag nativeType
  match bytes with
  | [] => .error "empty blob for Alternator attribute value"
  | tag :: payload =>
    if tag ≠ expected then
      .error <| s!"Alternator attribute value has type tag {hex tag}, but column is declared as " ++
        s!"{nativeType.debug} (expected tag {hex expected})"
    else
      match Driver.deserialize nativeType payload with
      | .ok value => .ok value
      | .error err => .error <|
          s!"failed to decode Alternator attribute value as {nativeType.debug}: {err}"

/-- The 32-bit words of a list of bytes, big end first. -/
def words : List UInt8 → List UInt32
  | a :: b :: c :: d :: rest =>
    (a.toUInt32 <<< 24 ||| b.toUInt32 <<< 16 ||| c.toUInt32 <<< 8 ||| d.toUInt32) :: words rest
  | _ => []

/-- `parse_alternator_vector_binary`. -/
def parseVectorBinary (bytes : List UInt8) : Except String (List UInt32) :=
  if bytes.length % 4 ≠ 0 then
    .error <| s!"invalid Alternator vector encoding: byte length {bytes.length} is not a " ++
      "multiple of 4"
  else .ok (words bytes)

/-- `parse_alternator_vector`. -/
def parseVector [Driver] : List UInt8 → Except String (List UInt32)
  | [] => .error "empty blob for Alternator attribute value"
  | tag :: payload =>
    if tag = typeFloat32Vector then parseVectorBinary payload
    else if tag = typeJson then Driver.parseJson payload
    else .error s!"unsupported Alternator type tag: {hex tag}"

end Alternator

/-! ## Vectors -/

/-- The float of an element of a CQL vector. -/
def VectorElement.tryFloat : VectorElement → Except String UInt32
  | float bits => .ok bits
  | other debug => .error s!"bad type of embedding element: expected float, got {debug}"

/-- `Vector::try_from`. -/
def Vector.tryFrom [Driver] : CqlValue → Except String Vector
  | .vector elements => return ⟨← elements.mapM VectorElement.tryFloat⟩
  | .blob bytes => return ⟨← Alternator.parseVector bytes⟩
  | other => .error s!"unsupported CQL type for embedding column: {Driver.debugValue other}"

namespace Sample

/-- A driver for rows without Alternator values. -/
@[reducible] def driver : Driver where
  deserialize _ _ := .error "not an Alternator table"
  parseJson _ := .error "not an Alternator table"
  debugValue _ := ""
  debugFloats _ := ""

end Sample

end VectorStore
