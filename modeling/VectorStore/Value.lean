import Mathlib.Tactic

/-!
# Values, keys and names

The CQL values a table stores, the keys built from them, and the values read from the database
for an index.  Floats are bit patterns, as the encoded keys compare bytes.  An `InvariantKey` is
its list of values: the byte encoding keeps at most 255 of them.
-/

namespace VectorStore

/-- How an operation of the program fails: it returns an error, or it panics. -/
inductive Failure where
  | error (message : String)
  | panic (message : String)
deriving DecidableEq

/-- A sequence of two steps that succeeded. -/
theorem bind_eq_ok {ε α β : Type} {x : Except ε α} {f : α → Except ε β} {b : β}
    (h : (x >>= f) = .ok b) : ∃ a, x = .ok a ∧ f a = .ok b := by
  cases x with
  | error e => cases h
  | ok a => exact ⟨a, rfl, h⟩

/-- An image of a step that succeeded. -/
theorem map_eq_ok {ε α β : Type} {x : Except ε α} {f : α → β} {b : β} (h : x.map f = .ok b) :
    ∃ a, x = .ok a ∧ f a = b := by
  cases x with
  | error e => cases h
  | ok a => exact ⟨a, rfl, Except.ok.inj h⟩

/-- A traversal of a list succeeds when its first step and the rest do. -/
theorem mapM_cons_eq_ok {ε α β : Type} {f : α → Except ε β} {x : α} {xs : List α} {ys : List β} :
    (x :: xs).mapM f = .ok ys ↔ ∃ y ys', f x = .ok y ∧ xs.mapM f = .ok ys' ∧ ys = y :: ys' := by
  rw [List.mapM_cons]
  constructor
  · intro h
    obtain ⟨y, hy, h⟩ := bind_eq_ok h
    obtain ⟨ys', hys, h⟩ := bind_eq_ok h
    exact ⟨y, ys', hy, hys, (Except.ok.inj h).symm⟩
  · rintro ⟨y, ys', hy, hys, rfl⟩
    rw [hy, hys]
    rfl

/-- A traversal fails with the error of an element. -/
theorem exists_of_mapM_eq_error {ε α β : Type} {f : α → Except ε β} {xs : List α} {e : ε}
    (h : xs.mapM f = .error e) : ∃ x ∈ xs, f x = .error e := by
  induction xs with
  | nil => cases h
  | cons x xs ih =>
    cases hx : f x with
    | error e' =>
      rw [List.mapM_cons, hx] at h
      obtain rfl := Except.error.inj h
      exact ⟨x, List.mem_cons_self, hx⟩
    | ok y =>
      cases hxs : xs.mapM f with
      | error e' =>
        rw [List.mapM_cons, hx, hxs] at h
        obtain rfl := Except.error.inj h
        obtain ⟨x', hmem, hx'⟩ := ih hxs
        exact ⟨x', List.mem_cons_of_mem x hmem, hx'⟩
      | ok ys =>
        rw [List.mapM_cons, hx, hxs] at h
        cases h

/-- A traversal that succeeded relates every element to its image. -/
theorem forall₂_of_mapM {ε α β : Type} {f : α → Except ε β} {xs : List α} {ys : List β}
    (h : xs.mapM f = .ok ys) : List.Forall₂ (fun x y => f x = .ok y) xs ys := by
  induction xs generalizing ys with
  | nil =>
    obtain rfl := Except.ok.inj h
    exact .nil
  | cons x xs ih =>
    obtain ⟨y, ys', hy, hys, rfl⟩ := mapM_cons_eq_ok.mp h
    exact .cons hy (ih hys)

section Options

variable {α β : Type} {f g : α → Option β} {xs : List α}

/-- A list of options has values when all its elements have. -/
theorem isSome_mapM_iff : (xs.mapM f).isSome ↔ ∀ x ∈ xs, (f x).isSome := by
  induction xs with
  | nil => simp
  | cons x xs ih =>
    rw [List.mapM_cons, List.forall_mem_cons, ← ih]
    cases f x with
    | none => simp
    | some y =>
      cases xs.mapM f with
      | none => simp
      | some ys => simp

/-- A traversal depends on the images of the elements only. -/
theorem mapM_option_congr (h : ∀ x ∈ xs, f x = g x) : xs.mapM f = xs.mapM g := by
  induction xs with
  | nil => rfl
  | cons x xs ih =>
    obtain ⟨hx, hxs⟩ := List.forall_mem_cons.mp h
    rw [List.mapM_cons, List.mapM_cons, hx, ih hxs]

end Options

/-! ## Names -/

/-- The name of a column. -/
structure ColumnName where
  name : String
deriving DecidableEq

/-- The key of an index, `keyspace.index`. -/
structure IndexKey where
  name : String
deriving DecidableEq

/-- `IndexKey::new`. -/
def IndexKey.new (keyspace index : String) : IndexKey := ⟨s!"{keyspace}.{index}"⟩

/-! ## CQL types and values -/

/-- The native types of CQL columns. -/
inductive NativeType where
  | ascii
  | boolean
  | blob
  | counter
  | date
  | decimal
  | double
  | duration
  | float
  | int
  | bigInt
  | text
  | timestamp
  | inet
  | smallInt
  | tinyInt
  | time
  | timeuuid
  | uuid
  | varint
deriving DecidableEq

/-- The name of a native type, as the error messages print it. -/
def NativeType.debug : NativeType → String
  | ascii => "Ascii"
  | boolean => "Boolean"
  | blob => "Blob"
  | counter => "Counter"
  | date => "Date"
  | decimal => "Decimal"
  | double => "Double"
  | duration => "Duration"
  | float => "Float"
  | int => "Int"
  | bigInt => "BigInt"
  | text => "Text"
  | timestamp => "Timestamp"
  | inet => "Inet"
  | smallInt => "SmallInt"
  | tinyInt => "TinyInt"
  | time => "Time"
  | timeuuid => "Timeuuid"
  | uuid => "Uuid"
  | varint => "Varint"

/-- A CQL decimal: the digits as a big-endian two's complement number, and the scale. -/
structure CqlDecimal where
  digits : List UInt8
  scale : Int32
deriving DecidableEq

/-- An IP address. -/
inductive IpAddr where
  | v4 (octets : BitVec 32)
  | v6 (octets : BitVec 128)
deriving DecidableEq

/-- An element of a CQL vector; the code tells floats from everything else. -/
inductive VectorElement where
  | float (bits : UInt32)
  | other (debug : String)
deriving DecidableEq

/-- A CQL value.  `nested` stands for the collections, tuples, user types and durations, which the
code only ever rejects. -/
inductive CqlValue where
  | ascii (value : String)
  | bigInt (value : Int64)
  | blob (value : List UInt8)
  | boolean (value : Bool)
  | counter (value : Int64)
  | date (value : UInt32)
  | decimal (value : CqlDecimal)
  | double (bits : UInt64)
  | empty
  | float (bits : UInt32)
  | inet (value : IpAddr)
  | int (value : Int32)
  | smallInt (value : Int16)
  | text (value : String)
  | time (value : Int64)
  | timestamp (value : Int64)
  | timeuuid (value : BitVec 128)
  | tinyInt (value : Int8)
  | uuid (value : BitVec 128)
  | varint (digits : List UInt8)
  | vector (elements : List VectorElement)
  | nested (debug : String)
deriving DecidableEq

/-- The native type whose column stores the value, for the types a column can have. -/
def CqlValue.nativeType : CqlValue → Option NativeType
  | ascii _ => some .ascii
  | bigInt _ => some .bigInt
  | blob _ => some .blob
  | boolean _ => some .boolean
  | date _ => some .date
  | decimal _ => some .decimal
  | double _ => some .double
  | float _ => some .float
  | inet _ => some .inet
  | int _ => some .int
  | smallInt _ => some .smallInt
  | text _ => some .text
  | time _ => some .time
  | timestamp _ => some .timestamp
  | timeuuid _ => some .timeuuid
  | tinyInt _ => some .tinyInt
  | uuid _ => some .uuid
  | varint _ => some .varint
  | counter _ | empty | vector _ | nested _ => none

/-! ## Lists with a first element -/

/-- `NonemptyBox` and `NonemptyArc`: a list with at least one element. -/
structure NonemptyBox (α : Type*) where
  first : α
  rest : List α
deriving DecidableEq

namespace NonemptyBox

variable {α : Type*}

/-- The elements in order. -/
def toList (xs : NonemptyBox α) : List α := xs.first :: xs.rest

/-- The number of elements. -/
def length (xs : NonemptyBox α) : Nat := xs.toList.length

/-- The list with its first element replaced by its image. -/
def modifyFirst (xs : NonemptyBox α) (f : α → α) : NonemptyBox α := ⟨f xs.first, xs.rest⟩

end NonemptyBox

/-! ## Keys -/

/-- An `InvariantKey`: at most 255 values. -/
structure InvariantKey where
  values : List CqlValue
  length_le : values.length ≤ 255
deriving DecidableEq

namespace InvariantKey

/-- `InvariantKey::from_iter` keeps the first 255 values. -/
def fromIter (values : List CqlValue) : InvariantKey :=
  ⟨values.take 255, by simp⟩

/-- The number of values. -/
def len (key : InvariantKey) : Nat := key.values.length

/-- The value at an index. -/
def get (key : InvariantKey) (idx : Nat) : Option CqlValue := key.values[idx]?

end InvariantKey

/-- The primary key of a row. -/
structure PrimaryKey where
  key : InvariantKey
deriving DecidableEq

/-- `PrimaryKey::from_iter`. -/
def PrimaryKey.fromIter (values : List CqlValue) : PrimaryKey := ⟨.fromIter values⟩

/-- The number of values of a primary key. -/
def PrimaryKey.len (key : PrimaryKey) : Nat := key.key.len

/-- The value of a primary key at an index. -/
def PrimaryKey.get (key : PrimaryKey) (idx : Nat) : Option CqlValue := key.key.get idx

/-- The key of a partition of a local index. -/
structure PartitionKey where
  key : InvariantKey
deriving DecidableEq

/-- `PartitionKey::from_iter`. -/
def PartitionKey.fromIter (values : List CqlValue) : PartitionKey := ⟨.fromIter values⟩

/-! ## Values read for an index -/

/-- A vector of 32-bit floats, as bit patterns. -/
structure Vector where
  components : List UInt32
deriving DecidableEq

/-- The value read from a CDC row or from the full scan. -/
inductive DbIndexedValue where
  | vector (value : Vector)
  | document (value : String)
  | filtering (value : CqlValue)
deriving DecidableEq

/-- The value an index stores for a row: `SplittingValues`. -/
inductive SplittingValues where
  | vector (value : Vector)
  | document (value : String)
deriving DecidableEq

/-! ## Normalization of clustering keys -/

/-- `BigDecimal::from(d).normalized()` converted back to a `CqlDecimal`, a function of the
`bigdecimal` crate.  `none` stands for a scale that does not fit. -/
class DecimalNormalizer where
  normalized : CqlDecimal → Option CqlDecimal

/-- `primary_key::normalize`: only decimals change. -/
def normalize [DecimalNormalizer] : CqlValue → Except Failure CqlValue
  | .decimal d =>
    match DecimalNormalizer.normalized d with
    | some normalized => .ok (.decimal normalized)
    | none => .error (.panic "normalized decimal scale fits i32")
  | other => .ok other

end VectorStore
