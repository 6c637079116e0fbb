import VectorStore.Read.DbValue
import VectorStore.Timestamp

/-!
# Parsing the values of a row

A query for an index selects, for each target and filtering column, the value and its write time.
`parseValues` reads the columns in pairs: the value as its column is indexed, and the write time
as the `Timestamp` of the value, or a default one where the database has none.
-/

namespace VectorStore

/-- The kind of an index, without its options. -/
inductive IndexKind where
  | vs
  | fts
  | pattern
deriving DecidableEq

/-- The items of a list in chunks of two; the last chunk may have one item only. -/
def chunks {α : Type} : List α → List (List α)
  | [] => []
  | [x] => [[x]]
  | x :: y :: rest => [x, y] :: chunks rest

/-- A list of pairs has the pairs as its chunks. -/
theorem chunks_flatMap {α β : Type} (f g : α → β) (xs : List α) :
    chunks (xs.flatMap fun x => [f x, g x]) = xs.map fun x => [f x, g x] := by
  induction xs with
  | nil => rfl
  | cons x xs ih =>
    rw [List.flatMap_cons, List.map_cons, ← ih]
    rfl

section Parse

variable [Driver]

/-- `filtering_value`. -/
def filteringValue : DbValue → Except String CqlValue
  | .value value => .ok value
  | .vector _ => .error "parse_values: unexpected vector value of a filtering column"

/-- The text of a value of a text column. -/
def parseDocument : DbValue → Except String DbIndexedValue
  | .value (.text s) | .value (.ascii s) => .ok (.document s)
  | other => .error s!"parse_indexed_value: expected text column, got {other.debug}"

/-- `parse_indexed_value`. -/
def parseIndexedValue (value : DbValue) : IndexKind → Except String DbIndexedValue
  | .vs =>
    match value with
    | .vector vector => .ok (.vector vector)
    | .value value =>
      match Vector.tryFrom value with
      | .ok vector => .ok (.vector vector)
      | .error err => .error s!"parse_indexed_value: {err}"
  | .fts => parseDocument value
  | .pattern => parseDocument value

/-- A value of a filtering column; the raw value of a virtual Alternator attribute is decoded. -/
def parseFilteringValue (value : DbValue) (nativeType : Option NativeType) :
    Except String DbIndexedValue := do
  match ← filteringValue value, nativeType with
  | .blob bytes, some nativeType => return .filtering (← Alternator.parseScalar bytes nativeType)
  | value, _ => return .filtering value

/-- A value of the column at an index: the target columns come first. -/
def parseColumn (kind : IndexKind) (targetColumnsLen : ℕ+)
    (alternatorDecodeTypes : List (Option NativeType)) (idx : Nat) (value : DbValue) :
    Except String DbIndexedValue :=
  if idx < targetColumnsLen then parseIndexedValue value kind
  else parseFilteringValue value (alternatorDecodeTypes[idx - targetColumnsLen]?).join

omit [Driver] in
/-- The timestamp of a write time, with the signed number of microseconds cast to an unsigned
one. -/
def parseWritetime (defaultTimestamp : Timestamp) : Option DbValue → Except String Timestamp
  | some (.value (.bigInt timestamp)) => .ok (.fromMicros timestamp.toUInt64.toNat)
  | some _ => .error "parse_values: bad type of a writetime"
  | none => .ok defaultTimestamp

/-- The value and the timestamp of a chunk. -/
def parseChunk (defaultTimestamp : Timestamp) (kind : IndexKind) (targetColumnsLen : ℕ+)
    (alternatorDecodeTypes : List (Option NativeType)) (idx : Nat) (chunk : List (Option DbValue)) :
    Except String (Timestamped DbIndexedValue) := do
  match chunk with
  | [] => .error "parse_values: unable to get column value from chunk"
  | value :: chunk =>
    let value ← value.mapM (parseColumn kind targetColumnsLen alternatorDecodeTypes idx)
    match chunk with
    | [] => .error "parse_values: unable to get timestamp value from chunk"
    | timestamp :: _ => return .new (← parseWritetime defaultTimestamp timestamp) value

/-- `parse_values`. -/
def parseValues (columns : List (Option DbValue)) (defaultTimestamp : Option Timestamp)
    (targetColumnsLen : ℕ+) (kind : IndexKind) (alternatorDecodeTypes : List (Option NativeType)) :
    Except Failure (NonemptyBox (Timestamped DbIndexedValue)) :=
  let defaultTimestamp := defaultTimestamp.getD .min
  match (chunks columns).zipIdx.mapM fun (chunk, idx) =>
      parseChunk defaultTimestamp kind targetColumnsLen alternatorDecodeTypes idx chunk with
  | .error err => .error (.error err)
  | .ok values =>
    if targetColumnsLen > values.length then
      .error <| .error <| s!"parse_values: target len ({targetColumnsLen.val}) is greater than " ++
        s!"values len ({values.length})"
    else
      match values with
      | [] => .error <| .panic <| "called `Result::unwrap()` on an `Err` value: " ++
        "Cannot create NonemptyBox from empty Box"
      | first :: rest => .ok ⟨first, rest⟩

/-! ## What is parsed -/

variable {defaultTimestamp : Option Timestamp} {kind : IndexKind} {targetColumnsLen : ℕ+}
  {alternatorDecodeTypes : List (Option NativeType)} {columns : List (Option DbValue)}

/-- What a column that could be parsed holds. -/
def columnContent (kind : IndexKind) (targetColumnsLen : ℕ+)
    (alternatorDecodeTypes : List (Option NativeType)) (idx : Nat) (value : Option DbValue) :
    Option DbIndexedValue :=
  value.bind fun v => (parseColumn kind targetColumnsLen alternatorDecodeTypes idx v).toOption

/-- What a target column holds. -/
theorem columnContent_of_lt {idx : Nat} (h : idx < targetColumnsLen) (value : Option DbValue) :
    columnContent kind targetColumnsLen alternatorDecodeTypes idx value =
      value.bind fun v => (parseIndexedValue v kind).toOption := by
  unfold columnContent parseColumn
  simp only [if_pos h]

/-- What any other column holds. -/
theorem columnContent_of_le {idx : Nat} (h : (targetColumnsLen : Nat) ≤ idx)
    (value : Option DbValue) :
    columnContent kind targetColumnsLen alternatorDecodeTypes idx value = value.bind fun v =>
      (parseFilteringValue v (alternatorDecodeTypes[idx - targetColumnsLen]?).join).toOption := by
  unfold columnContent parseColumn
  simp only [if_neg (not_lt.mpr h)]

/-- A chunk of two items that could be parsed. -/
theorem parseChunk_eq_ok {defaultTimestamp : Timestamp} {idx : Nat}
    {value timestamp : Option DbValue} {parsed : Timestamped DbIndexedValue}
    (h : parseChunk defaultTimestamp kind targetColumnsLen alternatorDecodeTypes idx
      [value, timestamp] = .ok parsed) :
    parsed.value = columnContent kind targetColumnsLen alternatorDecodeTypes idx value ∧
      parsed.value.isSome = value.isSome ∧
      parseWritetime defaultTimestamp timestamp = .ok parsed.timestamp := by
  unfold parseChunk at h
  obtain ⟨content, hcontent, h⟩ := bind_eq_ok h
  obtain ⟨stamp, hstamp, h⟩ := bind_eq_ok h
  obtain rfl := Except.ok.inj h
  rw [Timestamped.value_new, Timestamped.timestamp_new]
  cases value with
  | none =>
    obtain rfl := Except.ok.inj hcontent
    exact ⟨rfl, rfl, hstamp⟩
  | some v =>
    unfold columnContent
    rw [Option.bind_some]
    cases hv : parseColumn kind targetColumnsLen alternatorDecodeTypes idx v with
    | error e =>
      rw [Option.mapM_some, hv] at hcontent
      cases hcontent
    | ok indexed =>
      rw [Option.mapM_some, hv] at hcontent
      obtain rfl := Except.ok.inj hcontent
      exact ⟨rfl, rfl, hstamp⟩

/-- The values that were parsed are those of the chunks, in order. -/
theorem parseValues_eq_ok {values : NonemptyBox (Timestamped DbIndexedValue)}
    (h : parseValues columns defaultTimestamp targetColumnsLen kind alternatorDecodeTypes =
      .ok values) :
    List.Forall₂ (fun (chunk : List (Option DbValue) × Nat) value =>
        parseChunk (defaultTimestamp.getD .min) kind targetColumnsLen alternatorDecodeTypes chunk.2
          chunk.1 = .ok value)
      (chunks columns).zipIdx values.toList := by
  unfold parseValues at h
  dsimp only at h
  split at h
  · cases h
  · next parsed hparsed =>
    split at h
    · cases h
    · split at h
      · cases h
      · obtain rfl := Except.ok.inj h
        exact forall₂_of_mapM hparsed

end Parse

end VectorStore
