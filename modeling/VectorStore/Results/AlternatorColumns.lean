import VectorStore.Read.Query
import VectorStore.Rows.World

/-!
# Columns of an Alternator table

The queries for an Alternator table read every column from `:attrs`, while the types of the stored
and of the decoded values distinguish the real columns of the table.  The three agree exactly when
no partition or filtering column outside of the primary key is a real column.
-/

namespace VectorStore

/-! ## Tagged values -/

/-- A tagged value of a native type.  Only a string or bytes can be serialized as nothing. -/
def Alternator.Tagged (type : NativeType) (bytes : List UInt8) : Prop :=
  ∃ tag payload, expectedTag type = .ok tag ∧ bytes = tag :: payload ∧
    (type = .decimal → payload ≠ [])

/-- The driver deserializes values of the type that it is asked for; it makes an empty value of
nothing for the types other than strings and bytes. -/
def Driver.Typed [Driver] : Prop :=
  ∀ type bytes value, (bytes ≠ [] ∨ type = .text ∨ type = .ascii ∨ type = .blob) →
    Driver.deserialize type bytes = .ok value → value.nativeType = some type

/-- A tagged value is decoded to a value of its type, unless the driver does not deserialize it. -/
theorem Alternator.parseScalar_of_tagged [Driver] (hdriver : Driver.Typed) {type : NativeType}
    {bytes : List UInt8} (h : Tagged type bytes) :
    ∃ tag payload, bytes = tag :: payload ∧
      ((∃ value, parseScalar bytes type = .ok value ∧ value.nativeType = some type) ∨
        ∃ message, Driver.deserialize type payload = .error message) := by
  obtain ⟨tag, payload, htag, rfl, hne⟩ := h
  refine ⟨tag, payload, rfl, ?_⟩
  cases hvalue : Driver.deserialize type payload with
  | error message => exact Or.inr ⟨message, rfl⟩
  | ok value =>
    refine Or.inl ⟨value, ?_, hdriver type payload value ?_ hvalue⟩
    · unfold parseScalar
      rw [htag]
      change (if tag ≠ tag then _ else _) = _
      rw [if_neg (not_not.mpr rfl), hvalue]
    · have htypes : type = .decimal ∨ type = .text ∨ type = .ascii ∨ type = .blob := by
        cases type <;> simp [expectedTag] at htag ⊢
      exact htypes.imp_left hne

/-! ## Rows of an Alternator table -/

variable (metadata : DiscoveredIndex) (realColumns : AList fun _ : ColumnName => NativeType)

/-- The place where a row of an Alternator table holds a column. -/
def place (realColumns : AList fun _ : ColumnName => NativeType) (column : ColumnName) : Accessor :=
  if (realColumns.lookup column).isSome then .column column else .attribute column

/-- A row holds the value of a real column in that column, and the tagged value of any other
attribute in `:attrs`. -/
structure DbRow.Stores (row : DbRow) : Prop where
  attrs : ∀ column, (realColumns.lookup column).isSome → row.attrs column = none
  native : ∀ column type, realColumns.lookup column = some type → ∀ value,
    row.columns column = some value → ∃ v, value = .value v ∧ v.nativeType = some type
  tagged : ∀ column type, realColumns.lookup column = none →
    metadata.alternatorNativeType column = some type → ∀ bytes, row.attrs column = some bytes →
      Alternator.Tagged type bytes

/-- A column is decoded to a value of the type under which the table stores it, unless the driver
does not deserialize its value. -/
def DecodedAs [Driver] (row : DbRow) (column : ColumnName) (type : NativeType) : Prop :=
  ∀ value, row.get (metadata.accessor column) = some value →
    (∃ v, parseFilteringValue value (alternatorDecodeType metadata realColumns column) =
        .ok (.filtering v) ∧ v.nativeType = some type) ∨
      ∃ tag payload message, row.attrs column = some (tag :: payload) ∧
        Driver.deserialize type payload = .error message

/-- The columns of an index outside of the primary key are read where a row holds them, and are
decoded to the types under which the table of the index stores them. -/
structure ColumnsAgree [Driver] : Prop where
  read : ∀ column ∈ metadata.nonpkColumns, metadata.accessor column = place realColumns column
  stored : ∀ table, buildTable metadata.key metadata.toIndexMetadata
      (metadata.tableColumns realColumns) = .ok table →
    ∀ row : DbRow, row.Stores metadata realColumns → ∀ column ∈ metadata.nonpkColumns,
      ∃ type, (metadata.tableColumns realColumns).lookup column = some type ∧
        table.schema.shape column = some (.values type) ∧
          DecodedAs metadata realColumns row column type

variable {metadata realColumns}

/-- The columns that are fetched after the target are partition or filtering columns outside of the
primary key. -/
theorem DiscoveredIndex.mem_nonpkColumns {column : ColumnName}
    (h : column ∈ metadata.nonpkColumns) :
    column ∈ (match metadata.partitioning with
        | .local columns => some columns
        | .global => none).elim [] NonemptyBox.toList ++ metadata.nonpkFilteringColumns ∧
      column ∉ metadata.primaryKeyColumns.toList := by
  unfold nonpkColumns at h
  rw [List.mem_append] at h ⊢
  rcases h with hpartition | hfiltering
  · unfold IndexMetadata.nonpkPartitionKeyColumns at hpartition
    cases hpartitioning : metadata.partitioning with
    | global =>
      rw [hpartitioning] at hpartition
      cases hpartition
    | «local» columns =>
      rw [hpartitioning] at hpartition
      obtain ⟨hmem, hout⟩ := List.mem_filter.mp hpartition
      exact ⟨Or.inl hmem, by simpa using hout⟩
  · obtain ⟨-, hout⟩ := List.mem_filter.mp hfiltering
    exact ⟨Or.inr hfiltering, by simpa using hout⟩

/-- A column of an Alternator table that is no real column is stored under its declared type, or as
a blob. -/
theorem lookup_tableColumns (halternator : isAlternator metadata.keyspaceName = true)
    {column : ColumnName} (hreal : realColumns.lookup column = none) {type : NativeType}
    (h : (metadata.tableColumns realColumns).lookup column = some type) :
    metadata.alternatorNativeType column = some type ∨
      metadata.alternatorNativeType column = none ∧ type = .blob := by
  unfold DiscoveredIndex.tableColumns at h
  rw [lookup_mergeTableColumns, hreal, Option.none_or, halternator] at h
  cases hdeclared : metadata.alternatorNativeType column with
  | some type' =>
    rw [hdeclared, Option.some_or] at h
    exact Or.inl h
  | none =>
    rw [hdeclared, Option.none_or] at h
    split at h
    · exact Or.inr ⟨rfl, (Option.some.inj h).symm⟩
    · cases h

/-- What is read of a column is decoded to the type under which it is stored. -/
theorem decodedAs_of_lookup [Driver] (hdriver : Driver.Typed)
    (halternator : isAlternator metadata.keyspaceName = true) {row : DbRow}
    (hrow : row.Stores metadata realColumns) {column : ColumnName} {type : NativeType}
    (h : (metadata.tableColumns realColumns).lookup column = some type) :
    DecodedAs metadata realColumns row column type := by
  intro value hvalue
  unfold DiscoveredIndex.accessor columnAccessor at hvalue
  rw [if_pos halternator] at hvalue
  obtain ⟨bytes, hbytes, rfl⟩ := Option.map_eq_some_iff.mp hvalue
  have hreal : realColumns.lookup column = none := by
    by_contra hsome
    rw [hrow.attrs column (Option.isSome_iff_ne_none.mpr hsome)] at hbytes
    cases hbytes
  unfold alternatorDecodeType
  rw [hreal, if_neg (by simp)]
  rcases lookup_tableColumns halternator hreal h with hdeclared | ⟨hdeclared, rfl⟩
  · obtain ⟨tag, payload, rfl, hparsed | hfailed⟩ :=
      Alternator.parseScalar_of_tagged hdriver (hrow.tagged column type hreal hdeclared bytes hbytes)
    · obtain ⟨v, hv, htype⟩ := hparsed
      refine Or.inl ⟨v, ?_, htype⟩
      unfold parseFilteringValue
      rw [hdeclared]
      change (Alternator.parseScalar (tag :: payload) type >>= fun v => _) = _
      rw [hv]
      rfl
    · obtain ⟨message, hmessage⟩ := hfailed
      exact Or.inr ⟨tag, payload, message, hbytes, hmessage⟩
  · rw [hdeclared]
    exact Or.inl ⟨.blob bytes, rfl, rfl⟩

/-- The columns of an Alternator table agree exactly when none of them is a real column. -/
theorem columnsAgree_iff [Driver] (hdriver : Driver.Typed)
    (halternator : isAlternator metadata.keyspaceName = true) :
    ColumnsAgree metadata realColumns ↔
      ∀ column ∈ metadata.nonpkColumns, realColumns.lookup column = none := by
  constructor
  · intro h column hcolumn
    by_contra hsome
    have hread := h.read column hcolumn
    unfold DiscoveredIndex.accessor columnAccessor place at hread
    rw [if_pos halternator, if_pos (Option.isSome_iff_ne_none.mpr hsome)] at hread
    cases hread
  · intro h
    constructor
    · intro column hcolumn
      unfold DiscoveredIndex.accessor columnAccessor place
      rw [if_pos halternator, h column hcolumn, if_neg (by simp)]
    · intro table htable row hrow column hcolumn
      obtain ⟨hmem, hout⟩ := DiscoveredIndex.mem_nonpkColumns hcolumn
      obtain ⟨type, hlookup, hshape⟩ := (Table.new_made htable).values column hmem hout
      exact ⟨type, hlookup, hshape, decodedAs_of_lookup hdriver halternator hrow hlookup⟩

/-! ## A declared attribute and a real column -/

namespace Sample

/-- A driver that deserializes the types of Alternator attributes. -/
@[reducible] def alternatorDriver : Driver where
  deserialize
    | .ascii, bytes => .ok (.ascii (String.ofList (bytes.map fun byte => Char.ofNat byte.toNat)))
    | .text, bytes => .ok (.text (String.ofList (bytes.map fun byte => Char.ofNat byte.toNat)))
    | .blob, bytes => .ok (.blob bytes)
    | .decimal, a :: b :: c :: d :: digits =>
      .ok (.decimal ⟨digits, (a.toUInt32 <<< 24 ||| b.toUInt32 <<< 16 ||| c.toUInt32 <<< 8 |||
        d.toUInt32).toInt32⟩)
    | .decimal, [] => .ok .empty
    | _, _ => .error "invalid value"
  parseJson _ := .error "invalid value"
  debugValue _ := ""
  debugFloats _ := ""

theorem alternatorDriver_typed : @Driver.Typed alternatorDriver := by
  intro type bytes value hbytes hvalue
  cases type with
  | ascii | text | blob =>
    obtain rfl := Except.ok.inj hvalue
    rfl
  | decimal =>
    match bytes, hbytes, hvalue with
    | [], hbytes, _ => simp at hbytes
    | [_], _, hvalue | [_, _], _, hvalue | [_, _, _], _, hvalue => cases hvalue
    | _ :: _ :: _ :: _ :: _, _, hvalue =>
      obtain rfl := Except.ok.inj hvalue
      rfl
  | _ => cases hvalue

/-- An index of an Alternator table that filters by the declared attribute `color` and returns the
attribute `photo`. -/
def colored : DiscoveredIndex where
  keyspaceName := "alternator_ks"
  indexName := "idx"
  primaryKeyColumns := ⟨⟨"pk"⟩, []⟩
  partitionKeyCount := Nat.toPNat' 1
  targetColumns := ⟨⟨"v"⟩, []⟩
  partitioning := .global
  filteringColumns := [⟨"color"⟩, ⟨"photo"⟩]
  tableName := "table"
  alternatorAttributeTypes := [(⟨"color"⟩, .text)]
  version := 0
  options := .vs { dimensions := Nat.toPNat' 3 }

/-- A table whose only real column is its key. -/
def attributeColumns : AList fun _ : ColumnName => NativeType := AList.singleton ⟨"pk"⟩ .text

/-- A table where `color` is a real column, too. -/
def realColorColumns : AList fun _ : ColumnName => NativeType :=
  attributeColumns.insert ⟨"color"⟩ .text

/-- A row of the second table. -/
def redRow : DbRow where
  columns name :=
    if name = ⟨"pk"⟩ then some (.value (.text "k"))
    else if name = ⟨"color"⟩ then some (.value (.text "red"))
    else none
  attrs _ := none
  writetime _ := none

theorem redRow_stores : redRow.Stores colored realColorColumns := by
  constructor
  · exact fun _ _ => rfl
  · intro column type htype value hvalue
    have hlookup : realColorColumns.lookup column =
        if column = ⟨"color"⟩ then some .text else attributeColumns.lookup column :=
      FiniteMap.lookup_insert_eq _ _ _ _
    have hkey : attributeColumns.lookup column = if column = ⟨"pk"⟩ then some .text else none :=
      FiniteMap.lookup_insert_eq ∅ _ _ _
    rw [hlookup, hkey] at htype
    unfold redRow at hvalue
    dsimp only at hvalue
    split at hvalue
    · next hpk =>
      obtain rfl := Option.some.inj hvalue
      rw [hpk] at htype
      exact ⟨_, rfl, htype⟩
    · next hpk =>
      rw [if_neg hpk] at htype
      split at hvalue
      · next hcolor =>
        obtain rfl := Option.some.inj hvalue
        rw [if_pos hcolor] at htype
        exact ⟨_, rfl, htype⟩
      · cases hvalue
  · intro column type _ _ bytes hbytes
    cases hbytes

end Sample

section Witness

attribute [local instance] Sample.alternatorDriver

theorem columnsAgree_iff_attributes : ColumnsAgree Sample.colored Sample.attributeColumns :=
  (columnsAgree_iff Sample.alternatorDriver_typed (by decide +kernel)).mpr (by decide +kernel)

/-- The value of a real column is not read. -/
theorem not_columnsAgree_real :
    Sample.redRow.Stores Sample.colored Sample.realColorColumns ∧
      Sample.redRow.get (place Sample.realColorColumns ⟨"color"⟩) = some (.value (.text "red")) ∧
      Sample.redRow.get (Sample.colored.accessor ⟨"color"⟩) = none ∧
      ¬ColumnsAgree Sample.colored Sample.realColorColumns := by
  refine ⟨Sample.redRow_stores, by decide +kernel, by decide +kernel, fun h => ?_⟩
  have hread := h.read ⟨"color"⟩ (by decide +kernel)
  revert hread
  decide +kernel

end Witness

end VectorStore
