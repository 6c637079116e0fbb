import VectorStore.Node.DiscoveredIndex
import VectorStore.Read.DbIndex

/-!
# Queries for an index

The full scan and the CDC re-read select the target columns, the partition columns outside of the
primary key and the filtering columns, each value next to its write time.  An Alternator table
keeps the attributes of a row in the map column `:attrs`.
-/

namespace VectorStore

/-- `KeyspaceIdentifier::is_alternator`. -/
def isAlternator (keyspaceName : String) : Bool :=
  "alternator_".toList.isPrefixOf keyspaceName.toList

/-- What a query reads a value by: the name of a column, or an element of `:attrs`. -/
inductive Accessor where
  | column (name : ColumnName)
  | attribute (name : ColumnName)
deriving DecidableEq

/-- `column_accessors`, for one column. -/
def columnAccessor (keyspaceName : String) (column : ColumnName) : Accessor :=
  if isAlternator keyspaceName then .attribute column else .column column

/-- An item of a list of selected columns. -/
inductive SelectItem where
  | value (accessor : Accessor)
  | writetime (accessor : Accessor)
deriving DecidableEq

/-- `build_columns_list`. -/
def buildColumnsList (keyspaceName : String) (columns : List ColumnName) : List SelectItem :=
  (columns.map (columnAccessor keyspaceName)).flatMap fun column =>
    [.value column, .writetime column]

/-- What the rows of a query are restricted to. -/
inductive Restrictions where
  /-- The token of the partition key is in a range. -/
  | token (partitionKeyColumns : List ColumnName)
  /-- The primary key is given. -/
  | key (primaryKeyColumns : List ColumnName)
deriving DecidableEq

/-- A query, without the quoting of its names. -/
structure Query where
  select : List SelectItem
  keyspaceName : String
  tableName : String
  restrictions : Restrictions
deriving DecidableEq

/-- `range_scan_query`. -/
def rangeScanQuery (keyspaceName tableName : String) (columns primaryKeyList partitionKeyList :
    List ColumnName) : Query where
  select := primaryKeyList.map (fun c => .value (.column c)) ++
    buildColumnsList keyspaceName columns
  keyspaceName
  tableName
  restrictions := .token partitionKeyList

/-- `request_query`. -/
def requestQuery (keyspaceName tableName : String) (columns primaryKeyColumns : List ColumnName) :
    Query where
  select := buildColumnsList keyspaceName columns
  keyspaceName
  tableName
  restrictions := .key primaryKeyColumns

namespace DiscoveredIndex

/-- The columns of an index outside of the primary key, as they are fetched after the target
columns. -/
def nonpkColumns (index : DiscoveredIndex) : List ColumnName :=
  index.nonpkPartitionKeyColumns.getD [] ++ index.nonpkFilteringColumns

/-- `prepare_range_scan`. -/
def prepareRangeScan (index : DiscoveredIndex) : Query :=
  rangeScanQuery index.keyspaceName index.tableName
    (index.targetColumns.toList ++ index.nonpkPartitionKeyColumns.getD [] ++
      index.nonpkFilteringColumns)
    index.primaryKeyColumns.toList (index.primaryKeyColumns.toList.take index.partitionKeyCount)

/-- `prepare_fetch_row`. -/
def prepareFetchRow (index : DiscoveredIndex) : Query :=
  requestQuery index.keyspaceName index.tableName
    (index.targetColumns.toList ++ index.nonpkPartitionKeyColumns.getD [] ++
      index.nonpkFilteringColumns)
    index.primaryKeyColumns.toList

/-- The way an index reads one of its columns. -/
def accessor (index : DiscoveredIndex) (column : ColumnName) : Accessor :=
  columnAccessor index.keyspaceName column

end DiscoveredIndex

/-! ## Rows of the database -/

/-- A row of the table: its columns, the elements of `:attrs` and the write times of both. -/
structure DbRow where
  columns : ColumnName → Option DbValue
  attrs : ColumnName → Option (List UInt8)
  writetime : Accessor → Option DbValue

namespace DbRow

/-- The value that an accessor reads. -/
def get (row : DbRow) : Accessor → Option DbValue
  | .column name => row.columns name
  | .attribute name => (row.attrs name).map fun bytes => .value (.blob bytes)

/-- An item of a row. -/
def item (row : DbRow) : SelectItem → Option DbValue
  | .value accessor => row.get accessor
  | .writetime accessor => row.writetime accessor

/-- What a query returns of a row. -/
def select (row : DbRow) (query : Query) : List (Option DbValue) := query.select.map row.item

/-- The row has the values as its primary key, in the order of the columns. -/
def HasKey (row : DbRow) (primaryKeyColumns : List ColumnName) (key : List CqlValue) : Prop :=
  primaryKeyColumns.map row.columns = key.map fun value => some (.value value)

end DbRow

/-! ## The columns of the table -/

namespace DiscoveredIndex

/-- `alternator_native_type`. -/
def alternatorNativeType (index : DiscoveredIndex) (column : ColumnName) : Option NativeType :=
  index.alternatorAttributeTypes.lookup column

end DiscoveredIndex

/-- `merge_table_columns`. -/
def mergeTableColumns (metadata : DiscoveredIndex) (filteringColumns : List ColumnName)
    (realColumns : AList fun _ : ColumnName => NativeType) (isAlternator : Bool) :
    AList fun _ : ColumnName => NativeType :=
  let declared := (metadata.alternatorAttributeTypes.map Prod.fst).filterMap fun name =>
    (metadata.alternatorNativeType name).map fun type => (name, type)
  let real := realColumns.entries.map fun entry => (entry.1, entry.2)
  let raw := (filteringColumns.filter fun name =>
      isAlternator && (metadata.alternatorNativeType name).isNone &&
        (realColumns.lookup name).isNone).map fun name => (name, NativeType.blob)
  (declared ++ real ++ raw).foldl (fun columns entry => columns.insert entry.1 entry.2) ∅

/-- A real column has its own type, then comes the declared type, and the other filtering columns of
an Alternator table are blobs. -/
theorem lookup_mergeTableColumns (metadata : DiscoveredIndex) (filteringColumns : List ColumnName)
    (realColumns : AList fun _ : ColumnName => NativeType) (isAlternator : Bool)
    (column : ColumnName) :
    (mergeTableColumns metadata filteringColumns realColumns isAlternator).lookup column =
      (realColumns.lookup column).or ((metadata.alternatorNativeType column).or
        (if isAlternator = true ∧ column ∈ filteringColumns then some .blob else none)) := by
  have hraw : ∀ type, (column, type) ∈ (filteringColumns.filter fun name =>
      isAlternator && (metadata.alternatorNativeType name).isNone &&
        (realColumns.lookup name).isNone).map (fun name => (name, NativeType.blob)) ↔
      (if isAlternator = true ∧ column ∈ filteringColumns ∧
        metadata.alternatorNativeType column = none ∧ realColumns.lookup column = none
      then some NativeType.blob else none) = some type := by
    intro type
    simp only [List.mem_map, List.mem_filter, Bool.and_eq_true, Option.isNone_iff_eq_none,
      Prod.mk.injEq, Option.ite_none_right_eq_some, Option.some.injEq]
    constructor
    · rintro ⟨name, ⟨hmem, ⟨hisAlternator, hdeclared⟩, hreal⟩, rfl, rfl⟩
      exact ⟨⟨hisAlternator, hmem, hdeclared, hreal⟩, rfl⟩
    · rintro ⟨⟨hisAlternator, hmem, hdeclared, hreal⟩, rfl⟩
      exact ⟨column, ⟨hmem, ⟨hisAlternator, hdeclared⟩, hreal⟩, rfl, rfl⟩
  have hreal : ∀ type, (column, type) ∈ realColumns.entries.map (fun entry => (entry.1, entry.2)) ↔
      realColumns.lookup column = some type := by
    intro type
    rw [← Option.mem_def, AList.mem_lookup_iff, List.mem_map]
    constructor
    · rintro ⟨⟨name, type'⟩, hmem, heq⟩
      obtain ⟨rfl, rfl⟩ := Prod.mk.inj heq
      exact hmem
    · exact fun hmem => ⟨⟨column, type⟩, hmem, rfl⟩
  have hdeclared : ∀ type, (column, type) ∈ ((metadata.alternatorAttributeTypes.map
      Prod.fst).filterMap fun name => (metadata.alternatorNativeType name).map fun type =>
        (name, type)) ↔ metadata.alternatorNativeType column = some type := by
    intro type
    simp only [List.mem_filterMap, Option.map_eq_some_iff, Prod.mk.injEq]
    constructor
    · rintro ⟨name, -, type', htype, rfl, rfl⟩
      exact htype
    · intro htype
      obtain ⟨before, after, hsplit, -⟩ := List.lookup_eq_some_iff.mp htype
      exact ⟨column, by rw [hsplit]; simp, type, htype, rfl, rfl⟩
  unfold mergeTableColumns
  dsimp only
  rw [List.foldl_append, List.foldl_append, FiniteMap.lookup_foldl_insert_pairs hraw,
    FiniteMap.lookup_foldl_insert_pairs hreal, FiniteMap.lookup_foldl_insert_pairs hdeclared]
  cases realColumns.lookup column with
  | some type => simp
  | none =>
    cases metadata.alternatorNativeType column with
    | some type => simp
    | none => simp

/-- `alternator_decode_types`, for one column. -/
def alternatorDecodeType (metadata : DiscoveredIndex)
    (realColumns : AList fun _ : ColumnName => NativeType) (column : ColumnName) :
    Option NativeType :=
  if (realColumns.lookup column).isSome then none else metadata.alternatorNativeType column

namespace DiscoveredIndex

variable (metadata : DiscoveredIndex) (realColumns : AList fun _ : ColumnName => NativeType)

/-- The columns that the engine builds the table with. -/
def tableColumns : AList fun _ : ColumnName => NativeType :=
  mergeTableColumns metadata metadata.nonpkFilteringColumns realColumns
    (isAlternator metadata.keyspaceName)

/-- `Statements::new` for the metadata and the natively typed columns of the table. -/
def statements : Statements :=
  .new metadata.toIndexMetadata (alternatorDecodeType metadata realColumns) metadata.kind

end DiscoveredIndex

end VectorStore
