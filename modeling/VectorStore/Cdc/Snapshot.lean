import VectorStore.Cdc.Replication

/-!
# What a read of a row contains

A read of the database row turns every cell into a value with a timestamp: that of the write of
the cell, or a default one for a cell without a value.
-/

namespace VectorStore

/-! ## Cells of the database row -/

namespace BaseRow

/-- The writes of a history to one column. -/
def writesTo (name : ColumnName) (history : List RowWrite) :
    List (Stamped Nat (Option DbValue)) :=
  history.filterMap fun write => (write.value name).map fun value => ⟨write.writetime, value⟩

theorem mem_writesTo {name : ColumnName} {history : List RowWrite}
    {cell : Stamped Nat (Option DbValue)} :
    cell ∈ writesTo name history ↔ ∃ write ∈ history, write.value name = some cell.content ∧
      write.writetime = cell.stamp := by
  unfold writesTo
  rw [List.mem_filterMap]
  refine exists_congr fun write => and_congr_right fun _ => ?_
  rw [Option.map_eq_some_iff]
  constructor
  · rintro ⟨value, hvalue, rfl⟩
    exact ⟨hvalue, rfl⟩
  · rintro ⟨hvalue, hstamp⟩
    exact ⟨cell.content, hvalue, Stamped.ext hstamp rfl⟩

/-- A cell after some writes is a register that absorbed those to its column. -/
theorem cells_foldl (row : BaseRow) (history : List RowWrite) (name : ColumnName) :
    (history.foldl BaseRow.write row).cells name =
      (row.cells name).absorbAll (writesTo name history) := by
  induction history generalizing row with
  | nil => rfl
  | cons write history ih =>
    rw [List.foldl_cons, ih]
    unfold writesTo BaseRow.write
    cases hvalue : write.value name with
    | none => rw [List.filterMap_cons_none (by rw [hvalue]; rfl)]; simp [hvalue]
    | some value =>
      rw [List.filterMap_cons_some (b := ⟨write.writetime, value⟩) (by rw [hvalue]; rfl)]
      simp [hvalue]

end BaseRow

/-! ## Reading a cell -/

/-- The timestamp that a read gives to a cell. -/
def readStamp (default : Timestamp) (cell : Stamped Nat (Option DbValue)) : Timestamp :=
  if cell.content.isSome then .fromMicros cell.stamp else default

/-- The write time that is selected for a cell is parsed to its timestamp. -/
theorem parseWritetime_select {default stamp : Timestamp} {cell : Stamped Nat (Option DbValue)}
    (hle : cell.stamp ≤ maxMicros)
    (h : parseWritetime default (cell.content.map fun _ =>
      .value (.bigInt (.ofNat cell.stamp))) = .ok stamp) : stamp = readStamp default cell := by
  unfold readStamp
  cases hcontent : cell.content with
  | none =>
    rw [hcontent] at h
    exact (Except.ok.inj h).symm
  | some value =>
    rw [hcontent] at h
    have hlt : cell.stamp < 2 ^ 63 := by
      unfold maxMicros maxHundredNanos at hle
      omega
    have hnat : (Int64.ofNat cell.stamp).toUInt64.toNat = cell.stamp := by
      rw [Int64.toNat_toUInt64_of_le, Int64.toNatClampNeg_ofNat_of_lt hlt]
      rw [Int64.le_iff_toInt_le, Int64.toInt_ofNat_of_lt hlt]
      exact Int.natCast_nonneg _
    obtain rfl := Except.ok.inj h
    rw [hnat]
    rfl

section Read

variable [Driver]

/-- A value that was read of a cell. -/
structure IsRead (default : Timestamp) (parse : DbValue → Except String DbIndexedValue)
    (cell : Stamped Nat (Option DbValue)) (read : Timestamped DbIndexedValue) : Prop where
  timestamp : read.timestamp = readStamp default cell
  value : read.value = cell.content.bind fun value => (parse value).toOption
  isSome : read.value.isSome = cell.content.isSome

/-- The values that are parsed of the columns of a row, one for each column. -/
theorem parseValues_select {row : BaseRow} {names : List ColumnName} {default : Option Timestamp}
    {len : ℕ+} {kind : IndexKind} {types : List (Option NativeType)}
    {values : NonemptyBox (Timestamped DbIndexedValue)}
    (hle : ∀ name, (row.cells name).stamp ≤ maxMicros)
    (h : parseValues (row.select names) default len kind types = .ok values) :
    List.Forall₂ (fun (column : ColumnName × Nat) read =>
        IsRead (default.getD .min) (parseColumn kind len types column.2) (row.cells column.1) read)
      names.zipIdx values.toList := by
  have hparsed := parseValues_eq_ok h
  unfold BaseRow.select at hparsed
  rw [chunks_flatMap, List.zipIdx_map, List.forall₂_map_left_iff] at hparsed
  refine hparsed.imp fun column read hread => ?_
  obtain ⟨hvalue, hsome, hstamp⟩ := parseChunk_eq_ok hread
  exact ⟨parseWritetime_select (hle column.1) hstamp, hvalue, hsome⟩

/-- A value that was parsed for the index is one that it stores. -/
theorem isSome_indexed {value : DbValue} {kind : IndexKind} {parsed : DbIndexedValue}
    (h : parseIndexedValue value kind = .ok parsed) : parsed.indexed.isSome := by
  have hdocument : parseDocument value = .ok parsed → parsed.indexed.isSome := by
    intro hparsed
    unfold parseDocument at hparsed
    split at hparsed <;> first | (cases hparsed; done) | (obtain rfl := Except.ok.inj hparsed; rfl)
  cases kind with
  | vs =>
    unfold parseIndexedValue at h
    cases value with
    | vector vector =>
      obtain rfl := Except.ok.inj h
      rfl
    | value value =>
      dsimp only at h
      split at h
      · obtain rfl := Except.ok.inj h
        rfl
      · cases h
  | fts => exact hdocument h
  | pattern => exact hdocument h

/-- A value that was parsed for a filtering column is one that the column stores. -/
theorem isSome_column {value : DbValue} {nativeType : Option NativeType} {parsed : DbIndexedValue}
    (h : parseFilteringValue value nativeType = .ok parsed) : parsed.column.isSome := by
  unfold parseFilteringValue at h
  obtain ⟨raw, -, h⟩ := bind_eq_ok h
  split at h
  · obtain ⟨decoded, -, h⟩ := bind_eq_ok h
    obtain rfl := Except.ok.inj h
    rfl
  · obtain rfl := Except.ok.inj h
    rfl

omit [Driver] in
/-- What is stored of a value that was read. -/
theorem stored_of_isRead {default : Timestamp} {parse : DbValue → Except String DbIndexedValue}
    {cell : Stamped Nat (Option DbValue)} {read : Timestamped DbIndexedValue} {γ : Type}
    {store : DbIndexedValue → Option γ}
    (hstore : ∀ {value parsed}, parse value = .ok parsed → (store parsed).isSome)
    (h : IsRead default parse cell read) :
    read.value.bind store = (cell.content.bind fun value => (parse value).toOption).bind store ∧
      (read.value.bind store).isSome = cell.content.isSome := by
  refine ⟨by rw [h.value], ?_⟩
  have hvalue := h.value
  rw [← h.isSome]
  cases hread : read.value with
  | none => rfl
  | some parsed =>
    rw [hread] at hvalue
    obtain ⟨value, -, hparsed⟩ := Option.bind_eq_some_iff.mp hvalue.symm
    rw [Option.bind_some, Option.isSome_some]
    refine @hstore value parsed ?_
    cases hparse : parse value with
    | error e =>
      rw [hparse] at hparsed
      cases hparsed
    | ok parsed' =>
      rw [hparse] at hparsed
      rw [Option.some.inj hparsed]

end Read

/-! ## Reading the row of an index with one column -/

namespace Replication

variable (r : Replication)

/-- The column that is indexed. -/
def target : ColumnName := r.metadata.targetColumns.first

/-- The filtering columns. -/
def filteringColumns : List ColumnName := r.metadata.nonpkFilteringColumns

theorem columns_eq : r.statements.columns = r.target :: r.filteringColumns := by
  unfold statements Statements.columns Statements.new NonemptyBox.toList
    IndexMetadata.nonpkPartitionKeyColumns
  rw [r.partitioning_eq, r.targetColumns_rest]
  rfl

theorem alternatorDecodeTypes_eq :
    r.statements.alternatorDecodeTypes = r.filteringColumns.map r.decodeType := by
  unfold statements Statements.new IndexMetadata.nonpkPartitionKeyColumns
  rw [r.partitioning_eq]
  rfl

theorem targetColumnsLen_eq : r.statements.targetColumnsLen = 1 := by
  refine PNat.eq ?_
  change r.metadata.targetColumns.rest.length + 1 = 1
  rw [r.targetColumns_rest]
  rfl

theorem target_mem (r : Replication) : r.target ∈ r.baseColumns := by
  have hcolumns : (Statements.new r.metadata r.decodeType r.kind).columns =
      r.target :: r.filteringColumns := r.columns_eq
  refine r.columns_subset ?_
  rw [hcolumns]
  exact List.mem_cons_self

theorem filtering_mem (r : Replication) {name : ColumnName} (h : name ∈ r.filteringColumns) :
    name ∈ r.baseColumns := by
  have hcolumns : (Statements.new r.metadata r.decodeType r.kind).columns =
      r.target :: r.filteringColumns := r.columns_eq
  refine r.columns_subset ?_
  rw [hcolumns]
  exact List.mem_cons_of_mem _ h

/-- The writes of a delete to a filtering column. -/
theorem cells_delete {schema : Schema} {name : ColumnName} (hname : name ∈ schema.filteringColumns)
    (indexKey : IndexKey) (primaryKey : PrimaryKey) (timestamp : Timestamp) :
    (Call.delete indexKey primaryKey timestamp).cells schema name ≠ [] ∧
      ∀ copy ∈ (Call.delete indexKey primaryKey timestamp).cells schema name,
        copy = ⟨timestamp, none⟩ := by
  unfold Call.cells Call.columnWrites
  constructor
  · refine List.ne_nil_of_mem (a := ⟨timestamp, none⟩) (List.mem_map.mpr
      ⟨(⟨timestamp, none⟩, name), List.mem_filter.mpr ⟨List.mem_map.mpr ⟨name, hname, rfl⟩, ?_⟩,
        rfl⟩)
    simp
  · intro copy hcopy
    obtain ⟨write, hwrite, rfl⟩ := List.mem_map.mp hcopy
    obtain ⟨name', -, rfl⟩ := List.mem_map.mp (List.mem_of_mem_filter hwrite)
    rfl

variable [Driver]

/-- The values read of a row: that of the target, and those of the filtering columns. -/
structure HasRead (row : BaseRow) (default : Timestamp)
    (values : NonemptyBox (Timestamped DbIndexedValue)) : Prop where
  target : IsRead default (fun value => parseIndexedValue value r.kind) (row.cells r.target)
    values.first
  filtering : List.Forall₂ (fun name read =>
      IsRead default (fun value => parseFilteringValue value (r.decodeType name)) (row.cells name)
        read)
    r.filteringColumns values.rest

variable {r}

theorem hasRead_of_parseValues {row : BaseRow} {default : Option Timestamp}
    {values : NonemptyBox (Timestamped DbIndexedValue)}
    (hle : ∀ name, (row.cells name).stamp ≤ maxMicros)
    (h : parseValues (row.select r.statements.columns) default r.statements.targetColumnsLen
      r.statements.kind r.statements.alternatorDecodeTypes = .ok values) :
    r.HasRead row (default.getD .min) values := by
  rw [r.columns_eq, r.targetColumnsLen_eq, r.alternatorDecodeTypes_eq] at h
  have hread := parseValues_select hle h
  rw [List.zipIdx_cons] at hread
  obtain ⟨hfirst, hrest⟩ := List.forall₂_cons.mp hread
  refine ⟨hfirst, ?_⟩
  rw [List.forall₂_iff_get] at hrest ⊢
  obtain ⟨hlen, hget⟩ := hrest
  rw [List.length_zipIdx] at hlen
  refine ⟨hlen, fun i h₁ h₂ => ?_⟩
  have hi := hget i (by rwa [List.length_zipIdx]) h₂
  rw [List.get_eq_getElem, List.getElem_zipIdx] at hi
  have hcolumn : parseColumn r.statements.kind 1 (r.filteringColumns.map r.decodeType) (0 + 1 + i) =
      fun value => parseFilteringValue value (r.decodeType (r.filteringColumns.get ⟨i, h₁⟩)) := by
    funext value
    unfold parseColumn
    have hidx : ¬0 + 1 + i < ((1 : ℕ+) : ℕ) := by
      rw [PNat.one_coe]
      omega
    rw [if_neg hidx]
    have hsub : 0 + 1 + i - ((1 : ℕ+) : ℕ) = i := by
      rw [PNat.one_coe]
      omega
    rw [hsub, List.getElem?_map, List.getElem?_eq_getElem h₁]
    rfl
  dsimp only at hi
  rw [hcolumn] at hi
  exact hi

/-! ## Messages -/

variable {ι : Type} {s : State ι} {message : DbIndexedRow}

/-- A message that was made of a row of the database: its values, or a delete of a row without
values in its cells. -/
inductive Copied (r : Replication) (row : BaseRow) (default : Timestamp) :
    DbIndexedOperation → Prop
  | upsert (values : NonemptyBox (Timestamped DbIndexedValue)) (h : r.HasRead row default values) :
    Copied r row default (.upsert values)
  | delete (h : ∀ name ∈ r.baseColumns, (row.cells name).content = none) :
    Copied r row default (.delete default)

omit [Driver] in
/-- A row that is not there has no values. -/
theorem content_of_not_isPresent {row : BaseRow} {columns : List ColumnName}
    (h : row.isPresent columns = false) : ∀ name ∈ columns, (row.cells name).content = none := by
  unfold BaseRow.isPresent at h
  rw [Bool.or_eq_false_iff, List.any_eq_false] at h
  exact fun name hname => Option.not_isSome_iff_eq_none.mp (h.2 name hname)

omit [Driver] in
theorem fetched_eq_some {columns : List (Option DbValue)} (h : r.fetched s = some columns) :
    columns = s.row.select r.statements.columns := by
  unfold fetched at h
  split at h
  · exact (Option.some.inj h).symm
  · cases h

/-- What the full scan sends. -/
theorem copied_of_scanned (hle : ∀ name, (s.row.cells name).stamp ≤ maxMicros)
    (h : r.scanned s = some message) :
    message.primaryKey = .fromIter r.primaryKey ∧ Copied r s.row .min message.operation := by
  unfold scanned at h
  obtain ⟨columns, hcolumns, h⟩ := Option.bind_eq_some_iff.mp h
  obtain rfl := fetched_eq_some hcolumns
  have hlen : (r.primaryKey.map fun value => some (DbValue.value value)).length =
      r.statements.primaryKeyColumns.length := by
    rw [List.length_map]
    exact r.length_primaryKey
  have hkey : (r.primaryKey.map fun value => some (DbValue.value value)).mapM primaryKeyValue =
      some r.primaryKey := by
    generalize r.primaryKey = values
    induction values with
    | nil => rfl
    | cons value values ih => rw [List.map_cons, List.mapM_cons, ih]; rfl
  unfold Statements.rangeScanRow at h
  dsimp only at h
  rw [List.drop_left' hlen, List.take_left' hlen] at h
  split at h
  · cases h
  · split at h
    · cases h
    · next values hvalues =>
      unfold parsePrimaryKey at h
      rw [hkey] at h
      obtain rfl := Option.some.inj h
      exact ⟨rfl, .upsert values (hasRead_of_parseValues hle hvalues)⟩

/-- What is sent for an event. -/
theorem copied_of_sent {timestamp : Timestamp}
    (hle : ∀ name, (s.row.cells name).stamp ≤ maxMicros)
    (h : r.sent s timestamp = .ok message) :
    message.primaryKey = .fromIter r.primaryKey ∧ Copied r s.row timestamp message.operation := by
  unfold sent Statements.processUpsert at h
  cases hfetched : r.fetched s with
  | none =>
    rw [hfetched] at h
    obtain rfl := Except.ok.inj h
    refine ⟨rfl, .delete (content_of_not_isPresent ?_)⟩
    unfold fetched at hfetched
    split at hfetched
    · cases hfetched
    · next hpresent => exact eq_false_of_ne_true hpresent
  | some columns =>
    rw [hfetched] at h
    obtain rfl := fetched_eq_some hfetched
    dsimp only at h
    split at h
    · cases h
    · obtain ⟨values, hvalues, h⟩ := bind_eq_ok h
      obtain rfl := Except.ok.inj h
      exact ⟨rfl, .upsert values (hasRead_of_parseValues hle hvalues)⟩

/-! ## What is stored -/

/-- What the index stores of a value of the target column. -/
def indexedContent (r : Replication) (value : Option DbValue) : Option SplittingValues :=
  (value.bind fun v => (parseIndexedValue v r.kind).toOption).bind DbIndexedValue.indexed

/-- What the table stores of a value of a filtering column. -/
def filteringContent (r : Replication) (name : ColumnName) (value : Option DbValue) :
    Option CqlValue :=
  (value.bind fun v => (parseFilteringValue v (r.decodeType name)).toOption).bind
    DbIndexedValue.column

/-- The writes of an upsert to a filtering column are those read of the column. -/
theorem mem_cells_upsert {schema : Schema} (hnonpk : schema.nonpkPartitionKeyColumns = [])
    (hfiltering : schema.filteringColumns = r.filteringColumns) {row : BaseRow}
    {default : Timestamp} {values : NonemptyBox (Timestamped DbIndexedValue)}
    (hread : r.HasRead row default values) {indexKey : IndexKey} {primaryKey : PrimaryKey}
    {name : ColumnName} (hname : name ∈ r.filteringColumns) :
    (Call.upsert indexKey primaryKey values).cells schema name ≠ [] ∧
      ∀ copy ∈ (Call.upsert indexKey primaryKey values).cells schema name,
        ∃ read, IsRead default (fun value => parseFilteringValue value (r.decodeType name))
            (row.cells name) read ∧
          copy = ⟨read.timestamp, read.value.bind DbIndexedValue.column⟩ := by
  obtain ⟨hlen, hzip⟩ := List.forall₂_iff_zip.mp hread.filtering
  have hmem : ∀ copy, copy ∈ (Call.upsert indexKey primaryKey values).cells schema name ↔
      ∃ read, (name, read) ∈ r.filteringColumns.zip values.rest ∧
        copy = ⟨read.timestamp, read.value.bind DbIndexedValue.column⟩ := by
    intro copy
    unfold Call.cells Call.columnWrites
    dsimp only
    rw [hnonpk, hfiltering, List.nil_append, List.zip_map_left, ← List.zip_swap, List.map_map]
    simp only [List.mem_map, List.mem_filter]
    constructor
    · rintro ⟨write, ⟨⟨⟨name', read⟩, hpair, rfl⟩, hfst⟩, rfl⟩
      obtain rfl : name' = name := by simpa using hfst
      exact ⟨read, hpair, rfl⟩
    · rintro ⟨read, hpair, rfl⟩
      exact ⟨_, ⟨⟨(name, read), hpair, rfl⟩, by simp⟩, rfl⟩
  constructor
  · rw [← List.map_fst_zip hlen.le] at hname
    obtain ⟨⟨name', read⟩, hpair, rfl⟩ := List.mem_map.mp hname
    exact List.ne_nil_of_mem ((hmem _).mpr ⟨read, hpair, rfl⟩)
  · intro copy hcopy
    obtain ⟨read, hpair, heq⟩ := (hmem copy).mp hcopy
    exact ⟨read, hzip hpair, heq⟩

end Replication

end VectorStore
