import VectorStore.Cdc.Consumer
import VectorStore.Foundation.Lists
import VectorStore.Read.Query
import VectorStore.Rows.Events

/-!
# Alignment of columns

The queries, the parser and the table each have their own list of the columns of an index.  They
have one order: an upsert that was read for a row stores of every column the value and the write
time that the query returned for it.
-/

namespace VectorStore

/-! ## Writes to columns -/

/-- The columns after writes that are the same whenever they are for the same column. -/
theorem Cells.foldl_write_map (f : ColumnName → ColumnWrite) (names : List ColumnName)
    (cells : Cells) (name : ColumnName) :
    (names.map fun name => (f name, name)).foldl Cells.write cells name =
      if name ∈ names then (cells name).absorb ⟨(f name).1, (f name).2⟩ else cells name := by
  induction names generalizing cells with
  | nil => rfl
  | cons head names ih =>
    rw [List.map_cons, List.foldl_cons, ih]
    unfold Cells.write
    dsimp only
    by_cases hhead : name = head
    · subst hhead
      rw [Function.update_self, Stamped.absorb_absorb_self, ite_self, if_pos List.mem_cons_self]
    · rw [Function.update_of_ne hhead]
      simp only [List.mem_cons, hhead, false_or]

/-- Writes that are the same whenever they are for the same column: a column takes the write for it
or stays as it is, and takes it when all of them are accepted. -/
theorem Cells.writeAll_map (f : ColumnName → ColumnWrite) (names : List ColumnName)
    (shape : ColumnName → Option ColumnShape) (cells : Cells) (name : ColumnName) :
    let writes := names.map fun name => (f name, name)
    (cells.writeAll shape writes name = cells name ∨ name ∈ names ∧
      cells.writeAll shape writes name = (cells name).absorb ⟨(f name).1, (f name).2⟩) ∧
    (writes.all (accepts shape) = true → name ∈ names →
      cells.writeAll shape writes name = (cells name).absorb ⟨(f name).1, (f name).2⟩) := by
  intro writes
  constructor
  · obtain ⟨taken, htaken⟩ : ∃ taken, taken <+: names ∧
        writes.takeWhile (accepts shape) = taken.map fun name => (f name, name) :=
      ⟨_, List.takeWhile_prefix _, List.takeWhile_map⟩
    unfold writeAll
    rw [htaken.2, foldl_write_map]
    split
    · next hname => exact Or.inr ⟨htaken.1.mem hname, rfl⟩
    · exact Or.inl rfl
  · intro hall hname
    have htake : writes.takeWhile (accepts shape) = writes :=
      List.takeWhile_eq_self_iff.mpr (List.all_eq_true.mp hall)
    unfold writeAll
    rw [htake, foldl_write_map, if_pos hname]

/-! ## What the query returned -/

section Reads

variable [Driver] (metadata : DiscoveredIndex) (realColumns : AList fun _ : ColumnName => NativeType)

namespace DbRow

variable (row : DbRow) (timestamp : Timestamp)

omit [Driver] in
/-- The timestamp of the write time that is returned for a column; a column without one has the
default timestamp. -/
def stamp (column : ColumnName) : Timestamp :=
  (parseWritetime timestamp (row.writetime (metadata.accessor column))).toOption.getD timestamp

/-- The timestamp and the value that are returned for a target column. -/
def targetCell (column : ColumnName) : Stamped Timestamp (Option SplittingValues) where
  stamp := row.stamp metadata timestamp column
  content := (row.get (metadata.accessor column)).bind fun value =>
    (parseIndexedValue value metadata.kind).toOption.bind DbIndexedValue.indexed

/-- The timestamp and the value that are returned for another column. -/
def cell (column : ColumnName) : Cell where
  stamp := row.stamp metadata timestamp column
  content := (row.get (metadata.accessor column)).bind fun value =>
    (parseFilteringValue value (alternatorDecodeType metadata realColumns column)).toOption.bind
      DbIndexedValue.column

end DbRow

/-- What is read of a row of the table, with the default timestamp: a row of the full scan, or the
row that a consumer fetches by its key. -/
inductive DbRow.ReadAs (row : DbRow) : Timestamp → DbIndexedRow → Prop where
  | rangeScan {read : DbIndexedRow}
      (h : (metadata.statements realColumns).rangeScanRow (row.select metadata.prepareRangeScan) =
        some read) : ReadAs row .min read
  | fetchRow {primaryKey : List CqlValue} {timestamp : Timestamp} {read : DbIndexedRow}
      (hkey : row.HasKey metadata.primaryKeyColumns.toList primaryKey)
      (h : (metadata.statements realColumns).processUpsert primaryKey timestamp
        (some (row.select metadata.prepareFetchRow)) = .ok read) : ReadAs row timestamp read

end Reads

/-! ## Reading in the order of the columns -/

/-- The columns of an index in the order of its queries. -/
def DiscoveredIndex.selected (metadata : DiscoveredIndex) : List ColumnName :=
  metadata.targetColumns.toList ++ metadata.nonpkColumns

/-- A list of columns selects the pairs of their values and write times. -/
theorem DbRow.map_item_buildColumnsList (row : DbRow) (keyspaceName : String)
    (columns : List ColumnName) :
    (buildColumnsList keyspaceName columns).map row.item = columns.flatMap fun column =>
      [row.get (columnAccessor keyspaceName column),
        row.writetime (columnAccessor keyspaceName column)] := by
  unfold buildColumnsList
  rw [List.flatMap_map, List.map_flatMap]
  rfl

section Reads

variable [Driver] {metadata : DiscoveredIndex}
  {realColumns : AList fun _ : ColumnName => NativeType} {row : DbRow} {timestamp : Timestamp}
  {read : DbIndexedRow}

/-- The pairs that the queries select after the primary key. -/
def DbRow.pairs (row : DbRow) (metadata : DiscoveredIndex) : List (Option DbValue) :=
  metadata.selected.flatMap fun column =>
    [row.get (metadata.accessor column), row.writetime (metadata.accessor column)]

omit [Driver] in
theorem DbRow.select_prepareRangeScan :
    row.select metadata.prepareRangeScan =
      metadata.primaryKeyColumns.toList.map row.columns ++ row.pairs metadata := by
  unfold select DiscoveredIndex.prepareRangeScan rangeScanQuery
  rw [List.map_append, map_item_buildColumnsList, List.map_map, List.append_assoc]
  rfl

omit [Driver] in
theorem DbRow.select_prepareFetchRow :
    row.select metadata.prepareFetchRow = row.pairs metadata := by
  unfold select DiscoveredIndex.prepareFetchRow requestQuery
  rw [map_item_buildColumnsList, List.append_assoc]
  rfl

omit [Driver] in
/-- A key without nulls is the list of its values. -/
theorem mapM_primaryKeyValue {columns : List (Option DbValue)} {values : List CqlValue}
    (h : columns.mapM primaryKeyValue = some values) :
    columns = values.map fun value => some (.value value) := by
  induction columns generalizing values with
  | nil =>
    obtain rfl := Option.some.inj h
    rfl
  | cons column columns ih =>
    rw [List.mapM_cons] at h
    obtain ⟨value, hvalue, h⟩ := Option.bind_eq_some_iff.mp h
    obtain ⟨rest, hrest, h⟩ := Option.bind_eq_some_iff.mp h
    obtain rfl := Option.some.inj h
    rw [List.map_cons, ← ih hrest]
    congr 1
    cases column with
    | none => cases hvalue
    | some column =>
      cases column with
      | value value' =>
        obtain rfl := Option.some.inj hvalue
        rfl
      | vector value' => cases hvalue

omit [Driver] in
/-- A primary key keeps at most 255 values. -/
theorem PrimaryKey.values_fromIter {values : List CqlValue} (h : values.length ≤ 255) :
    (PrimaryKey.fromIter values).key.values = values :=
  List.take_of_length_le h

/-- What is read of a row are its key and the parsed pairs of its columns. -/
theorem DbRow.ReadAs.parsed (hread : row.ReadAs metadata realColumns timestamp read)
    (hlen : metadata.primaryKeyColumns.length ≤ 255) :
    row.HasKey metadata.primaryKeyColumns.toList read.primaryKey.key.values ∧
      ∃ values default, read.operation = .upsert values ∧ default.getD .min = timestamp ∧
        parseValues (row.pairs metadata) default (metadata.statements realColumns).targetColumnsLen
          metadata.kind (metadata.statements realColumns).alternatorDecodeTypes = .ok values := by
  cases hread with
  | rangeScan h =>
    unfold Statements.rangeScanRow at h
    rw [select_prepareRangeScan] at h
    have hoffset : (metadata.statements realColumns).primaryKeyColumns.length =
        (metadata.primaryKeyColumns.toList.map row.columns).length := by
      rw [List.length_map]
      rfl
    dsimp only at h
    rw [hoffset, List.drop_left, List.take_left] at h
    split at h
    · cases h
    · split at h
      · cases h
      · next values hvalues =>
        obtain ⟨key, hkey, rfl⟩ := Option.map_eq_some_iff.mp h
        obtain ⟨keyValues, hkeyValues, rfl⟩ := Option.map_eq_some_iff.mp hkey
        refine ⟨?_, values, none, rfl, rfl, hvalues⟩
        have hmap := mapM_primaryKeyValue hkeyValues
        have hle : keyValues.length ≤ 255 := by
          have := congrArg List.length hmap
          rw [List.length_map, List.length_map] at this
          rw [← this]
          exact hlen
        unfold HasKey
        rw [PrimaryKey.values_fromIter hle]
        exact hmap
  | @fetchRow primaryKey _ _ hkey h =>
    unfold Statements.processUpsert at h
    rw [select_prepareFetchRow] at h
    dsimp only at h
    split at h
    · cases h
    · obtain ⟨values, hvalues, h⟩ := bind_eq_ok h
      obtain rfl := Except.ok.inj h
      refine ⟨?_, values, some timestamp, rfl, rfl, hvalues⟩
      have hle : primaryKey.length ≤ 255 := by
        have := congrArg List.length hkey
        rw [List.length_map, List.length_map] at this
        rw [← this]
        exact hlen
      unfold HasKey
      rw [PrimaryKey.values_fromIter hle]
      exact hkey

/-- With one target column, the first of the parsed values is for it and the others are for the
columns outside of the primary key, in order. -/
theorem DbRow.cells_of_parsed {default : Option Timestamp}
    {values : NonemptyBox (Timestamped DbIndexedValue)} (htarget : metadata.targetColumns.rest = [])
    (h : parseValues (row.pairs metadata) default
      (metadata.statements realColumns).targetColumnsLen metadata.kind
      (metadata.statements realColumns).alternatorDecodeTypes = .ok values) :
    (⟨values.first.timestamp, values.first.value.bind DbIndexedValue.indexed⟩ : Stamped _ _) =
        row.targetCell metadata (default.getD .min) metadata.targetColumns.first ∧
      (values.rest.map fun value =>
        (⟨value.timestamp, value.value.bind DbIndexedValue.column⟩ : Cell)) =
        metadata.nonpkColumns.map (row.cell metadata realColumns (default.getD .min)) := by
  have hparsed := parseValues_eq_ok h
  have hlen : ((metadata.statements realColumns).targetColumnsLen : ℕ) = 1 := by
    change metadata.targetColumns.length = 1
    unfold NonemptyBox.length NonemptyBox.toList
    rw [htarget]
    rfl
  have hselected : metadata.selected =
      metadata.targetColumns.first :: metadata.nonpkColumns := by
    unfold DiscoveredIndex.selected NonemptyBox.toList
    rw [htarget]
    rfl
  unfold DbRow.pairs at hparsed
  rw [chunks_flatMap, List.zipIdx_map, List.forall₂_map_left_iff, hselected, List.zipIdx_cons]
    at hparsed
  obtain ⟨hfirst, hrest⟩ := List.forall₂_cons.mp hparsed
  constructor
  · obtain ⟨hvalue, -, hstamp⟩ := parseChunk_eq_ok hfirst
    refine Stamped.ext ?_ ?_
    · unfold targetCell stamp
      rw [hstamp]
      rfl
    · have hcontent := hvalue.trans (columnContent_of_lt (by rw [hlen]; exact Nat.one_pos) _)
      unfold targetCell
      rw [hcontent, Option.bind_assoc]
  · have hmap := map_eq_map_of_forall₂ (f := fun column : ColumnName × ℕ =>
        row.cell metadata realColumns (default.getD .min) column.1)
      (g := fun value => (⟨value.timestamp, value.value.bind DbIndexedValue.column⟩ : Cell))
      hrest fun column hcolumn value hchunk => ?_
    · rw [hmap, ← List.zipIdx_map_fst 1 metadata.nonpkColumns, List.map_map,
        List.zipIdx_map_fst 1 metadata.nonpkColumns]
      rfl
    obtain ⟨hvalue, -, hstamp⟩ := parseChunk_eq_ok hchunk
    refine Stamped.ext ?_ ?_
    · unfold cell stamp
      rw [hstamp]
      rfl
    · obtain ⟨name, i⟩ := column
      obtain ⟨hle, hget⟩ := List.mk_mem_zipIdx_iff_le_and_getElem?_sub.mp hcolumn
      -- The column is at the same place in the list of the decode types.
      have htype : ((metadata.statements realColumns).alternatorDecodeTypes[i - 1]?).join =
          alternatorDecodeType metadata realColumns name := by
        change ((metadata.nonpkColumns.map _)[i - 1]?).join = _
        rw [List.getElem?_map, hget, Option.map_some, Option.join_some]
      have hcontent := hvalue.trans (columnContent_of_le (by rw [hlen]; exact hle) _)
      dsimp only [Prod.map, id] at hcontent
      unfold cell
      rw [hcontent, hlen, htype, Option.bind_assoc]

end Reads

/-! ## Storing in the order of the columns -/

/-- The columns of an index that the table stores are those that its queries select. -/
theorem DiscoveredIndex.nonpkColumns_eq {metadata : DiscoveredIndex}
    {tableColumns : AList fun _ : ColumnName => NativeType} {table : Table}
    (h : buildTable metadata.key metadata.toIndexMetadata tableColumns = .ok table) :
    table.schema.nonpkPartitionKeyColumns ++ table.schema.filteringColumns =
      metadata.nonpkColumns := by
  have hmade := Table.new_made h
  unfold nonpkColumns
  rw [hmade.filteringColumns_eq]
  congr 1
  unfold Schema.nonpkPartitionKeyColumns IndexMetadata.nonpkPartitionKeyColumns
  rw [hmade.partitionColumns_eq]
  cases metadata.partitioning <;> rfl

namespace World

variable [DecimalNormalizer] {w : World} {call : Call} {key : PrimaryKey}

/-- The columns of a row after a call are as they were, or written by the call. -/
theorem cells_step_eq (h : w.Consistent) (call : Call) (key : PrimaryKey) :
    ((w.step call).row key).cells = (w.row key).cells ∨
      ∃ split, call.split = .ok split ∧ ((w.step call).row key).cells =
        (w.row key).cells.writeAll w.schema.shape (call.writes w.schema split) := by
  by_cases hreach : w.Reaches call key
  · rw [(step_stepped h hreach).row, Function.update_self]
    unfold Row.call
    cases hsplit : call.split with
    | error e => exact Or.inl rfl
    | ok split =>
      refine Or.inr ⟨split, rfl, ?_⟩
      dsimp only
      split <;> rfl
  · left
    by_cases hother : ∃ key', w.Reaches call key'
    · obtain ⟨key', hother⟩ := hother
      have hne : key ≠ key' := by
        rintro rfl
        exact hreach hother
      rw [(step_stepped h hother).row, Function.update_of_ne hne]
    · push Not at hother
      rw [(step_refused h hother).row]

/-- A call that succeeds has values that suit their columns. -/
theorem cells_step_of_succeeds (h : w.Consistent) (hok : w.Succeeds call)
    (hkey : w.keyOf call = .ok key) :
    ∃ split, call.split = .ok split ∧ (call.writes w.schema split).all (accepts w.schema.shape) ∧
      ((w.step call).row key).cells =
        (w.row key).cells.writeAll w.schema.shape (call.writes w.schema split) := by
  obtain ⟨split, hsplit, hall⟩ :=
    (step_stepped h (hok.reaches_of_keyOf h hkey)).succeeds_iff.mp hok
  refine ⟨split, hsplit, hall, ?_⟩
  rw [step_row_of_succeeds h hok hkey]
  unfold Row.call
  rw [hsplit]
  dsimp only
  split <;> rfl

end World

section Aligned

variable [Driver] [DecimalNormalizer] (metadata : DiscoveredIndex)
  (realColumns : AList fun _ : ColumnName => NativeType)

/-- The table stores what was read of a row as the query returned it, column by column. -/
structure Aligned (w : World) (row : DbRow) (timestamp : Timestamp) (read : DbIndexedRow) :
    Prop where
  /-- The primary key is that of the row. -/
  primaryKey : row.HasKey metadata.primaryKeyColumns.toList read.primaryKey.key.values
  /-- Every column outside of the primary key takes its own value and write time. -/
  columns : ∀ key, w.keyOf (read.call metadata.key) = .ok key →
    w.Succeeds (read.call metadata.key) → ∀ column ∈ metadata.nonpkColumns,
      ((w.step (read.call metadata.key)).row key).cells column =
        ((w.row key).cells column).absorb (row.cell metadata realColumns timestamp column)
  /-- So does the target. -/
  target : ∀ key, w.keyOf (read.call metadata.key) = .ok key →
    w.Succeeds (read.call metadata.key) →
      let cell := row.targetCell metadata timestamp metadata.targetColumns.first
      ((w.step (read.call metadata.key)).row key).target =
        (w.row key).target.process w.present (w.due key (read.call metadata.key)) cell.stamp
          cell.content
  /-- Nothing else is stored, even by a call that fails. -/
  only : ∀ key column, ((w.step (read.call metadata.key)).row key).cells column =
      (w.row key).cells column ∨ column ∈ metadata.nonpkColumns ∧
    ((w.step (read.call metadata.key)).row key).cells column =
      ((w.row key).cells column).absorb (row.cell metadata realColumns timestamp column)

variable {metadata realColumns}

omit [DecimalNormalizer] in
/-- The writes of an upsert that was read for a row. -/
theorem DbRow.ReadAs.writes_eq {row : DbRow} {timestamp : Timestamp} {read : DbIndexedRow}
    (hread : row.ReadAs metadata realColumns timestamp read)
    (htarget : metadata.targetColumns.rest = []) (hlen : metadata.primaryKeyColumns.length ≤ 255)
    {schema : Schema} (hschema : schema.nonpkPartitionKeyColumns ++ schema.filteringColumns =
      metadata.nonpkColumns) :
    (read.call metadata.key).target =
        row.targetCell metadata timestamp metadata.targetColumns.first ∧
      ∀ split, (read.call metadata.key).split = .ok split →
        (read.call metadata.key).writes schema split = metadata.nonpkColumns.map fun column =>
          (((row.cell metadata realColumns timestamp column).stamp,
            (row.cell metadata realColumns timestamp column).content), column) := by
  obtain ⟨-, values, default, hoperation, rfl, hparsed⟩ := hread.parsed hlen
  obtain ⟨hfirst, hrest⟩ := cells_of_parsed htarget hparsed
  have hcall : read.call metadata.key = .upsert metadata.key read.primaryKey values := by
    unfold DbIndexedRow.call
    rw [hoperation]
  rw [hcall]
  refine ⟨hfirst, fun split hsplit => ?_⟩
  have hwrites := (Call.split_eq schema hsplit).2.2
  have hcolumns : (Call.upsert metadata.key read.primaryKey values).columnWrites schema =
      metadata.nonpkColumns.map fun column =>
        (row.cell metadata realColumns (default.getD .min) column, column) := by
    unfold Call.columnWrites
    dsimp only
    rw [hrest, hschema, zip_map_self]
  rw [hcolumns] at hwrites
  have hback := congrArg (List.map fun write : Cell × ColumnName =>
    ((write.1.stamp, write.1.content), write.2)) hwrites
  rw [List.map_map, List.map_map] at hback
  exact (List.map_id _).symm.trans hback

/-- What is read of a row of the table is stored column by column, whatever the lists of columns of
the index are.  The statements are only made for at most 255 primary key columns. -/
theorem upsert_aligned (htarget : metadata.targetColumns.rest = [])
    (hlen : metadata.primaryKeyColumns.length ≤ 255) {table : Table}
    (htable : buildTable metadata.key metadata.toIndexMetadata
      (metadata.tableColumns realColumns) = .ok table) (calls : List Call) {row : DbRow}
    {timestamp : Timestamp} {read : DbIndexedRow}
    (hread : row.ReadAs metadata realColumns timestamp read) :
    Aligned metadata realColumns (Machine.run World.step (.init table) calls) row timestamp
      read := by
  have hinit : (World.init table).Consistent :=
    World.consistent_init ⟨_, _, _, _, _, _, _, htable⟩
  have hw := World.run_consistent hinit calls
  have hschema : (Machine.run World.step (.init table) calls).schema = table.schema :=
    World.run_schema hinit calls
  generalize Machine.run World.step (.init table) calls = w at hw hschema ⊢
  have hcolumns := DiscoveredIndex.nonpkColumns_eq htable
  rw [← hschema] at hcolumns
  obtain ⟨hvalue, hwrites⟩ := hread.writes_eq htarget hlen hcolumns
  constructor
  case primaryKey => exact (hread.parsed hlen).1
  case columns =>
    intro key hkey hok column hcolumn
    obtain ⟨split, hsplit, hall, hcells⟩ := World.cells_step_of_succeeds hw hok hkey
    rw [hwrites split hsplit] at hall hcells
    rw [hcells]
    exact (Cells.writeAll_map _ _ _ _ column).2 hall hcolumn
  case target =>
    intro key hkey hok
    have htarget' := World.target_step hw hok hkey
    rw [hvalue] at htarget'
    exact htarget'
  case only =>
    intro key column
    rcases World.cells_step_eq hw (read.call metadata.key) key with heq | ⟨split, hsplit, heq⟩
    · rw [heq]
      exact Or.inl rfl
    · rw [heq, hwrites split hsplit]
      exact (Cells.writeAll_map _ _ _ _ column).1

end Aligned

/-! ## An index with overlapping lists -/

namespace Sample

/-- An index that is partitioned by the column `c`, which is also a filtering column, next to a
column of the primary key. -/
def overlapping : DiscoveredIndex where
  keyspaceName := "ks"
  indexName := "idx"
  primaryKeyColumns := ⟨⟨"pk"⟩, []⟩
  partitionKeyCount := Nat.toPNat' 1
  targetColumns := ⟨⟨"v"⟩, []⟩
  partitioning := .local ⟨⟨"c"⟩, []⟩
  filteringColumns := [⟨"pk"⟩, ⟨"c"⟩, ⟨"f"⟩]
  tableName := "table"
  alternatorAttributeTypes := []
  version := 0
  options := .vs { dimensions := Nat.toPNat' 3 }

/-- The columns of the table of the index. -/
def overlappingColumns : AList fun _ : ColumnName => NativeType :=
  ((AList.singleton ⟨"pk"⟩ .int).insert ⟨"c"⟩ .int).insert ⟨"f"⟩ .int

/-- The table of the index. -/
def overlappingTable : Table :=
  (buildTable overlapping.key overlapping.toIndexMetadata
    (overlapping.tableColumns overlappingColumns)).toOption.get (by decide +kernel)

/-- A row of the table. -/
def overlappingRow : DbRow where
  columns name :=
    if name = ⟨"pk"⟩ then some (.value (.int 1))
    else if name = ⟨"v"⟩ then some (.vector ⟨[7]⟩)
    else if name = ⟨"c"⟩ then some (.value (.int 2))
    else none
  attrs _ := none
  writetime accessor :=
    if accessor = .column ⟨"v"⟩ then some (.value (.bigInt 30))
    else if accessor = .column ⟨"c"⟩ then some (.value (.bigInt 20))
    else none

attribute [local instance] Sample.driver Sample.decimals

/-- What the full scan reads of the row. -/
def overlappingRead : DbIndexedRow :=
  ((overlapping.statements overlappingColumns).rangeScanRow
    (overlappingRow.select overlapping.prepareRangeScan)).get (by decide +kernel)

end Sample

section Witness

attribute [local instance] Sample.driver Sample.decimals

theorem upsert_aligned_overlapping :
    (World.init Sample.overlappingTable).Succeeds
        (Sample.overlappingRead.call Sample.overlapping.key) ∧
      Aligned Sample.overlapping Sample.overlappingColumns (.init Sample.overlappingTable)
        Sample.overlappingRow .min Sample.overlappingRead :=
  ⟨by decide +kernel,
    upsert_aligned rfl (by decide) (Sample.eq_ok_of_toOption _ (by decide +kernel)) []
      (.rangeScan (Option.some_get _).symm)⟩

end Witness

end VectorStore
