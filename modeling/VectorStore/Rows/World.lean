import VectorStore.Rows.Steps

/-!
# Worlds

The invariant of a table and its store, for every reachable world, and what a call does to the
rows of a world.  These are the only facts about tables that the results on runs use.
-/

namespace VectorStore

/-! ## New tables -/

/-- In a traversal that succeeded, the results are the images of the elements. -/
theorem mem_iff_of_mapM {α β : Type} {f : α → Except Failure β} {xs : List α} {ys : List β}
    (h : xs.mapM f = .ok ys) (y : β) : y ∈ ys ↔ ∃ x ∈ xs, f x = .ok y := by
  have hrel := forall₂_of_mapM h
  clear h
  induction hrel with
  | nil => simp
  | cons hx _ ih =>
    rw [List.mem_cons, List.exists_mem_cons_iff, hx, Except.ok.injEq, eq_comm]
    exact or_congr_right ih

/-- In a traversal that succeeded, every element has an image. -/
theorem exists_image_of_mapM {α β : Type} {f : α → Except Failure β} {xs : List α} {ys : List β}
    (h : xs.mapM f = .ok ys) : ∀ x ∈ xs, ∃ y, f x = .ok y := by
  have hrel := forall₂_of_mapM h
  clear h
  induction hrel with
  | nil => simp
  | cons hx _ ih => exact List.forall_mem_cons.mpr ⟨⟨_, hx⟩, ih⟩

/-- A column that `Column::new` made has no rows. -/
theorem Column.eq_of_new {type : NativeType} {column : Column} (h : Column.new type = .ok column) :
    column = .values type .new := by
  cases type <;> cases h <;> rfl

namespace Table

/-- An empty index tracks an empty store. -/
theorem tracks_newGlobal (indexId : IndexId) (targetColumns : NonemptyBox ColumnName)
    (filteringColumns : List ColumnName) :
    (Index.newGlobal indexId targetColumns filteringColumns).Tracks ∅ (fun _ => none) 0 := by
  refine ⟨⟨?_, ?_, Nat.zero_le _, rfl⟩, rfl, ?_⟩
  · exact Store.Holds.empty _
  · intro i key value hi
    simp at hi
  · intro i chunk hi
    simp [Index.newGlobal, ColumnVec.new] at hi

theorem tracks_newLocal (indexId : IndexId) (primaryKeyColumns : List ColumnName)
    (partitionKeyColumns targetColumns : NonemptyBox ColumnName)
    (filteringColumns : List ColumnName) :
    (Index.newLocal indexId primaryKeyColumns partitionKeyColumns targetColumns
      filteringColumns).Tracks ∅ (fun _ => none) 0 := by
  refine ⟨⟨?_, rfl⟩, rfl, ?_⟩
  · constructor
    case mapped => simp [ColumnVec.get, ColumnVec.new]
    case ids => simp [ColumnVec.new]
    case shelved => simp
    case occupied => simp
    case holds => exact Store.Holds.empty _
    case sizes => simp [ColumnVec.size, ColumnVec.new]
    case nodup_free => exact List.nodup_nil
    case mem_free => simp [ColumnVec.get, ColumnVec.new]
    case length_free => rfl
    case size_sizes => rfl
    case blocks => exact dvd_zero _
    case size_keys_le => exact Nat.zero_le _
    case size_ids_le => exact Nat.zero_le _
  · intro i chunk hi
    simp [Index.newLocal, ColumnVec.new] at hi

/-- The column of a primary key column is its offset. -/
theorem lookup_primaryKeyColumnsMap (primaryKeyColumns : List ColumnName) (name : ColumnName) :
    (∃ offset, offset < primaryKeyColumns.length ∧
        (primaryKeyColumnsMap primaryKeyColumns).lookup name = some (.primaryKey offset)) ∨
      (name ∉ primaryKeyColumns ∧ (primaryKeyColumnsMap primaryKeyColumns).lookup name = none) := by
  unfold primaryKeyColumnsMap
  rcases FiniteMap.lookup_foldl_insert (fun p : ColumnName × Nat => p.1)
    (fun p => Column.primaryKey p.2) primaryKeyColumns.zipIdx ∅ name with
    ⟨⟨column, offset⟩, hmem, rfl, hlook⟩ | ⟨hne, hlook⟩
  · have hlt := List.snd_lt_of_mem_zipIdx hmem
    exact Or.inl ⟨offset, by simpa using hlt, hlook⟩
  · refine Or.inr ⟨fun hmem => ?_, by rw [hlook]; rfl⟩
    obtain ⟨i, hi, hget⟩ := List.getElem_of_mem hmem
    refine hne (name, i) ?_ rfl
    rw [List.mem_zipIdx_iff_getElem?]
    rw [← hget]
    exact List.getElem?_eq_getElem hi

/-- A column that is not part of the primary key. -/
theorem columnWithValues_spec {tableColumns : AList fun _ : ColumnName => NativeType}
    {name : ColumnName} {p : ColumnName × Column} (h : columnWithValues tableColumns name = .ok p) :
    p.1 = name ∧ ∃ type, tableColumns.lookup p.1 = some type ∧ p.2 = .values type .new := by
  unfold columnWithValues at h
  cases htype : tableColumns.lookup name with
  | none =>
    rw [htype] at h
    cases h
  | some type =>
    rw [htype] at h
    dsimp only at h
    cases hcolumn : Column.new type with
    | error e =>
      rw [hcolumn] at h
      cases h
    | ok column =>
      rw [hcolumn] at h
      obtain rfl := Except.ok.inj h
      exact ⟨rfl, type, htype, Column.eq_of_new hcolumn⟩

/-- The columns of a new table. -/
structure NewColumns (primaryKeyColumns : List ColumnName) (names : List ColumnName)
    (tableColumns : AList fun _ : ColumnName => NativeType) (columns : Columns) : Prop where
  size : Columns.HasSize columns 0
  primaryKey : ∀ name ∈ primaryKeyColumns, ∃ offset < primaryKeyColumns.length,
    Columns.shape columns name = some (.primaryKey offset)
  values : ∀ name ∈ names, name ∉ primaryKeyColumns → ∃ type,
    tableColumns.lookup name = some type ∧ Columns.shape columns name = some (.values type)

/-- The columns that `Table::new` makes. -/
theorem newColumns {primaryKeyColumns names : List ColumnName}
    {tableColumns : AList fun _ : ColumnName => NativeType}
    {columnsWithValues : List (ColumnName × Column)}
    (h : (names.filter fun name =>
        ((primaryKeyColumnsMap primaryKeyColumns).lookup name).isNone).mapM
          (columnWithValues tableColumns) = .ok columnsWithValues) :
    NewColumns primaryKeyColumns names tableColumns
      (columnsWithValues.foldl (fun columns p => columns.insert p.1 p.2)
        (primaryKeyColumnsMap primaryKeyColumns)) := by
  have hmade : ∀ p ∈ columnsWithValues, p.1 ∉ primaryKeyColumns ∧ ∃ type,
      tableColumns.lookup p.1 = some type ∧ p.2 = .values type .new := by
    intro p hp
    obtain ⟨name, hname, hcolumn⟩ := (mem_iff_of_mapM h p).mp hp
    obtain ⟨-, hnone⟩ := List.mem_filter.mp hname
    obtain ⟨rfl, htype⟩ := columnWithValues_spec hcolumn
    refine ⟨?_, htype⟩
    rcases lookup_primaryKeyColumnsMap primaryKeyColumns p.1 with ⟨offset, -, hlook⟩ | ⟨hout, -⟩
    · rw [hlook] at hnone
      simp at hnone
    · exact hout
  have hlook := fun name => FiniteMap.lookup_foldl_insert (fun p : ColumnName × Column => p.1)
    (fun p => p.2) columnsWithValues (primaryKeyColumnsMap primaryKeyColumns) name
  constructor
  case size =>
    intro name column hcolumn
    rcases hlook name with ⟨p, hp, rfl, hpl⟩ | ⟨-, hsame⟩
    · obtain ⟨-, type, -, hval⟩ := hmade p hp
      rw [hpl] at hcolumn
      obtain rfl := Option.some.inj hcolumn
      rw [hval]
      rfl
    · rw [hsame] at hcolumn
      rcases lookup_primaryKeyColumnsMap primaryKeyColumns name with
        ⟨offset, -, hoff⟩ | ⟨-, hnone⟩
      · rw [hoff] at hcolumn
        obtain rfl := Option.some.inj hcolumn
        trivial
      · rw [hnone] at hcolumn
        simp at hcolumn
  case primaryKey =>
    intro name hname
    rcases hlook name with ⟨p, hp, rfl, -⟩ | ⟨-, hsame⟩
    · exact absurd hname (hmade p hp).1
    · rcases lookup_primaryKeyColumnsMap primaryKeyColumns name with
        ⟨offset, hlt, hoff⟩ | ⟨hout, -⟩
      · refine ⟨offset, hlt, ?_⟩
        unfold Columns.shape
        rw [hsame, hoff]
        rfl
      · exact absurd hname hout
  case values =>
    intro name hname hout
    have hnone : (primaryKeyColumnsMap primaryKeyColumns).lookup name = none := by
      rcases lookup_primaryKeyColumnsMap primaryKeyColumns name with ⟨offset, -, hoff⟩ | ⟨-, hnone⟩
      · rcases FiniteMap.lookup_foldl_insert (fun p : ColumnName × Nat => p.1)
          (fun p => Column.primaryKey p.2) primaryKeyColumns.zipIdx ∅ name with
          ⟨p, hp, rfl, -⟩ | ⟨-, hempty⟩
        · exact absurd (List.fst_mem_of_mem_zipIdx hp) hout
        · exact hempty
      · exact hnone
    have hmem : name ∈ names.filter fun name =>
        ((primaryKeyColumnsMap primaryKeyColumns).lookup name).isNone := by
      refine List.mem_filter.mpr ⟨hname, ?_⟩
      rw [hnone]
      rfl
    obtain ⟨p, hp⟩ := exists_image_of_mapM h name hmem
    obtain ⟨rfl, -⟩ := columnWithValues_spec hp
    rcases hlook p.1 with ⟨p', hp', hfst, hpl⟩ | ⟨hne, -⟩
    · obtain ⟨-, type, htype, hval⟩ := hmade p' hp'
      refine ⟨type, hfst ▸ htype, ?_⟩
      unfold Columns.shape
      rw [hpl, hval]
      rfl
    · exact absurd rfl (hne p ((mem_iff_of_mapM h p).mpr ⟨p.1, hmem, hp⟩))

/-- What a table made by `Table::new` looks like. -/
structure Made (indexKey : IndexKey) (primaryKeyColumns : NonemptyBox ColumnName)
    (partitionPrimaryKeyCount : ℕ+) (partitionKeyColumns : Option (NonemptyBox ColumnName))
    (filteringColumns : List ColumnName) (tableColumns : AList fun _ : ColumnName => NativeType)
    (table : Table) : Prop where
  consistent : table.Consistent ∅ fun _ => none
  unknown : ∀ key, table.primaryIds.lookup key = none
  free : table.freePrimaryIds ≠ []
  indexKey_eq : table.schema.indexKey = indexKey
  partitionPrimaryKeyCount_eq :
    table.schema.partitionPrimaryKeyCount = partitionPrimaryKeyCount
  partitionColumns_eq : table.schema.partitionColumns = partitionKeyColumns.map fun columns =>
    (columns, columns.toList.filter fun col => !primaryKeyColumns.toList.contains col)
  filteringColumns_eq : table.schema.filteringColumns = filteringColumns
  primaryKey : ∀ name ∈ primaryKeyColumns.toList, ∃ offset < primaryKeyColumns.length,
    table.schema.shape name = some (.primaryKey offset)
  values : ∀ name ∈ partitionKeyColumns.elim [] NonemptyBox.toList ++ filteringColumns,
    name ∉ primaryKeyColumns.toList → ∃ type, tableColumns.lookup name = some type ∧
      table.schema.shape name = some (.values type)

/-- A table without rows. -/
theorem consistent_of_empty {table : Table} (hids : table.primaryIds = ∅)
    (hfree : table.freePrimaryIds = []) (hkeys : table.primaryKeys = .new)
    (hcolumns : Columns.HasSize table.columns 0)
    (hindex : table.index.Tracks ∅ (fun _ => none) 0) : table.Consistent ∅ fun _ => none := by
  have hcount : table.rowCount = 0 := by
    unfold rowCount
    rw [hids]
    rfl
  have hsize : table.primaryKeys.size = 0 := by
    rw [hkeys]
    rfl
  constructor
  case index => rw [hsize]; exact hindex
  case columns => rw [hsize]; exact hcolumns
  case rowCount_le => rw [hcount]; exact Nat.zero_le _
  case free => rw [hcount, hsize, hfree]; rfl
  case ids_lt => simp [hids]
  case ids_inj => simp [hids]
  case ids_surj => simp [hcount]
  case keys => simp [hids]
  case fresh =>
    intro id _
    unfold rowAt Row.fresh
    have hstamp : table.index.stamp (Idx.idx id) = .min := by
      unfold Index.stamp
      rw [ColumnVec.getElem?_of_size_le (by rw [hindex.size_timestamps]; exact Nat.zero_le _)]
      rfl
    have hcells : Columns.cells table.columns id = Cells.fresh := by
      funext name
      unfold Columns.cells Cells.fresh
      cases hlook : table.columns.lookup name with
      | none => rfl
      | some column =>
        have hcolumn := hcolumns name column hlook
        cases column with
        | primaryKey offset => rfl
        | values type vec =>
          have hvec : vec.size = 0 := hcolumn
          have hget : vec.get id = none :=
            ColumnVec.getElem?_of_size_le (by rw [hvec]; exact Nat.zero_le _)
          simp only [Option.elim_some, Column.cell, hget, Option.elim_none]
    rw [hstamp, hcells, hkeys]
    rfl

/-- The index that `Table::new` makes. -/
theorem tracks_newIndex (indexId : IndexId) (primaryKeyColumns : List ColumnName)
    (partitionKeyColumns : Option (NonemptyBox ColumnName)) (targetColumns : NonemptyBox ColumnName)
    (filteringColumns : List ColumnName) :
    (match partitionKeyColumns with
      | some columns =>
        Index.newLocal indexId primaryKeyColumns columns targetColumns filteringColumns
      | none => Index.newGlobal indexId targetColumns filteringColumns).Tracks ∅
        (fun _ => none) 0 := by
  cases partitionKeyColumns with
  | none => exact tracks_newGlobal indexId targetColumns filteringColumns
  | some columns =>
    exact tracks_newLocal indexId primaryKeyColumns columns targetColumns filteringColumns

/-- The reservations at the end of `Table::new`. -/
theorem reserve_new {base reserved table : Table} (h : base.Consistent ∅ fun _ => none)
    (hrows : base.reservePrimaryIds = (.ok (), reserved))
    (hpartitions : reserved.reservePartitionIds = (.ok (), table)) :
    (table.Consistent ∅ fun _ => none) ∧ base.SameRows table ∧ table.freePrimaryIds ≠ [] := by
  obtain ⟨hcons, hsame, hfree⟩ := reservePrimaryIds_spec h
  rw [hrows] at hcons hsame hfree
  obtain ⟨-, hcons', hsame', hids, -⟩ := reservePartitionIds_spec hcons
  rw [hpartitions] at hcons' hsame' hids
  refine ⟨hcons', hsame.trans hsame', ?_⟩
  have hne := hfree rfl
  rw [← hids] at hne
  exact hne

theorem new_made {indexKey : IndexKey} {primaryKeyColumns : NonemptyBox ColumnName}
    {partitionPrimaryKeyCount : ℕ+} {partitionKeyColumns : Option (NonemptyBox ColumnName)}
    {targetColumns : NonemptyBox ColumnName} {filteringColumns : List ColumnName}
    {tableColumns : AList fun _ : ColumnName => NativeType} {table : Table}
    (h : Table.new indexKey primaryKeyColumns partitionPrimaryKeyCount partitionKeyColumns
      targetColumns filteringColumns tableColumns = .ok table) :
    Made indexKey primaryKeyColumns partitionPrimaryKeyCount partitionKeyColumns filteringColumns
      tableColumns table := by
  unfold Table.new at h
  split at h
  · cases h
  · obtain ⟨⟨indexId, generator⟩, -, h⟩ := bind_eq_ok h
    obtain ⟨columnsWithValues, hcolumns, h⟩ := bind_eq_ok h
    have hnew := newColumns hcolumns
    dsimp only at h
    split at h
    · cases h
    · next reserved hrows =>
    split at h
    · cases h
    · next table' hpartitions =>
    obtain rfl := Except.ok.inj h
    obtain ⟨hcons, hsame, hfree⟩ := reserve_new (consistent_of_empty rfl rfl rfl hnew.size
      (tracks_newIndex indexId primaryKeyColumns.toList partitionKeyColumns targetColumns
        filteringColumns)) hrows hpartitions
    constructor
    case consistent => exact hcons
    case unknown =>
      intro key
      rw [hsame.primaryIds]
      rfl
    case free => exact hfree
    case indexKey_eq => rw [hsame.schema]; rfl
    case partitionPrimaryKeyCount_eq => rw [hsame.schema]; rfl
    case partitionColumns_eq =>
      rw [hsame.schema]
      cases partitionKeyColumns <;> rfl
    case filteringColumns_eq =>
      rw [hsame.schema]
      cases partitionKeyColumns <;> rfl
    case primaryKey =>
      rw [hsame.schema]
      exact hnew.primaryKey
    case values =>
      rw [hsame.schema]
      exact hnew.values

end Table

/-- Every partition column is a column of the primary key, or one with values outside of it. -/
def Schema.Partitioned (schema : Schema) : Prop :=
  ∀ columns nonpk, schema.partitionColumns = some (columns, nonpk) → ∀ name ∈ columns.toList,
    (∃ offset, schema.shape name = some (.primaryKey offset)) ∨
      name ∈ nonpk ∧ ∃ type, schema.shape name = some (.values type)

theorem Table.IsNew.partitioned {table : Table} (h : table.IsNew) : table.schema.Partitioned := by
  obtain ⟨indexKey, primaryKeyColumns, _, partitionKeyColumns, _, _, _, hnew⟩ := h
  have hmade := Table.new_made hnew
  intro columns nonpk hcolumns name hname
  rw [hmade.partitionColumns_eq] at hcolumns
  obtain ⟨columns', rfl, heq⟩ := Option.map_eq_some_iff.mp hcolumns
  obtain ⟨rfl, rfl⟩ := Prod.mk.inj heq
  by_cases hpk : name ∈ primaryKeyColumns.toList
  · obtain ⟨offset, -, hshape⟩ := hmade.primaryKey name hpk
    exact Or.inl ⟨offset, hshape⟩
  · obtain ⟨type, -, hshape⟩ := hmade.values name (List.mem_append_left _ hname) hpk
    exact Or.inr ⟨List.mem_filter.mpr ⟨hname, by simpa using hpk⟩, type, hshape⟩

/-! ## The invariant of a world -/

namespace World

/-- What no call changes. -/
def schema (w : World) : Schema := w.table.schema

/-- A partition with the key exists. -/
def present (w : World) : PartitionKey → Bool := w.table.index.present

/-- The table knows the key. -/
def Knows (w : World) (key : PrimaryKey) : Prop := (w.table.primaryIds.lookup key).isSome

/-- The table and the store fit together. -/
def Consistent (w : World) : Prop := w.table.Consistent w.store w.held

/-- What a table tracks is what the store holds. -/
theorem consistent_of_table {w : World} {shelf : Shelf} (h : w.table.Consistent w.store shelf) :
    w.Consistent ∧ w.held = shelf := by
  have hheld : w.held = shelf := h.index.held_eq
  unfold Consistent
  rw [hheld]
  exact ⟨h, rfl⟩

/-- The partition of a held row exists. -/
theorem Consistent.present_of_held {w : World} (h : w.Consistent) {key : PrimaryKey}
    {pkey : PartitionKey} (hkey : (w.row key).target.key = some pkey) : w.present pkey = true :=
  Table.Consistent.present_of_held h hkey

/-- In a local index the partitions are those of the rows. -/
theorem Consistent.present_iff {w : World} (h : w.Consistent)
    (hkind : w.schema.partitionColumns.isSome) (pkey : PartitionKey) :
    w.present pkey = true ↔ ∃ key, (w.row key).target.key = some pkey :=
  Table.Consistent.present_iff h hkind pkey

/-- A row that the table does not know is fresh. -/
theorem row_of_not_knows {w : World} {key : PrimaryKey} (h : ¬w.Knows key) :
    w.row key = .fresh :=
  Table.Consistent.rows_eq_fresh (Option.not_isSome_iff_eq_none.mp h)

variable [DecimalNormalizer] {w : World} {call : Call} {key : PrimaryKey}

/-- The key a call is looked up by. -/
def keyOf (w : World) (call : Call) : Except Failure PrimaryKey :=
  w.table.normalizePrimaryKey call.primaryKey

/-- The call reaches the row of a key. -/
def Reaches (w : World) (call : Call) (key : PrimaryKey) : Prop := w.table.Reaches call key

theorem Reaches.keyOf_eq (h : w.Reaches call key) : w.keyOf call = .ok key := h.2.1

/-- What a call does that reaches the row of a key. -/
structure Stepped (w : World) (call : Call) (key : PrimaryKey) : Prop where
  accepts : Store.AcceptsAll w.store w.store (w.emitted call)
  consistent : (w.step call).Consistent
  schema : (w.step call).schema = w.schema
  knows : ∀ key', (w.step call).Knows key' ↔ w.Knows key' ∨ key' = key
  row : (w.step call).row =
    Function.update w.row key ((w.row key).call w.schema w.present call)
  succeeds_iff : w.Succeeds call ↔ call.WellFormed w.schema
  adds_eq : (w.emitted call).any Operation.isAdd = (w.row key).adds w.schema w.present call

/-- What a call does that reaches no row. -/
structure Refused (w : World) (call : Call) : Prop where
  emitted : w.emitted call = []
  consistent : (w.step call).Consistent
  schema : (w.step call).schema = w.schema
  knows : ∀ key, (w.step call).Knows key ↔ w.Knows key
  row : (w.step call).row = w.row
  present : (w.step call).present = w.present
  not_succeeds : ¬w.Succeeds call

/-- A call on a table is a call on the row it reaches. -/
theorem step_stepped (h : w.Consistent) (hreach : w.Reaches call key) : w.Stepped call key := by
  obtain ⟨shelf', hstep⟩ := Table.call_stepped h hreach
  have hcons : (w.step call).table.Consistent (w.step call).store shelf' := hstep.consistent
  obtain ⟨hcons, hheld⟩ := consistent_of_table hcons
  constructor
  case accepts => exact hstep.accepts
  case consistent => exact hcons
  case schema => exact hstep.schema
  case knows => exact hstep.known
  case row =>
    unfold World.row
    rw [hheld]
    exact hstep.rows
  case succeeds_iff => exact hstep.ok_iff
  case adds_eq => exact hstep.adds_eq

/-- A call that reaches no row changes no row. -/
theorem step_refused (h : w.Consistent) (hreach : ∀ key, ¬w.Reaches call key) :
    w.Refused call := by
  obtain ⟨⟨e, he⟩, hcons, hsame⟩ := Table.call_refused h hreach
  have hresult : w.result call = .error e := he
  have hemitted : w.emitted call = [] := by
    unfold World.emitted
    rw [hresult]
    rfl
  have hstep : (w.step call).store = w.store := by
    unfold World.step
    rw [hemitted]
    rfl
  have hcons' : (w.step call).table.Consistent (w.step call).store w.held := by
    rw [hstep]
    exact hcons
  obtain ⟨hcons', hheld⟩ := consistent_of_table hcons'
  constructor
  case emitted => exact hemitted
  case consistent => exact hcons'
  case schema => exact hsame.schema
  case knows =>
    intro key
    have hids : (w.step call).table.primaryIds = w.table.primaryIds := hsame.primaryIds
    unfold Knows
    rw [hids]
  case row =>
    unfold World.row
    rw [hheld]
    exact hsame.rows w.held
  case present => exact hsame.present
  case not_succeeds =>
    rintro ⟨operations, hok⟩
    rw [hresult] at hok
    cases hok

/-- A call that succeeds reaches a row. -/
theorem Succeeds.reaches (h : w.Consistent) (hok : w.Succeeds call) : ∃ key, w.Reaches call key := by
  by_contra hreach
  push Not at hreach
  exact (step_refused h hreach).not_succeeds hok

/-- A call that succeeds reaches the row of its key. -/
theorem Succeeds.reaches_of_keyOf (h : w.Consistent) (hok : w.Succeeds call)
    (hkey : w.keyOf call = .ok key) : w.Reaches call key := by
  obtain ⟨key', hreach⟩ := hok.reaches h
  obtain rfl : key' = key := Except.ok.inj (hreach.keyOf_eq.symm.trans hkey)
  exact hreach

theorem step_consistent (h : w.Consistent) (call : Call) : (w.step call).Consistent := by
  by_cases hreach : ∃ key, w.Reaches call key
  · obtain ⟨key, hreach⟩ := hreach
    exact (step_stepped h hreach).consistent
  · push Not at hreach
    exact (step_refused h hreach).consistent

/-- No call changes the schema. -/
theorem step_schema (h : w.Consistent) (call : Call) : (w.step call).schema = w.schema := by
  by_cases hreach : ∃ key, w.Reaches call key
  · obtain ⟨key, hreach⟩ := hreach
    exact (step_stepped h hreach).schema
  · push Not at hreach
    exact (step_refused h hreach).schema

theorem step_accepts (h : w.Consistent) (call : Call) :
    Store.AcceptsAll w.store w.store (w.emitted call) := by
  by_cases hreach : ∃ key, w.Reaches call key
  · obtain ⟨key, hreach⟩ := hreach
    exact (step_stepped h hreach).accepts
  · push Not at hreach
    rw [(step_refused h hreach).emitted]
    trivial

/-- A call changes no row but that of its key. -/
theorem step_row_of_ne (h : w.Consistent) (hne : w.keyOf call ≠ .ok key) :
    (w.step call).row key = w.row key := by
  by_cases hreach : ∃ key, w.Reaches call key
  · obtain ⟨key', hreach⟩ := hreach
    rw [(step_stepped h hreach).row, Function.update_of_ne]
    rintro rfl
    exact hne hreach.keyOf_eq
  · push Not at hreach
    rw [(step_refused h hreach).row]

/-- A call that succeeds is a call on the row of its key. -/
theorem step_row_of_succeeds (h : w.Consistent) (hok : w.Succeeds call)
    (hkey : w.keyOf call = .ok key) :
    (w.step call).row key = (w.row key).call w.schema w.present call := by
  rw [(step_stepped h (hok.reaches_of_keyOf h hkey)).row, Function.update_self]

/-- Lookup keys depend on the schema only. -/
theorem keyOf_congr {w' : World} (h : w'.schema = w.schema) (call : Call) :
    w'.keyOf call = w.keyOf call :=
  Table.normalizePrimaryKey_congr h call.primaryKey

theorem step_keyOf (h : w.Consistent) (call call' : Call) :
    (w.step call).keyOf call' = w.keyOf call' :=
  keyOf_congr (step_schema h call) call'

/-! ## Runs -/

theorem run_consistent (h : w.Consistent) (calls : List Call) :
    (Machine.run step w calls).Consistent :=
  Machine.run_invariant (fun (w' : World) call (hw : w'.Consistent) => step_consistent hw call) h
    calls

/-- A run keeps what every call on a consistent world keeps. -/
theorem run_keeps {P : World → Prop}
    (hstep : ∀ (w' : World) call, w'.Consistent → P w' → P (w'.step call)) (h : w.Consistent)
    (hw : P w) (calls : List Call) : P (Machine.run step w calls) :=
  (Machine.run_invariant (fun (w' : World) call (hw' : w'.Consistent ∧ P w') =>
    ⟨step_consistent hw'.1 call, hstep w' call hw'.1 hw'.2⟩) ⟨h, hw⟩ calls).2

theorem run_schema (h : w.Consistent) (calls : List Call) :
    (Machine.run step w calls).schema = w.schema :=
  run_keeps (P := fun w' => w'.schema = w.schema)
    (fun _ call hw' heq => (step_schema hw' call).trans heq) h rfl calls

omit [DecimalNormalizer] in
/-- A new table fits together with the empty store. -/
theorem consistent_init {table : Table} (h : table.IsNew) : (init table).Consistent := by
  obtain ⟨_, _, _, _, _, _, _, hnew⟩ := h
  exact (consistent_of_table (Table.new_made hnew).consistent).1

omit [DecimalNormalizer] in
/-- A new table knows no key. -/
theorem not_knows_init {table : Table} (h : table.IsNew) (key : PrimaryKey) :
    ¬(init table).Knows key := by
  obtain ⟨_, _, _, _, _, _, _, hnew⟩ := h
  unfold Knows
  rw [show (init table).table = table from rfl, (Table.new_made hnew).unknown key]
  exact Bool.false_ne_true

omit [DecimalNormalizer] in
/-- A new table has fresh rows. -/
theorem row_init {table : Table} (h : table.IsNew) (key : PrimaryKey) :
    (init table).row key = .fresh :=
  row_of_not_knows (not_knows_init h key)

/-- Every reachable world is consistent. -/
theorem Reachable.consistent (h : w.Reachable) : w.Consistent := by
  obtain ⟨table, calls, hnew, rfl⟩ := h
  exact run_consistent (consistent_init hnew) calls

end World

/-! ## Three tables -/

namespace Sample

/-- No column of the tables below is a decimal. -/
@[reducible] def decimals : DecimalNormalizer := ⟨some⟩

/-- What `Table::new` makes of a table with the key `pk`, the columns `c` and `f` and an index of
the column `v`. -/
def new (partitionKeyColumns : Option (NonemptyBox ColumnName))
    (filteringColumns : List ColumnName) : Except Failure Table :=
  Table.new (.new "ks" "idx") ⟨⟨"pk"⟩, []⟩ (Nat.toPNat' 1) partitionKeyColumns ⟨⟨"v"⟩, []⟩ filteringColumns
    ((AList.singleton ⟨"c"⟩ .int).insert ⟨"f"⟩ .int)

/-- A table with a global index. -/
def globalTable : Table := (new none [⟨"f"⟩]).toOption.get (by decide +kernel)

/-- A table with a local index, partitioned by its key. -/
def keyTable : Table := (new (some ⟨⟨"pk"⟩, []⟩) [⟨"f"⟩]).toOption.get (by decide +kernel)

/-- A table with a local index, partitioned by the column `c`. -/
def columnTable : Table := (new (some ⟨⟨"c"⟩, []⟩) []).toOption.get (by decide +kernel)

theorem eq_ok_of_toOption {α : Type} (x : Except Failure α) (h : x.toOption.isSome) :
    x = .ok (x.toOption.get h) := by
  cases x with
  | error e => cases h
  | ok a => rfl

theorem new_globalTable : new none [⟨"f"⟩] = .ok globalTable :=
  eq_ok_of_toOption (new none [⟨"f"⟩]) _

theorem new_keyTable : new (some ⟨⟨"pk"⟩, []⟩) [⟨"f"⟩] = .ok keyTable :=
  eq_ok_of_toOption (new (some ⟨⟨"pk"⟩, []⟩) [⟨"f"⟩]) _

theorem new_columnTable : new (some ⟨⟨"c"⟩, []⟩) [] = .ok columnTable :=
  eq_ok_of_toOption (new (some ⟨⟨"c"⟩, []⟩) []) _

theorem isNew_globalTable : globalTable.IsNew := ⟨_, _, _, _, _, _, _, new_globalTable⟩

theorem isNew_keyTable : keyTable.IsNew := ⟨_, _, _, _, _, _, _, new_keyTable⟩

theorem isNew_columnTable : columnTable.IsNew := ⟨_, _, _, _, _, _, _, new_columnTable⟩

/-- The key of a row. -/
def key (n : Int32) : PrimaryKey := .fromIter [.int n]

/-- A time after `Timestamp::MIN`. -/
def time (n : Nat) : Timestamp := .fromMicros (n + 1)

/-- A vector. -/
def vector (bits : UInt32) : DbIndexedValue := .vector ⟨[bits]⟩

/-- An upsert of a row with one more column. -/
def upsert (row : Int32) (time : Nat) (target : Option DbIndexedValue) (columnTime : Nat)
    (column : Option Int32) : Call :=
  .upsert (.new "ks" "idx") (key row) ⟨.new (Sample.time time) target,
    [.new (Sample.time columnTime) (column.map fun value => .filtering (.int value))]⟩

/-- A delete of a row. -/
def delete (row : Int32) (time : Nat) : Call :=
  .delete (.new "ks" "idx") (key row) (Sample.time time)

end Sample

end VectorStore
