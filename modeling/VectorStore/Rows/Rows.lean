import VectorStore.Rows.Columns
import VectorStore.Table.IndexUpdate

/-!
# The rows of a table

`Table.rows` reads a table and what its index holds as rows, by normalized key.
`Table.Consistent` is the invariant that makes the reading faithful: identifiers are given out in
order, every key has its own, and the positions that are not given out yet are fresh rows.
-/

namespace VectorStore

/-! ## Reading rows -/

/-- The schema of a table. -/
def Table.schema (table : Table) : Schema where
  indexKey := table.indexKey
  partitionPrimaryKeyCount := table.partitionPrimaryKeyCount
  needsCkNormalization := table.needsCkNormalization
  shape := Columns.shape table.columns
  partitionColumns := table.index.data.partitionColumns
  filteringColumns := table.index.filteringColumns

/-- The row of an identifier. -/
def Table.rowAt (table : Table) (shelf : Shelf) (id : PrimaryId) : Row :=
  ⟨(table.primaryKeys.get id).join, Columns.cells table.columns id,
    ⟨table.index.stamp (Idx.idx id), shelf (Idx.idx id)⟩⟩

/-- The row of a normalized key. -/
def Table.rows (table : Table) (shelf : Shelf) (key : PrimaryKey) : Row :=
  (table.primaryIds.lookup key).elim .fresh (table.rowAt shelf)

/-- The row of an identifier does not depend on the epoch. -/
theorem Table.rowAt_congr (table : Table) (shelf : Shelf) {id id' : PrimaryId}
    (h : Idx.idx id = Idx.idx id') : table.rowAt shelf id = table.rowAt shelf id' := by
  unfold rowAt Columns.cells Column.cell ColumnVec.get
  rw [h]

/-- The columns of a row are those of its identifier. -/
theorem Table.column_eq (table : Table) (shelf : Shelf) (id : PrimaryId) :
    (fun name => (table.columns.lookup name).bind fun column =>
      column.get id table.primaryKeys) = (table.rowAt shelf id).column table.schema := by
  funext name
  unfold Row.column rowAt schema Columns.shape Columns.cells
  dsimp only
  cases table.columns.lookup name with
  | none => rfl
  | some column =>
    cases column with
    | values type vec =>
      simp only [Option.bind_some, Option.map_some, Option.elim_some, Column.get, Column.shape,
        Column.cell]
      cases vec.get id <;> rfl
    | primaryKey offset => rfl

/-- The partition key of a row is that of its identifier. -/
theorem Table.partitionKey_eq {table : Table} {data : LocalData}
    (hdata : table.index.data = .localIndex data) (shelf : Shelf) (id : PrimaryId) :
    VectorStore.partitionKey id data.partitionKeyColumns.toList table.primaryKeys table.columns =
      (table.rowAt shelf id).partitionKey table.schema := by
  have hcols : table.schema.partitionColumns =
      some (data.partitionKeyColumns, data.nonpkPartitionKeyColumns) := by
    unfold schema
    dsimp only
    rw [hdata]
    rfl
  unfold VectorStore.partitionKey Row.partitionKey
  rw [column_eq table shelf id, hcols]

/-- The entry of a row in the store. -/
def Store.entry (store : Store) (i : Nat) : Option (PartitionId × SplittingValues) :=
  (store.entries.find? fun e => Idx.idx e.1.2 = i).map fun e => (e.1.1, e.2)

namespace World

/-- What the store holds, by row, with the keys of the partitions. -/
def held (w : World) : Shelf := fun i =>
  (Store.entry w.store i).bind fun entry =>
    (w.table.index.data.keyOf entry.1).map fun key => (key, entry.2)

/-- The row of a normalized key. -/
def row (w : World) : PrimaryKey → Row := w.table.rows w.held

end World

/-- The entry of a row is found by its index. -/
theorem Store.Holds.entry_eq {store : Store} {epochs : Nat → Epoch}
    {rows : Nat → Option (PartitionId × SplittingValues)} (h : store.Holds epochs rows)
    (hlt : ∀ i, rows i ≠ none → i < PrimaryId.reserved) (i : Nat) :
    Store.entry store i = rows i := by
  unfold Store.entry
  cases hfind : store.entries.find? fun e => Idx.idx e.1.2 = i with
  | some e =>
    obtain ⟨⟨p, id⟩, v⟩ := e
    have hidx : Idx.idx id = i := by simpa using List.find?_some hfind
    have hlook : store.lookup (p, id) = some v :=
      AList.mem_lookup_iff.mpr (List.mem_of_find?_eq_some hfind)
    rw [← hidx, ((h p id v).mp hlook).1]
    rfl
  | none =>
    cases hrow : rows i with
    | none => rfl
    | some entry =>
      obtain ⟨p, v⟩ := entry
      have hi : i < PrimaryId.reserved := hlt i (by rw [hrow]; exact Option.some_ne_none _)
      have hlook := h.lookup_mk' hrow hi
      have hmem := AList.mem_lookup_iff.mp (Option.mem_def.mpr hlook)
      have hno := List.find?_eq_none.mp hfind _ hmem
      exact absurd (PrimaryId.idx_mk' hi _) (by simpa using hno)

/-- The shelf an index tracks is what the store holds. -/
theorem Index.Tracks.held_eq {table : Table} {store : Store} {shelf : Shelf} {size : Nat}
    (h : table.index.Tracks store shelf size) : World.held ⟨table, store⟩ = shelf := by
  funext i
  have hentry : Store.entry store i =
      shelf.place (table.index.data.locate table.index.indexId) i := by
    refine h.data.holds.entry_eq (fun j hj => ?_) i
    cases hrow : shelf j with
    | none => exact absurd (Shelf.place_eq_none hrow) hj
    | some entry => exact (h.data.lt_size hrow).trans_le h.data.size_le
  unfold World.held
  rw [hentry]
  cases hrow : shelf i with
  | none => rw [Shelf.place_eq_none hrow, Option.bind_none]
  | some entry =>
    obtain ⟨key, value⟩ := entry
    obtain ⟨p, hp⟩ := h.data.exists_locate hrow
    rw [Shelf.place_eq_some hrow hp, Option.bind_some, h.data.keyOf_locate hp, Option.map_some]

namespace Table

/-! ## The invariant -/

/-- The table, the store and the shelf fit together. -/
structure Consistent (table : Table) (store : Store) (shelf : Shelf) : Prop where
  index : table.index.Tracks store shelf table.primaryKeys.size
  columns : Columns.HasSize table.columns table.primaryKeys.size
  rowCount_le : table.rowCount ≤ table.primaryKeys.size
  /-- The identifiers that are not given out yet, in order. -/
  free : table.freePrimaryIds =
    (List.range' table.rowCount (table.primaryKeys.size - table.rowCount)).map
      (PrimaryId.mk' · .new)
  ids_lt : ∀ key id, table.primaryIds.lookup key = some id → Idx.idx id < table.rowCount
  ids_inj : ∀ key key' id id', table.primaryIds.lookup key = some id →
    table.primaryIds.lookup key' = some id' → Idx.idx id = Idx.idx id' → key = key'
  ids_surj : ∀ i, i < table.rowCount → ∃ key id, table.primaryIds.lookup key = some id ∧
    Idx.idx id = i
  keys : ∀ key id, table.primaryIds.lookup key = some id →
    (table.primaryKeys.get id).join.isSome
  fresh : ∀ id, table.rowCount ≤ Idx.idx id → table.rowAt shelf id = .fresh

namespace Consistent

variable {table : Table} {store : Store} {shelf : Shelf} {key : PrimaryKey} {id : PrimaryId}

theorem size_le (h : table.Consistent store shelf) :
    table.primaryKeys.size ≤ PrimaryId.reserved := h.index.data.size_le

theorem lt_size (h : table.Consistent store shelf) (hid : table.primaryIds.lookup key = some id) :
    Idx.idx id < table.primaryKeys.size :=
  (h.ids_lt key id hid).trans_le h.rowCount_le

theorem rows_eq (hid : table.primaryIds.lookup key = some id) :
    table.rows shelf key = table.rowAt shelf id := by
  rw [rows, hid, Option.elim_some]

theorem rows_eq_fresh (hid : table.primaryIds.lookup key = none) :
    table.rows shelf key = .fresh := by
  rw [rows, hid, Option.elim_none]

/-- The next identifier is the first that is free. -/
theorem free_eq_nil_iff (h : table.Consistent store shelf) :
    table.freePrimaryIds = [] ↔ table.rowCount = table.primaryKeys.size := by
  rw [h.free, List.map_eq_nil_iff, List.range'_eq_nil_iff]
  have := h.rowCount_le
  omega

/-- A held row has a key. -/
theorem exists_key (h : table.Consistent store shelf) {i : Nat} {entry} (hi : shelf i = some entry) :
    ∃ key id, table.primaryIds.lookup key = some id ∧ Idx.idx id = i := by
  refine h.ids_surj i ?_
  by_contra hge
  have hlt := (h.index.data.lt_size hi).trans_le h.size_le
  have hidx : Idx.idx (PrimaryId.mk' i .new) = i := PrimaryId.idx_mk' hlt .new
  have hfresh := h.fresh (PrimaryId.mk' i .new) (by rw [hidx]; exact not_lt.mp hge)
  have hheld := congrArg (fun row => row.target.held) hfresh
  simp only [rowAt, hidx, hi] at hheld
  simp [Row.fresh, Target.fresh] at hheld

/-- The partition of a held row exists. -/
theorem present_of_held (h : table.Consistent store shelf) {pkey : PartitionKey}
    (hkey : (table.rows shelf key).target.key = some pkey) : table.index.present pkey = true := by
  cases hid : table.primaryIds.lookup key with
  | none =>
    rw [rows_eq_fresh hid] at hkey
    simp [Row.fresh, Target.fresh, Target.key] at hkey
  | some id =>
    rw [rows_eq hid, Target.key] at hkey
    obtain ⟨⟨cur, value⟩, hheld, rfl⟩ := Option.map_eq_some_iff.mp hkey
    exact Option.isSome_iff_exists.mpr (h.index.data.exists_locate hheld)

/-- A local index has a partition exactly for the keys that some row is held under. -/
theorem present_iff (h : table.Consistent store shelf)
    (hkind : table.index.data.partitionColumns.isSome) (pkey : PartitionKey) :
    table.index.present pkey = true ↔ ∃ key, (table.rows shelf key).target.key = some pkey := by
  constructor
  · intro hp
    unfold Index.present at hp
    cases hdata : table.index.data with
    | globalIndex =>
      rw [hdata] at hkind
      simp [IndexData.partitionColumns] at hkind
    | localIndex data =>
      have htracks := h.index.data
      rw [hdata] at htracks hp
      obtain ⟨p, hlook⟩ := Option.isSome_iff_exists.mp hp
      rcases htracks.1.occupied pkey p hlook with ⟨i, value, hi⟩ | hnone
      · obtain ⟨key, id, hid, hidx⟩ := h.exists_key hi
        refine ⟨key, ?_⟩
        rw [rows_eq hid, rowAt, Target.key, hidx, hi]
        rfl
      · simp at hnone
  · rintro ⟨key, hkey⟩
    exact h.present_of_held hkey

end Consistent

end Table

end VectorStore
