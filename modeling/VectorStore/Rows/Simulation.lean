import VectorStore.Rows.Reserve

/-!
# A call on a table is a call on a row

`upsert` and `delete` are followed through the table, step by step: the identifier of the key, the
columns, the index.  Each step keeps `Table.Consistent` and changes the row of the key as the
function of the same name on rows says.  Together they give `World.step_rows`: a call changes the
row of its key by `Row.call` and no other row.
-/

namespace VectorStore

namespace Table

variable {table : Table} {store : Store} {shelf : Shelf} {key : PrimaryKey} {id : PrimaryId}

/-! ## The identifier of a key -/

section Keys

variable [DecimalNormalizer]

/-- Normalization reads the schema only. -/
theorem normalizePrimaryKey_congr {table' : Table} (h : table'.schema = table.schema)
    (raw : PrimaryKey) : table'.normalizePrimaryKey raw = table.normalizePrimaryKey raw := by
  have hcount : table'.partitionPrimaryKeyCount = table.partitionPrimaryKeyCount :=
    congrArg Schema.partitionPrimaryKeyCount h
  have hneeds : table'.needsCkNormalization = table.needsCkNormalization :=
    congrArg Schema.needsCkNormalization h
  unfold normalizePrimaryKey
  rw [hcount, hneeds]

/-- What finding the identifier of a key does: the row of the key has the key, and that is all. -/
structure Found (table : Table) (store : Store) (shelf : Shelf) (raw key : PrimaryKey)
    (id : PrimaryId) (table' : Table) : Prop where
  consistent : table'.Consistent store shelf
  lookup : table'.primaryIds.lookup key = some id
  known : ∀ key', (table'.primaryIds.lookup key').isSome ↔
    (table.primaryIds.lookup key').isSome ∨ key' = key
  schema : table'.schema = table.schema
  index : table'.index = table.index
  rows : table'.rows shelf =
    Function.update (table.rows shelf) key ((table.rows shelf key).touch raw)

/-- The identifier of a known key. -/
theorem addPrimaryKey_of_known (h : table.Consistent store shelf) {raw : PrimaryKey}
    (hkey : table.normalizePrimaryKey raw = .ok key) (hid : table.primaryIds.lookup key = some id) :
    table.addPrimaryKey raw = (.ok id, table) ∧ table.Found store shelf raw key id table := by
  constructor
  · unfold addPrimaryKey
    simp only [hkey, hid]
  · refine ⟨h, hid, fun key' => ?_, rfl, rfl, ?_⟩
    · refine ⟨Or.inl, fun hor => hor.elim (fun hk => hk) ?_⟩
      rintro rfl
      exact Option.isSome_iff_exists.mpr ⟨id, hid⟩
    · have hsome := h.keys key id hid
      have htouch : (table.rows shelf key).touch raw = table.rows shelf key := by
        rw [Consistent.rows_eq hid]
        obtain ⟨raw', hraw'⟩ := Option.isSome_iff_exists.mp hsome
        unfold Row.touch rowAt
        rw [hraw']
        rfl
      rw [htouch, Function.update_eq_self]

/-- The identifier of a new key is the first free one. -/
theorem addPrimaryKey_of_new (h : table.Consistent store shelf) {raw : PrimaryKey}
    (hkey : table.normalizePrimaryKey raw = .ok key) (hnone : table.primaryIds.lookup key = none)
    (hfree : table.freePrimaryIds ≠ []) :
    ∃ id table', table.addPrimaryKey raw = (.ok id, table') ∧
      table.Found store shelf raw key id table' := by
  have hlt : table.rowCount < table.primaryKeys.size :=
    lt_of_le_of_ne h.rowCount_le (mt h.free_eq_nil_iff.mpr hfree)
  have hrange : List.range' table.rowCount (table.primaryKeys.size - table.rowCount) =
      table.rowCount :: List.range' (table.rowCount + 1)
        (table.primaryKeys.size - (table.rowCount + 1)) := by
    rw [← List.range'_succ]
    congr 1
    omega
  have hcons := h.free
  rw [hrange, List.map_cons] at hcons
  have hidx : Idx.idx (PrimaryId.mk' table.rowCount .new) = table.rowCount :=
    PrimaryId.idx_mk' (hlt.trans_le h.size_le) .new
  generalize PrimaryId.mk' table.rowCount .new = id at hcons hidx
  have hbound : Idx.idx id < table.primaryKeys.size := hidx ▸ hlt
  obtain ⟨cur, hcur⟩ := Option.isSome_iff_exists.mp (ColumnVec.get_isSome_iff.mpr hbound)
  have hcount : (table.primaryIds.insert key id).keys.length = table.rowCount + 1 :=
    FiniteMap.length_keys_insert hnone id
  have heq : table.addPrimaryKey raw = (.ok id, { table with
      freePrimaryIds := (List.range' (table.rowCount + 1)
        (table.primaryKeys.size - (table.rowCount + 1))).map (PrimaryId.mk' · .new)
      primaryIds := table.primaryIds.insert key id
      primaryKeys := table.primaryKeys.set id (some raw) }) := by
    unfold addPrimaryKey
    simp only [hkey, hnone, hcons, hcur]
  refine ⟨id, _, heq, ?_⟩
  -- Only the row of the new identifier differs, and only in its key.
  have hrowAt : ∀ shelf' (j : PrimaryId), rowAt { table with
      freePrimaryIds := (List.range' (table.rowCount + 1)
        (table.primaryKeys.size - (table.rowCount + 1))).map (PrimaryId.mk' · .new)
      primaryIds := table.primaryIds.insert key id
      primaryKeys := table.primaryKeys.set id (some raw) } shelf' j =
      if Idx.idx j = Idx.idx id then { table.rowAt shelf' j with key := some raw }
      else table.rowAt shelf' j := by
    intro shelf' j
    unfold rowAt
    dsimp only
    rw [ColumnVec.get_set hbound]
    split <;> rfl
  have hlook : ∀ key', (table.primaryIds.insert key id).lookup key' =
      if key' = key then some id else table.primaryIds.lookup key' :=
    fun key' => FiniteMap.lookup_insert_eq _ _ _ _
  constructor
  case consistent =>
    constructor
    case index =>
      change table.index.Tracks store shelf (table.primaryKeys.set id (some raw)).size
      rw [ColumnVec.size_set]
      exact h.index
    case columns =>
      change Columns.HasSize table.columns (table.primaryKeys.set id (some raw)).size
      rw [ColumnVec.size_set]
      exact h.columns
    case rowCount_le =>
      change (table.primaryIds.insert key id).keys.length ≤
        (table.primaryKeys.set id (some raw)).size
      rw [ColumnVec.size_set, hcount]
      exact hlt
    case free =>
      change _ = (List.range' (table.primaryIds.insert key id).keys.length
        ((table.primaryKeys.set id (some raw)).size -
          (table.primaryIds.insert key id).keys.length)).map _
      rw [ColumnVec.size_set, hcount]
    case ids_lt =>
      intro key' id' hid'
      change Idx.idx id' < (table.primaryIds.insert key id).keys.length
      rw [hlook] at hid'
      rw [hcount]
      split at hid'
      · obtain rfl := Option.some.inj hid'
        omega
      · have := h.ids_lt key' id' hid'
        omega
    case ids_inj =>
      intro key' key'' id' id'' hid' hid'' hii
      rw [hlook] at hid' hid''
      split at hid' <;> split at hid''
      · next h1 h2 => rw [h1, h2]
      · obtain rfl := Option.some.inj hid'
        have := h.ids_lt key'' id'' hid''
        omega
      · obtain rfl := Option.some.inj hid''
        have := h.ids_lt key' id' hid'
        omega
      · exact h.ids_inj key' key'' id' id'' hid' hid'' hii
    case ids_surj =>
      intro i hi
      change i < (table.primaryIds.insert key id).keys.length at hi
      rw [hcount] at hi
      by_cases hnew : i = table.rowCount
      · refine ⟨key, id, ?_, by rw [hidx, hnew]⟩
        rw [hlook, if_pos rfl]
      · obtain ⟨key', id', hid', hidx'⟩ := h.ids_surj i (by omega)
        refine ⟨key', id', ?_, hidx'⟩
        rw [hlook, if_neg]
        · exact hid'
        · rintro rfl
          simp [hnone] at hid'
    case keys =>
      intro key' id' hid'
      change ((table.primaryKeys.set id (some raw)).get id').join.isSome
      rw [ColumnVec.get_set hbound]
      split
      · rfl
      · next hne =>
        rw [hlook] at hid'
        split at hid'
        · obtain rfl := Option.some.inj hid'
          exact absurd rfl hne
        · exact h.keys key' id' hid'
    case fresh =>
      intro j hj
      change (table.primaryIds.insert key id).keys.length ≤ Idx.idx j at hj
      rw [hcount] at hj
      rw [hrowAt, if_neg (by omega)]
      exact h.fresh j (by omega)
  case lookup =>
    change (table.primaryIds.insert key id).lookup key = some id
    rw [hlook, if_pos rfl]
  case known =>
    intro key'
    change ((table.primaryIds.insert key id).lookup key').isSome ↔ _
    rw [hlook]
    split
    · next hk => exact ⟨fun _ => Or.inr hk, fun _ => rfl⟩
    · next hk => exact ⟨Or.inl, fun hor => hor.resolve_right hk⟩
  case schema => rfl
  case index => rfl
  case rows =>
    funext key'
    unfold rows
    rw [hlook]
    by_cases hk : key' = key
    · subst hk
      rw [if_pos rfl, Option.elim_some, hrowAt, if_pos rfl, Function.update_self, hnone,
        Option.elim_none, h.fresh id (by omega)]
      rfl
    · rw [if_neg hk, Function.update_of_ne hk]
      cases hid' : table.primaryIds.lookup key' with
      | none => rfl
      | some id' =>
        have := h.ids_lt key' id' hid'
        rw [Option.elim_some, Option.elim_some, hrowAt, if_neg (by omega)]

/-- The key can be found: it is known, or an identifier is free. -/
def CanFind (table : Table) (key : PrimaryKey) : Prop :=
  (table.primaryIds.lookup key).isSome ∨ table.freePrimaryIds ≠ []

/-- `add_primary_key` finds the identifier of every key that is known, and of any key while there
are free identifiers. -/
theorem addPrimaryKey_spec (h : table.Consistent store shelf) {raw : PrimaryKey}
    (hkey : table.normalizePrimaryKey raw = .ok key) (hfind : table.CanFind key) :
    ∃ id table', table.addPrimaryKey raw = (.ok id, table') ∧
      table.Found store shelf raw key id table' := by
  cases hid : table.primaryIds.lookup key with
  | some id => exact ⟨id, table, addPrimaryKey_of_known h hkey hid⟩
  | none =>
    refine addPrimaryKey_of_new h hkey hid (hfind.resolve_left ?_)
    rw [hid]
    exact Bool.false_ne_true

/-- Otherwise it fails and changes nothing. -/
theorem addPrimaryKey_of_not_canFind {raw : PrimaryKey}
    (hkey : table.normalizePrimaryKey raw = .ok key) (hfind : ¬table.CanFind key) :
    table.addPrimaryKey raw = (.error (.error "Primary ids should be reserved"), table) := by
  have hnone : table.primaryIds.lookup key = none :=
    Option.not_isSome_iff_eq_none.mp fun hk => hfind (Or.inl hk)
  have hfree : table.freePrimaryIds = [] := by
    by_contra hne
    exact hfind (Or.inr hne)
  unfold addPrimaryKey
  simp only [hkey, hnone, hfree]

end Keys

/-! ## The columns and the index of a row -/

/-- A table that differs in the row of one identifier differs in the row of its key. -/
theorem rows_eq_update (h : table.Consistent store shelf)
    (hid : table.primaryIds.lookup key = some id) {table' : Table} {shelf' : Shelf} {row : Row}
    (hids : table'.primaryIds = table.primaryIds)
    (hrow : ∀ j, table'.rowAt shelf' j =
      if Idx.idx j = Idx.idx id then row else table.rowAt shelf j) :
    table'.rows shelf' = Function.update (table.rows shelf) key row := by
  funext key'
  unfold rows
  rw [hids]
  by_cases hk : key' = key
  · rw [hk, Function.update_self, hid, Option.elim_some, hrow, if_pos rfl]
  · rw [Function.update_of_ne hk]
    cases hid' : table.primaryIds.lookup key' with
    | none => rfl
    | some id' =>
      rw [Option.elim_some, Option.elim_some, hrow, if_neg]
      exact fun hii => hk (h.ids_inj key' key id' id hid' hid hii)

/-- Writing columns of a row. -/
theorem setColumns_spec (h : table.Consistent store shelf)
    (hid : table.primaryIds.lookup key = some id) {writes : List (ColumnWrite × ColumnName)}
    {outcome : Except Failure Unit × Columns}
    (hup : ColumnsUpdated table.columns table.primaryKeys.size id writes outcome) :
    ({ table with columns := outcome.2 } : Table).Consistent store shelf ∧
      ({ table with columns := outcome.2 } : Table).schema = table.schema ∧
      ({ table with columns := outcome.2 } : Table).rows shelf =
        Function.update (table.rows shelf) key
          { table.rows shelf key with
            cells := (table.rows shelf key).cells.writeAll table.schema.shape writes } := by
  have hrowAt : ∀ j, ({ table with columns := outcome.2 } : Table).rowAt shelf j =
      if Idx.idx j = Idx.idx id then
        { table.rowAt shelf id with
          cells := (table.rowAt shelf id).cells.writeAll table.schema.shape writes }
      else table.rowAt shelf j := by
    intro j
    unfold rowAt
    dsimp only
    rw [hup.cells j]
    split
    · next hj =>
      rw [ColumnVec.get, ColumnVec.get, hj]
      rfl
    · rfl
  refine ⟨?_, ?_, ?_⟩
  · refine { h with columns := hup.size, fresh := fun j hj => ?_ }
    rw [hrowAt, if_neg]
    · exact h.fresh j hj
    · have hlt := h.ids_lt key id hid
      have hge : table.rowCount ≤ Idx.idx j := hj
      omega
  · unfold schema
    dsimp only
    rw [hup.shape]
  · rw [Consistent.rows_eq hid]
    exact rows_eq_update h hid rfl hrowAt

/-- The key a row is due under can be read off the row. -/
theorem destination_eq (h : table.Consistent store shelf) (id : PrimaryId) :
    table.index.data.destination ((shelf (Idx.idx id)).map Prod.fst) id table.primaryKeys
        table.columns =
      (table.rowAt shelf id).destination table.schema := by
  have htracks := h.index.data
  unfold IndexData.destination Row.destination Row.partitionKey Schema.nonpkPartitionKeyColumns
  cases hdata : table.index.data with
  | globalIndex =>
    rw [hdata] at htracks
    have hnone : table.schema.partitionColumns = none := by
      unfold schema
      dsimp only
      rw [hdata]
      rfl
    rw [hnone]
    dsimp only [IndexData.partitionColumns, Option.elim]
    cases hheld : shelf (Idx.idx id) with
    | none =>
      have hnot : (table.rowAt shelf id).target.held = none := hheld
      rw [hnot]
      rfl
    | some entry =>
      have hsome : (table.rowAt shelf id).target.held = some entry := hheld
      rw [Target.key, hsome, Option.map_some, (htracks.2.1 _ entry.1 entry.2 hheld).1]
      rfl
  | localIndex data =>
    have hcols : table.schema.partitionColumns =
        some (data.partitionKeyColumns, data.nonpkPartitionKeyColumns) := by
      unfold schema
      dsimp only
      rw [hdata]
      rfl
    rw [hcols]
    dsimp only [IndexData.partitionColumns, Option.elim]
    unfold VectorStore.partitionKey
    rw [column_eq table shelf id, Option.isSome_map]
    rfl

/-- What `update_index` does, in terms of rows. -/
structure Processed (table : Table) (store : Store) (shelf : Shelf) (key : PrimaryKey)
    (timestamp : Timestamp) (values : Option SplittingValues) (operations : List Operation)
    (table' : Table) (shelf' : Shelf) : Prop where
  accepts : Store.AcceptsAll store store operations
  consistent : table'.Consistent (Machine.run Store.apply store operations) shelf'
  schema : table'.schema = table.schema
  primaryIds : table'.primaryIds = table.primaryIds
  freePrimaryIds : table'.freePrimaryIds = table.freePrimaryIds
  rows : table'.rows shelf' = Function.update (table.rows shelf) key
    ((table.rows shelf key).process table.schema table.index.present timestamp values)
  adds : operations.any Operation.isAdd =
    (table.rows shelf key).target.adds table.index.present
      ((table.rows shelf key).destination table.schema) timestamp values

/-- The last two steps of a call succeed and process the target of the row. -/
theorem processRow_spec (h : table.Consistent store shelf)
    (hid : table.primaryIds.lookup key = some id) {values : Option SplittingValues}
    {t : Timestamped Unit} (ht : t.value.isSome = values.isSome)
    (hfree : values.isSome → table.index.data.HasFree) :
    ∃ operations table' shelf', table.processRow id values ⟨t, []⟩ = (.ok operations, table') ∧
      table.Processed store shelf key t.timestamp values operations table' shelf' := by
  have hrange := h.lt_size hid
  obtain ⟨pp, hpp, hfits⟩ := h.index.data.getPartitionKey hrange table.primaryKeys table.columns
  rw [destination_eq h id] at hfits
  have hkind : table.index.data.partitionColumns = none →
      (table.rowAt shelf id).destination table.schema = some .whole := by
    intro hnone
    rw [← destination_eq h id]
    unfold IndexData.destination
    rw [hnone]
  have hupdated := updateIndex_updated h.index hrange hfits hkind ht hfree
  unfold processRow
  simp only [hpp]
  generalize updateIndex id pp table.index values ⟨t, []⟩ = outcome at hupdated
  obtain ⟨result, index'⟩ := outcome
  obtain ⟨⟨operations, hok, haccepts, htracks, hadds⟩, hstamp, hsame⟩ := hupdated
  obtain rfl : result = .ok operations := hok
  refine ⟨operations, { table with index := index' }, Function.update shelf (Idx.idx id)
    (Target.process table.index.present ((table.rowAt shelf id).destination table.schema)
      t.timestamp values ⟨table.index.stamp (Idx.idx id), shelf (Idx.idx id)⟩).held, rfl, ?_⟩
  have hrow : table.rows shelf key = table.rowAt shelf id := Consistent.rows_eq hid
  have hrowAt : ∀ j, ({ table with index := index' } : Table).rowAt
      (Function.update shelf (Idx.idx id)
        (Target.process table.index.present ((table.rowAt shelf id).destination table.schema)
          t.timestamp values ⟨table.index.stamp (Idx.idx id), shelf (Idx.idx id)⟩).held) j =
      if Idx.idx j = Idx.idx id then
        (table.rowAt shelf id).process table.schema table.index.present t.timestamp values
      else table.rowAt shelf j := by
    intro j
    have hstamp' : index'.stamp = _ := hstamp
    unfold rowAt
    dsimp only
    rw [hstamp']
    by_cases hj : Idx.idx j = Idx.idx id
    · rw [if_pos hj, hj, Function.update_self, Function.update_self, ColumnVec.get, hj,
        Columns.cells_congr table.columns hj]
      rfl
    · rw [if_neg hj, Function.update_of_ne hj, Function.update_of_ne hj]
  constructor
  case accepts => exact haccepts
  case consistent =>
    refine { h with index := htracks, fresh := fun j hj => ?_ }
    rw [hrowAt, if_neg]
    · exact h.fresh j hj
    · have hlt := h.ids_lt key id hid
      have hge : table.rowCount ≤ Idx.idx j := hj
      omega
  case schema =>
    unfold schema
    dsimp only
    rw [hsame.2.2.1, hsame.2.2.2]
  case primaryIds => rfl
  case freePrimaryIds => rfl
  case rows =>
    rw [hrow]
    exact rows_eq_update h hid rfl hrowAt
  case adds =>
    rw [hrow]
    exact hadds

end Table

/-! ## A call -/

/-- The target value and its timestamp come together. -/
theorem Call.split_spec {call : Call} {split : Table.SplitValuesFiltering}
    (h : call.split = .ok split) :
    ∃ t, split.timestamps = ⟨t, []⟩ ∧ t.value.isSome = split.values.isSome := by
  cases call with
  | delete indexKey primaryKey timestamp =>
    obtain rfl := Except.ok.inj h
    exact ⟨.newTombstone timestamp, rfl, rfl⟩
  | upsert indexKey primaryKey values =>
    change Table.splitValuesFiltering values = .ok split at h
    unfold Table.splitValuesFiltering at h
    obtain ⟨first, rest⟩ := values
    dsimp only at h
    cases hvalue : Table.splitValue first.value with
    | error e =>
      rw [hvalue] at h
      cases h
    | ok value =>
      cases hfiltering : rest.mapM Table.splitFiltering with
      | error e =>
        rw [hvalue, hfiltering] at h
        cases h
      | ok filtering =>
        rw [hvalue, hfiltering] at h
        obtain rfl := Except.ok.inj h
        refine ⟨_, rfl, ?_⟩
        rw [Timestamped.isValid_eq]
        cases hfirst : first.value with
        | none =>
          rw [hfirst] at hvalue
          obtain rfl := Except.ok.inj hvalue
          simp [Timestamped.newTombstone]
        | some v =>
          rw [hfirst] at hvalue
          cases v with
          | vector v =>
            obtain rfl := Except.ok.inj hvalue
            simp [Timestamped.newValid]
          | document v =>
            obtain rfl := Except.ok.inj hvalue
            simp [Timestamped.newValid]
          | filtering v => cases hvalue

namespace Table

variable {table : Table} {store : Store} {shelf : Shelf} {key : PrimaryKey} {id : PrimaryId}

/-- The part that `upsert` and `delete` share, after the key was found and the values split. -/
def finish (table : Table) (id : PrimaryId) (writes : List (ColumnWrite × ColumnName))
    (split : SplitValuesFiltering) : Except Failure (List Operation) × Table :=
  match updateColumnsLoop id table.columns writes with
  | (.error e, columns) => (.error e, { table with columns })
  | (.ok (), columns) => { table with columns }.processRow id split.values split.timestamps

/-- What a call does that reaches the row of a key. -/
structure Called (table : Table) (store : Store) (shelf : Shelf) (key : PrimaryKey) (row : Row)
    (succeeds adds : Prop) (outcome : Except Failure (List Operation) × Table) (shelf' : Shelf) :
    Prop where
  accepts : Store.AcceptsAll store store (emittedBy outcome.1)
  consistent : outcome.2.Consistent (Machine.run Store.apply store (emittedBy outcome.1)) shelf'
  schema : outcome.2.schema = table.schema
  primaryIds : outcome.2.primaryIds = table.primaryIds
  freePrimaryIds : outcome.2.freePrimaryIds = table.freePrimaryIds
  rows : outcome.2.rows shelf' = Function.update (table.rows shelf) key row
  ok_iff : (∃ operations, outcome.1 = .ok operations) ↔ succeeds
  adds_iff : (emittedBy outcome.1).any Operation.isAdd = true ↔ adds

/-- The shared part writes the columns and, if all of them take their writes, processes the
target. -/
theorem finish_spec (h : table.Consistent store shelf)
    (hid : table.primaryIds.lookup key = some id) (writes : List (ColumnWrite × ColumnName))
    {split : SplitValuesFiltering} {t : Timestamped Unit} (ht : split.timestamps = ⟨t, []⟩)
    (hvalue : t.value.isSome = split.values.isSome)
    (hfree : split.values.isSome → table.index.data.HasFree) {prepared : Row}
    (hprepared : prepared = { table.rows shelf key with
      cells := (table.rows shelf key).cells.writeAll table.schema.shape writes }) :
    ∃ shelf', table.Called store shelf key
      (if writes.all (accepts table.schema.shape) then
        prepared.process table.schema table.index.present t.timestamp split.values
      else prepared)
      (writes.all (accepts table.schema.shape) = true)
      (writes.all (accepts table.schema.shape) = true ∧
        prepared.target.adds table.index.present (prepared.destination table.schema) t.timestamp
          split.values = true)
      (table.finish id writes split) shelf' := by
  have hup := updateColumnsLoop_updated h.columns (h.lt_size hid) writes
  obtain ⟨hcons, hschema, hrows⟩ := setColumns_spec h hid hup
  unfold finish
  generalize updateColumnsLoop id table.columns writes = outcome at hup hcons hschema hrows
  obtain ⟨result, columns⟩ := outcome
  have hok := hup.ok_iff
  rw [← hprepared] at hrows
  cases result with
  | error e =>
    have hall : ¬writes.all (accepts table.schema.shape) = true := fun hall => by
      have := hok.mpr hall
      simp at this
    refine ⟨shelf, ?_⟩
    rw [if_neg hall]
    constructor
    case accepts => trivial
    case consistent => exact hcons
    case schema => exact hschema
    case primaryIds => rfl
    case freePrimaryIds => rfl
    case rows => exact hrows
    case ok_iff => simp [hall]
    case adds_iff => simp [hall, emittedBy]
  | ok _ =>
    have hall : writes.all (accepts table.schema.shape) = true := hok.mp rfl
    have hlook : ({ table with columns } : Table).primaryIds.lookup key = some id := hid
    obtain ⟨operations, table', shelf', hproc, hdone⟩ := processRow_spec hcons hlook hvalue hfree
    have hrow : ({ table with columns } : Table).rows shelf key = prepared := by
      rw [hrows, Function.update_self]
    refine ⟨shelf', ?_⟩
    rw [if_pos hall]
    dsimp only
    rw [ht, hproc]
    constructor
    case accepts => exact hdone.accepts
    case consistent => exact hdone.consistent
    case schema => exact hdone.schema.trans hschema
    case primaryIds => exact hdone.primaryIds
    case freePrimaryIds => exact hdone.freePrimaryIds
    case rows =>
      have hnew := hdone.rows
      rw [hrow, hrows, Function.update_idem, hschema] at hnew
      exact hnew
    case ok_iff => simp [hall]
    case adds_iff =>
      have hnew := hdone.adds
      rw [hrow, hschema] at hnew
      change operations.any Operation.isAdd = true ↔ _
      rw [hnew]
      exact (and_iff_right hall).symm

variable [DecimalNormalizer]

/-- The call can have an identifier: `upsert` needs a reservation to succeed, `delete` a key that is
known or an identifier that is free. -/
def Ready (table : Table) (key : PrimaryKey) : Call → Prop
  | .upsert _ _ _ => table.reservePrimaryIds.1 = .ok ()
  | .delete _ _ _ => table.CanFind key

/-- The call reaches the row of a key. -/
def Reaches (table : Table) (call : Call) (key : PrimaryKey) : Prop :=
  call.indexKey = table.indexKey ∧ table.normalizePrimaryKey call.primaryKey = .ok key ∧
    table.Ready key call

/-- What a call does that reaches the row of a key. -/
structure Stepped (table : Table) (store : Store) (shelf : Shelf) (call : Call) (key : PrimaryKey)
    (outcome : Except Failure (List Operation) × Table) (shelf' : Shelf) : Prop where
  accepts : Store.AcceptsAll store store (emittedBy outcome.1)
  consistent : outcome.2.Consistent (Machine.run Store.apply store (emittedBy outcome.1)) shelf'
  schema : outcome.2.schema = table.schema
  known : ∀ key', (outcome.2.primaryIds.lookup key').isSome ↔
    (table.primaryIds.lookup key').isSome ∨ key' = key
  rows : outcome.2.rows shelf' = Function.update (table.rows shelf) key
    ((table.rows shelf key).call table.schema table.index.present call)
  ok_iff : (∃ operations, outcome.1 = .ok operations) ↔ call.WellFormed table.schema
  adds_eq : (emittedBy outcome.1).any Operation.isAdd =
    (table.rows shelf key).adds table.schema table.index.present call

omit [DecimalNormalizer] in
/-- The partition key columns outside the primary key are those of the schema. -/
theorem nonpkPartitionKeyColumns_eq (table : Table) :
    table.index.nonpkPartitionKeyColumns = table.schema.nonpkPartitionKeyColumns := by
  unfold Index.nonpkPartitionKeyColumns Schema.nonpkPartitionKeyColumns schema
  dsimp only
  cases table.index.data <;> rfl

omit [DecimalNormalizer] in
/-- A call that found its key, in terms of rows. -/
theorem Found.stepped (call : Call) {table' : Table}
    (hfound : table.Found store shelf call.primaryKey key id table')
    (hfree : (∃ i p v, call = .upsert i p v) → table.index.data.HasFree)
    (outcome : Except Failure (List Operation) × Table)
    (herr : ∀ e, call.split = .error e → outcome = (.error e, table'))
    (hok : ∀ split, call.split = .ok split →
      outcome = table'.finish id (call.writes table.schema split) split) :
    ∃ shelf', table.Stepped store shelf call key outcome shelf' := by
  have hrow : table'.rows shelf key = (table.rows shelf key).touch call.primaryKey := by
    rw [hfound.rows, Function.update_self]
  cases hsplit : call.split with
  | error e =>
    rw [herr e hsplit]
    refine ⟨shelf, ?_⟩
    constructor
    case accepts => trivial
    case consistent => exact hfound.consistent
    case schema => exact hfound.schema
    case known => exact hfound.known
    case rows =>
      rw [hfound.rows]
      unfold Row.call
      rw [hsplit]
    case ok_iff => simp [Call.WellFormed, hsplit]
    case adds_eq =>
      unfold Row.adds
      rw [hsplit]
      rfl
  | ok split =>
    rw [hok split hsplit]
    obtain ⟨t, ht, hvalue⟩ := Call.split_spec hsplit
    have hfree' : split.values.isSome → table'.index.data.HasFree := by
      intro hsome
      rw [hfound.index]
      refine hfree ?_
      cases call with
      | upsert i p v => exact ⟨i, p, v, rfl⟩
      | delete i p v =>
        obtain rfl := Except.ok.inj hsplit
        simp at hsome
    have hprepared : (table.rows shelf key).prepare table.schema call split =
        { table'.rows shelf key with
          cells := (table'.rows shelf key).cells.writeAll table'.schema.shape
            (call.writes table.schema split) } := by
      rw [hrow, hfound.schema]
      rfl
    obtain ⟨shelf', hcalled⟩ := finish_spec hfound.consistent hfound.lookup
      (call.writes table.schema split) ht hvalue hfree' hprepared
    rw [hfound.schema, hfound.index] at hcalled
    refine ⟨shelf', ?_⟩
    constructor
    case accepts => exact hcalled.accepts
    case consistent => exact hcalled.consistent
    case schema => exact hcalled.schema.trans hfound.schema
    case known =>
      rw [hcalled.primaryIds]
      exact hfound.known
    case rows =>
      rw [hcalled.rows, hfound.rows, Function.update_idem]
      unfold Row.call
      rw [hsplit]
      dsimp only
      rw [ht]
    case ok_iff =>
      rw [hcalled.ok_iff]
      simp [Call.WellFormed, hsplit]
    case adds_eq =>
      rw [Bool.eq_iff_iff, hcalled.adds_iff]
      unfold Row.adds
      rw [hsplit]
      dsimp only
      rw [ht, Bool.and_eq_true]

end Table

end VectorStore
