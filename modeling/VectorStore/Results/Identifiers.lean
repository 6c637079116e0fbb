import VectorStore.Rows.Identity
import VectorStore.Rows.StoredKeys
import VectorStore.Search.TableSearch

/-!
# Identifiers and the rows they stand for

The index of an identifier belongs to one key for good, and the epoch tells whether the identifier
is the current one of its row.  So an identifier that went to an external index answers for its row
as long as the epoch is not bumped, and for no row afterwards, until the epoch wraps around.
-/

namespace VectorStore

/-! ## Valid identifiers -/

/-- A partition that an index has belongs to the index. -/
theorem IndexData.Tracks.indexId_eq {data : IndexData} {indexId : IndexId} {store : Store}
    {epochs : ℕ → Epoch} {shelf : Shelf} {size : ℕ} {opened : Option PartitionKey}
    {key : PartitionKey} {p : PartitionId}
    (h : data.Tracks indexId store epochs shelf size opened)
    (hp : data.locate indexId key = some p) : p.indexId = indexId := by
  cases data with
  | globalIndex =>
    obtain ⟨-, rfl⟩ := IndexData.locate_globalIndex_eq_some.mp hp
    exact PartitionId.indexId_mk' (Nat.zero_le _) _
  | localIndex data => exact h.1.indexId_eq hp

namespace Table

/-- Every vector that is indexed by rows has the row. -/
structure HasRoom (table : Table) (i : ℕ) : Prop where
  primaryKeys : i < table.primaryKeys.size
  columns : ∀ name type vec, table.columns.lookup name = some (.values type vec) → i < vec.size
  valuesTimestamps : i < table.index.valuesTimestamps.size
  partitions : ∀ data, table.index.data = .localIndex data → i < data.ids.size

variable {table : Table} {store : Store} {shelf : Shelf} {key : PrimaryKey}
  {p : PartitionId} {id own : PrimaryId}

/-- The row of a known key has room everywhere. -/
theorem Consistent.hasRoom (h : table.Consistent store shelf)
    (hid : table.primaryIds.lookup key = some id) : table.HasRoom (Idx.idx id) where
  primaryKeys := h.lt_size hid
  columns name type vec hvec := by
    have hsize : vec.size = table.primaryKeys.size := h.columns name _ hvec
    exact hsize ▸ h.lt_size hid
  valuesTimestamps := h.index.size_timestamps ▸ h.lt_size hid
  partitions data hdata := by
    have htracks := h.index.data
    rw [hdata] at htracks
    exact htracks.2 ▸ h.lt_size hid

/-- An identifier is valid when it belongs to the index and has the epoch of its row. -/
theorem isValidPrimaryId_iff (hroom : Idx.idx id < table.index.valuesTimestamps.size) :
    table.isValidPrimaryId p id = true ↔
      p.indexId = table.index.indexId ∧ table.index.epochs (Idx.idx id) = id.epoch := by
  obtain ⟨chunk, hchunk⟩ := Option.isSome_iff_exists.mp (ColumnVec.get_isSome_iff.mpr hroom)
  have hvec : table.index.valuesTimestamps.vec[Idx.idx id]? = some chunk := hchunk
  unfold isValidPrimaryId Index.epochs
  rw [hchunk, hvec, Option.any_some, Option.elim_some]
  by_cases hindex : p.indexId = table.index.indexId
  · rw [if_neg (not_not.mpr hindex), decide_eq_true_iff, and_iff_right hindex]
  · rw [if_pos hindex]
    exact iff_of_false Bool.false_ne_true fun h => hindex h.1

/-- The stored columns depend on the index of an identifier only. -/
theorem columnValue_congr (h : Idx.idx id = Idx.idx own) (name : ColumnName) :
    table.columnValue id name = table.columnValue own name := by
  unfold columnValue Column.get ColumnVec.get
  rw [h]

/-- What the columns of a row satisfy depends on the index of an identifier only. -/
theorem satisfies_congr [TimeuuidOrd] (h : Idx.idx id = Idx.idx own) (restriction : Restriction) :
    table.satisfies id restriction = table.satisfies own restriction := by
  have hvalue : table.columnValue id = table.columnValue own :=
    funext fun name => columnValue_congr h name
  unfold satisfies cqlCmpTuple cqlCmpSingle
  rw [hvalue]

end Table

namespace World

variable [TimeuuidOrd] [DecimalNormalizer]

/-- The identifier answers for the row of a key. -/
structure ResolvesTo (w : World) (key : PrimaryKey) (p : PartitionId) (id : PrimaryId) : Prop where
  primaryKey : ∃ raw, w.table.primaryKey p id = some raw ∧
    w.table.normalizePrimaryKey raw = .ok key
  columnValueFor : ∀ name, w.table.columnValueFor p id name = (w.row key).column w.schema name
  isValidFor : ∃ own, w.table.primaryIds.lookup key = some own ∧
    ∀ restriction, w.table.isValidFor p id restriction = w.table.satisfies own restriction

omit [DecimalNormalizer] in
/-- The identifier answers for no row. -/
structure Rejects (w : World) (p : PartitionId) (id : PrimaryId) : Prop where
  primaryKey : w.table.primaryKey p id = none
  columnValueFor : ∀ name, w.table.columnValueFor p id name = none
  isValidFor : ∀ restriction, w.table.isValidFor p id restriction = false

/-- The identifiers of a world stand for their rows. -/
structure IdsResolve (w : World) : Prop where
  /-- Different keys have different indexes. -/
  distinct : ∀ key key' id id', w.table.primaryIds.lookup key = some id →
    w.table.primaryIds.lookup key' = some id' → Idx.idx id = Idx.idx id' → key = key'
  /-- The identifier of a key never changes. -/
  kept : ∀ key id calls, w.table.primaryIds.lookup key = some id →
    (Machine.run step w calls).table.primaryIds.lookup key = some id
  hasRoom : ∀ key id, w.table.primaryIds.lookup key = some id → w.table.HasRoom (Idx.idx id)
  /-- A value is added under an identifier of its row. -/
  added : ∀ call, ∀ operation ∈ w.emitted call, ∀ id p value,
    operation.added = some (id, p, value) → ∃ key, w.keyOf call = .ok key ∧ ∀ later,
      ((w.step call).bumps (Idx.idx id) later = 0 →
        (Machine.run step (w.step call) later).ResolvesTo key p id) ∧
      (0 < (w.step call).bumps (Idx.idx id) later →
        (w.step call).bumps (Idx.idx id) later ≤ 65535 →
          (Machine.run step (w.step call) later).Rejects p id)

variable {w : World} {call : Call} {key : PrimaryKey} {p : PartitionId} {id own : PrimaryId}

omit [DecimalNormalizer] in
/-- An identifier that is not valid answers for no row. -/
theorem rejects_of_not_valid (h : w.table.isValidPrimaryId p id = false) : w.Rejects p id := by
  constructor
  case primaryKey =>
    unfold Table.primaryKey
    rw [h]
    rfl
  case columnValueFor =>
    intro name
    unfold Table.columnValueFor
    rw [h]
    rfl
  case isValidFor =>
    intro restriction
    unfold Table.isValidFor
    rw [h]
    rfl

/-- A valid identifier answers for the row with its index. -/
theorem resolvesTo_of_valid (hstores : w.StoresKeys)
    (hown : w.table.primaryIds.lookup key = some own) (hidx : Idx.idx id = Idx.idx own)
    (h : w.table.isValidPrimaryId p id = true) : w.ResolvesTo key p id := by
  have hget : w.table.primaryKeys.get id = w.table.primaryKeys.get own := by
    unfold ColumnVec.get
    rw [hidx]
  constructor
  case primaryKey =>
    obtain ⟨raw, hraw, hkey⟩ := hstores key (Option.isSome_iff_exists.mpr ⟨own, hown⟩)
    refine ⟨raw, ?_, hkey⟩
    unfold Table.primaryKey
    rw [h, hget, primaryKeys_get hown]
    exact hraw
  case columnValueFor =>
    intro name
    unfold Table.columnValueFor
    rw [h]
    change w.table.columnValue id name = _
    rw [Table.columnValue_congr hidx]
    have hrow : w.row key = w.table.rowAt w.held own := Table.Consistent.rows_eq hown
    rw [hrow]
    exact congrFun (Table.column_eq w.table w.held own) name
  case isValidFor =>
    refine ⟨own, hown, fun restriction => ?_⟩
    unfold Table.isValidFor
    rw [h]
    exact Table.satisfies_congr hidx restriction

omit [TimeuuidOrd] in
/-- A value is added under the current epoch of its row, in a partition of the index. -/
theorem added_spec (hw : w.Consistent) {operation : Operation} (hmem : operation ∈ w.emitted call)
    {value : SplittingValues} (hadded : operation.added = some (id, p, value)) :
    ∃ key own, w.keyOf call = .ok key ∧
      (w.step call).table.primaryIds.lookup key = some own ∧ Idx.idx id = Idx.idx own ∧
      id.epoch = (w.step call).epoch (Idx.idx id) ∧
      p.indexId = (w.step call).table.index.indexId := by
  by_cases hreach : ∃ key, w.Reaches call key
  · obtain ⟨key, hreach⟩ := hreach
    have hids : ∀ key', w.keyOf call = .ok key' → key' = key := fun key' hkey' =>
      Except.ok.inj (hkey'.symm.trans hreach.keyOf_eq)
    obtain ⟨own, hown, hidx, hepoch, before, hbefore⟩ :=
      (step_idStep hw hids).added operation hmem id p value hadded
    refine ⟨key, own, hreach.keyOf_eq, hown, hidx, hepoch, ?_⟩
    -- the store holds the value after the last operation, in a partition that the index has
    have hstore : (w.step call).store = (w.store.replay before).insert (p, id) value := by
      have hlast : w.emitted call = before ++ [operation] := hbefore
      change w.store.replay (w.emitted call) = _
      rw [hlast, Store.replay, Machine.run_append]
      exact Store.apply_of_added _ hadded
    have hholds := (step_consistent hw call).index.data.holds
    have hlook : (w.step call).store.lookup (p, id) = some value := by
      rw [hstore]
      exact AList.lookup_insert _
    obtain ⟨hplace, -⟩ := (hholds p id value).mp hlook
    obtain ⟨pkey, -, hp⟩ := Shelf.place_eq_some_iff.mp hplace
    exact (step_consistent hw call).index.data.indexId_eq hp
  · push Not at hreach
    rw [(step_refused hw hreach).emitted] at hmem
    cases hmem

/-- In every reachable world identifiers resolve to their own rows, and stale ones are rejected. -/
theorem ids_resolve (hw : w.Reachable) : w.IdsResolve := by
  have hcons := hw.consistent
  constructor
  case distinct => exact hcons.ids_inj
  case kept => exact fun key id calls hid => run_kept hcons calls hid
  case hasRoom => exact fun key id hid => hcons.hasRoom hid
  case added =>
    intro call operation hmem id p value hadded
    obtain ⟨key, own, hkey, hown, hidx, hepoch, hindex⟩ := added_spec hcons hmem hadded
    have hstep := step_consistent hcons call
    refine ⟨key, hkey, fun later => ?_⟩
    have hend : (Machine.run step (w.step call) later).Consistent := run_consistent hstep later
    have hown' := run_kept hstep later hown
    have hindex' := run_indexId hstep later
    have hbumps := run_epoch hstep later (Idx.idx id)
    rw [← hepoch] at hbumps
    have hroom : Idx.idx id <
        (Machine.run step (w.step call) later).table.index.valuesTimestamps.size := by
      rw [hidx]
      exact (hend.hasRoom hown').valuesTimestamps
    have hvalid := Table.isValidPrimaryId_iff (p := p) hroom
    rw [hindex', hindex, and_iff_right rfl] at hvalid
    constructor
    · intro hzero
      have hstores : (Machine.run step (w.step call) later).StoresKeys :=
        run_keeps (fun _ call hw' hstores' => step_storesKeys hw' hstores' call) hstep
          (step_storesKeys hcons hw.storesKeys call) later
      refine resolvesTo_of_valid hstores hown' hidx (hvalid.mpr ?_)
      rw [hzero] at hbumps
      exact hbumps
    · intro hpos hle
      refine rejects_of_not_valid (Bool.not_eq_true _ ▸ fun h => ?_)
      exact Epoch.iterate_next_ne hpos hle id.epoch (hbumps.symm.trans (hvalid.mp h))

end World

attribute [local instance] Sample.decimals Sample.timeuuids in
/-- Two rows of a table, the first of which is upserted twice. -/
theorem World.ids_resolve_globalTable :
    (Machine.run World.step (World.init Sample.globalTable)
      [Sample.upsert 0 0 (some (Sample.vector 1)) 0 (some 7),
        Sample.upsert 1 1 (some (Sample.vector 2)) 1 none,
        Sample.upsert 0 2 (some (Sample.vector 3)) 2 none]).IdsResolve :=
  World.ids_resolve ⟨Sample.globalTable, _, Sample.isNew_globalTable, rfl⟩

end VectorStore
