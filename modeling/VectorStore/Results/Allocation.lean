import VectorStore.Metadata
import VectorStore.Rows.Events

/-!
# Deletes and identifiers

`upsert` reserves identifiers before it takes one, `delete` does not.  A delete of a key the table
does not know fails when all the identifiers reserved so far are given out.
-/

namespace VectorStore

/-- A table built for an index is new. -/
theorem isNew_of_buildTable {key : IndexKey} {metadata : IndexMetadata}
    {tableColumns : AList fun _ : ColumnName => NativeType} {table : Table}
    (h : buildTable key metadata tableColumns = .ok table) : table.IsNew :=
  ⟨_, _, _, _, _, _, _, h⟩

/-- A table built for an index stores the values of all its filtering columns. -/
theorem shape_of_buildTable {key : IndexKey} {metadata : IndexMetadata}
    {tableColumns : AList fun _ : ColumnName => NativeType} {table : Table}
    (h : buildTable key metadata tableColumns = .ok table) :
    table.schema.indexKey = key ∧ ∀ name ∈ table.schema.filteringColumns,
      ∃ type, table.schema.shape name = some (.values type) := by
  have hmade := Table.new_made h
  refine ⟨hmade.indexKey_eq, fun name hname => ?_⟩
  rw [hmade.filteringColumns_eq] at hname
  have hpk : name ∉ metadata.primaryKeyColumns.toList := by
    have := (List.mem_filter.mp hname).2
    simpa using this
  obtain ⟨type, -, hshape⟩ := hmade.values name (List.mem_append_right _ hname) hpk
  exact ⟨type, hshape⟩

namespace Table

variable [DecimalNormalizer]

/-- No delete reserves room. -/
theorem size_primaryKeys_delete (table : Table) (indexKey : IndexKey) (raw : PrimaryKey)
    (timestamp : Timestamp) :
    (table.delete indexKey raw timestamp).2.primaryKeys.size = table.primaryKeys.size := by
  have hadd : (table.addPrimaryKey raw).2.primaryKeys.size = table.primaryKeys.size := by
    unfold addPrimaryKey
    split
    · rfl
    · split
      · rfl
      · rfl
      · dsimp only
        split
        · rfl
        · exact ColumnVec.size_set ..
  have hprocess : ∀ (t : Table) id values timestamps,
      (t.processRow id values timestamps).2.primaryKeys = t.primaryKeys := by
    intro t id values timestamps
    unfold processRow
    split <;> rfl
  unfold delete
  split
  · rfl
  · split
    · next e table' h =>
      rw [h] at hadd
      exact hadd
    · next id table' h =>
      rw [h] at hadd
      split
      · exact hadd
      · rw [hprocess]
        exact hadd

end Table

namespace World

variable [DecimalNormalizer] {w : World}

omit [DecimalNormalizer] in
/-- A delete suits every column that stores values. -/
theorem wellFormed_delete {schema : Schema}
    (hshape : ∀ name ∈ schema.filteringColumns, ∃ type, schema.shape name = some (.values type))
    (indexKey : IndexKey) (raw : PrimaryKey) (timestamp : Timestamp) :
    (Call.delete indexKey raw timestamp).WellFormed schema := by
  refine ⟨_, rfl, List.all_eq_true.mpr fun write hwrite => ?_⟩
  obtain ⟨hvalue, hname⟩ := List.of_mem_zip hwrite
  obtain ⟨_, -, hvalue⟩ := List.mem_map.mp hvalue
  obtain ⟨type, htype⟩ := hshape _ hname
  unfold accepts ColumnShape.takes
  rw [htype, ← hvalue]
  rfl

/-- Without decimals among the clustering columns, keys are looked up as they are. -/
theorem keyOf_of_not_needs (h : w.table.needsCkNormalization = false)
    (call : Call) : w.keyOf call = .ok call.primaryKey := by
  unfold keyOf Table.normalizePrimaryKey
  rw [h]
  rfl

/-- A known key stays known. -/
theorem Knows.step (hw : w.Consistent) {key : PrimaryKey} (h : w.Knows key) (call : Call) :
    (w.step call).Knows key := by
  by_cases hreach : ∃ key', w.Reaches call key'
  · obtain ⟨key', hreach⟩ := hreach
    exact ((step_stepped hw hreach).knows key).mpr (Or.inl h)
  · push Not at hreach
    exact ((step_refused hw hreach).knows key).mpr h

omit [DecimalNormalizer] in
/-- The table has a row for every key it knows. -/
theorem length_le_rowCount {keys : List PrimaryKey} (hnodup : keys.Nodup)
    (hknown : ∀ key ∈ keys, w.Knows key) : keys.length ≤ w.table.rowCount := by
  refine (List.subperm_of_subset hnodup fun key hkey => ?_).length_le
  obtain ⟨id, hid⟩ := Option.isSome_iff_exists.mp (hknown key hkey)
  exact FiniteMap.mem_keys_iff.mpr ⟨id, hid⟩

/-- Deletes of more distinct keys than there is room for do not all succeed. -/
theorem deletes_not_all_succeed (hw : w.Consistent) {indexKey : IndexKey} {timestamp : Timestamp}
    (known keys : List PrimaryKey) (hnodup : (known ++ keys).Nodup)
    (hkeys : ∀ key ∈ keys, w.keyOf (.delete indexKey key timestamp) = .ok key)
    (hknown : ∀ key ∈ known, w.Knows key)
    (hlen : w.table.primaryKeys.size < (known ++ keys).length) :
    ¬Machine.Along step Succeeds w (keys.map (.delete indexKey · timestamp)) := by
  induction keys generalizing w known with
  | nil =>
    rw [List.append_nil] at hnodup hlen
    have hle := (length_le_rowCount hnodup hknown).trans (Table.Consistent.rowCount_le hw)
    exact absurd hlen hle.not_gt
  | cons key keys ih =>
    rintro ⟨hok, hrest⟩
    obtain ⟨hkey, hkeys⟩ := List.forall_mem_cons.mp hkeys
    have hstep := step_stepped hw (hok.reaches_of_keyOf hw hkey)
    refine ih hstep.consistent (known ++ [key]) ?_ ?_ ?_ ?_ hrest
    · simpa using hnodup
    · intro key' hkey'
      rw [step_keyOf hw]
      exact hkeys key' hkey'
    · intro key' hkey'
      rcases List.mem_append.mp hkey' with hmem | hmem
      · exact (hknown key' hmem).step hw _
      · obtain rfl := List.mem_singleton.mp hmem
        exact (hstep.knows key').mpr (Or.inr rfl)
    · have hsize : (w.step (.delete indexKey key timestamp)).table.primaryKeys.size =
          w.table.primaryKeys.size := Table.size_primaryKeys_delete ..
      rw [hsize]
      simpa using hlen

/-- Deleting more distinct keys than there is room for, one after the other, fails at some point. -/
theorem exists_delete_fails (hw : w.Consistent) (indexKey : IndexKey) (timestamp : Timestamp)
    {keys : List PrimaryKey} (hnodup : keys.Nodup)
    (hkeys : ∀ key ∈ keys, w.keyOf (.delete indexKey key timestamp) = .ok key)
    (hlen : w.table.primaryKeys.size < keys.length) :
    ∃ calls, ∃ key ∈ keys,
      ¬(Machine.run step w calls).Succeeds (.delete indexKey key timestamp) := by
  by_contra hno
  push Not at hno
  refine deletes_not_all_succeed hw [] keys hnodup hkeys (by simp) hlen ?_
  have halong : ∀ (keys' : List PrimaryKey) (calls : List Call), keys' ⊆ keys →
      Machine.Along step Succeeds (Machine.run step w calls)
        (keys'.map (.delete indexKey · timestamp)) := by
    intro keys'
    induction keys' with
    | nil => exact fun _ _ => trivial
    | cons key keys' ih =>
      intro calls hsub
      obtain ⟨hkey, hsub⟩ := List.cons_subset.mp hsub
      have hrest := ih (calls ++ [.delete indexKey key timestamp]) hsub
      rw [Machine.run_append] at hrest
      exact ⟨hno calls key hkey, hrest⟩
  exact halong keys [] (List.Subset.refl keys)

/-- A delete on a table built for an index succeeds if and only if its key is known or an
identifier is free. -/
theorem delete_succeeds_iff {metadata : IndexMetadata}
    {tableColumns : AList fun _ : ColumnName => NativeType} {table : Table}
    (hbuild : buildTable metadata.key metadata tableColumns = .ok table) (calls : List Call)
    (key : PrimaryKey) (timestamp : Timestamp) :
    let w := Machine.run step (init table) calls
    w.Succeeds (.delete metadata.key key timestamp) ↔
      ∃ normalized, w.table.normalizePrimaryKey key = .ok normalized ∧
        ((w.table.primaryIds.lookup normalized).isSome ∨ w.table.freePrimaryIds ≠ []) := by
  have hinit := consistent_init (isNew_of_buildTable hbuild)
  have hw := run_consistent hinit calls
  have hschema : (Machine.run step (init table) calls).schema = table.schema :=
    run_schema hinit calls
  obtain ⟨hindex, hshape⟩ := shape_of_buildTable hbuild
  constructor
  · intro hok
    obtain ⟨normalized, -, hkey, hready⟩ := hok.reaches hw
    exact ⟨normalized, hkey, hready⟩
  · rintro ⟨normalized, hkey, hready⟩
    have hindex' : metadata.key = (Machine.run step (init table) calls).table.indexKey :=
      (hindex.symm.trans (congrArg Schema.indexKey hschema.symm))
    have hreach : (Machine.run step (init table) calls).Reaches
        (.delete metadata.key key timestamp) normalized := ⟨hindex', hkey, hready⟩
    refine (step_stepped hw hreach).succeeds_iff.mpr ?_
    rw [hschema]
    exact wellFormed_delete hshape metadata.key key timestamp

end World

namespace Sample

/-- The metadata of the global index. -/
def metadata : IndexMetadata where
  keyspaceName := "ks"
  indexName := "idx"
  primaryKeyColumns := ⟨⟨"pk"⟩, []⟩
  partitionKeyCount := Nat.toPNat' 1
  targetColumns := ⟨⟨"v"⟩, []⟩
  partitioning := .global
  filteringColumns := [⟨"f"⟩]

theorem buildTable_metadata : buildTable metadata.key metadata
    ((AList.singleton ⟨"c"⟩ .int).insert ⟨"f"⟩ .int) = .ok globalTable := new_globalTable

/-- Calls on several rows. -/
def severalKeys : List Call :=
  [upsert 0 1 (some (vector 0)) 1 (some 1), delete 1 2, upsert 2 1 (some (vector 2)) 1 none]

/-- More keys than a new table has room for. -/
def manyKeys : List PrimaryKey := (List.range 1025).map fun n => key (Int32.ofNat n)

theorem nodup_manyKeys : manyKeys.Nodup := by
  refine List.Nodup.map_on (fun a ha b hb heq => ?_) List.nodup_range
  have hvalues : [CqlValue.int (Int32.ofNat a)] = [CqlValue.int (Int32.ofNat b)] :=
    congrArg (fun key : PrimaryKey => key.key.values) heq
  have hint : Int32.ofNat a = Int32.ofNat b := CqlValue.int.inj (List.head_eq_of_cons_eq hvalues)
  have hnat := congrArg Int32.toInt hint
  rw [List.mem_range] at ha hb
  rw [Int32.toInt_ofNat_of_lt (by omega), Int32.toInt_ofNat_of_lt (by omega)] at hnat
  exact Int.ofNat.inj hnat

end Sample

attribute [local instance] Sample.decimals

/-- A row is written, another one deleted, and a third one written; then the first is deleted. -/
theorem delete_succeeds_iff_globalTable :
    let w := Machine.run World.step (World.init Sample.globalTable) Sample.severalKeys
    w.Succeeds (.delete Sample.metadata.key (Sample.key 0) (Sample.time 3)) ↔
      ∃ normalized, w.table.normalizePrimaryKey (Sample.key 0) = .ok normalized ∧
        ((w.table.primaryIds.lookup normalized).isSome ∨ w.table.freePrimaryIds ≠ []) :=
  World.delete_succeeds_iff Sample.buildTable_metadata Sample.severalKeys (Sample.key 0)
    (Sample.time 3)

/-- Not every delete succeeds: of the deletes of 1025 distinct keys on a new table, one fails. -/
theorem delete_not_always_succeeds :
    ¬∀ (metadata : IndexMetadata) (tableColumns : AList fun _ : ColumnName => NativeType)
      (table : Table) (calls : List Call) (key : PrimaryKey) (timestamp : Timestamp),
      buildTable metadata.key metadata tableColumns = .ok table →
      key.len = metadata.primaryKeyColumns.length →
      (Machine.run World.step (World.init table) calls).Succeeds
        (.delete metadata.key key timestamp) := by
  intro h
  have hsize : (World.init Sample.globalTable).table.primaryKeys.size = 1024 := by decide +kernel
  have hneeds : (World.init Sample.globalTable).table.needsCkNormalization = false := by
    decide +kernel
  have hlen : (World.init Sample.globalTable).table.primaryKeys.size < Sample.manyKeys.length := by
    rw [hsize]
    simp [Sample.manyKeys]
  obtain ⟨calls, key, hkey, hfails⟩ :=
    World.exists_delete_fails (World.consistent_init Sample.isNew_globalTable) Sample.metadata.key
      (Sample.time 0) Sample.nodup_manyKeys (fun key _ => World.keyOf_of_not_needs hneeds _) hlen
  obtain ⟨n, -, rfl⟩ := List.mem_map.mp hkey
  exact hfails (h Sample.metadata _ _ calls _ _ Sample.buildTable_metadata rfl)

end VectorStore
