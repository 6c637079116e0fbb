import VectorStore.Rows.Events

/-!
# Successive snapshots of a row

The upserts of one row of a local index with partition columns outside the primary key are taken
as successive snapshots of the row.  After each of them the row should be held as the snapshot
says.  It is, unless the upsert is overlooked: a row that left its partition comes back with the
timestamp it had, and the partition exists because of other rows.
-/

namespace VectorStore

/-! ## Snapshots -/

namespace Call

/-- What a call says of a column. -/
def cell (schema : Schema) (call : Call) (name : ColumnName) : Cell :=
  (call.cells schema name).head?.getD ⟨.min, none⟩

/-- The call is an upsert that says one thing of every column it is for. -/
structure IsSnapshot (schema : Schema) (call : Call) : Prop where
  upsert : ∃ indexKey primaryKey values, call = .upsert indexKey primaryKey values
  complete : ∀ name ∈ schema.nonpkPartitionKeyColumns ++ schema.filteringColumns,
    call.cells schema name ≠ []
  single : ∀ name ∈ schema.nonpkPartitionKeyColumns ++ schema.filteringColumns,
    ∀ write ∈ call.cells schema name, write = call.cell schema name

/-- The second call is a snapshot that may follow the first: no cell is older, and a cell that is
as old as it was is what it was. -/
def Precedes (schema : Schema) (call later : Call) : Prop :=
  call.target.Before later.target ∧
    ∀ name ∈ schema.nonpkPartitionKeyColumns ++ schema.filteringColumns,
      (call.cell schema name).Before (later.cell schema name)

/-- The tuple of the partition columns in a snapshot; the columns of the primary key are those the
row was first seen with. -/
def partitionKey (schema : Schema) (key : PrimaryKey) (call : Call) : Option PartitionKey :=
  schema.partitionColumns.bind fun columns =>
    (columns.1.toList.mapM fun name =>
      match schema.shape name with
      | some (.primaryKey offset) => key.get offset
      | some (.values _) => (call.cell schema name).content
      | none => none).map PartitionKey.fromIter

end Call

/-- The key a row is first seen with, when it is upserted. -/
def Row.firstKey (row : Row) (call : Call) : PrimaryKey := row.key.getD call.primaryKey

namespace World

/-- How a snapshot says its row is to be held. -/
def expected (w : World) (key : PrimaryKey) (call : Call) :
    Option (PartitionKey × SplittingValues) :=
  (call.partitionKey w.schema ((w.row key).firstKey call)).bind fun pkey =>
    call.target.content.map fun value => (pkey, value)

/-- The upsert is overlooked: the row is not held, its snapshot has a value as old as the last one
that was recorded, and the partition it belongs to exists. -/
def Overlooks (w : World) (key : PrimaryKey) (call : Call) : Prop :=
  (w.row key).target.held = none ∧ (w.row key).target.stamp = call.target.stamp ∧
    call.target.content.isSome ∧
    ∃ pkey ∈ call.partitionKey w.schema ((w.row key).firstKey call), w.present pkey = true

instance (schema : Schema) (call later : Call) : Decidable (call.Precedes schema later) := by
  unfold Call.Precedes
  infer_instance

instance (w : World) (key : PrimaryKey) (call : Call) : Decidable (w.Overlooks key call) := by
  unfold Overlooks
  infer_instance

end World

/-! ## One row -/

/-- The snapshot may follow what is stored of the target. -/
def Target.Precedes (write : Stamped Timestamp (Option SplittingValues)) (target : Target) : Prop :=
  target.stamp ≤ write.stamp ∧
    (target.stamp = write.stamp → ∀ entry ∈ target.held, write.content = some entry.2)

/-- The snapshot may follow what is stored of the row. -/
def Row.Precedes (schema : Schema) (call : Call) (row : Row) : Prop :=
  row.target.Precedes call.target ∧
    ∀ name ∈ schema.nonpkPartitionKeyColumns ++ schema.filteringColumns,
      (row.cells name).Before (call.cell schema name)

namespace Target

variable {present : PartitionKey → Bool} {dest : Option PartitionKey}
  {write later : Stamped Timestamp (Option SplittingValues)} {target : Target}

/-- The target follows a snapshot, unless the snapshot is overlooked. -/
theorem held_process_iff (h : target.Precedes write) :
    (target.process present dest write.stamp write.content).held =
        (dest.bind fun pkey => write.content.map fun value => (pkey, value)) ↔
      ¬(target.held = none ∧ target.stamp = write.stamp ∧ write.content.isSome ∧
        ∃ pkey ∈ dest, present pkey = true) := by
  rcases h.1.lt_or_eq with hlt | heq
  · exact iff_of_true (held_process_of_lt hlt) fun hover => hlt.ne hover.2.1
  have htie := h.2 heq
  rw [process_of_eq heq]
  unfold Target.key
  cases hheld : target.held with
  | none =>
    cases dest with
    | none => simp [changesPartition, hheld]
    | some pkey =>
      cases hpresent : present pkey with
      | false => simp [changesPartition, hpresent]
      | true =>
        cases hcontent : write.content with
        | none => simp [changesPartition, hpresent, hheld]
        | some value => simp [changesPartition, hpresent, hheld, heq]
  | some entry =>
    have hcontent := htie entry hheld
    cases dest with
    | none => simp [changesPartition]
    | some pkey =>
      by_cases hkey : entry.1 = pkey
      · -- The row stays where it is, and the tie carries the value it has.
        simp [changesPartition, hkey, hheld, hcontent, Prod.ext_iff]
      · simp [changesPartition, hkey]

/-- What may follow both what is stored and a snapshot may follow what is stored after it. -/
theorem Precedes.process (h : target.Precedes later) (hwrite : write.Before later) :
    (target.process present dest write.stamp write.content).Precedes later := by
  unfold Target.process
  split
  · refine ⟨hwrite.1, fun heq entry hentry => ?_⟩
    rw [← hwrite.2 heq]
    obtain ⟨pkey, -, hentry⟩ := Option.bind_eq_some_iff.mp hentry
    obtain ⟨value, hvalue, rfl⟩ := Option.map_eq_some_iff.mp hentry
    exact hvalue
  · exact h

end Target

namespace Row

variable {schema : Schema} {present : PartitionKey → Bool} {row : Row} {call later : Call}

/-- After a snapshot the columns are those of the snapshot. -/
theorem cells_absorb_of_precedes (hsnap : call.IsSnapshot schema) (h : row.Precedes schema call)
    {name : ColumnName}
    (hname : name ∈ schema.nonpkPartitionKeyColumns ++ schema.filteringColumns) :
    (row.absorb schema call).cells name = call.cell schema name :=
  (h.2 name hname).absorbAll_eq (hsnap.complete name hname) (hsnap.single name hname)

/-- The partition columns of a row after a snapshot are those of the snapshot. -/
theorem partitionKey_absorb (hpart : schema.Partitioned)
    (hlocal : schema.nonpkPartitionKeyColumns ≠ []) (hsnap : call.IsSnapshot schema)
    (h : row.Precedes schema call) :
    (row.absorb schema call).partitionKey schema =
      call.partitionKey schema (row.firstKey call) := by
  have hkey : (row.absorb schema call).key = some (row.firstKey call) := by
    unfold firstKey
    rw [key_absorb]
    cases row.key <;> rfl
  unfold Row.partitionKey Call.partitionKey
  cases hcolumns : schema.partitionColumns with
  | none =>
    unfold Schema.nonpkPartitionKeyColumns at hlocal
    rw [hcolumns] at hlocal
    exact absurd rfl hlocal
  | some columns =>
    obtain ⟨columns, nonpk⟩ := columns
    dsimp only [Option.bind_some]
    congr 1
    refine mapM_option_congr fun name hname => ?_
    unfold Row.column
    rcases hpart columns nonpk hcolumns name hname with ⟨offset, hshape⟩ | ⟨hnonpk, type, hshape⟩
    · rw [hshape, hkey]
      rfl
    · have hmem : name ∈ schema.nonpkPartitionKeyColumns ++ schema.filteringColumns := by
        refine List.mem_append_left _ ?_
        unfold Schema.nonpkPartitionKeyColumns
        rw [hcolumns]
        exact hnonpk
      rw [hshape, cells_absorb_of_precedes hsnap h hmem]

/-- With partition columns outside the primary key, a row is due where its columns say. -/
theorem destination_of_nonpk (hlocal : schema.nonpkPartitionKeyColumns ≠ []) :
    row.destination schema = row.partitionKey schema := by
  unfold destination
  rw [List.isEmpty_eq_false_iff.mpr hlocal, Bool.false_and, if_neg Bool.false_ne_true]

/-- The target of a row after a snapshot. -/
theorem target_call_snapshot (hpart : schema.Partitioned)
    (hlocal : schema.nonpkPartitionKeyColumns ≠ []) (hwf : call.WellFormed schema)
    (hsnap : call.IsSnapshot schema) (h : row.Precedes schema call) :
    (row.call schema present call).target =
      row.target.process present (call.partitionKey schema (row.firstKey call))
        call.target.stamp call.target.content := by
  rw [call_of_wellFormed hwf]
  unfold Row.process
  dsimp only
  rw [destination_of_nonpk hlocal, partitionKey_absorb hpart hlocal hsnap h, target_absorb]

/-- What may follow both a row and a snapshot may follow the row after the snapshot. -/
theorem Precedes.after (hpart : schema.Partitioned)
    (hlocal : schema.nonpkPartitionKeyColumns ≠ []) (hwf : call.WellFormed schema)
    (hsnap : call.IsSnapshot schema) (h : row.Precedes schema call)
    (hlater : row.Precedes schema later) (horder : call.Precedes schema later) :
    (row.call schema present call).Precedes schema later := by
  constructor
  · rw [target_call_snapshot hpart hlocal hwf hsnap h]
    exact hlater.1.process horder.1
  · intro name hname
    rw [call_of_wellFormed hwf, cells_process, cells_absorb_of_precedes hsnap h hname]
    exact horder.2 name hname

/-- Any snapshot after `Timestamp::MIN` may be the first of a row. -/
theorem precedes_fresh (hsnap : call.IsSnapshot schema) (hmin : .min < call.target.stamp)
    (hcells : ∀ write ∈ call.columnWrites schema, .min < write.1.stamp) :
    fresh.Precedes schema call := by
  refine ⟨⟨hmin.le, fun heq => absurd heq hmin.ne⟩, fun name hname => ?_⟩
  obtain ⟨write, hwrite⟩ := List.exists_mem_of_ne_nil _ (hsnap.complete name hname)
  obtain ⟨columnWrite, hmem, rfl⟩ := Call.mem_cells hwrite
  rw [← hsnap.single name hname _ hwrite]
  have hlt : Timestamp.min < columnWrite.1.stamp := hcells columnWrite hmem
  exact ⟨hlt.le, fun heq => absurd heq hlt.ne⟩

end Row

/-! ## Runs -/

namespace World

variable [DecimalNormalizer]

/-- One snapshot: the row is held as the snapshot says if and only if it is not overlooked. -/
theorem step_snapshot_iff {w : World} {key : PrimaryKey} {call : Call} (hw : w.Consistent)
    (hpart : w.schema.Partitioned) (hlocal : w.schema.nonpkPartitionKeyColumns ≠ [])
    (hkey : w.keyOf call = .ok key) (hok : w.Succeeds call) (hsnap : call.IsSnapshot w.schema)
    (h : (w.row key).Precedes w.schema call) :
    ((w.step call).row key).target.held = w.expected key call ↔ ¬w.Overlooks key call := by
  have hwf := (step_stepped hw (hok.reaches_of_keyOf hw hkey)).succeeds_iff.mp hok
  rw [step_row_of_succeeds hw hok hkey, Row.target_call_snapshot hpart hlocal hwf hsnap h]
  exact Target.held_process_iff h.1

/-- The snapshots of a row that are still to come may follow what is stored of it. -/
theorem along_snapshots {w : World} {key : PrimaryKey} {calls : List Call} (hw : w.Consistent)
    (hpart : w.schema.Partitioned) (hlocal : w.schema.nonpkPartitionKeyColumns ≠ [])
    (hok : Machine.Along step (fun w call => w.keyOf call = .ok key → w.Succeeds call) w calls)
    (hsnap : ∀ call ∈ w.eventsOf key calls, call.IsSnapshot w.schema)
    (horder : (w.eventsOf key calls).Pairwise (Call.Precedes w.schema))
    (hprec : ∀ call ∈ w.eventsOf key calls, (w.row key).Precedes w.schema call) :
    Machine.Along step (fun w call => w.keyOf call = .ok key →
      (((w.step call).row key).target.held = w.expected key call ↔ ¬w.Overlooks key call))
      w calls := by
  induction calls generalizing w with
  | nil => trivial
  | cons call calls ih =>
    obtain ⟨hcall, hok⟩ := hok
    have hw' := step_consistent hw call
    have hschema := step_schema hw call
    have hevents : (w.step call).eventsOf key calls = w.eventsOf key calls := eventsOf_step hw
    by_cases hkey : w.keyOf call = .ok key
    · rw [eventsOf_cons_of_eq hkey] at hsnap horder hprec
      obtain ⟨hfirst, horder⟩ := List.pairwise_cons.mp horder
      obtain ⟨hsnapCall, hsnap⟩ := List.forall_mem_cons.mp hsnap
      obtain ⟨hprecCall, hprec⟩ := List.forall_mem_cons.mp hprec
      have hsucc := hcall hkey
      have hwf := (step_stepped hw (hsucc.reaches_of_keyOf hw hkey)).succeeds_iff.mp hsucc
      refine ⟨fun _ => step_snapshot_iff hw hpart hlocal hkey hsucc hsnapCall hprecCall, ?_⟩
      refine ih hw' (by rwa [hschema]) (by rwa [hschema]) hok ?_ ?_ ?_
      · rwa [hevents, hschema]
      · rwa [hevents, hschema]
      · intro later hlater
        rw [hevents] at hlater
        rw [hschema, step_row_of_succeeds hw hsucc hkey]
        exact hprecCall.after hpart hlocal hwf hsnapCall (hprec later hlater)
          (hfirst later hlater)
    · rw [eventsOf_cons_of_ne hkey] at hsnap horder hprec
      refine ⟨fun hkey' => absurd hkey' hkey, ?_⟩
      refine ih hw' (by rwa [hschema]) (by rwa [hschema]) hok ?_ ?_ ?_
      · rwa [hevents, hschema]
      · rwa [hevents, hschema]
      · rw [hevents, hschema, step_row_of_ne hw hkey]
        exact hprec

/-- In every run, whatever the calls on other rows, each snapshot of a row is followed if and only
if it is not overlooked. -/
theorem snapshots_followed_iff {table : Table} (hnew : table.IsNew)
    (hlocal : table.schema.nonpkPartitionKeyColumns ≠ []) {key : PrimaryKey} {calls : List Call}
    (hok : Machine.Along step (fun w call => w.keyOf call = .ok key → w.Succeeds call)
      (init table) calls)
    (hsnap : ∀ call ∈ (init table).eventsOf key calls, call.IsSnapshot table.schema)
    (hmin : ∀ call ∈ (init table).eventsOf key calls, .min < call.target.stamp ∧
      ∀ write ∈ call.columnWrites table.schema, .min < write.1.stamp)
    (horder : ((init table).eventsOf key calls).Pairwise (Call.Precedes table.schema)) :
    Machine.Along step (fun w call => w.keyOf call = .ok key →
      (((w.step call).row key).target.held = w.expected key call ↔ ¬w.Overlooks key call))
      (init table) calls := by
  refine along_snapshots (consistent_init hnew) hnew.partitioned hlocal hok hsnap horder ?_
  intro call hcall
  rw [row_init hnew]
  exact Row.precedes_fresh (hsnap call hcall) (hmin call hcall).1 (hmin call hcall).2

end World

namespace Sample

/-- A row is put into the partition of another row, its partition column is set to null, and to
what it was; the value of the row is the same throughout. -/
def comingBack : List Call :=
  [upsert 1 0 (some (vector 1)) 0 (some 1), upsert 0 0 (some (vector 2)) 0 (some 1),
    upsert 0 0 (some (vector 2)) 1 none, upsert 0 0 (some (vector 2)) 2 (some 1)]

attribute [local instance] decimals

theorem isSnapshot_upsert (row : Int32) (time : Nat) (target : Option DbIndexedValue)
    (columnTime : Nat) (column : Option Int32) :
    (upsert row time target columnTime column).IsSnapshot columnTable.schema := by
  have hnonpk : columnTable.schema.nonpkPartitionKeyColumns = [⟨"c"⟩] := by decide +kernel
  have hfiltering : columnTable.schema.filteringColumns = [] := by decide +kernel
  refine ⟨⟨_, _, _, rfl⟩, ?_, ?_⟩
  · rw [hnonpk, hfiltering]
    intro name hname
    obtain rfl : name = ⟨"c"⟩ := by simpa using hname
    unfold Call.cells Call.columnWrites upsert
    rw [hnonpk, hfiltering]
    simp
  · rw [hnonpk, hfiltering]
    intro name hname
    obtain rfl : name = ⟨"c"⟩ := by simpa using hname
    unfold Call.cell Call.cells Call.columnWrites upsert
    rw [hnonpk, hfiltering]
    simp

end Sample

attribute [local instance] Sample.decimals

theorem Sample.isSnapshot_comingBack : ∀ call ∈
    (World.init columnTable).eventsOf (key 0) comingBack, call.IsSnapshot columnTable.schema := by
  intro call hcall
  have hmem := (World.mem_eventsOf.mp hcall).1
  simp only [comingBack, List.mem_cons, List.not_mem_nil, or_false] at hmem
  rcases hmem with rfl | rfl | rfl | rfl <;> exact isSnapshot_upsert _ _ _ _ _

theorem snapshots_followed_iff_comingBack :
    Machine.Along World.step (fun w call => w.keyOf call = .ok (Sample.key 0) →
      (((w.step call).row (Sample.key 0)).target.held = w.expected (Sample.key 0) call ↔
        ¬w.Overlooks (Sample.key 0) call))
      (World.init Sample.columnTable) Sample.comingBack :=
  World.snapshots_followed_iff Sample.isNew_columnTable (by decide +kernel) (by decide +kernel)
    Sample.isSnapshot_comingBack (by decide +kernel) (by decide +kernel)

/-- Not every snapshot is followed: the last one of `Sample.comingBack` is not. -/
theorem snapshots_not_always_followed :
    ¬∀ (table : Table) (key : PrimaryKey) (calls : List Call), table.IsNew →
      table.schema.nonpkPartitionKeyColumns ≠ [] →
      Machine.Along World.step (fun w call => w.keyOf call = .ok key → w.Succeeds call)
        (World.init table) calls →
      (∀ call ∈ (World.init table).eventsOf key calls, call.IsSnapshot table.schema) →
      (∀ call ∈ (World.init table).eventsOf key calls, .min < call.target.stamp ∧
        ∀ write ∈ call.columnWrites table.schema, .min < write.1.stamp) →
      ((World.init table).eventsOf key calls).Pairwise (Call.Precedes table.schema) →
      Machine.Along World.step (fun w call => w.keyOf call = .ok key →
        ((w.step call).row key).target.held = w.expected key call) (World.init table) calls := by
  intro h
  have hlast := h Sample.columnTable (Sample.key 0) Sample.comingBack Sample.isNew_columnTable
    (by decide +kernel) (by decide +kernel) Sample.isSnapshot_comingBack (by decide +kernel)
    (by decide +kernel)
  revert hlast
  decide +kernel

end VectorStore
