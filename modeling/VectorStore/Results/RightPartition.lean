import VectorStore.Rows.Events

/-!
# The partition a row is in

A row of a local index should be in the partition that its stored columns give it.  The columns of
a row are written before the timestamp of its target decides whether the row moves, so a row is
stranded when the columns move on and the update does not.
-/

namespace VectorStore

/-- Every row that is assigned to a partition has the key of the partition in its columns. -/
def Table.RightPartition (table : Table) : Prop :=
  ∀ data, table.index.data = .localIndex data → ∀ id p, data.ids.get id = some (some p) →
    ∃ pkey, partitionKey id data.partitionKeyColumns.toList table.primaryKeys table.columns =
        some pkey ∧ data.keys.get p = some (some pkey)

/-! ## One row -/

namespace Row

variable {schema : Schema} {present : PartitionKey → Bool} {row : Row} {call : Call}

/-- A row that is held has its partition key in its columns. -/
def InPlace (schema : Schema) (row : Row) : Prop :=
  ∀ entry ∈ row.target.held, row.partitionKey schema = some entry.1

/-- The call strands the row: its writes to the columns take the row out of its partition, but the
call fails at one of them or has an older target. -/
def Strands (schema : Schema) (call : Call) (row : Row) : Prop :=
  ∃ entry ∈ row.target.held, ∃ split, call.split = .ok split ∧
    (row.prepare schema call split).partitionKey schema ≠ some entry.1 ∧
    ¬(call.WellFormed schema ∧ row.target.stamp ≤ call.target.stamp)

/-- With all partition columns in the primary key, no write changes the partition key. -/
theorem partitionKey_congr (hpart : schema.Partitioned)
    (hnonpk : schema.nonpkPartitionKeyColumns = []) {row' : Row} (hkey : row'.key = row.key) :
    row'.partitionKey schema = row.partitionKey schema := by
  unfold Row.partitionKey
  cases hcolumns : schema.partitionColumns with
  | none => rfl
  | some columns =>
    obtain ⟨columns, nonpk⟩ := columns
    dsimp only
    congr 1
    refine mapM_option_congr fun name hname => ?_
    rcases hpart columns nonpk hcolumns name hname with ⟨offset, hshape⟩ | ⟨hmem, -⟩
    · unfold Row.column
      rw [hshape, hkey]
    · unfold Schema.nonpkPartitionKeyColumns at hnonpk
      rw [hcolumns] at hnonpk
      have hnil : nonpk = [] := hnonpk
      rw [hnil] at hmem
      cases hmem

/-- A row that was in place, or was not held, is due where its columns put it. -/
theorem destination_of_inPlace (hpart : schema.Partitioned) {row' : Row}
    (hkey : row.target.held.isSome → row'.key = row.key) (htarget : row'.target = row.target)
    (h : row.InPlace schema) : row'.destination schema = row'.partitionKey schema := by
  unfold destination
  rw [htarget]
  split
  · next hcond =>
    obtain ⟨hnonpk, hheld⟩ := Bool.and_eq_true_iff.mp hcond
    obtain ⟨entry, hentry⟩ := Option.isSome_iff_exists.mp hheld
    rw [partitionKey_congr hpart (List.isEmpty_iff.mp hnonpk) (hkey hheld), h entry hentry]
    unfold Target.key
    rw [hentry]
    rfl
  · rfl

end Row

/-- The target of a row that is due in a partition is held there or as it was. -/
theorem Target.inPlace_process_iff {present : PartitionKey → Bool} {dest : Option PartitionKey}
    {timestamp : Timestamp} {value : Option SplittingValues} {target : Target} :
    (∀ entry ∈ (target.process present dest timestamp value).held, dest = some entry.1) ↔
      ∀ entry ∈ target.held, dest ≠ some entry.1 → target.stamp ≤ timestamp := by
  have hnew : ∀ entry ∈ dest.bind fun key => value.map fun v => (key, v),
      dest = some entry.1 := by
    intro entry hentry
    obtain ⟨key, hdest, hentry⟩ := Option.bind_eq_some_iff.mp hentry
    obtain ⟨v, -, rfl⟩ := Option.map_eq_some_iff.mp hentry
    exact hdest
  constructor
  · intro h entry hentry hdest
    by_contra hgt
    rw [process_of_gt (not_le.mp hgt)] at h
    exact hdest (h entry hentry)
  · intro h entry hentry
    rcases lt_trichotomy target.stamp timestamp with hlt | heq | hgt
    · rw [held_process_of_lt hlt] at hentry
      exact hnew entry hentry
    · rw [process_of_eq heq] at hentry
      split at hentry
      · exact hnew entry hentry
      · next hstay =>
        have hkey : target.key = some entry.1 := by
          unfold Target.key
          rw [hentry]
          rfl
        rw [hkey] at hstay
        cases dest with
        | none => exact absurd rfl hstay
        | some new =>
          have hsame : ¬decide (entry.1 ≠ new) = true := hstay
          rw [decide_eq_true_eq, not_not] at hsame
          rw [hsame]
    · rw [process_of_gt hgt] at hentry
      by_contra hdest
      exact absurd (h entry hentry hdest) (not_le.mpr hgt)

namespace Row

variable {schema : Schema} {present : PartitionKey → Bool} {row : Row} {call : Call}

/-- A row stays in place unless the call strands it. -/
theorem inPlace_call_iff (hpart : schema.Partitioned)
    (hkey : row.target.held.isSome → row.key.isSome) (h : row.InPlace schema) :
    (row.call schema present call).InPlace schema ↔ ¬row.Strands schema call := by
  have hor : row.target.held.isSome → row.key.or (some call.primaryKey) = row.key := fun hheld => by
    obtain ⟨raw, hraw⟩ := Option.isSome_iff_exists.mp (hkey hheld)
    rw [hraw]
    rfl
  unfold Row.call Strands
  cases hsplit : call.split with
  | error e =>
    refine iff_of_true (fun entry hentry => ?_) ?_
    · have htouch : row.touch call.primaryKey = row :=
        Row.ext (hor (Option.isSome_iff_exists.mpr ⟨entry, hentry⟩)) rfl rfl
      rw [htouch]
      exact h entry hentry
    · rintro ⟨entry, -, split, hsome, -⟩
      cases hsome
  | ok split =>
    dsimp only
    have hwf : call.WellFormed schema ↔
        (call.writes schema split).all (accepts schema.shape) = true := by
      unfold Call.WellFormed
      simp [hsplit]
    by_cases hall : (call.writes schema split).all (accepts schema.shape) = true
    · have hstamp := (Call.split_eq schema hsplit).1
      have hdest : (row.prepare schema call split).destination schema =
          (row.prepare schema call split).partitionKey schema :=
        destination_of_inPlace hpart hor rfl h
      rw [if_pos hall]
      unfold InPlace Row.process
      dsimp only
      rw [hdest, hstamp]
      refine Target.inPlace_process_iff.trans ⟨?_, fun hno entry hentry hne => ?_⟩
      · rintro hle ⟨entry, hentry, split', hsome, hne, hnot⟩
        obtain rfl := Except.ok.inj hsome
        exact hnot ⟨hwf.mpr hall, hle entry hentry hne⟩
      · by_contra hgt
        exact hno ⟨entry, hentry, split, rfl, hne, fun hand => hgt hand.2⟩
    · -- A write that is not accepted leaves the columns as they are at that point.
      rw [if_neg hall]
      refine ⟨?_, fun hno entry hentry => ?_⟩
      · rintro hin ⟨entry, hentry, split', hsome, hne, -⟩
        obtain rfl := Except.ok.inj hsome
        exact hne (hin entry hentry)
      · by_contra hne
        exact hno ⟨entry, hentry, split, rfl, hne, fun hand => hall (hwf.mp hand.1)⟩

end Row

/-! ## The table -/

namespace World

/-- A held row has a key. -/
theorem Consistent.key_isSome {w : World} (h : w.Consistent) {key : PrimaryKey}
    (hheld : (w.row key).target.held.isSome) : (w.row key).key.isSome := by
  unfold World.row Table.rows at *
  cases hid : w.table.primaryIds.lookup key with
  | none =>
    rw [hid] at hheld
    cases hheld
  | some id => exact Table.Consistent.keys h key id hid

/-- The rows of a table are in the right partitions when they are in place. -/
theorem Consistent.rightPartition_iff {w : World} (h : w.Consistent)
    (hlocal : w.schema.partitionColumns.isSome) :
    w.table.RightPartition ↔ ∀ key, (w.row key).InPlace w.schema := by
  have htracks : w.table.index.data.Tracks w.table.index.indexId w.store w.table.index.epochs
      w.held w.table.primaryKeys.size none := (Table.Consistent.index h).data
  cases hdata : w.table.index.data with
  | globalIndex =>
    have hnone : w.schema.partitionColumns = none := by
      unfold World.schema Table.schema
      dsimp only
      rw [hdata]
      rfl
    rw [hnone] at hlocal
    cases hlocal
  | localIndex data =>
    rw [hdata] at htracks
    have hids : ∀ id p, data.ids.get id = some (some p) ↔
        ∃ pkey value, w.held (Idx.idx id) = some (pkey, value) ∧
          data.map.lookup pkey = some p := by
      intro id p
      rw [← Option.join_eq_some_iff, ColumnVec.get, htracks.1.ids (Idx.idx id),
        Option.bind_eq_some_iff]
      simp
    constructor
    · intro hright key entry hentry
      cases hid : w.table.primaryIds.lookup key with
      | none =>
        unfold World.row Table.rows at hentry
        rw [hid] at hentry
        cases hentry
      | some id =>
        have hrow : w.row key = w.table.rowAt w.held id := Table.Consistent.rows_eq hid
        rw [hrow] at hentry ⊢
        obtain ⟨p, hp⟩ := htracks.1.exists_lookup hentry
        obtain ⟨pkey, hpkey, hkeys⟩ :=
          hright data hdata id p ((hids id p).mpr ⟨entry.1, entry.2, hentry, hp⟩)
        rw [Table.partitionKey_eq hdata w.held id] at hpkey
        rw [htracks.1.keys_get hp] at hkeys
        obtain rfl := Option.some.inj (Option.some.inj hkeys)
        exact hpkey
    · intro hplace data' hdata' id p hid
      rw [hdata] at hdata'
      obtain rfl := IndexData.localIndex.inj hdata'
      obtain ⟨pkey, value, hheld, hp⟩ := (hids id p).mp hid
      obtain ⟨key, id', hlook, hidx⟩ := Table.Consistent.exists_key h hheld
      have hrow : w.row key = w.table.rowAt w.held id' := Table.Consistent.rows_eq hlook
      have hsame : w.table.rowAt w.held id' = w.table.rowAt w.held id :=
        Table.rowAt_congr w.table w.held hidx
      refine ⟨pkey, ?_, htracks.1.keys_get hp⟩
      rw [Table.partitionKey_eq hdata w.held id, ← hsame, ← hrow]
      refine hplace key (pkey, value) ?_
      rw [hrow, hsame]
      exact hheld

variable [DecimalNormalizer] {w : World} {call : Call}

/-- The call strands its row. -/
def Strands (w : World) (call : Call) : Prop :=
  ∃ key, w.Reaches call key ∧ (w.row key).Strands w.schema call

/-- A call keeps all rows in place unless it strands its row. -/
theorem inPlace_step_iff (hw : w.Consistent) (hpart : w.schema.Partitioned)
    (h : ∀ key, (w.row key).InPlace w.schema) :
    (∀ key, ((w.step call).row key).InPlace (w.step call).schema) ↔ ¬w.Strands call := by
  rw [step_schema hw call]
  by_cases hreach : ∃ key, w.Reaches call key
  · obtain ⟨key, hreach⟩ := hreach
    have hrow := (step_stepped hw hreach).row
    have hcall : ((w.row key).call w.schema w.present call).InPlace w.schema ↔
        ¬(w.row key).Strands w.schema call := Row.inPlace_call_iff hpart hw.key_isSome (h key)
    constructor
    · rintro hin ⟨key', hreach', hstrands⟩
      obtain rfl : key' = key := Except.ok.inj (hreach'.keyOf_eq.symm.trans hreach.keyOf_eq)
      have hkey := hin key'
      rw [hrow, Function.update_self] at hkey
      exact hcall.mp hkey hstrands
    · intro hno key'
      rw [hrow]
      by_cases hkey : key' = key
      · rw [hkey, Function.update_self]
        exact hcall.mpr fun hstrands => hno ⟨key, hreach, hstrands⟩
      · rw [Function.update_of_ne hkey]
        exact h key'
  · push Not at hreach
    rw [(step_refused hw hreach).row]
    exact iff_of_true h fun ⟨key, hreach', _⟩ => hreach key hreach'

/-- In every run of a local index, the rows are in the right partitions after every call if and
only if no call strands its row. -/
theorem rightPartition_along_iff {table : Table} (hnew : table.IsNew)
    (hlocal : table.schema.partitionColumns.isSome) (calls : List Call) :
    Machine.Along step (fun w call => (w.step call).table.RightPartition) (init table) calls ↔
      Machine.Along step (fun w call => ¬w.Strands call) (init table) calls := by
  have hiff : ∀ (w : World) (call : Call),
      (w.Consistent ∧ w.schema = table.schema ∧ ∀ key, (w.row key).InPlace w.schema) →
        ((w.step call).table.RightPartition ↔ ¬w.Strands call) := by
    rintro w call ⟨hw, hschema, hplace⟩
    rw [(step_consistent hw call).rightPartition_iff (by rwa [step_schema hw, hschema])]
    exact inPlace_step_iff hw (by rw [hschema]; exact hnew.partitioned) hplace
  refine Machine.along_congr hiff ?_ ⟨consistent_init hnew, rfl, fun key => ?_⟩ calls
  · rintro w call ⟨hw, hschema, -⟩ hright
    have hw' := step_consistent hw call
    refine ⟨hw', (step_schema hw call).trans hschema, ?_⟩
    exact (hw'.rightPartition_iff (by rwa [step_schema hw, hschema])).mp hright
  · rw [row_init hnew]
    intro entry hentry
    cases hentry

end World

namespace Sample

/-- The partition column of a row moves on with an older value of its target. -/
def mixedAges : List Call :=
  [upsert 0 1 (some (vector 1)) 0 (some 1), upsert 0 0 (some (vector 2)) 1 (some 2)]

end Sample

attribute [local instance] Sample.decimals

theorem rightPartition_along_iff_mixedAges :
    Machine.Along World.step (fun w call => (w.step call).table.RightPartition)
        (World.init Sample.columnTable) Sample.mixedAges ↔
      Machine.Along World.step (fun w call => ¬w.Strands call)
        (World.init Sample.columnTable) Sample.mixedAges :=
  World.rightPartition_along_iff Sample.isNew_columnTable (by decide +kernel) _

/-- Not every reachable table has its rows in the right partitions. -/
theorem not_always_rightPartition :
    ¬∀ w : World, w.Reachable → w.schema.partitionColumns.isSome → w.table.RightPartition := by
  intro h
  have hreach : (Machine.run World.step (World.init Sample.columnTable)
      Sample.mixedAges).Reachable := ⟨_, _, Sample.isNew_columnTable, rfl⟩
  have hlocal : (Machine.run World.step (World.init Sample.columnTable)
      Sample.mixedAges).schema.partitionColumns.isSome := by
    decide +kernel
  have hplace := (hreach.consistent.rightPartition_iff hlocal).mp (h _ hreach hlocal) (Sample.key 0)
  unfold Row.InPlace at hplace
  revert hplace
  decide +kernel

end VectorStore
