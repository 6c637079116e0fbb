import VectorStore.Rows.Events

/-!
# The last write wins

For an index whose partition columns are all part of the primary key, a row is a function of the
set of events delivered for it: `Row.ofEvents` is that function, one register for the target and
one for every column.  The order of the events does not matter, and neither do repetitions.
-/

namespace VectorStore

/-! ## The reference -/

/-- The partition that a primary key alone puts its row in. -/
def Schema.partitionOf (schema : Schema) (key : PrimaryKey) : Option PartitionKey :=
  match schema.partitionColumns with
  | none => some .whole
  | some (columns, _) =>
    (columns.toList.mapM fun name =>
      match schema.shape name with
      | some (.primaryKey offset) => key.get offset
      | _ => none).map PartitionKey.fromIter

/-- Every partition column is a column of the primary key. -/
structure Schema.Keyed (schema : Schema) : Prop where
  nonpk : schema.nonpkPartitionKeyColumns = []
  shape : ∀ columns nonpk, schema.partitionColumns = some (columns, nonpk) →
    ∀ name ∈ columns.toList, ∃ offset, schema.shape name = some (.primaryKey offset)

/-- The row that a list of events leads to: the latest write of its target and of every column. -/
def Row.ofEvents (schema : Schema) (events : List Call) : Row where
  key := events.head?.map Call.primaryKey
  cells := fun name => Stamped.absorbAll ⟨.min, none⟩ (events.flatMap (·.cells schema name))
  target :=
    let write := Stamped.absorbAll ⟨.min, none⟩ (events.map Call.target)
    ⟨write.stamp, write.content.bind fun value =>
      ((events.head?.map Call.primaryKey).bind schema.partitionOf).map fun key => (key, value)⟩

/-! ## One row -/

namespace Row

variable {schema : Schema} {present : PartitionKey → Bool} {row : Row} {raw : PrimaryKey}

/-- With all partition columns in the primary key, the key puts the row in its partition. -/
theorem partitionKey_of_keyed (h : schema.Keyed) (hkey : row.key = some raw) :
    row.partitionKey schema = schema.partitionOf raw := by
  unfold partitionKey Schema.partitionOf
  cases hcolumns : schema.partitionColumns with
  | none => rfl
  | some columns =>
    obtain ⟨columns, nonpk⟩ := columns
    dsimp only
    congr 1
    refine mapM_option_congr fun name hname => ?_
    obtain ⟨offset, hshape⟩ := h.shape columns nonpk hcolumns name hname
    unfold column
    rw [hshape, hkey]
    rfl

/-- A row is due in the partition of its key, whether it is held or not. -/
theorem destination_of_keyed (h : schema.Keyed) (hkey : row.key = some raw) {pkey : PartitionKey}
    (hpart : schema.partitionOf raw = some pkey)
    (hheld : ∀ key, row.target.key = some key → key = pkey) :
    row.destination schema = some pkey := by
  unfold destination
  cases htarget : row.target.key with
  | none =>
    have hnone : row.target.held.isSome = false := by
      unfold Target.key at htarget
      rw [Option.map_eq_none_iff.mp htarget]
      rfl
    rw [hnone, Bool.and_false, if_neg Bool.false_ne_true, partitionKey_of_keyed h hkey, hpart]
  | some key =>
    obtain rfl := hheld key htarget
    rw [partitionKey_of_keyed h hkey, hpart, ite_self]

end Row

/-- In a fixed partition a target is a register, provided that a tie carries the content that is
stored. -/
theorem Target.process_eq_absorb {present : PartitionKey → Bool} {pkey : PartitionKey}
    {write new : Stamped Timestamp (Option SplittingValues)}
    (htie : write.stamp = new.stamp → write.content = new.content) :
    Target.process present (some pkey) new.stamp new.content
        ⟨write.stamp, write.content.map fun value => (pkey, value)⟩ =
      ⟨(write.absorb new).stamp, (write.absorb new).content.map fun value => (pkey, value)⟩ := by
  unfold Target.process Target.admits Target.skips
  rcases lt_trichotomy write.stamp new.stamp with hlt | heq | hgt
  · rw [Stamped.absorb_of_lt hlt]
    simp [hlt]
  · have hsame : write = new := Stamped.ext heq (htie heq)
    subst hsame
    rw [Stamped.absorb_of_le le_rfl]
    split
    · rfl
    · rfl
  · rw [Stamped.absorb_of_le hgt.le]
    simp [hgt.not_gt, hgt.ne']

namespace Row

variable {schema : Schema} {present : PartitionKey → Bool}

/-- The target of the reference, in the partition of the first event. -/
theorem target_ofEvents {events : List Call} {pkey : PartitionKey}
    (hpart : ∀ event ∈ events.head?, schema.partitionOf event.primaryKey = some pkey) :
    (ofEvents schema events).target =
      ⟨(Stamped.absorbAll ⟨.min, none⟩ (events.map Call.target)).stamp,
        (Stamped.absorbAll ⟨.min, none⟩ (events.map Call.target)).content.map fun value =>
          (pkey, value)⟩ := by
  cases events with
  | nil => rfl
  | cons event events =>
    unfold ofEvents
    simp only [List.head?_cons, Option.map_some, Option.bind_some,
      hpart event (Option.mem_some_self event)]
    rw [Option.map_eq_bind]
    rfl

/-- The step of the reference: one more event for a row. -/
theorem call_ofEvents (h : schema.Keyed) {events : List Call} {call : Call}
    (hwf : call.WellFormed schema)
    (hparts : ∀ event ∈ events ++ [call], (schema.partitionOf event.primaryKey).isSome)
    (hmin : .min < call.target.stamp)
    (hcons : Stamped.Consistent ((events ++ [call]).map Call.target)) :
    (ofEvents schema events).call schema present call = ofEvents schema (events ++ [call]) := by
  have hne : events ++ [call] ≠ [] := by simp
  obtain ⟨first, hfirst⟩ : ∃ first, (events ++ [call]).head? = some first :=
    ⟨_, List.head?_eq_some_head hne⟩
  obtain ⟨pkey, hpkey⟩ :=
    Option.isSome_iff_exists.mp (hparts first (List.mem_of_mem_head? hfirst))
  have hkey : ((ofEvents schema events).absorb schema call).key = some first.primaryKey := by
    cases events with
    | nil =>
      obtain rfl : call = first := Option.some.inj hfirst
      rfl
    | cons event events =>
      obtain rfl : event = first := Option.some.inj hfirst
      rfl
  have hcons' : Stamped.Consistent (events.map Call.target ++ [call.target]) := by
    rw [List.map_append, List.map_singleton] at hcons
    exact hcons
  -- A tie is with a write of the list: the initial stamp is before every event.
  have htie : (Stamped.absorbAll ⟨.min, none⟩ (events.map Call.target)).stamp = call.target.stamp →
      (Stamped.absorbAll ⟨.min, none⟩ (events.map Call.target)).content =
        call.target.content := by
    intro heq
    rcases Stamped.absorbAll_eq_or_mem ⟨.min, none⟩ (events.map Call.target) with hinit | hmem
    · rw [hinit] at heq
      exact absurd heq hmin.ne
    · exact hcons' _ (List.mem_append_left _ hmem) _ (by simp) heq
  have hold : ∀ event ∈ events.head?, schema.partitionOf event.primaryKey = some pkey := by
    intro event hevent
    have hhead : (events ++ [call]).head? = some event := by
      rw [List.head?_append, Option.mem_def.mp hevent]
      rfl
    obtain rfl : event = first := Option.some.inj (hhead.symm.trans hfirst)
    exact hpkey
  have hnew : ∀ event ∈ (events ++ [call]).head?,
      schema.partitionOf event.primaryKey = some pkey := by
    intro event hevent
    obtain rfl : event = first := Option.some.inj (Eq.trans hevent.symm hfirst)
    exact hpkey
  have hdest : ((ofEvents schema events).absorb schema call).destination schema = some pkey := by
    refine destination_of_keyed h hkey hpkey fun key htarget => ?_
    rw [target_absorb, target_ofEvents hold, Target.key, Option.map_map,
      Option.map_eq_some_iff] at htarget
    obtain ⟨_, -, rfl⟩ := htarget
    rfl
  rw [call_of_wellFormed hwf]
  refine Row.ext ?_ ?_ ?_
  · rw [key_process, hkey]
    exact (congrArg (Option.map Call.primaryKey) hfirst).symm
  · funext name
    rw [cells_process, cells_absorb]
    unfold ofEvents
    dsimp only
    rw [List.flatMap_append, Stamped.absorbAll_append, List.flatMap_singleton]
  · unfold process
    dsimp only
    rw [hdest, target_absorb, target_ofEvents hold, target_ofEvents hnew,
      Target.process_eq_absorb htie, List.map_append, Stamped.absorbAll_append]
    rfl

/-- The value of the reference. -/
theorem value_ofEvents {events : List Call}
    (hparts : ∀ event ∈ events, (schema.partitionOf event.primaryKey).isSome) :
    (ofEvents schema events).target.held.map Prod.snd =
      (Stamped.absorbAll ⟨.min, none⟩ (events.map Call.target)).content := by
  cases events with
  | nil => rfl
  | cons event events =>
    obtain ⟨pkey, hpkey⟩ := Option.isSome_iff_exists.mp (hparts event List.mem_cons_self)
    have hpart : ∀ first ∈ (event :: events).head?,
        schema.partitionOf first.primaryKey = some pkey := by
      intro first hfirst
      obtain rfl : event = first := Option.some.inj hfirst
      exact hpkey
    rw [target_ofEvents hpart, Option.map_map]
    exact Option.map_id'

/-! ## The latest writes -/

/-- The row holds the latest write of its target, in the partition of its key, and the latest
write of every column. -/
structure HoldsLatest (schema : Schema) (events : List Call) (row : Row) : Prop where
  unheld : events = [] → row.target.held = none
  target : ∀ write, Stamped.IsLatest write (events.map Call.target) →
    ∃ first pkey, events.head? = some first ∧
      schema.partitionOf first.primaryKey = some pkey ∧
      row.target.held = write.content.map fun value => (pkey, value)
  columns : ∀ name write, Stamped.IsLatest write (events.flatMap (·.cells schema name)) →
    row.cells name = write

/-- The reference holds the latest writes. -/
theorem holdsLatest_ofEvents {events : List Call}
    (hparts : ∀ event ∈ events, (schema.partitionOf event.primaryKey).isSome)
    (hmin : ∀ event ∈ events, .min < event.target.stamp ∧
      ∀ write ∈ event.columnWrites schema, .min < write.1.stamp)
    (htargets : Stamped.Consistent (events.map Call.target))
    (hcells : ∀ name, Stamped.Consistent (events.flatMap (·.cells schema name))) :
    HoldsLatest schema events (ofEvents schema events) := by
  constructor
  case unheld =>
    rintro rfl
    rfl
  case target =>
    intro write hlatest
    obtain ⟨event, hevent, rfl⟩ := List.mem_map.mp hlatest.1
    obtain ⟨first, hfirst⟩ : ∃ first, events.head? = some first :=
      ⟨_, List.head?_eq_some_head (List.ne_nil_of_mem hevent)⟩
    obtain ⟨pkey, hpkey⟩ :=
      Option.isSome_iff_exists.mp (hparts first (List.mem_of_mem_head? hfirst))
    have hpart : ∀ event ∈ events.head?, schema.partitionOf event.primaryKey = some pkey := by
      intro event' hevent'
      obtain rfl : event' = first := Option.some.inj (Eq.trans hevent'.symm hfirst)
      exact hpkey
    refine ⟨first, pkey, hfirst, hpkey, ?_⟩
    rw [target_ofEvents hpart, Stamped.absorbAll_eq_of_isLatest hlatest (hmin event hevent).1
      fun v hv heq => htargets.eq_of_stamp_eq hv hlatest.1 heq]
  case columns =>
    intro name write hlatest
    obtain ⟨event, hevent, hwrite⟩ := List.mem_flatMap.mp hlatest.1
    obtain ⟨columnWrite, hmem, rfl⟩ := Call.mem_cells hwrite
    exact Stamped.absorbAll_eq_of_isLatest hlatest ((hmin event hevent).2 columnWrite hmem)
      fun v hv heq => (hcells name).eq_of_stamp_eq hv hlatest.1 heq

/-- The reference depends on the set of events only. -/
theorem ofEvents_congr {events events' : List Call} (hmem : ∀ event, event ∈ events' ↔ event ∈ events)
    (hmin : ∀ event ∈ events, .min < event.target.stamp ∧
      ∀ write ∈ event.columnWrites schema, .min < write.1.stamp)
    (htargets : Stamped.Consistent (events.map Call.target))
    (hcells : ∀ name, Stamped.Consistent (events.flatMap (·.cells schema name))) :
    Stamped.absorbAll ⟨.min, none⟩ (events'.map Call.target) =
        Stamped.absorbAll ⟨.min, none⟩ (events.map Call.target) ∧
      (ofEvents schema events').cells = (ofEvents schema events).cells := by
  constructor
  · refine (Stamped.absorbAll_congr ?_ htargets ?_).symm
    · intro write
      simp only [List.mem_map, hmem]
    · intro write hwrite
      obtain ⟨event, hevent, rfl⟩ := List.mem_map.mp hwrite
      exact (hmin event hevent).1
  · funext name
    refine (Stamped.absorbAll_congr ?_ (hcells name) ?_).symm
    · intro write
      simp only [List.mem_flatMap, hmem]
    · intro write hwrite
      obtain ⟨event, hevent, hwrite⟩ := List.mem_flatMap.mp hwrite
      obtain ⟨columnWrite, hmem, rfl⟩ := Call.mem_cells hwrite
      exact (hmin event hevent).2 columnWrite hmem

end Row

/-! ## Runs -/

/-- With all partition columns in the primary key, a key of the right length has a partition. -/
theorem Table.Made.keyed {indexKey : IndexKey} {primaryKeyColumns : NonemptyBox ColumnName}
    {partitionPrimaryKeyCount : ℕ+} {partitionKeyColumns : Option (NonemptyBox ColumnName)}
    {filteringColumns : List ColumnName} {tableColumns : AList fun _ : ColumnName => NativeType}
    {table : Table}
    (h : Table.Made indexKey primaryKeyColumns partitionPrimaryKeyCount partitionKeyColumns
      filteringColumns tableColumns table)
    (hpk : ∀ columns, partitionKeyColumns = some columns →
      ∀ name ∈ columns.toList, name ∈ primaryKeyColumns.toList) :
    table.schema.Keyed ∧ ∀ key : PrimaryKey, key.len = primaryKeyColumns.length →
      (table.schema.partitionOf key).isSome := by
  have hcolumns := h.partitionColumns_eq
  refine ⟨⟨?_, ?_⟩, ?_⟩
  · unfold Schema.nonpkPartitionKeyColumns
    rw [hcolumns]
    cases hpart : partitionKeyColumns with
    | none => rfl
    | some columns =>
      refine List.filter_eq_nil_iff.mpr fun name hname => ?_
      simp [hpk columns hpart name hname]
  · intro columns nonpk hsome name hname
    rw [hcolumns] at hsome
    obtain ⟨columns', hpart, heq⟩ := Option.map_eq_some_iff.mp hsome
    obtain ⟨rfl, -⟩ := Prod.mk.inj heq
    obtain ⟨offset, -, hshape⟩ := h.primaryKey name (hpk columns' hpart name hname)
    exact ⟨offset, hshape⟩
  · intro key hlen
    unfold Schema.partitionOf
    rw [hcolumns]
    cases hpart : partitionKeyColumns with
    | none => rfl
    | some columns =>
      rw [Option.map_some]
      dsimp only
      rw [Option.isSome_map, isSome_mapM_iff]
      intro name hname
      obtain ⟨offset, hlt, hshape⟩ := h.primaryKey name (hpk columns hpart name hname)
      rw [hshape]
      rw [← hlen] at hlt
      have hget : key.get offset = some (key.key.values.get ⟨offset, hlt⟩) :=
        List.getElem?_eq_getElem hlt
      dsimp only
      rw [hget]
      rfl

namespace World

variable [DecimalNormalizer]

/-- Every row of a run is the reference row of its events. -/
theorem row_run_eq_ofEvents {table : Table} (hnew : table.IsNew) (h : table.schema.Keyed)
    {calls : List Call}
    (hparts : ∀ call ∈ calls, (table.schema.partitionOf call.primaryKey).isSome)
    (hmin : ∀ call ∈ calls, .min < call.target.stamp)
    (hok : Machine.Along step Succeeds (init table) calls) (key : PrimaryKey)
    (hcons : Stamped.Consistent (((init table).eventsOf key calls).map Call.target)) :
    (Machine.run step (init table) calls).row key =
      Row.ofEvents table.schema ((init table).eventsOf key calls) := by
  induction calls using List.reverseRecOn with
  | nil => exact row_init hnew key
  | append_singleton calls call ih =>
    obtain ⟨hok, hcall, -⟩ := Machine.along_append.mp hok
    have hw := run_consistent (consistent_init hnew) calls
    have hschema : (Machine.run step (init table) calls).schema = table.schema :=
      run_schema (consistent_init hnew) calls
    have hsub : (init table).eventsOf key calls ⊆ (init table).eventsOf key (calls ++ [call]) := by
      intro event hevent
      obtain ⟨hmem, hkey⟩ := mem_eventsOf.mp hevent
      exact mem_eventsOf.mpr ⟨List.mem_append_left _ hmem, hkey⟩
    have hrow := ih (fun c hc => hparts c (List.mem_append_left _ hc))
      (fun c hc => hmin c (List.mem_append_left _ hc)) hok
      fun v hv w hw => hcons v (List.map_subset _ hsub hv) w (List.map_subset _ hsub hw)
    rw [Machine.run_append]
    change ((Machine.run step (init table) calls).step call).row key = _
    have hkeyOf : (Machine.run step (init table) calls).keyOf call = (init table).keyOf call :=
      keyOf_congr hschema call
    by_cases hkey : (init table).keyOf call = .ok key
    · have hevents : (init table).eventsOf key (calls ++ [call]) =
          (init table).eventsOf key calls ++ [call] := eventsOf_append_of_eq hkey
      have hreach := Succeeds.reaches_of_keyOf hw hcall (hkeyOf.trans hkey)
      have hwf := (step_stepped hw hreach).succeeds_iff.mp hcall
      rw [hschema] at hwf
      rw [hevents] at hcons ⊢
      rw [step_row_of_succeeds hw hcall (hkeyOf.trans hkey), hrow, hschema]
      refine Row.call_ofEvents h hwf (fun event hevent => ?_) (hmin call (by simp)) hcons
      refine hparts event ?_
      rw [← hevents] at hevent
      exact (mem_eventsOf.mp hevent).1
    · rw [eventsOf_append_of_ne hkey, ← hrow]
      exact step_row_of_ne hw fun heq => hkey (hkeyOf.symm.trans heq)

/-- With all partition columns in the primary key, whatever the order and the repetitions in which
events are delivered, every row ends with the latest write of its target and of every column; two
orders of the same events end with the same rows. -/
theorem last_write_wins {indexKey : IndexKey} {primaryKeyColumns : NonemptyBox ColumnName}
    {partitionPrimaryKeyCount : ℕ+} {partitionKeyColumns : Option (NonemptyBox ColumnName)}
    {targetColumns : NonemptyBox ColumnName} {filteringColumns : List ColumnName}
    {tableColumns : AList fun _ : ColumnName => NativeType} {table : Table}
    (hnew : Table.new indexKey primaryKeyColumns partitionPrimaryKeyCount partitionKeyColumns
      targetColumns filteringColumns tableColumns = .ok table)
    (hpk : ∀ columns, partitionKeyColumns = some columns →
      ∀ name ∈ columns.toList, name ∈ primaryKeyColumns.toList)
    {calls : List Call}
    (harity : ∀ call ∈ calls, call.primaryKey.len = primaryKeyColumns.length)
    (hmin : ∀ call ∈ calls, .min < call.target.stamp ∧
      ∀ write ∈ call.columnWrites table.schema, .min < write.1.stamp)
    (htargets : ∀ key, Stamped.Consistent (((init table).eventsOf key calls).map Call.target))
    (hcells : ∀ key name, Stamped.Consistent
      (((init table).eventsOf key calls).flatMap (·.cells table.schema name)))
    (hok : Machine.Along step Succeeds (init table) calls) :
    (∀ key, Row.HoldsLatest table.schema ((init table).eventsOf key calls)
      ((Machine.run step (init table) calls).row key)) ∧
    ∀ calls', (∀ call, call ∈ calls' ↔ call ∈ calls) →
      Machine.Along step Succeeds (init table) calls' → ∀ key,
        let row := (Machine.run step (init table) calls).row key
        let row' := (Machine.run step (init table) calls').row key
        row'.target.stamp = row.target.stamp ∧
          row'.target.held.map Prod.snd = row.target.held.map Prod.snd ∧
          row'.cells = row.cells := by
  have hmade := Table.new_made hnew
  have hisNew : table.IsNew := ⟨_, _, _, _, _, _, _, hnew⟩
  obtain ⟨hkeyed, hparts⟩ := hmade.keyed hpk
  have hevents : ∀ key, ∀ event ∈ (init table).eventsOf key calls, event ∈ calls :=
    fun key event hevent => (mem_eventsOf.mp hevent).1
  refine ⟨fun key => ?_, fun calls' hmem hok' key => ?_⟩
  · rw [row_run_eq_ofEvents hisNew hkeyed (fun call hcall => hparts _ (harity call hcall))
      (fun call hcall => (hmin call hcall).1) hok key (htargets key)]
    exact Row.holdsLatest_ofEvents
      (fun event hevent => hparts _ (harity event (hevents key event hevent)))
      (fun event hevent => hmin event (hevents key event hevent)) (htargets key) (hcells key)
  · have hmem' : ∀ event, event ∈ (init table).eventsOf key calls' ↔
        event ∈ (init table).eventsOf key calls := by
      intro event
      rw [mem_eventsOf, mem_eventsOf, hmem]
    have htargets' : Stamped.Consistent (((init table).eventsOf key calls').map Call.target) := by
      intro v hv w hw
      refine htargets key v ?_ w ?_
      · simpa only [List.mem_map, hmem'] using hv
      · simpa only [List.mem_map, hmem'] using hw
    have harity' : ∀ call ∈ calls', (table.schema.partitionOf call.primaryKey).isSome :=
      fun call hcall => hparts _ (harity call ((hmem call).mp hcall))
    obtain ⟨htarget, hsame⟩ := Row.ofEvents_congr hmem'
      (fun event hevent => hmin event (hevents key event hevent)) (htargets key) (hcells key)
    dsimp only
    rw [row_run_eq_ofEvents hisNew hkeyed (fun call hcall => hparts _ (harity call hcall))
        (fun call hcall => (hmin call hcall).1) hok key (htargets key),
      row_run_eq_ofEvents hisNew hkeyed harity'
        (fun call hcall => (hmin call ((hmem call).mp hcall)).1) hok' key htargets']
    refine ⟨congrArg Stamped.stamp htarget, ?_, hsame⟩
    rw [Row.value_ofEvents fun event hevent => harity' event (mem_eventsOf.mp hevent).1,
      Row.value_ofEvents fun event hevent =>
        hparts _ (harity event (hevents key event hevent)), htarget]

end World

/-- Two upserts and a delete of one row, out of order. -/
def Sample.outOfOrder : List Call :=
  [delete 0 5, upsert 0 7 (some (vector 1)) 3 (some 1), upsert 0 2 (some (vector 2)) 4 (some 2)]

attribute [local instance] Sample.decimals in
theorem last_write_wins_outOfOrder :
    (∀ key, Row.HoldsLatest Sample.keyTable.schema
      ((World.init Sample.keyTable).eventsOf key Sample.outOfOrder)
      ((Machine.run World.step (World.init Sample.keyTable) Sample.outOfOrder).row key)) ∧
    ∀ calls', (∀ call, call ∈ calls' ↔ call ∈ Sample.outOfOrder) →
      Machine.Along World.step World.Succeeds (World.init Sample.keyTable) calls' → ∀ key,
        let row := (Machine.run World.step (World.init Sample.keyTable) Sample.outOfOrder).row key
        let row' := (Machine.run World.step (World.init Sample.keyTable) calls').row key
        row'.target.stamp = row.target.stamp ∧
          row'.target.held.map Prod.snd = row.target.held.map Prod.snd ∧
          row'.cells = row.cells := by
  refine World.last_write_wins Sample.new_keyTable ?_ ?_ ?_ (fun key => ?_) (fun key name => ?_) ?_
  · rintro columns hcolumns
    obtain rfl := Option.some.inj hcolumns
    decide
  · decide
  · decide +kernel
  · refine Stamped.Consistent.mono ?_
      (List.map_subset _ fun event hevent => (World.mem_eventsOf.mp hevent).1)
    decide
  · have hall : Stamped.Consistent ((Sample.outOfOrder.flatMap
        (Call.columnWrites Sample.keyTable.schema)).map Prod.fst) := by
      decide +kernel
    refine hall.mono fun write hwrite => ?_
    obtain ⟨event, hevent, hwrite⟩ := List.mem_flatMap.mp hwrite
    obtain ⟨columnWrite, hmem, rfl⟩ := Call.mem_cells hwrite
    exact List.mem_map_of_mem
      (List.mem_flatMap.mpr ⟨event, (World.mem_eventsOf.mp hevent).1, hmem⟩)
  · decide +kernel

end VectorStore
