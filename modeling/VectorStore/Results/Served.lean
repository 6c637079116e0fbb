import VectorStore.Pipeline.Served
import VectorStore.Results.LastWriteWins
import VectorStore.Results.Overtaking

/-!
# From the table to the index

A table, the messages of its operations and the actor of a vector index, as one system.  The actor is
free to interleave searches, reservations and closures; once it has come to rest, the index holds the
vectors of the rows and nothing else, so that what is found in it is decided by the latest writes of
the rows alone.
-/

namespace VectorStore

namespace World

variable [TimeuuidOrd] [DecimalNormalizer] {table : Table} {calls : List Call}
  {vectors : Vectors} {stored : PartitionId → PrimaryId → Option Vector}

/-- Vectors of some of the messages are vectors of rows. -/
theorem sound_of_below (hnew : table.IsNew) (hbelow : vectors.Below (vectorsOf table calls))
    (hstored : ∀ p id, stored p id = vectors.lookup (p, id)) :
    (Machine.run step (init table) calls).Sound .vector stored := by
  have hreach : (Machine.run step (init table) calls).Reachable := ⟨table, calls, hnew, rfl⟩
  refine (hreach.consistent.serves_store hreach.storesKeys).sound_of_le fun p id v hv => ?_
  rw [hstored] at hv
  exact (lookup_vectorsOf hnew calls p id v).mp (hbelow (p, id) v hv)

/-- The vectors of all messages are the vectors of the rows. -/
theorem serves_of_eq (hnew : table.IsNew)
    (hstored : ∀ p id, stored p id = (vectorsOf table calls).lookup (p, id)) :
    (Machine.run step (init table) calls).Serves .vector stored := by
  have hreach : (Machine.run step (init table) calls).Reachable := ⟨table, calls, hnew, rfl⟩
  refine (hreach.consistent.serves_store hreach.storesKeys).of_iff fun p id v => ?_
  rw [hstored]
  exact lookup_vectorsOf hnew calls p id v

/-- There are as many of them as there are rows that hold a vector. -/
theorem count_vectorsOf (hnew : table.IsNew) :
    (vectorsOf table calls).count (Machine.run step (init table) calls).table.index.indexId =
      ((Machine.run step (init table) calls).rowsOf SplittingValues.isVector).length :=
  Serves.count_eq (run_consistent (consistent_init hnew) calls) (serves_of_eq hnew fun _ _ => rfl)

end World

/-! ## The latest writes -/

namespace World

variable [DecimalNormalizer]

/-- The calls are delivered to the table of an index whose partition columns are all in the primary
key: all of them suit the table, and writes of a row with one timestamp agree. -/
structure Delivered (table : Table) (calls : List Call) : Prop where
  parts : ∀ call ∈ calls, (table.schema.partitionOf call.primaryKey).isSome
  min_lt : ∀ call ∈ calls, .min < call.target.stamp
  consistent : ∀ key,
    Stamped.Consistent (((init table).eventsOf key calls).map Call.target)
  succeeds : Machine.Along step Succeeds (init table) calls

variable {table : Table} {calls calls' : List Call} {key : PrimaryKey}

/-- The register that the writes of a row's target lead to. -/
def latest (table : Table) (calls : List Call) (key : PrimaryKey) :
    Stamped Timestamp (Option SplittingValues) :=
  Stamped.absorbAll ⟨.min, none⟩ (((init table).eventsOf key calls).map Call.target)

/-- A row holds what this register does. -/
theorem Delivered.held_eq (h : Delivered table calls) (hnew : table.IsNew)
    (hkeyed : table.schema.Keyed) (key : PrimaryKey) :
    ((Machine.run step (init table) calls).row key).target.held.map Prod.snd =
      (latest table calls key).content := by
  rw [row_run_eq_ofEvents hnew hkeyed h.parts h.min_lt h.succeeds key (h.consistent key)]
  exact Row.value_ofEvents fun event hevent => h.parts event (mem_eventsOf.mp hevent).1

/-- It holds the latest of the writes. -/
theorem Delivered.latest_eq (h : Delivered table calls)
    {write : Stamped Timestamp (Option SplittingValues)}
    (hlatest : Stamped.IsLatest write (((init table).eventsOf key calls).map Call.target)) :
    latest table calls key = write := by
  obtain ⟨event, hevent, rfl⟩ := List.mem_map.mp hlatest.1
  exact Stamped.absorbAll_eq_of_isLatest hlatest (h.min_lt event (mem_eventsOf.mp hevent).1)
    fun v hv heq => (h.consistent key).eq_of_stamp_eq hv hlatest.1 heq

/-- It does not depend on the order of the calls or on repetitions. -/
theorem Delivered.latest_congr (h : Delivered table calls)
    (hmem : ∀ call, call ∈ calls' ↔ call ∈ calls) (key : PrimaryKey) :
    latest table calls' key = latest table calls key := by
  refine (Stamped.absorbAll_congr (fun write => ?_) (h.consistent key) fun write hwrite => ?_).symm
  · simp only [List.mem_map, mem_eventsOf, hmem]
  · obtain ⟨event, hevent, rfl⟩ := List.mem_map.mp hwrite
    exact h.min_lt event (mem_eventsOf.mp hevent).1

/-- Calls with the same elements are delivered when they succeed. -/
theorem Delivered.congr (h : Delivered table calls) (hmem : ∀ call, call ∈ calls' ↔ call ∈ calls)
    (hok : Machine.Along step Succeeds (init table) calls') : Delivered table calls' where
  parts call hcall := h.parts call ((hmem call).mp hcall)
  min_lt call hcall := h.min_lt call ((hmem call).mp hcall)
  consistent key := by
    refine (h.consistent key).mono fun write hwrite => ?_
    simpa only [List.mem_map, mem_eventsOf, hmem] using hwrite
  succeeds := hok

end World

/-! ## The usearch actor -/

namespace Usearch

section

variable [DecimalNormalizer]

/-- A run of the actor that received the messages of the calls, and came to rest. -/
structure Carries (table : Table) (calls : List Call) (runtime : Runtime) (as : List Action) :
    Prop where
  along : Machine.Along step (fun s a => Enabled s a ∧ s.Succeeds a) (.init runtime) as
  received : received as = (World.init table).messages calls
  quiescent : (Machine.run step (.init runtime) as).Quiescent

variable {table : Table} {calls : List Call} {runtime : Runtime} {as : List Action}

instance : Decidable (Carries table calls runtime as) :=
  decidable_of_iff
    (Machine.Along step (fun s a => Enabled s a ∧ s.Succeeds a) (.init runtime) as ∧
      received as = (World.init table).messages calls ∧
      (Machine.run step (.init runtime) as).Quiescent)
    ⟨fun h => ⟨h.1, h.2.1, h.2.2⟩, fun h => ⟨h.along, h.received, h.quiescent⟩⟩

/-- The vectors of the accepted messages are served, and they are among those of all messages. -/
theorem Carries.serves (h : Carries table calls runtime as) (hnew : table.IsNew) :
    let s := Machine.run step (.init runtime) as
    s.Serves s.vectors ∧ s.vectors.Below (World.vectorsOf table calls) ∧
      (Unrefused as → s.vectors = World.vectorsOf table calls) := by
  obtain ⟨henabled, hsucceeds⟩ := Machine.along_and.mp h.along
  have hworld := World.consistent_init hnew
  obtain ⟨hadmits, hstore⟩ := hworld.messages calls Vectors.inStore_empty
  rw [← h.received] at hadmits hstore
  obtain ⟨hmessages, hbelow⟩ := State.along_admits (State.shaped_init runtime) henabled
    (Vectors.Below.refl ∅) hadmits
  have hsound : (Machine.run step (.init runtime) as).Sound :=
    @Machine.run_invariant_of_along _ _ step State.Sound
      (fun s a => (Enabled s a ∧ s.Succeeds a) ∧ s.AdmitsMessage a)
      (fun s a hs ha => hs.step ha.1.1 ha.1.2 ha.2) _ (State.sound_init runtime) as
      (Machine.along_and.mpr ⟨h.along, hmessages⟩)
  refine ⟨?_, ?_, fun hunrefused => ?_⟩
  · refine hsound.serves h.quiescent ((World.run_consistent hworld calls).length_keys_le ?_)
    exact fun key v hv => hstore key v (hbelow key v hv)
  · rw [World.vectorsOf, ← h.received]
    exact hbelow
  · rw [State.vectors, State.accepted_run (State.shaped_init runtime) henabled hunrefused, h.received]
    rfl

variable [TimeuuidOrd]

/-- At rest, the index holds vectors of rows, and those of all rows when nothing was refused. -/
theorem serves_rows (hnew : table.IsNew) (h : Carries table calls runtime as) :
    let w := Machine.run World.step (World.init table) calls
    let s := Machine.run step (.init runtime) as
    w.Sound .vector s.stored ∧
      (Unrefused as → w.Serves .vector s.stored ∧
        s.count w.table.index.indexId = (w.rowsOf SplittingValues.isVector).length) := by
  obtain ⟨hserves, hbelow, hall⟩ := h.serves hnew
  refine ⟨World.sound_of_below hnew hbelow hserves.stored, fun hunrefused => ⟨?_, ?_⟩⟩
  · refine World.serves_of_eq hnew fun p id => ?_
    rw [hserves.stored, hall hunrefused]
  · rw [hserves.count, hall hunrefused]
    exact World.count_vectorsOf hnew

/-- With all partition columns in the primary key, whatever the order and the repetitions in which
events are delivered and whatever the schedule of the actor, when writes of one row with one timestamp
agree and no call fails: once the actor has come to rest with all messages, what is found for a row is
the vector of its latest write, and nothing when this write is a delete or has no vector.  Two orders of
the same events end with the same vectors for every row. -/
theorem last_write_served {indexKey : IndexKey} {primaryKeyColumns : NonemptyBox ColumnName}
    {partitionPrimaryKeyCount : ℕ+} {partitionKeyColumns : Option (NonemptyBox ColumnName)}
    {targetColumns : NonemptyBox ColumnName} {filteringColumns : List ColumnName}
    {tableColumns : AList fun _ : ColumnName => NativeType}
    (hnew : Table.new indexKey primaryKeyColumns partitionPrimaryKeyCount partitionKeyColumns
      targetColumns filteringColumns tableColumns = .ok table)
    (hpk : ∀ columns, partitionKeyColumns = some columns →
      ∀ name ∈ columns.toList, name ∈ primaryKeyColumns.toList)
    (hdelivered : World.Delivered table calls) (h : Carries table calls runtime as)
    (hunrefused : Unrefused as) :
    let w := Machine.run World.step (World.init table) calls
    let s := Machine.run step (.init runtime) as
    (∀ key v, (World.init table).eventsOf key calls = [] → ¬w.StoredFor s.stored key v) ∧
    (∀ key write, Stamped.IsLatest write (((World.init table).eventsOf key calls).map Call.target) →
      ∀ v, w.StoredFor s.stored key v ↔ write.content = some (.vector v)) ∧
    ∀ calls' runtime' as', (∀ call, call ∈ calls' ↔ call ∈ calls) →
      Machine.Along World.step World.Succeeds (World.init table) calls' →
      Carries table calls' runtime' as' → Unrefused as' →
        let w' := Machine.run World.step (World.init table) calls'
        let s' := Machine.run step (.init runtime') as'
        ∀ key v, w'.StoredFor s'.stored key v ↔ w.StoredFor s.stored key v := by
  have hisNew : table.IsNew := ⟨_, _, _, _, _, _, _, hnew⟩
  obtain ⟨hkeyed, -⟩ := (Table.new_made hnew).keyed hpk
  -- what is found for a row is what the register of its writes holds
  have hfound : ∀ {calls runtime as}, World.Delivered table calls →
      Carries table calls runtime as → Unrefused as → ∀ key v,
        (Machine.run World.step (World.init table) calls).StoredFor
          (Machine.run step (.init runtime) as).stored key v ↔
            (World.latest table calls key).content = some (.vector v) := by
    intro calls runtime as hdelivered h hunrefused key v
    obtain ⟨hserves, -⟩ := (serves_rows hisNew h).2 hunrefused
    rw [hserves.storedFor_iff, hdelivered.held_eq hisNew hkeyed]
  refine ⟨fun key v hnil hstored => ?_, fun key write hlatest v => ?_,
    fun calls' runtime' as' hmem hok h' hunrefused' key v => ?_⟩
  · have hcontent := (hfound hdelivered h hunrefused key v).mp hstored
    rw [World.latest, hnil] at hcontent
    cases hcontent
  · rw [hfound hdelivered h hunrefused, hdelivered.latest_eq hlatest]
  · rw [hfound hdelivered h hunrefused, hfound (hdelivered.congr hmem hok) h' hunrefused',
      hdelivered.latest_congr hmem]

end

namespace Sample

attribute [local instance] VectorStore.Sample.decimals

/-- The messages of a row that is deleted first and written afterwards, out of order. -/
def latestRow : List Action :=
  ((World.init VectorStore.Sample.keyTable).messages VectorStore.Sample.outOfOrder).flatMap
    (addVector 0)

theorem carries_latestRow :
    Carries VectorStore.Sample.keyTable VectorStore.Sample.outOfOrder runtime latestRow := by
  decide +kernel

end Sample

attribute [local instance] VectorStore.Sample.decimals VectorStore.Sample.timeuuids

theorem last_write_served_latestRow :
    let w := Machine.run World.step (World.init VectorStore.Sample.keyTable)
      VectorStore.Sample.outOfOrder
    let s := Machine.run step (.init Sample.runtime) Sample.latestRow
    ∃ key, w.StoredFor s.stored key ⟨[1]⟩ := by
  have hserved := last_write_served VectorStore.Sample.new_keyTable ?hpk ?hdelivered
    Sample.carries_latestRow (by decide +kernel)
  case hpk =>
    intro columns hcolumns
    obtain rfl := Option.some.inj hcolumns
    decide
  case hdelivered =>
    refine ⟨by decide +kernel, by decide +kernel, fun key => ?_, by decide +kernel⟩
    refine Stamped.Consistent.mono ?_
      (List.map_subset _ fun event hevent => (World.mem_eventsOf.mp hevent).1)
    decide
  exact ⟨VectorStore.Sample.key 0, (hserved.2.1 _
    (VectorStore.Sample.upsert 0 7 (some (VectorStore.Sample.vector 1)) 3 (some 1)).target
      ⟨by decide +kernel, by decide +kernel⟩ _).mpr rfl⟩

end Usearch

/-! ## The DiskANN actor -/

namespace Diskann

section

variable [DecimalNormalizer]

/-- A run of the actor in which no task overtakes an earlier one for the same vector, that received
the messages of the calls, and came to rest.  The index says of every call whether the id was there: an
insert succeeds if and only if it is not live, a delete if and only if it is. -/
structure Carries (table : Table) (calls : List Call) (runtime : Runtime) (as : List Action) :
    Prop where
  along : Machine.Along step (fun s a => Enabled s a ∧ s.Says a) (.init runtime) as
  inTurn : Machine.Along step State.InTurn (.init runtime) as
  received : received as = (World.init table).messages calls
  quiescent : (Machine.run step (.init runtime) as).Quiescent

variable {table : Table} {calls : List Call} {runtime : Runtime} {as : List Action}

instance : Decidable (Carries table calls runtime as) :=
  decidable_of_iff
    (Machine.Along step (fun s a => Enabled s a ∧ s.Says a) (.init runtime) as ∧
      Machine.Along step State.InTurn (.init runtime) as ∧
      received as = (World.init table).messages calls ∧
      (Machine.run step (.init runtime) as).Quiescent)
    ⟨fun h => ⟨h.1, h.2.1, h.2.2.1, h.2.2.2⟩,
      fun h => ⟨h.along, h.inTurn, h.received, h.quiescent⟩⟩

/-- The vectors of the accepted messages are served, and they are among those of all messages. -/
theorem Carries.serves (h : Carries table calls runtime as) (hnew : table.IsNew) :
    let s := Machine.run step (.init runtime) as
    s.Serves s.vectors ∧ s.vectors.Below (World.vectorsOf table calls) ∧
      (Unrefused as → s.vectors = World.vectorsOf table calls) := by
  obtain ⟨henabled, hanswer⟩ := Machine.along_and.mp h.along
  have hworld := World.consistent_init hnew
  obtain ⟨hadmits, hstore⟩ := hworld.messages calls Vectors.inStore_empty
  rw [← h.received] at hadmits hstore
  obtain ⟨hmessages, hbelow⟩ := State.along_admits (s := .init runtime) henabled
    (Vectors.Below.refl ∅) hadmits
  have hsound : (Machine.run step (.init runtime) as).Sound :=
    @Machine.run_invariant_of_along _ _ step State.Sound
      (fun s a => (Enabled s a ∧ s.Says a) ∧ s.AdmitsMessage a ∧ s.InTurn a)
      (fun s a hs ha => hs.step ha.1.1 ha.2.1 ha.1.2 ha.2.2) _ (State.sound_init runtime) as
      (Machine.along_and.mpr ⟨h.along, Machine.along_and.mpr ⟨hmessages, h.inTurn⟩⟩)
  refine ⟨?_, ?_, fun hunrefused => ?_⟩
  · refine hsound.serves h.quiescent ((World.run_consistent hworld calls).length_keys_le ?_)
    exact fun key v hv => hstore key v (hbelow key v hv)
  · rw [World.vectorsOf, ← h.received]
    exact hbelow
  · rw [State.vectors, State.accepted_run henabled hunrefused, h.received]
    rfl

variable [TimeuuidOrd]

/-- When the actor has come to rest without overtaking, with an index that says of every call whether
the id was there, every live vector of the graphs is that of a row, under an identifier that answers for
the row; and when no message was refused, every row that holds a vector is found there exactly once, in
its partition, and the size of the index is the number of these rows. -/
theorem serves_rows_in_turn (hnew : table.IsNew) (h : Carries table calls runtime as) :
    let w := Machine.run World.step (World.init table) calls
    let s := Machine.run step (.init runtime) as
    w.Sound .vector s.live ∧
      (Unrefused as → w.Serves .vector s.live ∧
        s.count w.table.index.indexId = (w.rowsOf SplittingValues.isVector).length) := by
  obtain ⟨hserves, hbelow, hall⟩ := h.serves hnew
  refine ⟨World.sound_of_below hnew hbelow hserves.live, fun hunrefused => ⟨?_, ?_⟩⟩
  · refine World.serves_of_eq hnew fun p id => ?_
    rw [hserves.live, hall hunrefused]
  · rw [hserves.count, hall hunrefused]
    exact World.count_vectorsOf hnew

end

attribute [local instance] VectorStore.Sample.decimals VectorStore.Sample.timeuuids

theorem serves_rows_in_turn_inTurn :
    let w := Machine.run World.step (World.init VectorStore.Sample.globalTable) Sample.calls
    let s := Machine.run step (.init Sample.runtime) Sample.inTurn
    w.Sound .vector s.live ∧
      (Unrefused Sample.inTurn → w.Serves .vector s.live ∧
        s.count w.table.index.indexId = (w.rowsOf SplittingValues.isVector).length) :=
  serves_rows_in_turn VectorStore.Sample.isNew_globalTable (by decide +kernel)

end Diskann

end VectorStore
