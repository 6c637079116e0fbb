import VectorStore.Results.FullScanCdc
import VectorStore.Results.Served

/-!
# From the database to the index

The row of the database, its readers, the messages they send, the table and the actor of the vector
index, as one system.  Writes, reads, sends, the processing of messages, calls on other rows and the
schedule of the actor may interleave in any way; once nothing is on its way, the index tells what the
database does.
-/

namespace VectorStore

namespace Replication

variable {ι : Type} [DecidableEq ι] [Driver] [DecimalNormalizer] {r : Replication} {table : Table}
  {key : PrimaryKey} {actions : List (Action ι)}

/-- The call on the table that an action makes. -/
def callOf (r : Replication) : Action ι → Option Call
  | .process message => some (message.call r.metadata.key)
  | .other call => some call
  | .write _ | .scan | .consume _ _ | .fetch _ => none

/-- Only processing and calls on other rows change the table. -/
theorem step_world (s : State ι) (action : Action ι) :
    (r.step s action).world = (r.callOf action).elim s.world s.world.step := by
  cases action with
  | consume reader row =>
    unfold Replication.step
    dsimp only
    cases r.consumed s reader row with
    | none => rfl
    | some consumer =>
      dsimp only
      split
      · unfold State.deliver
        cases consumer.operation <;> rfl
      · rfl
  | _ => rfl

/-- The table of a run is that of its calls. -/
theorem run_world (s : State ι) (actions : List (Action ι)) :
    (Machine.run r.step s actions).world =
      Machine.run World.step s.world (actions.filterMap r.callOf) := by
  induction actions generalizing s with
  | nil => rfl
  | cons action actions ih =>
    rw [Machine.run_cons, ih, step_world]
    cases hcall : r.callOf action with
    | none => rw [List.filterMap_cons_none hcall, Option.elim_none]
    | some call => rw [List.filterMap_cons_some hcall, Option.elim_some, Machine.run_cons]

/-- When everything is processed, each register of the row holds the content of its cell. -/
theorem holds_run {β : Type} (v : View r table.schema β) (hnew : table.IsNew)
    (hkey : table.normalizePrimaryKey (.fromIter r.primaryKey) = .ok key)
    (hrun : Machine.Along r.step r.Enabled (State.init table) actions)
    (hsettled : Settled (Machine.run r.step (State.init table) actions)) :
    v.Holds ((Machine.run r.step (State.init table) actions).row.cells v.name).content
      (v.register ((Machine.run r.step (State.init table) actions).world.row key)).content := by
  have hinv : ∀ (s : State ι) action, Valid r table s ∧ v.Tracked key s →
      r.Enabled s action → Valid r table (r.step s action) ∧ v.Tracked key (r.step s action) :=
    fun s action h henabled => ⟨valid_step h.1 henabled, v.tracked_step h.1 hkey h.2 henabled⟩
  exact v.holds_of_settled
    (Machine.run_invariant_of_along hinv ⟨valid_init hnew, v.tracked_init hnew key⟩ hrun).2 hsettled

variable [TimeuuidOrd]

/-- For a global index with one target column, whatever the order of enabled writes, reads, sends and
processing, and whatever the schedule of the actor: once all messages are processed and the actor has
come to rest without refusals, what the index holds for the row is the vector in the target cell of the
database, and nothing when there is none; and the filtering columns of what it holds are the cells of the
database. -/
theorem database_served {tableColumns : AList fun _ : ColumnName => NativeType}
    (hbuild : buildTable r.metadata.key r.metadata tableColumns = .ok table)
    (hkey : table.normalizePrimaryKey (.fromIter r.primaryKey) = .ok key)
    (hrun : Machine.Along r.step r.Enabled (State.init table) actions)
    (hsettled : Settled (Machine.run r.step (State.init table) actions))
    {runtime : Runtime} {as : List Usearch.Action}
    (hcarries : Usearch.Carries table (actions.filterMap r.callOf) runtime as)
    (hunrefused : Usearch.Unrefused as) :
    let s := Machine.run r.step (State.init table) actions
    let index := Machine.run Usearch.step (.init runtime) as
    (∀ v, s.world.StoredFor index.stored key v ↔
      r.indexedContent (s.row.cells r.target).content = some (.vector v)) ∧
    ∀ p id, (index.stored p id).isSome → s.world.ResolvesTo key p id →
      ∀ name ∈ r.filteringColumns, s.world.table.columnValueFor p id name =
        r.filteringContent name (s.row.cells name).content := by
  have hnew := isNew_of_buildTable hbuild
  have hmade := Table.new_made hbuild
  have hglobal : table.schema.partitionColumns = none := by
    rw [hmade.partitionColumns_eq, r.partitioning_eq]
    rfl
  have hworld : (Machine.run r.step (State.init table) actions).world =
      Machine.run World.step (World.init table) (actions.filterMap r.callOf) := run_world _ _
  have hserves := ((Usearch.serves_rows hnew hcarries).2 hunrefused).1
  rw [← hworld] at hserves
  refine ⟨fun v => ?_, fun p id _ hresolves name hname => ?_⟩
  · obtain ⟨hvalue, -⟩ := holds_run (targetView hglobal) hnew hkey hrun hsettled
    have hheld : ((Machine.run r.step (State.init table) actions).world.row key).target.held.map
        Prod.snd = r.indexedContent
          ((Machine.run r.step (State.init table) actions).row.cells r.target).content := hvalue
    rw [hserves.storedFor_iff, hheld]
  · have hfiltering : table.schema.filteringColumns = r.filteringColumns := hmade.filteringColumns_eq
    obtain ⟨hcontent, -⟩ := holds_run (filteringView hglobal hfiltering hname) hnew hkey hrun hsettled
    obtain ⟨type, hshape⟩ := (shape_of_buildTable hbuild).2 name (hfiltering ▸ hname)
    have hschema : (Machine.run r.step (State.init table) actions).world.schema = table.schema := by
      rw [hworld]
      exact World.run_schema (World.consistent_init hnew) _
    rw [hresolves.columnValueFor, hschema, Row.column, hshape]
    exact hcontent

end Replication

namespace Sample

attribute [local instance] decimals driver

/-- The calls of the late readers. -/
def lateCalls : List Call := lateReaders.filterMap replication.callOf

/-- Their messages are carried out one by one. -/
def lateSchedule : List Usearch.Action :=
  ((World.init globalTable).messages lateCalls).flatMap (Usearch.Sample.addVector 0)

theorem carries_lateSchedule :
    Usearch.Carries globalTable lateCalls Usearch.Sample.runtime lateSchedule := by
  decide +kernel

end Sample

attribute [local instance] Sample.decimals Sample.driver Sample.timeuuids

theorem database_served_lateReaders :
    let s := Machine.run Sample.replication.step (Replication.State.init Sample.globalTable)
      Sample.lateReaders
    let index := Machine.run Usearch.step (.init Usearch.Sample.runtime) Sample.lateSchedule
    (∀ v, s.world.StoredFor index.stored (Sample.key 0) v ↔
      Sample.replication.indexedContent (s.row.cells Sample.replication.target).content =
        some (.vector v)) ∧
    ∀ p id, (index.stored p id).isSome → s.world.ResolvesTo (Sample.key 0) p id →
      ∀ name ∈ Sample.replication.filteringColumns, s.world.table.columnValueFor p id name =
        Sample.replication.filteringContent name (s.row.cells name).content :=
  Replication.database_served Sample.buildTable_metadata (by decide +kernel) (by decide +kernel)
    ⟨by decide +kernel, by decide +kernel, by decide +kernel⟩ Sample.carries_lateSchedule
    (by decide +kernel)

end VectorStore
