import VectorStore.Cdc.Snapshot
import VectorStore.Results.Allocation
import VectorStore.Results.WriteTime

/-!
# Full scan and CDC together

A copy of a cell is made at some moment and processed at another one.  Whatever the order, a copy
that is at least as new as the last write of the cell carries the content of the cell: a cell with
a value is copied with the time of its write, and a cell without one with the time of an event
that took place before the copy was made.  A copy that is new enough is under way for every event
that was consumed, so it has arrived when everything is processed.
-/

namespace VectorStore

namespace Replication

variable {r : Replication} {ι : Type} {s : State ι} {table : Table} {key : PrimaryKey}

/-! ## The state apart from the cells -/

/-- What holds of every state: the table fits together, the writes are ordered by their times, and
what was consumed, what is to be fetched and what was sent comes from writes of the row. -/
structure Valid (r : Replication) (table : Table) (s : State ι) : Prop where
  consistent : s.world.Consistent
  schema : s.world.schema = table.schema
  bounds : ∀ write ∈ s.history, 0 < write.writetime ∧ write.writetime ≤ maxMicros
  distinct : ∀ write ∈ s.history, ∀ write' ∈ s.history, write.writetime = write'.writetime →
    write = write'
  delivered : ∀ event ∈ s.delivered, ∃ write ∈ s.history, write.event = event
  tasks : ∀ timestamp ∈ s.tasks, ∃ write ∈ s.history, write.stamp = timestamp
  keys : ∀ message ∈ s.messages, message.primaryKey = .fromIter r.primaryKey

theorem valid_init (hnew : table.IsNew) : Valid r table (State.init table : State ι) where
  consistent := World.consistent_init hnew
  schema := rfl
  bounds := by simp [State.init]
  distinct := by simp [State.init]
  delivered := by simp [State.init]
  tasks := by simp [State.init]
  keys := by simp [State.init]

/-- A cell is as it was before the first write, or it holds a write of the history. -/
theorem cell_eq (s : State ι) (name : ColumnName) :
    s.row.cells name = ⟨0, none⟩ ∨ ∃ write ∈ s.history,
      write.value name = some (s.row.cells name).content ∧
        write.writetime = (s.row.cells name).stamp := by
  unfold State.row
  rw [BaseRow.cells_foldl]
  exact (Stamped.absorbAll_eq_or_mem _ _).imp_right BaseRow.mem_writesTo.mp

/-- A cell is at least as new as every write to it. -/
theorem le_cell {write : RowWrite} (hwrite : write ∈ s.history) {name : ColumnName}
    (hvalue : (write.value name).isSome) :
    write.writetime ≤ (s.row.cells name).stamp := by
  obtain ⟨value, hvalue⟩ := Option.isSome_iff_exists.mp hvalue
  unfold State.row
  rw [BaseRow.cells_foldl]
  exact Stamped.stamp_le_of_mem
    (BaseRow.mem_writesTo.mpr ⟨write, hwrite, hvalue, rfl⟩ :
      (⟨write.writetime, value⟩ : Stamped Nat (Option DbValue)) ∈ _)

theorem Valid.cell_le (h : Valid r table s) (name : ColumnName) :
    (s.row.cells name).stamp ≤ maxMicros := by
  rcases cell_eq s name with heq | ⟨write, hwrite, -, hstamp⟩
  · rw [heq]
    exact Nat.zero_le _
  · rw [← hstamp]
    exact (h.bounds write hwrite).2

/-- A cell that is not newer than a delete of the row has no value. -/
theorem Valid.content_of_delete (h : Valid r table s) {write : RowWrite}
    (hwrite : write ∈ s.history) {timestamp : Timestamp}
    (hevent : write.event = (timestamp, .delete)) {name : ColumnName}
    (hle : (s.row.cells name).stamp ≤ write.writetime) : (s.row.cells name).content = none := by
  have hvalue : write.value name = some none := by
    cases write with
    | insert => cases hevent
    | update => cases hevent
    | delete => rfl
  rcases cell_eq s name with heq | ⟨write', hwrite', hvalue', hstamp⟩
  · rw [heq]
  · have hge := le_cell hwrite (Option.isSome_iff_exists.mpr ⟨_, hvalue⟩)
    have hsame : write = write' :=
      h.distinct write hwrite write' hwrite' (hstamp ▸ le_antisymm hge hle)
    rw [← hsame, hvalue] at hvalue'
    exact (Option.some.inj hvalue').symm

/-- Events with one timestamp are events of one write. -/
theorem stamp_event (write : RowWrite) : write.event.1 = write.stamp := by
  cases write <;> rfl

theorem Valid.delivered_append (h : Valid r table s) {write : RowWrite} (hwrite : write ∈ s.history)
    {event : Timestamp × CdcOperation} (hevent : write.event = event) :
    ∀ event' ∈ s.delivered ++ [event], ∃ write ∈ s.history, write.event = event' := by
  intro event' hmem
  rcases List.mem_append.mp hmem with hold | hnew
  · exact h.delivered event' hold
  · rw [List.mem_singleton.mp hnew]
    exact ⟨write, hwrite, hevent⟩

variable [DecimalNormalizer]

/-- The key of a message is looked up as the key of the row. -/
theorem Valid.keyOf_eq (h : Valid r table s)
    (hkey : table.normalizePrimaryKey (.fromIter r.primaryKey) = .ok key) {message : DbIndexedRow}
    (hmessage : message ∈ s.messages) (indexKey : IndexKey) :
    s.world.keyOf (message.call indexKey) = .ok key := by
  have hprimary : (message.call indexKey).primaryKey = .fromIter r.primaryKey := by
    rw [← h.keys message hmessage]
    unfold DbIndexedRow.call
    cases message.operation <;> rfl
  rw [← hkey]
  unfold World.keyOf
  rw [hprimary]
  exact Table.normalizePrimaryKey_congr h.schema _

variable [DecidableEq ι] [Driver]

/-- What a consumer does: nothing but remember a row, or process an event of a write. -/
theorem step_consume {reader : ι} {row : CdcRow} (henabled : r.Enabled s (.consume reader row)) :
    ∃ consumers, r.step s (.consume reader row) = { s with consumers } ∨
      ∃ write ∈ s.history, ∃ timestamp,
        write.event = (timestamp, .upsert) ∧ r.step s (.consume reader row) =
            { s with
              consumers
              delivered := s.delivered ++ [(timestamp, .upsert)]
              tasks := s.tasks ++ [timestamp] } ∨
          write.event = (timestamp, .delete) ∧ r.step s (.consume reader row) =
            { s with
              consumers
              delivered := s.delivered ++ [(timestamp, .delete)]
              messages := s.messages ++ [processDelete r.primaryKey timestamp] } := by
  cases hconsumed : r.consumed s reader row with
  | none =>
    refine ⟨s.consumers, Or.inl ?_⟩
    simp only [step, hconsumed]
  | some consumer =>
    refine ⟨Function.update s.consumers reader consumer, ?_⟩
    by_cases hkey : consumer.primaryKey = r.primaryKey
    · obtain ⟨write, hwrite, hevent⟩ := henabled consumer hconsumed hkey
      refine Or.inr ⟨write, hwrite, consumer.timestamp, ?_⟩
      simp only [step, hconsumed, if_pos hkey, State.deliver]
      cases hoperation : consumer.operation with
      | upsert => exact Or.inl ⟨by rw [hevent, hoperation], rfl⟩
      | delete => exact Or.inr ⟨by rw [hevent, hoperation], by rw [hkey]⟩
    · refine Or.inl ?_
      simp only [step, hconsumed, if_neg hkey]

/-- Every step keeps the state valid. -/
theorem valid_step (h : Valid r table s) {action : Action ι} (henabled : r.Enabled s action) :
    Valid r table (r.step s action) := by
  cases action with
  | write write =>
    obtain ⟨hbounds, hnewest⟩ := henabled
    constructor
    case consistent => exact h.consistent
    case schema => exact h.schema
    case bounds =>
      intro write' hwrite'
      rcases List.mem_append.mp hwrite' with hold | hnew
      · exact h.bounds write' hold
      · rw [List.mem_singleton.mp hnew]
        exact hbounds
    case distinct =>
      intro write₁ hwrite₁ write₂ hwrite₂ heq
      rcases List.mem_append.mp hwrite₁ with hold₁ | hnew₁ <;>
        rcases List.mem_append.mp hwrite₂ with hold₂ | hnew₂
      · exact h.distinct write₁ hold₁ write₂ hold₂ heq
      · rw [List.mem_singleton.mp hnew₂] at heq
        exact absurd heq (hnewest write₁ hold₁).ne
      · rw [List.mem_singleton.mp hnew₁] at heq
        exact absurd heq.symm (hnewest write₂ hold₂).ne
      · rw [List.mem_singleton.mp hnew₁, List.mem_singleton.mp hnew₂]
    case delivered =>
      intro event hevent
      obtain ⟨write', hwrite', heq⟩ := h.delivered event hevent
      exact ⟨write', List.mem_append_left _ hwrite', heq⟩
    case tasks =>
      intro timestamp htask
      obtain ⟨write', hwrite', heq⟩ := h.tasks timestamp htask
      exact ⟨write', List.mem_append_left _ hwrite', heq⟩
    case keys => exact h.keys
  | scan =>
    refine { h with keys := fun message hmessage => ?_ }
    rcases List.mem_append.mp hmessage with hold | hnew
    · exact h.keys message hold
    · exact (copied_of_scanned h.cell_le (Option.mem_toList.mp hnew)).1
  | consume reader row =>
    obtain ⟨consumers, heq | ⟨write, hwrite, timestamp, ⟨hevent, heq⟩ | ⟨hevent, heq⟩⟩⟩ :=
      step_consume henabled
    · rw [heq]
      exact { h with }
    · rw [heq]
      refine { h with
        delivered := h.delivered_append hwrite hevent
        tasks := fun timestamp' htask => ?_ }
      rcases List.mem_append.mp htask with hold | hnew
      · exact h.tasks timestamp' hold
      · refine ⟨write, hwrite, ?_⟩
        rw [List.mem_singleton.mp hnew, ← stamp_event, hevent]
    · rw [heq]
      refine { h with
        delivered := h.delivered_append hwrite hevent
        keys := fun message hmessage => ?_ }
      rcases List.mem_append.mp hmessage with hold | hnew
      · exact h.keys message hold
      · rw [List.mem_singleton.mp hnew]
        rfl
  | fetch timestamp =>
    obtain ⟨htask, message, hsent⟩ := henabled
    refine { h with
      tasks := fun timestamp' htask' => h.tasks timestamp' (List.mem_of_mem_erase htask')
      keys := fun message' hmessage' => ?_ }
    rcases List.mem_append.mp hmessage' with hold | hnew
    · exact h.keys message' hold
    · rw [hsent] at hnew
      rw [List.mem_singleton.mp hnew]
      exact (copied_of_sent h.cell_le hsent).1
  | process message =>
    exact { h with
      consistent := World.step_consistent h.consistent _
      schema := (World.step_schema h.consistent _).trans h.schema
      keys := fun message' hmessage' => h.keys message' (List.mem_of_mem_erase hmessage') }
  | other call =>
    exact { h with
      consistent := World.step_consistent h.consistent _
      schema := (World.step_schema h.consistent _).trans h.schema }

/-! ## One cell -/

/-- A register of the row of the table, the column of the database that it follows, the writes of
calls to it, and how the content of the column is stored in it. -/
structure View (r : Replication) (schema : Schema) (β : Type) where
  name : ColumnName
  register : Row → Stamped Timestamp β
  writes : Call → List (Stamped Timestamp β)
  Holds : Option DbValue → β → Prop
  name_mem : name ∈ r.baseColumns
  stamp_fresh : (register .fresh).stamp = .min
  holds_fresh : Holds none (register .fresh).content
  step : ∀ {w : World} {call : Call} {key : PrimaryKey}, w.Consistent → w.schema = schema →
    w.Succeeds call → w.keyOf call = .ok key →
      register ((w.step call).row key) = (register (w.row key)).absorbAll (writes call)
  writes_ne_nil : ∀ {row : BaseRow} {default : Timestamp} {message : DbIndexedRow},
    Copied r row default message.operation → writes (message.call r.metadata.key) ≠ []
  writes_eq : ∀ {row : BaseRow} {default : Timestamp} {message : DbIndexedRow},
    Copied r row default message.operation → ∀ copy ∈ writes (message.call r.metadata.key),
      copy.stamp = readStamp default (row.cells name) ∧
        Holds (row.cells name).content copy.content
  delete_ne_nil : ∀ timestamp,
    writes ((processDelete r.primaryKey timestamp).call r.metadata.key) ≠ []
  delete_eq : ∀ timestamp,
    ∀ copy ∈ writes ((processDelete r.primaryKey timestamp).call r.metadata.key),
      copy.stamp = timestamp ∧ Holds none copy.content

namespace View

variable {β : Type} (v : View r table.schema β)

/-- The cell that a view follows, with its timestamp. -/
def source (s : State ι) : Stamped Timestamp (Option DbValue) :=
  ⟨.fromMicros (s.row.cells v.name).stamp, (s.row.cells v.name).content⟩

/-- What the register of the row holds, or will be told by a message. -/
def IsCopy (key : PrimaryKey) (s : State ι) (copy : Stamped Timestamp β) : Prop :=
  copy = v.register (s.world.row key) ∨
    ∃ message ∈ s.messages, copy ∈ v.writes (message.call r.metadata.key)

/-- The timestamps of copies come from writes of the row, the copies follow the cell, and a copy
that is as new as a write of the cell is under way when the event of the write was consumed. -/
structure Tracked (key : PrimaryKey) (s : State ι) : Prop where
  known : ∀ copy, v.IsCopy key s copy →
    copy.stamp = .min ∨ ∃ write ∈ s.history, copy.stamp ≤ write.stamp
  follows : ∀ copy, v.IsCopy key s copy → Stamped.Follows v.Holds (v.source s) copy
  covered : ∀ write ∈ s.history, (write.value v.name).isSome → write.event ∈ s.delivered →
    write.stamp ∈ s.tasks ∨ ∃ copy, v.IsCopy key s copy ∧ write.stamp ≤ copy.stamp

omit [DecidableEq ι] in
theorem tracked_init (hnew : table.IsNew) (key : PrimaryKey) :
    v.Tracked key (State.init table : State ι) := by
  have hregister : ∀ copy, v.IsCopy key (State.init table : State ι) copy →
      copy = v.register .fresh := by
    rintro copy (rfl | ⟨message, hmessage, -⟩)
    · exact congrArg v.register (World.row_init hnew key)
    · cases hmessage
  constructor
  case known =>
    intro copy hcopy
    rw [hregister copy hcopy]
    exact Or.inl v.stamp_fresh
  case follows =>
    intro copy hcopy
    rw [hregister copy hcopy]
    exact .of_content v.holds_fresh
  case covered =>
    intro write hwrite
    cases hwrite

/-- A write makes every copy of its cell too old. -/
theorem tracked_write (hvalid : Valid r table s) (h : v.Tracked key s) {write : RowWrite}
    (henabled : r.Enabled s (.write write)) : v.Tracked key (r.step s (.write write)) := by
  obtain ⟨hbounds, hnewest⟩ := henabled
  have hlt : ∀ write' ∈ s.history, write'.stamp < write.stamp := fun write' hwrite' =>
    Timestamp.fromMicros_lt_fromMicros.mpr
      ⟨hnewest write' hwrite', (hnewest write' hwrite').trans_le hbounds.2⟩
  have hcopy_lt : ∀ copy, v.IsCopy key s copy → copy.stamp < write.stamp := by
    intro copy hcopy
    rcases h.known copy hcopy with hmin | ⟨write', hwrite', hle⟩
    · rw [hmin, Timestamp.lt_iff]
      change 0 < (Timestamp.fromMicros write.writetime).val
      exact lt_of_le_of_lt (Nat.zero_le _) (Timestamp.lt_iff.mp
        (Timestamp.fromMicros_lt_fromMicros.mpr ⟨hbounds.1, by decide⟩ :
          Timestamp.fromMicros 0 < Timestamp.fromMicros write.writetime))
    · exact hle.trans_lt (hlt write' hwrite')
  have hrow : (r.step s (.write write)).row = s.row.write write := by
    change (s.history ++ [write]).foldl BaseRow.write .fresh = _
    rw [List.foldl_append]
    rfl
  constructor
  case known =>
    intro copy hcopy
    exact Or.inr ⟨write, List.mem_append_right _ (List.mem_singleton.mpr rfl),
      (hcopy_lt copy hcopy).le⟩
  case follows =>
    intro copy hcopy
    cases hvalue : write.value v.name with
    | none =>
      have hsource : v.source (r.step s (.write write)) = v.source s := by
        unfold source
        rw [hrow]
        simp only [BaseRow.write, hvalue, Option.elim_none]
      rw [hsource]
      exact h.follows copy hcopy
    | some value =>
      refine .of_lt ((hcopy_lt copy hcopy).trans_le (Timestamp.fromMicros_mono ?_))
      exact le_cell (List.mem_append_right _ (List.mem_singleton.mpr rfl))
        (Option.isSome_iff_exists.mpr ⟨value, hvalue⟩)
  case covered =>
    intro write' hwrite' hvalue hdelivered
    rcases List.mem_append.mp hwrite' with hold | hnew
    · exact h.covered write' hold hvalue hdelivered
    · -- A write that is new was not delivered yet.
      rw [List.mem_singleton.mp hnew] at hdelivered
      obtain ⟨earlier, hearlier, heq⟩ := hvalid.delivered _ hdelivered
      have hstamp : earlier.stamp = write.stamp := by
        rw [← stamp_event, ← stamp_event, heq]
      exact absurd hstamp (hlt earlier hearlier).ne

/-! ### Messages that are sent -/

omit [DecidableEq ι] in
/-- Copies after some messages were sent. -/
theorem isCopy_append {s' : State ι} {messages : List DbIndexedRow} (hworld : s'.world = s.world)
    (hmessages : s'.messages = s.messages ++ messages) (copy : Stamped Timestamp β) :
    v.IsCopy key s' copy ↔ v.IsCopy key s copy ∨
      ∃ message ∈ messages, copy ∈ v.writes (message.call r.metadata.key) := by
  unfold IsCopy
  rw [hworld, hmessages, or_assoc]
  refine or_congr_right ?_
  constructor
  · rintro ⟨message, hmessage, hcopy⟩
    rcases List.mem_append.mp hmessage with hold | hnew
    · exact Or.inl ⟨message, hold, hcopy⟩
    · exact Or.inr ⟨message, hnew, hcopy⟩
  · rintro (⟨message, hmessage, hcopy⟩ | ⟨message, hmessage, hcopy⟩)
    · exact ⟨message, List.mem_append_left _ hmessage, hcopy⟩
    · exact ⟨message, List.mem_append_right _ hmessage, hcopy⟩

omit [DecidableEq ι] in
/-- A copy of the cell has the timestamp of a write or the default one. -/
theorem readStamp_known {default : Timestamp}
    (hdefault : default = .min ∨ ∃ write ∈ s.history, default ≤ write.stamp) :
    readStamp default (s.row.cells v.name) = .min ∨
      ∃ write ∈ s.history, readStamp default (s.row.cells v.name) ≤ write.stamp := by
  unfold readStamp
  split
  · next hsome =>
    rcases cell_eq s v.name with heq | ⟨write, hwrite, -, hstamp⟩
    · rw [heq] at hsome
      cases hsome
    · refine Or.inr ⟨write, hwrite, ?_⟩
      rw [← hstamp]
      exact le_rfl
  · exact hdefault

omit [DecidableEq ι] in
/-- Sending a copy of the row keeps the copies in order. -/
theorem tracked_send (h : v.Tracked key s) {s' : State ι} {message : DbIndexedRow}
    {default : Timestamp} (hdefault : default = .min ∨ ∃ write ∈ s.history, default ≤ write.stamp)
    (hcopied : Copied r s.row default message.operation) (hhistory : s'.history = s.history)
    (hworld : s'.world = s.world) (hmessages : s'.messages = s.messages ++ [message])
    (hdelivered : s'.delivered = s.delivered)
    (htasks : ∀ timestamp ∈ s.tasks, timestamp ∈ s'.tasks ∨ timestamp = default) :
    v.Tracked key s' := by
  have hiff : ∀ copy, v.IsCopy key s' copy ↔ v.IsCopy key s copy ∨
      ∃ message' ∈ [message], copy ∈ v.writes (message'.call r.metadata.key) :=
    v.isCopy_append hworld hmessages
  have hsource : v.source s' = v.source s := by
    unfold source State.row
    rw [hhistory]
  have hnew : ∀ copy, (∃ message' ∈ [message], copy ∈ v.writes (message'.call r.metadata.key)) →
      copy.stamp = readStamp default (s.row.cells v.name) ∧
        v.Holds (s.row.cells v.name).content copy.content := by
    rintro copy ⟨message', hmessage', hcopy⟩
    rw [List.mem_singleton.mp hmessage'] at hcopy
    exact v.writes_eq hcopied copy hcopy
  constructor
  case known =>
    intro copy hcopy
    rw [hhistory]
    rcases (hiff copy).mp hcopy with hold | hsent
    · exact h.known copy hold
    · rw [(hnew copy hsent).1]
      exact v.readStamp_known hdefault
  case follows =>
    intro copy hcopy
    rw [hsource]
    rcases (hiff copy).mp hcopy with hold | hsent
    · exact h.follows copy hold
    · exact .of_content (hnew copy hsent).2
  case covered =>
    intro write hwrite hvalue hmem
    rw [hhistory] at hwrite
    rw [hdelivered] at hmem
    rcases h.covered write hwrite hvalue hmem with htask | ⟨copy, hcopy, hle⟩
    · rcases htasks write.stamp htask with hkept | heq
      · exact Or.inl hkept
      · -- The event whose row was fetched: the copy is as new as the event.
        obtain ⟨copy, hcopy⟩ := List.exists_mem_of_ne_nil _ (v.writes_ne_nil hcopied)
        refine Or.inr ⟨copy, (hiff copy).mpr (Or.inr ⟨message, List.mem_singleton.mpr rfl,
          hcopy⟩), ?_⟩
        rw [(v.writes_eq hcopied copy hcopy).1]
        unfold readStamp
        split
        · exact Timestamp.fromMicros_mono (le_cell hwrite hvalue)
        · exact heq.le
    · exact Or.inr ⟨copy, (hiff copy).mpr (Or.inl hcopy), hle⟩

omit [DecidableEq ι] in
/-- An upsert event that is consumed leaves a task. -/
theorem tracked_upsert (h : v.Tracked key s) {consumers : ι → CdcConsumer} {timestamp : Timestamp} :
    v.Tracked key { s with
      consumers
      delivered := s.delivered ++ [(timestamp, .upsert)]
      tasks := s.tasks ++ [timestamp] } := by
  refine ⟨h.known, h.follows, fun write hwrite hvalue hmem => ?_⟩
  rcases List.mem_append.mp hmem with hold | hnew
  · exact (h.covered write hwrite hvalue hold).imp_left fun htask => List.mem_append_left _ htask
  · refine Or.inl (List.mem_append_right _ (List.mem_singleton.mpr ?_))
    rw [← stamp_event, List.mem_singleton.mp hnew]

omit [DecidableEq ι] in
/-- A delete event that is consumed sends a message, which follows every cell: the delete wrote
them all. -/
theorem tracked_delete (hvalid : Valid r table s) (h : v.Tracked key s) {s' : State ι}
    {write : RowWrite} (hwrite : write ∈ s.history) {timestamp : Timestamp}
    (hevent : write.event = (timestamp, .delete)) (hhistory : s'.history = s.history)
    (hworld : s'.world = s.world) (htasks : s'.tasks = s.tasks)
    (hdelivered : s'.delivered = s.delivered ++ [(timestamp, .delete)])
    (hmessages : s'.messages = s.messages ++ [processDelete r.primaryKey timestamp]) :
    v.Tracked key s' := by
  have hstamp : write.stamp = timestamp := by rw [← stamp_event, hevent]
  have hiff : ∀ copy, v.IsCopy key s' copy ↔ v.IsCopy key s copy ∨
      ∃ message ∈ [processDelete r.primaryKey timestamp],
        copy ∈ v.writes (message.call r.metadata.key) :=
    v.isCopy_append hworld hmessages
  have hrow : s'.row = s.row := by
    unfold State.row
    rw [hhistory]
  have hnew : ∀ copy, (∃ message ∈ [processDelete r.primaryKey timestamp],
      copy ∈ v.writes (message.call r.metadata.key)) →
        copy.stamp = timestamp ∧ v.Holds none copy.content := by
    rintro copy ⟨message, hmessage, hcopy⟩
    rw [List.mem_singleton.mp hmessage] at hcopy
    exact v.delete_eq timestamp copy hcopy
  constructor
  case known =>
    intro copy hcopy
    rw [hhistory]
    rcases (hiff copy).mp hcopy with hold | hsent
    · exact h.known copy hold
    · exact Or.inr ⟨write, hwrite, by rw [(hnew copy hsent).1, hstamp]⟩
  case follows =>
    intro copy hcopy
    unfold source
    rw [hrow]
    rcases (hiff copy).mp hcopy with hold | hsent
    · exact h.follows copy hold
    · obtain ⟨hcopyStamp, hholds⟩ := hnew copy hsent
      intro hle
      have hcell : (s.row.cells v.name).stamp ≤ write.writetime := by
        by_contra hlt
        rw [hcopyStamp, ← hstamp] at hle
        have hlt' : write.stamp < .fromMicros (s.row.cells v.name).stamp :=
          Timestamp.fromMicros_lt_fromMicros.mpr
            ⟨not_le.mp hlt, (not_le.mp hlt).trans_le (hvalid.cell_le v.name)⟩
        exact absurd hle hlt'.not_ge
      have hnone := hvalid.content_of_delete hwrite hevent hcell
      change v.Holds (s.row.cells v.name).content copy.content
      rw [hnone]
      exact hholds
  case covered =>
    intro write' hwrite' hvalue hmem
    rw [hhistory] at hwrite'
    rw [hdelivered] at hmem
    rw [htasks]
    rcases List.mem_append.mp hmem with hold | hlast
    · rcases h.covered write' hwrite' hvalue hold with htask | ⟨copy, hcopy, hle⟩
      · exact Or.inl htask
      · exact Or.inr ⟨copy, (hiff copy).mpr (Or.inl hcopy), hle⟩
    · obtain ⟨copy, hcopy⟩ := List.exists_mem_of_ne_nil _ (v.delete_ne_nil timestamp)
      have hsent : ∃ message ∈ [processDelete r.primaryKey timestamp],
          copy ∈ v.writes (message.call r.metadata.key) :=
        ⟨_, List.mem_singleton.mpr rfl, hcopy⟩
      refine Or.inr ⟨copy, (hiff copy).mpr (Or.inr hsent), ?_⟩
      rw [(hnew copy hsent).1, ← stamp_event, List.mem_singleton.mp hlast]

/-- A message that is processed is absorbed by the register. -/
theorem tracked_process (hvalid : Valid r table s)
    (hkey : table.normalizePrimaryKey (.fromIter r.primaryKey) = .ok key) (h : v.Tracked key s)
    {message : DbIndexedRow} (henabled : r.Enabled s (.process message)) :
    v.Tracked key (r.step s (.process message)) := by
  obtain ⟨hmem, hok⟩ := henabled
  have hkeyOf := hvalid.keyOf_eq hkey hmem r.metadata.key
  have hregister : v.register ((r.step s (.process message)).world.row key) =
      (v.register (s.world.row key)).absorbAll (v.writes (message.call r.metadata.key)) :=
    v.step hvalid.consistent hvalid.schema hok hkeyOf
  have hsent : ∀ copy ∈ v.writes (message.call r.metadata.key), v.IsCopy key s copy :=
    fun copy hcopy => Or.inr ⟨message, hmem, hcopy⟩
  -- What the register holds afterwards was a copy before.
  have hold : ∀ copy, v.IsCopy key (r.step s (.process message)) copy → v.IsCopy key s copy := by
    rintro copy (rfl | ⟨message', hmessage', hcopy⟩)
    · rw [hregister]
      rcases Stamped.absorbAll_eq_or_mem (v.register (s.world.row key))
        (v.writes (message.call r.metadata.key)) with heq | hnew
      · exact Or.inl heq
      · exact hsent _ hnew
    · exact Or.inr ⟨message', List.mem_of_mem_erase hmessage', hcopy⟩
  refine ⟨fun copy hcopy => h.known copy (hold copy hcopy),
    fun copy hcopy => h.follows copy (hold copy hcopy), fun write hwrite hvalue hdelivered => ?_⟩
  rcases h.covered write hwrite hvalue hdelivered with htask | ⟨copy, hcopy, hle⟩
  · exact Or.inl htask
  · refine Or.inr ?_
    rcases hcopy with rfl | ⟨message', hmessage', hcopy⟩
    · refine ⟨_, Or.inl rfl, ?_⟩
      rw [hregister]
      exact hle.trans (Stamped.stamp_le_absorbAll _ _)
    · by_cases heq : message' = message
      · refine ⟨_, Or.inl rfl, ?_⟩
        rw [hregister]
        rw [heq] at hcopy
        exact hle.trans (Stamped.stamp_le_of_mem hcopy)
      · exact ⟨copy, Or.inr ⟨message', (List.mem_erase_of_ne heq).mpr hmessage', hcopy⟩, hle⟩

/-- Every step keeps the copies in order. -/
theorem tracked_step (hvalid : Valid r table s)
    (hkey : table.normalizePrimaryKey (.fromIter r.primaryKey) = .ok key) (h : v.Tracked key s)
    {action : Action ι} (henabled : r.Enabled s action) : v.Tracked key (r.step s action) := by
  cases action with
  | write write => exact v.tracked_write hvalid h henabled
  | scan =>
    cases hscanned : r.scanned s with
    | none =>
      have hstep : r.step s .scan = s := by
        simp only [Replication.step, hscanned, Option.toList_none, List.append_nil]
      rw [hstep]
      exact h
    | some message =>
      have hcopied := (copied_of_scanned hvalid.cell_le hscanned).2
      refine v.tracked_send h (Or.inl rfl) hcopied rfl rfl ?_ rfl fun _ htask => Or.inl htask
      simp only [Replication.step, hscanned, Option.toList_some]
  | consume reader row =>
    obtain ⟨consumers, heq | ⟨write, hwrite, timestamp, ⟨hevent, heq⟩ | ⟨hevent, heq⟩⟩⟩ :=
      step_consume henabled
    · rw [heq]
      exact ⟨h.known, h.follows, h.covered⟩
    · rw [heq]
      exact v.tracked_upsert h
    · rw [heq]
      exact v.tracked_delete hvalid h hwrite hevent rfl rfl rfl rfl rfl
  | fetch timestamp =>
    obtain ⟨htask, message, hsent⟩ := henabled
    obtain ⟨write, hwrite, hstamp⟩ := hvalid.tasks timestamp htask
    have hcopied := (copied_of_sent hvalid.cell_le hsent).2
    refine v.tracked_send h (Or.inr ⟨write, hwrite, hstamp.ge⟩) hcopied rfl rfl ?_ rfl ?_
    · simp only [Replication.step, hsent]
      rfl
    · intro timestamp' htask'
      by_cases heq : timestamp' = timestamp
      · exact Or.inr heq
      · exact Or.inl ((List.mem_erase_of_ne heq).mpr htask')
  | process message => exact v.tracked_process hvalid hkey h henabled
  | other call =>
    have hne : s.world.keyOf call ≠ .ok key := by
      rw [← hkey, ← Table.normalizePrimaryKey_congr hvalid.schema]
      exact henabled
    have hcopy : ∀ copy, v.IsCopy key (r.step s (.other call)) copy ↔ v.IsCopy key s copy := by
      intro copy
      unfold IsCopy
      have hrow : (r.step s (.other call)).world.row key = s.world.row key :=
        World.step_row_of_ne hvalid.consistent hne
      rw [hrow]
      rfl
    refine ⟨fun copy hmem => h.known copy ((hcopy copy).mp hmem),
      fun copy hmem => h.follows copy ((hcopy copy).mp hmem), ?_⟩
    intro write hwrite hvalue hdelivered
    exact (h.covered write hwrite hvalue hdelivered).imp_right fun ⟨copy, hmem, hle⟩ =>
      ⟨copy, (hcopy copy).mpr hmem, hle⟩

omit [DecidableEq ι] in
/-- When everything is processed, the register holds the content of the cell. -/
theorem holds_of_settled (h : v.Tracked key s) (hsettled : Settled s) :
    v.Holds (s.row.cells v.name).content (v.register (s.world.row key)).content := by
  refine h.follows _ (Or.inl rfl) ?_
  rcases cell_eq s v.name with heq | ⟨write, hwrite, hvalue, hstamp⟩
  · unfold source
    rw [heq]
    exact Timestamp.min_le _
  · change Timestamp.fromMicros (s.row.cells v.name).stamp ≤ _
    rw [← hstamp]
    rcases h.covered write hwrite (Option.isSome_iff_exists.mpr ⟨_, hvalue⟩)
      (hsettled.delivered write hwrite) with htask | ⟨copy, rfl | ⟨message, hmessage, -⟩, hle⟩
    · rw [hsettled.tasks] at htask
      cases htask
    · exact hle
    · rw [hsettled.messages] at hmessage
      cases hmessage

end View

/-! ## The target and the filtering columns -/

section Columns

omit [DecidableEq ι]

/-- The target of the row follows the target column. -/
def targetView (hglobal : table.schema.partitionColumns = none) :
    View r table.schema (Option SplittingValues) where
  name := r.target
  register row := row.target.value
  writes call := [call.target]
  Holds value content := content = r.indexedContent value ∧ content.isSome = value.isSome
  name_mem := target_mem r
  stamp_fresh := rfl
  holds_fresh := ⟨rfl, rfl⟩
  step hw hschema hok hkey :=
    World.value_step_of_global hw ((congrArg Schema.partitionColumns hschema).trans hglobal) hok
      hkey
  writes_ne_nil _ := List.cons_ne_nil _ _
  writes_eq := by
    intro row default message hcopied copy hcopy
    obtain rfl := List.mem_singleton.mp hcopy
    obtain ⟨primaryKey, operation⟩ := message
    cases hcopied with
    | upsert values hread =>
      exact ⟨hread.target.timestamp, stored_of_isRead isSome_indexed hread.target⟩
    | delete hnone =>
      have hcontent := hnone r.target (target_mem r)
      rw [hcontent]
      refine ⟨?_, rfl, rfl⟩
      unfold readStamp
      rw [hcontent]
      rfl
  delete_ne_nil _ := List.cons_ne_nil _ _
  delete_eq := by
    intro timestamp copy hcopy
    obtain rfl := List.mem_singleton.mp hcopy
    exact ⟨rfl, rfl, rfl⟩

/-- A filtering column of the row follows the column of the database. -/
def filteringView (hglobal : table.schema.partitionColumns = none)
    (hfiltering : table.schema.filteringColumns = r.filteringColumns) {name : ColumnName}
    (hname : name ∈ r.filteringColumns) : View r table.schema (Option CqlValue) where
  name := name
  register row := row.cells name
  writes call := call.cells table.schema name
  Holds value content :=
    content = r.filteringContent name value ∧ content.isSome = value.isSome
  name_mem := filtering_mem r hname
  stamp_fresh := rfl
  holds_fresh := ⟨rfl, rfl⟩
  step hw hschema hok hkey := by
    rw [World.cells_step hw hok hkey, hschema]
  writes_ne_nil := by
    rintro row default ⟨primaryKey, operation⟩ hcopied
    cases hcopied with
    | upsert values hread =>
      exact (mem_cells_upsert (Schema.nonpk_of_global hglobal) hfiltering hread hname).1
    | delete hnone => exact (cells_delete (hfiltering ▸ hname) _ _ _).1
  writes_eq := by
    rintro row default ⟨primaryKey, operation⟩ hcopied copy hcopy
    cases hcopied with
    | upsert values hread =>
      obtain ⟨read, hisRead, rfl⟩ :=
        (mem_cells_upsert (Schema.nonpk_of_global hglobal) hfiltering hread hname).2 copy hcopy
      exact ⟨hisRead.timestamp, stored_of_isRead isSome_column hisRead⟩
    | delete hnone =>
      obtain rfl := (cells_delete (hfiltering ▸ hname) _ _ _).2 copy hcopy
      have hcontent := hnone name (filtering_mem r hname)
      rw [hcontent]
      refine ⟨?_, rfl, rfl⟩
      unfold readStamp
      rw [hcontent]
      rfl
  delete_ne_nil timestamp := (cells_delete (hfiltering ▸ hname) _ _ _).1
  delete_eq timestamp copy hcopy := by
    obtain rfl := (cells_delete (hfiltering ▸ hname) _ _ _).2 copy hcopy
    exact ⟨rfl, rfl, rfl⟩

end Columns

/-! ## Convergence -/

/-- Whatever the order of writes, reads, sends and processing, once all messages are processed the
row of the table is live exactly when the target cell of the database has a value, with this value,
and its filtering columns hold those of the database. -/
theorem fullScan_cdc_converge {tableColumns : AList fun _ : ColumnName => NativeType}
    (hbuild : buildTable r.metadata.key r.metadata tableColumns = .ok table)
    (hkey : table.normalizePrimaryKey (.fromIter r.primaryKey) = .ok key)
    {actions : List (Action ι)}
    (hrun : Machine.Along r.step r.Enabled (State.init table) actions)
    (hsettled : Settled (Machine.run r.step (State.init table) actions)) :
    let s := Machine.run r.step (State.init table) actions
    (s.world.IsLive key ↔ (s.row.cells r.target).content.isSome) ∧
      (s.world.row key).target.held.map Prod.snd =
        r.indexedContent (s.row.cells r.target).content ∧
      ∀ name ∈ r.filteringColumns, ((s.world.row key).cells name).content =
        r.filteringContent name (s.row.cells name).content ∧
          ((s.world.row key).cells name).content.isSome = (s.row.cells name).content.isSome := by
  have hnew := isNew_of_buildTable hbuild
  have hmade := Table.new_made hbuild
  have hglobal : table.schema.partitionColumns = none := by
    rw [hmade.partitionColumns_eq, r.partitioning_eq]
    rfl
  have htracked : ∀ {β : Type} (v : View r table.schema β),
      v.Tracked key (Machine.run r.step (State.init table) actions) := by
    intro β v
    have hinv : ∀ (s : State ι) action, Valid r table s ∧ v.Tracked key s →
        r.Enabled s action → Valid r table (r.step s action) ∧ v.Tracked key (r.step s action) :=
      fun s action h henabled =>
        ⟨valid_step h.1 henabled, v.tracked_step h.1 hkey h.2 henabled⟩
    exact (Machine.run_invariant_of_along hinv ⟨valid_init hnew, v.tracked_init hnew key⟩ hrun).2
  obtain ⟨hvalue, hsome⟩ := (targetView hglobal).holds_of_settled (htracked _) hsettled
  refine ⟨?_, hvalue, fun name hname => ?_⟩
  · have hlive : ((Machine.run r.step (State.init table) actions).world.row key).target.held.isSome =
        (((Machine.run r.step (State.init table) actions).world.row key).target.held.map
          Prod.snd).isSome := Option.isSome_map.symm
    unfold World.IsLive
    rw [hlive]
    exact Bool.eq_iff_iff.mp hsome
  · exact (filteringView hglobal hmade.filteringColumns_eq hname).holds_of_settled (htracked _)
      hsettled

end Replication

namespace Sample

/-- A row with a vector and a filtering column. -/
def replication : Replication where
  metadata := metadata
  decodeType _ := none
  kind := .vs
  baseColumns := [⟨"v"⟩, ⟨"f"⟩]
  primaryKey := [.int 0]
  same a b := a = b
  partitioning_eq := rfl
  targetColumns_rest := rfl
  columns_subset := by decide
  length_primaryKey := rfl

/-- Values of the two columns. -/
def cells (bits : UInt32) (column : Option Int32) (name : ColumnName) : Option (Option DbValue) :=
  if name = ⟨"v"⟩ then some (some (.vector ⟨[bits]⟩))
  else if name = ⟨"f"⟩ then some (column.map fun value => .value (.int value))
  else none

/-- A row of the log with the time of a write. -/
def logged (operation : OperationType) (micros : Nat) : CdcRow where
  operation := operation
  time := some (0, micros * 1000)
  value name := if name = ⟨"pk"⟩ then some (.int 0) else none

/-- A message with the values of the row. -/
def message (bits : UInt32) (time : Nat) (column : Option Int32) (columnTime : Nat) :
    DbIndexedRow :=
  ⟨.fromIter [.int 0], .upsert ⟨.new (.fromMicros time) (some (.vector ⟨[bits]⟩)),
    [.new (.fromMicros columnTime) (column.map fun value => .filtering (.int value))]⟩⟩

/-- An insert, an update, a delete and another insert, with two readers that are late, and messages
that are processed out of order. -/
def lateReaders : List (Replication.Action Bool) :=
  [.write (.insert 1 (cells 1 (some 10))), .scan, .write (.update 2 (cells 2 none)),
    .consume true (logged .rowUpdate 2), .consume false (logged .rowInsert 1),
    .fetch (.fromMicros 1), .write (.delete 3), .consume false (logged .rowDelete 3),
    .write (.insert 4 (cells 3 (some 30))), .consume true (logged .rowInsert 4),
    .fetch (.fromMicros 4), .fetch (.fromMicros 2), .process (message 3 4 (some 30) 4),
    .process (message 2 2 none 1), .process (processDelete [.int 0] (.fromMicros 3)),
    .process (message 3 4 (some 30) 4), .process (message 1 1 (some 10) 1)]

end Sample

attribute [local instance] Sample.decimals Sample.driver

theorem fullScan_cdc_converge_lateReaders :
    let s := Machine.run Sample.replication.step (Replication.State.init Sample.globalTable)
      Sample.lateReaders
    (s.world.IsLive (Sample.key 0) ↔ (s.row.cells Sample.replication.target).content.isSome) ∧
      (s.world.row (Sample.key 0)).target.held.map Prod.snd =
        Sample.replication.indexedContent (s.row.cells Sample.replication.target).content ∧
      ∀ name ∈ Sample.replication.filteringColumns,
        ((s.world.row (Sample.key 0)).cells name).content =
            Sample.replication.filteringContent name (s.row.cells name).content ∧
          ((s.world.row (Sample.key 0)).cells name).content.isSome =
            (s.row.cells name).content.isSome :=
  Replication.fullScan_cdc_converge Sample.buildTable_metadata (by decide +kernel)
    (by decide +kernel) ⟨by decide +kernel, by decide +kernel, by decide +kernel⟩

end VectorStore
