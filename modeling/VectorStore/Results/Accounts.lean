import VectorStore.Pipeline.MonitorItems
import VectorStore.Results.Served

/-!
# The accounts of the monitor

While the actor of the index is there, the counters of the monitor say how many rows hold a value, and
the messages are those of the operations.  Whether it is there or not, every guard is dropped or handed
on with one message, and the message that a row's guard comes with finishes the row: only the end of a
partition is sent after it.
-/

namespace VectorStore

/-! ## Operations -/

namespace Operation

/-- The message for an operation. -/
def message {M : Type} (dispatch : IndexDispatch M) : Operation → Option M
  | addVector primaryId partitionId vector _ => dispatch.addVector partitionId primaryId vector
  | addDocument primaryId partitionId document _ =>
    dispatch.addDocument partitionId primaryId document
  | removeBeforeAddValue primaryId partitionId | removeValue primaryId partitionId =>
    some (dispatch.removeValue partitionId primaryId)
  | removePartition partitionId => dispatch.removePartition partitionId

/-- The label that an operation is counted under. -/
def label : Operation → Option ModifiedLabel
  | addVector _ _ _ isUpdate | addDocument _ _ _ isUpdate =>
    some (if isUpdate then .update else .insert)
  | removeValue _ _ => some .remove
  | removeBeforeAddValue _ _ | removePartition _ => none

/-- The message of the operation takes the guard of the row along. -/
def takes : Operation → Bool
  | addVector _ _ _ _ | addDocument _ _ _ _ | removeValue _ _ => true
  | removeBeforeAddValue _ _ | removePartition _ => false

/-- The guard that goes with the message of an operation. -/
def taken (operation : Operation) (inProgress : AsyncInProgress) : AsyncInProgress :=
  if operation.takes then inProgress else .none

/-- The guard that is left for the operations that follow. -/
def left (operation : Operation) (inProgress : AsyncInProgress) : AsyncInProgress :=
  if operation.takes then .none else inProgress

theorem message_vsIndex (operation : Operation) :
    operation.message VsIndexModify.dispatch = VsIndexModify.ofOperation operation := by
  cases operation <;> rfl

theorem guards_taken_left (operation : Operation) (inProgress : AsyncInProgress) :
    (operation.taken inProgress).guards ++ (operation.left inProgress).guards =
      inProgress.guards := by
  unfold taken left
  cases operation.takes with
  | true => exact List.append_nil _
  | false => rfl

end Operation

namespace World

variable {M : Type} [DecimalNormalizer]

/-- The messages that the calls of a run lead to. -/
def dispatched (dispatch : IndexDispatch M) (w : World) : List Call → List M
  | [] => []
  | call :: calls =>
    (w.emitted call).filterMap (Operation.message dispatch) ++
      (w.step call).dispatched dispatch calls

theorem dispatched_vsIndex (w : World) (calls : List Call) :
    w.dispatched VsIndexModify.dispatch calls = w.messages calls := by
  induction calls generalizing w with
  | nil => rfl
  | cons call calls ih =>
    rw [dispatched, messages, ih, funext Operation.message_vsIndex]
    rfl

end World

namespace Modified

/-- The counters after an operation. -/
def count (modified : Modified) (operation : Operation) : Modified :=
  operation.label.elim modified modified.inc

/-- The counters after a list of operations. -/
abbrev countAll (modified : Modified) (operations : List Operation) : Modified :=
  Machine.run count modified operations

theorem count_addOperation (modified : Modified) (id : PrimaryId) (p : PartitionId)
    (isUpdate : Bool) (value : SplittingValues) :
    modified.count (UpdateWork.addOperation id p isUpdate value) =
      modified.inc (if isUpdate then .update else .insert) := by
  cases value <;> rfl

/-- Of an index with so many entries, as many values were inserted as are there or were removed. -/
def Balanced (modified : Modified) (store : Store) : Prop :=
  modified.insert = modified.remove + store.keys.length

variable {modified : Modified} {store start : Store} {operations : List Operation}

/-- The end of a partition is not counted. -/
theorem countAll_removeIfEmpty_append (p : PartitionId) (isEmpty : Bool) :
    modified.countAll (UpdateWork.removeIfEmpty p isEmpty ++ operations) =
      modified.countAll operations := by
  cases isEmpty <;> rfl

/-- The end of a partition without entries changes nothing. -/
theorem replay_removeIfEmpty_append {p : PartitionId} {isEmpty : Bool}
    (haccepts : Store.AcceptsAll start store (UpdateWork.removeIfEmpty p isEmpty ++ operations)) :
    store.replay (UpdateWork.removeIfEmpty p isEmpty ++ operations) = store.replay operations ∧
      Store.AcceptsAll start store operations := by
  cases isEmpty with
  | false => exact ⟨rfl, haccepts⟩
  | true =>
    have hstore : store.apply (.removePartition p) = store :=
      Store.apply_removePartition_of_count haccepts.1.2
    refine ⟨congrArg (fun store => Store.replay store operations) hstore, ?_⟩
    have hrest : Store.AcceptsAll start (store.apply (.removePartition p)) operations := haccepts.2
    rwa [hstore] at hrest

/-- The operations of a call keep the balance. -/
theorem Balanced.batch (h : modified.Balanced store) (hbatch : Operation.Batch operations)
    (haccepts : Store.AcceptsAll start store operations) :
    (modified.countAll operations).Balanced (store.replay operations) := by
  unfold Balanced at h ⊢
  cases hbatch with
  | nothing => exact h
  | insert id p value =>
    have hnone := (Store.accepts_addOperation start store id p false value).mp haccepts.1
    rw [countAll, Store.replay, Machine.run_cons, Machine.run_cons, count_addOperation,
      Store.apply_addOperation]
    change modified.insert + 1 = modified.remove + (store.insert (p, id) value).keys.length
    rw [FiniteMap.length_keys_insert (hnone p), h, Nat.add_assoc]
  | update id p isEmpty id' q value =>
    obtain ⟨hsome, hrest⟩ := haccepts
    obtain ⟨old, hold⟩ := Option.isSome_iff_exists.mp hsome
    obtain ⟨hreplay, hadd, -⟩ := replay_removeIfEmpty_append hrest
    have hnone : (store.erase (p, id)).lookup (q, id') = none :=
      (Store.accepts_addOperation start _ id' q true value).mp hadd q
    have hlength := FiniteMap.length_keys_erase hold
    rw [countAll, Store.replay, Machine.run_cons, Machine.run_cons, ← countAll, ← Store.replay,
      countAll_removeIfEmpty_append, hreplay, Store.replay, countAll, Machine.run_cons,
      Machine.run_cons, count_addOperation, Store.apply_addOperation]
    change modified.insert =
      modified.remove + ((store.erase (p, id)).insert (q, id') value).keys.length
    rw [FiniteMap.length_keys_insert hnone, hlength, h]
  | remove id p isEmpty =>
    obtain ⟨hsome, hempty⟩ := haccepts
    obtain ⟨old, hold⟩ := Option.isSome_iff_exists.mp hsome
    rw [← List.append_nil (UpdateWork.removeIfEmpty p isEmpty)] at hempty ⊢
    obtain ⟨hreplay, -⟩ := replay_removeIfEmpty_append hempty
    have hlength := FiniteMap.length_keys_erase hold
    rw [countAll, Store.replay, Machine.run_cons, Machine.run_cons, ← countAll, ← Store.replay,
      countAll_removeIfEmpty_append, hreplay]
    change modified.insert = modified.remove + 1 + (store.erase (p, id)).keys.length
    omega

end Modified

/-! ## One row -/

namespace MonitorItems

variable {M : Type} {dispatch : IndexDispatch M} {s : MonitorItems M}
  {inProgress : AsyncInProgress} {operation : Operation} {operations : List Operation}

/-- The guards that were handed on or dropped. -/
def released (s : MonitorItems M) : Multiset AsyncInProgress :=
  ↑(s.sent.flatMap fun message => message.2.guards) + ↑s.dropped

/-- What a step changes: the messages that it sends and the guards that it releases. -/
structure Sends (s t : MonitorItems M) (messages : List (M × AsyncInProgress))
    (guards : List AsyncInProgress) : Prop where
  sent : t.sent = s.sent ++ messages
  released : t.released = s.released + ↑guards
  table : t.table = s.table
  finished : t.finished = s.finished

theorem sends_drop (s : MonitorItems M) (inProgress : AsyncInProgress) :
    s.Sends (s.drop inProgress) [] inProgress.guards where
  sent := (List.append_nil _).symm
  released := by
    rw [released, released, drop, ← Multiset.coe_add, ← add_assoc]
  table := rfl
  finished := rfl

theorem Sends.trans {s t u : MonitorItems M} {ms ns : List (M × AsyncInProgress)}
    {gs hs : List AsyncInProgress} (h : s.Sends t ms gs) (h' : t.Sends u ns hs) :
    s.Sends u (ms ++ ns) (gs ++ hs) where
  sent := by rw [h'.sent, h.sent, List.append_assoc]
  released := by rw [h'.released, h.released, ← Multiset.coe_add, add_assoc]
  table := h'.table.trans h.table
  finished := h'.finished.trans h.finished

/-- A message that is sent, or is none, or fails. -/
theorem sends_send (s : MonitorItems M) (message : Option M) (inProgress : AsyncInProgress) :
    ∃ messages, s.Sends (s.send message inProgress).2 messages inProgress.guards ∧
      (s.send message inProgress).2.modified = s.modified ∧
      messages <+: message.toList.map (fun m => (m, inProgress)) ∧
      ((s.send message inProgress).1 = .live →
        messages = message.toList.map fun m => (m, inProgress)) := by
  have hsent : ∀ (m : M) (closing : Option ℕ),
      s.Sends { s with closing, sent := s.sent ++ [(m, inProgress)] } [(m, inProgress)]
        inProgress.guards := by
    intro m closing
    refine ⟨rfl, ?_, rfl, rfl⟩
    rw [released, released, List.flatMap_append, List.flatMap_singleton, ← Multiset.coe_add,
      add_right_comm]
  unfold send
  cases message with
  | none => exact ⟨[], s.sends_drop inProgress, rfl, List.nil_prefix, fun _ => rfl⟩
  | some m =>
    cases hclosing : s.closing with
    | none => exact ⟨_, hsent m none, rfl, List.prefix_rfl, fun _ => rfl⟩
    | some n =>
      cases n with
      | zero => exact ⟨[], s.sends_drop inProgress, rfl, List.nil_prefix, fun h => by cases h⟩
      | succ n => exact ⟨_, hsent m (some n), rfl, List.prefix_rfl, fun _ => rfl⟩

/-- An operation sends its message with the guard, if it takes it, and is counted. -/
theorem processOperation_eq (dispatch : IndexDispatch M) (s : MonitorItems M)
    (inProgress : AsyncInProgress) (operation : Operation) :
    s.processOperation dispatch inProgress operation =
      s.sendCounted (operation.message dispatch) (operation.taken inProgress)
        (operation.left inProgress) operation.label := by
  cases operation <;> rfl

/-- What is sent for an operation, and what becomes of its guard. -/
structure Sent (dispatch : IndexDispatch M) (s : MonitorItems M) (inProgress : AsyncInProgress)
    (operation : Operation) (messages : List (M × AsyncInProgress))
    (outcome : IndexStatus × AsyncInProgress × MonitorItems M) : Prop where
  sends : s.Sends outcome.2.2 messages (operation.taken inProgress).guards
  left : outcome.2.1 = operation.left inProgress
  sublist : messages <+:
    (operation.message dispatch).toList.map fun m => (m, operation.taken inProgress)
  live : outcome.1 = .live →
    messages = ((operation.message dispatch).toList.map fun m => (m, operation.taken inProgress)) ∧
      outcome.2.2.modified = s.modified.count operation

theorem sent_processOperation (dispatch : IndexDispatch M) (s : MonitorItems M)
    (inProgress : AsyncInProgress) (operation : Operation) :
    ∃ messages, Sent dispatch s inProgress operation messages
      (s.processOperation dispatch inProgress operation) := by
  obtain ⟨messages, hsends, hmodified, hinit, hlive⟩ :=
    s.sends_send (operation.message dispatch) (operation.taken inProgress)
  refine ⟨messages, ?_⟩
  rw [processOperation_eq]
  unfold sendCounted
  cases hsent : s.send (operation.message dispatch) (operation.taken inProgress) with
  | mk status t =>
    rw [hsent] at hsends hmodified hlive
    cases status with
    | dead => exact ⟨hsends, rfl, hinit, fun h => by cases h⟩
    | live =>
      refine ⟨⟨hsends.sent, hsends.released, hsends.table, hsends.finished⟩, rfl, hinit,
        fun _ => ⟨hlive rfl, ?_⟩⟩
      change operation.label.elim t.modified t.modified.inc = _
      have hmodified : t.modified = s.modified := hmodified
      rw [hmodified]
      rfl

/-- The messages for a row, each with its guard. -/
def messages (dispatch : IndexDispatch M) : AsyncInProgress → List Operation →
    List (M × AsyncInProgress)
  | _, [] => []
  | inProgress, operation :: operations =>
    ((operation.message dispatch).toList.map fun m => (m, operation.taken inProgress)) ++
      messages dispatch (operation.left inProgress) operations

/-- The operations of a row are sent, or those in front of one that finds the index dead; the guard of
the row is released in any case. -/
theorem sends_processOperations (dispatch : IndexDispatch M) (s : MonitorItems M)
    (inProgress : AsyncInProgress) (operations : List Operation) :
    ∃ sent, s.Sends (s.processOperations dispatch inProgress operations).2 sent
        inProgress.guards ∧
      sent <+: messages dispatch inProgress operations ∧
      ((s.processOperations dispatch inProgress operations).1 = .live →
        sent = messages dispatch inProgress operations ∧
        (s.processOperations dispatch inProgress operations).2.modified =
          s.modified.countAll operations) := by
  induction operations generalizing s inProgress with
  | nil =>
    have hdrop := s.sends_drop inProgress
    exact ⟨[], ⟨hdrop.sent, hdrop.released, rfl, rfl⟩, List.prefix_rfl, fun _ => ⟨rfl, rfl⟩⟩
  | cons operation operations ih =>
    obtain ⟨first, hfirst⟩ := sent_processOperation dispatch s inProgress operation
    have hguards := operation.guards_taken_left inProgress
    unfold processOperations
    cases houtcome : s.processOperation dispatch inProgress operation with
    | mk status rest =>
      obtain ⟨left, t⟩ := rest
      rw [houtcome] at hfirst
      obtain ⟨hsends, rfl, hinit, hlive⟩ := hfirst
      cases status with
      | dead =>
        have hdead := hsends.trans (t.sends_drop (operation.left inProgress))
        rw [List.append_nil, hguards] at hdead
        exact ⟨first, hdead, hinit.trans (List.prefix_append ..), fun h => by cases h⟩
      | live =>
        obtain ⟨rfl, hcount⟩ := hlive rfl
        obtain ⟨sent, hrest, hinit', hlive'⟩ := ih t (operation.left inProgress)
        have hall := hsends.trans hrest
        rw [hguards] at hall
        refine ⟨_, hall, (List.prefix_append_right_inj _).mpr hinit', fun h => ?_⟩
        obtain ⟨rfl, hmodified⟩ := hlive' h
        exact ⟨rfl, by rw [hmodified, hcount]; rfl⟩

/-! ## Guards -/

/-- The messages of a row.  Those without a guard in front of the one with the guard make room for it,
and those behind it end partitions. -/
def Handed (dispatch : IndexDispatch M) (inProgress : AsyncInProgress)
    (messages : List (M × AsyncInProgress)) : Prop :=
  ∃ before carried after, messages = before ++ (carried ++ after) ∧
    (∀ m ∈ before, m.2 = .none ∧ ((∃ p id, dispatch.removeValue p id = m.1) ∨
      ∃ p, dispatch.removePartition p = some m.1)) ∧
    (carried.length ≤ 1 ∧ ∀ m ∈ carried, m.2 = inProgress) ∧
    ∀ m ∈ after, m.2 = .none ∧ ∃ p, dispatch.removePartition p = some m.1

/-- The messages that were sent before the index died. -/
theorem Handed.shorter {ms ns : List (M × AsyncInProgress)} (h : Handed dispatch inProgress ms)
    (hinit : ns <+: ms) : Handed dispatch inProgress ns := by
  obtain ⟨before, carried, after, rfl, hbefore, ⟨hlength, hcarried⟩, hafter⟩ := h
  rw [List.prefix_iff_eq_take.mp hinit, List.take_append, List.take_append]
  refine ⟨_, _, _, rfl, fun m hm => hbefore m (List.mem_of_mem_take hm), ⟨?_, fun m hm => ?_⟩,
    fun m hm => hafter m (List.mem_of_mem_take hm)⟩
  · exact (List.length_take_le' ..).trans hlength
  · exact hcarried m (List.mem_of_mem_take hm)

/-- The end of a partition leaves the guard. -/
theorem messages_removeIfEmpty_append (p : PartitionId) (isEmpty : Bool) :
    ∃ ends : List (M × AsyncInProgress),
      (∀ m ∈ ends, m.2 = .none ∧ ∃ p, dispatch.removePartition p = some m.1) ∧
      messages dispatch inProgress (UpdateWork.removeIfEmpty p isEmpty ++ operations) =
        ends ++ messages dispatch inProgress operations := by
  cases isEmpty with
  | false => exact ⟨[], by simp, rfl⟩
  | true =>
    refine ⟨(dispatch.removePartition p).toList.map fun m => (m, .none), fun m hm => ?_, rfl⟩
    obtain ⟨message, hmessage, rfl⟩ := List.mem_map.mp hm
    exact ⟨rfl, p, Option.mem_toList.mp hmessage⟩

/-- The message that adds a value takes the guard. -/
theorem messages_addOperation (id : PrimaryId) (p : PartitionId) (isUpdate : Bool)
    (value : SplittingValues) : ∃ carried : List (M × AsyncInProgress),
      (carried.length ≤ 1 ∧ ∀ m ∈ carried, m.2 = inProgress) ∧
      messages dispatch inProgress [UpdateWork.addOperation id p isUpdate value] = carried := by
  refine ⟨_, ⟨?_, fun m hm => ?_⟩, rfl⟩
  · rw [messages, messages, List.append_nil, List.length_map]
    exact Option.length_toList_le
  · rw [messages, messages, List.append_nil] at hm
    obtain ⟨m, -, rfl⟩ := List.mem_map.mp hm
    cases value <;> rfl

/-- The messages of a call. -/
theorem handed_messages (dispatch : IndexDispatch M) (inProgress : AsyncInProgress)
    (hbatch : Operation.Batch operations) :
    Handed dispatch inProgress (messages dispatch inProgress operations) := by
  cases hbatch with
  | nothing => exact ⟨[], [], [], rfl, by simp, ⟨Nat.zero_le _, by simp⟩, by simp⟩
  | insert id p value =>
    obtain ⟨carried, hcarried, hmessages⟩ :=
      @messages_addOperation M dispatch inProgress id p false value
    exact ⟨[], carried, [], by rw [hmessages]; simp, by simp, hcarried, by simp⟩
  | update id p isEmpty id' q value =>
    obtain ⟨carried, hcarried, hmessages⟩ :=
      @messages_addOperation M dispatch inProgress id' q true value
    obtain ⟨ends, hends, happend⟩ := @messages_removeIfEmpty_append M dispatch inProgress
      [UpdateWork.addOperation id' q true value] p isEmpty
    refine ⟨(dispatch.removeValue p id, .none) :: ends, carried, [], ?_, ?_, hcarried, by simp⟩
    · change _ :: messages dispatch inProgress _ = _
      rw [happend, hmessages, List.append_nil]
      rfl
    · refine List.forall_mem_cons.mpr ⟨⟨rfl, Or.inl ⟨p, id, rfl⟩⟩, fun m hm => ?_⟩
      exact ⟨(hends m hm).1, Or.inr (hends m hm).2⟩
  | remove id p isEmpty =>
    obtain ⟨ends, hends, happend⟩ :=
      @messages_removeIfEmpty_append M dispatch .none [] p isEmpty
    refine ⟨[], [(dispatch.removeValue p id, inProgress)], ends, ?_, by simp, by simp, hends⟩
    change _ :: messages dispatch .none _ = _
    rw [List.append_nil, messages, List.append_nil] at happend
    rw [happend]
    rfl

/-! ## Runs -/

section

variable [DecimalNormalizer] {row : Call × AsyncInProgress} {rows : List (Call × AsyncInProgress)}
  {table : Table} {closing : Option ℕ}

/-- What a row does to the monitor. -/
theorem step_spec (dispatch : IndexDispatch M) (s : MonitorItems M) (row : Call × AsyncInProgress) :
    ∃ sent, (s.step dispatch row).sent = s.sent ++ sent ∧
      (s.step dispatch row).released = s.released + ↑row.2.guards ∧
      Handed dispatch row.2 sent ∧
      ((s.step dispatch row).finished = false →
        s.finished = false ∧ (s.step dispatch row).table = (s.table.call row.1).2 ∧
          sent = messages dispatch row.2 (emittedBy (s.table.call row.1).1) ∧
          (s.step dispatch row).modified =
            s.modified.countAll (emittedBy (s.table.call row.1).1)) := by
  have hnothing : Handed dispatch row.2 ([] : List (M × AsyncInProgress)) :=
    handed_messages dispatch row.2 .nothing
  have hdrop : ∀ t : MonitorItems M, t.sent = s.sent → t.released = s.released →
      (t.drop row.2).sent = s.sent ++ [] ∧
        (t.drop row.2).released = s.released + ↑row.2.guards := by
    intro t hsent hreleased
    obtain ⟨hsent', hreleased', -, -⟩ := t.sends_drop row.2
    rw [hsent] at hsent'
    rw [hreleased] at hreleased'
    exact ⟨hsent', hreleased'⟩
  have hbatch := s.table.call_batch row.1
  unfold step
  split
  · next hfinished =>
    obtain ⟨hsent, hreleased⟩ := hdrop s rfl rfl
    exact ⟨[], hsent, hreleased, hnothing, fun h => absurd hfinished (h ▸ Bool.false_ne_true)⟩
  · next hfinished =>
    rw [Bool.not_eq_true] at hfinished
    cases hcall : s.table.call row.1 with
    | mk result table =>
      rw [hcall] at hbatch
      cases result with
      | error e =>
        obtain ⟨hsent, hreleased⟩ := hdrop { s with table } rfl rfl
        exact ⟨[], hsent, hreleased, hnothing, fun _ => ⟨hfinished, rfl, rfl, rfl⟩⟩
      | ok operations =>
        obtain ⟨sent, hsends, hinit, hlive⟩ :=
          sends_processOperations dispatch { s with table } row.2 operations
        have hhanded := (handed_messages dispatch row.2 hbatch).shorter hinit
        dsimp only
        cases hprocess : processOperations dispatch { s with table } row.2 operations with
        | mk status t =>
          rw [hprocess] at hsends hlive
          cases status with
          | dead =>
            exact ⟨sent, hsends.sent, hsends.released, hhanded, fun h => by cases h⟩
          | live =>
            obtain ⟨hsent, hmodified⟩ := hlive rfl
            exact ⟨sent, hsends.sent, hsends.released, hhanded,
              fun _ => ⟨hfinished, hsends.table, hsent, hmodified⟩⟩

omit [DecimalNormalizer] in
/-- The messages of a row, without the guards. -/
theorem map_fst_messages (dispatch : IndexDispatch M) (inProgress : AsyncInProgress)
    (operations : List Operation) :
    (messages dispatch inProgress operations).map Prod.fst =
      operations.filterMap (Operation.message dispatch) := by
  induction operations generalizing inProgress with
  | nil => rfl
  | cons operation operations ih =>
    rw [messages, List.map_append, ih, List.map_map]
    cases hmessage : operation.message dispatch with
    | none => rw [List.filterMap_cons_none hmessage]; rfl
    | some m => rw [List.filterMap_cons_some hmessage]; rfl

/-- Every guard is released. -/
theorem released_run (dispatch : IndexDispatch M) (s : MonitorItems M)
    (rows : List (Call × AsyncInProgress)) :
    (Machine.run (step dispatch) s rows).released =
      s.released + ↑(rows.flatMap fun row => row.2.guards) := by
  induction rows generalizing s with
  | nil => exact (add_zero _).symm
  | cons row rows ih =>
    obtain ⟨_, -, hreleased, -⟩ := step_spec dispatch s row
    rw [Machine.run_cons, ih, hreleased, List.flatMap_cons, ← Multiset.coe_add, add_assoc]

/-- A monitor that has finished stays so. -/
theorem finished_of_run {s : MonitorItems M}
    (h : (Machine.run (step dispatch) s rows).finished = false) : s.finished = false := by
  induction rows generalizing s with
  | nil => exact h
  | cons row rows ih =>
    obtain ⟨_, -, -, -, hlive⟩ := step_spec dispatch s row
    exact (hlive (ih h)).1

/-- The monitor of a world, as long as the index is there. -/
structure Follows (s : MonitorItems M) (w : World) : Prop where
  table : s.table = w.table
  balanced : s.modified.Balanced w.store

/-- The monitor follows the calls, and sends what they lead to. -/
theorem Follows.run {s : MonitorItems M} {w : World} (h : s.Follows w) (hw : w.Consistent)
    (hlive : (Machine.run (step dispatch) s rows).finished = false) :
    (Machine.run (step dispatch) s rows).Follows
        (Machine.run World.step w (rows.map Prod.fst)) ∧
      (Machine.run (step dispatch) s rows).sent.map Prod.fst =
        s.sent.map Prod.fst ++ w.dispatched dispatch (rows.map Prod.fst) := by
  induction rows generalizing s w with
  | nil => exact ⟨h, (List.append_nil _).symm⟩
  | cons row rows ih =>
    obtain ⟨sent, hsent, -, -, hstep⟩ := step_spec dispatch s row
    obtain ⟨-, htable, rfl, hmodified⟩ := hstep (finished_of_run hlive)
    rw [h.table] at htable hsent hmodified
    have hfollows : (s.step dispatch row).Follows (w.step row.1) := by
      refine ⟨htable, ?_⟩
      rw [hmodified]
      exact h.balanced.batch (w.table.call_batch row.1) (World.step_accepts hw row.1)
    obtain ⟨hrun, hmessages⟩ := ih hfollows (World.step_consistent hw row.1) hlive
    refine ⟨hrun, ?_⟩
    rw [Machine.run_cons, hmessages, hsent, List.map_append, map_fst_messages, List.append_assoc]
    rfl

/-- The counters tell how many rows hold a value. -/
theorem Follows.length_rowsOf [TimeuuidOrd] {s : MonitorItems M} {w : World} (h : s.Follows w)
    (hw : w.Reachable) :
    s.modified.insert = s.modified.remove + (w.rowsOf fun _ => true).length := by
  have hserves := hw.consistent.serves_store hw.storesKeys
  rw [← hserves.length_keys fun value => ⟨fun _ => ⟨value, rfl⟩, fun _ => rfl⟩]
  exact h.balanced

/-- Whatever rows the monitor is given, and whenever the actor of the index goes away: every guard is
dropped or handed on with one message, after which only the end of a partition is sent for its row.
While the actor is there, its messages are those of the operations, and as many values were counted as
inserted as there are rows that hold one or were counted as removed. -/
theorem rows_accounted [TimeuuidOrd] (hnew : table.IsNew) (dispatch : IndexDispatch M)
    (closing : Option ℕ) (rows : List (Call × AsyncInProgress)) :
    let s := Machine.run (step dispatch) (init table closing) rows
    let w := Machine.run World.step (World.init table) (rows.map Prod.fst)
    s.released = ↑(rows.flatMap fun row => row.2.guards) ∧
      (∀ row, ∃ sent, (s.step dispatch row).sent = s.sent ++ sent ∧ Handed dispatch row.2 sent) ∧
      (s.finished = false → s.table = w.table ∧
        s.sent.map Prod.fst = (World.init table).dispatched dispatch (rows.map Prod.fst) ∧
        s.modified.insert = s.modified.remove + (w.rowsOf fun _ => true).length) := by
  have hreach : (Machine.run World.step (World.init table) (rows.map Prod.fst)).Reachable :=
    ⟨table, _, hnew, rfl⟩
  have hempty : (init table closing : MonitorItems M).Follows (World.init table) := ⟨rfl, rfl⟩
  refine ⟨?_, fun row => ?_, fun hlive => ?_⟩
  · rw [released_run]
    exact zero_add _
  · obtain ⟨sent, hsent, -, hhanded, -⟩ :=
      step_spec dispatch (Machine.run (step dispatch) (init table closing) rows) row
    exact ⟨sent, hsent, hhanded⟩
  · obtain ⟨hfollows, hmessages⟩ := hempty.run (World.consistent_init hnew) hlive
    exact ⟨hfollows.table, hmessages, hfollows.length_rowsOf hreach⟩

end

namespace Sample

attribute [local instance] VectorStore.Sample.decimals

/-- A row that moves between partitions and is deleted, found by the scan first. -/
def rows : List (Call × AsyncInProgress) :=
  [(VectorStore.Sample.upsert 0 0 (some (VectorStore.Sample.vector 1)) 0 (some 1), .fullscan),
    (VectorStore.Sample.upsert 0 1 (some (VectorStore.Sample.vector 2)) 1 (some 2),
      .cdc (VectorStore.Sample.time 1)),
    (VectorStore.Sample.delete 0 2, .cdc (VectorStore.Sample.time 2))]

example : (Machine.run (step VsIndexModify.dispatch) (init VectorStore.Sample.columnTable none)
    rows).modified = ⟨1, 1, 1⟩ := by
  decide +kernel

end Sample

attribute [local instance] VectorStore.Sample.decimals VectorStore.Sample.timeuuids

/-- The actor of the index goes away after three messages, or stays. -/
theorem rows_accounted_rows :
    let closed := Machine.run (step VsIndexModify.dispatch)
      (init VectorStore.Sample.columnTable (some 3)) Sample.rows
    let s := Machine.run (step VsIndexModify.dispatch) (init VectorStore.Sample.columnTable none)
      Sample.rows
    let w := Machine.run World.step (World.init VectorStore.Sample.columnTable)
      (Sample.rows.map Prod.fst)
    closed.released = {.fullscan, .cdc (VectorStore.Sample.time 1), .cdc (VectorStore.Sample.time 2)} ∧
      (∃ sent, (s.step VsIndexModify.dispatch
          (VectorStore.Sample.delete 1 3, .cdc (VectorStore.Sample.time 3))).sent = s.sent ++ sent ∧
        Handed VsIndexModify.dispatch (.cdc (VectorStore.Sample.time 3)) sent) ∧
      s.table = w.table ∧
      s.sent.map Prod.fst = (World.init VectorStore.Sample.columnTable).dispatched
        VsIndexModify.dispatch (Sample.rows.map Prod.fst) ∧
      s.modified.insert = s.modified.remove + (w.rowsOf fun _ => true).length := by
  have haccounted := fun closing =>
    rows_accounted VectorStore.Sample.isNew_columnTable VsIndexModify.dispatch closing Sample.rows
  obtain ⟨-, hhanded, hlive⟩ := haccounted none
  exact ⟨(haccounted (some 3)).1, hhanded _, hlive (by decide +kernel)⟩

end MonitorItems

/-! ## The size of a vector index -/

namespace World

/-- A row that holds a value holds a vector or a document. -/
theorem length_rowsOf (w : World) : (w.rowsOf fun _ => true).length =
    (w.rowsOf SplittingValues.isVector).length + (w.rowsOf SplittingValues.isDocument).length := by
  unfold rowsOf
  induction w.table.primaryIds.keys with
  | nil => rfl
  | cons key keys ih =>
    rw [List.filter_cons, List.filter_cons, List.filter_cons]
    cases (w.row key).target.held with
    | none => exact ih
    | some entry =>
      obtain ⟨pkey, value⟩ := entry
      cases value with
      | vector v =>
        exact (congrArg Nat.succ ih).trans (Nat.succ_add ..).symm
      | document d =>
        exact congrArg Nat.succ ih

end World

namespace Usearch

section

variable [DecimalNormalizer] [TimeuuidOrd] {table : Table} {rows : List (Call × AsyncInProgress)}
  {closing : Option ℕ} {runtime : Runtime} {as : List Action}

/-- Once the actor has come to rest with the messages of the monitor, and has refused none of them,
the counters tell the size of the index, but for the rows that hold a document. -/
theorem size_accounted (hnew : table.IsNew)
    (hlive : (Machine.run (MonitorItems.step VsIndexModify.dispatch) (.init table closing)
      rows).finished = false)
    (halong : Machine.Along step (fun s a => Enabled s a ∧ s.Succeeds a) (.init runtime) as)
    (hreceived : received as = (Machine.run (MonitorItems.step VsIndexModify.dispatch)
      (.init table closing) rows).sent.map Prod.fst)
    (hquiescent : (Machine.run step (.init runtime) as).Quiescent) (hunrefused : Unrefused as) :
    let monitor := Machine.run (MonitorItems.step VsIndexModify.dispatch) (.init table closing) rows
    let w := Machine.run World.step (World.init table) (rows.map Prod.fst)
    monitor.modified.insert = monitor.modified.remove +
      (Machine.run step (.init runtime) as).count monitor.table.index.indexId +
        (w.rowsOf SplittingValues.isDocument).length := by
  have hempty : (MonitorItems.init table closing : MonitorItems VsIndexModify).Follows
      (World.init table) := ⟨rfl, rfl⟩
  have hreach : (Machine.run World.step (World.init table) (rows.map Prod.fst)).Reachable :=
    ⟨table, _, hnew, rfl⟩
  obtain ⟨hfollows, hmessages⟩ := hempty.run (World.consistent_init hnew) hlive
  rw [hmessages, World.dispatched_vsIndex] at hreceived
  obtain ⟨-, hcount⟩ := (serves_rows hnew ⟨halong, hreceived, hquiescent⟩).2 hunrefused
  dsimp only
  rw [hfollows.table, hcount, Nat.add_assoc, ← World.length_rowsOf]
  exact hfollows.length_rowsOf hreach

end

attribute [local instance] VectorStore.Sample.decimals VectorStore.Sample.timeuuids

/-- The rows of `MonitorItems.Sample` with an actor that carries their messages out one by one. -/
theorem size_accounted_rows :
    (Machine.run step (.init Sample.runtime) Sample.movingRow).count
      (Machine.run (MonitorItems.step VsIndexModify.dispatch)
        (.init VectorStore.Sample.columnTable none) MonitorItems.Sample.rows).table.index.indexId =
      0 := by
  have h := @size_accounted _ _ VectorStore.Sample.columnTable MonitorItems.Sample.rows none
    Sample.runtime Sample.movingRow VectorStore.Sample.isNew_columnTable (by decide +kernel)
    (by decide +kernel) (by decide +kernel) (by decide +kernel) (by decide +kernel)
  have hmodified : (Machine.run (MonitorItems.step VsIndexModify.dispatch)
      (.init VectorStore.Sample.columnTable none) MonitorItems.Sample.rows).modified = ⟨1, 1, 1⟩ := by
    decide +kernel
  dsimp only at h
  rw [hmodified] at h
  dsimp only at h
  omega

end Usearch

end VectorStore
