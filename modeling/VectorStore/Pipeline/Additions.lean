import VectorStore.Pipeline.Batches
import VectorStore.Pipeline.Partitions
import VectorStore.VsIndex.Generations

/-!
# The additions of a run

Every addition that an index receives comes from a call, as the last of its messages.  The row that the
call was for is in the partition then, and it stays there as long as its epoch is not bumped.  So the
epoch of an identifier says at any time whether the row still has the vector that was added, and in
which partition it was put.
-/

namespace VectorStore

/-- Only the last operation of a call adds a value. -/
theorem Operation.Batch.added_of_mem_dropLast {operations : List Operation}
    (h : Operation.Batch operations) {operation : Operation}
    (hmem : operation ∈ operations.dropLast) : operation.added = none := by
  cases h with
  | nothing => cases hmem
  | insert id p value => cases hmem
  | update id p isEmpty id' q value =>
    rw [← List.cons_append, List.dropLast_concat] at hmem
    rcases List.mem_cons.mp hmem with rfl | hmem
    · rfl
    · cases isEmpty with
      | true => rw [List.mem_singleton.mp hmem]; rfl
      | false => cases hmem
  | remove id p isEmpty =>
    cases isEmpty with
    | true => rw [List.mem_singleton.mp hmem]; rfl
    | false => cases hmem

theorem VsIndexModify.added_of_ofOperation {operation : Operation} {p : PartitionId} {id : PrimaryId}
    {v : Vector} (h : ofOperation operation = some (.addVector p id v)) :
    operation.added = some (id, p, .vector v) := by
  cases operation <;> cases h
  rfl

/-- The messages of a call up to an addition are all of them. -/
theorem processOperations_of_batch {operations : List Operation} (h : Operation.Batch operations)
    {before after : List VsIndexModify} {p : PartitionId} {id : PrimaryId} {v : Vector}
    (hmessages : processOperations operations = before ++ .addVector p id v :: after) :
    after = [] ∧ ∃ operation ∈ operations, operation.added = some (id, p, .vector v) := by
  obtain ⟨front, back, rfl, -, hback⟩ := List.filterMap_eq_append_iff.mp hmessages
  obtain ⟨skipped, operation, rest, rfl, -, hoperation, hrest⟩ := List.filterMap_eq_cons_iff.mp hback
  have hadded := VsIndexModify.added_of_ofOperation hoperation
  refine ⟨?_, operation, by simp, hadded⟩
  by_cases hnil : rest = []
  · rw [← hrest, hnil]
    rfl
  · have hmem : operation ∈ (front ++ (skipped ++ operation :: rest)).dropLast := by
      rw [List.dropLast_append_of_ne_nil (by simp), List.dropLast_append_of_ne_nil (by simp),
        List.dropLast_cons_of_ne_nil hnil]
      simp
    rw [h.added_of_mem_dropLast hmem] at hadded
    cases hadded

theorem removePartition_mem_processOperations {p : PartitionId} {operations : List Operation} :
    .removePartition p ∈ processOperations operations ↔ .removePartition p ∈ operations := by
  rw [processOperations, List.mem_filterMap]
  constructor
  · rintro ⟨operation, hmem, hoperation⟩
    cases operation <;> cases hoperation
    exact hmem
  · exact fun hmem => ⟨_, hmem, rfl⟩

namespace World

variable [DecimalNormalizer] {w : World} {calls : List Call} {pkey : PartitionKey} {p : PartitionId}
  {id : PrimaryId} {v : Vector}

theorem messages_append (w : World) (calls calls' : List Call) :
    w.messages (calls ++ calls') =
      w.messages calls ++ (Machine.run step w calls).messages calls' := by
  induction calls generalizing w with
  | nil => rfl
  | cons call calls ih =>
    rw [List.cons_append, messages, messages, ih, List.append_assoc, Machine.run_cons]

theorem bumps_append (w : World) (i : ℕ) (calls calls' : List Call) :
    w.bumps i (calls ++ calls') = w.bumps i calls + (Machine.run step w calls).bumps i calls' := by
  induction calls generalizing w with
  | nil => exact (Nat.zero_add _).symm
  | cons call calls ih => rw [List.cons_append, bumps, bumps, ih, Nat.add_assoc, Machine.run_cons]

/-- A call bumps the epoch of a row once at most. -/
theorem bumps_le_length (w : World) (i : ℕ) (calls : List Call) : w.bumps i calls ≤ calls.length := by
  induction calls generalizing w with
  | nil => exact le_refl 0
  | cons call calls ih =>
    rw [bumps, List.length_cons, Nat.add_comm]
    have hone : (if (w.step call).epoch i = w.epoch i then 0 else 1) ≤ 1 := by split <;> omega
    exact Nat.add_le_add (ih _) hone

/-- A partition is not ended by the messages when no call announces its end. -/
theorem ends_messages_eq_zero_iff : ends p (w.messages calls) = 0 ↔
    Machine.Along step (fun w call => .removePartition p ∉ w.emitted call) w calls := by
  induction calls generalizing w with
  | nil => exact iff_of_true rfl trivial
  | cons call calls ih =>
    rw [messages, ends_append, Nat.add_eq_zero_iff, ih, ends_eq_zero_iff,
      removePartition_mem_processOperations, Machine.along_cons]

/-- The vector is added by a call, in a run. -/
structure AddedBy (w : World) (call : Call) (p : PartitionId) (id : PrimaryId) (v : Vector) : Prop where
  emitted : ∃ operation ∈ w.emitted call, operation.added = some (id, p, .vector v)

/-- An addition is the last message of a call. -/
theorem exists_call_of_messages {before after : List VsIndexModify}
    (hmessages : w.messages calls = before ++ .addVector p id v :: after) :
    ∃ calls' call calls'', calls = calls' ++ call :: calls'' ∧
      (Machine.run step w calls').AddedBy call p id v ∧
      w.messages (calls' ++ [call]) = before ++ [.addVector p id v] := by
  induction calls generalizing w before with
  | nil =>
    have hlength := congrArg List.length hmessages
    simp [messages] at hlength
  | cons call calls ih =>
    -- the addition is in the messages of the first call, or of those after it
    have hlater : ∀ rest, before = processOperations (w.emitted call) ++ rest →
        (w.step call).messages calls = rest ++ .addVector p id v :: after →
        ∃ calls' call' calls'', call :: calls = calls' ++ call' :: calls'' ∧
          (Machine.run step w calls').AddedBy call' p id v ∧
          w.messages (calls' ++ [call']) = before ++ [.addVector p id v] := by
      intro rest hbefore hrest
      obtain ⟨calls', call', calls'', rfl, hadded, hmessages'⟩ := ih hrest
      refine ⟨call :: calls', call', calls'', rfl, hadded, ?_⟩
      rw [List.cons_append, messages, hmessages', hbefore, List.append_assoc]
    rw [messages] at hmessages
    rcases List.append_eq_append_iff.mp hmessages with ⟨rest, hbefore, hrest⟩ | ⟨front, hfront, hback⟩
    · exact hlater rest hbefore hrest
    · rcases List.cons_eq_append_iff.mp hback with ⟨rfl, hrest⟩ | ⟨front', rfl, -⟩
      · exact hlater [] (by rw [hfront, List.append_nil, List.append_nil]) hrest
      · obtain ⟨rfl, hadded⟩ := processOperations_of_batch (w.table.call_batch call) hfront
        refine ⟨[], call, calls, rfl, ⟨hadded⟩, ?_⟩
        rw [List.nil_append, messages, messages, List.append_nil]
        exact hfront

/-- The row of a vector that was added has it, in the partition. -/
theorem AddedBy.exists_places (h : w.Consistent) {call : Call} (hadded : w.AddedBy call p id v) :
    ∃ pkey, (w.step call).Places id pkey p (.vector v) := by
  obtain ⟨operation, hmem, hvalue⟩ := hadded.emitted
  obtain ⟨key, hkey⟩ := w.exists_key call
  obtain ⟨-, -, -, -, before, hbefore⟩ :=
    (step_idStep h hkey).added operation hmem id p (.vector v) hvalue
  refine (step_consistent h call).lookup_iff.mp ?_
  have hlast : w.emitted call = before ++ [operation] := hbefore
  change (w.store.replay (w.emitted call)).lookup (p, id) = some (.vector v)
  rw [hlast, Store.replay, Machine.run_append]
  change ((Machine.run Store.apply w.store before).apply operation).lookup (p, id) = _
  rw [Store.apply_of_added _ hvalue]
  exact AList.lookup_insert _

/-- A call that adds a vector bumps the epoch of its row. -/
theorem AddedBy.epoch_ne (h : w.Consistent) {call : Call} (hadded : w.AddedBy call p id v) :
    (w.step call).epoch (Idx.idx id) ≠ w.epoch (Idx.idx id) := by
  obtain ⟨operation, hmem, hvalue⟩ := hadded.emitted
  obtain ⟨key, hkey⟩ := w.exists_key call
  rcases (step_announces h hkey).bumped with hquiet | ⟨own, hown, hbumped⟩
  · have hemitted : w.emitted call = [] := hquiet
    rw [hemitted] at hmem
    cases hmem
  · obtain ⟨own', hown', hidx, -⟩ :=
      (step_idStep h hkey).added operation hmem id p (.vector v) hvalue
    obtain rfl : own = own' := Option.some.inj (hown.symm.trans hown')
    have hnext : (w.step call).epoch (Idx.idx id) = (w.epoch (Idx.idx id)).next := by
      rw [hidx]
      exact (congrFun hbumped _).trans (Function.update_self ..)
    rw [hnext]
    exact Epoch.next_ne _

/-- An identifier is the current one of its row when the epoch of the row is not bumped.  The epoch
wraps around. -/
theorem bumps_eq_zero_of_epoch (h : w.Consistent) {calls : List Call} {i : ℕ}
    (hle : w.bumps i calls ≤ 65535) (hepoch : (Machine.run step w calls).epoch i = w.epoch i) :
    w.bumps i calls = 0 := by
  by_contra hne
  rw [run_epoch h] at hepoch
  exact Epoch.iterate_next_ne (Nat.pos_of_ne_zero hne) hle _ hepoch

end World

end VectorStore
