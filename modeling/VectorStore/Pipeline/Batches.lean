import VectorStore.Rows.World

/-!
# The operations of a call

A call emits nothing, or adds the value of a row, replaces it, or takes it away.  An entry that is
removed to make room for another one is followed by the addition that replaces it, in the same call,
so that additions and removals account for the number of entries.
-/

namespace VectorStore

open UpdateWork in
/-- What a call emits. -/
inductive Operation.Batch : List Operation → Prop
  | nothing : Batch []
  | insert (id : PrimaryId) (p : PartitionId) (value : SplittingValues) :
    Batch [addOperation id p false value]
  | update (id : PrimaryId) (p : PartitionId) (isEmpty : Bool) (id' : PrimaryId) (q : PartitionId)
      (value : SplittingValues) :
    Batch (.removeBeforeAddValue id p ::
      (removeIfEmpty p isEmpty ++ [addOperation id' q true value]))
  | remove (id : PrimaryId) (p : PartitionId) (isEmpty : Bool) :
    Batch (.removeValue id p :: removeIfEmpty p isEmpty)

namespace UpdateWork

/-- A work that adds a value has one to add. -/
theorem isSome_of_new {pp : ProcessingPartition} {comparison : CompareTimestamps}
    {data data' : IndexData} {values : Option SplittingValues}
    {timestamps : NonemptyBox (Timestamped Unit)} {planned : Planned}
    (hvalues : comparison.isNewTombstone = false → values.isSome)
    (h : UpdateWork.new pp comparison data values timestamps = (.ok (some planned), data'))
    (hadds : planned.work.isAddingValue = true) : planned.values.isSome := by
  have hok : ∀ {work : UpdateWork} {data : IndexData},
      (Except.ok (some ⟨work, values, timestamps⟩), data) =
        ((.ok (some planned), data') : Except Failure (Option Planned) × IndexData) →
      some (Planned.mk work values timestamps) = some planned :=
    fun h => Except.ok.inj (Prod.mk.inj h).1
  -- a work that is planned adds nothing, or its timestamp is valid
  have hnone : ∀ {work : UpdateWork} {data : IndexData},
      (Except.ok (some ⟨work, values, timestamps⟩), data) =
        ((.ok (some planned), data') : Except Failure (Option Planned) × IndexData) →
      work.isAddingValue = false → planned.values.isSome := by
    intro work data h hwork
    obtain rfl := Option.some.inj (hok h)
    exact absurd hadds (hwork ▸ Bool.false_ne_true)
  have hvalid : ∀ {work : UpdateWork} {data : IndexData},
      (Except.ok (some ⟨work, values, timestamps⟩), data) =
        ((.ok (some planned), data') : Except Failure (Option Planned) × IndexData) →
      ¬comparison.isNewTombstone = true → planned.values.isSome := by
    intro work data h hnew
    obtain rfl := Option.some.inj (hok h)
    exact hvalues (Bool.not_eq_true _ ▸ hnew)
  unfold UpdateWork.new at h
  cases pp with
  | existing p =>
    dsimp only at h
    split at h
    · split at h
      · exact hnone h rfl
      · next hnew => exact hvalid h hnew
    · split at h
      · exact hnone h rfl
      · next hnew => exact hvalid h hnew
  | new key =>
    dsimp only at h
    split at h
    · exact hnone h rfl
    · next hnew =>
      cases hcreate : data.createPartition key with
      | mk result data =>
        rw [hcreate] at h
        cases result with
        | error e => cases (Prod.mk.inj h).1
        | ok p => exact hvalid h hnew
  | addToExisting p =>
    dsimp only at h
    split at h
    · exact hnone h rfl
    · next hnew => exact hvalid h hnew
  | moveToNew p key =>
    dsimp only at h
    split at h
    · split at h
      · exact hnone h rfl
      · exact hnone h rfl
    · next hnew =>
      cases hcreate : data.createPartition key with
      | mk result data =>
        rw [hcreate] at h
        cases result with
        | error e => cases (Prod.mk.inj h).1
        | ok q =>
          dsimp only at h
          split at h
          · exact hvalid h hnew
          · exact hvalid h hnew
  | moveToExisting p q =>
    dsimp only at h
    split at h
    · split at h
      · exact hnone h rfl
      · next hnew => exact hvalid h hnew
    · split at h
      · exact hnone h rfl
      · next hnew => exact hvalid h hnew
  | missingKey p =>
    obtain rfl := Option.some.inj (Except.ok.inj (Prod.mk.inj h).1)
    dsimp only at hadds
    split at hadds <;> cases hadds
  | missing => cases (Prod.mk.inj h).1

/-- What a work emits. -/
theorem batch_perform {work : UpdateWork} (data : IndexData) (cur new : PrimaryId)
    {values : Option SplittingValues} (hvalues : work.isAddingValue = true → values.isSome) :
    Operation.Batch (work.perform data cur new values).1 := by
  cases work with
  | none =>
    have hnil : (perform .none data cur new values).1 = [] := by
      unfold perform removeBeforeAdd addValue removeEntry
      cases values <;> rfl
    rw [hnil]
    exact .nothing
  | moveInsidePartition p =>
    obtain ⟨value, rfl⟩ := Option.isSome_iff_exists.mp (hvalues rfl)
    exact .update cur p false new p value
  | moveBetweenPartitions p q =>
    obtain ⟨value, rfl⟩ := Option.isSome_iff_exists.mp (hvalues rfl)
    have hops : (perform (.moveBetweenPartitions p q) data cur new (some value)).1 =
        .removeBeforeAddValue cur p :: (removeIfEmpty p (data.removeRowFromPartition cur p).1 ++
          [addOperation new q true value]) := by
      simp [perform, removeBeforeAdd, addValue, addTarget, removeEntry]
    rw [hops]
    exact .update cur p _ new q value
  | addToPartition p =>
    obtain ⟨value, rfl⟩ := Option.isSome_iff_exists.mp (hvalues rfl)
    exact .insert new p value
  | removeFromPartition p =>
    have hops : (perform (.removeFromPartition p) data cur new values).1 =
        .removeValue cur p :: removeIfEmpty p (data.removeRowFromPartition cur p).1 := by
      unfold perform removeBeforeAdd addValue removeEntry
      cases values <;> rfl
    rw [hops]
    exact .remove cur p _

end UpdateWork

/-- What `update_index` emits. -/
theorem updateIndex_batch (id : PrimaryId) (pp : ProcessingPartition) (index : Index)
    (values : Option SplittingValues) (timestamps : NonemptyBox (Timestamped Unit)) :
    Operation.Batch (emittedBy (updateIndex id pp index values timestamps).1) := by
  unfold updateIndex
  split
  · exact .nothing
  · next chunk _ =>
    dsimp only
    split
    · exact .nothing
    · next comparison _ =>
      split
      · exact .nothing
      · split
        · exact .nothing
        · exact .nothing
        · next planned data hnew =>
          split
          · exact .nothing
          · refine UpdateWork.batch_perform _ _ _ (UpdateWork.isSome_of_new (fun hvalid => ?_) hnew)
            -- a value that is missing has made a tombstone of the timestamp
            cases values with
            | none =>
              split at hvalid
              · cases hvalid
              · next hmissing => simp [hvalid] at hmissing
            | some value => rfl

namespace Table

/-- What the last steps of a call emit. -/
theorem processRow_batch (table : Table) (id : PrimaryId) (values : Option SplittingValues)
    (timestamps : NonemptyBox (Timestamped Unit)) :
    Operation.Batch (emittedBy (table.processRow id values timestamps).1) := by
  unfold processRow
  split
  · exact .nothing
  · exact updateIndex_batch ..

variable [DecimalNormalizer]

/-- What a call emits. -/
theorem call_batch (table : Table) (call : Call) :
    Operation.Batch (emittedBy (table.call call).1) := by
  cases call with
  | delete indexKey raw timestamp =>
    change Operation.Batch (emittedBy (table.delete indexKey raw timestamp).1)
    unfold delete
    split
    · exact .nothing
    · split
      · exact .nothing
      · split
        · exact .nothing
        · exact processRow_batch ..
  | upsert indexKey raw values =>
    change Operation.Batch (emittedBy (table.upsert indexKey raw values).1)
    unfold upsert
    split
    · exact .nothing
    · split
      · exact .nothing
      · split
        · exact .nothing
        · split
          · exact .nothing
          · split
            · exact .nothing
            · split
              · exact .nothing
              · exact processRow_batch ..

end Table

end VectorStore
