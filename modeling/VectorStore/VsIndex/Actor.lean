import VectorStore.Results.Refinement

/-!
# Messages of a vector index

`process_operations` turns the operations that a table emits into messages to the actor of the
index.  Applied in the order in which they were sent, the messages lead to the vectors the index
should hold.  A table only adds vectors that are not there, and only drops partitions without any.
-/

namespace VectorStore

/-- The messages that modify a vector index. -/
inductive VsIndexModify where
  | addVector (partitionId : PartitionId) (primaryId : PrimaryId) (embedding : Vector)
  | removeVector (partitionId : PartitionId) (primaryId : PrimaryId)
  | removePartition (partitionId : PartitionId)
deriving DecidableEq

namespace VsIndexModify

/-- The message for an operation.  A vector index ignores documents. -/
def ofOperation : Operation → Option VsIndexModify
  | .addVector primaryId partitionId vector _ => some (.addVector partitionId primaryId vector)
  | .addDocument _ _ _ _ => none
  | .removeBeforeAddValue primaryId partitionId | .removeValue primaryId partitionId =>
    some (.removeVector partitionId primaryId)
  | .removePartition partitionId => some (.removePartition partitionId)

end VsIndexModify

/-- `process_operations` for a vector index. -/
def processOperations (operations : List Operation) : List VsIndexModify :=
  operations.filterMap VsIndexModify.ofOperation

/-- The vectors an index should hold, by partition and row identifier. -/
abbrev Vectors := AList fun _ : PartitionId × PrimaryId => Vector

namespace Vectors

/-- The vectors after a message. -/
def apply (vectors : Vectors) : VsIndexModify → Vectors
  | .addVector partitionId primaryId embedding =>
    vectors.insert (partitionId, primaryId) embedding
  | .removeVector partitionId primaryId => vectors.erase (partitionId, primaryId)
  | .removePartition partitionId =>
    FiniteMap.filterKeys (fun entry => entry.1 ≠ partitionId) vectors

/-- The vectors after a list of messages, in order. -/
abbrev replay (vectors : Vectors) (messages : List VsIndexModify) : Vectors :=
  Machine.run apply vectors messages

/-- A message adds a vector that is not there, or drops a partition without vectors. -/
def Admits (vectors : Vectors) : VsIndexModify → Prop
  | .addVector partitionId primaryId _ => vectors.lookup (partitionId, primaryId) = none
  | .removeVector _ _ => True
  | .removePartition partitionId => ∀ primaryId, vectors.lookup (partitionId, primaryId) = none

instance (vectors : Vectors) (message : VsIndexModify) : Decidable (vectors.Admits message) :=
  match message with
  | .addVector _ _ _ => inferInstanceAs (Decidable (_ = _))
  | .removeVector _ _ => inferInstanceAs (Decidable True)
  | .removePartition partitionId =>
    decidable_of_iff (∀ key ∈ vectors.keys, key.1 ≠ partitionId) (by
      constructor
      · intro h primaryId
        cases hv : vectors.lookup (partitionId, primaryId) with
        | none => rfl
        | some v => exact absurd rfl (h _ (FiniteMap.mem_keys_iff.mpr ⟨v, hv⟩))
      · rintro h ⟨p, primaryId⟩ hkey rfl
        obtain ⟨v, hv⟩ := FiniteMap.mem_keys_iff.mp hkey
        rw [h primaryId] at hv
        cases hv)

/-- The number of vectors of an index. -/
def count (vectors : Vectors) (indexId : IndexId) : ℕ :=
  FiniteMap.countKeys (fun entry => entry.1.indexId = indexId) vectors

variable {vectors vs : Vectors} {store : Store} {message : VsIndexModify}

/-- Dropping a partition without vectors changes nothing. -/
theorem apply_removePartition {p : PartitionId} (h : vectors.Admits (.removePartition p)) :
    vectors.apply (.removePartition p) = vectors := by
  unfold apply
  refine FiniteMap.filterKeys_eq_self ?_
  rintro ⟨q, id⟩ hmem
  obtain ⟨v, hv⟩ := FiniteMap.mem_keys_iff.mp hmem
  refine decide_eq_true ?_
  rintro rfl
  rw [h id] at hv
  cases hv

/-! ## Fewer vectors -/

/-- Every vector of the one is a vector of the other. -/
def Below (vectors vs : Vectors) : Prop :=
  ∀ key v, vectors.lookup key = some v → vs.lookup key = some v

theorem Below.refl (vectors : Vectors) : Below vectors vectors := fun _ _ h => h

/-- Where the greater map has nothing, the smaller one has nothing. -/
theorem Below.eq_none (h : Below vectors vs) {key : PartitionId × PrimaryId}
    (hnone : vs.lookup key = none) : vectors.lookup key = none := by
  cases hv : vectors.lookup key with
  | none => rfl
  | some v =>
    rw [h key v hv] at hnone
    cases hnone

/-- What the greater map admits, the smaller one admits. -/
theorem Below.admits (h : Below vectors vs) (hadmits : vs.Admits message) :
    vectors.Admits message := by
  cases message with
  | addVector p id v => exact h.eq_none hadmits
  | removeVector p id => trivial
  | removePartition p => exact fun id => h.eq_none (hadmits id)

/-- A message keeps the order of two maps. -/
theorem Below.apply (h : Below vectors vs) (hadmits : vs.Admits message) :
    Below (vectors.apply message) (vs.apply message) := by
  cases message with
  | addVector p id v =>
    intro key w
    simp only [Vectors.apply, FiniteMap.lookup_insert_eq]
    split
    · exact fun hw => hw
    · exact h key w
  | removeVector p id =>
    intro key w
    simp only [Vectors.apply, FiniteMap.lookup_erase_eq]
    split
    · exact fun hw => hw
    · exact h key w
  | removePartition p =>
    rw [apply_removePartition hadmits, apply_removePartition (h.admits hadmits)]
    exact h

/-- A vector that is only added to the greater map keeps the order. -/
theorem Below.addVector (h : Below vectors vs) {p : PartitionId} {id : PrimaryId} {v : Vector}
    (hadmits : vs.Admits (.addVector p id v)) :
    Below vectors (vs.apply (.addVector p id v)) := by
  intro key w hw
  simp only [Vectors.apply, FiniteMap.lookup_insert_eq]
  rw [if_neg, h key w hw]
  rintro rfl
  rw [h.eq_none hadmits] at hw
  cases hw

/-! ## The messages of a table -/

/-- Every vector is an entry of the store. -/
def InStore (vectors : Vectors) (store : Store) : Prop :=
  ∀ key v, vectors.lookup key = some v → store.lookup key = some (.vector v)

theorem inStore_empty : InStore ∅ ∅ := fun _ _ h => by
  rw [AList.lookup_empty] at h
  cases h

theorem InStore.eq_none (h : InStore vectors store) {key : PartitionId × PrimaryId}
    (hnone : store.lookup key = none) : vectors.lookup key = none := by
  cases hv : vectors.lookup key with
  | none => rfl
  | some v =>
    rw [h key v hv] at hnone
    cases hnone

/-- The message of an accepted operation is admitted, and the vectors stay in the store. -/
theorem InStore.operation (h : InStore vectors store) {start : Store} {operation : Operation}
    (haccepts : Store.Accepts start store operation) :
    Machine.Along Vectors.apply Admits vectors (VsIndexModify.ofOperation operation).toList ∧
      InStore (replay vectors (VsIndexModify.ofOperation operation).toList)
        (store.apply operation) := by
  have hvector : ∀ p id v, (store.lookup (p, id) = none) →
      InStore (AList.insert (p, id) v vectors) (store.insert (p, id) (.vector v)) := by
    intro p id v hnone key w
    rw [FiniteMap.lookup_insert_eq, FiniteMap.lookup_insert_eq]
    split
    · exact fun hw => congrArg _ (congrArg _ (Option.some.inj hw))
    · exact h key w
  have herase : ∀ p id, InStore (vectors.erase (p, id)) (store.erase (p, id)) := by
    intro p id key w
    rw [FiniteMap.lookup_erase_eq, FiniteMap.lookup_erase_eq]
    split
    · exact fun hw => by cases hw
    · exact h key w
  cases operation with
  | addVector id p v isUpdate =>
    exact ⟨⟨h.eq_none (haccepts p), trivial⟩, hvector p id v (haccepts p)⟩
  | addDocument id p document isUpdate =>
    refine ⟨trivial, fun key w hw => ?_⟩
    have hw : vectors.lookup key = some w := hw
    have hne : key ≠ (p, id) := by
      rintro rfl
      rw [h.eq_none (haccepts p)] at hw
      cases hw
    simp only [Store.apply, FiniteMap.lookup_insert_eq, if_neg hne]
    exact h key w hw
  | removeBeforeAddValue id p => exact ⟨⟨trivial, trivial⟩, herase p id⟩
  | removeValue id p => exact ⟨⟨trivial, trivial⟩, herase p id⟩
  | removePartition p =>
    have hadmits : vectors.Admits (.removePartition p) := fun id =>
      h.eq_none (Store.count_eq_zero_iff.mp haccepts.2 id)
    refine ⟨⟨hadmits, trivial⟩, ?_⟩
    rw [Store.apply_removePartition_of_count haccepts.2]
    change InStore (vectors.apply (.removePartition p)) store
    rw [apply_removePartition hadmits]
    exact h

theorem processOperations_cons (operation : Operation) (operations : List Operation) :
    processOperations (operation :: operations) =
      (VsIndexModify.ofOperation operation).toList ++ processOperations operations := by
  unfold processOperations
  cases h : VsIndexModify.ofOperation operation with
  | none => rw [List.filterMap_cons_none h, Option.toList_none, List.nil_append]
  | some message => rw [List.filterMap_cons_some h, Option.toList_some, List.singleton_append]

/-- The messages of accepted operations are admitted. -/
theorem InStore.operations (h : InStore vectors store) {start : Store}
    {operations : List Operation} (haccepts : Store.AcceptsAll start store operations) :
    Machine.Along Vectors.apply Admits vectors (processOperations operations) ∧
      InStore (vectors.replay (processOperations operations)) (store.replay operations) := by
  induction operations generalizing vectors store with
  | nil => exact ⟨trivial, h⟩
  | cons operation operations ih =>
    obtain ⟨hfirst, hrest⟩ := haccepts
    obtain ⟨hadmits, hstore⟩ := h.operation hfirst
    obtain ⟨hadmits', hstore'⟩ := ih hstore hrest
    rw [processOperations_cons, Machine.along_append]
    refine ⟨⟨hadmits, hadmits'⟩, ?_⟩
    rwa [replay, Machine.run_append]

end Vectors

namespace World

variable [DecimalNormalizer] {w : World}

/-- The messages that the calls of a run lead to. -/
def messages (w : World) : List Call → List VsIndexModify
  | [] => []
  | call :: calls => processOperations (w.emitted call) ++ (w.step call).messages calls

/-- The messages of a run are admitted, and the vectors stay in the store of the table. -/
theorem Consistent.messages (hw : w.Consistent) (calls : List Call) {vectors : Vectors}
    (h : vectors.InStore w.store) :
    Machine.Along Vectors.apply Vectors.Admits vectors (w.messages calls) ∧
      (vectors.replay (w.messages calls)).InStore (Machine.run step w calls).store := by
  induction calls generalizing w vectors with
  | nil => exact ⟨trivial, h⟩
  | cons call calls ih =>
    obtain ⟨hadmits, hstore⟩ := h.operations (step_accepts hw call)
    obtain ⟨hadmits', hstore'⟩ := ih (step_consistent hw call) hstore
    refine ⟨Machine.along_append.mpr ⟨hadmits, hadmits'⟩, ?_⟩
    rwa [World.messages, Vectors.replay, Machine.run_append]

omit [DecimalNormalizer] in
/-- A store has one entry for a row at most, hence no more than there are identifiers of rows. -/
theorem Consistent.length_keys_le (hw : w.Consistent) {vectors : Vectors}
    (h : vectors.InStore w.store) : vectors.keys.length ≤ 2 ^ 48 := by
  have hinj : ∀ key ∈ vectors.keys, ∀ key' ∈ vectors.keys,
      Idx.idx key.2 = Idx.idx key'.2 → key = key' := by
    rintro ⟨p, id⟩ hkey ⟨q, jd⟩ hkey' hidx
    obtain ⟨v, hv⟩ := FiniteMap.mem_keys_iff.mp hkey
    obtain ⟨v', hv'⟩ := FiniteMap.mem_keys_iff.mp hkey'
    obtain ⟨rfl, rfl⟩ := hw.agrees.unique p q id jd _ _ (h _ _ hv) (h _ _ hv') hidx
    rfl
  have hnodup : (vectors.keys.map fun key => Idx.idx key.2).Nodup :=
    (List.nodup_map_iff_inj_on vectors.keys_nodup).mpr hinj
  have hsub : (vectors.keys.map fun key => Idx.idx key.2).toFinset ⊆ Finset.range (2 ^ 48) := by
    intro i hi
    obtain ⟨key, -, rfl⟩ := List.mem_map.mp (List.mem_toFinset.mp hi)
    exact Finset.mem_range.mpr (TaggedWord.idx_lt _)
  have hcard := Finset.card_le_card hsub
  rwa [List.toFinset_card_of_nodup hnodup, List.length_map, Finset.card_range] at hcard

end World

end VectorStore
