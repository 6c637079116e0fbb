import VectorStore.FtsIndex.Documents
import VectorStore.Pipeline.Served

/-!
# Searching documents

`handle_search` reports the matches of a query whose row is still there.  The messages of a table lead
to the documents of its store: one for every entry that is a document, under the identifier of the
entry.
-/

namespace VectorStore

/-! ## The documents of the messages -/

namespace Documents

/-- The documents are those of the store, which has one entry for an identifier at most. -/
structure Mirrors (documents : Documents) (store : Store) : Prop where
  nodup : documents.Nodup
  mem : ∀ id text, (id, text) ∈ documents ↔ ∃ p, store.lookup (p, id) = some (.document text)
  single : ∀ p q id value value', store.lookup (p, id) = some value →
    store.lookup (q, id) = some value' → p = q

variable {documents : Documents} {store start : Store} {op : Operation}

theorem mirrors_empty : Mirrors 0 ∅ where
  nodup := Multiset.nodup_zero
  mem id text := by simp
  single p q id value value' h := by
    rw [AList.lookup_empty] at h
    cases h

/-- An entry is added for an identifier without one. -/
theorem Mirrors.single_insert (h : Mirrors documents store) {p : PartitionId} {id : PrimaryId}
    (hnone : ∀ q, store.lookup (q, id) = none) (value : SplittingValues) :
    ∀ q q' jd v v', (store.insert (p, id) value).lookup (q, jd) = some v →
      (store.insert (p, id) value).lookup (q', jd) = some v' → q = q' := by
  intro q q' jd v v' hv hv'
  rw [FiniteMap.lookup_insert_eq] at hv hv'
  by_cases hjd : jd = id
  · subst hjd
    rw [hnone] at hv hv'
    split at hv
    · next hq =>
      split at hv'
      · next hq' => rw [(Prod.mk.inj hq).1, (Prod.mk.inj hq').1]
      · cases hv'
    · cases hv
  · rw [if_neg fun heq => hjd (Prod.mk.inj heq).2] at hv hv'
    exact h.single q q' jd v v' hv hv'

/-- An entry that is taken away was the only one of its identifier. -/
theorem Mirrors.erase (h : Mirrors documents store) {p : PartitionId} {id : PrimaryId}
    (hsome : (store.lookup (p, id)).isSome) :
    Mirrors (documents.apply (.removeDocument id)) (store.erase (p, id)) := by
  obtain ⟨value, hvalue⟩ := Option.isSome_iff_exists.mp hsome
  constructor
  case nodup => exact h.nodup.filter _
  case mem =>
    intro jd text
    change (jd, text) ∈ documents.filter (fun entry => entry.1 ≠ id) ↔ _
    rw [Multiset.mem_filter, h.mem]
    constructor
    · rintro ⟨⟨q, hq⟩, hne⟩
      refine ⟨q, ?_⟩
      rw [FiniteMap.lookup_erase_eq, if_neg fun heq => hne (Prod.mk.inj heq).2]
      exact hq
    · rintro ⟨q, hq⟩
      rw [FiniteMap.lookup_erase_eq] at hq
      split at hq
      · cases hq
      · next hne =>
        refine ⟨⟨q, hq⟩, fun hjd => hne ?_⟩
        obtain rfl : jd = id := hjd
        rw [h.single q p jd _ _ hq hvalue]
  case single =>
    intro q q' jd v v' hv hv'
    rw [FiniteMap.lookup_erase_eq] at hv hv'
    split at hv
    · cases hv
    · split at hv'
      · cases hv'
      · exact h.single q q' jd v v' hv hv'

/-- The message of an accepted operation keeps the documents of the store. -/
theorem Mirrors.operation (h : Mirrors documents store)
    (haccepts : Store.Accepts start store op) :
    Mirrors (documents.replay (FtsModify.ofOperation op).toList) (store.apply op) := by
  cases op with
  | addVector id p v isUpdate =>
    refine ⟨h.nodup, fun jd text => ?_, h.single_insert haccepts _⟩
    change (jd, text) ∈ documents ↔ _
    rw [h.mem]
    refine exists_congr fun q => ?_
    simp only [Store.apply, FiniteMap.lookup_insert_eq]
    split
    · next hq =>
      obtain ⟨rfl, rfl⟩ := Prod.mk.inj hq
      rw [haccepts q]
      simp
    · rfl
  | addDocument id p document isUpdate =>
    refine ⟨Multiset.nodup_cons.mpr ⟨fun hmem => ?_, h.nodup⟩, fun jd text => ?_,
      h.single_insert haccepts _⟩
    · obtain ⟨q, hq⟩ := (h.mem id document).mp hmem
      rw [haccepts q] at hq
      cases hq
    · change (jd, text) ∈ (id, document) ::ₘ documents ↔ _
      rw [Multiset.mem_cons, h.mem]
      simp only [Store.apply, FiniteMap.lookup_insert_eq]
      constructor
      · rintro (heq | ⟨q, hq⟩)
        · obtain ⟨rfl, rfl⟩ := Prod.mk.inj heq
          exact ⟨p, if_pos rfl⟩
        · refine ⟨q, ?_⟩
          rw [if_neg, hq]
          intro heq
          obtain ⟨rfl, rfl⟩ := Prod.mk.inj heq
          rw [haccepts q] at hq
          cases hq
      · rintro ⟨q, hq⟩
        split at hq
        · next heq =>
          obtain ⟨rfl, rfl⟩ := Prod.mk.inj heq
          obtain rfl := SplittingValues.document.inj (Option.some.inj hq)
          exact Or.inl rfl
        · exact Or.inr ⟨q, hq⟩
  | removeBeforeAddValue id p => exact h.erase haccepts
  | removeValue id p => exact h.erase haccepts
  | removePartition p =>
    rw [Store.apply_removePartition_of_count haccepts.2]
    exact h

/-- The messages of accepted operations keep the documents of the store. -/
theorem Mirrors.operations (h : Mirrors documents store) {operations : List Operation}
    (haccepts : Store.AcceptsAll start store operations) :
    Mirrors (documents.replay (operations.filterMap FtsModify.ofOperation))
      (store.replay operations) := by
  induction operations generalizing documents store with
  | nil => exact h
  | cons op operations ih =>
    obtain ⟨hfirst, hrest⟩ := haccepts
    have hstep := ih (h.operation hfirst) hrest
    cases hop : FtsModify.ofOperation op with
    | none =>
      rw [hop] at hstep
      rw [List.filterMap_cons_none hop]
      exact hstep
    | some message =>
      rw [hop] at hstep
      rw [List.filterMap_cons_some hop]
      exact hstep

end Documents

/-- The messages of a run keep the documents of the store. -/
theorem World.Consistent.mirrors [DecimalNormalizer] {w : World} (hw : w.Consistent)
    (calls : List Call) {documents : Documents} (h : documents.Mirrors w.store) :
    (documents.replay (w.documentMessages calls)).Mirrors (Machine.run step w calls).store := by
  induction calls generalizing w documents with
  | nil => exact h
  | cons call calls ih =>
    rw [documentMessages, Documents.replay, Machine.run_append]
    exact ih (step_consistent hw call) (h.operations (step_accepts hw call))

/-! ## Searches -/

namespace Tantivy

/-- A match with its identifier. -/
def readMatch (found : UInt32 × Except String PrimaryId) : Except String (UInt32 × PrimaryId) :=
  found.2.map fun primaryId => (found.1, primaryId)

/-- A match whose row is still there. -/
def reportMatch (table : Table) (partitionId : PartitionId) (found : UInt32 × PrimaryId) :
    Option (PrimaryKey × UInt32) :=
  (table.primaryKey partitionId found.2).map fun primaryKey => (primaryKey, found.1)

/-- `handle_search`.  The query was parsed and run, or failed; every match has a score, whose float is
a bit pattern, and the value of the column with the identifiers. -/
def handleSearch [TimeuuidOrd] (table : Table) (indexKey : IndexKey)
    (topDocs : Except String (List (UInt32 × Except String PrimaryId))) :
    Except String (List PrimaryKey × List UInt32) :=
  match topDocs with
  | .error e => .error e
  | .ok topDocs =>
    match table.partitionId indexKey none with
    | none =>
      .error s!"fts: partition id not found for index key IndexKey({indexKey.name.quote})"
    | some (partitionId, _) =>
      (topDocs.mapM readMatch).map fun found =>
        (found.filterMap (reportMatch table partitionId)).unzip

end Tantivy

end VectorStore
