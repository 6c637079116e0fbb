import VectorStore.VsIndex.Collect

/-!
# Searching a vector index

A search goes to the partition that its restrictions select.  The restrictions that remain are checked
inside the search, for each row that it looks at, on the table as it is at that moment; the matches are
turned into an answer afterwards.  The table may change in between.
-/

namespace VectorStore

/-- `vs_index::Error`, or any other error. -/
inductive AnnError where
  | wrongEmbeddingDimension (expected actual : ℕ)
  | other (message : String)
deriving DecidableEq

/-- `validator::embedding_dimensions`. -/
def embeddingDimensions (embedding : Vector) (dimensions : ℕ+) : Except AnnError Unit :=
  if embedding.components.length = 0 then .error (.wrongEmbeddingDimension dimensions 0)
  else if embedding.components.length ≠ dimensions then
    .error (.wrongEmbeddingDimension dimensions embedding.components.length)
  else .ok ()

namespace Usearch

/-- The matches that `UsearchIndex` hands out one by one. -/
abbrev Matches := List (Except String (PrimaryId × Distance))

/-- `UsearchIndex` of a partition, as far as searches use it.  A filter is a question that may be asked
any number of times: the first argument tells which time it is. -/
structure SearchIndex where
  search : Vector → ℕ+ → Except String Matches
  filteredSearch : Vector → ℕ+ → (ℕ → PrimaryId → Bool) → Except String Matches
  getVector : ℕ → PrimaryId → Except String (Option (List UInt32))

/-- The tables that a search sees: when it is routed, each time a row is checked, and when the answer
is made. -/
structure Tables where
  routed : Table
  checked : ℕ → Table
  collected : Table

/-- The answer when there is nothing to search. -/
def Answer.empty (returnColumns : List ColumnName) : Answer :=
  ⟨[], [], emptyColumnValues returnColumns⟩

/-- `Ann` and `FilteredAnn`, from `preprocess` to the answer.  `partitions` has the indexes of the
partitions that the actor has. -/
def answerAnn [TimeuuidOrd] (partitions : PartitionId → Option SearchIndex) (dimensions : ℕ+)
    (tables : Tables) (indexKey : IndexKey) (embedding : Vector) (filter : Option Filter)
    (limit : ℕ+) (returnColumns : List ColumnName) : Except AnnError Answer :=
  match tables.routed.partitionId indexKey (filter.map Filter.restrictions) with
  | none => .ok (.empty returnColumns)
  | some (partitionId, restrictions) =>
    match partitions partitionId with
    | none => .ok (.empty returnColumns)
    | some index =>
      match embeddingDimensions embedding dimensions with
      | .error e => .error e
      | .ok () =>
        -- without restrictions that remain, a filtered search is a plain one
        let found := match filter.bind fun _ => restrictions with
          | none => index.search embedding limit
          | some restrictions => index.filteredSearch embedding limit fun time primaryId =>
              restrictions.all ((tables.checked time).isValidFor partitionId primaryId)
        match found with
        | .error err => .error (.other s!"ann: search failed: {err}")
        | .ok found =>
          match collectResults index.getVector tables.collected partitionId returnColumns found with
          | .ok answer => .ok answer
          | .error (.error e) => .error (.other e)
          -- the channel of the answer is dropped with the task
          | .error (.panic _) => .error (.other "channel closed")

end Usearch

end VectorStore
