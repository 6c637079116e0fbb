import VectorStore.Search.TableSearch

/-!
# The answer to a search

The matches of a search become the answer to a query: the keys of the rows that are still there,
their distances, and the values of the columns that were asked for.  Values of the index's own column
are not in the table: they are reconstructed from the index when the lock on the table is free again.
-/

namespace VectorStore

/-- `Distance`: floats are bit patterns. -/
inductive Distance where
  | euclidean (value : UInt32)
  | cosine (value : UInt32)
  | dotProduct (value : UInt32)
  | hamming (value : UInt32) (dimensions : ℕ)
deriving DecidableEq

/-- `Table::target_column`. -/
def Table.targetColumn (table : Table) (indexId : IndexId) : Option ColumnName :=
  if indexId = table.index.indexId then some table.index.targetColumns.first else none

namespace Usearch

/-- The values of the columns that were asked for. -/
abbrev ColumnValues := AList fun _ : ColumnName => List (Option CqlValue)

/-- `AnnR`, of a search that succeeded. -/
structure Answer where
  primaryKeys : List PrimaryKey
  distances : List Distance
  columnValues : ColumnValues

/-- `empty_column_values`. -/
def emptyColumnValues (returnColumns : List ColumnName) : ColumnValues :=
  returnColumns.foldl (fun values column => values.insert column []) ∅

/-- What has been collected of the matches so far. -/
structure Collected where
  answer : Answer
  targetPrimaryIds : List PrimaryId

section Matches

variable (table : Table) (partitionId : PartitionId) (targetColumn : Option ColumnName)

/-- The body of the loop over the matches: an id without a key is skipped. -/
def collectMatch (collected : Collected) (primaryId : PrimaryId) (distance : Distance) :
    Collected :=
  match table.primaryKey partitionId primaryId with
  | none => collected
  | some primaryKey =>
    let answer := collected.answer
    { answer :=
        { primaryKeys := answer.primaryKeys ++ [primaryKey]
          distances := answer.distances ++ [distance]
          columnValues := FiniteMap.mapEntries (fun column values =>
            if some column ≠ targetColumn then
              values ++ [table.columnValueFor partitionId primaryId column]
            else values) answer.columnValues }
      targetPrimaryIds :=
        if targetColumn.isSome then collected.targetPrimaryIds ++ [primaryId]
        else collected.targetPrimaryIds }

/-- The loop over the matches, up to the first error. -/
def collectMatches (collected : Collected) :
    List (Except String (PrimaryId × Distance)) → Except String Collected
  | [] => .ok collected
  | .error e :: _ => .error e
  | .ok (primaryId, distance) :: rest =>
    collectMatches (collectMatch table partitionId targetColumn collected primaryId distance) rest

end Matches

section Target

-- What the calls of `UsearchIndex::get_vector` return, by their number.
variable (getVector : ℕ → PrimaryId → Except String (Option (List UInt32)))

/-- `reconstruct_target_vector`, by the call of a number. -/
def reconstructTargetVector (call : ℕ) (primaryId : PrimaryId) :
    Except String (Option CqlValue) :=
  match getVector call primaryId with
  | .error err =>
    let id := primaryId.word.toNat
    .error s!"ann: unable to reconstruct the vector for PrimaryId({id}): {err}"
  | .ok vector => .ok (vector.map fun vector => .vector (vector.map .float))

/-- The loop over the ids whose vector was asked for, up to the first error. -/
def reconstructAll (call : ℕ) :
    List PrimaryId → Except String (List (Option CqlValue))
  | [] => .ok []
  | primaryId :: rest =>
    match reconstructTargetVector getVector call primaryId with
    | .error e => .error e
    | .ok value => (reconstructAll (call + 1) rest).map (value :: ·)

/-- `collect_results`. -/
def collectResults (table : Table) (partitionId : PartitionId) (returnColumns : List ColumnName)
    (found : List (Except String (PrimaryId × Distance))) : Except Failure Answer :=
  let targetColumn :=
    if !returnColumns.isEmpty then
      (table.targetColumn partitionId.indexId).filter fun column => returnColumns.contains column
    else none
  match collectMatches table partitionId targetColumn ⟨⟨[], [], emptyColumnValues returnColumns⟩, []⟩
      found with
  | .error e => .error (.error e)
  | .ok collected =>
    match targetColumn with
    | none => .ok collected.answer
    | some targetColumn =>
      let answer := collected.answer
      match answer.columnValues.lookup targetColumn with
      | none => .error (.panic "target_column is one of the return_columns")
      | some values =>
        match reconstructAll getVector 0 collected.targetPrimaryIds with
        | .error e => .error (.error e)
        | .ok vectors =>
          .ok { answer with
            columnValues := answer.columnValues.insert targetColumn (values ++ vectors) }

end Target

end Usearch

end VectorStore
