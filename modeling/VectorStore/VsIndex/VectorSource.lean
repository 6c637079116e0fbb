import VectorStore.Search.TableSearch
import VectorStore.VsIndex.GraphStore

/-!
# Reading vectors for the graph

The graph holds no vectors.  The provider of a partition takes those of the start point and of
unfinished inserts from memory, and asks the base table for those of live nodes: once for all of
them.  The source looks up their primary keys and the rows are read next to each other.  Each of
these layers leaves out some identifiers and puts the answers back at their positions.
-/

namespace VectorStore

/-- `with_context`: the text goes before that of the error. -/
def Failure.context (text : String) : Failure → Failure
  | error message => error s!"{text}: {message}"
  | panic message => panic message

/-! ## The point reads -/

/-- The read of a row by its primary key: the vector of the row, nothing when there is no row, or a
failure.  The reads of a batch are counted from zero. -/
abbrev PointReads := ℕ → PrimaryKey → Except String (Option Vector)

/-- The session of an index: `none` when the index is dead, `some none` when there is no session. -/
abbrev CurrentSession := Option (Option PointReads)

/-- `fetch_vectors`: a failed read is a missing vector, unless all fail. -/
def fetchVectors (session : CurrentSession) (keys : List PrimaryKey) :
    Except Failure (List (Option Vector)) :=
  match session with
  | none => .error (.error "fetch_vectors: index dead")
  | some none => .error (.error "fetch_vectors: no active session")
  | some (some read) =>
    let results : List (Except String (Option Vector)) :=
      keys.zipIdx.map fun (key, position) => read position key
    let failures := results.countP fun result => !result.isOk
    let vectors := results.map fun result => result.toOption.join
    if failures = keys.length then
      let requested := keys.length
      match results.getLast? with
      | some (.error lastErr) =>
        .error (.error s!"fetch_vectors: all {requested} point reads failed: {lastErr}")
      | _ => .error (.panic "unwrap of the last error")
    else .ok vectors

/-! ## The base table -/

/-- Puts the answers for the keys that there are at the positions of these keys. -/
def spread : List (Option PrimaryKey) → List (Option Vector) →
    Except Failure (List (Option Vector))
  | [], _ => .ok []
  | none :: keys, fetched => do return none :: (← spread keys fetched)
  | some _ :: keys, vector :: fetched => do return vector :: (← spread keys fetched)
  | some _ :: _, [] => .error (.panic "unwrap of a missing answer")

/-- `BaseTableSource::get`. -/
def BaseTableSource.get (table : Table) (session : CurrentSession) (partitionId : PartitionId)
    (ids : List PrimaryId) : Except Failure (List (Option Vector)) :=
  let keys := ids.map (table.primaryKey partitionId)
  let wanted := keys.filterMap id
  if wanted = [] then .ok (List.replicate ids.length none)
  else do
    let requested := wanted.length
    let partition := partitionId.word.toNat
    let fetched ← (fetchVectors session wanted).mapError (.context
      s!"BaseTableSource::get: failed to read {requested} vectors for partition {partition}")
    let len := fetched.length
    if len ≠ requested then
      .error (.error s!"BaseTableSource::get: expected {requested} vectors, got {len}")
    else spread keys fetched

/-! ## The provider -/

namespace Diskann.ScyllaProvider

variable (provider : ScyllaProvider) (graph : InmemGraphStore)

/-- What `load` has gathered: the vectors that are known, the positions that the source has to fill
and the identifiers to ask it for. -/
structure Scan where
  out : List (Option Vector)
  slots : List ℕ
  wanted : List PrimaryId

/-- The first loop of `load`, for one identifier. -/
def scanId (scan : Scan) : PrimaryId × ℕ → Scan
  | (id, position) =>
    if id = startId then { scan with out := scan.out ++ [some provider.start] }
    else
      match provider.inflight.lookup id with
      | some vector => { scan with out := scan.out ++ [some vector] }
      | none =>
        if provider.isLive graph id then
          ⟨scan.out ++ [none], scan.slots ++ [position], scan.wanted ++ [id]⟩
        else { scan with out := scan.out ++ [none] }

/-- The second loop of `load`, for one answer: a vector of another dimension is skipped. -/
def fill (out : List (Option Vector)) : ℕ × Option Vector → List (Option Vector)
  | (_, none) => out
  | (position, some vector) =>
    if vector.components.length ≠ provider.dim then out else out.set position (some vector)

/-- `load`, with the source of the base table. -/
def load (table : Table) (session : CurrentSession) (ids : List PrimaryId) :
    Except Failure (List (Option Vector)) :=
  let scan := ids.zipIdx.foldl (provider.scanId graph) ⟨[], [], []⟩
  if scan.wanted = [] then .ok scan.out
  else do
    let fetched ← (BaseTableSource.get table session provider.partitionId scan.wanted).mapError
      (.context "vector source failed")
    let results := fetched.length
    let wanted := scan.wanted.length
    if results ≠ wanted then
      .error (.error (s!"vector source returned {results} results for {wanted} ids; " ++
        "implementations must return one entry per id, in order"))
    else return (scan.slots.zip fetched).foldl provider.fill scan.out

end Diskann.ScyllaProvider

end VectorStore
