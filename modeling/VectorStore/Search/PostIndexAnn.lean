import VectorStore.Search.BestIndex
import VectorStore.VsIndex.Ann

/-!
# The route of a search

`post_index_ann` routes a request to the best index, converts its filter, asks the index and turns the
answer into columns of JSON values: one list for every column of the primary key, the distances with
their similarity scores, and one list for every column that was asked for.
-/

namespace VectorStore

/-- How a request came in. -/
inductive Protocol where
  | tls
  | plain
deriving DecidableEq

inductive StatusCode where
  | ok
  | badRequest
  | forbidden
  | notFound
  | internalServerError
  | serviceUnavailable
deriving DecidableEq

/-- `httpapi::PostIndexAnnRequest`. -/
structure PostIndexAnnRequest (Json : Type) where
  vector : Vector
  filter : Option (PostIndexAnnFilter Json)
  limit : ℕ+
  routing : Bool
  returnColumns : List ColumnName

/-- `httpapi::PostIndexAnnResponse`: floats are bit patterns. -/
structure PostIndexAnnResponse (Json : Type) where
  primaryKeys : AList fun _ : ColumnName => List Json
  distances : List UInt32
  similarityScores : List UInt32
  columnValues : AList fun _ : ColumnName => List (Option Json)

/-- `httpapi::IndexNotReadyReason`. -/
inductive IndexNotReadyReason where
  | indexBuilding (message : String)
  | nodeBootstrapping
deriving DecidableEq

/-- A response: a text, a reason why the index is not ready, or what was found. -/
inductive Response (Json : Type) where
  | text (status : StatusCode) (msg : String)
  | notReady (reason : IndexNotReadyReason)
  | found (response : PostIndexAnnResponse Json)

def Response.status {Json : Type} : Response Json → StatusCode
  | text status _ => status
  | notReady _ => .serviceUnavailable
  | found _ => .ok

/-- The distance as a float. -/
def Distance.value : Distance → UInt32
  | euclidean value | cosine value | dotProduct value | hamming value _ => value

/-- `AnnError`, as it is displayed. -/
def AnnError.display : AnnError → String
  | wrongEmbeddingDimension expected actual =>
    s!"Wrong embedding dimension: expected {expected}, got {actual}"
  | other message => message

/-- What the routes work with.  JSON, the floats of a similarity score and of a percentage, and the
answers of the actors are parameters. -/
structure AnnService (Json : Type) where
  indexes : RoutedIndexes
  useTls : Bool
  nodeStatus : NodeStatus
  fromJson : Json → NativeType → Except String CqlValue
  toJson : CqlValue → Except String Json
  similarity : Distance → UInt32
  percentage : ℕ → String
  /-- `ann` and `filtered_ann` of an index. -/
  ask : ℕ → IndexKey → Vector → Option Filter → ℕ+ → List ColumnName →
    Except AnnError Usearch.Answer

namespace AnnService

variable {Json : Type} (service : AnnService Json)

/-- The value of a column of the primary key.  A panic stands for a failed `expect`. -/
def primaryKeyValue (columns : List ColumnName) (idx : ℕ) (primaryKey : PrimaryKey) :
    Except Failure Json :=
  if primaryKey.len ≠ columns.length then
    .error (.error s!"wrong size of a primary key: {columns.length}, {primaryKey.len}")
  else
    match primaryKey.get idx with
    | none => .error (.panic "primary key index out of bounds after length check")
    | some value => (service.toJson value).mapError .error

/-- `try_collect_primary_keys`. -/
def tryCollectPrimaryKeys (columns : List ColumnName) (primaryKeys : List PrimaryKey) :
    Except Failure (AList fun _ : ColumnName => List Json) :=
  (columns.zipIdx.mapM fun column =>
    (primaryKeys.mapM (service.primaryKeyValue columns column.2)).map (column.1, ·)).map
      fun entries => entries.foldl (fun found entry => found.insert entry.1 entry.2) ∅

/-- The values of the columns that were asked for. -/
def columnValues (values : Usearch.ColumnValues) : AList fun _ : ColumnName => List (Option Json) :=
  FiniteMap.mapValues (fun values =>
    values.map fun value => value.bind fun value => (service.toJson value).toOption) values

/-- The response to an answer of an index. -/
def respond (primaryKeyColumns : List ColumnName) (result : Except AnnError Usearch.Answer) :
    Except String (Response Json) :=
  match result with
  | .error (.wrongEmbeddingDimension expected actual) =>
    .ok (.text .badRequest (AnnError.wrongEmbeddingDimension expected actual).display)
  | .error (.other err) => .ok (.text .internalServerError s!"index.ann request error: {err}")
  | .ok answer =>
    if answer.primaryKeys.length ≠ answer.distances.length then
      .ok (.text .internalServerError ("wrong size of an ann response: number of primary_keys = " ++
        s!"{answer.primaryKeys.length}, number of distances = {answer.distances.length}"))
    else
      match service.tryCollectPrimaryKeys primaryKeyColumns answer.primaryKeys with
      | .error (.panic msg) => .error msg
      | .error (.error err) => .ok (.text .internalServerError err)
      | .ok primaryKeys =>
        .ok (.found {
          primaryKeys
          distances := answer.distances.map Distance.value
          similarityScores := answer.distances.map service.similarity
          columnValues := service.columnValues answer.columnValues })

/-- `index_not_ready_reason`. -/
def indexNotReadyReason (keyspace indexName : String) (progress : ℕ) : IndexNotReadyReason :=
  if service.nodeStatus = .serving then
    .indexBuilding (s!"Index {keyspace}.{indexName} is not available yet as it is still being " ++
      s!"constructed, progress: {service.percentage progress}%")
  else .nodeBootstrapping

/-- `check_insecure_tls`. -/
def checkInsecureTls (protocol : Option Protocol) : Option (Response Json) :=
  if service.useTls && protocol = some .plain then
    some (.text .forbidden "TLS is required, but the request was made over an insecure connection.")
  else none

/-- `post_index_ann`.  An error stands for a failed `expect`. -/
def postIndexAnn [VersionTicks] (protocol : Option Protocol) (keyspace indexName : String)
    (request : PostIndexAnnRequest Json) : Except String (Response Json) :=
  match service.checkInsecureTls protocol with
  | some response => .ok response
  | none =>
    let columns := restrictionColumns request.filter
    let allowFiltering := request.filter.any PostIndexAnnFilter.allowFiltering
    match service.indexes.bestIndex (.new keyspace indexName) columns.1 columns.2 request.routing with
    | .error e => .error e
    | .ok (.serving routedKey index primaryKeyColumns filteringColumns tableColumns
        needsFiltering) =>
      if needsFiltering ≠ .no ∧ !allowFiltering then
        .ok (.text .badRequest
          s!"Index {keyspace}.{indexName} requires ALLOW FILTERING for this query")
      else
        match request.filter with
        | some filter =>
          match tryFromPostIndexAnnFilter service.fromJson filteringColumns tableColumns filter with
          | .error err => .ok (.text .badRequest err)
          | .ok filter =>
            service.respond primaryKeyColumns.toList
              (service.ask index routedKey request.vector (some filter) request.limit
                request.returnColumns)
        | none =>
          service.respond primaryKeyColumns.toList
            (service.ask index routedKey request.vector none request.limit request.returnColumns)
    | .ok .noGlobalIndex =>
      .ok (.text .badRequest ("Global ANN query is not supported when only a local vector index " ++
        s!"is available for {keyspace}.{indexName}"))
    | .ok (.notServing (.inProgress progress)) =>
      .ok (.notReady (service.indexNotReadyReason keyspace indexName progress))
    | .ok (.notServing .done) =>
      .ok (.text .internalServerError
        s!"Index {keyspace}.{indexName} is not serving, but full scan did finish.")
    | .ok .notFound => .ok (.text .notFound s!"missing index: {keyspace}.{indexName}")

end AnnService

end VectorStore
