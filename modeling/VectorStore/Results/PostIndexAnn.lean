import VectorStore.Foundation.Lists
import VectorStore.Results.BestIndex
import VectorStore.Results.FilterSemantics
import VectorStore.Search.PostIndexAnn

/-!
# The response to a search

Every request is answered.  A search that is answered with rows went to a serving index of the best
rank, which was asked for the converted filter, and the response has the rows of its answer column
by column: the lists have the order and the length of the answer.  Where an index serves, its answer
is the response unless the request may not filter, or the answer has no JSON.
-/

namespace VectorStore

namespace AnnService

variable {Json : Type} {service : AnnService Json} {columns : List ColumnName}
  {keys : List PrimaryKey}

/-! ## The columns of the primary key -/

/-- The value of a column of a key, as JSON. -/
def HasValue (service : AnnService Json) (idx : ℕ) (key : PrimaryKey) (json : Json) : Prop :=
  ∃ value, key.get idx = some value ∧ service.toJson value = .ok json

theorem hasValue_of_primaryKeyValue {idx : ℕ} {key : PrimaryKey} {json : Json}
    (h : service.primaryKeyValue columns idx key = .ok json) :
    key.len = columns.length ∧ service.HasValue idx key json := by
  unfold primaryKeyValue at h
  split at h
  · cases h
  · next heq =>
    refine ⟨not_not.mp heq, ?_⟩
    cases hvalue : key.get idx with
    | none =>
      rw [hvalue] at h
      cases h
    | some value =>
      rw [hvalue] at h
      refine ⟨value, hvalue, ?_⟩
      dsimp only at h
      cases hjson : service.toJson value with
      | error e =>
        rw [hjson] at h
        cases h
      | ok json' =>
        rw [hjson] at h
        exact congrArg Except.ok (Except.ok.inj h)

/-- A column within a key of the right size has a value: nothing panics, and a failure is that of a
key of the wrong size or of a value without JSON. -/
theorem exists_of_primaryKeyValue_eq_error {idx : ℕ} (hidx : idx < columns.length)
    {key : PrimaryKey} {e : Failure} (h : service.primaryKeyValue columns idx key = .error e) :
    ∃ msg, e = .error msg ∧ (key.len = columns.length →
      ∃ value ∈ key.key.values, service.toJson value = .error msg) := by
  unfold primaryKeyValue at h
  split at h
  · next hne => exact ⟨_, (Except.error.inj h).symm, fun heq => absurd heq hne⟩
  · next heq =>
    obtain ⟨value, hvalue⟩ : ∃ value, key.get idx = some value :=
      ⟨_, List.getElem?_eq_getElem (Nat.lt_of_lt_of_eq hidx (not_not.mp heq).symm)⟩
    rw [hvalue] at h
    dsimp only at h
    cases hjson : service.toJson value with
    | error msg =>
      rw [hjson] at h
      exact ⟨msg, (Except.error.inj h).symm, fun _ => ⟨value, List.mem_of_getElem? hvalue, hjson⟩⟩
    | ok json =>
      rw [hjson] at h
      cases h

/-- The lists of the columns of some keys. -/
structure Transposes (service : AnnService Json) (columns : List ColumnName)
    (keys : List PrimaryKey) (lists : AList fun _ : ColumnName => List Json) : Prop where
  names : ∀ column, (lists.lookup column).isSome ↔ column ∈ columns
  /-- A list has the values of one of the columns with its name, in the order of the keys. -/
  values : ∀ column values, lists.lookup column = some values → ∃ idx : ℕ,
    columns[idx]? = some column ∧ List.Forall₂ (service.HasValue idx) keys values

/-- The value lists of one column. -/
theorem forall₂_hasValue {idx : ℕ} {values : List Json}
    (h : keys.mapM (service.primaryKeyValue columns idx) = .ok values) :
    List.Forall₂ (service.HasValue idx) keys values :=
  (forall₂_of_mapM h).imp fun _ _ hvalue => (hasValue_of_primaryKeyValue hvalue).2

theorem transposes_of_tryCollect {lists : AList fun _ : ColumnName => List Json}
    (h : service.tryCollectPrimaryKeys columns keys = .ok lists) :
    service.Transposes columns keys lists := by
  obtain ⟨entries, hentries, rfl⟩ := map_eq_ok h
  have hall := forall₂_of_mapM hentries
  -- an entry is made of a column at its position
  have hentry : ∀ entry ∈ entries, ∃ idx : ℕ, columns[idx]? = some entry.1 ∧
      List.Forall₂ (service.HasValue idx) keys entry.2 := by
    intro entry hmem
    obtain ⟨column, hcolumn, hmade⟩ := exists_mem_left_of_forall₂ hall hmem
    obtain ⟨values, hvalues, rfl⟩ := map_eq_ok hmade
    exact ⟨column.2, List.mem_zipIdx_iff_getElem?.mp hcolumn, forall₂_hasValue hvalues⟩
  have hnames : entries.map Prod.fst = columns := by
    have hzip : columns.zipIdx.map Prod.fst = entries.map Prod.fst := by
      refine List.forall₂_eq_eq_eq ▸
        List.forall₂_map_left_iff.mpr (List.forall₂_map_right_iff.mpr ?_)
      refine hall.imp fun column entry hmade => ?_
      obtain ⟨values, -, rfl⟩ := map_eq_ok hmade
      rfl
    rw [← hzip, List.zipIdx_map_fst]
  constructor
  case names =>
    intro column
    rcases FiniteMap.lookup_foldl_insert Prod.fst Prod.snd entries ∅ column with
      ⟨entry, hmem, rfl, hlookup⟩ | ⟨hne, hlookup⟩
    · rw [hlookup, ← hnames]
      exact iff_of_true rfl (List.mem_map_of_mem hmem)
    · rw [hlookup, AList.lookup_empty, ← hnames]
      refine iff_of_false (by simp) fun hmem => ?_
      obtain ⟨entry, hentry, heq⟩ := List.mem_map.mp hmem
      exact hne entry hentry heq
  case values =>
    intro column values hvalues
    rcases FiniteMap.lookup_foldl_insert Prod.fst Prod.snd entries ∅ column with
      ⟨entry, hmem, rfl, hlookup⟩ | ⟨hne, hlookup⟩
    · rw [hlookup] at hvalues
      rw [← Option.some.inj hvalues]
      exact hentry entry hmem
    · rw [hlookup, AList.lookup_empty] at hvalues
      cases hvalues

/-- A failure to collect the keys is that of one of them. -/
theorem exists_of_tryCollect_eq_error {e : Failure}
    (h : service.tryCollectPrimaryKeys columns keys = .error e) :
    ∃ key ∈ keys, ∃ msg, e = .error msg ∧ (key.len = columns.length →
      ∃ value ∈ key.key.values, service.toJson value = .error msg) := by
  unfold tryCollectPrimaryKeys at h
  cases hentries : columns.zipIdx.mapM fun column =>
      (keys.mapM (service.primaryKeyValue columns column.2)).map (column.1, ·) with
  | ok entries =>
    rw [hentries] at h
    cases h
  | error e' =>
    rw [hentries] at h
    obtain rfl := Except.error.inj h
    obtain ⟨column, hcolumn, hfailed⟩ := exists_of_mapM_eq_error hentries
    cases hvalues : keys.mapM (service.primaryKeyValue columns column.2) with
    | ok values =>
      rw [hvalues] at hfailed
      cases hfailed
    | error e'' =>
      rw [hvalues] at hfailed
      obtain rfl := Except.error.inj hfailed
      obtain ⟨key, hmem, hkey⟩ := exists_of_mapM_eq_error hvalues
      have hget := List.mem_zipIdx_iff_getElem?.mp hcolumn
      exact ⟨key, hmem,
        exists_of_primaryKeyValue_eq_error (List.getElem?_eq_some_iff.mp hget).1 hkey⟩

/-! ## The answer of an index -/

/-- A response has the rows of an answer, column by column. -/
structure Renders (service : AnnService Json) (columns : List ColumnName) (answer : Usearch.Answer)
    (body : PostIndexAnnResponse Json) : Prop where
  length : answer.primaryKeys.length = answer.distances.length
  primaryKeys : service.Transposes columns answer.primaryKeys body.primaryKeys
  distances : body.distances = answer.distances.map Distance.value
  similarityScores : body.similarityScores = answer.distances.map service.similarity
  columnValues : ∀ column, body.columnValues.lookup column =
    (answer.columnValues.lookup column).map fun values =>
      values.map fun value => value.bind fun value => (service.toJson value).toOption

/-- An answer that a response can have: as many keys as distances, and keys of the right size whose
values have JSON. -/
structure Renderable (service : AnnService Json) (columns : List ColumnName)
    (answer : Usearch.Answer) : Prop where
  length : answer.primaryKeys.length = answer.distances.length
  len : ∀ key ∈ answer.primaryKeys, key.len = columns.length
  toJson : ∀ key ∈ answer.primaryKeys, ∀ value ∈ key.key.values, ∃ json,
    service.toJson value = .ok json

/-- An index that was asked answers with rows, or the request or the index is at fault. -/
structure Responds (service : AnnService Json) (columns : List ColumnName)
    (result : Except AnnError Usearch.Answer) (response : Response Json) : Prop where
  status : response.status = .ok ∨ response.status = .badRequest ∨
    response.status = .internalServerError
  found : ∀ body, response = .found body →
    ∃ answer, result = .ok answer ∧ service.Renders columns answer body
  answered : ∀ answer, result = .ok answer → service.Renderable columns answer →
    ∃ body, response = .found body

theorem respond_spec (service : AnnService Json) (columns : List ColumnName)
    (result : Except AnnError Usearch.Answer) :
    ∃ response, service.respond columns result = .ok response ∧
      service.Responds columns result response := by
  have htext : ∀ status msg, status = .badRequest ∨ status = .internalServerError →
      (∀ answer, result = .ok answer → ¬service.Renderable columns answer) →
      service.Responds columns result (.text status msg) := fun status msg h hfailed =>
    { status := Or.inr h
      found := fun body hbody => by cases hbody
      answered := fun answer hok hanswer => absurd hanswer (hfailed answer hok) }
  cases result with
  | error e =>
    cases e with
    | wrongEmbeddingDimension expected actual =>
      exact ⟨_, rfl, htext _ _ (Or.inl rfl) fun answer hok => by cases hok⟩
    | other err => exact ⟨_, rfl, htext _ _ (Or.inr rfl) fun answer hok => by cases hok⟩
  | ok answer =>
    unfold respond
    dsimp only
    split
    · next hlength =>
      refine ⟨_, rfl, htext _ _ (Or.inr rfl) fun answer' hok hanswer => ?_⟩
      obtain rfl := Except.ok.inj hok
      exact hlength hanswer.length
    · next hlength =>
      cases hkeys : service.tryCollectPrimaryKeys columns answer.primaryKeys with
      | error e =>
        obtain ⟨key, hmem, msg, rfl, hkey⟩ := exists_of_tryCollect_eq_error hkeys
        refine ⟨_, rfl, htext _ _ (Or.inr rfl) fun answer' hok hanswer => ?_⟩
        obtain rfl := Except.ok.inj hok
        obtain ⟨value, hvalue, hfailed⟩ := hkey (hanswer.len key hmem)
        obtain ⟨json, hjson⟩ := hanswer.toJson key hmem value hvalue
        rw [hfailed] at hjson
        cases hjson
      | ok primaryKeys =>
        refine ⟨_, rfl, Or.inl rfl, fun body hbody => ⟨answer, rfl, ?_⟩, fun _ _ _ => ⟨_, rfl⟩⟩
        obtain rfl := Response.found.inj hbody
        exact ⟨not_not.mp hlength, transposes_of_tryCollect hkeys, rfl, rfl, fun column =>
          FiniteMap.lookup_mapValues ..⟩

/-! ## The route -/

/-- A plain request where TLS is required. -/
def Insecure (service : AnnService Json) (protocol : Option Protocol) : Prop :=
  service.useTls = true ∧ protocol = some .plain

/-- The filter that an index is asked for. -/
def Converts (service : AnnService Json) (entry : RoutedEntry)
    (requested : Option (PostIndexAnnFilter Json)) (filter : Option Filter) : Prop :=
  match requested with
  | none => filter = none
  | some requested => ∃ converted, filter = some converted ∧
      tryFromPostIndexAnnFilter service.fromJson entry.filteringColumns entry.tableColumns
        requested = .ok converted

theorem Converts.unique {entry : RoutedEntry} {requested : Option (PostIndexAnnFilter Json)}
    {filter filter' : Option Filter} (h : service.Converts entry requested filter)
    (h' : service.Converts entry requested filter') : filter = filter' := by
  cases requested with
  | none => exact Eq.trans h (Eq.symm h')
  | some requested =>
    obtain ⟨converted, rfl, hconverted⟩ := h
    obtain ⟨converted', rfl, hconverted'⟩ := h'
    rw [hconverted] at hconverted'
    rw [Except.ok.inj hconverted']

/-- The tuples of a filter that was converted have the length of their tuples of columns. -/
theorem Converts.lengthsMatch {entry : RoutedEntry} {requested : Option (PostIndexAnnFilter Json)}
    {filter : Filter} (h : service.Converts entry requested (some filter)) :
    ∀ restriction ∈ filter.restrictions, restriction.LengthsMatch := by
  cases requested with
  | none => cases h
  | some requested =>
    obtain ⟨converted, hsome, hconverted⟩ := h
    obtain rfl := Option.some.inj hsome
    exact lengthsMatch_of_tryFrom hconverted

/-- A request that its index answers. -/
structure Asked (service : AnnService Json) (request : PostIndexAnnRequest Json)
    (c : RoutedIndexes.Scored) (filter : Option Filter) (answer : Usearch.Answer) : Prop where
  allowed : c.score = .no ∨ request.filter.any PostIndexAnnFilter.allowFiltering = true
  converts : service.Converts c.entry request.filter filter
  answer : service.ask c.entry.index c.key request.vector filter request.limit
    request.returnColumns = .ok answer

/-- What the response is when an index was chosen. -/
structure Served (service : AnnService Json) (request : PostIndexAnnRequest Json)
    (c : RoutedIndexes.Scored) (response : Response Json) : Prop where
  status : response.status = .ok ∨ response.status = .badRequest ∨
    response.status = .internalServerError
  found : ∀ body, response = .found body → ∃ filter answer, service.Asked request c filter answer ∧
    service.Renders c.entry.primaryKeyColumns.toList answer body
  answered : ∀ filter answer, service.Asked request c filter answer →
    service.Renderable c.entry.primaryKeyColumns.toList answer → ∃ body, response = .found body

variable {request : PostIndexAnnRequest Json} {c : RoutedIndexes.Scored}

theorem Served.status_ne {response : Response Json} (h : service.Served request c response)
    {status : StatusCode} (hok : status ≠ .ok) (hbad : status ≠ .badRequest)
    (hinternal : status ≠ .internalServerError) : response.status ≠ status := by
  rintro rfl
  rcases h.status with heq | heq | heq
  · exact hok heq
  · exact hbad heq
  · exact hinternal heq

/-- An index that would have to filter is not asked unless the request allows it. -/
theorem not_asked_of_filtering (hscore : c.score ≠ .no)
    (hallow : ¬request.filter.any PostIndexAnnFilter.allowFiltering = true) (filter : Option Filter)
    (answer : Usearch.Answer) : ¬service.Asked request c filter answer := fun hasked =>
  hasked.allowed.elim hscore hallow

theorem not_asked_of_error {requested : PostIndexAnnFilter Json} {err : String}
    (hfilter : request.filter = some requested)
    (h : tryFromPostIndexAnnFilter service.fromJson c.entry.filteringColumns c.entry.tableColumns
      requested = .error err) (filter : Option Filter) (answer : Usearch.Answer) :
    ¬service.Asked request c filter answer := by
  intro hasked
  have hconverts := hasked.converts
  rw [hfilter] at hconverts
  obtain ⟨converted, -, hok⟩ := hconverts
  rw [h] at hok
  cases hok

/-- A request that cannot be asked is a bad one. -/
theorem served_badRequest (h : ∀ filter answer, ¬service.Asked request c filter answer)
    (msg : String) : service.Served request c (.text .badRequest msg) where
  status := Or.inr (Or.inl rfl)
  found body hbody := by cases hbody
  answered filter answer hasked := absurd hasked (h filter answer)

/-- The index is asked. -/
theorem served_respond {filter : Option Filter}
    (hallowed : c.score = .no ∨ request.filter.any PostIndexAnnFilter.allowFiltering = true)
    (hconverts : service.Converts c.entry request.filter filter) :
    ∃ response, service.respond c.entry.primaryKeyColumns.toList (service.ask c.entry.index c.key
      request.vector filter request.limit request.returnColumns) = .ok response ∧
      service.Served request c response := by
  obtain ⟨response, hresponse, hresponds⟩ := respond_spec service
    c.entry.primaryKeyColumns.toList (service.ask c.entry.index c.key request.vector filter
      request.limit request.returnColumns)
  refine ⟨response, hresponse, hresponds.status, fun body hbody => ?_, fun filter' answer hasked =>
    ?_⟩
  · obtain ⟨answer, hanswer, hrenders⟩ := hresponds.found body hbody
    exact ⟨filter, answer, ⟨hallowed, hconverts, hanswer⟩, hrenders⟩
  · obtain rfl := hconverts.unique hasked.converts
    exact hresponds.answered answer hasked.answer

variable [VersionTicks]

/-- The verdict of the routing about a request. -/
def Decides (service : AnnService Json) (key : IndexKey) (request : PostIndexAnnRequest Json)
    (state : BestIndexState) : Prop :=
  service.indexes.Verdict key (restrictionColumns request.filter).1
    (restrictionColumns request.filter).2 request.routing state

/-- A serving index of the best rank. -/
structure Chosen (service : AnnService Json) (key : IndexKey) (request : PostIndexAnnRequest Json)
    (c : RoutedIndexes.Scored) : Prop where
  serves : service.indexes.Serves key (restrictionColumns request.filter).1
    (restrictionColumns request.filter).2 request.routing c
  best : ∀ c', service.indexes.Serves key (restrictionColumns request.filter).1
    (restrictionColumns request.filter).2 request.routing c' → c'.rank ≤ c.rank

/-- What the response to a request says. -/
structure Routes (service : AnnService Json) (protocol : Option Protocol) (key : IndexKey)
    (request : PostIndexAnnRequest Json) (response : Response Json) : Prop where
  forbidden : response.status = .forbidden ↔ service.Insecure protocol
  notFound : response.status = .notFound ↔
    ¬service.Insecure protocol ∧ service.indexes.vsEntries.lookup key = none
  /-- The index is being built, and no other one serves in its place. -/
  serviceUnavailable : response.status = .serviceUnavailable ↔ ¬service.Insecure protocol ∧
    (∃ requested completed, service.indexes.vsEntries.lookup key = some requested ∧
      requested.progress = .inProgress completed) ∧
    ¬∃ key' entry, service.indexes.Candidate key request.routing key' entry ∧
      entry.status = .serving
  /-- The rows are those that a serving index of the best rank answered, which was asked for tuples of
  the right lengths. -/
  found : ∀ body, response = .found body → ∃ c, service.Chosen key request c ∧
    ∃ filter answer, service.Asked request c filter answer ∧
      (∀ converted, filter = some converted →
        ∀ restriction ∈ converted.restrictions, restriction.LengthsMatch) ∧
      service.Renders c.entry.primaryKeyColumns.toList answer body
  /-- Where an index can serve, one of the best rank does, and its answer is the response. -/
  answered : ¬service.Insecure protocol → (∃ c, service.indexes.Serves key
      (restrictionColumns request.filter).1 (restrictionColumns request.filter).2 request.routing
        c) →
    ∃ c, service.Chosen key request c ∧ ∀ filter answer, service.Asked request c filter answer →
      service.Renderable c.entry.primaryKeyColumns.toList answer → ∃ body, response = .found body

variable {protocol : Option Protocol} {key : IndexKey}

theorem routes_insecure (h : service.Insecure protocol) (msg : String) :
    service.Routes protocol key request (.text .forbidden msg) where
  forbidden := iff_of_true rfl h
  notFound := iff_of_false (fun h => by cases h) fun hsecure => hsecure.1 h
  serviceUnavailable := iff_of_false (fun h => by cases h) fun hsecure => hsecure.1 h
  found body hbody := by cases hbody
  answered hsecure := absurd h hsecure

/-- The response of a chosen index is that of the route. -/
theorem Served.routes {response : Response Json} (h : service.Served request c response)
    (hsecure : ¬service.Insecure protocol) (hchosen : service.Chosen key request c)
    (hknown : service.indexes.vsEntries.lookup key ≠ none) :
    service.Routes protocol key request response where
  forbidden := iff_of_false (h.status_ne (by decide) (by decide) (by decide)) hsecure
  notFound := iff_of_false (h.status_ne (by decide) (by decide) (by decide)) fun hnone =>
    hknown hnone.2
  serviceUnavailable := iff_of_false (h.status_ne (by decide) (by decide) (by decide)) fun hnone =>
    hnone.2.2 ⟨c.key, c.entry, hchosen.serves.1, hchosen.serves.2.1⟩
  found body hbody := by
    obtain ⟨filter, answer, hasked, hrenders⟩ := h.found body hbody
    refine ⟨c, hchosen, filter, answer, hasked, ?_, hrenders⟩
    rintro converted rfl
    exact hasked.converts.lengthsMatch
  answered _ _ := ⟨c, hchosen, h.answered⟩

theorem Decides.routes_notFound (h : service.Decides key request .notFound)
    (hsecure : ¬service.Insecure protocol) (msg : String) :
    service.Routes protocol key request (.text .notFound msg) where
  forbidden := iff_of_false (fun h => by cases h) hsecure
  notFound := iff_of_true rfl ⟨hsecure, h.notFound.mp rfl⟩
  serviceUnavailable := iff_of_false (fun h => by cases h) fun hbuilding => by
    obtain ⟨requested, completed, hfound, -⟩ := hbuilding.2.1
    rw [h.notFound.mp rfl] at hfound
    cases hfound
  found body hbody := by cases hbody
  answered _ hserves := by
    obtain ⟨_, _, _, _, _, _, heq⟩ := h.serving.mpr hserves
    cases heq

theorem Decides.routes_noGlobalIndex (h : service.Decides key request .noGlobalIndex)
    (hsecure : ¬service.Insecure protocol) (msg : String) :
    service.Routes protocol key request (.text .badRequest msg) where
  forbidden := iff_of_false (fun h => by cases h) hsecure
  notFound := iff_of_false (fun h => by cases h) fun hnone => by cases h.notFound.mpr hnone.2
  serviceUnavailable := iff_of_false (fun h => by cases h) fun hbuilding =>
    hbuilding.2.2 (h.noGlobalIndex.mp rfl).1
  found body hbody := by cases hbody
  answered _ hserves := absurd hserves (h.noGlobalIndex.mp rfl).2

/-- Where nothing serves, a request for an index that is being built has to wait. -/
theorem Decides.routes_notServing {progress : Progress} {response : Response Json}
    (h : service.Decides key request (.notServing progress))
    (hsecure : ¬service.Insecure protocol)
    (hforbidden : response.status ≠ .forbidden) (hnotFound : response.status ≠ .notFound)
    (hunavailable : response.status = .serviceUnavailable ↔
      ∃ completed, progress = .inProgress completed)
    (hfound : ∀ body, response ≠ .found body) :
    service.Routes protocol key request response := by
  obtain ⟨⟨requested, hrequested, rfl⟩, hnone⟩ := (h.notServing progress).mp rfl
  exact {
    forbidden := iff_of_false hforbidden hsecure
    notFound := iff_of_false hnotFound fun hmissing => by cases h.notFound.mpr hmissing.2
    serviceUnavailable := by
      rw [hunavailable]
      constructor
      · rintro ⟨completed, hprogress⟩
        exact ⟨hsecure, ⟨requested, completed, hrequested, hprogress⟩, hnone⟩
      · rintro ⟨-, ⟨requested', completed, hrequested', hprogress⟩, -⟩
        obtain rfl := Option.some.inj (hrequested.symm.trans hrequested')
        exact ⟨completed, hprogress⟩
    found := fun body hbody => absurd hbody (hfound body)
    answered := fun _ ⟨c, hserves⟩ => absurd ⟨c.key, c.entry, hserves.1, hserves.2.1⟩ hnone }

/-- Every request is answered, whatever the indexes return: with the rows of an index of the best
rank, or by what there is instead. -/
theorem post_index_ann_routes (h : service.indexes.Reachable) (protocol : Option Protocol)
    (keyspace indexName : String) (request : PostIndexAnnRequest Json) :
    ∃ response, service.postIndexAnn protocol keyspace indexName request = .ok response ∧
      service.Routes protocol (.new keyspace indexName) request response := by
  unfold postIndexAnn checkInsecureTls
  by_cases hsecure : service.Insecure protocol
  · rw [if_pos (by simpa [Insecure] using hsecure)]
    exact ⟨_, rfl, routes_insecure hsecure _⟩
  · rw [if_neg (by simpa [Insecure] using hsecure)]
    obtain ⟨state, hstate, hverdict⟩ := h.grouped.bestIndex (.new keyspace indexName)
      (restrictionColumns request.filter).1 (restrictionColumns request.filter).2 request.routing
    have hdecides : service.Decides (.new keyspace indexName) request state := hverdict
    dsimp only
    rw [hstate]
    cases state with
    | notFound => exact ⟨_, rfl, hdecides.routes_notFound hsecure _⟩
    | noGlobalIndex => exact ⟨_, rfl, hdecides.routes_noGlobalIndex hsecure _⟩
    | notServing progress =>
      cases progress with
      | inProgress completed =>
        exact ⟨_, rfl, hdecides.routes_notServing hsecure (by simp [Response.status])
          (by simp [Response.status]) (by simp [Response.status]) (by simp)⟩
      | done =>
        exact ⟨_, rfl, hdecides.routes_notServing hsecure (by simp [Response.status])
          (by simp [Response.status]) (by simp [Response.status]) (by simp)⟩
    | serving key' index primaryKeyColumns filteringColumns tableColumns needsFiltering =>
      obtain ⟨entry, hserves, hbest, rfl, rfl, rfl, rfl⟩ := hverdict.best _ _ _ _ _ _ rfl
      have hroutes : ∀ response, service.Served request ⟨key', needsFiltering, entry⟩ response →
          service.Routes protocol (.new keyspace indexName) request response := fun response h =>
        h.routes hsecure ⟨hserves, hbest⟩ fun hnone => by cases hverdict.notFound.mpr hnone
      dsimp only
      split
      · next hfiltering =>
        have hallow : ¬request.filter.any PostIndexAnnFilter.allowFiltering = true := by
          simpa using hfiltering.2
        exact ⟨_, rfl, hroutes _ (served_badRequest (not_asked_of_filtering hfiltering.1 hallow) _)⟩
      · next hfiltering =>
        have hallowed : needsFiltering = .no ∨
            request.filter.any PostIndexAnnFilter.allowFiltering = true := by
          by_contra hnot
          rw [not_or] at hnot
          exact hfiltering ⟨hnot.1, by simpa using hnot.2⟩
        have hasked : ∀ filter, service.Converts entry request.filter filter →
            ∃ response, service.respond entry.primaryKeyColumns.toList (service.ask entry.index key'
              request.vector filter request.limit request.returnColumns) = .ok response ∧
              service.Routes protocol (.new keyspace indexName) request response := by
          intro filter hconverts
          obtain ⟨response, hresponse, hserved⟩ :=
            served_respond (c := ⟨key', needsFiltering, entry⟩) hallowed hconverts
          exact ⟨response, hresponse, hroutes response hserved⟩
        cases hfilter : request.filter with
        | none => exact hasked none (by rw [hfilter]; rfl)
        | some requested =>
          dsimp only
          cases hconverted : tryFromPostIndexAnnFilter service.fromJson entry.filteringColumns
              entry.tableColumns requested with
          | error err =>
            exact ⟨_, rfl,
              hroutes _ (served_badRequest (not_asked_of_error hfilter hconverted) err)⟩
          | ok converted =>
            exact hasked (some converted) (by rw [hfilter]; exact ⟨converted, rfl, hconverted⟩)

end AnnService

namespace Sample

/-- Routes whose indexes find the row with the key 1. -/
def annService : AnnService CqlValue where
  indexes := routedIndexes
  useTls := false
  nodeStatus := .serving
  fromJson json _ := .ok json
  toJson := .ok
  similarity := Distance.value
  percentage percentage := toString percentage
  ask _ _ _ _ _ _ := .ok ⟨[.fromIter [.int 1]], [.euclidean 0], ∅⟩

/-- A search without a filter. -/
def annRequest : PostIndexAnnRequest CqlValue where
  vector := ⟨[0]⟩
  filter := none
  limit := 1
  routing := true
  returnColumns := []

end Sample

open Sample in
attribute [local instance] versionTicks in
theorem AnnService.post_index_ann_routes_routedIndexes : ∃ response,
    annService.postIndexAnn (some .plain) "ks" "old" annRequest = .ok response ∧
      annService.Routes (some .plain) (.new "ks" "old") annRequest response :=
  post_index_ann_routes routedIndexes_reachable (some .plain) "ks" "old" annRequest

open Sample in
attribute [local instance] versionTicks in
/-- An index in the place of another one answers; an unknown index does not. -/
example : (annService.postIndexAnn (some .plain) "ks" "old" annRequest).toOption.map
      Response.status = some .ok ∧
    (annService.postIndexAnn (some .plain) "ks" "missing" annRequest).toOption.map
      Response.status = some .notFound := by
  decide +kernel

end VectorStore
