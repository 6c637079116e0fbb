import VectorStore.VsIndex.VectorSource

/-!
# Batched reads keep their positions

Each layer of a read takes some elements of a list, asks the layer below for these and puts the
answers back in order.  So the vector at a position comes from the identifier at that position, and
the batch fails as a whole only when every read of it fails.
-/

namespace VectorStore

namespace Diskann.ScyllaProvider

variable (provider : ScyllaProvider) (graph : InmemGraphStore) (table : Table)

/-- The key that is read for an identifier. -/
def readKey (id : PrimaryId) : Option PrimaryKey :=
  if id ≠ startId ∧ provider.inflight.lookup id = none ∧ provider.isLive graph id then
    table.primaryKey provider.partitionId id
  else none

/-- The keys that are read for a list of identifiers. -/
def readKeys (ids : List PrimaryId) : List PrimaryKey :=
  ids.filterMap (provider.readKey graph table)

/-- The vector for an identifier, given the outcome of the read of its key. -/
def vectorOf (read : PrimaryKey → Except String (Option Vector)) (id : PrimaryId) :
    Option Vector :=
  if id = startId then some provider.start
  else
    match provider.inflight.lookup id with
    | some vector => some vector
    | none =>
      if provider.isLive graph id then
        ((table.primaryKey provider.partitionId id).bind fun key => (read key).toOption.join).filter
          fun vector => vector.components.length = provider.dim
      else none

end Diskann.ScyllaProvider

/-! ## The point reads -/

section PointReads

variable {read : PointReads} {keys : List PrimaryKey}

/-- The outcomes of the reads of a batch, from some read on. -/
def outcomes (read : PointReads) (keys : List PrimaryKey) (first : ℕ) :
    List (Except String (Option Vector)) :=
  (keys.zipIdx first).map fun (key, position) => read position key

theorem outcomes_cons (read : PointReads) (key : PrimaryKey) (keys : List PrimaryKey) (first : ℕ) :
    outcomes read (key :: keys) first = read first key :: outcomes read keys (first + 1) := rfl

/-- All reads of a batch fail. -/
def AllFail (read : PointReads) (keys : List PrimaryKey) : Prop :=
  ∀ outcome ∈ outcomes read keys 0, ∃ e, outcome = .error e

/-- A batch fails when all its reads fail, and otherwise gives the vectors in order. -/
theorem fetchVectors_eq (hkeys : keys ≠ []) :
    (AllFail read keys ∧ ∃ e, fetchVectors (some (some read)) keys = .error (.error e)) ∨
      (¬AllFail read keys ∧ fetchVectors (some (some read)) keys =
        .ok ((outcomes read keys 0).map fun outcome => outcome.toOption.join)) := by
  have hlength : (outcomes read keys 0).length = keys.length := by
    rw [outcomes, List.length_map, List.length_zipIdx]
  have hfail : ((outcomes read keys 0).countP fun outcome => !outcome.isOk) = keys.length ↔
      AllFail read keys := by
    rw [← hlength, List.countP_eq_length]
    refine forall₂_congr fun outcome _ => ?_
    cases outcome with
    | error e => exact iff_of_true rfl ⟨e, rfl⟩
    | ok vector => exact iff_of_false Bool.false_ne_true (by rintro ⟨e, ⟨⟩⟩)
  unfold fetchVectors
  dsimp only
  rw [← outcomes]
  by_cases hall : AllFail read keys
  · left
    rw [if_pos (hfail.mpr hall)]
    cases hlast : (outcomes read keys 0).getLast? with
    | none =>
      rw [List.getLast?_eq_none_iff] at hlast
      rw [hlast] at hlength
      exact absurd (List.eq_nil_of_length_eq_zero hlength.symm) hkeys
    | some outcome =>
      obtain ⟨e, rfl⟩ := hall outcome (List.mem_of_getLast? hlast)
      exact ⟨hall, _, rfl⟩
  · right
    rw [if_neg (mt hfail.mp hall)]
    exact ⟨hall, rfl⟩

end PointReads

/-! ## The base table -/

section BaseTable

variable {α : Type} (key : α → Option PrimaryKey) (read : PointReads)

/-- The answers for the elements of a list, whose keys are read from some read on. -/
def answers (first : ℕ) : List α → List (Option Vector)
  | [] => []
  | x :: xs =>
    match key x with
    | none => none :: answers first xs
    | some k => (read first k).toOption.join :: answers (first + 1) xs

theorem length_answers (first : ℕ) (xs : List α) : (answers key read first xs).length = xs.length := by
  induction xs generalizing first with
  | nil => rfl
  | cons x xs ih =>
    rw [answers]
    split
    · rw [List.length_cons, List.length_cons, ih]
    · rw [List.length_cons, List.length_cons, ih]

/-- Nothing is answered when there are no keys. -/
theorem answers_of_filterMap_eq_nil {xs : List α} (h : xs.filterMap key = []) (first : ℕ) :
    answers key read first xs = List.replicate xs.length none := by
  induction xs with
  | nil => rfl
  | cons x xs ih =>
    obtain ⟨hx, hxs⟩ := List.forall_mem_cons.mp (List.filterMap_eq_nil_iff.mp h)
    rw [answers, hx, ih (List.filterMap_eq_nil_iff.mpr hxs)]
    rfl

/-- The vectors that are read for the keys go to the elements with these keys. -/
theorem spread_eq (xs : List α) (first : ℕ) :
    spread (xs.map key) ((outcomes read (xs.filterMap key) first).map fun outcome =>
      outcome.toOption.join) = .ok (answers key read first xs) := by
  induction xs generalizing first with
  | nil => rfl
  | cons x xs ih =>
    rw [answers, List.map_cons]
    cases hkey : key x with
    | none =>
      rw [List.filterMap_cons_none hkey, spread, ih]
      rfl
    | some k =>
      rw [List.filterMap_cons_some hkey, outcomes_cons, List.map_cons, spread, ih]
      rfl

/-- The source fails when all reads fail, and otherwise answers for every identifier. -/
theorem get_eq (table : Table) (partitionId : PartitionId) (ids : List PrimaryId) :
    let keys := ids.filterMap (table.primaryKey partitionId)
    (keys ≠ [] ∧ AllFail read keys ∧ ∃ e,
      BaseTableSource.get table (some (some read)) partitionId ids = .error (.error e)) ∨
    ((keys = [] ∨ ¬AllFail read keys) ∧
      BaseTableSource.get table (some (some read)) partitionId ids =
        .ok (answers (table.primaryKey partitionId) read 0 ids)) := by
  intro keys
  have hwanted : (ids.map (table.primaryKey partitionId)).filterMap id = keys := by
    rw [List.filterMap_map]
    rfl
  unfold BaseTableSource.get
  dsimp only
  rw [hwanted]
  by_cases hkeys : keys = []
  · right
    rw [if_pos hkeys, answers_of_filterMap_eq_nil _ _ hkeys]
    exact ⟨Or.inl hkeys, rfl⟩
  · rw [if_neg hkeys]
    rcases @fetchVectors_eq read _ hkeys with ⟨hall, e, hfetch⟩ | ⟨hall, hfetch⟩
    · left
      rw [hfetch]
      exact ⟨hkeys, hall, _, rfl⟩
    · right
      have hlength : ((outcomes read keys 0).map fun outcome =>
          outcome.toOption.join).length = keys.length := by
        rw [List.length_map, outcomes, List.length_map, List.length_zipIdx]
      have hspread := spread_eq (table.primaryKey partitionId) read ids 0
      refine ⟨Or.inr hall, ?_⟩
      rw [hfetch]
      change (if ((outcomes read keys 0).map fun outcome => outcome.toOption.join).length ≠
        keys.length then _ else spread _ _) = _
      rw [if_neg (not_not.mpr hlength)]
      exact hspread

end BaseTable

/-! ## The provider -/

namespace Diskann.ScyllaProvider

variable {provider : ScyllaProvider} {graph : InmemGraphStore} {table : Table} {read : PointReads}

/-- The vector that is known without the source. -/
def known (provider : ScyllaProvider) (id : PrimaryId) : Option Vector :=
  if id = startId then some provider.start else provider.inflight.lookup id

/-- The source is asked for the identifier. -/
def asked (provider : ScyllaProvider) (graph : InmemGraphStore) (id : PrimaryId) : Bool :=
  id ≠ startId ∧ provider.inflight.lookup id = none ∧ provider.isLive graph id

/-- The positions of the identifiers that the source is asked for. -/
def slots (provider : ScyllaProvider) (graph : InmemGraphStore) (first : ℕ)
    (ids : List PrimaryId) : List ℕ :=
  ((ids.zipIdx first).filter fun entry => provider.asked graph entry.1).map Prod.snd

theorem asked_iff {id : PrimaryId} : provider.asked graph id ↔
    id ≠ startId ∧ provider.inflight.lookup id = none ∧ provider.isLive graph id :=
  decide_eq_true_iff

theorem slots_cons (first : ℕ) (id : PrimaryId) (ids : List PrimaryId) :
    provider.slots graph first (id :: ids) =
      if provider.asked graph id then first :: provider.slots graph (first + 1) ids
      else provider.slots graph (first + 1) ids := by
  unfold slots
  rw [List.zipIdx_cons, List.filter_cons]
  split <;> rfl

/-- What the first loop gathers for one identifier. -/
theorem scanId_eq (scan : Scan) (id : PrimaryId) (position : ℕ) :
    provider.scanId graph scan (id, position) =
      if provider.asked graph id then
        ⟨scan.out ++ [provider.known id], scan.slots ++ [position], scan.wanted ++ [id]⟩
      else { scan with out := scan.out ++ [provider.known id] } := by
  unfold scanId known
  dsimp only
  by_cases hstart : id = startId
  · rw [if_pos hstart, if_pos hstart, if_neg fun h => (asked_iff.mp h).1 hstart]
  · rw [if_neg hstart, if_neg hstart]
    cases hinflight : provider.inflight.lookup id with
    | some vector =>
      have hasked : ¬provider.asked graph id := fun h => by
        rw [(asked_iff.mp h).2.1] at hinflight
        cases hinflight
      rw [if_neg hasked]
    | none =>
      by_cases hlive : provider.isLive graph id
      · rw [if_pos (asked_iff.mpr ⟨hstart, hinflight, hlive⟩)]
        dsimp only
        rw [if_pos hlive]
      · rw [if_neg fun h => hlive (asked_iff.mp h).2.2]
        dsimp only
        rw [if_neg hlive]

/-- What the first loop gathers. -/
theorem scan_eq (ids : List PrimaryId) (first : ℕ) (scan : Scan) :
    (ids.zipIdx first).foldl (provider.scanId graph) scan =
      ⟨scan.out ++ ids.map provider.known, scan.slots ++ provider.slots graph first ids,
        scan.wanted ++ ids.filter (provider.asked graph)⟩ := by
  induction ids generalizing first scan with
  | nil => simp [slots]
  | cons id ids ih =>
    rw [List.zipIdx_cons, List.foldl_cons, ih, scanId_eq, slots_cons, List.filter_cons]
    split <;> simp

/-- The vectors of a list of identifiers, whose keys are read from some read on. -/
def vectors (provider : ScyllaProvider) (graph : InmemGraphStore) (table : Table)
    (read : PointReads) (first : ℕ) : List PrimaryId → List (Option Vector)
  | [] => []
  | id :: ids => provider.vectorOf graph table (read first) id ::
      vectors provider graph table read
        (if (provider.readKey graph table id).isSome then first + 1 else first) ids

theorem length_vectors (first : ℕ) (ids : List PrimaryId) :
    (provider.vectors graph table read first ids).length = ids.length := by
  induction ids generalizing first with
  | nil => rfl
  | cons id ids ih => rw [vectors, List.length_cons, List.length_cons, ih]

/-- The vector at a position is that of the identifier there, with the read that comes after those
of the identifiers before it. -/
theorem getElem?_vectors (first : ℕ) (ids : List PrimaryId) (i : ℕ) :
    (provider.vectors graph table read first ids)[i]? = ids[i]?.map (provider.vectorOf graph table
      (read (first + (provider.readKeys graph table (ids.take i)).length))) := by
  induction ids generalizing first i with
  | nil => rfl
  | cons id ids ih =>
    cases i with
    | zero => rfl
    | succ i =>
      rw [vectors, List.getElem?_cons_succ, List.getElem?_cons_succ, ih, List.take_succ_cons]
      unfold readKeys
      cases hkey : provider.readKey graph table id with
      | none => rw [List.filterMap_cons_none hkey, if_neg (by simp)]
      | some key =>
        rw [List.filterMap_cons_some hkey, if_pos (by simp), List.length_cons, Nat.add_assoc,
          Nat.add_comm 1]

theorem readKey_of_asked {id : PrimaryId} (h : provider.asked graph id) :
    provider.readKey graph table id = table.primaryKey provider.partitionId id :=
  if_pos (asked_iff.mp h)

theorem readKey_of_not_asked {id : PrimaryId} (h : ¬provider.asked graph id) :
    provider.readKey graph table id = none :=
  if_neg (mt asked_iff.mpr h)

/-- The keys that are read are those of the identifiers that the source is asked for. -/
theorem readKeys_eq (ids : List PrimaryId) : provider.readKeys graph table ids =
    (ids.filter (provider.asked graph)).filterMap (table.primaryKey provider.partitionId) := by
  rw [List.filterMap_filter]
  refine List.filterMap_congr fun id _ => ?_
  split
  · next h => exact readKey_of_asked h
  · next h => exact readKey_of_not_asked h

theorem vectorOf_of_asked {id : PrimaryId} (h : provider.asked graph id)
    (read : PrimaryKey → Except String (Option Vector)) :
    provider.vectorOf graph table read id =
      ((table.primaryKey provider.partitionId id).bind fun key => (read key).toOption.join).filter
        fun vector => vector.components.length = provider.dim := by
  obtain ⟨hstart, hinflight, hlive⟩ := asked_iff.mp h
  unfold vectorOf
  rw [if_neg hstart, hinflight]
  exact if_pos hlive

theorem known_of_asked {id : PrimaryId} (h : provider.asked graph id) :
    provider.known id = none := by
  obtain ⟨hstart, hinflight, -⟩ := asked_iff.mp h
  rw [known, if_neg hstart, hinflight]

theorem vectorOf_of_not_asked {id : PrimaryId} (h : ¬provider.asked graph id)
    (read : PrimaryKey → Except String (Option Vector)) :
    provider.vectorOf graph table read id = provider.known id := by
  unfold vectorOf known
  split
  · rfl
  · next hstart =>
    cases hinflight : provider.inflight.lookup id with
    | some vector => rfl
    | none => exact if_neg fun hlive => h (asked_iff.mpr ⟨hstart, hinflight, hlive⟩)

/-- The answer for an identifier that the source was asked for. -/
theorem fill_append (pre rest : List (Option Vector)) (answer : Option Vector) :
    provider.fill (pre ++ none :: rest) (pre.length, answer) =
      pre ++ answer.filter (fun vector => vector.components.length = provider.dim) :: rest := by
  cases answer with
  | none => rfl
  | some vector =>
    unfold fill
    dsimp only
    split
    · next hdim => rw [Option.filter_some_neg (by simpa using hdim)]
    · next hdim =>
      rw [Option.filter_some_pos (by simpa using hdim)]
      simp

/-- The second loop puts the answers at the positions of the identifiers. -/
theorem fill_eq (ids : List PrimaryId) (first : ℕ) (pre : List (Option Vector)) :
    ((provider.slots graph pre.length ids).zip (answers (table.primaryKey provider.partitionId) read
      first (ids.filter (provider.asked graph)))).foldl provider.fill
        (pre ++ ids.map provider.known) = pre ++ provider.vectors graph table read first ids := by
  induction ids generalizing first pre with
  | nil => rfl
  | cons id ids ih =>
    rw [slots_cons, vectors, List.map_cons, List.filter_cons]
    have hrest : ∀ (x : Option Vector) (first : ℕ),
        ((provider.slots graph (pre.length + 1) ids).zip (answers
          (table.primaryKey provider.partitionId) read first
          (ids.filter (provider.asked graph)))).foldl provider.fill
            (pre ++ x :: ids.map provider.known) =
          pre ++ x :: provider.vectors graph table read first ids := by
      intro x first
      have h := ih first (pre ++ [x])
      rwa [List.length_append, List.append_assoc, List.append_assoc] at h
    split
    · next hasked =>
      rw [readKey_of_asked hasked, vectorOf_of_asked hasked, known_of_asked hasked, answers]
      cases hkey : table.primaryKey provider.partitionId id with
      | none =>
        dsimp only
        rw [List.zip_cons_cons, List.foldl_cons, fill_append, hrest, if_neg (by simp)]
        rfl
      | some key =>
        dsimp only
        rw [List.zip_cons_cons, List.foldl_cons, fill_append, hrest]
        rfl
    · next hasked =>
      rw [readKey_of_not_asked hasked, vectorOf_of_not_asked hasked, hrest, if_neg (by simp)]

/-! ## The main result -/

/-- What `load` returns: it fails when all reads fail, and otherwise has the vectors of the
identifiers in order. -/
theorem load_eq (ids : List PrimaryId) :
    (provider.readKeys graph table ids ≠ [] ∧ AllFail read (provider.readKeys graph table ids) ∧
      ∃ e, provider.load graph table (some (some read)) ids = .error (.error e)) ∨
    (¬(provider.readKeys graph table ids ≠ [] ∧ AllFail read (provider.readKeys graph table ids)) ∧
      provider.load graph table (some (some read)) ids =
        .ok (provider.vectors graph table read 0 ids)) := by
  have hscan := @scan_eq provider graph ids 0 ⟨[], [], []⟩
  have hfill := @fill_eq provider graph table read ids 0 []
  rw [List.nil_append, List.nil_append] at hfill
  unfold load
  dsimp only
  rw [hscan]
  dsimp only
  rw [List.nil_append, List.nil_append, List.nil_append, readKeys_eq]
  split
  · next hnone =>
    right
    rw [hnone] at hfill ⊢
    refine ⟨fun h => h.1 rfl, ?_⟩
    rw [← hfill]
    simp [answers]
  · next hsome =>
    rcases get_eq read table provider.partitionId (ids.filter (provider.asked graph)) with
      ⟨hkeys, hall, e, hget⟩ | ⟨hkeys, hget⟩
    · left
      rw [hget]
      exact ⟨hkeys, hall, _, rfl⟩
    · right
      rw [hget]
      refine ⟨fun h => hkeys.elim h.1 fun hnot => hnot h.2, ?_⟩
      change (if (answers _ read 0 _).length ≠ _ then _ else _) = _
      rw [if_neg (not_not.mpr (length_answers ..))]
      exact congrArg Except.ok hfill

/-- `load` fails exactly when some key is read and all reads fail, and it never panics.  Otherwise
the result is as long as the list of identifiers, and each entry is that of the identifier at its
position: the start vector, the vector in flight, or the vector that is read for its key. -/
theorem load_keeps_positions (provider : ScyllaProvider) (graph : InmemGraphStore) (table : Table)
    (read : PointReads) (ids : List PrimaryId) :
    ((∃ e, provider.load graph table (some (some read)) ids = .error e) ↔
      provider.readKeys graph table ids ≠ [] ∧ AllFail read (provider.readKeys graph table ids)) ∧
    (∀ message, provider.load graph table (some (some read)) ids ≠ .error (.panic message)) ∧
    ∀ out, provider.load graph table (some (some read)) ids = .ok out →
      out.length = ids.length ∧ ∀ i id, ids[i]? = some id → out[i]? = some
        (provider.vectorOf graph table (read (provider.readKeys graph table (ids.take i)).length)
          id) := by
  rcases @load_eq provider graph table read ids with
    ⟨hkeys, hall, e, hload⟩ | ⟨hnot, hload⟩
  · rw [hload]
    refine ⟨iff_of_true ⟨_, rfl⟩ ⟨hkeys, hall⟩, ?_, ?_⟩
    · rintro message ⟨⟩
    · rintro out ⟨⟩
  · rw [hload]
    refine ⟨iff_of_false (by rintro ⟨e, ⟨⟩⟩) hnot, ?_, ?_⟩
    · rintro message ⟨⟩
    · rintro out ⟨⟩
      refine ⟨length_vectors .., fun i id hid => ?_⟩
      rw [getElem?_vectors, hid, Nat.zero_add]
      rfl

end Diskann.ScyllaProvider

end VectorStore
