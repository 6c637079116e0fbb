import VectorStore.Rows.Simulation

/-!
# Runs of calls

A call that reaches a row is a `Row.call` on it; any other call fails and leaves the rows as they
are.  The invariant holds of every new table and is kept by every call, so it holds of every
reachable world.
-/

namespace VectorStore

namespace Table

variable [DecimalNormalizer] {table : Table} {store : Store} {shelf : Shelf}

/-- A call that reaches no row fails and leaves the rows as they are. -/
structure Refused (table : Table) (store : Store) (shelf : Shelf)
    (outcome : Except Failure (List Operation) × Table) : Prop where
  error : ∃ e, outcome.1 = .error e
  consistent : outcome.2.Consistent store shelf
  same : table.SameRows outcome.2

omit [DecimalNormalizer] in
theorem Refused.of_sameRows {table' : Table} (h : table'.Consistent store shelf)
    (hsame : table.SameRows table') (e : Failure) : table.Refused store shelf (.error e, table') :=
  ⟨⟨e, rfl⟩, h, hsame⟩

/-! ## `delete` -/

/-- A `delete` that reaches a row. -/
theorem delete_stepped (h : table.Consistent store shelf) {indexKey : IndexKey}
    {raw key : PrimaryKey} {timestamp : Timestamp}
    (hreach : table.Reaches (.delete indexKey raw timestamp) key) :
    ∃ shelf', table.Stepped store shelf (.delete indexKey raw timestamp) key
      (table.delete indexKey raw timestamp) shelf' := by
  obtain ⟨hindex, hkey, hready⟩ := hreach
  obtain ⟨id, table', hadd, hfound⟩ := addPrimaryKey_spec h hkey hready
  have hindex' : ¬indexKey ≠ table.indexKey := not_not.mpr hindex
  have hadd' : table.addPrimaryKey raw = (.ok id, table') := hadd
  refine hfound.stepped (.delete indexKey raw timestamp) ?_ _ ?_ ?_
  · rintro ⟨i, p, v, hcall⟩
    cases hcall
  · intro e he
    cases he
  · intro split hsplit
    obtain rfl := Except.ok.inj hsplit
    rw [← hfound.schema]
    unfold delete
    rw [if_neg hindex', hadd']
    rfl

/-- A `delete` that reaches no row. -/
theorem delete_refused (h : table.Consistent store shelf) {indexKey : IndexKey} {raw : PrimaryKey}
    {timestamp : Timestamp} (hreach : ∀ key, ¬table.Reaches (.delete indexKey raw timestamp) key) :
    table.Refused store shelf (table.delete indexKey raw timestamp) := by
  unfold delete
  by_cases hindex : indexKey = table.indexKey
  · rw [if_neg (not_not.mpr hindex)]
    cases hkey : table.normalizePrimaryKey raw with
    | error e =>
      have hadd : table.addPrimaryKey raw = (.error e, table) := by
        unfold addPrimaryKey
        simp only [hkey]
      rw [hadd]
      exact Refused.of_sameRows h (SameRows.refl table) e
    | ok key =>
      rw [addPrimaryKey_of_not_canFind hkey fun hfind => hreach key ⟨hindex, hkey, hfind⟩]
      exact Refused.of_sameRows h (SameRows.refl table) _
  · rw [if_pos hindex]
    exact Refused.of_sameRows h (SameRows.refl table) _

/-! ## `upsert` -/

/-- An `upsert` after its reservations. -/
theorem upsert_eq (h : table.Consistent store shelf) (indexKey : IndexKey) (raw : PrimaryKey)
    (values : NonemptyBox (Timestamped DbIndexedValue)) :
    (∃ e, table.reservePrimaryIds.1 = .error e ∧
      table.upsert indexKey raw values = (.error e, table.reservePrimaryIds.2)) ∨
    (table.reservePrimaryIds.1 = .ok () ∧ ∃ reserved : Table,
      reserved = table.reservePrimaryIds.2.reservePartitionIds.2 ∧
      reserved.Consistent store shelf ∧ table.SameRows reserved ∧
      reserved.freePrimaryIds ≠ [] ∧ reserved.index.data.HasFree ∧
      table.upsert indexKey raw values =
        if indexKey ≠ reserved.indexKey then
          (.error (.error s!"Index key IndexKey({indexKey.name.quote}) not found"), reserved)
        else
          match reserved.addPrimaryKey raw with
          | (.error e, table') => (.error e, table')
          | (.ok id, table') =>
            match splitValuesFiltering values with
            | .error e => (.error e, table')
            | .ok split => table'.finish id
                ((Call.upsert indexKey raw values).writes table'.schema split) split) := by
  obtain ⟨hcons, hsame, hfree⟩ := reservePrimaryIds_spec h
  unfold upsert
  cases hres : table.reservePrimaryIds with
  | mk result table1 =>
    rw [hres] at hcons hsame hfree
    dsimp only at hcons hsame hfree
    cases result with
    | error e => exact Or.inl ⟨e, rfl, rfl⟩
    | ok _ =>
      right
      obtain ⟨hok, hcons', hsame', hids, hhas⟩ := reservePartitionIds_spec hcons
      refine ⟨rfl, table1.reservePartitionIds.2, rfl, hcons', hsame.trans hsame', ?_, hhas, ?_⟩
      · rw [hids]
        exact hfree rfl
      · dsimp only
        generalize table1.reservePartitionIds = outcome at hok ⊢
        obtain ⟨result', reserved⟩ := outcome
        obtain rfl : result' = .ok () := hok
        dsimp only
        split
        · rfl
        · cases reserved.addPrimaryKey raw with
          | mk result'' table' =>
            cases result'' with
            | error e => rfl
            | ok id =>
              dsimp only
              cases splitValuesFiltering values with
              | error e => rfl
              | ok split =>
                dsimp only
                unfold finish updateColumns Call.writes
                rw [nonpkPartitionKeyColumns_eq]
                rfl

omit [DecimalNormalizer] in
/-- What a call does to a table with the same rows. -/
theorem Stepped.of_sameRows {reserved : Table} (hsame : table.SameRows reserved) {call : Call}
    {key : PrimaryKey} {outcome : Except Failure (List Operation) × Table} {shelf' : Shelf}
    (h : reserved.Stepped store shelf call key outcome shelf') :
    table.Stepped store shelf call key outcome shelf' := by
  obtain ⟨haccepts, hcons, hschema, hknown, hrows, hok, hadds⟩ := h
  rw [hsame.schema] at hschema hrows hok hadds
  rw [hsame.rows, hsame.present] at hrows hadds
  rw [hsame.primaryIds] at hknown
  exact ⟨haccepts, hcons, hschema, hknown, hrows, hok, hadds⟩

/-- An `upsert` that reaches a row. -/
theorem upsert_stepped (h : table.Consistent store shelf) {indexKey : IndexKey}
    {raw key : PrimaryKey} {values : NonemptyBox (Timestamped DbIndexedValue)}
    (hreach : table.Reaches (.upsert indexKey raw values) key) :
    ∃ shelf', table.Stepped store shelf (.upsert indexKey raw values) key
      (table.upsert indexKey raw values) shelf' := by
  obtain ⟨hindex, hkey, hready⟩ := hreach
  have hready' : table.reservePrimaryIds.1 = .ok () := hready
  rcases upsert_eq h indexKey raw values with
    ⟨e, he, -⟩ | ⟨-, reserved, -, hcons, hsame, hfree, hhas, heq⟩
  · rw [hready'] at he
    cases he
  · have hkey' : reserved.normalizePrimaryKey raw = .ok key := by
      rw [normalizePrimaryKey_congr hsame.schema]
      exact hkey
    have hindex' : ¬indexKey ≠ reserved.indexKey := by
      have hsameKey : reserved.indexKey = table.indexKey := congrArg Schema.indexKey hsame.schema
      rw [hsameKey]
      exact not_not.mpr hindex
    obtain ⟨id, table', hadd, hfound⟩ := addPrimaryKey_spec hcons hkey' (Or.inr hfree)
    rw [heq, if_neg hindex', hadd]
    suffices hs : ∃ shelf', reserved.Stepped store shelf (.upsert indexKey raw values) key
        (match splitValuesFiltering values with
          | .error e => (.error e, table')
          | .ok split => table'.finish id
              ((Call.upsert indexKey raw values).writes table'.schema split) split) shelf' by
      obtain ⟨shelf', hs⟩ := hs
      exact ⟨shelf', hs.of_sameRows hsame⟩
    refine hfound.stepped (.upsert indexKey raw values) (fun _ => hhas) _ ?_ ?_
    · intro e he
      have he' : splitValuesFiltering values = .error e := he
      rw [he']
    · intro split hs
      have hs' : splitValuesFiltering values = .ok split := hs
      rw [hs', hfound.schema]

/-- An `upsert` that reaches no row. -/
theorem upsert_refused (h : table.Consistent store shelf) {indexKey : IndexKey} {raw : PrimaryKey}
    {values : NonemptyBox (Timestamped DbIndexedValue)}
    (hreach : ∀ key, ¬table.Reaches (.upsert indexKey raw values) key) :
    table.Refused store shelf (table.upsert indexKey raw values) := by
  obtain ⟨hcons, hsame, -⟩ := reservePrimaryIds_spec h
  rcases upsert_eq h indexKey raw values with
    ⟨e, -, heq⟩ | ⟨hready, reserved, -, hcons', hsame', hfree, -, heq⟩
  · rw [heq]
    exact Refused.of_sameRows hcons hsame e
  · rw [heq]
    have hindexKey : reserved.indexKey = table.indexKey := congrArg Schema.indexKey hsame'.schema
    split
    · exact Refused.of_sameRows hcons' hsame' _
    · next hindex =>
      cases hkey : table.normalizePrimaryKey raw with
      | error e =>
        have hkey' : reserved.normalizePrimaryKey raw = .error e := by
          rw [normalizePrimaryKey_congr hsame'.schema, hkey]
        have hadd : reserved.addPrimaryKey raw = (.error e, reserved) := by
          unfold addPrimaryKey
          simp only [hkey']
        rw [hadd]
        exact Refused.of_sameRows hcons' hsame' e
      | ok key =>
        rw [hindexKey] at hindex
        exact absurd ⟨not_not.mp hindex, hkey, hready⟩ (hreach key)

/-! ## Any call -/

/-- A call that reaches a row. -/
theorem call_stepped (h : table.Consistent store shelf) {call : Call} {key : PrimaryKey}
    (hreach : table.Reaches call key) :
    ∃ shelf', table.Stepped store shelf call key (table.call call) shelf' := by
  cases call with
  | upsert indexKey raw values => exact upsert_stepped h hreach
  | delete indexKey raw timestamp => exact delete_stepped h hreach

/-- A call that reaches no row. -/
theorem call_refused (h : table.Consistent store shelf) {call : Call}
    (hreach : ∀ key, ¬table.Reaches call key) : table.Refused store shelf (table.call call) := by
  cases call with
  | upsert indexKey raw values => exact upsert_refused h hreach
  | delete indexKey raw timestamp => exact delete_refused h hreach

end Table

end VectorStore
