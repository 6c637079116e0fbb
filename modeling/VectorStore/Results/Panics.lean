import VectorStore.Results.Normalization

/-!
# Where an upsert or a delete panics

The one panic on the way of a call is the conversion of a normalized decimal, whose scale is lower
than that of the decimal by the number of zeros stripped.  Nothing bounds this number, so the scale
can leave the range of `i32` at its lower end.
-/

namespace VectorStore

/-! ## Results without a panic -/

/-- The result is not a panic. -/
def Completes {α : Type} (result : Except Failure α) : Prop :=
  ∀ message, result ≠ .error (.panic message)

namespace Completes

variable {α β : Type} {result : Except Failure α} {f : α → Except Failure β}

theorem ok (a : α) : Completes (.ok a : Except Failure α) := fun _ h => nomatch h

theorem error (message : String) : Completes (.error (.error message) : Except Failure α) :=
  fun _ h => nomatch h

theorem of_exists (h : ∃ a, result = .ok a) : Completes result := by
  obtain ⟨a, rfl⟩ := h
  exact ok a

/-- An error that is passed on. -/
theorem of_error {e : Failure} (h : Completes (.error e : Except Failure α)) :
    Completes (.error e : Except Failure β) :=
  fun message heq => h message (congrArg Except.error (Except.error.inj heq))

theorem bind (h : Completes result) (hf : ∀ a, Completes (f a)) : Completes (result >>= f) := by
  cases result with
  | ok a => exact hf a
  | error e => exact h.of_error

theorem map (h : Completes result) (g : α → β) : Completes (result.map g) := by
  cases result with
  | ok a => exact ok (g a)
  | error e => exact h.of_error

theorem mapM (hf : ∀ a, Completes (f a)) (xs : List α) : Completes (xs.mapM f) := by
  induction xs with
  | nil => exact ok []
  | cons x xs ih =>
    rw [List.mapM_cons]
    exact (hf x).bind fun y => ih.bind fun ys => ok (y :: ys)

end Completes

/-! ## The steps of a call -/

theorem Column.completes_write (column : Column) (id : PrimaryId) (write : ColumnWrite) :
    Completes (column.write id write) := by
  have hupdate : ∀ {α : Type} (vec : ColumnVec PrimaryId (Timestamped α)) value,
      Completes (vec.update id value) := by
    intro α vec value
    unfold ColumnVec.update
    split
    · exact .error _
    · exact .ok _
  unfold Column.write Column.insert Column.remove
  split
  · split
    · split
      · exact (hupdate _ _).map _
      · exact .error _
    · exact .error _
  · split
    · exact (hupdate _ _).map _
    · exact .error _

theorem completes_updateColumnsLoop (id : PrimaryId) (columns : Columns)
    (writes : List (ColumnWrite × ColumnName)) :
    Completes (updateColumnsLoop id columns writes).1 := by
  induction writes generalizing columns with
  | nil => exact .ok ()
  | cons head rest ih =>
    obtain ⟨write, name⟩ := head
    unfold updateColumnsLoop
    split
    · exact .error _
    · next column _ =>
      have hwrite := column.completes_write id write
      split
      · next e he =>
        rw [he] at hwrite
        exact hwrite.of_error
      · exact ih _

namespace Table

theorem completes_splitValuesFiltering (values : NonemptyBox (Timestamped DbIndexedValue)) :
    Completes (splitValuesFiltering values) := by
  have hvalue : Completes (splitValue values.first.value) := by
    unfold splitValue
    split
    · exact .ok _
    · exact .ok _
    · exact .error _
    · exact .ok _
  have hfiltering : ∀ value, Completes (splitFiltering value) := by
    intro value
    unfold splitFiltering
    split
    · exact .ok _
    · exact .error _
    · exact .error _
    · exact .ok _
  exact hvalue.bind fun split => (Completes.mapM hfiltering _).bind fun filtering => .ok _

theorem completes_split (call : Call) : Completes call.split := by
  cases call with
  | upsert indexKey raw values => exact completes_splitValuesFiltering values
  | delete indexKey raw timestamp => exact .ok _

variable {table : Table} {store : Store} {shelf : Shelf} {key : PrimaryKey} {id : PrimaryId}

theorem completes_reservePrimaryIds (table : Table) : Completes table.reservePrimaryIds.1 := by
  unfold reservePrimaryIds
  split
  · exact .ok ()
  · dsimp only
    split
    · exact .error _
    · exact .ok ()

/-- What follows once the row is found does not panic. -/
theorem completes_finish (h : table.Consistent store shelf)
    (hid : table.primaryIds.lookup key = some id) (writes : List (ColumnWrite × ColumnName))
    {split : SplitValuesFiltering} {t : Timestamped Unit} (ht : split.timestamps = ⟨t, []⟩)
    (hvalue : t.value.isSome = split.values.isSome)
    (hfree : split.values.isSome → table.index.data.HasFree) :
    Completes (table.finish id writes split).1 := by
  obtain ⟨shelf', hcalled⟩ := finish_spec h hid writes ht hvalue hfree rfl
  by_cases hall : writes.all (accepts table.schema.shape) = true
  · exact .of_exists (hcalled.ok_iff.mpr hall)
  · have hup := updateColumnsLoop_updated h.columns (h.lt_size hid) writes
    have hcompletes := completes_updateColumnsLoop id table.columns writes
    unfold finish
    generalize updateColumnsLoop id table.columns writes = outcome at hup hcompletes
    obtain ⟨result, columns⟩ := outcome
    cases result with
    | ok _ => exact absurd (hup.ok_iff.mp rfl) hall
    | error e => exact hcompletes.of_error

variable [DecimalNormalizer]

/-- Finding an identifier panics where the normalization does. -/
theorem completes_addPrimaryKey_iff {raw : PrimaryKey} :
    Completes (table.addPrimaryKey raw).1 ↔ Completes (table.normalizePrimaryKey raw) := by
  unfold addPrimaryKey
  split
  · next e he =>
    rw [he]
    exact ⟨Completes.of_error, Completes.of_error⟩
  · next key hkey =>
    rw [hkey]
    refine iff_of_true ?_ (.ok key)
    split
    · exact .ok _
    · exact .error _
    · dsimp only
      split
      · exact .error _
      · exact .ok _

/-- What a call does with its identifier. -/
def Continues (table' : Table) (call : Call) (id : PrimaryId) : Except Failure (List Operation) :=
  match call.split with
  | .error e => .error e
  | .ok split => (table'.finish id (call.writes table'.schema split) split).1

omit [DecimalNormalizer] in
/-- What follows once the identifier of a key is found does not panic. -/
theorem Found.completes {call : Call} {table' : Table}
    (hfound : table.Found store shelf call.primaryKey key id table')
    (hfree : (∃ i p v, call = .upsert i p v) → table.index.data.HasFree) :
    Completes (Continues table' call id) := by
  unfold Continues
  split
  · next e he =>
    have hsplit := completes_split call
    rw [he] at hsplit
    exact hsplit.of_error
  · next split hsplit =>
    obtain ⟨t, ht, hvalue⟩ := Call.split_spec hsplit
    refine completes_finish hfound.consistent hfound.lookup _ ht hvalue fun hsome => ?_
    rw [hfound.index]
    refine hfree ?_
    cases call with
    | upsert i p v => exact ⟨i, p, v, rfl⟩
    | delete i p v =>
      obtain rfl := Except.ok.inj hsplit
      cases hsome

/-- What a call returns, from finding its identifier on. -/
def proceed (table : Table) (call : Call) : Except Failure (List Operation) :=
  match table.addPrimaryKey call.primaryKey with
  | (.error e, _) => .error e
  | (.ok id, table') => Continues table' call id

/-- From finding its identifier on, a call panics where the normalization does. -/
theorem completes_proceed_iff (h : table.Consistent store shelf) (call : Call)
    (hfree : (∃ i p v, call = .upsert i p v) → table.index.data.HasFree) :
    Completes (table.proceed call) ↔ Completes (table.normalizePrimaryKey call.primaryKey) := by
  have hadd : Completes (table.addPrimaryKey call.primaryKey).1 ↔
      Completes (table.normalizePrimaryKey call.primaryKey) := completes_addPrimaryKey_iff
  unfold proceed
  rw [← hadd]
  cases hkey : table.normalizePrimaryKey call.primaryKey with
  | error e =>
    have heq : table.addPrimaryKey call.primaryKey = (.error e, table) := by
      unfold addPrimaryKey
      simp only [hkey]
    rw [heq]
    exact ⟨Completes.of_error, Completes.of_error⟩
  | ok key =>
    rw [hadd, hkey]
    refine iff_of_true ?_ (.ok key)
    by_cases hfind : table.CanFind key
    · obtain ⟨id, table', heq, hfound⟩ := addPrimaryKey_spec h hkey hfind
      rw [heq]
      exact hfound.completes hfree
    · rw [addPrimaryKey_of_not_canFind hkey hfind]
      exact .error _

theorem delete_eq (indexKey : IndexKey) (raw : PrimaryKey) (timestamp : Timestamp) :
    (table.delete indexKey raw timestamp).1 =
      if indexKey ≠ table.indexKey then
        .error (.error s!"Index key IndexKey({indexKey.name.quote}) not found")
      else table.proceed (.delete indexKey raw timestamp) := by
  unfold delete proceed
  split
  · rfl
  · change _ = match table.addPrimaryKey raw with
      | (.error e, _) => Except.error e
      | (.ok id, table') => Continues table' (.delete indexKey raw timestamp) id
    obtain ⟨result, table'⟩ := table.addPrimaryKey raw
    cases result with
    | error e => rfl
    | ok id => rfl

theorem upsert_tail (indexKey : IndexKey) (raw : PrimaryKey)
    (values : NonemptyBox (Timestamped DbIndexedValue)) :
    table.proceed (.upsert indexKey raw values) =
      (match table.addPrimaryKey raw with
      | (.error e, table') => (Except.error e, table')
      | (.ok id, table') =>
        match splitValuesFiltering values with
        | .error e => (.error e, table')
        | .ok split => table'.finish id
            ((Call.upsert indexKey raw values).writes table'.schema split) split).1 := by
  unfold proceed
  change (match table.addPrimaryKey raw with
    | (.error e, _) => Except.error e
    | (.ok id, table') => Continues table' (.upsert indexKey raw values) id) = _
  obtain ⟨result, table'⟩ := table.addPrimaryKey raw
  cases result with
  | error e => rfl
  | ok id =>
    change (match splitValuesFiltering values with
      | .error e => Except.error e
      | .ok split => (table'.finish id
          ((Call.upsert indexKey raw values).writes table'.schema split) split).1) = _
    dsimp only
    cases splitValuesFiltering values with
    | error e => rfl
    | ok split => rfl

/-- The call gets past its reservations. -/
def Reserves (table : Table) : Call → Prop
  | .upsert _ _ _ => table.reservePrimaryIds.1 = .ok ()
  | .delete _ _ _ => True

/-- A call on the index of the table panics where the normalization of its key does. -/
theorem completes_call_iff (h : table.Consistent store shelf) (call : Call) :
    Completes (table.call call).1 ↔ (call.indexKey = table.indexKey → table.Reserves call →
      Completes (table.normalizePrimaryKey call.primaryKey)) := by
  cases call with
  | delete indexKey raw timestamp =>
    change Completes (table.delete indexKey raw timestamp).1 ↔ _
    rw [delete_eq]
    by_cases hindex : indexKey = table.indexKey
    · rw [if_neg (not_not.mpr hindex), completes_proceed_iff h]
      · exact ⟨fun hc _ _ => hc, fun hc => hc hindex trivial⟩
      · rintro ⟨_, _, _, hcall⟩
        cases hcall
    · rw [if_pos hindex]
      exact iff_of_true (.error _) fun hindex' => absurd hindex' hindex
  | upsert indexKey raw values =>
    change Completes (table.upsert indexKey raw values).1 ↔ _
    rcases upsert_eq h indexKey raw values with
      ⟨e, he, heq⟩ | ⟨hready, reserved, -, hcons, hsame, -, hhas, heq⟩
    · have hres := table.completes_reservePrimaryIds
      rw [he] at hres
      rw [heq]
      refine iff_of_true hres.of_error fun _ hready => ?_
      have hready' : table.reservePrimaryIds.1 = .ok () := hready
      rw [he] at hready'
      cases hready'
    · have hindexKey : reserved.indexKey = table.indexKey := congrArg Schema.indexKey hsame.schema
      rw [heq, hindexKey]
      by_cases hindex : indexKey = table.indexKey
      · have hproceed := completes_proceed_iff hcons (.upsert indexKey raw values) fun _ => hhas
        rw [normalizePrimaryKey_congr hsame.schema, upsert_tail] at hproceed
        rw [if_neg (not_not.mpr hindex)]
        exact hproceed.trans ⟨fun hc _ _ => hc, fun hc => hc hindex hready⟩
      · rw [if_pos hindex]
        exact iff_of_true (.error _) fun hindex' => absurd hindex' hindex

end Table

/-! ## Scales -/

/-- The scale of the normalized decimal fits `i32`. -/
def CqlDecimal.ScaleFits (d : CqlDecimal) : Prop :=
  d.scaled.digits = 0 ∨ -2 ^ 31 ≤ d.scaled.scale - d.scaled.zeros

/-- The scales of the decimals among the clustering columns fit. -/
def Table.ScalesFit (table : Table) (raw : PrimaryKey) : Prop :=
  table.needsCkNormalization = true →
    ∀ d, .decimal d ∈ raw.key.values.drop table.partitionPrimaryKeyCount → d.ScaleFits

section Scales

variable [DecimalNormalizer] {toBytes : ℤ → List UInt8} {table : Table} {raw : PrimaryKey}

omit [DecimalNormalizer] in
/-- Every element of the first list is related to one of the second. -/
theorem exists_of_forall₂_mem {α β : Type} {R : α → β → Prop} {xs : List α} {ys : List β}
    (h : List.Forall₂ R xs ys) {x : α} (hx : x ∈ xs) : ∃ y ∈ ys, R x y := by
  induction h with
  | nil => cases hx
  | cons hxy _ ih =>
    rcases List.mem_cons.mp hx with rfl | hx
    · exact ⟨_, List.mem_cons_self, hxy⟩
    · obtain ⟨y, hy, hrel⟩ := ih hx
      exact ⟨y, List.mem_cons_of_mem _ hy, hrel⟩

/-- A decimal normalizes where the scale fits. -/
theorem StripsZeros.isSome_iff (h : StripsZeros toBytes) (d : CqlDecimal) :
    (DecimalNormalizer.normalized d).isSome ↔ d.ScaleFits := by
  have hlt : d.scaled.scale < 2 ^ 31 := d.scale.toInt_lt
  have hfits : d.scaled.normalized.Fits ↔ d.ScaleFits := by
    unfold Scaled.Fits Scaled.normalized CqlDecimal.ScaleFits
    by_cases hzero : d.scaled.digits = 0
    · rw [if_pos hzero]
      exact iff_of_true ⟨by norm_num, by norm_num⟩ (Or.inl hzero)
    · rw [if_neg hzero, or_iff_right hzero]
      refine and_iff_left ?_
      dsimp only
      omega
  rw [h.normalized, Scaled.toCqlDecimal, ← hfits]
  split
  · next hscale => exact iff_of_true rfl hscale
  · next hscale => exact iff_of_false Bool.false_ne_true hscale

/-- Only a decimal whose scale does not fit has no normal form. -/
theorem normalize_eq_error {value : CqlValue} {e : Failure} (h : normalize value = .error e) :
    ∃ d, value = .decimal d ∧ DecimalNormalizer.normalized d = none ∧
      e = .panic "normalized decimal scale fits i32" := by
  cases value with
  | decimal d =>
    simp only [normalize] at h
    cases hd : DecimalNormalizer.normalized d with
    | none =>
      rw [hd] at h
      exact ⟨d, rfl, hd, (Except.error.inj h).symm⟩
    | some d' =>
      rw [hd] at h
      cases h
  | _ => cases h

/-- The normalization of a key fails at one of its clustering columns. -/
theorem Table.exists_of_normalizePrimaryKey_eq_error {e : Failure}
    (h : table.normalizePrimaryKey raw = .error e) : table.needsCkNormalization = true ∧
      ∃ value ∈ raw.key.values.drop table.partitionPrimaryKeyCount, normalize value = .error e := by
  unfold normalizePrimaryKey at h
  cases hneeds : table.needsCkNormalization with
  | false =>
    rw [hneeds] at h
    cases h
  | true =>
    rw [hneeds, if_neg (by decide)] at h
    refine ⟨rfl, ?_⟩
    generalize hvalues : List.mapM (m := Except Failure) _ raw.key.values.zipIdx = result at h
    cases result with
    | ok values => cases h
    | error e' =>
      obtain rfl := Except.error.inj h
      obtain ⟨⟨value, idx⟩, hmem, hvalue⟩ := exists_of_mapM_eq_error hvalues
      dsimp only at hvalue
      split at hvalue
      · next hidx =>
        rw [List.mem_zipIdx_iff_getElem?] at hmem
        refine ⟨value, List.mem_of_getElem? (i := idx - table.partitionPrimaryKeyCount) ?_, hvalue⟩
        rw [List.getElem?_drop, Nat.add_sub_cancel' hidx]
        exact hmem
      · cases hvalue

/-- The normalization of a key panics exactly where a scale does not fit. -/
theorem StripsZeros.completes_normalizePrimaryKey_iff (h : StripsZeros toBytes) :
    Completes (table.normalizePrimaryKey raw) ↔ table.ScalesFit raw := by
  constructor
  · intro hcompletes hneeds d hd
    rw [← h.isSome_iff, ← Option.ne_none_iff_isSome]
    intro hnone
    cases hkey : table.normalizePrimaryKey raw with
    | error e =>
      obtain ⟨-, value, -, hvalue⟩ := Table.exists_of_normalizePrimaryKey_eq_error hkey
      obtain ⟨-, -, -, rfl⟩ := normalize_eq_error hvalue
      exact hcompletes _ hkey
    | ok key =>
      rw [Table.normalizePrimaryKey_iff, if_pos hneeds] at hkey
      obtain ⟨value', -, hvalue⟩ := exists_of_forall₂_mem hkey.clustering hd
      simp only [normalize, hnone] at hvalue
      cases hvalue
  · intro hfit message hkey
    obtain ⟨hneeds, value, hmem, hvalue⟩ := Table.exists_of_normalizePrimaryKey_eq_error hkey
    obtain ⟨d, rfl, hnone, -⟩ := normalize_eq_error hvalue
    have hsome := (h.isSome_iff d).mpr (hfit hneeds d hmem)
    rw [hnone] at hsome
    cases hsome

end Scales

/-- A call completes without a panic if and only if it does not get to its key, or the scales of the
decimals in the key fit. -/
theorem World.call_completes_iff [DecimalNormalizer] {toBytes : ℤ → List UInt8}
    (hzeros : StripsZeros toBytes) {w : World} (hw : w.Reachable) (call : Call) :
    Completes (w.result call) ↔ (call.indexKey = w.table.indexKey → w.table.Reserves call →
      w.table.ScalesFit call.primaryKey) := by
  have hcall := Table.completes_call_iff hw.consistent call
  rw [hzeros.completes_normalizePrimaryKey_iff] at hcall
  exact hcall

attribute [local instance] Sample.stripping

theorem World.call_completes_iff_decimalTable :
    Completes ((World.init Sample.decimalTable).result (Sample.upsertDecimal [10] 1 0)) ↔
      ((Sample.upsertDecimal [10] 1 0).indexKey = (World.init Sample.decimalTable).table.indexKey →
        (World.init Sample.decimalTable).table.Reserves (Sample.upsertDecimal [10] 1 0) →
        (World.init Sample.decimalTable).table.ScalesFit
          (Sample.upsertDecimal [10] 1 0).primaryKey) :=
  World.call_completes_iff Sample.stripsZeros_stripping
    ⟨Sample.decimalTable, [], Sample.isNew_decimalTable, rfl⟩ _

/-- The digits `10` at the least scale: one zero is stripped, and the scale does not fit. -/
theorem not_scaleFits_min : ¬CqlDecimal.ScaleFits ⟨[10], Int32.minValue⟩ := by
  generalize hd : (CqlDecimal.mk [10] Int32.minValue).scaled = d
  have hdigits : d.digits = 10 := by
    rw [← hd]
    decide
  have hscale : d.scale = -2 ^ 31 := by
    rw [← hd]
    decide
  have hzeros : 1 ≤ d.zeros :=
    (Scaled.pow_dvd_iff (by rw [hdigits]; decide)).mp (by rw [hdigits]; decide)
  unfold CqlDecimal.ScaleFits
  rw [hd, hdigits, hscale]
  omega

/-- An upsert of a row panics whose key has the decimal 10 at the least scale. -/
theorem call_not_always_completes :
    ¬∀ (w : World) (call : Call), w.Reachable → Completes (w.result call) := by
  intro h
  have hreach : (World.init Sample.decimalTable).Reachable :=
    ⟨Sample.decimalTable, [], Sample.isNew_decimalTable, rfl⟩
  have hfree : Sample.decimalTable.freePrimaryIds.isEmpty = false := by decide +kernel
  have hreserves : Sample.decimalTable.reservePrimaryIds.1 = .ok () := by
    unfold Table.reservePrimaryIds
    rw [hfree]
    rfl
  have hcompletes := h _ (Sample.upsertDecimal [10] Int32.minValue 0) hreach
  have hkey := (Table.completes_call_iff hreach.consistent _).mp hcompletes (by decide +kernel)
    hreserves
  have hfits := Sample.stripsZeros_stripping.completes_normalizePrimaryKey_iff.mp hkey
  refine not_scaleFits_min (hfits (by decide +kernel) _ ?_)
  have hcount : (World.init Sample.decimalTable).table.partitionPrimaryKeyCount = 1 := by
    decide +kernel
  rw [hcount]
  exact List.mem_singleton.mpr rfl

end VectorStore
