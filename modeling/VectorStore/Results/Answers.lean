import VectorStore.VsIndex.Collect

/-!
# Answers are aligned

The keys, the distances and the values of every column of an answer have one length, and what stands
at a position of any of them belongs to one match: the matches whose row is still there, in their
order.
-/

namespace VectorStore

/-- The value of a valid identifier's row is the one that is reported. -/
theorem Table.columnValueFor_of_primaryKey {table : Table} {partitionId : PartitionId}
    {primaryId : PrimaryId} {key : PrimaryKey}
    (h : table.primaryKey partitionId primaryId = some key) (column : ColumnName) :
    table.columnValueFor partitionId primaryId column = table.columnValue primaryId column := by
  unfold Table.primaryKey at h
  unfold Table.columnValueFor
  split at h
  · cases h
  · next hvalid => exact if_neg hvalid

namespace Usearch

theorem lookup_emptyColumnValues (returnColumns : List ColumnName) (column : ColumnName) :
    (emptyColumnValues returnColumns).lookup column =
      if column ∈ returnColumns then some [] else none := by
  unfold emptyColumnValues
  rcases FiniteMap.lookup_foldl_insert id (fun _ => ([] : List (Option CqlValue))) returnColumns ∅
    column with ⟨x, hx, heq, hlookup⟩ | ⟨hne, hlookup⟩
  · obtain rfl : x = column := heq
    rw [if_pos hx]
    exact hlookup
  · rw [if_neg fun hmem => hne column hmem rfl]
    exact hlookup.trans (AList.lookup_empty _)

variable {table : Table} {partitionId : PartitionId} {returnColumns : List ColumnName}
  {targetColumn : Option ColumnName}

/-- A match whose row is still there. -/
def validHit (table : Table) (partitionId : PartitionId) :
    Except String (PrimaryId × Distance) → Option (PrimaryId × Distance)
  | .ok hit => if (table.primaryKey partitionId hit.1).isSome then some hit else none
  | .error _ => none

/-- The matches whose row is still there, in their order. -/
def hits (table : Table) (partitionId : PartitionId)
    (found : List (Except String (PrimaryId × Distance))) : List (PrimaryId × Distance) :=
  found.filterMap (validHit table partitionId)

theorem hits_ok (hit : PrimaryId × Distance)
    (found : List (Except String (PrimaryId × Distance))) :
    hits table partitionId (.ok hit :: found) =
      (if (table.primaryKey partitionId hit.1).isSome then [hit] else []) ++
        hits table partitionId found := by
  unfold hits
  by_cases hkey : (table.primaryKey partitionId hit.1).isSome
  · have hvalid : validHit table partitionId (.ok hit) = some hit := if_pos hkey
    rw [if_pos hkey, List.filterMap_cons_some hvalid]
    rfl
  · have hstale : validHit table partitionId (.ok hit) = none := if_neg hkey
    rw [if_neg hkey, List.filterMap_cons_none hstale]
    rfl

/-! ## The first pass -/

/-- What was collected of some hits. -/
structure Collected.Holds (table : Table) (partitionId : PartitionId)
    (returnColumns : List ColumnName) (targetColumn : Option ColumnName) (collected : Collected)
    (hits : List (PrimaryId × Distance)) : Prop where
  primaryKeys : collected.answer.primaryKeys.map some =
    hits.map fun hit => table.primaryKey partitionId hit.1
  distances : collected.answer.distances = hits.map Prod.snd
  columnValues : ∀ column, collected.answer.columnValues.lookup column =
    if column ∈ returnColumns then some (if some column = targetColumn then []
      else hits.map fun hit => table.columnValue hit.1 column) else none
  targetPrimaryIds : collected.targetPrimaryIds =
    if targetColumn.isSome then hits.map Prod.fst else []

theorem holds_empty : Collected.Holds table partitionId returnColumns targetColumn
    ⟨⟨[], [], emptyColumnValues returnColumns⟩, []⟩ [] where
  primaryKeys := rfl
  distances := rfl
  columnValues column := by
    rw [List.map_nil, ite_self]
    exact lookup_emptyColumnValues returnColumns column
  targetPrimaryIds := by rw [List.map_nil, ite_self]

/-- A match is collected when its row is still there. -/
theorem Collected.Holds.collectMatch {collected : Collected} {hits : List (PrimaryId × Distance)}
    (h : collected.Holds table partitionId returnColumns targetColumn hits) (primaryId : PrimaryId)
    (distance : Distance) :
    (collectMatch table partitionId targetColumn collected primaryId distance).Holds table
      partitionId returnColumns targetColumn
      (hits ++ (if (table.primaryKey partitionId primaryId).isSome then [(primaryId, distance)]
        else [])) := by
  unfold Usearch.collectMatch
  cases hkey : table.primaryKey partitionId primaryId with
  | none =>
    rw [Option.isSome_none, if_neg Bool.false_ne_true, List.append_nil]
    exact h
  | some key =>
    rw [Option.isSome_some, if_pos rfl]
    refine ⟨?_, ?_, fun column => ?_, ?_⟩
    · rw [List.map_append, List.map_append, h.primaryKeys, List.map_singleton, List.map_singleton,
        hkey]
    · dsimp only
      rw [List.map_append, h.distances]
      rfl
    · have hvalue := Table.columnValueFor_of_primaryKey hkey column
      dsimp only
      rw [FiniteMap.lookup_mapEntries, h.columnValues]
      by_cases hmem : column ∈ returnColumns
      · rw [if_pos hmem, if_pos hmem, Option.map_some]
        by_cases htarget : some column = targetColumn
        · simp only [htarget, ne_eq, not_true_eq_false, if_false, if_true]
        · rw [if_pos htarget, if_neg htarget, if_neg htarget, hvalue, List.map_append]
          rfl
      · rw [if_neg hmem, if_neg hmem]
        rfl
    · dsimp only
      rw [h.targetPrimaryIds]
      cases targetColumn with
      | none => rfl
      | some column =>
        rw [Option.isSome_some, if_pos rfl, if_pos rfl, if_pos rfl, List.map_append]
        rfl

/-- The loop over the matches fails when one of them is an error, or collects the hits. -/
theorem Collected.Holds.collectMatches {collected : Collected} {before : List (PrimaryId × Distance)}
    (h : collected.Holds table partitionId returnColumns targetColumn before)
    (found : List (Except String (PrimaryId × Distance))) :
    (∃ e, collectMatches table partitionId targetColumn collected found = .error e ∧
      .error e ∈ found) ∨
    (∀ e, .error e ∉ found) ∧ ∃ collected',
      collectMatches table partitionId targetColumn collected found = .ok collected' ∧
        collected'.Holds table partitionId returnColumns targetColumn
          (before ++ hits table partitionId found) := by
  induction found generalizing collected before with
  | nil =>
    refine Or.inr ⟨fun _ => List.not_mem_nil, collected, rfl, ?_⟩
    rw [hits, List.filterMap_nil, List.append_nil]
    exact h
  | cons m found ih =>
    cases m with
    | error e => exact Or.inl ⟨e, rfl, List.mem_cons_self⟩
    | ok hit =>
      obtain ⟨primaryId, distance⟩ := hit
      rcases ih (h.collectMatch primaryId distance) with ⟨e, herror, hmem⟩ | ⟨hnone, collected', hok, h'⟩
      · exact Or.inl ⟨e, herror, List.mem_cons_of_mem _ hmem⟩
      · refine Or.inr ⟨fun e hmem => ?_, collected', hok, ?_⟩
        · rcases List.mem_cons.mp hmem with heq | hmem
          · cases heq
          · exact hnone e hmem
        · rw [hits_ok, ← List.append_assoc]
          exact h'

/-! ## The second pass -/

section Target

variable {getVector : ℕ → PrimaryId → Except String (Option (List UInt32))}

/-- The value of the column of an index for a vector that was reconstructed. -/
def vectorValue (vector : Option (List UInt32)) : Option CqlValue :=
  vector.map fun vector => .vector (vector.map .float)

/-- The loop over the ids fails when one of their vectors cannot be reconstructed, or returns all of
them. -/
theorem reconstructAll_eq (call : ℕ) (ids : List PrimaryId) :
    ((∃ e, reconstructAll getVector call ids = .error e) ∧
      ∃ i id e, ids[i]? = some id ∧ getVector (call + i) id = .error e) ∨
    ∃ values, reconstructAll getVector call ids = .ok values ∧ values.length = ids.length ∧
      ∀ i id, ids[i]? = some id → ∃ vector, getVector (call + i) id = .ok vector ∧
        values[i]? = some (vectorValue vector) := by
  induction ids generalizing call with
  | nil => exact Or.inr ⟨[], rfl, rfl, fun i id hget => by cases hget⟩
  | cons id ids ih =>
    unfold reconstructAll reconstructTargetVector
    cases hfirst : getVector call id with
    | error e => exact Or.inl ⟨⟨_, rfl⟩, 0, id, e, rfl, hfirst⟩
    | ok vector =>
      have hcall : ∀ i, call + 1 + i = call + (i + 1) := fun i => by omega
      rcases ih (call + 1) with ⟨⟨e, herror⟩, i, id', e', hget, hfail⟩ | ⟨values, hok, hlen, hall⟩
      · rw [herror]
        exact Or.inl ⟨⟨e, rfl⟩, i + 1, id', e', hget, hcall i ▸ hfail⟩
      · rw [hok]
        refine Or.inr ⟨_ :: values, rfl, congrArg Nat.succ hlen, fun i id' hget => ?_⟩
        cases i with
        | zero =>
          obtain rfl := Option.some_inj.mp hget
          exact ⟨vector, hfirst, rfl⟩
        | succ i =>
          obtain ⟨vector', hvector, hvalue⟩ := hall i id' hget
          exact ⟨vector', hcall i ▸ hvector, hvalue⟩

/-! ## The answer -/

/-- The answer for some hits. -/
structure Answer.Aligned (table : Table) (partitionId : PartitionId)
    (returnColumns : List ColumnName)
    (getVector : ℕ → PrimaryId → Except String (Option (List UInt32)))
    (hits : List (PrimaryId × Distance)) (answer : Answer) : Prop where
  /-- The keys are those of the hits. -/
  primaryKeys : answer.primaryKeys.map some =
    hits.map fun hit => table.primaryKey partitionId hit.1
  distances : answer.distances = hits.map Prod.snd
  /-- There are values for the columns that were asked for. -/
  columns : ∀ column, (answer.columnValues.lookup column).isSome ↔ column ∈ returnColumns
  /-- There is a value for every hit: a vector reconstructed for its id, or what its row holds. -/
  values : ∀ column values, answer.columnValues.lookup column = some values →
    values.length = answer.primaryKeys.length ∧ values.length = answer.distances.length ∧
    ∀ i hit, hits[i]? = some hit →
      if table.targetColumn partitionId.indexId = some column then
        ∃ vector, getVector i hit.1 = .ok vector ∧ values[i]? = some (vectorValue vector)
      else values[i]? = some (table.columnValue hit.1 column)

/-- A match is an error, or the vector of a hit was asked for and cannot be reconstructed. -/
def Fails (table : Table) (partitionId : PartitionId) (returnColumns : List ColumnName)
    (getVector : ℕ → PrimaryId → Except String (Option (List UInt32)))
    (found : List (Except String (PrimaryId × Distance))) : Prop :=
  (∃ e, .error e ∈ found) ∨
    (∃ column ∈ returnColumns, table.targetColumn partitionId.indexId = some column) ∧
      ∃ i hit e, (hits table partitionId found)[i]? = some hit ∧ getVector i hit.1 = .error e

theorem Collected.Holds.length_primaryKeys {collected : Collected}
    {hits : List (PrimaryId × Distance)}
    (h : collected.Holds table partitionId returnColumns targetColumn hits) :
    collected.answer.primaryKeys.length = hits.length := by
  have hlen := congrArg List.length h.primaryKeys
  rwa [List.length_map, List.length_map] at hlen

theorem Collected.Holds.length_distances {collected : Collected}
    {hits : List (PrimaryId × Distance)}
    (h : collected.Holds table partitionId returnColumns targetColumn hits) :
    collected.answer.distances.length = hits.length := by
  rw [h.distances, List.length_map]

/-- What was collected without reconstructed vectors is an answer. -/
theorem Collected.Holds.aligned {collected : Collected} {hits : List (PrimaryId × Distance)}
    (h : collected.Holds table partitionId returnColumns none hits)
    (htarget : ∀ column ∈ returnColumns, table.targetColumn partitionId.indexId ≠ some column) :
    collected.answer.Aligned table partitionId returnColumns getVector hits where
  primaryKeys := h.primaryKeys
  distances := h.distances
  columns column := by
    rw [h.columnValues, if_neg (Option.some_ne_none column)]
    split <;> simp_all
  values column values hlookup := by
    rw [h.columnValues, if_neg (Option.some_ne_none column)] at hlookup
    split at hlookup
    · next hmem =>
      obtain rfl := Option.some_inj.mp hlookup
      rw [List.length_map]
      refine ⟨h.length_primaryKeys.symm, h.length_distances.symm, fun i hit hget => ?_⟩
      rw [if_neg (htarget column hmem), List.getElem?_map, hget]
      rfl
    · cases hlookup

/-- What was collected is an answer with the vectors of the hits. -/
theorem Collected.Holds.aligned_insert {collected : Collected} {hits : List (PrimaryId × Distance)}
    {column : ColumnName} (h : collected.Holds table partitionId returnColumns (some column) hits)
    (htarget : table.targetColumn partitionId.indexId = some column)
    (hmem : column ∈ returnColumns) {vectors : List (Option CqlValue)}
    (hlen : vectors.length = hits.length)
    (hvectors : ∀ i hit, hits[i]? = some hit → ∃ vector, getVector i hit.1 = .ok vector ∧
      vectors[i]? = some (vectorValue vector)) :
    Answer.Aligned table partitionId returnColumns getVector hits
      { collected.answer with
        columnValues := collected.answer.columnValues.insert column ([] ++ vectors) } where
  primaryKeys := h.primaryKeys
  distances := h.distances
  columns other := by
    rw [FiniteMap.lookup_insert_eq]
    by_cases heq : other = column
    · subst heq
      exact iff_of_true (by rw [if_pos rfl]; rfl) hmem
    · rw [if_neg heq, h.columnValues]
      split <;> simp_all
  values other values hlookup := by
    rw [FiniteMap.lookup_insert_eq] at hlookup
    rw [htarget]
    by_cases heq : other = column
    · subst heq
      rw [if_pos rfl] at hlookup
      obtain rfl := Option.some_inj.mp hlookup
      rw [List.nil_append, hlen]
      refine ⟨h.length_primaryKeys.symm, h.length_distances.symm, fun i hit hget => ?_⟩
      rw [if_pos rfl]
      exact hvectors i hit hget
    · have hne : some other ≠ some column := fun hsome => heq (Option.some_inj.mp hsome)
      rw [if_neg heq, h.columnValues, if_neg hne] at hlookup
      split at hlookup
      · obtain rfl := Option.some_inj.mp hlookup
        rw [List.length_map]
        refine ⟨h.length_primaryKeys.symm, h.length_distances.symm, fun i hit hget => ?_⟩
        rw [if_neg (Ne.symm hne), List.getElem?_map, hget]
        rfl
      · cases hlookup

/-- The answer to a search is aligned, unless a match is an error or a reconstruction fails. -/
theorem collect_results_aligned (table : Table) (partitionId : PartitionId)
    (returnColumns : List ColumnName)
    (getVector : ℕ → PrimaryId → Except String (Option (List UInt32)))
    (found : List (Except String (PrimaryId × Distance))) :
    match collectResults getVector table partitionId returnColumns found with
    | .ok answer =>
      answer.Aligned table partitionId returnColumns getVector (hits table partitionId found) ∧
        ¬Fails table partitionId returnColumns getVector found
    | .error (.error _) => Fails table partitionId returnColumns getVector found
    | .error (.panic _) => False := by
  have hempty : (if !returnColumns.isEmpty then (table.targetColumn partitionId.indexId).filter
      fun column => returnColumns.contains column else none) =
        (table.targetColumn partitionId.indexId).filter fun column =>
          returnColumns.contains column := by
    cases returnColumns with
    | nil => cases table.targetColumn partitionId.indexId <;> rfl
    | cons column rest => rfl
  unfold collectResults
  rw [hempty]
  dsimp only
  generalize htargetColumn : ((table.targetColumn partitionId.indexId).filter fun column =>
    returnColumns.contains column) = targetColumn
  have hholds := @holds_empty table partitionId returnColumns targetColumn
  rcases hholds.collectMatches found with ⟨e, herror, hmem⟩ | ⟨hnone, collected, hok, h⟩
  · rw [herror]
    exact Or.inl ⟨e, hmem⟩
  rw [hok]
  rw [List.nil_append] at h
  dsimp only
  cases targetColumn with
  | none =>
    have htarget : ∀ column ∈ returnColumns,
        table.targetColumn partitionId.indexId ≠ some column := by
      intro column hmem hsome
      rw [hsome, Option.filter_some, if_pos (List.contains_iff_mem.mpr hmem)] at htargetColumn
      cases htargetColumn
    refine ⟨h.aligned htarget, ?_⟩
    rintro (⟨e, hmem⟩ | ⟨⟨column, hmem, hsome⟩, -⟩)
    · exact hnone e hmem
    · exact htarget column hmem hsome
  | some column =>
    obtain ⟨htarget, hcontains⟩ := Option.filter_eq_some_iff.mp htargetColumn
    have hmem : column ∈ returnColumns := List.contains_iff_mem.mp hcontains
    have hlookup : collected.answer.columnValues.lookup column = some [] := by
      rw [h.columnValues, if_pos hmem, if_pos rfl]
    have hids : collected.targetPrimaryIds = (hits table partitionId found).map Prod.fst :=
      h.targetPrimaryIds
    dsimp only
    rw [hlookup, hids]
    dsimp only
    rcases @reconstructAll_eq getVector 0 ((hits table partitionId found).map Prod.fst) with
      ⟨⟨e, herror⟩, i, id, e', hget, hfail⟩ | ⟨vectors, hvectors, hlen, hall⟩
    · rw [herror]
      rw [List.getElem?_map] at hget
      obtain ⟨hit, hhit, rfl⟩ := Option.map_eq_some_iff.mp hget
      exact Or.inr ⟨⟨column, hmem, htarget⟩, i, hit, e', hhit, Nat.zero_add i ▸ hfail⟩
    · rw [hvectors]
      have hall : ∀ i hit, (hits table partitionId found)[i]? = some hit →
          ∃ vector, getVector i hit.1 = .ok vector ∧ vectors[i]? = some (vectorValue vector) := by
        intro i hit hget
        have hid : ((hits table partitionId found).map Prod.fst)[i]? = some hit.1 := by
          rw [List.getElem?_map, hget]
          rfl
        obtain ⟨vector, hvector, hvalue⟩ := hall i hit.1 hid
        exact ⟨vector, Nat.zero_add i ▸ hvector, hvalue⟩
      refine ⟨h.aligned_insert htarget hmem (hlen.trans (List.length_map _)) hall, ?_⟩
      rintro (⟨e, hmem⟩ | ⟨-, i, hit, e, hget, hfail⟩)
      · exact hnone e hmem
      · obtain ⟨vector, hvector, -⟩ := hall i hit hget
        rw [hvector] at hfail
        cases hfail

end Target

end Usearch

end VectorStore
