import VectorStore.Results.Answers
import VectorStore.Results.Served

/-!
# Answers once the index is at rest

A match whose row is gone is dropped from an answer.  Once the actor has come to rest there is no such
match: every identifier that the index holds answers for the row whose vector it holds, so that every
match is in the answer, and a search that finds all of a partition answers with all of its rows.
-/

namespace VectorStore

namespace Usearch

variable {table : Table} {p : PartitionId} {returnColumns : List ColumnName}
  {getVector : ℕ → PrimaryId → Except String (Option (List UInt32))}
  {found : List (PrimaryId × Distance)} {answer : Answer}

/-- Matches with keys are all hits. -/
theorem hits_eq (hkeys : ∀ hit ∈ found, (table.primaryKey p hit.1).isSome) :
    hits table p (found.map .ok) = found := by
  induction found with
  | nil => rfl
  | cons hit found ih =>
    rw [List.map_cons, hits_ok, if_pos (hkeys hit List.mem_cons_self),
      ih fun hit' hmem => hkeys hit' (List.mem_cons_of_mem hit hmem)]
    rfl

/-- An answer has what was collected of the hits, and the vectors that were reconstructed. -/
theorem aligned_of_ok {results : List (Except String (PrimaryId × Distance))}
    (h : collectResults getVector table p returnColumns results = .ok answer) :
    answer.Aligned table p returnColumns getVector (hits table p results) := by
  unfold collectResults at h
  dsimp only at h
  generalize htargetColumn : (if !returnColumns.isEmpty then
    (table.targetColumn p.indexId).filter fun column => returnColumns.contains column
      else none) = targetColumn at h
  rcases (@holds_empty table p returnColumns targetColumn).collectMatches results with
    ⟨e, herror, -⟩ | ⟨-, collected, hok, hholds⟩
  · rw [herror] at h
    cases h
  rw [hok] at h
  rw [List.nil_append] at hholds
  cases targetColumn with
  | none =>
    obtain rfl := Except.ok.inj h
    refine hholds.aligned fun column hmem hsome => ?_
    have hempty : (!returnColumns.isEmpty) = true := by
      rw [Bool.not_eq_true', List.isEmpty_eq_false_iff_exists_mem]
      exact ⟨column, hmem⟩
    rw [if_pos hempty, hsome, Option.filter_some, if_pos (List.contains_iff_mem.mpr hmem)]
      at htargetColumn
    cases htargetColumn
  | some column =>
    have htarget : (table.targetColumn p.indexId).filter (fun column =>
        returnColumns.contains column) = some column := by
      split at htargetColumn
      · exact htargetColumn
      · cases htargetColumn
    obtain ⟨hsome, hcontains⟩ := Option.filter_eq_some_iff.mp htarget
    have hmem : column ∈ returnColumns := List.contains_iff_mem.mp hcontains
    have hlookup : collected.answer.columnValues.lookup column = some [] := by
      rw [hholds.columnValues, if_pos hmem, if_pos rfl]
    have hids : collected.targetPrimaryIds = (hits table p results).map Prod.fst :=
      hholds.targetPrimaryIds
    dsimp only at h
    rw [hlookup, hids] at h
    dsimp only at h
    rcases @reconstructAll_eq getVector 0 ((hits table p results).map Prod.fst) with
      ⟨⟨e, herror⟩, -⟩ | ⟨vectors, hvectors, hlength, hall⟩
    · rw [herror] at h
      cases h
    · rw [hvectors] at h
      obtain rfl := Except.ok.inj h
      refine hholds.aligned_insert hsome hmem (hlength.trans (List.length_map _))
        fun i hit hget => ?_
      have hid : ((hits table p results).map Prod.fst)[i]? = some hit.1 := by
        rw [List.getElem?_map, hget]
        rfl
      obtain ⟨vector, hvector, hvalue⟩ := hall i hit.1 hid
      exact ⟨vector, Nat.zero_add i ▸ hvector, hvalue⟩

section

variable [TimeuuidOrd] [DecimalNormalizer] {w : World}
  {stored : PartitionId → PrimaryId → Option Vector}

/-- A match is reported for the row that its identifier answers for, and that holds the vector. -/
def Reports (w : World) (stored : PartitionId → PrimaryId → Option Vector) (p : PartitionId)
    (hit : PrimaryId × Distance) (raw : PrimaryKey) : Prop :=
  ∃ key pkey v, stored p hit.1 = some v ∧ (w.row key).target.held = some (pkey, .vector v) ∧
    w.locate pkey = some p ∧ w.ResolvesTo key p hit.1 ∧ w.table.normalizePrimaryKey raw = .ok key

/-- When the index holds vectors of rows only, an answer has the row of every match. -/
theorem answer_of_sound (hsound : w.Sound .vector stored)
    (hfound : ∀ hit ∈ found, (stored p hit.1).isSome)
    (h : collectResults getVector w.table p returnColumns (found.map .ok) = .ok answer) :
    List.Forall₂ (Reports w stored p) found answer.primaryKeys ∧
      answer.distances = found.map Prod.snd := by
  have hreports : ∀ hit ∈ found, ∃ raw, w.table.primaryKey p hit.1 = some raw ∧
      Reports w stored p hit raw := by
    intro hit hmem
    obtain ⟨v, hv⟩ := Option.isSome_iff_exists.mp (hfound hit hmem)
    obtain ⟨key, pkey, hheld, hp, hresolves⟩ := hsound p hit.1 v hv
    obtain ⟨raw, hraw, hkey⟩ := hresolves.primaryKey
    exact ⟨raw, hraw, key, pkey, v, hv, hheld, hp, hresolves, hkey⟩
  obtain ⟨hkeys, hdistances, -, -⟩ := aligned_of_ok h
  rw [hits_eq fun hit hmem => Option.isSome_iff_exists.mpr ((hreports hit hmem).imp fun _ => And.left)]
    at hkeys hdistances
  refine ⟨?_, hdistances⟩
  clear h hfound hdistances
  generalize answer.primaryKeys = keys at hkeys
  induction found generalizing keys with
  | nil =>
    rw [List.map_nil, List.map_eq_nil_iff] at hkeys
    rw [hkeys]
    exact .nil
  | cons hit found ih =>
    obtain ⟨raw, hraw, hreport⟩ := hreports hit List.mem_cons_self
    cases keys with
    | nil => cases hkeys
    | cons raw' keys =>
      rw [List.map_cons, List.map_cons, hraw, List.cons.injEq, Option.some.injEq] at hkeys
      obtain ⟨rfl, hkeys⟩ := hkeys
      exact .cons hreport
        (ih (fun hit' hmem => hreports hit' (List.mem_cons_of_mem hit hmem)) keys hkeys)

/-- Once the actor has come to rest, an answer has for every match the key of the row whose vector the
match has in this partition, and its distance; and when no message was refused and everything in the
partition was found, it has the keys of all rows of the partition. -/
theorem answers_at_rest {calls : List Call} {runtime : Runtime} {as : List Action}
    (hnew : table.IsNew) (hcarries : Carries table calls runtime as) :
    let w := Machine.run World.step (World.init table) calls
    let s := Machine.run step (.init runtime) as
    ∀ (p : PartitionId) (returnColumns : List ColumnName)
      (getVector : ℕ → PrimaryId → Except String (Option (List UInt32)))
      (found : List (PrimaryId × Distance)) (answer : Answer),
      (∀ hit ∈ found, (s.stored p hit.1).isSome) →
      collectResults getVector w.table p returnColumns (found.map .ok) = .ok answer →
      List.Forall₂ (Reports w s.stored p) found answer.primaryKeys ∧
        answer.distances = found.map Prod.snd ∧
        (Unrefused as → (∀ id, (s.stored p id).isSome → ∃ hit ∈ found, hit.1 = id) →
          ∀ key pkey v, (w.row key).target.held = some (pkey, .vector v) →
            w.locate pkey = some p → ∃ raw ∈ answer.primaryKeys,
              w.table.normalizePrimaryKey raw = .ok key) := by
  obtain ⟨hsound, hall⟩ := serves_rows hnew hcarries
  intro w s p returnColumns getVector found answer hfound h
  obtain ⟨hreports, hdistances⟩ := answer_of_sound hsound hfound h
  refine ⟨hreports, hdistances, fun hunrefused hcomplete key pkey v hheld hp => ?_⟩
  obtain ⟨q, id, hq, hv, hresolves⟩ := (hall hunrefused).1.complete key pkey v hheld
  obtain rfl : p = q := Option.some.inj (hp.symm.trans hq)
  obtain ⟨hit, hmem, rfl⟩ := hcomplete id (Option.isSome_iff_exists.mpr ⟨v, hv⟩)
  obtain ⟨i, hi, hget⟩ := List.getElem_of_mem hmem
  obtain ⟨hlength, hzip⟩ := List.forall₂_iff_get.mp hreports
  obtain ⟨key', -, -, -, -, -, hresolves', hkey'⟩ := hzip i hi (hlength ▸ hi)
  have hhit : found.get ⟨i, hi⟩ = hit := hget
  rw [hhit] at hresolves'
  obtain rfl := hresolves.key_eq hresolves'
  exact ⟨_, List.get_mem _ _, hkey'⟩

end

attribute [local instance] VectorStore.Sample.decimals VectorStore.Sample.timeuuids

/-- The entry of the row: its epoch was bumped before the vector was added. -/
def Sample.entry : PartitionId × PrimaryId := (⟨0⟩, .mk' 0 Epoch.new.next.next)

theorem Sample.stored_entry :
    ((Machine.run step (.init Sample.runtime) Sample.latestRow).stored Sample.entry.1
      Sample.entry.2).isSome := by
  decide +kernel

/-- Nothing else is stored in its partition. -/
theorem Sample.eq_entry_of_stored {id : PrimaryId}
    (h : ((Machine.run step (.init Sample.runtime) Sample.latestRow).stored Sample.entry.1
      id).isSome) : id = Sample.entry.2 := by
  have hkeys : ∀ a ∈ (Machine.run step (.init Sample.runtime) Sample.latestRow).partitions.lookup
        Sample.entry.1,
      ∀ partition ∈ (Machine.run step (.init Sample.runtime) Sample.latestRow).arena[a]?,
      ∀ id ∈ partition.idx.stored.keys, id = Sample.entry.2 := by
    decide +kernel
  obtain ⟨v, hv⟩ := Option.isSome_iff_exists.mp h
  obtain ⟨a, ha, hcontents⟩ := Option.bind_eq_some_iff.mp hv
  obtain ⟨partition, hpartition, hlookup⟩ := Option.bind_eq_some_iff.mp hcontents
  exact hkeys a ha partition hpartition id
    (AList.lookup_isSome.mp (Option.isSome_of_eq_some hlookup))

/-- A search that finds the vector of a row that was deleted first and written afterwards. -/
theorem answers_at_rest_latestRow :
    let w := Machine.run World.step (World.init VectorStore.Sample.keyTable)
      VectorStore.Sample.outOfOrder
    let s := Machine.run step (.init Sample.runtime) Sample.latestRow
    ∃ answer, collectResults (fun _ _ => .ok none) w.table Sample.entry.1 []
        [.ok (Sample.entry.2, .cosine 0)] = .ok answer ∧
      List.Forall₂ (Reports w s.stored Sample.entry.1) [(Sample.entry.2, .cosine 0)]
        answer.primaryKeys ∧
      answer.distances = [.cosine 0] ∧
      ∃ raw ∈ answer.primaryKeys,
        w.table.normalizePrimaryKey raw = .ok (VectorStore.Sample.key 0) := by
  intro w s
  obtain ⟨answer, hanswer⟩ : ∃ answer, collectResults (fun _ _ => .ok none) w.table Sample.entry.1 []
      [.ok (Sample.entry.2, .cosine 0)] = .ok answer :=
    ⟨_, VectorStore.Sample.eq_ok_of_toOption _ (by decide +kernel)⟩
  obtain ⟨hreports, hdistances, hall⟩ := answers_at_rest VectorStore.Sample.isNew_keyTable
    Sample.carries_latestRow Sample.entry.1 [] (fun _ _ => .ok none)
    [(Sample.entry.2, .cosine 0)] answer
    (fun hit hmem => by rw [List.mem_singleton.mp hmem]; exact Sample.stored_entry) hanswer
  refine ⟨answer, hanswer, hreports, hdistances, ?_⟩
  exact hall (by decide +kernel)
    (fun id hid => ⟨_, List.mem_singleton_self _, (Sample.eq_entry_of_stored hid).symm⟩)
    (VectorStore.Sample.key 0) (.fromIter [.int 0]) ⟨[1]⟩ (by decide +kernel) (by decide +kernel)

end Usearch

end VectorStore
