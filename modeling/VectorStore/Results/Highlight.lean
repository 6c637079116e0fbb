import VectorStore.Foundation.Lists
import VectorStore.FtsIndex.Query

/-!
# Highlighting sees the positive terms

Stripping fails exactly when a boost lies under no negated clause.  When it succeeds, no negated
clause is left at any level, and the leaves are those that were under none, in their order and
under clauses of the same kinds.
-/

namespace VectorStore

namespace FtsQuery

variable {L β : Type*}

/-! ## The positive nodes -/

/-- The positive nodes under clauses are the positive nodes of those that are not negated. -/
theorem positive_under (clauses : List (Occur × List (List Occur × β))) :
    positive (under clauses) = under ((clauses.filter fun clause => clause.1 ≠ .mustNot).map
      fun clause => (clause.1, positive clause.2)) := by
  induction clauses with
  | nil => rfl
  | cons clause clauses ih =>
    obtain ⟨occur, nodes⟩ := clause
    have hcons : under ((occur, nodes) :: clauses) =
        (nodes.map fun node => (occur :: node.1, node.2)) ++ under clauses := rfl
    rw [hcons, positive, List.filter_append, ← positive, ← positive, ih, positive, List.filter_map]
    by_cases hnot : occur = .mustNot
    · subst hnot
      have hnone : nodes.filter ((fun node : List Occur × β => decide (.mustNot ∉ node.1)) ∘
          fun node : List Occur × β => (Occur.mustNot :: node.1, node.2)) = [] :=
        List.filter_eq_nil_iff.mpr fun node _ => by simp
      rw [hnone, List.filter_cons_of_neg (by simp)]
      rfl
    · have hsame : ((fun node : List Occur × β => decide (.mustNot ∉ node.1)) ∘
          fun node : List Occur × β => (occur :: node.1, node.2)) = fun node => decide (.mustNot ∉ node.1) := by
        funext node
        simp [Ne.symm hnot]
      rw [hsame, List.filter_cons_of_pos (by simpa using hnot)]
      rfl

/-! ## Stripping -/

/-- The clauses that are not negated are stripped one by one. -/
theorem stripClauses_eq_ok {clauses stripped : List (Occur × FtsQuery L)}
    (h : stripClauses clauses = .ok stripped) :
    List.Forall₂ (fun clause clause' => clause.1 = clause'.1 ∧
        clause.2.stripNegatedClauses = .ok clause'.2)
      (clauses.filter fun clause => clause.1 ≠ .mustNot) stripped := by
  induction clauses generalizing stripped with
  | nil =>
    obtain rfl := Except.ok.inj h
    exact List.Forall₂.nil
  | cons clause clauses ih =>
    obtain ⟨occur, subquery⟩ := clause
    rw [stripClauses] at h
    split at h
    · next hnot =>
      rw [List.filter_cons_of_neg (by simpa using hnot)]
      exact ih h
    · next hnot =>
      rw [List.filter_cons_of_pos (by simpa using hnot)]
      cases hsub : subquery.stripNegatedClauses with
      | error e => rw [hsub] at h; cases h
      | ok subquery' =>
        cases hrest : stripClauses clauses with
        | error e => rw [hsub, hrest] at h; cases h
        | ok clauses' =>
          rw [hsub, hrest] at h
          obtain rfl := Except.ok.inj h
          exact List.Forall₂.cons ⟨rfl, hsub⟩ (ih hrest)

/-- Stripping clauses fails when it does for one that is not negated. -/
theorem stripClauses_error_iff {clauses : List (Occur × FtsQuery L)} :
    (∃ e, stripClauses clauses = .error e) ↔
      ∃ clause ∈ clauses, clause.1 ≠ .mustNot ∧ ∃ e, clause.2.stripNegatedClauses = .error e := by
  induction clauses with
  | nil => simp [stripClauses]
  | cons clause clauses ih =>
    obtain ⟨occur, subquery⟩ := clause
    rw [stripClauses, List.exists_mem_cons_iff, ← ih]
    split
    · next hnot => simp [hnot]
    · next hnot =>
      cases hsub : subquery.stripNegatedClauses with
      | error e => exact ⟨fun _ => Or.inl ⟨hnot, e, rfl⟩, fun _ => ⟨e, rfl⟩⟩
      | ok subquery' =>
        cases hrest : stripClauses clauses with
        | error e => exact ⟨fun _ => Or.inr ⟨e, rfl⟩, fun _ => ⟨e, rfl⟩⟩
        | ok clauses' =>
          refine ⟨fun h => ?_, fun h => ?_⟩
          · obtain ⟨e, h⟩ := h
            cases h
          · rcases h with ⟨-, e, hfail⟩ | ⟨e, hfail⟩ <;> cases hfail

variable {query stripped : FtsQuery L}

/-- Stripping a boolean query strips its clauses. -/
theorem strip_boolean_eq_ok {clauses : List (Occur × FtsQuery L)}
    (h : (boolean clauses).stripNegatedClauses = .ok stripped) :
    ∃ clauses', stripClauses clauses = .ok clauses' ∧ stripped = boolean clauses' := by
  rw [stripNegatedClauses] at h
  cases hclauses : stripClauses clauses with
  | error e => rw [hclauses] at h; cases h
  | ok clauses' =>
    rw [hclauses] at h
    exact ⟨clauses', rfl, (Except.ok.inj h).symm⟩

/-- The leaves of the stripped query are the positive leaves. -/
theorem leaves_strip (h : query.stripNegatedClauses = .ok stripped) :
    stripped.leaves = positive query.leaves := by
  induction query generalizing stripped with
  | boolean clauses ih =>
    obtain ⟨clauses', hclauses, rfl⟩ := strip_boolean_eq_ok h
    rw [leaves_boolean, leaves_boolean, positive_under, List.filter_map, List.map_map]
    refine congrArg under (map_eq_map_of_forall₂ (stripClauses_eq_ok hclauses) ?_)
    rintro clause hmem clause' ⟨hocc, hstrip⟩
    rw [ih clause (List.mem_of_mem_filter hmem) hstrip, ← hocc]
    rfl
  | boost query _ => cases h
  | leaf query =>
    obtain rfl := Except.ok.inj h
    rfl

/-- No negated clause is left. -/
theorem mustNot_notMem_occurs_strip (h : query.stripNegatedClauses = .ok stripped) :
    .mustNot ∉ stripped.occurs := by
  induction query generalizing stripped with
  | boolean clauses ih =>
    obtain ⟨clauses', hclauses, rfl⟩ := strip_boolean_eq_ok h
    rw [mem_occurs_boolean]
    rintro ⟨clause', hmem', hnot⟩
    obtain ⟨clause, hmem, hocc, hstrip⟩ := exists_mem_left_of_forall₂
      (stripClauses_eq_ok hclauses) hmem'
    obtain ⟨hmem, hclause⟩ := List.mem_filter.mp hmem
    rcases hnot with hnot | hnot
    · rw [hocc, ← hnot] at hclause
      simp at hclause
    · exact ih clause hmem hstrip hnot
  | boost query _ => cases h
  | leaf query =>
    obtain rfl := Except.ok.inj h
    exact List.not_mem_nil

/-- Stripping fails when a boost lies under no negated clause. -/
theorem strip_error_iff :
    (∃ e, query.stripNegatedClauses = .error e) ↔ ∃ path, (path, ()) ∈ query.boosts ∧
      Occur.mustNot ∉ path := by
  induction query with
  | boolean clauses ih =>
    have hclauses : (∃ e, (boolean clauses).stripNegatedClauses = .error e) ↔
        ∃ e, stripClauses clauses = .error e := by
      rw [stripNegatedClauses]
      cases stripClauses clauses with
      | error e => exact ⟨fun _ => ⟨e, rfl⟩, fun _ => ⟨e, rfl⟩⟩
      | ok clauses' => exact ⟨fun ⟨e, h⟩ => (by cases h), fun ⟨e, h⟩ => (by cases h)⟩
    rw [hclauses, stripClauses_error_iff]
    constructor
    · rintro ⟨clause, hmem, hnot, hfail⟩
      obtain ⟨path, hpath, hpositive⟩ := (ih clause hmem).mp hfail
      refine ⟨clause.1 :: path, mem_boosts_boolean.mpr ⟨clause, hmem, path, hpath, rfl⟩, ?_⟩
      exact List.not_mem_cons_of_ne_of_not_mem (Ne.symm hnot) hpositive
    · rintro ⟨path, hboost, hpositive⟩
      obtain ⟨clause, hmem, path', hpath, rfl⟩ := mem_boosts_boolean.mp hboost
      obtain ⟨hnot, hpositive⟩ := List.ne_and_not_mem_of_not_mem_cons hpositive
      exact ⟨clause, hmem, Ne.symm hnot, (ih clause hmem).mpr ⟨path', hpath, hpositive⟩⟩
  | boost query _ =>
    exact ⟨fun _ => ⟨[], List.mem_cons_self, List.not_mem_nil⟩, fun _ => ⟨_, rfl⟩⟩
  | leaf query => simp [stripNegatedClauses, boosts, fold]

/-- Stripping a query fails exactly when a boost is under no negated clause, and a stripped query
has no negated clause at any level and the positive leaves of the query. -/
theorem stripNegatedClauses_keeps_positive (query : FtsQuery L) :
    (∀ stripped, query.stripNegatedClauses = .ok stripped →
      .mustNot ∉ stripped.occurs ∧ stripped.leaves = positive query.leaves) ∧
    ((∃ e, query.stripNegatedClauses = .error e) ↔
      ∃ path, (path, ()) ∈ query.boosts ∧ Occur.mustNot ∉ path) :=
  ⟨fun _ h => ⟨mustNot_notMem_occurs_strip h, leaves_strip h⟩, strip_error_iff⟩

/-- Negated clauses are stripped under other clauses too, and the clause that loses all its
subqueries stays. -/
example : (boolean [(.must, boolean [(.mustNot, leaf "dog")]), (.mustNot, boost (leaf "cat")),
      (.should, leaf "fox")]).stripNegatedClauses =
    .ok (boolean [(.must, boolean []), (.should, leaf "fox")]) := rfl

end FtsQuery

end VectorStore
