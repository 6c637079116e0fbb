import Mathlib.Data.List.Basic
import Mathlib.Tactic

/-!
# Queries of a full-text index

A query is a tree of boolean clauses and boosts over queries that the code does not look into.  For
the highlighting of a document the negated clauses are stripped at every level, since the generator
of snippets ignores the sign of a clause.  Of a boolean query only the clauses are held.  How many
`should` clauses have to match (`minimum_number_should_match`) is left out: the code does not read it
and rebuilds a query from its clauses.
-/

namespace VectorStore

/-- The kind of a clause. -/
inductive Occur where
  | should
  | must
  | mustNot
deriving DecidableEq

/-- Queries, as far as their type can be found out.  A leaf is any other query. -/
inductive FtsQuery (L : Type*) where
  | boolean (clauses : List (Occur × FtsQuery L))
  | boost (query : FtsQuery L)
  | leaf (query : L)

namespace FtsQuery

variable {L β : Type*}

/-- A property of all queries follows from that of the subqueries. -/
@[elab_as_elim, induction_eliminator]
theorem induct {motive : FtsQuery L → Prop}
    (boolean : ∀ clauses, (∀ clause ∈ clauses, motive clause.2) → motive (.boolean clauses))
    (boost : ∀ query, motive query → motive (.boost query))
    (leaf : ∀ query, motive (.leaf query)) : ∀ query, motive query
  | .boolean clauses => boolean clauses fun clause _ => induct boolean boost leaf clause.2
  | .boost query => boost query (induct boolean boost leaf query)
  | .leaf query => leaf query
termination_by query => sizeOf query
decreasing_by
  · next hmem =>
    have hlt := List.sizeOf_lt_of_mem hmem
    obtain ⟨occur, subquery⟩ := clause
    simp only [Prod.mk.sizeOf_spec, FtsQuery.boolean.sizeOf_spec] at hlt ⊢
    omega
  · simp

/-! ## Stripping -/

mutual

/-- Rebuilds a query without the negated clauses at any level. -/
def stripNegatedClauses : FtsQuery L → Except String (FtsQuery L)
  | boolean clauses => do return boolean (← stripClauses clauses)
  | boost _ => .error "fts: boosted queries are not supported for highlighting"
  | leaf query => .ok (leaf query)

/-- The clauses of a boolean query that are not negated, stripped in order. -/
def stripClauses : List (Occur × FtsQuery L) → Except String (List (Occur × FtsQuery L))
  | [] => .ok []
  | (occur, subquery) :: clauses =>
    if occur = .mustNot then stripClauses clauses
    else do
      let subquery ← stripNegatedClauses subquery
      let clauses ← stripClauses clauses
      return (occur, subquery) :: clauses

end

/-! ## The nodes of a query -/

mutual

/-- The value of a query from those of its parts. -/
def fold (onBoolean : List (Occur × β) → β) (onBoost : β → β) (onLeaf : L → β) : FtsQuery L → β
  | boolean clauses => onBoolean (foldClauses onBoolean onBoost onLeaf clauses)
  | boost query => onBoost (fold onBoolean onBoost onLeaf query)
  | leaf query => onLeaf query

/-- The values of the clauses of a boolean query. -/
def foldClauses (onBoolean : List (Occur × β) → β) (onBoost : β → β) (onLeaf : L → β) :
    List (Occur × FtsQuery L) → List (Occur × β)
  | [] => []
  | (occur, subquery) :: clauses =>
    (occur, fold onBoolean onBoost onLeaf subquery) ::
      foldClauses onBoolean onBoost onLeaf clauses

end

theorem foldClauses_eq (onBoolean : List (Occur × β) → β) (onBoost : β → β) (onLeaf : L → β)
    (clauses : List (Occur × FtsQuery L)) :
    foldClauses onBoolean onBoost onLeaf clauses =
      clauses.map fun clause => (clause.1, fold onBoolean onBoost onLeaf clause.2) := by
  induction clauses with
  | nil => rfl
  | cons clause clauses ih => rw [foldClauses, ih, List.map_cons]

/-- What lies under the clauses, each with the kinds of the clauses above it. -/
def under (clauses : List (Occur × List (List Occur × β))) : List (List Occur × β) :=
  clauses.flatMap fun clause => clause.2.map fun node => (clause.1 :: node.1, node.2)

/-- The leaves in order, each with the kinds of the clauses above it. -/
def leaves : FtsQuery L → List (List Occur × L) :=
  fold under id fun query => [([], query)]

/-- The boosts, each with the kinds of the clauses above it. -/
def boosts : FtsQuery L → List (List Occur × Unit) :=
  fold under (([], ()) :: ·) fun _ => []

/-- The kinds of all clauses, at every level. -/
def occurs : FtsQuery L → List Occur :=
  fold (fun clauses => clauses.flatMap fun clause => clause.1 :: clause.2) id fun _ => []

theorem leaves_boolean (clauses : List (Occur × FtsQuery L)) :
    (boolean clauses).leaves = under (clauses.map fun clause => (clause.1, clause.2.leaves)) :=
  congrArg under (foldClauses_eq ..)

theorem mem_boosts_boolean {clauses : List (Occur × FtsQuery L)} {path : List Occur} :
    (path, ()) ∈ (boolean clauses).boosts ↔
      ∃ clause ∈ clauses, ∃ path', (path', ()) ∈ clause.2.boosts ∧ clause.1 :: path' = path := by
  have hboosts : (boolean clauses).boosts =
      under (clauses.map fun clause => (clause.1, clause.2.boosts)) :=
    congrArg under (foldClauses_eq ..)
  rw [hboosts, under, List.flatMap_map]
  simp [Unique.exists_iff]

theorem mem_occurs_boolean {clauses : List (Occur × FtsQuery L)} {occur : Occur} :
    occur ∈ (boolean clauses).occurs ↔
      ∃ clause ∈ clauses, occur = clause.1 ∨ occur ∈ clause.2.occurs := by
  have hoccurs : (boolean clauses).occurs =
      (clauses.map fun clause => (clause.1, clause.2.occurs)).flatMap
        fun clause => clause.1 :: clause.2 :=
    congrArg (List.flatMap fun clause : Occur × List Occur => clause.1 :: clause.2)
      (foldClauses_eq ..)
  rw [hoccurs, List.flatMap_map]
  simp

/-- The nodes that lie under no negated clause. -/
def positive (nodes : List (List Occur × β)) : List (List Occur × β) :=
  nodes.filter fun node => Occur.mustNot ∉ node.1

end FtsQuery

end VectorStore
