import Mathlib.Tactic

/-!
# Lexicographic comparison

Tuples are compared element by element, by a comparison that some elements do not have.  The first
pair that is not equal decides, and a pair that cannot be compared decides nothing.
-/

namespace VectorStore

/-- The comparison of tuples, from those of their elements: the first that is not equality. -/
def firstUnequal (ords : List (Option Ordering)) : Option Ordering :=
  (ords.find? fun ord => ord ≠ some .eq).getD (some .eq)

@[simp] theorem firstUnequal_nil : firstUnequal [] = some .eq := rfl

theorem firstUnequal_cons (ord : Option Ordering) (ords : List (Option Ordering)) :
    firstUnequal (ord :: ords) = if ord = some .eq then firstUnequal ords else ord := by
  unfold firstUnequal
  split
  · next heq => rw [List.find?_cons_of_neg (by simp [heq])]
  · next hne => rw [List.find?_cons_of_pos (by simp [hne])]; rfl

section Tuples

variable {α β : Type*} (cmp : α → β → Option Ordering)

/-- A pair of elements decides, and all pairs before it are equal. -/
inductive Lexicographic (ord : Ordering) : List α → List β → Prop where
  | head {a : α} {b : β} {as : List α} {bs : List β} (h : cmp a b = some ord) :
    Lexicographic ord (a :: as) (b :: bs)
  | tail {a : α} {b : β} {as : List α} {bs : List β} (h : cmp a b = some .eq)
    (rest : Lexicographic ord as bs) : Lexicographic ord (a :: as) (b :: bs)

/-- All pairs are equal. -/
def TupleEq : List α → List β → Prop := List.Forall₂ fun a b => cmp a b = some .eq

/-- The comparisons of the pairs of two tuples. -/
def comparisons (as : List α) (bs : List β) : List (Option Ordering) :=
  (as.zip bs).map fun p => cmp p.1 p.2

variable {cmp} {ord : Ordering} {as : List α} {bs : List β}

theorem lexicographic_cons {a : α} {b : β} : Lexicographic cmp ord (a :: as) (b :: bs) ↔
    cmp a b = some ord ∨ cmp a b = some .eq ∧ Lexicographic cmp ord as bs := by
  constructor
  · rintro (h | ⟨h, rest⟩)
    · exact Or.inl h
    · exact Or.inr ⟨h, rest⟩
  · rintro (h | ⟨h, rest⟩)
    · exact .head h
    · exact .tail h rest

/-- The first unequal comparison is the lexicographic one. -/
theorem firstUnequal_eq_some_iff (hne : ord ≠ .eq) :
    firstUnequal (comparisons cmp as bs) = some ord ↔ Lexicographic cmp ord as bs := by
  have hnil : firstUnequal [] ≠ some ord := fun h => hne (Option.some_inj.mp h).symm
  induction as generalizing bs with
  | nil => exact iff_of_false hnil nofun
  | cons a as ih =>
    cases bs with
    | nil => exact iff_of_false hnil nofun
    | cons b bs =>
      rw [comparisons, List.zip_cons_cons, List.map_cons, firstUnequal_cons, lexicographic_cons]
      by_cases heq : cmp a b = some .eq
      · have hnot : cmp a b ≠ some ord := fun h => hne (Option.some_inj.mp (h.symm.trans heq))
        rw [if_pos heq, or_iff_right hnot, and_iff_right heq]
        exact ih
      · rw [if_neg heq, or_iff_left fun h => heq h.1]

/-- No comparison is unequal when all pairs are equal. -/
theorem firstUnequal_eq_eq_iff (hlen : as.length = bs.length) :
    firstUnequal (comparisons cmp as bs) = some .eq ↔ TupleEq cmp as bs := by
  induction as generalizing bs with
  | nil =>
    rw [List.length_eq_zero_iff.mp hlen.symm]
    exact iff_of_true rfl .nil
  | cons a as ih =>
    cases bs with
    | nil => cases hlen
    | cons b bs =>
      rw [comparisons, List.zip_cons_cons, List.map_cons, firstUnequal_cons, TupleEq,
        List.forall₂_cons]
      by_cases heq : cmp a b = some .eq
      · rw [if_pos heq, and_iff_right heq]
        exact ih (Nat.succ.inj hlen)
      · rw [if_neg heq]
        exact iff_of_false heq fun h => heq h.1

/-- A check of all pairs is a check for equality. -/
theorem all_isEq_iff (hlen : as.length = bs.length) :
    ((as.zip bs).all fun p => (cmp p.1 p.2).any Ordering.isEq) = true ↔ TupleEq cmp as bs := by
  induction as generalizing bs with
  | nil =>
    rw [List.length_eq_zero_iff.mp hlen.symm]
    exact iff_of_true rfl .nil
  | cons a as ih =>
    cases bs with
    | nil => cases hlen
    | cons b bs =>
      rw [List.zip_cons_cons, List.all_cons, Bool.and_eq_true, ih (Nat.succ.inj hlen), TupleEq,
        List.forall₂_cons]
      refine and_congr_left fun _ => ?_
      rw [Option.any_eq_true]
      constructor
      · rintro ⟨ord, hord, heq⟩
        rw [hord, Ordering.isEq_iff_eq_eq.mp heq]
      · intro h
        exact ⟨.eq, h, rfl⟩

/-- Tuples whose pairs can be compared are less, equal or greater. -/
theorem lexicographic_or (h : List.Forall₂ (fun a b => (cmp a b).isSome) as bs) :
    Lexicographic cmp .lt as bs ∨ TupleEq cmp as bs ∨ Lexicographic cmp .gt as bs := by
  induction h with
  | nil => exact Or.inr (Or.inl .nil)
  | @cons a b as bs hab _ ih =>
    obtain ⟨ord, hord⟩ := Option.isSome_iff_exists.mp hab
    cases ord with
    | lt => exact Or.inl (.head hord)
    | gt => exact Or.inr (Or.inr (.head hord))
    | eq =>
      rcases ih with h | h | h
      · exact Or.inl (.tail hord h)
      · exact Or.inr (Or.inl (.cons hord h))
      · exact Or.inr (Or.inr (.tail hord h))

/-- A comparison that decides is decided by the pairs up to some place, all of which have one. -/
theorem Lexicographic.exists_take (h : Lexicographic cmp ord as bs) :
    ∃ n, Lexicographic cmp ord (as.take n) (bs.take n) ∧
      ∀ a ∈ as.take n, ∃ b, (cmp a b).isSome := by
  induction h with
  | @head a b as bs h =>
    refine ⟨1, .head h, fun x hx => ?_⟩
    obtain rfl := List.mem_singleton.mp hx
    exact ⟨b, by rw [h]; rfl⟩
  | @tail a b as bs h rest ih =>
    obtain ⟨n, hlex, hall⟩ := ih
    refine ⟨n + 1, .tail h hlex, fun x hx => ?_⟩
    rcases List.mem_cons.mp hx with rfl | hx
    · exact ⟨b, by rw [h]; rfl⟩
    · exact hall x hx

/-- Tuples of images compare as the tuples do by the comparison of the images. -/
theorem lexicographic_map {γ : Type*} {f : γ → α} {cs : List γ} :
    Lexicographic cmp ord (cs.map f) bs ↔ Lexicographic (fun c b => cmp (f c) b) ord cs bs := by
  induction cs generalizing bs with
  | nil => exact iff_of_false nofun nofun
  | cons c cs ih =>
    cases bs with
    | nil => exact iff_of_false nofun nofun
    | cons b bs => rw [List.map_cons, lexicographic_cons, lexicographic_cons, ih]

theorem tupleEq_map {γ : Type*} {f : γ → α} {cs : List γ} :
    TupleEq cmp (cs.map f) bs ↔ TupleEq (fun c b => cmp (f c) b) cs bs :=
  List.forall₂_map_left_iff

/-- Equal tuples are not unequal. -/
theorem TupleEq.not_lexicographic (h : TupleEq cmp as bs) (hne : ord ≠ .eq) :
    ¬Lexicographic cmp ord as bs := by
  intro hlex
  have hcmp := (firstUnequal_eq_some_iff hne).mpr hlex
  rw [(firstUnequal_eq_eq_iff h.length_eq).mpr h] at hcmp
  exact hne (Option.some_inj.mp hcmp).symm

/-- What decides does so in one way. -/
theorem Lexicographic.unique {ord' : Ordering} (h : Lexicographic cmp ord as bs)
    (h' : Lexicographic cmp ord' as bs) (hne : ord ≠ .eq) (hne' : ord' ≠ .eq) : ord = ord' := by
  have hcmp := (firstUnequal_eq_some_iff hne).mpr h
  rw [(firstUnequal_eq_some_iff hne').mpr h'] at hcmp
  exact (Option.some_inj.mp hcmp).symm

end Tuples

/-- A list of options has values when all its elements have. -/
theorem mapM_eq_some_iff {α β : Type} {f : α → Option β} {xs : List α} {ys : List β} :
    xs.mapM f = some ys ↔ xs.map f = ys.map some := by
  induction xs generalizing ys with
  | nil => cases ys <;> simp
  | cons x xs ih =>
    rw [List.mapM_cons, List.map_cons]
    cases ys with
    | nil => simp [bind, Option.bind_eq_some_iff]
    | cons y ys =>
      rw [List.map_cons, List.cons.injEq, ← ih]
      cases f x <;> cases xs.mapM f <;> simp

end VectorStore
