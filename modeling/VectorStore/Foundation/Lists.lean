import Mathlib.Algebra.BigOperators.Group.List.Basic
import Mathlib.Tactic

/-!
# Lists of which one item is changed

A step of one task changes one item of the list of tasks.  What the other items contribute to a
sum, to a count or to a sublist is the same before and after.  Counts are compared by what they
count.
-/

namespace VectorStore

variable {α : Type*} {xs : List α} {i : ℕ} {x : α}

/-- A list around one of its items, before and after the item is changed. -/
theorem modify_take (hget : xs[i]? = some x) :
    xs = xs.take i ++ x :: xs.drop (i + 1) ∧
      ∀ f : α → α, xs.modify i f = xs.take i ++ f x :: xs.drop (i + 1) := by
  obtain ⟨hlt, rfl⟩ := List.getElem?_eq_some_iff.mp hget
  refine ⟨?_, fun f => List.modify_eq_take_cons_drop hlt⟩
  have hself := List.modify_eq_take_cons_drop (f := id) hlt
  rwa [List.modify_id] at hself

theorem modify_split (hget : xs[i]? = some x) :
    ∃ ys zs, xs = ys ++ x :: zs ∧ ∀ f : α → α, xs.modify i f = ys ++ f x :: zs :=
  ⟨_, _, modify_take hget⟩

/-- A sum over a list of which one item was changed. -/
theorem sum_map_modify {M : Type*} [AddCommMonoid M] (g : α → M) (f : α → α)
    (hget : xs[i]? = some x) :
    ((xs.modify i f).map g).sum + g x = (xs.map g).sum + g (f x) := by
  obtain ⟨ys, zs, hxs, hmodify⟩ := modify_split hget
  rw [hmodify, hxs]
  simp only [List.map_append, List.map_cons, List.sum_append, List.sum_cons]
  abel

/-- A count over a list of which one item was changed. -/
theorem countP_modify (p : α → Bool) (f : α → α) (hget : xs[i]? = some x) :
    (xs.modify i f).countP p + (p x).toNat = xs.countP p + (p (f x)).toNat := by
  obtain ⟨ys, zs, hxs, hmodify⟩ := modify_split hget
  rw [hmodify, hxs]
  simp only [List.countP_append, List.countP_cons, Bool.toNat, Bool.cond_eq_ite]
  omega

/-- Two properties that exclude each other, counted against what both imply. -/
theorem countP_add_countP_le {p q r : α → Bool} (hexclusive : ∀ x, p x → q x → False)
    (hp : ∀ x, p x → r x) (hq : ∀ x, q x → r x) : xs.countP p + xs.countP q ≤ xs.countP r := by
  induction xs with
  | nil => exact Nat.zero_le _
  | cons x xs ih =>
    have hx : (if p x then 1 else 0) + (if q x then 1 else 0) ≤ if r x then 1 else 0 := by
      by_cases hpx : p x
      · rw [if_pos hpx, if_neg fun hqx => hexclusive x hpx hqx, if_pos (hp x hpx)]
      · by_cases hqx : q x
        · rw [if_neg hpx, if_pos hqx, if_pos (hq x hqx)]
        · rw [if_neg hpx, if_neg hqx]
          exact Nat.zero_le _
    rw [List.countP_cons, List.countP_cons, List.countP_cons]
    omega

/-- The items of a list of which one was changed. -/
theorem mem_or_eq_of_mem_modify {f : α → α} {y : α} (hget : xs[i]? = some x)
    (hy : y ∈ xs.modify i f) : y ∈ xs ∨ y = f x := by
  obtain ⟨ys, zs, hxs, hmodify⟩ := modify_split hget
  rw [hmodify, List.mem_append, List.mem_cons] at hy
  rw [hxs, List.mem_append, List.mem_cons]
  tauto

/-- What a list is mapped to does not change when the item that is changed is mapped to the same. -/
theorem filterMap_modify {β : Type*} (g : α → Option β) {f : α → α} (hget : xs[i]? = some x)
    (hsame : g (f x) = g x) : (xs.modify i f).filterMap g = xs.filterMap g := by
  obtain ⟨ys, zs, hxs, hmodify⟩ := modify_split hget
  rw [hmodify, hxs, List.filterMap_append, List.filterMap_append, List.filterMap_cons,
    List.filterMap_cons, hsame]

/-- How often an item occurs in what the items of a list stand for, when one of them is changed. -/
theorem count_flatMap_modify {β : Type*} [DecidableEq β] (g : α → List β) (f : α → α)
    (hget : xs[i]? = some x) (b : β) :
    ((xs.modify i f).flatMap g).count b + (g x).count b =
      (xs.flatMap g).count b + (g (f x)).count b := by
  obtain ⟨ys, zs, hxs, hmodify⟩ := modify_split hget
  rw [hmodify, hxs]
  simp only [List.flatMap_append, List.flatMap_cons, List.count_append]
  omega

/-- A list of lists splits by a property of its items. -/
theorem count_flatMap_filter {β : Type*} [DecidableEq β] (xs : List α) (g : α → List β)
    (p : α → Bool) (b : β) :
    ((xs.filter p).flatMap g).count b + ((xs.filter (!p ·)).flatMap g).count b =
      (xs.flatMap g).count b := by
  rw [← List.count_append, ← List.flatMap_append]
  exact ((List.filter_append_perm p xs).flatMap_right g).count_eq b

/-- Lists that are related element by element have one image when related elements have. -/
theorem map_eq_map_of_forall₂ {α β γ : Type*} {R : α → β → Prop} {f : α → γ} {g : β → γ}
    {xs : List α} {ys : List β} (h : List.Forall₂ R xs ys)
    (heq : ∀ x ∈ xs, ∀ y, R x y → g y = f x) : ys.map g = xs.map f := by
  induction h with
  | nil => rfl
  | cons hhead _ ih =>
    obtain ⟨hx, hxs⟩ := List.forall_mem_cons.mp heq
    rw [List.map_cons, List.map_cons, hx _ hhead, ih hxs]

/-- An element of the second list is related to one of the first. -/
theorem exists_mem_left_of_forall₂ {α β : Type*} {R : α → β → Prop} {xs : List α} {ys : List β}
    (h : List.Forall₂ R xs ys) {y : β} (hy : y ∈ ys) : ∃ x ∈ xs, R x y := by
  induction h with
  | nil => cases hy
  | cons hhead _ ih =>
    rcases List.mem_cons.mp hy with rfl | hy
    · exact ⟨_, List.mem_cons_self, hhead⟩
    · obtain ⟨x, hx, hrel⟩ := ih hy
      exact ⟨x, List.mem_cons_of_mem _ hx, hrel⟩

/-- A list next to its image. -/
theorem zip_map_self {α β : Type*} (f : α → β) (xs : List α) :
    (xs.map f).zip xs = xs.map fun x => (f x, x) := by
  induction xs with
  | nil => rfl
  | cons x xs ih => rw [List.map_cons, List.zip_cons_cons, ih, List.map_cons]

end VectorStore
