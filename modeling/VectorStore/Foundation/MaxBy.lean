import Mathlib.Data.Prod.Lex
import Mathlib.Order.Compare
import Mathlib.Tactic

/-!
# The maximum of a list by a comparison

`maxBy` goes through a list and keeps the last of the elements that no other one exceeds.  When the
comparison is that of the values of a function, the result has the largest value, and it is the same
for all lists of the same elements when the function tells these apart.
-/

namespace VectorStore

variable {α β : Type*}

/-- The last of the largest elements of a list. -/
def maxBy (cmp : α → α → Ordering) : List α → Option α
  | [] => none
  | x :: xs => some (xs.foldl (fun best y => if cmp best y = .gt then best else y) x)

theorem maxBy_eq_none_iff {cmp : α → α → Ordering} {xs : List α} : maxBy cmp xs = none ↔ xs = [] := by
  cases xs <;> simp [maxBy]

variable [LinearOrder β] {cmp : α → α → Ordering} {f : α → β}

/-- The result of going through a list is one of its elements or the one that was kept before, and
none of these is larger. -/
theorem foldl_max_spec (hcmp : ∀ x y, cmp x y = compare (f x) (f y)) (best : α) (xs : List α) :
    let result := xs.foldl (fun best y => if cmp best y = .gt then best else y) best
    result ∈ best :: xs ∧ ∀ x ∈ best :: xs, f x ≤ f result := by
  induction xs generalizing best with
  | nil => simp
  | cons y ys ih =>
    rw [List.foldl_cons]
    split
    · next hgt =>
      have hlt : f y < f best := compare_gt_iff_gt.mp ((hcmp best y).symm.trans hgt)
      obtain ⟨hmem, hle⟩ := ih best
      obtain ⟨hbest, hys⟩ := List.forall_mem_cons.mp hle
      refine ⟨?_, List.forall_mem_cons.mpr ⟨hbest, List.forall_mem_cons.mpr ⟨?_, hys⟩⟩⟩
      · rcases List.mem_cons.mp hmem with heq | hmem
        · rw [heq]
          exact List.mem_cons_self
        · exact List.mem_cons_of_mem _ (List.mem_cons_of_mem _ hmem)
      · exact hlt.le.trans hbest
    · next hgt =>
      have hle' : f best ≤ f y := not_lt.mp fun hlt =>
        hgt ((hcmp best y).trans (compare_gt_iff_gt.mpr hlt))
      obtain ⟨hmem, hle⟩ := ih y
      obtain ⟨hy, -⟩ := List.forall_mem_cons.mp hle
      exact ⟨List.mem_cons_of_mem _ hmem, List.forall_mem_cons.mpr ⟨hle'.trans hy, hle⟩⟩

/-- The maximum is an element of the list with the largest value. -/
theorem maxBy_spec (hcmp : ∀ x y, cmp x y = compare (f x) (f y)) {xs : List α} {m : α}
    (h : maxBy cmp xs = some m) : m ∈ xs ∧ ∀ x ∈ xs, f x ≤ f m := by
  cases xs with
  | nil => cases h
  | cons x xs =>
    obtain rfl := Option.some_inj.mp h
    exact foldl_max_spec hcmp x xs

/-- Lists of the same elements have one maximum when the values of the elements are different. -/
theorem maxBy_congr (hcmp : ∀ x y, cmp x y = compare (f x) (f y)) {xs ys : List α}
    (hmem : ∀ x, x ∈ xs ↔ x ∈ ys) (hinj : ∀ x ∈ xs, ∀ y ∈ xs, f x = f y → x = y) :
    maxBy cmp xs = maxBy cmp ys := by
  cases hx : maxBy cmp xs with
  | none =>
    obtain rfl := maxBy_eq_none_iff.mp hx
    have hys : ys = [] := List.eq_nil_iff_forall_not_mem.mpr fun y hy => by
      cases (hmem y).mpr hy
    rw [hys]
    rfl
  | some m =>
    obtain ⟨hm, hmax⟩ := maxBy_spec hcmp hx
    cases hy : maxBy cmp ys with
    | none =>
      obtain rfl := maxBy_eq_none_iff.mp hy
      cases (hmem m).mp hm
    | some m' =>
      obtain ⟨hm', hmax'⟩ := maxBy_spec hcmp hy
      have hm'' : m' ∈ xs := (hmem m').mpr hm'
      exact congrArg some
        (hinj m hm m' hm'' (le_antisymm (hmax' m ((hmem m).mp hm)) (hmax m' hm'')))

/-! ## Comparisons -/

/-- A comparison by two values is that of the pairs of the values, in lexicographic order. -/
theorem compare_then_compare {γ δ : Type*} [LinearOrder γ] [LinearOrder δ] (a a' : γ) (b b' : δ) :
    (compare a a').then (compare b b') = compare (toLex (a, b)) (toLex (a', b')) := by
  rcases lt_trichotomy a a' with hlt | rfl | hlt
  · have hlex : toLex (a, b) < toLex (a', b') := Prod.Lex.toLex_lt_toLex.mpr (Or.inl hlt)
    rw [compare_lt_iff_lt.mpr hlt, compare_lt_iff_lt.mpr hlex]
    rfl
  · rw [compare_eq_iff_eq.mpr rfl]
    rcases lt_trichotomy b b' with hlt | rfl | hlt
    · have hlex : toLex (a, b) < toLex (a, b') := Prod.Lex.toLex_lt_toLex.mpr (Or.inr ⟨rfl, hlt⟩)
      rw [compare_lt_iff_lt.mpr hlt, compare_lt_iff_lt.mpr hlex]
      rfl
    · rw [compare_eq_iff_eq.mpr rfl, compare_eq_iff_eq.mpr rfl]
      rfl
    · have hlex : toLex (a, b') < toLex (a, b) := Prod.Lex.toLex_lt_toLex.mpr (Or.inr ⟨rfl, hlt⟩)
      rw [compare_gt_iff_gt.mpr hlt, compare_gt_iff_gt.mpr hlex]
      rfl
  · have hlex : toLex (a', b') < toLex (a, b) := Prod.Lex.toLex_lt_toLex.mpr (Or.inl hlt)
    rw [compare_gt_iff_gt.mpr hlt, compare_gt_iff_gt.mpr hlex]
    rfl

/-- Machine words are compared as numbers. -/
theorem compare_toNat (a b : UInt64) : compare a b = compare a.toNat b.toNat := by
  have hlt : a < b ↔ a.toNat < b.toNat := UInt64.lt_iff_toNat_lt
  have heq : a = b ↔ a.toNat = b.toNat := UInt64.toNat_inj.symm
  change compareOfLessAndEq a b = compareOfLessAndEq a.toNat b.toNat
  unfold compareOfLessAndEq
  simp only [hlt, heq]

end VectorStore
