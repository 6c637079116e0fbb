import Mathlib.Tactic

/-!
# Comparisons that are total orders

A comparison orders the elements with a property when it compares any two of them, and orders them
totally up to what it calls equal.  A comparison that compares representations inherits this from
theirs.
-/

namespace VectorStore

section Comparison

variable {α β : Type*} (cmp : α → α → Option Ordering)

/-- Less or equal. -/
def Le (a b : α) : Prop := ∃ ord, cmp a b = some ord ∧ ord.isLE = true

/-- A total order on the elements with a property. -/
structure TotalOn (P : α → Prop) : Prop where
  comparable : ∀ a b, P a → P b → ∃ ord, cmp a b = some ord
  swap : ∀ a b, P a → P b → cmp b a = (cmp a b).map Ordering.swap
  refl : ∀ a, P a → cmp a a = some .eq
  antisymm : ∀ a b, P a → P b → Le cmp a b → Le cmp b a → cmp a b = some .eq
  trans : ∀ a b c, P a → P b → P c → Le cmp a b → Le cmp b c → Le cmp a c
  total : ∀ a b, P a → P b → Le cmp a b ∨ Le cmp b a

/-- The elements with a property are made from the elements of a type, and compare as these do:
equal where they are the same. -/
structure MadeFrom (P : α → Prop) (Same : α → α → Prop) (c : β → β → Ordering) (f : β → α) :
    Prop where
  trans : Std.TransCmp c
  made : ∀ a, P a → ∃ x, a = f x
  compared : ∀ x y, P (f x) → P (f y) → cmp (f x) (f y) = some (c x y)
  same : ∀ x y, P (f x) → P (f y) → (c x y = .eq ↔ Same (f x) (f y))

variable {cmp} {P : α → Prop} {Same : α → α → Prop} {c : β → β → Ordering} {f : β → α}

namespace MadeFrom

/-- What compares as the elements of a type do is ordered totally. -/
theorem totalOn (h : MadeFrom cmp P Same c f) : TotalOn cmp P where
  comparable a b ha hb := by
    obtain ⟨x, rfl⟩ := h.made a ha
    obtain ⟨y, rfl⟩ := h.made b hb
    exact ⟨_, h.compared x y ha hb⟩
  swap a b ha hb := by
    have hc := h.trans
    obtain ⟨x, rfl⟩ := h.made a ha
    obtain ⟨y, rfl⟩ := h.made b hb
    rw [h.compared x y ha hb, h.compared y x hb ha, Option.map_some, @Std.OrientedCmp.eq_swap _ c]
  refl a ha := by
    have hc := h.trans
    obtain ⟨x, rfl⟩ := h.made a ha
    rw [h.compared x x ha ha, @Std.ReflCmp.compare_self _ c]
  antisymm a b ha hb := by
    have hc := h.trans
    obtain ⟨x, rfl⟩ := h.made a ha
    obtain ⟨y, rfl⟩ := h.made b hb
    rintro ⟨ord, hab, hle⟩ ⟨ord', hba, hle'⟩
    rw [h.compared x y ha hb] at hab ⊢
    rw [h.compared y x hb ha] at hba
    obtain rfl := Option.some_inj.mp hab
    obtain rfl := Option.some_inj.mp hba
    exact congrArg some (Std.OrientedCmp.isLE_antisymm hle hle')
  trans a b d ha hb hd := by
    have hc := h.trans
    obtain ⟨x, rfl⟩ := h.made a ha
    obtain ⟨y, rfl⟩ := h.made b hb
    obtain ⟨z, rfl⟩ := h.made d hd
    rintro ⟨ord, hab, hle⟩ ⟨ord', hbd, hle'⟩
    rw [h.compared x y ha hb] at hab
    rw [h.compared y z hb hd] at hbd
    obtain rfl := Option.some_inj.mp hab
    obtain rfl := Option.some_inj.mp hbd
    exact ⟨_, h.compared x z ha hd, Std.TransCmp.isLE_trans hle hle'⟩
  total a b ha hb := by
    have hc := h.trans
    obtain ⟨x, rfl⟩ := h.made a ha
    obtain ⟨y, rfl⟩ := h.made b hb
    cases hxy : (c x y).isLE with
    | true => exact Or.inl ⟨_, h.compared x y ha hb, hxy⟩
    | false =>
      refine Or.inr ⟨_, h.compared y x hb ha, ?_⟩
      have hge : (c x y).isGE = true := by
        cases hord : c x y <;> rw [hord] at hxy <;> first | rfl | cases hxy
      exact Std.OrientedCmp.isGE_iff_isLE.mp hge

/-- The elements that compare equal are the same. -/
theorem eq_iff (h : MadeFrom cmp P Same c f) {a b : α} (ha : P a) (hb : P b) :
    cmp a b = some .eq ↔ Same a b := by
  obtain ⟨x, rfl⟩ := h.made a ha
  obtain ⟨y, rfl⟩ := h.made b hb
  rw [h.compared x y ha hb, Option.some_inj, h.same x y ha hb]

/-- Elements that compare as their keys. -/
theorem of_key {κ : Type*} [Ord κ] [Std.TransOrd κ] [Std.LawfulEqOrd κ] (key : β → κ)
    (made : ∀ a, P a → ∃ x, a = f x)
    (compared : ∀ x y, P (f x) → P (f y) → cmp (f x) (f y) = some (compare (key x) (key y)))
    (same : ∀ x y, P (f x) → P (f y) → (key x = key y ↔ Same (f x) (f y))) :
    MadeFrom cmp P Same (fun x y => compare (key x) (key y)) f where
  trans :=
    { eq_swap {a b} := Std.OrientedCmp.eq_swap (a := key a) (b := key b)
      isLE_trans {a b d} := Std.TransCmp.isLE_trans (a := key a) (b := key b) (c := key d) }
  made := made
  compared := compared
  same x y hx hy := Std.LawfulEqOrd.compare_eq_iff_eq.trans (same x y hx hy)

end MadeFrom

end Comparison

/-! ## Digits -/

/-- Digits of one base are determined by the number that they stand for. -/
theorem foldl_digits_inj {base : ℕ} {xs ys : List ℕ} (hlen : xs.length = ys.length)
    (hxs : ∀ x ∈ xs, x < base) (hys : ∀ y ∈ ys, y < base) {m n : ℕ}
    (h : xs.foldl (fun acc digit => acc * base + digit) m =
      ys.foldl (fun acc digit => acc * base + digit) n) : m = n ∧ xs = ys := by
  induction xs generalizing ys m n with
  | nil =>
    obtain rfl := List.length_eq_zero_iff.mp hlen.symm
    exact ⟨h, rfl⟩
  | cons x xs ih =>
    cases ys with
    | nil => cases hlen
    | cons y ys =>
      obtain ⟨hx, hxs⟩ := List.forall_mem_cons.mp hxs
      obtain ⟨hy, hys⟩ := List.forall_mem_cons.mp hys
      obtain ⟨hsum, rfl⟩ := ih (Nat.succ.inj hlen) hxs hys h
      have hpos : 0 < base := Nat.zero_lt_of_lt hx
      have hmod := congrArg (· % base) hsum
      have hdiv := congrArg (· / base) hsum
      simp only [Nat.mul_comm _ base, Nat.mul_add_mod, Nat.mod_eq_of_lt hx,
        Nat.mod_eq_of_lt hy] at hmod
      simp only [Nat.mul_comm _ base, Nat.mul_add_div hpos, Nat.div_eq_of_lt hx,
        Nat.div_eq_of_lt hy, Nat.add_zero] at hdiv
      exact ⟨hdiv, by rw [hmod]⟩

end VectorStore
