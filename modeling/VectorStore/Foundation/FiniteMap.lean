import Mathlib.Data.List.AList
import Mathlib.Tactic

/-!
# Finite maps

Mathlib's association lists are the finite maps of the development.  This file adds what it lacks
for maps with values in one type: the map of a function over the values, the restriction to the
keys with a property, and the number of keys after an insertion and after an erasure.
-/

namespace VectorStore

namespace FiniteMap

variable {α β γ : Type*}

/-- The map with a function of the key and the value applied to every entry. -/
def mapEntries (f : α → β → γ) (m : AList fun _ : α => β) : AList fun _ : α => γ where
  entries := m.entries.map fun e => ⟨e.1, f e.1 e.2⟩
  nodupKeys := by
    have hkeys : (m.entries.map fun e => (⟨e.1, f e.1 e.2⟩ : Sigma fun _ : α => γ)).keys =
        m.entries.keys := by
      unfold List.keys
      rw [List.map_map]
      rfl
    unfold List.NodupKeys
    rw [hkeys]
    exact m.nodupKeys

/-- The map with a function applied to every value. -/
def mapValues (f : β → γ) (m : AList fun _ : α => β) : AList fun _ : α => γ where
  entries := m.entries.map fun e => ⟨e.1, f e.2⟩
  nodupKeys := by exact (mapEntries (fun _ => f) m).nodupKeys

variable [DecidableEq α]

/-- Looking up a key after mapping the entries is mapping the value looked up. -/
theorem lookup_mapEntries (f : α → β → γ) (m : AList fun _ : α => β) (a : α) :
    (mapEntries f m).lookup a = (m.lookup a).map (f a) := by
  obtain ⟨entries, hnd⟩ := m
  unfold AList.lookup mapEntries
  simp only
  induction entries with
  | nil => rfl
  | cons e es ih =>
    obtain ⟨b, v⟩ := e
    have hes : es.NodupKeys := (List.nodupKeys_cons.mp hnd).2
    by_cases h : a = b
    · subst h
      simp
    · rw [List.map_cons, List.dlookup_cons_ne _ _ h, List.dlookup_cons_ne _ _ h]
      exact ih hes

/-- Looking up a key after mapping the values is mapping the value looked up. -/
@[simp] theorem lookup_mapValues (f : β → γ) (m : AList fun _ : α => β) (a : α) :
    (mapValues f m).lookup a = (m.lookup a).map f :=
  lookup_mapEntries (fun _ => f) m a

/-- The value at a key after an insertion. -/
theorem lookup_insert_eq (m : AList fun _ : α => β) (a b : α) (v : β) :
    (m.insert a v).lookup b = if b = a then some v else m.lookup b := by
  by_cases h : b = a
  · subst h
    rw [if_pos rfl, AList.lookup_insert]
  · rw [if_neg h, AList.lookup_insert_ne h]

/-- The value at a key after an erasure. -/
theorem lookup_erase_eq (m : AList fun _ : α => β) (a b : α) :
    (m.erase a).lookup b = if b = a then none else m.lookup b := by
  by_cases h : b = a
  · subst h
    rw [if_pos rfl, AList.lookup_erase]
  · rw [if_neg h, AList.lookup_erase_ne h]

/-- The value at a key after an erasure or an insertion of one key. -/
theorem lookup_ite_erase_insert (p : Prop) [Decidable p] (m : AList fun _ : α => β) (a b : α)
    (v : β) : (if p then m.erase a else m.insert a v).lookup b =
      if b = a then if p then none else some v else m.lookup b := by
  split
  · exact lookup_erase_eq m a b
  · exact lookup_insert_eq m a b v

/-- The map with a function applied to the value of a key, when it has one. -/
def modify (m : AList fun _ : α => β) (a : α) (f : β → β) : AList fun _ : α => β :=
  match m.lookup a with
  | some v => m.insert a (f v)
  | none => m

/-- A modification of a key without a value changes nothing. -/
theorem modify_absent {m : AList fun _ : α => β} {a : α} (h : m.lookup a = none) (f : β → β) :
    modify m a f = m := by
  unfold modify
  rw [h]

/-- The value at a key after a modification. -/
theorem lookup_modify (m : AList fun _ : α => β) (a b : α) (f : β → β) :
    (modify m a f).lookup b = if b = a then (m.lookup b).map f else m.lookup b := by
  unfold modify
  cases ha : m.lookup a with
  | none =>
    by_cases h : b = a
    · rw [if_pos h, h, ha, Option.map_none]
    · rw [if_neg h]
  | some v =>
    rw [lookup_insert_eq]
    by_cases h : b = a
    · rw [if_pos h, if_pos h, h, ha, Option.map_some]
    · rw [if_neg h, if_neg h]

/-- After a list of insertions a key has the value of one of them, or none of them was for it and
it has the value it had. -/
theorem lookup_foldl_insert {γ : Type*} (f : γ → α) (g : γ → β) (xs : List γ)
    (m : AList fun _ : α => β) (a : α) :
    (∃ x ∈ xs, f x = a ∧ (xs.foldl (fun m x => m.insert (f x) (g x)) m).lookup a = some (g x)) ∨
      ((∀ x ∈ xs, f x ≠ a) ∧
        (xs.foldl (fun m x => m.insert (f x) (g x)) m).lookup a = m.lookup a) := by
  induction xs generalizing m with
  | nil => exact Or.inr ⟨by simp, rfl⟩
  | cons x xs ih =>
    rw [List.foldl_cons]
    rcases ih (m.insert (f x) (g x)) with ⟨y, hy, hfy, hlook⟩ | ⟨hne, hlook⟩
    · exact Or.inl ⟨y, List.mem_cons_of_mem x hy, hfy, hlook⟩
    · rw [lookup_insert_eq] at hlook
      by_cases hx : a = f x
      · rw [if_pos hx] at hlook
        exact Or.inl ⟨x, List.mem_cons_self, hx.symm, hlook⟩
      · rw [if_neg hx] at hlook
        refine Or.inr ⟨fun y hy => ?_, hlook⟩
        rcases List.mem_cons.mp hy with rfl | hy
        · exact Ne.symm hx
        · exact hne y hy

/-- After the insertion of a list of pairs with one value for the key, the key has that value, or
the value it had. -/
theorem lookup_foldl_insert_pairs {xs : List (α × β)} {m : AList fun _ : α => β} {a : α}
    {value : Option β} (h : ∀ b, (a, b) ∈ xs ↔ value = some b) :
    (xs.foldl (fun m x => m.insert x.1 x.2) m).lookup a = value.or (m.lookup a) := by
  rcases lookup_foldl_insert Prod.fst Prod.snd xs m a with ⟨x, hx, hfst, hlook⟩ | ⟨hne, hlook⟩
  · obtain ⟨a', b⟩ := x
    obtain rfl : a' = a := hfst
    rw [hlook, (h b).mp hx, Option.some_or]
  · have hnone : value = none := by
      cases value with
      | none => rfl
      | some b => exact absurd rfl (hne (a, b) ((h b).mpr rfl))
    rw [hlook, hnone, Option.none_or]

/-- Inserting a new key adds one key. -/
theorem length_keys_insert {m : AList fun _ : α => β} {a : α} (h : m.lookup a = none) (v : β) :
    (m.insert a v).keys.length = m.keys.length + 1 := by
  have hmem : a ∉ m.keys := AList.mem_keys.not.mp (AList.lookup_eq_none.mp h)
  rw [AList.keys_insert, List.length_cons, List.erase_of_not_mem hmem]

/-- Erasing a key that is there removes one key. -/
theorem length_keys_erase {m : AList fun _ : α => β} {a : α} {v : β} (h : m.lookup a = some v) :
    (m.erase a).keys.length + 1 = m.keys.length := by
  have hmem : a ∈ m.keys := AList.mem_keys.mp (AList.lookup_isSome.mp (by rw [h]; rfl))
  rw [AList.keys_erase, List.length_erase_of_mem hmem]
  have := List.length_pos_of_mem hmem
  omega

/-! ## The keys with a property -/

omit [DecidableEq α] in
/-- The map restricted to the keys that satisfy `p`. -/
def filterKeys (p : α → Bool) (m : AList fun _ : α => β) : AList fun _ : α => β where
  entries := m.entries.filter fun e => p e.1
  nodupKeys := m.nodupKeys.sublist List.filter_sublist

/-- The number of keys that satisfy `p`. -/
def countKeys (p : α → Bool) (m : AList fun _ : α => β) : Nat := m.keys.countP p

omit [DecidableEq α] in
/-- The restriction keeps every key with the property. -/
theorem filterKeys_eq_self {p : α → Bool} {m : AList fun _ : α => β} (h : ∀ a ∈ m.keys, p a) :
    filterKeys p m = m := by
  refine AList.ext ?_
  refine List.filter_eq_self.mpr fun e he => ?_
  exact h e.1 (List.mem_map_of_mem he)

/-- A key of the map is a key with a value. -/
theorem mem_keys_iff {m : AList fun _ : α => β} {a : α} :
    a ∈ m.keys ↔ ∃ v, m.lookup a = some v := by
  rw [← AList.mem_keys, ← AList.lookup_isSome, Option.isSome_iff_exists]

/-- No key has the property when the count is zero. -/
theorem countKeys_eq_zero_iff {p : α → Bool} {m : AList fun _ : α => β} :
    countKeys p m = 0 ↔ ∀ a v, m.lookup a = some v → p a = false := by
  rw [countKeys, List.countP_eq_zero]
  constructor
  · intro h a v ha
    exact Bool.not_eq_true _ ▸ h a (mem_keys_iff.mpr ⟨v, ha⟩)
  · intro h a ha
    obtain ⟨v, hv⟩ := mem_keys_iff.mp ha
    rw [h a v hv]
    exact Bool.false_ne_true

/-- Inserting a new key adds it to the count when it has the property. -/
theorem countKeys_insert {m : AList fun _ : α => β} {a : α} (h : m.lookup a = none) (v : β)
    (p : α → Bool) : countKeys p (m.insert a v) = countKeys p m + if p a then 1 else 0 := by
  have hmem : a ∉ m.keys := AList.mem_keys.not.mp (AList.lookup_eq_none.mp h)
  rw [countKeys, AList.keys_insert, List.countP_cons, List.erase_of_not_mem hmem, countKeys]

/-- Erasing a key that is there takes it from the count when it has the property. -/
theorem countKeys_erase {m : AList fun _ : α => β} {a : α} {v : β} (h : m.lookup a = some v)
    (p : α → Bool) : countKeys p (m.erase a) + (if p a then 1 else 0) = countKeys p m := by
  have hmem : a ∈ m.keys := mem_keys_iff.mpr ⟨v, h⟩
  have hperm : m.keys.Perm (a :: m.keys.erase a) := List.perm_cons_erase hmem
  rw [countKeys, countKeys, AList.keys_erase, hperm.countP_eq, List.countP_cons]

end FiniteMap

end VectorStore
