import Mathlib.Order.Basic
import Mathlib.Tactic

/-!
# Last-write-wins registers

A register holds a content together with the stamp of the write that produced it.  A write is
absorbed when its stamp is strictly greater than the stored one, so a tie keeps what was
delivered first.  The file characterises the state after a list of writes: it is a latest write
of the list whenever that write beats the initial state and no other write ties with it.

Stamps are taken from any linear order and contents from any type.
-/

namespace VectorStore

/-- A content together with the stamp of the write that produced it. -/
@[ext] structure Stamped (τ α : Type*) where
  /-- The stamp of the write. -/
  stamp : τ
  /-- What the write stored. -/
  content : α
deriving DecidableEq, Repr

namespace Stamped

variable {τ α β : Type*} [LinearOrder τ]

/-- A write replaces the stored content when its stamp is strictly greater. -/
def absorb (cur new : Stamped τ α) : Stamped τ α :=
  if cur.stamp < new.stamp then new else cur

/-- The register after a list of writes, delivered from left to right. -/
def absorbAll (cur : Stamped τ α) (writes : List (Stamped τ α)) : Stamped τ α :=
  writes.foldl absorb cur

/-- A write that comes later than the stored one is what the register holds. -/
@[simp] theorem absorb_of_lt {cur new : Stamped τ α} (h : cur.stamp < new.stamp) :
    cur.absorb new = new :=
  if_pos h

/-- A write that is not later leaves the register alone. -/
@[simp] theorem absorb_of_le {cur new : Stamped τ α} (h : new.stamp ≤ cur.stamp) :
    cur.absorb new = cur :=
  if_neg (not_lt.mpr h)

/-- The stored stamp after a write is the later of the two. -/
@[simp] theorem stamp_absorb (cur new : Stamped τ α) :
    (cur.absorb new).stamp = max cur.stamp new.stamp := by
  rcases lt_or_ge cur.stamp new.stamp with h | h
  · rw [absorb_of_lt h, max_eq_right h.le]
  · rw [absorb_of_le h, max_eq_left h]

/-- A write that was absorbed changes nothing when it comes again. -/
theorem absorb_absorb_self (cur new : Stamped τ α) :
    (cur.absorb new).absorb new = cur.absorb new :=
  absorb_of_le (by rw [stamp_absorb]; exact le_max_right _ _)

@[simp] theorem absorbAll_nil (cur : Stamped τ α) : cur.absorbAll [] = cur := rfl

@[simp] theorem absorbAll_cons (cur w : Stamped τ α) (ws : List (Stamped τ α)) :
    cur.absorbAll (w :: ws) = (cur.absorb w).absorbAll ws := rfl

/-- Delivering two batches of writes is delivering their concatenation. -/
theorem absorbAll_append (cur : Stamped τ α) (ws vs : List (Stamped τ α)) :
    cur.absorbAll (ws ++ vs) = (cur.absorbAll ws).absorbAll vs :=
  List.foldl_append

/-- What the register holds is the initial state or one of the writes. -/
theorem absorbAll_eq_or_mem (cur : Stamped τ α) (ws : List (Stamped τ α)) :
    cur.absorbAll ws = cur ∨ cur.absorbAll ws ∈ ws := by
  induction ws generalizing cur with
  | nil => exact Or.inl rfl
  | cons w ws ih =>
    rw [absorbAll_cons]
    rcases ih (cur.absorb w) with h | h
    · rw [h]
      rcases lt_or_ge cur.stamp w.stamp with hlt | hge
      · exact Or.inr (by rw [absorb_of_lt hlt]; exact List.mem_cons_self)
      · exact Or.inl (absorb_of_le hge)
    · exact Or.inr (List.mem_cons_of_mem w h)

/-- The stored stamp never goes back. -/
theorem stamp_le_absorbAll (cur : Stamped τ α) (ws : List (Stamped τ α)) :
    cur.stamp ≤ (cur.absorbAll ws).stamp := by
  induction ws generalizing cur with
  | nil => exact le_rfl
  | cons w ws ih => exact (by simp : cur.stamp ≤ (cur.absorb w).stamp).trans (ih _)

/-- The stored stamp is at least that of every write delivered. -/
theorem stamp_le_of_mem {cur w : Stamped τ α} {ws : List (Stamped τ α)} (hw : w ∈ ws) :
    w.stamp ≤ (cur.absorbAll ws).stamp := by
  induction ws generalizing cur with
  | nil => cases hw
  | cons v ws ih =>
    rcases List.mem_cons.mp hw with rfl | hw
    · exact (by simp : w.stamp ≤ (cur.absorb w).stamp).trans (stamp_le_absorbAll _ ws)
    · exact ih hw

/-- `w` is a latest write of `ws`: no write of the list has a greater stamp. -/
def IsLatest (w : Stamped τ α) (ws : List (Stamped τ α)) : Prop :=
  w ∈ ws ∧ ∀ v ∈ ws, v.stamp ≤ w.stamp

/-- Writes with one stamp carry one content. -/
def Consistent (ws : List (Stamped τ α)) : Prop :=
  ∀ v ∈ ws, ∀ w ∈ ws, v.stamp = w.stamp → v.content = w.content

instance [DecidableEq α] (ws : List (Stamped τ α)) : Decidable (Consistent ws) := by
  unfold Consistent
  infer_instance

omit [LinearOrder τ] in
/-- Consistency is inherited by fewer writes. -/
theorem Consistent.mono {ws vs : List (Stamped τ α)} (h : Consistent vs) (hsub : ws ⊆ vs) :
    Consistent ws :=
  fun v hv w hw => h v (hsub hv) w (hsub hw)

/-- A nonempty list of writes has a latest one. -/
theorem exists_isLatest {ws : List (Stamped τ α)} (h : ws ≠ []) : ∃ w, IsLatest w ws := by
  induction ws with
  | nil => exact absurd rfl h
  | cons v ws ih =>
    by_cases hws : ws = []
    · subst hws
      exact ⟨v, List.mem_cons_self, by simp⟩
    · obtain ⟨w, hw, hmax⟩ := ih hws
      rcases le_total v.stamp w.stamp with hvw | hwv
      · refine ⟨w, List.mem_cons_of_mem v hw, fun u hu => ?_⟩
        rcases List.mem_cons.mp hu with rfl | hu
        · exact hvw
        · exact hmax u hu
      · refine ⟨v, List.mem_cons_self, fun u hu => ?_⟩
        rcases List.mem_cons.mp hu with rfl | hu
        · exact le_rfl
        · exact (hmax u hu).trans hwv

omit [LinearOrder τ] in
/-- Among consistent writes, a write with the stamp of the latest one is the latest one. -/
theorem Consistent.eq_of_stamp_eq {ws : List (Stamped τ α)} (hc : Consistent ws)
    {v w : Stamped τ α} (hv : v ∈ ws) (hw : w ∈ ws) (h : v.stamp = w.stamp) : v = w :=
  Stamped.ext h (hc v hv w hw h)

/-- The register holds the latest write, provided that write beats the initial state and no
other write of the list ties with it. -/
theorem absorbAll_eq_of_isLatest {cur w : Stamped τ α} {ws : List (Stamped τ α)}
    (hw : IsLatest w ws) (hcur : cur.stamp < w.stamp)
    (htie : ∀ v ∈ ws, v.stamp = w.stamp → v = w) : cur.absorbAll ws = w := by
  have hge : w.stamp ≤ (cur.absorbAll ws).stamp := stamp_le_of_mem hw.1
  rcases absorbAll_eq_or_mem cur ws with h | h
  · rw [h] at hge
    exact absurd hcur (not_lt.mpr hge)
  · exact htie _ h (le_antisymm (hw.2 _ h) hge)

/-- Writes that are not later than the initial state leave the register alone. -/
theorem absorbAll_eq_self {cur : Stamped τ α} {ws : List (Stamped τ α)}
    (h : ∀ w ∈ ws, w.stamp ≤ cur.stamp) : cur.absorbAll ws = cur := by
  induction ws with
  | nil => rfl
  | cons w ws ih =>
    rw [absorbAll_cons, absorb_of_le (h w List.mem_cons_self)]
    exact ih fun v hv => h v (List.mem_cons_of_mem w hv)

/-- A write that may follow what is stored: it is not older, and a tie carries the same content. -/
def Before (cur new : Stamped τ α) : Prop :=
  cur.stamp ≤ new.stamp ∧ (cur.stamp = new.stamp → cur.content = new.content)

instance [DecidableEq α] (cur new : Stamped τ α) : Decidable (cur.Before new) := by
  unfold Before
  infer_instance

/-- A write that may follow what is stored is what the register holds afterwards. -/
theorem Before.absorb_eq {cur new : Stamped τ α} (h : cur.Before new) : cur.absorb new = new := by
  rcases h.1.lt_or_eq with hlt | heq
  · exact absorb_of_lt hlt
  · rw [absorb_of_le heq.ge]
    exact Stamped.ext heq (h.2 heq)

/-- Copies of one write that may follow what is stored. -/
theorem Before.absorbAll_eq {cur new : Stamped τ α} (h : cur.Before new) {ws : List (Stamped τ α)}
    (hne : ws ≠ []) (hall : ∀ w ∈ ws, w = new) : cur.absorbAll ws = new := by
  induction ws generalizing cur with
  | nil => exact absurd rfl hne
  | cons w ws ih =>
    obtain ⟨rfl, hws⟩ := List.forall_mem_cons.mp hall
    rw [absorbAll_cons, h.absorb_eq]
    by_cases hnil : ws = []
    · rw [hnil, absorbAll_nil]
    · exact ih ⟨le_rfl, fun _ => rfl⟩ hnil hws

/-- Order and repetitions do not matter: two lists with the same consistent writes, all later
than the initial state, lead to the same register. -/
theorem absorbAll_congr {cur : Stamped τ α} {ws vs : List (Stamped τ α)}
    (hmem : ∀ w, w ∈ ws ↔ w ∈ vs) (hc : Consistent ws) (hcur : ∀ w ∈ ws, cur.stamp < w.stamp) :
    cur.absorbAll ws = cur.absorbAll vs := by
  by_cases hws : ws = []
  · have hvs : vs = [] :=
      List.eq_nil_iff_forall_not_mem.mpr fun w hw => by simpa [hws] using (hmem w).mpr hw
    rw [hws, hvs]
  · obtain ⟨w, hw⟩ := exists_isLatest hws
    have hwv : IsLatest w vs := ⟨(hmem w).mp hw.1, fun v hv => hw.2 v ((hmem v).mpr hv)⟩
    rw [absorbAll_eq_of_isLatest hw (hcur w hw.1) fun v hv => hc.eq_of_stamp_eq hv hw.1,
      absorbAll_eq_of_isLatest hwv (hcur w hw.1)
        fun v hv => hc.eq_of_stamp_eq ((hmem v).mpr hv) hw.1]

/-! ## Copies of another register

A copy of a source register is taken at some moment and absorbed at another one.  Its content is
related to that of the source by a relation `R`.
-/

section Copies

variable {R : α → β → Prop} {source : Stamped τ α} {copy cur new : Stamped τ β}

/-- A copy that is at least as new as the last write of the source carries the content of the
source. -/
def Follows (R : α → β → Prop) (source : Stamped τ α) (copy : Stamped τ β) : Prop :=
  source.stamp ≤ copy.stamp → R source.content copy.content

/-- What is older than the last write of the source need not carry its content. -/
theorem Follows.of_lt (h : copy.stamp < source.stamp) : Follows R source copy :=
  fun hle => absurd h hle.not_gt

/-- A copy with the content of the source. -/
theorem Follows.of_content (h : R source.content copy.content) : Follows R source copy :=
  fun _ => h

end Copies

end Stamped

end VectorStore
