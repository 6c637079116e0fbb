import VectorStore.Foundation.Run

/-!
# Writes that take effect later

Writes to the keys of a map are issued in one order and take effect in another one.  What has taken
effect and the writes that are still pending stand for all that was issued: a pending write may take
effect before earlier ones as long as these are for other keys.  Once nothing is pending, the map is
that of the writes in the order they were issued.
-/

namespace VectorStore

/-- A write of a key: a value, or the removal of the one there is. -/
structure Write (κ ν : Type*) where
  key : κ
  value : Option ν
deriving DecidableEq

namespace Write

variable {κ ν : Type*} [DecidableEq κ] {contents : κ → Option ν} {w : Write κ ν}
  {ws vs pending log : List (Write κ ν)}

/-- The contents after a write. -/
def apply (contents : κ → Option ν) (w : Write κ ν) : κ → Option ν :=
  Function.update contents w.key w.value

/-- The contents after a list of writes. -/
def replay (contents : κ → Option ν) (ws : List (Write κ ν)) : κ → Option ν :=
  Machine.run apply contents ws

@[simp] theorem replay_cons (contents : κ → Option ν) (w : Write κ ν) (ws : List (Write κ ν)) :
    replay contents (w :: ws) = replay (apply contents w) ws := rfl

theorem replay_append (contents : κ → Option ν) (ws vs : List (Write κ ν)) :
    replay contents (ws ++ vs) = replay (replay contents ws) vs :=
  Machine.run_append contents ws vs

theorem replay_concat (contents : κ → Option ν) (ws : List (Write κ ν)) (w : Write κ ν) :
    replay contents (ws ++ [w]) = apply (replay contents ws) w :=
  Machine.run_append contents ws [w]

@[simp] theorem apply_self (contents : κ → Option ν) (w : Write κ ν) :
    apply contents w w.key = w.value :=
  Function.update_self ..

theorem apply_of_ne (contents : κ → Option ν) {w : Write κ ν} {key : κ} (h : key ≠ w.key) :
    apply contents w key = contents key :=
  Function.update_of_ne h ..

/-- A key without a write keeps its value. -/
theorem replay_of_ne {key : κ} (h : ∀ w ∈ ws, key ≠ w.key) :
    replay contents ws key = contents key := by
  induction ws generalizing contents with
  | nil => rfl
  | cons w ws ih =>
    rw [replay_cons, ih fun v hv => h v (List.mem_cons_of_mem w hv),
      apply_of_ne contents (h w List.mem_cons_self)]

/-- A write among writes of different keys is the one its key ends with. -/
theorem replay_of_mem (hnodup : (ws.map key).Nodup) (hw : w ∈ ws) :
    replay contents ws w.key = w.value := by
  induction ws generalizing contents with
  | nil => cases hw
  | cons v ws ih =>
    rw [List.map_cons, List.nodup_cons] at hnodup
    rw [replay_cons]
    rcases List.mem_cons.mp hw with rfl | hw
    · have hother : ∀ v ∈ ws, w.key ≠ v.key := fun v hv heq =>
        hnodup.1 (List.mem_map.mpr ⟨v, hv, heq.symm⟩)
      rw [replay_of_ne hother, apply_self]
    · exact ih hnodup.2 hw

/-- Writes of two keys may be exchanged. -/
theorem apply_comm (contents : κ → Option ν) {v : Write κ ν} (h : v.key ≠ w.key) :
    apply (apply contents w) v = apply (apply contents v) w :=
  Function.update_comm h.symm ..

/-- A write goes before writes of other keys. -/
theorem replay_hoist (h : ∀ v ∈ ws, v.key ≠ w.key) (vs : List (Write κ ν)) :
    replay (apply contents w) (ws ++ vs) = replay contents (ws ++ w :: vs) :=
  (Machine.run_hoist (fun v hv s => (apply_comm s (h v hv)).symm) contents vs).symm

/-- What has taken effect and what is pending stand for all the writes issued. -/
def Deferred (contents : κ → Option ν) (pending log : List (Write κ ν)) : Prop :=
  replay contents pending = replay (fun _ => none) log

/-- Nothing has been issued. -/
theorem deferred_nil : Deferred (fun _ : κ => (none : Option ν)) [] [] := rfl

/-- A write is issued. -/
theorem Deferred.issue (h : Deferred contents pending log) (w : Write κ ν) :
    Deferred contents (pending ++ [w]) (log ++ [w]) := by
  unfold Deferred at h ⊢
  rw [replay_concat, replay_concat, h]

/-- A pending write takes effect; those before it are for other keys. -/
theorem Deferred.perform (h : Deferred contents (ws ++ w :: vs) log)
    (hkey : ∀ v ∈ ws, v.key ≠ w.key) : Deferred (apply contents w) (ws ++ vs) log := by
  unfold Deferred at h ⊢
  rw [replay_hoist hkey, h]

/-- Nothing is pending: the contents are those of the writes in the order they were issued. -/
theorem Deferred.eq_replay (h : Deferred contents [] log) :
    contents = replay (fun _ => none) log := h

/-- The pending writes are for different keys, and those with a value find none. -/
structure Independent (contents : κ → Option ν) (pending : List (Write κ ν)) : Prop where
  nodup : (pending.map key).Nodup
  fresh : ∀ w ∈ pending, w.value.isSome → contents w.key = none

omit [DecidableEq κ] in
theorem independent_nil (contents : κ → Option ν) : Independent contents [] where
  nodup := List.nodup_nil
  fresh _ h := by cases h

omit [DecidableEq κ] in
/-- A write for a key that is not pending is issued. -/
theorem Independent.issue (h : Independent contents pending) (hkey : ∀ v ∈ pending, v.key ≠ w.key)
    (hfresh : w.value.isSome → contents w.key = none) : Independent contents (pending ++ [w]) where
  nodup := by
    rw [List.map_append, List.map_singleton, List.nodup_append]
    refine ⟨h.nodup, List.nodup_singleton _, ?_⟩
    intro k hk k' hk' heq
    obtain ⟨v, hv, rfl⟩ := List.mem_map.mp hk
    exact hkey v hv (heq.trans (List.mem_singleton.mp hk'))
  fresh v hv := by
    rcases List.mem_append.mp hv with hv | hv
    · exact h.fresh v hv
    · rw [List.mem_singleton.mp hv]
      exact hfresh

omit [DecidableEq κ] in
/-- The other pending writes are for other keys. -/
theorem Independent.key_ne (h : Independent contents (ws ++ w :: vs)) :
    ∀ v ∈ ws ++ vs, v.key ≠ w.key := by
  have hnodup := h.nodup
  rw [List.map_append, List.map_cons, List.nodup_middle, List.nodup_cons] at hnodup
  intro v hv heq
  refine hnodup.1 ?_
  rw [← heq, ← List.map_append]
  exact List.mem_map_of_mem hv

/-- A pending write takes effect. -/
theorem Independent.perform (h : Independent contents (ws ++ w :: vs)) :
    Independent (apply contents w) (ws ++ vs) where
  nodup := by
    have hnodup := h.nodup
    rw [List.map_append, List.map_cons, List.nodup_middle, List.nodup_cons] at hnodup
    rw [List.map_append]
    exact hnodup.2
  fresh v hv hsome := by
    have hmem : v ∈ ws ++ w :: vs := by
      rw [List.mem_append, List.mem_cons]
      exact (List.mem_append.mp hv).imp_right Or.inr
    rw [apply_of_ne contents (h.key_ne v hv)]
    exact h.fresh v hmem hsome

/-- A pending write with a value finds none once those before it have taken effect. -/
def Expected (contents : κ → Option ν) (pending : List (Write κ ν)) : Prop :=
  Machine.Along apply (fun contents w => w.value.isSome → contents w.key = none) contents pending

theorem expected_nil (contents : κ → Option ν) : Expected contents [] := trivial

/-- A write is issued that finds no value once the pending ones have taken effect. -/
theorem Expected.issue (h : Expected contents pending)
    (hfresh : w.value.isSome → replay contents pending w.key = none) :
    Expected contents (pending ++ [w]) :=
  Machine.along_append.mpr ⟨h, hfresh, trivial⟩

/-- A pending write that none before it is in the way of finds no value. -/
theorem Expected.eq_none (h : Expected contents (ws ++ w :: vs))
    (hkey : ∀ v ∈ ws, v.key ≠ w.key) (hsome : w.value.isSome) : contents w.key = none := by
  have hreplay : replay contents ws w.key = none := (Machine.along_append.mp h).2.1 hsome
  rwa [replay_of_ne fun v hv => (hkey v hv).symm] at hreplay

/-- What is expected of writes does not depend on writes of other keys. -/
theorem Expected.apply (h : Expected contents ws) (hkey : ∀ v ∈ ws, v.key ≠ w.key) :
    Expected (w.apply contents) ws := by
  induction ws generalizing contents with
  | nil => trivial
  | cons v ws ih =>
    have hv : v.key ≠ w.key := hkey v List.mem_cons_self
    refine ⟨fun hsome => ?_, ?_⟩
    · rw [apply_of_ne contents hv]
      exact h.1 hsome
    · rw [apply_comm contents hv]
      exact ih h.2 fun u hu => hkey u (List.mem_cons_of_mem v hu)

/-- A pending write takes effect; those before it are for other keys. -/
theorem Expected.perform (h : Expected contents (ws ++ w :: vs))
    (hkey : ∀ v ∈ ws, v.key ≠ w.key) : Expected (Write.apply contents w) (ws ++ vs) := by
  obtain ⟨hbefore, -, hafter⟩ := Machine.along_append.mp h
  refine Machine.along_append.mpr ⟨Expected.apply hbefore hkey, ?_⟩
  have hreplay : replay (Write.apply contents w) ws = Write.apply (replay contents ws) w := by
    have hhoist : replay (Write.apply contents w) (ws ++ []) = replay contents (ws ++ [w]) :=
      replay_hoist hkey []
    rwa [List.append_nil, replay_concat] at hhoist
  change Machine.Along _ _ (replay (Write.apply contents w) ws) vs
  rw [hreplay]
  exact hafter

end Write

end VectorStore
