import VectorStore.Foundation.Run
import VectorStore.VsIndex.GraphStore

/-!
# The life cycle of a node of the graph

Whatever the order of inserts, deletions and repairs, a node is created live and without neighbours,
dies by a deletion that keeps its neighbours, and goes when it is cleared dead or when its insert is
rolled back.  Its neighbours are always distinct and never more than the store allows.
-/

namespace VectorStore

namespace Diskann

/-- Extending a list by the elements that are not in it keeps its elements distinct. -/
theorem nodup_extendFromSlice [AdjacencyList] {list : List PrimaryId} (h : list.Nodup)
    (ids : List PrimaryId) : (AdjacencyList.extendFromSlice list ids).Nodup := by
  induction ids generalizing list with
  | nil => rwa [AdjacencyList.extend_nil]
  | cons id ids ih =>
    rw [AdjacencyList.extend_cons]
    split
    · exact ih h
    · next hid => exact ih (List.concat_eq_append ▸ h.concat hid)

/-- Neighbours that a store can hold. -/
def Bounded (maxDegree : ℕ) (neighbors : List PrimaryId) : Prop :=
  neighbors.Nodup ∧ neighbors.length ≤ maxDegree

/-- Neighbours are distinct and not too many after some were added. -/
theorem bounded_extend [AdjacencyList] {list : List PrimaryId} (h : list.Nodup)
    (ids : List PrimaryId) (maxDegree : ℕ) :
    Bounded maxDegree ((AdjacencyList.extendFromSlice list ids).take maxDegree) :=
  ⟨(nodup_extendFromSlice h ids).sublist (List.take_sublist _ _), List.length_take_le _ _⟩

theorem bounded_nil (maxDegree : ℕ) : Bounded maxDegree [] := ⟨List.nodup_nil, Nat.zero_le _⟩

/-! ## The moves of a node -/

namespace GraphSystem

/-- What an action does to the node of an identifier. -/
inductive NodeMove (maxDegree : ℕ) (action : Action) (partitionId : PartitionId) (id : PrimaryId) :
    Option Node → Option Node → Prop
  | same (node : Option Node) : NodeMove maxDegree action partitionId id node node
  | created {node : Option Node} {element : Vector}
      (haction : action = .setElementCreate partitionId id element)
      (hlive : node.any Node.isLive = false) :
      NodeMove maxDegree action partitionId id node (some .new)
  | deleted {neighbors : List PrimaryId} (haction : action = .delete partitionId id) :
      NodeMove maxDegree action partitionId id (some (.live neighbors)) (some (.dead neighbors))
  | written (node : Node) {neighbors : List PrimaryId} (hneighbors : Bounded maxDegree neighbors) :
      NodeMove maxDegree action partitionId id (some node)
        (some (node.modifyNeighbors fun _ => neighbors))
  | reaped {neighbors : List PrimaryId} (haction : action = .setNeighbors partitionId id []) :
      NodeMove maxDegree action partitionId id (some (.dead neighbors)) none
  | abandoned (node : Option Node) (haction : action = .dropAbandon partitionId id) :
      NodeMove maxDegree action partitionId id node none

end GraphSystem

namespace InmemGraphStore

variable {store store' : InmemGraphStore} {partitionId : PartitionId} {id : PrimaryId}

/-- The store with the node of an identifier replaced. -/
def Replaces (store : InmemGraphStore) (partitionId : PartitionId) (id : PrimaryId)
    (node : Option Node) (store' : InmemGraphStore) : Prop :=
  store'.maxDegree = store.maxDegree ∧ ∀ partitionId' id', store'.node partitionId' id' =
    if (partitionId', id') = (partitionId, id) then node else store.node partitionId' id'

theorem replaces_insert (node : Node) :
    store.Replaces partitionId id (some node)
      { store with nodes := store.nodes.insert (partitionId, id) node } :=
  ⟨rfl, fun _ _ => FiniteMap.lookup_insert_eq ..⟩

theorem replaces_erase :
    store.Replaces partitionId id none { store with nodes := store.nodes.erase (partitionId, id) } :=
  ⟨rfl, fun _ _ => FiniteMap.lookup_erase_eq ..⟩

/-- A store with the same nodes. -/
theorem replaces_self : store.Replaces partitionId id (store.node partitionId id) store := by
  refine ⟨rfl, fun partitionId' id' => ?_⟩
  split
  · next heq =>
    obtain ⟨rfl, rfl⟩ := Prod.mk.inj heq
    rfl
  · rfl

theorem replaces_modify (f : Node → Node) :
    store.Replaces partitionId id ((store.node partitionId id).map f)
      { store with nodes := FiniteMap.modify store.nodes (partitionId, id) f } := by
  refine ⟨rfl, fun partitionId' id' => ?_⟩
  refine (FiniteMap.lookup_modify ..).trans ?_
  split
  · next heq => rw [heq]; rfl
  · rfl

/-- Creation succeeds for nodes that are not live. -/
theorem create_eq : (store.isLive partitionId id = true ∧
      store.create partitionId id = .error .conflict) ∨
    (store.isLive partitionId id = false ∧ ∃ store', store.create partitionId id = .ok store' ∧
      store.Replaces partitionId id (some .new) store') := by
  unfold isLive create
  cases hnode : store.node partitionId id with
  | none => exact Or.inr ⟨rfl, _, rfl, replaces_insert _⟩
  | some node =>
    cases hlive : node.isLive with
    | true => exact Or.inl ⟨hlive, by simp [hlive]⟩
    | false => exact Or.inr ⟨hlive, _, by simp only [hlive]; rfl, replaces_insert _⟩

/-- Deletion succeeds for live nodes and keeps their neighbours. -/
theorem markDead_eq : (store.isLive partitionId id = false ∧
      store.markDead partitionId id = .error .conflict) ∨
    ∃ neighbors, store.node partitionId id = some (.live neighbors) ∧
      ∃ store', store.markDead partitionId id = .ok store' ∧
        store.Replaces partitionId id (some (.dead neighbors)) store' := by
  unfold isLive markDead
  cases hnode : store.node partitionId id with
  | none => exact Or.inl ⟨rfl, rfl⟩
  | some node =>
    cases node with
    | live neighbors => exact Or.inr ⟨neighbors, rfl, _, rfl, replaces_insert _⟩
    | dead neighbors => exact Or.inl ⟨rfl, rfl⟩

/-- Clearing empties a live node and reaps a dead one. -/
theorem clear_replaces : store.Replaces partitionId id
    ((store.node partitionId id).bind fun node =>
      if node.isLive then some (.live []) else none) (store.clear partitionId id) := by
  unfold clear
  cases hnode : store.node partitionId id with
  | none =>
    have h := @replaces_self store partitionId id
    rwa [hnode] at h
  | some node =>
    cases node with
    | live neighbors => exact replaces_insert _
    | dead neighbors => exact replaces_erase

theorem clear_absent (h : store.node partitionId id = none) :
    store.clear partitionId id = store := by
  unfold clear
  rw [h]

theorem set_absent [AdjacencyList] (h : store.node partitionId id = none)
    (edges : List PrimaryId) : store.set partitionId id edges = store := by
  unfold set
  rw [FiniteMap.modify_absent h]

theorem append_absent [AdjacencyList] (h : store.node partitionId id = none)
    (edges : List PrimaryId) : store.append partitionId id edges = store := by
  unfold append
  rw [FiniteMap.modify_absent h]

end InmemGraphStore

namespace ScyllaProvider

variable {provider : ScyllaProvider} {graph : InmemGraphStore} {id : PrimaryId}

/-- When `set_element` creates a node. -/
def Accepts (provider : ScyllaProvider) (graph : InmemGraphStore) (id : PrimaryId)
    (element : Vector) : Prop :=
  element.components.length = provider.dim ∧ id ≠ startId ∧
    graph.isLive provider.partitionId id = false

theorem setElementCreate_eq (element : Vector) :
    (¬provider.Accepts graph id element ∧
      ∃ e, provider.setElementCreate graph id element = .error e) ∨
    (provider.Accepts graph id element ∧
      ∃ graph', provider.setElementCreate graph id element = .ok graph' ∧
        graph.Replaces provider.partitionId id (some .new) graph') := by
  unfold setElementCreate
  dsimp only
  split
  · next hdim => exact Or.inl ⟨fun h => hdim h.1, _, rfl⟩
  · next hdim =>
    split
    · next hstart => exact Or.inl ⟨fun h => h.2.1 hstart, _, rfl⟩
    · next hstart =>
      rcases @InmemGraphStore.create_eq graph provider.partitionId id with
        ⟨hlive, hcreate⟩ | ⟨hlive, graph', hcreate, hreplaces⟩
      · left
        rw [hcreate]
        exact ⟨fun h => by simp [h.2.2] at hlive, _, rfl⟩
      · right
        rw [hcreate]
        exact ⟨⟨not_not.mp hdim, hstart, hlive⟩, graph', rfl, hreplaces⟩

theorem delete_eq :
    (graph.isLive provider.partitionId id = false ∧ ∃ e, provider.delete graph id = .error e) ∨
    ∃ neighbors, graph.node provider.partitionId id = some (.live neighbors) ∧
      ∃ graph', provider.delete graph id = .ok graph' ∧
        graph.Replaces provider.partitionId id (some (.dead neighbors)) graph' := by
  unfold delete
  rcases @InmemGraphStore.markDead_eq graph provider.partitionId id with ⟨hlive, hdead⟩ |
    ⟨neighbors, hnode, graph', hdead, hreplaces⟩
  · rw [hdead]
    exact Or.inl ⟨hlive, _, rfl⟩
  · rw [hdead]
    exact Or.inr ⟨neighbors, hnode, graph', rfl, hreplaces⟩

end ScyllaProvider

namespace GraphSystem

variable {s : GraphSystem} {dim maxDegree : ℕ} {action : Action} {partitionId : PartitionId}
  {id : PrimaryId}

/-- An action that replaces one node moves no other one. -/
theorem NodeMove.of_replaces {store store' : InmemGraphStore} {node : Option Node}
    (h : store.Replaces partitionId id node store')
    (hmove : NodeMove maxDegree action partitionId id (store.node partitionId id) node)
    (partitionId' : PartitionId) (id' : PrimaryId) :
    NodeMove maxDegree action partitionId' id' (store.node partitionId' id')
      (store'.node partitionId' id') := by
  rw [h.2]
  split
  · next heq =>
    obtain ⟨rfl, rfl⟩ := Prod.mk.inj heq
    exact hmove
  · exact .same _

/-- What holds between the actions on the graph. -/
structure Inv (s : GraphSystem) (dim maxDegree : ℕ) : Prop where
  degree : s.store.maxDegree = maxDegree
  partition : ∀ partitionId, (s.providers partitionId).partitionId = partitionId
  dims : ∀ partitionId, (s.providers partitionId).dim = dim
  degrees : ∀ partitionId, (s.providers partitionId).maxDegree = maxDegree
  neighbors : ∀ partitionId id node, s.store.node partitionId id = some node →
    Bounded maxDegree node.neighbors
  startNeighbors : ∀ partitionId, Bounded maxDegree (s.providers partitionId).startNeighbors
  inflight : ∀ partitionId id, ((s.providers partitionId).inflight.lookup id).isSome ↔
    s.inserts (partitionId, id) = some .guarded

theorem inv_init (dim maxDegree : ℕ) (start : PartitionId → Vector) :
    (init dim maxDegree start).Inv dim maxDegree where
  degree := rfl
  partition _ := rfl
  dims _ := rfl
  degrees _ := rfl
  neighbors _ _ _ h := by cases h
  startNeighbors _ := bounded_nil _
  inflight _ _ := iff_of_false Bool.false_ne_true (by rintro ⟨⟩)

variable [AdjacencyList]

/-- The move of every node in an action. -/
theorem Inv.nodeMove (h : s.Inv dim maxDegree) (action : Action) (partitionId : PartitionId)
    (id : PrimaryId) : NodeMove maxDegree action partitionId id (s.store.node partitionId id)
      ((s.step action).store.node partitionId id) := by
  cases action with
  | setElementInflight p i =>
    unfold step
    dsimp only
    split <;> exact .same _
  | complete p i | dropInflight p i => exact .same _
  | dropAbandon p i =>
    exact NodeMove.of_replaces InmemGraphStore.replaces_erase (.abandoned _ rfl) _ _
  | setElementCreate p i element =>
    unfold step
    dsimp only
    rcases @ScyllaProvider.setElementCreate_eq (s.providers p) s.store i element with
      ⟨-, e, hcreate⟩ | ⟨⟨-, -, hlive⟩, store, hcreate, hreplaces⟩
    · rw [hcreate]
      exact .same _
    · rw [h.partition] at hlive hreplaces
      rw [hcreate]
      exact NodeMove.of_replaces hreplaces (.created rfl hlive) _ _
  | delete p i =>
    unfold step
    dsimp only
    rcases @ScyllaProvider.delete_eq (s.providers p) s.store i with
      ⟨-, e, hdelete⟩ | ⟨neighbors, hnode, store, hdelete, hreplaces⟩
    · rw [hdelete]
      exact .same _
    · rw [h.partition] at hnode hreplaces
      rw [hdelete]
      refine NodeMove.of_replaces hreplaces ?_ _ _
      rw [hnode]
      exact .deleted rfl
  | setNeighbors p i neighbors =>
    unfold step ScyllaProvider.setNeighbors
    dsimp only
    rw [h.partition]
    by_cases hstart : i = startId
    · rw [if_pos hstart]
      exact .same _
    · rw [if_neg hstart]
      by_cases hnil : neighbors = []
      · rw [if_pos hnil]
        refine NodeMove.of_replaces InmemGraphStore.clear_replaces ?_ _ _
        cases hnode : s.store.node p i with
        | none => exact .same _
        | some node =>
          cases node with
          | live edges => exact .written (.live edges) (bounded_nil _)
          | dead edges => exact .reaped (by rw [hnil])
      · rw [if_neg hnil]
        refine NodeMove.of_replaces (InmemGraphStore.replaces_modify _) ?_ _ _
        cases hnode : s.store.node p i with
        | none => exact .same _
        | some node =>
          rw [h.degree]
          exact .written node (bounded_extend List.nodup_nil neighbors _)
  | appendVector p i neighbors =>
    unfold step ScyllaProvider.appendVector
    dsimp only
    rw [h.partition]
    by_cases hstart : i = startId
    · rw [if_pos hstart]
      exact .same _
    · rw [if_neg hstart]
      refine NodeMove.of_replaces (InmemGraphStore.replaces_modify _) ?_ _ _
      cases hnode : s.store.node p i with
      | none => exact .same _
      | some node =>
        rw [h.degree]
        have hbounded := bounded_extend (h.neighbors p i node hnode).1 neighbors maxDegree
        cases node <;> exact .written _ hbounded

omit [AdjacencyList] in
/-- A vector is in flight for the guarded inserts after one insert and its vector have changed. -/
theorem inflight_update {providers : PartitionId → ScyllaProvider}
    {inserts : PartitionId × PrimaryId → Option InsertPhase}
    (h : ∀ partitionId id, ((providers partitionId).inflight.lookup id).isSome ↔
      inserts (partitionId, id) = some .guarded)
    {provider : ScyllaProvider} {phase : Option InsertPhase} {vector : Option Vector}
    (hlookup : ∀ id', provider.inflight.lookup id' =
      if id' = id then vector else (providers partitionId).inflight.lookup id')
    (hvector : vector.isSome ↔ phase = some .guarded) (partitionId' : PartitionId)
    (id' : PrimaryId) :
    ((Function.update providers partitionId provider partitionId').inflight.lookup id').isSome ↔
      Function.update inserts (partitionId, id) phase (partitionId', id') = some .guarded := by
  by_cases hpartition : partitionId' = partitionId
  · subst hpartition
    rw [Function.update_self, hlookup]
    by_cases hid : id' = id
    · subst hid
      rw [if_pos rfl, Function.update_self]
      exact hvector
    · have hne : (partitionId', id') ≠ (partitionId', id) := fun heq => hid (Prod.mk.inj heq).2
      rw [if_neg hid, Function.update_of_ne hne]
      exact h partitionId' id'
  · have hne : (partitionId', id') ≠ (partitionId, id) := fun heq => hpartition (Prod.mk.inj heq).1
    rw [Function.update_of_ne hpartition, Function.update_of_ne hne]
    exact h partitionId' id'

omit [AdjacencyList] in
/-- Nothing is in flight for an insert that changes between phases without a guard. -/
theorem Inv.inflight_setInsert (h : s.Inv dim maxDegree) {phase : Option InsertPhase}
    (hbefore : s.inserts (partitionId, id) ≠ some .guarded) (hafter : phase ≠ some .guarded)
    (partitionId' : PartitionId) (id' : PrimaryId) :
    ((s.providers partitionId').inflight.lookup id').isSome ↔
      Function.update s.inserts (partitionId, id) phase (partitionId', id') = some .guarded := by
  have hnone : (s.providers partitionId).inflight.lookup id = none :=
    Option.not_isSome_iff_eq_none.mp (mt (h.inflight partitionId id).mp hbefore)
  have hsame : Function.update s.providers partitionId (s.providers partitionId) = s.providers :=
    Function.update_eq_self ..
  rw [← hsame]
  have hvector : (none : Option Vector).isSome ↔ phase = some .guarded :=
    iff_of_false Bool.false_ne_true hafter
  refine inflight_update h.inflight (fun id'' => ?_) hvector partitionId' id'
  split
  · next heq => rw [heq, hnone]
  · rfl

omit [AdjacencyList] in
/-- A move of a node keeps its neighbours bounded. -/
theorem NodeMove.bounded {node node' : Option Node}
    (hmove : NodeMove maxDegree action partitionId id node node')
    (h : ∀ n, node = some n → Bounded maxDegree n.neighbors) :
    ∀ n, node' = some n → Bounded maxDegree n.neighbors := by
  cases hmove with
  | same => exact h
  | created haction hlive =>
    rintro n ⟨⟩
    exact bounded_nil _
  | deleted haction =>
    rintro n ⟨⟩
    exact h (.live _) rfl
  | written n hneighbors =>
    rintro n' ⟨⟩
    rw [Node.neighbors_modifyNeighbors]
    exact hneighbors
  | reaped haction => rintro n ⟨⟩
  | abandoned node haction => rintro n ⟨⟩

/-- No action changes how many neighbours the store allows. -/
theorem degree_step (s : GraphSystem) (action : Action) :
    (s.step action).store.maxDegree = s.store.maxDegree := by
  cases action with
  | setElementInflight p i =>
    unfold GraphSystem.step
    dsimp only
    split <;> rfl
  | complete p i | dropInflight p i | dropAbandon p i => rfl
  | setElementCreate p i element =>
    unfold GraphSystem.step
    dsimp only
    rcases @ScyllaProvider.setElementCreate_eq (s.providers p) s.store i element with
      ⟨-, e, hcreate⟩ | ⟨-, store, hcreate, hreplaces⟩
    · rw [hcreate]
    · rw [hcreate]
      exact hreplaces.1
  | delete p i =>
    unfold GraphSystem.step
    dsimp only
    rcases @ScyllaProvider.delete_eq (s.providers p) s.store i with
      ⟨-, e, hdelete⟩ | ⟨_, -, store, hdelete, hreplaces⟩
    · rw [hdelete]
    · rw [hdelete]
      exact hreplaces.1
  | setNeighbors p i neighbors =>
    unfold GraphSystem.step ScyllaProvider.setNeighbors
    dsimp only
    split
    · rfl
    · split
      · exact InmemGraphStore.clear_replaces.1
      · rfl
  | appendVector p i neighbors =>
    unfold GraphSystem.step ScyllaProvider.appendVector
    dsimp only
    split <;> rfl

/-- What no action changes of a provider. -/
structure Kept (maxDegree : ℕ) (provider provider' : ScyllaProvider) : Prop where
  partition : provider'.partitionId = provider.partitionId
  dim : provider'.dim = provider.dim
  degree : provider'.maxDegree = provider.maxDegree
  startNeighbors : Bounded maxDegree provider.startNeighbors →
    Bounded maxDegree provider'.startNeighbors

omit [AdjacencyList] in
theorem Kept.refl (provider : ScyllaProvider) : Kept maxDegree provider provider :=
  ⟨rfl, rfl, rfl, id⟩

omit [AdjacencyList] in
theorem Kept.update {providers : PartitionId → ScyllaProvider} {provider : ScyllaProvider}
    (h : Kept maxDegree (providers partitionId) provider) (partitionId' : PartitionId) :
    Kept maxDegree (providers partitionId')
      (Function.update providers partitionId provider partitionId') := by
  by_cases hpartition : partitionId' = partitionId
  · subst hpartition
    rw [Function.update_self]
    exact h
  · rw [Function.update_of_ne hpartition]
    exact Kept.refl _

/-- Every action keeps the providers. -/
theorem Inv.kept (h : s.Inv dim maxDegree) (action : Action) (partitionId : PartitionId) :
    Kept maxDegree (s.providers partitionId) ((s.step action).providers partitionId) := by
  -- The vectors in flight are of no concern here.
  have hinflight : ∀ p inflight, Kept maxDegree (s.providers partitionId)
      (Function.update s.providers p { s.providers p with inflight } partitionId) := by
    intro p inflight
    have hkept : Kept maxDegree (s.providers p) { s.providers p with inflight } :=
      ⟨rfl, rfl, rfl, fun h => h⟩
    exact hkept.update partitionId
  cases action with
  | setElementInflight p i =>
    unfold GraphSystem.step
    dsimp only
    split
    · exact hinflight p _
    · exact Kept.refl _
  | complete p i | dropInflight p i => exact hinflight p _
  | dropAbandon p i => exact Kept.refl _
  | setElementCreate p i element =>
    unfold GraphSystem.step
    dsimp only
    split <;> exact Kept.refl _
  | delete p i =>
    unfold GraphSystem.step
    dsimp only
    split <;> exact Kept.refl _
  | setNeighbors p i neighbors =>
    have hkept : Kept maxDegree (s.providers p)
        ((s.providers p).setNeighbors s.store i neighbors).1 := by
      unfold ScyllaProvider.setNeighbors
      split
      · refine ⟨rfl, rfl, rfl, fun _ => ?_⟩
        rw [h.degrees]
        exact bounded_extend List.nodup_nil _ _
      · split <;> exact Kept.refl _
    exact hkept.update partitionId
  | appendVector p i neighbors =>
    have hkept : Kept maxDegree (s.providers p)
        ((s.providers p).appendVector s.store i neighbors).1 := by
      unfold ScyllaProvider.appendVector
      split
      · refine ⟨rfl, rfl, rfl, fun hbounded => ?_⟩
        rw [h.degrees]
        exact bounded_extend hbounded.1 _ _
      · exact Kept.refl _
    exact hkept.update partitionId

omit [AdjacencyList] in
/-- Replacing a provider by one with the same vectors in flight. -/
theorem Inv.inflight_setProvider (h : s.Inv dim maxDegree) {provider : ScyllaProvider}
    (hsame : provider.inflight = (s.providers partitionId).inflight) (partitionId' : PartitionId)
    (id : PrimaryId) :
    ((Function.update s.providers partitionId provider partitionId').inflight.lookup id).isSome ↔
      s.inserts (partitionId', id) = some .guarded := by
  rw [← h.inflight partitionId' id]
  by_cases hpartition : partitionId' = partitionId
  · rw [hpartition, Function.update_self, hsame]
  · rw [Function.update_of_ne hpartition]

/-- Every action that can happen keeps the vectors in flight those of the guarded inserts. -/
theorem Inv.inflight_step (h : s.Inv dim maxDegree) (henabled : s.Enabled action)
    (partitionId : PartitionId) (id : PrimaryId) :
    (((s.step action).providers partitionId).inflight.lookup id).isSome ↔
      (s.step action).inserts (partitionId, id) = some .guarded := by
  have hremoved : ∀ p i (phase : Option InsertPhase), phase ≠ some .guarded →
      (((Function.update s.providers p ((s.providers p).removeInflight i)
        partitionId).inflight.lookup id).isSome ↔
          Function.update s.inserts (p, i) phase (partitionId, id) = some .guarded) := by
    intro p i phase hphase
    have hvector : (none : Option Vector).isSome ↔ phase = some .guarded :=
      iff_of_false Bool.false_ne_true hphase
    exact inflight_update h.inflight (fun _ => FiniteMap.lookup_erase_eq ..) hvector _ _
  cases action with
  | setElementInflight p i =>
    unfold GraphSystem.step
    dsimp only
    split
    · next element _ =>
      have hvector : (some element).isSome ↔ some InsertPhase.guarded = some .guarded :=
        iff_of_true rfl rfl
      exact inflight_update h.inflight (fun _ => FiniteMap.lookup_insert_eq ..) hvector _ _
    · exact h.inflight _ _
  | complete p i => exact hremoved p i none (by rintro ⟨⟩)
  | dropInflight p i => exact hremoved p i (some .dropping) (by rintro ⟨⟩)
  | dropAbandon p i =>
    have hbefore : s.inserts (p, i) = some .dropping := henabled
    exact h.inflight_setInsert (by rw [hbefore]; rintro ⟨⟩) (by rintro ⟨⟩) _ _
  | setElementCreate p i element =>
    have hbefore : s.inserts (p, i) = none := henabled
    unfold GraphSystem.step
    dsimp only
    split
    · exact h.inflight_setInsert (by rw [hbefore]; rintro ⟨⟩) (by rintro ⟨⟩) _ _
    · exact h.inflight _ _
  | delete p i =>
    unfold GraphSystem.step
    dsimp only
    split <;> exact h.inflight _ _
  | setNeighbors p i neighbors =>
    have hsame : ((s.providers p).setNeighbors s.store i neighbors).1.inflight =
        (s.providers p).inflight := by
      unfold ScyllaProvider.setNeighbors
      split
      · rfl
      · split <;> rfl
    exact h.inflight_setProvider hsame _ _
  | appendVector p i neighbors =>
    have hsame : ((s.providers p).appendVector s.store i neighbors).1.inflight =
        (s.providers p).inflight := by
      unfold ScyllaProvider.appendVector
      split <;> rfl
    exact h.inflight_setProvider hsame _ _

/-- Every action that can happen keeps the invariant. -/
theorem Inv.step (h : s.Inv dim maxDegree) (henabled : s.Enabled action) :
    (s.step action).Inv dim maxDegree where
  degree := (degree_step s action).trans h.degree
  partition partitionId := (h.kept action partitionId).partition.trans (h.partition partitionId)
  dims partitionId := (h.kept action partitionId).dim.trans (h.dims partitionId)
  degrees partitionId := (h.kept action partitionId).degree.trans (h.degrees partitionId)
  neighbors partitionId id := (h.nodeMove action partitionId id).bounded (h.neighbors partitionId id)
  startNeighbors partitionId :=
    (h.kept action partitionId).startNeighbors (h.startNeighbors partitionId)
  inflight := h.inflight_step henabled

theorem inv_run {actions : List Action} {start : PartitionId → Vector}
    (h : Machine.Along GraphSystem.step Enabled (init dim maxDegree start) actions) :
    (Machine.run GraphSystem.step (init dim maxDegree start) actions).Inv dim maxDegree :=
  @Machine.run_invariant_of_along _ _ GraphSystem.step (fun s => s.Inv dim maxDegree) Enabled
    (fun _ _ hinv henabled => hinv.step henabled) _ (inv_init dim maxDegree start) _ h

/-! ## The life cycle -/

/-- What holds of the nodes of the graph, and what the next action can do to them. -/
structure LifeCycle (s : GraphSystem) (dim maxDegree : ℕ) : Prop where
  /-- Neighbours are distinct and not too many. -/
  neighbors : ∀ partitionId id,
    Bounded maxDegree ((s.providers partitionId).getNeighbors s.store id)
  /-- An insert is accepted for a vector of the right dimension and a node that is not live. -/
  setElement : ∀ partitionId id element,
    (∃ store, (s.providers partitionId).setElementCreate s.store id element = .ok store) ↔
      element.components.length = dim ∧ id ≠ startId ∧ s.store.isLive partitionId id = false
  created : ∀ partitionId id element store,
    (s.providers partitionId).setElementCreate s.store id element = .ok store →
      store.node partitionId id = some (.live [])
  delete : ∀ partitionId id, (∃ store, (s.providers partitionId).delete s.store id = .ok store) ↔
    s.store.isLive partitionId id
  /-- A deleted node is no longer live, and its neighbours are still there. -/
  deleted : ∀ partitionId id store, (s.providers partitionId).delete s.store id = .ok store →
    store.isLive partitionId id = false ∧ (store.get partitionId id).isSome ∧
      store.get partitionId id = s.store.get partitionId id
  /-- Writes to an absent node change nothing. -/
  absent : ∀ partitionId id edges, id ≠ startId → s.store.node partitionId id = none →
    (s.providers partitionId).setNeighbors s.store id edges = (s.providers partitionId, s.store) ∧
      (s.providers partitionId).appendVector s.store id edges = (s.providers partitionId, s.store)
  /-- A node becomes absent when it is cleared dead or its insert is rolled back. -/
  becomesAbsent : ∀ action partitionId id node, s.store.node partitionId id = some node →
    (s.step action).store.node partitionId id = none →
      (action = .setNeighbors partitionId id [] ∧ node.isLive = false) ∨
        action = .dropAbandon partitionId id
  /-- The vector of an identifier is in flight while the guard of its insert is held. -/
  inflight : ∀ partitionId id, ((s.providers partitionId).inflight.lookup id).isSome ↔
    s.inserts (partitionId, id) = some .guarded
  /-- After a dropped insert the node is absent and its vector is not in flight. -/
  dropped : ∀ partitionId id, s.Enabled (.dropAbandon partitionId id) →
    (s.step (.dropAbandon partitionId id)).store.node partitionId id = none ∧
      ((s.step (.dropAbandon partitionId id)).providers partitionId).inflight.lookup id = none

theorem Inv.lifeCycle (h : s.Inv dim maxDegree) : s.LifeCycle dim maxDegree where
  neighbors p i := by
    unfold ScyllaProvider.getNeighbors InmemGraphStore.get
    split
    · exact h.startNeighbors p
    · rw [h.partition]
      cases hnode : s.store.node p i with
      | none => exact bounded_nil _
      | some node => exact h.neighbors p i node hnode
  setElement p i element := by
    have haccepts : (s.providers p).Accepts s.store i element ↔
        element.components.length = dim ∧ i ≠ startId ∧ s.store.isLive p i = false := by
      rw [ScyllaProvider.Accepts, h.dims, h.partition]
    rw [← haccepts]
    rcases @ScyllaProvider.setElementCreate_eq (s.providers p) s.store i element with
      ⟨hnot, e, hcreate⟩ | ⟨hok, store, hcreate, -⟩
    · rw [hcreate]
      exact iff_of_false (by rintro ⟨store, ⟨⟩⟩) hnot
    · exact iff_of_true ⟨store, hcreate⟩ hok
  created p i element store hok := by
    rcases @ScyllaProvider.setElementCreate_eq (s.providers p) s.store i element with
      ⟨-, e, hcreate⟩ | ⟨-, store', hcreate, hreplaces⟩
    · rw [hcreate] at hok
      cases hok
    · rw [hcreate] at hok
      obtain rfl := Except.ok.inj hok
      rw [h.partition] at hreplaces
      rw [hreplaces.2, if_pos rfl]
      rfl
  delete p i := by
    rcases @ScyllaProvider.delete_eq (s.providers p) s.store i with
      ⟨hlive, e, hdelete⟩ | ⟨neighbors, hnode, store, hdelete, -⟩
    · rw [h.partition] at hlive
      rw [hdelete, hlive]
      exact iff_of_false (by rintro ⟨store, ⟨⟩⟩) Bool.false_ne_true
    · rw [h.partition] at hnode
      refine iff_of_true ⟨store, hdelete⟩ ?_
      rw [InmemGraphStore.isLive, hnode]
      rfl
  deleted p i store hok := by
    rcases @ScyllaProvider.delete_eq (s.providers p) s.store i with
      ⟨-, e, hdelete⟩ | ⟨neighbors, hnode, store', hdelete, hreplaces⟩
    · rw [hdelete] at hok
      cases hok
    · rw [hdelete] at hok
      obtain rfl := Except.ok.inj hok
      rw [h.partition] at hnode hreplaces
      rw [InmemGraphStore.isLive, InmemGraphStore.get, InmemGraphStore.get, hreplaces.2,
        if_pos rfl, hnode]
      exact ⟨rfl, rfl, rfl⟩
  absent p i edges hstart hnode := by
    refine ⟨?_, ?_⟩
    · unfold ScyllaProvider.setNeighbors
      rw [if_neg hstart, h.partition, InmemGraphStore.clear_absent hnode,
        InmemGraphStore.set_absent hnode, ite_self]
    · unfold ScyllaProvider.appendVector
      rw [if_neg hstart, h.partition, InmemGraphStore.append_absent hnode]
  becomesAbsent action p i node hnode hgone := by
    have hmove := h.nodeMove action p i
    rw [hnode, hgone] at hmove
    cases hmove with
    | reaped haction => exact Or.inl ⟨haction, rfl⟩
    | abandoned _ haction => exact Or.inr haction
  inflight := h.inflight
  dropped p i henabled := by
    have hinserts : s.inserts (p, i) = some .dropping := henabled
    refine ⟨?_, ?_⟩
    · exact (InmemGraphStore.replaces_erase.2 p i).trans (if_pos rfl)
    · refine Option.not_isSome_iff_eq_none.mp (mt (h.inflight p i).mp ?_)
      rw [hinserts]
      rintro ⟨⟩

/-- Every run of inserts, deletions and writes of neighbours keeps the life cycle of the nodes. -/
theorem graph_store_life_cycle {actions : List Action} {start : PartitionId → Vector}
    (h : Machine.Along GraphSystem.step Enabled (init dim maxDegree start) actions) :
    (Machine.run GraphSystem.step (init dim maxDegree start) actions).LifeCycle dim maxDegree :=
  (inv_run h).lifeCycle

end GraphSystem

end Diskann

/-! ## A run with a rollback, a deletion and a repair -/

namespace Sample

open Diskann GraphSystem

/-- An adjacency list that looks every element up. -/
@[reducible] def adjacencyList : AdjacencyList where
  extendFromSlice list ids :=
    ids.foldl (fun list id => if id ∈ list then list else list ++ [id]) list
  extend_nil _ := rfl
  extend_cons _ _ _ := rfl

attribute [local instance] adjacencyList

/-- Two inserts, of which the second is rolled back; the first node is deleted and reaped. -/
def graphActions : List Action :=
  let partitionId : PartitionId := .global ⟨0⟩
  let first : PrimaryId := .mk' 0 .new
  let second : PrimaryId := .mk' 1 .new
  [.setElementCreate partitionId first ⟨[0]⟩, .setElementInflight partitionId first,
    .setElementCreate partitionId second ⟨[1]⟩, .appendVector partitionId first [second, second],
    .setElementInflight partitionId second, .complete partitionId first,
    .dropInflight partitionId second, .delete partitionId first,
    .dropAbandon partitionId second, .setNeighbors partitionId first []]

theorem graph_store_life_cycle_graphActions :
    Machine.Along GraphSystem.step Enabled (init 1 2 fun _ => ⟨[0]⟩) graphActions ∧
      (Machine.run GraphSystem.step (init 1 2 fun _ => ⟨[0]⟩) graphActions).LifeCycle 1 2 := by
  have halong : Machine.Along GraphSystem.step Enabled (init 1 2 fun _ => ⟨[0]⟩) graphActions := by
    decide +kernel
  exact ⟨halong, graph_store_life_cycle halong⟩

end Sample

end VectorStore
