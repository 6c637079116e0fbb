import VectorStore.VsIndex.Counting

/-!
# The usearch actor applies messages in order

The messages that a table leads to, interleaved with searches and carried out by the workers in any
order the permits allow, leave in each partition the vectors of the messages in order, and the size
of the index is their number.
-/

namespace VectorStore

namespace Usearch

/-- The modifications that a run of the actor receives. -/
def received (as : List Action) : List VsIndexModify :=
  as.flatMap fun
    | .receive message _ => message.modifications
    | _ => []

/-- The actor may allocate memory, and can create the index of a partition. -/
def Action.Granted : Action → Prop
  | .receive _ environment => environment.allocate = .can ∧ environment.created.isSome
  | _ => True

instance (a : Action) : Decidable a.Granted :=
  match a with
  | .receive _ environment =>
    inferInstanceAs (Decidable (environment.allocate = .can ∧ environment.created.isSome))
  | .check | .permitReserve | .recheck | .send | .permit | .take _ | .call _ _ | .count _
  | .release _ =>
    inferInstanceAs (Decidable True)

/-- No message is refused. -/
def Unrefused (as : List Action) : Prop := ∀ a ∈ as, a.Granted

instance (as : List Action) : Decidable (Unrefused as) :=
  inferInstanceAs (Decidable (∀ a ∈ as, a.Granted))

namespace State

variable {s : State} {a : Action} {as : List Action} {vectors : Vectors}

/-- What a partition of the index holds under an identifier. -/
def stored (s : State) (partitionId : PartitionId) (primaryId : PrimaryId) : Option Vector :=
  (s.partitions.lookup partitionId).bind fun partition => s.contents (partition, primaryId)

/-- The partitions hold exactly these vectors, and the sizes of the indexes are their numbers. -/
structure Serves (s : State) (vectors : Vectors) : Prop where
  stored : ∀ partitionId primaryId,
    s.stored partitionId primaryId = vectors.lookup (partitionId, primaryId)
  count : ∀ indexId, s.count indexId = vectors.count indexId

/-! ## Messages that are accepted -/

/-- A message is accepted, or it is an addition that is refused. -/
theorem Shaped.accepted_step (hs : s.Shaped) (ha : Enabled s a) :
    (Usearch.step s a).accepted = s.accepted ++ received [a] ∨
      (Usearch.step s a).accepted = s.accepted ∧ ∃ p id v environment,
        a = .receive (.modify (.addVector p id v)) environment ∧
          (environment.allocate = .cannot ∨ environment.created = none) := by
  have heffect := hs.effect ha
  generalize Usearch.step s a = t at heffect
  cases heffect with
  | @refused message environment hrefusable =>
    cases message with
    | search p => exact Or.inl (List.append_nil _).symm
    | modify m =>
      cases m with
      | addVector p id v => exact Or.inr ⟨rfl, p, id, v, environment, rfl, hrefusable⟩
      | removeVector p id => exact hrefusable.elim
      | removePartition p => exact hrefusable.elim
  | absent => exact Or.inl rfl
  | ended => exact Or.inl rfl
  | @found message environment d hidle hpart hjob hmessage =>
    left
    change s.accepted ++ d.messages = s.accepted ++ (message.modifications ++ [])
    rw [hmessage, List.append_nil]
  | created => exact Or.inl rfl
  | _ => exact Or.inl (List.append_nil _).symm

theorem received_cons (a : Action) (as : List Action) :
    received (a :: as) = received [a] ++ received as := by
  simp [received]

/-- Without refusals every message is accepted. -/
theorem accepted_run (hs : s.Shaped) (has : Machine.Along Usearch.step Enabled s as)
    (hunrefused : Unrefused as) :
    (Machine.run Usearch.step s as).accepted = s.accepted ++ received as := by
  induction as generalizing s with
  | nil => exact (List.append_nil _).symm
  | cons a as ih =>
    have hrest : Unrefused as := fun b hb => hunrefused b (List.mem_cons_of_mem a hb)
    rw [Machine.run_cons, ih (hs.step has.1) has.2 hrest, received_cons, ← List.append_assoc]
    rcases hs.accepted_step has.1 with haccepted | ⟨-, p, id, v, environment, rfl, hrefused⟩
    · rw [haccepted]
    · obtain ⟨hcan, hcreated⟩ := hunrefused _ List.mem_cons_self
      rcases hrefused with hcannot | hnone
      · rw [hcan] at hcannot
        cases hcannot
      · rw [hnone] at hcreated
        cases hcreated

/-- Messages that are admitted when all are accepted are admitted when some are refused. -/
theorem along_admits (hs : s.Shaped) (has : Machine.Along Usearch.step Enabled s as)
    (hbelow : s.vectors.Below vectors)
    (hadmits : Machine.Along Vectors.apply Vectors.Admits vectors (received as)) :
    Machine.Along Usearch.step AdmitsMessage s as ∧
      (Machine.run Usearch.step s as).vectors.Below (vectors.replay (received as)) := by
  induction as generalizing s vectors with
  | nil => exact ⟨trivial, hbelow⟩
  | cons a as ih =>
    rw [received_cons, Machine.along_append] at hadmits
    obtain ⟨hfirst, hrest⟩ := hadmits
    have hmessage : s.AdmitsMessage a := by
      cases a with
      | receive message environment =>
        cases message with
        | modify m => exact hbelow.admits hfirst.1
        | search p => trivial
      | _ => trivial
    have hstep : (Usearch.step s a).vectors.Below (vectors.replay (received [a])) := by
      rcases hs.accepted_step has.1 with haccepted | ⟨haccepted, p, id, v, environment, rfl, -⟩
      · rw [State.vectors, haccepted, vectors_append]
        cases a with
        | receive message environment =>
          cases message with
          | modify m => exact hbelow.apply hfirst.1
          | search p => exact hbelow
        | _ => exact hbelow
      · rw [State.vectors, haccepted]
        exact hbelow.addVector hfirst.1
    obtain ⟨hadmits', hbelow'⟩ := ih (hs.step has.1) has.2 hstep hrest
    refine ⟨⟨hmessage, hadmits'⟩, ?_⟩
    rw [received_cons, Vectors.replay, Machine.run_append]
    exact hbelow'

/-! ## Once everything has taken effect -/

/-- The invariants of the actor. -/
structure Sound (s : State) : Prop where
  shaped : s.Shaped
  locked : s.Locked
  settled : s.Settled
  counted : s.Counted

theorem sound_init (runtime : Runtime) : (init runtime).Sound :=
  ⟨shaped_init runtime, locked_init runtime, settled_init runtime, counted_init runtime⟩

theorem Sound.step (hs : s.Sound) (ha : Enabled s a) (hsucceeds : s.Succeeds a)
    (hadmits : s.AdmitsMessage a) : (Usearch.step s a).Sound where
  shaped := hs.shaped.step ha
  locked := hs.locked.step hs.shaped ha
  settled := hs.settled.step hs.shaped hs.locked ha hadmits hsucceeds
  counted := hs.counted.step hs.shaped hs.settled ha hsucceeds

/-- With nothing on its way, the partitions hold the vectors of the accepted messages. -/
theorem Sound.placed (hs : s.Sound) (hquiescent : s.Quiescent) :
    Placed s.ids s.partitions s.contents s.vectors := by
  have hpending : s.pending = [] := List.filterMap_eq_nil_iff.mpr fun t ht =>
    if_neg (by rw [hquiescent.2 t ht]; exact Bool.false_ne_true)
  have hcurrent : s.current = [] := by
    rw [current, hquiescent.1]
    rfl
  have hplaced := hs.settled.placed
  have hdeferred := hs.settled.deferred
  rw [hpending] at hdeferred
  rw [hcurrent, List.append_nil, ← hdeferred.eq_replay] at hplaced
  exact hplaced

/-- With nothing on its way, the size of an index is right as a word. -/
theorem Sound.count_eq (hs : s.Sound) (hquiescent : s.Quiescent) (ix : IndexId) :
    s.count ix = s.vectors.count ix % 2 ^ 64 := by
  have htotal : s.total ix = s.vectors.count ix := by
    have hcontents : Placed.contentsOf
        (s.arena.map fun partition => (partition.partitionId, partition.idx.stored)) =
          s.contents := by
      funext key
      rw [Placed.contentsOf, contents, List.getElem?_map]
      cases s.arena[key.1]? <;> rfl
    have hplaced := hs.placed hquiescent
    have hids : s.ids = (s.arena.map fun partition =>
        (partition.partitionId, partition.idx.stored)).map Prod.fst := by
      rw [List.map_map]
      rfl
    rw [hids, ← hcontents] at hplaced
    rw [← hplaced.sum_shelves ix, total, List.map_map]
    rfl
  have hfinished : ∀ t ∈ s.tasks, t.stage = .finished := hquiescent.2
  unfold count
  cases hstate : s.states.lookup ix with
  | none =>
    rw [← htotal, (hs.shaped.total_eq_zero hstate).1]
    rfl
  | some state =>
    obtain ⟨hlt, hsize⟩ := hs.counted ix state hstate
    have hadds : s.addsOwed ix = 0 :=
      List.countP_eq_zero.mpr fun t ht => by simp [owesAdd, hfinished t ht]
    have hremoves : s.removesOwed ix = 0 :=
      List.countP_eq_zero.mpr fun t ht => by simp [owesRemove, hfinished t ht]
    rw [hadds, hremoves, htotal, Nat.add_zero, Nat.add_zero, Nat.mod_eq_of_lt hlt] at hsize
    exact hsize

/-- With nothing on its way, the index serves the vectors of the accepted messages. -/
theorem Sound.serves (hs : s.Sound) (hquiescent : s.Quiescent)
    (hlength : s.vectors.keys.length ≤ 2 ^ 48) : s.Serves s.vectors := by
  have hplaced := hs.placed hquiescent
  refine ⟨fun p id => ?_, fun ix => ?_⟩
  · unfold stored
    cases hp : s.partitions.lookup p with
    | none => rw [Option.bind_none, hplaced.unmapped p hp id]
    | some a => rw [Option.bind_some, hplaced.entry p a hp id]
  · rw [hs.count_eq hquiescent]
    have hle : s.vectors.count ix ≤ s.vectors.keys.length := List.countP_le_length
    exact Nat.mod_eq_of_lt (by omega)

end State

/-! ## The result -/

section

variable [DecimalNormalizer]

/-- For the messages of every run on a new table, interleaved with any searches: when every call of
the index succeeds and all closures have finished, the index serves the vectors of the accepted
messages in order, and without refusals these are all messages. -/
theorem serves_in_order {table : Table} (hnew : table.IsNew) (calls : List Call)
    (runtime : Runtime) {as : List Action}
    (has : Machine.Along step (fun s a => Enabled s a ∧ s.Succeeds a) (.init runtime) as)
    (hreceived : received as = (World.init table).messages calls)
    (hquiescent : (Machine.run step (.init runtime) as).Quiescent) :
    (Machine.run step (.init runtime) as).Serves
        (Vectors.replay ∅ (Machine.run step (.init runtime) as).accepted) ∧
      (Unrefused as → (Machine.run step (.init runtime) as).accepted =
        (World.init table).messages calls) := by
  obtain ⟨henabled, hsucceeds⟩ := Machine.along_and.mp has
  have hworld := World.consistent_init hnew
  obtain ⟨hadmits, hstore⟩ := hworld.messages calls Vectors.inStore_empty
  rw [← hreceived] at hadmits hstore
  obtain ⟨hmessages, hbelow⟩ := State.along_admits (State.shaped_init runtime) henabled
    (Vectors.Below.refl ∅) hadmits
  have hsound : (Machine.run step (.init runtime) as).Sound :=
    @Machine.run_invariant_of_along _ _ step State.Sound
      (fun s a => (Enabled s a ∧ s.Succeeds a) ∧ s.AdmitsMessage a)
      (fun s a hs ha => hs.step ha.1.1 ha.1.2 ha.2) _ (State.sound_init runtime) as
      (Machine.along_and.mpr ⟨has, hmessages⟩)
  refine ⟨?_, fun hunrefused => ?_⟩
  · refine hsound.serves hquiescent ((World.run_consistent hworld calls).length_keys_le ?_)
    exact fun key v hv => hstore key v (hbelow key v hv)
  · rw [State.accepted_run (State.shaped_init runtime) henabled hunrefused, hreceived]
    rfl

end

namespace Sample

def runtime : Runtime := ⟨1, 1, Nat.one_pos, Nat.one_pos⟩

/-- The actor takes a message. -/
def receive (message : Message) : List Action := [.receive message ⟨.can, some 0⟩, .check]

/-- A closure runs to its end: the index is called and the counters are updated. -/
def carryOut (i : ℕ) (outcome : Outcome) (counters : ℕ) : List Action :=
  [.send, .take i, .call i outcome] ++ List.replicate counters (.count i) ++ [.release i]

/-- A vector is added to a new partition. -/
def addVector (i : ℕ) (message : VsIndexModify) : List Action :=
  receive (.modify message) ++ [.permitReserve, .recheck] ++ carryOut i (.reserved 1000) 1 ++
    [.permit] ++ carryOut (i + 1) .added 2

/-- A vector that is there is removed. -/
def removeVector (i : ℕ) (message : VsIndexModify) : List Action :=
  receive (.modify message) ++ [.permit] ++ carryOut i (.removed true) 2

attribute [local instance] VectorStore.Sample.decimals

/-- A row that moves between the partitions of a local index and is deleted. -/
def calls : List Call :=
  [VectorStore.Sample.upsert 0 0 (some (VectorStore.Sample.vector 1)) 0 (some 1),
    VectorStore.Sample.upsert 0 1 (some (VectorStore.Sample.vector 2)) 1 (some 2),
    VectorStore.Sample.delete 0 2]

/-- The messages of the row are carried out one by one, with a search while the row is there. -/
def movingRow : List Action :=
  match (World.init VectorStore.Sample.columnTable).messages calls with
  | [m₀, m₁, m₂, m₃, m₄, m₅] =>
    addVector 0 m₀ ++ receive (.search ⟨0⟩) ++ [.permit] ++ carryOut 2 .found 0 ++
      removeVector 3 m₁ ++ [.receive (.modify m₂) ⟨.can, some 0⟩] ++ addVector 4 m₃ ++
      removeVector 6 m₄ ++ [.receive (.modify m₅) ⟨.can, some 0⟩]
  | _ => []

end Sample

attribute [local instance] VectorStore.Sample.decimals in
theorem serves_in_order_movingRow :
    let s := Machine.run step (.init Sample.runtime) Sample.movingRow
    s.Serves (Vectors.replay ∅ s.accepted) ∧
      (Unrefused Sample.movingRow →
        s.accepted = (World.init VectorStore.Sample.columnTable).messages Sample.calls) :=
  serves_in_order VectorStore.Sample.isNew_columnTable Sample.calls Sample.runtime
    (by decide +kernel) (by decide +kernel) (by decide +kernel)

end Usearch

end VectorStore
