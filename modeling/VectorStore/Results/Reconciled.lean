import VectorStore.Node.Monitor

/-!
# The engine is reconciled with the schema

The engine mirrors the set of the monitor: it holds exactly the indexes of the set, each under its
key.  Deletions come first, so an index that is recreated under its key finds no entry when it is
added.  A failure leaves its index out of both, and the next tick that learns the schema version runs
the discovery again.
-/

namespace VectorStore

namespace Indexes

/-- The engine holds exactly the indexes of a set, which have different keys. -/
structure Mirrors (engine : Indexes) (idxs : Set DiscoveredIndex) : Prop where
  keys : Set.InjOn DiscoveredIndex.key idxs
  entries : ∀ kind key m, (engine.entries kind).lookup key = some m ↔
    m ∈ idxs ∧ m.key = key ∧ m.kind = kind

variable {engine : Indexes} {idxs : Set DiscoveredIndex} {key : IndexKey} {m : DiscoveredIndex}

theorem mirrors_new : new.Mirrors ∅ where
  keys := Set.injOn_empty _
  entries kind key m := by
    have hempty : new.entries kind = ∅ := by cases kind <;> rfl
    rw [hempty, AList.lookup_empty]
    exact iff_of_false (by rintro ⟨⟩) fun h => h.1

/-- The engine has an entry for the keys of the indexes it holds. -/
theorem Mirrors.containsKey_iff (h : engine.Mirrors idxs) :
    engine.containsKey key ↔ ∃ m ∈ idxs, m.key = key := by
  have hentry : ∀ kind, ((engine.entries kind).lookup key).isSome ↔
      ∃ m ∈ idxs, m.key = key ∧ m.kind = kind := by
    intro kind
    rw [Option.isSome_iff_exists]
    exact exists_congr fun m => h.entries kind key m
  have hvs : (engine.vsEntries.lookup key).isSome ↔ _ := hentry .vs
  have hfts : (engine.ftsEntries.lookup key).isSome ↔ _ := hentry .fts
  have hpattern : (engine.patternEntries.lookup key).isSome ↔ _ := hentry .pattern
  unfold containsKey
  rw [Bool.or_eq_true, Bool.or_eq_true, hvs, hfts, hpattern]
  constructor
  · rintro ((⟨m, hm, hkey, -⟩ | ⟨m, hm, hkey, -⟩) | ⟨m, hm, hkey, -⟩) <;> exact ⟨m, hm, hkey⟩
  · rintro ⟨m, hm, hkey⟩
    cases hkind : m.kind with
    | vs => exact Or.inl (Or.inl ⟨m, hm, hkey, hkind⟩)
    | fts => exact Or.inl (Or.inr ⟨m, hm, hkey, hkind⟩)
    | pattern => exact Or.inr ⟨m, hm, hkey, hkind⟩

/-- No entry of another kind has the key of an entry. -/
theorem Mirrors.lookup_eq_none (h : engine.Mirrors idxs) {kind other : IndexKind}
    (hkind : ((engine.entries kind).lookup key).isSome) (hne : other ≠ kind) :
    (engine.entries other).lookup key = none := by
  obtain ⟨m, hm⟩ := Option.isSome_iff_exists.mp hkind
  obtain ⟨hmem, hkey, rfl⟩ := (h.entries _ _ _).mp hm
  cases hlookup : (engine.entries other).lookup key with
  | none => rfl
  | some m' =>
    obtain ⟨hmem', hkey', rfl⟩ := (h.entries _ _ _).mp hlookup
    exact absurd (congrArg DiscoveredIndex.kind (h.keys hmem' hmem (hkey'.trans hkey.symm))) hne

/-- Removing a key leaves no entry for it, and every entry for another one. -/
theorem Mirrors.lookup_remove (h : engine.Mirrors idxs) (kind : IndexKind) (key' : IndexKey) :
    ((engine.remove key).entries kind).lookup key' =
      if key' = key then none else (engine.entries kind).lookup key' := by
  have hother : ∀ kind', ((engine.entries kind').lookup key).isSome → kind ≠ kind' →
      (engine.entries kind).lookup key' =
        if key' = key then none else (engine.entries kind).lookup key' := by
    intro kind' hsome hne
    split
    · next heq => rw [heq, h.lookup_eq_none hsome hne]
    · rfl
  have hnone : ∀ {entries : AList fun _ : IndexKey => DiscoveredIndex},
      ¬(entries.lookup key).isSome → entries.lookup key' =
        if key' = key then none else entries.lookup key' := by
    intro entries hmissing
    split
    · next heq => rw [heq, Option.not_isSome_iff_eq_none.mp hmissing]
    · rfl
  unfold remove
  split
  · next hvs =>
    cases kind with
    | vs => exact FiniteMap.lookup_erase_eq ..
    | fts | pattern => exact hother .vs hvs (by decide)
  · next hvs =>
    split
    · next hfts =>
      cases kind with
      | vs => exact hnone hvs
      | fts => exact FiniteMap.lookup_erase_eq ..
      | pattern => exact hother .fts hfts (by decide)
    · next hfts =>
      cases kind with
      | vs => exact hnone hvs
      | fts => exact hnone hfts
      | pattern => exact FiniteMap.lookup_erase_eq ..

/-- Removing a key removes the index with that key. -/
theorem Mirrors.remove (h : engine.Mirrors idxs) (key : IndexKey) :
    (engine.remove key).Mirrors {m ∈ idxs | m.key ≠ key} where
  keys := h.keys.mono (Set.sep_subset _ _)
  entries kind key' m := by
    rw [h.lookup_remove]
    split
    · next heq =>
      refine iff_of_false (by rintro ⟨⟩) ?_
      rintro ⟨⟨-, hne⟩, hkey, -⟩
      exact hne (hkey.trans heq)
    · next hne =>
      rw [h.entries]
      constructor
      · rintro ⟨hm, hkey, hkind⟩
        exact ⟨⟨hm, fun heq => hne (hkey.symm.trans heq)⟩, hkey, hkind⟩
      · rintro ⟨⟨hm, -⟩, hkey, hkind⟩
        exact ⟨hm, hkey, hkind⟩

theorem lookup_insert (engine : Indexes) (m : DiscoveredIndex) (kind : IndexKind)
    (key' : IndexKey) :
    ((engine.insert key m).entries kind).lookup key' =
      if kind = m.kind ∧ key' = key then some m else (engine.entries kind).lookup key' := by
  unfold insert
  cases hkind : m.kind <;> cases kind <;> simp [entries, FiniteMap.lookup_insert_eq]

/-- An index with a new key is added. -/
theorem Mirrors.insert (h : engine.Mirrors idxs) (hkey : ∀ m' ∈ idxs, m'.key ≠ m.key) :
    (engine.insert m.key m).Mirrors (Insert.insert m idxs) where
  keys := by
    refine (Set.injOn_insert fun hm => hkey m hm rfl).mpr ⟨h.keys, ?_⟩
    rintro ⟨m', hm', heq⟩
    exact hkey m' hm' heq
  entries kind key' m' := by
    rw [lookup_insert]
    split
    · next heq =>
      rw [Option.some_inj]
      constructor
      · rintro rfl
        exact ⟨Set.mem_insert _ _, heq.2.symm, heq.1.symm⟩
      · rintro ⟨hmem, hkey', -⟩
        refine ((Set.mem_insert_iff.mp hmem).resolve_right fun hm' => ?_).symm
        exact hkey m' hm' (hkey'.trans heq.2)
    · next hne =>
      rw [h.entries]
      constructor
      · rintro ⟨hm', hkey', hkind⟩
        exact ⟨Set.mem_insert_of_mem _ hm', hkey', hkind⟩
      · rintro ⟨hmem, hkey', hkind⟩
        refine ⟨(Set.mem_insert_iff.mp hmem).resolve_left fun heq => hne ?_, hkey', hkind⟩
        rw [← hkind, ← hkey', heq]
        exact ⟨rfl, rfl⟩

end Indexes

namespace MonitorIndexes

open Indexes (Mirrors)

variable {engine : Indexes} {idxs : Set DiscoveredIndex}

/-- The indexes with the keys of a list are deleted. -/
theorem mirrors_delIndexes (h : engine.Mirrors idxs) (deleted : List DiscoveredIndex) :
    (delIndexes engine deleted).Mirrors {m ∈ idxs | ∀ d ∈ deleted, m.key ≠ d.key} := by
  induction deleted generalizing engine idxs with
  | nil =>
    have hall : {m ∈ idxs | ∀ d ∈ ([] : List DiscoveredIndex), m.key ≠ d.key} = idxs :=
      Set.sep_eq_self_iff_mem_true.mpr fun _ _ _ hd => by cases hd
    rw [hall]
    exact h
  | cons d deleted ih =>
    have hrest := ih (h.remove d.key)
    have hsplit : {m ∈ idxs | ∀ d' ∈ d :: deleted, m.key ≠ d'.key} =
        {m ∈ {m ∈ idxs | m.key ≠ d.key} | ∀ d' ∈ deleted, m.key ≠ d'.key} := by
      ext m
      rw [Set.mem_sep_iff, Set.mem_sep_iff, Set.mem_sep_iff, List.forall_mem_cons, and_assoc]
    rw [hsplit]
    exact hrest

/-- The indexes of a list, whose keys are new, are added as far as the engine does not fail. -/
theorem mirrors_addIndexes (fails : DiscoveredIndex → Bool) (h : engine.Mirrors idxs) {news : List DiscoveredIndex}
    (hnodup : (news.map DiscoveredIndex.key).Nodup)
    (hkeys : ∀ m ∈ news, ∀ m' ∈ idxs, m'.key ≠ m.key) :
    (addIndexes fails engine news).1.Mirrors
        (idxs ∪ {m | m ∈ (addIndexes fails engine news).2.1}) ∧
      (addIndexes fails engine news).2.1.Sublist news ∧
      ((addIndexes fails engine news).2.2 = false → (addIndexes fails engine news).2.1 = news) := by
  induction news generalizing engine idxs with
  | nil =>
    have hnone : idxs ∪ {m | m ∈ ([] : List DiscoveredIndex)} = idxs := by simp
    refine ⟨?_, List.Sublist.refl _, fun _ => rfl⟩
    change engine.Mirrors (idxs ∪ {m | m ∈ ([] : List DiscoveredIndex)})
    rw [hnone]
    exact h
  | cons m news ih =>
    rw [List.map_cons, List.nodup_cons] at hnodup
    obtain ⟨hm, hnews⟩ := List.forall_mem_cons.mp hkeys
    have hmissing : engine.containsKey m.key = false := Bool.eq_false_of_not_eq_true fun hsome => by
      obtain ⟨m', hm', hkey⟩ := h.containsKey_iff.mp hsome
      exact hm m' hm' hkey
    cases hfails : fails m with
    | true =>
      have hadd : engine.addIndex m (fails m) = (engine, false) := by
        unfold Indexes.addIndex
        rw [hmissing, hfails]
        rfl
      obtain ⟨hmirrors, hsublist, -⟩ := ih h hnodup.2 hnews
      simp only [addIndexes, hadd, Bool.not_false, Bool.true_or, Bool.false_eq_true, if_false]
      exact ⟨hmirrors, hsublist.cons _, by rintro ⟨⟩⟩
    | false =>
      have hadd : engine.addIndex m (fails m) = (engine.insert m.key m, true) := by
        unfold Indexes.addIndex
        rw [hmissing, hfails]
        rfl
      have hnews' : ∀ m'' ∈ news, ∀ m' ∈ Insert.insert m idxs, m'.key ≠ m''.key := by
        intro m'' hm'' m' hm'
        rcases Set.mem_insert_iff.mp hm' with rfl | hm'
        · exact fun heq => hnodup.1 (heq ▸ List.mem_map_of_mem hm'')
        · exact hnews m'' hm'' m' hm'
      obtain ⟨hmirrors, hsublist, hall⟩ := ih (h.insert hm) hnodup.2 hnews'
      simp only [addIndexes, hadd, Bool.not_true, Bool.false_or, if_true]
      refine ⟨?_, hsublist.cons_cons _, fun h => congrArg _ (hall h)⟩
      have hunion : ∀ added : List DiscoveredIndex,
          idxs ∪ {x | x ∈ m :: added} = Insert.insert m idxs ∪ {x | x ∈ added} := by
        intro added
        ext x
        simp only [Set.mem_union, Set.mem_ofPred_eq, Set.mem_insert_iff, List.mem_cons]
        tauto
      rw [hunion]
      exact hmirrors

/-- All indexes are added when the engine fails for none of them. -/
theorem addIndexes_of_succeeds {fails : DiscoveredIndex → Bool} {news : List DiscoveredIndex}
    (h : ∀ m ∈ news, fails m = false) (engine : Indexes) :
    (addIndexes fails engine news).2 = (news, false) := by
  induction news generalizing engine with
  | nil => rfl
  | cons m news ih =>
    obtain ⟨hm, hnews⟩ := List.forall_mem_cons.mp h
    have hadd : (engine.addIndex m (fails m)).2 = true := by
      unfold Indexes.addIndex
      rw [hm]
      split <;> rfl
    simp only [addIndexes, hadd, ih hnews]
    rfl

/-- What a tick can meet: the schema version is not nil, and the discovered indexes have different
keys. -/
structure Tick.Valid (tick : Tick) : Prop where
  version : tick.version ≠ some 0
  keys : ∀ newIndexes ∈ tick.newIndexes, (newIndexes.map DiscoveredIndex.key).Nodup

instance (tick : Tick) : Decidable tick.Valid :=
  decidable_of_iff (tick.version ≠ some 0 ∧
    ∀ newIndexes ∈ tick.newIndexes, (newIndexes.map DiscoveredIndex.key).Nodup)
    ⟨fun h => ⟨h.1, h.2⟩, fun h => ⟨h.version, h.keys⟩⟩

namespace State

variable {s : State} {t : Tick} {ticks : List Tick}

/-- The engine mirrors the set of the monitor. -/
def Reconciled (s : State) : Prop := s.engine.Mirrors {m | m ∈ s.indexes}

/-- Deleting some indexes and adding others, whose keys are new, keeps the engine and the monitor
together. -/
theorem Reconciled.replace (hs : s.Reconciled) (forDelete : DiscoveredIndex → Bool)
    {news : List DiscoveredIndex} (hnodup : (news.map DiscoveredIndex.key).Nodup)
    (hfresh : ∀ m ∈ news, ∀ m' ∈ s.indexes, forDelete m' = false → m'.key ≠ m.key)
    (fails : DiscoveredIndex → Bool) :
    let (engine, added, hasFailures) :=
      addIndexes fails (delIndexes s.engine (s.indexes.filter forDelete)) news
    engine.Mirrors {m | m ∈ (s.indexes.filter fun idx => !forDelete idx) ++ added} ∧
      (hasFailures = false → added = news) := by
  have hmirrors := mirrors_delIndexes hs (s.indexes.filter forDelete)
  have hset : {m ∈ {m | m ∈ s.indexes} | ∀ d ∈ s.indexes.filter forDelete, m.key ≠ d.key} =
      {m | m ∈ s.indexes.filter fun idx => !forDelete idx} := by
    ext m
    rw [Set.mem_sep_iff, Set.mem_ofPred_eq, Set.mem_ofPred_eq, List.mem_filter, Bool.not_eq_true']
    refine and_congr_right fun hm => ⟨fun h => ?_, fun hkeep d hd heq => ?_⟩
    · refine Bool.eq_false_of_not_eq_true fun hdelete => ?_
      exact h m (List.mem_filter.mpr ⟨hm, hdelete⟩) rfl
    · obtain ⟨hd, hdelete⟩ := List.mem_filter.mp hd
      rw [hs.keys hm hd heq, hdelete] at hkeep
      cases hkeep
  rw [hset] at hmirrors
  have hfresh' : ∀ m ∈ news, ∀ m' ∈ {m | m ∈ s.indexes.filter fun idx => !forDelete idx},
      m'.key ≠ m.key := by
    intro m hm m' hm'
    obtain ⟨hm', hkeep⟩ := List.mem_filter.mp hm'
    exact hfresh m hm m' hm' (by simpa using hkeep)
  obtain ⟨hadded, -, hall⟩ := mirrors_addIndexes fails hmirrors hnodup hfresh'
  refine ⟨?_, hall⟩
  have hunion : ∀ added : List DiscoveredIndex,
      {m | m ∈ (s.indexes.filter fun idx => !forDelete idx) ++ added} =
        {m | m ∈ s.indexes.filter fun idx => !forDelete idx} ∪ {m | m ∈ added} := by
    intro added
    ext m
    exact List.mem_append
  rw [hunion]
  exact hadded

/-- No index is added under the key of one that is kept. -/
theorem key_ne_of_shouldAdd {indexes newIndexes : List DiscoveredIndex}
    (hnodup : (newIndexes.map DiscoveredIndex.key).Nodup) :
    ∀ m ∈ newIndexes.filter
        (shouldAdd (indexes.filter fun idx => !shouldDelete newIndexes idx)), ∀ m' ∈ indexes,
      shouldDelete newIndexes m' = false → m'.key ≠ m.key := by
  intro m hm m' hm' hkeep heq
  obtain ⟨hm, hadd⟩ := List.mem_filter.mp hm
  have hnew : m' ∈ newIndexes := by simpa [shouldDelete] using hkeep
  have hkept : m' ∈ indexes.filter fun idx => !shouldDelete newIndexes idx :=
    List.mem_filter.mpr ⟨hm', by rw [hkeep]; rfl⟩
  rw [List.inj_on_of_nodup_map hnodup hnew hm heq] at hkept
  simp [shouldAdd, hkept] at hadd

/-- Deleting and adding keeps the engine and the monitor together, and without failures they end up
with what was discovered. -/
theorem Reconciled.update (hs : s.Reconciled) {newIndexes : List DiscoveredIndex}
    (hnodup : (newIndexes.map DiscoveredIndex.key).Nodup) (fails : DiscoveredIndex → Bool) :
    (s.update newIndexes fails).1.Reconciled ∧
      ((s.update newIndexes fails).2 = false →
        ∀ m, m ∈ (s.update newIndexes fails).1.indexes ↔ m ∈ newIndexes) := by
  let kept := s.indexes.filter fun idx => !shouldDelete newIndexes idx
  have hkept : ∀ m, m ∈ kept ↔ m ∈ s.indexes ∧ m ∈ newIndexes := fun m => by
    simp [kept, shouldDelete]
  have hnews : ∀ m, m ∈ newIndexes.filter (shouldAdd kept) ↔ m ∈ newIndexes ∧ m ∉ kept :=
    fun m => by simp [shouldAdd]
  obtain ⟨hmirrors, hall⟩ := hs.replace (shouldDelete newIndexes)
    (hnodup.sublist (List.filter_sublist.map _)) (key_ne_of_shouldAdd hnodup) fails
  refine ⟨hmirrors, fun hsucceeds m => ?_⟩
  have hindexes : (s.update newIndexes fails).1.indexes =
      kept ++ newIndexes.filter (shouldAdd kept) := congrArg (kept ++ ·) (hall hsucceeds)
  rw [hindexes, List.mem_append, hkept, hnews, hkept]
  tauto

/-- Every tick keeps the engine and the monitor together. -/
theorem Reconciled.tick (hs : s.Reconciled) (hvalid : t.Valid) : (s.tick t).Reconciled := by
  unfold State.tick tickWith
  dsimp only
  split
  · exact hs
  · split
    · exact hs
    · next newIndexes hnew =>
      have hs' : Reconciled { s with
        schemaVersion := (s.schemaVersion.hasChanged t.version).1 } := hs
      exact (hs'.update (hvalid.keys newIndexes hnew) t.fails).1

/-- A tick that runs the discovery. -/
theorem Discovers.tick_eq (h : s.Discovers t) : s.tick t =
    match t.newIndexes with
    | none => { s with schemaVersion := ⟨0⟩ }
    | some newIndexes =>
      ({ s with schemaVersion := (s.schemaVersion.hasChanged t.version).1 }.update newIndexes
        t.fails).1 := by
  obtain ⟨version, hversion⟩ := Option.isSome_iff_exists.mp h
  unfold State.tick tickWith
  dsimp only
  rw [hversion]
  cases t.newIndexes <;> rfl

/-- A tick with a failure forgets the schema version. -/
theorem Fails.schemaVersion_eq (h : s.Fails t) : (s.tick t).schemaVersion = ⟨0⟩ := by
  rw [h.1.tick_eq]
  cases hnew : t.newIndexes with
  | none => rfl
  | some newIndexes =>
    have hfails : (s.update newIndexes t.fails).2 = true := h.2 newIndexes hnew
    exact if_pos hfails

/-- Without a schema version the state stays as it is. -/
theorem run_of_version_eq_none (h : ∀ tick ∈ ticks, tick.version = none) :
    Machine.run State.tick s ticks = s := by
  induction ticks with
  | nil => rfl
  | cons tick ticks ih =>
    obtain ⟨htick, hticks⟩ := List.forall_mem_cons.mp h
    have hsame : s.tick tick = s := by
      unfold State.tick tickWith SchemaVersion.hasChanged
      rw [htick]
    rw [Machine.run_cons, hsame]
    exact ih hticks

/-- The engine holds exactly the indexes of the monitor, each under its key, and the next ticks
reconcile them with the schema. -/
structure KeepsUp (s : State) : Prop where
  reconciled : s.Reconciled
  /-- A tick that runs the discovery without failure leaves exactly what it discovered. -/
  discovered : ∀ tick : Tick, tick.Valid → s.Discovers tick → ¬s.Fails tick →
    ∃ newIndexes ∈ tick.newIndexes, ∀ m, m ∈ (s.tick tick).indexes ↔ m ∈ newIndexes
  /-- After a tick with a failure, the next one that learns the schema version runs the discovery. -/
  retried : ∀ tick : Tick, s.Fails tick → ∀ between : List Tick,
    (∀ tick ∈ between, tick.version = none) → ∀ next : Tick, next.Valid → next.version.isSome →
      (Machine.run State.tick (s.tick tick) between).Discovers next

theorem Reconciled.keepsUp (hs : s.Reconciled) : s.KeepsUp where
  reconciled := hs
  discovered tick htick hdiscovers hsucceeds := by
    rw [hdiscovers.tick_eq]
    cases hnew : tick.newIndexes with
    | none =>
      refine absurd ⟨hdiscovers, fun newIndexes h => ?_⟩ hsucceeds
      rw [hnew] at h
      cases h
    | some newIndexes =>
      have hnone : (s.update newIndexes tick.fails).2 = false := by
        refine Bool.eq_false_of_not_eq_true fun hfails => hsucceeds ⟨hdiscovers, fun news h => ?_⟩
        rw [hnew] at h
        rwa [← Option.some_inj.mp h]
      have hs' : Reconciled { s with
        schemaVersion := (s.schemaVersion.hasChanged tick.version).1 } := hs
      exact ⟨newIndexes, rfl, (hs'.update (htick.keys newIndexes hnew) tick.fails).2 hnone⟩
  retried tick hfails between hbetween next hnext hsome := by
    rw [run_of_version_eq_none hbetween]
    obtain ⟨version, hversion⟩ := Option.isSome_iff_exists.mp hsome
    have hne : (0 : Uuid) ≠ version := fun heq => hnext.version (by rw [hversion, heq])
    unfold Discovers SchemaVersion.hasChanged
    rw [hfails.schemaVersion_eq, hversion]
    dsimp only
    rw [if_neg hne]
    rfl

theorem reconciled_init : init.Reconciled := by
  have hnone : {m | m ∈ init.indexes} = ∅ := by
    ext m
    exact iff_of_false (fun h => by cases h) id
  unfold Reconciled
  rw [hnone]
  exact Indexes.mirrors_new

end State

/-- After every sequence of ticks the engine and the monitor keep up with the schema. -/
theorem reconciles {ticks : List Tick} (hvalid : ∀ tick ∈ ticks, tick.Valid) :
    (Machine.run State.tick .init ticks).KeepsUp := by
  have hrun : (Machine.run State.tick .init ticks).Reconciled :=
    @Machine.run_invariant_of_along _ _ State.tick State.Reconciled (fun _ tick => tick.Valid)
      (fun s tick hs htick => State.Reconciled.tick hs htick) _ State.reconciled_init _
      (Machine.along_of_forall hvalid _)
  exact hrun.keepsUp

namespace Sample

/-- An index is added, then recreated while the engine fails to add it, and then found again. -/
def recreated : List Tick :=
  [⟨some 1, some [VectorStore.Sample.indexVersion 1], false, fun _ => false⟩,
    ⟨some 2, some [VectorStore.Sample.indexVersion 2], false, fun _ => true⟩,
    ⟨some 2, some [VectorStore.Sample.indexVersion 2], false, fun _ => false⟩]

end Sample

theorem reconciles_recreated : (Machine.run State.tick .init Sample.recreated).KeepsUp :=
  reconciles (by decide +kernel)

end MonitorIndexes

end VectorStore
