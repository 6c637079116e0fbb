import VectorStore.FtsIndex.Search
import VectorStore.Results.Searchable

/-!
# Full-text searches once the index is at rest

A table, the messages of its operations and the full-text actor, as one system.  Once no closure is on
its way and a commit and a reload have followed, the searchable documents are those of the rows, and
a search reports every match, with the key of the row whose document it is.
-/

namespace VectorStore

namespace World

variable [TimeuuidOrd] [DecimalNormalizer] {w : World} {documents : Documents}

omit [TimeuuidOrd] [DecimalNormalizer] in
/-- What is stored for an identifier does not depend on the partition that is asked for. -/
theorem primaryKey_congr {p q : PartitionId} {id : PrimaryId} {raw raw' : PrimaryKey}
    (h : w.table.primaryKey p id = some raw) (h' : w.table.primaryKey q id = some raw') :
    raw = raw' := by
  unfold Table.primaryKey at h h'
  split at h
  · cases h
  · split at h'
    · cases h'
    · exact Option.some.inj (h.symm.trans h')

/-- The documents are those of the rows, each with an identifier that answers for its row. -/
structure ServesDocuments (w : World) (documents : Documents) : Prop where
  sound : ∀ id text, (id, text) ∈ documents → ∃ key pkey p,
    (w.row key).target.held = some (pkey, .document text) ∧ w.locate pkey = some p ∧
      w.ResolvesTo key p id
  complete : ∀ key pkey text, (w.row key).target.held = some (pkey, .document text) →
    ∃ p id, w.locate pkey = some p ∧ (id, text) ∈ documents ∧ w.ResolvesTo key p id
  unique : ∀ key p q id jd text text', (id, text) ∈ documents → (jd, text') ∈ documents →
    w.ResolvesTo key p id → w.ResolvesTo key q jd → id = jd ∧ text = text'
  card : documents.card = (w.rowsOf SplittingValues.isDocument).length

/-- Documents that mirror the store are those of the rows. -/
theorem servesDocuments_of_mirrors (h : w.ServesStore) (hmirrors : documents.Mirrors w.store) :
    w.ServesDocuments documents := by
  have hunique : ∀ key p q id jd text text', (id, text) ∈ documents → (jd, text') ∈ documents →
      w.ResolvesTo key p id → w.ResolvesTo key q jd → id = jd ∧ text = text' := by
    intro key p q id jd text text' hid hjd hkey hkey'
    obtain ⟨p', hp⟩ := (hmirrors.mem id text).mp hid
    obtain ⟨q', hq⟩ := (hmirrors.mem jd text').mp hjd
    obtain ⟨k, -, -, -, hk⟩ := h.sound p' id _ hp
    obtain ⟨k', -, -, -, hk'⟩ := h.sound q' jd _ hq
    have hsame : ∀ {k p p' id}, w.ResolvesTo key p id → w.ResolvesTo k p' id → k = key := by
      intro k p p' id hkey hk
      obtain ⟨raw, hraw, hnormal⟩ := hkey.primaryKey
      obtain ⟨raw', hraw', hnormal'⟩ := hk.primaryKey
      obtain rfl := primaryKey_congr hraw hraw'
      exact Except.ok.inj (hnormal'.symm.trans hnormal)
    obtain rfl := hsame hkey hk
    obtain rfl := hsame hkey' hk'
    obtain ⟨rfl, rfl⟩ := h.unique _ p' id q' jd (Option.isSome_iff_exists.mpr ⟨_, hp⟩)
      (Option.isSome_iff_exists.mpr ⟨_, hq⟩) hk hk'
    exact ⟨rfl, SplittingValues.document.inj (Option.some.inj (hp.symm.trans hq))⟩
  have hcomplete : ∀ key pkey text, (w.row key).target.held = some (pkey, .document text) →
      ∃ p id, w.locate pkey = some p ∧ (id, text) ∈ documents ∧ w.ResolvesTo key p id := by
    intro key pkey text hheld
    obtain ⟨p, id, hp, hvalue, hkey⟩ := h.complete key pkey _ hheld
    exact ⟨p, id, hp, (hmirrors.mem id text).mpr ⟨p, hvalue⟩, hkey⟩
  have hsound : ∀ id text, (id, text) ∈ documents → ∃ key pkey p,
      (w.row key).target.held = some (pkey, .document text) ∧ w.locate pkey = some p ∧
        w.ResolvesTo key p id := by
    intro id text hmem
    obtain ⟨p, hp⟩ := (hmirrors.mem id text).mp hmem
    obtain ⟨key, pkey, hheld, hlocate, hkey⟩ := h.sound p id _ hp
    exact ⟨key, pkey, p, hheld, hlocate, hkey⟩
  refine ⟨hsound, hcomplete, hunique, ?_⟩
  rw [← Multiset.toFinset_card_of_nodup hmirrors.nodup]
  refine card_eq_length_rowsOf (fun entry key => ∃ p, w.ResolvesTo key p entry.1) ?_ ?_ ?_ ?_
  · rintro ⟨id, text⟩ he
    obtain ⟨key, pkey, p, hheld, -, hkey⟩ := hsound id text (Multiset.mem_toFinset.mp he)
    exact ⟨key, mem_rowsOf.mpr ⟨pkey, _, hheld, rfl⟩, p, hkey⟩
  · intro key hkey
    obtain ⟨pkey, value, hheld, hkind⟩ := mem_rowsOf.mp hkey
    cases value with
    | vector v => cases hkind
    | document text =>
      obtain ⟨p, id, -, hmem, hresolves⟩ := hcomplete key pkey text hheld
      exact ⟨(id, text), Multiset.mem_toFinset.mpr hmem, p, hresolves⟩
  · rintro key ⟨id, text⟩ he ⟨jd, text'⟩ he' ⟨p, hkey⟩ ⟨q, hkey'⟩
    obtain ⟨rfl, rfl⟩ := hunique key p q id jd text text' (Multiset.mem_toFinset.mp he)
      (Multiset.mem_toFinset.mp he') hkey hkey'
    rfl
  · rintro ⟨id, text⟩ key key' ⟨p, hkey⟩ ⟨q, hkey'⟩
    obtain ⟨raw, hraw, hnormal⟩ := hkey.primaryKey
    obtain ⟨raw', hraw', hnormal'⟩ := hkey'.primaryKey
    obtain rfl := primaryKey_congr hraw hraw'
    exact Except.ok.inj (hnormal.symm.trans hnormal')

end World

namespace Tantivy

section

variable [DecimalNormalizer]

/-- A run of the actor in which no closure reaches the writer before an earlier one of which the order
matters, that received the messages of the calls without refusing any, and came to rest after a commit
and a reload. -/
structure Carries (table : Table) (calls : List Call) (runtime : Runtime) (commitThreshold : ℕ)
    (as : List Action) : Prop where
  along : Machine.Along step (fun s a => Enabled s a ∧ Succeeds a) (.init runtime commitThreshold) as
  inTurn : Machine.Along step State.InTurn (.init runtime commitThreshold) as
  received : received as = (World.init table).documentMessages calls
  unrefused : Unrefused as
  quiescent : (Machine.run step (.init runtime commitThreshold) as).Quiescent
  committed : (Machine.run step (.init runtime commitThreshold) as).writer.hasUncommittedDocs = false
  reloaded : (Machine.run step (.init runtime commitThreshold) as).searcher.opstamp =
    (Machine.run step (.init runtime commitThreshold) as).metas.opstamp

variable {table : Table} {calls : List Call} {runtime : Runtime} {commitThreshold : ℕ}
  {as : List Action}

/-- The searchable documents mirror the store. -/
theorem Carries.mirrors (h : Carries table calls runtime commitThreshold as)
    (hnew : table.IsNew) :
    (Machine.run step (.init runtime commitThreshold) as).searcher.documents.Mirrors
      (Machine.run World.step (World.init table) calls).store := by
  have hsettled : (Machine.run step (.init runtime commitThreshold) as).Settled :=
    @Machine.run_invariant_of_along _ _ step State.Settled
      (fun s a => (Enabled s a ∧ Succeeds a) ∧ s.InTurn a)
      (fun s a hs ha => hs.step (State.effect ha.1.1) ha.1.2 ha.2) _
      (State.settled_init runtime commitThreshold) as (Machine.along_and.mpr ⟨h.along, h.inTurn⟩)
  rw [hsettled.searchable h.quiescent h.committed h.reloaded,
    State.accepted_run (Machine.along_and.mp h.along).1 h.unrefused, h.received]
  exact (World.consistent_init hnew).mirrors calls Documents.mirrors_empty

variable [TimeuuidOrd]

/-- The row that a match is reported for: its document is the one that matched. -/
def Reports (w : World) (documents : Documents) (found : UInt32 × PrimaryId) (raw : PrimaryKey) :
    Prop :=
  ∃ key pkey text, (found.2, text) ∈ documents ∧
    (w.row key).target.held = some (pkey, .document text) ∧
      w.table.normalizePrimaryKey raw = .ok key

/-- A search of a global index reports matches that are all documents of rows. -/
theorem handleSearch_of_sound {w : World} {documents : Documents}
    (hserves : w.ServesDocuments documents) (hglobal : w.table.index.data = .globalIndex)
    {found : List (UInt32 × PrimaryId)} (hfound : ∀ m ∈ found, ∃ text, (m.2, text) ∈ documents) :
    ∃ primaryKeys, List.Forall₂ (Reports w documents) found primaryKeys ∧
      handleSearch w.table w.table.indexKey (.ok (found.map fun m => (m.1, .ok m.2))) =
        .ok (primaryKeys, found.map Prod.fst) := by
  unfold handleSearch Table.partitionId
  rw [if_neg (not_not.mpr rfl), hglobal]
  dsimp only
  have hread : (found.map fun m => ((m.1, .ok m.2) : UInt32 × Except String PrimaryId)).mapM
      readMatch = .ok found := by
    induction found with
    | nil => rfl
    | cons m found ih =>
      rw [List.map_cons, List.mapM_cons, ih fun m' hmem => hfound m' (List.mem_cons_of_mem m hmem)]
      rfl
  rw [hread]
  clear hread
  suffices h : ∃ primaryKeys, List.Forall₂ (Reports w documents) found primaryKeys ∧
      (found.filterMap (reportMatch w.table (.global w.table.index.indexId))).unzip =
        (primaryKeys, found.map Prod.fst) by
    obtain ⟨primaryKeys, hall, hkeys⟩ := h
    exact ⟨primaryKeys, hall, congrArg Except.ok hkeys⟩
  induction found with
  | nil => exact ⟨[], .nil, rfl⟩
  | cons m found ih =>
    obtain ⟨primaryKeys, hall, hrest⟩ := ih fun m' hmem => hfound m' (List.mem_cons_of_mem m hmem)
    obtain ⟨text, htext⟩ := hfound m List.mem_cons_self
    obtain ⟨key, pkey, p, hheld, hp, hresolves⟩ := hserves.sound m.2 text htext
    obtain ⟨raw, hraw, hkey⟩ := hresolves.primaryKey
    have hpartition : p = .global w.table.index.indexId := by
      unfold World.locate at hp
      rw [hglobal] at hp
      exact (IndexData.locate_globalIndex_eq_some.mp hp).2.symm
    rw [hpartition] at hraw
    have hreport : reportMatch w.table (.global w.table.index.indexId) m = some (raw, m.1) := by
      unfold reportMatch
      rw [hraw]
      rfl
    refine ⟨raw :: primaryKeys, .cons ⟨key, pkey, text, htext, hheld, hkey⟩ hall, ?_⟩
    rw [List.filterMap_cons_some hreport, List.unzip_cons, hrest, List.map_cons]

/-- Once a commit and a reload have made everything searchable, the documents are those of the rows:
each of them once, with an identifier that answers for its row; and a search of a global index answers
with the key of the row of every match, in order, and leaves none out. -/
theorem documents_searched (hnew : table.IsNew)
    (h : Carries table calls runtime commitThreshold as) :
    let w := Machine.run World.step (World.init table) calls
    let s := Machine.run step (.init runtime commitThreshold) as
    w.ServesDocuments s.searcher.documents ∧
      (w.table.index.data = .globalIndex → ∀ found : List (UInt32 × PrimaryId),
        (∀ m ∈ found, ∃ text, (m.2, text) ∈ s.searcher.documents) →
          ∃ primaryKeys, List.Forall₂ (Reports w s.searcher.documents) found primaryKeys ∧
            handleSearch w.table w.table.indexKey (.ok (found.map fun m => (m.1, .ok m.2))) =
              .ok (primaryKeys, found.map Prod.fst)) := by
  have hreach : (Machine.run World.step (World.init table) calls).Reachable :=
    ⟨table, calls, hnew, rfl⟩
  have hserves := World.servesDocuments_of_mirrors
    (hreach.consistent.serves_store hreach.storesKeys) (h.mirrors hnew)
  exact ⟨hserves, fun hglobal found hfound => handleSearch_of_sound hserves hglobal hfound⟩

end

namespace Sample

attribute [local instance] VectorStore.Sample.decimals

/-- A row whose document is written. -/
def document : List Call :=
  [VectorStore.Sample.upsert 0 0 (some (.document "a")) 0 (some 1)]

/-- Its message is taken and carried out, and the document becomes searchable. -/
def documentServed : List Action :=
  ((World.init VectorStore.Sample.globalTable).documentMessages document).flatMap
      (fun message => [.receive message ⟨.can, true⟩, .send 0, .take 0]) ++
    [.operate 0 true, .finish 0, .tick, .send 1, .take 1, .save 1 1, .notify, .commit 1 true,
      .handOver 1, .finish 1, .respond, .send 2, .take 2, .load 2 true, .reload 2 true, .store 2,
      .finish 2, .resume]

theorem carries_documentServed :
    Carries VectorStore.Sample.globalTable document runtime 10 documentServed :=
  ⟨by decide +kernel, by decide +kernel, by decide +kernel, by decide +kernel, by decide +kernel,
    by decide +kernel, by decide +kernel⟩

end Sample

attribute [local instance] VectorStore.Sample.decimals VectorStore.Sample.timeuuids

theorem documents_searched_documentServed :
    let w := Machine.run World.step (World.init VectorStore.Sample.globalTable) Sample.document
    let s := Machine.run step (.init Sample.runtime 10) Sample.documentServed
    w.ServesDocuments s.searcher.documents ∧
      (w.table.index.data = .globalIndex → ∀ found : List (UInt32 × PrimaryId),
        (∀ m ∈ found, ∃ text, (m.2, text) ∈ s.searcher.documents) →
          ∃ primaryKeys, List.Forall₂ (Reports w s.searcher.documents) found primaryKeys ∧
            handleSearch w.table w.table.indexKey (.ok (found.map fun m => (m.1, .ok m.2))) =
              .ok (primaryKeys, found.map Prod.fst)) :=
  documents_searched VectorStore.Sample.isNew_globalTable Sample.carries_documentServed

end Tantivy

end VectorStore
