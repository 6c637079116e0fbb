import VectorStore.Metadata
import VectorStore.Read.ParseValues

/-!
# Discovered indexes

The metadata of an index as the discovery of indexes sees it.  Two versions of an index have the same
key.
-/

namespace VectorStore

deriving instance DecidableEq for IndexMetadata

abbrev Uuid := BitVec 128

/-! ## Options -/

inductive SpaceType where
  | euclidean
  | cosine
  | dotProduct
  | hamming
deriving DecidableEq

inductive Quantization where
  | f32
  | f16
  | bf16
  | i8
  | b1
deriving DecidableEq

/-- The text analyzers of a full-text index. -/
inductive Analyzer where
  | standard
  | english
  | german
  | french
  | spanish
  | italian
  | portuguese
  | russian
  | simple
  | whitespace
deriving DecidableEq

/-- The configuration of a vector index. -/
structure IndexOptionsVs where
  dimensions : ℕ+
  connectivity : ℕ := 16
  expansionAdd : ℕ := 128
  expansionSearch : ℕ := 64
  spaceType : SpaceType := .cosine
  quantization : Quantization := .f32
deriving DecidableEq

/-- The configuration of a full-text index. -/
structure IndexOptionsFts where
  analyzer : Analyzer := .standard
  positions : Bool := true
deriving DecidableEq

/-- The configuration of an index of some kind. -/
inductive IndexOptions where
  | vs (options : IndexOptionsVs)
  | fts (options : IndexOptionsFts)
  | pattern
deriving DecidableEq

/-- The kind that the options are for. -/
def IndexOptions.kind : IndexOptions → IndexKind
  | vs _ => .vs
  | fts _ => .fts
  | pattern => .pattern

/-! ## Metadata -/

/-- The metadata of an index with its table, its version and the options of its kind. -/
structure DiscoveredIndex extends IndexMetadata where
  tableName : String
  /-- The native types of the attributes of an Alternator table that are no real columns. -/
  alternatorAttributeTypes : List (ColumnName × NativeType)
  version : Uuid
  options : IndexOptions
deriving DecidableEq

namespace DiscoveredIndex

/-- `IndexMetadata::key`. -/
def key (metadata : DiscoveredIndex) : IndexKey := metadata.toIndexMetadata.key

/-- The kind of the index. -/
def kind (metadata : DiscoveredIndex) : IndexKind := metadata.options.kind

/-- `discard_version`: the metadata with the nil version. -/
def discardVersion (metadata : DiscoveredIndex) : DiscoveredIndex := { metadata with version := 0 }

end DiscoveredIndex

namespace Sample

/-- A version of an index. -/
def indexVersion (version : Uuid) : DiscoveredIndex where
  keyspaceName := "ks"
  indexName := "idx"
  primaryKeyColumns := ⟨⟨"pk"⟩, []⟩
  partitionKeyCount := Nat.toPNat' 1
  targetColumns := ⟨⟨"v"⟩, []⟩
  partitioning := .global
  filteringColumns := []
  tableName := "table"
  alternatorAttributeTypes := []
  version
  options := .vs { dimensions := Nat.toPNat' 3 }

end Sample

end VectorStore
