import VectorStore.Results.Refinement

/-!
# Messages of a full-text index

`process_operations` turns the operations that a table emits into messages to the actor of the index.
The documents form a multiset: a removal takes away every document of its row identifier.  Messages
of different identifiers commute, and so do two additions and two removals.
-/

namespace VectorStore

/-- The messages that modify a full-text index. -/
inductive FtsModify where
  | addDocument (primaryId : PrimaryId) (document : String)
  | removeDocument (primaryId : PrimaryId)
deriving DecidableEq

namespace FtsModify

/-- The message for an operation.  A full-text index ignores vectors and partitions. -/
def ofOperation : Operation → Option FtsModify
  | .addVector _ _ _ _ | .removePartition _ => none
  | .addDocument primaryId _ document _ => some (.addDocument primaryId document)
  | .removeBeforeAddValue primaryId _ | .removeValue primaryId _ => some (.removeDocument primaryId)

def primaryId : FtsModify → PrimaryId
  | addDocument primaryId _ | removeDocument primaryId => primaryId

def isRemoval : FtsModify → Bool
  | addDocument _ _ => false
  | removeDocument _ => true

/-- An addition and a removal of the same identifier: their order matters. -/
def Conflicts (m n : FtsModify) : Prop :=
  m.primaryId = n.primaryId ∧ m.isRemoval ≠ n.isRemoval

instance (m n : FtsModify) : Decidable (m.Conflicts n) := inferInstanceAs (Decidable (_ ∧ _))

end FtsModify

/-- Documents, each with the identifier of its row. -/
abbrev Documents := Multiset (PrimaryId × String)

namespace Documents

/-- The documents after a message. -/
def apply (documents : Documents) : FtsModify → Documents
  | .addDocument primaryId document => (primaryId, document) ::ₘ documents
  | .removeDocument primaryId => documents.filter fun entry => entry.1 ≠ primaryId

/-- The documents after a list of messages, in order. -/
abbrev replay (documents : Documents) (messages : List FtsModify) : Documents :=
  Machine.run apply documents messages

/-- A removal before or after an addition of another identifier. -/
theorem filter_cons_of_ne (documents : Documents) {p q : PrimaryId} (h : q ≠ p) (document : String) :
    (((q, document) ::ₘ documents).filter fun entry => entry.1 ≠ p) =
      (q, document) ::ₘ documents.filter fun entry => entry.1 ≠ p :=
  Multiset.filter_cons_of_pos documents h

/-- Messages commute unless their order matters. -/
theorem apply_comm (documents : Documents) {m n : FtsModify} (h : ¬m.Conflicts n) :
    (documents.apply m).apply n = (documents.apply n).apply m := by
  cases m with
  | addDocument p document =>
    cases n with
    | addDocument q document' => exact Multiset.cons_swap ..
    | removeDocument q =>
      have hne : p ≠ q := fun heq => h ⟨heq, Bool.false_ne_true⟩
      exact filter_cons_of_ne documents hne document
  | removeDocument p =>
    cases n with
    | addDocument q document =>
      have hne : q ≠ p := fun heq => h ⟨heq.symm, Bool.false_ne_true.symm⟩
      exact (filter_cons_of_ne documents hne document).symm
    | removeDocument q =>
      change Multiset.filter _ (Multiset.filter _ _) = Multiset.filter _ (Multiset.filter _ _)
      rw [Multiset.filter_comm]

/-- A message goes before messages that it does not conflict with. -/
theorem replay_hoist (documents : Documents) {m : FtsModify} {ms : List FtsModify}
    (h : ∀ n ∈ ms, ¬n.Conflicts m) (ns : List FtsModify) :
    documents.replay (ms ++ m :: ns) = (documents.apply m).replay (ms ++ ns) :=
  Machine.run_hoist (fun n hn documents => apply_comm documents (h n hn)) documents ns

end Documents

namespace World

variable [DecimalNormalizer]

/-- The messages to a full-text index that the calls of a run lead to. -/
def documentMessages (w : World) : List Call → List FtsModify
  | [] => []
  | call :: calls =>
    (w.emitted call).filterMap FtsModify.ofOperation ++ (w.step call).documentMessages calls

end World

end VectorStore
