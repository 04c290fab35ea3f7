import TronDB.Core.Keyspace
import TronDB.Lib.Run

/-! Which cells of the keyspace are whose. -/
namespace TronDB.Core

/-! ### Names -/

def dots (s : String) : Nat := s.toList.count '.'

theorem dots_append (s t : String) : dots (s ++ t) = dots s + dots t := by
  unfold dots
  rw [String.toList_append, List.count_append]

theorem no_dot {s : String} (ident : isIdent s = true) : '.' ∉ s.toList := by
  unfold isIdent at ident
  cases chars : s.toList with
  | nil => exact List.not_mem_nil
  | cons c rest =>
    rw [chars] at ident
    obtain ⟨first, others⟩ := Bool.and_eq_true_iff.mp ident
    intro dot
    rcases List.mem_cons.mp dot with rfl | later
    · revert first
      decide
    · have allowed := List.all_eq_true.mp others '.' later
      revert allowed
      decide

theorem dots_ident {s : String} (ident : isIdent s = true) : dots s = 0 :=
  List.count_eq_zero.mpr (no_dot ident)

theorem dots_index {c i : String} (ident : isIdent c = true) (ident' : isIdent i = true) :
    dots (indexPartitionName c i) = 2 := by
  unfold indexPartitionName
  rw [dots_append, dots_append, dots_ident ident, dots_ident ident']
  rfl

theorem dots_edges {t : String} (ident : isIdent t = true) : dots (edgesPartitionName t) = 1 := by
  unfold edgesPartitionName
  rw [dots_append, dots_ident ident]
  rfl

theorem dots_warm {c : String} (ident : isIdent c = true) : dots (tierPartitionName c .nvme) = 1 := by
  unfold tierPartitionName
  rw [dots_append, dots_ident ident]
  rfl

theorem dots_archive {c : String} (ident : isIdent c = true) :
    dots (tierPartitionName c .archive) = 1 := by
  unfold tierPartitionName
  rw [dots_append, dots_ident ident]
  rfl

theorem append_cancel (s : String) {t u : String} (same : s ++ t = s ++ u) : t = u := by
  have chars := congrArg String.toList same
  rw [String.toList_append, String.toList_append] at chars
  exact String.toList_injective (List.append_cancel_left chars)

theorem before_dot {c c' t t' : String} (ident : isIdent c = true) (ident' : isIdent c' = true)
    (same : c ++ ("." ++ t) = c' ++ ("." ++ t')) : c = c' := by
  have before (c t : String) (ident : isIdent c = true) :
      (c ++ ("." ++ t)).toList.takeWhile (· ≠ '.') = c.toList := by
    rw [String.toList_append, String.toList_append, List.takeWhile_append_of_pos]
    · simp
    · intro a listed
      refine decide_eq_true fun dot => no_dot ident ?_
      rw [← dot]
      exact listed
  refine String.toList_injective ?_
  rw [← before c t ident, ← before c' t' ident', same]

theorem index_collection {c c' i i' : String} (ident : isIdent c = true) (ident' : isIdent c' = true)
    (same : indexPartitionName c i = indexPartitionName c' i') : c = c' := by
  unfold indexPartitionName at same
  have split_ : ".idx." = "." ++ "idx." := rfl
  rw [split_, String.append_assoc, String.append_assoc, String.append_assoc, String.append_assoc] at same
  exact before_dot ident ident' same

theorem head_differs {s t : String} (s' t' : String) {c d : Char} (head : s.toList.head? = some c)
    (head' : t.toList.head? = some d) (differ : c ≠ d) : s ++ s' ≠ t ++ t' := by
  intro same
  have chars := congrArg (fun s => s.toList.head?) same
  rw [String.toList_append, String.toList_append, List.head?_append, List.head?_append, head, head'] at chars
  exact differ (Option.some.inj chars)

theorem collectionKey_injective {c c' : String} (same : collectionKey c = collectionKey c') : c = c' :=
  append_cancel _ (utf8_injective same)

theorem edgeTypeKey_injective {t t' : String} (same : edgeTypeKey t = edgeTypeKey t') : t = t' :=
  append_cancel _ (utf8_injective same)

theorem collection_ne_entity (c : String) (id : LogicalId) : collectionKey c ≠ entityKey id := fun same =>
  head_differs c id (c := 'c') (d := 'e') rfl rfl (by decide) (utf8_injective same)

theorem collection_ne_edgeType (c t : String) : collectionKey c ≠ edgeTypeKey t := fun same =>
  head_differs c t (c := 'c') (d := 'e') rfl rfl (by decide) (utf8_injective same)

theorem edgeType_ne_entity (t : String) (id : LogicalId) : edgeTypeKey t ≠ entityKey id := by
  intro same
  have texts := utf8_injective same
  have edge : edgeTypePrefix = "e" ++ "dge_type:" := rfl
  have entity : entityPrefix = "e" ++ "ntity:" := rfl
  rw [edge, entity, String.append_assoc, String.append_assoc] at texts
  exact head_differs t id (c := 'd') (d := 'n') rfl rfl (by decide) (append_cancel _ texts)

/-! ### Owners -/

/-- What a statement may be about. -/
inductive Subject where
  | collection (name : String)
  | edgeType (name : String)
  deriving DecidableEq, Repr

/-- The cell is the subject's: its record, its entities, its index and tier partitions, its
edges. -/
def Subject.Owns (subject : Subject) (name : String) (key : List UInt8) : Prop :=
  match subject with
  | .collection c =>
    name = metaPartition ∧ key = collectionKey c ∨ (name = c ∧ ∃ id, key = entityKey id) ∨
      (∃ index, isIdent index = true ∧ name = indexPartitionName c index) ∨
      name = tierPartitionName c .nvme ∨ name = tierPartitionName c .archive
  | .edgeType t => name = metaPartition ∧ key = edgeTypeKey t ∨ name = edgesPartitionName t

def Subject.Named : Subject → Prop
  | .collection c => isIdent c = true
  | .edgeType t => isIdent t = true

theorem dots_meta : dots metaPartition = 0 := rfl

theorem collection_unique {c c' : String} (named : isIdent c = true) (named' : isIdent c' = true)
    {name : String} {key : List UInt8} (owns : (Subject.collection c).Owns name key)
    (owns' : (Subject.collection c').Owns name key) : c = c' := by
  have flat := dots_ident named
  have flat' := dots_ident named'
  rcases owns with ⟨rfl, rfl⟩ | ⟨rfl, id, rfl⟩ | ⟨i, ident, rfl⟩ | rfl | rfl
  · rcases owns' with ⟨-, key⟩ | ⟨-, id', key⟩ | ⟨i', ident', same⟩ | same | same
    · exact collectionKey_injective key
    · exact absurd key (collection_ne_entity _ _)
    · exact absurd (congrArg dots same) (by rw [dots_meta, dots_index named' ident']; decide)
    · exact absurd (congrArg dots same) (by rw [dots_meta, dots_warm named']; decide)
    · exact absurd (congrArg dots same) (by rw [dots_meta, dots_archive named']; decide)
  · rcases owns' with ⟨-, key⟩ | ⟨same, id', key⟩ | ⟨i', ident', same⟩ | same | same
    · exact absurd key.symm (collection_ne_entity _ _)
    · exact same
    · exact absurd (congrArg dots same) (by rw [flat, dots_index named' ident']; decide)
    · exact absurd (congrArg dots same) (by rw [flat, dots_warm named']; decide)
    · exact absurd (congrArg dots same) (by rw [flat, dots_archive named']; decide)
  · rcases owns' with ⟨same, key⟩ | ⟨same, id', key⟩ | ⟨i', ident', same⟩ | same | same
    · exact absurd (congrArg dots same) (by rw [dots_meta, dots_index named ident]; decide)
    · exact absurd (congrArg dots same) (by rw [flat', dots_index named ident]; decide)
    · exact index_collection named named' same
    · exact absurd (congrArg dots same) (by rw [dots_warm named', dots_index named ident]; decide)
    · exact absurd (congrArg dots same) (by rw [dots_archive named', dots_index named ident]; decide)
  · rcases owns' with ⟨same, key⟩ | ⟨same, id', key⟩ | ⟨i', ident', same⟩ | same | same
    · exact absurd (congrArg dots same) (by rw [dots_meta, dots_warm named]; decide)
    · exact absurd (congrArg dots same) (by rw [flat', dots_warm named]; decide)
    · exact absurd (congrArg dots same) (by rw [dots_warm named, dots_index named' ident']; decide)
    · exact append_cancel _ same
    · exact absurd same (head_differs c c' (c := 'w') (d := 'a') rfl rfl (by decide))
  · rcases owns' with ⟨same, key⟩ | ⟨same, id', key⟩ | ⟨i', ident', same⟩ | same | same
    · exact absurd (congrArg dots same) (by rw [dots_meta, dots_archive named]; decide)
    · exact absurd (congrArg dots same) (by rw [flat', dots_archive named]; decide)
    · exact absurd (congrArg dots same) (by rw [dots_archive named, dots_index named' ident']; decide)
    · exact absurd same (head_differs c c' (c := 'a') (d := 'w') rfl rfl (by decide))
    · exact append_cancel _ same

theorem collection_or_edgeType {c t : String} (named : isIdent c = true) (named' : isIdent t = true)
    {name : String} {key : List UInt8} (owns : (Subject.collection c).Owns name key) :
    ¬ (Subject.edgeType t).Owns name key := by
  have flat := dots_ident named
  intro owns'
  rcases owns with ⟨rfl, rfl⟩ | ⟨rfl, id, rfl⟩ | ⟨i, ident, rfl⟩ | rfl | rfl
  · rcases owns' with ⟨-, key⟩ | same
    · exact collection_ne_edgeType _ _ key
    · exact absurd (congrArg dots same) (by rw [dots_meta, dots_edges named']; decide)
  · rcases owns' with ⟨-, key⟩ | same
    · exact edgeType_ne_entity _ _ key.symm
    · exact absurd (congrArg dots same) (by rw [flat, dots_edges named']; decide)
  · rcases owns' with ⟨same, -⟩ | same
    · exact absurd (congrArg dots same) (by rw [dots_meta, dots_index named ident]; decide)
    · exact absurd (congrArg dots same) (by rw [dots_index named ident, dots_edges named']; decide)
  · rcases owns' with ⟨same, -⟩ | same
    · exact absurd (congrArg dots same) (by rw [dots_meta, dots_warm named]; decide)
    · exact head_differs c t (c := 'w') (d := 'e') rfl rfl (by decide) same
  · rcases owns' with ⟨same, -⟩ | same
    · exact absurd (congrArg dots same) (by rw [dots_meta, dots_archive named]; decide)
    · exact head_differs c t (c := 'a') (d := 'e') rfl rfl (by decide) same

theorem edgeType_unique {t t' : String} (named : isIdent t = true) (named' : isIdent t' = true)
    {name : String} {key : List UInt8} (owns : (Subject.edgeType t).Owns name key)
    (owns' : (Subject.edgeType t').Owns name key) : t = t' := by
  rcases owns with ⟨rfl, rfl⟩ | rfl
  · rcases owns' with ⟨-, key⟩ | same
    · exact edgeTypeKey_injective key
    · exact absurd (congrArg dots same) (by rw [dots_meta, dots_edges named']; decide)
  · rcases owns' with ⟨same, -⟩ | same
    · exact absurd (congrArg dots same) (by rw [dots_meta, dots_edges named]; decide)
    · exact append_cancel _ same

theorem owner_unique {x y : Subject} (named : x.Named) (named' : y.Named) {name : String}
    {key : List UInt8} (owns : x.Owns name key) (owns' : y.Owns name key) : x = y := by
  cases x with
  | collection c =>
    cases y with
    | collection c' => exact congrArg Subject.collection (collection_unique named named' owns owns')
    | edgeType t => exact absurd owns' (collection_or_edgeType named named' owns)
  | edgeType t =>
    cases y with
    | collection c' => exact absurd owns (collection_or_edgeType named' named owns')
    | edgeType t' => exact congrArg Subject.edgeType (edgeType_unique named named' owns owns')

end TronDB.Core
