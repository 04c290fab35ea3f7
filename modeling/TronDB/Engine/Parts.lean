import TronDB.Engine.Performed
import TronDB.Lib.Journal

/-! The stored data as containers: every collection with its entities, every edge type with
its edges. The log is a journal of each of them. -/
namespace TronDB.Engine
open TronDB.Core Wal Journal

def reapply (op : SchemaAlterOp) (schema : CollectionSchema) : CollectionSchema :=
  if alterApplies schema op then alterSchema schema op else schema

def permits (op : SchemaAlterOp) (schema : CollectionSchema) : Prop :=
  alterApplies schema op = true ∨ ∃ fieldName, op = .dropField fieldName

def unaltered (a : Empty) (et : EdgeType) : EdgeType := nomatch a, et

abbrev CollectionOp := Op CollectionSchema LogicalId Entity SchemaAlterOp
abbrev EdgeTypeOp := Op EdgeType String Edge Empty

namespace Data

def collection (d : Data) (name : String) : Container CollectionSchema LogicalId Entity :=
  ⟨d.collections[name]?, fun id => d.entities[(name, id)]?⟩

def edgeType (d : Data) (name : String) : Container EdgeType String Edge :=
  ⟨d.edgeTypes[name]?, fun key => d.edges[(name, key)]?⟩

/-- Data that belongs to something: no entity without its collection, no edge without its
type, no schema under a name that is not its own. -/
structure Owned (d : Data) : Prop where
  collections : ∀ name, WellFormed (d.collection name)
  edgeTypes : ∀ name, WellFormed (d.edgeType name)
  named : ∀ (name : String) (schema : CollectionSchema),
    d.collections[name]? = some schema → schema.name = name

theorem ext_parts {d d' : Data} (collections : ∀ name, d.collection name = d'.collection name)
    (edgeTypes : ∀ name, d.edgeType name = d'.edgeType name) : d = d' := by
  refine Data.ext (FinMap.ext fun k => ?_) (FinMap.ext fun k => ?_) (FinMap.ext fun k => ?_)
    (FinMap.ext fun k => ?_)
  · exact congrArg Container.header (collections k)
  · exact congrArg Container.header (edgeTypes k)
  · exact congrFun (congrArg Container.items (collections k.1)) k.2
  · exact congrFun (congrArg Container.items (edgeTypes k.1)) k.2

end Data

def collectionOp (name : String) : Logged → Option CollectionOp
  | (_, .schemaCreateColl, .schema schema) =>
    if schema.name = name then some (.create schema) else none
  | (collection, .entityWrite, .entity e) | (collection, .reprWrite, .entity e) =>
    if collection = name then some (.put e.id e) else none
  | (_, .entityDelete, .entityDelete id collection) =>
    if collection = name then some (.erase id) else none
  | (_, .schemaDropColl, .name dropped) => if dropped = name then some .drop else none
  | (_, .schemaAlter, .schemaAlter collection op) =>
    if collection = name then some (.alter op) else none
  | _ => none

def edgeTypeOp (name : String) : Logged → Option EdgeTypeOp
  | (_, .schemaCreateEdgeType, .edgeType et) => if et.name = name then some (.create et) else none
  | (_, .edgeWrite, .edge e) | (_, .edgeConfirm, .edge e) | (_, .edgeConfidenceUpdate, .edge e)
  | (_, .edgeInferred, .edge e) =>
    if e.edgeType = name then some (.put (edgeKey e.fromId e.toId) e) else none
  | (_, .edgeDelete, .edgeDelete edgeType fromId toId) =>
    if edgeType = name then some (.erase (edgeKey fromId toId)) else none
  | (_, .schemaDropEdgeType, .name dropped) => if dropped = name then some .drop else none
  | _ => none

theorem collectionOp_cases {name : String} {l : Logged} {op : CollectionOp}
    (there : collectionOp name l = some op) :
    (∃ filed schema, l = (filed, .schemaCreateColl, .schema schema) ∧ schema.name = name ∧
        op = .create schema) ∨
      (∃ e, (l = (name, .entityWrite, .entity e) ∨ l = (name, .reprWrite, .entity e)) ∧
        op = .put e.id e) ∨
      (∃ filed id, l = (filed, .entityDelete, .entityDelete id name) ∧ op = .erase id) ∨
      (∃ filed, l = (filed, .schemaDropColl, .name name) ∧ op = .drop) ∨
      ∃ filed a, l = (filed, .schemaAlter, .schemaAlter name a) ∧ op = .alter a := by
  unfold collectionOp at there
  split at there
  case h_7 => cases there
  all_goals
    split at there
    · rename_i here
      subst here
      cases there
      simp
    · cases there

theorem edgeTypeOp_cases {name : String} {l : Logged} {op : EdgeTypeOp}
    (there : edgeTypeOp name l = some op) :
    (∃ filed et, l = (filed, .schemaCreateEdgeType, .edgeType et) ∧ et.name = name ∧
        op = .create et) ∨
      (∃ filed t e, (t = .edgeWrite ∨ t = .edgeConfirm ∨ t = .edgeConfidenceUpdate ∨
        t = .edgeInferred) ∧ l = (filed, t, .edge e) ∧ e.edgeType = name ∧
        op = .put (edgeKey e.fromId e.toId) e) ∨
      (∃ filed fromId toId, l = (filed, .edgeDelete, .edgeDelete name fromId toId) ∧
        op = .erase (edgeKey fromId toId)) ∨
      ∃ filed, l = (filed, .schemaDropEdgeType, .name name) ∧ op = .drop := by
  unfold edgeTypeOp at there
  split at there
  case h_8 => cases there
  all_goals
    split at there
    · rename_i here
      subst here
      cases there
      simp
    · cases there

def applyIfAny {H K V A : Type} [DecidableEq K] (change : A → H → H) (c : Container H K V) :
    Option (Op H K V A) → Container H K V
  | some op => apply change c op
  | none => c

/-! ### What an entry does to the parts -/

namespace Data

theorem contains_collection (d : Data) (name : String) :
    d.collections.contains name = (d.collection name).header.isSome :=
  Std.ExtTreeMap.contains_eq_isSome_getElem?

theorem contains_edgeType (d : Data) (name : String) :
    d.edgeTypes.contains name = (d.edgeType name).header.isSome :=
  Std.ExtTreeMap.contains_eq_isSome_getElem?

theorem collection_createCollection (d : Data) (schema : CollectionSchema) (name : String) :
    (d.createCollection schema).collection name =
      applyIfAny reapply (d.collection name)
        (if schema.name = name then some (.create schema) else none) := by
  unfold createCollection
  rw [contains_collection]
  by_cases here : schema.name = name
  · subst here
    rw [if_pos rfl, applyIfAny, apply]
    cases header : (d.collection schema.name).header with
    | some old => exact Container.ext header fun id => rfl
    | none => exact Container.ext (by simp [collection]) fun id => rfl
  · rw [if_neg here]
    split
    · rfl
    · exact Container.ext (by simp [applyIfAny, collection, FinMap.get_insert, here]) fun id => rfl

theorem collection_putEntity (d : Data) (c : String) (e : Entity) (name : String) :
    (d.putEntity c e).collection name =
      applyIfAny reapply (d.collection name) (if c = name then some (.put e.id e) else none) := by
  unfold putEntity
  rw [contains_collection]
  by_cases here : c = name
  · subst here
    rw [if_pos rfl, applyIfAny, apply]
    split
    · refine Container.ext rfl fun id => ?_
      by_cases own : e.id = id
      · simp [collection, own]
      · simp [collection, FinMap.get_insert, own, Ne.symm own]
    · rfl
  · rw [if_neg here]
    split
    · exact Container.ext rfl fun id => by simp [applyIfAny, collection, FinMap.get_insert, here]
    · rfl

theorem collection_eraseEntity {d : Data} (owned : d.Owned) (c : String) (id : LogicalId)
    (name : String) :
    (d.eraseEntity c id).collection name =
      applyIfAny reapply (d.collection name) (if c = name then some (.erase id) else none) := by
  unfold eraseEntity
  rw [contains_collection]
  by_cases here : c = name
  · subst here
    rw [if_pos rfl, applyIfAny, apply]
    split
    · refine Container.ext rfl fun k => ?_
      by_cases own : id = k
      · simp [collection, own]
      · simp [collection, FinMap.get_erase, own, Ne.symm own]
    · rename_i absent
      have nothing := owned.collections c (by simpa using absent)
      rw [nothing]
      exact Container.ext rfl fun k => by by_cases own : k = id <;> simp [Container.empty, own]
  · rw [if_neg here]
    split
    · exact Container.ext rfl fun k => by simp [applyIfAny, collection, FinMap.get_erase, here]
    · rfl

theorem collection_dropCollection {d : Data} (owned : d.Owned) (dropped name : String) :
    (d.dropCollection dropped).collection name =
      applyIfAny reapply (d.collection name) (if dropped = name then some .drop else none) := by
  unfold dropCollection
  rw [contains_collection]
  by_cases here : dropped = name
  · subst here
    rw [if_pos rfl, applyIfAny, apply]
    split
    · exact Container.ext (by simp [collection, Container.empty]) fun id => by
        simp [collection, Container.empty]
    · rename_i absent
      exact owned.collections dropped (by simpa using absent)
  · rw [if_neg here]
    split
    · refine Container.ext (by simp [applyIfAny, collection, FinMap.get_erase, here]) fun id => ?_
      cases found : d.entities[(name, id)]? <;>
        simp [applyIfAny, collection, found, Ne.symm here]
    · rfl

theorem collection_alterCollection {d : Data} (owned : d.Owned) (c : String) (op : SchemaAlterOp)
    (name : String) :
    (d.alterCollection c op).collection name =
      applyIfAny reapply (d.collection name) (if c = name then some (.alter op) else none) := by
  unfold alterCollection
  cases found : d.collections[c]? with
  | none =>
    by_cases here : c = name
    · subst here
      have absent : (d.collection c).header = none := found
      rw [if_pos rfl, applyIfAny, apply, absent]
      exact Container.ext absent fun id => rfl
    · simp [applyIfAny, here]
  | some schema =>
    have own := owned.named c schema found
    dsimp only
    by_cases here : c = name
    · subst here
      have present : (d.collection c).header = some schema := found
      rw [if_pos rfl, applyIfAny, apply, present, Option.map_some, reapply]
      split
      · exact Container.ext (by simp [collection, own]) fun id => rfl
      · exact Container.ext found fun id => rfl
    · rw [if_neg here]
      split
      · exact Container.ext (by simp [applyIfAny, collection, FinMap.get_insert, own, here])
          fun id => rfl
      · rfl

theorem edgeType_createEdgeType (d : Data) (et : EdgeType) (name : String) :
    (d.createEdgeType et).edgeType name =
      applyIfAny unaltered (d.edgeType name)
        (if et.name = name then some (.create et) else none) := by
  unfold createEdgeType
  rw [contains_edgeType]
  by_cases here : et.name = name
  · subst here
    rw [if_pos rfl, applyIfAny, apply]
    cases header : (d.edgeType et.name).header with
    | some old => exact Container.ext header fun id => rfl
    | none => exact Container.ext (by simp [edgeType]) fun id => rfl
  · rw [if_neg here]
    split
    · rfl
    · exact Container.ext (by simp [applyIfAny, edgeType, FinMap.get_insert, here]) fun id => rfl

theorem edgeType_putEdge (d : Data) (e : Edge) (name : String) :
    (d.putEdge e).edgeType name =
      applyIfAny unaltered (d.edgeType name)
        (if e.edgeType = name then some (.put (edgeKey e.fromId e.toId) e) else none) := by
  unfold putEdge
  rw [contains_edgeType]
  by_cases here : e.edgeType = name
  · subst here
    rw [if_pos rfl, applyIfAny, apply]
    split
    · refine Container.ext rfl fun k => ?_
      by_cases own : edgeKey e.fromId e.toId = k
      · simp [edgeType, own]
      · simp [edgeType, FinMap.get_insert, own, Ne.symm own]
    · rfl
  · rw [if_neg here]
    split
    · exact Container.ext rfl fun k => by simp [applyIfAny, edgeType, FinMap.get_insert, here]
    · rfl

theorem edgeType_eraseEdge (d : Data) (t fromId toId name : String) :
    (d.eraseEdge t fromId toId).edgeType name =
      applyIfAny unaltered (d.edgeType name)
        (if t = name then some (.erase (edgeKey fromId toId)) else none) := by
  unfold eraseEdge
  refine Container.ext (by split <;> rfl) fun k => ?_
  by_cases here : t = name
  · by_cases own : edgeKey fromId toId = k
    · simp [applyIfAny, apply, edgeType, here, own]
    · simp [applyIfAny, apply, edgeType, FinMap.get_erase, here, own, Ne.symm own]
  · simp [applyIfAny, edgeType, FinMap.get_erase, here]

theorem edgeType_dropEdgeType {d : Data} (owned : d.Owned) (dropped name : String) :
    (d.dropEdgeType dropped).edgeType name =
      applyIfAny unaltered (d.edgeType name) (if dropped = name then some .drop else none) := by
  unfold dropEdgeType
  rw [contains_edgeType]
  by_cases here : dropped = name
  · subst here
    rw [if_pos rfl, applyIfAny, apply]
    split
    · exact Container.ext (by simp [edgeType, Container.empty]) fun id => by
        simp [edgeType, Container.empty]
    · rename_i absent
      exact owned.edgeTypes dropped (by simpa using absent)
  · rw [if_neg here]
    split
    · refine Container.ext (by simp [applyIfAny, edgeType, FinMap.get_erase, here]) fun k => ?_
      cases found : d.edges[(name, k)]? <;>
        simp [applyIfAny, edgeType, found, Ne.symm here]
    · rfl

/-! The other operations leave a part alone. -/

theorem collection_createEdgeType (d : Data) (et : EdgeType) (name : String) :
    (d.createEdgeType et).collection name = d.collection name := by
  unfold createEdgeType
  split <;> rfl

theorem collection_putEdge (d : Data) (e : Edge) (name : String) :
    (d.putEdge e).collection name = d.collection name := by
  unfold putEdge
  split <;> rfl

theorem collection_dropEdgeType (d : Data) (dropped name : String) :
    (d.dropEdgeType dropped).collection name = d.collection name := by
  unfold dropEdgeType
  split <;> rfl

theorem edgeType_createCollection (d : Data) (schema : CollectionSchema) (name : String) :
    (d.createCollection schema).edgeType name = d.edgeType name := by
  unfold createCollection
  split <;> rfl

theorem edgeType_putEntity (d : Data) (c : String) (e : Entity) (name : String) :
    (d.putEntity c e).edgeType name = d.edgeType name := by
  unfold putEntity
  split <;> rfl

theorem edgeType_eraseEntity (d : Data) (c : String) (id : LogicalId) (name : String) :
    (d.eraseEntity c id).edgeType name = d.edgeType name := by
  unfold eraseEntity
  split <;> rfl

theorem edgeType_dropCollection (d : Data) (dropped name : String) :
    (d.dropCollection dropped).edgeType name = d.edgeType name := by
  unfold dropCollection
  split <;> rfl

theorem edgeType_alterCollection (d : Data) (c : String) (op : SchemaAlterOp) (name : String) :
    (d.alterCollection c op).edgeType name = d.edgeType name := by
  unfold alterCollection
  repeat' split
  all_goals rfl

/-! ### A whole log -/

theorem collection_replay {d : Data} (owned : d.Owned) (l : Logged) (name : String) :
    (d.replay l).collection name = applyIfAny reapply (d.collection name) (collectionOp name l) := by
  obtain ⟨filed, recordType, payload⟩ := l
  cases recordType <;> try rfl
  -- the handled types: only the payload of the type's kind does anything
  all_goals cases payload <;> try rfl
  case schemaCreateColl.schema => exact collection_createCollection _ _ _
  case entityWrite.entity | reprWrite.entity => exact collection_putEntity _ _ _ _
  case entityDelete.entityDelete => exact collection_eraseEntity owned _ _ _
  case schemaCreateEdgeType.edgeType => exact collection_createEdgeType _ _ _
  case edgeWrite.edge | edgeConfirm.edge | edgeConfidenceUpdate.edge | edgeInferred.edge =>
    exact collection_putEdge _ _ _
  case schemaDropColl.name => exact collection_dropCollection owned _ _
  case schemaDropEdgeType.name => exact collection_dropEdgeType _ _ _
  case schemaAlter.schemaAlter => exact collection_alterCollection owned _ _ _

theorem edgeType_replay {d : Data} (owned : d.Owned) (l : Logged) (name : String) :
    (d.replay l).edgeType name = applyIfAny unaltered (d.edgeType name) (edgeTypeOp name l) := by
  obtain ⟨filed, recordType, payload⟩ := l
  cases recordType <;> try rfl
  all_goals cases payload <;> try rfl
  case schemaCreateColl.schema => exact edgeType_createCollection _ _ _
  case entityWrite.entity | reprWrite.entity => exact edgeType_putEntity _ _ _ _
  case entityDelete.entityDelete => exact edgeType_eraseEntity _ _ _ _
  case schemaCreateEdgeType.edgeType => exact edgeType_createEdgeType _ _ _
  case edgeWrite.edge | edgeConfirm.edge | edgeConfidenceUpdate.edge | edgeInferred.edge =>
    exact edgeType_putEdge _ _ _
  case edgeDelete.edgeDelete => exact edgeType_eraseEdge _ _ _ _ _
  case schemaDropColl.name => exact edgeType_dropCollection _ _ _
  case schemaDropEdgeType.name => exact edgeType_dropEdgeType owned _ _
  case schemaAlter.schemaAlter => exact edgeType_alterCollection _ _ _ _

theorem owned_empty : Owned .empty where
  collections _ := by intro _; rfl
  edgeTypes _ := by intro _; rfl
  named := by simp [empty]

theorem owned_replay (d : Data) (owned : d.Owned) (l : Logged) : (d.replay l).Owned where
  collections name := by
    rw [collection_replay owned]
    cases collectionOp name l with
    | none => exact owned.collections name
    | some op => exact wellFormed_apply (owned.collections name) op
  edgeTypes name := by
    rw [edgeType_replay owned]
    cases edgeTypeOp name l with
    | none => exact owned.edgeTypes name
    | some op => exact wellFormed_apply (owned.edgeTypes name) op
  named name schema found := by
    have header : ((d.replay l).collection name).header = some schema := found
    rw [collection_replay owned] at header
    have before : ∀ old, (d.collection name).header = some old → old.name = name := owned.named name
    cases op : collectionOp name l with
    | none =>
      rw [op] at header
      exact before schema header
    | some op' =>
      rw [op] at header
      cases op' with
      | create new =>
        simp only [applyIfAny, apply, Option.or_eq_some_iff, Option.some.injEq] at header
        obtain old | ⟨-, rfl⟩ := header
        · exact before schema old
        · obtain ⟨_, _, -, own, same⟩ | ⟨_, _, same⟩ | ⟨_, _, _, same⟩ | ⟨_, _, same⟩ | ⟨_, _, _, same⟩ :=
            collectionOp_cases op <;> cases same
          exact own
      | drop => simp [applyIfAny, apply, Container.empty] at header
      | alter a =>
        simp only [applyIfAny, apply, Option.map_eq_some_iff] at header
        obtain ⟨old, there, rfl⟩ := header
        rw [← before old there, reapply]
        split
        · exact name_alterSchema old a
        · rfl
      | put id e =>
        rw [applyIfAny, apply] at header
        split at header <;> exact before schema header
      | erase id => exact before schema header

theorem owned_foldl (log : List Logged) {d : Data} (owned : d.Owned) :
    (log.foldl replay d).Owned := by
  induction log generalizing d with
  | nil => exact owned
  | cons l rest ih => exact ih (d.owned_replay owned l)

theorem collection_foldl (name : String) (log : List Logged) {d : Data} (owned : d.Owned) :
    (log.foldl replay d).collection name =
      Journal.replay reapply (d.collection name) (log.filterMap (collectionOp name)) := by
  induction log generalizing d with
  | nil => rfl
  | cons l rest ih =>
    rw [List.foldl_cons, ih (d.owned_replay owned l), collection_replay owned]
    cases op : collectionOp name l with
    | none => rw [List.filterMap_cons_none op]; rfl
    | some op' => rw [List.filterMap_cons_some op]; rfl

theorem edgeType_foldl (name : String) (log : List Logged) {d : Data} (owned : d.Owned) :
    (log.foldl replay d).edgeType name =
      Journal.replay unaltered (d.edgeType name) (log.filterMap (edgeTypeOp name)) := by
  induction log generalizing d with
  | nil => rfl
  | cons l rest ih =>
    rw [List.foldl_cons, ih (d.owned_replay owned l), edgeType_replay owned]
    cases op : edgeTypeOp name l with
    | none => rw [List.filterMap_cons_none op]; rfl
    | some op' => rw [List.filterMap_cons_some op]; rfl

end Data

/-! ### A legal log -/

theorem legal_collectionOp {d : Data} {l : Logged} (legal : Legal d l) {name : String}
    {op : CollectionOp} (there : collectionOp name l = some op) :
    Journal.Legal permits (d.collection name) op := by
  obtain ⟨filed, schema, rfl, rfl, rfl⟩ | ⟨e, rfl | rfl, rfl⟩ | ⟨filed, id, rfl, rfl⟩ |
    ⟨filed, rfl, rfl⟩ | ⟨filed, a, rfl, rfl⟩ := collectionOp_cases there
  · simpa [Journal.Legal, Legal, Data.contains_collection] using legal
  · exact (d.contains_collection name).symm.trans legal
  · exact (d.contains_collection name).symm.trans legal
  · trivial
  · trivial
  · obtain ⟨schema, found, -, permitted⟩ := legal
    exact ⟨schema, found, permitted⟩

theorem legal_edgeTypeOp {d : Data} {l : Logged} (legal : Legal d l) {name : String}
    {op : EdgeTypeOp} (there : edgeTypeOp name l = some op) :
    Journal.Legal (fun _ _ => True) (d.edgeType name) op := by
  obtain ⟨filed, et, rfl, rfl, rfl⟩ | ⟨filed, t, e, writes, rfl, rfl, rfl⟩ |
    ⟨filed, fromId, toId, rfl, rfl⟩ | ⟨filed, rfl, rfl⟩ := edgeTypeOp_cases there
  · simpa [Journal.Legal, Legal, Data.contains_edgeType] using legal
  · refine (d.contains_edgeType e.edgeType).symm.trans ?_
    obtain rfl | rfl | rfl | rfl := writes <;> exact legal
  · trivial
  · trivial

theorem legalAll_collection {log : List Logged} {d : Data} (owned : d.Owned)
    (legal : LegalAll d log) (name : String) :
    Journal.LegalAll reapply permits (d.collection name) (log.filterMap (collectionOp name)) := by
  induction log generalizing d with
  | nil => trivial
  | cons l rest ih =>
    have later := ih (d.owned_replay owned l) legal.2
    rw [Data.collection_replay owned] at later
    cases op : collectionOp name l with
    | none =>
      rw [op] at later
      rwa [List.filterMap_cons_none op]
    | some op' =>
      rw [op] at later
      rw [List.filterMap_cons_some op]
      exact ⟨legal_collectionOp legal.1 op, later⟩

theorem legalAll_edgeType {log : List Logged} {d : Data} (owned : d.Owned)
    (legal : LegalAll d log) (name : String) :
    Journal.LegalAll unaltered (fun _ _ => True) (d.edgeType name)
      (log.filterMap (edgeTypeOp name)) := by
  induction log generalizing d with
  | nil => trivial
  | cons l rest ih =>
    have later := ih (d.owned_replay owned l) legal.2
    rw [Data.edgeType_replay owned] at later
    cases op : edgeTypeOp name l with
    | none =>
      rw [op] at later
      rwa [List.filterMap_cons_none op]
    | some op' =>
      rw [op] at later
      rw [List.filterMap_cons_some op]
      exact ⟨legal_edgeTypeOp legal.1 op, later⟩

end TronDB.Engine
