import Mathlib.Data.List.Induction
import TronDB.Engine.Isolation
import TronDB.Engine.Interleaving
import TronDB.Engine.VectorIndex

/-! Whether the dense indexes follow the stored vectors. -/
namespace TronDB.Engine
open TronDB.Core Binary Wal

/-! ### The system -/

/-- The statements that write entities, and recomputes that run at the same time. -/
inductive VectorAction where
  | create (env : Env) (p : CreateCollectionPlan)
  | insert (env : Env) (p : InsertPlan)
  | update (env : Env) (p : UpdateEntityPlan)
  | delete (env : Env) (p : DeleteEntityPlan)
  | startRecompute (env : RecomputeEnv)
  | advance (env : RecomputeEnv) (i : Nat)

structure Indexed where
  state : State
  tasks : List Task

def Indexed.start (s : State) : Indexed := ⟨s, []⟩

section Step
variable [WalPayload Payload] (registry : Registry)

def Indexed.step (x : Indexed) : VectorAction → Indexed
  | .create env p => { x with state := (createCollection env x.state p).2 }
  | .insert env p => { x with state := (Engine.insert env x.state p).2 }
  | .update env p => { x with state := (updateEntity env x.state p).2 }
  | .delete env p => { x with state := (deleteEntity env x.state p).2 }
  | .startRecompute env => { x with tasks := x.tasks ++ [x.state.startRecompute env] }
  | .advance env i =>
    match x.tasks[i]? with
    | none => x
    | some task =>
      let (s, task') := Engine.advance (env.with registry) x.state task
      ⟨s, x.tasks.set i task'⟩

end Step

/-- Every dense representation with dimensions has an index. -/
def Covered (s : State) : Prop :=
  ∀ (collection : String) (schema : CollectionSchema),
    s.store.collections[collection]? = some schema → ∀ repr ∈ schema.representations,
      repr.sparse = false → repr.dimensions.isSome = true →
        ∃ h, s.indexes[(collection, repr.name)]? = some h

/-- A search in an index scores the stored entities that have a vector for it by that vector,
and nothing else. -/
structure VectorsFollow (s : State) : Prop where
  indexed : Covered s
  follows : ∀ (key : String × String) (h : HnswIndex), s.indexes[key]? = some h →
    ∀ id v, h.Scores id v ↔ storedVector s.store key.1 id key.2 = some v

/-- An index that has seen the id must find the stored vector unchanged; another one must be
offered the new vector. -/
def Agrees (h : HnswIndex) (id : LogicalId) (offered stored new : Option (List F32)) : Prop :=
  if h.idToIdx.contains id then stored = new else offered = new

/-- The vector a recompute brings to the index of a representation. -/
def Job.offers (job : Job) (y : Encoded) (reprName : String) : Option (List F32) :=
  match y.vector with
  | .dense v => if reprName = job.stored.name then some v else none
  | .sparse _ => none

/-- An INSERT of an id that an index of the collection has ever seen brings the vector stored
for it now. A recompute that writes back its copy of an entity finds, for every index that has
seen the id, the stored vector in the copy, and brings every other index its vector. -/
def KeepsVectors (x : Indexed) : VectorAction → Prop
  | .insert env p => ∀ schema e, x.state.schemas[p.collection]? = some schema →
      checkVectors schema p.collection p.vectors = .ok () →
      buildEntity env schema p (p.target env) = .ok e →
      ∀ reprName (h : HnswIndex), x.state.indexes[(p.collection, reprName)]? = some h →
        h.idToIdx.contains (p.target env) = true →
          storedVector x.state.store p.collection (p.target env) reprName = vectorFor e reprName
  | .advance env i => ∀ job y encoded later rest,
      x.tasks[i]? = some (.writing job (y :: encoded) later rest) →
      x.state.store.hasCollection job.collection = true →
      ∀ reprName (h : HnswIndex), x.state.indexes[(job.collection, reprName)]? = some h →
        Agrees h y.entity.id (job.offers y reprName)
          (storedVector x.state.store job.collection y.entity.id reprName)
          (vectorFor (job.refreshed env.toEnv y) reprName)
  | _ => True

/-! ### Putting an entity -/

/-- What the indexes hold of each id is what the store has for it. -/
def SlotsFollow (s : State) : Prop :=
  ∀ (key : String × String) (h : HnswIndex), s.indexes[key]? = some h →
    ∀ id, (h.slot id).current = storedVector s.store key.1 id key.2

theorem scores_follow_iff {s : State} (ok : IndexesOk s.indexes) :
    (∀ (key : String × String) (h : HnswIndex), s.indexes[key]? = some h →
      ∀ id v, h.Scores id v ↔ storedVector s.store key.1 id key.2 = some v) ↔ SlotsFollow s := by
  refine forall₃_congr fun key h found => ?_
  exact HnswIndex.scores_stored_iff (ok key h found) fun id => storedVector s.store key.1 id key.2

theorem agrees_iff {h : HnswIndex} {id : LogicalId} {offered stored new : Option (List F32)}
    (wf : h.WellFormed) (follows : (h.slot id).current = stored) :
    ((h.offer id offered).slot id).current = new ↔ Agrees h id offered stored new := by
  rw [HnswIndex.slot_offer wf, if_pos rfl, Agrees]
  have known := HnswIndex.contains_iff_slot h id
  cases slot : h.slot id with
  | unseen =>
    have unseen : ¬ h.idToIdx.contains id = true := fun there => known.mp there slot
    rw [if_neg unseen]
    cases offered <;> rfl
  | live v =>
    have seen : h.idToIdx.contains id = true := known.mpr (by simp [slot])
    rw [if_pos seen, ← follows, slot]
    cases offered <;> rfl
  | buried =>
    have seen : h.idToIdx.contains id = true := known.mpr (by simp [slot])
    rw [if_pos seen, ← follows, slot]
    cases offered <;> rfl

/-- An entity put while its vectors are offered to the indexes of its collection. -/
structure Offered (s s' : State) (collection : String) (e : Entity)
    (offered : String → Option (List F32)) : Prop where
  entities : s'.store.entities = s.store.entities.insert (collection, e.id) e
  indexes : ∀ key : String × String, s'.indexes[key]? =
    if key.1 = collection then s.indexes[key]?.map fun h => h.offer e.id (offered key.2)
    else s.indexes[key]?

namespace Offered

variable {s s' : State} {collection : String} {e : Entity} {offered : String → Option (List F32)}

theorem indexesOk (put : Offered s s' collection e offered) (ok : IndexesOk s.indexes) :
    IndexesOk s'.indexes := by
  intro key h found
  rw [put.indexes] at found
  split at found
  · obtain ⟨before, there, rfl⟩ := Option.map_eq_some_iff.mp found
    exact HnswIndex.wellFormed_offer (ok key before there) _ _
  · exact ok key h found

theorem stored (put : Offered s s' collection e offered) (key : String × String) (id : LogicalId) :
    storedVector s'.store key.1 id key.2 =
      if collection = key.1 ∧ e.id = id then vectorFor e key.2
      else storedVector s.store key.1 id key.2 := by
  unfold storedVector
  rw [put.entities, FinMap.get_insert]
  by_cases here : collection = key.1 ∧ e.id = id
  · rw [if_pos here, if_pos (Prod.ext here.1 here.2), Option.bind_some]
  · rw [if_neg here, if_neg fun same => here ⟨(Prod.mk.inj same).1, (Prod.mk.inj same).2⟩]

/-- The indexes follow afterwards iff every offer agrees. -/
theorem slots_follow_iff (put : Offered s s' collection e offered) (ok : IndexesOk s.indexes)
    (before : SlotsFollow s) : SlotsFollow s' ↔
    ∀ reprName (h : HnswIndex), s.indexes[(collection, reprName)]? = some h →
      Agrees h e.id (offered reprName) (storedVector s.store collection e.id reprName)
        (vectorFor e reprName) := by
  constructor
  · intro after reprName h found
    have now : s'.indexes[(collection, reprName)]? = some (h.offer e.id (offered reprName)) := by
      rw [put.indexes, if_pos rfl, found]
      rfl
    have here := after _ _ now e.id
    rw [put.stored, if_pos ⟨rfl, rfl⟩] at here
    exact (agrees_iff (ok _ h found) (before _ h found e.id)).mp here
  · intro agrees key h found id
    rw [put.indexes] at found
    rw [put.stored]
    split at found
    · rename_i own
      obtain ⟨old, there, rfl⟩ := Option.map_eq_some_iff.mp found
      have wf := ok key old there
      by_cases this : e.id = id
      · subst this
        have key_ : (collection, key.2) = key := Prod.ext own.symm rfl
        rw [if_pos ⟨own.symm, rfl⟩]
        exact (agrees_iff wf (own ▸ before key old there e.id)).mpr
          (agrees key.2 old (key_ ▸ there))
      · rw [HnswIndex.slot_offer wf, if_neg this, if_neg fun both => this both.2]
        exact before key old there id
    · rename_i other
      rw [if_neg fun both => other both.1.symm]
      exact before key h found id

end Offered

/-! ### The statements -/

/-- Neither the indexes nor the stored vectors differ. -/
structure SameVectors (s s' : State) : Prop where
  indexes : s'.indexes = s.indexes
  stored : ∀ collection id reprName,
    storedVector s'.store collection id reprName = storedVector s.store collection id reprName

theorem SameVectors.of_entities {s s' : State} (indexes : s'.indexes = s.indexes)
    (entities : s'.store.entities = s.store.entities) : SameVectors s s' :=
  ⟨indexes, fun _ _ _ => by rw [storedVector, entities]; rfl⟩

/-- Entities are stored in collections that are there. -/
def Housed (store : Store) : Prop :=
  ∀ (collection : String) (id : LogicalId) (e : Entity),
    store.entities[(collection, id)]? = some e → store.hasCollection collection = true

theorem Housed.absent {store : Store} {collection : String} (housed : Housed store)
    (absent : store.hasCollection collection = false) (id : LogicalId) :
    store.entities[(collection, id)]? = none := by
  cases stored : store.entities[(collection, id)]? with
  | none => rfl
  | some e => cases absent.symm.trans (housed collection id e stored)

theorem Housed.same {store store' : Store} (housed : Housed store)
    (entities : store'.entities = store.entities) (collections : store'.collections = store.collections) :
    Housed store' := by
  intro collection id e there
  rw [entities] at there
  rw [Store.hasCollection, collections]
  exact housed collection id e there

theorem Housed.put {store store' : Store} (housed : Housed store) {collection : String} {e : Entity}
    (present : store.hasCollection collection = true)
    (entities : store'.entities = store.entities.insert (collection, e.id) e)
    (collections : store'.collections = store.collections) : Housed store' := by
  intro other id e' there
  rw [entities, FinMap.get_insert] at there
  rw [Store.hasCollection, collections]
  split at there
  · rename_i same
    rw [← (Prod.mk.inj same).1]
    exact present
  · exact housed other id e' there

section Statements
variable [WalPayload Payload] {s : State}

theorem insert_vectors (env : Env) (s : State) (p : InsertPlan) :
    (SameVectors s (insert env s p).2 ∧ (insert env s p).2.store.entities = s.store.entities ∧
        ∀ schema e, s.schemas[p.collection]? = some schema →
          checkVectors schema p.collection p.vectors = .ok () →
          buildEntity env schema p (p.target env) = .ok e → s.store.hasCollection p.collection = false) ∨
      ∃ schema e, s.schemas[p.collection]? = some schema ∧
        checkVectors schema p.collection p.vectors = .ok () ∧
        buildEntity env schema p (p.target env) = .ok e ∧ e.id = p.target env ∧
        s.store.hasCollection p.collection = true ∧
        Offered s (insert env s p).2 p.collection { e with txTime := s.wal.nextTx } (vectorFor e) := by
  cases insert_ends env s p with
  | refused error rejected result =>
    rw [result]
    exact .inl ⟨.of_entities rfl rfl, rfl, fun schema e known checked => absurd checked (rejected schema known)⟩
  | unbuilt schema error known checked built result =>
    rw [result]
    refine .inl ⟨.of_entities (by simp) (by simp), by simp, fun schema' e known' _ built' => ?_⟩
    cases known.symm.trans known'
    cases built.symm.trans built'
  | unstored schema e known checked built absent result =>
    obtain ⟨error, entries, result⟩ := result
    rw [result]
    exact .inl ⟨.of_entities (by simp [State.logTx]) (by simp [State.logTx]), by simp [State.logTx],
      fun _ _ _ _ _ => absent⟩
  | stored schema e known checked built present wal left =>
    refine .inr ⟨schema, e, known, checked, built, id_of_built built, present, ?_, fun key => ?_⟩
    · rw [left.entities, removeOldEntries_entities]
    · rw [left.indexes, removeOldEntries_indexes, get_insertDense]
      rfl

/-- An UPDATE keeps the indexes, and the representations of the entity it puts. -/
theorem update_representations (env : Env) (s : State) (p : UpdateEntityPlan) :
    (updateEntity env s p).2.indexes = s.indexes ∧
      (updateEntity env s p).2.sparseIndexes = s.sparseIndexes ∧
      ((updateEntity env s p).2.store.entities = s.store.entities ∨
        ∃ old new, s.store.get p.collection p.entityId = .ok old ∧ new.id = p.entityId ∧
          new.representations = old.representations ∧
          (updateEntity env s p).2.store.entities =
            s.store.entities.insert (p.collection, new.id) new) := by
  rw [updateEntity_steps]
  rcases beginUpdate_ends env s p with ⟨e, failed⟩ | ⟨old, entries, found, begun⟩
  · rw [failed]
    exact ⟨rfl, rfl, .inl rfl⟩
  · rw [begun]
    dsimp only
    generalize pending : (⟨p, s.schemas[p.collection]?, old⟩ : PendingUpdate) = u
    have plan : u.plan = p := by rw [← pending]
    have copy : u.old = old := by rw [← pending]
    obtain ⟨present, stored⟩ := (s.store.get_eq_ok ..).mp found
    have own := s.store.keyed _ _ _ stored
    have kept : (s.logTx env.ts p.collection entries).store.hasCollection u.plan.collection =
        true := plan ▸ present
    have entities : (finishUpdate (s.logTx env.ts p.collection entries) u).2.store.entities =
        s.store.entities.insert (p.collection, u.new.id) u.new := by
      obtain ⟨data, -, -⟩ := finishUpdate_put kept
      rw [plan] at data
      exact congrArg Data.entities data
    have indexes : (finishUpdate (s.logTx env.ts p.collection entries) u).2.indexes = s.indexes ∧
        (finishUpdate (s.logTx env.ts p.collection entries) u).2.sparseIndexes = s.sparseIndexes := by
      unfold finishUpdate
      split
      · exact ⟨rfl, rfl⟩
      · dsimp only
        split
        · exact ⟨rfl, rfl⟩
        · unfold State.enqueue
          split <;> exact ⟨rfl, rfl⟩
    refine ⟨indexes.1, indexes.2, .inr ⟨old, u.new, found, ?_, ?_, entities⟩⟩
    · rw [← own, ← copy]
      rfl
    · rw [← copy]
      rfl

theorem update_vectors (env : Env) (s : State) (p : UpdateEntityPlan) (housed : Housed s.store) :
    SameVectors s (updateEntity env s p).2 ∧ Housed (updateEntity env s p).2.store := by
  have same := sameSchemas_updateEntity env s p
  obtain ⟨indexes, -, unchanged | ⟨old, new, found, id_, representations, entities⟩⟩ :=
    update_representations env s p
  · exact ⟨.of_entities indexes unchanged, housed.same unchanged same.collections⟩
  · obtain ⟨present, stored⟩ := (s.store.get_eq_ok ..).mp found
    refine ⟨⟨indexes, fun collection id reprName => ?_⟩, housed.put present entities same.collections⟩
    unfold storedVector
    rw [entities, FinMap.get_insert]
    split
    · rename_i here
      rw [← here, id_, stored]
      simp only [Option.bind_some, vectorFor, representations]
    · rfl

omit [WalPayload Payload] in
theorem get_tombstone (indexes : FinMap (String × String) HnswIndex) (collection : String)
    (id : LogicalId) (key : String × String) : (tombstone indexes collection id)[key]? =
      indexes[key]?.map fun h => if key.1 = collection then h.remove id else h := by
  unfold tombstone
  rw [Std.ExtTreeMap.getElem?_map]

/-- A DELETE leaves the state or buries and erases its entity. -/
theorem delete_vectors (env : Env) (s : State) (p : DeleteEntityPlan) :
    (deleteEntity env s p).2 = s ∨ ∃ old, s.store.get p.collection p.entityId = .ok old ∧
      (deleteEntity env s p).2.indexes = tombstone s.indexes p.collection p.entityId ∧
        (deleteEntity env s p).2.sparseIndexes = removeSparse s.sparseIndexes p.collection old ∧
        (deleteEntity env s p).2.store.entities = s.store.entities.erase (p.collection, p.entityId) := by
  cases found : s.store.get p.collection p.entityId with
  | error e =>
    refine .inl ?_
    unfold deleteEntity
    rw [found]
  | ok old =>
    obtain ⟨r, s', done, -⟩ := deleteEntity_found env found
    have done : deleteEntity env s p = (.ok r, s') := done
    have data := (logs_deleteEntity done).2
    have indexes : s'.indexes = tombstone s.indexes p.collection p.entityId ∧
        s'.sparseIndexes = removeSparse s.sparseIndexes p.collection old := by
      unfold deleteEntity at done
      rw [found] at done
      dsimp only at done
      split at done
      · cases done
      · cases done
        exact ⟨rfl, rfl⟩
    rw [done]
    refine .inr ⟨old, rfl, indexes.1, indexes.2, ?_⟩
    have present : (dataOf s.store).collections.contains p.collection = true := ((s.store.get_eq_ok ..).mp found).1
    have entities := congrArg Data.entities data
    rw [(cascade_rest _ _).2.2, Data.eraseEntity, if_pos present] at entities
    exact entities

omit [WalPayload Payload] in
theorem SameVectors.slotsFollow {s' : State} (same : SameVectors s s') (before : SlotsFollow s) :
    SlotsFollow s' := by
  intro key h found id
  rw [same.indexes] at found
  rw [same.stored]
  exact before key h found id

theorem insert_follow_iff (env : Env) {s : State} (p : InsertPlan) (synced : Synced s)
    (ok : IndexesOk s.indexes) (before : SlotsFollow s) (tasks : List Task) :
    SlotsFollow (insert env s p).2 ↔ KeepsVectors ⟨s, tasks⟩ (.insert env p) := by
  rcases insert_vectors env s p with ⟨same, -, absent⟩ | ⟨schema, e, known, checked, built, own, -, put⟩
  · refine iff_of_true (same.slotsFollow before) fun schema e known checked built => ?_
    have absent := absent schema e known checked built
    have present : s.store.hasCollection p.collection = true := by
      rw [synced.schemas] at known
      exact Store.hasCollection_of_stored known
    cases absent.symm.trans present
  · rw [put.slots_follow_iff ok before]
    constructor
    · intro agrees schema' e' known' _ built' reprName h found seen
      cases known.symm.trans known'
      cases built.symm.trans built'
      have here := agrees reprName h found
      dsimp only at here
      rw [own, Agrees, if_pos seen] at here
      exact here
    · intro keeps reprName h found
      dsimp only
      rw [own]
      unfold Agrees
      split
      · rename_i seen
        exact keeps schema e known checked built reprName h found seen
      · rfl

theorem delete_follow (env : Env) {s : State} (p : DeleteEntityPlan) (before : SlotsFollow s) :
    SlotsFollow (deleteEntity env s p).2 := by
  rcases delete_vectors env s p with same | ⟨-, -, indexes, -, entities⟩
  · rw [same]
    exact before
  · intro key h found id
    rw [indexes, get_tombstone] at found
    obtain ⟨old, there, rfl⟩ := Option.map_eq_some_iff.mp found
    unfold storedVector
    rw [entities, FinMap.get_erase]
    by_cases here : (p.collection, p.entityId) = (key.1, id)
    · obtain ⟨sameCollection, sameId⟩ := Prod.mk.inj here
      rw [if_pos here, if_pos sameCollection.symm, HnswIndex.slot_remove, if_pos sameId,
        Slot.current_bury]
      rfl
    · rw [if_neg here]
      have kept := before key old there id
      split
      · rename_i own
        have other : p.entityId ≠ id := fun same => here (Prod.ext own.symm same)
        rw [HnswIndex.slot_remove, if_neg other]
        exact kept
      · exact kept

omit [WalPayload Payload] in
/-- Where each representation that needs an index gets one under its name, a key is that of such a
representation, or has what it had. -/
theorem opened_cases {V : Type} (name : String) (made : StoredRepresentation → Option V)
    {step : FinMap (String × String) V → StoredRepresentation → FinMap (String × String) V}
    {m m' : FinMap (String × String) V} {reprs : List StoredRepresentation}
    (folded : m' = reprs.foldl step m) (skips : ∀ m r, made r = none → step m r = m)
    (opens : ∀ m r v, made r = some v → step m r = m.insert (name, r.name) v)
    (key : String × String) :
    (key.1 = name ∧ ∃ r v, made r = some v ∧ m'[key]? = some v) ∨
      m'[key]? = m[key]? ∧ ∀ r ∈ reprs, (made r).isSome = true → (name, r.name) ≠ key := by
  subst folded
  induction reprs using List.reverseRecOn with
  | nil => exact .inr ⟨rfl, by simp⟩
  | append_singleton rest repr ih =>
    rw [List.foldl_append, List.foldl_cons, List.foldl_nil]
    simp only [List.forall_mem_append, List.forall_mem_singleton]
    cases own : made repr with
    | none =>
      rw [skips _ _ own]
      exact ih.imp_right fun both => ⟨both.1, both.2, nofun⟩
    | some v =>
      rw [opens _ _ v own, FinMap.get_insert]
      by_cases this : (name, repr.name) = key
      · rw [if_pos this]
        exact .inl ⟨this ▸ rfl, repr, v, own, rfl⟩
      · rw [if_neg this]
        exact ih.imp_right fun both => ⟨both.1, both.2, fun _ => this⟩

omit [WalPayload Payload] in
theorem openDense_cases (schema : CollectionSchema) (indexes : FinMap (String × String) HnswIndex)
    (key : String × String) :
    (key.1 = schema.name ∧ ∃ dims, (openDense indexes schema)[key]? = some (.new dims)) ∨
      (openDense indexes schema)[key]? = indexes[key]? ∧
        ∀ repr ∈ schema.representations, repr.sparse = false → repr.dimensions.isSome = true →
          (schema.name, repr.name) ≠ key := by
  refine (opened_cases schema.name (fun r => if r.sparse then none else r.dimensions.map HnswIndex.new)
    (show openDense indexes schema = _ from rfl) ?_ ?_ key).imp ?_ ?_
  · intro m r
    cases r.sparse <;> cases r.dimensions <;> simp
  · intro m r v
    cases r.sparse <;> cases r.dimensions <;> simp +contextual
  · rintro ⟨own, r, v, made, found⟩
    cases dense : r.sparse with
    | true => simp [dense] at made
    | false =>
      obtain ⟨dims, -, rfl⟩ : ∃ dims, r.dimensions = some dims ∧ HnswIndex.new dims = v := by
        simpa [dense] using made
      exact ⟨own, dims, found⟩
  · rintro ⟨same, others⟩
    exact ⟨same, fun r there dense dims => others r there (by simpa [dense] using dims)⟩

/-- A CREATE leaves the vectors or opens the indexes of a collection that was not there. -/
theorem create_vectors (env : Env) (s : State) (p : CreateCollectionPlan) :
    (SameVectors s (createCollection env s p).2 ∧ SameSchemas s (createCollection env s p).2 ∧
        (createCollection env s p).2.sparseIndexes = s.sparseIndexes ∧
        (createCollection env s p).2.store.entities = s.store.entities) ∨
      s.store.hasCollection p.name = false ∧
        (createCollection env s p).2.store.entities = s.store.entities ∧
        (createCollection env s p).2.store.collections =
          s.store.collections.insert p.name (buildCollectionSchema p) ∧
        (createCollection env s p).2.schemas = s.schemas.insert p.name (buildCollectionSchema p) ∧
        (createCollection env s p).2.indexes = openDense s.indexes (buildCollectionSchema p) ∧
        (createCollection env s p).2.sparseIndexes =
          openSparse s.sparseIndexes (buildCollectionSchema p) := by
  unfold createCollection Store.createCollectionSchema
  split
  · exact .inl ⟨.of_entities rfl rfl, .refl s, rfl, rfl⟩
  · dsimp only [State.logTx]
    split
    · exact .inl ⟨.of_entities rfl rfl, ⟨rfl, rfl, rfl, rfl⟩, rfl, rfl⟩
    · rename_i store created
      split at created
      · cases created
      · rename_i absent
        cases created
        exact .inr ⟨Bool.eq_false_iff.mpr absent, rfl, rfl, rfl, rfl, rfl⟩

theorem create_follow (env : Env) {s : State} (p : CreateCollectionPlan) (housed : Housed s.store)
    (before : SlotsFollow s) : SlotsFollow (createCollection env s p).2 := by
  rcases create_vectors env s p with ⟨same, -, -, -⟩ | ⟨absent, entities, -, -, indexes, -⟩
  · exact same.slotsFollow before
  · intro key h found id
    unfold storedVector
    rw [entities]
    rw [indexes] at found
    rcases openDense_cases (buildCollectionSchema p) s.indexes key with
      ⟨own, dims, opened⟩ | ⟨same, -⟩
    · cases found.symm.trans opened
      rw [HnswIndex.slot_new, housed.absent (own ▸ absent) id]
      rfl
    · exact before key h (same.symm.trans found) id

end Statements

/-! ### Recomputes -/

section Recomputes
variable [WalPayload Payload] {registry : Registry}

/-- A write-back leaves the vectors or puts its copy. -/
theorem writeBack_vectors (job : Job) (env : Env) (s : State) {y : Encoded}
    (own : y.key.1 = y.entity.id) :
    (s.store.hasCollection job.collection = false ∧ SameVectors s (job.writeBack env s y).2 ∧
        (job.writeBack env s y).2.store = s.store) ∨
      s.store.hasCollection job.collection = true ∧
        (job.writeBack env s y).2.store = s.store.putEntity job.collection (job.refreshed env y) ∧
        Offered s (job.writeBack env s y).2 job.collection (job.refreshed env y) (job.offers y) := by
  cases present : s.store.hasCollection job.collection with
  | false =>
    obtain ⟨e, failed⟩ := writeBack_absent job env y present
    rw [failed]
    exact .inl ⟨rfl, .of_entities rfl rfl, rfl⟩
  | true =>
    have store := (writeBack_put job env y present).1
    refine .inr ⟨rfl, store, ⟨by rw [store]; rfl, fun key => ?_⟩⟩
    have kept : (s.logTx env.ts job.collection
        [(.reprWrite, .entity (job.refreshed env y))]).store.hasCollection job.collection = true := present
    have id_ : (job.refreshed env y).id = y.key.1 := own.symm
    unfold Job.writeBack Store.insert
    simp only [kept, if_true, id_]
    cases vector : y.vector with
    | dense v =>
      have indexes : (FinMap.adjust s.indexes (job.collection, job.stored.name) fun idx =>
          idx.insert y.key.1 v)[key]? =
          if key.1 = job.collection then s.indexes[key]?.map fun h => h.offer y.key.1 (job.offers y key.2)
          else s.indexes[key]? := by
        rw [FinMap.get_adjust]
        simp only [Job.offers, vector]
        by_cases here : (job.collection, job.stored.name) = key
        · subst here
          rw [if_pos rfl, if_pos rfl]
          simp only [if_true]
          rfl
        · rw [if_neg here]
          split
          · rename_i same
            rw [if_neg fun name => here (Prod.ext same.symm name.symm)]
            exact Option.map_id'.symm
          · rfl
      dsimp only [State.logTx]
      cases s.location.transition y.key .clean <;> exact indexes
    | sparse sv =>
      have indexes : s.indexes[key]? =
          if key.1 = job.collection then s.indexes[key]?.map fun h => h.offer y.key.1 (job.offers y key.2)
          else s.indexes[key]? := by
        simp only [Job.offers, vector]
        split
        · exact Option.map_id'.symm
        · rfl
      dsimp only [State.logTx]
      cases s.location.transition y.key .clean <;> exact indexes

omit [WalPayload Payload] in
theorem startJobs_indexes (s : State) (rest : List Group) (jobs : List Job) :
    (startJobs s rest jobs).1.indexes = s.indexes ∧
      (startJobs s rest jobs).1.sparseIndexes = s.sparseIndexes := by
  cases jobs <;> exact ⟨rfl, rfl⟩

theorem advance_indexes (env : RecomputeEnv) (s : State) (task : Task)
    (quiet : ∀ job y encoded later rest, task ≠ .writing job (y :: encoded) later rest) :
    (advance env s task).1.indexes = s.indexes ∧
      (advance env s task).1.sparseIndexes = s.sparseIndexes := by
  cases task with
  | groups rest =>
    cases rest with
    | nil => exact ⟨rfl, rfl⟩
    | cons group rest => exact startJobs_indexes s rest _
  | encoding job later rest =>
    simp only [advance]
    split
    · exact startJobs_indexes s rest later
    · exact ⟨rfl, rfl⟩
  | writing job encoded later rest =>
    cases encoded with
    | nil => exact startJobs_indexes s rest later
    | cons y encoded => exact absurd rfl (quiet job y encoded later rest)
  | failed e => exact ⟨rfl, rfl⟩

/-- A step of a recompute leaves the vectors or puts the copy it writes back. -/
theorem advance_vectors (env : RecomputeEnv) (s : State) {task : Task}
    (ok : TaskOk registry s.schemas task) :
    (SameVectors s (advance env s task).1 ∧ (advance env s task).1.store = s.store ∧
        ∀ job y encoded later rest, task = .writing job (y :: encoded) later rest →
          s.store.hasCollection job.collection = false) ∨
      ∃ job y encoded later rest, task = .writing job (y :: encoded) later rest ∧
        s.store.hasCollection job.collection = true ∧
        (advance env s task).1.store =
          s.store.putEntity job.collection (job.refreshed env.toEnv y) ∧
        Offered s (advance env s task).1 job.collection (job.refreshed env.toEnv y)
          (job.offers y) := by
  by_cases writes : ∃ job y encoded later rest, task = .writing job (y :: encoded) later rest
  · obtain ⟨job, y, encoded, later, rest, rfl⟩ := writes
    have own : y.key.1 = y.entity.id := by
      rw [(ok.2.1 y (List.mem_cons_self ..)).1]
    rw [advance_write]
    rcases writeBack_vectors job env.toEnv s own with ⟨absent, same, store⟩ | ⟨present, store, put⟩
    · refine .inl ⟨same, store, fun job' y' encoded' later' rest' this => ?_⟩
      cases this
      exact absent
    · exact .inr ⟨job, y, encoded, later, rest, rfl, present, store, put⟩
  · have quiet : ∀ job y encoded later rest, task ≠ .writing job (y :: encoded) later rest :=
      fun job y encoded later rest same => writes ⟨job, y, encoded, later, rest, same⟩
    have store := (advance_quiet env s task quiet).1
    refine .inl ⟨.of_entities (advance_indexes env s task quiet).1 (by rw [store]), store,
      fun job y encoded later rest same => absurd same (quiet job y encoded later rest)⟩

/-! ### Runs -/

/-- What every action preserves, whether or not it keeps the vectors. -/
structure Vectored (registry : Registry) (x : Indexed) : Prop where
  synced : Synced x.state
  housed : Housed x.state.store
  ok : IndexesOk x.state.indexes
  covered : Covered x.state
  tasks : ∀ task ∈ x.tasks, TaskOk registry x.state.schemas task

section Carried
omit [WalPayload Payload]

theorem follow_iff {x : Indexed} (inv : Vectored registry x) :
    VectorsFollow x.state ↔ SlotsFollow x.state :=
  ⟨fun follow => (scores_follow_iff inv.ok).mp follow.follows,
    fun slots => ⟨inv.covered, (scores_follow_iff inv.ok).mpr slots⟩⟩

theorem Covered.mapped {s s' : State} (covered : Covered s)
    (collections : s'.store.collections = s.store.collections)
    (kept : ∀ (key : String × String) (h : HnswIndex), s.indexes[key]? = some h →
      ∃ h', s'.indexes[key]? = some h') : Covered s' := by
  intro collection schema known repr there dense dims
  rw [collections] at known
  obtain ⟨h, found⟩ := covered collection schema known repr there dense dims
  exact kept _ h found

theorem Offered.kept {s s' : State} {collection : String} {e : Entity}
    {offered : String → Option (List F32)} (put : Offered s s' collection e offered)
    (key : String × String) (h : HnswIndex) (found : s.indexes[key]? = some h) :
    ∃ h', s'.indexes[key]? = some h' := by
  rw [put.indexes, found]
  split
  · exact ⟨_, rfl⟩
  · exact ⟨h, rfl⟩

theorem TaskOk.more {schemas schemas' : FinMap String CollectionSchema}
    (more : ∀ (name : String) (schema : CollectionSchema),
      schemas[name]? = some schema → schemas'[name]? = some schema)
    {task : Task} (ok : TaskOk registry schemas task) : TaskOk registry schemas' task := by
  have job {j : Job} (ok : JobOk registry schemas j) : JobOk registry schemas' j := by
    obtain ⟨⟨schema, known, there⟩, vectoriser, entries⟩ := ok
    exact ⟨⟨schema, more _ _ known, there⟩, vectoriser, entries⟩
  cases task with
  | groups rest => exact ok
  | encoding j later rest => exact ⟨job ok.1, fun j' there => job (ok.2.1 j' there), ok.2.2⟩
  | writing j encoded later rest =>
    exact ⟨job ok.1, ok.2.1, fun j' there => job (ok.2.2.1 j' there), ok.2.2.2⟩
  | failed e => trivial

end Carried

theorem vectored_start (config : WalConfig) : Vectored registry (.start (State.init config)) where
  synced := synced_init config
  housed := by simp [Housed, Indexed.start, State.init, Store.empty]
  ok := by simp [IndexesOk, Indexed.start, State.init]
  covered := by simp [Covered, Indexed.start, State.init, Store.empty]
  tasks := by simp [Indexed.start]

omit [WalPayload Payload] in
theorem Vectored.rows {s s' : State} {tasks : List Task} (inv : Vectored registry ⟨s, tasks⟩)
    (same : SameSchemas s s') (housed : Housed s'.store) (ok : IndexesOk s'.indexes)
    (kept : ∀ (key : String × String) (h : HnswIndex), s.indexes[key]? = some h →
      ∃ h', s'.indexes[key]? = some h') : Vectored registry ⟨s', tasks⟩ where
  synced := same.synced inv.synced
  housed := housed
  ok := ok
  covered := inv.covered.mapped same.collections kept
  tasks := by
    dsimp only
    rw [same.schemas]
    exact inv.tasks

theorem vectored_create {s : State} {tasks : List Task} (inv : Vectored registry ⟨s, tasks⟩)
    (env : Env) (p : CreateCollectionPlan) :
    Vectored registry ⟨(createCollection env s p).2, tasks⟩ := by
  rcases create_vectors env s p with ⟨same, schemas, -, entities⟩ |
    ⟨absent, entities, collections, schemas, indexes, -⟩
  · refine inv.rows schemas (inv.housed.same entities schemas.collections) ?_ fun key h found => ?_
    · rw [same.indexes]
      exact inv.ok
    · exact ⟨h, by rw [same.indexes, found]⟩
  · have unknown : s.store.collections[p.name]? = none := by
      rw [Store.hasCollection_eq] at absent
      exact Option.isSome_eq_false_iff.mp absent |> Option.isNone_iff_eq_none.mp
    constructor
    · exact synced_createCollection inv.synced p
    · intro collection id e there
      dsimp only at there ⊢
      rw [entities] at there
      have present := inv.housed collection id e there
      rw [Store.hasCollection, collections, Std.ExtTreeMap.contains_insert]
      exact Bool.or_eq_true_iff.mpr (.inr present)
    · intro key h found
      dsimp only at found
      rw [indexes] at found
      rcases openDense_cases (buildCollectionSchema p) s.indexes key with
        ⟨-, dims, opened⟩ | ⟨same, -⟩
      · cases found.symm.trans opened
        exact HnswIndex.wellFormed_new dims
      · exact inv.ok key h (same.symm.trans found)
    · intro collection schema known repr there dense dims
      dsimp only at known ⊢
      rw [collections, FinMap.get_insert] at known
      rw [indexes]
      rcases openDense_cases (buildCollectionSchema p) s.indexes (collection, repr.name) with
        ⟨-, opened⟩ | ⟨same, others⟩
      · obtain ⟨n, opened⟩ := opened
        exact ⟨_, opened⟩
      · split at known
        · rename_i own
          cases known
          exact absurd (congrArg (·, repr.name) own) (others repr there dense dims)
        · rw [same]
          exact inv.covered collection schema known repr there dense dims
    · intro task there
      dsimp only
      rw [schemas]
      refine (inv.tasks task there).more fun name schema known => ?_
      rw [FinMap.get_insert]
      split
      · rename_i own
        subst own
        rw [inv.synced.schemas, unknown] at known
        cases known
      · exact known

theorem vectored_delete {s : State} {tasks : List Task} (inv : Vectored registry ⟨s, tasks⟩)
    (env : Env) (p : DeleteEntityPlan) : Vectored registry ⟨(deleteEntity env s p).2, tasks⟩ := by
  have same := sameSchemas_deleteEntity env s p
  rcases delete_vectors env s p with unchanged | ⟨-, -, indexes, -, entities⟩
  · rw [unchanged]
    exact inv
  · refine inv.rows same (fun collection id e there => ?_) (fun key h found => ?_) fun key h found => ?_
    · rw [entities, FinMap.get_erase] at there
      rw [Store.hasCollection, same.collections]
      split at there
      · cases there
      · exact inv.housed collection id e there
    · rw [indexes, get_tombstone] at found
      obtain ⟨old, there, rfl⟩ := Option.map_eq_some_iff.mp found
      split
      · exact HnswIndex.wellFormed_remove (inv.ok key old there) p.entityId
      · exact inv.ok key old there
    · rw [indexes, get_tombstone, found]
      exact ⟨_, rfl⟩

omit [WalPayload Payload] in
theorem startJobs_edgeTypes (s : State) (rest : List Group) (jobs : List Job) :
    (startJobs s rest jobs).1.edgeTypes = s.edgeTypes := by
  cases jobs <;> rfl

theorem writeBack_edgeTypes (job : Job) (env : Env) (s : State) (y : Encoded) :
    (job.writeBack env s y).2.edgeTypes = s.edgeTypes := by
  unfold Job.writeBack
  dsimp only
  split
  · rfl
  · cases y.vector <;> dsimp only <;> split <;> rfl

theorem advance_edgeTypes (env : RecomputeEnv) (s : State) (task : Task) :
    (advance env s task).1.edgeTypes = s.edgeTypes := by
  cases task with
  | groups rest =>
    cases rest with
    | nil => rfl
    | cons group rest => exact startJobs_edgeTypes s rest _
  | encoding job later rest =>
    simp only [advance]
    split
    · exact startJobs_edgeTypes s rest later
    · rfl
  | writing job encoded later rest =>
    cases encoded with
    | nil => exact startJobs_edgeTypes s rest later
    | cons y encoded =>
      rw [advance_write]
      exact writeBack_edgeTypes job env.toEnv s y
  | failed e => rfl

theorem vectored_advance {x : Indexed} (inv : Vectored registry x) (env : RecomputeEnv)
    {i : Nat} {task : Task} (running : x.tasks[i]? = some task) :
    Vectored registry ⟨(advance (env.with registry) x.state task).1,
      x.tasks.set i (advance (env.with registry) x.state task).2⟩ := by
  have ok := inv.tasks task (List.mem_of_getElem? running)
  have tasks : ∀ t ∈ x.tasks.set i (advance (env.with registry) x.state task).2,
      TaskOk registry x.state.schemas t := by
    intro t there
    rcases List.mem_or_eq_of_mem_set there with there | rfl
    · exact inv.tasks t there
    · exact taskOk_advance registry env x.state ok
  have before : Vectored registry ⟨x.state, x.tasks.set i (advance (env.with registry) x.state task).2⟩ :=
    ⟨inv.synced, inv.housed, inv.ok, inv.covered, tasks⟩
  have schemas := advance_schemas (env.with registry) x.state task
  have edgeTypes := advance_edgeTypes (env.with registry) x.state task
  rcases advance_vectors (env.with registry) x.state ok with ⟨same, store, -⟩ |
    ⟨job, y, encoded, later, rest, -, present, store, put⟩
  · refine before.rows ⟨schemas, edgeTypes, by rw [store], by rw [store]⟩ ?_ ?_ fun key h found => ?_
    · rw [store]
      exact inv.housed
    · rw [same.indexes]
      exact inv.ok
    · exact ⟨h, by rw [same.indexes, found]⟩
  · refine before.rows ⟨schemas, edgeTypes, by rw [store]; rfl, by rw [store]; rfl⟩ ?_ ?_ put.kept
    · exact inv.housed.put present put.entities (by rw [store]; rfl)
    · exact put.indexesOk inv.ok

theorem vectored_step {x : Indexed} (inv : Vectored registry x) (a : VectorAction) :
    Vectored registry (x.step registry a) := by
  cases a with
  | create env p => exact vectored_create inv env p
  | insert env p =>
    have same := sameSchemas_insert env x.state p
    rcases insert_vectors env x.state p with ⟨unchanged, entities, -⟩ |
      ⟨schema, e, -, -, -, -, present, put⟩
    · refine inv.rows same (inv.housed.same entities same.collections) ?_ fun key h found => ?_
      · rw [unchanged.indexes]
        exact inv.ok
      · exact ⟨h, by rw [unchanged.indexes, found]⟩
    · exact inv.rows same (inv.housed.put present put.entities same.collections)
        (put.indexesOk inv.ok) put.kept
  | update env p =>
    obtain ⟨unchanged, housed⟩ := update_vectors env x.state p inv.housed
    refine inv.rows (sameSchemas_updateEntity env x.state p) housed ?_ fun key h found => ?_
    · rw [unchanged.indexes]
      exact inv.ok
    · exact ⟨h, by rw [unchanged.indexes, found]⟩
  | delete env p => exact vectored_delete inv env p
  | startRecompute env =>
    refine ⟨inv.synced, inv.housed, inv.ok, inv.covered, fun task there => ?_⟩
    rcases List.mem_append.mp there with there | there
    · exact inv.tasks task there
    · rw [List.mem_singleton] at there
      subst there
      intro group listed
      exact groupsOk_dirty _ _ group ((env.groupOrder.perm _).mem_iff.mp listed)
  | advance env i =>
    simp only [Indexed.step]
    split
    · exact inv
    · rename_i task running
      exact vectored_advance inv env running

theorem advance_follow_iff {x : Indexed} (inv : Vectored registry x) (before : SlotsFollow x.state)
    (env : RecomputeEnv) (i : Nat) : SlotsFollow (x.step registry (.advance env i)).state ↔
      KeepsVectors x (.advance env i) := by
  simp only [Indexed.step]
  split
  · rename_i missing
    refine iff_of_true before fun job y encoded later rest running => ?_
    cases missing.symm.trans running
  · rename_i task running
    have ok := inv.tasks task (List.mem_of_getElem? running)
    rcases advance_vectors (env.with registry) x.state ok with ⟨same, -, absent⟩ |
      ⟨job, y, encoded, later, rest, rfl, present, -, put⟩
    · refine iff_of_true (same.slotsFollow before) fun job y encoded later rest running' here => ?_
      cases running.symm.trans running'
      cases (absent job y encoded later rest rfl).symm.trans here
    · refine (put.slots_follow_iff inv.ok before).trans ?_
      constructor
      · intro agrees job' y' encoded' later' rest' running' _
        cases running.symm.trans running'
        exact agrees
      · intro keeps
        exact keeps job y encoded later rest running present

theorem vectors_follow_step {x : Indexed} (inv : Vectored registry x)
    (before : VectorsFollow x.state) (a : VectorAction) :
    VectorsFollow (x.step registry a).state ↔ KeepsVectors x a := by
  rw [follow_iff (vectored_step inv a)]
  have slots := (follow_iff inv).mp before
  cases a with
  | create env p => exact iff_of_true (create_follow env p inv.housed slots) trivial
  | insert env p => exact insert_follow_iff env p inv.synced inv.ok slots x.tasks
  | update env p => exact iff_of_true ((update_vectors env x.state p inv.housed).1.slotsFollow slots) trivial
  | delete env p => exact iff_of_true (delete_follow env p slots) trivial
  | startRecompute env => exact iff_of_true slots trivial
  | advance env i => exact advance_follow_iff inv slots env i

/-- Along every run of statements and recomputes the dense indexes follow the store iff every
INSERT and every write-back keeps the vectors. -/
theorem vectors_follow_iff (registry : Registry) (config : WalConfig) (as : List VectorAction) :
    (∀ x ∈ Run.visited (Indexed.step registry) (.start (State.init config)) as,
      VectorsFollow x.state) ↔
      ∀ p ∈ Run.taken (Indexed.step registry) (.start (State.init config)) as,
        KeepsVectors p.1 p.2 := by
  have start : Vectored registry (.start (State.init config)) := vectored_start config
  refine Run.good_iff_guarded (Indexed.step registry) (Vectored registry)
    (fun x => VectorsFollow x.state) KeepsVectors as start ?_ (fun _ a inv _ _ => vectored_step inv a)
    fun _ a inv before => vectors_follow_step inv before a
  exact (follow_iff start).mpr (by simp [SlotsFollow, Indexed.start, State.init])

end Recomputes

section Examples
attribute [local instance] headerOnly

def insertVector (bits : UInt64) : VectorAction :=
  .insert .idle ⟨"docs", ["id"], [.string "d"], [("at", .dense [⟨bits⟩])], none, none⟩

/-- An entity is written a second time with another vector. -/
def overwritten : List VectorAction :=
  [.create .idle ⟨"docs", [⟨"at", none, some 1, .cosine, false, []⟩], [], [], none⟩,
    insertVector 0x3FF0000000000000, insertVector 0x4000000000000000]

/-- The index keeps the vector of the first INSERT. -/
theorem overwritten_stays_old : ¬ VectorsFollow
    (overwritten.foldl (Indexed.step fun _ _ => none) (.start (State.init default))).state := by
  intro follow
  have points : ((overwritten.foldl (Indexed.step fun _ _ => none)
      (.start (State.init default))).state.indexes[("docs", "at")]?.map HnswIndex.inner) =
        some [([⟨0x3F800000⟩], 0)] := by decide
  have stored : storedVector (overwritten.foldl (Indexed.step fun _ _ => none)
      (.start (State.init default))).state.store "docs" "d" "at" = some [⟨0x40000000⟩] := by
    decide
  obtain ⟨h, found, inner⟩ := Option.map_eq_some_iff.mp points
  obtain ⟨idx, point, -⟩ := (follow.follows ("docs", "at") h found "d" _).mpr stored
  rw [inner, List.mem_singleton] at point
  exact absurd (Prod.mk.inj point).1 (by decide)

end Examples
end TronDB.Engine
