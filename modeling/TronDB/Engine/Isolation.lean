import TronDB.Engine.Adjacency
import TronDB.Engine.Effects
import TronDB.Engine.Replayed

/-! What statements on one collection do to an entity of the same id in another. -/
namespace TronDB.Engine
open TronDB.Core Binary Wal

/-! ### The location table -/

namespace LocationTable

theorem get_register (t : LocationTable) (key : ReprKey) (d : LocationDescriptor) (k : ReprKey) :
    (t.register key d).get k = if key = k then some d else t.get k :=
  FinMap.get_insert _ _ _ _

theorem get_removeEntity (t : LocationTable) (id : LogicalId) (k : ReprKey) :
    (t.removeEntity id).get k =
      if k.1 = id ∧ k.2 ∈ t.entityReprs[id]?.getD [] then none else t.get k := by
  unfold removeEntity get
  dsimp only
  generalize t.entityReprs[id]?.getD [] = indices
  generalize t.descriptors = descriptors
  induction indices generalizing descriptors with
  | nil => simp
  | cons idx rest ih =>
    obtain ⟨id', i⟩ := k
    rw [List.foldl_cons, ih, FinMap.get_erase]
    by_cases own : id' = id
    · subst own
      by_cases here : idx = i
      · subst here
        simp
      · have later : i ∈ idx :: rest ↔ i ∈ rest := by
          rw [List.mem_cons, or_iff_right (Ne.symm here)]
        simp [later, here]
    · have other : ¬ id = id' := fun same => own same.symm
      simp [own, other]

theorem get_removeEntity_other (t : LocationTable) {id : LogicalId} {k : ReprKey}
    (other : k.1 ≠ id) : (t.removeEntity id).get k = t.get k := by
  rw [get_removeEntity, if_neg fun both => other both.1]

def registerAll (t : LocationTable) (entries : List (ReprKey × LocationDescriptor)) :
    LocationTable :=
  entries.foldl (fun t kd => t.register kd.1 kd.2) t

theorem registerAll_descriptors (t : LocationTable) (entries : List (ReprKey × LocationDescriptor)) :
    (t.registerAll entries).descriptors = FinMap.insertAll t.descriptors entries := by
  induction entries generalizing t with
  | nil => rfl
  | cons kd rest ih => exact ih (t.register kd.1 kd.2)

theorem get_registerAll_absent (entries : List (ReprKey × LocationDescriptor)) (t : LocationTable)
    {k : ReprKey} (absent : k ∉ entries.map Prod.fst) : (t.registerAll entries).get k = t.get k := by
  unfold get
  rw [registerAll_descriptors, FinMap.get_insertAll_absent entries _ absent]

theorem get_registerAll (entries : List (ReprKey × LocationDescriptor)) (t : LocationTable)
    (distinct : (entries.map Prod.fst).Nodup) :
    ∀ kd ∈ entries, (t.registerAll entries).get kd.1 = some kd.2 := by
  unfold get
  rw [registerAll_descriptors]
  exact FinMap.get_insertAll entries _ distinct

end LocationTable

theorem locationEntries_distinct (e : Entity) : ((locationEntries e).map Prod.fst).Nodup := by
  have keys : (locationEntries e).map Prod.fst =
      (e.representations.zipIdx.map Prod.snd).map fun i => (e.id, i) := by
    rw [locationEntries, List.map_map, List.map_map]
    rfl
  rw [keys, List.zipIdx_map_snd]
  exact List.Nodup.map (fun i j same => (Prod.mk.inj same).2) List.nodup_range'

theorem registered_same_iff (t : LocationTable) (e : Entity) :
    (∀ i, (t.registerAll (locationEntries e)).get (e.id, i) = t.get (e.id, i)) ↔
      ∀ kd ∈ locationEntries e, t.get kd.1 = some kd.2 := by
  have distinct := locationEntries_distinct e
  constructor
  · intro same kd there
    have own : kd.1 = (e.id, kd.1.2) := by
      obtain ⟨r, -, rfl⟩ := List.mem_map.mp there
      rfl
    have registered := LocationTable.get_registerAll _ t distinct kd there
    rw [own, same, ← own] at registered
    exact registered
  · intro known i
    by_cases listed : (e.id, i) ∈ (locationEntries e).map Prod.fst
    · obtain ⟨kd, there, key⟩ := List.mem_map.mp listed
      rw [← key, LocationTable.get_registerAll _ t distinct kd there, known kd there]
    · exact LocationTable.get_registerAll_absent _ t listed

/-! ### Statements -/

/-- The edge type leads from the collection to itself. -/
def State.within (s : State) (edgeType collection : String) : Prop :=
  ∃ et, s.edgeTypes[edgeType]? = some et ∧ et.fromCollection = collection ∧
    et.toCollection = collection

/-- What can be observed of an entity of the collection is the same. -/
structure Untouched (collection : String) (id : LogicalId) (s s' : State) : Prop where
  entity : s'.store.entities[(collection, id)]? = s.store.entities[(collection, id)]?
  location : ∀ i, s'.location.get (id, i) = s.location.get (id, i)
  edges : ∀ t, s.within t collection → s'.adjacency.get id t = s.adjacency.get id t ∧
    s'.adjacency.getBackward id t = s.adjacency.getBackward id t
  stored : ∀ t, s.within t collection → ∀ other,
    s'.store.getEdge t id other = s.store.getEdge t id other ∧
      s'.store.getEdge t other id = s.store.getEdge t other id
  entityCollection : s'.entityCollections[id]? = s.entityCollections[id]?

theorem Untouched.refl (collection : String) (id : LogicalId) (s : State) :
    Untouched collection id s s :=
  ⟨rfl, fun _ => rfl, fun _ _ => ⟨rfl, rfl⟩, fun _ _ _ => ⟨rfl, rfl⟩, rfl⟩

/-- The statement is a DELETE or an INSERT of the id in the collection, or drops it. -/
def concerns (env : Env) (collection : String) (id : LogicalId) : Write → Prop
  | .deleteEntity p => p.collection = collection ∧ p.entityId = id
  | .insert p => p.collection = collection ∧ p.target env = id
  | .dropCollection name => name = collection
  | _ => False

/-- What the statement would change is not there, or as it would leave it: a DELETE finds no
location, no owner and no edge within the other collection under the id; an INSERT finds its
own collection as the owner and its locations registered; a DROP finds another owner. -/
def Spares (env : Env) (s : State) (other : String) (id : LogicalId) : Write → Prop
  | .deleteEntity p => ∀ old, s.store.get p.collection id = .ok old →
      (∀ i ∈ s.location.entityReprs[id]?.getD [], s.location.get (id, i) = none) ∧
        (∀ e ∈ s.adjacency.edgesInvolving id, ¬ s.within e.1 other) ∧
        s.entityCollections[id]? = none
  | .insert p => ∀ schema e, s.schemas[p.collection]? = some schema →
      checkVectors schema p.collection p.vectors = .ok () → buildEntity env schema p id = .ok e →
      s.store.hasCollection p.collection = true →
      s.entityCollections[id]? = some p.collection ∧
        ∀ kd ∈ locationEntries e, s.location.get kd.1 = some kd.2
  | .dropCollection name => s.schemas.contains name = true → s.entityCollections[id]? ≠ some name
  | _ => True

section Statements
variable [WalPayload Payload]

theorem deleteEntity_found (env : Env) {s : State} {collection : String} {id : LogicalId}
    {old : Entity} (found : s.store.get collection id = .ok old) :
    ∃ r s', deleteEntity env s ⟨id, collection⟩ = (.ok r, s') ∧
      s'.location = s.location.removeEntity id ∧
      s'.adjacency = s.adjacency.removeAll (s.adjacency.edgesInvolving id) ∧
      s'.entityCollections = s.entityCollections.erase id := by
  have present := ((s.store.get_eq_ok ..).mp found).1
  unfold deleteEntity
  rw [found]
  dsimp only [store_logTx]
  have kept : (removeDeclaredEntries s.store s.fieldIndexes collection old
      ((s.schemas[collection]?.map CollectionSchema.indexes).getD [])).hasCollection collection =
        true :=
    (congrArg (·.collections.contains collection) (data_removeDeclaredEntries _ _ _ _)).trans present
  simp only [State.logTx, Store.deleteEntity, kept, if_true]
  exact ⟨_, _, rfl, rfl, rfl, rfl⟩

theorem deleteEntity_untouched_iff (env : Env) (s : State) {collection other : String}
    {id : LogicalId} (apart : collection ≠ other) :
    Untouched other id s (deleteEntity env s ⟨id, collection⟩).2 ↔
      Spares env s other id (.deleteEntity ⟨id, collection⟩) := by
  cases found : s.store.get collection id with
  | error e =>
    have same : deleteEntity env s ⟨id, collection⟩ = (.error e, s) := by
      unfold deleteEntity
      rw [found]
    rw [same]
    refine iff_of_true (.refl other id s) fun old there => ?_
    cases found.symm.trans there
  | ok old =>
    obtain ⟨r, s', done, location, adjacency, owners⟩ := deleteEntity_found env found
    obtain ⟨-, data⟩ := logs_deleteEntity done
    obtain ⟨-, -, rows⟩ := cascade_rest (s.adjacency.edgesInvolving id)
      ((dataOf s.store).eraseEntity collection id)
    have removed := s.adjacency.removeAll_removes (s.adjacency.edgesInvolving id)
    rw [done]
    constructor
    · intro untouched old' there
      refine ⟨fun i listed => ?_, fun e involved within => ?_, ?_⟩
      · have same := untouched.location i
        rw [location, LocationTable.get_removeEntity, if_pos ⟨rfl, listed⟩] at same
        exact same.symm
      · obtain ⟨forward, backward⟩ := untouched.edges e.1 within
        obtain ⟨noneOut, noneIn⟩ := removed e involved
        rw [adjacency] at forward backward
        rcases (s.adjacency.mem_edgesInvolving id e).mp involved with ⟨source, adj, there, target⟩ |
          ⟨target, there⟩
        · rw [source, forward] at noneOut
          exact noneOut adj there target
        · rw [target, backward] at noneIn
          exact noneIn there
      · have same := untouched.entityCollection
        rw [owners, FinMap.get_erase, if_pos rfl] at same
        exact same.symm
    · intro spares
      obtain ⟨noLocation, noEdge, noOwner⟩ := spares old found
      refine ⟨?_, fun i => ?_, fun t within => ?_, fun t within y => ?_, ?_⟩
      · have entities : s'.store.entities = ((dataOf s.store).eraseEntity collection id).entities :=
          (congrArg Data.entities data).trans rows
        rw [entities]
        unfold Data.eraseEntity
        split
        · exact (FinMap.get_erase _ _ _).trans (if_neg fun same => apart (Prod.mk.inj same).1)
        · rfl
      · rw [location, LocationTable.get_removeEntity]
        split
        · rename_i listed
          exact (noLocation i listed.2).symm
        · rfl
      · rw [adjacency]
        exact s.adjacency.removeAll_other _ id t fun e there same => noEdge e there (same ▸ within)
      · have edges (f g : LogicalId) : s'.store.getEdge t f g = s.store.getEdge t f g := by
          have kept : s'.store.edges = (cascade (s.adjacency.edgesInvolving id)
            ((dataOf s.store).eraseEntity collection id)).edges := congrArg Data.edges data
          have before : ((dataOf s.store).eraseEntity collection id).edges = s.store.edges := by
            unfold Data.eraseEntity
            split <;> rfl
          rw [Store.getEdge, kept, get_cascade, if_neg, before]
          · rfl
          · rintro ⟨e, there, same⟩
            exact noEdge e there ((Prod.mk.inj same).1 ▸ within)
        exact ⟨edges id y, edges y id⟩
      · rw [owners, FinMap.get_erase, if_pos rfl, noOwner]

omit [WalPayload Payload] in
theorem get_forgetCollection (s : State) {name : String} {id : LogicalId}
    (owner : s.entityCollections[id]? ≠ some name) (i : Nat) :
    (s.forgetCollection name).location.get (id, i) = s.location.get (id, i) := by
  have others : ∀ kv ∈ s.entityCollections.toList.filter fun kv => kv.2 = name, kv.1 ≠ id := by
    rintro ⟨id', name'⟩ there rfl
    obtain ⟨listed, same⟩ := List.mem_filter.mp there
    rw [FinMap.mem_toList] at listed
    exact owner (listed.trans (congrArg some (of_decide_eq_true same)))
  unfold State.forgetCollection
  dsimp only
  generalize s.entityCollections.toList.filter (fun kv => kv.2 = name) = owned at others
  generalize s.location = location
  induction owned generalizing location with
  | nil => rfl
  | cons kv rest ih =>
    rw [List.forall_mem_cons] at others
    rw [List.foldl_cons, ih others.2]
    exact LocationTable.get_removeEntity_other _ (Ne.symm others.1)

omit [WalPayload Payload] in
theorem getEntity_dropCollection {store store' : Store} {name other : String} {id : LogicalId}
    (apart : name ≠ other) (dropped : store.dropCollection name = .ok store') :
    store'.entities[(other, id)]? = store.entities[(other, id)]? ∧ store'.edges = store.edges := by
  unfold Store.dropCollection at dropped
  split at dropped
  · cases dropped
    refine ⟨?_, rfl⟩
    refine (FinMap.get_filter _ _ _).trans ?_
    have kept : decide (other ≠ name) = true := decide_eq_true (Ne.symm apart)
    cases store.entities[(other, id)]? with
    | none => rfl
    | some e => exact if_pos kept
  · cases dropped

theorem dropCollection_untouched_iff (env : Env) (s : State) {name other : String}
    {id : LogicalId} (apart : name ≠ other) :
    Untouched other id s (dropCollection env s name).2 ↔
      Spares env s other id (.dropCollection name) := by
  unfold dropCollection
  by_cases known : s.schemas.contains name = true
  · rw [if_pos known]
    dsimp only
    -- the maps are the same whether or not the store knows the collection
    suffices decided : ∀ s' : State,
        s'.location = (s.forgetCollection name).location → s'.adjacency = s.adjacency →
        s'.entityCollections = (s.forgetCollection name).entityCollections →
        s'.store.entities[(other, id)]? = s.store.entities[(other, id)]? →
        s'.store.edges = s.store.edges →
        (Untouched other id s s' ↔ s.entityCollections[id]? ≠ some name) by
      have spares : Spares env s other id (.dropCollection name) ↔
          s.entityCollections[id]? ≠ some name :=
        ⟨fun spares => spares known, fun owner _ => owner⟩
      rw [spares]
      split
      · exact decided _ rfl rfl rfl rfl rfl
      · rename_i dropped
        obtain ⟨entity, edges⟩ := getEntity_dropCollection apart dropped
        exact decided _ rfl rfl rfl entity edges
    intro s' location adjacency owners entity edges
    constructor
    · intro untouched owner
      have same := untouched.entityCollection
      rw [owners, State.forgetCollection, FinMap.get_filter, owner] at same
      simp at same
    · intro owner
      refine ⟨entity, fun i => ?_, fun t _ => ?_, fun t _ y => ?_, ?_⟩
      · rw [location, get_forgetCollection s owner]
      · rw [adjacency]
        exact ⟨rfl, rfl⟩
      · unfold Store.getEdge
        rw [edges]
        exact ⟨rfl, rfl⟩
      · rw [owners, State.forgetCollection, FinMap.get_filter]
        cases owned : s.entityCollections[id]? with
        | none => rfl
        | some c =>
          have kept : c ≠ name := fun same => owner (same ▸ owned)
          simp [kept]
  · rw [if_neg known]
    exact iff_of_true (.refl other id s) fun there => absurd there known

omit [WalPayload Payload] in
theorem untouched_of_same {other : String} {id : LogicalId} {s s' : State}
    (data : dataOf s'.store = dataOf s.store) (location : s'.location = s.location)
    (adjacency : s'.adjacency = s.adjacency)
    (owners : s'.entityCollections = s.entityCollections) : Untouched other id s s' := by
  have entities : s'.store.entities = s.store.entities := congrArg Data.entities data
  have edges : s'.store.edges = s.store.edges := congrArg Data.edges data
  refine ⟨by rw [entities], fun i => by rw [location], fun t _ => by rw [adjacency]; exact ⟨rfl, rfl⟩,
    fun t _ y => ?_, by rw [owners]⟩
  unfold Store.getEdge
  rw [edges]
  exact ⟨rfl, rfl⟩

theorem insert_untouched_iff (env : Env) (s : State) (p : InsertPlan) {other : String}
    (apart : p.collection ≠ other) :
    Untouched other (p.target env) s (insert env s p).2 ↔
      Spares env s other (p.target env) (.insert p) := by
  have unchanged := removeOldEntries_data env s p.collection (p.target env)
  cases insert_ends env s p with
  | refused error rejected result =>
    rw [result]
    exact iff_of_true (.refl other _ s)
      fun schema _ known checked => absurd checked (rejected schema known)
  | unbuilt schema error known checked built result =>
    rw [result]
    refine iff_of_true (untouched_of_same unchanged (by simp) (by simp) (by simp)) ?_
    intro schema' e known' _ built' _
    cases known.symm.trans known'
    cases built.symm.trans built'
  | unstored schema e known checked built absent result =>
    obtain ⟨error, entries, result⟩ := result
    rw [result]
    refine iff_of_true (untouched_of_same unchanged (by simp [State.logTx]) (by simp [State.logTx])
      (by simp [State.logTx])) ?_
    intro schema' e' _ _ _ present
    cases absent.symm.trans present
  | stored schema e known checked built present wal left =>
    have own : e.id = p.target env := id_of_built built
    have spares : Spares env s other (p.target env) (.insert p) ↔
        s.entityCollections[p.target env]? = some p.collection ∧
          ∀ kd ∈ locationEntries e, s.location.get kd.1 = some kd.2 := by
      constructor
      · exact fun spares => spares schema e known checked built present
      · intro as schema' e' known' _ built' _
        cases known.symm.trans known'
        cases built.symm.trans built'
        exact as
    have registered (i : Nat) : (insert env s p).2.location.get (p.target env, i) =
        (s.location.registerAll (locationEntries e)).get (e.id, i) := by
      rw [left.location, removeOldEntries_location, ← own]
      rfl
    have owner : (insert env s p).2.entityCollections[p.target env]? = some p.collection := by
      rw [left.entityCollections, FinMap.get_insert, if_pos own]
    rw [spares, ← registered_same_iff]
    constructor
    · intro untouched
      refine ⟨untouched.entityCollection.symm.trans owner, fun i => ?_⟩
      rw [← registered, untouched.location, own]
    · rintro ⟨owned, located⟩
      refine ⟨?_, fun i => ?_, fun t _ => ?_, fun t _ y => ?_, owner.trans owned.symm⟩
      · rw [left.entities, removeOldEntries_entities, FinMap.get_insert,
          if_neg fun same => apart (Prod.mk.inj same).1]
      · rw [registered, located, own]
      · rw [left.adjacency, removeOldEntries_adjacency]
        exact ⟨rfl, rfl⟩
      · unfold Store.getEdge
        rw [left.edges, removeOldEntries_edges]
        exact ⟨rfl, rfl⟩

theorem untouched_iff_spares (env : Env) (s : State) {w : Write} {collection other : String}
    {id : LogicalId} (about : concerns env collection id w) (apart : collection ≠ other) :
    Untouched other id s (perform env s w).2 ↔ Spares env s other id w := by
  cases w with
  | deleteEntity p =>
    obtain ⟨rfl, rfl⟩ := about
    exact deleteEntity_untouched_iff env s apart
  | insert p =>
    obtain ⟨rfl, rfl⟩ := about
    exact insert_untouched_iff env s p apart
  | dropCollection name =>
    cases about
    exact dropCollection_untouched_iff env s apart
  | _ => cases about

def Shared (s : State) (collection other : String) (id : LogicalId) : Prop :=
  collection ≠ other ∧ (s.store.entities[(collection, id)]?).isSome ∧
    (s.store.entities[(other, id)]?).isSome

/-- Whatever the state a run starts from, its statements leave the namesakes of their entities
in other collections alone iff each finds nothing of the kind it changes, or nothing to change. -/
theorem namesakes_untouched_iff (s : State) (as : List Step) :
    (∀ p ∈ Run.taken State.step s as, ∀ collection other id, Shared p.1 collection other id →
        concerns p.2.1 collection id p.2.2 → Untouched other id p.1 (p.1.step p.2)) ↔
      ∀ p ∈ Run.taken State.step s as, ∀ collection other id, Shared p.1 collection other id →
        concerns p.2.1 collection id p.2.2 → Spares p.2.1 p.1 other id p.2.2 := by
  constructor
  · intro untouched p there collection other id shared about
    exact (untouched_iff_spares p.2.1 p.1 about shared.1).mp
      (untouched p there collection other id shared about)
  · intro spares p there collection other id shared about
    exact (untouched_iff_spares p.2.1 p.1 about shared.1).mpr
      (spares p there collection other id shared about)

end Statements

/-! ### The same id in two collections -/

def createPoints (name : String) : Write :=
  .createCollection ⟨name, [⟨"at", none, some 1, .cosine, false, []⟩], [], [], none⟩

def insertPoint (collection id : String) (value : F64) : Write :=
  .insert ⟨collection, ["id"], [.string id], [("at", .dense [value])], none, none⟩

def namesakes : List Step :=
  [createPoints "inner", createPoints "outer", insertPoint "inner" "p" ⟨0x3FF0000000000000⟩,
    insertPoint "outer" "p" ⟨0x3FF0000000000000⟩].map fun w => (Env.idle, w)

section Examples
attribute [local instance] headerOnly

/-- The DELETE from the inner collection takes the location of the point in the outer one. -/
theorem namesake_delocated :
    let s := namesakes.foldl State.step (State.init default)
    let w : Write := .deleteEntity ⟨"p", "inner"⟩
    Shared s "inner" "outer" "p" ∧ concerns .idle "inner" "p" w ∧
      ¬ Untouched "outer" "p" s (s.step (.idle, w)) := by
  refine ⟨by unfold Shared; decide, ⟨rfl, rfl⟩, fun untouched => ?_⟩
  have located := untouched.location 0
  revert located
  decide

end Examples
end TronDB.Engine
