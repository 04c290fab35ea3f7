import TronDB.Engine.IndexSchemas
import TronDB.Engine.Numbering

/-! Runs of INSERTs, UPDATEs and added representations, with recomputes going on between them:
when the numbers of the representations agree. -/
namespace TronDB.Engine
open TronDB.Core Binary Wal

structure AddRepresentationPlan where
  collection : String
  name : String
  dimensions : Option Nat
  metric : Metric
  sparse : Bool
  fields : List String

def AddRepresentationPlan.alter (p : AddRepresentationPlan) : AlterCollectionPlan :=
  ⟨p.collection, .addRepresentation p.name p.dimensions p.metric p.sparse p.fields⟩

/-- An engine with the recomputes that have been started. -/
structure Recomputing where
  state : State
  tasks : List Task

namespace Recomputing

inductive Call where
  | createCollection (env : Env) (p : CreateCollectionPlan)
  | insert (env : Env) (p : InsertPlan)
  | updateEntity (env : Env) (p : UpdateEntityPlan)
  | addRepresentation (env : Env) (p : AddRepresentationPlan)
  | startRecompute (env : RecomputeEnv)
  | advance (env : RecomputeEnv) (k : Nat)

variable [WalPayload Payload]

def start (config : WalConfig) : Recomputing := ⟨.init config, []⟩

def step (x : Recomputing) : Call → Recomputing
  | .createCollection env p => { x with state := (createCollection env x.state p).2 }
  | .insert env p => { x with state := (Engine.insert env x.state p).2 }
  | .updateEntity env p => { x with state := (updateEntity env x.state p).2 }
  | .addRepresentation env p => { x with state := (alterCollection env x.state p.alter).2 }
  | .startRecompute env => { x with tasks := x.tasks ++ [x.state.startRecompute env] }
  | .advance env k =>
    match x.tasks[k]? with
    | none => x
    | some task =>
      let (s, task') := Engine.advance env x.state task
      ⟨s, x.tasks.set k task'⟩

end Recomputing

/-! ### When a call keeps the numbers -/

def Namesake (s : State) (collection : String) (id : LogicalId) (other : String) (e : Entity) : Prop :=
  other ≠ collection ∧ s.store.entities[(other, id)]? = some e

/-- The names of an entity when a recompute has filled its place. -/
def writtenNames (job : Job) (y : Encoded) : List String :=
  (heldNames y.entity ++ List.replicate (job.reprIdx + 1 - y.entity.representations.length) "").set
    job.reprIdx job.stored.name

/-- An INSERT numbers its representations as the schema does, leaves no Clean entry of an
earlier version behind, and finds namesakes that have the same numbers in use; a representation
with FIELDS that is added finds namesakes its entries describe as well; and the copy that a
recompute writes back has the schema's names where the entity has entries. -/
def KeepsNumbers (x : Recomputing) : Recomputing.Call → Prop
  | .insert env p => ∀ schema, x.state.schemas[p.collection]? = some schema →
      checkVectors schema p.collection p.vectors = .ok () →
      (∃ e, buildEntity env schema p (p.target env) = .ok e) →
      insertedNames schema p <+: declaredNames schema ∧
      (∀ i d, (insertedNames schema p).length ≤ i →
        x.state.location.get (p.target env, i) = some d →
        i < (declaredNames schema).length ∧ d.state ≠ .clean) ∧
      ∀ other e, Namesake x.state p.collection (p.target env) other e →
        ∀ i < (insertedNames schema p).length, SameAt x.state.schemas other (heldNames e) i
  | .addRepresentation _ p => ∀ schema, x.state.schemas[p.collection]? = some schema →
      p.name ∉ declaredNames schema → p.fields ≠ [] →
      ∀ id e, x.state.store.entities[(p.collection, id)]? = some e →
      ∀ other e', Namesake x.state p.collection id other e' →
        Describes x.state.schemas other (heldNames e') (declaredNames schema).length
          (dirtyLocation p.sparse)
  | .advance _ k => ∀ job y encoded later rest,
      x.tasks[k]? = some (.writing job (y :: encoded) later rest) →
      x.state.store.hasCollection job.collection = true →
      (writtenNames job y).Nodup ∧
      (∀ i d, i ≠ job.reprIdx → x.state.location.get (y.entity.id, i) = some d →
        Describes x.state.schemas job.collection (writtenNames job y) i d) ∧
      ∀ other e, Namesake x.state job.collection y.entity.id other e →
        ∀ d, x.state.location.get y.key = some d → canTransitionTo d.state .clean = true →
          job.reprIdx < e.representations.length
  | _ => True

section Statements
variable [WalPayload Payload]

/-! ### INSERT -/

omit [WalPayload Payload] in
theorem sameAt_iff {s : State} {collection : String} {schema : CollectionSchema}
    (known : s.schemas[collection]? = some schema) {held : List String} {i : Nat}
    (short : i < held.length) :
    SameAt s.schemas collection held i ↔ (declaredNames schema)[i]? = some held[i] := by
  constructor
  · rintro ⟨schema', name, known', declared, here⟩
    cases known.symm.trans known'
    rw [declared, ← here, List.getElem?_eq_getElem short]
  · intro declared
    exact ⟨schema, held[i], known, declared, List.getElem?_eq_getElem short⟩

omit [WalPayload Payload] in
theorem describes_past {s : State} {collection : String} {schema : CollectionSchema}
    (known : s.schemas[collection]? = some schema) {held : List String} {i : Nat}
    (past : held.length ≤ i) (d : LocationDescriptor) :
    Describes s.schemas collection held i d ↔ i < (declaredNames schema).length ∧ d.state ≠ .clean := by
  have missing : held[i]? = none := List.getElem?_eq_none past
  constructor
  · rintro ⟨schema', name, known', declared, here | ⟨-, unclean⟩⟩
    · cases missing.symm.trans here
    · cases known.symm.trans known'
      exact ⟨(List.getElem?_eq_some_iff.mp declared).1, unclean⟩
  · rintro ⟨short, unclean⟩
    exact ⟨schema, _, known, List.getElem?_eq_getElem short, .inr ⟨missing, unclean⟩⟩

section Places
variable {s : State} {names : List String} {before after : Nat → Option LocationDescriptor}
  (entry : ∀ i < names.length, ∃ d, after i = some d ∧ d.state = .clean)
  (later : ∀ i, names.length ≤ i → after i = before i)

include entry later

omit [WalPayload Payload]

/-- A new entity whose own entries are clean: it has the schema's representations in their order, and
an entry behind them is one of the schema's that is not clean. -/
theorem described_inserted_iff {collection : String} {schema : CollectionSchema}
    (known : s.schemas[collection]? = some schema) :
    (∀ i d, after i = some d → Describes s.schemas collection names i d) ↔
      names <+: declaredNames schema ∧ ∀ i d, names.length ≤ i → before i = some d →
        i < (declaredNames schema).length ∧ d.state ≠ .clean := by
  constructor
  · intro own
    refine ⟨List.prefix_iff_getElem?.mpr fun i short => ?_, fun i d past found => ?_⟩
    · obtain ⟨d, found, clean⟩ := entry i short
      exact (sameAt_iff known short).mp ((describes_clean clean).mp (own i d found))
    · exact (describes_past known past d).mp (own i d ((later i past).trans found))
  · rintro ⟨ordered, behind⟩ i d found
    by_cases short : i < names.length
    · obtain ⟨d', found', clean⟩ := entry i short
      cases found.symm.trans found'
      exact (describes_clean clean).mpr
        ((sameAt_iff known short).mpr (List.prefix_iff_getElem?.mp ordered i short))
    · have past := Nat.le_of_not_lt short
      rw [later i past] at found
      exact (describes_past known past d).mpr (behind i d past found)

/-- To an entity of the same id in another collection the clean entries have to fit. -/
theorem described_namesake_iff {other : String} {held : List String}
    (described : ∀ i d, before i = some d → Describes s.schemas other held i d) :
    (∀ i d, after i = some d → Describes s.schemas other held i d) ↔
      ∀ i < names.length, SameAt s.schemas other held i := by
  constructor
  · intro others i short
    obtain ⟨d, found, clean⟩ := entry i short
    exact (describes_clean clean).mp (others i d found)
  · intro shared i d found
    by_cases short : i < names.length
    · obtain ⟨d', found', clean⟩ := entry i short
      cases found.symm.trans found'
      exact (describes_clean clean).mpr (shared i short)
    · rw [later i (Nat.le_of_not_lt short)] at found
      exact described i d found

end Places

theorem insert_numbered_iff (env : Env) {x : Recomputing} (p : InsertPlan)
    (synced : Synced x.state)
    (declared : ∀ (c : String) (schema : CollectionSchema), x.state.schemas[c]? = some schema →
      (declaredNames schema).Nodup)
    (numbered : Numbered x.state) :
    Numbered (x.step (.insert env p)).state ↔ KeepsNumbers x (.insert env p) := by
  have same (old : State) (entities : old.store.entities = x.state.store.entities)
      (location : old.location = x.state.location) (schemas : old.schemas = x.state.schemas) :
      Numbered old :=
    numbered.kept (schemas ▸ .refl _) entities fun k d found => ⟨d, location ▸ found, fun clean => clean⟩
  cases insert_ends env x.state p with
  | refused error rejected result =>
    refine iff_of_true ?_ fun schema known checked => absurd checked (rejected schema known)
    simp only [Recomputing.step, result]
    exact numbered
  | unbuilt schema error known checked built result =>
    refine iff_of_true ?_ ?_
    · simp only [Recomputing.step, result]
      exact same _ (by simp) (by simp) (by simp)
    · rintro schema' known' - ⟨e, built'⟩
      cases known.symm.trans known'
      cases built.symm.trans built'
  | unstored schema e known checked built absent result =>
    rw [synced.schemas] at known
    rw [Store.hasCollection_eq, known] at absent
    cases absent
  | stored schema e known checked built present wal left =>
    have id_ := id_of_built built
    have names : heldNames { e with txTime := x.state.wal.nextTx } = insertedNames schema p :=
      show heldNames e = _ from names_built built
    have located (i : Nat) : (x.step (.insert env p)).state.location.get (p.target env, i) =
        (e.representations[i]?.map freshLocation).or (x.state.location.get (p.target env, i)) := by
      have registered := LocationTable.get_located x.state.location
        { e with txTime := x.state.wal.nextTx } i
      rw [show (x.step (.insert env p)).state.location = _ from left.location,
        removeOldEntries_location, ← id_]
      exact registered
    have length : (insertedNames schema p).length = e.representations.length := by
      rw [← names, heldNames, List.length_map]
    rw [numbered_put_iff numbered p.collection (p.target env) { e with txTime := x.state.wal.nextTx }
      (fun k => by
        rw [show (x.step (.insert env p)).state.store.entities = _ from left.entities,
          removeOldEntries_entities, FinMap.get_insert, ← id_])
      (by rw [show (x.step (.insert env p)).state.schemas = _ from left.schemas,
        removeOldEntries_schemas])
      (fun k other => by
        rw [show (x.step (.insert env p)).state.location = _ from left.location,
          removeOldEntries_location]
        exact LocationTable.get_located_elsewhere _ _ (id_ ▸ other)), names]
    have order : KeepsNumbers x (.insert env p) ↔ insertedNames schema p <+: declaredNames schema ∧
        (∀ i d, (insertedNames schema p).length ≤ i →
          x.state.location.get (p.target env, i) = some d →
          i < (declaredNames schema).length ∧ d.state ≠ .clean) ∧
        ∀ other e, Namesake x.state p.collection (p.target env) other e →
          ∀ i < (insertedNames schema p).length, SameAt x.state.schemas other (heldNames e) i := by
      constructor
      · exact fun order => order schema known checked ⟨e, built⟩
      · rintro order schema' known' - -
        cases known.symm.trans known'
        exact order
    rw [order]
    -- below its length the new entity's own entry is there, behind it an entry it has found
    have entry (i : Nat) (short : i < (insertedNames schema p).length) :
        ∃ d, (x.step (.insert env p)).state.location.get (p.target env, i) = some d ∧
          d.state = .clean := by
      rw [located, List.getElem?_eq_getElem (length ▸ short)]
      exact ⟨_, rfl, rfl⟩
    have later (i : Nat) (past : (insertedNames schema p).length ≤ i) :
        (x.step (.insert env p)).state.location.get (p.target env, i) =
          x.state.location.get (p.target env, i) := by
      rw [located, List.getElem?_eq_none (length ▸ past)]
      rfl
    have own := described_inserted_iff entry later known
    have others (other : String) (e' : Entity)
        (stored : x.state.store.entities[(other, p.target env)]? = some e') :=
      described_namesake_iff entry later fun i d => numbered.described other _ e' i d stored
    constructor
    · rintro ⟨-, described, shared⟩
      obtain ⟨ordered, behind⟩ := own.mp described
      exact ⟨ordered, behind, fun other e' namesake =>
        (others other e' namesake.2).mp (shared other e' namesake.1 namesake.2)⟩
    · rintro ⟨ordered, behind, shared⟩
      exact ⟨(declared _ schema known).sublist ordered.sublist, own.mpr ⟨ordered, behind⟩,
        fun other e' apart stored => (others other e' stored).mpr (shared other e' ⟨apart, stored⟩)⟩

/-! ### CREATE COLLECTION and UPDATE -/

theorem create_extends (env : Env) {s : State} (p : CreateCollectionPlan) (synced : Synced s) :
    Extends s.schemas (createCollection env s p).2.schemas := by
  rcases createCollection_ends env s p with leaves | created
  · rw [leaves.schemas]
    exact .refl _
  · intro c schema known
    refine ⟨schema, ?_, List.prefix_rfl⟩
    have other : ¬ p.name = c := by
      rintro rfl
      have absent := created.absent
      rw [synced.schemas] at known
      rw [Store.hasCollection_eq, known] at absent
      cases absent
    rw [created.schemas, FinMap.get_insert, if_neg other, known]

theorem location_createCollection (env : Env) (s : State) (p : CreateCollectionPlan) :
    (createCollection env s p).2.location = s.location ∧
      (createCollection env s p).2.store.entities = s.store.entities := by
  unfold createCollection Store.createCollectionSchema
  cases checkDuplicates p with
  | error e => exact ⟨rfl, rfl⟩
  | ok =>
    dsimp only [State.logTx]
    cases s.store.hasCollection (buildCollectionSchema p).name with
    | true => exact ⟨rfl, rfl⟩
    | false => exact ⟨rfl, rfl⟩

/-- An UPDATE fails before it changes anything, or puts the entity and asks for dirty entries. -/
theorem updateEntity_ends (env : Env) (s : State) (p : UpdateEntityPlan) :
    (updateEntity env s p).2 = s ∨ ∃ old,
      s.store.entities[(p.collection, p.entityId)]? = some old ∧
      (updateEntity env s p).2.store.entities =
        s.store.entities.insert (p.collection, p.entityId) (assign old p.assignments) ∧
      (updateEntity env s p).2.location =
        ((dirtyReprIndices s.schemas[p.collection]? p.assignments).map (p.entityId, ·)).foldl
          (fun t key => t.tryTransition key .dirty) s.location := by
  rw [updateEntity_steps]
  rcases beginUpdate_ends env s p with ⟨e, failed⟩ | ⟨old, entries, found, begun⟩
  · rw [failed]
    exact .inl rfl
  · rw [begun]
    dsimp only
    have present := (s.store.get_eq_ok ..).mp found
    have own := s.store.keyed _ _ _ present.2
    obtain ⟨data, location, -⟩ := finishUpdate_put
      (s := s.logTx env.ts p.collection entries)
      (u := ⟨p, s.schemas[p.collection]?, old⟩) present.1
    refine .inr ⟨old, present.2, ?_, ?_⟩
    · have entities := congrArg Data.entities data
      rw [← own]
      exact entities
    · rw [location, List.foldl_map]
      rfl

theorem update_numbered (env : Env) {s : State} (p : UpdateEntityPlan) (numbered : Numbered s) :
    Numbered (updateEntity env s p).2 := by
  have schemas := (sameSchemas_updateEntity env s p).schemas
  rcases updateEntity_ends env s p with same | ⟨old, stored, entities, location⟩
  · exact same.symm ▸ numbered
  · have asked (k : ReprKey) (d' : LocationDescriptor)
        (found : (updateEntity env s p).2.location.get k = some d') :
        ∃ d, s.location.get k = some d ∧ (d'.state = .clean → d.state = .clean) := by
      rw [location] at found
      exact LocationTable.get_asked (by simp) _ _ _ d' found
    rw [numbered_put_iff numbered p.collection p.entityId (assign old p.assignments)
      (fun k => by rw [entities, FinMap.get_insert]) schemas
      (fun k other => by
        rw [location]
        refine LocationTable.get_asked_elsewhere _ _ fun listed => ?_
        obtain ⟨i, -, rfl⟩ := List.mem_map.mp listed
        exact other rfl)]
    -- the representations are the old ones
    refine ⟨show (heldNames old).Nodup from numbered.distinct _ _ _ stored, fun i d' found => ?_,
      fun other e' _ there i d' found => ?_⟩
    · obtain ⟨d, before, clean⟩ := asked _ d' found
      exact (numbered.described _ _ old i d stored before).of_clean clean
    · obtain ⟨d, before, clean⟩ := asked _ d' found
      exact (numbered.described _ _ e' i d there before).of_clean clean

/-! ### ADD REPRESENTATION -/

/-- What an ADD REPRESENTATION that goes through leaves. -/
structure Added (s s' : State) (p : AddRepresentationPlan) (schema : CollectionSchema) : Prop where
  fresh : p.name ∉ declaredNames schema
  schemas : s'.schemas = s.schemas.insert p.collection (alterSchema schema p.alter.operation)
  entities : s'.store.entities = s.store.entities
  location : s'.location = if p.fields = [] then s.location
    else (s.store.partition p.collection).foldl (fun t e =>
      t.register (e.id, schema.representations.length) (dirtyLocation p.sparse)) s.location

omit [WalPayload Payload] in
theorem checkAlter_add (schema : CollectionSchema) (p : AddRepresentationPlan) :
    checkAlter schema p.collection p.alter.operation = .ok () ↔ p.name ∉ declaredNames schema := by
  unfold checkAlter AddRepresentationPlan.alter declaredNames
  dsimp only
  split
  · rename_i there
    refine iff_of_false nofun fun absent => absent ?_
    obtain ⟨r, listed, same⟩ := List.any_eq_true.mp there
    exact List.mem_map.mpr ⟨r, listed, of_decide_eq_true same⟩
  · rename_i missing
    refine iff_of_true rfl fun listed => missing ?_
    obtain ⟨r, listed, same⟩ := List.mem_map.mp listed
    exact List.any_eq_true.mpr ⟨r, listed, decide_eq_true same⟩

theorem addRepresentation_ends (env : Env) {s : State} (synced : Synced s)
    (p : AddRepresentationPlan) : ((alterCollection env s p.alter).2 = s ∧
        ∀ schema, s.schemas[p.collection]? = some schema → p.name ∈ declaredNames schema) ∨
      ∃ schema, s.schemas[p.collection]? = some schema ∧
        Added s (alterCollection env s p.alter).2 p schema := by
  unfold alterCollection Store.getCollectionSchema
  rw [synced.schemas]
  cases found : s.store.collections[p.collection]? with
  | none =>
    refine .inl ⟨?_, fun schema known => by cases known⟩
    simp only [AddRepresentationPlan.alter, found]
  | some schema =>
    have present : s.store.hasCollection p.collection = true := Store.hasCollection_of_stored found
    have there : s.store.collections[p.alter.collection]? = some schema := found
    rw [there]
    dsimp only
    rw [Store.scan, if_pos (by exact present)]
    dsimp only
    cases checked : checkAlter schema p.alter.collection p.alter.operation with
    | error e =>
      refine .inl ⟨rfl, fun schema' known => ?_⟩
      cases known
      refine Classical.byContradiction fun absent => ?_
      cases checked.symm.trans ((checkAlter_add schema p).mpr absent)
    | ok =>
      refine .inr ⟨schema, rfl, ?_⟩
      have none_ : (s.store.partition p.alter.collection).filterMap
          (fun e => alterEntity e p.alter.operation) = [] :=
        List.filterMap_eq_nil_iff.mpr fun e _ => rfl
      dsimp only
      rw [none_]
      have memory : ∀ t : State, t.store = s.store → t.location = s.location → t.schemas = s.schemas →
          Added s { t.alterMemory p.alter.collection schema (s.store.partition p.alter.collection)
              p.alter.operation with
            store := (t.alterMemory p.alter.collection schema
              (s.store.partition p.alter.collection) p.alter.operation).store.updateCollectionSchema
                (alterSchema schema p.alter.operation)
            schemas := (t.alterMemory p.alter.collection schema
              (s.store.partition p.alter.collection) p.alter.operation).schemas.insert p.alter.collection
                (alterSchema schema p.alter.operation) } p schema := by
        intro t store location schemas
        have same := sameSchemas_alterMemory t p.alter.collection schema
          (s.store.partition p.alter.collection) p.alter.operation
        refine ⟨(checkAlter_add schema p).mp checked, ?_, ?_, ?_⟩
        · rw [same.schemas, schemas]
          rfl
        · dsimp only [Store.updateCollectionSchema]
          rw [alterMemory_store, store]
        · unfold State.alterMemory AddRepresentationPlan.alter
          dsimp only
          split
          · split <;> exact location
          · rw [← location]
            split <;> rfl
      exact memory _ rfl rfl rfl

end Statements

/-! ### What holds beside the numbers -/

/-- The entity has no more representations than its collection declares. -/
def Within (schemas : FinMap String CollectionSchema) (collection : String) (e : Entity) : Prop :=
  ∃ schema, schemas[collection]? = some schema ∧
    e.representations.length ≤ schema.representations.length

theorem Extends.within {schemas schemas' : FinMap String CollectionSchema}
    (grown : Extends schemas schemas') {collection : String} {e : Entity}
    (within : Within schemas collection e) : Within schemas' collection e := by
  obtain ⟨schema, known, short⟩ := within
  obtain ⟨schema', known', longer⟩ := grown collection schema known
  exact ⟨schema', known', short.trans longer.length_le⟩

/-- The copies of entities a recompute holds, with their collections. -/
def Job.copies (job : Job) : List (String × Entity) :=
  job.entries.map fun e => (job.collection, e.2)

def groupCopies (groups : List Group) : List (String × Entity) :=
  groups.flatMap fun g => g.2.map fun e => (g.1.1, e.2)

def Task.copies : Task → List (String × Entity)
  | .groups rest => groupCopies rest
  | .encoding job later rest => job.copies ++ later.flatMap Job.copies ++ groupCopies rest
  | .writing job encoded later rest =>
    encoded.map (fun y => (job.collection, y.entity)) ++ later.flatMap Job.copies ++ groupCopies rest
  | .failed _ => []

structure Orderly (x : Recomputing) : Prop where
  synced : Synced x.state
  declared : ∀ (c : String) (schema : CollectionSchema), x.state.schemas[c]? = some schema →
    (declaredNames schema).Nodup
  stored : ∀ (c : String) (id : LogicalId) (e : Entity),
    x.state.store.entities[(c, id)]? = some e → Within x.state.schemas c e
  tasks : ∀ task ∈ x.tasks, (∃ registry, TaskOk registry x.state.schemas task) ∧
    ∀ ce ∈ task.copies, Within x.state.schemas ce.1 ce.2

section Recomputes
variable [WalPayload Payload]

/-! ### ADD REPRESENTATION and the numbers -/

omit [WalPayload Payload] in
theorem added_extends {s s' : State} {p : AddRepresentationPlan} {schema : CollectionSchema}
    (known : s.schemas[p.collection]? = some schema) (added : Added s s' p schema) :
    Extends s.schemas s'.schemas := by
  intro c schema' known'
  rw [added.schemas, FinMap.get_insert]
  split
  · rename_i here
    subst here
    cases known.symm.trans known'
    exact ⟨_, rfl, List.prefix_append _ _⟩
  · exact ⟨schema', known', List.prefix_rfl⟩

omit [WalPayload Payload] in
theorem declared_added (schema : CollectionSchema) (p : AddRepresentationPlan) :
    declaredNames (alterSchema schema p.alter.operation) = declaredNames schema ++ [p.name] := by
  unfold declaredNames
  exact List.map_append

omit [WalPayload Payload] in
theorem mem_partition_ids (store : Store) (collection : String) (id : LogicalId) :
    id ∈ (store.partition collection).map Entity.id ↔
      ∃ e, store.entities[(collection, id)]? = some e := by
  rw [List.mem_map]
  constructor
  · rintro ⟨e, listed, rfl⟩
    exact ⟨e, (store.mem_partition collection e).mp listed⟩
  · rintro ⟨e, stored⟩
    have own := store.keyed collection id e stored
    subst own
    exact ⟨e, (store.mem_partition collection e).mpr stored, rfl⟩

theorem add_numbered_iff (env : Env) {x : Recomputing} (p : AddRepresentationPlan)
    (orderly : Orderly x) (numbered : Numbered x.state) :
    Numbered (x.step (.addRepresentation env p)).state ↔
      KeepsNumbers x (.addRepresentation env p) := by
  rcases addRepresentation_ends env orderly.synced p with ⟨same, taken⟩ | ⟨schema, known, added⟩
  · refine iff_of_true ?_ fun schema known fresh => absurd (taken schema known) fresh
    simp only [Recomputing.step, same]
    exact numbered
  · have grown := added_extends known added
    by_cases fields : p.fields = []
    · refine iff_of_true (numbered.kept grown added.entities fun k d found => ?_)
        fun _ _ _ managed => absurd fields managed
      have location := added.location
      rw [if_pos fields] at location
      exact ⟨d, location ▸ found, fun clean => clean⟩
    · have located (k : ReprKey) : (x.step (.addRepresentation env p)).state.location.get k =
          if k.2 = schema.representations.length ∧
              k.1 ∈ (x.state.store.partition p.collection).map Entity.id then
            some (dirtyLocation p.sparse) else x.state.location.get k := by
        rw [show (x.step (.addRepresentation env p)).state.location = _ from added.location,
          if_neg fields, LocationTable.get_registerEach]
      have count : (declaredNames schema).length = schema.representations.length :=
        List.length_map ..
      constructor
      · intro after schema' known' _ _ id e stored other e' shared
        cases known.symm.trans known'
        have there : (x.step (.addRepresentation env p)).state.store.entities[(other, id)]? =
            some e' := (congrArg (·[(other, id)]?) added.entities).trans shared.2
        have entry := located (id, (declaredNames schema).length)
        rw [if_pos ⟨count, (mem_partition_ids _ _ _).mpr ⟨e, stored⟩⟩] at entry
        obtain ⟨schema', name, known'', rest⟩ := after.described other id e' _ _ there entry
        rw [show (x.step (.addRepresentation env p)).state.schemas = _ from added.schemas,
          FinMap.get_insert, if_neg (Ne.symm shared.1)] at known''
        exact ⟨schema', name, known'', rest⟩
      · intro order
        have order := order schema known added.fresh fields
        refine ⟨fun c id e stored => numbered.distinct c id e ?_, fun c id e i d stored found => ?_⟩
        · exact added.entities ▸ stored
        · have stored : x.state.store.entities[(c, id)]? = some e := added.entities ▸ stored
          rw [located] at found
          split at found
          · rename_i new
            obtain ⟨rfl, listed⟩ := new
            obtain ⟨e', there⟩ := (mem_partition_ids _ _ _).mp listed
            cases found
            by_cases here : c = p.collection
            · subst here
              obtain ⟨schema', known', short⟩ := orderly.stored _ _ _ stored
              cases known.symm.trans known'
              refine ⟨_, p.name, (congrArg (·[p.collection]?) added.schemas).trans
                ((FinMap.get_insert _ _ _ _).trans (if_pos rfl)), ?_, .inr ⟨?_, by simp [dirtyLocation]⟩⟩
              · rw [declared_added, ← count]
                exact List.getElem?_concat_length
              · exact List.getElem?_eq_none (by rw [heldNames, List.length_map]; exact short)
            · rw [← count]
              exact grown.describes (order id e' there c e ⟨here, stored⟩)
          · exact grown.describes (numbered.described c id e i d stored found)

/-! ### Recomputes and the numbers -/

theorem advance_asked (env : RecomputeEnv) (s : State) (task : Task)
    (quiet : ∀ job y encoded later rest, task ≠ .writing job (y :: encoded) later rest)
    (k : ReprKey) : ∀ d', (advance env s task).1.location.get k = some d' →
      ∃ d, s.location.get k = some d ∧ (d'.state = .clean → d.state = .clean) := by
  have started (rest : List Group) (jobs : List Job) : ∀ d',
      (startJobs s rest jobs).1.location.get k = some d' →
        ∃ d, s.location.get k = some d ∧ (d'.state = .clean → d.state = .clean) := by
    cases jobs with
    | nil => exact fun d' found => ⟨d', found, fun clean => clean⟩
    | cons job later =>
      have marked : job.mark s.location = (job.entries.map Prod.fst).foldl
          (fun t key => t.tryTransition key .recomputing) s.location := by
        rw [List.foldl_map]
        rfl
      intro d' found
      rw [startJobs, marked] at found
      exact LocationTable.get_asked (by simp) _ _ k d' found
  cases task with
  | groups rest =>
    cases rest with
    | nil => exact fun d' found => ⟨d', found, fun clean => clean⟩
    | cons group rest => exact started rest _
  | encoding job later rest =>
    simp only [advance]
    split
    · exact started rest later
    · exact fun d' found => ⟨d', found, fun clean => clean⟩
  | writing job encoded later rest =>
    cases encoded with
    | nil => exact started rest later
    | cons y encoded => exact absurd rfl (quiet job y encoded later rest)
  | failed e => exact fun d' found => ⟨d', found, fun clean => clean⟩

omit [WalPayload Payload] in
theorem names_refreshed (job : Job) (env : Env) (y : Encoded) :
    heldNames (job.refreshed env y) = writtenNames job y := by
  have padded : heldNames (padTo y.entity job.reprIdx) = heldNames y.entity ++
      List.replicate (job.reprIdx + 1 - y.entity.representations.length) "" := by
    rw [heldNames, padTo, List.map_append, List.map_replicate]
    rfl
  have long : job.reprIdx < (heldNames (padTo y.entity job.reprIdx)).length := by
    rw [padded, heldNames, List.length_append, List.length_map, List.length_replicate]
    omega
  refine List.ext_getElem? fun i => ?_
  rw [writtenNames, ← padded, List.getElem?_set, if_pos long]
  by_cases here : job.reprIdx = i
  · subst here
    obtain ⟨r, found, name, -⟩ := refresh_at y.entity job.reprIdx job.stored
      (env.recipeHash job.vectoriser.modelId job.stored.fields) y.vector
    rw [if_pos rfl, heldNames, List.getElem?_map, Job.refreshed, found, Option.map_some, name]
  · rw [if_neg here, heldNames, List.getElem?_map, Job.refreshed,
      refresh_elsewhere _ _ _ _ _ (Ne.symm here), ← List.getElem?_map]
    rfl

omit [WalPayload Payload] in
theorem get_written (job : Job) (y : Encoded) :
    (writtenNames job y)[job.reprIdx]? = some job.stored.name := by
  have long : job.reprIdx < (heldNames y.entity ++
      List.replicate (job.reprIdx + 1 - y.entity.representations.length) "").length := by
    rw [heldNames, List.length_append, List.length_map, List.length_replicate]
    omega
  rw [writtenNames, List.getElem?_set, if_pos rfl, if_pos long]

theorem step_writes (env : RecomputeEnv) {x : Recomputing} {k : Nat} {job : Job} {y : Encoded}
    {encoded : List Encoded} {later : List Job} {rest : List Group}
    (there : x.tasks[k]? = some (.writing job (y :: encoded) later rest))
    (present : x.state.store.hasCollection job.collection = true) :
    (∀ key, (x.step (.advance env k)).state.store.entities[key]? =
        if (job.collection, y.entity.id) = key then some (job.refreshed env.toEnv y)
        else x.state.store.entities[key]?) ∧
      (x.step (.advance env k)).state.location = x.state.location.tryTransition y.key .clean ∧
      (x.step (.advance env k)).state.schemas = x.state.schemas := by
  obtain ⟨store, location, schemas⟩ := writeBack_put job env.toEnv y present
  simp only [Recomputing.step, there, advance_write]
  refine ⟨fun key => ?_, location, schemas⟩
  rw [store]
  exact Store.get_putEntity _ _ _ _

theorem write_numbered_iff (env : RecomputeEnv) {x : Recomputing} (orderly : Orderly x)
    (numbered : Numbered x.state) {k : Nat} {job : Job} {y : Encoded} {encoded : List Encoded}
    {later : List Job} {rest : List Group}
    (there : x.tasks[k]? = some (.writing job (y :: encoded) later rest))
    (present : x.state.store.hasCollection job.collection = true) :
    Numbered (x.step (.advance env k)).state ↔ KeepsNumbers x (.advance env k) := by
  obtain ⟨⟨registry, jobOk, encodedOk, -, -⟩, -⟩ := orderly.tasks _ (List.mem_of_getElem? there)
  have key : y.key = (y.entity.id, job.reprIdx) := (encodedOk y (List.mem_cons_self ..)).1
  obtain ⟨schema, known, declared⟩ := jobOk.stored
  obtain ⟨entities, location, schemas⟩ := step_writes env there present
  have located (i : Nat) : (x.step (.advance env k)).state.location.get (y.entity.id, i) =
      if i = job.reprIdx then (x.state.location.get y.key).map (LocationTable.moved .clean)
      else x.state.location.get (y.entity.id, i) := by
    rw [location, LocationTable.get_tryTransition, key]
    by_cases here : i = job.reprIdx
    · subst here
      rw [if_pos rfl, if_pos rfl]
    · rw [if_neg here, if_neg fun same => here (Prod.mk.inj same).2.symm]
  have own (d : LocationDescriptor) :
      Describes x.state.schemas job.collection (writtenNames job y) job.reprIdx d := by
    refine ⟨schema, job.stored.name, known, ?_, .inl (get_written job y)⟩
    rw [declaredNames, List.getElem?_map, declared]
    rfl
  rw [numbered_put_iff numbered _ _ _ entities schemas (fun key' other => by
    rw [location, LocationTable.get_tryTransition, if_neg]
    rintro rfl
    exact other (congrArg Prod.fst key)), names_refreshed]
  constructor
  · rintro ⟨distinct, described, others⟩ job' y' encoded' later' rest' there' -
    cases there.symm.trans there'
    refine ⟨distinct, fun i d other found => described i d ?_, fun other e shared d found allowed => ?_⟩
    · rw [located, if_neg other, found]
    · have moved := located job.reprIdx
      rw [if_pos rfl, found, Option.map_some, LocationTable.moved, if_pos allowed] at moved
      obtain ⟨schema', name, -, -, held⟩ := (describes_clean rfl).mp
        (others other e shared.1 shared.2 job.reprIdx _ moved)
      have short := (List.getElem?_eq_some_iff.mp held).1
      rwa [heldNames, List.length_map] at short
  · intro order
    obtain ⟨distinct, elsewhere, shared⟩ := order job y encoded later rest there present
    refine ⟨distinct, fun i d found => ?_, fun other e apart stored i d found => ?_⟩
    · by_cases here : i = job.reprIdx
      · exact here ▸ own d
      · rw [located, if_neg here] at found
        exact elsewhere i d here found
    · rw [located] at found
      split at found
      · rename_i here
        subst here
        obtain ⟨d₀, before, rfl⟩ := Option.map_eq_some_iff.mp found
        have described := numbered.described other _ e _ d₀ stored (key ▸ before)
        unfold LocationTable.moved
        split
        · -- the entry of the namesake turns Clean with this one
          rename_i allowed
          have long := shared other e ⟨apart, stored⟩ d₀ before allowed
          obtain ⟨schema', name, known', declared', held | ⟨missing, -⟩⟩ := described
          · exact ⟨schema', name, known', declared', .inl held⟩
          · rw [List.getElem?_eq_none_iff, heldNames, List.length_map] at missing
            omega
        · exact described
      · exact numbered.described other _ e i d stored found

theorem advance_numbered_iff (env : RecomputeEnv) {x : Recomputing} (k : Nat)
    (orderly : Orderly x) (numbered : Numbered x.state) :
    Numbered (x.step (.advance env k)).state ↔ KeepsNumbers x (.advance env k) := by
  by_cases writes : ∃ job y encoded later rest,
      x.tasks[k]? = some (.writing job (y :: encoded) later rest) ∧
        x.state.store.hasCollection job.collection = true
  · obtain ⟨job, y, encoded, later, rest, there, present⟩ := writes
    exact write_numbered_iff env orderly numbered there present
  · refine iff_of_true ?_ fun job y encoded later rest there present =>
      absurd ⟨job, y, encoded, later, rest, there, present⟩ writes
    simp only [Recomputing.step]
    split
    · exact numbered
    · rename_i task there
      by_cases quiet : ∀ job y encoded later rest, task ≠ .writing job (y :: encoded) later rest
      · obtain ⟨store, schemas, -⟩ := advance_quiet env x.state task quiet
        refine numbered.kept ?_ ?_ (advance_asked env x.state task quiet)
        · dsimp only
          rw [schemas]
          exact .refl _
        · exact congrArg Store.entities store
      · push Not at quiet
        obtain ⟨job, y, encoded, later, rest, rfl⟩ := quiet
        have absent : x.state.store.hasCollection job.collection = false :=
          Bool.eq_false_iff.mpr fun present => writes ⟨job, y, encoded, later, rest, there, present⟩
        obtain ⟨e, failed⟩ := writeBack_absent job env.toEnv y absent
        dsimp only
        rw [advance_write, failed]
        exact numbered.kept (.refl _) rfl fun key d found => ⟨d, found, fun clean => clean⟩

theorem numbered_step {x : Recomputing} (c : Recomputing.Call) (orderly : Orderly x)
    (numbered : Numbered x.state) : Numbered (x.step c).state ↔ KeepsNumbers x c := by
  cases c with
  | createCollection env p =>
    obtain ⟨location, entities⟩ := location_createCollection env x.state p
    refine iff_of_true (numbered.kept (create_extends env p orderly.synced) entities
      fun k d found => ⟨d, location ▸ found, fun clean => clean⟩) trivial
  | insert env p => exact insert_numbered_iff env p orderly.synced orderly.declared numbered
  | updateEntity env p => exact iff_of_true (update_numbered env p numbered) trivial
  | addRepresentation env p => exact add_numbered_iff env p orderly numbered
  | startRecompute env => exact iff_of_true numbered trivial
  | advance env k => exact advance_numbered_iff env k orderly numbered

/-! ### What holds beside the numbers is kept -/

omit [WalPayload Payload] in
theorem groups_stored (s : State) (keys : List ReprKey) : ∀ ce ∈ groupCopies (s.dirtyGroups keys),
    s.store.entities[(ce.1, ce.2.id)]? = some ce.2 := by
  have pushed (group : String × Nat) (entry : ReprKey × Entity) (groups : List Group) :
      ∀ ce ∈ groupCopies (pushGroup group entry groups),
        ce = (group.1, entry.2) ∨ ce ∈ groupCopies groups := by
    induction groups with
    | nil => simp [pushGroup, groupCopies]
    | cons g rest ih =>
      intro ce there
      rw [pushGroup] at there
      split at there
      · rename_i same
        subst same
        simp only [groupCopies, List.flatMap_cons, List.map_append, List.mem_append, List.map_cons,
          List.map_nil, List.mem_singleton] at there ⊢
        tauto
      · simp only [groupCopies, List.flatMap_cons, List.mem_append] at there ⊢
        rcases there with there | there
        · exact .inr (.inl there)
        · exact (ih ce there).imp_right .inr
  unfold State.dirtyGroups
  induction keys using List.reverseRecOn with
  | nil => simp [groupCopies]
  | append_singleton rest key ih =>
    rw [List.foldl_append, List.foldl_cons, List.foldl_nil]
    split
    · exact ih
    · rename_i collection _
      split
      · exact ih
      · rename_i e found
        intro ce there
        rcases pushed _ _ _ ce there with rfl | there
        · have stored := ((s.store.get_eq_ok ..).mp found).2
          dsimp only
          rw [s.store.keyed _ _ _ stored]
          exact stored
        · exact ih ce there

omit [WalPayload Payload] in
theorem openGroup_copies (s : State) (env : RecomputeEnv) (group : Group) :
    ∀ ce ∈ (s.openGroup env group).flatMap Job.copies, ce ∈ group.2.map fun e => (group.1.1, e.2) := by
  unfold State.openGroup
  split
  · simp
  · split
    · simp
    · split
      · simp
      · split
        · simp
        · intro ce there
          obtain ⟨job, listed, copy⟩ := List.mem_flatMap.mp there
          obtain ⟨entries, chunk, rfl⟩ := List.mem_map.mp listed
          obtain ⟨e, entry, rfl⟩ := List.mem_map.mp copy
          refine List.mem_map.mpr ⟨e, ?_, rfl⟩
          rw [← flatten_toChunks env.batchSize group.2]
          exact List.mem_flatten.mpr ⟨entries, chunk, entry⟩

omit [WalPayload Payload] in
theorem encode_copies {job : Job} {encoded : List Encoded} (done : job.encode = .ok encoded) :
    ∀ y ∈ encoded, (job.collection, y.entity) ∈ job.copies := by
  unfold Job.encode at done
  split at done
  · cases done
  · cases done
    intro y there
    obtain ⟨⟨e, vector⟩, zipped, rfl⟩ := List.mem_map.mp there
    exact List.mem_map.mpr ⟨e, (List.of_mem_zip zipped).1, rfl⟩

theorem advance_copies (env : RecomputeEnv) (s : State) (task : Task) :
    ∀ ce ∈ (advance env s task).2.copies, ce ∈ task.copies := by
  have started (rest : List Group) (jobs : List Job) :
      ∀ ce ∈ (startJobs s rest jobs).2.copies, ce ∈ jobs.flatMap Job.copies ++ groupCopies rest := by
    cases jobs with
    | nil => exact fun ce there => there
    | cons job later => exact fun ce there => there
  cases task with
  | groups rest =>
    cases rest with
    | nil => exact fun ce there => there
    | cons group rest =>
      intro ce there
      rcases List.mem_append.mp (started rest _ ce there) with opened | later
      · exact List.mem_append_left _ (openGroup_copies s env group ce opened)
      · exact List.mem_append_right _ later
  | encoding job later rest =>
    intro ce there
    simp only [advance] at there
    simp only [Task.copies, List.append_assoc]
    split at there
    · exact List.mem_append_right _ (started rest later ce there)
    · rename_i encoded done
      simp only [Task.copies, List.append_assoc] at there
      rcases List.mem_append.mp there with own | others
      · obtain ⟨y, listed, rfl⟩ := List.mem_map.mp own
        exact List.mem_append_left _ (encode_copies done y listed)
      · exact List.mem_append_right _ others
  | writing job encoded later rest =>
    intro ce there
    cases encoded with
    | nil => exact started rest later ce there
    | cons y encoded =>
      simp only [advance] at there
      split at there
      · exact List.mem_cons_of_mem _ there
      · cases there
  | failed e => exact fun ce there => there

theorem taskOk_advance_any (env : RecomputeEnv) (s : State) {task : Task}
    (ok : ∃ registry, TaskOk registry s.schemas task) :
    ∃ registry, TaskOk registry s.schemas (advance env s task).2 := by
  obtain ⟨registry, ok⟩ := ok
  cases task with
  | groups rest =>
    -- only groups are looked up with the vectorisers of this step
    have groups : TaskOk env.vectoriser s.schemas (.groups rest) := ok
    exact ⟨env.vectoriser, taskOk_advance env.vectoriser env s groups⟩
  | encoding job later rest => exact ⟨registry, taskOk_advance registry env s ok⟩
  | writing job encoded later rest =>
    obtain ⟨jobOk, encodedOk, laterOk, restOk⟩ := ok
    refine ⟨registry, ?_⟩
    cases encoded with
    | nil => exact taskOk_startJobs registry s laterOk restOk
    | cons y encoded =>
      simp only [advance]
      split
      · exact ⟨jobOk, fun y' there => encodedOk y' (List.mem_cons_of_mem _ there), laterOk, restOk⟩
      · trivial
  | failed e => exact ⟨registry, trivial⟩

theorem advance_extends (env : RecomputeEnv) (s : State) (task : Task) :
    Extends s.schemas (advance env s task).1.schemas := by
  rw [advance_schemas]
  exact .refl _

theorem step_extends {x : Recomputing} (synced : Synced x.state) (c : Recomputing.Call) :
    Extends x.state.schemas (x.step c).state.schemas := by
  cases c with
  | createCollection env p => exact create_extends env p synced
  | insert env p => exact (sameSchemas_insert env x.state p).schemas ▸ .refl _
  | updateEntity env p => exact (sameSchemas_updateEntity env x.state p).schemas ▸ .refl _
  | addRepresentation env p =>
    rcases addRepresentation_ends env synced p with ⟨same, -⟩ | ⟨schema, known, added⟩
    · simp only [Recomputing.step, same]
      exact .refl _
    · exact added_extends known added
  | startRecompute env => exact .refl _
  | advance env k =>
    simp only [Recomputing.step]
    split
    · exact .refl _
    · exact advance_extends env x.state _

/-- The schemas a step leaves are those before it, one more without duplicates, or one with
another name behind the ones it had. -/
theorem step_declared {x : Recomputing} (orderly : Orderly x) (c : Recomputing.Call)
    (name : String) (schema : CollectionSchema)
    (known : (x.step c).state.schemas[name]? = some schema) : (declaredNames schema).Nodup := by
  have kept (same : (x.step c).state.schemas = x.state.schemas) : (declaredNames schema).Nodup :=
    orderly.declared name schema (same ▸ known)
  cases c with
  | createCollection env p =>
    rcases createCollection_ends env x.state p with leaves | created
    · exact kept leaves.schemas
    · rw [show (x.step (.createCollection env p)).state.schemas = _ from created.schemas,
        FinMap.get_insert] at known
      split at known
      · cases known
        have checked := created.checked
        unfold checkDuplicates at checked
        split at checked
        · cases checked
        · rename_i none_
          have names : declaredNames (buildCollectionSchema p) =
              p.representations.map RepresentationDecl.name := by
            rw [declaredNames, buildCollectionSchema, List.map_map]
            rfl
          exact names ▸ (nodup_of_findDuplicate none_).1
      · exact orderly.declared name schema known
  | insert env p => exact kept (sameSchemas_insert env x.state p).schemas
  | updateEntity env p => exact kept (sameSchemas_updateEntity env x.state p).schemas
  | addRepresentation env p =>
    rcases addRepresentation_ends env orderly.synced p with ⟨same, -⟩ | ⟨old, there, added⟩
    · exact kept (congrArg State.schemas same)
    · rw [show (x.step (.addRepresentation env p)).state.schemas = _ from added.schemas,
        FinMap.get_insert] at known
      split at known
      · cases known
        rw [declared_added, ← List.concat_eq_append]
        exact (orderly.declared _ old there).concat added.fresh
      · exact orderly.declared name schema known
  | startRecompute env => exact kept rfl
  | advance env k =>
    refine kept ?_
    simp only [Recomputing.step]
    split
    · rfl
    · exact advance_schemas env x.state _

theorem step_synced {x : Recomputing} (synced : Synced x.state) (c : Recomputing.Call) :
    Synced (x.step c).state := by
  cases c with
  | createCollection env p => exact synced_createCollection synced p
  | insert env p => exact (sameSchemas_insert env x.state p).synced synced
  | updateEntity env p => exact (sameSchemas_updateEntity env x.state p).synced synced
  | addRepresentation env p => exact synced_alterCollection synced p.alter
  | startRecompute env => exact synced
  | advance env k =>
    simp only [Recomputing.step]
    split
    · exact synced
    · exact (sameSchemas_advance env x.state _).synced synced

theorem step_within {x : Recomputing} (orderly : Orderly x) (c : Recomputing.Call)
    (keeps : KeepsNumbers x c) (collection : String) (id : LogicalId) (e : Entity)
    (stored : (x.step c).state.store.entities[(collection, id)]? = some e) :
    Within (x.step c).state.schemas collection e := by
  have grown := step_extends orderly.synced c
  have kept (same : (x.step c).state.store.entities = x.state.store.entities) :
      Within (x.step c).state.schemas collection e :=
    grown.within (orderly.stored collection id e (same ▸ stored))
  cases c with
  | createCollection env p => exact kept (location_createCollection env x.state p).2
  | insert env p =>
    cases insert_ends env x.state p with
    | refused error rejected result =>
      exact kept (congrArg (fun o => o.2.store.entities) result)
    | unbuilt schema error known checked built result =>
      refine kept ((congrArg (fun o => o.2.store.entities) result).trans ?_)
      exact removeOldEntries_entities _ _ _ _
    | unstored schema e' known checked built absent result =>
      obtain ⟨error, entries, result⟩ := result
      refine kept ((congrArg (fun o => o.2.store.entities) result).trans ?_)
      exact removeOldEntries_entities _ _ _ _
    | stored schema e' known checked built present wal left =>
      rw [show (x.step (.insert env p)).state.store.entities = _ from left.entities,
        removeOldEntries_entities, FinMap.get_insert] at stored
      split at stored
      · rename_i here
        cases here
        cases stored
        have short := ((keeps schema known checked ⟨e', built⟩).1).length_le
        rw [← names_built built, heldNames, List.length_map, declaredNames, List.length_map] at short
        exact grown.within ⟨schema, known, short⟩
      · exact grown.within (orderly.stored collection id e stored)
  | updateEntity env p =>
    rcases updateEntity_ends env x.state p with same | ⟨old, there, entities, -⟩
    · exact kept (congrArg (fun s => s.store.entities) same)
    · rw [show (x.step (.updateEntity env p)).state.store.entities = _ from entities,
        FinMap.get_insert] at stored
      split at stored
      · rename_i here
        cases here
        cases stored
        obtain ⟨schema, known, short⟩ := orderly.stored _ _ _ there
        exact grown.within ⟨schema, known, short⟩
      · exact grown.within (orderly.stored collection id e stored)
  | addRepresentation env p =>
    rcases addRepresentation_ends env orderly.synced p with ⟨same, -⟩ | ⟨schema, known, added⟩
    · exact kept (congrArg (fun s => s.store.entities) same)
    · exact kept added.entities
  | startRecompute env => exact kept rfl
  | advance env k =>
    by_cases writes : ∃ job y encoded later rest,
        x.tasks[k]? = some (.writing job (y :: encoded) later rest) ∧
          x.state.store.hasCollection job.collection = true
    · obtain ⟨job, y, encoded, later, rest, there, present⟩ := writes
      rw [(step_writes env there present).1] at stored
      split at stored
      · rename_i here
        cases here
        cases stored
        obtain ⟨⟨registry, jobOk, -⟩, copies⟩ := orderly.tasks _ (List.mem_of_getElem? there)
        obtain ⟨schema, known, declared⟩ := jobOk.stored
        obtain ⟨schema', known', short⟩ := copies (job.collection, y.entity) (by simp [Task.copies])
        cases known.symm.trans known'
        refine grown.within ⟨schema, known, ?_⟩
        have index := (List.getElem?_eq_some_iff.mp declared).1
        have length : (job.refreshed env.toEnv y).representations.length =
            (padTo y.entity job.reprIdx).representations.length := by
          rw [Job.refreshed, refresh, List.length_modify]
        rw [length, padTo, List.length_append, List.length_replicate]
        dsimp only at short
        omega
      · exact grown.within (orderly.stored collection id e stored)
    · refine kept ?_
      simp only [Recomputing.step]
      split
      · rfl
      · rename_i task there
        by_cases quiet : ∀ job y encoded later rest, task ≠ .writing job (y :: encoded) later rest
        · exact congrArg Store.entities (advance_quiet env x.state task quiet).1
        · push Not at quiet
          obtain ⟨job, y, encoded, later, rest, rfl⟩ := quiet
          have absent : x.state.store.hasCollection job.collection = false :=
            Bool.eq_false_iff.mpr fun present => writes ⟨job, y, encoded, later, rest, there, present⟩
          obtain ⟨error, failed⟩ := writeBack_absent job env.toEnv y absent
          dsimp only
          rw [advance_write, failed]
          rfl

theorem orderly_step {x : Recomputing} (orderly : Orderly x) (c : Recomputing.Call)
    (keeps : KeepsNumbers x c) : Orderly (x.step c) := by
  have grown := step_extends orderly.synced c
  have kept : ∀ task ∈ x.tasks, (∃ registry, TaskOk registry (x.step c).state.schemas task) ∧
      ∀ ce ∈ task.copies, Within (x.step c).state.schemas ce.1 ce.2 := by
    intro task there
    obtain ⟨⟨registry, ok⟩, copies⟩ := orderly.tasks task there
    exact ⟨⟨registry, grown.taskOk ok⟩, fun ce listed => grown.within (copies ce listed)⟩
  refine ⟨step_synced orderly.synced c, step_declared orderly c, step_within orderly c keeps, ?_⟩
  cases c with
  | createCollection | insert | updateEntity | addRepresentation => exact kept
  | startRecompute env =>
    intro task there
    rcases List.mem_append.mp there with there | there
    · exact kept task there
    · rw [List.mem_singleton] at there
      subst there
      have listed : ∀ group ∈ env.groupOrder.order
          (x.state.dirtyGroups (env.dirtyOrder.order x.state.location.iterDirty)),
          group ∈ x.state.dirtyGroups (env.dirtyOrder.order x.state.location.iterDirty) :=
        fun group => (env.groupOrder.perm _).mem_iff.mp
      refine ⟨⟨fun _ _ => none, fun group there => groupsOk_dirty _ _ group (listed group there)⟩,
        fun ce copy => ?_⟩
      obtain ⟨group, there, copy⟩ := List.mem_flatMap.mp copy
      exact orderly.stored _ _ _ (groups_stored _ _ ce
        (List.mem_flatMap.mpr ⟨group, listed group there, copy⟩))
  | advance env k =>
    simp only [Recomputing.step] at kept ⊢
    split
    · rename_i none_
      exact orderly.tasks
    · rename_i task found
      intro task' there
      dsimp only at there ⊢
      rw [advance_schemas]
      rcases List.mem_or_eq_of_mem_set there with old | rfl
      · exact orderly.tasks task' old
      · obtain ⟨ok, copies⟩ := orderly.tasks task (List.mem_of_getElem? found)
        exact ⟨taskOk_advance_any env x.state ok, fun ce copy =>
          copies ce (advance_copies env x.state task ce copy)⟩

/-! ### What a recompute changes -/

/-- An UPDATE changes entries of representations it edits a field of. A write-back to a
collection that is there gives the new vector to the representation the schema has at the
index of the entry, and leaves every other representation of its copy as it is. -/
def RecomputesOwn (x : Recomputing) : Recomputing.Call → Prop
  | .updateEntity env p => ∀ i,
      (x.step (.updateEntity env p)).state.location.get (p.entityId, i) ≠
        x.state.location.get (p.entityId, i) →
      ∃ schema stored, x.state.schemas[p.collection]? = some schema ∧
        schema.representations[i]? = some stored ∧
        ∃ f ∈ stored.fields, ∃ a ∈ p.assignments, a.1 = f
  | .advance env k => ∀ job y encoded later rest,
      x.tasks[k]? = some (.writing job (y :: encoded) later rest) →
      x.state.store.hasCollection job.collection = true →
      ∃ schema stored e, x.state.schemas[job.collection]? = some schema ∧
        schema.representations[y.key.2]? = some stored ∧
        (x.step (.advance env k)).state.store.entities[(job.collection, y.key.1)]? = some e ∧
        (∃ r ∈ e.representations, r.name = stored.name) ∧
        ∀ r ∈ e.representations, (r.name = stored.name → r.vector = y.vector) ∧
          (r.name ≠ stored.name → r ∈ (padTo y.entity job.reprIdx).representations)
  | _ => True

omit [WalPayload Payload] in
theorem edited_of_dirty {schema : Option CollectionSchema} {assignments : List (String × Literal)}
    {i : Nat} (dirty : i ∈ dirtyReprIndices schema assignments) :
    ∃ known stored, schema = some known ∧ known.representations[i]? = some stored ∧
      ∃ f ∈ stored.fields, ∃ a ∈ assignments, a.1 = f := by
  cases schema with
  | none => cases dirty
  | some known =>
    have listed := dirty
    unfold dirtyReprIndices at listed
    obtain ⟨⟨stored, j⟩, there, rfl⟩ := List.mem_map.mp listed
    have declared := List.mem_zipIdx_iff_getElem?.mp (List.mem_filter.mp there).1
    exact ⟨known, stored, rfl, declared, ((mem_dirtyReprIndices declared).mp dirty).2⟩

theorem recomputes_own {x : Recomputing} (orderly : Orderly x) (c : Recomputing.Call)
    (after : Numbered (x.step c).state) : RecomputesOwn x c := by
  cases c with
  | createCollection | insert | addRepresentation | startRecompute => trivial
  | updateEntity env p =>
    intro i changed
    rcases updateEntity_ends env x.state p with same | ⟨old, -, -, location⟩
    · exact absurd (congrArg (fun s => s.location.get (p.entityId, i)) same) changed
    · by_cases dirty : i ∈ dirtyReprIndices x.state.schemas[p.collection]? p.assignments
      · exact edited_of_dirty dirty
      · refine absurd ?_ changed
        rw [show (x.step (.updateEntity env p)).state.location = _ from location]
        refine LocationTable.get_asked_elsewhere _ _ fun listed => dirty ?_
        obtain ⟨j, there, same⟩ := List.mem_map.mp listed
        exact (Prod.mk.inj same).2 ▸ there
  | advance env k =>
    intro job y encoded later rest there present
    obtain ⟨⟨registry, jobOk, encodedOk, -, -⟩, -⟩ := orderly.tasks _ (List.mem_of_getElem? there)
    have key : y.key = (y.entity.id, job.reprIdx) := (encodedOk y (List.mem_cons_self ..)).1
    obtain ⟨schema, known, declared⟩ := jobOk.stored
    have written := (step_writes env there present).1 (job.collection, y.entity.id)
    rw [if_pos rfl] at written
    have distinct := after.distinct _ _ _ written
    have own : (heldNames (job.refreshed env.toEnv y))[job.reprIdx]? = some job.stored.name := by
      rw [names_refreshed]
      exact get_written job y
    obtain ⟨new, at_, name, vector⟩ := refresh_at y.entity job.reprIdx job.stored
      (env.recipeHash job.vectoriser.modelId job.stored.fields) y.vector
    refine ⟨schema, job.stored, _, known, key ▸ declared, key ▸ written,
      ⟨new, List.mem_of_getElem? at_, name⟩, fun r listed => ?_⟩
    obtain ⟨j, place⟩ := List.mem_iff_getElem?.mp listed
    have named : (heldNames (job.refreshed env.toEnv y))[j]? = some r.name := by
      rw [heldNames, List.getElem?_map]
      exact congrArg (Option.map Representation.name) place
    by_cases here : j = job.reprIdx
    · subst here
      have same : r = new := Option.some.inj (place.symm.trans at_)
      subst same
      exact ⟨fun _ => vector, fun other => absurd name other⟩
    · refine ⟨fun same => ?_, fun _ => ?_⟩
      · rw [same] at named
        have short := (List.getElem?_eq_some_iff.mp named).1
        exact absurd ((List.getElem?_inj short distinct).mp (named.trans own.symm)) here
      · have kept := refresh_elsewhere y.entity job.reprIdx job.stored
          (env.recipeHash job.vectoriser.modelId job.stored.fields) y.vector here
        exact List.mem_of_getElem? (kept.symm.trans place)

/-! ### Runs -/

theorem orderly_start (config : WalConfig) : Orderly (.start config) where
  synced := synced_init config
  declared c schema known := by simp [Recomputing.start, State.init] at known
  stored c id e stored := by simp [Recomputing.start, State.init, Store.empty] at stored
  tasks := by simp [Recomputing.start]

theorem numbered_start (config : WalConfig) : Numbered (Recomputing.start config).state where
  distinct c id e stored := by simp [Recomputing.start, State.init, Store.empty] at stored
  described c id e i d stored := by simp [Recomputing.start, State.init, Store.empty] at stored

/-- The numbers agree in every state of a run iff every call of it keeps them, and where they
agree every recompute changes the representation whose fields were edited and no other. -/
theorem numbers_agree_iff (config : WalConfig) (calls : List Recomputing.Call) :
    ((∀ x ∈ Run.visited Recomputing.step (.start config) calls, Numbered x.state) ↔
      ∀ xc ∈ Run.taken Recomputing.step (.start config) calls, KeepsNumbers xc.1 xc.2) ∧
    ((∀ x ∈ Run.visited Recomputing.step (.start config) calls, Numbered x.state) →
      ∀ xc ∈ Run.taken Recomputing.step (.start config) calls, RecomputesOwn xc.1 xc.2) := by
  have decided := Run.good_iff_guarded Recomputing.step Orderly (fun x => Numbered x.state)
    KeepsNumbers calls (orderly_start config) (numbered_start config)
    (fun x c orderly _ keeps => orderly_step orderly c keeps)
    fun x c orderly numbered => numbered_step c orderly numbered
  refine ⟨decided, fun good xc there => ?_⟩
  have guarded := decided.mp good
  have orderly := @Run.invariant_under _ _ Recomputing.step
    (fun x => Orderly x ∧ Numbered x.state) KeepsNumbers _ calls ⟨orderly_start config, numbered_start config⟩ guarded
    (fun x c both keeps => ⟨orderly_step both.1 c keeps, (numbered_step c both.1 both.2).mpr keeps⟩)
    xc.1 (Run.visited_of_taken Recomputing.step _ calls xc there)
  exact recomputes_own orderly.1 xc.2
    ((numbered_step xc.2 orderly.1 orderly.2).mpr (guarded xc there))

end Recomputes

/-- A document whose body comes with its vector; the title is encoded. -/
def bodyGiven : InsertPlan where
  collection := "docs"
  fields := ["id", "title", "body"]
  values := [.string "d", .string "a", .string "b"]
  vectors := [("body", .dense [⟨0⟩])]
  validFrom := none
  validTo := none

/-- It is inserted, its title gets longer, and a recompute does what has become Dirty. -/
def retitled : List Recomputing.Call :=
  [.createCollection measuring.toEnv docs, .insert measuring.toEnv bodyGiven,
    .updateEntity measuring.toEnv ⟨"d", "docs", [("title", .string "aa")]⟩,
    .startRecompute measuring] ++ List.replicate 4 (.advance measuring 0)

section Examples
attribute [local instance] headerOnly

/-- The vector of the title has been written over the one of the body, and the document has
two titles. -/
theorem body_overwritten : ¬ Numbered (retitled.foldl Recomputing.step (.start default)).state := by
  intro numbered
  have stored : ((retitled.foldl Recomputing.step
      (.start default)).state.store.entities[("docs", "d")]?.map fun e =>
        e.representations.map fun r => (r.name, r.vector)) =
      some [("title", .dense [⟨2⟩]), ("title", .dense [⟨1⟩])] := by decide
  obtain ⟨e, found, shape⟩ := Option.map_eq_some_iff.mp stored
  have names : heldNames e = ["title", "title"] := by
    have firsts := congrArg (List.map Prod.fst) shape
    rwa [List.map_map] at firsts
  have distinct := numbered.distinct _ _ e found
  rw [names] at distinct
  exact absurd distinct (by decide)

end Examples
end TronDB.Engine
