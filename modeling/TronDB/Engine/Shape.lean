import TronDB.Engine.Restart

/-! Which ALTER operations keep a schema well-formed. -/
namespace TronDB.Engine
open TronDB.Core Binary Wal

section ModifyFirst
variable {α : Type} {test : α → Bool} {f : α → α}

theorem modifyFirst_split {l : List α} (present : l.any test = true) :
    ∃ before a after, l = before ++ a :: after ∧ test a = true ∧
      modifyFirst test f l = before ++ f a :: after := by
  induction l with
  | nil => cases present
  | cons a rest ih =>
    by_cases here : test a = true
    · exact ⟨[], a, rest, rfl, here, by simp [modifyFirst, here]⟩
    · have later : rest.any test = true := by simpa [here] using present
      obtain ⟨before, b, after, rfl, tested, changed⟩ := ih later
      exact ⟨a :: before, b, after, rfl, tested, by simp [modifyFirst, here, changed]⟩

end ModifyFirst

/-! ### Schemas -/

def fieldNames (schema : CollectionSchema) : List String := schema.fields.map StoredField.name

/-- Names are distinct, and indexes and representations use declared fields. -/
structure WellFormed (schema : CollectionSchema) : Prop where
  fields : (fieldNames schema).Nodup
  representations : (schema.representations.map StoredRepresentation.name).Nodup
  indexes : (schema.indexes.map StoredIndex.name).Nodup
  indexed : ∀ idx ∈ schema.indexes, ∀ f ∈ idx.fields, f ∈ fieldNames schema
  represented : ∀ r ∈ schema.representations, ∀ f ∈ r.fields, f ∈ fieldNames schema

/-- Neither an index nor a representation uses the field. -/
def Unused (schema : CollectionSchema) (field : String) : Prop :=
  (∀ idx ∈ schema.indexes, field ∉ idx.fields) ∧ ∀ r ∈ schema.representations, field ∉ r.fields

/-- A new name is new and an old one in no use; the fields a representation is given are
declared. -/
def KeepsShape (schema : CollectionSchema) : SchemaAlterOp → Prop
  | .renameField oldName newName =>
    newName = oldName ∨ newName ∉ fieldNames schema ∧ Unused schema oldName
  | .dropField fieldName => Unused schema fieldName
  | .alterRepresentationSetFields _ fields | .addRepresentation _ _ _ _ fields =>
    ∀ f ∈ fields, f ∈ fieldNames schema
  | .setModel _ _ | .alterRepresentationSetModel _ _ _ => True

variable {schema : CollectionSchema}

theorem uses_kept (wf : WellFormed schema) {names : List String} {field : String}
    (unused : Unused schema field) (kept : ∀ f ∈ fieldNames schema, f ≠ field → f ∈ names) :
    (∀ idx ∈ schema.indexes, ∀ f ∈ idx.fields, f ∈ names) ∧
      ∀ r ∈ schema.representations, ∀ f ∈ r.fields, f ∈ names := by
  constructor
  · intro idx there f used
    refine kept f (wf.indexed idx there f used) ?_
    rintro rfl
    exact unused.1 idx there used
  · intro r there f used
    refine kept f (wf.represented r there f used) ?_
    rintro rfl
    exact unused.2 r there used

theorem unused_of_gone {names : List String} {field : String} (gone : field ∉ names)
    (indexed : ∀ idx ∈ schema.indexes, ∀ f ∈ idx.fields, f ∈ names)
    (represented : ∀ r ∈ schema.representations, ∀ f ∈ r.fields, f ∈ names) :
    Unused schema field :=
  ⟨fun idx there used => gone (indexed idx there field used),
    fun r there used => gone (represented r there field used)⟩

theorem rename_iff (wf : WellFormed schema) {oldName newName : String}
    (declared : schema.fields.any (fun f => f.name = oldName) = true) :
    WellFormed (alterSchema schema (.renameField oldName newName)) ↔
      KeepsShape schema (.renameField oldName newName) := by
  obtain ⟨before, field, after, fields, named, renamed⟩ :=
    modifyFirst_split (f := fun f : StoredField => { f with name := newName }) declared
  have old : field.name = oldName := of_decide_eq_true named
  have names : fieldNames schema = before.map StoredField.name ++ oldName :: after.map StoredField.name := by
    rw [fieldNames, fields, List.map_append, List.map_cons, old]
  have names' : fieldNames (alterSchema schema (.renameField oldName newName)) =
      before.map StoredField.name ++ newName :: after.map StoredField.name := by
    rw [fieldNames, alterSchema, renamed, List.map_append, List.map_cons]
  generalize before.map StoredField.name = front at names names'
  generalize after.map StoredField.name = back at names names'
  have distinct := wf.fields
  rw [names, List.nodup_middle, List.nodup_cons] at distinct
  constructor
  · intro wf'
    by_cases same : newName = oldName
    · exact .inl same
    · have distinct' := wf'.fields
      rw [names', List.nodup_middle, List.nodup_cons] at distinct'
      refine .inr ⟨?_, unused_of_gone ?_ wf'.indexed wf'.represented⟩
      · rw [names]
        simpa [same] using distinct'.1
      · rw [names']
        simpa [Ne.symm same] using distinct.1
  · rintro (rfl | ⟨fresh, unused⟩)
    · have same : fieldNames (alterSchema schema (.renameField newName newName)) =
          fieldNames schema := names'.trans names.symm
      exact ⟨same ▸ wf.fields, wf.representations, wf.indexes, same ▸ wf.indexed,
        same ▸ wf.represented⟩
    · obtain ⟨indexed, represented⟩ := @uses_kept _ wf
        (fieldNames (alterSchema schema (.renameField oldName newName))) _ unused (by
          intro f there other
          rw [names] at there
          rw [names']
          simp only [List.mem_append, List.mem_cons, other, false_or] at there ⊢
          tauto)
      refine ⟨?_, wf.representations, wf.indexes, indexed, represented⟩
      rw [names', List.nodup_middle, List.nodup_cons]
      refine ⟨fun there => fresh ?_, distinct.2⟩
      rw [names]
      simp only [List.mem_append, List.mem_cons] at there ⊢
      tauto

theorem drop_iff (wf : WellFormed schema) (fieldName : String) :
    WellFormed (alterSchema schema (.dropField fieldName)) ↔
      KeepsShape schema (.dropField fieldName) := by
  have names : ∀ f, f ∈ fieldNames (alterSchema schema (.dropField fieldName)) ↔
      f ∈ fieldNames schema ∧ f ≠ fieldName := by
    intro f
    simp only [fieldNames, alterSchema, List.mem_map, List.mem_filter, decide_eq_true_eq]
    constructor
    · rintro ⟨field, ⟨there, other⟩, rfl⟩
      exact ⟨⟨field, there, rfl⟩, other⟩
    · rintro ⟨⟨field, there, rfl⟩, other⟩
      exact ⟨field, ⟨there, other⟩, rfl⟩
  constructor
  · intro wf'
    exact unused_of_gone (fun there => ((names fieldName).mp there).2 rfl) wf'.indexed wf'.represented
  · intro unused
    obtain ⟨indexed, represented⟩ :=
      uses_kept wf unused fun f there other => (names f).mpr ⟨there, other⟩
    exact ⟨wf.fields.sublist (List.filter_sublist.map _), wf.representations, wf.indexes, indexed,
      represented⟩

theorem represented_iff (wf : WellFormed schema) {schema' : CollectionSchema}
    (fields : schema'.fields = schema.fields) (indexes : schema'.indexes = schema.indexes)
    (names : (schema'.representations.map StoredRepresentation.name).Nodup) :
    WellFormed schema' ↔
      ∀ r ∈ schema'.representations, ∀ f ∈ r.fields, f ∈ fieldNames schema := by
  have same : fieldNames schema' = fieldNames schema := by rw [fieldNames, fields, fieldNames]
  constructor
  · intro wf'
    rw [← same]
    exact wf'.represented
  · intro represented
    exact ⟨same ▸ wf.fields, names, indexes ▸ wf.indexes,
      by rw [same, indexes]; exact wf.indexed, by rw [same]; exact represented⟩

theorem setFields_iff (wf : WellFormed schema) {reprName : String} (fields : List String)
    (present : schema.representations.any (fun r => r.name = reprName) = true) :
    WellFormed (alterSchema schema (.alterRepresentationSetFields reprName fields)) ↔
      KeepsShape schema (.alterRepresentationSetFields reprName fields) := by
  obtain ⟨before, r, after, reprs, -, changed⟩ :=
    modifyFirst_split (f := fun r : StoredRepresentation => { r with fields }) present
  have represented := wf.represented
  have names := wf.representations
  rw [reprs] at represented names
  rw [@represented_iff _ wf (alterSchema schema _) rfl rfl
    (by rw [alterSchema, changed]; simpa using names)]
  rw [alterSchema, changed]
  constructor
  · intro all
    exact all _ (List.mem_append_right _ (List.mem_cons_self ..))
  · intro declared r' there
    rcases List.mem_append.mp there with there | there
    · exact represented r' (List.mem_append_left _ there)
    · rcases List.mem_cons.mp there with rfl | there
      · exact declared
      · exact represented r' (List.mem_append_right _ (List.mem_cons_of_mem _ there))

theorem addRepresentation_iff (wf : WellFormed schema) {name : String} (dimensions : Option Nat)
    (metric : Metric) (sparse : Bool) (fields : List String)
    (absent : schema.representations.any (fun r => r.name = name) = false) :
    WellFormed (alterSchema schema (.addRepresentation name dimensions metric sparse fields)) ↔
      KeepsShape schema (.addRepresentation name dimensions metric sparse fields) := by
  have fresh : name ∉ schema.representations.map StoredRepresentation.name := by
    intro there
    obtain ⟨r, listed, rfl⟩ := List.mem_map.mp there
    rw [List.any_eq_false] at absent
    exact absent r listed (decide_eq_true rfl)
  rw [@represented_iff _ wf (alterSchema schema _) rfl rfl
    (by
      rw [alterSchema, List.map_append]
      exact List.nodup_append.mpr ⟨wf.representations, by simp,
        fun a there b last => by
          rw [List.map_singleton, List.mem_singleton] at last
          have same : b = name := last
          rintro rfl
          exact fresh (same ▸ there)⟩)]
  rw [alterSchema]
  simp only [List.mem_append, List.mem_singleton]
  constructor
  · intro all
    exact all _ (.inr rfl)
  · rintro declared r (there | rfl)
    · exact wf.represented r there
    · exact declared

theorem setModel_kept (wf : WellFormed schema) (reprName model modelPath : String) :
    WellFormed (alterSchema schema (.alterRepresentationSetModel reprName model modelPath)) := by
  have names : (alterSchema schema
      (.alterRepresentationSetModel reprName model modelPath)).representations.map
        StoredRepresentation.name = schema.representations.map StoredRepresentation.name := by
    unfold alterSchema
    exact modifyFirst_map (by simp) _
  have fields : (alterSchema schema
      (.alterRepresentationSetModel reprName model modelPath)).representations.map
        StoredRepresentation.fields = schema.representations.map StoredRepresentation.fields := by
    unfold alterSchema
    exact modifyFirst_map (by simp) _
  refine (@represented_iff _ wf (alterSchema schema _) rfl rfl
    (by rw [names]; exact wf.representations)).mpr fun r there => ?_
  have listed := List.mem_map_of_mem (f := StoredRepresentation.fields) there
  rw [fields] at listed
  obtain ⟨r', there', same⟩ := List.mem_map.mp listed
  exact same ▸ wf.represented r' there'

theorem wellFormed_alter_iff (wf : WellFormed schema) {op : SchemaAlterOp}
    (applied : alterApplies schema op = true ∨ ∃ fieldName, op = .dropField fieldName) :
    WellFormed (alterSchema schema op) ↔ KeepsShape schema op := by
  cases op with
  | renameField oldName newName => exact rename_iff wf (applied.resolve_right (by simp))
  | dropField fieldName => exact drop_iff wf fieldName
  | setModel model modelPath =>
    exact iff_of_true ⟨wf.fields, wf.representations, wf.indexes, wf.indexed, wf.represented⟩ trivial
  | alterRepresentationSetFields reprName fields =>
    exact setFields_iff wf fields (applied.resolve_right (by simp))
  | alterRepresentationSetModel reprName model modelPath =>
    exact iff_of_true (setModel_kept wf reprName model modelPath) trivial
  | addRepresentation name dimensions metric sparse fields =>
    refine addRepresentation_iff wf dimensions metric sparse fields ?_
    simpa [alterApplies] using applied

/-! ### Entities -/

/-- A renamed value is found under the new name, and every other value where it was. -/
def ValuesKept (oldName newName : String) (e e' : Entity) : Prop :=
  (∀ v, e.metadata[oldName]? = some v → e'.metadata[newName]? = some v) ∧
    ∀ k v, k ≠ oldName → e.metadata[k]? = some v → e'.metadata[k]? = some v

/-- An entity with values under both names has the same value under both. -/
theorem valuesKept_iff (e : Entity) (oldName newName : String) :
    ValuesKept oldName newName e ((alterEntity e (.renameField oldName newName)).getD e) ↔
      ∀ v w, e.metadata[oldName]? = some v → e.metadata[newName]? = some w → v = w := by
  unfold alterEntity
  cases old : e.metadata[oldName]? with
  | none => simp [ValuesKept, old]
  | some value =>
    have renamed (k : String) : ((e.metadata.erase oldName).insert newName value)[k]? =
        if newName = k then some value else if oldName = k then none else e.metadata[k]? := by
      rw [FinMap.get_insert, FinMap.get_erase]
    simp only [ValuesKept, Option.map_some, Option.getD_some, renamed, old, Option.some.injEq]
    constructor
    · rintro ⟨-, others⟩ v w rfl new
      by_cases same : newName = oldName
      · subst same
        exact Option.some.inj (old.symm.trans new)
      · have kept := others newName w same new
        rw [if_pos rfl] at kept
        exact Option.some.inj kept
    · intro agree
      refine ⟨by simp, fun k v other there => ?_⟩
      split
      · rename_i here
        subst here
        exact congrArg some (agree value v rfl there)
      · rw [if_neg (Ne.symm other), there]

theorem insertAll_entities {collection : String} {entities : List Entity} {store store' : Store}
    (ok : insertAll store collection entities = (.ok (), store')) :
    store'.collections = store.collections ∧ store'.entities =
      FinMap.insertAll store.entities (entities.map fun e => ((collection, e.id), e)) := by
  induction entities generalizing store with
  | nil =>
    cases ok
    exact ⟨rfl, rfl⟩
  | cons e rest ih =>
    unfold insertAll Store.insert at ok
    by_cases present : store.hasCollection collection
    · rw [if_pos present] at ok
      exact ih ok
    · rw [if_neg present] at ok
      cases ok

theorem id_alterEntity {e e' : Entity} {op : SchemaAlterOp} (altered : alterEntity e op = some e') :
    e'.id = e.id := by
  unfold alterEntity at altered
  split at altered
  · obtain ⟨v, -, rfl⟩ := Option.map_eq_some_iff.mp altered
    rfl
  · obtain ⟨v, -, rfl⟩ := Option.map_eq_some_iff.mp altered
    rfl
  · cases altered

theorem get_altered (store : Store) (collection : String) (op : SchemaAlterOp) (id : LogicalId) :
    (FinMap.insertAll store.entities (((store.partition collection).filterMap fun e =>
        alterEntity e op).map fun e => ((collection, e.id), e)))[(collection, id)]? =
      store.entities[(collection, id)]?.map fun e => (alterEntity e op).getD e := by
  generalize mutated : (store.partition collection).filterMap (fun e => alterEntity e op) = entities
  have sources : ∀ e' ∈ entities, ∃ e, store.entities[(collection, e.id)]? = some e ∧
      alterEntity e op = some e' ∧ e'.id = e.id := by
    rw [← mutated]
    intro e' there
    obtain ⟨e, listed, altered⟩ := List.mem_filterMap.mp there
    exact ⟨e, (store.mem_partition collection e).mp listed, altered, id_alterEntity altered⟩
  have distinct : ((entities.map fun e => ((collection, e.id), e)).map Prod.fst).Nodup := by
    have ids := store.nodup_partition collection
    rw [List.nodup_iff_pairwise_ne, List.pairwise_map] at ids
    rw [← mutated, List.map_map, List.nodup_iff_pairwise_ne, List.pairwise_map,
      List.pairwise_filterMap]
    refine ids.imp fun {a b} apart a' alteredA b' alteredB same => apart ?_
    rw [← id_alterEntity alteredA, ← id_alterEntity alteredB]
    exact (Prod.mk.inj same).2
  have absent (none : ∀ e, store.entities[(collection, id)]? = some e → alterEntity e op = none) :
      (collection, id) ∉ (entities.map fun e => ((collection, e.id), e)).map Prod.fst := by
    rw [List.map_map]
    intro there
    obtain ⟨e', listed, same⟩ := List.mem_map.mp there
    obtain ⟨e, stored, altered, own⟩ := sources e' listed
    have here : e.id = id := own.symm.trans (Prod.mk.inj same).2
    rw [none e (here ▸ stored)] at altered
    cases altered
  cases stored : store.entities[(collection, id)]? with
  | none =>
    rw [FinMap.get_insertAll_absent _ _ (absent (by simp [stored])), stored]
    rfl
  | some e =>
    cases altered : alterEntity e op with
    | none =>
      have only : ∀ e', store.entities[(collection, id)]? = some e' → alterEntity e' op = none := by
        intro e' there
        cases stored.symm.trans there
        exact altered
      rw [FinMap.get_insertAll_absent _ _ (absent only), stored]
      simp [altered]
    | some e' =>
      have own : e.id = id := store.keyed collection id e stored
      have listed : e' ∈ entities := by
        rw [← mutated]
        refine List.mem_filterMap.mpr ⟨e, (store.mem_partition collection e).mpr ?_, altered⟩
        rw [own, stored]
      have put := FinMap.get_insertAll (entities.map fun e => ((collection, e.id), e))
        store.entities distinct _ (List.mem_map_of_mem listed)
      rw [id_alterEntity altered, own] at put
      simpa [altered] using put

section Statement
variable [WalPayload Payload]

/-- What an ALTER that returns Ok leaves: the altered schema on disk and in memory, and every
entity as the operation leaves it. -/
theorem alterCollection_ok {env : Env} {s : State} {p : AlterCollectionPlan} {r : QueryResult}
    {s' : State} (synced : Synced s) (ok : alterCollection env s p = (.ok r, s')) :
    ∃ schema, s.store.collections[p.collection]? = some schema ∧
      (alterApplies schema p.operation = true ∨ ∃ fieldName, p.operation = .dropField fieldName) ∧
      s'.store.collections[p.collection]? = some (alterSchema schema p.operation) ∧
      s'.schemas[p.collection]? = some (alterSchema schema p.operation) ∧
      ∀ id : LogicalId, s'.store.entities[(p.collection, id)]? =
        s.store.entities[(p.collection, id)]?.map fun e => (alterEntity e p.operation).getD e := by
  unfold alterCollection Store.getCollectionSchema at ok
  cases found : s.store.collections[p.collection]? with
  | none => simp [found] at ok
  | some schema =>
    have own := synced.named _ _ found
    simp only [found] at ok
    split at ok
    · cases ok
    · rename_i entities scanned
      split at ok
      · cases ok
      · rename_i checked
        rw [alterMemory_store, store_logTx] at ok
        split at ok
        · cases ok
        · rename_i written
          cases ok
          obtain ⟨collections, rows⟩ := insertAll_entities (Prod.ext written rfl)
          have listed : entities = s.store.partition p.collection := by
            unfold Store.scan at scanned
            split at scanned
            · cases scanned
              rfl
            · cases scanned
          refine ⟨schema, rfl, checkAlter_applies checked, ?_, ?_, fun id => ?_⟩
          · rw [collections, Store.updateCollectionSchema, FinMap.get_insert, name_alterSchema,
              if_pos own]
          · rw [FinMap.get_insert, if_pos rfl]
          · rw [rows, listed]
            exact get_altered s.store p.collection p.operation id

/-- The schema the operation leaves is well-formed, and no value of an entity is lost. -/
structure AlterKeeps (s s' : State) (p : AlterCollectionPlan) : Prop where
  shape : ∃ schema', s'.store.collections[p.collection]? = some schema' ∧
    s'.schemas[p.collection]? = some schema' ∧ WellFormed schema'
  values : ∀ oldName newName, p.operation = .renameField oldName newName →
    ∀ (id : LogicalId) (e : Entity), s.store.entities[(p.collection, id)]? = some e →
      ∃ e', s'.store.entities[(p.collection, id)]? = some e' ∧ ValuesKept oldName newName e e'

/-- The operation keeps the schema in shape, and where it renames a field, every entity that
has values under both names has the same value under both. -/
def AlterHarmless (s : State) (schema : CollectionSchema) (p : AlterCollectionPlan) : Prop :=
  KeepsShape schema p.operation ∧
    ∀ oldName newName, p.operation = .renameField oldName newName →
      ∀ (id : LogicalId) (e : Entity), s.store.entities[(p.collection, id)]? = some e →
        ∀ v w, e.metadata[oldName]? = some v → e.metadata[newName]? = some w → v = w

theorem alter_keeps_iff {env : Env} {s : State} {p : AlterCollectionPlan} {r : QueryResult}
    {s' : State} (synced : Synced s) (ok : alterCollection env s p = (.ok r, s'))
    (found : s.store.collections[p.collection]? = some schema) (wf : WellFormed schema) :
    AlterKeeps s s' p ↔ AlterHarmless s schema p := by
  obtain ⟨schema', found', applied, stored, inMemory, rows⟩ := alterCollection_ok synced ok
  cases found.symm.trans found'
  have shape := wellFormed_alter_iff wf applied
  constructor
  · intro keeps
    constructor
    · obtain ⟨schema', stored', -, wf'⟩ := keeps.shape
      cases stored.symm.trans stored'
      exact shape.mp wf'
    · intro oldName newName renames id e there
      obtain ⟨e', there', kept⟩ := keeps.values oldName newName renames id e there
      rw [rows, there, renames, Option.map_some] at there'
      cases there'
      exact (valuesKept_iff e oldName newName).mp kept
  · intro harmless
    refine ⟨⟨_, stored, inMemory, shape.mpr harmless.1⟩, fun oldName newName renames id e there => ?_⟩
    refine ⟨_, (rows id).trans (congrArg _ there), ?_⟩
    rw [renames]
    exact (valuesKept_iff e oldName newName).mpr (harmless.2 oldName newName renames id e there)

/-- In every run from an empty engine the accepted ALTERs of well-formed schemas leave them
well-formed and lose no value iff each of them is harmless. -/
theorem alters_keep_iff (config : WalConfig) (as : List Step) :
    (∀ p ∈ Run.taken State.step (State.init config) as, ∀ plan schema,
        p.2.2 = .alterCollection plan → succeeds p.2.1 p.1 p.2.2 →
        p.1.store.collections[plan.collection]? = some schema → WellFormed schema →
        AlterKeeps p.1 (p.1.step p.2) plan) ↔
      ∀ p ∈ Run.taken State.step (State.init config) as, ∀ plan schema,
        p.2.2 = .alterCollection plan → succeeds p.2.1 p.1 p.2.2 →
        p.1.store.collections[plan.collection]? = some schema → WellFormed schema →
        AlterHarmless p.1 schema plan := by
  have synced : ∀ p ∈ Run.taken State.step (State.init config) as, Synced p.1 := fun p there =>
    Run.invariant State.step as (synced_init config) (fun s a => synced_perform a.1 s a.2) _
      (Run.visited_of_taken State.step _ as p there)
  have decided : ∀ p ∈ Run.taken State.step (State.init config) as, ∀ plan schema,
      p.2.2 = .alterCollection plan → succeeds p.2.1 p.1 p.2.2 →
      p.1.store.collections[plan.collection]? = some schema → WellFormed schema →
      (AlterKeeps p.1 (p.1.step p.2) plan ↔ AlterHarmless p.1 schema plan) := by
    rintro ⟨s, env, w⟩ there plan schema rfl ok found wf
    obtain ⟨r, done⟩ := answer_ok ok
    exact alter_keeps_iff (synced _ there) done found wf
  constructor
  · intro keeps p there plan schema alters ok found wf
    exact (decided p there plan schema alters ok found wf).mp
      (keeps p there plan schema alters ok found wf)
  · intro harmless p there plan schema alters ok found wf
    exact (decided p there plan schema alters ok found wf).mpr
      (harmless p there plan schema alters ok found wf)

end Statement

section Examples
attribute [local instance] headerOnly

def lastToFirst : AlterCollectionPlan := ⟨"people", .renameField "last" "first"⟩

/-- A field renamed to a name that is taken. -/
theorem renamed_onto_declared :
    let s := (State.init default).step (.idle, .createCollection createPeople)
    s.store.collections["people"]? = some (buildCollectionSchema createPeople) ∧
      WellFormed (buildCollectionSchema createPeople) ∧
      succeeds .idle s (.alterCollection lastToFirst) ∧
      ¬ AlterKeeps s (s.step (.idle, .alterCollection lastToFirst)) lastToFirst := by
  have created : ((State.init default).step
      (.idle, .createCollection createPeople)).store.collections["people"]? =
        some (buildCollectionSchema createPeople) := by decide
  refine ⟨created, ⟨by decide, by decide, by decide, by decide, by decide⟩,
    by unfold succeeds; decide, fun keeps => ?_⟩
  obtain ⟨schema', stored, -, wf⟩ := keeps.shape
  have after : (((State.init default).step (.idle, .createCollection createPeople)).step
      (.idle, .alterCollection lastToFirst)).store.collections["people"]? =
        some (alterSchema (buildCollectionSchema createPeople) lastToFirst.operation) := by
    decide
  cases after.symm.trans stored
  exact absurd wf.fields (by decide)

end Examples
end TronDB.Engine
