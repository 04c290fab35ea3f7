import TronDB.Engine.CleanFresh
import TronDB.Engine.IndexWrites
import TronDB.Engine.Isolation

/-! By which number a representation goes: in the schema, in an entity and in the location
table. -/
namespace TronDB.Engine
open TronDB.Core Binary Wal

def declaredNames (schema : CollectionSchema) : List String :=
  schema.representations.map StoredRepresentation.name

/-- The names of an entity's representations, by index. -/
def heldNames (e : Entity) : List String := e.representations.map Representation.name

/-- The entry of an index describes the representation the schema has there, and that is the
one the entity has there. An entity that predates the representation has none there until its
first vector is computed; the entry is not Clean as long as that is so. -/
def Describes (schemas : FinMap String CollectionSchema) (collection : String)
    (held : List String) (i : Nat) (d : LocationDescriptor) : Prop :=
  ∃ schema name, schemas[collection]? = some schema ∧ (declaredNames schema)[i]? = some name ∧
    (held[i]? = some name ∨ held[i]? = none ∧ d.state ≠ .clean)

/-- The schema's representation of an index is the one the entity has there. -/
def SameAt (schemas : FinMap String CollectionSchema) (collection : String) (held : List String)
    (i : Nat) : Prop :=
  ∃ schema name, schemas[collection]? = some schema ∧ (declaredNames schema)[i]? = some name ∧
    held[i]? = some name

theorem describes_clean {schemas : FinMap String CollectionSchema} {collection : String}
    {held : List String} {i : Nat} {d : LocationDescriptor} (clean : d.state = .clean) :
    Describes schemas collection held i d ↔ SameAt schemas collection held i := by
  constructor
  · rintro ⟨schema, name, known, declared, same | ⟨-, unclean⟩⟩
    · exact ⟨schema, name, known, declared, same⟩
    · exact absurd clean unclean
  · rintro ⟨schema, name, known, declared, same⟩
    exact ⟨schema, name, known, declared, .inl same⟩

structure Numbered (s : State) : Prop where
  distinct : ∀ (collection : String) (id : LogicalId) (e : Entity),
    s.store.entities[(collection, id)]? = some e → (heldNames e).Nodup
  described : ∀ (collection : String) (id : LogicalId) (e : Entity) (i : Nat)
    (d : LocationDescriptor), s.store.entities[(collection, id)]? = some e →
    s.location.get (id, i) = some d → Describes s.schemas collection (heldNames e) i d

/-! ### Schemas that grow -/

/-- Every schema is still there, with the representations it had at their numbers. -/
def Extends (schemas schemas' : FinMap String CollectionSchema) : Prop :=
  ∀ (collection : String) (schema : CollectionSchema), schemas[collection]? = some schema →
    ∃ schema', schemas'[collection]? = some schema' ∧
      schema.representations <+: schema'.representations

theorem Extends.refl (schemas : FinMap String CollectionSchema) : Extends schemas schemas :=
  fun _ schema known => ⟨schema, known, List.prefix_rfl⟩

theorem getElem?_of_prefix {α : Type} {xs ys : List α} (grown : xs <+: ys) {i : Nat} {a : α}
    (there : xs[i]? = some a) : ys[i]? = some a := by
  obtain ⟨rest, rfl⟩ := grown
  have short : i < xs.length := (List.getElem?_eq_some_iff.mp there).1
  rw [List.getElem?_append_left short, there]

section Grown
variable {schemas schemas' : FinMap String CollectionSchema} (grown : Extends schemas schemas')
include grown

theorem Extends.describes {collection : String} {held : List String} {i : Nat}
    {d : LocationDescriptor} (before : Describes schemas collection held i d) :
    Describes schemas' collection held i d := by
  obtain ⟨schema, name, known, declared, rest⟩ := before
  obtain ⟨schema', known', longer⟩ := grown collection schema known
  exact ⟨schema', name, known', getElem?_of_prefix (longer.map _) declared, rest⟩

theorem Extends.jobOk {registry : Registry} {job : Job} (ok : JobOk registry schemas job) :
    JobOk registry schemas' job := by
  obtain ⟨schema, known, declared⟩ := ok.stored
  obtain ⟨schema', known', longer⟩ := grown job.collection schema known
  exact ⟨⟨schema', known', getElem?_of_prefix longer declared⟩, ok.vectoriser, ok.entries⟩

theorem Extends.taskOk {registry : Registry} {task : Task} (ok : TaskOk registry schemas task) :
    TaskOk registry schemas' task := by
  cases task with
  | groups rest => exact ok
  | encoding job later rest =>
    exact ⟨grown.jobOk ok.1, fun j there => grown.jobOk (ok.2.1 j there), ok.2.2⟩
  | writing job encoded later rest =>
    exact ⟨grown.jobOk ok.1, ok.2.1, fun j there => grown.jobOk (ok.2.2.1 j there), ok.2.2.2⟩
  | failed e => trivial

end Grown

theorem Describes.of_clean {schemas : FinMap String CollectionSchema} {collection : String}
    {held : List String} {i : Nat} {d d' : LocationDescriptor}
    (clean : d'.state = .clean → d.state = .clean) (before : Describes schemas collection held i d) :
    Describes schemas collection held i d' := by
  obtain ⟨schema, name, known, declared, rest⟩ := before
  exact ⟨schema, name, known, declared, rest.imp_right fun missing =>
    ⟨missing.1, fun now => missing.2 (clean now)⟩⟩

/-! ### Steps -/

section Steps
variable {s s' : State}

theorem Numbered.kept (numbered : Numbered s) (grown : Extends s.schemas s'.schemas)
    (entities : s'.store.entities = s.store.entities)
    (location : ∀ k d', s'.location.get k = some d' →
      ∃ d, s.location.get k = some d ∧ (d'.state = .clean → d.state = .clean)) : Numbered s' where
  distinct collection id e stored := numbered.distinct collection id e (entities ▸ stored)
  described collection id e i d' stored found := by
    obtain ⟨d, before, clean⟩ := location (id, i) d' found
    exact grown.describes ((numbered.described collection id e i d (entities ▸ stored) before).of_clean
      clean)

/-- An entity is put and the entries of its id may change: what counts are these entries, for
the entity and for its namesakes in other collections. -/
theorem numbered_put_iff (numbered : Numbered s) (collection : String) (id : LogicalId)
    (e : Entity) (entities : ∀ k, s'.store.entities[k]? =
      if (collection, id) = k then some e else s.store.entities[k]?)
    (schemas : s'.schemas = s.schemas)
    (elsewhere : ∀ k : ReprKey, k.1 ≠ id → s'.location.get k = s.location.get k) :
    Numbered s' ↔ (heldNames e).Nodup ∧
      (∀ i d, s'.location.get (id, i) = some d →
        Describes s.schemas collection (heldNames e) i d) ∧
      ∀ (other : String) (e' : Entity), other ≠ collection →
        s.store.entities[(other, id)]? = some e' → ∀ i d, s'.location.get (id, i) = some d →
          Describes s.schemas other (heldNames e') i d := by
  constructor
  · intro after
    have here := (entities (collection, id)).trans (if_pos rfl)
    refine ⟨after.distinct _ _ _ here, fun i d found => ?_, fun other e' apart stored i d found => ?_⟩
    · exact schemas ▸ after.described _ _ _ i d here found
    · have there : s'.store.entities[(other, id)]? = some e' := by
        rw [entities, if_neg fun same => apart (Prod.mk.inj same).1.symm, stored]
      exact schemas ▸ after.described _ _ _ i d there found
  · rintro ⟨distinct, own, others⟩
    constructor
    · intro collection' id' e' stored
      rw [entities] at stored
      split at stored
      · cases stored
        exact distinct
      · exact numbered.distinct _ _ _ stored
    · intro collection' id' e' i d stored found
      rw [schemas]
      rw [entities] at stored
      split at stored
      · rename_i here
        cases here
        cases stored
        exact own i d found
      · rename_i there
        by_cases same : id' = id
        · subst same
          refine others collection' e' (fun here => there (by rw [here])) stored i d found
        · rw [elsewhere _ same] at found
          exact numbered.described _ _ _ i d stored found

end Steps

/-! ### Locations -/

namespace LocationTable

theorem get_located (t : LocationTable) (e : Entity) (i : Nat) :
    (t.registerAll (locationEntries e)).get (e.id, i) =
      (e.representations[i]?.map freshLocation).or (t.get (e.id, i)) := by
  cases held : e.representations[i]? with
  | none =>
    refine get_registerAll_absent _ t fun listed => ?_
    obtain ⟨kd, there, key⟩ := List.mem_map.mp listed
    obtain ⟨⟨r, j⟩, place, rfl⟩ := List.mem_map.mp there
    cases (Prod.mk.inj key).2
    cases held.symm.trans (List.mem_zipIdx_iff_getElem?.mp place)
  | some r =>
    refine get_registerAll _ t (locationEntries_distinct e) ((e.id, i), freshLocation r) ?_
    exact List.mem_map.mpr ⟨(r, i), List.mem_zipIdx_iff_getElem?.mpr held, rfl⟩

theorem get_located_elsewhere (t : LocationTable) (e : Entity) {k : ReprKey} (other : k.1 ≠ e.id) :
    (t.registerAll (locationEntries e)).get k = t.get k := by
  refine get_registerAll_absent _ t fun listed => ?_
  obtain ⟨kd, there, key⟩ := List.mem_map.mp listed
  obtain ⟨r, -, rfl⟩ := List.mem_map.mp there
  exact other (key ▸ rfl)

theorem get_registerEach (es : List Entity) (i : Nat) (d : LocationDescriptor) (t : LocationTable)
    (k : ReprKey) : (es.foldl (fun t e => t.register (e.id, i) d) t).get k =
      if k.2 = i ∧ k.1 ∈ es.map Entity.id then some d else t.get k := by
  induction es generalizing t with
  | nil => simp
  | cons e rest ih =>
    obtain ⟨id, j⟩ := k
    rw [List.foldl_cons, ih, get_register]
    by_cases here : e.id = id
    · subst here
      by_cases this : j = i
      · simp [this]
      · simp [this, Ne.symm this]
    · have apart : ¬ id = e.id := fun same => here same.symm
      simp [here, apart]

theorem get_asked {target : LocState} (other : target ≠ .clean) (keys : List ReprKey)
    (t : LocationTable) (k : ReprKey) :
    ∀ d', (keys.foldl (fun t key => t.tryTransition key target) t).get k = some d' →
      ∃ d, t.get k = some d ∧ (d'.state = .clean → d.state = .clean) := by
  induction keys generalizing t with
  | nil => exact fun d' found => ⟨d', found, fun clean => clean⟩
  | cons key rest ih =>
    intro d' found
    obtain ⟨d, before, clean⟩ := ih _ d' found
    rw [get_tryTransition] at before
    split at before
    · obtain ⟨d₀, first, rfl⟩ := Option.map_eq_some_iff.mp before
      refine ⟨d₀, first, fun now => ?_⟩
      have later := clean now
      unfold moved at later
      split at later
      · exact absurd later other
      · exact later
    · exact ⟨d, before, clean⟩

theorem get_asked_elsewhere (target : LocState) {keys : List ReprKey} (t : LocationTable)
    {k : ReprKey} (other : k ∉ keys) :
    (keys.foldl (fun t key => t.tryTransition key target) t).get k = t.get k := by
  induction keys generalizing t with
  | nil => rfl
  | cons key rest ih =>
    rw [List.mem_cons, not_or] at other
    rw [List.foldl_cons, ih _ other.2, get_tryTransition, if_neg (Ne.symm other.1)]

end LocationTable

/-! ### The names an INSERT gives -/

/-- The names in the order of the statement, and behind them those of the representations with
FIELDS that are encoded because the statement has values for them and no vector. -/
def insertedNames (schema : CollectionSchema) (p : InsertPlan) : List String :=
  p.vectors.map Prod.fst ++ declaredNames { schema with
    representations := schema.representations.filter fun r =>
      r.name ∉ p.vectors.map Prod.fst ∧ r.fields.any (insertMetadata p.fields p.values).contains }

theorem names_managed {env : Env} {collection : String} {explicitNames : List String}
    {metadata : FinMap String Value} {stored : List StoredRepresentation}
    {reprs : List Representation}
    (managed : managedRepresentations env collection explicitNames metadata stored = .ok reprs) :
    reprs.map Representation.name = (stored.filter fun r =>
      r.name ∉ explicitNames ∧ r.fields.any metadata.contains).map StoredRepresentation.name := by
  have values (fields : List String) : (fields.filterMap fun f => metadata[f]?.map fun v => (f, v)) = [] ↔
      fields.any metadata.contains = false := by
    rw [List.filterMap_eq_nil_iff, List.any_eq_false]
    refine forall₂_congr fun f _ => ?_
    rw [Std.ExtTreeMap.contains_eq_isSome_getElem?, Option.map_eq_none_iff, Option.not_isSome_iff_eq_none]
  induction stored generalizing reprs with
  | nil =>
    cases managed
    rfl
  | cons r rest ih =>
    unfold managedRepresentations at managed
    split at managed
    · rename_i passed
      have out : ¬ (r.name ∉ explicitNames ∧ r.fields.any metadata.contains = true) := by
        rintro ⟨fresh, some_⟩
        rcases passed with none_ | given
        · simp [none_] at some_
        · exact fresh given
      rw [ih managed, List.filter_cons, if_neg (by simpa using out)]
    · rename_i wanted
      rw [not_or] at wanted
      dsimp only at managed
      split at managed
      · rename_i noValue
        have none_ := (values r.fields).mp noValue
        rw [ih managed, List.filter_cons, if_neg (by simp [none_])]
      · rename_i someValue
        have some_ : r.fields.any metadata.contains = true := by
          cases any : r.fields.any metadata.contains with
          | true => rfl
          | false => exact absurd ((values r.fields).mpr any) someValue
        split at managed
        · cases managed
        · split at managed
          · cases managed
          · split at managed
            · cases managed
            · rename_i reprs' later
              cases managed
              have kept : decide (r.name ∉ explicitNames ∧ r.fields.any metadata.contains) = true :=
                decide_eq_true ⟨wanted.2, some_⟩
              rw [List.map_cons, ih later, List.filter_cons, if_pos kept]
              rfl

theorem names_built {env : Env} {schema : CollectionSchema} {p : InsertPlan} {id : LogicalId}
    {e : Entity} (built : buildEntity env schema p id = .ok e) :
    heldNames e = insertedNames schema p := by
  unfold buildEntity at built
  dsimp only at built
  split at built
  · cases built
  · rename_i managed encoded
    split at built
    · cases built
    · split at built
      · cases built
      · cases built
        have explicit : (explicitRepresentations env schema p).map Representation.name =
            p.vectors.map Prod.fst := by
          rw [explicitRepresentations, List.map_map]
          rfl
        rw [heldNames, List.map_append, explicit, names_managed encoded]
        rfl

end TronDB.Engine
