import TronDB.Core.Types
import TronDB.Wal.Recovery

/-! How a vectoriser is made for a representation, and the registry of them, which the schemas of
the collections are to be found in. -/
namespace TronDB.Vectoriser
open TronDB.Core Wal

/-- The vectoriser errors that making one can end in. -/
inductive CreateVectoriserError where
  | notSupported (message : String)
  | modelNotLoaded (message : String)
  deriving DecidableEq, Repr

/-- A vectoriser, by what it is made from. -/
inductive Backend where
  | external (modelId endpoint auth : String) (dimensions : Nat)
  | network (modelId endpoint : String) (dimensions : Nat)
  | onnxSparse (modelId modelPath tokenizerPath : String) (dimensions : Nat)
  | onnxDense (modelId modelPath tokenizerPath : String) (dimensions : Nat)
  deriving DecidableEq, Repr

/-- What a process is built with, and the model files it finds. -/
structure Build where
  onnx : Bool
  external : Bool
  /-- Where the tokenizer of a model lies. -/
  tokenizerPath : String → String
  load : Backend → Except CreateVectoriserError Unit

/-- What the first configuration leaves open is taken from the second. -/
def mergeConfigs (primary fallback : Option VectoriserConfig) : VectoriserConfig :=
  let p := primary.getD ⟨none, none, none, none, none, none⟩
  let f := fallback.getD ⟨none, none, none, none, none, none⟩
  { model := p.model <|> f.model
    modelPath := p.modelPath <|> f.modelPath
    device := p.device <|> f.device
    vectoriserType := p.vectoriserType <|> f.vectoriserType
    endpoint := p.endpoint <|> f.endpoint
    auth := p.auth <|> f.auth }

namespace Build

variable (b : Build)

def createVectoriserFromConfig (reprConfig fallbackConfig : Option VectoriserConfig)
    (repr : StoredRepresentation) : Except CreateVectoriserError Backend :=
  let config := mergeConfigs reprConfig fallbackConfig
  let model := config.model.getD "unknown"
  let dims := repr.dimensions.getD 0
  match config.vectoriserType with
  | some "external" =>
    if b.external then
      match config.endpoint with
      | none => .error (.modelNotLoaded "external vectoriser requires ENDPOINT")
      | some endpoint => .ok (.external model endpoint (config.auth.getD "") dims)
    else .error (.notSupported "external feature not enabled")
  | some "network" =>
    match config.endpoint with
    | none => .error (.modelNotLoaded "network vectoriser requires ENDPOINT")
    | some endpoint => .ok (.network model endpoint dims)
  | _ =>
    if b.onnx then
      match config.modelPath with
      | none => .error (.modelNotLoaded "local vectoriser requires MODEL_PATH")
      | some modelPath =>
        let v :=
          if repr.sparse then Backend.onnxSparse model modelPath (b.tokenizerPath modelPath) dims
          else .onnxDense model modelPath (b.tokenizerPath modelPath) dims
        (b.load v).map fun _ => v
    else .error (.notSupported "onnx feature not enabled — cannot create local vectoriser")

/-- The vectoriser of a representation that has fields and some configuration, if one can be
made. -/
def vectoriserFor (schema : CollectionSchema) (repr : StoredRepresentation) : Option Backend :=
  if repr.fields ≠ [] ∧ (repr.vectoriser.isSome ∨ schema.vectoriserConfig.isSome) then
    (b.createVectoriserFromConfig repr.vectoriser schema.vectoriserConfig repr).toOption
  else none

end Build

/-! ### The registry -/

structure VectoriserRegistry where
  vectorisers : FinMap (String × String) Backend

namespace VectoriserRegistry

def new : VectoriserRegistry := ⟨∅⟩

def register (registry : VectoriserRegistry) (collection reprName : String) (v : Backend) :
    VectoriserRegistry :=
  ⟨registry.vectorisers.insert (collection, reprName) v⟩

def get (registry : VectoriserRegistry) (collection reprName : String) : Option Backend :=
  registry.vectorisers[(collection, reprName)]?

def removeCollection (registry : VectoriserRegistry) (collection : String) : VectoriserRegistry :=
  ⟨registry.vectorisers.filter fun key _ => key.1 ≠ collection⟩

variable (registry : VectoriserRegistry) (collection reprName c n : String) (v : Backend)

@[simp] theorem get_new : new.get c n = none := by simp [get, new]

theorem get_register : (registry.register collection reprName v).get c n =
    if collection = c ∧ reprName = n then some v else registry.get c n := by
  simp [get, register, FinMap.get_insert]

theorem get_removeCollection : (registry.removeCollection collection).get c n =
    if c = collection then none else registry.get c n := by
  have filtered := FinMap.get_filterKeys registry.vectorisers (fun key => key.1 ≠ collection) (c, n)
  unfold get removeCollection
  rw [filtered]
  split <;> simp_all

end VectoriserRegistry

section Registering
variable (b : Build) (schema : CollectionSchema)

def registerRepresentation (registry : VectoriserRegistry) (repr : StoredRepresentation) :
    VectoriserRegistry :=
  match b.vectoriserFor schema repr with
  | some v => registry.register schema.name repr.name v
  | none => registry

def registerVectorisersForSchema (registry : VectoriserRegistry) : VectoriserRegistry :=
  schema.representations.foldl (registerRepresentation b schema) registry

/-- The vectoriser a schema asks for under a name: of representations with one name it is the last
that decides. -/
def Build.asked (reprName : String) : Option Backend :=
  (schema.representations.filterMap fun repr =>
    if repr.name = reprName then b.vectoriserFor schema repr else none).getLast?

theorem get_registerRepresentations (reprs : List StoredRepresentation)
    (registry : VectoriserRegistry) (c n : String) :
    (reprs.foldl (registerRepresentation b schema) registry).get c n =
      if c = schema.name then
        ((reprs.filterMap fun repr =>
          if repr.name = n then b.vectoriserFor schema repr else none).getLast?).or (registry.get c n)
      else registry.get c n := by
  induction reprs generalizing registry with
  | nil => simp
  | cons repr rest ih =>
    rw [List.foldl_cons, ih, registerRepresentation]
    cases made : b.vectoriserFor schema repr with
    | none => simp [made]
    | some v =>
      simp only [VectoriserRegistry.get_register, List.filterMap_cons, made]
      by_cases here : c = schema.name
      · by_cases named : repr.name = n
        · simp only [here, named, and_self, if_true, List.getLast?_cons]
          cases List.getLast? _ <;> rfl
        · simp [here, named]
      · have other : ¬ schema.name = c := fun same => here same.symm
        simp [here, other]

theorem get_registerVectorisersForSchema (registry : VectoriserRegistry) (c n : String) :
    (registerVectorisersForSchema b schema registry).get c n =
      if c = schema.name then (b.asked schema n).or (registry.get c n) else registry.get c n :=
  get_registerRepresentations b schema schema.representations registry c n

end Registering

/-! ### What a process does at its start and at the events of its engine -/

inductive CollectionEvent where
  | created (schema : CollectionSchema)
  | dropped (name : String)
  | schemaAltered (schema : CollectionSchema)

section Following
variable (b : Build)

def onCollectionEvent (registry : VectoriserRegistry) : CollectionEvent → VectoriserRegistry
  | .created schema => registerVectorisersForSchema b schema registry
  | .dropped name => registry.removeCollection name
  | .schemaAltered schema =>
    registerVectorisersForSchema b schema (registry.removeCollection schema.name)

/-- The schemas the engine has opened with, in any order. -/
def registerVectorisers (order : HashOrder (String × CollectionSchema))
    (schemas : FinMap String CollectionSchema) : VectoriserRegistry :=
  (order.order schemas.toList).foldl
    (fun registry entry => registerVectorisersForSchema b entry.2 registry) .new

/-- The registry holds for every collection what its schema asks for, and nothing else. -/
def VectoriserRegistry.Follows (registry : VectoriserRegistry)
    (schemas : FinMap String CollectionSchema) : Prop :=
  ∀ c n, registry.get c n = schemas[c]?.bind fun schema => b.asked schema n

variable {b} {registry : VectoriserRegistry} {schemas : FinMap String CollectionSchema}

theorem follows_new : VectoriserRegistry.new.Follows b ∅ := by
  intro c n
  simp

theorem follows_created (follows : registry.Follows b schemas) {schema : CollectionSchema}
    (absent : schemas[schema.name]? = none) :
    (onCollectionEvent b registry (.created schema)).Follows b (schemas.insert schema.name schema) := by
  intro c n
  rw [onCollectionEvent, get_registerVectorisersForSchema, follows c n, FinMap.get_insert]
  by_cases here : c = schema.name
  · subst here
    simp [absent]
  · have other : ¬ schema.name = c := fun same => here same.symm
    simp [here, other]

theorem follows_dropped (follows : registry.Follows b schemas) (name : String) :
    (onCollectionEvent b registry (.dropped name)).Follows b (schemas.erase name) := by
  intro c n
  rw [onCollectionEvent, VectoriserRegistry.get_removeCollection, follows c n, FinMap.get_erase]
  by_cases here : c = name
  · simp [here]
  · have other : ¬ name = c := fun same => here same.symm
    simp [here, other]

theorem follows_altered (follows : registry.Follows b schemas) (schema : CollectionSchema) :
    (onCollectionEvent b registry (.schemaAltered schema)).Follows b
      (schemas.insert schema.name schema) := by
  intro c n
  rw [onCollectionEvent, get_registerVectorisersForSchema,
    VectoriserRegistry.get_removeCollection, follows c n, FinMap.get_insert]
  by_cases here : c = schema.name
  · simp [here]
  · have other : ¬ schema.name = c := fun same => here same.symm
    simp [here, other]

theorem follows_unasked (follows : registry.Follows b schemas) {name : String}
    {schema schema' : CollectionSchema} (found : schemas[name]? = some schema)
    (same : ∀ n, b.asked schema' n = b.asked schema n) :
    registry.Follows b (schemas.insert name schema') := by
  intro c n
  rw [follows c n, FinMap.get_insert]
  split
  · rename_i here
    subst here
    simp [found, same]
  · rfl

theorem lookup_listed {K V : Type} [DecidableEq K] {entries : List (K × V)}
    (distinct : (entries.map Prod.fst).Nodup) {k : K} {v : V} (listed : (k, v) ∈ entries) :
    entries.lookup k = some v := by
  induction entries with
  | nil => cases listed
  | cons entry rest ih =>
    rw [List.map_cons, List.nodup_cons] at distinct
    cases listed with
    | head => exact List.lookup_cons_self
    | tail _ later =>
      have other : (k == entry.1) = false := by
        rw [beq_eq_false_iff_ne]
        rintro rfl
        exact distinct.1 (List.mem_map.mpr ⟨_, later, rfl⟩)
      rw [List.lookup_cons, other]
      exact ih distinct.2 later

theorem get_registerEntries (entries : List (String × CollectionSchema))
    (named : ∀ entry ∈ entries, entry.2.name = entry.1) (distinct : (entries.map Prod.fst).Nodup)
    (registry : VectoriserRegistry) (c n : String) :
    (entries.foldl (fun registry entry => registerVectorisersForSchema b entry.2 registry)
        registry).get c n =
      ((entries.lookup c).bind fun schema => b.asked schema n).or (registry.get c n) := by
  induction entries generalizing registry with
  | nil => simp
  | cons entry rest ih =>
    obtain ⟨name, schema⟩ := entry
    rw [List.forall_mem_cons] at named
    rw [List.map_cons, List.nodup_cons] at distinct
    have own : schema.name = name := named.1
    rw [List.foldl_cons, ih named.2 distinct.2, get_registerVectorisersForSchema, List.lookup_cons]
    by_cases here : c = name
    · subst here
      have gone : rest.lookup c = none := by
        rw [List.lookup_eq_none_iff]
        intro entry listed
        simp only [bne_iff_ne, ne_eq]
        rintro rfl
        exact distinct.1 (List.mem_map.mpr ⟨entry, listed, rfl⟩)
      simp [own, gone]
    · have other : (c == name) = false := by simpa using here
      simp [own, here, other]

theorem follows_registerVectorisers (order : HashOrder (String × CollectionSchema))
    (named : ∀ (name : String) (schema : CollectionSchema), schemas[name]? = some schema →
      schema.name = name) : (registerVectorisers b order schemas).Follows b schemas := by
  intro c n
  have listed (entry : String × CollectionSchema) :
      entry ∈ order.order schemas.toList ↔ schemas[entry.1]? = some entry.2 := by
    rw [(order.perm _).mem_iff, FinMap.mem_toList]
  have distinct : ((order.order schemas.toList).map Prod.fst).Nodup :=
    ((order.perm _).map Prod.fst).nodup_iff.mpr (FinMap.nodup_toList schemas)
  rw [registerVectorisers,
    get_registerEntries _ (fun entry there => named _ _ ((listed entry).mp there)) distinct]
  have found : (order.order schemas.toList).lookup c = schemas[c]? := by
    cases known : schemas[c]? with
    | none =>
      rw [List.lookup_eq_none_iff]
      intro entry there
      simp only [bne_iff_ne, ne_eq]
      intro same
      rw [listed, ← same, known] at there
      cases there
    | some schema => exact lookup_listed distinct ((listed (c, schema)).mpr known)
  simp [found]

end Following
end TronDB.Vectoriser
