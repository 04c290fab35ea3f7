import TronDB.Engine.Write

/-! The background recompute of dirty representations. It awaits the encoder and every
commit, so other statements come in between its steps. -/
namespace TronDB.Engine
open TronDB.Core Binary Wal

/-- Dirty entries of one collection and representation index, with the entities as they were
when the entries were collected. -/
abbrev Group := (String × Nat) × List (ReprKey × Entity)

/-- What a recompute reads from outside. -/
structure RecomputeEnv extends Env where
  batchSize : Nat
  dirtyOrder : HashOrder ReprKey
  groupOrder : HashOrder Group

/-- Small batches, and maps in the order of their entries. -/
def RecomputeEnv.idle : RecomputeEnv where
  toEnv := .idle
  batchSize := 64
  dirtyOrder := .insertionOrder _
  groupOrder := .insertionOrder _

def LocationTable.iterDirty (t : LocationTable) : List ReprKey :=
  (t.descriptors.toList.filter fun kd => kd.2.state = .dirty).map Prod.fst

def pushGroup (group : String × Nat) (entry : ReprKey × Entity) : List Group → List Group
  | [] => [(group, [entry])]
  | (g, entries) :: rest =>
    if g = group then (g, entries ++ [entry]) :: rest else (g, entries) :: pushGroup group entry rest

/-- Entries whose collection or entity cannot be found are passed over. -/
def State.dirtyGroups (s : State) (keys : List ReprKey) : List Group :=
  keys.foldl (fun groups key =>
    match s.entityCollections[key.1]? with
    | none => groups
    | some collection =>
      match s.store.get collection key.1 with
      | .error _ => groups
      | .ok entity => pushGroup (collection, key.2) (key, entity) groups) []

theorem State.dirtyGroups_append (s : State) (keys : List ReprKey) (key : ReprKey) :
    s.dirtyGroups (keys ++ [key]) = s.dirtyGroups keys ∨
      ∃ collection e, s.store.get collection key.1 = .ok e ∧ s.dirtyGroups (keys ++ [key]) =
        pushGroup (collection, key.2) (key, e) (s.dirtyGroups keys) := by
  unfold State.dirtyGroups
  rw [List.foldl_append, List.foldl_cons, List.foldl_nil]
  split
  · exact .inl rfl
  · rename_i collection _
    split
    · exact .inl rfl
    · rename_i e found
      exact .inr ⟨collection, e, found, rfl⟩

/-- A batch of a group whose representation and vectoriser have been looked up. -/
structure Job where
  collection : String
  reprIdx : Nat
  stored : StoredRepresentation
  vectoriser : Vectoriser
  entries : List (ReprKey × Entity)

/-- The batches of a group; none when the group is passed over. -/
def State.openGroup (s : State) (env : RecomputeEnv) (group : Group) : List Job :=
  match s.schemas[group.1.1]? with
  | none => []
  | some schema =>
    match schema.representations[group.1.2]? with
    | none => []
    | some stored =>
      if stored.fields = [] then []
      else match env.vectoriser group.1.1 stored.name with
        | none => []
        | some vectoriser =>
          -- The batch size is positive: where the setting is 0, `chunks` panics.
          (group.2.toChunks env.batchSize).map fun entries =>
            ⟨group.1.1, group.1.2, stored, vectoriser, entries⟩

def fieldSet (stored : StoredRepresentation) (e : Entity) : List (String × Value) :=
  stored.fields.filterMap fun f => e.metadata[f]?.map fun v => (f, v)

/-- One field set after the other; the first failure ends the batch. -/
def Vectoriser.encodeBatch (vectoriser : Vectoriser) :
    List (List (String × Value)) → Except String (List VectorData)
  | [] => .ok []
  | fields :: rest =>
    match vectoriser.encode fields with
    | .error e => .error e
    | .ok vector =>
      match vectoriser.encodeBatch rest with
      | .error e => .error e
      | .ok vectors => .ok (vector :: vectors)

/-- An encoded entry that is still to be written back. -/
structure Encoded where
  key : ReprKey
  entity : Entity
  vector : VectorData

def Job.encode (job : Job) : Except String (List Encoded) :=
  match job.vectoriser.encodeBatch (job.entries.map fun e => fieldSet job.stored e.2) with
  | .error e => .error e
  | .ok vectors => .ok ((job.entries.zip vectors).map fun ev => ⟨ev.1.1, ev.1.2, ev.2⟩)

/-- Fills the places of representations the entity predates. -/
def emptyRepresentation : Representation where
  name := ""
  reprType := .atomic
  fields := []
  vector := .dense []
  recipeHash := List.replicate 32 0
  state := .dirty
  computedAt := 0
  modelVersion := ""

/-- The entity with a place for the representation. -/
def padTo (e : Entity) (reprIdx : Nat) : Entity :=
  { e with
    representations := e.representations ++
      List.replicate (reprIdx + 1 - e.representations.length) emptyRepresentation }

def refresh (e : Entity) (reprIdx : Nat) (stored : StoredRepresentation) (recipeHash : List UInt8)
    (vector : VectorData) : Entity :=
  let padded := padTo e reprIdx
  { padded with
    representations := padded.representations.modify reprIdx fun r =>
      { r with name := stored.name, vector, state := .clean, recipeHash } }

section Refresh
variable (e : Entity) (reprIdx : Nat) (stored : StoredRepresentation) (recipeHash : List UInt8)
  (vector : VectorData)

theorem refresh_at : ∃ r, (refresh e reprIdx stored recipeHash vector).representations[reprIdx]? =
    some r ∧ r.name = stored.name ∧ r.vector = vector := by
  have long : reprIdx < (padTo e reprIdx).representations.length := by
    rw [padTo, List.length_append, List.length_replicate]
    omega
  unfold refresh
  dsimp only
  rw [List.getElem?_modify, List.getElem?_eq_getElem long]
  exact ⟨_, rfl, by simp, by simp⟩

theorem refresh_elsewhere {j : Nat} (other : j ≠ reprIdx) :
    (refresh e reprIdx stored recipeHash vector).representations[j]? =
      (padTo e reprIdx).representations[j]? := by
  unfold refresh
  dsimp only
  rw [List.getElem?_modify]
  simp [Ne.symm other]

end Refresh

/-- The copy of the entity with its new vector, as it goes to the log and the store. -/
def Job.refreshed (job : Job) (env : Env) (x : Encoded) : Entity :=
  refresh x.entity job.reprIdx job.stored
    (env.recipeHash job.vectoriser.modelId job.stored.fields) x.vector

def Job.mark (job : Job) (location : LocationTable) : LocationTable :=
  job.entries.foldl (fun t e => t.tryTransition e.1 .recomputing) location

section WriteBack
variable [WalPayload Payload]

/-- One entity written back: log, store, vector index and location. The whole copy goes to
the store, with the fields it had when it was collected. -/
def Job.writeBack (job : Job) (env : Env) (s : State) (x : Encoded) :
    Except EngineError Unit × State :=
  let updated := job.refreshed env x
  let s := s.logTx env.ts job.collection [(.reprWrite, .entity updated)]
  match s.store.insert job.collection updated with
  | .error e => (.error e, s)
  | .ok store =>
    let s := match x.vector with
      | .dense v => { s with
          store
          indexes := FinMap.adjust s.indexes (job.collection, job.stored.name) fun idx =>
            idx.insert x.key.1 v }
      | .sparse sv => { s with
          store
          sparseIndexes := FinMap.adjust s.sparseIndexes (job.collection, job.stored.name) fun idx =>
            idx.insert x.key.1 sv }
    match s.location.transition x.key .clean with
    | .error e => (.error e, s)
    | .ok location => (.ok (), { s with location })

/-- Where a running recompute stands: between groups, waiting for the encoder, or writing
back what it encoded. -/
inductive Task where
  | groups (rest : List Group)
  | encoding (job : Job) (later : List Job) (rest : List Group)
  | writing (job : Job) (encoded : List Encoded) (later : List Job) (rest : List Group)
  | failed (e : EngineError)

omit [WalPayload Payload] in
/-- The call collects the dirty entries and copies their entities. -/
def State.startRecompute (s : State) (env : RecomputeEnv) : Task :=
  .groups (env.groupOrder.order (s.dirtyGroups (env.dirtyOrder.order s.location.iterDirty)))

omit [WalPayload Payload] in
def startJobs (s : State) (rest : List Group) : List Job → State × Task
  | [] => (s, .groups rest)
  | job :: later => ({ s with location := job.mark s.location }, .encoding job later rest)

/-- The call from one point where it can be interrupted to the next. Entries of a batch that
cannot be encoded stay as they are; an entry that cannot be written back ends the call. -/
def advance (env : RecomputeEnv) (s : State) : Task → State × Task
  | .groups [] => (s, .groups [])
  | .groups (group :: rest) => startJobs s rest (s.openGroup env group)
  | .encoding job later rest =>
    match job.encode with
    | .error _ => startJobs s rest later
    | .ok encoded => (s, .writing job encoded later rest)
  | .writing _ [] later rest => startJobs s rest later
  | .writing job (x :: encoded) later rest =>
    match job.writeBack env.toEnv s x with
    | (.ok (), s) => (s, .writing job encoded later rest)
    | (.error e, s) => (s, .failed e)
  | .failed e => (s, .failed e)

/-! ### UPDATE in two steps -/

/-- An UPDATE that waits for its commit. -/
structure PendingUpdate where
  plan : UpdateEntityPlan
  schema : Option CollectionSchema
  old : Entity

def PendingUpdate.new (u : PendingUpdate) : Entity := assign u.old u.plan.assignments

def PendingUpdate.dirty (u : PendingUpdate) : List Nat := dirtyReprIndices u.schema u.plan.assignments

def beginUpdate (env : Env) (s : State) (p : UpdateEntityPlan) :
    Except EngineError PendingUpdate × State :=
  match s.store.get p.collection p.entityId with
  | .error e => (.error e, s)
  | .ok old =>
    let u : PendingUpdate := ⟨p, s.schemas[p.collection]?, old⟩
    (.ok u, s.logTx env.ts p.collection
      ((.entityWrite, .entity u.new) :: u.dirty.map fun idx => (.reprDirty, .reprKey (p.entityId, idx))))

def finishUpdate (s : State) (u : PendingUpdate) : Outcome :=
  match s.store.insert u.plan.collection u.new with
  | .error e => (.error e, s)
  | .ok store =>
    let (indexed, store) := updateFieldEntries store s.fieldIndexes u.plan.collection u.old u.new
      ((u.schema.map CollectionSchema.indexes).getD [])
    let s := { s with
      store
      location := u.dirty.foldl (fun t idx => t.tryTransition (u.plan.entityId, idx) .dirty) s.location }
    match indexed with
    | .error e => (.error e, s)
    | .ok () =>
      (.ok (reply "result" s!"Entity '{u.plan.entityId}' updated in '{u.plan.collection}'" 1),
        s.enqueue u.plan.collection u.plan.entityId)

theorem updateEntity_steps (env : Env) (s : State) (p : UpdateEntityPlan) :
    updateEntity env s p =
      match beginUpdate env s p with
      | (.error e, s') => (.error e, s')
      | (.ok u, s') => finishUpdate s' u := by
  unfold updateEntity beginUpdate
  cases s.store.get p.collection p.entityId with
  | error e => rfl
  | ok old => rfl

end WriteBack
end TronDB.Engine
