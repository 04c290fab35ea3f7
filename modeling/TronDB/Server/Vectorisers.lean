import TronDB.Engine.SnapshotRuns
import TronDB.Server.Follower
import TronDB.Vectoriser.Registry

/-! The registry of vectorisers beside an engine: on a primary it follows the schemas through every
run, on a replica it stays behind at the schemas the collections were created with. -/
namespace TronDB.Server
open TronDB.Core TronDB.Engine TronDB.Vectoriser Wal
open Proto (recordToProto protoToRecord record_iff)
open Proto.Message (WalRecordMessage)

/-! ### A primary -/

/-- The operations of ALTER COLLECTION that call the hook. -/
def firesSchemaAltered : SchemaAlterOp → Bool
  | .renameField _ _ | .dropField _ => false
  | .setModel _ _ | .alterRepresentationSetFields _ _ | .alterRepresentationSetModel _ _ _
  | .addRepresentation _ _ _ _ _ => true

section Primary
variable [WalPayload Payload]

/-- What a write statement calls the hook with at its end. -/
def eventOf (s : State) : Write → Option CollectionEvent
  | .createCollection p => some (.created (buildCollectionSchema p))
  | .dropCollection name => some (.dropped name)
  | .alterCollection p =>
    if firesSchemaAltered p.operation then
      s.store.collections[p.collection]?.map fun schema =>
        .schemaAltered (alterSchema schema p.operation)
    else none
  | _ => none

/-- The registry behind a statement; one that fails does not reach the hook. -/
def registryAfter (b : Build) (registry : VectoriserRegistry) (env : Env) (s : State) (w : Write) :
    VectoriserRegistry :=
  match (perform env s w).1, eventOf s w with
  | .ok (), some event => onCollectionEvent b registry event
  | _, _ => registry

/-- A process with its engine open, the calls in flight and its vectorisers. -/
structure Node where
  session : Session
  registry : VectoriserRegistry

namespace Node
variable (b : Build) (order : HashOrder (String × CollectionSchema))

def start (config : WalConfig) : Node := ⟨.start (.init config), .new⟩

/-- At an opening the registry is made anew, before the hook is set. -/
def step (x : Node) (a : Engine.Event) : Option Node :=
  (x.session.step a).map fun session =>
    ⟨session, match a with
      | .write env w => registryAfter b x.registry env x.session.engine.state w
      | .reopen _ _ => registerVectorisers b order session.engine.state.schemas
      | _ => x.registry⟩

def next (x : Option Node) (a : Engine.Event) : Option Node := x.bind fun x => x.step b order a

end Node

/-! ### What a write does to the schemas and to the registry -/

section Write
variable {b : Build} {registry : VectoriserRegistry} {env : Env} {s : State} {w : Write}

theorem registry_refused {e : EngineError} (refused : (perform env s w).1 = .error e) :
    registryAfter b registry env s w = registry := by
  unfold registryAfter
  rw [refused]

theorem registry_fired {event : CollectionEvent} (ok : (perform env s w).1 = .ok ())
    (fires : eventOf s w = some event) :
    registryAfter b registry env s w = onCollectionEvent b registry event := by
  unfold registryAfter
  rw [ok, fires]

theorem registry_silent (silent : eventOf s w = none) :
    registryAfter b registry env s w = registry := by
  unfold registryAfter
  rw [silent]
  cases (perform env s w).1 <;> rfl

omit [WalPayload Payload] in
theorem asked_unfired {op : SchemaAlterOp} (silent : firesSchemaAltered op = false)
    (schema : CollectionSchema) (n : String) :
    b.asked (alterSchema schema op) n = b.asked schema n := by
  cases op <;> first | rfl | cases silent

theorem create_ends (env : Env) (s : State) (p : CreateCollectionPlan) :
    (∃ e s', createCollection env s p = (.error e, s') ∧ s'.schemas = s.schemas) ∨
      ∃ r s', createCollection env s p = (.ok r, s') ∧
        s'.schemas = s.schemas.insert p.name (buildCollectionSchema p) ∧
        s.store.collections[p.name]? = none := by
  unfold createCollection
  split
  · exact .inl ⟨_, _, rfl, rfl⟩
  · dsimp only
    split
    · exact .inl ⟨_, _, rfl, rfl⟩
    · rename_i stored
      refine .inr ⟨_, _, rfl, rfl, ?_⟩
      unfold Store.createCollectionSchema at stored
      split at stored
      · cases stored
      · rename_i absent
        simpa [Store.hasCollection, buildCollectionSchema] using absent

theorem follows_create (synced : Synced s) (follows : registry.Follows b s.schemas) (env : Env)
    (p : CreateCollectionPlan) :
    (registryAfter b registry env s (.createCollection p)).Follows b
      (createCollection env s p).2.schemas := by
  obtain ⟨e, s', refused, same⟩ | ⟨r, s', done, schemas, absent⟩ := create_ends env s p
  · have refused' : (perform env s (.createCollection p)).1 = .error e := by
      simp [perform, refused, Except.map]
    rw [registry_refused refused', refused, same]
    exact follows
  · have ok : (perform env s (.createCollection p)).1 = .ok () := by
      simp [perform, done, Except.map]
    rw [registry_fired ok rfl, done, schemas]
    have fresh : s.schemas[(buildCollectionSchema p).name]? = none := synced.schemas ▸ absent
    exact follows_created follows fresh

theorem drop_ends (env : Env) (s : State) (name : String) :
    (∃ e s', dropCollection env s name = (.error e, s') ∧ s'.schemas = s.schemas) ∨
      ∃ r s', dropCollection env s name = (.ok r, s') ∧ s'.schemas = s.schemas.erase name := by
  unfold dropCollection
  split
  · dsimp only
    split
    · exact .inl ⟨_, _, rfl, rfl⟩
    · exact .inr ⟨_, _, rfl, rfl⟩
  · exact .inl ⟨_, _, rfl, rfl⟩

theorem follows_drop (follows : registry.Follows b s.schemas) (env : Env) (name : String) :
    (registryAfter b registry env s (.dropCollection name)).Follows b
      (dropCollection env s name).2.schemas := by
  obtain ⟨e, s', refused, same⟩ | ⟨r, s', done, schemas⟩ := drop_ends env s name
  · have refused' : (perform env s (.dropCollection name)).1 = .error e := by
      simp [perform, refused, Except.map]
    rw [registry_refused refused', refused, same]
    exact follows
  · have ok : (perform env s (.dropCollection name)).1 = .ok () := by
      simp [perform, done, Except.map]
    rw [registry_fired ok rfl, done, schemas]
    exact follows_dropped follows name

omit [WalPayload Payload] in
theorem altered_none {op : SchemaAlterOp} (fires : firesSchemaAltered op = true)
    (entities : List Entity) : entities.filterMap (fun e => alterEntity e op) = [] := by
  rw [List.filterMap_eq_nil_iff]
  intro e _
  cases op <;> first | rfl | cases fires

/-- ALTER COLLECTION fails before it writes anything, or changes the schema; what calls the hook
does not fail then. -/
theorem alter_ends (env : Env) (s : State) (p : AlterCollectionPlan) :
    (∃ e, alterCollection env s p = (.error e, s)) ∨
      ∃ schema, s.store.collections[p.collection]? = some schema ∧
        (alterCollection env s p).2.schemas =
          s.schemas.insert p.collection (alterSchema schema p.operation) ∧
        (firesSchemaAltered p.operation = true → ∃ r, (alterCollection env s p).1 = .ok r) := by
  unfold alterCollection Store.getCollectionSchema
  cases found : s.store.collections[p.collection]? with
  | none => exact .inl ⟨_, rfl⟩
  | some schema =>
    dsimp only
    cases s.store.scan p.collection with
    | error e => exact .inl ⟨_, rfl⟩
    | ok entities =>
      dsimp only
      cases checkAlter schema p.collection p.operation with
      | error e => exact .inl ⟨_, rfl⟩
      | ok =>
        dsimp only
        generalize logged : s.logTx env.ts p.collection _ = t
        have same : SameSchemas s (t.alterMemory p.collection schema entities p.operation) :=
          .trans (logged ▸ ⟨rfl, rfl, rfl, rfl⟩) (sameSchemas_alterMemory _ _ _ _ _)
        refine .inr ⟨schema, rfl, ?_, fun fires => ?_⟩
        · rw [← same.schemas]
          split <;> rfl
        · rw [altered_none fires]
          exact ⟨_, rfl⟩

theorem follows_alter (synced : Synced s) (follows : registry.Follows b s.schemas) (env : Env)
    (p : AlterCollectionPlan) :
    (registryAfter b registry env s (.alterCollection p)).Follows b
      (alterCollection env s p).2.schemas := by
  obtain ⟨e, refused⟩ | ⟨schema, found, schemas, done⟩ := alter_ends env s p
  · have refused' : (perform env s (.alterCollection p)).1 = .error e := by
      simp [perform, refused, Except.map]
    rw [registry_refused refused', refused]
    exact follows
  · have own := synced.named _ _ found
    rw [schemas]
    cases fires : firesSchemaAltered p.operation with
    | false =>
      rw [registry_silent (by simp [eventOf, fires])]
      exact follows_unasked follows (synced.schemas ▸ found) (asked_unfired fires schema)
    | true =>
      obtain ⟨r, done⟩ := done fires
      have ok : (perform env s (.alterCollection p)).1 = .ok () := by
        simp [perform, done, Except.map]
      have event : eventOf s (.alterCollection p) =
          some (.schemaAltered (alterSchema schema p.operation)) := by
        simp [eventOf, fires, found]
      have altered := follows_altered follows (alterSchema schema p.operation)
      rw [name_alterSchema, own] at altered
      rw [registry_fired ok event]
      exact altered

theorem schemas_createEdgeType (env : Env) (s : State) (p : CreateEdgeTypePlan) :
    (createEdgeType env s p).2.schemas = s.schemas := by
  unfold createEdgeType
  dsimp only
  repeat' split
  all_goals rfl

theorem schemas_dropEdgeType (env : Env) (s : State) (name : String) :
    (dropEdgeType env s name).2.schemas = s.schemas := by
  unfold dropEdgeType
  split <;> rfl

/-- Every write, failed or not, leaves the registry where the schemas are. -/
theorem follows_perform (synced : Synced s) (follows : registry.Follows b s.schemas) (env : Env)
    (w : Write) : (registryAfter b registry env s w).Follows b (perform env s w).2.schemas := by
  have silent (event : eventOf s w = none) (same : (perform env s w).2.schemas = s.schemas) :
      (registryAfter b registry env s w).Follows b (perform env s w).2.schemas := by
    rw [registry_silent event, same]
    exact follows
  cases w with
  | createCollection p => exact follows_create synced follows env p
  | dropCollection name => exact follows_drop follows env name
  | alterCollection p => exact follows_alter synced follows env p
  | createEdgeType p => exact silent rfl (schemas_createEdgeType env s p)
  | dropEdgeType name => exact silent rfl (schemas_dropEdgeType env s name)
  | insert p => exact silent rfl (sameSchemas_insert env s p).schemas
  | updateEntity p => exact silent rfl (sameSchemas_updateEntity env s p).schemas
  | deleteEntity p => exact silent rfl (sameSchemas_deleteEntity env s p).schemas
  | importCollection p => exact silent rfl (sameSchemas_importCollection env s p).schemas
  | insertEdge p => exact silent rfl (sameSchemas_insertEdge env s p).schemas
  | deleteEdge p => exact silent rfl rfl
  | confirmEdge p => exact silent rfl (sameSchemas_confirmEdge env s p).schemas
  | sweepDecayedEdges => exact silent rfl (sameSchemas_sweep env s).schemas
  | drainInferenceQueue =>
    exact silent rfl (SameSchemas.foldl _ (sameSchemas_drainEntity env) _ s).schemas

end Write
/-! ### The runs of a primary -/

namespace Node
variable {b : Build} {order : HashOrder (String × CollectionSchema)}

/-- The session is sound, and the registry is where its schemas are. -/
structure Settled (b : Build) (x : Node) : Prop where
  sound : x.session.Sound
  follows : x.registry.Follows b x.session.engine.state.schemas

theorem settled_start (config : WalConfig) : (Node.start config).Settled b := ⟨.start config, follows_new⟩

omit [WalPayload Payload] in
theorem settled_same {x : Node} (settled : x.Settled b) {session : Session} (sound : session.Sound)
    (same : session.engine.state.schemas = x.session.engine.state.schemas) :
    Node.Settled b ⟨session, x.registry⟩ :=
  ⟨sound, same ▸ settled.follows⟩

theorem settled_step {x x' : Node} (settled : x.Settled b) (a : Engine.Event)
    (stepped : x.step b order a = some x') : x'.Settled b := by
  obtain ⟨session, next, rfl⟩ := Option.map_eq_some_iff.mp stepped
  have sound := settled.sound.step a next
  cases a with
  | write env w =>
    cases next
    exact ⟨sound, follows_perform settled.sound.synced settled.follows env w⟩
  | beginInsert env p =>
    refine settled_same settled sound ?_
    have same := (sameSchemas_beginInsert env x.session.engine.state p).schemas
    unfold Session.step at next
    dsimp only at next
    split at next <;> rename_i begun <;> rw [begun] at same <;> cases next <;> exact same
  | finishInsert env i =>
    refine settled_same settled sound ?_
    unfold Session.step at next
    dsimp only at next
    split at next <;> cases next
    · rfl
    · exact (sameSchemas_finishInsert env _ _).schemas
  | advance env i =>
    refine settled_same settled sound ?_
    unfold Session.step at next
    dsimp only at next
    split at next <;> cases next
    · rfl
    · exact (sameSchemas_advance env _ _).schemas
  | startRecompute env | checkpoint ts | saveLocation | saveHnsw order =>
    cases next
    exact settled_same settled sound rfl
  | reopen config order' =>
    refine ⟨sound, follows_registerVectorisers order fun name schema found => ?_⟩
    rw [sound.synced.schemas] at found
    exact sound.synced.named name schema found

end Node

/-- Over every run, with calls and recomputations in flight and with restarts, the registry has for
every representation the vectoriser that the schema of its collection asks for, and no other. -/
theorem registry_follows (b : Build) (order : HashOrder (String × CollectionSchema))
    (config : WalConfig) (as : List Engine.Event) :
    ∀ x ∈ Run.visited (Node.next b order) (some (Node.start config)) as, ∀ node, x = some node →
      node.registry.Follows b node.session.engine.state.schemas := by
  have settled : ∀ x ∈ Run.visited (Node.next b order) (some (Node.start config)) as,
      ∀ node, x = some node → node.Settled b := by
    refine Run.invariant (Node.next b order) as ?_ ?_
    · intro node now
      exact Option.some.inj now ▸ Node.settled_start config
    · intro x a before node now
      obtain ⟨x', was, stepped⟩ := Option.bind_eq_some_iff.mp now
      exact Node.settled_step (before x' was) a stepped
  intro x visited node now
  exact (settled x visited node now).follows

end Primary

/-! ### A replica -/

/-- What the replay of an entry calls the hook with: nothing for an altered schema. -/
def replayedEvent : Logged → Option CollectionEvent
  | (_, .schemaCreateColl, .schema schema) => some (.created schema)
  | (_, .schemaDropColl, .name name) => some (.dropped name)
  | _ => none

def registryReplayed (b : Build) (registry : VectoriserRegistry) (l : Logged) : VectoriserRegistry :=
  match replayedEvent l with
  | some event => onCollectionEvent b registry event
  | none => registry

/-- A replica with its vectorisers. -/
structure FollowerNode where
  follower : Follower
  registry : VectoriserRegistry

namespace FollowerNode
variable (b : Build) (order : HashOrder (String × CollectionSchema))

def start (engine : State) : FollowerNode :=
  ⟨.start engine, registerVectorisers b order engine.schemas⟩

def take (x : FollowerNode) (m : WalRecordMessage Payload) : FollowerNode :=
  ⟨x.follower.take m,
    match protoToRecord m with
    | .error _ => x.registry
    | .ok r => registryReplayed b x.registry (toLogged r)⟩

def follow (engine : State) (messages : List (WalRecordMessage Payload)) : FollowerNode :=
  messages.foldl (take b) (start b order engine)

end FollowerNode

/-- The schemas as the collections were created with them. -/
def founded (schemas : FinMap String CollectionSchema) : Logged → FinMap String CollectionSchema
  | (_, .schemaCreateColl, .schema schema) => schemas.insert schema.name schema
  | (_, .schemaDropColl, .name name) => schemas.erase name
  | _ => schemas

/-- The registry follows the first schemas of the collections there are. -/
structure Founded (b : Build) (registry : VectoriserRegistry)
    (first : FinMap String CollectionSchema) (collections : FinMap String CollectionSchema) : Prop where
  follows : registry.Follows b first
  living : ∀ name : String, first[name]?.isSome = collections[name]?.isSome

section Entries
variable {b : Build} {registry : VectoriserRegistry} {first : FinMap String CollectionSchema}

theorem Founded.kept {collections collections' : FinMap String CollectionSchema}
    (start : Founded b registry first collections) (same : collections' = collections) :
    Founded b registry first collections' :=
  same ▸ start

theorem founded_entry {d : Data} (start : Founded b registry first d.collections) {l : Logged}
    (legal : Legal d l) :
    Founded b (registryReplayed b registry l) (founded first l) (d.replay l).collections := by
  obtain ⟨collection, type, payload⟩ := l
  cases type <;> try exact start
  all_goals cases payload <;> try exact start
  case schemaCreateColl.schema schema =>
    have absent : d.collections.contains schema.name = false := legal
    have unknown : first[schema.name]? = none := by
      rw [← Option.not_isSome_iff_eq_none, start.living,
        ← Std.ExtTreeMap.contains_eq_isSome_getElem?, absent]
      exact Bool.false_ne_true
    refine ⟨follows_created start.follows unknown, fun name => ?_⟩
    simp only [Data.replay, Data.createCollection, absent, founded, FinMap.get_insert]
    split <;> simp [FinMap.get_insert, start.living, *]
  case schemaDropColl.name name =>
    have present : d.collections.contains name = true := legal
    refine ⟨follows_dropped start.follows name, fun other => ?_⟩
    simp only [Data.replay, Data.dropCollection, present, founded, if_true, FinMap.get_erase]
    split <;> simp [start.living]
  case entityWrite.entity e | reprWrite.entity e =>
    have same : (d.putEntity collection e).collections = d.collections := by
      unfold Data.putEntity
      split <;> rfl
    exact start.kept same
  case entityDelete.entityDelete id c =>
    have same : (d.eraseEntity c id).collections = d.collections := by
      unfold Data.eraseEntity
      split <;> rfl
    exact start.kept same
  case schemaCreateEdgeType.edgeType et =>
    have same : (d.createEdgeType et).collections = d.collections := by
      unfold Data.createEdgeType
      split <;> rfl
    exact start.kept same
  case schemaDropEdgeType.name name =>
    have same : (d.dropEdgeType name).collections = d.collections := by
      unfold Data.dropEdgeType
      split <;> rfl
    exact start.kept same
  case edgeWrite.edge e | edgeConfirm.edge e | edgeConfidenceUpdate.edge e | edgeInferred.edge e =>
    have same : (d.putEdge e).collections = d.collections := by
      unfold Data.putEdge
      split <;> rfl
    exact start.kept same
  case schemaAlter.schemaAlter c op =>
    obtain ⟨schema, found, own, -⟩ := legal
    refine ⟨start.follows, fun name => ?_⟩
    simp only [Data.replay, Data.alterCollection, found, founded, own]
    split
    · rw [FinMap.get_insert, start.living]
      split
      · rename_i here
        rw [← here, found]
        rfl
      · rfl
    · exact start.living name

theorem founded_entries (added : List Logged) {d : Data}
    (start : Founded b registry first d.collections) (legal : LegalAll d added) :
    Founded b (added.foldl (registryReplayed b) registry) (added.foldl founded first)
      (added.foldl Data.replay d).collections := by
  induction added generalizing registry first d with
  | nil => exact start
  | cons l rest ih => exact ih (founded_entry start legal.1) legal.2

end Entries

section Runs
variable [WalPayload Payload]

theorem logs_step {s : State} {a : Step} (tracked : Tracked s) (ok : succeeds a.1 s a.2) :
    ∃ added, Logs s (s.step a) added ∧
      (s.step a).store.collections = (added.foldl Data.replay (dataOf s.store)).collections := by
  obtain ⟨env, w⟩ := a
  cases w with
  | deleteEntity p =>
    obtain ⟨r, ok⟩ := answer_ok ok
    obtain ⟨logs, data⟩ := logs_deleteEntity ok
    exact ⟨_, logs, (congrArg Data.collections data).trans (cascade_rest _ _).1⟩
  | alterCollection p =>
    obtain ⟨r, ok⟩ := answer_ok ok
    obtain ⟨mutated, performed⟩ := performed_alterCollection tracked.synced ok
    exact ⟨_, performed.toLogs, congrArg Data.collections performed.data⟩
  | _ =>
    obtain ⟨added, performed, -⟩ := wrote_perform tracked.synced ok (by simp) (by simp)
    exact ⟨added, performed.toLogs, congrArg Data.collections performed.data⟩

/-- The schemas a state's collections were created with, as its log has them. -/
def firstSchemas (s : State) : FinMap String CollectionSchema := s.logged.foldl founded ∅

theorem founded_run (b : Build) (config : WalConfig) (as : List Step)
    (succeed : AllSucceed (State.init config) as) {s : State}
    (reached : s = as.foldl State.step (State.init config)) :
    Founded b (s.logged.foldl (registryReplayed b) .new) (firstSchemas s) s.store.collections := by
  have all : ∀ t ∈ Run.visited State.step (State.init config) as, Tracked t ∧
      Founded b (t.logged.foldl (registryReplayed b) .new) (firstSchemas t) t.store.collections := by
    refine Run.invariant_under State.step (fun s a => succeeds a.1 s a.2) as ?_ succeed ?_
    · refine ⟨tracked_init config, ?_⟩
      unfold firstSchemas
      rw [State.logged, State.init, mutations_open]
      exact ⟨follows_new, fun name => rfl⟩
    · rintro t a ⟨tracked, start⟩ ok
      obtain ⟨added, logs, collections⟩ := logs_step tracked ok
      refine ⟨tracked_step tracked ok, ?_⟩
      unfold firstSchemas
      rw [logs.grown tracked.sequential, List.foldl_append, List.foldl_append, collections]
      exact founded_entries added start logs.legal
  exact reached ▸ (all _ (Run.end_visited State.step _ as)).2

/-! ### Primary and replica -/

namespace FollowerNode
variable {b : Build}

omit [WalPayload Payload] in
theorem registry_records (records : List LogRecord) (x : FollowerNode) :
    ((records.map recordToProto).foldl (take b) x).registry =
      (records.map toLogged).foldl (registryReplayed b) x.registry := by
  induction records generalizing x with
  | nil => rfl
  | cons r rest ih =>
    rw [List.map_cons, List.foldl_cons, ih]
    unfold take
    rw [record_iff.mpr rfl]
    rfl

omit [WalPayload Payload] in
theorem registry_mutations (records : List LogRecord) (registry : VectoriserRegistry) :
    (records.map toLogged).foldl (registryReplayed b) registry =
      ((records.filter WalRecord.isMutation).map toLogged).foldl (registryReplayed b) registry := by
  induction records generalizing registry with
  | nil => rfl
  | cons r rest ih =>
    rw [List.map_cons, List.foldl_cons, ih, List.filter_cons]
    split
    · rfl
    · rename_i control
      obtain ⟨lsn, ts, txId, recordType, schemaVer, collection, payload⟩ := r
      cases recordType <;> first | rfl | exact absurd rfl control

theorem registry_start (order : HashOrder (String × CollectionSchema)) (config : WalConfig) :
    (start b order (.init config)).registry = .new := by
  have nothing : order.order (State.init config).schemas.toList = [] :=
    (order.perm _).eq_nil
  unfold start registerVectorisers
  rw [nothing]
  rfl

end FollowerNode

namespace Node

def write (b : Build) (x : Node) (a : Step) : Node :=
  ⟨x.session.withState (x.session.engine.state.step a),
    registryAfter b x.registry a.1 x.session.engine.state a.2⟩

theorem step_write (b : Build) (order : HashOrder (String × CollectionSchema)) (x : Node) (a : Step) :
    x.step b order (.write a.1 a.2) = some (x.write b a) := rfl

theorem state_writes (b : Build) (as : List Step) (x : Node) :
    (as.foldl (write b) x).session.engine.state = as.foldl State.step x.session.engine.state := by
  induction as generalizing x with
  | nil => rfl
  | cons a rest ih => exact ih (x.write b a)

theorem settled_writes (b : Build) (as : List Step) {x : Node} (settled : x.Settled b) :
    (as.foldl (write b) x).Settled b := by
  induction as generalizing x with
  | nil => exact settled
  | cons a rest ih =>
    have stepped := step_write b (.insertionOrder _) x a
    exact ih (settled_step settled _ stepped)

end Node

/-- A new replica behind the catch-up of its primary. -/
def caughtUpNode (b : Build) (order : HashOrder (String × CollectionSchema)) (config : WalConfig)
    (primary : State) : FollowerNode :=
  .follow b order (.init config) (catchUp primary (headLsn (State.init config).wal))

/-- A new replica that has caught up with a run of writes that succeed has the vectorisers of its
primary iff no collection asks for others than the schema it was created with. -/
theorem replica_registry_iff (b : Build) (order : HashOrder (String × CollectionSchema))
    (config config' : WalConfig) (as : List Step) (succeed : AllSucceed (State.init config) as) :
    let primary := as.foldl (Node.write b) (Node.start config)
    let s := primary.session.engine.state
    (∀ c n, (caughtUpNode b order config' s).registry.get c n = primary.registry.get c n) ↔
      ∀ (c : String) first now, (firstSchemas s)[c]? = some first → s.schemas[c]? = some now →
        ∀ n, b.asked first n = b.asked now n := by
  intro primary s
  have reached : s = as.foldl State.step (State.init config) := Node.state_writes b as _
  have tracked : Tracked s := reached ▸ tracked_run config as succeed
  have primary_ : primary.registry.Follows b s.schemas :=
    (Node.settled_writes b as (Node.settled_start config)).follows
  have founded := founded_run b config as succeed reached
  have replica : (caughtUpNode b order config' s).registry =
      s.logged.foldl (registryReplayed b) .new := by
    rw [caughtUpNode, FollowerNode.follow, catchUp, recordsSince_all tracked.sequential,
      FollowerNode.registry_records, FollowerNode.registry_mutations, FollowerNode.registry_start]
    rfl
  rw [replica]
  constructor
  · intro agree c first now before after n
    have same := agree c n
    rw [founded.follows c n, primary_ c n, before, after] at same
    exact same
  · intro agree c n
    rw [founded.follows c n, primary_ c n]
    have living := founded.living c
    rw [← tracked.synced.schemas] at living
    cases before : (firstSchemas s)[c]? with
    | none =>
      cases after : s.schemas[c]? with
      | none => rfl
      | some now => simp [before, after] at living
    | some first =>
      cases after : s.schemas[c]? with
      | none => simp [before, after] at living
      | some now => exact agree c first now before after n

end Runs

section Examples
attribute [local instance] headerOnly

def embedder : VectoriserConfig :=
  ⟨some "small", none, none, some "network", some "http://embed", none⟩

def createNotes : CreateCollectionPlan :=
  ⟨"notes", [⟨"body", none, some 3, .cosine, false, ["text"]⟩], [⟨"text", .text⟩], [], some embedder⟩

def remodelled : List Step :=
  [(.idle, .createCollection createNotes),
    (.idle, .alterCollection ⟨"notes", .setModel "large" "large.onnx"⟩)]

/-- What a server is built with, beside files that all load. -/
def serverBuild : Build := ⟨true, false, fun _ => "tokenizer.json", fun _ => .ok ()⟩

/-- Its primary registers the vectoriser of the other model. -/
theorem remodelled_follows :
    let node := remodelled.foldl (Node.write serverBuild) (Node.start default)
    node.registry.Follows serverBuild node.session.engine.state.schemas := by
  intro node
  have reached := Run.end_visited (Node.next serverBuild (.insertionOrder _))
    (some (Node.start default)) (remodelled.map fun a => .write a.1 a.2)
  exact registry_follows serverBuild (.insertionOrder _) default _ _ reached node rfl

/-- A replica of it keeps the vectoriser of the first. -/
theorem remodelled_apart :
    let primary := remodelled.foldl (Node.write serverBuild) (Node.start default)
    ¬ ∀ c n, (caughtUpNode serverBuild (.insertionOrder _) default
      primary.session.engine.state).registry.get c n = primary.registry.get c n := by
  intro primary agree
  have same := (replica_registry_iff serverBuild (.insertionOrder _) default default remodelled
    (by unfold AllSucceed Engine.succeeds; decide)).mp agree "notes"
      (buildCollectionSchema createNotes)
      (alterSchema (buildCollectionSchema createNotes) (.setModel "large" "large.onnx"))
      (by decide) (by decide) "body"
  exact absurd same (by decide)

end Examples
end TronDB.Server
