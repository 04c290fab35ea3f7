import TronDB.Engine.Synced

/-! What each successful write appends to the log, and that the stored data changes as the
log says. -/
namespace TronDB.Engine
open TronDB.Core Binary Wal

/-- The entry can be made where the data stands: it creates what is absent and changes what
is present. -/
def Legal (d : Data) : Logged → Prop
  | (_, .schemaCreateColl, .schema schema) => d.collections.contains schema.name = false
  | (_, .schemaDropColl, .name name) => d.collections.contains name = true
  | (collection, .entityWrite, .entity _) | (collection, .reprWrite, .entity _) =>
    d.collections.contains collection = true
  | (_, .entityDelete, .entityDelete _ collection) => d.collections.contains collection = true
  | (_, .schemaCreateEdgeType, .edgeType et) => d.edgeTypes.contains et.name = false
  | (_, .edgeWrite, .edge e) | (_, .edgeConfirm, .edge e) | (_, .edgeConfidenceUpdate, .edge e)
  | (_, .edgeInferred, .edge e) => d.edgeTypes.contains e.edgeType = true
  | (_, .schemaAlter, .schemaAlter collection op) =>
    ∃ schema, d.collections[collection]? = some schema ∧ schema.name = collection ∧
      (alterApplies schema op = true ∨ ∃ fieldName, op = .dropField fieldName)
  | _ => True

def LegalAll : Data → List Logged → Prop
  | _, [] => True
  | d, l :: rest => Legal d l ∧ LegalAll (d.replay l) rest

theorem legalAll_append (added more : List Logged) (d : Data) :
    LegalAll d (added ++ more) ↔ LegalAll d added ∧ LegalAll (added.foldl Data.replay d) more := by
  induction added generalizing d with
  | nil => simp [LegalAll]
  | cons l rest ih => simp only [List.cons_append, LegalAll, ih, List.foldl_cons, and_assoc]

variable [WalPayload Payload]

def State.logged (s : State) : List Logged := s.wal.mutations.map toLogged

/-- From one state to the next the log has grown by decodable entries, each legal where it
was made. -/
structure Logs (s s' : State) (added : List Logged) : Prop where
  sequential : Sequential s.wal → Sequential s'.wal
  grown : Sequential s.wal → s'.logged = s.logged ++ added
  decodable : ∀ l ∈ added, decodable l.2 = true
  legal : LegalAll (dataOf s.store) added

/-- The log has grown, and the stored data has changed as the new entries say. -/
structure Performed (s s' : State) (added : List Logged) : Prop extends Logs s s' added where
  data : dataOf s'.store = added.foldl Data.replay (dataOf s.store)

def filed (collection : String) (entries : List (Entry Payload)) : List Logged :=
  entries.map fun entry => (collection, entry)

omit [WalPayload Payload] in
theorem map_entryRecords (entries : List (Entry Payload)) (lsn : Nat) (ts : Int) (txId : Nat)
    (collection : String) :
    (entryRecords lsn ts txId collection entries).map toLogged = filed collection entries := by
  induction entries generalizing lsn with
  | nil => rfl
  | cons e rest ih =>
    rw [entryRecords, List.map_cons, ih]
    rfl

theorem logs_of_wal {s s' : State} (ts : Int) (collection : String)
    (entries : List (Entry Payload)) (wal : s'.wal = (s.logTx ts collection entries).wal)
    (mutating : Mutating entries) (decoded : ∀ e ∈ entries, decodable e = true)
    (legal : LegalAll (dataOf s.store) (filed collection entries)) :
    Logs s s' (filed collection entries) where
  sequential seq := wal ▸ (sequential_transaction s.wal seq collection ts entries mutating).1
  grown seq := by
    have grown := (sequential_transaction s.wal seq collection ts entries mutating).2
    rw [State.logged, wal, State.logTx, grown, List.map_append, map_entryRecords]
    rfl
  decodable l hl := by
    obtain ⟨e, he, rfl⟩ := List.mem_map.mp hl
    exact decoded e he
  legal := legal

theorem Performed.refl (s : State) : Performed s s [] where
  sequential := id
  grown _ := (List.append_nil _).symm
  decodable := by simp
  legal := trivial
  data := rfl

theorem Performed.trans {s s' s'' : State} {added more : List Logged}
    (first : Performed s s' added) (second : Performed s' s'' more) :
    Performed s s'' (added ++ more) where
  sequential seq := second.sequential (first.sequential seq)
  grown seq := by rw [second.grown (first.sequential seq), first.grown seq, List.append_assoc]
  decodable l hl := (List.mem_append.mp hl).elim (first.decodable l) (second.decodable l)
  legal := (legalAll_append added more _).mpr ⟨first.legal, first.data ▸ second.legal⟩
  data := by rw [second.data, first.data, List.foldl_append]

/-! ### Schemas and edge types -/

attribute [local simp] RecordType.isControl decodable

theorem performed_createCollection {env : Env} {s : State} {p : CreateCollectionPlan}
    {r : QueryResult} {s' : State} (ok : createCollection env s p = (.ok r, s')) :
    Performed s s' [(p.name, .schemaCreateColl, .schema (buildCollectionSchema p))] := by
  unfold createCollection at ok
  split at ok
  · cases ok
  · dsimp only [Store.createCollectionSchema, State.logTx] at ok
    by_cases present : s.store.hasCollection (buildCollectionSchema p).name
    · rw [if_pos present] at ok
      cases ok
    · rw [if_neg present] at ok
      rw [Bool.not_eq_true] at present
      cases ok
      refine ⟨logs_of_wal env.ts p.name [(.schemaCreateColl, .schema (buildCollectionSchema p))]
        rfl (by simp [Mutating, RecordType.isControl]) (by simp [decodable])
        ⟨present, trivial⟩, ?_⟩
      exact (if_neg (fun h => Bool.false_ne_true (present.symm.trans h))).symm

omit [WalPayload Payload] in
theorem contains_iff {V : Type} (m : FinMap String V) (k : String) :
    m.contains k = true ↔ ∃ v, m[k]? = some v := by
  rw [Std.ExtTreeMap.contains_eq_isSome_getElem?, Option.isSome_iff_exists]

theorem performed_dropCollection {env : Env} {s : State} {name : String} {r : QueryResult}
    {s' : State} (ok : dropCollection env s name = (.ok r, s')) :
    Performed s s' [(name, .schemaDropColl, .name name)] := by
  unfold dropCollection at ok
  split at ok
  · cases found : s.store.collections[name]? with
    | none =>
      simp [State.logTx, State.forgetCollection, Store.dropCollection, Store.getCollectionSchema,
        found] at ok
    | some schema =>
      have present : (dataOf s.store).collections.contains name = true :=
        (contains_iff _ _).mpr ⟨schema, found⟩
      simp only [State.logTx, State.forgetCollection, Store.dropCollection,
        Store.getCollectionSchema, found] at ok
      cases ok
      refine ⟨logs_of_wal env.ts name [(.schemaDropColl, .name name)] rfl
        (by simp [Mutating, RecordType.isControl]) (by simp [decodable]) ⟨present, trivial⟩, ?_⟩
      exact (if_pos present).symm
  · cases ok

theorem performed_createEdgeType {env : Env} {s : State} {p : CreateEdgeTypePlan}
    {r : QueryResult} {s' : State} (ok : createEdgeType env s p = (.ok r, s')) :
    Performed s s' [(p.name, .schemaCreateEdgeType, .edgeType (buildEdgeType p))] := by
  unfold createEdgeType at ok
  split at ok
  · split at ok
    · dsimp only [Store.createEdgeType, State.logTx] at ok
      by_cases present : s.store.hasEdgeType (buildEdgeType p).name
      · rw [if_pos present] at ok
        cases ok
      · rw [if_neg present] at ok
        rw [Bool.not_eq_true] at present
        cases ok
        refine ⟨logs_of_wal env.ts p.name [(.schemaCreateEdgeType, .edgeType (buildEdgeType p))]
          rfl (by simp [Mutating, RecordType.isControl]) (by simp [decodable])
          ⟨present, trivial⟩, ?_⟩
        exact (if_neg (fun h => Bool.false_ne_true (present.symm.trans h))).symm
    · cases ok
  · cases ok

theorem performed_dropEdgeType {env : Env} {s : State} {name : String} {r : QueryResult}
    {s' : State} (synced : Synced s) (ok : dropEdgeType env s name = (.ok r, s')) :
    Performed s s' [(name, .schemaDropEdgeType, .name name)] := by
  unfold dropEdgeType at ok
  split at ok
  · rename_i known
    cases ok
    refine ⟨logs_of_wal env.ts name [(.schemaDropEdgeType, .name name)] rfl
      (by simp [Mutating, RecordType.isControl]) (by simp [decodable]) ⟨trivial, trivial⟩, ?_⟩
    rw [synced.edgeTypes] at known
    exact (if_pos known).symm
  · cases ok

/-! ### Entity writes in a transaction -/

def entityWrite (e : Entity) : Entry Payload := (.entityWrite, .entity e)

def Silent (entry : Entry Payload) : Prop :=
  (∃ key descriptor, entry = (.locationUpdate, .location key descriptor)) ∨
    ∃ key, entry = (.reprDirty, .reprKey key)

/-- The entry writes an entity or says nothing about the stored data. -/
def Quiet (entry : Entry Payload) : Prop := (∃ e, entry = entityWrite e) ∨ Silent entry

section Quiet
omit [WalPayload Payload]

theorem foldl_silent {collection : String} {entries : List (Entry Payload)}
    (silent : ∀ e ∈ entries, Silent e) (d : Data) :
    (filed collection entries).foldl Data.replay d = d := by
  induction entries with
  | nil => rfl
  | cons entry rest ih =>
    rw [List.forall_mem_cons] at silent
    obtain ⟨⟨key, descriptor, rfl⟩ | ⟨key, rfl⟩, later⟩ := silent
    · exact ih later
    · exact ih later

theorem quiet_step {collection : String} {entry : Entry Payload} (quiet : Quiet entry) {d : Data}
    (present : d.collections.contains collection = true) :
    Legal d (collection, entry) ∧ (d.replay (collection, entry)).collections = d.collections := by
  obtain ⟨e, rfl⟩ | ⟨key, descriptor, rfl⟩ | ⟨key, rfl⟩ := quiet
  · refine ⟨present, ?_⟩
    rw [entityWrite, Data.replay, Data.putEntity, if_pos present]
  · exact ⟨trivial, rfl⟩
  · exact ⟨trivial, rfl⟩

theorem legalAll_quiet {collection : String} {entries : List (Entry Payload)}
    (quiet : ∀ e ∈ entries, Quiet e) {d : Data}
    (present : d.collections.contains collection = true) : LegalAll d (filed collection entries) := by
  induction entries generalizing d with
  | nil => trivial
  | cons entry rest ih =>
    rw [List.forall_mem_cons] at quiet
    obtain ⟨legal, same⟩ := quiet_step quiet.1 present
    exact ⟨legal, ih quiet.2 (by rw [same]; exact present)⟩

theorem quiet_mutating {entries : List (Entry Payload)} (quiet : ∀ e ∈ entries, Quiet e) :
    Mutating entries ∧ ∀ e ∈ entries, decodable e = true := by
  constructor <;> intro e he <;>
    obtain ⟨e, rfl⟩ | ⟨key, descriptor, rfl⟩ | ⟨key, rfl⟩ := quiet e he <;> rfl

theorem quiet_entityWrites (entities : List Entity) : ∀ e ∈ entities.map entityWrite, Quiet e := by
  intro entry listed
  obtain ⟨e, -, rfl⟩ := List.mem_map.mp listed
  exact .inl ⟨e, rfl⟩

theorem data_insertAll {collection : String} {entities : List Entity} {store store' : Store}
    (ok : insertAll store collection entities = (.ok (), store')) :
    dataOf store' =
      (filed collection (entities.map entityWrite)).foldl Data.replay (dataOf store) := by
  induction entities generalizing store with
  | nil =>
    cases ok
    rfl
  | cons e rest ih =>
    unfold insertAll Store.insert at ok
    by_cases present : store.hasCollection collection
    · rw [if_pos present] at ok
      have same : dataOf (store.putEntity collection e) = (dataOf store).putEntity collection e :=
        (if_pos present).symm
      rw [ih ok, same]
      rfl
    · rw [if_neg present] at ok
      cases ok

end Quiet

/-! ### ALTER COLLECTION -/

section Alter
omit [WalPayload Payload]

theorem checkAlter_applies {schema : CollectionSchema} {collection : String} {op : SchemaAlterOp}
    (checked : checkAlter schema collection op = .ok ()) :
    alterApplies schema op = true ∨ ∃ fieldName, op = .dropField fieldName := by
  cases op with
  | dropField fieldName => exact .inr ⟨fieldName, rfl⟩
  | setModel model modelPath => exact .inl rfl
  | renameField oldName newName =>
    refine .inl (of_not_not fun absent => ?_)
    rw [alterApplies] at absent
    rw [checkAlter, if_neg absent] at checked
    cases checked
  | alterRepresentationSetFields reprName fields =>
    refine .inl (of_not_not fun absent => ?_)
    rw [alterApplies] at absent
    rw [checkAlter, if_neg absent] at checked
    cases checked
  | alterRepresentationSetModel reprName model modelPath =>
    refine .inl (of_not_not fun absent => ?_)
    rw [alterApplies] at absent
    rw [checkAlter, if_neg absent] at checked
    cases checked
  | addRepresentation name dimensions metric sparse fields =>
    refine .inl (of_not_not fun present => ?_)
    rw [alterApplies, Bool.not_eq_true, Bool.not_eq_false'] at present
    rw [checkAlter, if_pos present] at checked
    cases checked

theorem alterSchema_drop_missing {schema : CollectionSchema} {fieldName : String}
    (missing : ¬ alterApplies schema (.dropField fieldName) = true) :
    alterSchema schema (.dropField fieldName) = schema := by
  have other : ∀ f ∈ schema.fields, f.name ≠ fieldName := by simpa [alterApplies] using missing
  rw [alterSchema, List.filter_eq_self.mpr fun f hf => decide_eq_true (other f hf)]

/-- The schema written is the replay of the entry, also where replay skips the entry. -/
theorem data_alter {store : Store} {collection : String} {schema : CollectionSchema}
    {op : SchemaAlterOp} (found : store.collections[collection]? = some schema)
    (own : schema.name = collection)
    (checked : alterApplies schema op = true ∨ ∃ fieldName, op = .dropField fieldName) :
    dataOf (store.updateCollectionSchema (alterSchema schema op)) =
      (dataOf store).alterCollection collection op := by
  have known : (dataOf store).collections[collection]? = some schema := found
  unfold Data.alterCollection
  rw [known]
  dsimp only
  by_cases applies : alterApplies schema op = true
  · rw [if_pos applies, Store.updateCollectionSchema, name_alterSchema]
    rfl
  · obtain ⟨fieldName, rfl⟩ := checked.resolve_left applies
    rw [if_neg applies, alterSchema_drop_missing applies]
    refine congrArg (Data.mk · store.edgeTypes store.entities store.edges) (FinMap.ext fun k => ?_)
    rw [Store.updateCollectionSchema, FinMap.get_insert, own]
    split
    · rename_i here
      rw [← here, found]
    · rfl

@[simp] theorem alterMemory_store (s : State) (collection : String) (schema : CollectionSchema)
    (entities : List Entity) (op : SchemaAlterOp) :
    (s.alterMemory collection schema entities op).store = s.store := by
  unfold State.alterMemory
  repeat' split
  all_goals rfl

@[simp] theorem alterMemory_wal (s : State) (collection : String) (schema : CollectionSchema)
    (entities : List Entity) (op : SchemaAlterOp) :
    (s.alterMemory collection schema entities op).wal = s.wal := by
  unfold State.alterMemory
  repeat' split
  all_goals rfl

end Alter

theorem performed_alterCollection {env : Env} {s : State} {p : AlterCollectionPlan}
    {r : QueryResult} {s' : State} (synced : Synced s) (ok : alterCollection env s p = (.ok r, s')) :
    ∃ mutated : List Entity, Performed s s' (filed p.collection
      ((.schemaAlter, .schemaAlter p.collection p.operation) :: mutated.map entityWrite)) := by
  unfold alterCollection Store.getCollectionSchema at ok
  cases found : s.store.collections[p.collection]? with
  | none => simp [found] at ok
  | some schema =>
    have own := synced.named _ _ found
    simp only [found] at ok
    split at ok
    · cases ok
    · split at ok
      · cases ok
      · rename_i entities _ _ checked
        have applies := checkAlter_applies checked
        have altered := data_alter found own applies
        have still : ((dataOf s.store).alterCollection p.collection
            p.operation).collections.contains p.collection = true := by
          rw [← altered, contains_iff]
          refine ⟨alterSchema schema p.operation, (FinMap.get_insert _ _ _ _).trans (if_pos ?_)⟩
          rw [name_alterSchema, own]
        rw [alterMemory_store, store_logTx] at ok
        split at ok
        · cases ok
        · rename_i written
          cases ok
          have quiet := quiet_entityWrites (entities.filterMap fun e => alterEntity e p.operation)
          obtain ⟨mutating, decoded⟩ := quiet_mutating quiet
          refine ⟨_, logs_of_wal env.ts p.collection _ (alterMemory_wal _ _ _ _ _)
            (List.forall_mem_cons.mpr ⟨rfl, mutating⟩) (List.forall_mem_cons.mpr ⟨rfl, decoded⟩)
            ⟨⟨schema, found, own, applies⟩, legalAll_quiet quiet still⟩, ?_⟩
          exact (data_insertAll (Prod.ext written rfl)).trans (altered ▸ rfl)

end TronDB.Engine
