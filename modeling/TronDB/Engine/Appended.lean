import TronDB.Engine.Numbered
import TronDB.Engine.Resume

/-! What the statements on entities and representations append to the log, next to what they make
of the location table. -/
namespace TronDB.Engine
open TronDB.Core Binary Wal Journal

/-! ### Records and states -/

section Told
variable (k : ReprKey) (collection : String)

theorem told_locations {kds : List (ReprKey × LocationDescriptor)}
    (clean : ∀ kd ∈ kds, kd.2.state = .clean) (s : Option LocState) :
    (filed collection (kds.map fun kd => (.locationUpdate, .location kd.1 kd.2))).foldl (entryAfter k) s =
      if k ∈ kds.map Prod.fst then some .clean else s := by
  induction kds generalizing s with
  | nil => simp [filed]
  | cons kd rest ih =>
    rw [List.forall_mem_cons] at clean
    rw [List.map_cons, filed, List.map_cons, List.foldl_cons]
    refine (ih clean.2 _).trans ?_
    by_cases later : k ∈ rest.map Prod.fst
    · simp [later]
    · by_cases here : kd.1 = k
      · simp [entryAfter, here, clean.1]
      · simp [entryAfter, here, later, Ne.symm here]

theorem state_registerAll {kds : List (ReprKey × LocationDescriptor)}
    (clean : ∀ kd ∈ kds, kd.2.state = .clean) (t : LocationTable) :
    (t.registerAll kds).state k = if k ∈ kds.map Prod.fst then some .clean else t.state k := by
  induction kds generalizing t with
  | nil => simp [LocationTable.registerAll]
  | cons kd rest ih =>
    rw [List.forall_mem_cons] at clean
    refine (ih clean.2 (t.register kd.1 kd.2)).trans ?_
    rw [LocationTable.state_register]
    by_cases later : k ∈ rest.map Prod.fst
    · simp [later]
    · by_cases here : kd.1 = k
      · simp [here, clean.1]
      · simp [here, later, Ne.symm here]

theorem locationEntries_clean (e : Entity) : ∀ kd ∈ locationEntries e, kd.2.state = .clean := by
  intro kd listed
  obtain ⟨r, -, rfl⟩ := List.mem_map.mp listed
  rfl

theorem mem_locationEntries (e : Entity) :
    k ∈ (locationEntries e).map Prod.fst ↔ e.id = k.1 ∧ k.2 < e.representations.length := by
  have keys : (locationEntries e).map Prod.fst =
      (e.representations.zipIdx.map Prod.snd).map fun i => (e.id, i) := by
    rw [locationEntries, List.map_map, List.map_map]
    rfl
  rw [keys, List.zipIdx_map_snd, List.mem_map]
  constructor
  · rintro ⟨i, listed, rfl⟩
    rw [List.mem_range'] at listed
    obtain ⟨j, short, rfl⟩ := listed
    exact ⟨rfl, by simpa using short⟩
  · rintro ⟨own, short⟩
    exact ⟨k.2, List.mem_range'.mpr ⟨k.2, short, by simp⟩, Prod.ext own rfl⟩

theorem dirtied_twice (s : LocState) : dirtied (dirtied s) = dirtied s := by
  cases s <;> rfl

theorem told_dirtied (keys : List ReprKey) (s : Option LocState) :
    (filed collection (keys.map fun key => (.reprDirty, .reprKey key))).foldl (entryAfter k) s =
      if k ∈ keys then s.map dirtied else s := by
  induction keys generalizing s with
  | nil => simp [filed]
  | cons key rest ih =>
    rw [List.map_cons, filed, List.map_cons, List.foldl_cons]
    refine (ih _).trans ?_
    have twice : (s.map dirtied).map dirtied = s.map dirtied := by
      rw [Option.map_map]
      exact congrArg (fun f => s.map f) (funext dirtied_twice)
    by_cases here : key = k
    · by_cases later : k ∈ rest <;> simp only [entryAfter, here, later, if_true, if_false,
        List.mem_cons, true_or, twice]
    · by_cases later : k ∈ rest <;> simp [entryAfter, here, later, Ne.symm here]

theorem state_dirtied (keys : List ReprKey) (t : LocationTable) :
    (keys.foldl (fun t key => t.tryTransition key .dirty) t).state k =
      if k ∈ keys then (t.state k).map dirtied else t.state k := by
  have same : (fun s => if canTransitionTo s .dirty then .dirty else s) = dirtied := by
    funext s
    cases s <;> rfl
  induction keys generalizing t with
  | nil => simp
  | cons key rest ih =>
    rw [List.foldl_cons, ih, LocationTable.state_tryTransition, same]
    have twice : ((t.state k).map dirtied).map dirtied = (t.state k).map dirtied := by
      rw [Option.map_map]
      exact congrArg (fun f => (t.state k).map f) (funext dirtied_twice)
    by_cases here : key = k
    · by_cases later : k ∈ rest <;> simp only [here, later, if_true, if_false, List.mem_cons,
        true_or, twice]
    · by_cases later : k ∈ rest <;> simp [here, later, Ne.symm here]

end Told

/-! ### Statements -/

section Statements
variable [WalPayload Payload] {s : State}

def insertEntries (e : Entity) : List (Entry Payload) :=
  entityWrite e :: (locationEntries e).map fun kd => (.locationUpdate, .location kd.1 kd.2)

theorem insert_appends (env : Env) (synced : Synced s) (p : InsertPlan) :
    (Appends s (insert env s p).2 [] ∧
        (insert env s p).2.store.entities = s.store.entities ∧
        (insert env s p).2.location = s.location ∧
        ∀ schema e, s.schemas[p.collection]? = some schema →
          checkVectors schema p.collection p.vectors = .ok () →
          buildEntity env schema p (p.target env) ≠ .ok e) ∨
      ∃ schema e, s.schemas[p.collection]? = some schema ∧
        checkVectors schema p.collection p.vectors = .ok () ∧
        buildEntity env schema p (p.target env) = .ok e ∧
        Appends s (insert env s p).2
          (filed p.collection (insertEntries { e with txTime := s.wal.nextTx })) ∧
        (insert env s p).2.store.entities =
          s.store.entities.insert (p.collection, e.id) { e with txTime := s.wal.nextTx } ∧
        (insert env s p).2.location =
          s.location.registerAll (locationEntries { e with txTime := s.wal.nextTx }) := by
  cases insert_ends env s p with
  | refused error rejected result =>
    rw [result]
    exact .inl ⟨appends_nothing rfl rfl, rfl, rfl, fun schema e known checked _ =>
      rejected schema known checked⟩
  | unbuilt schema error known checked built result =>
    obtain ⟨data, wal⟩ := removeOldEntries_rest env s p.collection (p.target env)
    rw [result]
    refine .inl ⟨appends_nothing wal data, congrArg Data.entities data, by simp, ?_⟩
    intro schema' e known' _ built'
    cases known.symm.trans known'
    cases built.symm.trans built'
  | unstored schema e known checked built absent result =>
    rw [synced.schemas] at known
    rw [Store.hasCollection_eq, known] at absent
    cases absent
  | stored schema e known checked built present wal left =>
    obtain ⟨data, -⟩ := removeOldEntries_rest env s p.collection (p.target env)
    have there : (dataOf s.store).collections.contains p.collection = true := present
    have put : dataOf (insert env s p).2.store =
        (dataOf s.store).putEntity p.collection { e with txTime := s.wal.nextTx } := by
      rw [left.data, ← data]
      refine (if_pos ?_).symm
      rw [data]
      exact there
    have silent : ∀ entry ∈ (locationEntries { e with txTime := s.wal.nextTx }).map fun kd =>
        ((.locationUpdate, .location kd.1 kd.2) : Entry Payload), Silent entry := by
      intro entry listed
      obtain ⟨kd, -, rfl⟩ := List.mem_map.mp listed
      exact .inl ⟨kd.1, kd.2, rfl⟩
    obtain ⟨mutating, -⟩ := quiet_mutating (List.forall_mem_cons.mpr
      ⟨.inl ⟨_, rfl⟩, fun entry listed => .inr (silent entry listed)⟩)
    refine .inr ⟨schema, e, known, checked, built, ?_, ?_, ?_⟩
    · exact appends_transaction (performed_putEntity env.ts p.collection _ _ there silent wal put)
        mutating wal
    · rw [left.entities, removeOldEntries_entities]
    · rw [left.location, removeOldEntries_location]
      rfl

def updateEntries (e : Entity) (dirty : List Nat) : List (Entry Payload) :=
  entityWrite e :: (dirty.map (e.id, ·)).map fun key => (.reprDirty, .reprKey key)

omit [WalPayload Payload] in
theorem finishUpdate_wal (t : State) (u : PendingUpdate) : (finishUpdate t u).2.wal = t.wal := by
  unfold finishUpdate
  split
  · rfl
  · dsimp only
    split
    · rfl
    · exact (enqueue_rest _ _ _).2

theorem updateEntity_appends (env : Env) (s : State) (p : UpdateEntityPlan) :
    ((updateEntity env s p).2 = s ∧ ∀ old, s.store.get p.collection p.entityId ≠ .ok old) ∨
      ∃ old, s.store.entities[(p.collection, p.entityId)]? = some old ∧
        Appends s (updateEntity env s p).2 (filed p.collection (updateEntries (assign old p.assignments)
          (dirtyReprIndices s.schemas[p.collection]? p.assignments))) ∧
        (updateEntity env s p).2.store.entities =
          s.store.entities.insert (p.collection, p.entityId) (assign old p.assignments) ∧
        (updateEntity env s p).2.location =
          ((dirtyReprIndices s.schemas[p.collection]? p.assignments).map (p.entityId, ·)).foldl
            (fun t key => t.tryTransition key .dirty) s.location := by
  rw [updateEntity_steps]
  unfold beginUpdate
  cases found : s.store.get p.collection p.entityId with
  | error e => exact .inl ⟨rfl, fun old there => by cases there⟩
  | ok old =>
    have present := (s.store.get_eq_ok ..).mp found
    have own : (assign old p.assignments).id = p.entityId :=
      show old.id = p.entityId from s.store.keyed _ _ _ present.2
    dsimp only
    let u : PendingUpdate := ⟨p, s.schemas[p.collection]?, old⟩
    let t := s.logTx env.ts p.collection (updateEntries u.new u.dirty)
    have entries : (((.entityWrite, .entity u.new) :: u.dirty.map fun idx =>
        (.reprDirty, .reprKey (p.entityId, idx))) : List (Entry Payload)) = updateEntries u.new u.dirty := by
      rw [updateEntries, show u.new.id = p.entityId from own, List.map_map]
      rfl
    rw [show s.logTx env.ts p.collection _ = t from congrArg (s.logTx env.ts p.collection) entries]
    obtain ⟨data, location, -⟩ := finishUpdate_put (s := t) (u := u) present.1
    have there : (dataOf s.store).collections.contains p.collection = true := present.1
    have put : dataOf (finishUpdate t u).2.store = (dataOf s.store).putEntity p.collection u.new :=
      data.trans (if_pos there).symm
    have silent : ∀ entry ∈ (u.dirty.map (u.new.id, ·)).map fun key =>
        ((.reprDirty, .reprKey key) : Entry Payload), Silent entry := by
      intro entry listed
      obtain ⟨key, -, rfl⟩ := List.mem_map.mp listed
      exact .inr ⟨key, rfl⟩
    obtain ⟨mutating, -⟩ := quiet_mutating (List.forall_mem_cons.mpr
      ⟨.inl ⟨u.new, rfl⟩, fun entry listed => .inr (silent entry listed)⟩)
    have wal : (finishUpdate t u).2.wal =
        s.wal.transaction p.collection env.ts (updateEntries u.new u.dirty) := finishUpdate_wal t u
    refine .inr ⟨old, present.2, ?_, ?_, ?_⟩
    · exact appends_transaction (performed_putEntity env.ts p.collection u.new _ there silent wal put)
        mutating wal
    · have entities := congrArg Data.entities data
      rw [← own]
      exact entities
    · rw [location, List.foldl_map]
      rfl

/-! ### Representations -/

/-- The operation is SET FIELDS or ADD REPRESENTATION. -/
def OnRepresentations : SchemaAlterOp → Prop
  | .alterRepresentationSetFields _ _ | .addRepresentation _ _ _ _ _ => True
  | _ => False

omit [WalPayload Payload] in
theorem OnRepresentations.entities {op : SchemaAlterOp} (on : OnRepresentations op) (e : Entity) :
    alterEntity e op = none := by
  cases op with
  | alterRepresentationSetFields reprName fields => rfl
  | addRepresentation name dimensions metric sparse fields => rfl
  | _ => exact on.elim

omit [WalPayload Payload] in
theorem state_alterMemory (t : State) (collection : String) (schema : CollectionSchema)
    (entities : List Entity) (op : SchemaAlterOp) (k : ReprKey) :
    (t.alterMemory collection schema entities op).location.state k = t.location.state k ∨
      (t.alterMemory collection schema entities op).location.state k = some .dirty := by
  have each (f : LocationTable → Entity → LocationTable)
      (one : ∀ u e, (f u e).state k = u.state k ∨ (f u e).state k = some .dirty)
      (es : List Entity) (u : LocationTable) :
      (es.foldl f u).state k = u.state k ∨ (es.foldl f u).state k = some .dirty := by
    induction es generalizing u with
    | nil => exact .inl rfl
    | cons e rest ih =>
      rcases ih (f u e) with same | dirty
      · rw [List.foldl_cons, same]
        exact one u e
      · exact .inr dirty
  have registered (u : LocationTable) (key : ReprKey) (sparse : Bool) :
      (u.register key (dirtyLocation sparse)).state k = u.state k ∨
        (u.register key (dirtyLocation sparse)).state k = some .dirty := by
    rw [LocationTable.state_register]
    split
    · exact .inr rfl
    · exact .inl rfl
  unfold State.alterMemory
  split
  · refine each _ (fun u e => ?_) entities _
    split
    · rw [LocationTable.state_tryTransition]
      split
      · rcases u.state k with _ | (_ | _ | _ | _) <;> simp [canTransitionTo]
      · exact .inl rfl
    · exact registered u _ _
  · dsimp only
    split
    · split <;> exact .inl rfl
    · split <;> exact each _ (fun u e => registered u _ _) entities _
  · exact .inl rfl

theorem alterCollection_appends (env : Env) (synced : Synced s) (p : AlterCollectionPlan)
    (on : OnRepresentations p.operation) :
    ((alterCollection env s p).2 = s ∧ ∀ schema, s.schemas[p.collection]? = some schema →
        checkAlter schema p.collection p.operation ≠ .ok ()) ∨
      ∃ schema, s.schemas[p.collection]? = some schema ∧
        checkAlter schema p.collection p.operation = .ok () ∧
        Appends s (alterCollection env s p).2
          (filed p.collection [(.schemaAlter, .schemaAlter p.collection p.operation)]) ∧
        (alterCollection env s p).2.store.entities = s.store.entities ∧
        (alterCollection env s p).2.schemas =
          s.schemas.insert p.collection (alterSchema schema p.operation) ∧
        ∀ k, (alterCollection env s p).2.location.state k = s.location.state k ∨
          (alterCollection env s p).2.location.state k = some .dirty := by
  unfold alterCollection Store.getCollectionSchema
  rw [synced.schemas]
  cases found : s.store.collections[p.collection]? with
  | none => exact .inl ⟨rfl, fun schema known => by cases known⟩
  | some schema =>
    have present : s.store.hasCollection p.collection = true := Store.hasCollection_of_stored found
    dsimp only
    rw [Store.scan, if_pos present]
    dsimp only
    cases checked : checkAlter schema p.collection p.operation with
    | error e =>
      refine .inl ⟨rfl, fun schema' known accepted => ?_⟩
      cases known
      cases checked.symm.trans accepted
    | ok =>
      have nothing : (s.store.partition p.collection).filterMap
          (fun e => alterEntity e p.operation) = [] :=
        List.filterMap_eq_nil_iff.mpr fun e _ => on.entities e
      have own := synced.named _ _ found
      have applies := checkAlter_applies checked
      refine .inr ⟨schema, rfl, checked, ?_⟩
      dsimp only
      rw [nothing]
      have kept := alterMemory_store (s.logTx env.ts p.collection
        ((.schemaAlter, .schemaAlter p.collection p.operation) ::
          ([] : List Entity).map fun e => (.entityWrite, .entity e)))
        p.collection schema (s.store.partition p.collection) p.operation
      have schemas := (sameSchemas_alterMemory (s.logTx env.ts p.collection
        ((.schemaAlter, .schemaAlter p.collection p.operation) ::
          ([] : List Entity).map fun e => (.entityWrite, .entity e)))
        p.collection schema (s.store.partition p.collection) p.operation).schemas
      refine ⟨appends_transaction ⟨logs_of_wal env.ts p.collection
        [(.schemaAlter, .schemaAlter p.collection p.operation)] (alterMemory_wal _ _ _ _ _)
        (by simp [Mutating, RecordType.isControl]) (by simp [decodable])
        ⟨⟨schema, found, own, applies⟩, trivial⟩, ?_⟩ (by simp [Mutating, RecordType.isControl])
        (alterMemory_wal _ _ _ _ _), ?_, ?_, fun k => state_alterMemory _ _ _ _ _ k⟩
      · dsimp only [insertAll]
        rw [kept]
        exact data_alter found own applies
      · dsimp only [insertAll, Store.updateCollectionSchema]
        rw [kept]
        rfl
      · rw [← synced.schemas]
        exact congrArg (fun m => m.insert p.collection (alterSchema schema p.operation)) schemas

theorem createCollection_appends (env : Env) (p : CreateCollectionPlan)
    (absent : s.store.hasCollection p.name = false) :
    ∃ added, Appends s (createCollection env s p).2 added ∧
      (∀ l ∈ added, Plain l) ∧ (∀ k t, added.foldl (entryAfter k) t = t) ∧
      ∀ c, p.name ≠ c → (createCollection env s p).2.schemas[c]? = s.schemas[c]? := by
  have missing : ¬ s.store.hasCollection (buildCollectionSchema p).name = true :=
    absent ▸ Bool.false_ne_true
  cases created : createCollection env s p with
  | mk result s' =>
    cases result with
    | error e =>
      have same : s' = s := by
        unfold createCollection Store.createCollectionSchema at created
        split at created
        · cases created
          rfl
        · dsimp only [State.logTx] at created
          rw [if_neg missing] at created
          cases created
      subst same
      exact ⟨[], appends_nothing rfl rfl, by simp, fun _ _ => rfl, fun _ _ => rfl⟩
    | ok r =>
      have performed := performed_createCollection created
      unfold createCollection Store.createCollectionSchema at created
      split at created
      · cases created
      · dsimp only [State.logTx] at created
        rw [if_neg missing] at created
        cases created
        have mutating : Mutating
            [((.schemaCreateColl, .schema (buildCollectionSchema p)) : Entry Payload)] := by
          simp [Mutating, RecordType.isControl]
        have logged := appends_transaction performed mutating rfl
        exact ⟨_, logged, by simp [filed, Plain], fun _ _ => rfl,
          fun c other => (FinMap.get_insert _ _ _ _).trans (if_neg other)⟩

/-! ### Write-backs -/

theorem writeBack_wal (job : Job) (env : Env) (s : State) (y : Encoded) :
    (job.writeBack env s y).2.wal = s.wal.transaction job.collection env.ts
      [(.reprWrite, .entity (job.refreshed env y))] := by
  unfold Job.writeBack
  dsimp only
  split
  · rfl
  · split <;> split <;> rfl

theorem writeBack_appends (job : Job) (env : Env) {s : State} (y : Encoded)
    (present : s.store.hasCollection job.collection = true) :
    Appends s (job.writeBack env s y).2
      (filed job.collection [(.reprWrite, .entity (job.refreshed env y))]) := by
  have wal := writeBack_wal job env s y
  obtain ⟨store, -⟩ := writeBack_put job env y present
  have mutating : Mutating [((.reprWrite, .entity (job.refreshed env y)) : Entry Payload)] := by
    simp [Mutating, RecordType.isControl]
  refine appends_transaction ⟨logs_of_wal env.ts job.collection _ wal mutating (by simp [decodable])
    ⟨present, trivial⟩, ?_⟩ mutating wal
  have there : (dataOf s.store).collections.contains job.collection = true := present
  rw [store]
  exact (if_pos there).symm

theorem advance_marks (env : RecomputeEnv) (s : State) (task : Task)
    (quiet : ∀ job y encoded later rest, task ≠ .writing job (y :: encoded) later rest) :
    ∃ location, (advance env s task).1 = { s with location } ∧ ∀ k,
      location.state k = s.location.state k ∨
        s.location.state k = some .dirty ∧ location.state k = some .recomputing := by
  have started (rest : List Group) (jobs : List Job) : ∃ location,
      (startJobs s rest jobs).1 = { s with location } ∧ ∀ k,
        location.state k = s.location.state k ∨
          s.location.state k = some .dirty ∧ location.state k = some .recomputing := by
    cases jobs with
    | nil => exact ⟨s.location, rfl, fun k => .inl rfl⟩
    | cons job later =>
      refine ⟨job.mark s.location, rfl, fun k => ?_⟩
      unfold Job.mark
      generalize s.location = t
      induction job.entries generalizing t with
      | nil => exact .inl rfl
      | cons e rest ih =>
        rw [List.foldl_cons]
        have one : (t.tryTransition e.1 .recomputing).state k = t.state k ∨
            t.state k = some .dirty ∧ (t.tryTransition e.1 .recomputing).state k = some .recomputing := by
          rw [LocationTable.state_tryTransition]
          split
          · rcases t.state k with _ | (_ | _ | _ | _) <;> simp [canTransitionTo]
          · exact .inl rfl
        rcases ih (t.tryTransition e.1 .recomputing) with same | ⟨dirty, marked⟩
        · rwa [same]
        · rcases one with same | ⟨-, marked'⟩
          · exact .inr ⟨same ▸ dirty, marked⟩
          · cases dirty.symm.trans marked'
  cases task with
  | groups rest =>
    cases rest with
    | nil => exact ⟨s.location, rfl, fun k => .inl rfl⟩
    | cons group rest => exact started rest _
  | encoding job later rest =>
    simp only [advance]
    split
    · exact started rest later
    · exact ⟨s.location, rfl, fun k => .inl rfl⟩
  | writing job encoded later rest =>
    cases encoded with
    | nil => exact started rest later
    | cons y encoded => exact absurd rfl (quiet job y encoded later rest)
  | failed e => exact ⟨s.location, rfl, fun k => .inl rfl⟩

end Statements
end TronDB.Engine
