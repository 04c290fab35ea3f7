import TronDB.Engine.IndexReplay

/-! Exact field indexes over sessions: write statements, background tasks, and the closing and
opening in between. -/
namespace TronDB.Engine
open TronDB.Core Binary Wal

/-- What an opening makes exact indexes of: indexes of declared fields under distinct names, no
two entities with one key, and no entry but those of stored entities. -/
def RebuildsIndexes (s : State) : Prop :=
  ∀ collection ∈ s.schemas.toList, (collection.2.indexes.map StoredIndex.name).Nodup ∧
    ∀ idx ∈ collection.2.indexes,
      (∀ f ∈ idx.fields, f ∈ fieldNames collection.2) ∧
      (∀ listed ∈ (s.store.indexPartition collection.1 idx.name).toList,
        s.keyOf collection.1 collection.2 idx listed.2 = some listed.1) ∧
      ∀ a ∈ s.store.partition collection.1, ∀ b ∈ s.store.partition collection.1, a.id ≠ b.id →
        listedKey collection.2 idx a = listedKey collection.2 idx b → listedKey collection.2 idx a = none

instance (s : State) : Decidable (RebuildsIndexes s) :=
  inferInstanceAs (Decidable (∀ collection ∈ s.schemas.toList,
    (collection.2.indexes.map StoredIndex.name).Nodup ∧ ∀ idx ∈ collection.2.indexes,
      (∀ f ∈ idx.fields, f ∈ fieldNames collection.2) ∧
      (∀ listed ∈ (s.store.indexPartition collection.1 idx.name).toList,
        s.keyOf collection.1 collection.2 idx listed.2 = some listed.1) ∧
      ∀ a ∈ s.store.partition collection.1, ∀ b ∈ s.store.partition collection.1, a.id ≠ b.id →
        listedKey collection.2 idx a = listedKey collection.2 idx b → listedKey collection.2 idx a = none))

section Rebuild
variable {s : State}

theorem apart_of_partition {c : String} {schema : CollectionSchema} {idx : StoredIndex}
    (apart : ∀ a ∈ s.store.partition c, ∀ b ∈ s.store.partition c, a.id ≠ b.id →
      listedKey schema idx a = listedKey schema idx b → listedKey schema idx a = none)
    {a b : LogicalId} {key : List UInt8} (first : s.keyOf c schema idx a = some key)
    (second : s.keyOf c schema idx b = some key) : a = b := by
  obtain ⟨ea, storedA, keyA⟩ := Option.bind_eq_some_iff.mp first
  obtain ⟨eb, storedB, keyB⟩ := Option.bind_eq_some_iff.mp second
  have ownA := s.store.keyed c a ea storedA
  have ownB := s.store.keyed c b eb storedB
  by_contra other
  have none_ := apart ea ((s.store.mem_partition c ea).mpr (ownA.symm ▸ storedA)) eb
    ((s.store.mem_partition c eb).mpr (ownB.symm ▸ storedB)) (ownA.symm ▸ ownB.symm ▸ other)
    (keyA.trans keyB.symm)
  exact Option.some_ne_none key (keyA.symm.trans none_)

/-- Putting every entity of a collection once more makes its index exact. -/
theorem exact_refilled {c : String} {schema : CollectionSchema} {idx : StoredIndex}
    (declared : ∀ f ∈ idx.fields, f ∈ fieldNames schema)
    (listed : ∀ entry ∈ (s.store.indexPartition c idx.name).toList,
      s.keyOf c schema idx entry.2 = some entry.1)
    (apart : ∀ a ∈ s.store.partition c, ∀ b ∈ s.store.partition c, a.id ≠ b.id →
      listedKey schema idx a = listedKey schema idx b → listedKey schema idx a = none) :
    SecondaryIndex.Exact ((s.store.partition c).foldl
      (fun m e => SecondaryIndex.put m e.id (entryKey (schema.fieldTypes idx) e))
      (s.store.indexPartition c idx.name)) (s.keyOf c schema idx) := by
  have current : ∀ e ∈ s.store.partition c,
      s.keyOf c schema idx e.id = entryKey (schema.fieldTypes idx) e := by
    intro e there
    rw [State.keyOf, (s.store.mem_partition c e).mp there, Option.bind_some, listedKey, declaredTypes,
      if_pos declared]
    rfl
  have entries : ∀ (key : List UInt8) (id : LogicalId),
      (s.store.indexPartition c idx.name)[key]? = some id → s.keyOf c schema idx id = some key :=
    fun key id there => listed (key, id) ((FinMap.mem_toList _ _ _).mpr there)
  have refilled := SecondaryIndex.exact_rebuilt entries
    (fun a b key first second => apart_of_partition apart first second)
    ((s.store.partition c).map Entity.id) ?_
  · rw [List.foldl_map] at refilled
    refine (List.foldl_ext _ _ _ fun m e there => ?_) ▸ refilled
    rw [current e there]
  · intro id keyed
    obtain ⟨key, found⟩ := Option.ne_none_iff_exists'.mp keyed
    obtain ⟨e, stored, -⟩ := Option.bind_eq_some_iff.mp found
    have own := s.store.keyed c id e stored
    exact List.mem_map.mpr ⟨e, (s.store.mem_partition c e).mpr (own.symm ▸ stored), own⟩

theorem upkept_rebuilt (replaying : Replaying s) (schemas : s.schemas = s.store.collections)
    (tidy : Tidy s.store) (closed : s.fieldIndexes = ∅) (rebuilds : RebuildsIndexes s)
    (snapshots : HnswSnapshots) (records : List (WalRecord Payload)) :
    Upkept (s.rebuild snapshots records) := by
  have rebuilt := rebuilt_spec schemas snapshots records
  have synced := synced_rebuilt replaying schemas rebuilt
  have rebuilds : ∀ c schema, s.schemas[c]? = some schema → _ := fun c schema known =>
    rebuilds (c, schema) ((FinMap.mem_toList _ _ _).mpr known)
  have names (c : String) : c ∈ s.store.collections.toList.map Prod.fst ↔
      ∃ schema, s.schemas[c]? = some schema := by
    rw [schemas, List.mem_map]
    constructor
    · rintro ⟨⟨c, schema⟩, there, rfl⟩
      exact ⟨schema, (FinMap.mem_toList _ _ _).mp there⟩
    · rintro ⟨schema, known⟩
      exact ⟨(c, schema), (FinMap.mem_toList _ _ _).mpr known, rfl⟩
  obtain ⟨filled, others⟩ := Opening.fields_openCollections snapshots
    (s.store.collections.toList.map Prod.fst) ⟨s, ∅⟩ (FinMap.nodup_toList _)
    (fun c there => ((names c).mp there).imp fun schema known => ⟨known, (rebuilds c schema known).1⟩)
    (fun c there => by
      obtain ⟨schema, known⟩ := (names c).mp there
      rw [schemas] at known
      rw [Store.hasCollection_eq, known]
      rfl)
    (fun c index _ => by rw [closed]; simp)
  have store : (s.rebuild snapshots records).store =
      ((s.store.collections.toList.map Prod.fst).foldl (openCollection snapshots) ⟨s, ∅⟩).state.store := by
    unfold State.rebuild
    exact (rebuildEdgeTypes_rest _ _).1
  have memory : (s.rebuild snapshots records).fieldIndexes =
      ((s.store.collections.toList.map Prod.fst).foldl (openCollection snapshots)
        ⟨s, ∅⟩).state.fieldIndexes := by
    unfold State.rebuild
    exact rebuildEdgeTypes_fieldIndexes _ _
  rw [← store, ← memory] at filled others
  have collections : (s.rebuild snapshots records).store.collections = s.store.collections :=
    congrArg Data.collections rebuilt.data
  have entities : (s.rebuild snapshots records).store.entities = s.store.entities :=
    congrArg Data.entities rebuilt.data
  have undeclared (c index : String) (none_ : ¬ ∃ schema, s.schemas[c]? = some schema ∧
      index ∈ schema.indexes.map StoredIndex.name) := others c index fun schema _ known listed =>
    none_ ⟨schema, known, listed⟩
  refine ⟨synced, tidy.housed.same entities collections, ?_, ?_, ?_, ?_, ?_⟩
  · intro c index key id there
    rw [collections, ← schemas]
    by_contra none_
    rw [(undeclared c index none_).2] at there
    exact none_ (schemas ▸ tidy.placed c index key id there)
  · intro c index types there
    rw [rebuilt.schemas]
    by_contra none_
    rw [(undeclared c index none_).1] at there
    dsimp only at there
    rw [closed] at there
    simp at there
  · intro c schema known
    rw [rebuilt.schemas] at known
    exact (rebuilds c schema known).1
  · intro c schema known idx there
    rw [rebuilt.schemas] at known
    have open_ := (filled c ((names c).mpr ⟨schema, known⟩) schema known idx there).1
    have declared := ((rebuilds c schema known).2 idx there).1
    exact ⟨_, if_pos declared, open_⟩
  · intro c schema known idx there
    rw [rebuilt.schemas] at known
    have refilled := (filled c ((names c).mpr ⟨schema, known⟩) schema known idx there).2
    obtain ⟨declared, listed, apart⟩ := (rebuilds c schema known).2 idx there
    rw [refilled]
    refine (exact_refilled declared listed apart).congr fun id => ?_
    rw [State.keyOf, entities]
    rfl

end Rebuild

section Runs
variable [WalPayload Payload]

theorem unindexed_replayed {disk : Disk} (named : disk.Named) (tidy : Tidy disk.store)
    {config : WalConfig} {order : HashOrder (Nat × List (WalRecord Payload))} {s : State}
    {unhandled : List (WalRecord Payload)} (replayed : disk.replayed config order = .ok (s, unhandled)) :
    Unindexed disk.store s := by
  refine replay_invariant (P := Unindexed disk.store) (fun _ r kept => unindexed_record kept r) _ ?_ replayed
  refine ⟨⟨.empty named.collections, .empty named.edgeTypes, ?_⟩, tidy, fun _ _ _ _ there => there, rfl⟩
  simp [State.booting]

/-- A statement or background task, or the closing and opening of the engine. -/
inductive Upkeep where
  | write (env : Env) (w : Write)
  | reopen (config : WalConfig) (order : HashOrder (Nat × List (WalRecord Payload)))

def Upkeep.event : Upkeep → Event
  | .write env w => .write env w
  | .reopen config order => .reopen config order

def Upkeep.next (x : Option Session) (a : Upkeep) : Option Session := Session.next x a.event

/-- The step keeps the indexes exact: a write under its condition, an opening behind a replay
that leaves what exact indexes are made of. -/
def Upkeep.Keeps (x : Option Session) : Upkeep → Prop
  | .write env w => ∀ session ∈ x, KeepsIndexes env session.engine.state w
  | .reopen config order => ∀ session ∈ x,
    match session.engine.disk.replayed config order with
    | .ok (s, _) => RebuildsIndexes s.loadSchemas
    | .error _ => True

def Session.Upkept (x : Option Session) : Prop :=
  ∀ session, x = some session → session.Sound ∧ Engine.Upkept session.engine.state

theorem upkept_init (config : WalConfig) : Upkept (State.init config) where
  synced := synced_init config
  housed := by
    intro c id e there
    simp [State.init, Store.empty] at there
  placed := by
    intro c index key id there
    simp [State.init, Store.empty, Store.indexPartition] at there
  opened := by
    intro c index types there
    simp [State.init] at there
  distinct := by
    intro c schema there
    simp [State.init] at there
  current := by
    intro c schema there
    simp [State.init] at there
  exact := by
    intro c schema there
    simp [State.init] at there

theorem upkept_next {x : Option Session} (up : Session.Upkept x) (a : Upkeep) (keeps : a.Keeps x) :
    Session.Upkept (Upkeep.next x a) := by
  intro session' next
  obtain ⟨session, rfl, stepped⟩ := Option.bind_eq_some_iff.mp next
  obtain ⟨sound, up⟩ := up session rfl
  refine ⟨sound.step a.event stepped, ?_⟩
  cases a with
  | write env w =>
    cases stepped
    exact upkept_perform env w up (keeps session rfl)
  | reopen config order =>
    have keeps := keeps session rfl
    unfold Upkeep.event Session.step at stepped
    dsimp only at stepped
    split at stepped
    · rename_i opened
      cases stepped
      obtain ⟨s, replayed, state, -⟩ := openEngine_replayed opened
      rw [replayed] at keeps
      have unindexed := unindexed_replayed sound.named ⟨up.housed, up.placed⟩ replayed
      obtain ⟨replaying, schemas⟩ := replaying_loadSchemas unindexed.replaying
      unfold Session.start
      dsimp only
      rw [state]
      exact upkept_rebuilt replaying schemas unindexed.tidy unindexed.closed keeps _ _
    · cases stepped

/-- The field indexes are exact in every state of a run. -/
def IndexesStayExact (config : WalConfig) (as : List Upkeep) : Prop :=
  ∀ x ∈ Run.visited Upkeep.next (some (.start (.init config))) as,
    ∀ session ∈ x, FieldIndexesExact session.engine.state

/-- In a run over any number of sessions whose steps all meet their conditions, the field indexes
stay exact. -/
theorem field_indexes_exact (config : WalConfig) (as : List Upkeep)
    (keeps : ∀ p ∈ Run.taken Upkeep.next (some (.start (.init config))) as, p.2.Keeps p.1) :
    IndexesStayExact config as := by
  have start : Session.Upkept (some (.start (.init config))) := by
    intro session this
    cases this
    exact ⟨.start config, upkept_init config⟩
  intro x there session this
  have up := Run.invariant_under Upkeep.next (fun x a => a.Keeps x) as start keeps
    (fun x a up keeps => upkept_next up a keeps) x there
  exact (up session this).2.exact

end Runs

section Examples
attribute [local instance] headerOnly

def createNames : CreateCollectionPlan :=
  ⟨"people", [], [⟨"id", .text⟩, ⟨"name", .text⟩], [⟨"by_name", ["name"], none⟩], none⟩

def addPerson (id name : String) : InsertPlan :=
  ⟨"people", ["id", "name"], [.string id, .string name], [], none, none⟩

/-- Two people, one renamed and one deleted, and a restart. -/
def keptNames : List Upkeep :=
  [.write .idle (.createCollection createNames), .write .idle (.insert (addPerson "a" "Ann")),
    .write .idle (.insert (addPerson "b" "Bob")),
    .write .idle (.updateEntity ⟨"a", "people", [("name", .string "Eve")]⟩),
    .write .idle (.deleteEntity ⟨"b", "people"⟩), .reopen default (.insertionOrder _)]

theorem keepsIndexes_insert {env : Env} {s : State} {p : InsertPlan}
    (builds : ∀ schema ∈ s.schemas[p.collection]?, (buildEntity env schema p (p.target env)).isOk = true)
    (keeps : ∀ schema ∈ s.schemas[p.collection]?, ∀ e ∈ (buildEntity env schema p (p.target env)).toOption,
      (∀ idx ∈ schema.indexes, idx.name ∈
          (behindFailure (entryFails e) (s.fieldIndexesOf env p.collection)).map Prod.fst →
        listedKey schema idx e = none) ∧
        ∀ idx ∈ schema.indexes, ∀ other ∈ s.store.partition p.collection, other.id ≠ e.id →
          listedKey schema idx other = listedKey schema idx e → listedKey schema idx e = none) :
    KeepsIndexes env s (.insert p) := by
  intro schema known checked
  have builds := builds schema known
  have keeps := keeps schema known
  split
  · rename_i built
    rw [built] at builds
    cases builds
  · rename_i e built
    rw [built] at keeps
    exact keeps e rfl

theorem kept_names_indexed : IndexesStayExact default keptNames := by
  refine field_indexes_exact default keptNames ?_
  unfold keptNames
  simp only [Run.taken, List.forall_mem_cons, List.not_mem_nil, false_implies, implies_true, and_true]
  refine ⟨?_, ?_, ?_, ?_, ?_, ?_⟩
  · intro session _
    have declared : ∀ idx ∈ createNames.indexes, ∀ f ∈ idx.fields,
        f ∈ createNames.fields.map StoredField.name := by decide
    exact declared
  · intro session here
    refine keepsIndexes_insert ?_ ?_
    · revert session
      decide
    · revert session
      decide
  · intro session here
    refine keepsIndexes_insert ?_ ?_
    · revert session
      decide
    · revert session
      decide
  · unfold Upkeep.Keeps KeepsIndexes State.KeysApart
    decide
  · intro session _
    trivial
  · intro session here
    have rebuilds : ∀ r ∈ (session.engine.disk.replayed default (.insertionOrder _)).toOption,
        RebuildsIndexes r.1.loadSchemas := by
      revert session
      decide +kernel
    split
    · rename_i replayed
      rw [replayed] at rebuilds
      exact rebuilds _ rfl
    · trivial

def annFile : Env :=
  { Env.idle with importLines := fun _ => .ok [.object [("id", .string "a"), ("name", .string "Ann")]] }

def importedName : List Upkeep :=
  [.write .idle (.createCollection createNames), .write annFile (.importCollection ⟨"people", "people.jsonl"⟩)]

/-- An imported entity has no entry. -/
theorem imported_not_indexed : ¬ IndexesStayExact default importedName := by
  intro exact_
  generalize opened : importedName.foldl Upkeep.next (some (.start (.init default))) = x at *
  have exact_ := exact_ x (opened ▸ Run.end_visited _ _ _)
  have facts : ∀ session ∈ x,
      session.engine.state.schemas["people"]? = some (buildCollectionSchema createNames) ∧
        ∃ key ∈ session.engine.state.keyOf "people" (buildCollectionSchema createNames)
            ⟨"by_name", ["name"], none⟩ "a",
          (session.engine.state.store.indexPartition "people" "by_name")[key]? = none := by
    rw [← opened]
    decide
  have runs : x.isSome = true := by
    rw [← opened]
    decide
  obtain ⟨session, rfl⟩ := Option.isSome_iff_exists.mp runs
  obtain ⟨known, key, keyed, unlisted⟩ := facts session rfl
  have listed := (exact_ session rfl "people" _ known ⟨"by_name", ["name"], none⟩
    (List.mem_singleton.mpr rfl) key "a").mpr keyed
  cases unlisted.symm.trans listed

end Examples
end TronDB.Engine
