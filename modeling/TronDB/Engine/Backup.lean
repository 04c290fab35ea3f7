import TronDB.Engine.SnapshotRuns

/-! BACKUP: the schemas and the entities of every collection go to files of JSON lines. -/
namespace TronDB.Core
open Binary

/-- A line of a file: what has been written as JSON. -/
inductive Line where
  | schema (schema : CollectionSchema)
  | entity (e : Entity)
  deriving DecidableEq

/-- The files of the backup directory. The name of a collection is that of a partition, which the
keyspace takes without a slash, so the name of its file is a name in this directory. -/
abbrev Directory := FinMap String (List Line)

namespace Directory
variable (dir : Directory)

def create (file : String) : Directory := dir.insert file []

def writeln (file : String) (line : Line) : Directory :=
  dir.insert file ((dir[file]?).getD [] ++ [line])

def writeAll (file : String) (lines : List Line) : Directory :=
  lines.foldl (fun dir line => dir.writeln file line) (dir.create file)

end Directory

/-- The schema with its credentials redacted, as it goes into the backup. -/
def CollectionSchema.forExport (schema : CollectionSchema) : CollectionSchema :=
  { schema with vectoriserConfig := schema.vectoriserConfig.map fun vc => { vc with auth := none } }

namespace Store

def listCollectionSchemas (s : Store) : List CollectionSchema := s.collections.toList.map Prod.snd

def schemaPath : String := "schemas.jsonl"

def entityPath (name : String) : String := name ++ ".jsonl"

/-- All collection schemas and entities as JSON lines; the number of lines. -/
def snapshotTo (s : Store) (dir : Directory) : Except EngineError (Nat × Directory) :=
  let schemas := s.listCollectionSchemas
  let dir := dir.writeAll schemaPath (schemas.map fun schema => .schema schema.forExport)
  schemas.foldlM (fun written schema => do
    let entities ← s.scan schema.name
    let dir := written.2.writeAll (entityPath schema.name) (entities.map .entity)
    return (written.1 + entities.length, dir)) (schemas.length, dir)

end Store

/-! ### What a backup is for -/

def Value.finite : Value → Bool
  | .float x => x.magnitude < 0x7FF * 2 ^ 52
  | _ => true

def VectorData.finite : VectorData → Bool
  | .dense v => v.all fun x => x.magnitude < 0xFF * 2 ^ 23
  | .sparse v => v.all fun p => p.2.magnitude < 0xFF * 2 ^ 23

def Entity.finite (e : Entity) : Bool :=
  (e.metadata.toList.all fun kv => kv.2.finite) && e.representations.all fun r => r.vector.finite

namespace Line

def readSchema : Line → Option CollectionSchema
  | .schema s => some s
  | .entity _ => none

/-- A number that is not finite is written as null, and null is not read as a number. -/
def readEntity : Line → Option Entity
  | .schema _ => none
  | .entity e => if e.finite then some e else none

end Line

def Directory.read {α : Type} (dir : Directory) (readLine : Line → Option α) (path : String) :
    Option (List α) :=
  dir[path]?.bind fun lines => lines.mapM readLine

def VectoriserConfig.redacted (vc : VectoriserConfig) : VectoriserConfig := { vc with auth := none }

def CollectionSchema.redacted (schema : CollectionSchema) : CollectionSchema :=
  { schema with
    vectoriserConfig := schema.vectoriserConfig.map .redacted
    representations := schema.representations.map fun r =>
      { r with vectoriser := r.vectoriser.map .redacted } }

def Line.credentials : Line → List String
  | .schema s => (s.vectoriserConfig.bind VectoriserConfig.auth).toList ++
      s.representations.filterMap fun r => r.vectoriser.bind VectoriserConfig.auth
  | .entity _ => []

namespace Store

/-- The paths of a backup: one for the schemas and one for each collection. -/
def backupPaths (s : Store) : List String :=
  schemaPath :: s.listCollectionSchemas.map fun schema => entityPath schema.name

/-- What a directory holds after a backup. -/
structure BackedUp (s : Store) (dir : Directory) : Prop where
  schemas : dir.read Line.readSchema schemaPath =
    some (s.listCollectionSchemas.map CollectionSchema.redacted)
  entities : ∀ name, s.hasCollection name = true → ∃ es,
    dir.read Line.readEntity (entityPath name) = some es ∧ (es.map Entity.id).Nodup ∧
      ∀ e, e ∈ es ↔ s.entities[(name, e.id)]? = some e
  apart : s.backupPaths.Nodup
  redacted : ∀ path ∈ s.backupPaths, ∀ lines, dir[path]? = some lines →
    ∀ line ∈ lines, line.credentials = []

/-- No collection has the name of the schema file, no representation has a credential of its own, and
the numbers of the entities are finite. -/
structure Exportable (s : Store) : Prop where
  apart : s.hasCollection "schemas" = false
  shared : ∀ (name : String) schema, s.collections[name]? = some schema →
    ∀ r ∈ schema.representations, r.vectoriser.bind VectoriserConfig.auth = none
  finite : ∀ (name : String) (id : LogicalId) e, s.hasCollection name = true →
    s.entities[(name, id)]? = some e → e.finite = true

end Store

/-! ### The files that are written -/

namespace Directory

theorem writeAll_eq (dir : Directory) (path : String) (lines : List Line) :
    dir.writeAll path lines = dir.insert path lines := by
  have each (start : List Line) (dir : Directory) :
      lines.foldl (fun (dir : Directory) line => dir.writeln path line) (dir.insert path start) =
        dir.insert path (start ++ lines) := by
    induction lines generalizing start with
    | nil => rw [List.foldl_nil, List.append_nil]
    | cons line rest ih =>
      have wrote : Directory.writeln (dir.insert path start) path line =
          dir.insert path (start ++ [line]) := by
        unfold writeln
        rw [FinMap.get_insert, if_pos rfl]
        refine FinMap.ext fun k => ?_
        rw [FinMap.get_insert, FinMap.get_insert, FinMap.get_insert]
        split <;> rfl
      rw [List.foldl_cons, wrote, ih, List.append_assoc]
      rfl
  exact each [] dir

end Directory

namespace Store
variable {s : Store} {dir : Directory}

theorem entityPath_inj {name name' : String} (same : entityPath name = entityPath name') :
    name = name' := (String.append_left_inj _).mp same

def entityFiles (s : Store) : List (String × List Line) :=
  s.listCollectionSchemas.map fun schema =>
    (entityPath schema.name, (s.partition schema.name).map .entity)

theorem mem_listCollectionSchemas (schema : CollectionSchema) :
    schema ∈ s.listCollectionSchemas ↔ ∃ name : String, s.collections[name]? = some schema := by
  unfold listCollectionSchemas
  rw [List.mem_map]
  constructor
  · rintro ⟨⟨name, schema⟩, listed, rfl⟩
    exact ⟨name, (FinMap.mem_toList _ _ _).mp listed⟩
  · rintro ⟨name, found⟩
    exact ⟨(name, schema), (FinMap.mem_toList _ _ _).mpr found, rfl⟩

section Named
variable (named : ∀ (name : String) schema, s.collections[name]? = some schema → schema.name = name)
include named

theorem mem_names (name : String) :
    name ∈ s.listCollectionSchemas.map CollectionSchema.name ↔ s.hasCollection name = true := by
  rw [List.mem_map, hasCollection, Std.ExtTreeMap.contains_eq_isSome_getElem?,
    Option.isSome_iff_exists]
  constructor
  · rintro ⟨schema, listed, rfl⟩
    obtain ⟨name, found⟩ := (mem_listCollectionSchemas schema).mp listed
    exact ⟨schema, named name schema found ▸ found⟩
  · rintro ⟨schema, found⟩
    exact ⟨schema, (mem_listCollectionSchemas schema).mpr ⟨name, found⟩, named name schema found⟩

theorem nodup_names : (s.listCollectionSchemas.map CollectionSchema.name).Nodup := by
  have names : s.listCollectionSchemas.map CollectionSchema.name =
      s.collections.toList.map Prod.fst := by
    unfold listCollectionSchemas
    rw [List.map_map]
    exact List.map_congr_left fun kv listed => named kv.1 kv.2 ((FinMap.mem_toList _ _ _).mp listed)
  rw [names]
  exact FinMap.nodup_toList s.collections

theorem snapshotTo_eq : ∃ total, s.snapshotTo dir = .ok (total,
    FinMap.insertAll (dir.insert schemaPath
      (s.listCollectionSchemas.map fun schema => .schema schema.forExport)) s.entityFiles) := by
  have step (schemas : List CollectionSchema) (known : ∀ schema ∈ schemas,
      s.hasCollection schema.name = true) (written : Nat × Directory) :
      ∃ total, schemas.foldlM (fun written schema => do
        let entities ← s.scan schema.name
        let dir := written.2.writeAll (entityPath schema.name) (entities.map .entity)
        return (written.1 + entities.length, dir)) written = .ok (total,
          FinMap.insertAll written.2 (schemas.map fun schema =>
            (entityPath schema.name, (s.partition schema.name).map .entity))) := by
    induction schemas generalizing written with
    | nil => exact ⟨written.1, rfl⟩
    | cons schema rest ih =>
      obtain ⟨here, known⟩ := List.forall_mem_cons.mp known
      have scanned : s.scan schema.name = .ok (s.partition schema.name) := if_pos here
      rw [List.foldlM_cons, scanned]
      obtain ⟨total, later⟩ := ih known (written.1 + (s.partition schema.name).length,
        written.2.writeAll (entityPath schema.name) ((s.partition schema.name).map .entity))
      refine ⟨total, later.trans ?_⟩
      rw [Directory.writeAll_eq]
      rfl
  unfold snapshotTo
  dsimp only
  rw [Directory.writeAll_eq]
  exact step _ (fun schema listed => (mem_names named _).mp (List.mem_map_of_mem listed)) _

theorem nodup_entityPaths : (s.listCollectionSchemas.map fun schema => entityPath schema.name).Nodup := by
  have names := nodup_names named
  rw [List.nodup_iff_pairwise_ne, List.pairwise_map] at names ⊢
  exact names.imp fun distinct same => distinct (entityPath_inj same)

theorem mem_entityPaths (name : String) :
    entityPath name ∈ s.listCollectionSchemas.map (fun schema => entityPath schema.name) ↔
      s.hasCollection name = true := by
  rw [← mem_names named, List.mem_map, List.mem_map]
  refine exists_congr fun schema => and_congr_right fun _ => ⟨entityPath_inj, congrArg entityPath⟩

theorem schemaPath_apart : schemaPath ∉ s.listCollectionSchemas.map (fun schema => entityPath schema.name) ↔
    s.hasCollection "schemas" = false := by
  rw [show schemaPath = entityPath "schemas" by decide, mem_entityPaths named, Bool.not_eq_true]

omit named in
theorem keys_entityFiles : s.entityFiles.map Prod.fst =
    s.listCollectionSchemas.map fun schema => entityPath schema.name := by
  unfold entityFiles
  rw [List.map_map]
  rfl

theorem get_entityFile {name : String} (known : s.hasCollection name = true) :
    (FinMap.insertAll dir s.entityFiles)[entityPath name]? = some ((s.partition name).map .entity) := by
  obtain ⟨schema, listed, rfl⟩ := List.mem_map.mp ((mem_names named name).mpr known)
  have distinct : (s.entityFiles.map Prod.fst).Nodup := by
    rw [keys_entityFiles]
    exact nodup_entityPaths named
  exact FinMap.get_insertAll s.entityFiles dir distinct _ (List.mem_map_of_mem listed)

theorem get_schemaFile (apart : s.hasCollection "schemas" = false) (lines : List Line) :
    (FinMap.insertAll (dir.insert schemaPath lines) s.entityFiles)[schemaPath]? = some lines := by
  rw [FinMap.get_insertAll_absent, FinMap.get_insert, if_pos rfl]
  rw [keys_entityFiles]
  exact (schemaPath_apart named).mpr apart

end Named

/-! ### What is read back -/

theorem read_entities (es es' : List Entity) :
    (es.map Line.entity).mapM Line.readEntity = some es' ↔
      es' = es ∧ ∀ e ∈ es, e.finite = true := by
  induction es generalizing es' with
  | nil => exact ⟨fun same => by cases same; exact ⟨rfl, nofun⟩, fun ⟨same, _⟩ => by rw [same]; rfl⟩
  | cons e es ih =>
    have line : Line.readEntity (.entity e) = if e.finite then some e else none := rfl
    rw [List.map_cons, List.mapM_cons, line, List.forall_mem_cons]
    cases e.finite with
    | false => simp
    | true =>
      rw [if_pos rfl]
      cases read : (es.map Line.entity).mapM Line.readEntity with
      | none =>
        have none_ := mt (ih es).mpr (by rw [read]; nofun)
        exact iff_of_false nofun fun both => none_ ⟨rfl, both.2.2⟩
      | some later =>
        obtain ⟨rfl, finite⟩ := (ih later).mp read
        exact ⟨fun same => by cases same; exact ⟨rfl, rfl, finite⟩, fun ⟨same, _⟩ => by rw [same]; rfl⟩

theorem read_schemas (schemas : List CollectionSchema) :
    (schemas.map fun schema => Line.schema schema.forExport).mapM Line.readSchema =
      some (schemas.map CollectionSchema.forExport) := by
  induction schemas with
  | nil => rfl
  | cons schema rest ih =>
    rw [List.map_cons, List.mapM_cons, ih]
    rfl

theorem redacted_iff (schema : CollectionSchema) :
    schema.forExport = schema.redacted ↔
      ∀ r ∈ schema.representations, r.vectoriser.bind VectoriserConfig.auth = none := by
  have each (r : StoredRepresentation) :
      r = { r with vectoriser := r.vectoriser.map .redacted } ↔
        r.vectoriser.bind VectoriserConfig.auth = none := by
    rcases r with ⟨_, _, _, _, _, _, _, _, _ | ⟨_, _, _, _, _, auth⟩⟩
    · simp
    · simp [VectoriserConfig.redacted]
  have whole : schema.forExport = schema.redacted ↔ schema.representations =
      schema.representations.map fun r => { r with vectoriser := r.vectoriser.map .redacted } := by
    unfold CollectionSchema.forExport CollectionSchema.redacted VectoriserConfig.redacted
    simp
  rw [whole, ← List.map_id schema.representations, List.map_map, List.map_inj_left]
  simp only [List.map_id]
  exact forall₂_congr fun r _ => each r

theorem credentials_forExport (schema : CollectionSchema) :
    (Line.schema schema.forExport).credentials =
      schema.representations.filterMap fun r => r.vectoriser.bind VectoriserConfig.auth := by
  unfold CollectionSchema.forExport Line.credentials
  cases schema.vectoriserConfig <;> rfl

section Exact
variable (named : ∀ (name : String) schema, s.collections[name]? = some schema → schema.name = name)
include named

theorem backedUp_of_exportable (exportable : s.Exportable) : ∃ total after,
    s.snapshotTo dir = .ok (total, after) ∧ s.BackedUp after := by
  obtain ⟨total, wrote⟩ := @snapshotTo_eq _ dir named
  refine ⟨total, _, wrote, ?_⟩
  have schemaLines := @get_schemaFile _ dir named exportable.apart
    (s.listCollectionSchemas.map fun schema => .schema schema.forExport)
  have shared (schema : CollectionSchema) (listed : schema ∈ s.listCollectionSchemas) :
      ∀ r ∈ schema.representations, r.vectoriser.bind VectoriserConfig.auth = none := by
    obtain ⟨name, found⟩ := (mem_listCollectionSchemas schema).mp listed
    exact exportable.shared name schema found
  constructor
  case schemas =>
    unfold Directory.read
    rw [schemaLines, Option.bind_some, read_schemas]
    exact congrArg some (List.map_congr_left fun schema listed =>
      (redacted_iff schema).mpr (shared schema listed))
  case entities =>
    intro name known
    refine ⟨s.partition name, ?_, s.nodup_partition name, s.mem_partition name⟩
    unfold Directory.read
    rw [get_entityFile named known, Option.bind_some, read_entities]
    exact ⟨rfl, fun e listed => exportable.finite name e.id e known ((s.mem_partition name e).mp listed)⟩
  case apart =>
    unfold backupPaths
    exact List.nodup_cons.mpr ⟨(schemaPath_apart named).mpr exportable.apart, nodup_entityPaths named⟩
  case redacted =>
    intro path listed lines there line inLines
    rcases List.mem_cons.mp listed with rfl | listed
    · rw [schemaLines] at there
      cases there
      obtain ⟨schema, listed, rfl⟩ := List.mem_map.mp inLines
      rw [credentials_forExport]
      exact List.filterMap_eq_nil_iff.mpr (shared schema listed)
    · obtain ⟨schema, known, rfl⟩ := List.mem_map.mp listed
      rw [get_entityFile named ((mem_names named _).mp (List.mem_map_of_mem known))] at there
      cases there
      obtain ⟨e, -, rfl⟩ := List.mem_map.mp inLines
      rfl

theorem exportable_of_backedUp {total : Nat} {after : Directory}
    (wrote : s.snapshotTo dir = .ok (total, after)) (backedUp : s.BackedUp after) : s.Exportable := by
  obtain ⟨total', wrote'⟩ := @snapshotTo_eq _ dir named
  cases wrote.symm.trans wrote'
  have distinct := backedUp.apart
  unfold backupPaths at distinct
  have apart := (schemaPath_apart named).mp (List.nodup_cons.mp distinct).1
  constructor
  case apart => exact apart
  case shared =>
    have read := backedUp.schemas
    unfold Directory.read at read
    rw [get_schemaFile named apart, Option.bind_some, read_schemas] at read
    intro name schema found
    have listed := (mem_listCollectionSchemas schema).mpr ⟨name, found⟩
    exact (redacted_iff schema).mp (List.map_inj_left.mp (Option.some.inj read) schema listed)
  case finite =>
    intro name id e known stored
    obtain ⟨es, read, -, -⟩ := backedUp.entities name known
    unfold Directory.read at read
    rw [get_entityFile named known, Option.bind_some, read_entities] at read
    refine read.2 e ((s.mem_partition name e).mpr ?_)
    rwa [s.keyed name id e stored]

end Exact
end Store
end TronDB.Core

namespace TronDB.Engine
open TronDB.Core Wal

section Runs
variable [WalPayload Payload]

theorem Session.Sound.visited (config : WalConfig) (as : List Event) {x : Session}
    (reached : some x ∈ Run.visited Session.next (some (.start (.init config))) as) : x.Sound := by
  have sound : ∀ y ∈ Run.visited Session.next (some (.start (.init config))) as,
      ∀ session, y = some session → session.Sound := by
    refine Run.invariant Session.next as (fun session this => ?_)
      fun y a sound session stepped => ?_
    · cases this
      exact .start config
    · obtain ⟨before, this, stepped⟩ := Option.bind_eq_some_iff.mp stepped
      exact (sound before this).step a stepped
  exact sound _ reached x rfl

/-- In every state reached, over any number of sessions, a backup is faithful and redacted iff the
store is exportable. -/
theorem backed_up_iff (config : WalConfig) (as : List Event) (x : Session)
    (reached : some x ∈ Run.visited Session.next (some (.start (.init config))) as) (dir : Directory) :
    (∃ total after, x.engine.state.store.snapshotTo dir = .ok (total, after) ∧
      x.engine.state.store.BackedUp after) ↔ x.engine.state.store.Exportable := by
  have named := (Session.Sound.visited config as reached).synced.named
  exact ⟨fun ⟨_, _, wrote, backedUp⟩ => Store.exportable_of_backedUp named wrote backedUp,
    Store.backedUp_of_exportable named⟩

end Runs

section Examples
attribute [local instance] headerOnly

def creating (name : String) : Write := .createCollection
  ⟨name, [], [⟨"label", .text⟩], [], some ⟨none, none, none, none, none, some "secret"⟩⟩

def withCollection (name : String) : Session :=
  (Session.start (.init default)).withState (perform .idle (.init default) (creating name)).2

def insertLabel : Write :=
  .insert ⟨"venues", ["id", "label"], [.string "v1", .string "Oslo"], [], none, none⟩

def labelled : Session :=
  (withCollection "venues").withState
    (perform .idle (withCollection "venues").engine.state insertLabel).2

theorem labelled_exportable : labelled.engine.state.store.Exportable := by
  have shared : ∀ kv ∈ labelled.engine.state.store.collections.toList,
      ∀ r ∈ kv.2.representations, r.vectoriser.bind VectoriserConfig.auth = none := by
    decide +kernel
  have finite : ∀ kv ∈ labelled.engine.state.store.entities.toList, kv.2.finite = true := by
    decide +kernel
  constructor
  · decide +kernel
  · intro name schema found
    exact shared (name, schema) ((FinMap.mem_toList _ _ _).mpr found)
  · intro name id e _ stored
    exact finite ((name, id), e) ((FinMap.mem_toList _ _ _).mpr stored)

theorem labelled_backed_up :
    let s := labelled.engine.state.store
    s.listCollectionSchemas.flatMap (fun schema => (Line.schema schema).credentials) = ["secret"] ∧
      (s.partition "venues").map Entity.id = ["v1"] ∧
      ∃ total after, s.snapshotTo ∅ = .ok (total, after) ∧ s.BackedUp after := by
  refine ⟨by decide +kernel, by decide +kernel, ?_⟩
  have reached := Run.end_visited Session.next (some (.start (.init default)))
    [.write .idle (creating "venues"), .write .idle insertLabel]
  exact (backed_up_iff default _ labelled reached ∅).mpr labelled_exportable

/-- The file of a collection called schemas takes the place of the file of the schemas. -/
theorem schemas_overwritten :
    (some (withCollection "schemas") ∈ Run.visited Session.next (some (.start (.init default)))
      [.write .idle (creating "schemas")]) ∧
    ¬ ∃ total after, (withCollection "schemas").engine.state.store.snapshotTo ∅ = .ok (total, after) ∧
      (withCollection "schemas").engine.state.store.BackedUp after := by
  refine ⟨Run.end_visited Session.next _ _, fun ⟨total, after, wrote, backedUp⟩ => ?_⟩
  have lost : (((withCollection "schemas").engine.state.store.snapshotTo ∅).toOption.map
      fun wrote => wrote.2[Store.schemaPath]?) = some (some []) := by decide +kernel
  rw [wrote] at lost
  have empty : after[Store.schemaPath]? = some [] := Option.some.inj lost
  have schemas : (withCollection "schemas").engine.state.store.listCollectionSchemas.length = 1 := by
    decide +kernel
  have read := backedUp.schemas
  unfold Directory.read at read
  rw [empty] at read
  have none_ := congrArg List.length (Option.some.inj read)
  rw [List.length_map, schemas] at none_
  exact nomatch none_

end Examples
end TronDB.Engine
