import TronDB.Core.Quantise
import TronDB.Engine.Isolation
import TronDB.Wal.Encoding

/-! The storage tiers: DEMOTE and PROMOTE step by step, and the recovery of their records. The
hot tier of a collection is its entity partition. -/
namespace TronDB.Engine.LocationTable
open TronDB.Core

def updateTier (t : LocationTable) (key : ReprKey) (tier : Tier) (encoding : Encoding) :
    Except EngineError LocationTable :=
  match t.get key with
  | none => .error (.locationNotFound key.1 key.2)
  | some entry => .ok { t with
      descriptors := t.descriptors.insert key
        { entry with tier, encoding, version := entry.version + 1 }
      mutationCounter := t.mutationCounter + 1 }

end TronDB.Engine.LocationTable

namespace TronDB.Routing
open TronDB.Core TronDB.Engine TronDB.Wal Binary Bytes

/-- What rmp_serde writes for an entity, and what it reads from the bytes of a hot partition. -/
structure RmpSerde where
  entityBytes : Entity → List UInt8
  readEntity : List UInt8 → Option Entity
  readVector : List UInt8 → Option (List F32)

def vectorBytes (v : List F32) : List UInt8 :=
  MessagePack.array (v.map fun x => 0xca :: beBytes 4 x.bits.toNat)

/-- What is relied on: vectors are read back, and an entity, which is written as a map, is no
sequence of floats. -/
structure RmpSerde.TellsApart (m : RmpSerde) : Prop where
  vector : ∀ v, v.length < 2 ^ 32 → m.readVector (vectorBytes v) = some v
  noVector : ∀ e, m.readVector (m.entityBytes e) = none
  noEntity : ∀ v, m.readEntity (vectorBytes v) = none

inductive RouterError where
  | affinityGroupFull (group : String) (max : Nat)
  | affinityGroupNotFound (group : String)
  | affinityGroupAlreadyExists (group : String)
  | engine (e : EngineError)
  deriving DecidableEq, Repr

structure TierMigrationPayload where
  entityId : LogicalId
  collection : String
  fromTier : Tier
  toTier : Tier
  encoding : Encoding
  deriving DecidableEq, Repr

/-- The tiers of all collections, by collection and id, the location table, and the committed
TierMigration records. -/
structure Tiered where
  collections : FinMap String CollectionSchema
  hot : FinMap (String × LogicalId) (List UInt8)
  warm : FinMap (String × LogicalId) (List UInt8)
  archive : FinMap (String × LogicalId) (List UInt8)
  location : LocationTable
  wal : List TierMigrationPayload

namespace Tiered

def partition (x : Tiered) : Tier → FinMap (String × LogicalId) (List UInt8)
  | .ram | .fjall => x.hot
  | .nvme => x.warm
  | .archive => x.archive

def setPartition (x : Tiered) (entries : FinMap (String × LogicalId) (List UInt8)) : Tier → Tiered
  | .ram | .fjall => { x with hot := entries }
  | .nvme => { x with warm := entries }
  | .archive => { x with archive := entries }

section Store
variable (x : Tiered) (collection : String) (id : LogicalId) (tier : Tier)

def readTiered : Option (List UInt8) := (x.partition tier)[(collection, id)]?

def writeTiered (data : List UInt8) : Tiered :=
  x.setPartition ((x.partition tier).insert (collection, id) data) tier

def deleteFromTier : Tiered := x.setPartition ((x.partition tier).erase (collection, id)) tier

end Store

/-! ### INSERT, DELETE and FETCH by id -/

section Statements
variable (m : RmpSerde) (x : Tiered) (collection : String)

def get (id : LogicalId) : Except EngineError Entity :=
  if x.collections.contains collection then
    match x.readTiered collection id .fjall with
    | none => .error (.entityNotFound id)
    | some bytes =>
      match m.readEntity bytes with
      | none => .error (.storage "invalid entity")
      | some e => .ok e
  else .error (.collectionNotFound collection)

/-- What an INSERT does to the tiers, for the entity it has built. -/
def insert (e : Entity) : Except EngineError Unit × Tiered :=
  if x.collections.contains collection then
    (.ok (), { x.writeTiered collection e.id .fjall (m.entityBytes e) with
      location := x.location.registerAll (locationEntries e) })
  else (.error (.collectionNotFound collection), x)

def delete (id : LogicalId) : Except EngineError Unit × Tiered :=
  match x.get m collection id with
  | .error e => (.error e, x)
  | .ok _ =>
    let cleared := ((x.deleteFromTier collection id .fjall).deleteFromTier collection id
      .nvme).deleteFromTier collection id .archive
    (.ok (), { cleared with location := x.location.removeEntity id })

end Statements
end Tiered

/-! ### The migrator -/

/-- A migration as its steps; the first that fails ends it. -/
abbrev Steps := List (Tiered → Except RouterError Tiered)

def Steps.run : Steps → Tiered → Except RouterError Unit × Tiered
  | [], x => (.ok (), x)
  | step :: rest, x =>
    match step x with
    | .error e => (.error e, x)
    | .ok x' => Steps.run rest x'

def targetEncoding : Tier → Encoding
  | .nvme => .int8
  | .archive => .binary
  | _ => .float32

section Steps
variable (m : RmpSerde) (collection : String) (id : LogicalId)

def mark (state : LocState) (x : Tiered) : Except RouterError Tiered :=
  match x.location.transition (id, 0) state with
  | .error e => .error (.engine e)
  | .ok location => .ok { x with location }

def logIntent (payload : TierMigrationPayload) (x : Tiered) : Except RouterError Tiered :=
  .ok { x with wal := x.wal ++ [payload] }

/-- The bytes of the target tier; only the warm tier and the archive are written to. -/
def transcode (data : List UInt8) : Tier → Except EngineError (Option (List UInt8))
  | .nvme =>
    match m.readVector data with
    | none => .error (.storage "invalid vector")
    | some vector => .ok (some (quantiseInt8 vector).toBytes)
  | .archive =>
    match QuantisedInt8.fromBytes data with
    | .error e => .error e
    | .ok int8 => .ok (some (quantiseBinary (dequantiseInt8 int8)).toBytes)
  | _ => .ok none

def moveData (fromTier toTier : Tier) (x : Tiered) : Except RouterError Tiered :=
  match x.readTiered collection id fromTier with
  | none => .error (.engine (.entityNotFound id))
  | some data =>
    match transcode m data toTier with
    | .error e => .error (.engine e)
    | .ok none => .ok x
    | .ok (some bytes) => .ok (x.writeTiered collection id toTier bytes)

def updateLocation (tier : Tier) (x : Tiered) : Except RouterError Tiered :=
  match x.location.updateTier (id, 0) tier (targetEncoding tier) with
  | .error e => .error (.engine e)
  | .ok location => .ok { x with location }

def deleteSource (tier : Tier) (x : Tiered) : Except RouterError Tiered :=
  .ok (x.deleteFromTier collection id tier)

def demoteSingle (fromTier toTier : Tier) : Steps :=
  [mark id .migrating,
    logIntent ⟨id, collection, fromTier, toTier, targetEncoding toTier⟩,
    moveData m collection id fromTier toTier,
    updateLocation id toTier,
    mark id .clean,
    deleteSource collection id fromTier]

def promoteToHot (vector : List F32) : Steps :=
  [fun x => .ok (x.writeTiered collection id .fjall (vectorBytes vector)),
    logIntent ⟨id, collection, .nvme, .fjall, .float32⟩,
    updateLocation id .fjall,
    deleteSource collection id .nvme]

end Steps

inductive TierTarget where
  | warm | archive
  deriving DecidableEq, Repr

def TierTarget.source : TierTarget → Tier
  | .warm => .fjall
  | .archive => .nvme

def TierTarget.tier : TierTarget → Tier
  | .warm => .nvme
  | .archive => .archive

/-- DEMOTE and PROMOTE. -/
inductive TierMove where
  | demote (id : LogicalId) (collection : String) (target : TierTarget)
  | promote (id : LogicalId) (collection : String)
  deriving DecidableEq, Repr

/-- A router without a migrator answers OK and moves nothing. -/
def routeTierMove (m : RmpSerde) (migrator : Bool) (x : Tiered) :
    TierMove → Except RouterError Unit × Tiered
  | .demote id collection target =>
    if migrator then (demoteSingle m collection id target.source target.tier).run x else (.ok (), x)
  | .promote id collection =>
    if migrator then
      match x.readTiered collection id .nvme with
      | none => (.error (.engine (.entityNotFound id)), x)
      | some data =>
        match QuantisedInt8.fromBytes data with
        | .error e => (.error (.engine e), x)
        | .ok int8 => (promoteToHot collection id (dequantiseInt8 int8)).run x
    else (.ok (), x)

/-! ### Recovery -/

inductive MigrationRecoveryAction where
  | noAction | alreadyComplete | reExecute | cleanupSource
  deriving DecidableEq, Repr

def classifyMigrationState (sourceExists targetExists : Bool) : MigrationRecoveryAction :=
  match sourceExists, targetExists with
  | false, false => .noAction
  | false, true => .alreadyComplete
  | true, false => .reExecute
  | true, true => .cleanupSource

def encodingForTier : Tier → Encoding
  | .ram | .fjall => .float32
  | .nvme => .int8
  | .archive => .binary

/-- The location of a migrated entity; that it has none is ignored. -/
def Tiered.reconcile (x : Tiered) (r : TierMigrationPayload) : Tiered :=
  match x.location.updateTier (r.entityId, 0) r.toTier (encodingForTier r.toTier) with
  | .error _ => x
  | .ok location => { x with location }

def Tiered.recover (x : Tiered) (r : TierMigrationPayload) : Tiered :=
  let source := x.readTiered r.collection r.entityId r.fromTier
  let target := x.readTiered r.collection r.entityId r.toTier
  match classifyMigrationState source.isSome target.isSome with
  | .noAction => x
  | .alreadyComplete => x.reconcile r
  | .cleanupSource => x.deleteFromTier r.collection r.entityId r.fromTier
  | .reExecute =>
    match source with
    | none => x
    | some data =>
      ((x.writeTiered r.collection r.entityId r.toTier data).deleteFromTier r.collection
        r.entityId r.fromTier).reconcile r

def processPendingTierMigrations (records : List TierMigrationPayload) (x : Tiered) : Tiered :=
  records.foldl Tiered.recover x

/-! ### What the operations leave -/

def samePartition : Tier → Tier → Bool
  | .ram, .ram | .ram, .fjall | .fjall, .ram | .fjall, .fjall => true
  | .nvme, .nvme | .archive, .archive => true
  | _, _ => false

namespace Tiered
section Reading
variable (x : Tiered) (collection : String) (id : LogicalId) (tier : Tier)

theorem read_write (data : List UInt8) (collection' : String) (id' : LogicalId) (tier' : Tier) :
    (x.writeTiered collection id tier data).readTiered collection' id' tier' =
      if samePartition tier tier' = true ∧ (collection, id) = (collection', id') then some data
      else x.readTiered collection' id' tier' := by
  unfold readTiered writeTiered
  cases tier <;> cases tier' <;>
    simp [partition, setPartition, samePartition, FinMap.get_insert]

theorem read_delete (collection' : String) (id' : LogicalId) (tier' : Tier) :
    (x.deleteFromTier collection id tier).readTiered collection' id' tier' =
      if samePartition tier tier' = true ∧ (collection, id) = (collection', id') then none
      else x.readTiered collection' id' tier' := by
  unfold readTiered deleteFromTier
  cases tier <;> cases tier' <;>
    simp [partition, setPartition, samePartition, FinMap.get_erase]

theorem relocate_read (location : LocationTable) (wal : List TierMigrationPayload) :
    readTiered { x with location, wal } collection id tier = x.readTiered collection id tier := by
  cases tier <;> rfl

@[simp] theorem write_location (data : List UInt8) :
    (x.writeTiered collection id tier data).location = x.location := by cases tier <;> rfl

@[simp] theorem write_wal (data : List UInt8) :
    (x.writeTiered collection id tier data).wal = x.wal := by cases tier <;> rfl

@[simp] theorem write_collections (data : List UInt8) :
    (x.writeTiered collection id tier data).collections = x.collections := by cases tier <;> rfl

@[simp] theorem delete_location : (x.deleteFromTier collection id tier).location = x.location := by
  cases tier <;> rfl

@[simp] theorem delete_wal : (x.deleteFromTier collection id tier).wal = x.wal := by
  cases tier <;> rfl

@[simp] theorem delete_collections :
    (x.deleteFromTier collection id tier).collections = x.collections := by cases tier <;> rfl

@[simp] theorem reconcile_read (r : TierMigrationPayload) :
    (x.reconcile r).readTiered collection id tier = x.readTiered collection id tier := by
  unfold reconcile
  split
  · rfl
  · cases tier <;> rfl

theorem reconcile_location (r : TierMigrationPayload) (k : ReprKey) :
    (x.reconcile r).location.get k = if (r.entityId, 0) = k then (x.location.get k).map fun d =>
      { d with tier := r.toTier, encoding := encodingForTier r.toTier, version := d.version + 1 }
      else x.location.get k := by
  unfold reconcile LocationTable.updateTier
  cases found : x.location.get (r.entityId, 0) with
  | none =>
    dsimp only
    split
    · rename_i here
      rw [← here, found]
      rfl
    · rfl
  | some d =>
    refine (FinMap.get_insert _ _ _ _).trans ?_
    split
    · rename_i here
      rw [← here, found]
      rfl
    · rfl

end Reading

section Recovering
variable (x : Tiered) (r : TierMigrationPayload)

theorem recover_gone (source : x.readTiered r.collection r.entityId r.fromTier = none) :
    x.recover r = if (x.readTiered r.collection r.entityId r.toTier).isSome = true
      then x.reconcile r else x := by
  unfold recover
  rw [source]
  cases x.readTiered r.collection r.entityId r.toTier <;> rfl

theorem recover_both (data data' : List UInt8)
    (source : x.readTiered r.collection r.entityId r.fromTier = some data)
    (target : x.readTiered r.collection r.entityId r.toTier = some data') :
    x.recover r = x.deleteFromTier r.collection r.entityId r.fromTier := by
  unfold recover
  rw [source, target]
  rfl

theorem recover_source (data : List UInt8)
    (source : x.readTiered r.collection r.entityId r.fromTier = some data)
    (target : x.readTiered r.collection r.entityId r.toTier = none) :
    x.recover r = ((x.writeTiered r.collection r.entityId r.toTier data).deleteFromTier r.collection
      r.entityId r.fromTier).reconcile r := by
  unfold recover
  rw [source, target]
  rfl

end Recovering
end Tiered

section Ends
variable (m : RmpSerde) (collection : String) (id : LogicalId)

def Relocates (t t' : LocationTable) (key : ReprKey) (entry : LocationDescriptor) : Prop :=
  ∀ k, t'.get k = if key = k then some entry else t.get k

theorem mark_ends (state : LocState) (x : Tiered) :
    (∃ e, mark id state x = .error e) ∨
      ∃ entry location, x.location.get (id, 0) = some entry ∧
        canTransitionTo entry.state state = true ∧
        Relocates x.location location (id, 0) { entry with state, version := entry.version + 1 } ∧
        mark id state x = .ok { x with location } := by
  unfold mark LocationTable.transition
  cases found : x.location.get (id, 0) with
  | none => exact .inl ⟨_, rfl⟩
  | some entry =>
    by_cases allowed : canTransitionTo entry.state state = true
    · dsimp only
      rw [if_pos allowed]
      exact .inr ⟨entry, _, rfl, allowed, fun k => FinMap.get_insert _ _ _ _, rfl⟩
    · dsimp only
      rw [if_neg allowed]
      exact .inl ⟨_, rfl⟩

theorem mark_ok (state : LocState) {x : Tiered} {entry : LocationDescriptor}
    (found : x.location.get (id, 0) = some entry)
    (allowed : canTransitionTo entry.state state = true) : ∃ location,
      Relocates x.location location (id, 0) { entry with state, version := entry.version + 1 } ∧
        mark id state x = .ok { x with location } := by
  unfold mark LocationTable.transition
  rw [found]
  dsimp only
  rw [if_pos allowed]
  exact ⟨_, fun k => FinMap.get_insert _ _ _ _, rfl⟩

theorem updateLocation_ends (tier : Tier) (x : Tiered) :
    (x.location.get (id, 0) = none ∧ ∃ e, updateLocation id tier x = .error e) ∨
      ∃ entry location, x.location.get (id, 0) = some entry ∧
        Relocates x.location location (id, 0)
          { entry with tier, encoding := targetEncoding tier, version := entry.version + 1 } ∧
        updateLocation id tier x = .ok { x with location } := by
  unfold updateLocation LocationTable.updateTier
  cases found : x.location.get (id, 0) with
  | none => exact .inl ⟨rfl, _, rfl⟩
  | some entry => exact .inr ⟨entry, _, rfl, fun k => FinMap.get_insert _ _ _ _, rfl⟩

def demoteRecord (target : TierTarget) : TierMigrationPayload :=
  ⟨id, collection, target.source, target.tier, targetEncoding target.tier⟩

def promoteRecord : TierMigrationPayload := ⟨id, collection, .nvme, .fjall, .float32⟩

/-- A DEMOTE that is done has moved the key; one that fails has at most marked the entry and
logged its intent. -/
inductive DemoteEnds (target : TierTarget) (x : Tiered) : Except RouterError Unit × Tiered → Prop
  | refused (e : RouterError) : DemoteEnds target x (.error e, x)
  | stuck (e : RouterError) (location : LocationTable) : DemoteEnds target x
      (.error e, { x with location, wal := x.wal ++ [demoteRecord collection id target] })
  | done (data bytes : List UInt8) (entry : LocationDescriptor) (location : LocationTable)
      (read : x.readTiered collection id target.source = some data)
      (transcoded : transcode m data target.tier = .ok (some bytes))
      (found : x.location.get (id, 0) = some entry) (clean : entry.state = .clean)
      (relocated : Relocates x.location location (id, 0) { entry with
        tier := target.tier, encoding := targetEncoding target.tier, version := entry.version + 3 }) :
      DemoteEnds target x (.ok (), { (x.writeTiered collection id target.tier
        bytes).deleteFromTier collection id target.source with
          location, wal := x.wal ++ [demoteRecord collection id target] })

theorem moveData_ends (target : TierTarget) (x : Tiered) :
    (∃ e, moveData m collection id target.source target.tier x = .error e) ∨
      ∃ data bytes, x.readTiered collection id target.source = some data ∧
        transcode m data target.tier = .ok (some bytes) ∧
        moveData m collection id target.source target.tier x =
          .ok (x.writeTiered collection id target.tier bytes) := by
  unfold moveData
  cases x.readTiered collection id target.source with
  | none => exact .inl ⟨_, rfl⟩
  | some data =>
    dsimp only
    cases transcoded : transcode m data target.tier with
    | error e => exact .inl ⟨_, rfl⟩
    | ok bytes? =>
      cases bytes? with
      | some bytes => exact .inr ⟨data, bytes, rfl, transcoded, rfl⟩
      | none =>
        -- both targets are transcoded
        revert transcoded
        cases target with
        | warm =>
          dsimp only [TierTarget.tier, transcode]
          cases m.readVector data <;> nofun
        | archive =>
          dsimp only [TierTarget.tier, transcode]
          cases QuantisedInt8.fromBytes data <;> nofun

theorem demote_ends (target : TierTarget) (x : Tiered) : DemoteEnds m collection id target x
    ((demoteSingle m collection id target.source target.tier).run x) := by
  unfold demoteSingle
  rw [Steps.run]
  obtain ⟨e, failed⟩ | ⟨entry, marked, found, allowed, marks, ran⟩ := mark_ends id .migrating x
  · rw [failed]
    exact .refused e
  rw [ran]
  dsimp only
  rw [Steps.run, logIntent]
  dsimp only
  rw [Steps.run]
  have clean : entry.state = .clean := by
    revert allowed
    cases entry.state <;> simp [canTransitionTo]
  obtain ⟨e, failed⟩ | ⟨data, bytes, read, transcoded, ran⟩ := moveData_ends m collection id target
    { x with location := marked, wal := x.wal ++ [demoteRecord collection id target] }
  · unfold demoteRecord at failed
    rw [failed]
    exact .stuck e marked
  unfold demoteRecord at ran
  rw [ran]
  dsimp only
  generalize moved : Tiered.writeTiered _ collection id target.tier bytes = y
  have location : y.location = marked := by
    rw [← moved, Tiered.write_location]
  rw [Steps.run]
  obtain ⟨none_, -⟩ | ⟨entry₁, updated, found₁, updates, ran⟩ := updateLocation_ends id target.tier y
  · rw [location, marks, if_pos rfl] at none_
    cases none_
  rw [location, marks, if_pos rfl] at found₁
  cases found₁
  rw [ran]
  dsimp only
  rw [Steps.run]
  have migrating : updated.get (id, 0) = some { entry with
      state := .migrating, tier := target.tier, encoding := targetEncoding target.tier
      version := entry.version + 1 + 1 } := by
    rw [updates, if_pos rfl]
  obtain ⟨cleaned, cleans, ran⟩ := mark_ok id .clean
    (x := { y with location := updated }) migrating rfl
  dsimp only at cleans
  rw [ran]
  dsimp only
  rw [Steps.run, deleteSource]
  dsimp only
  rw [Steps.run]
  have relocated : Relocates x.location cleaned (id, 0) { entry with
      tier := target.tier, encoding := targetEncoding target.tier, version := entry.version + 3 } := by
    intro k
    rw [cleans]
    split
    · rw [← clean]
    · rename_i other
      rw [updates, if_neg other, location, marks, if_neg other]
  have here : x.readTiered collection id target.source = some data := by
    rw [← read]
    cases target <;> rfl
  have done := DemoteEnds.done (m := m) data bytes entry cleaned here transcoded found clean relocated
  have same : Tiered.deleteFromTier { y with location := cleaned } collection id target.source =
      { (x.writeTiered collection id target.tier bytes).deleteFromTier collection id target.source with
        location := cleaned, wal := x.wal ++ [demoteRecord collection id target] } := by
    rw [← moved]
    cases target <;> rfl
  rw [same]
  exact done

/-- A PROMOTE has written the hot tier and logged its record when it fails for want of a
location. -/
inductive PromoteEnds (vector : List F32) (x : Tiered) : Except RouterError Unit × Tiered → Prop
  | stuck (e : RouterError) (absent : x.location.get (id, 0) = none) : PromoteEnds vector x
      (.error e, { x.writeTiered collection id .fjall (vectorBytes vector) with
        wal := x.wal ++ [promoteRecord collection id] })
  | done (entry : LocationDescriptor) (location : LocationTable)
      (found : x.location.get (id, 0) = some entry)
      (relocated : Relocates x.location location (id, 0)
        { entry with tier := .fjall, encoding := .float32, version := entry.version + 1 }) :
      PromoteEnds vector x (.ok (), { (x.writeTiered collection id .fjall
        (vectorBytes vector)).deleteFromTier collection id .nvme with
          location, wal := x.wal ++ [promoteRecord collection id] })

theorem promote_ends (vector : List F32) (x : Tiered) : PromoteEnds collection id vector x
    ((promoteToHot collection id vector).run x) := by
  unfold promoteToHot
  rw [Steps.run]
  dsimp only
  rw [Steps.run, logIntent]
  dsimp only
  rw [Steps.run]
  obtain ⟨absent, e, failed⟩ | ⟨entry, location, found, updates, ran⟩ := updateLocation_ends id .fjall
    { x.writeTiered collection id .fjall (vectorBytes vector) with
      wal := (x.writeTiered collection id .fjall (vectorBytes vector)).wal ++
        [promoteRecord collection id] }
  · unfold promoteRecord at failed
    rw [failed]
    exact .stuck e absent
  unfold promoteRecord at ran
  rw [ran]
  exact .done entry location found updates

end Ends
end TronDB.Routing
