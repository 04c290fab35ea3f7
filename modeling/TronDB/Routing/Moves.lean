import TronDB.Routing.Serde
import TronDB.Engine.Effects

/-! An entity under DEMOTE and PROMOTE. -/
namespace TronDB.Routing
open TronDB.Core TronDB.Engine TronDB.Wal Binary Bytes

/-! ### What the moves are to keep -/

def value (x : F32) : Int := x.toF64.signedUnits

/-- Component by component within half of a 255th of the vector's range. -/
def WithinHalfStep (v w : List F32) : Prop :=
  v.length = w.length ∧ ∀ ab ∈ v.zip w, ∃ hi ∈ v, ∃ lo ∈ v,
    510 * |value ab.1 - value ab.2| ≤ value hi - value lo

def firstDense (e : Entity) : Option (List F32) :=
  e.representations.findSome? fun r =>
    match r.vector with
    | .dense v => some v
    | .sparse _ => none

/-- FETCH returns the entity, and in the hot tier its first dense vector is close to what it was. -/
structure KeepsEntity (m : RmpSerde) (collection : String) (e : Entity) (x : Tiered)
    (e' : Entity) : Prop where
  fetched : x.get m collection e.id = .ok e'
  id : e'.id = e.id
  metadata : e'.metadata = e.metadata
  close : ∀ d, x.location.get (e.id, 0) = some d → d.tier = .fjall →
    ∀ v, firstDense e = some v → ∃ w, firstDense e' = some w ∧ WithinHalfStep v w

section Moves
variable (m : RmpSerde) (migrator : Bool)

def AllOk : Tiered → List TierMove → Prop
  | _, [] => True
  | x, move :: rest => (routeTierMove m migrator x move).1 = .ok () ∧
      AllOk (routeTierMove m migrator x move).2 rest

def Tiered.afterMoves (x : Tiered) (moves : List TierMove) : Tiered :=
  moves.foldl (fun x move => (routeTierMove m migrator x move).2) x

/-! ### One move -/

theorem withinHalfStep_refl (v : List F32) : WithinHalfStep v v := by
  refine ⟨rfl, fun ab listed => ⟨ab.1, (List.of_mem_zip listed).1, ab.1, (List.of_mem_zip listed).1, ?_⟩⟩
  have same : ab.1 = ab.2 := by
    rw [List.zip_eq_zipWith, List.zipWith_self, List.mem_map] at listed
    obtain ⟨a, -, rfl⟩ := listed
    rfl
  rw [same]
  simp

section One
variable (x : Tiered) {collection : String} {id : LogicalId}

theorem hot_after (collection : String) (id : LogicalId) (move : TierMove) :
    let after := (routeTierMove m migrator x move).2.readTiered collection id .fjall
    after = x.readTiered collection id .fjall ∨
      (∃ data v, x.readTiered collection id .fjall = some data ∧ m.readVector data = some v ∧
        after = none) ∨
      migrator = true ∧ move = .promote id collection ∧ ∃ v, after = some (vectorBytes v) := by
  cases migrator with
  | false => cases move <;> exact .inl rfl
  | true =>
    cases move with
    | demote id' collection' target =>
      have ends := demote_ends m collection' id' target x
      unfold routeTierMove
      dsimp only
      rw [if_pos rfl]
      generalize (demoteSingle m collection' id' target.source target.tier).run x = out at ends
      cases ends with
      | refused e => exact .inl rfl
      | stuck e location => exact .inl rfl
      | done data bytes entry location read transcoded found clean relocated =>
        have left : Tiered.readTiered { (x.writeTiered collection' id' target.tier
            bytes).deleteFromTier collection' id' target.source with
              location, wal := x.wal ++ [demoteRecord collection' id' target] } collection id .fjall =
            ((x.writeTiered collection' id' target.tier bytes).deleteFromTier collection' id'
              target.source).readTiered collection id .fjall := rfl
        rw [left, Tiered.read_delete, Tiered.read_write]
        cases target with
        | archive => exact .inl (by simp [TierTarget.source, TierTarget.tier, samePartition])
        | warm =>
          by_cases same : (collection', id') = (collection, id)
          · cases same
            refine .inr (.inl ⟨data, ?_⟩)
            dsimp only [TierTarget.tier, transcode] at transcoded
            cases vector : m.readVector data with
            | none =>
              rw [vector] at transcoded
              cases transcoded
            | some v => exact ⟨v, read, rfl, if_pos ⟨rfl, rfl⟩⟩
          · exact .inl (by simp [TierTarget.source, TierTarget.tier, samePartition, same])
    | promote id' collection' =>
      unfold routeTierMove
      dsimp only
      rw [if_pos rfl]
      split
      · exact .inl rfl
      · split
        · exact .inl rfl
        · rename_i int8 _
          have ends := promote_ends collection' id' (dequantiseInt8 int8) x
          generalize (promoteToHot collection' id' (dequantiseInt8 int8)).run x = out at ends
          have written : out.2.readTiered collection id .fjall =
              if (collection', id') = (collection, id) then some (vectorBytes (dequantiseInt8 int8))
              else x.readTiered collection id .fjall := by
            cases ends with
            | stuck e absent =>
              refine (Tiered.read_write x collection' id' .fjall _ collection id .fjall).trans ?_
              simp [samePartition]
            | done entry location found relocated =>
              refine (Tiered.read_delete (x.writeTiered collection' id' .fjall _) collection' id' .nvme
                collection id .fjall).trans ?_
              rw [Tiered.read_write]
              simp [samePartition]
          rw [written]
          split
          · rename_i same
            cases same
            exact .inr (.inr ⟨rfl, rfl, _, rfl⟩)
          · exact .inl rfl

theorem entity_stays (apart : m.TellsApart) {e : Entity}
    (held : x.readTiered collection id .fjall = some (m.entityBytes e)) (move : TierMove)
    (other : migrator = true → move ≠ .promote id collection) :
    (routeTierMove m migrator x move).2.readTiered collection id .fjall = some (m.entityBytes e) := by
  obtain same | ⟨data, v, read, vector, -⟩ | ⟨on, promoted, -⟩ :=
    hot_after m migrator x collection id move
  · exact same.trans held
  · -- the bytes of an entity are no vector
    cases held.symm.trans read
    cases (apart.noVector e).symm.trans vector
  · exact absurd promoted (other on)

/-- What a hot partition has under a key is no entity. -/
def Bare (x : Tiered) (collection : String) (id : LogicalId) : Prop :=
  x.readTiered collection id .fjall = none ∨
    ∃ v, x.readTiered collection id .fjall = some (vectorBytes v)

theorem bare_stays (bare : Bare x collection id) (move : TierMove) :
    Bare (routeTierMove m migrator x move).2 collection id := by
  obtain same | ⟨data, v, -, -, gone⟩ | ⟨-, -, v, written⟩ :=
    hot_after m migrator x collection id move
  · unfold Bare
    rw [same]
    exact bare
  · exact .inl gone
  · exact .inr ⟨v, written⟩

theorem promote_bare (ok : (routeTierMove m true x (.promote id collection)).1 = .ok ()) :
    Bare (routeTierMove m true x (.promote id collection)).2 collection id := by
  unfold routeTierMove at ok ⊢
  dsimp only at ok ⊢
  rw [if_pos rfl] at ok ⊢
  split at ok
  · cases ok
  · split at ok
    · cases ok
    · rename_i int8 read
      have ends := promote_ends collection id (dequantiseInt8 int8) x
      generalize (promoteToHot collection id (dequantiseInt8 int8)).run x = out at ends ok
      cases ends with
      | stuck e absent => cases ok
      | done entry location found relocated =>
        refine .inr ⟨dequantiseInt8 int8, ?_⟩
        refine (Tiered.read_delete (x.writeTiered collection id .fjall _) collection id .nvme
          collection id .fjall).trans ?_
        rw [Tiered.read_write]
        simp [samePartition]

theorem collections_after (move : TierMove) :
    (routeTierMove m migrator x move).2.collections = x.collections := by
  cases migrator with
  | false => cases move <;> rfl
  | true =>
    cases move with
    | demote id' collection' target =>
      have ends := demote_ends m collection' id' target x
      unfold routeTierMove
      dsimp only
      rw [if_pos rfl]
      generalize (demoteSingle m collection' id' target.source target.tier).run x = out at ends
      cases ends with
      | refused e => rfl
      | stuck e location => rfl
      | done data bytes entry location read transcoded found clean relocated =>
        exact (Tiered.delete_collections _ _ _ _).trans (Tiered.write_collections _ _ _ _ _)
    | promote id' collection' =>
      unfold routeTierMove
      dsimp only
      rw [if_pos rfl]
      split
      · rfl
      · split
        · rfl
        · rename_i int8 _
          have ends := promote_ends collection' id' (dequantiseInt8 int8) x
          generalize (promoteToHot collection' id' (dequantiseInt8 int8)).run x = out at ends
          cases ends with
          | stuck e absent => exact Tiered.write_collections _ _ _ _ _
          | done entry location found relocated =>
            exact (Tiered.delete_collections _ _ _ _).trans (Tiered.write_collections _ _ _ _ _)

end One

/-! ### A sequence of moves -/

theorem collections_afterMoves (moves : List TierMove) (x : Tiered) :
    (x.afterMoves m migrator moves).collections = x.collections := by
  induction moves generalizing x with
  | nil => rfl
  | cons move rest ih => exact (ih _).trans (collections_after m migrator x move)

theorem bare_afterMoves {collection : String} {id : LogicalId} (moves : List TierMove) (x : Tiered)
    (bare : Bare x collection id) : Bare (x.afterMoves m migrator moves) collection id := by
  induction moves generalizing x with
  | nil => exact bare
  | cons move rest ih => exact ih _ (bare_stays m migrator x bare move)

variable {m} in
theorem held_iff (apart : m.TellsApart) {collection : String} {id : LogicalId} {e : Entity}
    (moves : List TierMove) (x : Tiered)
    (held : x.readTiered collection id .fjall = some (m.entityBytes e))
    (allOk : AllOk m migrator x moves) :
    if migrator = true ∧ .promote id collection ∈ moves
    then Bare (x.afterMoves m migrator moves) collection id
    else (x.afterMoves m migrator moves).readTiered collection id .fjall = some (m.entityBytes e) := by
  induction moves generalizing x with
  | nil =>
    rw [if_neg fun both => absurd both.2 List.not_mem_nil]
    exact held
  | cons move rest ih =>
    by_cases promoted : migrator = true ∧ move = .promote id collection
    · obtain ⟨rfl, rfl⟩ := promoted
      rw [if_pos ⟨rfl, List.mem_cons_self⟩]
      exact bare_afterMoves m true rest _ (promote_bare m x allOk.1)
    · have kept := entity_stays m migrator x apart held move fun on same => promoted ⟨on, same⟩
      have later := ih (routeTierMove m migrator x move).2 kept allOk.2
      have same : (migrator = true ∧ TierMove.promote id collection ∈ move :: rest) ↔
          migrator = true ∧ TierMove.promote id collection ∈ rest := by
        rw [List.mem_cons]
        constructor
        · rintro ⟨on, here | there⟩
          · exact absurd ⟨on, here.symm⟩ promoted
          · exact ⟨on, there⟩
        · exact fun both => ⟨both.1, .inr both.2⟩
      simp only [same]
      exact later

variable {m} in
/-- After moves that all return OK, an inserted entity is as it was exactly when none of them is
its PROMOTE. -/
theorem moves_keep_iff (apart : m.TellsApart) (migrator : Bool) {x x' : Tiered} {collection : String}
    {e : Entity} (inserted : x.insert m collection e = (.ok (), x'))
    (read : m.readEntity (m.entityBytes e) = some e) (moves : List TierMove)
    (allOk : AllOk m migrator x' moves) :
    (∃ e', KeepsEntity m collection e (x'.afterMoves m migrator moves) e') ↔
      (migrator = true → .promote e.id collection ∉ moves) := by
  have put : x'.collections.contains collection = true ∧
      x'.readTiered collection e.id .fjall = some (m.entityBytes e) := by
    unfold Tiered.insert at inserted
    split at inserted
    · rename_i present
      cases inserted
      refine ⟨(congrArg (·.contains collection) (Tiered.write_collections _ _ _ _ _)).trans present, ?_⟩
      refine (Tiered.read_write x collection e.id .fjall _ collection e.id .fjall).trans ?_
      exact if_pos ⟨rfl, rfl⟩
    · cases inserted
  obtain ⟨present, held⟩ := put
  have ends := held_iff migrator apart moves x' held allOk
  have known := collections_afterMoves m migrator moves x'
  generalize x'.afterMoves m migrator moves = y at ends known
  by_cases promoted : migrator = true ∧ .promote e.id collection ∈ moves
  · rw [if_pos promoted] at ends
    refine iff_of_false ?_ fun none_ => none_ promoted.1 promoted.2
    rintro ⟨e', kept⟩
    have fetched := kept.fetched
    unfold Tiered.get at fetched
    rw [known, if_pos present] at fetched
    rcases ends with gone | ⟨v, vector⟩
    · rw [gone] at fetched
      cases fetched
    · rw [vector] at fetched
      dsimp only at fetched
      rw [apart.noEntity] at fetched
      cases fetched
  · rw [if_neg promoted] at ends
    refine iff_of_true ⟨e, ?_, rfl, rfl, fun d _ _ v dense => ⟨v, dense, withinHalfStep_refl v⟩⟩
      fun on listed => promoted ⟨on, listed⟩
    unfold Tiered.get
    rw [known, if_pos present, ends]
    dsimp only
    rw [read]

end Moves

/-! ### INSERT of the engine -/

/-- The tiers of an engine whose hot partitions have entities only. -/
def Tiered.of (m : RmpSerde) (wal : List TierMigrationPayload) (s : State) : Tiered where
  collections := s.store.collections
  hot := s.store.entities.map fun _ e => m.entityBytes e
  warm := s.store.warm
  archive := s.store.archive
  location := s.location
  wal := wal

section Refines
variable {store : Store} {collection : String}

theorem tiers_removeFieldEntries (e : Entity) (indexes : List (String × List (String × FieldType)))
    (store : Store) : (removeFieldEntries store collection e indexes).warm = store.warm ∧
      (removeFieldEntries store collection e indexes).archive = store.archive := by
  unfold removeFieldEntries
  induction indexes generalizing store with
  | nil => exact ⟨rfl, rfl⟩
  | cons idx rest ih =>
    rw [List.foldl_cons]
    obtain ⟨warm, archive⟩ := ih (if (indexedValues idx.2 e).length = idx.2.length then
      removeEntry store collection idx.1 idx.2 e.id (indexedValues idx.2 e) else store)
    rw [warm, archive]
    split
    · unfold removeEntry
      split <;> exact ⟨rfl, rfl⟩
    · exact ⟨rfl, rfl⟩

theorem tiers_insertFieldEntries (e : Entity) (indexes : List (String × List (String × FieldType)))
    (store : Store) : (insertFieldEntries store collection e indexes).2.warm = store.warm ∧
      (insertFieldEntries store collection e indexes).2.archive = store.archive := by
  induction indexes generalizing store with
  | nil => exact ⟨rfl, rfl⟩
  | cons idx rest ih =>
    unfold insertFieldEntries
    dsimp only
    split
    · split
      · rename_i store' inserted
        obtain ⟨warm, archive⟩ := ih store'
        unfold insertEntry at inserted
        split at inserted <;> cases inserted
        exact ⟨warm, archive⟩
      · exact ⟨rfl, rfl⟩
    · exact ih store

theorem tiers_removeOldEntries (env : Env) (s : State) (collection : String) (id : LogicalId) :
    (s.removeOldEntries env collection id).store.warm = s.store.warm ∧
      (s.removeOldEntries env collection id).store.archive = s.store.archive := by
  unfold State.removeOldEntries
  split
  · exact ⟨rfl, rfl⟩
  · exact tiers_removeFieldEntries _ _ _

theorem map_insert (entities : FinMap (String × LogicalId) Entity) (k : String × LogicalId)
    (e : Entity) (f : Entity → List UInt8) :
    (entities.insert k e).map (fun _ e => f e) = (entities.map fun _ e => f e).insert k (f e) := by
  refine FinMap.ext fun a => ?_
  rw [Std.ExtTreeMap.getElem?_map, FinMap.get_insert, FinMap.get_insert,
    Std.ExtTreeMap.getElem?_map]
  split <;> rfl

theorem tiered_insert [WalPayload Payload] (m : RmpSerde) (wal : List TierMigrationPayload) (env : Env)
    {s : State} {p : InsertPlan} {r : QueryResult} {s' : State}
    (inserted : insert env s p = (.ok r, s')) :
    ∃ schema e, s.schemas[p.collection]? = some schema ∧
      buildEntity env schema p (p.target env) = .ok e ∧
      (Tiered.of m wal s).insert m p.collection { e with txTime := s.wal.nextTx } =
        (.ok (), Tiered.of m wal s') := by
  have ends := insert_ends env s p
  rw [inserted] at ends
  cases ends with
  | refused error rejected result => cases result
  | unbuilt schema error known checked built result => cases result
  | unstored schema e known checked built absent result =>
    obtain ⟨error, entries, result⟩ := result
    cases result
  | stored schema e known checked built present log left =>
    refine ⟨schema, e, known, built, ?_⟩
    have data := left.store
    have location := left.location
    dsimp only at data location
    have kept := @data_insertFieldEntries p.collection { e with txTime := s.wal.nextTx }
      ((s.removeOldEntries env p.collection (p.target env)).fieldIndexesOf env p.collection)
      ((s.removeOldEntries env p.collection (p.target env)).store.putEntity p.collection
        { e with txTime := s.wal.nextTx })
    rw [← data] at kept
    have before := removeOldEntries_data env s p.collection (p.target env)
    have hot : s'.store.entities = s.store.entities.insert (p.collection, e.id)
        { e with txTime := s.wal.nextTx } :=
      (congrArg Data.entities kept).trans (congrArg (·.insert (p.collection, e.id)
        { e with txTime := s.wal.nextTx }) (removeOldEntries_entities env s _ _))
    have collections : s'.store.collections = s.store.collections :=
      (congrArg Data.collections kept).trans (congrArg Data.collections before)
    obtain ⟨warm, archive⟩ := @tiers_insertFieldEntries p.collection
      { e with txTime := s.wal.nextTx }
      ((s.removeOldEntries env p.collection (p.target env)).fieldIndexesOf env p.collection)
      ((s.removeOldEntries env p.collection (p.target env)).store.putEntity p.collection
        { e with txTime := s.wal.nextTx })
    rw [← data] at warm archive
    obtain ⟨oldWarm, oldArchive⟩ := tiers_removeOldEntries env s p.collection (p.target env)
    rw [removeOldEntries_location] at location
    unfold Tiered.insert
    rw [show (Tiered.of m wal s).collections.contains p.collection = true from present, if_pos rfl]
    refine Prod.ext rfl ?_
    unfold Tiered.of Tiered.writeTiered
    rw [hot, collections, warm, archive, location, map_insert]
    exact congrArg₂ (fun w a => (⟨s.store.collections, _, w, a, _, wal⟩ : Tiered)) oldWarm.symm
      oldArchive.symm

end Refines

/-! ### A PROMOTE after a restart -/

section Examples

/-- A venue with one vector, as a transaction writes it. -/
def shard (txTime : Nat) : Entity :=
  { Entity.new "v1" with
    metadata := (∅ : FinMap String Value).insert "name" (.string "The Shard")
    representations := [⟨"default", .atomic, ["id", "name"], .dense [⟨0x3F800000⟩],
      List.replicate 32 0, .clean, 0, ""⟩]
    txTime }

def venues : Tiered where
  collections := (∅ : FinMap String CollectionSchema).insert "venues"
    ⟨"venues", [⟨"default", none, some 1, .cosine, false, [], 0, "", none⟩], [], [], none⟩
  hot := ∅
  warm := ∅
  archive := ∅
  location := .new
  wal := []

def shardInserted : Tiered := (venues.insert (serdeOf (shard 1)) "venues" (shard 1)).2

/-- The DEMOTE fails on the entity's bytes, and the recovery of its record moves them. -/
def shardRestarted : Tiered :=
  let failed := (routeTierMove (serdeOf (shard 1)) true shardInserted (.demote "v1" "venues" .warm)).2
  { processPendingTierMigrations failed.wal { failed with location := shardInserted.location } with
    wal := [] }

def shardAgain : Tiered := (shardRestarted.insert (serdeOf (shard 3)) "venues" (shard 3)).2

theorem shardAgain_inserted :
    shardRestarted.insert (serdeOf (shard 3)) "venues" (shard 3) = (.ok (), shardAgain) :=
  Prod.ext (by decide) rfl

theorem shard_promotes : AllOk (serdeOf (shard 3)) true shardAgain [.promote "v1" "venues"] :=
  ⟨by decide +kernel, trivial⟩

theorem promoted_shard_iff :
    (∃ e', KeepsEntity (serdeOf (shard 3)) "venues" (shard 3)
      (shardAgain.afterMoves (serdeOf (shard 3)) true [.promote "v1" "venues"]) e') ↔
      (true = true → TierMove.promote "v1" "venues" ∉ [.promote "v1" "venues"]) :=
  moves_keep_iff (serdeOf_tellsApart _) true shardAgain_inserted (serdeOf_reads _) _ shard_promotes

/-- The PROMOTE returns OK, and FETCH finds no entity. -/
theorem promoted_shard_lost :
    AllOk (serdeOf (shard 3)) true shardAgain [.promote "v1" "venues"] ∧
      ¬ ∃ e', KeepsEntity (serdeOf (shard 3)) "venues" (shard 3)
        (shardAgain.afterMoves (serdeOf (shard 3)) true [.promote "v1" "venues"]) e' := by
  refine ⟨shard_promotes, ?_⟩
  rintro ⟨e', kept⟩
  have fetched : ((shardAgain.afterMoves (serdeOf (shard 3)) true [.promote "v1" "venues"]).get
      (serdeOf (shard 3)) "venues" "v1").isOk = false := by
    decide +kernel
  rw [show (shardAgain.afterMoves (serdeOf (shard 3)) true [.promote "v1" "venues"]).get
    (serdeOf (shard 3)) "venues" "v1" = .ok e' from kept.fetched] at fetched
  cases fetched

end Examples
end TronDB.Routing
