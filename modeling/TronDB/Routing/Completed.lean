import Mathlib.Data.List.Induction
import TronDB.Routing.Moves
import TronDB.Lib.Run

/-! The recovery of migrations that were completed. -/
namespace TronDB.Routing
open TronDB.Core TronDB.Engine TronDB.Wal Binary Bytes

inductive TierStatement where
  | insert (collection : String) (e : Entity)
  | delete (collection : String) (id : LogicalId)
  | move (tierMove : TierMove)

section Runs
variable (m : RmpSerde) (migrator : Bool)

def TierStatement.perform (x : Tiered) : TierStatement → Except RouterError Unit × Tiered
  | .insert collection e =>
    let (result, x) := x.insert m collection e
    (result.mapError .engine, x)
  | .delete collection id =>
    let (result, x) := x.delete m collection id
    (result.mapError .engine, x)
  | .move tierMove => routeTierMove m migrator x tierMove

def TierStatement.next (x : Tiered) (s : TierStatement) : Tiered := (s.perform m migrator x).2

/-- A migration that the statement logs is completed. -/
def Completes (x : Tiered) (s : TierStatement) : Prop :=
  (s.perform m migrator x).2.wal = x.wal ∨ (s.perform m migrator x).1 = .ok ()

/-- The tiers hold the same, and the location table says the same. -/
structure Unchanged (x y : Tiered) : Prop where
  tiers : ∀ collection id tier, y.readTiered collection id tier = x.readTiered collection id tier
  places : ∀ k, y.location.get k = x.location.get k

/-- The tier that the statement writes bytes of an entity to. -/
def TierStatement.target : TierStatement → Option (String × LogicalId × Tier)
  | .insert collection e => some (collection, e.id, .fjall)
  | .delete _ _ => none
  | .move (.demote id collection target) => some (collection, id, target.tier)
  | .move (.promote id collection) => some (collection, id, .fjall)

/-- A statement that succeeds brings nothing to a tier that a logged migration took it from. -/
def BringsNothingBack (x : Tiered) (s : TierStatement) : Prop :=
  (s.perform m migrator x).1 = .ok () → ∀ key ∈ s.target, ∀ r ∈ x.wal, r.collection = key.1 →
    r.entityId = key.2.1 → samePartition key.2.2 r.fromTier = false

/-- No logged migration's key is where it was taken from. -/
def MovedOn (x : Tiered) : Prop :=
  ∀ r ∈ x.wal, x.readTiered r.collection r.entityId r.fromTier = none

/-- A logged migration that the recovery finds complete, of an entity that has a location. -/
def Tiered.Reconciles (x : Tiered) (r : TierMigrationPayload) : Prop :=
  x.location.get (r.entityId, 0) ≠ none ∧ x.readTiered r.collection r.entityId r.toTier ≠ none

instance (x : Tiered) (r : TierMigrationPayload) : Decidable (x.Reconciles r) :=
  inferInstanceAs (Decidable (_ ∧ _))

/-! ### Recovery of them -/

theorem recover_location (y : Tiered) (r : TierMigrationPayload)
    (gone : y.readTiered r.collection r.entityId r.fromTier = none) (k : ReprKey) :
    (y.recover r).location.get k = if (r.entityId, 0) = k ∧
        (y.readTiered r.collection r.entityId r.toTier).isSome = true then
      (y.location.get k).map fun d =>
        { d with tier := r.toTier, encoding := encodingForTier r.toTier, version := d.version + 1 }
      else y.location.get k := by
  rw [Tiered.recover_gone y r gone]
  by_cases there : (y.readTiered r.collection r.entityId r.toTier).isSome = true
  · rw [if_pos there, Tiered.reconcile_location]
    simp [there]
  · rw [if_neg there, if_neg fun both => there both.2]

theorem replay_tiers (records : List TierMigrationPayload) (y : Tiered)
    (gone : ∀ r ∈ records, y.readTiered r.collection r.entityId r.fromTier = none)
    (collection : String) (id : LogicalId) (tier : Tier) :
    (processPendingTierMigrations records y).readTiered collection id tier =
      y.readTiered collection id tier := by
  induction records generalizing y with
  | nil => rfl
  | cons r rest ih =>
    rw [List.forall_mem_cons] at gone
    have same (c : String) (i : LogicalId) (t : Tier) :
        (y.recover r).readTiered c i t = y.readTiered c i t := by
      rw [Tiered.recover_gone y r gone.1]
      split
      · rw [Tiered.reconcile_read]
      · rfl
    refine (ih (y.recover r) fun r' listed => ?_).trans (same _ _ _)
    rw [same]
    exact gone.2 r' listed

theorem replay_quiet (records : List TierMigrationPayload) (y : Tiered)
    (gone : ∀ r ∈ records, y.readTiered r.collection r.entityId r.fromTier = none)
    (quiet : ∀ r ∈ records, ¬ y.Reconciles r) (k : ReprKey) :
    (processPendingTierMigrations records y).location.get k = y.location.get k := by
  induction records using List.reverseRecOn generalizing k with
  | nil => rfl
  | append_singleton rest r ih =>
    rw [List.forall_mem_append, List.forall_mem_singleton] at gone quiet
    have step : processPendingTierMigrations (rest ++ [r]) y =
        (processPendingTierMigrations rest y).recover r := List.foldl_append
    have tiers := replay_tiers rest y gone.1
    rw [step, recover_location _ _ ((tiers _ _ _).trans gone.2), tiers, ih gone.1 quiet.1]
    split
    · rename_i both
      have absent : y.location.get k = none := by
        by_contra there
        exact quiet.2 ⟨both.1 ▸ there, Option.isSome_iff_ne_none.mp both.2⟩
      rw [absent]
      rfl
    · rfl

/-- The version of a location counts the migrations that are found complete. -/
theorem replay_version (records : List TierMigrationPayload) (y : Tiered)
    (gone : ∀ r ∈ records, y.readTiered r.collection r.entityId r.fromTier = none) (k : ReprKey) :
    ((processPendingTierMigrations records y).location.get k).map LocationDescriptor.version =
      (y.location.get k).map fun d => d.version + records.countP fun r =>
        (r.entityId, 0) = k ∧ (y.readTiered r.collection r.entityId r.toTier).isSome = true := by
  induction records using List.reverseRecOn with
  | nil => rfl
  | append_singleton rest r ih =>
    rw [List.forall_mem_append, List.forall_mem_singleton] at gone
    have step : processPendingTierMigrations (rest ++ [r]) y =
        (processPendingTierMigrations rest y).recover r := List.foldl_append
    have tiers := replay_tiers rest y gone.1
    have before := ih gone.1
    rw [step, recover_location _ _ ((tiers _ _ _).trans gone.2), tiers, List.countP_append,
      List.countP_singleton]
    split
    · rename_i both
      rw [if_pos (decide_eq_true both), Option.map_map]
      have bumped := congrArg (Option.map (· + 1)) before
      rw [Option.map_map, Option.map_map] at bumped
      exact bumped
    · rename_i other
      rw [if_neg fun both => other (of_decide_eq_true both)]
      exact before

theorem replay_unchanged_iff {x : Tiered} (moved : MovedOn x) :
    Unchanged x (processPendingTierMigrations x.wal x) ↔ ∀ r ∈ x.wal, ¬ x.Reconciles r := by
  constructor
  · intro unchanged r listed reconciles
    obtain ⟨located, there⟩ := reconciles
    obtain ⟨d, found⟩ := Option.ne_none_iff_exists'.mp located
    have version := replay_version x.wal x moved (r.entityId, 0)
    rw [unchanged.places, found, Option.map_some, Option.map_some] at version
    have count : 0 < x.wal.countP fun r' => (r'.entityId, 0) = (r.entityId, 0) ∧
        (x.readTiered r'.collection r'.entityId r'.toTier).isSome = true :=
      List.countP_pos_iff.mpr
        ⟨r, listed, decide_eq_true ⟨rfl, Option.isSome_iff_ne_none.mpr there⟩⟩
    have same := Option.some.inj version
    omega
  · intro quiet
    exact ⟨replay_tiers x.wal x moved, replay_quiet x.wal x moved quiet⟩

/-! ### Statements -/

/-- A completed migration of a key that none came from its target. -/
theorem movedOn_migrated {x : Tiered} (moved : MovedOn x) {r : TierMigrationPayload}
    (bytes : List UInt8) (location : LocationTable)
    (clear : ∀ r' ∈ x.wal, r'.collection = r.collection → r'.entityId = r.entityId →
      samePartition r.toTier r'.fromTier = false) :
    MovedOn { (x.writeTiered r.collection r.entityId r.toTier bytes).deleteFromTier r.collection
      r.entityId r.fromTier with location, wal := x.wal ++ [r] } := by
  intro r' listed
  rw [Tiered.relocate_read, Tiered.read_delete, Tiered.read_write]
  rcases List.mem_append.mp listed with old | new
  · by_cases key : (r.collection, r.entityId) = (r'.collection, r'.entityId)
    · obtain ⟨collection, id⟩ := Prod.mk.inj key
      rw [clear r' old collection.symm id.symm]
      simp [moved r' old]
    · rw [if_neg fun both => key both.2, if_neg fun both => key both.2]
      exact moved r' old
  · have self : samePartition r.fromTier r.fromTier = true := by
      cases r.fromTier <;> rfl
    rw [List.mem_singleton.mp new, if_pos ⟨self, rfl⟩]

theorem movedOn_insert {x : Tiered} (moved : MovedOn x) {collection : String} {e : Entity}
    (nothing : BringsNothingBack m migrator x (.insert collection e)) :
    MovedOn (x.insert m collection e).2 := by
  unfold Tiered.insert
  split
  · rename_i present
    have accepted : ((TierStatement.insert collection e).perform m migrator x).1 = .ok () := by
      unfold TierStatement.perform Tiered.insert
      dsimp only
      rw [if_pos present]
      rfl
    have away := nothing accepted _ rfl
    intro r listed
    have log : Tiered.wal { x.writeTiered collection e.id .fjall (m.entityBytes e) with
        location := x.location.registerAll (locationEntries e) } = x.wal :=
      Tiered.write_wal _ _ _ _ _
    rw [log] at listed
    refine (Tiered.relocate_read _ _ _ _ _ _).trans ((Tiered.read_write _ _ _ _ _ _ _ _).trans ?_)
    rw [if_neg fun both => ?_]
    · exact moved r listed
    · obtain ⟨same, id⟩ := Prod.mk.inj both.2
      have apart := away r listed same.symm id.symm
      rw [both.1] at apart
      cases apart
  · exact moved

theorem movedOn_delete {x : Tiered} (moved : MovedOn x) (collection : String) (id : LogicalId) :
    MovedOn (x.delete m collection id).2 := by
  unfold Tiered.delete
  cases x.get m collection id with
  | error e => exact moved
  | ok e =>
    intro r listed
    refine (Tiered.relocate_read _ _ _ _ _ _).trans ?_
    rw [Tiered.read_delete, Tiered.read_delete, Tiered.read_delete, moved r listed]
    split_ifs <;> rfl

theorem movedOn_move {x : Tiered} (moved : MovedOn x) {tierMove : TierMove}
    (completes : Completes m migrator x (.move tierMove))
    (nothing : BringsNothingBack m migrator x (.move tierMove)) :
    MovedOn (routeTierMove m migrator x tierMove).2 := by
  unfold Completes TierStatement.perform at completes
  unfold BringsNothingBack TierStatement.perform at nothing
  cases migrator with
  | false => cases tierMove <;> exact moved
  | true =>
    cases tierMove with
    | demote id collection target =>
      have ends := demote_ends m collection id target x
      unfold routeTierMove at completes nothing ⊢
      dsimp only at completes nothing ⊢
      rw [if_pos rfl] at completes nothing ⊢
      generalize (demoteSingle m collection id target.source target.tier).run x = out
        at ends completes nothing
      cases ends with
      | refused e => exact moved
      | stuck e location =>
        rcases completes with same | ok
        · exact absurd same (by simp)
        · cases ok
      | done data bytes entry location read transcoded found clean relocated =>
        exact movedOn_migrated moved (r := demoteRecord collection id target) bytes location
          (nothing rfl _ rfl)
    | promote id collection =>
      unfold routeTierMove at completes nothing ⊢
      dsimp only at completes nothing ⊢
      rw [if_pos rfl] at completes nothing ⊢
      cases read : x.readTiered collection id .nvme with
      | none => exact moved
      | some data =>
        simp only [read] at completes nothing ⊢
        cases decoded : QuantisedInt8.fromBytes data with
        | error e => exact moved
        | ok int8 =>
          simp only [decoded] at completes nothing ⊢
          have ends := promote_ends collection id (dequantiseInt8 int8) x
          generalize (promoteToHot collection id (dequantiseInt8 int8)).run x = out
            at ends completes nothing
          cases ends with
          | stuck e absent =>
            rcases completes with same | ok
            · exact absurd same (by simp)
            · cases ok
          | done entry location found relocated =>
            exact movedOn_migrated moved (r := promoteRecord collection id)
              (vectorBytes (dequantiseInt8 int8)) location (nothing rfl _ rfl)

/-- In every state of a run that completes its migrations and brings nothing back, the recovery of
their records changes nothing exactly if it finds none complete of an entity that has a location. -/
theorem completed_unchanged {x : Tiered} (start : x.wal = []) (run : List TierStatement)
    (fine : ∀ p ∈ Run.taken (TierStatement.next m migrator) x run,
      Completes m migrator p.1 p.2 ∧ BringsNothingBack m migrator p.1 p.2) :
    ∀ y ∈ Run.visited (TierStatement.next m migrator) x run,
      Unchanged y (processPendingTierMigrations y.wal y) ↔ ∀ r ∈ y.wal, ¬ y.Reconciles r := by
  have initial : MovedOn x := by
    unfold MovedOn
    rw [start]
    exact fun _ none_ => absurd none_ List.not_mem_nil
  have all := Run.invariant_under (TierStatement.next m migrator)
    (fun x s => Completes m migrator x s ∧ BringsNothingBack m migrator x s) run initial fine
    fun x s moved both => by
      cases s with
      | insert collection e => exact movedOn_insert m migrator moved both.2
      | delete collection id => exact movedOn_delete m moved collection id
      | move tierMove => exact movedOn_move m migrator moved both.1 both.2
  exact fun y reached => replay_unchanged_iff (all y reached)

end Runs

section Examples

/-- The venue is inserted over the bytes of its migration to the warm tier, which a DEMOTE moves to
the archive; the DELETE takes both. -/
def shardDeletes : List TierStatement :=
  [.insert "venues" (shard 3), .move (.demote "v1" "venues" .archive), .delete "venues" "v1"]

def shardDeleted : Tiered :=
  shardDeletes.foldl (TierStatement.next (serdeOf (shard 3)) true) shardRestarted

theorem deleted_unchanged :
    Unchanged shardDeleted (processPendingTierMigrations shardDeleted.wal shardDeleted) := by
  have fine : ∀ p ∈ Run.taken (TierStatement.next (serdeOf (shard 3)) true) shardRestarted shardDeletes,
      Completes (serdeOf (shard 3)) true p.1 p.2 ∧
        BringsNothingBack (serdeOf (shard 3)) true p.1 p.2 := by
    intro p listed
    simp only [shardDeletes, Run.taken, List.mem_cons, List.not_mem_nil, or_false] at listed
    obtain rfl | rfl | rfl := listed
    · exact ⟨.inr (by decide +kernel), fun _ key _ r none_ => absurd none_ List.not_mem_nil⟩
    · refine ⟨.inr (by decide +kernel), fun _ key _ r none_ => ?_⟩
      have empty : ((TierStatement.insert "venues" (shard 3)).perform (serdeOf (shard 3)) true
        shardRestarted).2.wal = [] := by decide +kernel
      rw [show Tiered.wal (TierStatement.next (serdeOf (shard 3)) true shardRestarted
        (.insert "venues" (shard 3))) = [] from empty] at none_
      exact absurd none_ List.not_mem_nil
    · exact ⟨.inr (by decide +kernel), fun _ key none_ => by cases none_⟩
  refine (completed_unchanged (serdeOf (shard 3)) true (x := shardRestarted) rfl shardDeletes fine
    shardDeleted (Run.end_visited _ _ _)).mpr ?_
  decide +kernel

/-- The venue is inserted, demoted to the archive and inserted again; each statement returns OK. -/
def shardMoves : List TierStatement :=
  [.insert "venues" (shard 3), .move (.demote "v1" "venues" .archive), .insert "venues" (shard 4)]

/-- The record of the DEMOTE sees the archive's bytes, and the location of the entity inserted over
it is set to the archive. -/
theorem replayed_demotion_relocates :
    (∀ p ∈ Run.taken (TierStatement.next (serdeOf (shard 3)) true) shardRestarted shardMoves,
      Completes (serdeOf (shard 3)) true p.1 p.2) ∧
    ¬ Unchanged (shardMoves.foldl (TierStatement.next (serdeOf (shard 3)) true) shardRestarted)
      (processPendingTierMigrations
        (shardMoves.foldl (TierStatement.next (serdeOf (shard 3)) true) shardRestarted).wal
        (shardMoves.foldl (TierStatement.next (serdeOf (shard 3)) true) shardRestarted)) := by
  constructor
  · intro p listed
    simp only [shardMoves, Run.taken, List.mem_cons, List.not_mem_nil, or_false] at listed
    obtain rfl | rfl | rfl := listed <;> exact .inr (by decide +kernel)
  · intro unchanged
    have entry := unchanged.places ("v1", 0)
    revert entry
    decide +kernel

end Examples
end TronDB.Routing
