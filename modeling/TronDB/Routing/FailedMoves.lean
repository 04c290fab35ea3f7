import TronDB.Routing.Moves

/-! What a migration that returns an error leaves behind, where the calls to the log and to the
tiers can fail as well. -/
namespace TronDB.Routing
open TronDB.Core TronDB.Engine TronDB.Wal Binary

/-- An I/O error, and whether the call had its effect all the same. -/
structure Failure where
  error : EngineError
  applied : Bool
  deriving DecidableEq, Repr

/-- Which calls of a migration fail. A payload that cannot be serialised is a commit that fails
without effect. -/
structure Failures where
  commit : Option Failure
  read : Option EngineError
  write : Option Failure
  delete : Option Failure
  deriving DecidableEq, Repr

def Failures.none : Failures := ⟨.none, .none, .none, .none⟩

/-- A migration as its steps, where one that fails can have changed the state. -/
abbrev IoSteps := List (Tiered → Except RouterError Unit × Tiered)

def IoSteps.run : IoSteps → Tiered → Except RouterError Unit × Tiered
  | [], x => (.ok (), x)
  | step :: rest, x =>
    match step x with
    | (.error e, x') => (.error e, x')
    | (.ok (), x') => IoSteps.run rest x'

/-- A step in memory changes nothing when it fails. -/
def attempt (step : Tiered → Except RouterError Tiered) (x : Tiered) :
    Except RouterError Unit × Tiered :=
  match step x with
  | .error e => (.error e, x)
  | .ok x' => (.ok (), x')

def perform (failure : Option Failure) (effect : Tiered → Tiered) (x : Tiered) :
    Except RouterError Unit × Tiered :=
  match failure with
  | none => (.ok (), effect x)
  | some f => (.error (.engine f.error), if f.applied then effect x else x)

section Steps
variable (m : RmpSerde) (failures : Failures) (collection : String) (id : LogicalId)
  (fromTier toTier : Tier)

def moveDataIo (x : Tiered) : Except RouterError Unit × Tiered :=
  match failures.read with
  | some e => (.error (.engine e), x)
  | none =>
    match x.readTiered collection id fromTier with
    | none => (.error (.engine (.entityNotFound id)), x)
    | some data =>
      match transcode m data toTier with
      | .error e => (.error (.engine e), x)
      | .ok none => (.ok (), x)
      | .ok (some bytes) => perform failures.write (·.writeTiered collection id toTier bytes) x

def migrationRecord : TierMigrationPayload :=
  ⟨id, collection, fromTier, toTier, targetEncoding toTier⟩

def demoteSingleIo : IoSteps :=
  [attempt (mark id .migrating),
    perform failures.commit fun x =>
      { x with wal := x.wal ++ [migrationRecord collection id fromTier toTier] },
    moveDataIo m failures collection id fromTier toTier,
    attempt (updateLocation id toTier),
    attempt (mark id .clean),
    perform failures.delete (·.deleteFromTier collection id fromTier)]

end Steps

/-! ### Traces -/

/-- What DEMOTE and PROMOTE read of an entry and change in it. -/
def placement (entry : LocationDescriptor) : LocState × Tier × Encoding :=
  (entry.state, entry.tier, entry.encoding)

/-- The data has left its tier for another, and the location says so. -/
structure Made (x : Tiered) (r : TierMigrationPayload) : Prop where
  left : x.readTiered r.collection r.entityId r.fromTier = none
  arrived : (x.readTiered r.collection r.entityId r.toTier).isSome = true
  located : (x.location.get (r.entityId, 0)).map (·.tier) = some r.toTier

/-- The entry and the source are as they were, and what has been logged meanwhile was made. -/
structure Traceless (collection : String) (id : LogicalId) (fromTier : Tier) (x x' : Tiered) :
    Prop where
  entry : (x'.location.get (id, 0)).map placement = (x.location.get (id, 0)).map placement
  source : x'.readTiered collection id fromTier = x.readTiered collection id fromTier
  records : ∃ logged, x'.wal = x.wal ++ logged ∧ ∀ r ∈ logged, Made x' r

section Traces
variable (m : RmpSerde) (failures : Failures) (collection : String) (id : LogicalId)
  (fromTier toTier : Tier)

def NoTrace (x : Tiered) : Prop :=
  ∀ e, ((demoteSingleIo m failures collection id fromTier toTier).run x).1 = .error e →
    Traceless collection id fromTier x
      ((demoteSingleIo m failures collection id fromTier toTier).run x).2

/-- The data is there and is what the target tier takes, and neither reading nor writing it
fails. -/
def Movable (x : Tiered) : Prop :=
  failures.read = none ∧ ∃ data bytes, x.readTiered collection id fromTier = some data ∧
    transcode m data toTier = .ok bytes ∧ (bytes.isSome = true → failures.write = none)

def Unhindered (x : Tiered) : Prop :=
  failures.commit = none ∧ Movable m failures collection id fromTier toTier x ∧
    failures.delete = none

variable {m failures collection id fromTier toTier} {x : Tiered}

theorem demoteSingleIo_none :
    (demoteSingleIo m .none collection id fromTier toTier).run x =
      (demoteSingle m collection id fromTier toTier).run x := by
  have pure_ (step : Tiered → Except RouterError Tiered) (io : IoSteps) (steps : Steps)
      (rest : ∀ x, io.run x = steps.run x) (x : Tiered) :
      IoSteps.run (attempt step :: io) x = Steps.run (step :: steps) x := by
    simp only [IoSteps.run, Steps.run, attempt]
    cases step x with
    | error e => rfl
    | ok x' => exact rest x'
  have moved : moveDataIo m .none collection id fromTier toTier =
      attempt (moveData m collection id fromTier toTier) := by
    funext x
    simp only [moveDataIo, attempt, moveData, Failures.none, perform]
    cases x.readTiered collection id fromTier with
    | none => rfl
    | some data =>
      dsimp only
      rcases transcode m data toTier with e | _ | bytes <;> rfl
  have logged : (perform Failures.none.commit fun x => { x with
      wal := x.wal ++ [migrationRecord collection id fromTier toTier] }) =
      attempt (logIntent ⟨id, collection, fromTier, toTier, targetEncoding toTier⟩) := rfl
  have deleted : perform Failures.none.delete (·.deleteFromTier collection id fromTier) =
      attempt (deleteSource collection id fromTier) := rfl
  unfold demoteSingleIo demoteSingle
  rw [moved, logged, deleted]
  exact pure_ _ _ _ (pure_ _ _ _ (pure_ _ _ _ (pure_ _ _ _ (pure_ _ _ _ (pure_ _ _ _
    fun _ => rfl))))) x

theorem Traceless.refl (x : Tiered) : Traceless collection id fromTier x x :=
  ⟨rfl, rfl, [], by simp, nofun⟩

theorem not_traceless_migrating {x' : Tiered} {entry : LocationDescriptor}
    (found : x.location.get (id, 0) = some entry) (clean : entry.state = .clean)
    (migrating : (x'.location.get (id, 0)).map (·.state) = some .migrating) :
    ¬ Traceless collection id fromTier x x' := by
  intro traceless
  have same := congrArg (Option.map Prod.fst) traceless.entry
  rw [Option.map_map, Option.map_map, found] at same
  have state : Prod.fst ∘ placement = fun entry => entry.state := rfl
  rw [state, migrating, Option.map_some, clean] at same
  cases same

theorem not_traceless_logged (toTier : Tier) {x' : Tiered}
    (there : x.readTiered collection id fromTier ≠ none)
    (logged : x'.wal = x.wal ++ [migrationRecord collection id fromTier toTier]) :
    ¬ Traceless collection id fromTier x x' := by
  intro traceless
  obtain ⟨records, appended, made⟩ := traceless.records
  rw [logged, List.append_cancel_left_eq] at appended
  have left := (made _ (appended ▸ List.mem_cons_self)).left
  exact there (traceless.source.symm.trans left)

theorem movable_relocated (location : LocationTable) (wal : List TierMigrationPayload) :
    Movable m failures collection id fromTier toTier { x with location, wal } ↔
      Movable m failures collection id fromTier toTier x := by
  unfold Movable
  rw [Tiered.relocate_read]

variable (m failures collection id fromTier toTier)

theorem moveDataIo_ends (x : Tiered) :
    ∃ result y, moveDataIo m failures collection id fromTier toTier x = (result, y) ∧
      y.location = x.location ∧ y.wal = x.wal ∧
      (∀ collection' id' tier', ¬ (samePartition toTier tier' = true ∧
        (collection, id) = (collection', id')) →
          y.readTiered collection' id' tier' = x.readTiered collection' id' tier') ∧
      (result = .ok () ↔ Movable m failures collection id fromTier toTier x) := by
  unfold moveDataIo Movable
  cases failures.read with
  | some e => exact ⟨_, x, rfl, rfl, rfl, fun _ _ _ _ => rfl, by simp⟩
  | none =>
    cases x.readTiered collection id fromTier with
    | none => exact ⟨_, x, rfl, rfl, rfl, fun _ _ _ _ => rfl, by simp⟩
    | some data =>
      dsimp only
      cases transcoded : transcode m data toTier with
      | error e => exact ⟨_, x, rfl, rfl, rfl, fun _ _ _ _ => rfl, by simp [transcoded]⟩
      | ok bytes? =>
        cases bytes? with
        | none => exact ⟨_, x, rfl, rfl, rfl, fun _ _ _ _ => rfl, by simp [transcoded]⟩
        | some bytes =>
          have written (collection' : String) (id' : LogicalId) (tier' : Tier)
              (apart : ¬ (samePartition toTier tier' = true ∧ (collection, id) = (collection', id'))) :
              (x.writeTiered collection id toTier bytes).readTiered collection' id' tier' =
                x.readTiered collection' id' tier' := by
            rw [Tiered.read_write, if_neg apart]
          cases failed : failures.write with
          | none => exact ⟨_, _, rfl, by simp, by simp, written, by simp [transcoded]⟩
          | some f =>
            refine ⟨_, _, rfl, ?_, ?_, ?_, by simp [transcoded]⟩
            · cases f.applied <;> simp
            · cases f.applied <;> simp
            · intro collection' id' tier' apart
              cases f.applied with
              | false => rfl
              | true => exact written collection' id' tier' apart

/-- From a clean entry, the migration stops with the entry marked, or it moves the data and the
entry, and only the deletion of the source can fail. -/
theorem migration_ends {x : Tiered} {entry : LocationDescriptor}
    (found : x.location.get (id, 0) = some entry) (clean : entry.state = .clean) :
    let outcome := (demoteSingleIo m failures collection id fromTier toTier).run x
    let able := failures.commit = none ∧ Movable m failures collection id fromTier toTier x
    (¬ able ∧ (∃ e, outcome.1 = .error e) ∧
      (outcome.2.location.get (id, 0)).map (·.state) = some .migrating) ∨
    able ∧ ∃ y, outcome = perform failures.delete (·.deleteFromTier collection id fromTier) y ∧
      (y.location.get (id, 0)).map placement = some (.clean, toTier, targetEncoding toTier) ∧
      y.wal = x.wal ++ [migrationRecord collection id fromTier toTier] ∧
      (samePartition toTier fromTier = false →
        y.readTiered collection id fromTier = x.readTiered collection id fromTier) := by
  intro outcome able
  have allowed : canTransitionTo entry.state .migrating = true := by rw [clean]; rfl
  obtain ⟨marked, marks, ran⟩ := mark_ok id .migrating found allowed
  have migrating : marked.get (id, 0) =
      some { entry with state := .migrating, version := entry.version + 1 } := by
    rw [marks, if_pos rfl]
  cases committed : failures.commit with
  | some f =>
    -- the entry stays marked, whether or not the record reached the log
    have ends : outcome = (.error (.engine f.error), if f.applied then { x with
        location := marked, wal := x.wal ++ [migrationRecord collection id fromTier toTier] }
        else { x with location := marked }) := by
      simp only [outcome, demoteSingleIo, IoSteps.run, attempt, ran, perform, committed]
    rw [ends]
    refine .inl ⟨fun both => absurd (committed.symm.trans both.1) nofun, ⟨_, rfl⟩, ?_⟩
    cases f.applied <;> simp [migrating]
  | none =>
    obtain ⟨result, moved, moves, location, wal, others, movable⟩ :=
      moveDataIo_ends m failures collection id fromTier toTier { x with
        location := marked, wal := x.wal ++ [migrationRecord collection id fromTier toTier] }
    rw [movable_relocated] at movable
    cases result with
    | error e =>
      have ends : outcome = (.error e, moved) := by
        simp only [outcome, demoteSingleIo, IoSteps.run, attempt, ran, perform, committed, moves]
      rw [ends]
      exact .inl ⟨fun able => absurd (movable.mpr able.2) nofun, ⟨_, rfl⟩, by simp [location, migrating]⟩
    | ok done =>
      obtain ⟨none_, -⟩ | ⟨entry₁, updated, found₁, updates, ran₁⟩ := updateLocation_ends id toTier moved
      · rw [location, migrating] at none_
        cases none_
      rw [location, migrating] at found₁
      cases found₁
      obtain ⟨cleaned, cleans, ran₂⟩ := mark_ok id .clean (x := { moved with location := updated })
        (show updated.get (id, 0) = _ by rw [updates, if_pos rfl]) rfl
      refine .inr ⟨⟨committed, movable.mp rfl⟩, { moved with location := cleaned }, ?_, ?_, wal, ?_⟩
      · simp only [outcome, demoteSingleIo, IoSteps.run, attempt, ran, perform, committed, moves,
          ran₁, ran₂]
        cases failures.delete <;> rfl
      · simp [cleans (id, 0), placement]
      · intro apart
        refine (Tiered.relocate_read moved collection id fromTier cleaned moved.wal).trans ?_
        rw [others collection id fromTier (by simp [apart])]
        exact Tiered.relocate_read x collection id fromTier marked _

theorem migration_refused {x : Tiered}
    (unclean : ∀ entry, x.location.get (id, 0) = some entry → entry.state ≠ .clean) :
    ∃ e, (demoteSingleIo m failures collection id fromTier toTier).run x = (.error e, x) := by
  obtain ⟨e, same⟩ | ⟨entry, location, found, allowed, -⟩ := mark_ends id .migrating x
  · exact ⟨e, by simp only [demoteSingleIo, IoSteps.run, attempt, same]⟩
  · have clean : entry.state = .clean := by
      revert allowed
      cases entry.state <;> simp [canTransitionTo]
    exact absurd clean (unclean entry found)

/-- A migration that returns an error leaves no trace exactly if it is refused at once, or there is
nothing that could fail. -/
theorem no_trace_iff (x : Tiered) :
    NoTrace m failures collection id fromTier toTier x ↔
      (∀ entry, x.location.get (id, 0) = some entry → entry.state ≠ .clean) ∨
        Unhindered m failures collection id fromTier toTier x := by
  by_cases unclean : ∀ entry, x.location.get (id, 0) = some entry → entry.state ≠ .clean
  · obtain ⟨e, refused⟩ := migration_refused m failures collection id fromTier toTier unclean
    refine iff_of_true (fun e' _ => ?_) (.inl unclean)
    rw [refused]
    exact .refl x
  · obtain ⟨entry, found, clean⟩ : ∃ entry, x.location.get (id, 0) = some entry ∧
        entry.state = .clean := by simpa using unclean
    rcases migration_ends m failures collection id fromTier toTier found clean with
      ⟨unable, ⟨e, failed⟩, migrating⟩ | ⟨⟨committed, movable⟩, y, ends, -, wal, -⟩
    · refine iff_of_false (fun noTrace => ?_) fun either =>
        either.elim unclean fun unhindered => unable ⟨unhindered.1, unhindered.2.1⟩
      exact not_traceless_migrating found clean migrating (noTrace e failed)
    · unfold NoTrace
      rw [ends]
      cases deleted : failures.delete with
      | none => exact iff_of_true nofun (.inr ⟨committed, movable, deleted⟩)
      | some f =>
        refine iff_of_false (fun noTrace => ?_) fun either =>
          either.elim unclean fun unhindered => nomatch deleted.symm.trans unhindered.2.2
        obtain ⟨-, data, bytes, read, -⟩ := movable
        refine not_traceless_logged toTier (by simp [read]) ?_ (noTrace _ rfl)
        cases applied : f.applied <;> simp [perform, applied, wal]

/-! ### A venue that is in the hot tier, demoted to the archive -/

/-- DEMOTE 'v1' FROM venues TO ARCHIVE looks for it in the warm tier. -/
theorem archived_from_hot : ¬ NoTrace (serdeOf (shard 1)) .none "venues" "v1"
    TierTarget.archive.source TierTarget.archive.tier shardInserted := by
  intro noTrace
  have failed : ((demoteSingleIo (serdeOf (shard 1)) .none "venues" "v1" .nvme .archive).run
      shardInserted).1 = .error (.engine (.entityNotFound "v1")) := by decide +kernel
  have entry := (noTrace _ failed).entry
  revert entry
  decide +kernel

end Traces
end TronDB.Routing
