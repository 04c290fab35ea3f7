import TronDB.Routing.Moves

/-! A migration that a crash interrupts, and its recovery. -/
namespace TronDB.Routing
open TronDB.Core TronDB.Engine TronDB.Wal Binary Bytes

/-- A demotion, or a promotion with the vector it is called with. -/
inductive Migration where
  | demote (target : TierTarget)
  | promote (vector : List F32)

namespace Migration

def source : Migration → Tier
  | .demote target => target.source
  | .promote _ => .nvme

def target : Migration → Tier
  | .demote target => target.tier
  | .promote _ => .fjall

def steps (m : RmpSerde) (collection : String) (id : LogicalId) : Migration → Steps
  | .demote target => demoteSingle m collection id target.source target.tier
  | .promote vector => promoteToHot collection id vector

def record (collection : String) (id : LogicalId) : Migration → TierMigrationPayload
  | .demote target => demoteRecord collection id target
  | .promote _ => promoteRecord collection id

end Migration

def tierBytes : Tier → List F32 → List UInt8
  | .nvme, v => (quantiseInt8 v).toBytes
  | .archive, v => (quantiseBinary v).toBytes
  | _, v => vectorBytes v

section Interrupted
variable (m : RmpSerde) (collection : String) (id : LogicalId) (migration : Migration) (x : Tiered)

/-- The vector lies in the tier the migration takes it from and nowhere else, and the location
table says so. -/
structure Starts (v : List F32) : Prop where
  fits : v.length < 2 ^ 32
  held : ∀ tier, x.readTiered collection id tier =
    if samePartition tier migration.source = true then some (tierBytes migration.source v) else none
  located : ∃ d, x.location.get (id, 0) = some d ∧ d.state = .clean ∧ d.tier = migration.source ∧
    d.encoding = encodingForTier migration.source

/-- The tiers and the log at a crash behind the first steps, with the location table that the
next start restores. -/
def crashed (steps : Nat) (restored : LocationTable) : Tiered :=
  { (Steps.run ((migration.steps m collection id).take steps) x).2 with location := restored }

/-- What recovery makes of the records the migration has logged. -/
def recovered (steps : Nat) (restored : LocationTable) : Tiered :=
  let y := crashed m collection id migration x steps restored
  processPendingTierMigrations (y.wal.drop x.wal.length) y

/-- Recovery leaves what the whole migration does: every tier as that leaves it, the vector in
the target's format in the target alone, and a clean entry that says so. -/
structure IsFinished (y : Tiered) : Prop where
  tiers : ∀ collection' id' tier, y.readTiered collection' id' tier =
    (Steps.run (migration.steps m collection id) x).2.readTiered collection' id' tier
  alone : ∃ w, ∀ tier, y.readTiered collection id tier =
    if samePartition tier migration.target = true then some (tierBytes migration.target w) else none
  located : ∃ d, y.location.get (id, 0) = some d ∧ d.state = .clean ∧ d.tier = migration.target ∧
    d.encoding = encodingForTier migration.target

/-- The number of steps behind which the record is committed and the target written. -/
def Migration.written : Migration → Nat
  | .demote _ => 3
  | .promote _ => 2

/-- The target was written under a committed record, and the restored entry is clean; it names the
target already unless the source was deleted too. -/
def FarEnough (steps : Nat) (restored : LocationTable) : Prop :=
  migration.written ≤ steps ∧ ∃ d, restored.get (id, 0) = some d ∧ d.state = .clean ∧
    ((migration.steps m collection id).length ≤ steps ∨
      d.tier = migration.target ∧ d.encoding = encodingForTier migration.target)

/-! ### The formats differ -/

theorem length_quantiseInt8 (v : List F32) : (quantiseInt8 v).data.length = v.length := by
  unfold quantiseInt8
  split
  · rename_i empty
    rw [empty]
    rfl
  · dsimp only
    split
    · exact List.length_replicate
    · exact List.length_map _

theorem length_toBytes (q : QuantisedInt8) : q.toBytes.length = 8 + q.data.length := by
  simp [QuantisedInt8.toBytes, F32.leBytes]
  omega

theorem length_vectorBytes (v : List F32) :
    ∃ header ∈ [1, 3, 5], (vectorBytes v).length = header + 5 * v.length := by
  have elements : ((v.map fun x => 0xca :: beBytes 4 x.bits.toNat).flatten).length = 5 * v.length := by
    induction v with
    | nil => rfl
    | cons x v ih => simp [ih]; omega
  unfold vectorBytes MessagePack.array
  rw [List.length_map]
  dsimp only
  rw [List.length_append, elements]
  split
  · exact ⟨1, by simp, rfl⟩
  · split
    · exact ⟨3, by simp, rfl⟩
    · exact ⟨5, by simp, rfl⟩

theorem length_dequantiseInt8 (q : QuantisedInt8) : (dequantiseInt8 q).length = q.data.length := by
  unfold dequantiseInt8
  split
  · rename_i empty
    rw [empty]
    rfl
  · split
    · exact List.length_replicate
    · exact List.length_map _

theorem length_quantiseBinary (v : List F32) : (quantiseBinary v).toBytes.length = (v.length + 7) / 8 := by
  simp [quantiseBinary, QuantisedBinary.toBytes]

theorem transcode_changes (apart : m.TellsApart) (target : TierTarget) {v : List F32}
    (fits : v.length < 2 ^ 32) : ∃ w,
      transcode m (tierBytes target.source v) target.tier = .ok (some (tierBytes target.tier w)) ∧
        tierBytes target.tier w ≠ tierBytes target.source v := by
  cases target with
  | warm =>
    refine ⟨v, ?_, fun same => ?_⟩
    · dsimp only [TierTarget.tier, TierTarget.source, transcode, tierBytes]
      rw [apart.vector v fits]
    · have lengths := congrArg List.length same
      obtain ⟨header, form, length⟩ := length_vectorBytes v
      dsimp only [tierBytes, TierTarget.tier, TierTarget.source] at lengths
      rw [length, length_toBytes, length_quantiseInt8] at lengths
      simp only [List.mem_cons, List.not_mem_nil, or_false] at form
      omega
  | archive =>
    have long : (quantiseInt8 v).toBytes.length = 8 + v.length := by
      rw [length_toBytes, length_quantiseInt8]
    obtain ⟨int8, read, length⟩ : ∃ int8, QuantisedInt8.fromBytes (quantiseInt8 v).toBytes =
        .ok int8 ∧ int8.data.length = v.length := by
      refine ⟨_, if_neg (by omega), ?_⟩
      rw [List.length_drop, long]
      omega
    refine ⟨dequantiseInt8 int8, ?_, fun same => ?_⟩
    · dsimp only [TierTarget.tier, TierTarget.source, transcode, tierBytes]
      rw [read]
    · have lengths := congrArg List.length same
      dsimp only [tierBytes, TierTarget.tier, TierTarget.source] at lengths
      rw [length_quantiseBinary, length_dequantiseInt8, long, length] at lengths
      omega

/-! ### The steps one by one -/

def Migration.writes : Migration → Nat
  | .demote _ => 2
  | .promote _ => 0

def stage (bytes : List UInt8) (steps : Nat) : Tiered :=
  if steps ≤ migration.writes then x
  else if steps < (migration.steps m collection id).length then
    x.writeTiered collection id migration.target bytes
  else (x.writeTiered collection id migration.target bytes).deleteFromTier collection id
    migration.source

theorem run_ok {step : Tiered → Except RouterError Tiered} {y y' : Tiered} (done : step y = .ok y')
    (rest : Steps) : Steps.run (step :: rest) y = Steps.run rest y' := by
  rw [Steps.run, done]

theorem run_take_demote (apart : m.TellsApart) {target : TierTarget} {v : List F32}
    (start : Starts collection id (.demote target) x v) :
    ∃ w, tierBytes target.tier w ≠ tierBytes target.source v ∧
      ∀ steps, ∃ location,
        Steps.run (((Migration.demote target).steps m collection id).take steps) x =
          (.ok (), { stage m collection id (.demote target) x (tierBytes target.tier w) steps with
            location
            wal := x.wal ++ if steps < 2 then [] else [demoteRecord collection id target] }) := by
  obtain ⟨d, located, clean, -, -⟩ := start.located
  obtain ⟨w, transcoded, changes⟩ := transcode_changes m apart target start.fits
  refine ⟨w, changes, ?_⟩
  have read : x.readTiered collection id target.source = some (tierBytes target.source v) :=
    (start.held target.source).trans (if_pos (by cases target <;> rfl))
  obtain ⟨marked, marks, ran₁⟩ := mark_ok id .migrating (x := x) located (by rw [clean]; rfl)
  have ran₃ : moveData m collection id target.source target.tier
      { x with location := marked, wal := x.wal ++ [demoteRecord collection id target] } =
      .ok { x.writeTiered collection id target.tier (tierBytes target.tier w) with
        location := marked, wal := x.wal ++ [demoteRecord collection id target] } := by
    unfold moveData
    rw [show Tiered.readTiered { x with location := marked, wal := _ } collection id target.source =
      x.readTiered collection id target.source by cases target <;> rfl, read]
    dsimp only
    rw [transcoded]
    cases target <;> rfl
  obtain ⟨none_, -⟩ | ⟨entry, updated, found, updates, ran₄⟩ := updateLocation_ends id target.tier
    { x.writeTiered collection id target.tier (tierBytes target.tier w) with
      location := marked, wal := x.wal ++ [demoteRecord collection id target] }
  · dsimp only at none_
    rw [marks, if_pos rfl] at none_
    cases none_
  dsimp only at found
  rw [marks, if_pos rfl] at found
  cases found
  obtain ⟨cleaned, -, ran₅⟩ := mark_ok id .clean
    (x := { x.writeTiered collection id target.tier (tierBytes target.tier w) with
      location := updated, wal := x.wal ++ [demoteRecord collection id target] })
    ((updates _).trans (if_pos rfl)) rfl
  have ran₂ : logIntent (demoteRecord collection id target) { x with location := marked } =
    .ok { x with location := marked, wal := x.wal ++ [demoteRecord collection id target] } := rfl
  have ran₆ : deleteSource collection id target.source
      { x.writeTiered collection id target.tier (tierBytes target.tier w) with
        location := cleaned, wal := x.wal ++ [demoteRecord collection id target] } =
      .ok { (x.writeTiered collection id target.tier (tierBytes target.tier w)).deleteFromTier
          collection id target.source with
        location := cleaned, wal := x.wal ++ [demoteRecord collection id target] } := by
    cases target <;> rfl
  intro steps
  have listed : (Migration.demote target).steps m collection id = [mark id .migrating,
    logIntent (demoteRecord collection id target), moveData m collection id target.source target.tier,
    updateLocation id target.tier, mark id .clean, deleteSource collection id target.source] := rfl
  rcases steps with _ | _ | _ | _ | _ | _ | steps
  · refine ⟨x.location, ?_⟩
    show (Except.ok (), x) = (Except.ok (), { x with wal := x.wal ++ [] })
    rw [List.append_nil]
  · refine ⟨marked, (run_ok ran₁ []).trans ?_⟩
    show (Except.ok (), { x with location := marked }) =
      (Except.ok (), { x with location := marked, wal := x.wal ++ [] })
    rw [List.append_nil]
  · exact ⟨marked, (run_ok ran₁ _).trans (run_ok ran₂ [])⟩
  · exact ⟨marked, (run_ok ran₁ _).trans ((run_ok ran₂ _).trans (run_ok ran₃ []))⟩
  · exact ⟨updated, (run_ok ran₁ _).trans ((run_ok ran₂ _).trans ((run_ok ran₃ _).trans
      (run_ok ran₄ [])))⟩
  · exact ⟨cleaned, (run_ok ran₁ _).trans ((run_ok ran₂ _).trans ((run_ok ran₃ _).trans
      ((run_ok ran₄ _).trans (run_ok ran₅ []))))⟩
  · have all : List.take (steps + 6) ((Migration.demote target).steps m collection id) =
        (Migration.demote target).steps m collection id := by
      rw [listed]
      exact List.take_of_length_le (by simp)
    have behind : stage m collection id (.demote target) x (tierBytes target.tier w) (steps + 6) =
        (x.writeTiered collection id target.tier (tierBytes target.tier w)).deleteFromTier
          collection id target.source := by
      unfold stage
      exact (if_neg (show ¬ steps + 6 ≤ 2 by omega)).trans
        (if_neg (show ¬ steps + 6 < 6 by omega))
    refine ⟨cleaned, ?_⟩
    rw [all, listed, run_ok ran₁, run_ok ran₂, run_ok ran₃, run_ok ran₄, run_ok ran₅, run_ok ran₆,
      if_neg (show ¬ steps + 6 < 2 by omega), behind]
    rfl

theorem run_take_promote {vector v : List F32}
    (start : Starts collection id (.promote vector) x v) (steps : Nat) : ∃ location,
      Steps.run (((Migration.promote vector).steps m collection id).take steps) x =
        (.ok (), { stage m collection id (.promote vector) x (vectorBytes vector) steps with
          location
          wal := x.wal ++ if steps < 2 then [] else [promoteRecord collection id] }) := by
  obtain ⟨d, located, clean, -, -⟩ := start.located
  obtain ⟨none_, -⟩ | ⟨entry, updated, found, updates, ran₃⟩ := updateLocation_ends id .fjall
    { x.writeTiered collection id .fjall (vectorBytes vector) with
      wal := x.wal ++ [promoteRecord collection id] }
  · cases located.symm.trans none_
  have ran₁ : (fun x : Tiered => Except.ok (ε := RouterError) (x.writeTiered collection id .fjall
      (vectorBytes vector))) x = .ok (x.writeTiered collection id .fjall (vectorBytes vector)) := rfl
  have ran₂ : logIntent (promoteRecord collection id)
      (x.writeTiered collection id .fjall (vectorBytes vector)) =
    .ok { x.writeTiered collection id .fjall (vectorBytes vector) with
      wal := x.wal ++ [promoteRecord collection id] } := rfl
  have ran₄ : deleteSource collection id .nvme
      { x.writeTiered collection id .fjall (vectorBytes vector) with
        location := updated, wal := x.wal ++ [promoteRecord collection id] } =
      .ok { (x.writeTiered collection id .fjall (vectorBytes vector)).deleteFromTier
          collection id .nvme with
        location := updated, wal := x.wal ++ [promoteRecord collection id] } := rfl
  rcases steps with _ | _ | _ | _ | steps
  · refine ⟨x.location, ?_⟩
    show (Except.ok (), x) = (Except.ok (), { x with wal := x.wal ++ [] })
    rw [List.append_nil]
  · refine ⟨x.location, (run_ok ran₁ []).trans ?_⟩
    show (Except.ok (), x.writeTiered collection id .fjall (vectorBytes vector)) =
      (Except.ok (), { x.writeTiered collection id .fjall (vectorBytes vector) with
        wal := x.wal ++ [] })
    rw [List.append_nil]
    rfl
  · exact ⟨x.location, (run_ok ran₁ _).trans (run_ok ran₂ [])⟩
  · exact ⟨updated, (run_ok ran₁ _).trans ((run_ok ran₂ _).trans (run_ok ran₃ []))⟩
  · have all : List.take (steps + 4) ((Migration.promote vector).steps m collection id) =
        (Migration.promote vector).steps m collection id :=
      List.take_of_length_le (show 4 ≤ steps + 4 by omega)
    have behind : stage m collection id (.promote vector) x (vectorBytes vector) (steps + 4) =
        (x.writeTiered collection id .fjall (vectorBytes vector)).deleteFromTier
          collection id .nvme := by
      unfold stage
      exact (if_neg (show ¬ steps + 4 ≤ 0 by omega)).trans
        (if_neg (show ¬ steps + 4 < 4 by omega))
    refine ⟨updated, ?_⟩
    rw [all, if_neg (show ¬ steps + 4 < 2 by omega)]
    refine (run_ok ran₁ _).trans ((run_ok ran₂ _).trans ((run_ok ran₃ _).trans
      ((run_ok ran₄ []).trans (congrArg (Prod.mk _) ?_))))
    rw [behind]

theorem run_take (apart : m.TellsApart) {v : List F32} (start : Starts collection id migration x v) :
    ∃ w, (∀ target, migration = .demote target →
        tierBytes migration.target w ≠ tierBytes migration.source v) ∧
      ∀ steps, ∃ location, Steps.run ((migration.steps m collection id).take steps) x =
        (.ok (), { stage m collection id migration x (tierBytes migration.target w) steps with
          location, wal := x.wal ++ if steps < 2 then [] else [migration.record collection id] }) := by
  cases migration with
  | demote target =>
    obtain ⟨w, changes, runs⟩ := run_take_demote m collection id x apart start
    exact ⟨w, fun _ _ => changes, runs⟩
  | promote vector => exact ⟨vector, nofun, run_take_promote m collection id x start⟩

/-! ### What recovery finds -/

theorem written_read {v : List F32} (start : Starts collection id migration x v)
    (bytes : List UInt8) (tier : Tier) :
    (x.writeTiered collection id migration.target bytes).readTiered collection id tier =
      if samePartition tier migration.target = true then some bytes
      else if samePartition tier migration.source = true then some (tierBytes migration.source v)
      else none := by
  rw [Tiered.read_write, start.held]
  simp only [and_true]
  cases migration with
  | demote target => cases target <;> cases tier <;> rfl
  | promote vector => cases tier <;> rfl

theorem moved_read {v : List F32} (start : Starts collection id migration x v)
    (bytes : List UInt8) (tier : Tier) :
    ((x.writeTiered collection id migration.target bytes).deleteFromTier collection id
        migration.source).readTiered collection id tier =
      if samePartition tier migration.target = true then some bytes else none := by
  rw [Tiered.read_delete, written_read collection id migration x start]
  simp only [and_true]
  cases migration with
  | demote target => cases target <;> cases tier <;> rfl
  | promote vector => cases tier <;> rfl

theorem partitions_differ : samePartition migration.source migration.target = false := by
  cases migration with
  | demote target => cases target <;> rfl
  | promote vector => rfl

theorem samePartition_self (tier : Tier) : samePartition tier tier = true := by cases tier <;> rfl

theorem record_names : (migration.record collection id).collection = collection ∧
    (migration.record collection id).entityId = id ∧
    (migration.record collection id).fromTier = migration.source ∧
    (migration.record collection id).toTier = migration.target := by
  cases migration <;> exact ⟨rfl, rfl, rfl, rfl⟩

theorem step_numbers : (∃ t, migration = .demote t) ∧ migration.writes = 2 ∧ migration.written = 3 ∧
      (migration.steps m collection id).length = 6 ∨
    migration.writes = 0 ∧ migration.written = 2 ∧ (migration.steps m collection id).length = 4 := by
  cases migration with
  | demote target => exact .inl ⟨⟨target, rfl⟩, rfl, rfl, rfl⟩
  | promote vector => exact .inr ⟨rfl, rfl, rfl⟩

theorem stage_between (bytes : List UInt8) {steps : Nat} (wrote : migration.writes < steps)
    (between : steps < (migration.steps m collection id).length) :
    stage m collection id migration x bytes steps =
      x.writeTiered collection id migration.target bytes := by
  unfold stage
  rw [if_neg (Nat.not_le_of_lt wrote), if_pos between]

theorem stage_late (bytes : List UInt8) {steps : Nat}
    (late : (migration.steps m collection id).length ≤ steps) :
    stage m collection id migration x bytes steps =
      (x.writeTiered collection id migration.target bytes).deleteFromTier collection id
        migration.source := by
  have numbers := step_numbers m collection id migration
  unfold stage
  rw [if_neg (by omega), if_neg (Nat.not_lt_of_le late)]

section Found
variable {x migration} {v : List F32} (start : Starts collection id migration x v)
  (bytes : List UInt8) (restored : LocationTable) (wal : List TierMigrationPayload)
include start

theorem recover_copied (demotes : ∃ t, migration = .demote t) :
    (Tiered.recover { x with location := restored, wal }
      (migration.record collection id)).readTiered collection id migration.target =
        some (tierBytes migration.source v) := by
  obtain ⟨collection_, id_, from_, to_⟩ := record_names collection id migration
  have differ := partitions_differ migration
  have source : x.readTiered collection id migration.source = some (tierBytes migration.source v) :=
    (start.held _).trans (if_pos (samePartition_self _))
  have target : x.readTiered collection id migration.target = none := by
    obtain ⟨t, rfl⟩ := demotes
    exact (start.held _).trans (by cases t <;> rfl)
  rw [Tiered.recover_source _ _ (tierBytes migration.source v), Tiered.reconcile_read, collection_, id_,
    from_, to_, Tiered.read_delete, differ, if_neg fun both => Bool.false_ne_true both.1,
    Tiered.read_write, if_pos ⟨samePartition_self _, rfl⟩]
  · rw [collection_, id_, from_, Tiered.relocate_read, source]
  · rw [collection_, id_, to_, Tiered.relocate_read, target]

theorem recover_written :
    Tiered.recover { x.writeTiered collection id migration.target bytes with
        location := restored, wal } (migration.record collection id) =
      Tiered.deleteFromTier { x.writeTiered collection id migration.target bytes with
        location := restored, wal } collection id migration.source := by
  obtain ⟨collection_, id_, from_, to_⟩ := record_names collection id migration
  have read := written_read collection id migration x start bytes
  rw [Tiered.recover_both _ _ (tierBytes migration.source v) bytes, collection_, id_, from_]
  · rw [collection_, id_, from_, Tiered.relocate_read, read, partitions_differ,
      if_neg Bool.false_ne_true, if_pos (samePartition_self _)]
  · rw [collection_, id_, to_, Tiered.relocate_read, read, if_pos (samePartition_self _)]

theorem recover_moved :
    Tiered.recover { (x.writeTiered collection id migration.target bytes).deleteFromTier collection id
        migration.source with location := restored, wal } (migration.record collection id) =
      Tiered.reconcile { (x.writeTiered collection id migration.target bytes).deleteFromTier collection id
        migration.source with location := restored, wal } (migration.record collection id) := by
  obtain ⟨collection_, id_, from_, to_⟩ := record_names collection id migration
  have only := moved_read collection id migration x start bytes
  rw [Tiered.recover_gone, collection_, id_, to_, Tiered.relocate_read, only,
    if_pos (samePartition_self _), if_pos Option.isSome_some]
  rw [collection_, id_, from_, Tiered.relocate_read, only, partitions_differ, if_neg Bool.false_ne_true]

end Found

theorem isFinished_iff {v w : List F32} (start : Starts collection id migration x v)
    (runs : ∀ steps, ∃ location, Steps.run ((migration.steps m collection id).take steps) x =
      (.ok (), { stage m collection id migration x (tierBytes migration.target w) steps with
        location, wal := x.wal ++ if steps < 2 then [] else [migration.record collection id] }))
    (y : Tiered) : IsFinished m collection id migration x y ↔
      (∀ collection' id' tier, y.readTiered collection' id' tier =
        ((x.writeTiered collection id migration.target (tierBytes migration.target w)).deleteFromTier
          collection id migration.source).readTiered collection' id' tier) ∧
      ∃ d, y.location.get (id, 0) = some d ∧ d.state = .clean ∧ d.tier = migration.target ∧
        d.encoding = encodingForTier migration.target := by
  have whole (collection' : String) (id' : LogicalId) (tier : Tier) :
      (Steps.run (migration.steps m collection id) x).2.readTiered collection' id' tier =
        ((x.writeTiered collection id migration.target (tierBytes migration.target w)).deleteFromTier
          collection id migration.source).readTiered collection' id' tier := by
    obtain ⟨location, ran⟩ := runs (migration.steps m collection id).length
    rw [List.take_length, stage_late _ _ _ _ _ _ (Nat.le_refl _)] at ran
    rw [ran]
    exact Tiered.relocate_read _ _ _ _ _ _
  constructor
  · intro finished
    exact ⟨fun collection' id' tier => (finished.tiers _ _ _).trans (whole _ _ _), finished.located⟩
  · rintro ⟨tiers, located⟩
    refine ⟨fun collection' id' tier => (tiers _ _ _).trans (whole _ _ _).symm, ⟨w, fun tier => ?_⟩, located⟩
    rw [tiers, moved_read collection id migration x start]

/-- Recovery after a crash finishes the migration exactly when the crash came late enough. -/
theorem recovery_finishes_iff (apart : m.TellsApart) {v : List F32}
    (start : Starts collection id migration x v) (steps : Nat) (restored : LocationTable) :
    IsFinished m collection id migration x (recovered m collection id migration x steps restored) ↔
      FarEnough m collection id migration steps restored := by
  obtain ⟨w, changes, runs⟩ := run_take m collection id migration x apart start
  obtain ⟨location, ran⟩ := runs steps
  have found : recovered m collection id migration x steps restored =
      processPendingTierMigrations (if steps < 2 then [] else [migration.record collection id])
        { stage m collection id migration x (tierBytes migration.target w) steps with
          location := restored
          wal := x.wal ++ if steps < 2 then [] else [migration.record collection id] } := by
    unfold recovered crashed
    rw [ran]
    dsimp only
    rw [List.drop_left]
  have one (y : Tiered) : processPendingTierMigrations [migration.record collection id] y =
      y.recover (migration.record collection id) := rfl
  have numbers := step_numbers m collection id migration
  have only := moved_read collection id migration x start (tierBytes migration.target w)
  rw [found, isFinished_iff m collection id migration x start runs]
  by_cases early : steps < 2
  · -- there is no record, and the source has the vector still
    rw [if_pos early]
    refine iff_of_false (fun finished => ?_) fun far => ?_
    · have gone := finished.1 collection id migration.source
      rw [only, partitions_differ, if_neg Bool.false_ne_true] at gone
      have stays : (stage m collection id migration x (tierBytes migration.target w)
          steps).readTiered collection id migration.source = some (tierBytes migration.source v) := by
        unfold stage
        split
        · rw [start.held, if_pos (samePartition_self _)]
        · rw [if_pos (by omega), written_read collection id migration x start, partitions_differ,
            if_neg Bool.false_ne_true, if_pos (samePartition_self _)]
      rw [← Tiered.relocate_read _ _ _ _ restored (x.wal ++ [])] at stays
      cases stays.symm.trans gone
    · have far := far.1
      omega
  · rw [if_neg early, one]
    by_cases unwritten : steps ≤ migration.writes
    · -- the bytes are moved as they are
      have demotes : ∃ t, migration = .demote t := by
        rcases numbers with ⟨demoted, -⟩ | ⟨first, -⟩
        · exact demoted
        · omega
      have at_ : stage m collection id migration x (tierBytes migration.target w) steps = x :=
        if_pos unwritten
      rw [at_]
      refine iff_of_false (fun finished => ?_) fun far => ?_
      · have wrong := finished.1 collection id migration.target
        rw [only, if_pos (samePartition_self _), recover_copied collection id start _ _ demotes] at wrong
        obtain ⟨target, demoted⟩ := demotes
        exact changes target demoted (Option.some.inj wrong).symm
      · have far := far.1
        omega
    · have reached : migration.written ≤ steps := by omega
      by_cases between : steps < (migration.steps m collection id).length
      · rw [stage_between _ _ _ _ _ _ (Nat.lt_of_not_le unwritten) between,
          recover_written collection id start, Tiered.delete_location]
        constructor
        · rintro ⟨-, d, entry, clean, names⟩
          exact ⟨reached, d, entry, clean, .inr names⟩
        · rintro ⟨-, d, entry, clean, long | names⟩
          · omega
          · refine ⟨fun collection' id' tier => ?_, d, entry, clean, names⟩
            rw [Tiered.read_delete, Tiered.read_delete, Tiered.relocate_read]
      · have location_ := Tiered.reconcile_location { (x.writeTiered collection id migration.target
          (tierBytes migration.target w)).deleteFromTier collection id migration.source with
            location := restored, wal := x.wal ++ [migration.record collection id] }
          (migration.record collection id) (id, 0)
        obtain ⟨-, id_, -, to_⟩ := record_names collection id migration
        rw [id_, if_pos rfl, to_] at location_
        rw [stage_late _ _ _ _ _ _ (Nat.le_of_not_lt between), recover_moved collection id start, location_]
        constructor
        · rintro ⟨-, d, entry, clean, -⟩
          obtain ⟨before, restores, rfl⟩ := Option.map_eq_some_iff.mp entry
          exact ⟨reached, before, restores, clean, .inl (Nat.le_of_not_lt between)⟩
        · rintro ⟨-, d, entry, clean, -⟩
          refine ⟨fun collection' id' tier => ?_, _, congrArg _ entry, clean, rfl, rfl⟩
          rw [Tiered.reconcile_read, Tiered.relocate_read]

end Interrupted

section Examples

def seeded : Tiered :=
  { venues.writeTiered "venues" "v1" .fjall (vectorBytes [⟨0x3F800000⟩]) with
    location := LocationTable.new.register ("v1", 0) ⟨.fjall, .localhost, .clean, 1, .float32, 0⟩ }

theorem seeded_starts : Starts "venues" "v1" (.demote .warm) seeded [⟨0x3F800000⟩] where
  fits := by decide
  held tier := by cases tier <;> decide
  located := ⟨⟨.fjall, .localhost, .clean, 1, .float32, 0⟩, by decide, rfl, rfl, rfl⟩

theorem whole_demotion_iff :
    IsFinished (serdeOf (shard 1)) "venues" "v1" (.demote .warm) seeded
      (recovered (serdeOf (shard 1)) "venues" "v1" (.demote .warm) seeded 6 seeded.location) ↔
    FarEnough (serdeOf (shard 1)) "venues" "v1" (.demote .warm) 6 seeded.location :=
  recovery_finishes_iff _ "venues" "v1" _ _ (serdeOf_tellsApart _) seeded_starts 6 _

/-- The record of the DEMOTE is committed and nothing written: recovery copies the floats of the
hot tier to the warm tier as they are. -/
theorem logged_demotion_copied :
    ¬ IsFinished (serdeOf (shard 1)) "venues" "v1" (.demote .warm) seeded
      (recovered (serdeOf (shard 1)) "venues" "v1" (.demote .warm) seeded 2 seeded.location) := by
  intro finished
  have warm := finished.tiers "venues" "v1" .nvme
  revert warm
  decide +kernel

end Examples
end TronDB.Routing
