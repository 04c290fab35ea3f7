import Mathlib.Data.Prod.Lex
import TronDB.Lib.Merging
import TronDB.Routing.Affinity
import TronDB.Routing.FailedMoves

/-! The demotion cycles of the migrator: what they take for candidates, and what they leave of the
other collections. -/
namespace TronDB.Routing
open TronDB.Core TronDB.Engine TronDB.Wal

structure TierConfig where
  demoteAfterSecs : Nat
  archiveAfterSecs : Nat
  migrationBatchSize : Nat
  deriving DecidableEq, Repr

/-! ### Eviction -/

structure LruTracker where
  accessTimes : FinMap EntityId Nat

def LruTracker.lastAccess (lru : LruTracker) (entity : EntityId) : Option Nat := lru.accessTimes[entity]?

inductive EvictionPriority where
  | ungrouped | implicitGroup | explicitGroup
  deriving DecidableEq, Repr

def EvictionPriority.rank : EvictionPriority → Nat
  | .ungrouped => 1
  | .implicitGroup => 2
  | .explicitGroup => 3

def evictionPriority (entity : EntityId) (affinity : AffinityIndex) : EvictionPriority :=
  match affinity.groupFor entity with
  | none => .ungrouped
  | some gid =>
    match affinity.groups[gid]? with
    | some group => if group.source = .learned then .implicitGroup else .explicitGroup
    | none => .explicitGroup

section Eviction
variable (affinity : AffinityIndex) (lru : LruTracker) (clock : Nat → Nat)

/-- What candidates are sorted by. For one that was never touched, the clock is read at its place. -/
def evictionKey (candidate : EntityId × Nat) : Nat ×ₗ Nat :=
  toLex ((evictionPriority candidate.1 affinity).rank,
    (lru.lastAccess candidate.1).getD (clock candidate.2))

def selectEvictionCandidates (hotEntities : List EntityId) (needed : Nat) : List EntityId :=
  if needed = 0 then []
  else ((hotEntities.zipIdx.insertionSort fun a b =>
    evictionKey affinity lru clock a ≤ evictionKey affinity lru clock b).take needed).map Prod.fst

end Eviction

/-! ### The cycles -/

/-- The migrator, and what a cycle gets from outside: the time, the order in which the location
table hands out its entries, and what fails in each migration. -/
structure Migrator where
  config : TierConfig
  affinity : AffinityIndex
  lru : LruTracker
  nowSecs : Nat
  clock : Nat → Nat
  order : HashOrder (ReprKey × LocationDescriptor)
  failures : Nat → Failures

/-- What a cycle tried, how many migrations it reports, and what it leaves. -/
structure CycleEnds where
  attempts : List EntityId
  migrated : Nat
  after : Tiered

section Cycles
variable (m : RmpSerde) (migrator : Migrator) (collection : String)

/-- The entities of the whole location table that are idle, once for each representation. -/
def Migrator.candidates (tier : Tier) (afterSecs : Nat) (x : Tiered) : List EntityId :=
  (migrator.order.order x.location.descriptors.toList).filterMap fun (key, desc) =>
    if desc.tier = tier ∧ desc.state = .clean ∧ desc.lastAccessed < migrator.nowSecs - afterSecs
    then some key.1 else none

/-- A migration that fails is reported and passed over. -/
def migrateEach (fromTier toTier : Tier) : List (EntityId × Failures) → Tiered → CycleEnds
  | [], x => ⟨[], 0, x⟩
  | (id, failures) :: rest, x =>
    let (result, x') := (demoteSingleIo m failures collection id fromTier toTier).run x
    let others := migrateEach fromTier toTier rest x'
    match result with
    | .ok () => ⟨id :: others.attempts, others.migrated + 1, others.after⟩
    | .error _ => ⟨id :: others.attempts, others.migrated, others.after⟩

def Migrator.tries (ids : List EntityId) : List (EntityId × Failures) :=
  ids.zipIdx.map fun (id, k) => (id, migrator.failures k)

def demoteHotToWarm (x : Tiered) : CycleEnds :=
  let candidates := migrator.candidates .fjall migrator.config.demoteAfterSecs x
  if candidates.isEmpty then ⟨[], 0, x⟩
  else
    let batch := migrator.config.migrationBatchSize
    let sorted := selectEvictionCandidates migrator.affinity migrator.lru migrator.clock candidates
      (min candidates.length batch)
    migrateEach m collection .fjall .nvme (migrator.tries (sorted.take batch)) x

def demoteWarmToArchive (x : Tiered) : CycleEnds :=
  let candidates := migrator.candidates .nvme migrator.config.archiveAfterSecs x
  migrateEach m collection .nvme .archive
    (migrator.tries (candidates.take migrator.config.migrationBatchSize)) x

def demotionCycle : TierTarget → Tiered → CycleEnds
  | .warm => demoteHotToWarm m migrator collection
  | .archive => demoteWarmToArchive m migrator collection

end Cycles

/-! ### What a cycle may touch -/

/-- A cycle of a collection tries each of its entities at most once, migrates no more than a batch,
and leaves what is of another collection. -/
structure OwnCollection (entities : String → EntityId → Prop) (collection : String) (batch : Nat)
    (x : Tiered) (ends : CycleEnds) : Prop where
  once : ∀ id, entities collection id → ends.attempts.count id ≤ 1
  few : ends.migrated ≤ batch
  entries : ∀ other, other ≠ collection → ∀ id, entities other id → ∀ i,
    (ends.after.location.get (id, i)).map placement = (x.location.get (id, i)).map placement
  partitions : ∀ other, other ≠ collection → ∀ id tier,
    ends.after.readTiered other id tier = x.readTiered other id tier
  records : ∀ other, other ≠ collection →
    ends.after.wal.filter (·.collection = other) = x.wal.filter (·.collection = other)

/-- Entries, data and log are as before, but for the first representations and the data of some
entities of a collection. -/
structure Confined (collection : String) (ids : List EntityId) (x x' : Tiered) : Prop where
  entries : ∀ k : ReprKey, ¬ (k.1 ∈ ids ∧ k.2 = 0) → x'.location.get k = x.location.get k
  data : ∀ other id tier, ¬ (other = collection ∧ id ∈ ids) →
    x'.readTiered other id tier = x.readTiered other id tier
  logged : ∃ logged, x'.wal = x.wal ++ logged ∧ ∀ r ∈ logged, r.collection = collection

section Frame
variable {collection : String} {ids : List EntityId}

theorem Confined.refl (x : Tiered) : Confined collection ids x x :=
  ⟨fun _ _ => rfl, fun _ _ _ _ => rfl, [], by simp, nofun⟩

theorem Confined.trans {x y z : Tiered} (first : Confined collection ids x y)
    (second : Confined collection ids y z) : Confined collection ids x z where
  entries k apart := (second.entries k apart).trans (first.entries k apart)
  data other id tier apart := (second.data other id tier apart).trans (first.data other id tier apart)
  logged := by
    obtain ⟨early, wal, own⟩ := first.logged
    obtain ⟨late, wal', own'⟩ := second.logged
    refine ⟨early ++ late, by rw [wal', wal, List.append_assoc], fun r there => ?_⟩
    exact (List.mem_append.mp there).elim (own r) (own' r)

theorem Confined.mono {more : List EntityId} {x x' : Tiered} (confined : Confined collection ids x x')
    (within_ : ∀ id ∈ ids, id ∈ more) : Confined collection more x x' where
  entries k apart := confined.entries k fun both => apart ⟨within_ _ both.1, both.2⟩
  data other id tier apart :=
    confined.data other id tier fun both => apart ⟨both.1, within_ _ both.2⟩
  logged := confined.logged

theorem run_confined (steps : IoSteps)
    (each : ∀ step ∈ steps, ∀ x, Confined collection ids x (step x).2) (x : Tiered) :
    Confined collection ids x (steps.run x).2 := by
  induction steps generalizing x with
  | nil => exact .refl x
  | cons step rest ih =>
    have here := each step List.mem_cons_self x
    unfold IoSteps.run
    split
    · rename_i e x' ran
      rwa [ran] at here
    · rename_i x' ran
      rw [ran] at here
      exact here.trans (ih (fun s there => each s (List.mem_cons_of_mem _ there)) x')

theorem perform_confined {failure : Option Failure} {effect : Tiered → Tiered} {x : Tiered}
    (confined : Confined collection ids x (effect x)) :
    Confined collection ids x (perform failure effect x).2 := by
  unfold perform
  cases failure with
  | none => exact confined
  | some f =>
    cases applied : f.applied with
    | false => simpa [applied] using Confined.refl x
    | true => simpa [applied] using confined

theorem relocated_confined {id : EntityId} {x : Tiered} {location : LocationTable}
    {entry : LocationDescriptor} (relocated : Relocates x.location location (id, 0) entry) :
    Confined collection [id] x { x with location } where
  entries k apart := by
    refine (relocated k).trans (if_neg fun same => apart ?_)
    simp [← same]
  data other id' tier _ := Tiered.relocate_read x other id' tier location x.wal
  logged := ⟨[], by simp, nofun⟩

/-- One migration touches the entry of its entity, its data in the collection, and the log. -/
theorem migration_confined (m : RmpSerde) (failures : Failures) (collection : String) (id : EntityId)
    (fromTier toTier : Tier) (x : Tiered) : Confined collection [id] x
      ((demoteSingleIo m failures collection id fromTier toTier).run x).2 := by
  have marked (state : LocState) (x : Tiered) :
      Confined collection [id] x (attempt (mark id state) x).2 := by
    unfold attempt
    obtain ⟨e, ran⟩ | ⟨entry, location, -, -, relocated, ran⟩ := mark_ends id state x
    · rw [ran]
      exact .refl x
    · rw [ran]
      exact relocated_confined relocated
  apply run_confined
  intro step listed x
  simp only [demoteSingleIo, List.mem_cons, List.not_mem_nil, or_false] at listed
  rcases listed with rfl | rfl | rfl | rfl | rfl | rfl
  · exact marked .migrating x
  · apply perform_confined
    exact ⟨fun _ _ => rfl, fun other id' tier _ => Tiered.relocate_read x other id' tier x.location _,
      [migrationRecord collection id fromTier toTier], rfl, by simp [migrationRecord]⟩
  · obtain ⟨result, y, ran, location, wal, others, -⟩ :=
      moveDataIo_ends m failures collection id fromTier toTier x
    rw [ran]
    refine ⟨fun k _ => by rw [location], fun other id' tier apart => ?_, [], by simp [wal],
      List.forall_mem_nil _⟩
    apply others
    rintro ⟨-, same⟩
    cases same
    exact apart ⟨rfl, List.mem_cons_self⟩
  · unfold attempt
    obtain ⟨-, e, ran⟩ | ⟨entry, location, -, relocated, ran⟩ := updateLocation_ends id toTier x
    · rw [ran]
      exact .refl x
    · rw [ran]
      exact relocated_confined relocated
  · exact marked .clean x
  · apply perform_confined
    refine ⟨fun k _ => by rw [Tiered.delete_location], fun other id' tier apart => ?_, [], by simp,
      List.forall_mem_nil _⟩
    rw [Tiered.read_delete, if_neg]
    rintro ⟨-, same⟩
    cases same
    exact apart ⟨rfl, List.mem_cons_self⟩

end Frame

/-! ### One entry under a cycle -/

def Failures.leavesSource (failures : Failures) : Prop :=
  ∃ f, failures.delete = some f ∧ f.applied = false

section Entry
variable (m : RmpSerde) (collection : String) (id : EntityId) (fromTier toTier : Tier)

/-- Each of several migrations of an entity moves its data, which only the last may delete. -/
def Survives (x : Tiered) : List Failures → Prop
  | [] => True
  | failures :: rest => (failures.commit = none ∧
      Movable m failures collection id fromTier toTier x) ∧
      (rest ≠ [] → failures.leavesSource) ∧ Survives x rest

variable {m collection id fromTier toTier}

theorem movable_of_read {failures : Failures} {x x' : Tiered}
    (same : x'.readTiered collection id fromTier = x.readTiered collection id fromTier) :
    Movable m failures collection id fromTier toTier x' ↔
      Movable m failures collection id fromTier toTier x := by
  unfold Movable
  rw [same]

theorem survives_of_read {x x' : Tiered} {tries : List Failures}
    (same : x'.readTiered collection id fromTier = x.readTiered collection id fromTier) :
    Survives m collection id fromTier toTier x' tries ↔
      Survives m collection id fromTier toTier x tries := by
  induction tries with
  | nil => rfl
  | cons failures rest ih => simp only [Survives, movable_of_read same, ih]

theorem survives_gone {x : Tiered} (gone : x.readTiered collection id fromTier = none)
    (tries : List Failures) : Survives m collection id fromTier toTier x tries ↔ tries = [] := by
  cases tries with
  | nil => exact iff_of_true trivial rfl
  | cons failures rest =>
    refine iff_of_false (fun survives => ?_) (List.cons_ne_nil _ _)
    obtain ⟨⟨-, -, data, bytes, read, -⟩, -⟩ := survives
    cases gone.symm.trans read

theorem deletion_ends (failures : Failures) (y : Tiered) :
    let z := (perform failures.delete (·.deleteFromTier collection id fromTier) y).2
    z.location = y.location ∧
      ((failures.leavesSource ∧
        z.readTiered collection id fromTier = y.readTiered collection id fromTier) ∨
      ¬ failures.leavesSource ∧ z.readTiered collection id fromTier = none) := by
  have gone : (y.deleteFromTier collection id fromTier).readTiered collection id fromTier = none := by
    rw [Tiered.read_delete, if_pos ⟨by cases fromTier <;> rfl, rfl⟩]
  unfold perform Failures.leavesSource
  cases deleted : failures.delete with
  | none => exact ⟨Tiered.delete_location _ _ _ _, .inr ⟨nofun, gone⟩⟩
  | some f =>
    cases applied : f.applied with
    | false => exact ⟨by simp [applied], .inl ⟨⟨f, rfl, applied⟩, by simp [applied]⟩⟩
    | true =>
      refine ⟨by simp [applied], .inr ⟨?_, by simpa [applied] using gone⟩⟩
      rintro ⟨g, same, left⟩
      cases same
      cases left.symm.trans applied

theorem migrateEach_cons (m : RmpSerde) (collection : String) (fromTier toTier : Tier)
    (tried : EntityId × Failures) (rest : List (EntityId × Failures)) (x : Tiered) :
    (migrateEach m collection fromTier toTier (tried :: rest) x).after =
      (migrateEach m collection fromTier toTier rest
        ((demoteSingleIo m tried.2 collection tried.1 fromTier toTier).run x).2).after := by
  rw [migrateEach]
  dsimp only
  split <;> rfl

theorem unclean_stays (tries : List (EntityId × Failures)) {x : Tiered}
    (unclean : ∀ entry, x.location.get (id, 0) = some entry → entry.state ≠ .clean) :
    (migrateEach m collection fromTier toTier tries x).after.location.get (id, 0) =
      x.location.get (id, 0) := by
  induction tries generalizing x with
  | nil => rfl
  | cons tried rest ih =>
    obtain ⟨other, failures⟩ := tried
    rw [migrateEach_cons]
    by_cases here : id = other
    · subst here
      obtain ⟨e, refused⟩ := migration_refused m failures collection id fromTier toTier unclean
      rw [refused]
      exact ih unclean
    · have same := (migration_confined m failures collection other fromTier toTier x).entries (id, 0)
        (by simp [here])
      refine (ih ?_).trans same
      rwa [same]

/-- A clean entry is in its new place after migrations that it survives, and else is marked. -/
theorem clean_ends (apart : samePartition toTier fromTier = false)
    (tries : List (EntityId × Failures)) {x : Tiered} {entry : LocationDescriptor}
    (found : x.location.get (id, 0) = some entry) (clean : entry.state = .clean) :
    let after := (migrateEach m collection fromTier toTier tries x).after
    let own := (tries.filter (·.1 = id)).map Prod.snd
    (Survives m collection id fromTier toTier x own ∧ (after.location.get (id, 0)).map placement =
      if own = [] then some (placement entry) else some (.clean, toTier, targetEncoding toTier)) ∨
    ¬ Survives m collection id fromTier toTier x own ∧
      (after.location.get (id, 0)).map (·.state) = some .migrating := by
  induction tries generalizing x entry with
  | nil => exact .inl ⟨trivial, by simp [migrateEach, found]⟩
  | cons tried rest ih =>
    obtain ⟨other, failures⟩ := tried
    rw [migrateEach_cons]
    by_cases here : other = id
    · subst here
      rw [List.filter_cons_of_pos (by simp), List.map_cons]
      rcases migration_ends m failures collection other fromTier toTier found clean with
        ⟨unable, -, migrating⟩ | ⟨able, y, ends, placed, -, source⟩
      · -- it is marked, and all further migrations are refused
        refine .inr ⟨fun survives => unable survives.1, ?_⟩
        rw [unclean_stays rest]
        · exact migrating
        · intro entry' found' clean'
          simp [found', clean'] at migrating
      · obtain ⟨location, deleted⟩ := @deletion_ends collection other fromTier failures y
        rw [ends]
        dsimp only
        rw [← location] at placed
        generalize (perform failures.delete (·.deleteFromTier collection other fromTier) y).2 = z
          at location deleted placed
        obtain ⟨moved, found', places⟩ := Option.map_eq_some_iff.mp placed
        have clean' : moved.state = .clean := congrArg Prod.fst places
        have later := ih found' clean'
        dsimp only at later
        rw [places, ite_self] at later
        rw [if_neg (List.cons_ne_nil _ _)]
        rcases deleted with ⟨leaves, read⟩ | ⟨deletes, gone⟩
        · rw [survives_of_read (read.trans (source apart))] at later
          exact later.imp (fun both => ⟨⟨able, fun _ => leaves, both.1⟩, both.2⟩)
            fun both => ⟨fun survives => both.1 survives.2.2, both.2⟩
        · rw [survives_gone gone] at later
          rcases later with ⟨last, final⟩ | ⟨more, marked⟩
          · refine .inl ⟨⟨able, fun others => absurd last others, ?_⟩, final⟩
            rw [last]
            trivial
          · exact .inr ⟨fun survives => deletes (survives.2.1 more), marked⟩
    · rw [List.filter_cons_of_neg (by simpa using here)]
      have confined := migration_confined m failures collection other fromTier toTier x
      have kept := confined.entries (id, 0) (by simp [Ne.symm here])
      have read := confined.data collection id fromTier (by simp [Ne.symm here])
      have later := ih (kept.trans found) clean
      simp only [survives_of_read read] at later
      exact later

end Entry

/-! ### A whole cycle -/

section Whole
variable (m : RmpSerde) (migrator : Migrator) (collection : String)

theorem migrateEach_confined (fromTier toTier : Tier) (tries : List (EntityId × Failures))
    (x : Tiered) : Confined collection (tries.map Prod.fst) x
      (migrateEach m collection fromTier toTier tries x).after := by
  induction tries generalizing x with
  | nil => exact .refl x
  | cons tried rest ih =>
    rw [migrateEach_cons]
    have first := migration_confined m tried.2 collection tried.1 fromTier toTier x
    exact (first.mono (by simp)).trans ((ih _).mono (by simp +contextual))

theorem migrateEach_attempts (fromTier toTier : Tier) (tries : List (EntityId × Failures))
    (x : Tiered) :
    (migrateEach m collection fromTier toTier tries x).attempts = tries.map Prod.fst ∧
      (migrateEach m collection fromTier toTier tries x).migrated ≤ tries.length := by
  induction tries generalizing x with
  | nil => exact ⟨rfl, Nat.le_refl 0⟩
  | cons tried rest ih =>
    obtain ⟨id, failures⟩ := tried
    obtain ⟨attempts, few⟩ :=
      ih ((demoteSingleIo m failures collection id fromTier toTier).run x).2
    rw [migrateEach]
    dsimp only
    split
    · exact ⟨congrArg (id :: ·) attempts, Nat.succ_le_succ few⟩
    · exact ⟨congrArg (id :: ·) attempts, Nat.le_succ_of_le few⟩

def Migrator.idle : TierTarget → Tiered → List EntityId
  | .warm => migrator.candidates .fjall migrator.config.demoteAfterSecs
  | .archive => migrator.candidates .nvme migrator.config.archiveAfterSecs

/-- What a cycle sorts its candidates by; that to the archive takes them as they come. -/
def Migrator.key : TierTarget → EntityId × Nat → Nat ×ₗ Nat
  | .warm => evictionKey migrator.affinity migrator.lru migrator.clock
  | .archive => fun _ => toLex (0, 0)

def Migrator.place (target : TierTarget) (x : Tiered) (candidate : EntityId × Nat) : Nat :=
  (migrator.idle target x).zipIdx.countP fun other =>
    migrator.key target other < migrator.key target candidate ∨
      migrator.key target other = migrator.key target candidate ∧ other.2 < candidate.2

/-- The first of the candidates, as many as go into a batch. -/
def Migrator.chosen (target : TierTarget) (x : Tiered) : List EntityId :=
  (((migrator.idle target x).zipIdx.insertionSort fun a b =>
    migrator.key target a ≤ migrator.key target b).take migrator.config.migrationBatchSize).map Prod.fst

theorem chosen_archive (x : Tiered) : migrator.chosen .archive x =
    (migrator.candidates .nvme migrator.config.archiveAfterSecs x).take
      migrator.config.migrationBatchSize := by
  unfold Migrator.chosen
  have unsorted : ((migrator.idle .archive x).zipIdx.insertionSort fun a b =>
      migrator.key .archive a ≤ migrator.key .archive b) = (migrator.idle .archive x).zipIdx :=
    List.Pairwise.insertionSort_eq (List.pairwise_of_forall fun _ _ => le_refl _)
  rw [unsorted, List.map_take, List.zipIdx_map_fst]
  rfl

/-- The warm tier takes those that are to be evicted first. -/
theorem chosen_warm (x : Tiered) :
    let candidates := migrator.candidates .fjall migrator.config.demoteAfterSecs x
    migrator.chosen .warm x = (selectEvictionCandidates migrator.affinity migrator.lru migrator.clock
      candidates (min candidates.length migrator.config.migrationBatchSize)).take
        migrator.config.migrationBatchSize := by
  intro candidates
  have length : (candidates.zipIdx.insertionSort fun a b =>
      migrator.key .warm a ≤ migrator.key .warm b).length = candidates.length := by
    rw [List.length_insertionSort, List.length_zipIdx]
  change (List.take _ (candidates.zipIdx.insertionSort _)).map Prod.fst =
    List.take _ (if _ then [] else ((candidates.zipIdx.insertionSort fun a b =>
      migrator.key .warm a ≤ migrator.key .warm b).take _).map Prod.fst)
  generalize (candidates.zipIdx.insertionSort fun a b =>
      migrator.key .warm a ≤ migrator.key .warm b) = sorted at length
  split
  · rename_i none_
    rw [List.take_nil, List.map_eq_nil_iff, List.take_eq_nil_iff, ← List.length_eq_zero_iff]
    omega
  · rw [← List.map_take, List.take_take, ← length]
    rcases Nat.le_total sorted.length migrator.config.migrationBatchSize with short | long
    · rw [min_eq_left short, min_eq_right short, List.take_length, List.take_of_length_le short]
    · rw [min_eq_right long, min_self]

theorem demotionCycle_eq (target : TierTarget) (x : Tiered) :
    demotionCycle m migrator collection target x = migrateEach m collection target.source target.tier
      (migrator.tries (migrator.chosen target x)) x := by
  cases target with
  | archive =>
    rw [chosen_archive]
    rfl
  | warm =>
    rw [chosen_warm]
    unfold demotionCycle demoteHotToWarm
    dsimp only
    split
    · rename_i empty
      rw [List.isEmpty_iff.mp empty, List.length_nil, Nat.zero_min]
      unfold selectEvictionCandidates
      rw [if_pos rfl, List.take_nil]
      rfl
    · rfl

variable (entities : String → EntityId → Prop)

/-- Of two representations of an entity that are both idle, at most one is chosen. -/
def Migrator.OneEach (target : TierTarget) (x : Tiered) : Prop :=
  ∀ id, entities collection id → ∀ i j, i < j → (migrator.idle target x)[i]? = some id →
    (migrator.idle target x)[j]? = some id →
      migrator.config.migrationBatchSize ≤ migrator.place target x (id, i) ∨
        migrator.config.migrationBatchSize ≤ migrator.place target x (id, j)

def Migrator.triesOn (target : TierTarget) (x : Tiered) (id : EntityId) : List Failures :=
  ((migrator.tries (migrator.chosen target x)).filter (·.1 = id)).map Prod.snd

/-- The entry of an entity is not tried, or is refused, or is already where the migrations put it,
and the data of the collection is such that they all succeed up to the last deletion. -/
def Migrator.Spares (target : TierTarget) (x : Tiered) (id : EntityId) : Prop :=
  migrator.triesOn target x id = [] ∨
    (∀ entry, x.location.get (id, 0) = some entry → entry.state ≠ .clean) ∨
    (x.location.get (id, 0)).map placement =
      some (.clean, target.tier, targetEncoding target.tier) ∧
      Survives m collection id target.source target.tier x (migrator.triesOn target x id)

theorem chosen_once_iff (target : TierTarget) (x : Tiered) (id : EntityId) :
    (migrator.chosen target x).count id ≤ 1 ↔ ∀ i j, i < j →
      (migrator.idle target x)[i]? = some id → (migrator.idle target x)[j]? = some id →
        migrator.config.migrationBatchSize ≤ migrator.place target x (id, i) ∨
          migrator.config.migrationBatchSize ≤ migrator.place target x (id, j) := by
  have sorted := Ranked.count_take_numbered_le_one_iff
    (fun candidate => OrderDual.toDual (migrator.key target candidate)) (migrator.idle target x)
    migrator.config.migrationBatchSize id
  exact sorted

/-- The entry of an entity is the same after a cycle exactly if the cycle spares it. -/
theorem cycle_entry_iff (target : TierTarget) (x : Tiered) (id : EntityId) :
    ((demotionCycle m migrator collection target x).after.location.get (id, 0)).map placement =
      (x.location.get (id, 0)).map placement ↔ migrator.Spares m collection target x id := by
  rw [demotionCycle_eq]
  unfold Migrator.Spares
  by_cases unclean : ∀ entry, x.location.get (id, 0) = some entry → entry.state ≠ .clean
  · refine iff_of_true ?_ (.inr (.inl unclean))
    rw [unclean_stays _ unclean]
  · obtain ⟨entry, found, clean⟩ : ∃ entry, x.location.get (id, 0) = some entry ∧
        entry.state = .clean := by simpa using unclean
    have apart : samePartition target.tier target.source = false := by cases target <;> rfl
    have ends := @clean_ends m collection id target.source target.tier apart
      (migrator.tries (migrator.chosen target x)) x entry found clean
    dsimp only at ends
    rw [← Migrator.triesOn] at ends
    rcases ends with ⟨survives, placed⟩ | ⟨lost, marked⟩
    · rw [placed, found]
      by_cases untried : migrator.triesOn target x id = []
      · exact iff_of_true (if_pos untried) (.inl untried)
      · rw [if_neg untried, eq_comm]
        constructor
        · exact fun same => .inr (.inr ⟨same, survives⟩)
        · rintro (none_ | refused | ⟨same, -⟩)
          · exact absurd none_ untried
          · exact absurd clean (refused entry rfl)
          · exact same
    · refine iff_of_false (fun same => ?_) ?_
      · have state := congrArg (Option.map Prod.fst) same
        rw [Option.map_map, Option.map_map, found] at state
        cases (marked.symm.trans state).trans (congrArg some clean)
      · rintro (none_ | refused | ⟨-, survives⟩)
        · rw [none_] at lost
          exact lost trivial
        · exact refused entry found clean
        · exact lost survives

/-- A cycle keeps to its own collection exactly if it has no entity of it twice within the batch,
and spares what other collections have of the chosen entities. -/
theorem own_collection_iff (target : TierTarget) (x : Tiered) :
    OwnCollection entities collection migrator.config.migrationBatchSize x
        (demotionCycle m migrator collection target x) ↔
      migrator.OneEach collection entities target x ∧
        ∀ other, other ≠ collection → ∀ id, entities other id → migrator.Spares m collection target x id := by
  have confined := migrateEach_confined m collection target.source target.tier
    (migrator.tries (migrator.chosen target x)) x
  obtain ⟨attempts, few⟩ := migrateEach_attempts m collection target.source target.tier
    (migrator.tries (migrator.chosen target x)) x
  have names : (migrator.tries (migrator.chosen target x)).map Prod.fst = migrator.chosen target x := by
    unfold Migrator.tries
    rw [List.map_map]
    exact List.zipIdx_map_fst 0 _
  rw [← demotionCycle_eq] at confined attempts few
  rw [names] at attempts
  constructor
  · intro own
    refine ⟨fun id has => ?_, fun other apart id has => ?_⟩
    · rw [← chosen_once_iff, ← attempts]
      exact own.once id has
    · exact (cycle_entry_iff m migrator collection target x id).mp (own.entries other apart id has 0)
  · rintro ⟨once, spared⟩
    refine ⟨fun id has => ?_, ?_, fun other apart id has i => ?_, fun other apart id tier => ?_,
      fun other apart => ?_⟩
    · rw [attempts, chosen_once_iff]
      exact once id has
    · refine few.trans ?_
      simp [Migrator.tries, Migrator.chosen]
    · by_cases first : i = 0
      · rw [first]
        exact (cycle_entry_iff m migrator collection target x id).mpr (spared other apart id has)
      · rw [confined.entries (id, i) fun both => first both.2]
    · exact confined.data other id tier fun both => apart both.1
    · obtain ⟨logged, wal, own⟩ := confined.logged
      rw [wal, List.filter_append]
      have none_ : logged.filter (·.collection = other) = [] := by
        rw [List.filter_eq_nil_iff]
        intro r there same
        exact apart ((decide_eq_true_iff.mp same).symm.trans (own r there))
      rw [none_, List.append_nil]

end Whole

/-! ### The cycle of the venues, and a museum -/

section Examples

def museum : Entity := { shard 1 with id := "m1" }

def museumSchema : CollectionSchema :=
  ⟨"museums", [⟨"default", none, some 1, .cosine, false, [], 0, "", none⟩], [], [], none⟩

/-- A museum, beside a collection of venues without entities. -/
def museums : Tiered :=
  (Tiered.insert (serdeOf museum) { venues with
    collections := venues.collections.insert "museums" museumSchema } "museums" museum).2

/-- A migrator a day after the museum was inserted. -/
def daily : Migrator where
  config := ⟨86400, 604800, 100⟩
  affinity := .new
  lru := ⟨∅⟩
  nowSecs := 86401
  clock := id
  order := .insertionOrder _
  failures := fun _ => .none

/-- The museum has no data among the venues, and is left marked. -/
theorem museum_marked : ¬ OwnCollection (fun c id => (museums.readTiered c id .fjall).isSome = true)
    "venues" daily.config.migrationBatchSize museums
    (demotionCycle (serdeOf museum) daily "venues" .warm museums) := by
  intro own
  have entry := own.entries "museums" (by decide) "m1" (by decide +kernel) 0
  revert entry
  decide +kernel

end Examples
end TronDB.Routing
