import Mathlib.Data.List.Induction
import TronDB.Engine.Performed
import TronDB.Engine.Recompute
import TronDB.Lib.Run

/-! UPDATE statements and recomputes that run at the same time. -/
namespace TronDB.Engine
open TronDB.Core Binary Wal

/-! ### Transitions of the location table -/

namespace LocationTable

/-- The descriptor after a transition that may be refused. -/
def moved (target : LocState) (d : LocationDescriptor) : LocationDescriptor :=
  if canTransitionTo d.state target then { d with state := target, version := d.version + 1 } else d

theorem get_tryTransition (t : LocationTable) (key : ReprKey) (target : LocState) (k : ReprKey) :
    (t.tryTransition key target).get k =
      if key = k then (t.get k).map (moved target) else t.get k := by
  unfold tryTransition transition
  cases found : t.get key with
  | none =>
    dsimp only
    split
    · rename_i here
      rw [← here, found]
      rfl
    · rfl
  | some d =>
    dsimp only
    by_cases allowed : canTransitionTo d.state target = true
    · rw [if_pos allowed]
      dsimp only
      refine (FinMap.get_insert _ _ _ _).trans ?_
      split
      · rename_i here
        rw [← here, found, Option.map_some, moved, if_pos allowed]
      · rfl
    · rw [if_neg allowed]
      dsimp only
      split
      · rename_i here
        rw [← here, found, Option.map_some, moved, if_neg allowed]
      · rfl

def IsClean (t : LocationTable) (k : ReprKey) : Prop := ∃ d, t.get k = some d ∧ d.state = .clean

theorem isClean_tryTransition (t : LocationTable) (key : ReprKey) {target : LocState}
    (other : target ≠ .clean) (k : ReprKey) :
    (t.tryTransition key target).IsClean k ↔
      t.IsClean k ∧ ¬ (key = k ∧ canTransitionTo .clean target = true) := by
  unfold IsClean
  rw [get_tryTransition]
  by_cases here : key = k
  · rw [if_pos here]
    constructor
    · rintro ⟨d, moved', clean⟩
      obtain ⟨d', found, rfl⟩ := Option.map_eq_some_iff.mp moved'
      unfold moved at clean
      split at clean
      · exact absurd clean other
      · rename_i refused
        exact ⟨⟨d', found, clean⟩, fun both => refused (clean ▸ both.2)⟩
    · rintro ⟨⟨d, found, clean⟩, refused⟩
      refine ⟨d, ?_, clean⟩
      have kept : moved target d = d := if_neg fun allowed => refused ⟨here, clean ▸ allowed⟩
      rw [found, Option.map_some, kept]
  · rw [if_neg here]
    exact ⟨fun clean => ⟨clean, fun both => here both.1⟩, fun both => both.1⟩

theorem isClean_toClean (t : LocationTable) (key k : ReprKey) :
    (t.tryTransition key .clean).IsClean k ↔
      t.IsClean k ∨ key = k ∧ ∃ d, t.get k = some d ∧ canTransitionTo d.state .clean = true := by
  unfold IsClean
  rw [get_tryTransition]
  by_cases here : key = k
  · rw [if_pos here]
    constructor
    · rintro ⟨d, moved', clean⟩
      obtain ⟨d', found, rfl⟩ := Option.map_eq_some_iff.mp moved'
      unfold moved at clean
      split at clean
      · rename_i allowed
        exact .inr ⟨here, d', found, allowed⟩
      · exact .inl ⟨d', found, clean⟩
    · rintro (⟨d, found, clean⟩ | ⟨-, d, found, allowed⟩)
      · exact ⟨moved .clean d, by rw [found]; rfl, by unfold moved; split <;> simp [clean]⟩
      · exact ⟨moved .clean d, by rw [found]; rfl, by rw [moved, if_pos allowed]⟩
  · rw [if_neg here]
    exact ⟨.inl, fun either => either.elim id fun both => absurd both.1 here⟩

end LocationTable

/-! ### The system -/

/-- An engine with the calls in flight, and what the calls so far have been about. -/
structure Interleaved where
  state : State
  updates : List PendingUpdate
  tasks : List Task
  /-- Entities some UPDATE has written. -/
  updated : List (String × LogicalId)
  /-- The value the last UPDATE of a field wrote. -/
  values : FinMap ((String × LogicalId) × String) Value
  /-- The vector the last recompute of a representation wrote back. -/
  vectors : FinMap ((String × LogicalId) × Nat) VectorData

def Interleaved.start (s : State) : Interleaved := ⟨s, [], [], [], ∅, ∅⟩

inductive Action where
  | beginUpdate (env : Env) (p : UpdateEntityPlan)
  | finishUpdate (i : Nat)
  | startRecompute (env : RecomputeEnv)
  | advance (env : RecomputeEnv) (i : Nat)

abbrev Registry := String → String → Option Vectoriser

def RecomputeEnv.with (env : RecomputeEnv) (registry : Registry) : RecomputeEnv :=
  { env with vectoriser := registry }

section Step
variable [WalPayload Payload] (registry : Registry)

def recordUpdate (x : Interleaved) (u : PendingUpdate) : Interleaved :=
  if x.state.store.hasCollection u.plan.collection then
    { x with
      updated := (u.plan.collection, u.new.id) :: x.updated
      values := u.plan.assignments.foldl (fun values a =>
        values.insert ((u.plan.collection, u.new.id), a.1) (literalToValue a.2)) x.values }
  else x

def recordVector (x : Interleaved) : Task → Interleaved
  | .writing job (y :: _) _ _ =>
    if x.state.store.hasCollection job.collection then
      { x with vectors := x.vectors.insert ((job.collection, y.entity.id), job.reprIdx) y.vector }
    else x
  | _ => x

def Interleaved.step (x : Interleaved) : Action → Interleaved
  | .beginUpdate env p =>
    match Engine.beginUpdate env x.state p with
    | (.ok u, s) => { x with state := s, updates := x.updates ++ [u] }
    | (.error _, s) => { x with state := s }
  | .finishUpdate i =>
    match x.updates[i]? with
    | none => x
    | some u =>
      { recordUpdate x u with
        state := (Engine.finishUpdate x.state u).2, updates := x.updates.eraseIdx i }
  | .startRecompute env => { x with tasks := x.tasks ++ [x.state.startRecompute env] }
  | .advance env i =>
    match x.tasks[i]? with
    | none => x
    | some task =>
      let (s, task') := Engine.advance (env.with registry) x.state task
      { recordVector x task with state := s, tasks := x.tasks.set i task' }

end Step

/-- The copy that is written back has what was written of its entity in the meantime: every
value but those the UPDATE assigns itself, every vector but the one the recompute brings. -/
def UpToDate (x : Interleaved) : Action → Prop
  | .finishUpdate i => ∀ u, x.updates[i]? = some u →
      x.state.store.hasCollection u.plan.collection = true →
      (∀ (field : String) (v : Value), (∀ a ∈ u.plan.assignments, a.1 ≠ field) →
        x.values[((u.plan.collection, u.old.id), field)]? = some v →
        u.old.metadata[field]? = some v) ∧
      ∀ (j : Nat) (vector : VectorData),
        x.vectors[((u.plan.collection, u.old.id), j)]? = some vector →
        ∃ r : Representation, u.old.representations[j]? = some r ∧ r.vector = vector
  | .advance _ i => ∀ job y encoded later rest,
      x.tasks[i]? = some (.writing job (y :: encoded) later rest) →
      x.state.store.hasCollection job.collection = true →
      (∀ (field : String) (v : Value), x.values[((job.collection, y.entity.id), field)]? = some v →
        y.entity.metadata[field]? = some v) ∧
      ∀ (j : Nat) (vector : VectorData), j ≠ job.reprIdx →
        x.vectors[((job.collection, y.entity.id), j)]? = some vector →
        ∃ r : Representation,
          (padTo y.entity job.reprIdx).representations[j]? = some r ∧ r.vector = vector
  | _ => True

/-! ### What the steps leave -/

section Effects
variable [WalPayload Payload]

theorem beginUpdate_ends (env : Env) (s : State) (p : UpdateEntityPlan) :
    (∃ e, beginUpdate env s p = (.error e, s)) ∨
      ∃ old entries, s.store.get p.collection p.entityId = .ok old ∧ beginUpdate env s p =
        (.ok ⟨p, s.schemas[p.collection]?, old⟩, s.logTx env.ts p.collection entries) := by
  unfold beginUpdate
  cases found : s.store.get p.collection p.entityId with
  | error e => exact .inl ⟨e, rfl⟩
  | ok old => exact .inr ⟨old, _, rfl, rfl⟩

omit [WalPayload Payload] in
theorem finishUpdate_put {s : State} {u : PendingUpdate}
    (present : s.store.hasCollection u.plan.collection = true) :
    dataOf (finishUpdate s u).2.store = dataOf (s.store.putEntity u.plan.collection u.new) ∧
      (finishUpdate s u).2.location =
        u.dirty.foldl (fun t idx => t.tryTransition (u.plan.entityId, idx) .dirty) s.location ∧
      (finishUpdate s u).2.schemas = s.schemas := by
  unfold finishUpdate Store.insert
  rw [if_pos present]
  dsimp only
  split
  · exact ⟨data_updateFieldEntries _ _ _ _ _, rfl, rfl⟩
  · unfold State.enqueue
    split <;> exact ⟨data_updateFieldEntries _ _ _ _ _, rfl, rfl⟩

omit [WalPayload Payload] in
theorem finishUpdate_absent {s : State} {u : PendingUpdate}
    (absent : s.store.hasCollection u.plan.collection = false) : (finishUpdate s u).2 = s := by
  unfold finishUpdate Store.insert
  rw [if_neg (Bool.eq_false_iff.mp absent)]

theorem writeBack_put (job : Job) (env : Env) {s : State} (y : Encoded)
    (present : s.store.hasCollection job.collection = true) :
    (job.writeBack env s y).2.store = s.store.putEntity job.collection (job.refreshed env y) ∧
      (job.writeBack env s y).2.location = s.location.tryTransition y.key .clean ∧
      (job.writeBack env s y).2.schemas = s.schemas := by
  have kept : (s.logTx env.ts job.collection
      [(.reprWrite, .entity (job.refreshed env y))]).store.hasCollection job.collection = true := present
  unfold Job.writeBack Store.insert LocationTable.tryTransition
  simp only [kept, if_true]
  cases y.vector with
  | dense v =>
    dsimp only [State.logTx]
    cases s.location.transition y.key .clean <;> exact ⟨rfl, rfl, rfl⟩
  | sparse sv =>
    dsimp only [State.logTx]
    cases s.location.transition y.key .clean <;> exact ⟨rfl, rfl, rfl⟩

theorem writeBack_absent (job : Job) (env : Env) {s : State} (y : Encoded)
    (absent : s.store.hasCollection job.collection = false) :
    ∃ e, job.writeBack env s y = (.error e, s.logTx env.ts job.collection
      [(.reprWrite, .entity (job.refreshed env y))]) := by
  have missing : ¬ (s.logTx env.ts job.collection
      [(.reprWrite, .entity (job.refreshed env y))]).store.hasCollection job.collection = true :=
    Bool.eq_false_iff.mp absent
  unfold Job.writeBack Store.insert
  simp only [missing]
  exact ⟨_, rfl⟩

omit [WalPayload Payload] in
theorem isClean_mark (job : Job) (t : LocationTable) (k : ReprKey) :
    (job.mark t).IsClean k ↔ t.IsClean k := by
  unfold Job.mark
  induction job.entries generalizing t with
  | nil => rfl
  | cons e rest ih =>
    rw [List.foldl_cons, ih, LocationTable.isClean_tryTransition _ _ (by simp)]
    simp [canTransitionTo]

theorem advance_quiet (env : RecomputeEnv) (s : State) (task : Task)
    (quiet : ∀ job y encoded later rest, task ≠ .writing job (y :: encoded) later rest) :
    (advance env s task).1.store = s.store ∧ (advance env s task).1.schemas = s.schemas ∧
      ∀ k, (advance env s task).1.location.IsClean k ↔ s.location.IsClean k := by
  have started (rest : List Group) (jobs : List Job) : (startJobs s rest jobs).1.store = s.store ∧
      (startJobs s rest jobs).1.schemas = s.schemas ∧
      ∀ k, (startJobs s rest jobs).1.location.IsClean k ↔ s.location.IsClean k := by
    cases jobs with
    | nil => exact ⟨rfl, rfl, fun _ => Iff.rfl⟩
    | cons job later => exact ⟨rfl, rfl, isClean_mark job s.location⟩
  cases task with
  | groups rest =>
    cases rest with
    | nil => exact ⟨rfl, rfl, fun _ => Iff.rfl⟩
    | cons group rest => exact started rest _
  | encoding job later rest =>
    simp only [advance]
    split
    · exact started rest later
    · exact ⟨rfl, rfl, fun _ => Iff.rfl⟩
  | writing job encoded later rest =>
    cases encoded with
    | nil => exact started rest later
    | cons y encoded => exact absurd rfl (quiet job y encoded later rest)
  | failed e => exact ⟨rfl, rfl, fun _ => Iff.rfl⟩

theorem advance_write (env : RecomputeEnv) (s : State) (job : Job) (y : Encoded)
    (encoded : List Encoded) (later : List Job) (rest : List Group) :
    (advance env s (.writing job (y :: encoded) later rest)).1 =
      (job.writeBack env.toEnv s y).2 := by
  simp only [advance]
  split
  · rename_i written
    rw [written]
  · rename_i written
    rw [written]

end Effects

/-! ### What is in flight -/

theorem flatten_toChunks_go {α : Type} (n : Nat) (xs : List α) (current : Array α)
    (done : Array (List α)) : (List.toChunks.go n xs current done).flatten =
      done.toList.flatten ++ current.toList ++ xs := by
  induction xs generalizing current done with
  | nil => simp [List.toChunks.go]
  | cons x rest ih =>
    rw [List.toChunks.go]
    split
    · rw [ih]
      simp
    · rw [ih]
      simp

theorem flatten_toChunks {α : Type} (n : Nat) (xs : List α) : (xs.toChunks n).flatten = xs := by
  cases xs with
  | nil => cases n <;> rfl
  | cons x rest =>
    cases n with
    | zero => simp [List.toChunks]
    | succ n =>
      rw [List.toChunks, flatten_toChunks_go]
      · simp
      · simp

section InFlight
variable (registry : Registry)

def EntriesOk (reprIdx : Nat) (entries : List (ReprKey × Entity)) : Prop :=
  ∀ e ∈ entries, e.1 = (e.2.id, reprIdx)

def GroupsOk (groups : List Group) : Prop := ∀ g ∈ groups, EntriesOk g.1.2 g.2

structure JobOk (schemas : FinMap String CollectionSchema) (job : Job) : Prop where
  stored : ∃ schema, schemas[job.collection]? = some schema ∧
    schema.representations[job.reprIdx]? = some job.stored
  vectoriser : registry job.collection job.stored.name = some job.vectoriser
  entries : EntriesOk job.reprIdx job.entries

/-- The vector is the encoding of the copy it is written back with. -/
def EncodedOk (job : Job) (y : Encoded) : Prop :=
  y.key = (y.entity.id, job.reprIdx) ∧
    job.vectoriser.encode (fieldSet job.stored y.entity) = .ok y.vector

def TaskOk (schemas : FinMap String CollectionSchema) : Task → Prop
  | .groups rest => GroupsOk rest
  | .encoding job later rest =>
    JobOk registry schemas job ∧ (∀ j ∈ later, JobOk registry schemas j) ∧ GroupsOk rest
  | .writing job encoded later rest =>
    JobOk registry schemas job ∧ (∀ y ∈ encoded, EncodedOk job y) ∧
      (∀ j ∈ later, JobOk registry schemas j) ∧ GroupsOk rest
  | .failed _ => True

theorem groupsOk_push {groups : List Group} (ok : GroupsOk groups) (collection : String)
    {key : ReprKey} {e : Entity} (own : key.1 = e.id) :
    GroupsOk (pushGroup (collection, key.2) (key, e) groups) := by
  have entry : key = (e.id, key.2) := Prod.ext own rfl
  induction groups with
  | nil =>
    intro g there x listed
    rw [pushGroup, List.mem_singleton] at there
    subst there
    rw [List.mem_singleton] at listed
    subst listed
    exact entry
  | cons g rest ih =>
    obtain ⟨here, later⟩ := List.forall_mem_cons.mp ok
    rw [pushGroup]
    split
    · rename_i same
      refine List.forall_mem_cons.mpr ⟨fun x there => ?_, later⟩
      rcases List.mem_append.mp there with there | there
      · exact here x there
      · rw [List.mem_singleton] at there
        rw [there, same]
        exact entry
    · exact List.forall_mem_cons.mpr ⟨here, ih later⟩

theorem groupsOk_dirty (s : State) (keys : List ReprKey) : GroupsOk (s.dirtyGroups keys) := by
  induction keys using List.reverseRecOn with
  | nil => exact List.forall_mem_nil _
  | append_singleton rest key ih =>
    rcases s.dirtyGroups_append rest key with same | ⟨collection, e, found, pushed⟩
    · rw [same]
      exact ih
    · have stored := ((s.store.get_eq_ok ..).mp found).2
      rw [pushed]
      exact groupsOk_push ih collection (s.store.keyed collection key.1 _ stored).symm

theorem jobsOk_open {s : State} (env : RecomputeEnv) {group : Group}
    (ok : EntriesOk group.1.2 group.2) :
    ∀ job ∈ s.openGroup (env.with registry) group, JobOk registry s.schemas job := by
  unfold State.openGroup
  split
  · simp
  · rename_i schema known
    split
    · simp
    · rename_i stored declared
      split
      · simp
      · split
        · simp
        · rename_i vectoriser registered
          intro job there
          obtain ⟨entries, chunk, rfl⟩ := List.mem_map.mp there
          refine ⟨⟨schema, known, declared⟩, registered, fun e listed => ok e ?_⟩
          rw [← flatten_toChunks env.batchSize group.2]
          exact List.mem_flatten.mpr ⟨entries, chunk, listed⟩

theorem encodeBatch_ok (vectoriser : Vectoriser) (batch : List (List (String × Value)))
    {vectors : List VectorData} (ok : vectoriser.encodeBatch batch = .ok vectors) :
    ∀ fv ∈ batch.zip vectors, vectoriser.encode fv.1 = .ok fv.2 := by
  induction batch generalizing vectors with
  | nil => simp
  | cons fields rest ih =>
    unfold Vectoriser.encodeBatch at ok
    split at ok
    · cases ok
    · rename_i vector encoded
      split at ok
      · cases ok
      · rename_i later encodedLater
        cases ok
        exact List.forall_mem_cons.mpr ⟨encoded, ih encodedLater⟩

theorem encodedOk_encode {schemas : FinMap String CollectionSchema} {job : Job}
    (ok : JobOk registry schemas job) {encoded : List Encoded} (done : job.encode = .ok encoded) :
    ∀ y ∈ encoded, EncodedOk job y := by
  unfold Job.encode at done
  split at done
  · cases done
  · rename_i vectors batch
    cases done
    intro y there
    obtain ⟨⟨e, vector⟩, zipped, rfl⟩ := List.mem_map.mp there
    refine ⟨ok.entries e (List.of_mem_zip zipped).1, ?_⟩
    have each := encodeBatch_ok job.vectoriser _ batch (fieldSet job.stored e.2, vector)
    rw [List.zip_map_left] at each
    exact each (List.mem_map.mpr ⟨(e, vector), zipped, rfl⟩)

variable [WalPayload Payload]

omit [WalPayload Payload] in
theorem taskOk_startJobs {schemas : FinMap String CollectionSchema} (s : State)
    {rest : List Group} {jobs : List Job} (jobsOk : ∀ j ∈ jobs, JobOk registry schemas j)
    (groupsOk : GroupsOk rest) : TaskOk registry schemas (startJobs s rest jobs).2 := by
  cases jobs with
  | nil => exact groupsOk
  | cons job later =>
    obtain ⟨here, others⟩ := List.forall_mem_cons.mp jobsOk
    exact ⟨here, others, groupsOk⟩

theorem taskOk_advance (env : RecomputeEnv) (s : State) {task : Task}
    (ok : TaskOk registry s.schemas task) :
    TaskOk registry s.schemas (advance (env.with registry) s task).2 := by
  cases task with
  | groups rest =>
    cases rest with
    | nil => exact ok
    | cons group rest =>
      obtain ⟨here, later⟩ := List.forall_mem_cons.mp ok
      exact taskOk_startJobs registry s (jobsOk_open registry env here) later
  | encoding job later rest =>
    obtain ⟨jobOk, laterOk, restOk⟩ := ok
    simp only [advance]
    split
    · exact taskOk_startJobs registry s laterOk restOk
    · rename_i encoded done
      exact ⟨jobOk, encodedOk_encode registry jobOk done, laterOk, restOk⟩
  | writing job encoded later rest =>
    obtain ⟨jobOk, encodedOk, laterOk, restOk⟩ := ok
    cases encoded with
    | nil => exact taskOk_startJobs registry s laterOk restOk
    | cons y encoded =>
      simp only [advance]
      split
      · exact ⟨jobOk, fun y' there => encodedOk y' (List.mem_cons_of_mem _ there), laterOk, restOk⟩
      · trivial
  | failed e => trivial

/-- The calls in flight were started under the schemas that are still there. -/
structure InFlight (x : Interleaved) : Prop where
  updates : ∀ u ∈ x.updates, u.schema = x.state.schemas[u.plan.collection]? ∧
    u.old.id = u.plan.entityId
  tasks : ∀ task ∈ x.tasks, TaskOk registry x.state.schemas task

omit [WalPayload Payload] in
theorem inFlight_start (s : State) : InFlight registry (.start s) :=
  ⟨by simp [Interleaved.start], by simp [Interleaved.start]⟩

omit [WalPayload Payload] in
theorem recordUpdate_rest (x : Interleaved) (u : PendingUpdate) :
    (recordUpdate x u).tasks = x.tasks := by
  unfold recordUpdate
  split <;> rfl

omit [WalPayload Payload] in
theorem recordVector_rest (x : Interleaved) (task : Task) :
    (recordVector x task).updates = x.updates ∧ (recordVector x task).updated = x.updated ∧
      (recordVector x task).values = x.values := by
  unfold recordVector
  split
  · split <;> exact ⟨rfl, rfl, rfl⟩
  · exact ⟨rfl, rfl, rfl⟩

theorem advance_schemas (env : RecomputeEnv) (s : State) (task : Task) :
    (advance env s task).1.schemas = s.schemas := by
  by_cases writes : ∃ job y encoded later rest, task = .writing job (y :: encoded) later rest
  · obtain ⟨job, y, encoded, later, rest, rfl⟩ := writes
    rw [advance_write]
    cases present : s.store.hasCollection job.collection with
    | true => exact (writeBack_put job env.toEnv y present).2.2
    | false =>
      obtain ⟨e, failed⟩ := writeBack_absent job env.toEnv y present
      rw [failed]
      rfl
  · refine (advance_quiet env s task fun job y encoded later rest same => writes ?_).2.1
    exact ⟨job, y, encoded, later, rest, same⟩

omit [WalPayload Payload] in
theorem finishUpdate_schemas (s : State) (u : PendingUpdate) :
    (finishUpdate s u).2.schemas = s.schemas := by
  cases present : s.store.hasCollection u.plan.collection with
  | true => exact (finishUpdate_put present).2.2
  | false => rw [finishUpdate_absent present]

theorem inFlight_step {x : Interleaved} (inFlight : InFlight registry x) (a : Action) :
    InFlight registry (x.step registry a) := by
  obtain ⟨updates, tasks⟩ := inFlight
  cases a with
  | beginUpdate env p =>
    rcases beginUpdate_ends env x.state p with ⟨e, failed⟩ | ⟨old, entries, found, begun⟩
    · simp only [Interleaved.step, failed]
      exact ⟨updates, tasks⟩
    · simp only [Interleaved.step, begun]
      refine ⟨fun u there => ?_, tasks⟩
      rcases List.mem_append.mp there with there | there
      · exact updates u there
      · rw [List.mem_singleton] at there
        subst there
        refine ⟨rfl, ?_⟩
        exact x.state.store.keyed _ _ _ ((x.state.store.get_eq_ok ..).mp found).2
  | finishUpdate i =>
    simp only [Interleaved.step]
    split
    · exact ⟨updates, tasks⟩
    · rename_i u there
      refine ⟨fun u' kept => ?_, fun task there => ?_⟩
      · dsimp only
        rw [finishUpdate_schemas]
        exact updates u' (List.mem_of_mem_eraseIdx kept)
      · dsimp only at there ⊢
        rw [finishUpdate_schemas]
        rw [recordUpdate_rest] at there
        exact tasks task there
  | startRecompute env =>
    refine ⟨updates, fun task there => ?_⟩
    rcases List.mem_append.mp there with there | there
    · exact tasks task there
    · rw [List.mem_singleton] at there
      subst there
      intro group listed
      exact groupsOk_dirty _ _ group ((env.groupOrder.perm _).mem_iff.mp listed)
  | advance env i =>
    simp only [Interleaved.step]
    split
    · exact ⟨updates, tasks⟩
    · rename_i task there
      refine ⟨fun u kept => ?_, fun task' listed => ?_⟩
      · dsimp only at kept ⊢
        rw [(recordVector_rest _ _).1] at kept
        rw [advance_schemas]
        exact updates u kept
      · dsimp only at listed ⊢
        rw [advance_schemas]
        rcases List.mem_or_eq_of_mem_set listed with kept | rfl
        · exact tasks task' kept
        · exact taskOk_advance registry env x.state (tasks task (List.mem_of_getElem? there))

end InFlight
end TronDB.Engine
