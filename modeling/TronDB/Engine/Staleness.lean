import TronDB.Engine.Numbered
import TronDB.Engine.Appended
import TronDB.Wal.Lsn

/-! Whether an engine that crashes and opens again still knows which representations are
stale. -/
namespace TronDB.Engine
open TronDB.Core Binary Wal Journal

/-! ### Stale representations -/

section Stale
variable (registry : Registry)

/-- A vector the entity has for the representation is not the encoding of its fields, or it has
none and there are fields to encode. -/
def isStale (collection : String) (stored : StoredRepresentation) (e : Entity) : Bool :=
  match registry collection stored.name with
  | none => false
  | some vectoriser =>
    let held := e.representations.filter fun r => r.name = stored.name
    !stored.fields.isEmpty &&
      if held.isEmpty then !(fieldSet stored e).isEmpty
      else held.any fun r =>
        match vectoriser.encode (fieldSet stored e) with
        | .ok vector => vector ≠ r.vector
        | .error _ => true

/-- The stale representations of an entity, by their indices in the schema. -/
def staleReprIndices (schema : Option CollectionSchema) (collection : String) (e : Entity) :
    List Nat :=
  match schema with
  | none => []
  | some schema =>
    (schema.representations.zipIdx.filter fun r => isStale registry collection r.1 e).map Prod.snd

/-- Every stale representation has a Dirty entry, and no entry is under way. -/
def StaleIsDirty (s : State) : Prop :=
  (∀ (c : String) (id : LogicalId) (e : Entity), s.store.entities[(c, id)]? = some e →
    ∀ j ∈ staleReprIndices registry s.schemas[c]? c e, s.location.state (id, j) = some .dirty) ∧
  ∀ k, s.location.state k ≠ some .recomputing ∧ s.location.state k ≠ some .migrating

variable {registry}

/-- An UPDATE leaves the representations as they are whose fields it does not assign. -/
theorem stale_assign {schema : Option CollectionSchema} {assignments : List (String × Literal)}
    {j : Nat} (clear : j ∉ dirtyReprIndices schema assignments) (collection : String) (e : Entity) :
    j ∈ staleReprIndices registry schema collection (assign e assignments) ↔
      j ∈ staleReprIndices registry schema collection e := by
  cases schema with
  | none => rfl
  | some schema =>
    cases declared : schema.representations[j]? with
    | none =>
      have nowhere (e' : Entity) : j ∉ staleReprIndices registry (some schema) collection e' := by
        intro listed
        obtain ⟨⟨r, i⟩, there, rfl⟩ := List.mem_map.mp listed
        have place := List.mem_zipIdx_iff_getElem?.mp (List.mem_filter.mp there).1
        cases declared.symm.trans place
      exact iff_of_false (nowhere _) (nowhere _)
    | some stored =>
      have place (e' : Entity) : j ∈ staleReprIndices registry (some schema) collection e' ↔
          isStale registry collection stored e' = true := by
        unfold staleReprIndices
        rw [List.mem_map]
        constructor
        · rintro ⟨⟨r, i⟩, there, rfl⟩
          obtain ⟨here, stale⟩ := List.mem_filter.mp there
          cases declared.symm.trans (List.mem_zipIdx_iff_getElem?.mp here)
          exact stale
        · exact fun stale =>
            ⟨(stored, j), List.mem_filter.mpr ⟨List.mem_zipIdx_iff_getElem?.mpr declared, stale⟩, rfl⟩
      rw [place, place]
      by_cases fields : stored.fields = []
      · simp [isStale, fields]
      · have untouched : ∀ f ∈ stored.fields, ∀ a ∈ assignments, a.1 ≠ f := fun f used a assigned same =>
          clear ((mem_dirtyReprIndices declared).mpr ⟨fields, f, used, a, assigned, same⟩)
        have same : fieldSet stored (assign e assignments) = fieldSet stored e := by
          unfold fieldSet
          refine List.filterMap_congr fun f used => ?_
          exact congrArg (Option.map fun v => (f, v)) (get_assigned _ e.metadata (untouched f used))
        unfold isStale
        rw [same]
        rfl

end Stale

/-! ### Tasks -/

/-- The batch goes to a collection that is there, under the entries of its copies. -/
def JobFits (schemas : FinMap String CollectionSchema) (job : Job) : Prop :=
  schemas.contains job.collection = true ∧ EntriesOk job.reprIdx job.entries

def TaskFits (schemas : FinMap String CollectionSchema) : Task → Prop
  | .groups rest => GroupsOk rest
  | .encoding job later rest =>
    JobFits schemas job ∧ (∀ j ∈ later, JobFits schemas j) ∧ GroupsOk rest
  | .writing job encoded later rest =>
    JobFits schemas job ∧ (∀ y ∈ encoded, y.key = (y.entity.id, job.reprIdx)) ∧
      (∀ j ∈ later, JobFits schemas j) ∧ GroupsOk rest
  | .failed _ => True

section Tasks
variable {schemas schemas' : FinMap String CollectionSchema}

theorem TaskFits.grown (grown : ∀ c, schemas.contains c = true → schemas'.contains c = true)
    {task : Task} (fits : TaskFits schemas task) : TaskFits schemas' task := by
  have jobs {job : Job} (fits : JobFits schemas job) : JobFits schemas' job := ⟨grown _ fits.1, fits.2⟩
  cases task with
  | groups rest => exact fits
  | encoding job later rest => exact ⟨jobs fits.1, fun j there => jobs (fits.2.1 j there), fits.2.2⟩
  | writing job encoded later rest =>
    exact ⟨jobs fits.1, fits.2.1, fun j there => jobs (fits.2.2.1 j there), fits.2.2.2⟩
  | failed e => trivial

theorem fits_startJobs (s : State) {rest : List Group} {jobs : List Job}
    (jobsFit : ∀ j ∈ jobs, JobFits schemas j) (groupsOk : GroupsOk rest) :
    TaskFits schemas (startJobs s rest jobs).2 := by
  cases jobs with
  | nil => exact groupsOk
  | cons job later =>
    obtain ⟨here, others⟩ := List.forall_mem_cons.mp jobsFit
    exact ⟨here, others, groupsOk⟩

theorem fits_encoded {job : Job} (fits : JobFits schemas job) {encoded : List Encoded}
    (done : job.encode = .ok encoded) : ∀ y ∈ encoded, y.key = (y.entity.id, job.reprIdx) := by
  unfold Job.encode at done
  split at done
  · cases done
  · cases done
    intro y listed
    obtain ⟨ev, there, rfl⟩ := List.mem_map.mp listed
    exact fits.2 ev.1 (List.of_mem_zip there).1

theorem taskFits_advance [WalPayload Payload] (env : RecomputeEnv) (s : State) {task : Task}
    (fits : TaskFits s.schemas task) : TaskFits s.schemas (advance env s task).2 := by
  cases task with
  | groups rest =>
    cases rest with
    | nil => exact fits
    | cons group rest =>
      have entries : EntriesOk group.1.2 group.2 := fits group List.mem_cons_self
      have opened := jobsOk_open (s := s) env.vectoriser env entries
      refine fits_startJobs s (fun job there => ?_) fun g later => fits g (List.mem_cons_of_mem _ later)
      have ok : JobOk env.vectoriser s.schemas job := opened job there
      obtain ⟨schema, known, -⟩ := ok.stored
      refine ⟨?_, ok.entries⟩
      rw [Std.ExtTreeMap.contains_eq_isSome_getElem?, known]
      rfl
  | encoding job later rest =>
    obtain ⟨jobFits, laterFit, restOk⟩ := fits
    simp only [advance]
    split
    · exact fits_startJobs s laterFit restOk
    · rename_i done
      exact ⟨jobFits, fits_encoded jobFits done, laterFit, restOk⟩
  | writing job encoded later rest =>
    obtain ⟨jobFits, encodedOk, laterFit, restOk⟩ := fits
    cases encoded with
    | nil => exact fits_startJobs s laterFit restOk
    | cons y encoded =>
      simp only [advance]
      split
      · exact ⟨jobFits, fun y' there => encodedOk y' (List.mem_cons_of_mem _ there), laterFit, restOk⟩
      · trivial
  | failed e => trivial

end Tasks

/-! ### Sessions -/

section Sessions
variable [WalPayload Payload] (registry : Registry)

/-- Where the engine crashes now, it opens again with every stale representation Dirty. -/
def SurvivesRestart (x : Session) : Prop :=
  ∀ (config : WalConfig) (order : HashOrder (Nat × List (WalRecord Payload))),
    ∃ engine unhandled, openEngine config order x.engine.disk = .ok (engine, unhandled) ∧
      StaleIsDirty registry engine.state

/-- New collections, INSERT, UPDATE, changes of representations, recomputes, snapshots, and
openings that find the end of the log. -/
def Session.Admits (x : Session) : Event → Prop
  | .write _ (.createCollection p) => x.engine.state.store.hasCollection p.name = false
  | .write _ (.alterCollection p) => OnRepresentations p.operation
  | .write _ (.insert _) | .write _ (.updateEntity _) | .startRecompute _ | .advance _ _
  | .saveLocation | .saveHnsw _ => True
  | .reopen config _ => ReopenGuard x.engine.state.wal (.reopen config)
  | _ => False

/-- The representation behind the copy's last one, and the log has it Dirty. -/
def LogHasDirty (x : Session) (e : Entity) (j : Nat) : Prop :=
  e.representations.length ≤ j ∧ x.engine.told (e.id, j) = some .dirty

/-- What a write of a copy cleans in the log is not stale: not in the copy, unless it lies behind
its last representation and is Dirty in the log, nor in namesakes of the entity. -/
def CleansFresh (x : Session) (collection : String) (e : Entity) : Prop :=
  (∀ j ∈ staleReprIndices registry x.engine.state.schemas[collection]? collection e, LogHasDirty x e j) ∧
  ∀ other e', Namesake x.engine.state collection e.id other e' →
    ∀ j ∈ staleReprIndices registry x.engine.state.schemas[other]? other e',
      e.representations.length ≤ j

/-- An INSERT and a recompute clean in the log what is fresh. An UPDATE leaves stale what has an
entry in the log or the saved table. A change of representations leaves stale what is Dirty there.
The table is saved when every entry under way has been written since the engine opened. -/
def KeepsStaleness (x : Session) : Event → Prop
  | .write env (.insert p) => ∀ schema e, x.engine.state.schemas[p.collection]? = some schema →
      checkVectors schema p.collection p.vectors = .ok () →
      buildEntity env schema p (p.target env) = .ok e → CleansFresh registry x p.collection e
  | .write _ (.updateEntity p) => ∀ old,
      x.engine.state.store.entities[(p.collection, p.entityId)]? = some old →
      ∀ j ∈ dirtyReprIndices x.engine.state.schemas[p.collection]? p.assignments,
        j ∈ staleReprIndices registry x.engine.state.schemas[p.collection]? p.collection
          (assign old p.assignments) →
        x.engine.told (p.entityId, j) ≠ none
  | .write _ (.alterCollection p) => ∀ schema, x.engine.state.schemas[p.collection]? = some schema →
      checkAlter schema p.collection p.operation = .ok () →
      ∀ id e, x.engine.state.store.entities[(p.collection, id)]? = some e →
        ∀ j ∈ staleReprIndices registry (some (alterSchema schema p.operation)) p.collection e,
          x.engine.told (id, j) = some .dirty
  | .advance env i => ∀ job y encoded later rest,
      x.tasks[i]? = some (.writing job (y :: encoded) later rest) →
      CleansFresh registry x job.collection (job.refreshed env.toEnv y)
  | .saveLocation => ∀ k, x.engine.state.location.state k = some .recomputing →
      x.engine.sinceOpen.any (covers k) = true
  | _ => True

/-! ### The log and the table -/

omit [WalPayload Payload] in
/-- The state of an entry follows what is appended: it is there when the log speaks of it, and not
Clean when the log leaves it Dirty, wherever that held before. -/
structure Follows (added : List Logged) (k : ReprKey) (s s' : Option LocState) : Prop where
  unmoved : s' ≠ some .migrating
  there : ∀ t, added.foldl (entryAfter k) t ≠ none → (t ≠ none → s ≠ none) → s' ≠ none
  dirty : ∀ t, added.foldl (entryAfter k) t = some .dirty →
    (t = some .dirty → s ≠ some .clean) → s' ≠ some .clean

/-- The table in memory against what the log tells, from the saved table on or from the opening
on, whatever the entry was then. -/
structure Restartable (x : Session) : Prop where
  sound : x.Sound
  resumable : Resumable x.engine
  unmoved : ∀ k, x.engine.state.location.state k ≠ some .migrating
  told : ∀ k, x.engine.told k ≠ none → x.engine.state.location.state k ≠ none
  toldDirty : ∀ k, x.engine.told k = some .dirty → x.engine.state.location.state k ≠ some .clean
  heard : ∀ k, x.engine.sinceOpen.foldl (entryAfter k) none ≠ none →
    x.engine.state.location.state k ≠ none
  heardDirty : ∀ k, x.engine.sinceOpen.foldl (entryAfter k) (some .clean) = some .dirty →
    x.engine.state.location.state k ≠ some .clean
  tasks : ∀ task ∈ x.tasks, TaskFits x.engine.state.schemas task

/-- Every stale representation is Dirty in the log, and no entry is under way there. -/
def LogHasStale (x : Session) : Prop :=
  (∀ (c : String) (id : LogicalId) (e : Entity),
    x.engine.state.store.entities[(c, id)]? = some e →
    ∀ j ∈ staleReprIndices registry x.engine.state.schemas[c]? c e,
      x.engine.told (id, j) = some .dirty) ∧
  ∀ k, x.engine.told k ≠ some .recomputing ∧ x.engine.told k ≠ some .migrating

variable {registry}

theorem survives_iff {x : Session} (restartable : Restartable x) :
    SurvivesRestart registry x ↔ LogHasStale registry x := by
  have opened (config : WalConfig) (order : HashOrder (Nat × List (WalRecord Payload))) :
      ∃ engine unhandled, openEngine config order x.engine.disk = .ok (engine, unhandled) ∧
        (StaleIsDirty registry engine.state ↔ LogHasStale registry x) := by
    obtain ⟨engine, unhandled, opened, location, data, schemas, -⟩ :=
      opens_as_said restartable.resumable config order
    refine ⟨engine, unhandled, opened, ?_⟩
    have entities : engine.state.store.entities = x.engine.state.store.entities :=
      congrArg Data.entities data
    simp only [StaleIsDirty, LogHasStale, entities, schemas, location]
  constructor
  · intro survives
    obtain ⟨engine, unhandled, done, same⟩ := opened default (.insertionOrder _)
    obtain ⟨engine', unhandled', done', stale⟩ := survives default (.insertionOrder _)
    cases done.symm.trans done'
    exact same.mp stale
  · intro has config order
    obtain ⟨engine, unhandled, done, same⟩ := opened config order
    exact ⟨engine, unhandled, done, same.mpr has⟩

theorem Restartable.appended {x : Session} (restartable : Restartable x) {s : State}
    {inserts : List PendingInsert} {tasks : List Task} {added : List Logged}
    (sound : Session.Sound ⟨{ x.engine with state := s }, inserts, tasks⟩)
    (appends : Appends x.engine.state s added) (plain : ∀ l ∈ added, Plain l)
    (follows : ∀ k, Follows added k (x.engine.state.location.state k) (s.location.state k))
    (fits : ∀ task ∈ tasks, TaskFits s.schemas task) :
    Restartable ⟨{ x.engine with state := s }, inserts, tasks⟩ ∧
      ∀ k, OpenEngine.told { x.engine with state := s } k =
        added.foldl (entryAfter k) (x.engine.told k) := by
  have sequential := restartable.resumable.historic.tracked.sequential
  have head := restartable.resumable.head
  have saved := restartable.resumable.saved
  obtain ⟨historic, grown⟩ :=
    historic_performed restartable.resumable.historic appends.toPerformed sound.synced
  have told (k : ReprKey) : OpenEngine.told { x.engine with state := s } k =
      added.foldl (entryAfter k) (x.engine.told k) := by
    have after := appends.after sequential x.engine.disk.snapLsn (by omega)
    refine (congrArg (List.foldl (entryAfter k) (x.engine.disk.location.state k)) after).trans ?_
    rw [List.foldl_append]
    rfl
  have since : OpenEngine.sinceOpen { x.engine with state := s } = x.engine.sinceOpen ++ added :=
    appends.after sequential x.engine.walHead head
  have next := appends.next sequential
  refine ⟨⟨sound, ⟨historic, fun l listed => ?_, appends.tight sequential restartable.resumable.tight,
    by dsimp only; omega, saved, restartable.resumable.unmoved⟩, fun k => (follows k).unmoved,
    fun k some_ => ?_, fun k dirty => ?_, fun k some_ => ?_, fun k dirty => ?_, fits⟩, told⟩
  · dsimp only at listed
    rw [grown] at listed
    exact (List.mem_append.mp listed).elim (restartable.resumable.plain l) (plain l)
  · rw [told] at some_
    exact (follows k).there _ some_ (restartable.told k)
  · rw [told] at dirty
    exact (follows k).dirty _ dirty (restartable.toldDirty k)
  · rw [since, List.foldl_append] at some_
    exact (follows k).there _ some_ (restartable.heard k)
  · rw [since, List.foldl_append] at dirty
    exact (follows k).dirty _ dirty (restartable.heardDirty k)

omit [WalPayload Payload] in
theorem follows_quiet {added : List Logged} {k : ReprKey} (silent : ∀ t, added.foldl (entryAfter k) t = t)
    {s s' : Option LocState} (unmoved : s ≠ some .migrating)
    (moves : s' = s ∨ s' = some .dirty ∨ s = some .dirty ∧ s' = some .recomputing) :
    Follows added k s s' := by
  refine ⟨?_, fun t some_ => ?_, fun t dirty => ?_⟩
  · rcases moves with rfl | rfl | ⟨-, rfl⟩ <;> simp [unmoved]
  · rw [silent] at some_
    rcases moves with rfl | rfl | ⟨-, rfl⟩ <;> simp [some_]
  · rw [silent] at dirty
    rcases moves with rfl | rfl | ⟨-, rfl⟩ <;> simp [dirty]

omit [WalPayload Payload] in
theorem follows_clean {added : List Logged} {k : ReprKey} {p : Prop} [Decidable p]
    (does : ∀ t, added.foldl (entryAfter k) t = if p then some .clean else t) {s s' : Option LocState}
    (unmoved : s ≠ some .migrating) (moves : s' = if p then some .clean else s) :
    Follows added k s s' := by
  subst moves
  by_cases here : p
  · simp only [here, if_true] at does ⊢
    refine ⟨by simp, fun _ _ _ => by simp, fun t dirty => ?_⟩
    rw [does] at dirty
    cases dirty
  · simp only [here, if_false] at does ⊢
    exact follows_quiet does unmoved (.inl rfl)

omit [WalPayload Payload] in
theorem follows_dirtied {added : List Logged} {k : ReprKey} {p : Prop} [Decidable p]
    (does : ∀ t, added.foldl (entryAfter k) t = if p then t.map dirtied else t) {s s' : Option LocState}
    (unmoved : s ≠ some .migrating) (moves : s' = if p then s.map dirtied else s) :
    Follows added k s s' := by
  subst moves
  by_cases here : p
  · simp only [here, if_true] at does ⊢
    refine ⟨?_, fun t some_ before => ?_, fun _ _ _ => ?_⟩
    · rcases s with _ | (_ | _ | _ | _) <;> simp [dirtied] at unmoved ⊢
    · rw [does] at some_
      have held := before (by rintro rfl; exact some_ rfl)
      rcases s with _ | s
      · exact absurd rfl held
      · simp
    · rcases s with _ | (_ | _ | _ | _) <;> simp [dirtied]
  · simp only [here, if_false] at does ⊢
    exact follows_quiet does unmoved (.inl rfl)

/-! ### Statements -/

omit [WalPayload Payload] in
theorem housed {s : State} (owned : (dataOf s.store).Owned) {c : String} {id : LogicalId} {e : Entity}
    (stored : s.store.entities[(c, id)]? = some e) : s.store.hasCollection c = true := by
  rw [Store.hasCollection_eq]
  cases found : s.store.collections[c]? with
  | some schema => rfl
  | none =>
    have nothing := owned.collections c found
    have item := congrFun (congrArg Container.items nothing) id
    cases stored.symm.trans item

theorem Restartable.owned {x : Session} (restartable : Restartable x) :
    (dataOf x.engine.state.store).Owned := by
  rw [restartable.resumable.historic.faithful]
  exact Data.owned_foldl _ Data.owned_empty

theorem put_keeps_iff {x x' : Session} (has : LogHasStale registry x) (collection : String) (e : Entity)
    (entities : ∀ key, x'.engine.state.store.entities[key]? =
      if (collection, e.id) = key then some e else x.engine.state.store.entities[key]?)
    (schemas : x'.engine.state.schemas = x.engine.state.schemas)
    (covered : ∀ k : ReprKey, e.id = k.1 ∧ k.2 < e.representations.length →
      x'.engine.told k = none ∨ x'.engine.told k = some .clean)
    (other : ∀ k : ReprKey, ¬ (e.id = k.1 ∧ k.2 < e.representations.length) →
      x'.engine.told k = x.engine.told k) :
    LogHasStale registry x' ↔ CleansFresh registry x collection e := by
  have behind {j : Nat} (dirty : x'.engine.told (e.id, j) = some .dirty) :
      e.representations.length ≤ j ∧ x.engine.told (e.id, j) = some .dirty := by
    by_cases short : j < e.representations.length
    · rcases covered (e.id, j) ⟨rfl, short⟩ with none_ | clean
      · cases none_.symm.trans dirty
      · cases clean.symm.trans dirty
    · exact ⟨Nat.le_of_not_lt short, (other (e.id, j) fun both => short both.2) ▸ dirty⟩
  constructor
  · rintro ⟨stale, -⟩
    refine ⟨fun j listed => ?_, fun c e' shared j listed => ?_⟩
    · refine behind (stale collection e.id e ?_ j (schemas ▸ listed))
      rw [entities, if_pos rfl]
    · refine (behind (stale c e.id e' ?_ j (schemas ▸ listed))).1
      rw [entities, if_neg fun same => shared.1 (Prod.mk.inj same).1.symm]
      exact shared.2
  · rintro ⟨own, shared⟩
    refine ⟨fun c id e' stored j listed => ?_, fun k => ?_⟩
    · rw [schemas] at listed
      rw [entities] at stored
      split at stored
      · rename_i here
        cases here
        cases stored
        obtain ⟨past, dirty⟩ := own j listed
        rw [other _ fun both => absurd both.2 (Nat.not_lt.mpr past)]
        exact dirty
      · rename_i elsewhere
        have before := has.1 c id e' stored j listed
        by_cases same : e.id = id
        · subst same
          have past := shared c e' ⟨fun here => elsewhere (by rw [here]), stored⟩ j listed
          rw [other _ fun both => absurd both.2 (Nat.not_lt.mpr past)]
          exact before
        · rw [other _ fun both => same both.1]
          exact before
    · by_cases here : e.id = k.1 ∧ k.2 < e.representations.length
      · rcases covered k here with none_ | clean
        · rw [none_]
          simp
        · rw [clean]
          simp
      · rw [other k here]
        exact has.2 k

theorem insert_keeps {x : Session} (restartable : Restartable x) (has : LogHasStale registry x)
    (env : Env) (p : InsertPlan) :
    ∃ x', x.step (.write env (.insert p)) = some x' ∧ Restartable x' ∧
      (LogHasStale registry x' ↔ KeepsStaleness registry x (.write env (.insert p))) := by
  have sound := restartable.sound.step (.write env (.insert p)) rfl
  have schemas := (sameSchemas_insert env x.engine.state p).schemas
  have fits : ∀ task ∈ x.tasks, TaskFits (insert env x.engine.state p).2.schemas task := by
    rw [schemas]
    exact restartable.tasks
  refine ⟨_, rfl, ?_⟩
  rcases insert_appends env restartable.sound.synced p with
    ⟨appends, entities, location, unbuilt⟩ |
    ⟨schema, e, known, checked, built, appends, entities, location⟩
  · obtain ⟨after, told⟩ := restartable.appended sound appends (by simp)
      (fun k => follows_quiet (fun _ => rfl) (restartable.unmoved k) (.inl (by rw [← location]; rfl))) fits
    refine ⟨after, iff_of_true ?_ fun schema e known checked built =>
      absurd built (unbuilt schema e known checked)⟩
    refine ⟨fun c id e stored j listed => ?_, fun k => ?_⟩
    · refine (told (id, j)).trans (has.1 c id e (entities ▸ stored) j ?_)
      have same : (insert env x.engine.state p).2.schemas = x.engine.state.schemas := schemas
      exact same ▸ listed
    · have same : _ = x.engine.told k := told k
      exact same ▸ has.2 k
  · have id_ := id_of_built built
    have does (k : ReprKey) (t : Option LocState) :
        (filed p.collection (insertEntries { e with txTime := x.engine.state.wal.nextTx })).foldl
            (entryAfter k) t =
          if e.id = k.1 ∧ k.2 < e.representations.length then some .clean else t := by
      have located := told_locations k p.collection
        (locationEntries_clean { e with txTime := x.engine.state.wal.nextTx }) t
      rw [if_congr (mem_locationEntries k _) rfl rfl] at located
      exact located
    have moves (k : ReprKey) : (insert env x.engine.state p).2.location.state k =
        if e.id = k.1 ∧ k.2 < e.representations.length then some .clean
        else x.engine.state.location.state k := by
      rw [location, state_registerAll k (locationEntries_clean _), if_congr (mem_locationEntries k _) rfl rfl]
    have plain : ∀ l ∈ filed p.collection
        (insertEntries { e with txTime := x.engine.state.wal.nextTx }), Plain l := by
      intro l listed
      obtain ⟨entry, there, rfl⟩ := List.mem_map.mp listed
      rcases List.mem_cons.mp there with rfl | located
      · trivial
      · obtain ⟨kd, among, rfl⟩ := List.mem_map.mp located
        exact locationEntries_clean _ kd among
    obtain ⟨after, told⟩ := restartable.appended sound appends plain
      (fun k => follows_clean (does k) (restartable.unmoved k) (moves k)) fits
    refine ⟨after, (put_keeps_iff has p.collection { e with txTime := x.engine.state.wal.nextTx }
      (fun key => ?_) schemas (fun k here => .inr ?_) fun k there => ?_).trans ?_⟩
    · rw [← FinMap.get_insert]
      exact congrArg (·[key]?) entities
    · exact (told k).trans ((does k _).trans (if_pos here))
    · exact (told k).trans ((does k _).trans (if_neg there))
    · constructor
      · intro cleans schema' e' known' checked' built'
        cases known.symm.trans known'
        cases built.symm.trans built'
        exact cleans
      · exact fun keeps => keeps schema e known checked built

theorem update_keeps {x : Session} (restartable : Restartable x) (has : LogHasStale registry x)
    (env : Env) (p : UpdateEntityPlan) :
    ∃ x', x.step (.write env (.updateEntity p)) = some x' ∧ Restartable x' ∧
      (LogHasStale registry x' ↔ KeepsStaleness registry x (.write env (.updateEntity p))) := by
  have sound := restartable.sound.step (.write env (.updateEntity p)) rfl
  have schemas := (sameSchemas_updateEntity env x.engine.state p).schemas
  have fits : ∀ task ∈ x.tasks, TaskFits (updateEntity env x.engine.state p).2.schemas task := by
    rw [schemas]
    exact restartable.tasks
  refine ⟨_, rfl, ?_⟩
  rcases updateEntity_appends env x.engine.state p with
    ⟨same, missing⟩ | ⟨old, stored, appends, entities, location⟩
  · have unchanged : (perform env x.engine.state (.updateEntity p)).2 = x.engine.state := same
    rw [unchanged]
    refine ⟨restartable, iff_of_true has fun old stored => ?_⟩
    refine absurd ?_ (missing old)
    exact (x.engine.state.store.get_eq_ok ..).mpr ⟨housed restartable.owned stored, stored⟩
  · have own : (assign old p.assignments).id = p.entityId :=
      show old.id = p.entityId from x.engine.state.store.keyed _ _ _ stored
    generalize dirty_ : dirtyReprIndices x.engine.state.schemas[p.collection]? p.assignments = dirty
      at appends location
    have asked (k : ReprKey) : k ∈ dirty.map (p.entityId, ·) ↔ p.entityId = k.1 ∧ k.2 ∈ dirty := by
      rw [List.mem_map]
      constructor
      · rintro ⟨j, listed, rfl⟩
        exact ⟨rfl, listed⟩
      · rintro ⟨here, listed⟩
        exact ⟨k.2, listed, Prod.ext here rfl⟩
    have does (k : ReprKey) (t : Option LocState) :
        (filed p.collection (updateEntries (assign old p.assignments) dirty)).foldl (entryAfter k) t =
          if p.entityId = k.1 ∧ k.2 ∈ dirty then t.map dirtied else t := by
      have told := told_dirtied k p.collection (dirty.map ((assign old p.assignments).id, ·)) t
      rw [own, if_congr (asked k) rfl rfl] at told
      rw [updateEntries, own]
      exact told
    have moves (k : ReprKey) : (updateEntity env x.engine.state p).2.location.state k =
        if p.entityId = k.1 ∧ k.2 ∈ dirty then (x.engine.state.location.state k).map dirtied
        else x.engine.state.location.state k := by
      rw [location, state_dirtied, if_congr (asked k) rfl rfl]
    have plain : ∀ l ∈ filed p.collection (updateEntries (assign old p.assignments) dirty), Plain l := by
      intro l listed
      obtain ⟨entry, there, rfl⟩ := List.mem_map.mp listed
      rcases List.mem_cons.mp there with rfl | marked
      · trivial
      · obtain ⟨key, -, rfl⟩ := List.mem_map.mp marked
        trivial
    obtain ⟨after, told⟩ := restartable.appended sound appends plain
      (fun k => follows_dirtied (does k) (restartable.unmoved k) (moves k)) fits
    have now (k : ReprKey) : (x.withState (perform env x.engine.state (.updateEntity p)).2).engine.told k =
        if p.entityId = k.1 ∧ k.2 ∈ dirty then (x.engine.told k).map dirtied else x.engine.told k :=
      (told k).trans (does k _)
    have stays {k : ReprKey} (before : x.engine.told k = some .dirty) :
        (x.withState (perform env x.engine.state (.updateEntity p)).2).engine.told k = some .dirty := by
      rw [now, before]
      split <;> rfl
    have stored' (key : String × LogicalId) :
        (x.withState (perform env x.engine.state (.updateEntity p)).2).engine.state.store.entities[key]? =
          if (p.collection, p.entityId) = key then some (assign old p.assignments)
          else x.engine.state.store.entities[key]? := by
      rw [← FinMap.get_insert]
      exact congrArg (·[key]?) entities
    have same : (x.withState (perform env x.engine.state (.updateEntity p)).2).engine.state.schemas =
        x.engine.state.schemas := schemas
    refine ⟨after, ?_⟩
    constructor
    · rintro ⟨stale, -⟩ old' there j listed stale_ none_
      cases stored.symm.trans there
      rw [dirty_] at listed
      have dirty' := stale p.collection p.entityId _ (by rw [stored', if_pos rfl]) j (same ▸ stale_)
      rw [now, if_pos ⟨rfl, listed⟩, none_] at dirty'
      cases dirty'
    · intro keeps
      refine ⟨fun c id e there j listed => ?_, fun k => ?_⟩
      · rw [same] at listed
        rw [stored'] at there
        split at there
        · rename_i here
          cases here
          cases there
          by_cases assigned : j ∈ dirty
          · have known := keeps old stored j (dirty_.symm ▸ assigned) listed
            have rests := has.2 (p.entityId, j)
            rw [now, if_pos ⟨rfl, assigned⟩]
            generalize x.engine.told (p.entityId, j) = t at known rests
            rcases t with _ | (_ | _ | _ | _) <;> simp [dirtied] at known rests ⊢
          · refine stays (has.1 p.collection p.entityId old stored j ?_)
            exact (stale_assign (dirty_.symm ▸ assigned) p.collection old).mp listed
        · exact stays (has.1 c id e there j listed)
      · rw [now]
        have rests := has.2 k
        split
        · generalize x.engine.told k = t at rests
          rcases t with _ | (_ | _ | _ | _) <;> simp [dirtied] at rests ⊢
        · exact rests

theorem alter_keeps {x : Session} (restartable : Restartable x) (has : LogHasStale registry x)
    (env : Env) (p : AlterCollectionPlan) (on : OnRepresentations p.operation) :
    ∃ x', x.step (.write env (.alterCollection p)) = some x' ∧ Restartable x' ∧
      (LogHasStale registry x' ↔ KeepsStaleness registry x (.write env (.alterCollection p))) := by
  have sound := restartable.sound.step (.write env (.alterCollection p)) rfl
  refine ⟨_, rfl, ?_⟩
  rcases alterCollection_appends env restartable.sound.synced p on with
    ⟨same, refused⟩ | ⟨schema, known, checked, appends, entities, schemas, location⟩
  · have unchanged : (perform env x.engine.state (.alterCollection p)).2 = x.engine.state := same
    rw [unchanged]
    exact ⟨restartable, iff_of_true has fun schema known checked => absurd checked (refused schema known)⟩
  · have plain : ∀ l ∈ filed p.collection [(.schemaAlter, .schemaAlter p.collection p.operation)],
        Plain l := by
      intro l listed
      cases List.mem_singleton.mp listed
      intro fields
      revert on
      cases p.operation <;> first | exact fun _ => rfl | exact fun on => on.elim
    have grown (c : String) (there : x.engine.state.schemas.contains c = true) :
        (alterCollection env x.engine.state p).2.schemas.contains c = true := by
      rw [schemas]
      exact FinMap.contains_insert _ _ _ _ there
    obtain ⟨after, told⟩ := restartable.appended sound appends plain
      (fun k => follows_quiet (fun _ => rfl) (restartable.unmoved k)
        ((location k).imp_right .inl))
      fun task there => (restartable.tasks task there).grown grown
    have now (k : ReprKey) :
        (x.withState (perform env x.engine.state (.alterCollection p)).2).engine.told k =
          x.engine.told k := told k
    have stored : (x.withState (perform env x.engine.state
        (.alterCollection p)).2).engine.state.store.entities = x.engine.state.store.entities := entities
    have altered (c : String) : (x.withState (perform env x.engine.state
        (.alterCollection p)).2).engine.state.schemas[c]? =
          if p.collection = c then some (alterSchema schema p.operation)
          else x.engine.state.schemas[c]? := by
      rw [← FinMap.get_insert]
      exact congrArg (·[c]?) schemas
    refine ⟨after, ?_⟩
    constructor
    · rintro ⟨stale, -⟩ schema' known' - id e there j listed
      cases known.symm.trans known'
      refine (now _).symm.trans (stale p.collection id e (stored ▸ there) j ?_)
      rw [altered, if_pos rfl]
      exact listed
    · intro keeps
      refine ⟨fun c id e there j listed => ?_, fun k => by rw [now]; exact has.2 k⟩
      rw [stored] at there
      rw [altered] at listed
      rw [now]
      split at listed
      · rename_i here
        subst here
        exact keeps schema known checked id e there j listed
      · exact has.1 c id e there j listed

theorem create_keeps {x : Session} (restartable : Restartable x) (has : LogHasStale registry x)
    (env : Env) (p : CreateCollectionPlan)
    (absent : x.engine.state.store.hasCollection p.name = false) :
    ∃ x', x.step (.write env (.createCollection p)) = some x' ∧ Restartable x' ∧
      LogHasStale registry x' := by
  have sound := restartable.sound.step (.write env (.createCollection p)) rfl
  obtain ⟨added, appends, plain, silent, schemas⟩ := createCollection_appends env p absent
  obtain ⟨location, entities⟩ := location_createCollection env x.engine.state p
  have other {c : String} (there : x.engine.state.store.hasCollection c = true) : p.name ≠ c := by
    rintro rfl
    cases absent.symm.trans there
  have grown (c : String) (there : x.engine.state.schemas.contains c = true) :
      (createCollection env x.engine.state p).2.schemas.contains c = true := by
    have present : x.engine.state.store.hasCollection c = true := by
      rw [restartable.sound.synced.schemas] at there
      exact there
    rw [Std.ExtTreeMap.contains_eq_isSome_getElem?] at there ⊢
    rw [schemas c (other present)]
    exact there
  obtain ⟨after, told⟩ := restartable.appended sound appends plain
    (fun k => follows_quiet (silent k) (restartable.unmoved k) (.inl (by rw [← location]; rfl)))
    fun task there => (restartable.tasks task there).grown grown
  have now (k : ReprKey) :
      (x.withState (perform env x.engine.state (.createCollection p)).2).engine.told k =
        x.engine.told k := (told k).trans (silent k _)
  have stored : (x.withState (perform env x.engine.state
      (.createCollection p)).2).engine.state.store.entities = x.engine.state.store.entities := entities
  refine ⟨_, rfl, after, fun c id e there j listed => ?_, fun k => by rw [now]; exact has.2 k⟩
  rw [stored] at there
  have same : (x.withState (perform env x.engine.state
      (.createCollection p)).2).engine.state.schemas[c]? = x.engine.state.schemas[c]? :=
    schemas c (other (housed restartable.owned there))
  rw [now]
  exact has.1 c id e there j (same ▸ listed)

/-! ### Recomputes -/

omit [WalPayload Payload] in
theorem follows_cleaned {added : List Logged} {k : ReprKey} {p : Prop} [Decidable p]
    (does : ∀ t, added.foldl (entryAfter k) t = if p then t.map cleaned else t) {s s' : Option LocState}
    (unmoved : s ≠ some .migrating) (moves : s' = s ∨ p ∧ s = some .recomputing ∧ s' = some .clean) :
    Follows added k s s' := by
  by_cases here : p
  · simp only [here, if_true, true_and] at does moves
    refine ⟨?_, fun t some_ before => ?_, fun t dirty => ?_⟩
    · rcases moves with rfl | ⟨-, rfl⟩
      · exact unmoved
      · simp
    · rw [does] at some_
      have held := before (by rintro rfl; exact some_ rfl)
      rcases moves with rfl | ⟨-, rfl⟩
      · exact held
      · simp
    · rw [does] at dirty
      rcases t with _ | (_ | _ | _ | _) <;> simp [cleaned] at dirty
  · simp only [here, if_false, false_and, or_false] at does moves
    exact follows_quiet does unmoved (.inl moves)

theorem advance_keeps {x : Session} (restartable : Restartable x) (has : LogHasStale registry x)
    (env : RecomputeEnv) (i : Nat) :
    ∃ x', x.step (.advance env i) = some x' ∧ Restartable x' ∧
      (LogHasStale registry x' ↔ KeepsStaleness registry x (.advance env i)) := by
  cases found : x.tasks[i]? with
  | none =>
    refine ⟨x, by simp only [Session.step, found], restartable, iff_of_true has ?_⟩
    intro job y encoded later rest there
    cases found.symm.trans there
  | some task =>
    have stepped : x.step (.advance env i) = some { x.withState (advance env x.engine.state task).1 with
        tasks := x.tasks.set i (advance env x.engine.state task).2 } := by
      simp only [Session.step, found]
    have sound := restartable.sound.step _ stepped
    have fitting := restartable.tasks task (List.mem_of_getElem? found)
    have schemas := advance_schemas env x.engine.state task
    have fits : ∀ task' ∈ x.tasks.set i (advance env x.engine.state task).2,
        TaskFits (advance env x.engine.state task).1.schemas task' := by
      rw [schemas]
      intro task' listed
      rcases List.mem_or_eq_of_mem_set listed with older | rfl
      · exact restartable.tasks task' older
      · exact taskFits_advance env x.engine.state fitting
    refine ⟨_, stepped, ?_⟩
    by_cases quiet : ∀ job y encoded later rest, task ≠ .writing job (y :: encoded) later rest
    · obtain ⟨location, marked, moves⟩ := advance_marks env x.engine.state task quiet
      rw [marked] at sound fits ⊢
      obtain ⟨after, told⟩ := restartable.appended sound (appends_nothing rfl rfl) (by simp)
        (fun k => follows_quiet (fun _ => rfl) (restartable.unmoved k) ((moves k).imp_right .inr)) fits
      refine ⟨after, iff_of_true ⟨fun c id e there j listed => (told _).trans (has.1 c id e there j listed),
        fun k => (told k).symm ▸ has.2 k⟩ fun job y encoded later rest there => ?_⟩
      cases found.symm.trans there
      exact absurd rfl (quiet job y encoded later rest)
    · push Not at quiet
      obtain ⟨job, y, encoded, later, rest, rfl⟩ := quiet
      obtain ⟨jobFits, keys, -⟩ := fitting
      have key : y.key = (y.entity.id, job.reprIdx) := keys y List.mem_cons_self
      have present : x.engine.state.store.hasCollection job.collection = true := by
        rw [Store.hasCollection, ← restartable.sound.synced.schemas]
        exact jobFits.1
      obtain ⟨store, location, -⟩ := writeBack_put job env.toEnv y present
      have appends := writeBack_appends job env.toEnv y present
      have does (k : ReprKey) (t : Option LocState) :
          (filed job.collection [(.reprWrite, .entity (job.refreshed env.toEnv y))]).foldl
              (entryAfter k) t =
            if (job.refreshed env.toEnv y).id = k.1 ∧
              k.2 < (job.refreshed env.toEnv y).representations.length then t.map cleaned else t := rfl
      have long : job.reprIdx < (job.refreshed env.toEnv y).representations.length := by
        obtain ⟨r, there, -⟩ := refresh_at y.entity job.reprIdx job.stored
          (env.recipeHash job.vectoriser.modelId job.stored.fields) y.vector
        exact (List.getElem?_eq_some_iff.mp there).1
      have moves (k : ReprKey) : (job.writeBack env.toEnv x.engine.state y).2.location.state k =
            x.engine.state.location.state k ∨
          ((job.refreshed env.toEnv y).id = k.1 ∧
              k.2 < (job.refreshed env.toEnv y).representations.length) ∧
            x.engine.state.location.state k = some .recomputing ∧
            (job.writeBack env.toEnv x.engine.state y).2.location.state k = some .clean := by
        rw [location, LocationTable.state_tryTransition]
        have unmoved := restartable.unmoved k
        split
        · rename_i here
          have covered : (job.refreshed env.toEnv y).id = k.1 ∧
              k.2 < (job.refreshed env.toEnv y).representations.length := by
            rw [← here, key]
            exact ⟨rfl, long⟩
          generalize x.engine.state.location.state k = s at unmoved
          rcases s with _ | (_ | _ | _ | _) <;> simp [canTransitionTo, covered] at unmoved ⊢
        · exact .inl rfl
      rw [advance_write] at sound fits ⊢
      obtain ⟨after, told⟩ := restartable.appended sound appends
        (by intro l listed; cases List.mem_singleton.mp listed; trivial)
        (fun k => follows_cleaned (does k) (restartable.unmoved k) (moves k)) fits
      refine ⟨after, (put_keeps_iff has job.collection (job.refreshed env.toEnv y) (fun key => ?_)
        (advance_write env x.engine.state job y encoded later rest ▸ schemas) (fun k here => ?_)
        fun k there => ?_).trans ?_⟩
      · dsimp only [Session.withState]
        rw [store]
        exact Store.get_putEntity _ _ _ _
      · have now := (told k).trans ((does k _).trans (if_pos here))
        have rests := has.2 k
        have done : (x.engine.told k).map cleaned = none ∨
            (x.engine.told k).map cleaned = some .clean := by
          generalize x.engine.told k = t at rests
          rcases t with _ | (_ | _ | _ | _) <;> simp [cleaned] at rests ⊢
        exact done.imp now.trans now.trans
      · exact (told k).trans ((does k _).trans (if_neg there))
      · constructor
        · intro cleans job' y' encoded' later' rest' there
          cases found.symm.trans there
          exact cleans
        · exact fun keeps => keeps job y encoded later rest found

/-! ### Saving and opening -/

theorem save_keeps {x : Session} (restartable : Restartable x) (has : LogHasStale registry x) :
    ∃ x', x.step .saveLocation = some x' ∧ Restartable x' ∧
      (LogHasStale registry x' ↔ KeepsStaleness registry x .saveLocation) := by
  have sound := restartable.sound.step .saveLocation rfl
  refine ⟨_, rfl, ?_⟩
  generalize saved : ({ x with engine := { x.engine with
    locationSnapshot := some (x.engine.state.location.snapshot x.engine.walHead) } } : Session) = x' at *
  have plain : ∀ l ∈ x.engine.sinceOpen, Plain l := fun l listed =>
    restartable.resumable.plain l (mem_loggedAfter listed)
  have now (k : ReprKey) : x'.engine.told k =
      x.engine.sinceOpen.foldl (entryAfter k) (x.engine.state.location.state k) := by
    subst saved
    refine congrArg (List.foldl (entryAfter k) · x.engine.sinceOpen) ?_
    exact LocationTable.state_restore _ _ _
  have restored (k : ReprKey) : x'.engine.disk.location.state k = x.engine.state.location.state k := by
    subst saved
    exact LocationTable.state_restore _ _ _
  have after : Restartable x' := by
    refine ⟨sound, ?_, ?_, fun k some_ none_ => ?_, fun k dirty clean => ?_, ?_, ?_, ?_⟩
    · subst saved
      exact ⟨restartable.resumable.historic, restartable.resumable.plain, restartable.resumable.tight,
        restartable.resumable.head, Nat.le_refl _, fun k => restored k ▸ restartable.unmoved k⟩
    · subst saved
      exact restartable.unmoved
    · subst saved
      have none_ : x.engine.state.location.state k = none := none_
      rw [now, none_] at some_
      exact restartable.heard k some_ none_
    · subst saved
      have clean : x.engine.state.location.state k = some .clean := clean
      rw [now, clean] at dirty
      exact restartable.heardDirty k dirty clean
    · subst saved
      exact restartable.heard
    · subst saved
      exact restartable.heardDirty
    · subst saved
      exact restartable.tasks
  refine ⟨after, ?_⟩
  constructor
  · rintro ⟨-, rests⟩ k underWay
    cases covered : x.engine.sinceOpen.any (covers k) with
    | true => rfl
    | false =>
      refine absurd ?_ (rests k).1
      rw [now, underWay]
      exact told_uncovered plain k covered
  · intro keeps
    have reached (k : ReprKey) : x'.engine.told k ≠ some .recomputing ∧
        x'.engine.told k ≠ some .migrating := by
      rw [now]
      by_cases underWay : x.engine.state.location.state k = some .recomputing
      · rw [underWay, told_covered plain k (keeps k underWay) (t := .clean) (by simp) (by simp)]
        exact rests_told plain k (by simp)
      · exact rests_told plain k ⟨underWay, restartable.unmoved k⟩
    refine ⟨fun c id e there j listed => ?_, reached⟩
    have dirty : x.engine.told (id, j) = some .dirty := by
      subst saved
      exact has.1 c id e there j listed
    obtain ⟨s, s_, split_⟩ := said_split restartable.resumable (id, j)
    have stays := (told_dirty plain (id, j) s_ (split_ ▸ dirty)).1
    have some_ := restartable.told (id, j) (by rw [dirty]; simp)
    have unclean := restartable.toldDirty (id, j) dirty
    have unmoved := restartable.unmoved (id, j)
    have covered := keeps (id, j)
    rw [now]
    generalize x.engine.state.location.state (id, j) = state at some_ unclean unmoved covered
    rcases state with _ | (_ | _ | _ | _)
    · exact absurd rfl some_
    · exact absurd rfl unclean
    · exact stays
    · rw [told_covered plain (id, j) (covered rfl) (t := .dirty) (by simp) (by simp)]
      exact stays
    · exact absurd rfl unmoved

theorem reopen_keeps {x : Session} (restartable : Restartable x) (has : LogHasStale registry x)
    (config : WalConfig) (order : HashOrder (Nat × List (WalRecord Payload)))
    (continues : ReopenGuard x.engine.state.wal (.reopen config)) :
    ∃ x', x.step (.reopen config order) = some x' ∧ Restartable x' ∧ LogHasStale registry x' := by
  obtain ⟨engine, unhandled, opened, location, data, schemas, wal, head, saved⟩ :=
    opens_as_said restartable.resumable config order
  have stepped : x.step (.reopen config order) = some (.start engine) := by
    simp only [Session.step, opened]
  have sound := restartable.sound.step _ stepped
  obtain ⟨historic, plain, tight, _, below, unmoved⟩ := restartable.resumable
  obtain ⟨sequential, next, disk⟩ := open_continues historic.tracked.sequential tight config continues
  rw [← wal] at sequential next disk
  have mutations : engine.state.wal.mutations = x.engine.state.wal.mutations := by
    rw [WalWriter.mutations, disk]
    rfl
  have logged : engine.state.logged = x.engine.state.logged := by
    rw [State.logged, mutations]
    rfl
  have told (k : ReprKey) : engine.told k = x.engine.told k := by
    unfold OpenEngine.told OpenEngine.disk Disk.snapLsn Disk.location State.loggedAfter
    rw [saved, mutations]
  have nothing : engine.sinceOpen = [] := by
    unfold OpenEngine.sinceOpen State.loggedAfter
    rw [head, headLsn, List.map_eq_nil_iff, List.filter_eq_nil_iff]
    intro r listed above
    have under := (sequential.below r (List.mem_filter.mp listed).1).2
    have above := of_decide_eq_true above
    omega
  have entities : engine.state.store.entities = x.engine.state.store.entities :=
    congrArg Data.entities data
  have tracked : Tracked engine.state :=
    ⟨sequential, sound.synced, fun l listed => historic.tracked.decoded l (logged ▸ listed)⟩
  refine ⟨.start engine, stepped, ⟨sound, ⟨⟨tracked, ?_, ?_⟩, ?_, ?_, ?_, ?_, fun k => ?_⟩,
    fun k => ?_, fun k => ?_, fun k => ?_, fun k => ?_, fun k => ?_, ?_⟩, fun c id e there j listed => ?_,
    fun k => ?_⟩
  · have faithful := historic.faithful
    rw [Faithful, ← data, ← logged] at faithful
    exact faithful
  · exact logged ▸ historic.legal
  · exact logged ▸ plain
  · change engine.state.wal.nextLsn = (engine.state.wal.disk.getLast?.map WalRecord.lsn).getD 0 + 1
    rw [next, disk]
    exact tight
  · have positive := sequential.next
    change engine.walHead < engine.state.wal.nextLsn
    rw [head, headLsn]
    omega
  · have same : engine.disk.snapLsn = x.engine.disk.snapLsn := by
      unfold Disk.snapLsn OpenEngine.disk
      rw [saved]
    change engine.disk.snapLsn ≤ engine.walHead
    rw [same, head, headLsn, next]
    omega
  · have same : engine.disk.location = x.engine.disk.location := by
      unfold Disk.location OpenEngine.disk
      rw [saved]
    exact same ▸ unmoved k
  · exact location k ▸ (has.2 k).2
  · intro some_
    exact location k ▸ told k ▸ some_
  · intro dirty clean
    cases (location k).symm.trans clean ▸ (told k).symm.trans dirty
  · intro some_
    rw [show Session.engine _ = engine from rfl, nothing] at some_
    exact absurd rfl some_
  · intro dirty
    rw [show Session.engine _ = engine from rfl, nothing] at dirty
    cases dirty
  · exact fun task none_ => absurd none_ List.not_mem_nil
  · refine (told _).trans (has.1 c id e ?_ j ?_)
    · exact entities ▸ there
    · exact (show engine.state.schemas = _ from schemas) ▸ listed
  · exact told k ▸ has.2 k

/-! ### Runs -/

theorem staleness_step {x : Session} (restartable : Restartable x) (has : LogHasStale registry x)
    (a : Event) (admits : x.Admits a) :
    ∃ x', x.step a = some x' ∧ Restartable x' ∧
      (LogHasStale registry x' ↔ KeepsStaleness registry x a) := by
  cases a with
  | write env w =>
    cases w with
    | createCollection p =>
      obtain ⟨x', stepped, after, kept⟩ := create_keeps restartable has env p admits
      exact ⟨x', stepped, after, iff_of_true kept trivial⟩
    | insert p => exact insert_keeps restartable has env p
    | updateEntity p => exact update_keeps restartable has env p
    | alterCollection p => exact alter_keeps restartable has env p admits
    | _ => exact admits.elim
  | startRecompute env =>
    refine ⟨_, rfl, ?_, iff_of_true has trivial⟩
    have tasks : ∀ task ∈ x.tasks ++ [x.engine.state.startRecompute env],
        TaskFits x.engine.state.schemas task := by
      intro task listed
      rcases List.mem_append.mp listed with older | new
      · exact restartable.tasks task older
      · cases List.mem_singleton.mp new
        have grouped := groupsOk_dirty x.engine.state (env.dirtyOrder.order x.engine.state.location.iterDirty)
        intro g there
        exact grouped g ((env.groupOrder.perm _).mem_iff.mp there)
    exact ⟨restartable.sound.step (.startRecompute env) rfl, restartable.resumable, restartable.unmoved,
      restartable.told, restartable.toldDirty, restartable.heard, restartable.heardDirty, tasks⟩
  | advance env i => exact advance_keeps restartable has env i
  | saveLocation => exact save_keeps restartable has
  | saveHnsw order =>
    refine ⟨_, rfl, ?_, iff_of_true has trivial⟩
    have resumable := restartable.resumable
    exact ⟨restartable.sound.step (.saveHnsw order) rfl,
      ⟨resumable.historic, resumable.plain, resumable.tight, resumable.head, resumable.saved,
        resumable.unmoved⟩, restartable.unmoved, restartable.told, restartable.toldDirty,
      restartable.heard, restartable.heardDirty, restartable.tasks⟩
  | reopen config order =>
    obtain ⟨x', stepped, after, kept⟩ := reopen_keeps restartable has config order admits
    exact ⟨x', stepped, after, iff_of_true kept trivial⟩
  | _ => exact admits.elim

theorem restartable_start (config : WalConfig) : Restartable (.start (.init config)) := by
  have historic := historic_init config
  have disk : (WalWriter.open config [] : WalWriter (WalSegment Payload) Payload).disk = [] :=
    WalWriter.disk_open config [] rfl
  have logged : (State.init config).logged = [] := by
    rw [State.logged, State.init, mutations_open]
    rfl
  have after (n : Nat) : (State.init config).loggedAfter n = [] := by
    rw [State.loggedAfter, State.init, mutations_open]
    rfl
  have told (k : ReprKey) : (Session.start (.init config)).engine.told k = none := by
    change ((State.init config).loggedAfter 0).foldl (entryAfter k) (LocationTable.new.state k) = none
    rw [after, LocationTable.state_new]
    rfl
  have heard : (Session.start (.init config)).engine.sinceOpen = [] := after 0
  have state (k : ReprKey) : (State.init config).location.state k = none := LocationTable.state_new k
  refine ⟨.start config, ⟨historic, ?_, ?_, historic.tracked.sequential.next, Nat.le_refl _, ?_⟩,
    fun k => ?_, fun k some_ => absurd (told k) some_, fun k dirty => ?_, fun k some_ => ?_,
    fun k dirty => ?_, fun task none_ => absurd none_ List.not_mem_nil⟩
  · intro l listed
    have listed : l ∈ (State.init config).logged := listed
    rw [logged] at listed
    cases listed
  · change (WalWriter.open config [] : WalWriter (WalSegment Payload) Payload).nextLsn = _
    change _ = ((WalWriter.open config [] : WalWriter (WalSegment Payload) Payload).disk.getLast?.map
      WalRecord.lsn).getD 0 + 1
    rw [disk]
    rfl
  · intro k moved
    cases (LocationTable.state_new k).symm.trans moved
  · intro moved
    cases (state k).symm.trans moved
  · cases (told k).symm.trans dirty
  · rw [heard] at some_
    exact absurd rfl some_
  · rw [heard] at dirty
    cases dirty

theorem logHasStale_start (config : WalConfig) : LogHasStale registry (.start (.init config)) := by
  have told (k : ReprKey) : (Session.start (.init config)).engine.told k = none := by
    refine Option.eq_none_iff_forall_ne_some.mpr fun s some_ => ?_
    exact (restartable_start config).told k (by rw [some_]; simp) (LocationTable.state_new k)
  refine ⟨fun c id e stored => ?_, fun k => by rw [told]; simp⟩
  simp [Session.start, OpenEngine.init, State.init, Store.empty] at stored

variable (registry)

/-- The run has come this far, and where the engine crashes now it opens with what it needs. -/
def Survives (x : Option Session) : Prop := ∃ session, x = some session ∧ SurvivesRestart registry session

/-- In every run of INSERTs, UPDATEs, changes of representations, recomputes, snapshots and
openings, staleness survives a restart at every point iff every event keeps it. -/
theorem staleness_survives_iff (config : WalConfig) (as : List Event)
    (admitted : ∀ p ∈ Run.taken Session.next (some (.start (.init config))) as,
      ∀ x, p.1 = some x → x.Admits p.2) :
    (∀ x ∈ Run.visited Session.next (some (.start (.init config))) as, Survives registry x) ↔
      ∀ p ∈ Run.taken Session.next (some (.start (.init config))) as,
        ∀ x, p.1 = some x → KeepsStaleness registry x p.2 := by
  have survives {x : Session} (restartable : Restartable x) :
      Survives registry (some x) ↔ LogHasStale registry x := by
    rw [← survives_iff restartable]
    constructor
    · rintro ⟨x', same, survives⟩
      cases same
      exact survives
    · exact fun survives => ⟨x, rfl, survives⟩
  refine Run.good_iff_guarded_on Session.next (fun x => ∃ session, x = some session ∧ Restartable session)
    (Survives registry) (fun x a => ∀ session, x = some session → session.Admits a)
    (fun x a => ∀ session, x = some session → KeepsStaleness registry session a) as
    ⟨_, rfl, restartable_start config⟩
    ((survives (restartable_start config)).mpr (logHasStale_start config)) admitted ?_ ?_
  · rintro _ a ⟨x, rfl, restartable⟩ good admits -
    obtain ⟨x', stepped, after, -⟩ :=
      staleness_step restartable ((survives restartable).mp good) a (admits x rfl)
    exact ⟨x', stepped, after⟩
  · rintro _ a ⟨x, rfl, restartable⟩ good admits
    obtain ⟨x', stepped, after, iff_⟩ :=
      staleness_step restartable ((survives restartable).mp good) a (admits x rfl)
    have next : Session.next (some x) a = some x' := stepped
    rw [next, survives after, iff_]
    constructor
    · rintro keeps session same
      cases same
      exact keeps
    · exact fun keeps => keeps x rfl

end Sessions

/-! ### New fields -/

section Examples
attribute [local instance] headerOnly

def document : List Event :=
  [.write measuring.toEnv (.createCollection docs),
    .write measuring.toEnv (.insert ⟨"docs", ["id", "title", "body"],
      [.string "d", .string "a", .string "bb"], [], none, none⟩)]

def titleFromBody : List Event := document ++
  [.write measuring.toEnv (.alterCollection ⟨"docs", .alterRepresentationSetFields "title" ["body"]⟩)]

theorem document_survives_iff :
    (∀ x ∈ Run.visited Session.next (some (.start (.init default))) (document ++ [.saveLocation]),
      Survives measured x) ↔
    ∀ p ∈ Run.taken Session.next (some (.start (.init default))) (document ++ [.saveLocation]),
      ∀ x, p.1 = some x → KeepsStaleness measured x p.2 := by
  refine staleness_survives_iff measured default _ fun p listed x same => ?_
  simp only [document, List.cons_append, List.nil_append, Run.taken, List.mem_cons, List.not_mem_nil,
    or_false] at listed
  obtain rfl | rfl | rfl := listed
  · cases same
    have absent : (State.init default).store.hasCollection docs.name = false := by decide
    exact absent
  · trivial
  · trivial

/-- The ALTER has returned, and an engine that opens has the title's entry Clean. -/
theorem altered_fields_forgotten :
    ¬ ∀ x ∈ Run.visited Session.next (some (.start (.init default))) titleFromBody,
      Survives measured x := by
  intro survives
  obtain ⟨x, reached, survives⟩ := survives _ (Run.end_visited Session.next _ titleFromBody)
  obtain ⟨engine, unhandled, opened, stale, -⟩ := survives default (.insertionOrder _)
  have facts : ((titleFromBody.foldl Session.next (some (.start (.init default)))).bind fun x =>
      (openEngine default (.insertionOrder _) x.engine.disk).toOption.bind fun opened =>
        (opened.1.state.store.entities[("docs", "d")]?).map fun e =>
          (decide (0 ∈ staleReprIndices measured opened.1.state.schemas["docs"]? "docs" e),
            opened.1.state.location.state ("d", 0))) = some (true, some .clean) := by decide
  rw [reached, Option.bind_some, opened, Except.toOption, Option.bind_some] at facts
  obtain ⟨e, stored, facts⟩ := Option.map_eq_some_iff.mp facts
  obtain ⟨listed, clean⟩ := Prod.mk.inj facts
  cases clean.symm.trans (stale "docs" "d" e stored 0 (of_decide_eq_true listed))

end Examples
end TronDB.Engine
