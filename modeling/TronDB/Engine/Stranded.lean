import Mathlib.Data.List.Pairwise
import Mathlib.Data.List.Flatten
import TronDB.Engine.Appended
import TronDB.Engine.CleanFresh

/-! One call of the recompute with everything that can fail in it, and the entries it leaves
under way. -/
namespace TronDB.Engine
open TronDB.Core Binary Wal

/-! ### The call -/

/-- How the calls of a recompute go: the encoder's answer to a batch, the commit and the store
write of a copy, the flush behind a batch. -/
structure Outcomes where
  encodeBatch : Job → Except String (List VectorData)
  commit : Job → Encoded → Except EngineError Unit
  insert : Job → Encoded → Except EngineError Unit
  persist : Job → Except EngineError Unit

/-- The entries of a batch with the vectors they were given; a short answer leaves some out. -/
def Job.encodedAs (job : Job) (vectors : List VectorData) : List Encoded :=
  (job.entries.zip vectors).map fun ev => ⟨ev.1.1, ev.1.2, ev.2⟩

section Recompute
variable [WalPayload Payload] (o : Outcomes) (env : RecomputeEnv)

/-- A copy committed, stored and indexed, unless the log or the store fails. -/
def Job.writeOrFail (job : Job) (s : State) (x : Encoded) : Except EngineError Unit × State :=
  match o.commit job x with
  | .error e =>
    let wal := (s.wal.beginTx job.collection env.ts).append .reprWrite job.collection s.wal.nextTx 1
      (.entity (job.refreshed env.toEnv x)) env.ts
    (.error e, { s with wal := (wal.commitDrain s.wal.nextTx env.ts).1 })
  | .ok () =>
    match o.insert job x with
    | .error e => (.error e, s.logTx env.ts job.collection
        [(.reprWrite, .entity (job.refreshed env.toEnv x))])
    | .ok () => job.writeBack env.toEnv s x

/-- The first entry that cannot be written ends the call. -/
def Job.writeAll (job : Job) (s : State) : List Encoded → Except EngineError Unit × State
  | [] => (.ok (), s)
  | x :: rest =>
    match job.writeOrFail o env s x with
    | (.error e, s') => (.error e, s')
    | (.ok (), s') => job.writeAll s' rest

/-- One batch, and how many entries it has recomputed. -/
def recomputeBatch (s : State) (job : Job) : Except EngineError Nat × State :=
  let s := { s with location := job.mark s.location }
  match o.encodeBatch job with
  | .error _ => (.ok 0, s)
  | .ok vectors =>
    match job.writeAll o env s (job.encodedAs vectors) with
    | (.error e, s) => (.error e, s)
    | (.ok (), s) =>
      match o.persist job with
      | .error e => (.error e, s)
      | .ok () => (.ok (job.encodedAs vectors).length, s)

def recomputeBatches (s : State) : List Job → Except EngineError Nat × State
  | [] => (.ok 0, s)
  | job :: rest =>
    match recomputeBatch o env s job with
    | (.error e, s') => (.error e, s')
    | (.ok n, s') =>
      match recomputeBatches s' rest with
      | (.error e, s'') => (.error e, s'')
      | (.ok m, s'') => (.ok (n + m), s'')

def recomputeGroups (s : State) : List Group → Except EngineError Nat × State
  | [] => (.ok 0, s)
  | group :: rest =>
    match recomputeBatches o env s (s.openGroup env group) with
    | (.error e, s') => (.error e, s')
    | (.ok n, s') =>
      match recomputeGroups s' rest with
      | (.error e, s'') => (.error e, s'')
      | (.ok m, s'') => (.ok (n + m), s'')

/-- The Dirty entries of the table, group by group and batch by batch. -/
def recomputeDirty (s : State) : Except EngineError Nat × State :=
  recomputeGroups o env s (env.groupOrder.order
    (s.dirtyGroups (env.dirtyOrder.order s.location.iterDirty)))

end Recompute

/-! ### What the call is to leave -/

/-- All batches of a call that nothing ends early. -/
def State.jobs (s : State) (env : RecomputeEnv) : List Job :=
  (env.groupOrder.order (s.dirtyGroups (env.dirtyOrder.order s.location.iterDirty))).flatMap
    (s.openGroup env)

/-- The store has the vector the encoder gave for the entry. -/
def HasNewVector (o : Outcomes) (env : RecomputeEnv) (s s' : State) (key : ReprKey) : Prop :=
  ∃ job ∈ s.jobs env, ∃ vectors, o.encodeBatch job = .ok vectors ∧
    ∃ x ∈ job.encodedAs vectors, x.key = key ∧
      ∃ e r, s'.store.entities[(job.collection, key.1)]? = some e ∧
        e.representations[key.2]? = some r ∧ r.vector = x.vector

/-- Every entry that was Dirty is Clean with its new vector, or Dirty still. -/
def StrandsNothing (o : Outcomes) (env : RecomputeEnv) (s s' : State) : Prop :=
  ∀ key, s.location.state key = some .dirty →
    s'.location.state key = some .dirty ∨
      s'.location.state key = some .clean ∧ HasNewVector o env s s' key

def Lands (o : Outcomes) (job : Job) (x : Encoded) : Prop :=
  o.commit job x = .ok () ∧ o.insert job x = .ok ()

/-- The batch is encoded in full, and every copy of it is committed and stored. -/
def Finishes (o : Outcomes) (job : Job) : Prop :=
  ∃ vectors, o.encodeBatch job = .ok vectors ∧ job.entries.length ≤ vectors.length ∧
    ∀ x ∈ job.encodedAs vectors, Lands o job x

/-- The batches up to the first one that is not flushed. -/
def Outcomes.reached (o : Outcomes) : List Job → List Job
  | [] => []
  | job :: rest =>
    match o.persist job with
    | .ok () => job :: o.reached rest
    | .error _ => [job]

/-- The copies written in these batches, in order. -/
def Outcomes.written (o : Outcomes) (jobs : List Job) : List (Job × Encoded) :=
  jobs.flatMap fun job =>
    match o.encodeBatch job with
    | .ok vectors => (job.encodedAs vectors).map fun x => (job, x)
    | .error _ => []

def writtenKey (w : Job × Encoded) : String × LogicalId := (w.1.collection, w.2.entity.id)

/-- The second copy has the vector of the first where the first was written. -/
def Retains (first second : Job × Encoded) : Prop :=
  ((padTo second.2.entity second.1.reprIdx).representations[first.1.reprIdx]?).map
    Representation.vector = some first.2.vector

/-- The last copy written of an entity has the vectors that were written before. -/
def LastRetains (written : List (Job × Encoded)) : Prop :=
  ∀ before first between last after, written = before ++ first :: between ++ last :: after →
    writtenKey last = writtenKey first → (∀ w ∈ after, writtenKey w ≠ writtenKey first) →
    Retains first last

/-! ### One batch -/

def Job.keys (job : Job) : List ReprKey := job.entries.map Prod.fst

/-- The copies go to the store one after the other. -/
def putWritten (env : Env) (ws : List (Job × Encoded)) (m : FinMap (String × LogicalId) Entity) :
    FinMap (String × LogicalId) Entity :=
  ws.foldl (fun m w => m.insert (writtenKey w) (w.1.refreshed env w.2)) m

section Batch
variable [WalPayload Payload] (o : Outcomes) (env : RecomputeEnv)

theorem writeBack_ok (job : Job) (env : Env) {s : State} {x : Encoded}
    (present : s.store.hasCollection job.collection = true)
    (underWay : s.location.state x.key = some .recomputing) : (job.writeBack env s x).1 = .ok () := by
  have moved : ∃ t, s.location.transition x.key .clean = .ok t := by
    obtain ⟨d, found, state⟩ := Option.map_eq_some_iff.mp underWay
    unfold LocationTable.transition
    rw [found]
    dsimp only
    rw [state]
    exact ⟨_, if_pos rfl⟩
  obtain ⟨t, moved⟩ := moved
  have kept : (s.logTx env.ts job.collection
      [(.reprWrite, .entity (job.refreshed env x))]).store.hasCollection job.collection = true := present
  unfold Job.writeBack Store.insert
  simp only [kept, if_true]
  cases x.vector with
  | dense v =>
    dsimp only [State.logTx]
    rw [moved]
  | sparse sv =>
    dsimp only [State.logTx]
    rw [moved]

/-- What writing copies leaves of the store and the metadata. -/
structure Copied (s s' : State) (ws : List (Job × Encoded)) : Prop where
  schemas : s'.schemas = s.schemas
  collections : s'.store.collections = s.store.collections
  entities : s'.store.entities = putWritten env.toEnv ws s.store.entities

/-- Every copy is written and its entry Clean, or some entry stays under way. -/
theorem writeAll_ends (job : Job) (xs : List Encoded) {s : State}
    (keyed : ∀ x ∈ xs, x.key = (x.entity.id, job.reprIdx)) (distinct : (xs.map Encoded.key).Nodup)
    (underWay : ∀ x ∈ xs, s.location.state x.key = some .recomputing)
    (present : s.store.hasCollection job.collection = true) :
    (∀ k ∉ xs.map Encoded.key, (job.writeAll o env s xs).2.location.state k = s.location.state k) ∧
    (job.writeAll o env s xs).2.schemas = s.schemas ∧
    (job.writeAll o env s xs).2.store.collections = s.store.collections ∧
    ((∀ x ∈ xs, Lands o job x) → (job.writeAll o env s xs).1 = .ok () ∧
      Copied env s (job.writeAll o env s xs).2 (xs.map fun x => (job, x)) ∧
      ∀ x ∈ xs, (job.writeAll o env s xs).2.location.state x.key = some .clean) ∧
    ((¬ ∀ x ∈ xs, Lands o job x) → (∃ e, (job.writeAll o env s xs).1 = .error e) ∧
      ∃ x ∈ xs, (job.writeAll o env s xs).2.location.state x.key = some .recomputing) := by
  induction xs generalizing s with
  | nil =>
    exact ⟨fun _ _ => rfl, rfl, rfl, fun _ => ⟨rfl, ⟨rfl, rfl, rfl⟩, fun _ none_ =>
      absurd none_ List.not_mem_nil⟩, fun some_ => absurd (fun _ none_ =>
      absurd none_ List.not_mem_nil) some_⟩
  | cons x rest ih =>
    rw [List.forall_mem_cons] at keyed underWay
    rw [List.map_cons, List.nodup_cons] at distinct
    by_cases fine : Lands o job x
    · have here : job.writeOrFail o env s x = job.writeBack env.toEnv s x := by
        unfold Job.writeOrFail
        rw [fine.1]
        dsimp only
        rw [fine.2]
      obtain ⟨store, location, schemas⟩ := writeBack_put job env.toEnv x present
      have ok := writeBack_ok job env.toEnv present underWay.1
      have next : job.writeAll o env s (x :: rest) =
          job.writeAll o env (job.writeBack env.toEnv s x).2 rest := by
        rw [Job.writeAll, here, show job.writeBack env.toEnv s x =
          (.ok (), (job.writeBack env.toEnv s x).2) from Prod.ext ok rfl]
      have state (k : ReprKey) : (job.writeBack env.toEnv s x).2.location.state k =
          if x.key = k then some .clean else s.location.state k := by
        rw [location, LocationTable.state_tryTransition]
        split
        · rename_i same
          rw [← same, underWay.1]
          rfl
        · rfl
      have collections : (job.writeBack env.toEnv s x).2.store.collections = s.store.collections := by
        rw [store]
        rfl
      have later := ih (s := (job.writeBack env.toEnv s x).2) keyed.2 distinct.2 (fun y listed => by
        rw [state, if_neg fun same => distinct.1 (by
          rw [same]
          exact List.mem_map_of_mem listed)]
        exact underWay.2 y listed) (by rw [Store.hasCollection, collections]; exact present)
      rw [next]
      obtain ⟨others, schemas', collections', landing, failing⟩ := later
      refine ⟨fun k absent => ?_, schemas'.trans schemas, collections'.trans collections,
        fun all => ?_, fun some_ => ?_⟩
      · rw [List.map_cons, List.mem_cons, not_or] at absent
        rw [others k absent.2, state, if_neg (Ne.symm absent.1)]
      · rw [List.forall_mem_cons] at all ⊢
        obtain ⟨result, wrote, clean⟩ := landing all.2
        refine ⟨result, ⟨wrote.schemas.trans schemas, wrote.collections.trans collections, ?_⟩,
          ?_, clean⟩
        · rw [wrote.entities, store]
          rfl
        · rw [others _ distinct.1, state, if_pos rfl]
      · rw [List.forall_mem_cons] at some_
        obtain ⟨failed, y, listed, stuck⟩ := failing fun all => some_ ⟨fine, all⟩
        exact ⟨failed, y, List.mem_cons_of_mem _ listed, stuck⟩
    · have stuck : ∃ e s', job.writeOrFail o env s x = (.error e, s') ∧
          s'.location = s.location ∧ s'.schemas = s.schemas ∧ s'.store = s.store := by
        unfold Job.writeOrFail
        cases committed : o.commit job x with
        | error e => exact ⟨e, _, rfl, rfl, rfl, rfl⟩
        | ok =>
          dsimp only
          cases inserted : o.insert job x with
          | error e => exact ⟨e, _, rfl, rfl, rfl, rfl⟩
          | ok => exact absurd ⟨committed, inserted⟩ fine
      obtain ⟨e, s', failed, location, schemas, store⟩ := stuck
      have next : job.writeAll o env s (x :: rest) = (.error e, s') := by
        rw [Job.writeAll, failed]
      rw [next]
      refine ⟨fun k _ => by rw [location], schemas, by rw [store], fun all =>
        absurd (all x List.mem_cons_self) fine, fun _ => ⟨⟨e, rfl⟩, x, List.mem_cons_self, ?_⟩⟩
      rw [location]
      exact underWay.1

omit [WalPayload Payload] in
theorem state_mark_all (job : Job) {t : LocationTable} (distinct : job.keys.Nodup)
    (dirty : ∀ k ∈ job.keys, t.state k = some .dirty) (k : ReprKey) :
    (job.mark t).state k = if k ∈ job.keys then some .recomputing else t.state k := by
  unfold Job.mark
  unfold Job.keys at distinct dirty ⊢
  generalize job.entries = entries at distinct dirty ⊢
  induction entries generalizing t with
  | nil => simp
  | cons e rest ih =>
    rw [List.map_cons] at distinct dirty ⊢
    rw [List.nodup_cons] at distinct
    rw [List.forall_mem_cons] at dirty
    have marked (k : ReprKey) : (t.tryTransition e.1 .recomputing).state k =
        if e.1 = k then some .recomputing else t.state k := by
      rw [LocationTable.state_tryTransition]
      split
      · rename_i same
        rw [← same, dirty.1]
        rfl
      · rfl
    rw [List.foldl_cons, ih distinct.2 fun k' listed => ?_]
    · rw [marked]
      by_cases here : e.1 = k
      · rw [if_pos here, ite_self, if_pos (by rw [here]; exact List.mem_cons_self)]
      · rw [if_neg here]
        by_cases later : k ∈ rest.map Prod.fst
        · rw [if_pos later, if_pos (List.mem_cons_of_mem _ later)]
        · rw [if_neg later, if_neg (List.not_mem_cons_of_ne_of_not_mem (Ne.symm here) later)]
    · rw [marked, if_neg fun same => distinct.1 (by rwa [same])]
      exact dirty.2 k' listed

omit [WalPayload Payload] in
theorem keys_encodedAs (job : Job) (vectors : List VectorData) :
    (job.encodedAs vectors).map Encoded.key = job.keys.take vectors.length := by
  unfold Job.encodedAs Job.keys
  rw [List.map_map]
  induction job.entries generalizing vectors with
  | nil => simp
  | cons e rest ih =>
    cases vectors with
    | nil => rfl
    | cons v vs =>
      rw [List.zip_cons_cons, List.map_cons, ih, List.map_cons, List.length_cons, List.take_succ_cons]
      rfl

/-- A batch the recompute can work off. -/
structure Workable (s : State) (job : Job) : Prop where
  entries : EntriesOk job.reprIdx job.entries
  present : s.store.hasCollection job.collection = true
  some_ : job.entries ≠ []
  dirty : ∀ k ∈ job.keys, s.location.state k = some .dirty

/-- A batch that finishes leaves its entries Clean; another leaves one under way. -/
structure BatchEnds (s s' : State) (result : Except EngineError Nat) (job : Job) : Prop where
  others : ∀ k ∉ job.keys, s'.location.state k = s.location.state k
  schemas : s'.schemas = s.schemas
  collections : s'.store.collections = s.store.collections
  finishing : Finishes o job →
    (∀ e, result = .error e ↔ o.persist job = .error e) ∧ Copied env s s' (o.written [job]) ∧
      ∀ k ∈ job.keys, s'.location.state k = some .clean
  stuck : ¬ Finishes o job → ∃ k ∈ job.keys, s'.location.state k = some .recomputing

theorem recomputeBatch_ends {s : State} {job : Job} (workable : Workable s job)
    (distinct : job.keys.Nodup) :
    BatchEnds o env s (recomputeBatch o env s job).2 (recomputeBatch o env s job).1 job := by
  have marked := state_mark_all job distinct workable.dirty
  unfold recomputeBatch
  dsimp only
  cases encoded : o.encodeBatch job with
  | error e =>
    refine ⟨fun k absent => ?_, rfl, rfl, ?_, fun _ => ?_⟩
    · exact (marked k).trans (if_neg absent)
    · rintro ⟨vectors, ok, -⟩
      cases encoded.symm.trans ok
    · obtain ⟨e, listed⟩ := List.exists_mem_of_ne_nil _ workable.some_
      exact ⟨e.1, List.mem_map_of_mem listed, (marked _).trans (if_pos (List.mem_map_of_mem listed))⟩
  | ok vectors =>
    dsimp only
    have keys := keys_encodedAs job vectors
    have keyed : ∀ x ∈ job.encodedAs vectors, x.key = (x.entity.id, job.reprIdx) := by
      intro x listed
      obtain ⟨ev, there, rfl⟩ := List.mem_map.mp listed
      exact workable.entries ev.1 (List.of_mem_zip there).1
    have within : ∀ x ∈ job.encodedAs vectors, x.key ∈ job.keys := by
      intro x listed
      have there := List.mem_map_of_mem (f := Encoded.key) listed
      rw [keys] at there
      exact List.mem_of_mem_take there
    obtain ⟨others, schemas, collections, landing, failing⟩ := writeAll_ends o env job
      (job.encodedAs vectors)
      (s := { s with location := job.mark s.location }) keyed
      (keys ▸ distinct.sublist (List.take_sublist _ _))
      (fun x listed => (marked _).trans (if_pos (within x listed))) workable.present
    generalize ran : job.writeAll o env { s with location := job.mark s.location }
      (job.encodedAs vectors) = out at others schemas collections landing failing
    obtain ⟨result, s'⟩ := out
    dsimp only at others schemas collections landing failing
    have leaves : ∀ k ∉ job.keys, s'.location.state k = s.location.state k := by
      intro k absent
      rw [others k (by rw [keys]; exact fun there => absent (List.mem_of_mem_take there))]
      exact (marked k).trans (if_neg absent)
    by_cases fine : ∀ x ∈ job.encodedAs vectors, Lands o job x
    · obtain ⟨rfl, wrote, clean⟩ := landing fine
      -- the flush comes behind all that the batch does
      have flushed : (match o.persist job with
            | .error e => ((.error e, s') : Except EngineError Nat × State)
            | .ok () => (.ok (job.encodedAs vectors).length, s')).2 = s' := by
        cases o.persist job <;> rfl
      have unflushed (e : EngineError) : (match o.persist job with
            | .error e => ((.error e, s') : Except EngineError Nat × State)
            | .ok () => (.ok (job.encodedAs vectors).length, s')).1 = .error e ↔
          o.persist job = .error e := by
        cases o.persist job <;> simp
      dsimp only
      rw [flushed]
      refine ⟨leaves, schemas, collections, fun finishes => ⟨unflushed, ?_, fun k listed => ?_⟩,
        fun unfinished => ?_⟩
      · have all : o.written [job] = (job.encodedAs vectors).map fun x => (job, x) := by
          simp [Outcomes.written, encoded]
        rw [all]
        exact ⟨wrote.schemas, wrote.collections, wrote.entities⟩
      · obtain ⟨vectors', ok, long, -⟩ := finishes
        cases encoded.symm.trans ok
        have there : k ∈ (job.encodedAs vectors).map Encoded.key := by
          rw [keys, List.take_of_length_le (by rw [Job.keys, List.length_map]; exact long)]
          exact listed
        obtain ⟨x, among, rfl⟩ := List.mem_map.mp there
        exact clean x among
      · -- the answer was too short for some entry
        have short : vectors.length < job.entries.length := by
          refine Nat.lt_of_not_le fun long => unfinished ⟨vectors, encoded, long, fine⟩
        have short' : vectors.length < job.keys.length := by rwa [Job.keys, List.length_map]
        refine ⟨job.keys[vectors.length], List.getElem_mem _, ?_⟩
        rw [others _ (by
          rw [keys]
          intro there
          obtain ⟨i, small, same⟩ := List.mem_take_iff_getElem.mp there
          have index := (distinct.getElem_inj_iff).mp same
          omega)]
        exact (marked _).trans (if_pos (List.getElem_mem _))
    · obtain ⟨⟨e, rfl⟩, x, listed, stuck⟩ := failing fine
      refine ⟨leaves, schemas, collections, ?_, fun _ => ⟨x.key, within x listed, stuck⟩⟩
      rintro ⟨vectors', ok, -, all⟩
      cases encoded.symm.trans ok
      exact absurd all fine

/-! ### Batch after batch -/

def jobKeys (jobs : List Job) : List ReprKey := jobs.flatMap Job.keys

omit [WalPayload Payload] in
theorem reached_sublist (jobs : List Job) : (o.reached jobs).Sublist jobs := by
  induction jobs with
  | nil => exact .slnil
  | cons job rest ih =>
    rw [Outcomes.reached]
    cases o.persist job with
    | ok => exact ih.cons_cons job
    | error e => exact (List.nil_sublist rest).cons_cons job

omit [WalPayload Payload] in
theorem workable_after {s s' : State} {job : Job} (workable : Workable s job)
    (collections : s'.store.collections = s.store.collections)
    (leaves : ∀ k ∈ job.keys, s'.location.state k = s.location.state k) : Workable s' job where
  entries := workable.entries
  present := by
    rw [Store.hasCollection, collections]
    exact workable.present
  some_ := workable.some_
  dirty := fun k listed => (leaves k listed).trans (workable.dirty k listed)

omit [WalPayload Payload] in
theorem putWritten_append (ws ws' : List (Job × Encoded))
    (m : FinMap (String × LogicalId) Entity) :
    putWritten env.toEnv (ws ++ ws') m = putWritten env.toEnv ws' (putWritten env.toEnv ws m) :=
  List.foldl_append

/-- What a list of batches leaves of the entries it was given. -/
structure BatchesEnd (s s' : State) (jobs : List Job) : Prop where
  others : ∀ k ∉ jobKeys jobs, s'.location.state k = s.location.state k
  collections : s'.store.collections = s.store.collections
  finished : (∀ job ∈ o.reached jobs, Finishes o job) →
    s'.store.entities = putWritten env.toEnv (o.written (o.reached jobs)) s.store.entities ∧
    (∀ k ∈ jobKeys (o.reached jobs), s'.location.state k = some .clean) ∧
    ∀ k ∉ jobKeys (o.reached jobs), s'.location.state k = s.location.state k
  unfinished : (¬ ∀ job ∈ o.reached jobs, Finishes o job) →
    ∃ k ∈ jobKeys jobs, s'.location.state k = some .recomputing

section Batches
omit [WalPayload Payload]
variable {o env} {s s₁ s₂ : State} {job : Job} {rest : List Job}

theorem finishes_head (all : ∀ other ∈ o.reached (job :: rest), Finishes o other) : Finishes o job :=
  all job (by
    rw [Outcomes.reached]
    cases o.persist job <;> exact List.mem_cons_self)

theorem BatchEnds.stops {e : EngineError} (ends : BatchEnds o env s s₁ (.error e) job) :
    BatchesEnd o env s s₁ (job :: rest) := by
  have split_ : jobKeys (job :: rest) = job.keys ++ jobKeys rest := rfl
  constructor
  case others =>
    refine fun k absent => ends.others k fun there => absent ?_
    rw [split_]
    exact List.mem_append_left _ there
  case collections => exact ends.collections
  case finished =>
    intro all
    obtain ⟨flush, copied, clean⟩ := ends.finishing (finishes_head all)
    have only : o.reached (job :: rest) = [job] := by
      rw [Outcomes.reached, (flush e).mp rfl]
    have keys : jobKeys [job] = job.keys := List.append_nil _
    rw [only, keys]
    exact ⟨copied.entities, clean, ends.others⟩
  case unfinished =>
    intro some_
    by_cases finishes : Finishes o job
    · refine absurd (fun other there => ?_) some_
      rw [Outcomes.reached, ((ends.finishing finishes).1 e).mp rfl, List.mem_singleton] at there
      rw [there]
      exact finishes
    · obtain ⟨k, there, recomputing⟩ := ends.stuck finishes
      refine ⟨k, ?_, recomputing⟩
      rw [split_]
      exact List.mem_append_left _ there

/-- The rest runs from the state that a batch leaves. -/
theorem BatchEnds.goesOn {n : Nat} (ends : BatchEnds o env s s₁ (.ok n) job)
    (apart : List.Disjoint job.keys (jobKeys rest)) (later : BatchesEnd o env s₁ s₂ rest) :
    BatchesEnd o env s s₂ (job :: rest) := by
  have split_ : jobKeys (job :: rest) = job.keys ++ jobKeys rest := rfl
  constructor
  case others =>
    intro k absent
    rw [split_, List.mem_append, not_or] at absent
    rw [later.others k absent.2, ends.others k absent.1]
  case collections => exact later.collections.trans ends.collections
  case finished =>
    intro all
    obtain ⟨flush, copied, clean⟩ := ends.finishing (finishes_head all)
    have flushed : o.persist job = .ok () := by
      cases flush' : o.persist job with
      | ok => rfl
      | error e => cases (flush e).mpr flush'
    have reached : o.reached (job :: rest) = job :: o.reached rest := by
      rw [Outcomes.reached, flushed]
    rw [reached] at all ⊢
    obtain ⟨entities, cleaned, dirty⟩ :=
      later.finished fun other there => all other (List.mem_cons_of_mem _ there)
    have parts : o.written (job :: o.reached rest) = o.written [job] ++
        o.written (o.reached rest) := by
      simp [Outcomes.written]
    have keys : jobKeys (job :: o.reached rest) = job.keys ++ jobKeys (o.reached rest) := rfl
    have within : ∀ k ∈ jobKeys (o.reached rest), k ∈ jobKeys rest := fun k there => by
      obtain ⟨other, listed, there⟩ := List.mem_flatMap.mp there
      exact List.mem_flatMap.mpr ⟨other, (reached_sublist o rest).subset listed, there⟩
    refine ⟨?_, fun k there => ?_, fun k absent => ?_⟩
    · rw [entities, copied.entities, parts, putWritten_append]
    · rw [keys, List.mem_append] at there
      rcases there with mine | there
      · rw [dirty k fun there => apart mine (within k there), clean k mine]
      · exact cleaned k there
    · rw [keys, List.mem_append, not_or] at absent
      rw [dirty k absent.2, ends.others k absent.1]
  case unfinished =>
    intro some_
    by_cases finishes : Finishes o job
    · have unfinished : ¬ ∀ other ∈ o.reached rest, Finishes o other := by
        refine fun all => some_ fun other there => ?_
        rw [Outcomes.reached] at there
        cases flush : o.persist job with
        | ok =>
          rw [flush] at there
          exact (List.mem_cons.mp there).elim (fun same => same ▸ finishes) (all other)
        | error e =>
          rw [flush] at there
          rw [List.mem_singleton.mp there]
          exact finishes
      obtain ⟨k, there, recomputing⟩ := later.unfinished unfinished
      refine ⟨k, ?_, recomputing⟩
      rw [split_]
      exact List.mem_append_right _ there
    · obtain ⟨k, there, recomputing⟩ := ends.stuck finishes
      refine ⟨k, ?_, ?_⟩
      · rw [split_]
        exact List.mem_append_left _ there
      · rw [later.others k fun other => apart there other]
        exact recomputing

end Batches

theorem recomputeBatches_ends (jobs : List Job) {s : State}
    (workable : ∀ job ∈ jobs, Workable s job) (distinct : (jobKeys jobs).Nodup) :
    BatchesEnd o env s (recomputeBatches o env s jobs).2 jobs := by
  induction jobs generalizing s with
  | nil =>
    exact ⟨fun _ _ => rfl, rfl, fun _ => ⟨rfl, fun _ none_ => absurd none_ List.not_mem_nil,
      fun _ _ => rfl⟩, fun some_ => absurd (fun _ none_ => absurd none_ List.not_mem_nil) some_⟩
  | cons job rest ih =>
    rw [List.forall_mem_cons] at workable
    have split_ : jobKeys (job :: rest) = job.keys ++ jobKeys rest := rfl
    rw [split_, List.nodup_append'] at distinct
    obtain ⟨own, theirs, apart⟩ := distinct
    have ends := recomputeBatch_ends o env workable.1 own
    rw [recomputeBatches]
    generalize recomputeBatch o env s job = out at ends
    obtain ⟨result, s₁⟩ := out
    dsimp only at ends ⊢
    cases result with
    | error e => exact ends.stops
    | ok n =>
      have later := ih (s := s₁) (fun other listed => workable_after (workable.2 other listed)
        ends.collections fun k there => ends.others k fun mine =>
          apart mine (List.mem_flatMap.mpr ⟨other, listed, there⟩)) theirs
      dsimp only
      cases rests : recomputeBatches o env s₁ rest with
      | mk result s₂ =>
        rw [rests] at later
        cases result with
        | error e => exact ends.goesOn apart later
        | ok m => exact ends.goesOn apart later

/-! ### The groups as one list of batches -/

theorem writeBack_schemas (job : Job) (env : Env) (s : State) (x : Encoded) :
    (job.writeBack env s x).2.schemas = s.schemas := by
  cases present : s.store.hasCollection job.collection with
  | true => exact (writeBack_put job env x present).2.2
  | false =>
    obtain ⟨e, refused⟩ := writeBack_absent job env x present
    rw [refused]
    rfl

theorem writeAll_schemas (job : Job) (xs : List Encoded) (s : State) :
    (job.writeAll o env s xs).2.schemas = s.schemas := by
  have one (s : State) (x : Encoded) : (job.writeOrFail o env s x).2.schemas = s.schemas := by
    unfold Job.writeOrFail
    cases o.commit job x with
    | error e => rfl
    | ok =>
      dsimp only
      cases o.insert job x with
      | error e => rfl
      | ok => exact writeBack_schemas job env.toEnv s x
  induction xs generalizing s with
  | nil => rfl
  | cons x rest ih =>
    have here := one s x
    rw [Job.writeAll]
    generalize job.writeOrFail o env s x = out at here
    obtain ⟨result, s'⟩ := out
    cases result with
    | error e => exact here
    | ok => exact (ih s').trans here

theorem recomputeBatch_schemas (s : State) (job : Job) :
    (recomputeBatch o env s job).2.schemas = s.schemas := by
  unfold recomputeBatch
  dsimp only
  cases o.encodeBatch job with
  | error e => rfl
  | ok vectors =>
    have written := writeAll_schemas o env job (job.encodedAs vectors)
      { s with location := job.mark s.location }
    dsimp only at written ⊢
    generalize job.writeAll o env { s with location := job.mark s.location }
      (job.encodedAs vectors) = out at written
    obtain ⟨result, s'⟩ := out
    cases result with
    | error e => exact written
    | ok =>
      dsimp only
      cases o.persist job <;> exact written

theorem recomputeBatches_schemas (jobs : List Job) (s : State) :
    (recomputeBatches o env s jobs).2.schemas = s.schemas := by
  induction jobs generalizing s with
  | nil => rfl
  | cons job rest ih =>
    have here := recomputeBatch_schemas o env s job
    rw [recomputeBatches]
    generalize recomputeBatch o env s job = out at here
    obtain ⟨result, s₁⟩ := out
    cases result with
    | error e => exact here
    | ok n =>
      have there := ih s₁
      dsimp only
      generalize recomputeBatches o env s₁ rest = out at there
      obtain ⟨result, s₂⟩ := out
      cases result <;> exact there.trans here

theorem recomputeBatches_append (jobs later : List Job) (s : State) :
    (recomputeBatches o env s (jobs ++ later)).2 =
      match recomputeBatches o env s jobs with
      | (.error _, s') => s'
      | (.ok _, s') => (recomputeBatches o env s' later).2 := by
  induction jobs generalizing s with
  | nil => rfl
  | cons job rest ih =>
    rw [List.cons_append, recomputeBatches, recomputeBatches]
    cases recomputeBatch o env s job with
    | mk result s₁ =>
      cases result with
      | error e => rfl
      | ok n =>
        have there := ih s₁
        dsimp only
        cases ran : recomputeBatches o env s₁ (rest ++ later) with
        | mk result s₂ =>
          rw [ran] at there
          cases ran' : recomputeBatches o env s₁ rest with
          | mk result' s₃ =>
            rw [ran'] at there
            cases result' <;> cases result <;> exact there

omit [WalPayload Payload] in
theorem openGroup_same {s s' : State} (schemas : s'.schemas = s.schemas) (group : Group) :
    s'.openGroup env group = s.openGroup env group := by
  unfold State.openGroup
  rw [schemas]

theorem recomputeGroups_flat (groups : List Group) (s : State) :
    (recomputeGroups o env s groups).2 =
      (recomputeBatches o env s (groups.flatMap (s.openGroup env))).2 := by
  induction groups generalizing s with
  | nil => rfl
  | cons group rest ih =>
    rw [List.flatMap_cons, recomputeBatches_append, recomputeGroups]
    have schemas := recomputeBatches_schemas o env (s.openGroup env group) s
    generalize recomputeBatches o env s (s.openGroup env group) = out at schemas
    obtain ⟨result, s₁⟩ := out
    cases result with
    | error e => rfl
    | ok n =>
      have there := ih s₁
      rw [List.flatMap_congr fun group _ => openGroup_same env schemas group] at there
      dsimp only at there ⊢
      rw [← there]
      cases recomputeGroups o env s₁ rest with
      | mk result s₂ => cases result <;> rfl

end Batch

/-! ### The entries collected -/

def groupKeys (groups : List Group) : List ReprKey := groups.flatMap fun g => g.2.map Prod.fst

theorem keys_pushGroup (group : String × Nat) (entry : ReprKey × Entity) (groups : List Group) :
    (groupKeys (pushGroup group entry groups)).Perm (entry.1 :: groupKeys groups) := by
  induction groups with
  | nil => exact .refl _
  | cons g rest ih =>
    rw [pushGroup]
    split
    · rename_i same
      unfold groupKeys
      rw [List.flatMap_cons, List.flatMap_cons, List.map_append, List.append_assoc]
      exact List.perm_middle
    · unfold groupKeys at ih ⊢
      rw [List.flatMap_cons, List.flatMap_cons]
      exact (ih.append_left _).trans List.perm_middle

/-- What the collected groups say of the state. -/
structure Collected (s : State) (keys : List ReprKey) (groups : List Group) : Prop where
  distinct : (groupKeys groups).Nodup
  asked : ∀ k ∈ groupKeys groups, k ∈ keys
  present : ∀ g ∈ groups, s.store.hasCollection g.1.1 = true

theorem mem_pushGroup {group : String × Nat} {entry : ReprKey × Entity} {groups : List Group} :
    ∀ g ∈ pushGroup group entry groups, g.1 = group ∨ ∃ old ∈ groups, old.1 = g.1 := by
  induction groups with
  | nil =>
    intro g there
    rw [pushGroup, List.mem_singleton] at there
    rw [there]
    exact .inl rfl
  | cons old rest ih =>
    intro g there
    rw [pushGroup] at there
    split at there
    · rename_i same
      rcases List.mem_cons.mp there with rfl | there
      · exact .inl same
      · exact .inr ⟨g, List.mem_cons_of_mem _ there, rfl⟩
    · rcases List.mem_cons.mp there with rfl | there
      · exact .inr ⟨_, List.mem_cons_self, rfl⟩
      · refine (ih g there).imp_right ?_
        rintro ⟨old', listed, same⟩
        exact ⟨old', List.mem_cons_of_mem _ listed, same⟩

theorem collected_dirtyGroups (s : State) (keys : List ReprKey) (distinct : keys.Nodup) :
    Collected s keys (s.dirtyGroups keys) := by
  induction keys using List.reverseRecOn with
  | nil => exact ⟨List.nodup_nil, fun _ there => there, List.forall_mem_nil _⟩
  | append_singleton rest key ih =>
    rw [List.nodup_append'] at distinct
    obtain ⟨own, -, apart⟩ := distinct
    have before := ih own
    rcases s.dirtyGroups_append rest key with same | ⟨collection, e, found, joined⟩
    · rw [same]
      exact ⟨before.distinct, fun k there => List.mem_append_left _ (before.asked k there),
        before.present⟩
    · have present := ((s.store.get_eq_ok ..).mp found).1
      have pushed := keys_pushGroup (collection, key.2) (key, e)
      rw [joined]
      refine ⟨(pushed _).nodup_iff.mpr (List.nodup_cons.mpr ⟨fun there =>
        apart (before.asked key there) List.mem_cons_self, before.distinct⟩), fun k there => ?_,
        fun g there => ?_⟩
      · rcases List.mem_cons.mp ((pushed _).mem_iff.mp there) with rfl | there
        · exact List.mem_append_right _ List.mem_cons_self
        · exact List.mem_append_left _ (before.asked k there)
      · rcases mem_pushGroup g there with same | ⟨old, listed, same⟩
        · rw [same]
          exact present
        · rw [← same]
          exact before.present old listed

theorem toChunks_go_ne_nil {α : Type} (n : Nat) (xs : List α) (current : Array α)
    (done : Array (List α)) (some_ : current.toList ≠ []) (all : ∀ chunk ∈ done, chunk ≠ []) :
    ∀ chunk ∈ List.toChunks.go n xs current done, chunk ≠ [] := by
  induction xs generalizing current done with
  | nil =>
    intro chunk there
    rw [List.toChunks.go, Array.mem_toList_iff, Array.mem_push] at there
    rcases there with there | rfl
    · exact all chunk there
    · exact some_
  | cons x rest ih =>
    rw [List.toChunks.go]
    split
    · refine ih _ _ (by simp) fun chunk there => ?_
      rcases Array.mem_push.mp there with there | rfl
      · exact all chunk there
      · exact some_
    · exact ih _ _ (by simp) all

theorem toChunks_ne_nil {α : Type} (n : Nat) (xs : List α) : ∀ chunk ∈ xs.toChunks n, chunk ≠ [] := by
  cases xs with
  | nil => cases n <;> simp [List.toChunks]
  | cons x rest =>
    cases n with
    | zero => simp [List.toChunks]
    | succ n =>
      rw [List.toChunks]
      · exact toChunks_go_ne_nil _ _ _ _ (by simp) (by simp)
      · simp

theorem openGroup_keys (env : RecomputeEnv) (s : State) (group : Group) :
    (jobKeys (s.openGroup env group)).Sublist (group.2.map Prod.fst) ∧
    ∀ job ∈ s.openGroup env group, job.collection = group.1.1 ∧ job.reprIdx = group.1.2 ∧
      job.entries ≠ [] ∧ ∀ e ∈ job.entries, e ∈ group.2 := by
  have none_ : (jobKeys []).Sublist (group.2.map Prod.fst) ∧ ∀ job ∈ ([] : List Job),
      job.collection = group.1.1 ∧ job.reprIdx = group.1.2 ∧ job.entries ≠ [] ∧
        ∀ e ∈ job.entries, e ∈ group.2 :=
    ⟨List.nil_sublist _, fun _ none_ => absurd none_ List.not_mem_nil⟩
  unfold State.openGroup
  split
  · exact none_
  · split
    · exact none_
    · split
      · exact none_
      · split
        · exact none_
        · refine ⟨?_, fun job there => ?_⟩
          · rw [jobKeys, List.flatMap_map]
            have flat : (group.2.toChunks env.batchSize).flatMap (fun entries =>
                entries.map Prod.fst) = group.2.map Prod.fst := by
              rw [List.flatMap_def, ← List.map_flatten, flatten_toChunks]
            exact flat ▸ List.Sublist.refl _
          · obtain ⟨entries, chunk, rfl⟩ := List.mem_map.mp there
            refine ⟨rfl, rfl, toChunks_ne_nil _ _ _ chunk, fun e listed => ?_⟩
            rw [← flatten_toChunks env.batchSize group.2]
            exact List.mem_flatten.mpr ⟨entries, chunk, listed⟩

theorem mem_iterDirty (t : LocationTable) (k : ReprKey) :
    k ∈ t.iterDirty ↔ t.state k = some .dirty := by
  unfold LocationTable.iterDirty LocationTable.state LocationTable.get
  rw [List.mem_map]
  constructor
  · rintro ⟨⟨k, d⟩, listed, rfl⟩
    obtain ⟨there, dirty⟩ := List.mem_filter.mp listed
    rw [(FinMap.mem_toList _ _ _).mp there]
    exact congrArg some (of_decide_eq_true dirty)
  · intro dirty
    obtain ⟨d, found, state⟩ := Option.map_eq_some_iff.mp dirty
    exact ⟨(k, d), List.mem_filter.mpr ⟨(FinMap.mem_toList _ _ _).mpr found, decide_eq_true state⟩, rfl⟩

theorem jobs_workable (env : RecomputeEnv) (s : State) :
    (jobKeys (s.jobs env)).Nodup ∧ ∀ job ∈ s.jobs env, Workable s job := by
  have keys : (env.dirtyOrder.order s.location.iterDirty).Nodup := by
    refine (env.dirtyOrder.perm _).nodup_iff.mpr ?_
    exact (FinMap.nodup_toList _).sublist (List.filter_sublist.map _)
  have collected := collected_dirtyGroups s _ keys
  have ordered := env.groupOrder.perm (s.dirtyGroups (env.dirtyOrder.order s.location.iterDirty))
  have fine := groupsOk_dirty s (env.dirtyOrder.order s.location.iterDirty)
  unfold State.jobs
  generalize env.groupOrder.order
    (s.dirtyGroups (env.dirtyOrder.order s.location.iterDirty)) = groups at ordered
  constructor
  · have all : (groupKeys groups).Nodup :=
      (ordered.flatMap_right _).nodup_iff.mpr collected.distinct
    refine all.sublist ?_
    clear all ordered
    induction groups with
    | nil => exact .slnil
    | cons g rest ih =>
      rw [jobKeys, List.flatMap_cons, List.flatMap_append, groupKeys, List.flatMap_cons]
      exact (openGroup_keys env s g).1.append ih
  · intro job there
    obtain ⟨g, listed, opened⟩ := List.mem_flatMap.mp there
    obtain ⟨collection, reprIdx, some_, entries⟩ := (openGroup_keys env s g).2 job opened
    have among := ordered.mem_iff.mp listed
    refine ⟨fun e mine => ?_, ?_, some_, fun k mine => ?_⟩
    · rw [reprIdx]
      exact fine g among e (entries e mine)
    · rw [collection]
      exact collected.present g among
    · obtain ⟨e, own, rfl⟩ := List.mem_map.mp mine
      refine (mem_iterDirty _ _).mp ((env.dirtyOrder.perm _).mem_iff.mp (collected.asked _ ?_))
      exact List.mem_flatMap.mpr ⟨g, among, List.mem_map_of_mem (entries e own)⟩

/-! ### The last copy of an entity -/

theorem putWritten_absent (env : Env) (ws : List (Job × Encoded))
    (m : FinMap (String × LogicalId) Entity) {k : String × LogicalId}
    (absent : ∀ w ∈ ws, writtenKey w ≠ k) : (putWritten env ws m)[k]? = m[k]? := by
  induction ws generalizing m with
  | nil => rfl
  | cons w rest ih =>
    rw [List.forall_mem_cons] at absent
    have next : putWritten env (w :: rest) m =
      putWritten env rest (m.insert (writtenKey w) (w.1.refreshed env w.2)) := rfl
    rw [next, ih _ absent.2, FinMap.get_insert, if_neg absent.1]

theorem putWritten_last (env : Env) (before after : List (Job × Encoded)) (last : Job × Encoded)
    (m : FinMap (String × LogicalId) Entity)
    (none_ : ∀ w ∈ after, writtenKey w ≠ writtenKey last) :
    (putWritten env (before ++ last :: after) m)[writtenKey last]? =
      some (last.1.refreshed env last.2) := by
  have next : putWritten env (before ++ last :: after) m = putWritten env after
      ((putWritten env before m).insert (writtenKey last) (last.1.refreshed env last.2)) := by
    rw [putWritten, List.foldl_append]
    rfl
  rw [next, putWritten_absent env after _ none_, FinMap.get_insert, if_pos rfl]

/-! ### Nothing is stranded -/

section Copies
variable (o : Outcomes) (env : RecomputeEnv) (s : State)

/-- A key is recomputed at most once in a call. -/
theorem same_copy {jobs : List Job} (distinct : (jobKeys jobs).Nodup) {job job' : Job}
    (listed : job ∈ jobs) (listed' : job' ∈ jobs) {vectors vectors' : List VectorData}
    (encoded : o.encodeBatch job = .ok vectors) (encoded' : o.encodeBatch job' = .ok vectors')
    {x x' : Encoded} (among : x ∈ job.encodedAs vectors) (among' : x' ∈ job'.encodedAs vectors')
    (same : x'.key = x.key) : job' = job ∧ x' = x := by
  have within {job : Job} {vectors : List VectorData} {x : Encoded}
      (among : x ∈ job.encodedAs vectors) : x.key ∈ job.keys := by
    have there := List.mem_map_of_mem (f := Encoded.key) among
    rw [keys_encodedAs] at there
    exact List.mem_of_mem_take there
  obtain ⟨own, apart⟩ := List.nodup_flatMap.mp distinct
  have one : job' = job := by
    by_contra different
    have : Std.Symm (Function.onFun List.Disjoint Job.keys) := ⟨fun _ _ d _ one two => d two one⟩
    have disjoint := apart.forall listed' listed different
    exact disjoint (within among') (same ▸ within among)
  subst one
  cases encoded.symm.trans encoded'
  have unique : ((job'.encodedAs vectors).map Encoded.key).Nodup := by
    rw [keys_encodedAs]
    exact (own job' listed).sublist (List.take_sublist _ _)
  exact ⟨rfl, List.inj_on_of_nodup_map unique among' among same⟩

theorem mem_written {jobs : List Job} {w : Job × Encoded} : w ∈ o.written jobs ↔
    w.1 ∈ jobs ∧ ∃ vectors, o.encodeBatch w.1 = .ok vectors ∧ w.2 ∈ w.1.encodedAs vectors := by
  unfold Outcomes.written
  rw [List.mem_flatMap]
  constructor
  · rintro ⟨job, listed, there⟩
    cases encoded : o.encodeBatch job with
    | error e =>
      rw [encoded] at there
      exact absurd there List.not_mem_nil
    | ok vectors =>
      rw [encoded] at there
      obtain ⟨x, among, rfl⟩ := List.mem_map.mp there
      exact ⟨listed, vectors, encoded, among⟩
  · rintro ⟨listed, vectors, encoded, among⟩
    refine ⟨w.1, listed, ?_⟩
    rw [encoded]
    exact List.mem_map.mpr ⟨w.2, among, rfl⟩

theorem keys_written (jobs : List Job) :
    ((o.written jobs).map fun w => w.2.key).Sublist (jobKeys jobs) := by
  induction jobs with
  | nil => exact .slnil
  | cons job rest ih =>
    rw [Outcomes.written, List.flatMap_cons, List.map_append, jobKeys, List.flatMap_cons]
    refine .append ?_ ih
    cases o.encodeBatch job with
    | error e => exact List.nil_sublist _
    | ok vectors =>
      have same : (((job.encodedAs vectors).map fun x => (job, x)).map fun w => w.2.key) =
          (job.encodedAs vectors).map Encoded.key := List.map_map
      dsimp only
      rw [same, keys_encodedAs]
      exact List.take_sublist _ _

theorem written_keyed {w : Job × Encoded} (there : w ∈ o.written (o.reached (s.jobs env))) :
    w.2.key = (w.2.entity.id, w.1.reprIdx) := by
  obtain ⟨listed, vectors, -, among⟩ := (mem_written o).mp there
  obtain ⟨ev, zipped, made⟩ := List.mem_map.mp among
  rw [← made]
  exact ((jobs_workable env s).2 w.1 ((reached_sublist o (s.jobs env)).subset listed)).entries ev.1
    (List.of_mem_zip zipped).1

/-- Two copies of one entity are for different representations. -/
theorem written_apart {before between after : List (Job × Encoded)} {first last : Job × Encoded}
    (parts : o.written (o.reached (s.jobs env)) = before ++ first :: between ++ last :: after)
    (same : writtenKey last = writtenKey first) : first.1.reprIdx ≠ last.1.reprIdx := by
  have unique := ((jobs_workable env s).1.sublist ((reached_sublist o (s.jobs env)).flatMap
    Job.keys)).sublist (keys_written o (o.reached (s.jobs env)))
  have firstKey := written_keyed o env s (w := first) (by rw [parts]; simp)
  have lastKey := written_keyed o env s (w := last) (by rw [parts]; simp)
  intro index
  have sameKey : first.2.key = last.2.key := by
    rw [firstKey, lastKey, index, show last.2.entity.id = first.2.entity.id from
      congrArg Prod.snd same]
  rw [parts, List.map_append, List.map_append, List.nodup_append', List.nodup_append'] at unique
  refine unique.2.2 ?_ (List.mem_cons_self (a := last.2.key))
  rw [← sameKey]
  exact List.mem_append_right _ List.mem_cons_self

section Written
variable {s' : State} (entities : s'.store.entities =
  putWritten env.toEnv (o.written (o.reached (s.jobs env))) s.store.entities)

include entities

/-- What the store has of a copy is what the last copy of the entity has. -/
theorem stored_last {before between after : List (Job × Encoded)} {first last : Job × Encoded}
    (parts : o.written (o.reached (s.jobs env)) = before ++ first :: between ++ last :: after)
    (same : writtenKey last = writtenKey first)
    (none_ : ∀ w ∈ after, writtenKey w ≠ writtenKey first) :
    s'.store.entities[writtenKey first]? = some (last.1.refreshed env.toEnv last.2) := by
  rw [entities, parts, ← same]
  exact putWritten_last env.toEnv _ after last _ (same ▸ none_)

theorem retains_of_new {before between after : List (Job × Encoded)} {first last : Job × Encoded}
    (parts : o.written (o.reached (s.jobs env)) = before ++ first :: between ++ last :: after)
    (same : writtenKey last = writtenKey first)
    (none_ : ∀ w ∈ after, writtenKey w ≠ writtenKey first)
    (new : HasNewVector o env s s' first.2.key) : Retains first last := by
  have listed : first ∈ o.written (o.reached (s.jobs env)) := by
    rw [parts]
    exact List.mem_append_left _ (List.mem_append_right _ List.mem_cons_self)
  obtain ⟨reachedJob, vectors, encoded, among⟩ := (mem_written o).mp listed
  obtain ⟨job', asked, vectors', encoded', x', among', sameKey, e, r, stored, at_, vector⟩ := new
  obtain ⟨rfl, rfl⟩ := same_copy o (jobs_workable env s).1
    ((reached_sublist o (s.jobs env)).subset reachedJob) asked encoded encoded' among among' sameKey
  have own := written_keyed o env s listed
  have place : (first.1.collection, first.2.key.1) = writtenKey first := by
    rw [own]
    rfl
  rw [place, stored_last o env s entities parts same none_] at stored
  cases stored
  have other := written_apart o env s parts same
  rw [own] at at_
  rw [Job.refreshed, refresh_elsewhere _ _ _ _ _ other] at at_
  unfold Retains
  rw [at_]
  exact congrArg some vector

theorem new_of_retains (retains : LastRetains (o.written (o.reached (s.jobs env)))) {job : Job}
    (listed : job ∈ o.reached (s.jobs env)) (finishes : Finishes o job) {k : ReprKey}
    (mine : k ∈ job.keys) : HasNewVector o env s s' k := by
  obtain ⟨vectors, encoded, long, -⟩ := finishes
  have among : k ∈ (job.encodedAs vectors).map Encoded.key := by
    rw [keys_encodedAs, List.take_of_length_le (by rw [Job.keys, List.length_map]; exact long)]
    exact mine
  obtain ⟨x, within, rfl⟩ := List.mem_map.mp among
  have written := (mem_written o (w := (job, x))).mpr ⟨listed, vectors, encoded, within⟩
  have own : x.key = (x.entity.id, job.reprIdx) := written_keyed o env s written
  refine ⟨job, (reached_sublist o (s.jobs env)).subset listed, vectors, encoded, x, within, rfl, ?_⟩
  have place : (job.collection, x.key.1) = writtenKey (job, x) := by
    rw [own]
    rfl
  rw [place, own]
  obtain ⟨before, rest, parts⟩ := List.append_of_mem written
  by_cases later : ∃ w ∈ rest, writtenKey w = writtenKey (job, x)
  · obtain ⟨between, last, after, rfl, same, none_⟩ :=
      Run.last_with (fun w => writtenKey w = writtenKey (job, x)) rest later
    have parts' : o.written (o.reached (s.jobs env)) =
        before ++ (job, x) :: between ++ last :: after := by
      rw [parts, List.append_assoc, List.cons_append]
    have kept := retains before (job, x) between last after parts' same none_
    obtain ⟨r, at_, vector⟩ := Option.map_eq_some_iff.mp kept
    have other := written_apart o env s parts' same
    refine ⟨_, r, stored_last o env s entities parts' same none_, ?_, vector⟩
    rw [Job.refreshed, refresh_elsewhere _ _ _ _ _ other]
    exact at_
  · obtain ⟨r, at_, -, vector⟩ := refresh_at x.entity job.reprIdx job.stored
      (env.recipeHash job.vectoriser.modelId job.stored.fields) x.vector
    refine ⟨job.refreshed env.toEnv x, r, ?_, at_, vector⟩
    rw [entities, parts]
    exact putWritten_last env.toEnv before rest (job, x) _ fun w there same =>
      later ⟨w, there, same⟩

end Written

end Copies

section Stranded
variable [WalPayload Payload] (o : Outcomes) (env : RecomputeEnv) (s : State)

/-- Every Dirty entry is Clean with its new vector or Dirty still after a call exactly when every
batch it reaches is encoded, committed and stored, and no later copy of an entity takes a new
vector away again. -/
theorem recompute_strands_nothing_iff :
    StrandsNothing o env s (recomputeDirty o env s).2 ↔
      (∀ job ∈ o.reached (s.jobs env), Finishes o job) ∧
        LastRetains (o.written (o.reached (s.jobs env))) := by
  obtain ⟨distinct, workable⟩ := jobs_workable env s
  have ran : (recomputeDirty o env s).2 = (recomputeBatches o env s (s.jobs env)).2 :=
    recomputeGroups_flat o env _ s
  have ends := recomputeBatches_ends o env (s.jobs env) workable distinct
  rw [← ran] at ends
  generalize (recomputeDirty o env s).2 = s' at ends
  have sub := reached_sublist o (s.jobs env)
  have wasDirty : ∀ k ∈ jobKeys (s.jobs env), s.location.state k = some .dirty := by
    intro k there
    obtain ⟨job, listed, mine⟩ := List.mem_flatMap.mp there
    exact (workable job listed).dirty k mine
  by_cases all : ∀ job ∈ o.reached (s.jobs env), Finishes o job
  · obtain ⟨entities, clean, leaves⟩ := ends.finished all
    rw [and_iff_right all]
    constructor
    · intro stranded before first between last after parts same none_
      have listed : first ∈ o.written (o.reached (s.jobs env)) := by
        rw [parts]
        exact List.mem_append_left _ (List.mem_append_right _ List.mem_cons_self)
      have reachedKey : first.2.key ∈ jobKeys (o.reached (s.jobs env)) :=
        (keys_written o _).subset (List.mem_map_of_mem listed)
      have wanted : first.2.key ∈ jobKeys (s.jobs env) := (sub.flatMap Job.keys).subset reachedKey
      rcases stranded _ (wasDirty _ wanted) with dirty | ⟨-, new⟩
      · cases (clean _ reachedKey).symm.trans dirty
      · exact retains_of_new o env s entities parts same none_ new
    · intro retains k dirty
      by_cases there : k ∈ jobKeys (o.reached (s.jobs env))
      · obtain ⟨job, listed, mine⟩ := List.mem_flatMap.mp there
        exact .inr ⟨clean k there,
          new_of_retains o env s entities retains listed (all job listed) mine⟩
      · exact .inl ((leaves k there).trans dirty)
  · refine iff_of_false (fun stranded => ?_) fun both => all both.1
    obtain ⟨k, there, recomputing⟩ := ends.unfinished all
    rcases stranded k (wasDirty k there) with dirty | ⟨clean, -⟩
    · cases recomputing.symm.trans dirty
    · cases recomputing.symm.trans clean

end Stranded

section Examples
attribute [local instance] headerOnly

/-- The encoder's service is down, and everything else works. -/
def encoderDown : Outcomes := ⟨fun _ => .error "unavailable", fun _ _ => .ok (), fun _ _ => .ok (),
  fun _ => .ok ()⟩

/-- A document with both of its representations Dirty. -/
def lengthened : State :=
  (oneDoc ++ [(measuring.toEnv, Write.updateEntity lengthen)]).foldl State.step (.init default)

/-- The title's entry stays under way, and no later recompute collects it. -/
theorem failed_batch_strands :
    ¬ StrandsNothing encoderDown measuring lengthened
      (recomputeDirty encoderDown measuring lengthened).2 := by
  intro nothing
  have dirty : lengthened.location.state ("d", 0) = some .dirty := by decide
  have left : (recomputeDirty encoderDown measuring lengthened).2.location.state ("d", 0) =
      some .recomputing := by decide
  rcases nothing ("d", 0) dirty with still | ⟨clean, -⟩
  · cases left.symm.trans still
  · cases left.symm.trans clean

end Examples
end TronDB.Engine
