import TronDB.Engine.Interleaving
import TronDB.Engine.Replayed

/-! When a Clean location entry stands for a vector of the current fields. -/
namespace TronDB.Engine
open TronDB.Core Binary Wal

section Fresh
variable (registry : Registry)

def Managed (s : State) (collection : String) (j : Nat) (stored : StoredRepresentation) : Prop :=
  (∃ schema, s.schemas[collection]? = some schema ∧ schema.representations[j]? = some stored) ∧
    stored.fields ≠ []

/-- The vector of the representation is the encoding of the fields the entity has. -/
def Fresh (collection : String) (stored : StoredRepresentation) (j : Nat) (e : Entity) : Prop :=
  ∀ vectoriser, registry collection stored.name = some vectoriser →
    ∃ r, e.representations[j]? = some r ∧ vectoriser.encode (fieldSet stored e) = .ok r.vector

/-- Clean means fresh, for every entity that has been updated. -/
def CleanIsFresh (x : Interleaved) : Prop :=
  ∀ (collection : String) (id : LogicalId) (e : Entity) (j : Nat) (stored : StoredRepresentation),
    (collection, id) ∈ x.updated → x.state.store.entities[(collection, id)]? = some e →
    Managed x.state collection j stored → x.state.location.IsClean (id, j) →
    Fresh registry collection stored j e

/-- The copy that is written is fresh wherever the entity is, or will be, marked Clean: an
UPDATE's copy in the Clean representations it does not touch; a recompute's copy in the other
Clean representations, and with it the updated namesakes in other collections, which share
the entry that turns Clean. -/
def WritesFresh (x : Interleaved) : Action → Prop
  | .finishUpdate i => ∀ u, x.updates[i]? = some u →
      x.state.store.hasCollection u.plan.collection = true →
      ∀ j stored, Managed x.state u.plan.collection j stored → j ∉ u.dirty →
        x.state.location.IsClean (u.old.id, j) → Fresh registry u.plan.collection stored j u.old
  | .advance _ i => ∀ job y encoded later rest,
      x.tasks[i]? = some (.writing job (y :: encoded) later rest) →
      x.state.store.hasCollection job.collection = true →
      ((job.collection, y.entity.id) ∈ x.updated →
        ∀ j stored, Managed x.state job.collection j stored → j ≠ job.reprIdx →
          x.state.location.IsClean (y.entity.id, j) →
          Fresh registry job.collection stored j (padTo y.entity job.reprIdx)) ∧
      ∀ collection, collection ≠ job.collection → (collection, y.entity.id) ∈ x.updated →
        (x.state.location.tryTransition y.key .clean).IsClean y.key →
        ∀ e stored, x.state.store.entities[(collection, y.entity.id)]? = some e →
          Managed x.state collection job.reprIdx stored →
          Fresh registry collection stored job.reprIdx e
  | _ => True

variable {registry}

theorem managed_unique {s : State} {collection : String} {j : Nat}
    {stored stored' : StoredRepresentation} (managed : Managed s collection j stored)
    (declared' : ∃ schema, s.schemas[collection]? = some schema ∧
      schema.representations[j]? = some stored') : stored = stored' := by
  obtain ⟨⟨schema, known, declared⟩, -⟩ := managed
  obtain ⟨schema', known', declared'⟩ := declared'
  cases known.symm.trans known'
  exact Option.some.inj (declared.symm.trans declared')

/-! ### UPDATE -/

theorem mem_dirtyReprIndices {schema : CollectionSchema} {assignments : List (String × Literal)}
    {j : Nat} {stored : StoredRepresentation} (declared : schema.representations[j]? = some stored) :
    j ∈ dirtyReprIndices (some schema) assignments ↔
      stored.fields ≠ [] ∧ ∃ f ∈ stored.fields, ∃ a ∈ assignments, a.1 = f := by
  have place (r : StoredRepresentation) :
      (r, j) ∈ schema.representations.zipIdx ↔ r = stored := by
    rw [List.mem_zipIdx_iff_getElem?, declared, Option.some.injEq, eq_comm]
  simp only [dirtyReprIndices, List.mem_map, List.mem_filter, Prod.exists, exists_eq_right, place,
    exists_eq_left, Bool.and_eq_true, List.any_eq_true, decide_eq_true_eq, Bool.not_eq_true',
    List.isEmpty_eq_false_iff]

theorem get_assigned (assignments : List (String × Literal)) (metadata : FinMap String Value)
    {f : String} (untouched : ∀ a ∈ assignments, a.1 ≠ f) :
    (assignments.foldl (fun metadata a =>
      metadata.insert a.1 (literalToValue a.2)) metadata)[f]? = metadata[f]? := by
  induction assignments generalizing metadata with
  | nil => rfl
  | cons a rest ih =>
    obtain ⟨here, later⟩ := List.forall_mem_cons.mp untouched
    rw [List.foldl_cons, ih _ later, FinMap.get_insert, if_neg here]

theorem fresh_assign {s : State} {u : PendingUpdate} {collection : String} {j : Nat}
    {stored : StoredRepresentation} (current : u.schema = s.schemas[collection]?)
    (managed : Managed s collection j stored) (clear : j ∉ u.dirty) :
    Fresh registry collection stored j u.new ↔ Fresh registry collection stored j u.old := by
  obtain ⟨⟨schema, known, declared⟩, fields⟩ := managed
  have untouched : ∀ f ∈ stored.fields, ∀ a ∈ u.plan.assignments, a.1 ≠ f := by
    intro f used a assigned same
    refine clear ?_
    rw [PendingUpdate.dirty, current, known]
    exact (mem_dirtyReprIndices declared).mpr ⟨fields, f, used, a, assigned, same⟩
  have same : fieldSet stored u.new = fieldSet stored u.old := by
    unfold fieldSet
    refine List.filterMap_congr fun f used => ?_
    have kept := get_assigned u.plan.assignments u.old.metadata (untouched f used)
    exact congrArg (Option.map fun v => (f, v)) kept
  unfold Fresh
  rw [same]
  exact Iff.rfl

theorem isClean_dirtied (id : LogicalId) (dirty : List Nat) (t : LocationTable) (k : ReprKey) :
    (dirty.foldl (fun t idx => t.tryTransition (id, idx) .dirty) t).IsClean k ↔
      t.IsClean k ∧ ¬ (k.1 = id ∧ k.2 ∈ dirty) := by
  induction dirty generalizing t with
  | nil => simp
  | cons idx rest ih =>
    rw [List.foldl_cons, ih, LocationTable.isClean_tryTransition _ _ (by simp)]
    have key : (id, idx) = k ↔ k.1 = id ∧ k.2 = idx := by
      rw [Prod.ext_iff, eq_comm (a := id), eq_comm (a := idx)]
    rw [key]
    simp only [canTransitionTo, and_true, List.mem_cons]
    tauto

variable [WalPayload Payload]

omit [WalPayload Payload] in
theorem recordUpdate_updated {x : Interleaved} {u : PendingUpdate}
    (present : x.state.store.hasCollection u.plan.collection = true) :
    (recordUpdate x u).updated = (u.plan.collection, u.new.id) :: x.updated := by
  rw [recordUpdate, if_pos present]

theorem finishUpdate_fresh_iff {x : Interleaved} (inFlight : InFlight registry x)
    (good : CleanIsFresh registry x) (i : Nat) :
    CleanIsFresh registry (x.step registry (.finishUpdate i)) ↔
      WritesFresh registry x (.finishUpdate i) := by
  simp only [Interleaved.step]
  cases pending : x.updates[i]? with
  | none =>
    refine iff_of_true good fun u there => ?_
    cases pending.symm.trans there
  | some u =>
    obtain ⟨current, own⟩ := inFlight.updates u (List.mem_of_getElem? pending)
    cases present : x.state.store.hasCollection u.plan.collection with
    | false =>
      have same : recordUpdate x u = x := if_neg (Bool.eq_false_iff.mp present)
      dsimp only
      rw [finishUpdate_absent present, same]
      refine iff_of_true good fun u' there present' => ?_
      cases pending.symm.trans there
      cases present.symm.trans present'
    | true =>
      obtain ⟨data, location, schemas⟩ := finishUpdate_put present
      have entities : (finishUpdate x.state u).2.store.entities =
          x.state.store.entities.insert (u.plan.collection, u.old.id) u.new :=
        congrArg Data.entities data
      have clean (k : ReprKey) : (finishUpdate x.state u).2.location.IsClean k ↔
          x.state.location.IsClean k ∧ ¬ (k.1 = u.old.id ∧ k.2 ∈ u.dirty) := by
        rw [location, isClean_dirtied, own]
      have managed (collection : String) (j : Nat) (stored : StoredRepresentation) :
          Managed (finishUpdate x.state u).2 collection j stored ↔
            Managed x.state collection j stored := by
        unfold Managed
        rw [schemas]
      constructor
      · intro fresh u' there _ j stored managed' clear isClean
        cases pending.symm.trans there
        have here : (finishUpdate x.state u).2.store.entities[(u.plan.collection, u.old.id)]? =
            some u.new := by rw [entities, FinMap.get_insert, if_pos rfl]
        refine (fresh_assign current managed' clear).mp ?_
        refine fresh u.plan.collection u.old.id u.new j stored ?_ here
          ((managed _ _ _).mpr managed') ((clean _).mpr ⟨isClean, fun both => clear both.2⟩)
        rw [recordUpdate_updated present]
        exact List.mem_cons_self ..
      · intro guarded collection id e j stored updated there managed' isClean
        obtain ⟨before, clear⟩ := (clean _).mp isClean
        have managed' := (managed _ _ _).mp managed'
        dsimp only at there
        rw [entities, FinMap.get_insert] at there
        split at there
        · rename_i here
          cases there
          obtain ⟨rfl, rfl⟩ := Prod.mk.inj here
          have clear : j ∉ u.dirty := fun listed => clear ⟨rfl, listed⟩
          exact (fresh_assign current managed' clear).mpr
            (guarded u pending present j stored managed' clear before)
        · rename_i elsewhere
          dsimp only at updated
          rw [recordUpdate_updated present] at updated
          have earlier := (List.mem_cons.mp updated).resolve_left fun same => elsewhere same.symm
          exact good collection id e j stored earlier there managed' before

/-! ### Recompute -/

omit [WalPayload Payload] in
theorem fresh_refreshed {schemas : FinMap String CollectionSchema} {job : Job} {y : Encoded}
    (ok : JobOk registry schemas job) (encoded : EncodedOk job y) (env : Env) :
    Fresh registry job.collection job.stored job.reprIdx (job.refreshed env y) := by
  intro vectoriser registered
  cases ok.vectoriser.symm.trans registered
  obtain ⟨r, found, -, vector⟩ := refresh_at y.entity job.reprIdx job.stored
    (env.recipeHash job.vectoriser.modelId job.stored.fields) y.vector
  refine ⟨r, found, ?_⟩
  rw [vector]
  exact encoded.2

omit [WalPayload Payload] in
theorem fresh_refreshed_elsewhere (job : Job) (env : Env) (y : Encoded) {collection : String}
    {stored : StoredRepresentation} {j : Nat} (other : j ≠ job.reprIdx) :
    Fresh registry collection stored j (job.refreshed env y) ↔
      Fresh registry collection stored j (padTo y.entity job.reprIdx) := by
  unfold Fresh Job.refreshed
  rw [refresh_elsewhere _ _ _ _ _ other]
  exact Iff.rfl

theorem writeBack_fresh_iff {x : Interleaved} (inFlight : InFlight registry x)
    (good : CleanIsFresh registry x) (env : RecomputeEnv) (i : Nat) {job : Job} {y : Encoded}
    {encoded : List Encoded} {later : List Job} {rest : List Group}
    (there : x.tasks[i]? = some (.writing job (y :: encoded) later rest)) :
    CleanIsFresh registry (x.step registry (.advance env i)) ↔
      WritesFresh registry x (.advance env i) := by
  obtain ⟨jobOk, encodedOk, -, -⟩ := inFlight.tasks _ (List.mem_of_getElem? there)
  have yOk := encodedOk y (List.mem_cons_self ..)
  cases present : x.state.store.hasCollection job.collection with
  | false =>
    obtain ⟨e, failed⟩ := writeBack_absent job (env.with registry).toEnv y present
    refine iff_of_true ?_ fun job' y' encoded' later' rest' there' present' => ?_
    · intro collection id e j stored updated here managed isClean
      simp only [Interleaved.step, there] at updated here managed isClean
      rw [(recordVector_rest _ _).2.1] at updated
      rw [advance_write, failed] at here managed isClean
      exact good collection id e j stored updated here managed isClean
    · cases there.symm.trans there'
      cases present.symm.trans present'
  | true =>
    obtain ⟨store, location, schemas⟩ := writeBack_put job (env.with registry).toEnv y present
    have recipe : job.refreshed (env.with registry).toEnv y = job.refreshed env.toEnv y := rfl
    rw [recipe] at store
    have after : (x.step registry (.advance env i)).state =
        (job.writeBack (env.with registry).toEnv x.state y).2 := by
      simp only [Interleaved.step, there, advance_write]
    have updatedAfter : (x.step registry (.advance env i)).updated = x.updated := by
      simp only [Interleaved.step, there]
      exact (recordVector_rest _ _).2.1
    have entities (k : String × LogicalId) :
        (x.step registry (.advance env i)).state.store.entities[k]? =
          if (job.collection, y.entity.id) = k then some (job.refreshed env.toEnv y)
          else x.state.store.entities[k]? := by
      rw [after, store]
      exact Store.get_putEntity _ _ _ _
    have clean (k : ReprKey) : (x.step registry (.advance env i)).state.location.IsClean k ↔
        (x.state.location.tryTransition y.key .clean).IsClean k := by
      rw [after, location]
    have managed (collection : String) (j : Nat) (stored : StoredRepresentation) :
        Managed (x.step registry (.advance env i)).state collection j stored ↔
          Managed x.state collection j stored := by
      unfold Managed
      rw [after, schemas]
    constructor
    · intro fresh job' y' encoded' later' rest' there' _
      cases there.symm.trans there'
      constructor
      · intro updated j stored managed' other isClean
        refine (fresh_refreshed_elsewhere job env.toEnv y other).mp ?_
        refine fresh job.collection y.entity.id _ j stored (updatedAfter ▸ updated)
          ((entities _).trans (if_pos rfl)) ((managed _ _ _).mpr managed') ((clean _).mpr ?_)
        exact (LocationTable.isClean_toClean _ _ _).mpr (.inl isClean)
      · intro collection other updated turns e stored here managed'
        have elsewhere : ¬ (job.collection, y.entity.id) = (collection, y.entity.id) :=
          fun same => other (Prod.mk.inj same).1.symm
        refine fresh collection y.entity.id e job.reprIdx stored (updatedAfter ▸ updated)
          ((entities _).trans ((if_neg elsewhere).trans here)) ((managed _ _ _).mpr managed')
          ((clean _).mpr ?_)
        rw [← yOk.1]
        exact turns
    · intro guarded collection id e j stored updated here managed' isClean
      obtain ⟨others, namesakes⟩ := guarded job y encoded later rest there present
      rw [updatedAfter] at updated
      have managed' := (managed _ _ _).mp managed'
      have turned := (clean _).mp isClean
      have entry := (LocationTable.isClean_toClean _ _ _).mp turned
      rw [entities] at here
      split at here
      · rename_i own
        cases here
        obtain ⟨rfl, rfl⟩ := Prod.mk.inj own
        by_cases this : j = job.reprIdx
        · subst this
          cases managed_unique managed' jobOk.stored
          exact fresh_refreshed jobOk yOk env.toEnv
        · have before : x.state.location.IsClean (y.entity.id, j) := by
            refine entry.resolve_right fun both => this ?_
            rw [yOk.1] at both
            exact (Prod.mk.inj both.1).2.symm
          exact (fresh_refreshed_elsewhere job env.toEnv y this).mpr
            (others updated j stored managed' this before)
      · rename_i elsewhere
        rcases entry with before | ⟨key, -⟩
        · exact good collection id e j stored updated here managed' before
        · rw [yOk.1] at key
          obtain ⟨rfl, rfl⟩ := Prod.mk.inj key
          have other : collection ≠ job.collection := fun same => elsewhere (same ▸ rfl)
          rw [← yOk.1] at turned
          exact namesakes collection other updated turned e stored here managed'

theorem advance_fresh_iff {x : Interleaved} (inFlight : InFlight registry x)
    (good : CleanIsFresh registry x) (env : RecomputeEnv) (i : Nat) :
    CleanIsFresh registry (x.step registry (.advance env i)) ↔
      WritesFresh registry x (.advance env i) := by
  by_cases writes : ∃ job y encoded later rest,
      x.tasks[i]? = some (.writing job (y :: encoded) later rest)
  · obtain ⟨job, y, encoded, later, rest, there⟩ := writes
    exact writeBack_fresh_iff inFlight good env i there
  · refine iff_of_true ?_ fun job y encoded later rest there =>
      absurd ⟨job, y, encoded, later, rest, there⟩ writes
    simp only [Interleaved.step]
    split
    · exact good
    · rename_i task there
      obtain ⟨store, schemas, clean⟩ := advance_quiet (env.with registry) x.state task
        fun job y encoded later rest same => writes ⟨job, y, encoded, later, rest, same ▸ there⟩
      intro collection id e j stored updated here managed isClean
      dsimp only at updated here managed isClean
      rw [(recordVector_rest _ _).2.1] at updated
      rw [store] at here
      rw [clean] at isClean
      unfold Managed at managed
      rw [schemas] at managed
      exact good collection id e j stored updated here managed isClean

theorem cleanIsFresh_step {x : Interleaved} (inFlight : InFlight registry x)
    (good : CleanIsFresh registry x) (a : Action) :
    CleanIsFresh registry (x.step registry a) ↔ WritesFresh registry x a := by
  cases a with
  | beginUpdate env p =>
    refine iff_of_true ?_ trivial
    rcases beginUpdate_ends env x.state p with ⟨e, failed⟩ | ⟨old, entries, found, begun⟩
    · simp only [Interleaved.step, failed]
      exact good
    · simp only [Interleaved.step, begun]
      exact good
  | finishUpdate i => exact finishUpdate_fresh_iff inFlight good i
  | startRecompute env => exact iff_of_true good trivial
  | advance env i => exact advance_fresh_iff inFlight good env i

/-- Whatever the state the calls start from and however they interleave, Clean means fresh in
every state they reach iff every copy that is written is fresh where it counts. -/
theorem clean_is_fresh_iff (registry : Registry) (s : State) (as : List Action) :
    (∀ x ∈ Run.visited (Interleaved.step registry) (.start s) as, CleanIsFresh registry x) ↔
      ∀ p ∈ Run.taken (Interleaved.step registry) (.start s) as, WritesFresh registry p.1 p.2 := by
  refine Run.good_iff_guarded (Interleaved.step registry) (InFlight registry)
    (CleanIsFresh registry) (WritesFresh registry) as (inFlight_start registry s) ?_
    (fun x a inFlight _ _ => inFlight_step registry inFlight a)
    fun x a inFlight good => cleanIsFresh_step inFlight good a
  intro collection id e j stored updated
  cases updated

end Fresh

/-! ### An entity with two managed representations -/

def lengths : Vectoriser where
  modelId := "lengths"
  encode fields := .ok (.dense (fields.map fun f =>
    match f.2 with
    | .string text => ⟨UInt32.ofNat text.length⟩
    | _ => ⟨0⟩))

def measured : Registry := fun _ _ => some lengths

def measuring : RecomputeEnv := RecomputeEnv.idle.with measured

def docs : CreateCollectionPlan where
  name := "docs"
  representations := [⟨"title", none, some 1, .cosine, false, ["title"]⟩,
    ⟨"body", none, some 1, .cosine, false, ["body"]⟩]
  fields := [⟨"title", .text⟩, ⟨"body", .text⟩]
  indexes := []
  vectoriserConfig := none

def oneDoc : List Step :=
  [.createCollection docs, .insert ⟨"docs", ["id", "title", "body"],
    [.string "d", .string "a", .string "b"], [], none, none⟩].map fun w => (measuring.toEnv, w)

def lengthen : UpdateEntityPlan := ⟨"d", "docs", [("title", .string "aa"), ("body", .string "bb")]⟩

/-- The UPDATE alone, and then a recompute alone that does both representations. -/
def bothDirty : List Action :=
  [.beginUpdate measuring.toEnv lengthen, .finishUpdate 0, .startRecompute measuring] ++
    List.replicate 7 (.advance measuring 0)

section Examples
attribute [local instance] headerOnly

/-- The second group writes back the title's vector from before the first. -/
theorem first_group_stale :
    ¬ CleanIsFresh measured (bothDirty.foldl (Interleaved.step measured)
      (.start (oneDoc.foldl State.step (State.init default)))) := by
  intro fresh
  have updated : ("docs", "d") ∈ (bothDirty.foldl (Interleaved.step measured)
      (.start (oneDoc.foldl State.step (State.init default)))).updated := by decide
  have found : ((bothDirty.foldl (Interleaved.step measured)
      (.start (oneDoc.foldl State.step (State.init default)))).state.store.entities[("docs", "d")]?.map
        fun e => (e.representations[0]?.map Representation.vector, e.metadata["title"]?)) =
      some (some (.dense [⟨1⟩]), some (.string "aa")) := by decide
  have schema : (bothDirty.foldl (Interleaved.step measured)
      (.start (oneDoc.foldl State.step (State.init default)))).state.schemas["docs"]? =
        some (buildCollectionSchema docs) := by decide
  have located : ((bothDirty.foldl (Interleaved.step measured)
      (.start (oneDoc.foldl State.step (State.init default)))).state.location.get ("d", 0)).map
        LocationDescriptor.state = some .clean := by decide
  obtain ⟨e, here, shape⟩ := Option.map_eq_some_iff.mp found
  obtain ⟨descriptor, at_, clean⟩ := Option.map_eq_some_iff.mp located
  obtain ⟨vector, title⟩ := Prod.mk.inj shape
  obtain ⟨r, first, encoded⟩ := fresh "docs" "d" e 0 _ updated here
    ⟨⟨_, schema, rfl⟩, by decide⟩ ⟨descriptor, at_, clean⟩ lengths rfl
  rw [first] at vector
  have old : r.vector = .dense [⟨1⟩] := Option.some.inj vector
  rw [old] at encoded
  have new : fieldSet (storedRepresentation "title" none (some 1) .cosine false ["title"]) e =
      [("title", .string "aa")] := by
    simp [fieldSet, storedRepresentation, title]
  rw [new] at encoded
  exact absurd encoded (by decide)

end Examples
end TronDB.Engine
