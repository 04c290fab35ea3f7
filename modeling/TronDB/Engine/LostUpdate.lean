import TronDB.Engine.CleanFresh

/-! Whether what UPDATEs and recomputes have written is still there when they are done. -/
namespace TronDB.Engine
open TronDB.Core Binary Wal

section Kept
variable (registry : Registry)

/-- Every field has the value its last UPDATE gave it, and every recomputed representation
the vector that was computed for it. -/
structure Kept (x : Interleaved) : Prop where
  values : ∀ (k : String × LogicalId) (field : String) (v : Value),
    x.values[(k, field)]? = some v →
      ∃ e, x.state.store.entities[k]? = some e ∧ e.metadata[field]? = some v
  vectors : ∀ (k : String × LogicalId) (j : Nat) (vector : VectorData),
    x.vectors[(k, j)]? = some vector → ∃ (e : Entity) (r : Representation),
      x.state.store.entities[k]? = some e ∧ e.representations[j]? = some r ∧ r.vector = vector

/-! ### Values of an UPDATE -/

theorem assigned_recorded (assignments : List (String × Literal)) (k : String × LogicalId)
    (field : String) (metadata : FinMap String Value)
    (values : FinMap ((String × LogicalId) × String) Value)
    (before : (∀ a ∈ assignments, a.1 ≠ field) →
      ∀ v, values[(k, field)]? = some v → metadata[field]? = some v) :
    ∀ v, (assignments.foldl (fun values a =>
        values.insert (k, a.1) (literalToValue a.2)) values)[(k, field)]? = some v →
      (assignments.foldl (fun metadata a =>
        metadata.insert a.1 (literalToValue a.2)) metadata)[field]? = some v := by
  induction assignments generalizing metadata values with
  | nil => exact before (by simp)
  | cons a rest ih =>
    refine ih _ _ fun later v recorded => ?_
    rw [FinMap.get_insert] at recorded ⊢
    by_cases here : a.1 = field
    · rw [if_pos (by rw [here])] at recorded
      rw [if_pos here]
      exact recorded
    · rw [if_neg fun same => here (Prod.mk.inj same).2] at recorded
      rw [if_neg here]
      exact before (List.forall_mem_cons.mpr ⟨here, later⟩) v recorded

theorem recorded_unassigned (assignments : List (String × Literal)) (k : String × LogicalId)
    {field : String} (untouched : ∀ a ∈ assignments, a.1 ≠ field)
    (values : FinMap ((String × LogicalId) × String) Value) :
    (assignments.foldl (fun values a =>
      values.insert (k, a.1) (literalToValue a.2)) values)[(k, field)]? =
        values[(k, field)]? := by
  induction assignments generalizing values with
  | nil => rfl
  | cons a rest ih =>
    obtain ⟨here, later⟩ := List.forall_mem_cons.mp untouched
    rw [List.foldl_cons, ih later, FinMap.get_insert, if_neg fun same => here (Prod.mk.inj same).2]

theorem recorded_elsewhere (assignments : List (String × Literal)) {k k' : String × LogicalId}
    (other : k ≠ k') (field : String) (values : FinMap ((String × LogicalId) × String) Value) :
    (assignments.foldl (fun values a =>
      values.insert (k, a.1) (literalToValue a.2)) values)[(k', field)]? =
        values[(k', field)]? := by
  induction assignments generalizing values with
  | nil => rfl
  | cons a rest ih =>
    rw [List.foldl_cons, ih, FinMap.get_insert, if_neg fun same => other (Prod.mk.inj same).1]

variable {registry}
variable [WalPayload Payload]

omit [WalPayload Payload] in
theorem recordUpdate_vectors (x : Interleaved) (u : PendingUpdate) :
    (recordUpdate x u).vectors = x.vectors := by
  unfold recordUpdate
  split <;> rfl

theorem finishUpdate_kept_iff {x : Interleaved} (kept : Kept x) (i : Nat) :
    Kept (x.step registry (.finishUpdate i)) ↔ UpToDate x (.finishUpdate i) := by
  simp only [Interleaved.step]
  cases pending : x.updates[i]? with
  | none =>
    refine iff_of_true kept fun u there => ?_
    cases pending.symm.trans there
  | some u =>
    dsimp only
    cases present : x.state.store.hasCollection u.plan.collection with
    | false =>
      have same : recordUpdate x u = x := if_neg (Bool.eq_false_iff.mp present)
      rw [finishUpdate_absent present, same]
      refine iff_of_true ⟨kept.values, kept.vectors⟩ fun u' there present' => ?_
      cases pending.symm.trans there
      cases present.symm.trans present'
    | true =>
      have entities : (finishUpdate x.state u).2.store.entities =
          x.state.store.entities.insert (u.plan.collection, u.old.id) u.new :=
        congrArg Data.entities (finishUpdate_put present).1
      have values : (recordUpdate x u).values = u.plan.assignments.foldl (fun values a =>
          values.insert ((u.plan.collection, u.old.id), a.1) (literalToValue a.2)) x.values := by
        rw [recordUpdate, if_pos present]
        rfl
      constructor
      · intro after u' there _
        cases pending.symm.trans there
        constructor
        · intro field v untouched recorded
          obtain ⟨e, found, value⟩ := after.values (u.plan.collection, u.old.id) field v (by
            dsimp only
            rw [values, recorded_unassigned _ _ untouched, recorded])
          dsimp only at found
          rw [entities, FinMap.get_insert, if_pos rfl] at found
          cases found
          rwa [PendingUpdate.new, assign, get_assigned _ _ untouched] at value
        · intro j vector recorded
          obtain ⟨e, r, found, at_, same⟩ :=
            after.vectors (u.plan.collection, u.old.id) j vector (by
              dsimp only
              rw [recordUpdate_vectors, recorded])
          dsimp only at found
          rw [entities, FinMap.get_insert, if_pos rfl] at found
          cases found
          exact ⟨r, at_, same⟩
      · intro upToDate
        obtain ⟨valuesThere, vectorsThere⟩ := upToDate u pending present
        constructor
        · intro k field v recorded
          dsimp only at recorded ⊢
          rw [values] at recorded
          rw [entities, FinMap.get_insert]
          by_cases here : (u.plan.collection, u.old.id) = k
          · subst here
            rw [if_pos rfl]
            exact ⟨u.new, rfl, assigned_recorded _ _ field u.old.metadata x.values
              (fun untouched v' => valuesThere field v' untouched) v recorded⟩
          · rw [if_neg here]
            rw [recorded_elsewhere _ here] at recorded
            exact kept.values k field v recorded
        · intro k j vector recorded
          dsimp only at recorded ⊢
          rw [recordUpdate_vectors] at recorded
          rw [entities, FinMap.get_insert]
          by_cases here : (u.plan.collection, u.old.id) = k
          · subst here
            rw [if_pos rfl]
            obtain ⟨r, at_, same⟩ := vectorsThere j vector recorded
            exact ⟨u.new, r, rfl, at_, same⟩
          · rw [if_neg here]
            exact kept.vectors k j vector recorded

theorem writeBack_kept_iff {x : Interleaved} (kept : Kept x) (env : RecomputeEnv) (i : Nat)
    {job : Job} {y : Encoded} {encoded : List Encoded} {later : List Job} {rest : List Group}
    (there : x.tasks[i]? = some (.writing job (y :: encoded) later rest)) :
    Kept (x.step registry (.advance env i)) ↔ UpToDate x (.advance env i) := by
  simp only [Interleaved.step, there, recordVector, advance_write]
  cases present : x.state.store.hasCollection job.collection with
  | false =>
    obtain ⟨e, failed⟩ := writeBack_absent job (env.with registry).toEnv y present
    rw [failed]
    refine iff_of_true ⟨kept.values, kept.vectors⟩ fun job' y' encoded' later' rest' there' here => ?_
    cases there.symm.trans there'
    cases present.symm.trans here
  | true =>
    have entities (k : String × LogicalId) :
        (job.writeBack (env.with registry).toEnv x.state y).2.store.entities[k]? =
          if (job.collection, y.entity.id) = k then some (job.refreshed env.toEnv y)
          else x.state.store.entities[k]? := by
      rw [(writeBack_put job (env.with registry).toEnv y present).1]
      exact Store.get_putEntity _ _ _ _
    simp only [if_true]
    constructor
    · intro after job' y' encoded' later' rest' there' _
      cases there.symm.trans there'
      constructor
      · intro field v recorded
        obtain ⟨e, found, value⟩ := after.values _ field v recorded
        dsimp only at found
        rw [entities, if_pos rfl] at found
        cases found
        exact value
      · intro j vector other recorded
        obtain ⟨e, r, found, at_, same⟩ := after.vectors (job.collection, y.entity.id) j vector (by
          dsimp only
          rw [FinMap.get_insert, if_neg fun same => other (Prod.mk.inj same).2.symm, recorded])
        dsimp only at found
        rw [entities, if_pos rfl] at found
        cases found
        exact ⟨r, (refresh_elsewhere _ _ _ _ _ other).symm.trans at_, same⟩
    · intro upToDate
      obtain ⟨valuesThere, vectorsThere⟩ := upToDate job y encoded later rest there present
      constructor
      · intro k field v recorded
        dsimp only at recorded ⊢
        rw [entities]
        by_cases here : (job.collection, y.entity.id) = k
        · subst here
          rw [if_pos rfl]
          exact ⟨_, rfl, valuesThere field v recorded⟩
        · rw [if_neg here]
          exact kept.values k field v recorded
      · intro k j vector recorded
        dsimp only at recorded ⊢
        rw [FinMap.get_insert] at recorded
        rw [entities]
        by_cases here : (job.collection, y.entity.id) = k
        · subst here
          rw [if_pos rfl]
          by_cases written : j = job.reprIdx
          · subst written
            rw [if_pos rfl] at recorded
            cases recorded
            obtain ⟨r, found, -, same⟩ := refresh_at y.entity job.reprIdx job.stored _ y.vector
            exact ⟨_, r, rfl, found, same⟩
          · rw [if_neg fun same => written (Prod.mk.inj same).2.symm] at recorded
            obtain ⟨r, at_, same⟩ := vectorsThere j vector written recorded
            exact ⟨_, r, rfl, (refresh_elsewhere _ _ _ _ _ written).trans at_, same⟩
        · rw [if_neg here]
          rw [if_neg fun same => here (Prod.mk.inj same).1] at recorded
          exact kept.vectors k j vector recorded

theorem advance_kept_iff {x : Interleaved} (kept : Kept x) (env : RecomputeEnv) (i : Nat) :
    Kept (x.step registry (.advance env i)) ↔ UpToDate x (.advance env i) := by
  by_cases writes : ∃ job y encoded later rest,
      x.tasks[i]? = some (.writing job (y :: encoded) later rest)
  · obtain ⟨job, y, encoded, later, rest, there⟩ := writes
    exact writeBack_kept_iff kept env i there
  · refine iff_of_true ?_ fun job y encoded later rest there =>
      absurd ⟨job, y, encoded, later, rest, there⟩ writes
    simp only [Interleaved.step]
    split
    · exact kept
    · rename_i task there
      have quiet : ∀ job y encoded later rest, task ≠ .writing job (y :: encoded) later rest :=
        fun job y encoded later rest same => writes ⟨job, y, encoded, later, rest, same ▸ there⟩
      have unrecorded : recordVector x task = x := by
        unfold recordVector
        split
        · rename_i job y encoded later rest
          exact absurd rfl (quiet job y encoded later rest)
        · rfl
      obtain ⟨store, -, -⟩ := advance_quiet (env.with registry) x.state task quiet
      rw [unrecorded]
      constructor
      · dsimp only
        rw [store]
        exact kept.values
      · dsimp only
        rw [store]
        exact kept.vectors

theorem kept_step {x : Interleaved} (kept : Kept x) (a : Action) :
    Kept (x.step registry a) ↔ UpToDate x a := by
  cases a with
  | beginUpdate env p =>
    refine iff_of_true ?_ trivial
    rcases beginUpdate_ends env x.state p with ⟨e, failed⟩ | ⟨old, entries, found, begun⟩
    · simp only [Interleaved.step, failed]
      exact ⟨kept.values, kept.vectors⟩
    · simp only [Interleaved.step, begun]
      exact ⟨kept.values, kept.vectors⟩
  | finishUpdate i => exact finishUpdate_kept_iff kept i
  | startRecompute env => exact iff_of_true ⟨kept.values, kept.vectors⟩ trivial
  | advance env i => exact advance_kept_iff kept env i

/-- Whatever the state the calls start from and however they interleave, nothing that UPDATEs
and recomputes write is lost iff every copy that is written back is up to date. -/
theorem writes_kept_iff (registry : Registry) (s : State) (as : List Action) :
    (∀ x ∈ Run.visited (Interleaved.step registry) (.start s) as, Kept x) ↔
      ∀ p ∈ Run.taken (Interleaved.step registry) (.start s) as, UpToDate p.1 p.2 :=
  Run.good_iff_guarded (Interleaved.step registry) (fun _ => True) Kept UpToDate as trivial
    ⟨by simp [Interleaved.start], by simp [Interleaved.start]⟩ (fun _ _ _ _ _ => trivial)
    fun _ a _ kept => kept_step kept a

end Kept

section Examples
attribute [local instance] headerOnly

/-- The UPDATE and the recompute of both representations are done, and the vector that was
computed for the title is not the stored one. -/
theorem first_vector_lost :
    ¬ Kept (bothDirty.foldl (Interleaved.step measured)
      (.start (oneDoc.foldl State.step (State.init default)))) := by
  intro kept
  have recorded : (bothDirty.foldl (Interleaved.step measured)
      (.start (oneDoc.foldl State.step (State.init default)))).vectors[(("docs", "d"), 0)]? =
        some (.dense [⟨2⟩]) := by decide
  have stored : ((bothDirty.foldl (Interleaved.step measured)
      (.start (oneDoc.foldl State.step (State.init default)))).state.store.entities[("docs", "d")]?.bind
        fun e => e.representations[0]?.map Representation.vector) =
      some (.dense [⟨1⟩]) := by decide
  obtain ⟨e, r, there, first, same⟩ := kept.vectors ("docs", "d") 0 _ recorded
  rw [there, Option.bind_some, first, Option.map_some, same] at stored
  exact absurd stored (by decide)

end Examples
end TronDB.Engine
