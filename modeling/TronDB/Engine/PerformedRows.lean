import TronDB.Engine.Performed

/-! What the writes of entities and edges append to the log. -/
namespace TronDB.Engine
open TronDB.Core Binary Wal

section Perform
variable [WalPayload Payload]

theorem performed_putEntity {s s' : State} (ts : Int) (collection : String) (e : Entity)
    (rest : List (Entry Payload)) (present : (dataOf s.store).collections.contains collection = true)
    (silent : ∀ entry ∈ rest, Silent entry)
    (wal : s'.wal = s.wal.transaction collection ts (entityWrite e :: rest))
    (data : dataOf s'.store = (dataOf s.store).putEntity collection e) :
    Performed s s' (filed collection (entityWrite e :: rest)) := by
  have quiet : ∀ entry ∈ entityWrite e :: rest, Quiet entry :=
    List.forall_mem_cons.mpr ⟨.inl ⟨e, rfl⟩, fun entry listed => .inr (silent entry listed)⟩
  obtain ⟨mutating, decoded⟩ := quiet_mutating quiet
  refine ⟨logs_of_wal ts collection _ wal mutating decoded (legalAll_quiet quiet present), ?_⟩
  rw [data]
  exact (foldl_silent silent _).symm

section Rest
omit [WalPayload Payload]

theorem data_insert {store store' : Store} {collection : String} {e : Entity}
    (ok : store.insert collection e = .ok store') :
    (dataOf store).collections.contains collection = true ∧
      dataOf store' = (dataOf store).putEntity collection e := by
  unfold Store.insert at ok
  split at ok
  · rename_i present
    cases ok
    exact ⟨present, (if_pos present).symm⟩
  · cases ok

theorem removeOldEntries_rest (env : Env) (s : State) (collection : String) (id : LogicalId) :
    dataOf (s.removeOldEntries env collection id).store = dataOf s.store ∧
      (s.removeOldEntries env collection id).wal = s.wal := by
  unfold State.removeOldEntries
  split
  · exact ⟨rfl, rfl⟩
  · exact ⟨data_removeFieldEntries _ _ _, rfl⟩

theorem enqueue_rest (s : State) (collection : String) (id : LogicalId) :
    (s.enqueue collection id).store = s.store ∧ (s.enqueue collection id).wal = s.wal := by
  unfold State.enqueue
  split <;> exact ⟨rfl, rfl⟩

theorem applyInsert_ok {env : Env} {s : State} {collection : String} {e : Entity} {r : QueryResult}
    {s' : State} (ok : s.applyInsert env collection e = (.ok r, s')) :
    (dataOf s.store).collections.contains collection = true ∧ s'.wal = s.wal ∧
      dataOf s'.store = (dataOf s.store).putEntity collection e := by
  unfold State.applyInsert at ok
  split at ok
  · cases ok
  · rename_i stored
    obtain ⟨present, put⟩ := data_insert stored
    dsimp only at ok
    split at ok
    · cases ok
    · cases ok
      rw [(enqueue_rest _ _ _).1, ← put]
      exact ⟨present, (enqueue_rest _ _ _).2, data_insertFieldEntries _ _ _⟩

end Rest

theorem performed_insert {env : Env} {s : State} {p : InsertPlan} {r : QueryResult} {s' : State}
    (ok : insert env s p = (.ok r, s')) :
    ∃ entries, (∀ e ∈ entries, Quiet e) ∧ Performed s s' (filed p.collection entries) := by
  unfold insert at ok
  split at ok
  · cases ok
  · split at ok
    · cases ok
    · dsimp only at ok
      split at ok
      · cases ok
      · obtain ⟨present, wal, data⟩ := applyInsert_ok ok
        obtain ⟨same, log⟩ := removeOldEntries_rest env s p.collection
          ((findIdInFields p.fields p.values).getD (env.freshId 0))
        rw [store_logTx, same] at present data
        simp only [State.logTx, log] at wal data
        have silent : ∀ (kds : List (ReprKey × LocationDescriptor)),
            ∀ entry ∈ kds.map fun kd => ((.locationUpdate, .location kd.1 kd.2) : Entry Payload),
              Silent entry := by
          intro kds entry listed
          obtain ⟨kd, -, rfl⟩ := List.mem_map.mp listed
          exact .inl ⟨kd.1, kd.2, rfl⟩
        refine ⟨_, ?_, performed_putEntity env.ts p.collection _ _ present (silent _) wal data⟩
        exact List.forall_mem_cons.mpr ⟨.inl ⟨_, rfl⟩, fun entry listed => .inr (silent _ entry listed)⟩

theorem performed_updateEntity {env : Env} {s : State} {p : UpdateEntityPlan} {r : QueryResult}
    {s' : State} (ok : updateEntity env s p = (.ok r, s')) :
    ∃ entries, (∀ e ∈ entries, Quiet e) ∧ Performed s s' (filed p.collection entries) := by
  unfold updateEntity at ok
  split at ok
  · cases ok
  · dsimp only at ok
    split at ok
    · cases ok
    · rename_i stored
      obtain ⟨present, put⟩ := data_insert stored
      split at ok
      · cases ok
      · cases ok
        have silent : ∀ (dirty : List Nat),
            ∀ entry ∈ dirty.map fun idx => ((.reprDirty, .reprKey (p.entityId, idx)) : Entry Payload),
              Silent entry := by
          intro dirty entry listed
          obtain ⟨idx, -, rfl⟩ := List.mem_map.mp listed
          exact .inr ⟨(p.entityId, idx), rfl⟩
        refine ⟨_, ?_, performed_putEntity env.ts p.collection _ _ present (silent _)
          (enqueue_rest _ _ _).2 ?_⟩
        · exact List.forall_mem_cons.mpr
            ⟨.inl ⟨_, rfl⟩, fun entry listed => .inr (silent _ entry listed)⟩
        · rw [(enqueue_rest _ _ _).1]
          exact (data_updateFieldEntries _ _ _ _ _).trans put

omit [WalPayload Payload] in
theorem importLoop_ok {env : Env} {collection : String} {txId : Nat} {lines : List ImportLine}
    {imported count : Nat} {s s' : State}
    (ok : importLoop env collection txId lines imported s = (.ok count, s')) :
    ∃ entities : List Entity,
      s'.wal = s.wal.appendAll collection txId env.ts (entities.map entityWrite) ∧
      dataOf s'.store =
        (filed collection (entities.map entityWrite)).foldl Data.replay (dataOf s.store) := by
  induction lines generalizing imported s with
  | nil =>
    cases ok
    exact ⟨[], rfl, rfl⟩
  | cons line rest ih =>
    cases line with
    | blank => exact ih ok
    | unreadable m => cases ok
    | unparsable m => cases ok
    | notObject => cases ok
    | object fields =>
      unfold importLoop at ok
      dsimp only at ok
      split at ok
      · cases ok
      · rename_i stored
        obtain ⟨-, put⟩ := data_insert stored
        obtain ⟨entities, wal, data⟩ := ih ok
        refine ⟨importEntity (env.freshId imported) fields :: entities, wal, ?_⟩
        rw [data, put]
        rfl

theorem performed_importCollection {env : Env} {s : State} {p : ImportPlan} {r : QueryResult}
    {s' : State} (synced : Synced s) (ok : importCollection env s p = (.ok r, s')) :
    ∃ entries, (∀ e ∈ entries, Quiet e) ∧ Performed s s' (filed p.collection entries) := by
  unfold importCollection at ok
  split at ok
  · cases ok
  · rename_i schema known
    rw [synced.schemas] at known
    split at ok
    · cases ok
    · dsimp only at ok
      split at ok
      · cases ok
      · rename_i run
        cases ok
        obtain ⟨entities, wal, data⟩ := importLoop_ok run
        have quiet := quiet_entityWrites entities
        obtain ⟨mutating, decoded⟩ := quiet_mutating quiet
        refine ⟨_, quiet, logs_of_wal env.ts p.collection _ ?_ mutating decoded
          (legalAll_quiet quiet ((contains_iff _ _).mpr ⟨schema, known⟩)), data⟩
        exact congrArg (WalWriter.commit · s.wal.nextTx env.ts) wal

/-! ### DELETE -/

/-- The edges a DELETE takes along, off the stored data. -/
def cascade (edges : List (String × LogicalId × LogicalId)) (d : Data) : Data :=
  edges.foldl (fun d e => d.eraseEdge e.1 e.2.1 e.2.2) d

omit [WalPayload Payload] in
theorem data_cascade (edges : List (String × LogicalId × LogicalId)) (store : Store) :
    dataOf (edges.foldl (fun store e => store.deleteEdge e.1 e.2.1 e.2.2) store) =
      cascade edges (dataOf store) := by
  induction edges generalizing store with
  | nil => rfl
  | cons e rest ih => exact ih (store.deleteEdge e.1 e.2.1 e.2.2)

omit [WalPayload Payload] in
theorem data_deleteEntity {store store' : Store} {collection : String} {id : LogicalId}
    (ok : store.deleteEntity collection id = .ok store') :
    (dataOf store).collections.contains collection = true ∧
      dataOf store' = (dataOf store).eraseEntity collection id := by
  unfold Store.deleteEntity at ok
  split at ok
  · rename_i present
    cases ok
    exact ⟨present, (if_pos present).symm⟩
  · cases ok

theorem logs_deleteEntity {env : Env} {s : State} {p : DeleteEntityPlan} {r : QueryResult}
    {s' : State} (ok : deleteEntity env s p = (.ok r, s')) :
    Logs s s' [(p.collection, .entityDelete, .entityDelete p.entityId p.collection)] ∧
      dataOf s'.store = cascade (s.adjacency.edgesInvolving p.entityId)
        ((dataOf s.store).eraseEntity p.collection p.entityId) := by
  unfold deleteEntity at ok
  split at ok
  · cases ok
  · rename_i entity _
    dsimp only at ok
    split at ok
    · cases ok
    · rename_i stored
      cases ok
      obtain ⟨present, erased⟩ := data_deleteEntity stored
      simp only [State.logTx, data_removeDeclaredEntries] at present erased
      refine ⟨logs_of_wal env.ts p.collection
        [(.entityDelete, .entityDelete p.entityId p.collection)] rfl
        (by simp [Mutating, RecordType.isControl]) (by simp [decodable]) ⟨present, trivial⟩, ?_⟩
      exact (data_cascade _ _).trans (congrArg (cascade _) erased)

/-! ### Edges -/

/-- Replay of the record type puts the edge of the entry. -/
def writesEdge (t : RecordType) : Prop :=
  t = .edgeWrite ∨ t = .edgeConfirm ∨ t = .edgeConfidenceUpdate ∨ t = .edgeInferred

theorem performed_writeEdge {s : State} {ts : Int} {t : RecordType} {edge : Edge}
    (writes : writesEdge t) (typed : s.store.hasEdgeType edge.edgeType = true) :
    Performed s (s.writeEdge ts t edge) [(edge.edgeType, t, .edge edge)] := by
  have put : dataOf (s.store.insertEdge edge) = (dataOf s.store).putEdge edge := (if_pos typed).symm
  obtain rfl | rfl | rfl | rfl := writes <;>
    exact ⟨logs_of_wal ts edge.edgeType [(_, .edge edge)] rfl
      (by simp [Mutating, RecordType.isControl]) (by simp [decodable]) ⟨typed, trivial⟩, put⟩

theorem performed_removeEdge (s : State) (ts : Int) (edgeType : String) (fromId toId : LogicalId) :
    Performed s (s.removeEdge ts edgeType fromId toId)
      [(edgeType, .edgeDelete, .edgeDelete edgeType fromId toId)] :=
  ⟨logs_of_wal ts edgeType [(.edgeDelete, .edgeDelete edgeType fromId toId)] rfl
    (by simp [Mutating, RecordType.isControl]) (by simp [decodable]) ⟨trivial, trivial⟩, rfl⟩

/-- The step logged what it did, and no schema operation. -/
def Wrote (s s' : State) : Prop :=
  ∃ added, Performed s s' added ∧ ∀ l ∈ added, l.2.1 ≠ .schemaAlter

namespace Wrote

theorem refl (s : State) : Wrote s s := ⟨[], .refl s, by simp⟩

theorem trans {s s' s'' : State} (first : Wrote s s') (second : Wrote s' s'') : Wrote s s'' := by
  obtain ⟨added, performed, plain⟩ := first
  obtain ⟨more, performed', plain'⟩ := second
  exact ⟨added ++ more, performed.trans performed', fun l hl =>
    (List.mem_append.mp hl).elim (plain l) (plain' l)⟩

theorem one {s s' : State} {l : Logged} (performed : Performed s s' [l])
    (plain : l.2.1 ≠ .schemaAlter) : Wrote s s' :=
  ⟨[l], performed, by simpa using plain⟩

theorem quiet {s s' : State} {collection : String} {entries : List (Entry Payload)}
    (performed : Performed s s' (filed collection entries)) (quiet : ∀ e ∈ entries, Quiet e) :
    Wrote s s' := by
  refine ⟨_, performed, fun l listed => ?_⟩
  obtain ⟨entry, there, rfl⟩ := List.mem_map.mp listed
  obtain ⟨e, rfl⟩ | ⟨key, descriptor, rfl⟩ | ⟨key, rfl⟩ := quiet entry there <;> nofun

theorem foldl {A : Type} (f : State → A → State) (inv : State → Prop) (as : List A)
    (each : ∀ s, ∀ a ∈ as, inv s → Wrote s (f s a) ∧ inv (f s a)) {s : State} (start : inv s) :
    Wrote s (as.foldl f s) := by
  induction as generalizing s with
  | nil => exact .refl s
  | cons a rest ih =>
    obtain ⟨wrote, kept⟩ := each s a List.mem_cons_self start
    exact wrote.trans (ih (fun s a ha => each s a (List.mem_cons_of_mem _ ha)) kept)

end Wrote

theorem wrote_writeEdge {s : State} (ts : Int) {t : RecordType} {edge : Edge}
    (writes : writesEdge t) (typed : s.store.hasEdgeType edge.edgeType = true) :
    Wrote s (s.writeEdge ts t edge) := by
  refine .one (performed_writeEdge writes typed) ?_
  obtain rfl | rfl | rfl | rfl := writes <;> nofun

theorem wrote_removeEdge (s : State) (ts : Int) (edgeType : String) (fromId toId : LogicalId) :
    Wrote s (s.removeEdge ts edgeType fromId toId) :=
  .one (performed_removeEdge s ts edgeType fromId toId) nofun

omit [WalPayload Payload] in
theorem getEdgeType_ok {store : Store} {name : String} {et : EdgeType}
    (ok : store.getEdgeType name = .ok et) : store.hasEdgeType name = true := by
  unfold Store.getEdgeType at ok
  split at ok
  · rename_i found
    exact (contains_iff _ _).mpr ⟨_, found⟩
  · cases ok

theorem wrote_insertEdge {env : Env} {s : State} {p : InsertEdgePlan} {r : QueryResult} {s' : State}
    (ok : insertEdge env s p = (.ok r, s')) : Wrote s s' := by
  unfold insertEdge at ok
  split at ok
  · cases ok
  · rename_i typed
    repeat' split at ok
    all_goals cases ok
    exact wrote_writeEdge env.ts (.inl rfl) (getEdgeType_ok typed)

theorem wrote_confirmEdge {env : Env} {s : State} {p : ConfirmEdgePlan} {r : QueryResult}
    {s' : State} (ok : confirmEdge env s p = (.ok r, s')) : Wrote s s' := by
  unfold confirmEdge at ok
  split at ok
  · cases ok
  · rename_i typed
    have known := getEdgeType_ok typed
    -- forgetting the adjacency entry first changes neither the log nor the store
    have forgotten {t : RecordType} {edge : Edge} (writes : writesEdge t)
        (own : edge.edgeType = p.edgeType) : Wrote s ((s.forgetEdge p).writeEdge env.ts t edge) := by
      obtain ⟨added, performed, plain⟩ :=
        wrote_writeEdge (s := s.forgetEdge p) env.ts writes (own ▸ known)
      exact ⟨added, ⟨⟨performed.sequential, performed.grown, performed.decodable, performed.legal⟩,
        performed.data⟩, plain⟩
    dsimp only at ok
    split at ok
    · split at ok
      · cases ok
      · cases ok
        exact forgotten (.inr (.inl rfl)) rfl
      · cases ok
        exact forgotten (.inr (.inr (.inl rfl))) rfl
    · cases ok
      exact wrote_writeEdge env.ts (.inr (.inl rfl)) known

theorem wrote_sweep (env : Env) (s : State) : Wrote s (sweepDecayedEdges env s) := by
  unfold sweepDecayedEdges
  refine Wrote.foldl _ (fun _ => True) _ (fun s et _ _ => ⟨?_, trivial⟩) trivial
  unfold sweepEdgeType
  split
  · exact .refl s
  · exact Wrote.foldl _ (fun _ => True) _
      (fun s edge _ _ => ⟨wrote_removeEdge s env.ts et.name edge.fromId edge.toId, trivial⟩) trivial

theorem wrote_inferLoop (env : Env) (et : EdgeType) (id : LogicalId) (existing : List LogicalId)
    (results : List (LogicalId × F32)) (created : Nat) {s : State}
    (typed : s.store.hasEdgeType et.name = true) :
    Wrote s (inferLoop env et id existing results created s) := by
  induction results generalizing created s with
  | nil => exact .refl s
  | cons r rest ih =>
    unfold inferLoop
    split
    · exact .refl s
    · split
      · exact ih created typed
      · exact (wrote_writeEdge env.ts (.inr (.inr (.inr rfl))) typed).trans (ih _ typed)

theorem wrote_inferEdgeType (env : Env) (collection : String) (id : LogicalId) {s : State}
    {et : EdgeType} (typed : s.store.hasEdgeType et.name = true) :
    Wrote s (inferEdgeType env collection id s et) := by
  unfold inferEdgeType
  repeat' split
  all_goals first | exact .refl s | exact wrote_inferLoop env et id _ _ _ typed

omit [WalPayload Payload] in
theorem edgeTypes_stored {env : Env} {s : State} (synced : Synced s) {et : EdgeType}
    (listed : et ∈ (env.edgeTypeOrder.order s.edgeTypes.toList).map Prod.snd) :
    s.store.hasEdgeType et.name = true := by
  obtain ⟨⟨name, et'⟩, there, rfl⟩ := List.mem_map.mp listed
  have found : s.edgeTypes[name]? = some et' :=
    (FinMap.mem_toList _ _ _).mp ((env.edgeTypeOrder.perm _).mem_iff.mp there)
  rw [synced.edgeTypes] at found
  rw [synced.edgeTypeNamed name et' found]
  exact (contains_iff _ _).mpr ⟨et', found⟩

theorem wrote_drainEntity (env : Env) {s : State} (id : LogicalId) (synced : Synced s) :
    Wrote s (drainEntity env s id) := by
  unfold drainEntity
  have popped : Wrote s { s with inferenceQueue := s.inferenceQueue.erase id } :=
    ⟨[], ⟨⟨fun seq => seq, fun _ => (List.append_nil _).symm, by simp, trivial⟩, rfl⟩, by simp⟩
  dsimp only
  split
  · exact popped
  · rename_i collection _
    refine popped.trans (Wrote.foldl _ (fun t => t.store.edgeTypes = s.store.edgeTypes) _
      (fun t et listed same => ?_) rfl)
    have typed := edgeTypes_stored synced (List.mem_filter.mp listed).1
    have known : t.store.hasEdgeType et.name = true := by
      rw [Store.hasEdgeType, same]
      exact typed
    exact ⟨wrote_inferEdgeType env collection id known,
      (sameSchemas_inferEdgeType env collection id t et).storedTypes.trans same⟩

theorem wrote_drain (env : Env) {s : State} (synced : Synced s) :
    Wrote s (drainInferenceQueue env s) :=
  Wrote.foldl _ Synced _ (fun _ id _ synced => ⟨wrote_drainEntity env id synced,
    (sameSchemas_drainEntity env _ id).synced synced⟩) synced

/-! ### Every write -/

omit [WalPayload Payload] in
theorem answer_ok {o : Outcome} (ok : (o.1.map fun _ => ()) = .ok ()) : ∃ r, o = (.ok r, o.2) := by
  obtain ⟨_ | r, t⟩ := o
  · cases ok
  · exact ⟨r, rfl⟩

/-- Writes other than ALTER and DELETE log exactly what they do, and no schema operation. -/
theorem wrote_perform {env : Env} {s : State} {w : Write} (synced : Synced s)
    (ok : succeeds env s w) (notAlter : ∀ p, w ≠ .alterCollection p)
    (notDelete : ∀ p, w ≠ .deleteEntity p) : Wrote s (perform env s w).2 := by
  cases w with
  | alterCollection p => exact absurd rfl (notAlter p)
  | deleteEntity p => exact absurd rfl (notDelete p)
  | createCollection p =>
    obtain ⟨r, ok⟩ := answer_ok ok
    exact .one (performed_createCollection ok) nofun
  | dropCollection name =>
    obtain ⟨r, ok⟩ := answer_ok ok
    exact .one (performed_dropCollection ok) nofun
  | createEdgeType p =>
    obtain ⟨r, ok⟩ := answer_ok ok
    exact .one (performed_createEdgeType ok) nofun
  | dropEdgeType name =>
    obtain ⟨r, ok⟩ := answer_ok ok
    exact .one (performed_dropEdgeType synced ok) nofun
  | insert p =>
    obtain ⟨r, ok⟩ := answer_ok ok
    obtain ⟨entries, quiet, performed⟩ := performed_insert ok
    exact .quiet performed quiet
  | updateEntity p =>
    obtain ⟨r, ok⟩ := answer_ok ok
    obtain ⟨entries, quiet, performed⟩ := performed_updateEntity ok
    exact .quiet performed quiet
  | importCollection p =>
    obtain ⟨r, ok⟩ := answer_ok ok
    obtain ⟨entries, quiet, performed⟩ := performed_importCollection synced ok
    exact .quiet performed quiet
  | insertEdge p =>
    obtain ⟨r, ok⟩ := answer_ok ok
    exact wrote_insertEdge ok
  | deleteEdge p => exact wrote_removeEdge s env.ts p.edgeType p.fromId p.toId
  | confirmEdge p =>
    obtain ⟨r, ok⟩ := answer_ok ok
    exact wrote_confirmEdge ok
  | sweepDecayedEdges => exact wrote_sweep env s
  | drainInferenceQueue => exact wrote_drain env synced

end Perform
end TronDB.Engine
