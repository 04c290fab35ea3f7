import TronDB.Engine.Performed
import TronDB.Engine.Session
import TronDB.Lib.Run

/-! Which writes leave the log and the data as they are: exactly those that their own checks
refuse. Everything else is logged. -/
namespace TronDB.Engine
open TronDB.Core Binary Wal

/-- What an engine holds and what it has logged. -/
structure Holdings where
  data : Data
  schemas : FinMap String CollectionSchema
  edgeTypes : FinMap String EdgeType
  adjacency : AdjacencyIndex
  wal : WalWriter (WalSegment Payload) Payload

def State.holdings (s : State) : Holdings := ⟨dataOf s.store, s.schemas, s.edgeTypes, s.adjacency, s.wal⟩

/-- What the loop over the search results passes over. -/
def passedOver (et : EdgeType) (id : LogicalId) (existing : List LogicalId)
    (candidate : LogicalId × F32) : Bool :=
  candidate.2.lt et.inferenceConfig.confidenceFloor || candidate.1 = id || candidate.1 ∈ existing

/-- Nothing is inferred for the entity along the edge type. -/
def NothingInferred (env : Env) (collection : String) (id : LogicalId) (s : State) (et : EdgeType) : Prop :=
  ∀ source vector key hnsw, s.store.get collection id = .ok source → denseVector source = some vector →
    (env.denseOrder.order s.indexes.toList).find? (fun e => e.1.1 = et.toCollection) = some (key, hnsw) →
    et.inferenceConfig.limit = 0 ∨
      ∀ candidate ∈ env.search hnsw vector (et.inferenceConfig.limit * 4),
        passedOver et id ((s.adjacency.get id et.name).map AdjEntry.toId) candidate = true

def NothingDrained (env : Env) (s : State) (id : LogicalId) : Prop :=
  ∀ collection, s.entityCollections[id]? = some collection → ∀ et ∈ s.edgeTypes.toList.map Prod.snd,
    et.fromCollection = collection → et.inferenceConfig.auto = true → NothingInferred env collection id s et

def NothingDecayed (env : Env) (s : State) (et : EdgeType) (now : Nat) : Prop :=
  ∀ threshold ∈ et.decayConfig.pruneThreshold, ∀ edge ∈ s.store.scanEdges et.name,
    decayed env now et threshold edge = false

section Refusals
variable [WalPayload Payload]

/-- The checks before the log refuse the write, or a task finds nothing to do. -/
def Refused (env : Env) (s : State) : Write → Prop
  | .createCollection p => checkDuplicates p ≠ .ok ()
  | .dropCollection name => s.schemas.contains name = false
  | .createEdgeType p =>
    s.store.hasCollection p.fromCollection = false ∨ s.store.hasCollection p.toCollection = false
  | .dropEdgeType name => s.edgeTypes.contains name = false
  | .alterCollection p => ∀ schema entities, s.store.getCollectionSchema p.collection = .ok schema →
      s.store.scan p.collection = .ok entities → checkAlter schema p.collection p.operation ≠ .ok ()
  | .insert p => ∀ schema e, s.schemas[p.collection]? = some schema →
      checkVectors schema p.collection p.vectors = .ok () →
      buildEntity env schema p ((findIdInFields p.fields p.values).getD (env.freshId 0)) ≠ .ok e
  | .updateEntity p => ∀ old, s.store.get p.collection p.entityId ≠ .ok old
  | .deleteEntity p => ∀ old, s.store.get p.collection p.entityId ≠ .ok old
  | .importCollection p => ∀ schema lines, s.schemas[p.collection]? = some schema →
      env.importLines p.path ≠ .ok lines
  | .insertEdge p => ∀ et source target validFrom validTo, s.store.getEdgeType p.edgeType = .ok et →
      s.store.get et.fromCollection p.fromId = .ok source →
      s.store.get et.toCollection p.toId = .ok target →
      parseOptional p.validFrom = .ok validFrom → parseOptional p.validTo ≠ .ok validTo
  | .deleteEdge _ => False
  | .confirmEdge p => (∀ et, s.store.getEdgeType p.edgeType ≠ .ok et) ∨
      ∃ edge, s.store.getEdge p.edgeType p.fromId p.toId = some edge ∧ edge.source = .structural
  | .sweepDecayedEdges => ∀ et ∈ s.edgeTypes.toList.map Prod.snd,
      NothingDecayed env s et (env.nowMillis s.wal.nextTx)
  | .drainInferenceQueue => ∀ id ∈ s.inferenceQueue.toList.map Prod.fst, NothingDrained env s id

/-- Refused and nothing has changed, or let through and the log has grown. -/
def RefusedOrLogged (refused : Prop) (s s' : State) : Prop :=
  refused ∧ s'.holdings = s.holdings ∨ ¬ refused ∧ s.wal.nextLsn < s'.wal.nextLsn

/-! ### The log grows -/

theorem nextLsn_logTx (s : State) (ts : Int) (collection : String) (entries : List (Entry Payload)) :
    (s.logTx ts collection entries).wal.nextLsn = s.wal.nextLsn + entries.length + 2 := by
  obtain ⟨-, -, lsn, -⟩ :=
    WalWriter.appendAll_spec entries (s.wal.beginTx collection ts) collection s.wal.nextTx ts
  have begun : (s.wal.beginTx collection ts).nextLsn = s.wal.nextLsn + 1 := rfl
  unfold State.logTx WalWriter.transaction
  dsimp only
  rw [WalWriter.nextLsn_commit, lsn, begun]
  omega

theorem logged {refused : Prop} {s t s' : State} {ts : Int} {collection : String}
    {entries : List (Entry Payload)} (through : ¬ refused)
    (wal : s'.wal = (t.logTx ts collection entries).wal) (before : t.wal = s.wal) :
    RefusedOrLogged refused s s' := by
  refine .inr ⟨through, ?_⟩
  rw [wal, nextLsn_logTx, before]
  omega

omit [WalPayload Payload] in
theorem wal_enqueue (s : State) (collection : String) (id : LogicalId) :
    (s.enqueue collection id).wal = s.wal := by
  unfold State.enqueue
  split <;> rfl

omit [WalPayload Payload] in
theorem wal_of_holdings {s s' : State} (same : s'.holdings = s.holdings) : s'.wal = s.wal :=
  congrArg Holdings.wal same

omit [WalPayload Payload] in
@[simp] theorem holdings_removeOldEntries (s : State) (env : Env) (collection : String) (id : LogicalId) :
    (s.removeOldEntries env collection id).holdings = s.holdings := by
  unfold State.removeOldEntries State.holdings
  split
  · rfl
  · dsimp only
    rw [data_removeFieldEntries]

/-! ### Statements -/

theorem refused_createCollection (env : Env) (s : State) (p : CreateCollectionPlan) :
    RefusedOrLogged (checkDuplicates p ≠ .ok ()) s (createCollection env s p).2 := by
  unfold createCollection
  cases checked : checkDuplicates p with
  | error e => exact .inl ⟨nofun, rfl⟩
  | ok u =>
    dsimp only
    split <;> exact logged (fun refused => refused rfl) rfl rfl

theorem refused_dropCollection (env : Env) (s : State) (name : String) :
    RefusedOrLogged (s.schemas.contains name = false) s (dropCollection env s name).2 := by
  unfold dropCollection
  split
  · rename_i there
    dsimp only
    split <;> exact logged (by simp [there]) rfl rfl
  · rename_i missing
    exact .inl ⟨Bool.eq_false_iff.mpr missing, rfl⟩

theorem refused_createEdgeType (env : Env) (s : State) (p : CreateEdgeTypePlan) :
    RefusedOrLogged (s.store.hasCollection p.fromCollection = false ∨
      s.store.hasCollection p.toCollection = false) s (createEdgeType env s p).2 := by
  unfold createEdgeType
  split
  · rename_i source
    split
    · rename_i target
      dsimp only
      split <;> exact logged (by simp [source, target]) rfl rfl
    · rename_i missing
      exact .inl ⟨.inr (Bool.eq_false_iff.mpr missing), rfl⟩
  · rename_i missing
    exact .inl ⟨.inl (Bool.eq_false_iff.mpr missing), rfl⟩

theorem refused_dropEdgeType (env : Env) (s : State) (name : String) :
    RefusedOrLogged (s.edgeTypes.contains name = false) s (dropEdgeType env s name).2 := by
  unfold dropEdgeType
  split
  · rename_i there
    exact logged (by simp [there]) rfl rfl
  · rename_i missing
    exact .inl ⟨Bool.eq_false_iff.mpr missing, rfl⟩

theorem refused_alterCollection (env : Env) (s : State) (p : AlterCollectionPlan) :
    RefusedOrLogged (Refused env s (.alterCollection p)) s (alterCollection env s p).2 := by
  rw [Refused]
  unfold alterCollection
  cases s.store.getCollectionSchema p.collection with
  | error e => exact .inl ⟨fun _ _ none_ => (nomatch none_), rfl⟩
  | ok schema =>
    cases s.store.scan p.collection with
    | error e => exact .inl ⟨fun _ _ _ none_ => (nomatch none_), rfl⟩
    | ok entities =>
      dsimp only
      cases checked : checkAlter schema p.collection p.operation with
      | error e =>
        refine .inl ⟨fun schema' entities' found scanned => ?_, rfl⟩
        cases found
        cases scanned
        rw [checked]
        exact nofun
      | ok u =>
        have through : ¬ ∀ schema' entities', Except.ok (ε := EngineError) schema = .ok schema' →
            Except.ok (ε := EngineError) entities = .ok entities' →
              checkAlter schema' p.collection p.operation ≠ .ok () :=
          fun refused => refused schema entities rfl rfl checked
        dsimp only
        split <;> exact logged through (alterMemory_wal _ _ _ _ _) rfl

omit [WalPayload Payload] in
theorem wal_applyInsert (env : Env) (s : State) (collection : String) (e : Entity) :
    (s.applyInsert env collection e).2.wal = s.wal := by
  unfold State.applyInsert
  split
  · rfl
  · dsimp only
    split
    · rfl
    · exact wal_enqueue _ _ _

theorem refused_insert (env : Env) (s : State) (p : InsertPlan) :
    RefusedOrLogged (Refused env s (.insert p)) s (insert env s p).2 := by
  rw [Refused]
  unfold insert
  cases s.schemas[p.collection]? with
  | none => exact .inl ⟨fun _ _ none_ => (nomatch none_), rfl⟩
  | some schema =>
    dsimp only
    cases checked : checkVectors schema p.collection p.vectors with
    | error e =>
      refine .inl ⟨fun schema' e' found fits => ?_, rfl⟩
      cases found
      cases checked.symm.trans fits
    | ok u =>
      dsimp only
      generalize (findIdInFields p.fields p.values).getD (env.freshId 0) = id
      have before := holdings_removeOldEntries s env p.collection id
      cases built : buildEntity env schema p id with
      | error e =>
        refine .inl ⟨fun schema' e' found fits => ?_, before⟩
        cases found
        rw [built]
        exact nofun
      | ok e =>
        exact logged (fun refused => refused schema e rfl checked built) (wal_applyInsert env _ _ _)
          (wal_of_holdings before)

theorem refused_updateEntity (env : Env) (s : State) (p : UpdateEntityPlan) :
    RefusedOrLogged (Refused env s (.updateEntity p)) s (updateEntity env s p).2 := by
  rw [Refused]
  unfold updateEntity
  cases s.store.get p.collection p.entityId with
  | error e => exact .inl ⟨fun _ none_ => (nomatch none_), rfl⟩
  | ok old =>
    have through : ¬ ∀ e, Except.ok (ε := EngineError) old ≠ .ok e := fun refused => refused old rfl
    dsimp only
    split
    · exact logged through rfl rfl
    · split
      · exact logged through rfl rfl
      · exact logged through (wal_enqueue _ _ _) rfl

theorem refused_deleteEntity (env : Env) (s : State) (p : DeleteEntityPlan) :
    RefusedOrLogged (Refused env s (.deleteEntity p)) s (deleteEntity env s p).2 := by
  rw [Refused]
  unfold deleteEntity
  cases s.store.get p.collection p.entityId with
  | error e => exact .inl ⟨fun _ none_ => (nomatch none_), rfl⟩
  | ok old =>
    dsimp only
    split <;> exact logged (fun refused => refused old rfl) rfl rfl

omit [WalPayload Payload] in
theorem nextLsn_importLoop (env : Env) (collection : String) (txId : Nat) (lines : List ImportLine)
    (imported : Nat) (s : State) :
    s.wal.nextLsn ≤ (importLoop env collection txId lines imported s).2.wal.nextLsn :=
  importLoop_invariant (P := fun t => s.wal.nextLsn ≤ t.wal.nextLsn) env collection txId
    (fun _ _ le => Nat.le_succ_of_le le) (fun _ _ _ le => Nat.le_succ_of_le le) lines imported
    (Nat.le_refl _)

theorem refused_importCollection (env : Env) (s : State) (p : ImportPlan) :
    RefusedOrLogged (Refused env s (.importCollection p)) s (importCollection env s p).2 := by
  rw [Refused]
  unfold importCollection
  cases s.schemas[p.collection]? with
  | none => exact .inl ⟨fun _ _ none_ => (nomatch none_), rfl⟩
  | some schema =>
    dsimp only
    cases opened : env.importLines p.path with
    | error e => exact .inl ⟨fun _ _ _ none_ => (nomatch none_), rfl⟩
    | ok lines =>
      refine .inr ⟨fun refused => refused schema lines rfl rfl, ?_⟩
      have begun : (s.wal.beginTx p.collection env.ts).nextLsn = s.wal.nextLsn + 1 := rfl
      have grown := nextLsn_importLoop env p.collection s.wal.nextTx lines 0
        { s with wal := s.wal.beginTx p.collection env.ts }
      dsimp only at grown ⊢
      rw [begun] at grown
      split
      · rename_i ended
        rw [ended] at grown
        exact grown
      · rename_i ended
        rw [ended] at grown
        dsimp only at grown ⊢
        rw [WalWriter.nextLsn_commit]
        omega

theorem refused_insertEdge (env : Env) (s : State) (p : InsertEdgePlan) :
    RefusedOrLogged (Refused env s (.insertEdge p)) s (insertEdge env s p).2 := by
  rw [Refused]
  unfold insertEdge
  cases s.store.getEdgeType p.edgeType with
  | error e => exact .inl ⟨fun _ _ _ _ _ none_ => (nomatch none_), rfl⟩
  | ok et =>
    dsimp only
    cases source : s.store.get et.fromCollection p.fromId with
    | error e =>
      refine .inl ⟨fun et' _ _ _ _ found here => ?_, rfl⟩
      cases found
      cases source.symm.trans here
    | ok sourceEntity =>
      dsimp only
      cases target : s.store.get et.toCollection p.toId with
      | error e =>
        refine .inl ⟨fun et' _ _ _ _ found _ here => ?_, rfl⟩
        cases found
        cases target.symm.trans here
      | ok targetEntity =>
        dsimp only
        cases first : parseOptional p.validFrom with
        | error e => exact .inl ⟨fun _ _ _ _ _ _ _ _ none_ => (nomatch none_), rfl⟩
        | ok validFrom =>
          cases second : parseOptional p.validTo with
          | error e => exact .inl ⟨fun _ _ _ _ _ _ _ _ _ none_ => (nomatch none_), rfl⟩
          | ok validTo =>
            refine logged (fun refused => ?_) rfl rfl
            exact refused et sourceEntity targetEntity validFrom validTo rfl source target rfl rfl

theorem refused_confirmEdge (env : Env) (s : State) (p : ConfirmEdgePlan) :
    RefusedOrLogged (Refused env s (.confirmEdge p)) s (confirmEdge env s p).2 := by
  rw [Refused]
  unfold confirmEdge
  cases s.store.getEdgeType p.edgeType with
  | error e => exact .inl ⟨.inl nofun, rfl⟩
  | ok et =>
    dsimp only
    cases s.store.getEdge p.edgeType p.fromId p.toId with
    | none => exact logged (by simp) rfl rfl
    | some edge =>
      dsimp only
      cases source : edge.source with
      | structural => exact .inl ⟨.inr ⟨edge, rfl, source⟩, rfl⟩
      | inferred | confirmed => exact logged (by simp [source]) rfl rfl

/-! ### Background tasks -/

theorem grows_removeEdge (s : State) (ts : Int) (edgeType : String) (fromId toId : LogicalId) :
    s.wal.nextLsn < (s.removeEdge ts edgeType fromId toId).wal.nextLsn := by
  have more := nextLsn_logTx s ts edgeType [(.edgeDelete, .edgeDelete edgeType fromId toId)]
  have same : (s.removeEdge ts edgeType fromId toId).wal = (s.logTx ts edgeType _).wal := rfl
  rw [same, more]
  omega

theorem grows_writeEdge (s : State) (ts : Int) (recordType : RecordType) (edge : Edge) :
    s.wal.nextLsn < (s.writeEdge ts recordType edge).wal.nextLsn := by
  have more := nextLsn_logTx s ts edge.edgeType [(recordType, .edge edge)]
  have same : (s.writeEdge ts recordType edge).wal = (s.logTx ts edge.edgeType _).wal := rfl
  rw [same, more]
  omega

theorem grows_removeEdges (env : Env) (edgeType : String) (edges : List Edge) (s : State) :
    s.wal.nextLsn ≤ (edges.foldl (fun s edge =>
      s.removeEdge env.ts edgeType edge.fromId edge.toId) s).wal.nextLsn := by
  induction edges generalizing s with
  | nil => exact Nat.le_refl _
  | cons edge rest ih =>
    exact Nat.le_trans (Nat.le_of_lt (grows_removeEdge s env.ts edgeType edge.fromId edge.toId)) (ih _)

theorem sweepEdgeType_silent (env : Env) (now : Nat) (s : State) (et : EdgeType) :
    NothingDecayed env s et now ∧ sweepEdgeType env now s et = s ∨
      ¬ NothingDecayed env s et now ∧ s.wal.nextLsn < (sweepEdgeType env now s et).wal.nextLsn := by
  unfold NothingDecayed sweepEdgeType
  cases et.decayConfig.pruneThreshold with
  | none => exact .inl ⟨nofun, rfl⟩
  | some threshold =>
    dsimp only
    cases found : (s.store.scanEdges et.name).filter (decayed env now et threshold) with
    | nil =>
      refine .inl ⟨fun threshold' here edge there => ?_, rfl⟩
      cases here
      exact Bool.eq_false_iff.mpr (List.filter_eq_nil_iff.mp found edge there)
    | cons edge rest =>
      refine .inr ⟨fun nothing => ?_, ?_⟩
      · have there : edge ∈ (s.store.scanEdges et.name).filter (decayed env now et threshold) :=
          found ▸ List.mem_cons_self
        rw [List.mem_filter] at there
        exact absurd (nothing threshold rfl edge there.1) (by simp [there.2])
      · exact Nat.lt_of_lt_of_le (grows_removeEdge s env.ts et.name edge.fromId edge.toId)
          (grows_removeEdges env et.name rest _)

theorem refused_sweep (env : Env) (s : State) :
    RefusedOrLogged (Refused env s .sweepDecayedEdges) s (sweepDecayedEdges env s) := by
  have types := (env.edgeTypeOrder.perm s.edgeTypes.toList).map Prod.snd
  have swept := Run.foldl_silent (sweepEdgeType env (env.nowMillis s.wal.nextTx)) id
    (fun s => s.wal.nextLsn) (fun t et => NothingDecayed env t et (env.nowMillis s.wal.nextTx))
    (fun t et => sweepEdgeType_silent env _ t et)
    ((env.edgeTypeOrder.order s.edgeTypes.toList).map Prod.snd) s
  simp only [types.mem_iff, id] at swept
  rcases swept with ⟨nothing, same⟩ | ⟨some, more⟩
  · exact .inl ⟨nothing, congrArg State.holdings same⟩
  · exact .inr ⟨some, more⟩

theorem inferLoop_silent (env : Env) (et : EdgeType) (id : LogicalId) (existing : List LogicalId)
    (results : List (LogicalId × F32)) (created : Nat) (s : State) :
    ((et.inferenceConfig.limit ≤ created ∨ ∀ r ∈ results, passedOver et id existing r = true) ∧
        inferLoop env et id existing results created s = s) ∨
      ¬ (et.inferenceConfig.limit ≤ created ∨ ∀ r ∈ results, passedOver et id existing r = true) ∧
        s.wal.nextLsn < (inferLoop env et id existing results created s).wal.nextLsn := by
  induction results generalizing created s with
  | nil => exact .inl ⟨.inr nofun, rfl⟩
  | cons r rest ih =>
    obtain ⟨target, score⟩ := r
    have test : (score.lt et.inferenceConfig.confidenceFloor || target = id || target ∈ existing) =
        passedOver et id existing (target, score) := rfl
    rw [inferLoop, List.forall_mem_cons, test]
    by_cases full : et.inferenceConfig.limit ≤ created
    · rw [if_pos full]
      exact .inl ⟨.inl full, rfl⟩
    · rw [if_neg full]
      by_cases passed : passedOver et id existing (target, score) = true
      · rw [if_pos passed]
        simp only [full, passed, false_or, true_and] at ih ⊢
        have later := ih created s
        simpa only [full, false_or] using later
      · rw [if_neg passed]
        refine .inr ⟨fun either => either.elim full fun both => passed both.1, ?_⟩
        dsimp only
        have first := grows_writeEdge s env.ts .edgeInferred
          ⟨id, target, et.name, score, ∅, env.nowMillis s.wal.nextTx, .inferred, none, none⟩
        refine Nat.lt_of_lt_of_le first ?_
        rcases ih (created + 1) (s.writeEdge env.ts .edgeInferred
          ⟨id, target, et.name, score, ∅, env.nowMillis s.wal.nextTx, .inferred, none, none⟩) with
          ⟨_, same⟩ | ⟨_, more⟩
        · rw [same]
        · exact Nat.le_of_lt more

theorem inferEdgeType_silent (env : Env) (collection : String) (id : LogicalId) (s : State)
    (et : EdgeType) :
    NothingInferred env collection id s et ∧ inferEdgeType env collection id s et = s ∨
      ¬ NothingInferred env collection id s et ∧
        s.wal.nextLsn < (inferEdgeType env collection id s et).wal.nextLsn := by
  unfold NothingInferred inferEdgeType
  cases s.store.get collection id with
  | error e => exact .inl ⟨fun _ _ _ _ none_ => (nomatch none_), rfl⟩
  | ok source =>
    dsimp only
    cases dense : denseVector source with
    | none =>
      refine .inl ⟨fun source' _ _ _ same found => ?_, rfl⟩
      cases same
      cases dense.symm.trans found
    | some vector =>
      dsimp only
      cases (env.denseOrder.order s.indexes.toList).find? fun e => e.1.1 = et.toCollection with
      | none => exact .inl ⟨fun _ _ _ _ _ _ none_ => (nomatch none_), rfl⟩
      | some found =>
        obtain ⟨key, hnsw⟩ := found
        dsimp only
        have loop := inferLoop_silent env et id ((s.adjacency.get id et.name).map AdjEntry.toId)
          (env.search hnsw vector (et.inferenceConfig.limit * 4)) 0 s
        rw [Nat.le_zero] at loop
        rcases loop with ⟨nothing, same⟩ | ⟨some, more⟩
        · refine .inl ⟨fun source' vector' key' hnsw' here here' here'' => ?_, same⟩
          cases here
          cases dense.symm.trans here'
          cases here''
          exact nothing
        · exact .inr ⟨fun nothing => some (nothing source vector key hnsw rfl dense rfl), more⟩

def State.unqueued (s : State) : State := { s with inferenceQueue := ∅ }

theorem drainEntity_silent (env : Env) (s : State) (id : LogicalId) :
    NothingDrained env s.unqueued id ∧ (drainEntity env s id).unqueued = s.unqueued ∨
      ¬ NothingDrained env s.unqueued id ∧ s.wal.nextLsn < (drainEntity env s id).wal.nextLsn := by
  unfold NothingDrained drainEntity
  dsimp only [State.unqueued]
  cases s.entityCollections[id]? with
  | none => exact .inl ⟨nofun, rfl⟩
  | some collection =>
    dsimp only
    have types := (env.edgeTypeOrder.perm s.edgeTypes.toList).map Prod.snd
    have drained := Run.foldl_silent (inferEdgeType env collection id) (fun s => s) (fun s => s.wal.nextLsn)
      (fun t et => NothingInferred env collection id t et)
      (fun t et => inferEdgeType_silent env collection id t et)
      (((env.edgeTypeOrder.order s.edgeTypes.toList).map Prod.snd).filter fun et =>
        et.fromCollection = collection && et.inferenceConfig.auto)
      { s with inferenceQueue := s.inferenceQueue.erase id }
    simp only [List.mem_filter, types.mem_iff, Bool.and_eq_true, decide_eq_true_eq] at drained
    have same : (∀ collection', some collection = some collection' →
        ∀ et ∈ s.edgeTypes.toList.map Prod.snd, et.fromCollection = collection' →
          et.inferenceConfig.auto = true → NothingInferred env collection' id s.unqueued et) ↔
        ∀ et, et ∈ s.edgeTypes.toList.map Prod.snd ∧ et.fromCollection = collection ∧
          et.inferenceConfig.auto = true → NothingInferred env collection id s.unqueued et := by
      constructor
      · exact fun all et both => all collection rfl et both.1 both.2.1 both.2.2
      · intro all collection' here et there own auto
        cases here
        exact all et ⟨there, own, auto⟩
    rcases drained with ⟨nothing, kept⟩ | ⟨some, more⟩
    · have unchanged := congrArg State.unqueued kept
      exact .inl ⟨same.mpr nothing, unchanged⟩
    · exact .inr ⟨fun nothing => some (same.mp nothing), more⟩

theorem refused_drain (env : Env) (s : State) :
    RefusedOrLogged (Refused env s .drainInferenceQueue) s (drainInferenceQueue env s) := by
  have queue := env.queueOrder.perm (s.inferenceQueue.toList.map Prod.fst)
  have drained := Run.foldl_silent (drainEntity env) State.unqueued (fun s => s.wal.nextLsn)
    (NothingDrained env) (fun t id => drainEntity_silent env t id)
    (env.queueOrder.order (s.inferenceQueue.toList.map Prod.fst)) s
  simp only [queue.mem_iff] at drained
  rcases drained with ⟨nothing, same⟩ | ⟨some, more⟩
  · have unchanged := congrArg State.holdings same
    exact .inl ⟨nothing, unchanged⟩
  · exact .inr ⟨some, more⟩

theorem refused_perform (env : Env) (s : State) (w : Write) :
    RefusedOrLogged (Refused env s w) s (perform env s w).2 := by
  cases w with
  | createCollection p => exact refused_createCollection env s p
  | dropCollection name => exact refused_dropCollection env s name
  | createEdgeType p => exact refused_createEdgeType env s p
  | dropEdgeType name => exact refused_dropEdgeType env s name
  | alterCollection p => exact refused_alterCollection env s p
  | insert p => exact refused_insert env s p
  | updateEntity p => exact refused_updateEntity env s p
  | deleteEntity p => exact refused_deleteEntity env s p
  | importCollection p => exact refused_importCollection env s p
  | insertEdge p => exact refused_insertEdge env s p
  | deleteEdge p => exact .inr ⟨fun no => no, grows_removeEdge s env.ts p.edgeType p.fromId p.toId⟩
  | confirmEdge p => exact refused_confirmEdge env s p
  | sweepDecayedEdges => exact refused_sweep env s
  | drainInferenceQueue => exact refused_drain env s

theorem holdings_perform_iff (env : Env) (s : State) (w : Write) :
    (perform env s w).2.holdings = s.holdings ↔ Refused env s w := by
  rcases refused_perform env s w with ⟨refused, same⟩ | ⟨through, more⟩
  · exact iff_of_true same refused
  · refine iff_of_false (fun same => ?_) through
    rw [wal_of_holdings same] at more
    exact Nat.lt_irrefl _ more

end Refusals
end TronDB.Engine
