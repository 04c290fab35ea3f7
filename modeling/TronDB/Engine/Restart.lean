import TronDB.Engine.Replayed
import TronDB.Engine.Settled

/-! Replay of the log of a run onto the store of the run, as a starting engine does it. -/
namespace TronDB.Engine
open TronDB.Core Binary Wal Journal

section Runs
variable [WalPayload Payload]

/-- What recovery finds in the log is replayed onto the stored data without an error, and
leaves it as it is. -/
def RestartKeeps (s : State) : Prop :=
  ∀ (order : HashOrder (Nat × List (WalRecord Payload))) (t : State), t.store = s.store →
    ∃ t' rest, replayWalRecords t (recover order s.wal.dir).records = .ok (t', rest) ∧
      dataOf t'.store = dataOf s.store

theorem restartKeeps_iff {s : State} (tracked : Tracked s) :
    RestartKeeps s ↔ s.logged.foldl Data.replay (dataOf s.store) = dataOf s.store := by
  constructor
  · intro keeps
    obtain ⟨t, rest, replayed, same⟩ := keeps (.insertionOrder _) s rfl
    obtain ⟨t', rest', replayed', data⟩ := replay_recovered tracked (.insertionOrder _) s
    cases replayed.symm.trans replayed'
    exact data.symm.trans same
  · intro same order t stored
    obtain ⟨t', rest, replayed, data⟩ := replay_recovered tracked order t
    rw [stored] at data
    exact ⟨t', rest, replayed, data.trans same⟩

/-- The log of a state whose stored data is what the log says, entry by entry. -/
structure Historic (s : State) : Prop where
  tracked : Tracked s
  faithful : Faithful s
  legal : LegalAll .empty s.logged

def State.journal (s : State) (name : String) : List CollectionOp :=
  s.logged.filterMap (collectionOp name)

/-- The fields of every collection that was never dropped are settled under the operations
the log holds for it. -/
def Settled (s : State) : Prop :=
  ∀ (name : String) (schema : CollectionSchema), s.store.collections[name]? = some schema →
    .drop ∉ s.journal name → SettledFields (alters (s.journal name)) schema.fields

theorem collection_history {s : State} (historic : Historic s) (name : String) :
    (dataOf s.store).collection name = Journal.replay reapply .empty (s.journal name) := by
  rw [historic.faithful, Data.collection_foldl name s.logged Data.owned_empty]
  rfl

theorem edgeType_history {s : State} (historic : Historic s) (name : String) :
    (dataOf s.store).edgeType name =
      Journal.replay unaltered .empty (s.logged.filterMap (edgeTypeOp name)) := by
  rw [historic.faithful, Data.edgeType_foldl name s.logged Data.owned_empty]
  rfl

theorem settled_iff {s : State} (historic : Historic s) (name : String) {schema : CollectionSchema}
    (found : s.store.collections[name]? = some schema) (kept : .drop ∉ s.journal name) :
    (alters (s.journal name)).foldl (fun h a => reapply a h) schema = schema ↔
      SettledFields (alters (s.journal name)) schema.fields := by
  have legal := legalAll_collection Data.owned_empty historic.legal name
  have header : ((dataOf s.store).collection name).header = some schema := found
  rw [collection_history historic] at header
  obtain ⟨first, permitted, rfl⟩ := header_created kept legal header
  rw [reapplyAll_again permitted, reapplyAll_parts]

theorem keeps_iff_settled {s : State} (historic : Historic s) : RestartKeeps s ↔ Settled s := by
  have owned : (dataOf s.store).Owned := by
    rw [historic.faithful]
    exact Data.owned_foldl _ Data.owned_empty
  rw [restartKeeps_iff historic.tracked]
  constructor
  · intro same name schema found kept
    rw [← settled_iff historic name found kept]
    have part := congrArg (fun d => (Data.collection d name).header) same
    simp only [Data.collection_foldl name s.logged owned] at part
    have header : ((dataOf s.store).collection name).header = some schema := found
    rw [header] at part
    exact Option.some.inj ((header_replay (s.journal name) kept header).symm.trans part)
  · intro settled
    refine Data.ext_parts (fun name => ?_) fun name => ?_
    · rw [Data.collection_foldl name s.logged owned, collection_history historic]
      refine replay_again (legalAll_collection Data.owned_empty historic.legal name)
        fun kept schema header => ?_
      have found : s.store.collections[name]? = some schema := by
        have part := collection_history historic name
        exact (congrArg Container.header part).trans header
      exact (settled_iff historic name found kept).mpr (settled name schema found kept)
    · rw [Data.edgeType_foldl name s.logged owned, edgeType_history historic]
      refine replay_again (legalAll_edgeType Data.owned_empty historic.legal name)
        fun kept et header => ?_
      cases alters (s.logged.filterMap (edgeTypeOp name)) with
      | nil => rfl
      | cons a rest => exact nomatch a

/-! ### One step -/

/-- What a step has added to the journal of a collection. -/
def addedOps (added : List Logged) (name : String) : List CollectionOp :=
  added.filterMap (collectionOp name)

theorem historic_init (config : WalConfig) : Historic (State.init config) := by
  refine ⟨tracked_init config, (reproduces_iff (tracked_init config)).mp (reproduces_init config), ?_⟩
  rw [State.logged, State.init, mutations_open]
  trivial

section Step
variable {s s' : State} {added : List Logged}

theorem journal_grown (grown : s'.logged = s.logged ++ added) (name : String) :
    s'.journal name = s.journal name ++ addedOps added name := by
  rw [State.journal, grown, List.filterMap_append]
  rfl

theorem schema_grown (before : Historic s) (after : Historic s')
    (grown : s'.logged = s.logged ++ added) {name : String} (kept : .drop ∉ s'.journal name)
    {schema : CollectionSchema} (found : s.store.collections[name]? = some schema) :
    s'.store.collections[name]? =
      some ((alters (addedOps added name)).foldl (fun h a => reapply a h) schema) := by
  have journal := journal_grown grown name
  have header : ((dataOf s.store).collection name).header = some schema := found
  rw [collection_history before] at header
  have final : ((dataOf s'.store).collection name).header = _ :=
    congrArg Container.header (collection_history after name)
  rw [journal, Journal.replay, List.foldl_append] at final
  rw [journal, List.mem_append, not_or] at kept
  exact final.trans (header_replay (addedOps added name) kept.2 header)

theorem settled_unaltered (before : Historic s) (after : Historic s')
    (grown : s'.logged = s.logged ++ added) (settled : Settled s) {name : String}
    (plain : alters (addedOps added name) = []) {schema : CollectionSchema}
    (found : s'.store.collections[name]? = some schema) (kept : .drop ∉ s'.journal name) :
    SettledFields (alters (s'.journal name)) schema.fields := by
  have journal := journal_grown grown name
  rw [journal, alters_append, plain, List.append_nil]
  have keptBefore : .drop ∉ s.journal name := fun there =>
    kept (journal ▸ List.mem_append_left _ there)
  cases old : s.store.collections[name]? with
  | some schema' =>
    have now := schema_grown before after grown kept old
    rw [plain, found] at now
    cases now
    exact settled name _ old keptBefore
  | none =>
    have absent : ((dataOf s.store).collection name).header = none := old
    rw [collection_history before] at absent
    rw [alters_absent keptBefore (legalAll_collection Data.owned_empty before.legal name) absent]
    rfl

omit [WalPayload Payload] in
theorem alters_plain (plain : ∀ l ∈ added, l.2.1 ≠ .schemaAlter) (name : String) :
    alters (addedOps added name) = [] := by
  induction added with
  | nil => rfl
  | cons l rest ih =>
    rw [List.forall_mem_cons] at plain
    cases op : collectionOp name l with
    | none => rw [addedOps, List.filterMap_cons_none op]; exact ih plain.2
    | some op' =>
      rw [addedOps, List.filterMap_cons_some op]
      obtain ⟨filed, schema, rfl, rfl, rfl⟩ | ⟨e, rfl | rfl, rfl⟩ | ⟨filed, id, rfl, rfl⟩ |
        ⟨filed, rfl, rfl⟩ | ⟨filed, a, rfl, rfl⟩ := collectionOp_cases op
      case inr.inr.inr.inr => exact absurd rfl plain.1
      all_goals exact ih plain.2

theorem historic_performed (before : Historic s) (performed : Performed s s' added)
    (synced : Synced s') : Historic s' ∧ s'.logged = s.logged ++ added := by
  obtain ⟨tracked, grown⟩ := logged_of_logs before.tracked performed.toLogs synced
  refine ⟨⟨tracked, faithful_performed before.tracked performed before.faithful, ?_⟩, grown⟩
  rw [grown, legalAll_append, ← before.faithful]
  exact ⟨before.legal, performed.legal⟩

end Step

/-- A RENAME or DROP FIELD on a collection that was never dropped leaves fields that the
collection's renames and drops, this one the last of them, do not change again. -/
def RenamesSettled (s : State) : Write → Prop
  | .alterCollection p => ∀ schema, s.store.collections[p.collection]? = some schema →
      .drop ∉ s.journal p.collection →
      SettledFields (alters (s.journal p.collection) ++ [p.operation])
        (alterFields schema.fields p.operation)
  | _ => True

omit [WalPayload Payload] in
theorem owned_cascade (edges : List (String × LogicalId × LogicalId)) (d : Data) (owned : d.Owned) :
    (cascade edges d).Owned := by
  induction edges generalizing d with
  | nil => exact owned
  | cons e rest ih =>
    exact ih _ (d.owned_replay owned ("", .edgeDelete, .edgeDelete e.1 e.2.1 e.2.2))

/-- Edges that went without a record come back. -/
theorem cascade_undone {s s' : State} {collection : String} {id : LogicalId}
    {edges : List (String × LogicalId × LogicalId)} (historic : Historic s)
    (logs : Logs s s' [(collection, .entityDelete, .entityDelete id collection)])
    (data : dataOf s'.store = cascade edges ((dataOf s.store).eraseEntity collection id))
    (keeps : s'.logged.foldl Data.replay (dataOf s'.store) = dataOf s'.store) :
    ∀ e ∈ edges, s.store.getEdge e.1 e.2.1 e.2.2 = none := by
  have grown := logs.grown historic.tracked.sequential
  have legal : LegalAll .empty s'.logged := by
    rw [grown, legalAll_append, ← historic.faithful]
    exact ⟨historic.legal, logs.legal⟩
  have erased : (dataOf s.store).eraseEntity collection id = s'.logged.foldl Data.replay .empty := by
    rw [grown, List.foldl_append, ← historic.faithful]
    rfl
  have owned : ((dataOf s.store).eraseEntity collection id).Owned := by
    rw [erased]
    exact Data.owned_foldl _ Data.owned_empty
  have types := (cascade_rest edges ((dataOf s.store).eraseEntity collection id)).2.1
  intro e listed
  by_contra there
  obtain ⟨edge, stored⟩ := Option.ne_none_iff_exists'.mp there
  have kept : (((dataOf s.store).eraseEntity collection id).edgeType e.1).items
      (edgeKey e.2.1 e.2.2) = some edge := by
    rw [Data.edgeType_eraseEntity]
    exact stored
  have typed : (((dataOf s.store).eraseEntity collection id).edgeType e.1).header.isSome := by
    rw [Option.isSome_iff_ne_none]
    intro absent
    rw [owned.edgeTypes e.1 absent] at kept
    cases kept
  -- the log puts the edge, so it does so again
  have journal := Data.edgeType_foldl e.1 s'.logged Data.owned_empty
  rw [← erased] at journal
  rw [journal] at kept
  have present : ((dataOf s'.store).edgeType e.1).header.isSome := by
    rw [data, Data.edgeType, types]
    exact typed
  have again := items_again (legalAll_edgeType Data.owned_empty legal e.1) kept present
  have ownedAfter : (dataOf s'.store).Owned := data ▸ owned_cascade edges _ owned
  rw [State.logged, ← Data.edgeType_foldl e.1 _ ownedAfter, ← State.logged, keeps, data] at again
  have gone := get_cascade edges ((dataOf s.store).eraseEntity collection id)
    (e.1, edgeKey e.2.1 e.2.2)
  rw [if_pos ⟨e, listed, rfl⟩] at gone
  cases gone.symm.trans again

/-- The step leaves what is stored as the log says, and settled. -/
def KeepsHistory (s : State) (w : Write) : Prop := CascadesNothing s w ∧ RenamesSettled s w

theorem historic_step {s : State} {a : Step} (historic : Historic s) (ok : succeeds a.1 s a.2)
    (nothing : CascadesNothing s a.2) : Historic (s.step a) := by
  refine ⟨tracked_step historic.tracked ok,
    (faithful_step historic.tracked historic.faithful ok).mpr nothing, ?_⟩
  have synced := synced_perform a.1 s a.2 historic.tracked.synced
  have extend {added : List Logged} (logs : Logs s (s.step a) added) :
      LegalAll .empty (s.step a).logged := by
    rw [logs.grown historic.tracked.sequential, legalAll_append, ← historic.faithful]
    exact ⟨historic.legal, logs.legal⟩
  obtain ⟨env, w⟩ := a
  cases w with
  | deleteEntity p =>
    obtain ⟨r, ok⟩ := answer_ok ok
    exact extend (logs_deleteEntity ok).1
  | alterCollection p =>
    obtain ⟨r, ok⟩ := answer_ok ok
    obtain ⟨mutated, performed⟩ := performed_alterCollection historic.tracked.synced ok
    exact extend performed.toLogs
  | _ =>
    obtain ⟨added, performed, -⟩ :=
      wrote_perform historic.tracked.synced ok (by simp) (by simp)
    exact extend performed.toLogs

theorem settled_plain {s s' : State} {added : List Logged} (before : Historic s)
    (after : Historic s') (settled : Settled s) (logs : Logs s s' added)
    (plain : ∀ l ∈ added, l.2.1 ≠ .schemaAlter) : Settled s' := fun name _ found kept =>
  settled_unaltered before after (logs.grown before.tracked.sequential) settled
    (alters_plain plain name) found kept

section Alter
variable {s s' : State} {p : AlterCollectionPlan} {mutated : List Entity}

omit [WalPayload Payload] in
theorem addedOps_writes (collection : String) (mutated : List Entity) (name : String) :
    .drop ∉ addedOps (filed collection (mutated.map entityWrite)) name ∧
      alters (addedOps (filed collection (mutated.map entityWrite)) name) = [] := by
  constructor
  · intro dropped
    obtain ⟨l, listed, op⟩ := List.mem_filterMap.mp dropped
    obtain ⟨entry, there, rfl⟩ := List.mem_map.mp listed
    obtain ⟨e, -, rfl⟩ := List.mem_map.mp there
    simp only [collectionOp, entityWrite] at op
    split at op <;> cases op
  · refine alters_plain (fun l listed => ?_) name
    obtain ⟨entry, there, rfl⟩ := List.mem_map.mp listed
    obtain ⟨e, -, rfl⟩ := List.mem_map.mp there
    intro altered
    cases altered

omit [WalPayload Payload] in
theorem addedOps_alter (p : AlterCollectionPlan) (mutated : List Entity) (name : String) :
    let added := filed p.collection
      ((.schemaAlter, .schemaAlter p.collection p.operation) :: mutated.map entityWrite)
    .drop ∉ addedOps added name ∧
      alters (addedOps added name) = if p.collection = name then [p.operation] else [] := by
  obtain ⟨kept, plain⟩ := addedOps_writes p.collection mutated name
  intro added
  by_cases own : p.collection = name
  · have ops : addedOps added name =
        .alter p.operation :: addedOps (filed p.collection (mutated.map entityWrite)) name :=
      List.filterMap_cons_some (by rw [collectionOp, if_pos own])
    rw [ops, if_pos own, alters, plain]
    exact ⟨by simpa using kept, rfl⟩
  · have ops : addedOps added name =
        addedOps (filed p.collection (mutated.map entityWrite)) name :=
      List.filterMap_cons_none (by rw [collectionOp, if_neg own])
    rw [ops, if_neg own]
    exact ⟨kept, plain⟩

theorem settled_alter (before : Historic s) (after : Historic s') (settled : Settled s)
    (performed : Performed s s' (filed p.collection
      ((.schemaAlter, .schemaAlter p.collection p.operation) :: mutated.map entityWrite))) :
    Settled s' ↔ RenamesSettled s (.alterCollection p) := by
  have grown := performed.grown before.tracked.sequential
  have ops := addedOps_alter p mutated
  constructor
  · intro settled' schema found kept
    have kept' : .drop ∉ s'.journal p.collection := by
      rw [journal_grown grown, List.mem_append, not_or]
      exact ⟨kept, (ops p.collection).1⟩
    have now := schema_grown before after grown kept' found
    rw [(ops p.collection).2, if_pos rfl] at now
    have fields := settled' p.collection _ now kept'
    rw [journal_grown grown, alters_append, (ops p.collection).2, if_pos rfl] at fields
    simpa only [List.foldl_cons, List.foldl_nil, reapply_parts] using fields
  · intro guarded name schema' found kept
    by_cases own : p.collection = name
    · subst own
      have keptBefore : .drop ∉ s.journal p.collection := fun there =>
        kept (journal_grown grown p.collection ▸ List.mem_append_left _ there)
      obtain ⟨schema, old, -, -⟩ := performed.legal.1
      have now := schema_grown before after grown kept old
      rw [(ops p.collection).2, if_pos rfl, found] at now
      rw [Option.some.inj now, journal_grown grown, alters_append, (ops p.collection).2, if_pos rfl]
      simpa only [List.foldl_cons, List.foldl_nil, reapply_parts] using
        guarded schema old keptBefore
    · refine settled_unaltered before after grown settled ?_ found kept
      rw [(ops name).2, if_neg own]

end Alter

theorem keeps_step {s : State} {a : Step} (historic : Historic s) (keeps : RestartKeeps s)
    (ok : succeeds a.1 s a.2) : RestartKeeps (s.step a) ↔ KeepsHistory s a.2 := by
  have settled := (keeps_iff_settled historic).mp keeps
  have later (nothing : CascadesNothing s a.2) := historic_step historic ok nothing
  obtain ⟨env, w⟩ := a
  cases w with
  | deleteEntity p =>
    have tracked := tracked_step (a := (env, .deleteEntity p)) historic.tracked ok
    obtain ⟨r, done⟩ := answer_ok ok
    obtain ⟨logs, data⟩ := logs_deleteEntity done
    constructor
    · intro keeps'
      exact ⟨cascade_undone historic logs data ((restartKeeps_iff tracked).mp keeps'), trivial⟩
    · intro guarded
      have after := later guarded.1
      exact (keeps_iff_settled after).mpr (settled_plain historic after settled logs (by simp))
  | alterCollection p =>
    have after := later trivial
    obtain ⟨r, done⟩ := answer_ok ok
    obtain ⟨mutated, performed⟩ := performed_alterCollection historic.tracked.synced done
    rw [keeps_iff_settled after, KeepsHistory]
    exact (settled_alter historic after settled performed).trans (iff_of_eq (true_and _)).symm
  | _ =>
    have after := later trivial
    obtain ⟨added, performed, plain⟩ :=
      wrote_perform historic.tracked.synced ok (by simp) (by simp)
    exact iff_of_true ((keeps_iff_settled after).mpr
      (settled_plain historic after settled performed.toLogs plain)) ⟨trivial, trivial⟩

/-- Every state of the run survives the replay of its log. -/
def RestartsKeep (config : WalConfig) (as : List Step) : Prop :=
  ∀ s ∈ Run.visited State.step (State.init config) as, RestartKeeps s

def AlwaysKeepsHistory (config : WalConfig) (as : List Step) : Prop :=
  ∀ p ∈ Run.taken State.step (State.init config) as, KeepsHistory p.1 p.2.2

/-- A run of writes that succeed can be restarted at every point without a change iff no
DELETE takes a stored edge along and every RENAME and DROP FIELD leaves its fields settled. -/
theorem restart_keeps_iff (config : WalConfig) (as : List Step)
    (succeed : AllSucceed (State.init config) as) :
    RestartsKeep config as ↔ AlwaysKeepsHistory config as := by
  refine Run.good_iff_guarded_on State.step Historic RestartKeeps (fun s a => succeeds a.1 s a.2)
    (fun s a => KeepsHistory s a.2) as (historic_init config)
    ((keeps_iff_settled (historic_init config)).mpr ?_) succeed
    (fun s a historic _ ok guarded => historic_step historic ok guarded.1)
    (fun s a historic keeps ok => keeps_step historic keeps ok)
  intro name schema found
  simp [State.init, Store.empty] at found

end Runs

/-! ### Renamed fields -/

def renamePeople (oldName newName : String) : Step :=
  (.idle, .alterCollection ⟨"people", .renameField oldName newName⟩)

def createPeople : CreateCollectionPlan :=
  ⟨"people", [], [⟨"first", .text⟩, ⟨"last", .text⟩], [], none⟩

/-- A collection with a first and a last name, the first one renamed. -/
def givenNamed : List Step :=
  [(.idle, .createCollection createPeople), renamePeople "first" "given"]

/-- The last name takes over the name the first one had. -/
def swapped : List Step := givenNamed ++ [renamePeople "last" "first"]

section Examples
attribute [local instance] headerOnly

theorem givenNamed_restarts : RestartsKeep default givenNamed := by
  refine (restart_keeps_iff default givenNamed (by unfold AllSucceed succeeds; decide)).mpr ?_
  simp only [AlwaysKeepsHistory, givenNamed, renamePeople, Run.taken, List.forall_mem_cons]
  refine ⟨⟨trivial, trivial⟩, ⟨trivial, fun schema found _ => ?_⟩, by simp⟩
  have alone : alters (((State.init default).step
      (.idle, .createCollection createPeople)).journal "people") = [] := by decide
  have created : ((State.init default).step
      (.idle, .createCollection createPeople)).store.collections["people"]? =
        some (buildCollectionSchema createPeople) := by decide
  cases created.symm.trans found
  dsimp only
  rw [alone]
  decide

theorem swapped_succeeds : AllSucceed (State.init default) swapped := by
  unfold AllSucceed succeeds
  decide

/-- The rename of the first name, replayed, now finds the last one. -/
theorem renamed_field_replayed :
    AllSucceed (State.init default) swapped ∧
      ¬ RestartKeeps (swapped.foldl State.step (State.init default)) := by
  refine ⟨swapped_succeeds, fun keeps => ?_⟩
  have same := (restartKeeps_iff (tracked_run default swapped swapped_succeeds)).mp keeps
  revert same
  decide

end Examples
end TronDB.Engine
