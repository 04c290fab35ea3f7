import TronDB.Engine.Effects
import TronDB.Engine.Interleaving
import TronDB.Engine.Replayed
import TronDB.Engine.Session

/-! The transaction times INSERT stamps, over the sessions of an engine. -/
namespace TronDB.Engine
open TronDB.Core Binary Wal

/-! ### The counter -/

section Counter
variable [WalPayload Payload]

theorem nextTx_transaction (w : WalWriter (WalSegment Payload) Payload) (collection : String)
    (ts : Int) (entries : List (Entry Payload)) :
    (w.transaction collection ts entries).nextTx = w.nextTx + 1 := by
  obtain ⟨-, -, -, appended⟩ :=
    WalWriter.appendAll_spec entries (w.beginTx collection ts) collection w.nextTx ts
  unfold WalWriter.transaction WalWriter.commit
  exact (WalWriter.writeSync_rest _ _).2.2.2.trans appended

def Counts (s s' : State) : Prop := s.wal.nextTx ≤ s'.wal.nextTx

namespace Counts

omit [WalPayload Payload] in
theorem same {s s' : State} (wal : s'.wal = s.wal) : Counts s s' := by
  rw [Counts, wal]

theorem logged {s s' : State} {collection : String} {ts : Int} {entries : List (Entry Payload)}
    (wal : s'.wal = s.wal.transaction collection ts entries) : Counts s s' := by
  rw [Counts, wal, nextTx_transaction]
  exact Nat.le_succ _

omit [WalPayload Payload] in
theorem trans {s s' s'' : State} (first : Counts s s') (second : Counts s' s'') : Counts s s'' :=
  Nat.le_trans first second

omit [WalPayload Payload] in
theorem foldl {A : Type} {f : State → A → State} (each : ∀ s a, Counts s (f s a)) (as : List A)
    (s : State) : Counts s (as.foldl f s) := by
  induction as generalizing s with
  | nil => exact .same rfl
  | cons a rest ih => exact (each s a).trans (ih (f s a))

end Counts

theorem counts_createCollection (env : Env) (s : State) (p : CreateCollectionPlan) :
    Counts s (createCollection env s p).2 := by
  unfold createCollection
  split
  · exact .same rfl
  · dsimp only
    split <;> exact .logged rfl

theorem counts_dropCollection (env : Env) (s : State) (name : String) :
    Counts s (dropCollection env s name).2 := by
  unfold dropCollection
  split
  · dsimp only
    split <;> exact .logged rfl
  · exact .same rfl

theorem counts_createEdgeType (env : Env) (s : State) (p : CreateEdgeTypePlan) :
    Counts s (createEdgeType env s p).2 := by
  unfold createEdgeType
  split
  · split
    · dsimp only
      split <;> exact .logged rfl
    · exact .same rfl
  · exact .same rfl

theorem counts_dropEdgeType (env : Env) (s : State) (name : String) :
    Counts s (dropEdgeType env s name).2 := by
  unfold dropEdgeType
  split
  · exact .logged rfl
  · exact .same rfl

theorem counts_alterCollection (env : Env) (s : State) (p : AlterCollectionPlan) :
    Counts s (alterCollection env s p).2 := by
  unfold alterCollection
  split
  · exact .same rfl
  · split
    · exact .same rfl
    · split
      · exact .same rfl
      · dsimp only
        split <;> exact .logged (alterMemory_wal _ _ _ _ _)

theorem counts_insert (env : Env) (s : State) (p : InsertPlan) : Counts s (insert env s p).2 := by
  have removed := (removeOldEntries_rest env s p.collection (p.target env)).2
  cases insert_ends env s p with
  | refused error rejected result =>
    rw [result]
    exact .same rfl
  | unbuilt schema error known checked built result =>
    rw [result]
    exact .same removed
  | unstored schema e known checked built absent result =>
    obtain ⟨error, entries, result⟩ := result
    rw [result]
    exact .trans (.same removed) (.logged rfl)
  | stored schema e known checked built present wal left => exact .logged wal

theorem counts_updateEntity (env : Env) (s : State) (p : UpdateEntityPlan) :
    Counts s (updateEntity env s p).2 := by
  unfold updateEntity
  split
  · exact .same rfl
  · dsimp only
    split
    · exact .logged rfl
    · split
      · exact .logged rfl
      · exact .logged (enqueue_rest _ _ _).2

theorem counts_deleteEntity (env : Env) (s : State) (p : DeleteEntityPlan) :
    Counts s (deleteEntity env s p).2 := by
  unfold deleteEntity
  split
  · exact .same rfl
  · dsimp only
    split <;> exact .logged rfl

omit [WalPayload Payload] in
theorem counts_importLoop (env : Env) (collection : String) (txId : Nat) (lines : List ImportLine)
    (imported : Nat) (s : State) :
    Counts s (importLoop env collection txId lines imported s).2 :=
  importLoop_invariant (P := fun t => Counts s t) env collection txId (fun _ _ counts => counts)
    (fun _ _ _ counts => counts) lines imported (.same rfl)

theorem counts_importCollection (env : Env) (s : State) (p : ImportPlan) :
    Counts s (importCollection env s p).2 := by
  unfold importCollection
  split
  · exact .same rfl
  · split
    · exact .same rfl
    · rename_i lines _
      dsimp only
      have begun : Counts s { s with wal := s.wal.beginTx p.collection env.ts } := Nat.le_succ _
      have loop := begun.trans
        (counts_importLoop env p.collection s.wal.nextTx lines 0 _)
      split
      · rename_i run
        rw [run] at loop
        exact loop
      · rename_i run
        rw [run] at loop
        have committed (w : WalWriter (WalSegment Payload) Payload) (txId : Nat) :
            (w.commit txId env.ts).nextTx = w.nextTx := (WalWriter.writeSync_rest _ _).2.2.2
        exact loop.trans (Nat.le_of_eq (committed _ _).symm)

theorem counts_writeEdge (s : State) (ts : Int) (recordType : RecordType) (edge : Edge) :
    Counts s (s.writeEdge ts recordType edge) := .logged rfl

theorem counts_removeEdge (s : State) (ts : Int) (edgeType : String) (fromId toId : LogicalId) :
    Counts s (s.removeEdge ts edgeType fromId toId) := .logged rfl

theorem counts_insertEdge (env : Env) (s : State) (p : InsertEdgePlan) :
    Counts s (insertEdge env s p).2 := by
  unfold insertEdge
  repeat' split
  all_goals first | exact .same rfl | exact counts_writeEdge _ _ _ _

theorem counts_confirmEdge (env : Env) (s : State) (p : ConfirmEdgePlan) :
    Counts s (confirmEdge env s p).2 := by
  unfold confirmEdge
  dsimp only
  repeat' split
  all_goals first | exact .same rfl | exact .logged rfl

theorem counts_sweep (env : Env) (s : State) : Counts s (sweepDecayedEdges env s) := by
  unfold sweepDecayedEdges
  refine .foldl (fun s et => ?_) _ s
  unfold sweepEdgeType
  split
  · exact .same rfl
  · exact .foldl (fun s edge => counts_removeEdge s _ _ _ _) _ s

theorem counts_inferLoop (env : Env) (et : EdgeType) (id : LogicalId) (existing : List LogicalId)
    (results : List (LogicalId × F32)) (created : Nat) (s : State) :
    Counts s (inferLoop env et id existing results created s) := by
  induction results generalizing created s with
  | nil => exact .same rfl
  | cons r rest ih =>
    unfold inferLoop
    split
    · exact .same rfl
    · split
      · exact ih created s
      · exact (counts_writeEdge _ _ _ _).trans (ih _ _)

theorem counts_drain (env : Env) (s : State) : Counts s (drainInferenceQueue env s) := by
  refine .foldl (fun s id => ?_) _ s
  unfold drainEntity
  dsimp only
  split
  · exact .same rfl
  · have popped : Counts s { s with inferenceQueue := s.inferenceQueue.erase id } := .same rfl
    refine popped.trans (.foldl (fun s et => ?_) _ _)
    unfold inferEdgeType
    repeat' split
    all_goals first | exact .same rfl | exact counts_inferLoop _ _ _ _ _ _ _

theorem counts_perform (env : Env) (s : State) (w : Write) : Counts s (perform env s w).2 := by
  cases w with
  | createCollection p => exact counts_createCollection env s p
  | dropCollection name => exact counts_dropCollection env s name
  | createEdgeType p => exact counts_createEdgeType env s p
  | dropEdgeType name => exact counts_dropEdgeType env s name
  | alterCollection p => exact counts_alterCollection env s p
  | insert p => exact counts_insert env s p
  | updateEntity p => exact counts_updateEntity env s p
  | deleteEntity p => exact counts_deleteEntity env s p
  | importCollection p => exact counts_importCollection env s p
  | insertEdge p => exact counts_insertEdge env s p
  | deleteEdge p => exact counts_removeEdge _ _ _ _ _
  | confirmEdge p => exact counts_confirmEdge env s p
  | sweepDecayedEdges => exact counts_sweep env s
  | drainInferenceQueue => exact counts_drain env s

theorem counts_advance (env : RecomputeEnv) (s : State) (task : Task) :
    Counts s (advance env s task).1 := by
  have started (rest : List Group) (jobs : List Job) : Counts s (startJobs s rest jobs).1 := by
    cases jobs <;> exact .same rfl
  cases task with
  | groups rest =>
    cases rest with
    | nil => exact .same rfl
    | cons group rest => exact started rest _
  | encoding job later rest =>
    simp only [advance]
    split
    · exact started rest later
    · exact .same rfl
  | writing job encoded later rest =>
    cases encoded with
    | nil => exact started rest later
    | cons y encoded =>
      rw [advance_write]
      unfold Job.writeBack
      dsimp only
      split
      · exact .logged rfl
      · cases y.vector <;> dsimp only <;> split <;> exact .logged rfl
  | failed e => exact .same rfl

/-! ### The stamp -/

/-- INSERT comes to its stamp: the collection is known, its vectors check out, and the
entity can be built. -/
def Admitted (env : Env) (s : State) (p : InsertPlan) : Prop :=
  ∃ schema e, s.schemas[p.collection]? = some schema ∧
    checkVectors schema p.collection p.vectors = .ok () ∧
      buildEntity env schema p (p.target env) = .ok e

/-- An INSERT that comes to its stamp takes the counter's value and moves the counter on. -/
theorem beginInsert_ends (env : Env) (s : State) (p : InsertPlan) :
    (¬ Admitted env s p ∧ ∃ error s', beginInsert env s p = (.error error, s') ∧ Counts s s') ∨
      Admitted env s p ∧ ∃ e s', beginInsert env s p = (.ok ⟨p.collection, e⟩, s') ∧
        e.txTime = s.wal.nextTx ∧ s'.wal.nextTx = s.wal.nextTx + 1 := by
  unfold beginInsert
  cases known : s.schemas[p.collection]? with
  | none =>
    refine .inl ⟨?_, _, s, rfl, .same rfl⟩
    rintro ⟨schema, e, known', -, -⟩
    cases known.symm.trans known'
  | some schema =>
    dsimp only
    cases checked : checkVectors schema p.collection p.vectors with
    | error error =>
      refine .inl ⟨?_, error, s, rfl, .same rfl⟩
      rintro ⟨schema', e, known', checked', -⟩
      cases known.symm.trans known'
      cases checked.symm.trans checked'
    | ok =>
      obtain ⟨-, log⟩ := removeOldEntries_rest env s p.collection (p.target env)
      dsimp only
      rw [← InsertPlan.target]
      cases built : buildEntity env schema p (p.target env) with
      | error error =>
        refine .inl ⟨?_, error, _, rfl, .same log⟩
        rintro ⟨schema', e, known', -, built'⟩
        cases known.symm.trans known'
        cases built.symm.trans built'
      | ok e =>
        refine .inr ⟨⟨schema, e, known, checked, built⟩, _, _, rfl, ?_, ?_⟩
        · dsimp only
          rw [log]
        · rw [State.logTx, nextTx_transaction, log]

omit [WalPayload Payload] in
theorem counts_finishInsert (env : Env) (s : State) (pending : PendingInsert) :
    Counts s (finishInsert env s pending).2 := by
  unfold finishInsert
  cases present : s.store.hasCollection pending.collection with
  | false =>
    rw [applyInsert_absent env _ present]
    exact .same rfl
  | true => exact .same (applyInsert_inserted env _ present).2

/-! ### Histories -/

def stampedBy (s : State) : Event → Option Entity
  | .write env (.insert p) | .beginInsert env p =>
    match beginInsert env s p with
    | (.ok pending, _) => some pending.entity
    | (.error _, _) => none
  | _ => none

def completedBy (x : Session) : Event → Option Entity
  | .write env (.insert p) =>
    match insert env x.engine.state p with
    | (.ok _, _) => stampedBy x.engine.state (.write env (.insert p))
    | (.error _, _) => none
  | .finishInsert env i =>
    match x.inserts[i]? with
    | none => none
    | some pending =>
      match finishInsert env x.engine.state pending with
      | (.ok _, _) => some pending.entity
      | (.error _, _) => none
  | _ => none

def isReopen : Event → Bool
  | .reopen _ _ => true
  | _ => false

/-- An engine with what its INSERTs have stamped so far. -/
structure History where
  session : Option Session
  /-- Entities whose INSERT completed in an earlier session. -/
  earlier : List Entity
  /-- Entities whose INSERT completed in this session. -/
  here : List Entity
  /-- Every stamped entity, with those whose INSERT had completed before its own started. -/
  started : List (List Entity × Entity)

namespace History

def start (config : WalConfig) : History := ⟨some (.start (.init config)), [], [], []⟩

def step (x : History) (a : Event) : History :=
  match x.session with
  | none => x
  | some session =>
    { session := session.step a
      earlier := if isReopen a then x.here ++ x.earlier else x.earlier
      here := if isReopen a then [] else (completedBy session a).toList ++ x.here
      started :=
        (stampedBy session.engine.state a).toList.map (fun e => (x.here ++ x.earlier, e)) ++
          x.started }

end History

def Entity.shownAt (e : Entity) (n : Nat) : Prop := e.visible (some (.asOfTransaction n)) = true

/-- An entity whose INSERT completed before another one started has the earlier time, and is
shown as of every transaction that shows the other. -/
structure CommitOrdered (x : History) : Prop where
  stamps : ∀ p ∈ x.started, ∀ e ∈ p.1, e.txTime < p.2.txTime
  shown : ∀ p ∈ x.started, ∀ e ∈ p.1, ∀ n, Entity.shownAt p.2 n → Entity.shownAt e n

/-- Where an event stamps an entity, the counter has passed every stamp of the earlier sessions. -/
def CounterPassed (x : History) (a : Event) : Prop :=
  ∀ session, x.session = some session → ∀ env p,
    a = .write env (.insert p) ∨ a = .beginInsert env p → Admitted env session.engine.state p →
      ∀ e ∈ x.earlier, e.txTime < session.engine.state.wal.nextTx

/-- The stamps of this session are behind the counter. -/
structure Counted (x : History) (session : Session) : Prop where
  here : ∀ e ∈ x.here, e.txTime < session.engine.state.wal.nextTx
  inserts : ∀ pending ∈ session.inserts, pending.entity.txTime < session.engine.state.wal.nextTx

/-! ### One event -/

theorem stampedBy_some {s : State} {a : Event} {e : Entity} (stamped : stampedBy s a = some e) :
    e.txTime = s.wal.nextTx ∧ ∃ env p, (a = .write env (.insert p) ∨ a = .beginInsert env p) ∧
      Admitted env s p := by
  have insertion (env : Env) (p : InsertPlan) (again : (match beginInsert env s p with
      | (.ok pending, _) => some pending.entity
      | (.error _, _) => none) = some e) : e.txTime = s.wal.nextTx ∧ Admitted env s p := by
    rcases beginInsert_ends env s p with ⟨-, error, s', failed, -⟩ | ⟨admitted, e', s', begun, tx, -⟩
    · rw [failed] at again
      cases again
    · rw [begun] at again
      cases again
      exact ⟨tx, admitted⟩
  unfold stampedBy at stamped
  split at stamped
  · obtain ⟨tx, admitted⟩ := insertion _ _ stamped
    exact ⟨tx, _, _, .inl rfl, admitted⟩
  · obtain ⟨tx, admitted⟩ := insertion _ _ stamped
    exact ⟨tx, _, _, .inr rfl, admitted⟩
  · cases stamped

theorem stampedBy_admitted {env : Env} {s : State} {p : InsertPlan} (admitted : Admitted env s p)
    {a : Event} (event : a = .write env (.insert p) ∨ a = .beginInsert env p) :
    ∃ e, stampedBy s a = some e ∧ e.txTime = s.wal.nextTx := by
  rcases beginInsert_ends env s p with ⟨refused, -⟩ | ⟨-, e, s', begun, tx, -⟩
  · exact absurd admitted refused
  · refine ⟨e, ?_, tx⟩
    rcases event with rfl | rfl
    · simp only [stampedBy, begun]
    · simp only [stampedBy, begun]

theorem insert_passed {env : Env} {s : State} {p : InsertPlan} {e : Entity}
    (stamped : stampedBy s (.write env (.insert p)) = some e) :
    e.txTime < (insert env s p).2.wal.nextTx := by
  obtain ⟨tx, -⟩ := stampedBy_some stamped
  rw [insert_steps]
  rcases beginInsert_ends env s p with ⟨-, error, s', failed, -⟩ | ⟨-, e', s', begun, -, next⟩
  · simp only [stampedBy, failed] at stamped
    cases stamped
  · rw [begun]
    have counts := counts_finishInsert env s' ⟨p.collection, e'⟩
    rw [Counts, next, ← tx] at counts
    exact counts

variable {x : History} {session : Session}

omit [WalPayload Payload] in
theorem Counted.mono {s' : State} (counted : Counted x session)
    (counts : Counts session.engine.state s') :
    (∀ e ∈ x.here, e.txTime < s'.wal.nextTx) ∧
      ∀ pending ∈ session.inserts, pending.entity.txTime < s'.wal.nextTx :=
  ⟨fun e there => Nat.lt_of_lt_of_le (counted.here e there) counts,
    fun pending there => Nat.lt_of_lt_of_le (counted.inserts pending there) counts⟩

theorem completedBy_write {env : Env} {w : Write} {e : Entity}
    (done : completedBy session (.write env w) = some e) :
    e.txTime < (perform env session.engine.state w).2.wal.nextTx := by
  cases w with
  | insert p =>
    simp only [completedBy] at done
    split at done
    · exact insert_passed done
    · cases done
  | _ => cases done

theorem counted_write (counted : Counted x session) (now : x.session = some session) (env : Env)
    (w : Write) : Counted (x.step (.write env w))
      (session.withState (perform env session.engine.state w).2) := by
  obtain ⟨here, inserts⟩ := counted.mono (counts_perform env session.engine.state w)
  refine ⟨fun e there => ?_, inserts⟩
  simp only [History.step, now, isReopen, Bool.false_eq_true, if_false] at there
  rcases List.mem_append.mp there with there | there
  · exact completedBy_write (Option.mem_toList.mp there)
  · exact here e there

theorem counted_step (counted : Counted x session) (now : x.session = some session) (a : Event)
    {session' : Session} (next : session.step a = some session') : Counted (x.step a) session' := by
  -- the events other than an INSERT that completes, and other than a reopening
  have quiet (none_ : completedBy session a = none) (going : isReopen a = false) :
      (x.step a).here = x.here := by
    simp [History.step, now, none_, going]
  cases a with
  | write env w =>
    cases next
    exact counted_write counted now env w
  | beginInsert env p =>
    simp only [Session.step] at next
    rcases beginInsert_ends env session.engine.state p with
      ⟨-, error, s', failed, counts⟩ | ⟨-, e, s', begun, tx, past⟩
    · rw [failed] at next
      cases next
      obtain ⟨here, inserts⟩ := counted.mono counts
      exact ⟨(quiet rfl rfl).symm ▸ here, inserts⟩
    · rw [begun] at next
      cases next
      obtain ⟨here, inserts⟩ := counted.mono (Nat.le_of_lt (past ▸ Nat.lt_succ_self _) : Counts _ s')
      refine ⟨(quiet rfl rfl).symm ▸ here, fun pending there => ?_⟩
      rcases List.mem_append.mp there with there | there
      · exact inserts pending there
      · rw [List.mem_singleton] at there
        subst there
        change e.txTime < s'.wal.nextTx
        omega
  | finishInsert env i =>
    simp only [Session.step] at next
    split at next
    · rename_i missing
      cases next
      have idle : completedBy session (.finishInsert env i) = none := by
        simp only [completedBy, missing]
      exact ⟨(quiet idle rfl).symm ▸ counted.here, counted.inserts⟩
    · rename_i pending found
      cases next
      obtain ⟨here, inserts⟩ :=
        counted.mono (counts_finishInsert env session.engine.state pending)
      refine ⟨fun e there => ?_, fun pending' there => inserts pending' (List.mem_of_mem_eraseIdx there)⟩
      simp only [History.step, now, isReopen, Bool.false_eq_true, if_false] at there
      rcases List.mem_append.mp there with there | there
      · simp only [completedBy, found] at there
        rw [Option.mem_toList] at there
        split at there
        · cases there
          exact inserts pending (List.mem_of_getElem? found)
        · cases there
      · exact here e there
  | startRecompute env =>
    cases next
    exact ⟨(quiet rfl rfl).symm ▸ counted.here, counted.inserts⟩
  | advance env i =>
    simp only [Session.step] at next
    split at next
    · cases next
      exact ⟨(quiet rfl rfl).symm ▸ counted.here, counted.inserts⟩
    · rename_i task found
      cases next
      obtain ⟨here, inserts⟩ := counted.mono (counts_advance env session.engine.state task)
      exact ⟨(quiet rfl rfl).symm ▸ here, inserts⟩
  | checkpoint ts =>
    cases next
    exact ⟨(quiet rfl rfl).symm ▸ counted.here, counted.inserts⟩
  | saveLocation =>
    cases next
    exact ⟨(quiet rfl rfl).symm ▸ counted.here, counted.inserts⟩
  | saveHnsw order =>
    cases next
    exact ⟨(quiet rfl rfl).symm ▸ counted.here, counted.inserts⟩
  | reopen config order =>
    simp only [Session.step] at next
    split at next
    · cases next
      refine ⟨fun e there => ?_, by simp [Session.start]⟩
      simp [History.step, now, isReopen] at there
    · cases next

theorem ordered_step_iff (ordered : CommitOrdered x) (now : x.session = some session)
    (counted : Counted x session) (a : Event) : CommitOrdered (x.step a) ↔ CounterPassed x a := by
  constructor
  · intro after session' now' env p event admitted e there
    cases now.symm.trans now'
    obtain ⟨stamped, found, tx⟩ := stampedBy_admitted admitted event
    have pair : (x.here ++ x.earlier, stamped) ∈ (x.step a).started := by
      simp [History.step, now, found]
    rw [← tx]
    exact after.stamps _ pair e (List.mem_append_right _ there)
  · intro passed
    have stamps : ∀ p ∈ (x.step a).started, ∀ e ∈ p.1, e.txTime < p.2.txTime := by
      intro p there e before
      simp only [History.step, now] at there
      rcases List.mem_append.mp there with new | old
      · obtain ⟨stamped, found, rfl⟩ := List.mem_map.mp new
        rw [Option.mem_toList] at found
        obtain ⟨tx, env, p, event, admitted⟩ := stampedBy_some found
        rw [tx]
        rcases List.mem_append.mp before with before | before
        · exact counted.here e before
        · exact passed session now env p event admitted e before
      · exact ordered.stamps p old e before
    refine ⟨stamps, fun p there e before n shown => ?_⟩
    have earlier := stamps p there e before
    simp only [Entity.shownAt, Entity.visible, entityPassesTemporalFilter,
      decide_eq_true_eq] at shown ⊢
    omega

/-- Over every run of an engine, its restarts and overlapping INSERTs included, transaction time
follows the order of the INSERTs iff whenever one is stamped the counter has passed the stamps
of all earlier sessions. -/
theorem tx_time_follows_iff (config : WalConfig) (as : List Event) :
    (∀ x ∈ Run.visited History.step (.start config) as, CommitOrdered x) ↔
      ∀ p ∈ Run.taken History.step (.start config) as, CounterPassed p.1 p.2 := by
  refine Run.good_iff_guarded History.step
    (fun x => ∀ session, x.session = some session → Counted x session) CommitOrdered CounterPassed
    as ?_ ⟨by simp [History.start], by simp [History.start]⟩ ?_ ?_
  · intro session now
    cases now
    exact ⟨by simp [History.start], by simp [Session.start]⟩
  · intro x a counted _ _ session' next
    cases now : x.session with
    | none =>
      rw [History.step, now] at next
      cases now.symm.trans next
    | some session =>
      have went : session.step a = some session' := by
        rw [History.step, now] at next
        exact next
      exact counted_step (counted session now) now a went
  · intro x a counted ordered
    cases now : x.session with
    | none =>
      rw [History.step, now]
      refine iff_of_true ordered fun session there => ?_
      cases now.symm.trans there
    | some session => exact ordered_step_iff ordered now (counted session now) a

end Counter

/-! ### One document before and one after a restart -/

def insertDoc (id : String) : Event :=
  .write .idle (.insert ⟨"docs", ["id"], [.string id], [], none, none⟩)

def docsAcrossRestart : List Event :=
  [.write .idle (.createCollection ⟨"docs", [], [], [], none⟩), insertDoc "a",
    .reopen default (.insertionOrder _), insertDoc "b"]

section Examples
attribute [local instance] headerOnly

/-- The first document has time 2, the second one, after the restart, time 1. -/
theorem counter_restarts :
    ¬ ∀ x ∈ Run.visited History.step (.start default) docsAcrossRestart, CommitOrdered x := by
  intro ordered
  have last := ordered _ (Run.end_visited History.step (.start default) docsAcrossRestart)
  have times : ((docsAcrossRestart.foldl History.step (.start default)).started.map fun p =>
      (p.1.map Entity.txTime, p.2.txTime)) = [([2], 1), ([], 2)] := by decide
  have pair : ([2], 1) ∈ (docsAcrossRestart.foldl History.step (.start default)).started.map fun p =>
      (p.1.map Entity.txTime, p.2.txTime) := by
    rw [times]
    exact List.mem_cons_self
  obtain ⟨p, there, same⟩ := List.mem_map.mp pair
  obtain ⟨before, time⟩ := Prod.mk.inj same
  have first : 2 ∈ p.1.map Entity.txTime := before ▸ List.mem_cons_self
  obtain ⟨e, earlier, tx⟩ := List.mem_map.mp first
  have later := last.stamps p there e earlier
  omega

end Examples
end TronDB.Engine
