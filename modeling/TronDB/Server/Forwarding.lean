import TronDB.Engine.Replayed
import TronDB.Proto.RoundTrip
import TronDB.Server.Service

/-! What a node that is not the primary writes on its own. -/
namespace TronDB.Server
open TronDB.Core TronDB.Engine TronDB.Proto Wal
open Message (PlanRequest)

section Service
variable [WalPayload Payload]

def Unlogged (front : Front) (env : Env) (s : State) (plan : Plan) : Prop :=
  plan ≠ .checkpoint ∧ ∀ w ∈ writeOf front plan, Refused env s w

theorem executePlan_holdings_iff (front : Front) (env : Env) (s : State) (plan : Plan) :
    (executePlan front env s plan).holdings = s.holdings ↔ Unlogged front env s plan := by
  unfold executePlan Unlogged
  split
  · refine iff_of_false (fun same => ?_) fun unlogged => unlogged.1 rfl
    have lsn := congrArg WalWriter.nextLsn (wal_of_holdings same)
    have more : (checkpoint env.ts s).2.wal.nextLsn = s.wal.nextLsn + 1 := rfl
    omega
  · rename_i other
    rw [and_iff_right other]
    cases write : writeOf front plan with
    | none => exact iff_of_true rfl fun w there => (nomatch there)
    | some w =>
      simp only [Option.mem_some_iff, forall_eq']
      exact holdings_perform_iff env s w

omit [WalPayload Payload] in
theorem unlogged_unforwarded (front : Front) (env : Env) (s : State) {plan : Plan}
    (unforwarded : isWritePlan plan = false) :
    Unlogged front env s plan ↔ ∀ p, plan = .confirmEdge p → Refused env s (.confirmEdge p) := by
  cases plan with
  | confirmEdge _ | fetch _ | search _ | explain _ | traverse _ | explainTiers _ | infer _
  | explainHistory _ | join _ | traverseMatch _ => simp [Unlogged, writeOf]
  | _ => cases unforwarded

/-- Nothing but a replayed record changes what the engine holds and has logged. -/
def WritesOnlyByReplay (front : Front) (x : Service) (events : List Event) : Prop :=
  ∀ p ∈ Run.taken (Service.step front) x events, p.2.replays = false →
    (p.1.step front p.2).engine.map State.holdings = p.1.engine.map State.holdings

/-- The event finds nothing to write: no CONFIRM EDGE comes through `execute`, no write at all
through `execute_tql`, unless its own checks refuse it, and the tasks have nothing to do. -/
def Harmless (front : Front) (x : Service) : Event → Prop
  | .execute env message => ∀ s ∈ x.engine, ∀ p,
      protoToPlan front.text message = .ok (.confirmEdge p) → Refused env s (.confirmEdge p)
  | .executeTql env tql => ∀ s ∈ x.engine, ∀ plan,
      front.parseAndPlan s.schemas tql = .ok plan → Unlogged front env s plan
  | .inferenceTick env => ∀ s ∈ x.engine, Refused env s .drainInferenceQueue
  | .decayTick env => ∀ s ∈ x.engine, Refused env s .sweepDecayedEdges
  | .snapshotTick | .applyWalRecord _ => True

theorem role_step (front : Front) (x : Service) (event : Event) : (x.step front event).role = x.role := by
  cases event with
  | execute env message =>
    unfold Service.step Service.execute
    dsimp only
    split
    · rfl
    · split
      · rfl
      · split
        · rfl
        · split <;> rfl
  | executeTql env tql =>
    unfold Service.step Service.executeTql
    dsimp only
    split
    · rfl
    · split <;> rfl
  | _ => rfl

theorem harmless_iff (front : Front) {x : Service} (notPrimary : x.role ≠ .primary) (event : Event) :
    (event.replays = false →
      (x.step front event).engine.map State.holdings = x.engine.map State.holdings) ↔
        Harmless front x event := by
  obtain ⟨role, engine, connected, requireReplica⟩ := x
  cases engine with
  | none =>
    refine iff_of_true (fun _ => ?_) ?_
    · cases event with
      | execute env message =>
        unfold Service.step Service.execute
        dsimp only
        split <;> rfl
      | _ => rfl
    · cases event with
      | execute | executeTql =>
        intro s none_
        cases none_
      | inferenceTick | decayTick =>
        intro s none_
        cases none_
      | snapshotTick | applyWalRecord => exact trivial
  | some s =>
    cases event with
    | execute env message =>
      unfold Service.step Service.execute Harmless
      simp only [Option.mem_some_iff, forall_eq']
      cases decoded : protoToPlan front.text message with
      | error e =>
        refine iff_of_true (fun _ => rfl) fun _ same => ?_
        cases same
      | ok plan =>
        dsimp only
        cases write : isWritePlan plan with
        | true =>
          rw [if_pos ⟨notPrimary, rfl⟩]
          refine iff_of_true (fun _ => rfl) fun p same => ?_
          cases same
          cases write
        | false =>
          have local_ := executePlan_holdings_iff front env s plan
          rw [unlogged_unforwarded front env s write] at local_
          rw [if_neg (by simp), if_neg (by simp)]
          simpa [Event.replays] using local_
    | executeTql env tql =>
      unfold Service.step Service.executeTql Harmless
      simp only [Option.mem_some_iff, forall_eq']
      cases planned : front.parseAndPlan s.schemas tql with
      | error e =>
        refine iff_of_true (fun _ => rfl) fun _ same => ?_
        cases same
      | ok plan =>
        have local_ := executePlan_holdings_iff front env s plan
        simpa [Event.replays] using local_
    | inferenceTick env =>
      have tick := holdings_perform_iff env s .drainInferenceQueue
      simpa [Event.replays, Service.step, Harmless, perform] using tick
    | decayTick env =>
      have tick := holdings_perform_iff env s .sweepDecayedEdges
      simpa [Event.replays, Service.step, Harmless, perform] using tick
    | snapshotTick => exact iff_of_true (fun _ => rfl) trivial
    | applyWalRecord r => exact iff_of_true (fun replays => by cases replays) trivial

/-- A node that is not the primary changes what it holds and logs by replay alone iff every event
finds nothing to write. -/
theorem writes_only_by_replay_iff (front : Front) (x : Service) (notPrimary : x.role ≠ .primary)
    (events : List Event) :
    WritesOnlyByReplay front x events ↔
      ∀ p ∈ Run.taken (Service.step front) x events, Harmless front p.1 p.2 :=
  Run.each_iff_guarded (Service.step front) (fun x => x.role ≠ .primary) _ _ events notPrimary
    (fun x event here _ => role_step front x event ▸ here) fun _ event here => harmless_iff front here event

end Service

section Examples
attribute [local instance] headerOnly

def checkpointOnly : Front where
  text := printedBits
  showClause _ := ""
  parseAndPlan _ tql :=
    if tql = "CHECKPOINT;" then .ok .checkpoint else .error (.invalidQuery "parse error")

def freshReplica : Service := ⟨.replica, some (.init default), none, false⟩

/-- The edge type `near` between venues, as a record of the primary. -/
def nearRecord : WalRecord Payload :=
  ⟨5, 0, 2, .schemaCreateEdgeType, 1, "near", .edgeType ⟨"near", "venues", "venues", default, default⟩⟩

/-- A replica that is only asked to explain and to delete. -/
def readOnly : List Event :=
  [.applyWalRecord nearRecord, .execute .idle (.explain (some (.confirmEdge ⟨"a", "b", "near", ⟨0⟩⟩))),
    .execute .idle (.deleteEntity ⟨"a", "venues"⟩), .snapshotTick]

theorem readOnly_writes_nothing : WritesOnlyByReplay checkpointOnly freshReplica readOnly := by
  refine (writes_only_by_replay_iff checkpointOnly freshReplica (by decide) readOnly).mpr ?_
  simp only [readOnly, Run.taken, List.forall_mem_cons]
  refine ⟨trivial, ?_, ?_, trivial, List.forall_mem_nil _⟩
  · intro s _ p same
    cases same
  · intro s _ p same
    cases same

/-- CONFIRM EDGE comes through `execute`, anything at all through `execute_tql`. -/
theorem replica_writes :
    ¬ WritesOnlyByReplay checkpointOnly freshReplica
        [.applyWalRecord nearRecord, .execute .idle (.confirmEdge ⟨"a", "b", "near", ⟨0x3F800000⟩⟩)] ∧
      ¬ WritesOnlyByReplay checkpointOnly freshReplica [.executeTql .idle "CHECKPOINT;"] := by
  constructor
  · intro only
    have same := only _ (List.mem_cons_of_mem _ List.mem_cons_self) rfl
    have log := congrArg (Option.map fun h => h.wal.nextLsn) same
    revert log
    decide
  · intro only
    have same := only _ List.mem_cons_self rfl
    have log := congrArg (Option.map fun h => h.wal.nextLsn) same
    revert log
    decide

end Examples
end TronDB.Server
