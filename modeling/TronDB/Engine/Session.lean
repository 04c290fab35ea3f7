import TronDB.Engine.Open
import TronDB.Engine.Run

/-! An engine over its sessions: statements, background tasks, snapshots, and the closing and
opening in between. -/
namespace TronDB.Engine
open TronDB.Core Binary Wal

/-! ### INSERT in two steps -/

/-- An INSERT that waits for its commit. -/
structure PendingInsert where
  collection : String
  entity : Entity

section Insert
variable [WalPayload Payload]

def beginInsert (env : Env) (s : State) (p : InsertPlan) : Except EngineError PendingInsert × State :=
  match s.schemas[p.collection]? with
  | none => (.error (.collectionNotFound p.collection), s)
  | some schema =>
    match checkVectors schema p.collection p.vectors with
    | .error e => (.error e, s)
    | .ok () =>
      let id := (findIdInFields p.fields p.values).getD (env.freshId 0)
      let s := s.removeOldEntries env p.collection id
      match buildEntity env schema p id with
      | .error e => (.error e, s)
      | .ok entity =>
        let entity := { entity with txTime := s.wal.nextTx }
        (.ok ⟨p.collection, entity⟩, s.logTx env.ts p.collection
          ((.entityWrite, .entity entity) ::
            (locationEntries entity).map fun kd => (.locationUpdate, .location kd.1 kd.2)))

omit [WalPayload Payload] in
def finishInsert (env : Env) (s : State) (pending : PendingInsert) : Outcome :=
  s.applyInsert env pending.collection pending.entity

theorem insert_steps (env : Env) (s : State) (p : InsertPlan) :
    insert env s p =
      match beginInsert env s p with
      | (.error e, s') => (.error e, s')
      | (.ok pending, s') => finishInsert env s' pending := by
  unfold insert beginInsert
  cases s.schemas[p.collection]? with
  | none => rfl
  | some schema =>
    dsimp only
    cases checkVectors schema p.collection p.vectors with
    | error e => rfl
    | ok =>
      dsimp only
      cases buildEntity env schema p ((findIdInFields p.fields p.values).getD (env.freshId 0)) with
      | error e => rfl
      | ok e => rfl

/-! ### Sessions -/

/-- CHECKPOINT. The location table is put into a snapshot as well, and that is thrown away. -/
def checkpoint (ts : Int) (s : State) : Outcome :=
  let row := ((∅ : FinMap String Value).insert "checkpoint_lsn"
    (.int (Int64.ofNat s.wal.nextLsn))).insert "message" (.string "checkpoint complete")
  (.ok ⟨["checkpoint_lsn", "message"], [⟨row, none⟩], 0, .deterministic, "Fjall"⟩,
    { s with wal := s.wal.checkpoint "checkpoint" ts })

/-- An open engine with the calls in flight. -/
structure Session where
  engine : OpenEngine
  inserts : List PendingInsert
  tasks : List Task

inductive Event where
  | write (env : Env) (w : Write)
  | beginInsert (env : Env) (p : InsertPlan)
  | finishInsert (env : Env) (i : Nat)
  | startRecompute (env : RecomputeEnv)
  | advance (env : RecomputeEnv) (i : Nat)
  | checkpoint (ts : Int)
  /-- The background task saves the location table under the head the log had at the start. -/
  | saveLocation
  /-- The indexes are saved one after the other; of two with one base name the last one stays. -/
  | saveHnsw (order : HashOrder ((String × String) × HnswIndex))
  | reopen (config : WalConfig) (order : HashOrder (Nat × List (WalRecord Payload)))

namespace Session

def start (engine : OpenEngine) : Session := ⟨engine, [], []⟩

def withState (x : Session) (s : State) : Session := { x with engine := { x.engine with state := s } }

/-- One event; none when the engine does not open again. -/
def step (x : Session) : Event → Option Session
  | .write env w => some (x.withState (perform env x.engine.state w).2)
  | .beginInsert env p =>
    match Engine.beginInsert env x.engine.state p with
    | (.ok pending, s) => some { x.withState s with inserts := x.inserts ++ [pending] }
    | (.error _, s) => some (x.withState s)
  | .finishInsert env i =>
    match x.inserts[i]? with
    | none => some x
    | some pending =>
      some { x.withState (Engine.finishInsert env x.engine.state pending).2 with
        inserts := x.inserts.eraseIdx i }
  | .startRecompute env =>
    some { x with tasks := x.tasks ++ [x.engine.state.startRecompute env] }
  | .advance env i =>
    match x.tasks[i]? with
    | none => some x
    | some task =>
      let (s, task') := Engine.advance env x.engine.state task
      some { x.withState s with tasks := x.tasks.set i task' }
  | .checkpoint ts => some (x.withState (Engine.checkpoint ts x.engine.state).2)
  | .saveLocation =>
    some { x with engine := { x.engine with
      locationSnapshot := some (x.engine.state.location.snapshot x.engine.walHead) } }
  | .saveHnsw order =>
    some { x with engine := { x.engine with
      hnswSnapshots := (order.order x.engine.state.indexes.toList).foldl
        (fun snapshots kh => saveSnapshot snapshots kh.1 kh.2 (headLsn x.engine.state.wal))
        x.engine.hnswSnapshots } }
  | .reopen config order =>
    match openEngine config order x.engine.disk with
    | .ok (engine, _) => some (start engine)
    | .error _ => none

end Session

/-- Nothing is left to go on with once the engine has not opened. -/
def Session.next (x : Option Session) (a : Event) : Option Session := x.bind fun x => x.step a

def OpenEngine.init (config : WalConfig) : OpenEngine := ⟨.init config, 0, none, ∅⟩

end Insert
end TronDB.Engine
