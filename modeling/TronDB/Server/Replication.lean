import TronDB.Engine.Open
import TronDB.Engine.Replay
import TronDB.Lib.Delivery
import TronDB.Wal.Lsn

/-! Replication of the log: the primary's statements, the broadcasts, the streams with their
catch-up tasks, the replicas, and the acknowledgements the primary keeps track of. -/
namespace TronDB.Server
open TronDB.Engine Wal

abbrev LogRecord := WalRecord Payload

/-- A replica's own engine. What it has applied of the primary's log is kept beside it. -/
structure Replica where
  engine : State
  applied : List LogRecord

/-- What `Engine::last_applied_lsn` gives: the head of the replica's own log. -/
def Replica.lastAppliedLsn (y : Replica) : Nat := headLsn y.engine.wal

inductive CatchUp where
  | unread (lsn : Nat)
  | sending (records : List LogRecord)

/-- A stream of log records to a replica, with the entry the tracker has of it. -/
structure Connection where
  replica : Nat
  /-- The confirmed LSN; none once the tracker has disconnected it. -/
  confirmed : Option Nat
  /-- The channel broadcasts go into. -/
  broadcast : List LogRecord
  catchUp : CatchUp
  /-- On the way to the replica. -/
  stream : List LogRecord
  /-- The replica still listens. -/
  alive : Bool
  /-- On the way back. -/
  acks : List Nat

/-- A write request behind its start. -/
inductive Request where
  | begun (lsnBefore : Nat)
  | executed (lsnBefore lsnAfter : Nat)
  | broadcasting (records : List LogRecord) (lsnAfter : Nat)
  | waiting (lsn : Nat)
  | answered

structure Cluster where
  primary : WalWriter (WalSegment Payload) Payload
  replicas : List Replica
  connections : List Connection
  requests : List Request

inductive Action where
  /-- A call of some statement on the primary's log. -/
  | log (op : WalOp Payload)
  | beginRequest
  | advance (i : Nat)
  | connect (replica : Nat)
  | readCatchUp (c : Nat)
  | sendCatchUp (c : Nat)
  | forward (c : Nat)
  /-- The replica takes a record, whose application may fail in its store. -/
  | receive (c : Nat) (fails : Bool)
  | deliverAck (c : Nat)
  /-- The replica no longer listens, or its stream breaks. -/
  | close (c : Nat)
  | disconnect (c : Nat)
  /-- A replica's own log grows. -/
  | ownLog (replica : Nat) (op : WalOp Payload)

def channelCapacity : Nat := 256

section Cluster
variable [WalPayload Payload]

/-- `wal_records_since`: what is on disk behind an LSN, in LSN order. -/
def recordsSince (w : WalWriter (WalSegment Payload) Payload) (lsn : Nat) : List LogRecord :=
  (w.disk.filter fun r => lsn < r.lsn).insertionSort fun a b => a.lsn ≤ b.lsn

/-- `ReplicaTracker::broadcast` to one replica: a full channel drops the record. -/
def Connection.trySend (c : Connection) (r : LogRecord) : Connection :=
  if c.confirmed.isSome ∧ c.broadcast.length < channelCapacity then
    { c with broadcast := c.broadcast ++ [r] }
  else c

def Connection.hangUp (c : Connection) (replica : Nat) : Connection :=
  if c.replica = replica then { c with alive := false } else c

/-- The replica's loop: apply, log a failure, acknowledge either way. -/
def Replica.take (y : Replica) (r : LogRecord) (fails : Bool) : Replica :=
  if fails then y
  else match applyWalRecord y.engine r with
    | .ok engine => ⟨engine, y.applied ++ [r]⟩
    | .error _ => y

namespace Cluster

def connectedCount (x : Cluster) : Nat := x.connections.countP fun c => c.confirmed.isSome

/-- How many replicas have confirmed the LSN, as `wait_for_ack` counts them. -/
def confirmedCount (x : Cluster) (lsn : Nat) : Nat :=
  x.connections.countP fun c => c.confirmed.any fun n => lsn ≤ n

def acked (x : Cluster) (lsn minReplicas : Nat) : Bool := minReplicas ≤ x.confirmedCount lsn

def onConnection (x : Cluster) (c : Nat) (f : Connection → Connection) : Cluster :=
  { x with connections := x.connections.modify c f }

/-- The registration and the start of the stream. The replica's LSN decides what the catch-up
sends; confirmed is nothing yet. An earlier stream of the same replica is dead. -/
def connect (x : Cluster) (i : Nat) : Cluster :=
  match x.replicas[i]? with
  | none => x
  | some y => { x with
      connections := (x.connections.map fun c => c.hangUp i) ++
        [⟨i, some 0, [], .unread y.lastAppliedLsn, [], true, []⟩] }

def receive (x : Cluster) (c : Nat) (fails : Bool) : Cluster :=
  match x.connections[c]? with
  | none => x
  | some conn =>
    match conn.alive, conn.stream with
    | true, r :: rest =>
      { x with
        replicas := x.replicas.modify conn.replica fun y => y.take r fails
        connections := x.connections.set c { conn with stream := rest, acks := conn.acks ++ [r.lsn] } }
    | _, _ => x

/-- The next step of a request. The wait ends with its acknowledgements or its timeout, and the
request is answered either way. -/
def advance (x : Cluster) (i : Nat) : Cluster :=
  match x.requests[i]? with
  | none | some .answered => x
  | some (.begun lsnBefore) =>
    { x with requests := x.requests.set i (.executed lsnBefore (headLsn x.primary)) }
  | some (.executed lsnBefore lsnAfter) =>
    { x with requests := x.requests.set i (if lsnBefore < lsnAfter ∧ 0 < x.connectedCount then
        .broadcasting (recordsSince x.primary lsnBefore) lsnAfter else .answered) }
  | some (.broadcasting (r :: rest) lsnAfter) =>
    { x with
      connections := x.connections.map fun c => c.trySend r
      requests := x.requests.set i (.broadcasting rest lsnAfter) }
  | some (.broadcasting [] lsnAfter) => { x with requests := x.requests.set i (.waiting lsnAfter) }
  | some (.waiting _) => { x with requests := x.requests.set i .answered }

/-- The catch-up task reads the log once, then sends what it read. -/
def readCatchUp (primary : WalWriter (WalSegment Payload) Payload) (c : Connection) : Connection :=
  match c.catchUp with
  | .unread lsn => { c with catchUp := .sending (recordsSince primary lsn) }
  | .sending _ => c

def sendCatchUp (c : Connection) : Connection :=
  match c.catchUp with
  | .sending (r :: rest) => { c with catchUp := .sending rest, stream := c.stream ++ [r] }
  | _ => c

def forward (c : Connection) : Connection :=
  match c.broadcast with
  | r :: rest => { c with broadcast := rest, stream := c.stream ++ [r] }
  | [] => c

/-- `update_confirmed_lsn`, of whatever LSN comes in. -/
def deliverAck (c : Connection) : Connection :=
  match c.acks with
  | n :: rest => { c with acks := rest, confirmed := c.confirmed.map fun _ => n }
  | [] => c

def step (x : Cluster) : Action → Cluster
  | .log op => { x with primary := x.primary.apply op }
  | .beginRequest => { x with requests := x.requests ++ [.begun (headLsn x.primary)] }
  | .advance i => x.advance i
  | .connect i => x.connect i
  | .readCatchUp c => x.onConnection c (readCatchUp x.primary)
  | .sendCatchUp c => x.onConnection c sendCatchUp
  | .forward c => x.onConnection c forward
  | .receive c fails => x.receive c fails
  | .deliverAck c => x.onConnection c deliverAck
  | .close c => x.onConnection c fun c => { c with alive := false }
  | .disconnect c => x.onConnection c fun c => { c with confirmed := none }
  | .ownLog i op => { x with replicas := x.replicas.modify i fun y =>
      { y with engine := { y.engine with wal := y.engine.wal.apply op } } }

/-- A new primary, and replicas with engines that may have logs of their own. -/
def start (config : WalConfig) (engines : List State) : Cluster :=
  ⟨.open config [], engines.map fun engine => ⟨engine, []⟩, [], []⟩

end Cluster
end Cluster
end TronDB.Server
