import TronDB.Engine.LocationLog
import TronDB.Routing.Tiers

/-! The stream of location updates: the requests at a node and what each broadcasts, and a
subscriber. -/
namespace TronDB.Server
open TronDB.Core TronDB.Engine

/-- A LocationUpdate record of the log, and the delta that is made from it. -/
structure LocationUpdate where
  lsn : Nat
  key : ReprKey
  descriptor : LocationDescriptor
  deriving DecidableEq

/-- What an INSERT appends behind TxBegin and EntityWrite. -/
def insertUpdates (head : Nat) (e : Entity) : List LocationUpdate :=
  (locationEntries e).zipIdx.map fun p => ⟨head + 3 + p.2, p.1.1, p.1.2⟩

/-- A change of the location table. -/
inductive LocationOp where
  | register (key : ReprKey) (descriptor : LocationDescriptor)
  | transition (key : ReprKey) (target : LocState)
  | updateTier (key : ReprKey) (tier : Tier) (encoding : Encoding)
  | removeEntity (entityId : LogicalId)

def LocationOp.run (t : LocationTable) : LocationOp → LocationTable
  | register key descriptor => t.register key descriptor
  | transition key target => t.tryTransition key target
  | updateTier key tier encoding => (t.updateTier key tier encoding).toOption.getD t
  | removeEntity entityId => t.removeEntity entityId

/-- The entry points of the service. -/
inductive Entry where
  | execute (isWrite : Bool)
  | executeTql
  deriving DecidableEq, Repr

inductive Phase where
  | running
  /-- An INSERT has appended its records and waits for the commit. -/
  | appended (updates : List LocationUpdate)
  /-- They are on disk. -/
  | logged (updates : List LocationUpdate)
  | executed
  | broadcasting (updates : List LocationUpdate)

/-- A statement in execution; an IMPORT runs several INSERTs. -/
structure LocationRequest where
  entry : Entry
  lsnBefore : Nat
  /-- What it has logged and registered. -/
  own : List LocationUpdate
  phase : Phase

/-- A receiver of the broadcast: what waits in it, the LSN and the table of the snapshot. -/
structure Subscriber where
  queue : List LocationUpdate
  lsn : Option Nat
  table : Option LocationTable

structure LocationNode where
  table : LocationTable
  /-- `wal_head_lsn` -/
  head : Nat
  /-- The LocationUpdate records on disk. -/
  log : List LocationUpdate
  /-- How many replicas are connected, where the node tracks them. -/
  connected : Option Nat
  requests : List LocationRequest
  subscriber : Option Subscriber

/-- How an INSERT goes on behind its commit: it is refused, it registers and then fails, or it
is done. -/
inductive InsertEnd where
  | refused | failed | done
  deriving DecidableEq, Repr

/-- What the task of a request does next. -/
inductive RequestStep where
  | append (e : Entity)
  | commit
  | register (ending : InsertEnd)
  /-- Any other part of a statement: records of other types, and changes of the table. -/
  | other (records : Nat) (ops : List LocationOp)
  | complete
  | fail
  | read
  | send

inductive NodeStep where
  | arrive (entry : Entry)
  | request (i : Nat) (step : RequestStep)
  /-- Recompute, migrations, recovery. -/
  | background (records : Nat) (ops : List LocationOp)
  /-- CHECKPOINT takes records from the disk. -/
  | truncate (upTo : Nat)
  | connect (connected : Option Nat)
  | subscribe
  | readLsn
  | takeSnapshot
  | deliver

def registerUpdates (t : LocationTable) (updates : List LocationUpdate) : LocationTable :=
  t.registerAll (updates.map fun u => (u.key, u.descriptor))

/-- `wal_records_since`, the LocationUpdate records of it. -/
def updatesSince (log : List LocationUpdate) (lsn : Nat) : List LocationUpdate :=
  (log.filter fun u => lsn < u.lsn).insertionSort fun u v => u.lsn ≤ v.lsn

/-- A subscriber's next delta; it registers one above the LSN of its snapshot. -/
def Subscriber.take (s : Subscriber) : Subscriber :=
  match s.queue, s.lsn, s.table with
  | u :: rest, some lsn, some table =>
    { s with
      queue := rest
      table := some (if lsn < u.lsn then table.register u.key u.descriptor else table) }
  | _, _, _ => s

namespace LocationNode

/-- A node with a table and a log, and nothing going on. -/
def start (table : LocationTable) (head : Nat) : LocationNode := ⟨table, head, [], none, [], none⟩

def setRequest (x : LocationNode) (i : Nat) (r : LocationRequest) : LocationNode :=
  { x with requests := x.requests.set i r }

def answer (x : LocationNode) (i : Nat) : LocationNode :=
  { x with requests := x.requests.eraseIdx i }

def receive (x : LocationNode) (updates : List LocationUpdate) : LocationNode :=
  { x with subscriber := x.subscriber.map fun s => { s with queue := s.queue ++ updates } }

def stepRequest (x : LocationNode) (i : Nat) (r : LocationRequest) (s : RequestStep) : LocationNode :=
  match s, r.phase with
  | .append e, .running =>
    let updates := insertUpdates x.head e
    { x with head := x.head + updates.length + 3 }.setRequest i { r with phase := .appended updates }
  | .commit, .appended updates =>
    { x with log := x.log ++ updates }.setRequest i { r with phase := .logged updates }
  | .register .refused, .logged _ => x.answer i
  | .register .failed, .logged updates =>
    { x with table := registerUpdates x.table updates }.answer i
  | .register .done, .logged updates =>
    { x with table := registerUpdates x.table updates }.setRequest i
      { r with own := r.own ++ updates, phase := .running }
  | .other records ops, .running =>
    { x with table := ops.foldl LocationOp.run x.table, head := x.head + records }
  | .complete, .running =>
    match r.entry with
    | .execute _ => x.setRequest i { r with phase := .executed }
    | .executeTql => x.answer i
  | .fail, .running => x.answer i
  | .read, .executed =>
    -- a write at a node that tracks replicas broadcasts only if some are connected
    if r.entry = .execute true ∧ x.connected = some 0 then x.answer i
    else x.setRequest i { r with phase := .broadcasting (updatesSince x.log r.lsnBefore) }
  | .send, .broadcasting updates => (x.receive updates).answer i
  | _, _ => x

def step (x : LocationNode) : NodeStep → LocationNode
  | .arrive entry => { x with requests := x.requests ++ [⟨entry, x.head, [], .running⟩] }
  | .request i s =>
    match x.requests[i]? with
    | some r => x.stepRequest i r s
    | none => x
  | .background records ops =>
    { x with table := ops.foldl LocationOp.run x.table, head := x.head + records }
  | .truncate upTo => { x with log := x.log.filter fun u => upTo < u.lsn }
  | .connect connected => { x with connected }
  | .subscribe => { x with subscriber := some (x.subscriber.getD ⟨[], none, none⟩) }
  | .readLsn =>
    { x with subscriber := x.subscriber.map fun s => { s with lsn := some (s.lsn.getD x.head) } }
  | .takeSnapshot =>
    { x with subscriber := x.subscriber.map fun s =>
        match s.lsn with
        | none => s
        | some lsn => { s with table := some (s.table.getD (.restore (x.table.snapshot lsn))) } }
  | .deliver => { x with subscriber := x.subscriber.map Subscriber.take }

end LocationNode
end TronDB.Server
