import TronDB.Engine.Replayed
import TronDB.Server.Replication

/-! When an acknowledgement means that the replica has applied the log. -/
namespace TronDB.Server
open TronDB.Core TronDB.Engine Wal
open Delivery (HoldsUpTo Gapless Next)

section Cluster
variable [WalPayload Payload]

/-- The replica has applied the primary's log up to the LSN, in order. -/
def Holds (x : Cluster) (y : Replica) (lsn : Nat) : Prop := HoldsUpTo WalRecord.lsn x.primary.disk y.applied lsn

/-- What is confirmed is held, and an acknowledged LSN is held by as many replicas as asked for. -/
structure Acknowledged (x : Cluster) : Prop where
  confirmed : ∀ c ∈ x.connections, ∀ n ∈ c.confirmed, ∀ y ∈ x.replicas[c.replica]?, Holds x y n
  acked : ∀ lsn minReplicas, x.acked lsn minReplicas = true → ∃ replicas : List Nat, replicas.Nodup ∧
    minReplicas ≤ replicas.length ∧ ∀ i ∈ replicas, ∃ y, x.replicas[i]? = some y ∧ Holds x y lsn

def Applies (y : Replica) (r : LogRecord) (fails : Bool) : Prop :=
  fails = false ∧ (applyWalRecord y.engine r).isOk = true

/-- The replica takes the next record of the log, and applies it, or its last one again. -/
def TakesNext (x : Cluster) (c : Nat) (fails : Bool) : Prop :=
  ∀ conn ∈ x.connections[c]?, conn.alive = true → ∀ r ∈ conn.stream.head?,
    ∀ y ∈ x.replicas[conn.replica]?, Next WalRecord.lsn x.primary.disk y.applied r ∧
      (Applies y r fails ∨ r.lsn = Delivery.last WalRecord.lsn y.applied)

/-- Checkpoints find nothing buffered, a replica has one entry in the tracker, and every record
comes to it in its turn. -/
def InStep (x : Cluster) : Action → Prop
  | .log (.checkpoint _ _) => x.primary.buffer = []
  | .connect i => ∀ c ∈ x.connections, c.replica = i → c.confirmed = none
  | .receive c fails => TakesNext x c fails
  | _ => True

/-! ### The log -/

structure LogInOrder (w : WalWriter (WalSegment Payload) Payload) : Prop where
  start : 0 < w.nextLsn
  ascending : (w.disk ++ w.buffer).Pairwise fun a b => a.lsn < b.lsn
  bounds : ∀ r ∈ w.disk ++ w.buffer, 0 < r.lsn ∧ r.lsn < w.nextLsn

theorem LogInOrder.snoc {w : WalWriter (WalSegment Payload) Payload} (ordered : LogInOrder w)
    {records : List LogRecord} {r : LogRecord} (same : records = w.disk ++ w.buffer ++ [r])
    (own : r.lsn = w.nextLsn) :
    records.Pairwise (fun a b => a.lsn < b.lsn) ∧ ∀ q ∈ records, 0 < q.lsn ∧ q.lsn < w.nextLsn + 1 := by
  subst same
  constructor
  · refine List.pairwise_append.mpr ⟨ordered.ascending, List.pairwise_singleton _ r, fun q there r' last => ?_⟩
    rw [List.mem_singleton.mp last, own]
    exact (ordered.bounds q there).2
  · intro q there
    rcases List.mem_append.mp there with old | new
    · have := ordered.bounds q old
      omega
    · have := ordered.start
      rw [List.mem_singleton.mp new]
      omega

theorem logInOrder_open (config : WalConfig) :
    LogInOrder (.open config [] : WalWriter (WalSegment Payload) Payload) := by
  have empty : (.open config [] : WalWriter (WalSegment Payload) Payload).disk = [] :=
    WalWriter.disk_open config [] rfl
  have nothing : (.open config [] : WalWriter (WalSegment Payload) Payload).buffer = [] := rfl
  exact ⟨WalWriter.nextLsn_open config [], by simp [empty, nothing], by simp [empty, nothing]⟩

/-- A call on the log adds behind what is on disk. -/
theorem logInOrder_apply {w : WalWriter (WalSegment Payload) Payload} (ordered : LogInOrder w)
    (op : WalOp Payload) (settled : ∀ path ts, op = .checkpoint path ts → w.buffer = []) :
    LogInOrder (w.apply op) ∧ ∃ added, (w.apply op).disk = w.disk ++ added := by
  cases op with
  | nextTxId => exact ⟨⟨ordered.start, ordered.ascending, ordered.bounds⟩, [], (List.append_nil _).symm⟩
  | append t collection txId schemaVer payload ts =>
    have snoc := ordered.snoc (r := ⟨w.nextLsn, ts, txId, t, schemaVer, collection, payload⟩)
      (List.append_assoc _ _ _).symm rfl
    exact ⟨⟨Nat.succ_pos _, snoc.1, snoc.2⟩, [], (List.append_nil _).symm⟩
  | commit txId ts =>
    have disk : (w.apply (.commit txId ts)).disk =
        w.disk ++ (w.buffer ++ [WalWriter.commitRecord w.nextLsn txId ts]) := WalWriter.disk_commit w txId ts
    have buffer : (w.apply (.commit txId ts)).buffer = [] := WalWriter.buffer_commit w txId ts
    have next : (w.apply (.commit txId ts)).nextLsn = w.nextLsn + 1 := WalWriter.nextLsn_commit w txId ts
    have snoc := ordered.snoc (r := WalWriter.commitRecord w.nextLsn txId ts) rfl rfl
    have all : (w.apply (.commit txId ts)).disk ++ (w.apply (.commit txId ts)).buffer =
        w.disk ++ w.buffer ++ [WalWriter.commitRecord w.nextLsn txId ts] := by
      rw [disk, buffer, List.append_nil, List.append_assoc]
    exact ⟨⟨by omega, all ▸ snoc.1, by rw [all, next]; exact snoc.2⟩, _, disk⟩
  | checkpoint path ts =>
    have empty := settled path ts rfl
    have disk : (w.apply (.checkpoint path ts)).disk =
        w.disk ++ [WalWriter.checkpointRecord w.nextLsn path ts] := WalWriter.disk_checkpoint w path ts
    have buffer : (w.apply (.checkpoint path ts)).buffer = [] := empty
    have snoc := ordered.snoc (r := WalWriter.checkpointRecord w.nextLsn path ts) rfl rfl
    have all : (w.apply (.checkpoint path ts)).disk ++ (w.apply (.checkpoint path ts)).buffer =
        w.disk ++ w.buffer ++ [WalWriter.checkpointRecord w.nextLsn path ts] := by
      rw [disk, buffer, empty, List.append_nil, List.append_nil]
    exact ⟨⟨Nat.succ_pos _, all ▸ snoc.1, by rw [all]; exact snoc.2⟩, _, disk⟩

theorem LogInOrder.distinct {w : WalWriter (WalSegment Payload) Payload} (ordered : LogInOrder w)
    {p q : LogRecord} (here : p ∈ w.disk) (there : q ∈ w.disk) (same : p.lsn = q.lsn) : p = q := by
  have ascending := (List.pairwise_append.mp ordered.ascending).1
  obtain ⟨i, hi, rfl⟩ := List.getElem_of_mem here
  obtain ⟨j, hj, rfl⟩ := List.getElem_of_mem there
  rw [List.pairwise_iff_getElem] at ascending
  rcases Nat.lt_trichotomy i j with before | rfl | behind
  · have := ascending i j hi hj before
    omega
  · rfl
  · have := ascending j i hj hi behind
    omega

theorem mem_recordsSince {w : WalWriter (WalSegment Payload) Payload} {lsn : Nat} {r : LogRecord}
    (there : r ∈ recordsSince w lsn) : r ∈ w.disk := by
  unfold recordsSince at there
  rw [List.mem_insertionSort] at there
  exact (List.mem_filter.mp there).1

/-! ### The invariant -/

def CatchUp.records : CatchUp → List LogRecord
  | .unread _ => []
  | .sending records => records

def Connection.records (c : Connection) : List LogRecord := c.broadcast ++ c.catchUp.records ++ c.stream

def Request.records : Request → List LogRecord
  | .broadcasting records _ => records
  | _ => []

abbrev lastLsn (y : Replica) : Nat := Delivery.last WalRecord.lsn y.applied

/-- A connection carries records of the log one way, and LSNs its replica has reached the other. -/
structure Carries (x : Cluster) (c : Connection) : Prop where
  known : c.replica < x.replicas.length
  records : ∀ r ∈ c.records, r ∈ x.primary.disk
  reached : ∀ n, n ∈ c.acks ∨ n ∈ c.confirmed → ∀ y ∈ x.replicas[c.replica]?, n ≤ lastLsn y

structure StreamsInOrder (x : Cluster) : Prop where
  log : LogInOrder x.primary
  gapless : ∀ y ∈ x.replicas, Gapless WalRecord.lsn x.primary.disk y.applied
  applied : ∀ y ∈ x.replicas, ∀ r ∈ y.applied, r ∈ x.primary.disk
  requests : ∀ q ∈ x.requests, ∀ r ∈ q.records, r ∈ x.primary.disk
  carries : ∀ c ∈ x.connections, Carries x c
  separate : ∀ (i j : Nat) (c d : Connection), x.connections[i]? = some c → x.connections[j]? = some d →
    c.confirmed.isSome = true → d.confirmed.isSome = true → c.replica = d.replica → i = j

variable {x : Cluster}

theorem StreamsInOrder.positive (inOrder : StreamsInOrder x) : ∀ q ∈ x.primary.disk, 0 < q.lsn :=
  fun q there => (inOrder.log.bounds q (List.mem_append_left _ there)).1

theorem inOrder_start (config : WalConfig) (engines : List State) : StreamsInOrder (.start config engines) where
  log := logInOrder_open config
  gapless y there := by
    obtain ⟨engine, -, rfl⟩ := List.mem_map.mp there
    exact .nothing fun q logged => ((logInOrder_open config).bounds q (List.mem_append_left _ logged)).1
  applied y there := by
    obtain ⟨engine, -, rfl⟩ := List.mem_map.mp there
    exact fun r none_ => absurd none_ List.not_mem_nil
  requests q there := absurd there List.not_mem_nil
  carries c there := absurd there List.not_mem_nil
  separate i j c d here := by simp [Cluster.start] at here

theorem StreamsInOrder.connections (inOrder : StreamsInOrder x) (connections : List Connection)
    (each : ∀ (i : Nat) (d : Connection), connections[i]? = some d → ∃ c, x.connections[i]? = some c ∧ d.replica = c.replica ∧
      (d.confirmed.isSome = true → c.confirmed.isSome = true) ∧ Carries x d) :
    StreamsInOrder { x with connections } where
  log := inOrder.log
  gapless := inOrder.gapless
  applied := inOrder.applied
  requests := inOrder.requests
  carries d there := by
    obtain ⟨i, here⟩ := List.mem_iff_getElem?.mp there
    obtain ⟨c, -, -, -, carries⟩ := each i d here
    exact ⟨carries.known, carries.records, carries.reached⟩
  separate i j d e here there tracked tracked' same := by
    obtain ⟨c, was, own, stays, -⟩ := each i d here
    obtain ⟨c', was', own', stays', -⟩ := each j e there
    exact inOrder.separate i j c c' was was' (stays tracked) (stays' tracked') (own ▸ own' ▸ same)

theorem StreamsInOrder.onConnection (inOrder : StreamsInOrder x) (k : Nat) (f : Connection → Connection)
    (replica : ∀ c, (f c).replica = c.replica)
    (tracked : ∀ c, (f c).confirmed.isSome = true → c.confirmed.isSome = true)
    (carries : ∀ c, Carries x c → Carries x (f c)) : StreamsInOrder (x.onConnection k f) := by
  refine inOrder.connections _ fun i d here => ?_
  rw [List.getElem?_modify] at here
  obtain ⟨c, was, now⟩ := Option.map_eq_some_iff.mp here
  have before := inOrder.carries c (List.mem_iff_getElem?.mpr ⟨i, was⟩)
  refine ⟨c, was, ?_⟩
  by_cases own : k = i
  · rw [if_pos own] at now
    subst now
    exact ⟨replica c, tracked c, carries c before⟩
  · rw [if_neg own] at now
    subst now
    exact ⟨rfl, fun h => h, before⟩

theorem StreamsInOrder.withRequests (inOrder : StreamsInOrder x) (requests : List Request)
    (logged : ∀ q ∈ requests, ∀ r ∈ q.records, r ∈ x.primary.disk) : StreamsInOrder { x with requests } where
  log := inOrder.log
  gapless := inOrder.gapless
  applied := inOrder.applied
  requests := logged
  carries c there := by
    obtain ⟨known, records, reached⟩ := inOrder.carries c there
    exact ⟨known, records, reached⟩
  separate := inOrder.separate

/-! ### Steps -/

theorem inOrder_log (inOrder : StreamsInOrder x) (op : WalOp Payload) (inStep : InStep x (.log op)) :
    StreamsInOrder (x.step (.log op)) := by
  have settled : ∀ path ts, op = .checkpoint path ts → x.primary.buffer = [] := by
    rintro path ts rfl
    exact inStep
  obtain ⟨log, added, grown⟩ := logInOrder_apply inOrder.log op settled
  have old : ∀ r ∈ x.primary.disk, r ∈ (x.primary.apply op).disk :=
    fun r there => grown ▸ List.mem_append_left _ there
  have above : ∀ q ∈ x.primary.disk, ∀ r ∈ added, q.lsn < r.lsn := by
    have ascending := (List.pairwise_append.mp log.ascending).1
    rw [grown] at ascending
    exact (List.pairwise_append.mp ascending).2.2
  exact {
    log
    gapless := fun y there => by
      change Gapless WalRecord.lsn (x.primary.apply op).disk y.applied
      rw [grown]
      refine (inOrder.gapless y there).grow fun q new => ?_
      have positive := (log.bounds q (List.mem_append_left _ (grown ▸ List.mem_append_right _ new))).1
      rcases @Delivery.last_cases _ WalRecord.lsn y.applied with none | ⟨r, applied, last⟩
      · omega
      · have := above r (inOrder.applied y there r applied) q new
        omega
    applied := fun y there r applied => old r (inOrder.applied y there r applied)
    requests := fun q there r listed => old r (inOrder.requests q there r listed)
    carries := fun c there => by
      obtain ⟨known, records, reached⟩ := inOrder.carries c there
      exact ⟨known, fun r listed => old r (records r listed), reached⟩
    separate := inOrder.separate }

theorem carries_trySend {c : Connection} (carries : Carries x c) {r : LogRecord} (logged : r ∈ x.primary.disk) :
    Carries x (c.trySend r) := by
  unfold Connection.trySend
  split
  · refine ⟨carries.known, fun q there => ?_, carries.reached⟩
    unfold Connection.records at there
    simp only [List.mem_append, List.mem_singleton] at there
    rcases there with ((queued | rfl) | sending) | streamed
    · exact carries.records q (by simp [Connection.records, queued])
    · exact logged
    · exact carries.records q (by simp [Connection.records, sending])
    · exact carries.records q (by simp [Connection.records, streamed])
  · exact carries

theorem inOrder_advance (inOrder : StreamsInOrder x) (i : Nat) : StreamsInOrder (x.advance i) := by
  have set (q : Request) (logged : ∀ r ∈ q.records, r ∈ x.primary.disk) :
      ∀ q' ∈ x.requests.set i q, ∀ r ∈ q'.records, r ∈ x.primary.disk := by
    intro q' there
    rcases List.mem_or_eq_of_mem_set there with old | rfl
    · exact inOrder.requests q' old
    · exact logged
  unfold Cluster.advance
  split
  · exact inOrder
  · exact inOrder
  · exact inOrder.withRequests _ (set _ fun r none_ => absurd none_ List.not_mem_nil)
  · refine inOrder.withRequests _ (set _ fun r there => ?_)
    split at there
    · exact mem_recordsSince there
    · exact absurd there List.not_mem_nil
  · rename_i r rest lsnAfter found
    have listed := inOrder.requests _ (List.mem_of_getElem? found)
    have sent : StreamsInOrder { x with connections := x.connections.map fun c => c.trySend r } := by
      refine inOrder.connections _ fun j d here => ?_
      rw [List.getElem?_map] at here
      obtain ⟨c, was, rfl⟩ := Option.map_eq_some_iff.mp here
      have carries := inOrder.carries c (List.mem_of_getElem? was)
      refine ⟨c, was, ?_, ?_, carries_trySend carries (listed r List.mem_cons_self)⟩
      · unfold Connection.trySend
        split <;> rfl
      · unfold Connection.trySend
        split <;> exact fun h => h
    exact sent.withRequests _ (set _ fun q there => listed q (List.mem_cons_of_mem _ there))
  · exact inOrder.withRequests _ (set _ fun r none_ => absurd none_ List.not_mem_nil)
  · exact inOrder.withRequests _ (set _ fun r none_ => absurd none_ List.not_mem_nil)

theorem Carries.fewer {c d : Connection} (carries : Carries x c) (same : d.replica = c.replica)
    (records : ∀ r ∈ d.records, r ∈ c.records)
    (reported : ∀ n, n ∈ d.acks ∨ n ∈ d.confirmed → n ∈ c.acks ∨ n ∈ c.confirmed) : Carries x d where
  known := same ▸ carries.known
  records r there := carries.records r (records r there)
  reached n there y here := carries.reached n (reported n there) y (same ▸ here)

theorem carries_readCatchUp {c : Connection} (carries : Carries x c) :
    Carries x (Cluster.readCatchUp x.primary c) := by
  unfold Cluster.readCatchUp
  split
  · refine ⟨carries.known, fun r there => ?_, carries.reached⟩
    unfold Connection.records at there
    simp only [List.mem_append] at there
    rcases there with (queued | read) | streamed
    · exact carries.records r (by simp [Connection.records, queued])
    · exact mem_recordsSince read
    · exact carries.records r (by simp [Connection.records, streamed])
  · exact carries

theorem carries_sendCatchUp {c : Connection} (carries : Carries x c) : Carries x (Cluster.sendCatchUp c) := by
  unfold Cluster.sendCatchUp
  split
  · rename_i r rest sending
    refine carries.fewer rfl (fun q there => ?_) fun n reported => reported
    simp only [Connection.records, sending, CatchUp.records, List.mem_append, List.mem_cons,
      List.not_mem_nil, or_false] at there ⊢
    tauto
  · exact carries

theorem carries_forward {c : Connection} (carries : Carries x c) : Carries x (Cluster.forward c) := by
  unfold Cluster.forward
  split
  · rename_i r rest queued
    refine carries.fewer rfl (fun q there => ?_) fun n reported => reported
    simp only [Connection.records, queued, List.mem_append, List.mem_cons, List.not_mem_nil,
      or_false] at there ⊢
    tauto
  · exact carries

theorem carries_deliverAck {c : Connection} (carries : Carries x c) : Carries x (Cluster.deliverAck c) := by
  unfold Cluster.deliverAck
  split
  · rename_i n rest coming
    refine carries.fewer rfl (fun r there => there) fun m reported => ?_
    rcases reported with later | now
    · exact .inl (coming ▸ List.mem_cons_of_mem _ later)
    · obtain ⟨old, -, rfl⟩ := Option.map_eq_some_iff.mp (Option.mem_def.mp now)
      exact .inl (coming ▸ List.mem_cons_self)
  · exact carries

theorem StreamsInOrder.withReplicas (inOrder : StreamsInOrder x) (replicas : List Replica)
    (long : replicas.length = x.replicas.length)
    (each : ∀ (i : Nat) (y' : Replica), replicas[i]? = some y' → ∃ y, x.replicas[i]? = some y ∧
      lastLsn y ≤ lastLsn y' ∧ Gapless WalRecord.lsn x.primary.disk y'.applied ∧
        ∀ r ∈ y'.applied, r ∈ x.primary.disk) :
    StreamsInOrder { x with replicas } where
  log := inOrder.log
  gapless y' there := by
    obtain ⟨i, here⟩ := List.mem_iff_getElem?.mp there
    obtain ⟨y, -, -, gapless, -⟩ := each i y' here
    exact gapless
  applied y' there := by
    obtain ⟨i, here⟩ := List.mem_iff_getElem?.mp there
    obtain ⟨y, -, -, -, applied⟩ := each i y' here
    exact applied
  requests := inOrder.requests
  carries c there := by
    obtain ⟨known, records, reached⟩ := inOrder.carries c there
    refine ⟨long ▸ known, records, fun n reported y' here => ?_⟩
    obtain ⟨y, was, further, -, -⟩ := each c.replica y' here
    exact Nat.le_trans (reached n reported y was) further
  separate := inOrder.separate

omit [WalPayload Payload] in
theorem getElem?_snoc {α : Type} {l : List α} {a b : α} {i : Nat} (found : (l ++ [a])[i]? = some b) :
    l[i]? = some b ∨ i = l.length ∧ b = a := by
  rw [List.getElem?_append] at found
  split at found
  · exact .inl found
  · rename_i behind
    obtain ⟨inside, same⟩ := List.getElem?_eq_some_iff.mp found
    rw [List.length_singleton] at inside
    refine .inr ⟨by omega, ?_⟩
    simp only [List.getElem_singleton] at same
    exact same.symm

theorem inOrder_connect (inOrder : StreamsInOrder x) (i : Nat) (inStep : InStep x (.connect i)) :
    StreamsInOrder (x.connect i) := by
  unfold Cluster.connect
  cases known : x.replicas[i]? with
  | none => exact inOrder
  | some y =>
    dsimp only
    have dead : StreamsInOrder { x with connections := x.connections.map fun c => c.hangUp i } := by
      refine inOrder.connections _ fun j d here => ?_
      rw [List.getElem?_map] at here
      obtain ⟨c, was, rfl⟩ := Option.map_eq_some_iff.mp here
      have carries := inOrder.carries c (List.mem_of_getElem? was)
      refine ⟨c, was, ?_⟩
      unfold Connection.hangUp
      split
      · exact ⟨rfl, fun h => h, carries.known, carries.records, carries.reached⟩
      · exact ⟨rfl, fun h => h, carries⟩
    -- no other entry of the tracker is the replica's
    have alone : ∀ (j : Nat) (c : Connection), (x.connections.map fun c => c.hangUp i)[j]? = some c →
        c.confirmed.isSome = true → c.replica ≠ i := by
      intro j c here tracked own
      rw [List.getElem?_map] at here
      obtain ⟨old, was, rfl⟩ := Option.map_eq_some_iff.mp here
      have none_ := inStep old (List.mem_of_getElem? was)
      unfold Connection.hangUp at own tracked
      split at own
      · rename_i same
        rw [if_pos same, none_ same] at tracked
        cases tracked
      · contradiction
    obtain ⟨inside, -⟩ := List.getElem?_eq_some_iff.mp known
    refine { dead with carries := fun c there => ?_, separate := fun j k c d here there tracked tracked' same => ?_ }
    · rcases List.mem_append.mp there with old | new
      · obtain ⟨known, records, reached⟩ := dead.carries c old
        exact ⟨known, records, reached⟩
      · rw [List.mem_singleton.mp new]
        refine ⟨inside, fun r none_ => ?_, fun n reported y' found => ?_⟩
        · simp [Connection.records, CatchUp.records] at none_
        · rcases reported with none_ | zero
          · exact absurd none_ List.not_mem_nil
          · cases zero
            exact Nat.zero_le _
    · rcases getElem?_snoc here with old | ⟨last, rfl⟩
      · rcases getElem?_snoc there with old' | ⟨last', rfl⟩
        · exact dead.separate j k c d old old' tracked tracked' same
        · exact absurd same (alone j c old tracked)
      · rcases getElem?_snoc there with old' | ⟨last', rfl⟩
        · exact absurd same.symm (alone k d old' tracked')
        · rw [last, last']

omit [WalPayload Payload] in
theorem take_cases (y : Replica) (r : LogRecord) (fails : Bool) :
    (y.take r fails).applied = y.applied ++ [r] ∨ ¬ Applies y r fails ∧ y.take r fails = y := by
  unfold Replica.take Applies
  cases fails with
  | true => exact .inr ⟨by simp, rfl⟩
  | false =>
    cases applied : applyWalRecord y.engine r with
    | ok engine => exact .inl rfl
    | error e => exact .inr ⟨by simp [Except.isOk, Except.toBool], rfl⟩

theorem gapless_take (inOrder : StreamsInOrder x) {y : Replica} (there : y ∈ x.replicas) {r : LogRecord}
    (logged : r ∈ x.primary.disk) {fails : Bool} (next : Next WalRecord.lsn x.primary.disk y.applied r)
    (through : Applies y r fails ∨ r.lsn = lastLsn y) :
    lastLsn y ≤ lastLsn (y.take r fails) ∧ r.lsn ≤ lastLsn (y.take r fails) ∧
      Gapless WalRecord.lsn x.primary.disk (y.take r fails).applied ∧
        ∀ q ∈ (y.take r fails).applied, q ∈ x.primary.disk := by
  have gapless := inOrder.gapless y there
  rcases take_cases y r fails with applied | ⟨failed, same⟩
  · have last : lastLsn (y.take r fails) = r.lsn := by
      unfold lastLsn
      rw [applied, Delivery.last_snoc]
    rw [last, applied]
    refine ⟨next.forward, Nat.le_refl _, ?_, fun q there' => ?_⟩
    · exact gapless.apply (fun q logged' same => inOrder.log.distinct logged' logged same) next
    · rcases List.mem_append.mp there' with old | new
      · exact inOrder.applied y there q old
      · exact List.mem_singleton.mp new ▸ logged
  · rw [same]
    exact ⟨Nat.le_refl _, Nat.le_of_eq (through.resolve_left failed), gapless, inOrder.applied y there⟩

theorem inOrder_receive (inOrder : StreamsInOrder x) (c : Nat) (fails : Bool)
    (inStep : InStep x (.receive c fails)) : StreamsInOrder (x.receive c fails) := by
  unfold Cluster.receive
  cases found : x.connections[c]? with
  | none => exact inOrder
  | some conn =>
    dsimp only
    split
    · rename_i r rest alive coming
      have carries := inOrder.carries conn (List.mem_of_getElem? found)
      have logged : r ∈ x.primary.disk := carries.records r (by simp [Connection.records, coming])
      obtain ⟨y, known⟩ : ∃ y, x.replicas[conn.replica]? = some y :=
        ⟨_, List.getElem?_eq_getElem carries.known⟩
      have there := List.mem_of_getElem? known
      have turn := inStep conn found alive r (by rw [coming]; rfl) _ known
      obtain ⟨further, taken, gapless, applied⟩ := gapless_take inOrder there logged turn.1 turn.2
      have replicas : StreamsInOrder { x with
          replicas := x.replicas.modify conn.replica fun y => y.take r fails } := by
        refine inOrder.withReplicas _ (List.length_modify _ _ _) fun i y' here => ?_
        rw [List.getElem?_modify] at here
        obtain ⟨y, was, now⟩ := Option.map_eq_some_iff.mp here
        by_cases own : conn.replica = i
        · rw [if_pos own] at now
          subst own now
          cases known.symm.trans was
          exact ⟨_, was, further, gapless, applied⟩
        · rw [if_neg own] at now
          subst now
          have old := List.mem_of_getElem? was
          exact ⟨y, was, Nat.le_refl _, inOrder.gapless y old, inOrder.applied y old⟩
      refine replicas.connections _ fun i d here => ?_
      rw [List.getElem?_set] at here
      split at here
      · rename_i own
        subst own
        split at here
        · cases here
          have before := replicas.carries conn (List.mem_of_getElem? found)
          refine ⟨conn, found, rfl, fun h => h, before.known, fun q listed => ?_, fun n reported y' now => ?_⟩
          · refine before.records q ?_
            simp only [Connection.records, coming, List.mem_append, List.mem_cons] at listed ⊢
            tauto
          · rcases reported with acked | confirmed
            · rcases List.mem_append.mp acked with old | new
              · exact before.reached n (.inl old) y' now
              · rw [List.mem_singleton.mp new]
                rw [List.getElem?_modify, known] at now
                cases now
                simpa using taken
            · exact before.reached n (.inr confirmed) y' now
        · cases here
      · exact ⟨d, here, rfl, fun h => h, replicas.carries d (List.mem_of_getElem? here)⟩
    · exact inOrder

theorem inOrder_step (inOrder : StreamsInOrder x) (action : Action) (inStep : InStep x action) :
    StreamsInOrder (x.step action) := by
  cases action with
  | log op => exact inOrder_log inOrder op inStep
  | beginRequest =>
    refine inOrder.withRequests _ fun q there => ?_
    rcases List.mem_append.mp there with old | new
    · exact inOrder.requests q old
    · rw [List.mem_singleton.mp new]
      exact fun r none_ => absurd none_ List.not_mem_nil
  | advance i => exact inOrder_advance inOrder i
  | connect i => exact inOrder_connect inOrder i inStep
  | readCatchUp c =>
    refine inOrder.onConnection c _ (fun c => ?_) (fun c => ?_) fun c => carries_readCatchUp <;>
      unfold Cluster.readCatchUp <;> split <;> first | rfl | exact fun h => h
  | sendCatchUp c =>
    refine inOrder.onConnection c _ (fun c => ?_) (fun c => ?_) fun c => carries_sendCatchUp <;>
      unfold Cluster.sendCatchUp <;> split <;> first | rfl | exact fun h => h
  | forward c =>
    refine inOrder.onConnection c _ (fun c => ?_) (fun c => ?_) fun c => carries_forward <;>
      unfold Cluster.forward <;> split <;> first | rfl | exact fun h => h
  | receive c fails => exact inOrder_receive inOrder c fails inStep
  | deliverAck c =>
    refine inOrder.onConnection c _ (fun c => ?_) (fun c => ?_) fun c => carries_deliverAck <;>
      unfold Cluster.deliverAck <;> split <;> first | rfl | exact fun h => h | skip
    simp
  | close c =>
    exact inOrder.onConnection c _ (fun _ => rfl) (fun _ h => h)
      fun c carries => ⟨carries.known, carries.records, carries.reached⟩
  | disconnect c =>
    refine inOrder.onConnection c _ (fun _ => rfl) (fun _ h => absurd h Bool.false_ne_true) fun c carries => ?_
    exact carries.fewer rfl (fun r there => there) fun n reported => reported.imp id fun none_ => (nomatch none_)
  | ownLog i op =>
    refine inOrder.withReplicas _ (List.length_modify _ _ _) fun j y' here => ?_
    rw [List.getElem?_modify] at here
    obtain ⟨y, was, now⟩ := Option.map_eq_some_iff.mp here
    have old := List.mem_of_getElem? was
    have same : y'.applied = y.applied := by
      rw [← now]
      split <;> rfl
    refine ⟨y, was, ?_, same ▸ inOrder.gapless y old, same ▸ inOrder.applied y old⟩
    exact Nat.le_of_eq (congrArg (Delivery.last WalRecord.lsn) same.symm)

theorem acknowledged (inOrder : StreamsInOrder x) : Acknowledged x where
  confirmed c there n reported y here :=
    (inOrder.gapless y (List.mem_of_getElem? here)).holds
      ((inOrder.carries c there).reached n (.inr reported) y here)
  acked lsn minReplicas enough := by
    have counted : minReplicas ≤ x.confirmedCount lsn := of_decide_eq_true enough
    refine ⟨(x.connections.filter fun c => c.confirmed.any fun n => lsn ≤ n).map Connection.replica, ?_, ?_, ?_⟩
    · have tracked (c : Connection) (reported : (c.confirmed.any fun n => decide (lsn ≤ n)) = true) :
          c.confirmed.isSome = true := by
        cases confirmed : c.confirmed with
        | none =>
          rw [confirmed] at reported
          cases reported
        | some n => rfl
      have apart : x.connections.Pairwise fun c d => c.confirmed.isSome = true →
          d.confirmed.isSome = true → c.replica ≠ d.replica := by
        rw [List.pairwise_iff_getElem]
        intro i j hi hj before here there same
        have := inOrder.separate i j _ _ (List.getElem?_eq_getElem hi) (List.getElem?_eq_getElem hj) here
          there same
        omega
      refine List.pairwise_map.mpr ((List.Pairwise.and_mem.mp (apart.filter _)).imp fun {c d} both => ?_)
      exact both.2.2 (tracked c (List.mem_filter.mp both.1).2) (tracked d (List.mem_filter.mp both.2.1).2)
    · rwa [List.length_map, ← List.countP_eq_length_filter]
    · intro i there
      obtain ⟨c, listed, rfl⟩ := List.mem_map.mp there
      obtain ⟨here, reported⟩ := List.mem_filter.mp listed
      have carries := inOrder.carries c here
      obtain ⟨n, confirmed, reached⟩ := (Option.any_eq_true _ _).mp reported
      refine ⟨_, List.getElem?_eq_getElem carries.known, ?_⟩
      have known := List.getElem?_eq_getElem carries.known
      have held := (inOrder.gapless _ (List.mem_of_getElem? known)).holds
        (carries.reached n (.inr confirmed) _ known)
      exact held.mono (of_decide_eq_true reached)

/-- Acknowledged means replicated, all along a run. -/
def AlwaysAcknowledged (config : WalConfig) (engines : List State) (actions : List Action) : Prop :=
  ∀ x ∈ Run.visited Cluster.step (.start config engines) actions, Acknowledged x

def AlwaysInStep (config : WalConfig) (engines : List State) (actions : List Action) : Prop :=
  ∀ p ∈ Run.taken Cluster.step (.start config engines) actions, InStep p.1 p.2

/-- Where every record comes to every replica in its turn and is applied, what is acknowledged
is replicated. -/
theorem always_acknowledged (config : WalConfig) (engines : List State) (actions : List Action)
    (inStep : AlwaysInStep config engines actions) : AlwaysAcknowledged config engines actions := by
  intro x visited
  refine acknowledged (Run.invariant_under Cluster.step InStep actions (inOrder_start config engines) inStep
    (fun x action inOrder inStep => inOrder_step inOrder action inStep) x visited)

end Cluster

section Examples
attribute [local instance] headerOnly

def loggedTx (txId : Nat) : List Action :=
  [.log .nextTxId, .log (.append ⟨.txBegin, by decide⟩ "venues" txId 1 .empty 0), .log (.commit txId 0)]

/-- A replica that is there before the first write. -/
def attentive : List Action :=
  [.connect 0, .readCatchUp 0, .beginRequest] ++ loggedTx 1 ++
    [.advance 0, .advance 0, .advance 0, .forward 0, .receive 0 false, .deliverAck 0, .advance 0, .forward 0,
      .receive 0 false, .deliverAck 0]

def overtaken : List Action :=
  loggedTx 1 ++ [.connect 0, .beginRequest] ++ loggedTx 2 ++
    [.advance 0, .advance 0, .advance 0, .forward 0, .receive 0 false, .deliverAck 0]

instance (x : Cluster) (action : Action) : Decidable (InStep x action) :=
  match action with
  | .log (.checkpoint _ _) => inferInstanceAs (Decidable (x.primary.buffer = []))
  | .connect i => inferInstanceAs (Decidable (∀ c ∈ x.connections, c.replica = i → c.confirmed = none))
  | .receive c fails => inferInstanceAs (Decidable (∀ conn ∈ x.connections[c]?, conn.alive = true →
      ∀ r ∈ conn.stream.head?, ∀ y ∈ x.replicas[conn.replica]?,
        Next WalRecord.lsn x.primary.disk y.applied r ∧
          ((fails = false ∧ (applyWalRecord y.engine r).isOk = true) ∨
            r.lsn = Delivery.last WalRecord.lsn y.applied)))
  | .log .nextTxId | .log (.append ..) | .log (.commit ..) | .beginRequest | .advance _ | .readCatchUp _
  | .sendCatchUp _ | .forward _ | .deliverAck _ | .close _ | .disconnect _ | .ownLog _ _ => isTrue trivial

theorem attentive_acknowledged : AlwaysAcknowledged default [.init default] attentive :=
  always_acknowledged default [.init default] attentive (by unfold AlwaysInStep; decide)

/-- LSN 3 is confirmed by a replica that has neither LSN 1 nor 2. -/
theorem overtaken_confirmed : ¬ AlwaysAcknowledged default [.init default] overtaken := by
  intro always
  have held := (always _ (Run.end_visited Cluster.step _ overtaken)).confirmed
  unfold Holds at held
  revert held
  decide

end Examples
end TronDB.Server
