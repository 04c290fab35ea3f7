import TronDB.Lib.FinMap
import TronDB.Lib.Run

/-! The primary waits for acknowledgements: the steps of the wait, and what replicas do between
them. -/
namespace TronDB.Server

inductive ReplicationError where
  | timeout
  | insufficientReplicas
  deriving DecidableEq, Repr

/-- How far a wait has come. -/
inductive Stage where
  | counting
  /-- Too few have confirmed. -/
  | counted
  /-- The clock has been read. -/
  | timed (remaining : Nat)
  /-- The future exists, with whether it has been notified. -/
  | created (remaining : Nat) (notified : Bool)
  | awaiting (expiry : Nat) (notified : Bool)
  | returned (result : Except ReplicationError Unit)
  deriving DecidableEq

/-- The tracker with one call of `wait_for_ack`. -/
structure AckWait where
  /-- The confirmed LSN of each replica. -/
  replicas : FinMap String Nat
  /-- How many calls of `update_confirmed_lsn` have set an LSN and not yet notified. -/
  updating : Nat
  clock : Nat
  lsn : Nat
  minReplicas : Nat
  deadline : Nat
  stage : Stage

inductive AckAction where
  | register (replica : String)
  | disconnect (replica : String)
  /-- The first half of `update_confirmed_lsn`. -/
  | confirm (replica : String) (lsn : Nat)
  /-- The second half. -/
  | notifyWaiters
  /-- The next step of the wait. -/
  | wait
  | pass (duration : Nat)
  deriving DecidableEq

def AckAction.registers : AckAction → Bool
  | .register _ => true
  | _ => false

/-- All futures that exist are woken; no permit is stored. -/
def Stage.notify : Stage → Stage
  | .created remaining _ => .created remaining true
  | .awaiting expiry _ => .awaiting expiry true
  | stage => stage

namespace AckWait

def waitForAck (replicas : FinMap String Nat) (updating clock lsn minReplicas timeout : Nat) :
    AckWait :=
  ⟨replicas, updating, clock, lsn, minReplicas, clock + timeout, .counting⟩

/-- How many replicas have confirmed at least the LSN. -/
def confirmed (s : AckWait) : Nat := (s.replicas.filter fun _ lsn => s.lsn ≤ lsn).size

def next (s : AckWait) : Stage :=
  match s.stage with
  | .counting => if s.minReplicas ≤ s.confirmed then .returned (.ok ()) else .counted
  | .counted =>
    if s.deadline ≤ s.clock then .returned (.error .timeout) else .timed (s.deadline - s.clock)
  | .timed remaining => .created remaining false
  | .created remaining notified => .awaiting (s.clock + remaining) notified
  -- the future is polled before the timer
  | .awaiting expiry notified =>
    if notified then .counting
    else if expiry ≤ s.clock then .returned (.error .timeout)
    else .awaiting expiry notified
  | .returned result => .returned result

def step (s : AckWait) : AckAction → AckWait
  | .register replica => { s with replicas := s.replicas.insert replica 0 }
  | .disconnect replica => { s with replicas := s.replicas.erase replica }
  | .confirm replica lsn =>
    { s with replicas := s.replicas.adjust replica fun _ => lsn, updating := s.updating + 1 }
  | .notifyWaiters =>
    if s.updating = 0 then s
    else { s with updating := s.updating - 1, stage := s.stage.notify }
  | .wait => { s with stage := s.next }
  | .pass duration => { s with clock := s.clock + duration }

def run (s : AckWait) (actions : List AckAction) : AckWait := actions.foldl step s

def Enough (s : AckWait) : Prop := s.minReplicas ≤ s.confirmed

instance (s : AckWait) : Decidable s.Enough := inferInstanceAs (Decidable (_ ≤ _))

end AckWait

/-! ### What may go wrong -/

/-- It has counted, and no notification has reached it since. -/
def Stage.unaware : Stage → Bool
  | .counted | .timed _ | .created _ false | .awaiting _ false => true
  | _ => false

/-- It has counted, and no notification can reach it yet. -/
def Stage.deaf : Stage → Bool
  | .counted | .timed _ => true
  | _ => false

def Stage.hasReturned : Stage → Bool
  | .returned _ => true
  | _ => false

/-- How many steps of its own the wait is from its end, where enough have confirmed. -/
def Stage.left : Stage → Nat
  | .counted => 6
  | .timed _ => 5
  | .created _ _ => 4
  | .awaiting _ false => 3
  | .awaiting _ true => 2
  | .counting => 1
  | .returned _ => 0

namespace AckWait

/-- The wait can take no step but one that changes nothing. -/
def blocked (s : AckWait) : Bool :=
  match s.stage with
  | .awaiting expiry false => s.clock < expiry
  | .returned _ => true
  | _ => false

def runsOut (s : AckWait) : Bool :=
  match s.stage with
  | .awaiting expiry false => expiry ≤ s.clock
  | _ => false

/-- What keeps a step from making the wait miss that enough have confirmed. -/
structure Heeded (s : AckWait) (a : AckAction) : Prop where
  /-- No notification comes between the count and the future, unless another follows. -/
  heard : a = .notifyWaiters → s.stage.deaf → s.Enough → 1 < s.updating
  /-- No registration, which confirms LSN 0 and notifies nobody, makes them enough. -/
  told : a.registers → s.lsn = 0 → s.stage.unaware → (s.step a).Enough →
    s.Enough ∨ 0 < s.updating
  /-- The clock is read before the deadline. -/
  inTime : a = .wait → s.stage = .counted → s.clock < s.deadline
  /-- The timer does not run out while an update is halfway. -/
  settled : a = .wait → s.runsOut → s.updating = 0
  /-- Behind the deadline, those that are waited for stay enough. -/
  kept : s.deadline < s.clock → s.stage.hasReturned = false → s.Enough → (s.step a).Enough

set_option synthInstance.maxSize 400 in
instance (s : AckWait) (a : AckAction) : Decidable (s.Heeded a) :=
  decidable_of_iff
    ((a = .notifyWaiters → s.stage.deaf → s.Enough → 1 < s.updating) ∧
      (a.registers → s.lsn = 0 → s.stage.unaware → (s.step a).Enough →
        s.Enough ∨ 0 < s.updating) ∧
      (a = .wait → s.stage = .counted → s.clock < s.deadline) ∧
      (a = .wait → s.runsOut → s.updating = 0) ∧
      (s.deadline < s.clock → s.stage.hasReturned = false → s.Enough → (s.step a).Enough))
    ⟨fun ⟨h, t, i, r, k⟩ => ⟨h, t, i, r, k⟩, fun ⟨h, t, i, r, k⟩ => ⟨h, t, i, r, k⟩⟩

/-- The timer does not run out before the deadline. -/
def InTime (s : AckWait) : Prop :=
  match s.stage with
  | .timed remaining | .created remaining _ => s.deadline ≤ s.clock + remaining
  | .awaiting expiry _ => s.deadline ≤ expiry
  | _ => True

/-- The wait has missed nothing so far. -/
structure Watchful (s : AckWait) : Prop where
  noFailure : ∀ failure, s.stage ≠ .returned (.error failure)
  toBeTold : s.stage.unaware → s.Enough → 0 < s.updating
  inTime : s.InTime

/-- From the deadline on enough have confirmed, unless the wait is over. -/
def EnoughLate (s : AckWait) : Prop :=
  s.deadline ≤ s.clock → s.stage.hasReturned = false → s.Enough

/-! ### One step -/

@[simp] theorem step_minReplicas (s : AckWait) (a : AckAction) :
    (s.step a).minReplicas = s.minReplicas := by
  cases a <;> simp [step]
  split <;> rfl

@[simp] theorem step_deadline (s : AckWait) (a : AckAction) : (s.step a).deadline = s.deadline := by
  cases a <;> simp [step]
  split <;> rfl

theorem clock_le_step (s : AckWait) (a : AckAction) : s.clock ≤ (s.step a).clock := by
  cases a <;> simp [step]
  split <;> simp

theorem confirmed_disconnect (s : AckWait) (replica : String) :
    (s.step (.disconnect replica)).confirmed ≤ s.confirmed := by
  unfold confirmed step
  rw [FinMap.filter_erase]
  exact Std.ExtTreeMap.size_erase_le

theorem confirmed_register (s : AckWait) (replica : String) (positive : 0 < s.lsn) :
    (s.step (.register replica)).confirmed ≤ s.confirmed := by
  unfold confirmed step
  rw [FinMap.filter_insert_of_not s.replicas (by simpa using Nat.ne_of_gt positive)]
  exact Std.ExtTreeMap.size_erase_le

theorem watchful_wait {s : AckWait} (watchful : s.Watchful) (heeded : s.Heeded .wait)
    (late : s.EnoughLate) : (s.step .wait).Watchful := by
  obtain ⟨noFailure, toBeTold, inTime⟩ := watchful
  unfold InTime at inTime
  cases stage : s.stage with
  | counting =>
    by_cases enough : s.minReplicas ≤ s.confirmed
    · constructor <;> simp [step, next, stage, enough, InTime, Stage.unaware]
    · constructor <;> simp [step, next, stage, enough, InTime, Stage.unaware]
      exact fun all => absurd all enough
  | counted =>
    have early : ¬ s.deadline ≤ s.clock := Nat.not_le_of_lt (heeded.inTime rfl stage)
    rw [stage] at toBeTold
    constructor <;> simp [step, next, stage, early, InTime, Stage.unaware]
    · exact toBeTold rfl
    · omega
  | timed remaining =>
    rw [stage] at toBeTold inTime
    constructor <;> simp [step, next, stage, InTime, Stage.unaware]
    · exact toBeTold rfl
    · exact inTime
  | created remaining notified =>
    rw [stage] at toBeTold inTime
    refine ⟨by simp [step, next, stage], ?_, by simpa [step, next, stage, InTime] using inTime⟩
    cases notified with
    | false => exact fun _ => toBeTold rfl
    | true => simp [step, next, stage, Stage.unaware]
  | awaiting expiry notified =>
    rw [stage] at toBeTold inTime
    cases notified with
    | true => constructor <;> simp [step, next, stage, InTime, Stage.unaware]
    | false =>
      have waits : ¬ expiry ≤ s.clock := by
        intro expired
        have enough := late (Nat.le_trans inTime expired) (by simp [stage, Stage.hasReturned])
        have updating := toBeTold rfl enough
        have settled := heeded.settled rfl (by simpa [runsOut, stage] using expired)
        omega
      constructor <;> simp [step, next, stage, waits, InTime, Stage.unaware]
      · exact toBeTold rfl
      · exact inTime
  | returned result =>
    rw [stage] at noFailure
    constructor <;> simp [step, next, stage, InTime, Stage.unaware]
    simpa using noFailure

theorem watchful_notify {s : AckWait} (watchful : s.Watchful) (heeded : s.Heeded .notifyWaiters) :
    (s.step .notifyWaiters).Watchful := by
  by_cases none_ : s.updating = 0
  · simpa [step, none_] using watchful
  obtain ⟨noFailure, toBeTold, inTime⟩ := watchful
  have heard := heeded.heard rfl
  unfold InTime at inTime
  have same : (s.step .notifyWaiters).Enough ↔ s.Enough := by
    simp [step, none_, Enough, confirmed]
  refine ⟨?_, ?_, ?_⟩
  · cases stage : s.stage <;> simp_all [step, Stage.notify]
  · rw [same]
    cases stage : s.stage <;>
      simp_all [step, Stage.notify, Stage.unaware, Stage.deaf]
  · cases stage : s.stage <;> simp_all [step, Stage.notify, InTime]

theorem watchful_step {s : AckWait} (watchful : s.Watchful) {a : AckAction} (heeded : s.Heeded a)
    (late : s.EnoughLate) : (s.step a).Watchful := by
  cases a with
  | register replica =>
    refine ⟨watchful.noFailure, fun unaware enough => ?_, watchful.inTime⟩
    rcases Nat.eq_zero_or_pos s.lsn with zero | positive
    · rcases heeded.told rfl zero unaware enough with already | updating
      · exact watchful.toBeTold unaware already
      · exact updating
    · exact watchful.toBeTold unaware (Nat.le_trans enough (confirmed_register s replica positive))
  | disconnect replica =>
    refine ⟨watchful.noFailure, fun unaware enough => ?_, watchful.inTime⟩
    exact watchful.toBeTold unaware (Nat.le_trans enough (confirmed_disconnect s replica))
  | confirm replica lsn =>
    exact ⟨watchful.noFailure, fun _ _ => Nat.succ_pos _, watchful.inTime⟩
  | notifyWaiters => exact watchful_notify watchful heeded
  | wait => exact watchful_wait watchful heeded late
  | pass duration =>
    refine ⟨watchful.noFailure, watchful.toBeTold, ?_⟩
    have inTime := watchful.inTime
    unfold InTime at inTime ⊢
    cases stage : s.stage <;> simp_all [step]
    all_goals omega

/-! ### Whole runs -/

theorem clock_le_run (s : AckWait) (actions : List AckAction) :
    ∀ t ∈ Run.visited step s actions, t.clock ≤ (s.run actions).clock := by
  induction actions generalizing s with
  | nil => simp [Run.visited, run]
  | cons a rest ih =>
    refine List.forall_mem_cons.mpr ⟨?_, ih (s.step a)⟩
    have later := ih (s.step a) _ (Run.start_visited step (s.step a) rest)
    exact Nat.le_trans (clock_le_step s a) later

theorem deadline_run (s : AckWait) (actions : List AckAction) :
    ∀ t ∈ Run.visited step s actions, t.deadline = s.deadline :=
  Run.invariant step actions rfl fun t a same => (step_deadline t a).trans same

/-- From a moment before the deadline on enough have confirmed, at least until the deadline. -/
def EnoughUntilDeadline (s : AckWait) (actions : List AckAction) : Prop :=
  s.clock < s.deadline ∧
    ∀ t ∈ Run.visited step s actions, t.clock ≤ s.deadline → t.Enough

theorem hasReturned_step {s : AckWait} (a : AckAction) (returned : s.stage.hasReturned = true) :
    (s.step a).stage.hasReturned = true := by
  cases stage : s.stage <;> simp [stage, Stage.hasReturned] at returned
  cases a with
  | notifyWaiters =>
    by_cases none_ : s.updating = 0 <;>
      simp [step, none_, stage, Stage.notify, Stage.hasReturned]
  | _ => simp [step, next, stage, Stage.hasReturned]

theorem step_clock_or_enough (s : AckWait) (a : AckAction) :
    (s.step a).clock = s.clock ∨ ((s.step a).Enough ↔ s.Enough) := by
  cases a with
  | pass duration => exact .inr Iff.rfl
  | notifyWaiters =>
    left
    simp only [step]
    split <;> rfl
  | _ => exact .inl rfl

theorem enoughLate_step {s : AckWait} (late : s.EnoughLate) {a : AckAction} (heeded : s.Heeded a)
    (before : s.clock ≤ s.deadline → s.Enough)
    (after : (s.step a).clock ≤ s.deadline → (s.step a).Enough) : (s.step a).EnoughLate := by
  intro behind waits
  have waited : s.stage.hasReturned = false := by
    by_contra returned
    rw [hasReturned_step a (by simpa using returned)] at waits
    cases waits
  by_cases expired : s.deadline < s.clock
  · exact heeded.kept expired waited (late (Nat.le_of_lt expired) waited)
  · rcases step_clock_or_enough s a with same | same
    · exact after (by omega)
    · exact same.mpr (before (Nat.not_lt.mp expired))

theorem enoughLate_run {s : AckWait} {actions : List AckAction}
    (enough : s.EnoughUntilDeadline actions)
    (heeded : ∀ p ∈ Run.taken step s actions, p.1.Heeded p.2) :
    ∀ t ∈ Run.visited step s actions, t.EnoughLate := by
  obtain ⟨early, until_⟩ := enough
  have start : s.EnoughLate := fun late => absurd late (Nat.not_le_of_lt early)
  clear early
  induction actions generalizing s with
  | nil => simpa [Run.visited] using start
  | cons a rest ih =>
    simp only [Run.visited, Run.taken, List.forall_mem_cons] at until_ heeded ⊢
    have after := until_.2 _ (Run.start_visited step (s.step a) rest)
    exact ⟨start, ih heeded.2 (by simpa using until_.2)
      (enoughLate_step start heeded.1 until_.1 after)⟩

theorem watchful_run {s : AckWait} {actions : List AckAction} (start : s.Watchful)
    (late : ∀ t ∈ Run.visited step s actions, t.EnoughLate)
    (heeded : ∀ p ∈ Run.taken step s actions, p.1.Heeded p.2) :
    ∀ t ∈ Run.visited step s actions, t.Watchful := by
  refine Run.invariant_under step (fun t a => t.EnoughLate ∧ t.Heeded a) actions start ?_ ?_
  · exact fun p there => ⟨late p.1 (Run.visited_of_taken step s actions p there), heeded p there⟩
  · exact fun t a watchful both => watchful_step watchful both.2 both.1

def ownStep : AckWait × AckAction → Bool
  | (s, .wait) => !s.blocked
  | _ => false

theorem left_step {s : AckWait} (a : AckAction)
    (enough : s.stage.hasReturned = false → s.Enough) :
    (s.step a).stage.left + (if ownStep (s, a) then 1 else 0) ≤ s.stage.left := by
  cases a with
  | wait =>
    cases stage : s.stage with
    | counting =>
      have done : s.minReplicas ≤ s.confirmed := enough (by simp [stage, Stage.hasReturned])
      simp [step, next, stage, done, Stage.left, ownStep, blocked]
    | counted =>
      simp only [step, next, stage, ownStep, blocked]
      split <;> simp [Stage.left]
    | created remaining notified =>
      cases notified <;> simp [step, next, stage, Stage.left, ownStep, blocked]
    | awaiting expiry notified =>
      cases notified with
      | true => simp [step, next, stage, Stage.left, ownStep, blocked]
      | false =>
        by_cases expired : expiry ≤ s.clock <;>
          simp [step, next, stage, expired, Stage.left, ownStep, blocked]
    | _ => simp [step, next, stage, Stage.left, ownStep, blocked]
  | notifyWaiters =>
    by_cases none_ : s.updating = 0
    · simp [step, none_, ownStep]
    · rcases stage : s.stage with _ | _ | _ | _ | ⟨_, _ | _⟩ | _ <;>
        simp [step, none_, stage, Stage.notify, Stage.left, ownStep]
  | _ => simp [step, ownStep]

/-- It returns Ok: it never fails, it does not rest before it has returned, and behind the
first part of the run it takes at most six steps of its own. -/
structure ReturnsOk (s : AckWait) (before after : List AckAction) : Prop where
  neverFails : ∀ t ∈ Run.visited step s (before ++ after),
    ∀ failure, t.stage ≠ .returned (.error failure)
  restsWithOk : (s.run (before ++ after)).updating = 0 → (s.run (before ++ after)).blocked →
    (s.run (before ++ after)).stage = .returned (.ok ())
  soon : (Run.taken step (s.run before) after).countP ownStep ≤ 6

theorem left_le (stage : Stage) : stage.left ≤ 6 := by
  unfold Stage.left
  split <;> omega

theorem watchful_start (replicas : FinMap String Nat)
    (updating clock lsn minReplicas timeout : Nat) :
    (waitForAck replicas updating clock lsn minReplicas timeout).Watchful := by
  constructor <;> simp [waitForAck, Stage.unaware, InTime]

theorem returned_of_blocked {s : AckWait} (watchful : s.Watchful) (none_ : s.updating = 0)
    (blocked_ : s.blocked = true) (enough : s.stage.hasReturned = false → s.Enough) :
    s.stage = .returned (.ok ()) := by
  have toBeTold := watchful.toBeTold
  have noFailure := watchful.noFailure
  cases stage : s.stage with
  | returned result =>
    cases result with
    | ok done => rfl
    | error failure => exact absurd stage (noFailure failure)
  | awaiting expiry notified =>
    cases notified with
    | true => simp [blocked, stage] at blocked_
    | false =>
      rw [stage] at toBeTold enough
      exact absurd none_ (Nat.ne_of_gt (toBeTold rfl (enough rfl)))
  | _ => simp [blocked, stage] at blocked_

/-- In every run whose steps are all heeded, and in which from a moment before the deadline until
the deadline enough have confirmed, the wait returns Ok. -/
theorem wait_for_ack_ok (replicas : FinMap String Nat)
    (updating clock lsn minReplicas timeout : Nat) (before after : List AckAction)
    (heeded : ∀ p ∈ Run.taken step (waitForAck replicas updating clock lsn minReplicas timeout)
      (before ++ after), p.1.Heeded p.2)
    (enough : ((waitForAck replicas updating clock lsn minReplicas timeout).run
      before).EnoughUntilDeadline after) :
    ReturnsOk (waitForAck replicas updating clock lsn minReplicas timeout) before after := by
  have start := watchful_start replicas updating clock lsn minReplicas timeout
  generalize waitForAck replicas updating clock lsn minReplicas timeout = s at *
  rw [Run.taken_append] at heeded
  have heededBefore := fun p there => heeded p (List.mem_append_left _ there)
  have heededAfter := fun p there => heeded p (List.mem_append_right _ there)
  have moment := enough.1
  have same : (s.run before).deadline = s.deadline :=
    deadline_run s before _ (Run.end_visited step s before)
  -- before that moment nothing is late
  have early : ∀ t ∈ Run.visited step s before, t.EnoughLate := by
    intro t there late
    have earlier := clock_le_run s before t there
    have deadline := deadline_run s before t there
    omega
  have late := enoughLate_run enough heededAfter
  have watchfulBefore := watchful_run start early heededBefore
  have middle := watchfulBefore _ (Run.end_visited step s before)
  have watchfulAfter := watchful_run middle late heededAfter
  -- from that moment on enough have confirmed until it returns
  have enoughAfter : ∀ t ∈ Run.visited step (s.run before) after,
      t.stage.hasReturned = false → t.Enough := by
    intro t there waits
    have deadline := deadline_run (s.run before) after t there
    by_cases expired : t.clock ≤ (s.run before).deadline
    · exact enough.2 t there expired
    · exact late t there (by omega) waits
  have last : s.run (before ++ after) ∈ Run.visited step (s.run before) after := by
    have ends := Run.end_visited step (s.run before) after
    rwa [run, ← List.foldl_append] at ends
  refine ⟨fun t there => ?_, fun none_ blocked_ => ?_, ?_⟩
  · rcases (Run.mem_visited_append step before after).mp there with first | second
    · exact (watchfulBefore t first).noFailure
    · exact (watchfulAfter t second).noFailure
  · exact returned_of_blocked (watchfulAfter _ last) none_ blocked_ (enoughAfter _ last)
  · have most := Run.countP_taken_le step (fun t => t.stage.left) ownStep after enoughAfter
      fun t a => left_step a
    exact Nat.le_trans most (left_le _)

/-! ### One replica -/

section Examples

def oneReplica : FinMap String Nat := (∅ : FinMap String Nat).insert "replica-1" 0

/-- The wait is there when the acknowledgement comes. -/
def acknowledged : List AckAction :=
  [.wait, .wait, .wait, .wait, .pass 3, .confirm "replica-1" 5, .notifyWaiters]

theorem wait_for_ack_acknowledged :
    ReturnsOk (waitForAck oneReplica 0 0 5 1 10) acknowledged [.wait, .wait, .pass 20] :=
  wait_for_ack_ok oneReplica 0 0 5 1 10 acknowledged [.wait, .wait, .pass 20]
    (by decide +kernel) ⟨by decide +kernel, by decide +kernel⟩

/-- The acknowledgement comes after the count and before the future. -/
theorem acknowledged_unheard : ¬ ∀ (replicas : FinMap String Nat)
    (updating clock lsn minReplicas timeout : Nat) (before after : List AckAction),
    ((waitForAck replicas updating clock lsn minReplicas timeout).run
      before).EnoughUntilDeadline after →
    ReturnsOk (waitForAck replicas updating clock lsn minReplicas timeout) before after := by
  intro always
  have ok := always oneReplica 0 0 5 1 10 [.wait, .confirm "replica-1" 5, .notifyWaiters]
    [.wait, .wait, .wait, .pass 10, .wait] ⟨by decide +kernel, by decide +kernel⟩
  refine ok.neverFails _ (Run.end_visited step _ _) .timeout ?_
  decide +kernel

end Examples
end AckWait
end TronDB.Server
