import TronDB.Lib.Run
import TronDB.Server.LocationStream

/-! When a subscriber holds the node's location table. -/
namespace TronDB.Server
open TronDB.Core TronDB.Engine

/-! ### What tables are compared by -/

abbrev Placement := Tier × Encoding × LocState

def placement (d : LocationDescriptor) : Placement := (d.tier, d.encoding, d.state)

def placedAt (t : LocationTable) (k : ReprKey) : Option Placement := (t.get k).map placement

theorem placedAt_register (t : LocationTable) (key : ReprKey) (d : LocationDescriptor) (k : ReprKey) :
    placedAt (t.register key d) k = if key = k then some (placement d) else placedAt t k := by
  unfold placedAt
  rw [LocationTable.get_register]
  split <;> rfl

theorem placedAt_registered (t : LocationTable) {updates : List LocationUpdate}
    (distinct : (updates.map LocationUpdate.key).Nodup) {u : LocationUpdate} (listed : u ∈ updates) :
    placedAt (registerUpdates t updates) u.key = some (placement u.descriptor) := by
  have keys : ((updates.map fun u => (u.key, u.descriptor)).map Prod.fst).Nodup := by
    rw [List.map_map]
    exact distinct
  have registered := LocationTable.get_registerAll _ t keys (u.key, u.descriptor)
    (List.mem_map.mpr ⟨u, listed, rfl⟩)
  unfold placedAt registerUpdates
  rw [registered]
  rfl

theorem placedAt_unregistered (t : LocationTable) {updates : List LocationUpdate} {k : ReprKey}
    (absent : ∀ u ∈ updates, u.key ≠ k) : placedAt (registerUpdates t updates) k = placedAt t k := by
  unfold placedAt registerUpdates
  rw [LocationTable.get_registerAll_absent _ t]
  rw [List.map_map, List.mem_map]
  rintro ⟨u, listed, same⟩
  exact absent u listed same

theorem placedAt_restore (t : LocationTable) (lsn : Nat) (k : ReprKey) :
    placedAt (.restore (t.snapshot lsn)) k = placedAt t k := by
  unfold placedAt
  rw [LocationTable.get_restore]

/-! ### Requests -/

def LocationRequest.current (r : LocationRequest) : List LocationUpdate :=
  match r.phase with
  | .appended updates | .logged updates => updates
  | _ => []

def LocationRequest.sending (r : LocationRequest) : List LocationUpdate :=
  match r.phase with
  | .broadcasting updates => updates
  | _ => []

def Phase.tells : Phase → Bool
  | .executed | .broadcasting _ => true
  | _ => false

namespace LocationNode
variable (x : LocationNode)

def Written (u : LocationUpdate) : Prop :=
  u ∈ x.log ∨ ∃ r ∈ x.requests, ∃ updates, r.phase = .appended updates ∧ u ∈ updates

def MaySend (r : LocationRequest) (u : LocationUpdate) : Prop :=
  match r.phase with
  | .broadcasting updates => u ∈ updates
  | _ => x.Written u ∧ r.lsnBefore < u.lsn

def Sendable (u : LocationUpdate) : Prop :=
  ∃ r ∈ x.requests, r.entry ≠ .executeTql ∧ x.MaySend r u

/-- Some INSERT has appended it and not registered it. -/
def Waiting (c : LocationUpdate) : Prop := ∃ r ∈ x.requests, c ∈ r.current

/-- Some request has registered it and not broadcast it. -/
def Owes (u : LocationUpdate) : Prop := ∃ r ∈ x.requests, r.entry ≠ .executeTql ∧ u ∈ r.own

end LocationNode

/-- What a subscriber will say of an entry behind all that waits in its queue; none where it has
no table yet and nothing waits. -/
def Subscriber.held (s : Subscriber) (lsn : Nat) (k : ReprKey) : Option (Option Placement) :=
  s.queue.foldl
    (fun held u => if lsn < u.lsn ∧ u.key = k then some (some (placement u.descriptor)) else held)
    (s.table.map fun t => placedAt t k)

namespace LocationNode

/-- A change of the entry would have to reach the subscriber, or come before it. -/
def InPlay (x : LocationNode) (s : Subscriber) (lsn : Nat) (k : ReprKey) : Prop :=
  s.held lsn k ≠ none ∨ ∃ u, x.Sendable u ∧ lsn < u.lsn ∧ u.key = k

/-- The ops leave the entries in play as they are. -/
def LeavesInPlay (x : LocationNode) (s : Subscriber) (lsn : Nat) (ops : List LocationOp) : Prop :=
  ∀ k, x.InPlay s lsn k → placedAt (ops.foldl LocationOp.run x.table) k = placedAt x.table k

/-- Registering the update takes the table to what the subscriber holds, or leaves it there. -/
def Meets (x : LocationNode) (s : Subscriber) (lsn : Nat) (c : LocationUpdate) : Prop :=
  s.held lsn c.key = none ∨ s.held lsn c.key = some (some (placement c.descriptor)) ∨
    placedAt x.table c.key = some (placement c.descriptor)

/-- A request that does not broadcast has nothing to tell. -/
def Told (x : LocationNode) (s : Subscriber) (lsn : Nat) (r : LocationRequest) : Prop :=
  r.entry ≠ .executeTql → ∀ u ∈ r.own, lsn < u.lsn →
    s.held lsn u.key = none ∨ s.held lsn u.key = some (placedAt x.table u.key)

/-- No other request may broadcast the entry of an INSERT that is refused, and none has. -/
def Unspread (x : LocationNode) (s : Subscriber) (lsn : Nat) (i : Nat) (c : LocationUpdate) : Prop :=
  s.held lsn c.key ≠ some (some (placement c.descriptor)) ∧
    ∀ j r, j ≠ i → x.requests[j]? = some r → r.entry ≠ .executeTql →
      ∀ u, x.MaySend r u → lsn < u.lsn → u.key ≠ c.key

/-- An INSERT begins while nothing else about its entries is on its way. -/
def Begins (x : LocationNode) (lsn : Nat) (e : Entity) : Prop :=
  ∀ kd ∈ locationEntries e,
    (∀ u, x.Sendable u → lsn < u.lsn → u.key = kd.1 → placement u.descriptor = placement kd.2) ∧
      ∀ c, x.Waiting c → c.key = kd.1 → placement c.descriptor = placement kd.2

def OrderlyRequest (x : LocationNode) (s : Subscriber) (lsn i : Nat) (r : LocationRequest) :
    RequestStep → Prop
  | .append e => r.phase = .running → x.Begins lsn e
  | .register .refused => ∀ updates, r.phase = .logged updates → x.Told s lsn r ∧
    ∀ c ∈ updates, placedAt x.table c.key = some (placement c.descriptor) ∨ x.Unspread s lsn i c
  | .register .failed => ∀ updates, r.phase = .logged updates → x.Told s lsn r ∧
    ∀ c ∈ updates, x.Meets s lsn c
  | .register .done => ∀ updates, r.phase = .logged updates →
    ∀ c ∈ updates, r.entry = .executeTql ∨ c.lsn ≤ lsn → x.Meets s lsn c
  | .other _ ops => r.phase = .running → x.LeavesInPlay s lsn ops
  | .fail => r.phase = .running → x.Told s lsn r
  | .read => r.phase = .executed → r.entry = .execute true → x.connected = some 0 → x.Told s lsn r
  | _ => True

/-- Behind the LSN of a snapshot, the step leads to nothing the subscriber is not told of. -/
def Orderly (x : LocationNode) (step : NodeStep) : Prop :=
  ∀ s lsn, x.subscriber = some s → s.lsn = some lsn →
    match step with
    | .request i step => ∀ r, x.requests[i]? = some r → x.OrderlyRequest s lsn i r step
    | .background _ ops => x.LeavesInPlay s lsn ops
    | .truncate upTo => ∀ r ∈ x.requests, r.entry ≠ .executeTql → r.sending = [] →
      ∀ u ∈ r.own ++ r.current, lsn < u.lsn → upTo < u.lsn
    | _ => True

/-! ### Invariants -/

/-- All LSNs are ones the log has given, and a snapshot is taken under one. -/
structure Sound (x : LocationNode) : Prop where
  log : ∀ u ∈ x.log, u.lsn ≤ x.head
  before : ∀ r ∈ x.requests, r.lsnBefore ≤ x.head
  tells : ∀ r ∈ x.requests, r.phase.tells = true → r.entry ≠ .executeTql
  updates : ∀ r ∈ x.requests, ∀ u ∈ r.own ++ (r.current ++ r.sending), u.lsn ≤ x.head
  distinct : ∀ r ∈ x.requests, (r.current.map LocationUpdate.key).Nodup
  queue : ∀ s, x.subscriber = some s → ∀ u ∈ s.queue, u.lsn ≤ x.head
  under : ∀ s, x.subscriber = some s → s.lsn = none → s.table = none

def Kept (x : LocationNode) (r : LocationRequest) (u : LocationUpdate) : Prop :=
  match r.phase with
  | .broadcasting updates => u ∈ updates
  | .appended updates => (u ∈ x.log ∨ u ∈ updates) ∧ r.lsnBefore < u.lsn
  | _ => u ∈ x.log ∧ r.lsnBefore < u.lsn

structure Following (x : LocationNode) (s : Subscriber) (lsn : Nat) : Prop where
  agree : ∀ u, x.Sendable u → lsn < u.lsn →
    placedAt x.table u.key = some (placement u.descriptor) ∨
      ∃ c, x.Waiting c ∧ c.key = u.key ∧ placement c.descriptor = placement u.descriptor
  alike : ∀ c u, x.Waiting c → x.Sendable u → lsn < u.lsn → u.key = c.key →
    placement u.descriptor = placement c.descriptor
  kept : ∀ r ∈ x.requests, r.entry ≠ .executeTql → ∀ u ∈ r.own ++ r.current, lsn < u.lsn → x.Kept r u
  held : ∀ k, s.held lsn k = none ∨ s.held lsn k = some (placedAt x.table k) ∨
    (∃ u, x.Owes u ∧ u.key = k ∧ lsn < u.lsn) ∨
    ∃ c, x.Waiting c ∧ c.key = k ∧ s.held lsn k = some (some (placement c.descriptor))

theorem Following.converged {x : LocationNode} {lsn : Nat} {t : LocationTable}
    (following : x.Following ⟨[], some lsn, some t⟩ lsn) (answered : x.requests = []) (k : ReprKey) :
    placedAt t k = placedAt x.table k := by
  have none_ (r : LocationRequest) : r ∉ x.requests := by
    rw [answered]
    exact List.not_mem_nil
  rcases following.held k with nothing | same | ⟨u, ⟨r, among, -⟩, -⟩ | ⟨c, ⟨r, among, -⟩, -⟩
  · cases nothing
  · exact Option.some.inj same
  · exact absurd among (none_ r)
  · exact absurd among (none_ r)

/-- The steps that bring nothing new: no update may be sent that could not be before, the same
INSERTs wait, and an entry changes only if it is not in play. -/
theorem Following.carry {x x' : LocationNode} {s s' : Subscriber} {lsn : Nat}
    (following : x.Following s lsn)
    (sendable : ∀ u, lsn < u.lsn → x'.Sendable u → x.Sendable u)
    (waiting : ∀ c, x'.Waiting c ↔ x.Waiting c)
    (owes : ∀ u, lsn < u.lsn → x.Owes u → x'.Owes u ∨ s.held lsn u.key = none ∨
      s.held lsn u.key = some (placedAt x.table u.key))
    (table : ∀ k, x.InPlay s lsn k → placedAt x'.table k = placedAt x.table k)
    (held : ∀ k, s'.held lsn k = s.held lsn k ∨
      s.held lsn k = none ∧ s'.held lsn k = some (placedAt x'.table k))
    (kept : ∀ r ∈ x'.requests, r.entry ≠ .executeTql → ∀ u ∈ r.own ++ r.current, lsn < u.lsn →
      x'.Kept r u) : x'.Following s' lsn where
  agree u may above := by
    have may' := sendable u above may
    rw [table u.key (.inr ⟨u, may', above, rfl⟩)]
    rcases following.agree u may' above with there | ⟨c, waits, same⟩
    · exact .inl there
    · exact .inr ⟨c, (waiting c).mpr waits, same⟩
  alike c u waits may above := following.alike c u ((waiting c).mp waits) (sendable u above may) above
  kept := kept
  held k := by
    rcases held k with same | ⟨-, snapshot⟩
    · rw [same]
      by_cases nothing : s.held lsn k = none
      · exact .inl nothing
      · rw [table k (.inl nothing)]
        rcases following.held k with none_ | there | ⟨u, owed, rfl, above⟩ | ⟨c, waits, own⟩
        · exact absurd none_ nothing
        · exact .inr (.inl there)
        · rcases owes u above owed with still | none_ | there
          · exact .inr (.inr (.inl ⟨u, still, rfl, above⟩))
          · exact absurd none_ nothing
          · exact .inr (.inl there)
        · exact .inr (.inr (.inr ⟨c, (waiting c).mpr waits, own⟩))
    · exact .inr (.inl snapshot)

/-! ### Requests in their places -/

section Places
variable {x : LocationNode} {i : Nat} {r r' : LocationRequest}

theorem mem_setRequest {new : LocationRequest} (among : r' ∈ (x.setRequest i new).requests) :
    r' = new ∨ r' ∈ x.requests := (List.mem_or_eq_of_mem_set among).symm

theorem mem_answer (among : r' ∈ (x.answer i).requests) : r' ∈ x.requests :=
  List.mem_of_mem_eraseIdx among

variable (found : x.requests[i]? = some r)
include found

theorem kept_setRequest (new : LocationRequest) (among : r' ∈ x.requests) :
    r' = r ∨ r' ∈ (x.setRequest i new).requests := by
  obtain ⟨j, there⟩ := List.mem_iff_getElem?.mp among
  by_cases same : i = j
  · subst same
    exact .inl (Option.some.inj (there.symm.trans found))
  · refine .inr (List.mem_iff_getElem?.mpr ⟨j, ?_⟩)
    exact (List.getElem?_set_ne same).trans there

theorem new_setRequest (new : LocationRequest) : new ∈ (x.setRequest i new).requests := by
  obtain ⟨bound, -⟩ := List.getElem?_eq_some_iff.mp found
  exact List.mem_set bound new

theorem kept_answer (among : r' ∈ x.requests) : r' = r ∨ r' ∈ (x.answer i).requests := by
  obtain ⟨j, there⟩ := List.mem_iff_getElem?.mp among
  by_cases same : j = i
  · subst same
    exact .inl (Option.some.inj (there.symm.trans found))
  · exact .inr (List.mem_eraseIdx_iff_getElem?.mpr ⟨j, same, there⟩)

end Places

/-- What a step of a request can be. -/
inductive Goes (x : LocationNode) (i : Nat) (r : LocationRequest) : RequestStep → LocationNode → Prop
  | stays (s : RequestStep) : Goes x i r s x
  | append (e : Entity) (running : r.phase = .running) : Goes x i r (.append e)
    ({ x with head := x.head + ((insertUpdates x.head e).length + 3) }.setRequest i
      { r with phase := .appended (insertUpdates x.head e) })
  | commit (updates : List LocationUpdate) (appended : r.phase = .appended updates) :
    Goes x i r .commit
      ({ x with log := x.log ++ updates }.setRequest i { r with phase := .logged updates })
  | refused (updates : List LocationUpdate) (logged : r.phase = .logged updates) :
    Goes x i r (.register .refused) (x.answer i)
  | failed (updates : List LocationUpdate) (logged : r.phase = .logged updates) :
    Goes x i r (.register .failed) ({ x with table := registerUpdates x.table updates }.answer i)
  | done (updates : List LocationUpdate) (logged : r.phase = .logged updates) :
    Goes x i r (.register .done) ({ x with table := registerUpdates x.table updates }.setRequest i
      { r with own := r.own ++ updates, phase := .running })
  | other (records : Nat) (ops : List LocationOp) (running : r.phase = .running) :
    Goes x i r (.other records ops)
      { x with table := ops.foldl LocationOp.run x.table, head := x.head + records }
  | completed (running : r.phase = .running) (entry : r.entry ≠ .executeTql) : Goes x i r .complete
      (x.setRequest i { r with phase := .executed })
  | tql (running : r.phase = .running) (entry : r.entry = .executeTql) :
    Goes x i r .complete (x.answer i)
  | fail (running : r.phase = .running) : Goes x i r .fail (x.answer i)
  | unread (executed : r.phase = .executed) (entry : r.entry = .execute true)
    (alone : x.connected = some 0) : Goes x i r .read (x.answer i)
  | read (executed : r.phase = .executed) : Goes x i r .read
      (x.setRequest i { r with phase := .broadcasting (updatesSince x.log r.lsnBefore) })
  | send (updates : List LocationUpdate) (broadcasting : r.phase = .broadcasting updates) :
    Goes x i r .send ((x.receive updates).answer i)

theorem stepRequest_goes (x : LocationNode) (i : Nat) (r : LocationRequest) (s : RequestStep) :
    Goes x i r s (x.stepRequest i r s) := by
  unfold stepRequest
  split
  · rename_i e running
    exact .append e running
  · rename_i updates appended
    exact .commit updates appended
  · rename_i updates logged
    exact .refused updates logged
  · rename_i updates logged
    exact .failed updates logged
  · rename_i updates logged
    exact .done updates logged
  · rename_i records ops running
    exact .other records ops running
  · rename_i running
    split
    · rename_i isWrite entry
      exact .completed running (by rw [entry]; exact Entry.noConfusion)
    · rename_i entry
      exact .tql running entry
  · rename_i running
    exact .fail running
  · rename_i executed
    split
    · rename_i both
      exact .unread executed both.1 both.2
    · exact .read executed
  · rename_i updates broadcasting
    exact .send updates broadcasting
  · exact .stays _

/-! ### The LSNs -/

section Sound
variable {x : LocationNode}

theorem start_sound (table : LocationTable) (head : Nat) : (start table head).Sound where
  log _ none_ := absurd none_ List.not_mem_nil
  before _ none_ := absurd none_ List.not_mem_nil
  tells _ none_ := absurd none_ List.not_mem_nil
  updates _ none_ := absurd none_ List.not_mem_nil
  distinct _ none_ := absurd none_ List.not_mem_nil
  queue _ none_ := by cases none_
  under _ none_ := by cases none_

theorem Sound.answer (sound : x.Sound) (i : Nat) : (x.answer i).Sound where
  log := sound.log
  before r among := sound.before r (mem_answer among)
  tells r among := sound.tells r (mem_answer among)
  updates r among := sound.updates r (mem_answer among)
  distinct r among := sound.distinct r (mem_answer among)
  queue := sound.queue
  under := sound.under

theorem Sound.setRequest (sound : x.Sound) (i : Nat) {new : LocationRequest}
    (before : new.lsnBefore ≤ x.head) (tells : new.phase.tells = true → new.entry ≠ .executeTql)
    (updates : ∀ u ∈ new.own ++ (new.current ++ new.sending), u.lsn ≤ x.head)
    (distinct : (new.current.map LocationUpdate.key).Nodup) : (x.setRequest i new).Sound where
  log := sound.log
  before r among := by
    rcases mem_setRequest among with rfl | old
    · exact before
    · exact sound.before r old
  tells r among := by
    rcases mem_setRequest among with rfl | old
    · exact tells
    · exact sound.tells r old
  updates r among := by
    rcases mem_setRequest among with rfl | old
    · exact updates
    · exact sound.updates r old
  distinct r among := by
    rcases mem_setRequest among with rfl | old
    · exact distinct
    · exact sound.distinct r old
  queue := sound.queue
  under := sound.under

theorem Sound.raise (sound : x.Sound) (table : LocationTable) (n : Nat) :
    Sound { x with table, head := x.head + n } where
  log u listed := Nat.le_add_right_of_le (sound.log u listed)
  before r among := Nat.le_add_right_of_le (sound.before r among)
  tells := sound.tells
  updates r among u listed := Nat.le_add_right_of_le (sound.updates r among u listed)
  distinct := sound.distinct
  queue s subscribed u listed := Nat.le_add_right_of_le (sound.queue s subscribed u listed)
  under := sound.under

theorem Sound.logging (sound : x.Sound) {updates : List LocationUpdate}
    (given : ∀ u ∈ updates, u.lsn ≤ x.head) : Sound { x with log := x.log ++ updates } where
  log u listed := by
    rcases List.mem_append.mp listed with old | new
    · exact sound.log u old
    · exact given u new
  before := sound.before
  tells := sound.tells
  updates := sound.updates
  distinct := sound.distinct
  queue := sound.queue
  under := sound.under

theorem Sound.receive (sound : x.Sound) {updates : List LocationUpdate}
    (given : ∀ u ∈ updates, u.lsn ≤ x.head) : (x.receive updates).Sound where
  log := sound.log
  before := sound.before
  tells := sound.tells
  updates := sound.updates
  distinct := sound.distinct
  queue s subscribed u listed := by
    obtain ⟨s', there, rfl⟩ := Option.map_eq_some_iff.mp subscribed
    rcases List.mem_append.mp listed with old | new
    · exact sound.queue s' there u old
    · exact given u new
  under s subscribed none_ := by
    obtain ⟨s', there, rfl⟩ := Option.map_eq_some_iff.mp subscribed
    exact sound.under s' there none_

theorem insertUpdates_bound {head : Nat} {e : Entity} {u : LocationUpdate}
    (listed : u ∈ insertUpdates head e) :
    head < u.lsn ∧ u.lsn ≤ head + (insertUpdates head e).length + 3 := by
  unfold insertUpdates at listed ⊢
  obtain ⟨⟨kd, n⟩, there, rfl⟩ := List.mem_map.mp listed
  have bound := List.snd_lt_of_mem_zipIdx there
  rw [List.length_map, List.length_zipIdx]
  dsimp only at bound ⊢
  omega

theorem insertUpdates_entries (head : Nat) (e : Entity) :
    (insertUpdates head e).map (fun u => (u.key, u.descriptor)) = locationEntries e := by
  unfold insertUpdates
  rw [List.map_map]
  exact List.zipIdx_map_fst 0 _

theorem insertUpdates_distinct (head : Nat) (e : Entity) :
    ((insertUpdates head e).map LocationUpdate.key).Nodup := by
  have keys := congrArg (List.map Prod.fst) (insertUpdates_entries head e)
  rw [List.map_map] at keys
  exact keys ▸ locationEntries_distinct e

theorem mem_updatesSince {log : List LocationUpdate} {lsn : Nat} {u : LocationUpdate} :
    u ∈ updatesSince log lsn ↔ u ∈ log ∧ lsn < u.lsn := by
  unfold updatesSince
  rw [List.mem_insertionSort, List.mem_filter, decide_eq_true_iff]

theorem current_appended {r : LocationRequest} {updates : List LocationUpdate}
    (phase : r.phase = .appended updates) : r.current = updates := by
  unfold LocationRequest.current
  rw [phase]

theorem current_logged {r : LocationRequest} {updates : List LocationUpdate}
    (phase : r.phase = .logged updates) : r.current = updates := by
  unfold LocationRequest.current
  rw [phase]

theorem sending_broadcasting {r : LocationRequest} {updates : List LocationUpdate}
    (phase : r.phase = .broadcasting updates) : r.sending = updates := by
  unfold LocationRequest.sending
  rw [phase]

theorem Sound.own (sound : x.Sound) {r : LocationRequest} (among : r ∈ x.requests) :
    ∀ u ∈ r.own, u.lsn ≤ x.head := fun u own =>
  sound.updates r among u (List.mem_append_left _ own)

theorem Sound.current (sound : x.Sound) {r : LocationRequest} (among : r ∈ x.requests) :
    ∀ u ∈ r.current, u.lsn ≤ x.head := fun u current =>
  sound.updates r among u (List.mem_append_right _ (List.mem_append_left _ current))

theorem Sound.sending (sound : x.Sound) {r : LocationRequest} (among : r ∈ x.requests) :
    ∀ u ∈ r.sending, u.lsn ≤ x.head := fun u sending =>
  sound.updates r among u (List.mem_append_right _ (List.mem_append_right _ sending))

theorem request_sound (sound : x.Sound) {i : Nat} {r : LocationRequest} (found : x.requests[i]? = some r)
    (s : RequestStep) : (x.stepRequest i r s).Sound := by
  have among : r ∈ x.requests := List.mem_of_getElem? found
  have goes := stepRequest_goes x i r s
  generalize x.stepRequest i r s = x' at goes
  cases goes with
  | stays => exact sound
  | append e running =>
    refine (sound.raise x.table _).setRequest i (Nat.le_add_right_of_le (sound.before r among))
      nofun ?_ (insertUpdates_distinct x.head e)
    intro u listed
    rcases List.mem_append.mp listed with own | others
    · exact Nat.le_add_right_of_le (sound.own among u own)
    · have new : u ∈ insertUpdates x.head e :=
        (List.mem_append.mp others).resolve_right List.not_mem_nil
      exact (insertUpdates_bound new).2
  | commit updates appended =>
    have current := current_appended appended
    refine (sound.logging (current ▸ sound.current among)).setRequest i (sound.before r among) nofun ?_
      (current ▸ sound.distinct r among)
    intro u listed
    rcases List.mem_append.mp listed with own | others
    · exact sound.own among u own
    · refine sound.current among u ?_
      rw [current]
      exact (List.mem_append.mp others).resolve_right List.not_mem_nil
  | refused updates logged => exact sound.answer i
  | failed updates logged => exact (sound.raise _ 0).answer i
  | done updates logged =>
    refine (sound.raise (registerUpdates x.table updates) 0).setRequest i (sound.before r among) nofun
      ?_ List.nodup_nil
    intro u listed
    rcases List.mem_append.mp listed with own | none_
    · rcases List.mem_append.mp own with before | now
      · exact sound.own among u before
      · exact sound.current among u ((current_logged logged).symm ▸ now)
    · exact absurd none_ List.not_mem_nil
  | other records ops running => exact sound.raise _ records
  | completed running entry =>
    refine sound.setRequest i (sound.before r among) (fun _ => entry) ?_ List.nodup_nil
    intro u listed
    rcases List.mem_append.mp listed with own | none_
    · exact sound.own among u own
    · exact absurd none_ List.not_mem_nil
  | tql running entry => exact sound.answer i
  | fail running => exact sound.answer i
  | unread executed entry alone => exact sound.answer i
  | read executed =>
    have entry : r.entry ≠ .executeTql := sound.tells r among (by rw [executed]; rfl)
    refine sound.setRequest i (sound.before r among) (fun _ => entry) ?_ List.nodup_nil
    intro u listed
    rcases List.mem_append.mp listed with own | read
    · exact sound.own among u own
    · have new := (List.mem_append.mp read).resolve_left List.not_mem_nil
      exact sound.log u (mem_updatesSince.mp new).1
  | send updates broadcasting =>
    exact (sound.receive (sending_broadcasting broadcasting ▸ sound.sending among)).answer i

theorem take_queue (s : Subscriber) : ∀ u ∈ s.take.queue, u ∈ s.queue := by
  unfold Subscriber.take
  split
  · rename_i u rest lsn table queue _ _
    intro u' later
    rw [queue]
    exact List.mem_cons_of_mem _ later
  · exact fun _ listed => listed

theorem take_lsn (s : Subscriber) : s.take.lsn = s.lsn := by
  unfold Subscriber.take
  split <;> rfl

theorem step_sound (sound : x.Sound) (step : NodeStep) : (x.step step).Sound := by
  cases step with
  | arrive entry =>
    refine ⟨sound.log, ?_, ?_, ?_, ?_, sound.queue, sound.under⟩
    · intro r among
      rcases List.mem_append.mp among with old | new
      · exact sound.before r old
      · rw [List.mem_singleton.mp new]
        exact Nat.le_refl _
    · intro r among tells
      rcases List.mem_append.mp among with old | new
      · exact sound.tells r old tells
      · rw [List.mem_singleton.mp new] at tells
        cases tells
    · intro r among u listed
      rcases List.mem_append.mp among with old | new
      · exact sound.updates r old u listed
      · rw [List.mem_singleton.mp new] at listed
        exact absurd listed List.not_mem_nil
    · intro r among
      rcases List.mem_append.mp among with old | new
      · exact sound.distinct r old
      · rw [List.mem_singleton.mp new]
        exact List.nodup_nil
  | request i s =>
    unfold LocationNode.step
    dsimp only
    split
    · rename_i r found
      exact request_sound sound found s
    · exact sound
  | background records ops => exact sound.raise _ records
  | truncate upTo =>
    exact ⟨fun u listed => sound.log u (List.mem_of_mem_filter listed), sound.before, sound.tells,
      sound.updates, sound.distinct, sound.queue, sound.under⟩
  | connect connected =>
    exact ⟨sound.log, sound.before, sound.tells, sound.updates, sound.distinct, sound.queue, sound.under⟩
  | subscribe =>
    refine ⟨sound.log, sound.before, sound.tells, sound.updates, sound.distinct, ?_, ?_⟩
    · intro s subscribed
      obtain rfl := Option.some.inj subscribed
      cases there : x.subscriber with
      | none => exact fun _ none_ => absurd none_ List.not_mem_nil
      | some s => exact sound.queue s there
    · intro s subscribed none_
      obtain rfl := Option.some.inj subscribed
      cases there : x.subscriber with
      | none => rfl
      | some s =>
        rw [there] at none_
        exact sound.under s there none_
  | readLsn =>
    refine ⟨sound.log, sound.before, sound.tells, sound.updates, sound.distinct, ?_, ?_⟩
    · intro s subscribed
      obtain ⟨s', there, rfl⟩ := Option.map_eq_some_iff.mp subscribed
      exact sound.queue s' there
    · intro s subscribed none_
      obtain ⟨s', there, rfl⟩ := Option.map_eq_some_iff.mp subscribed
      cases none_
  | takeSnapshot =>
    refine ⟨sound.log, sound.before, sound.tells, sound.updates, sound.distinct, ?_, ?_⟩
    · intro s subscribed
      obtain ⟨s', there, rfl⟩ := Option.map_eq_some_iff.mp subscribed
      split <;> exact sound.queue s' there
    · intro s subscribed none_
      obtain ⟨s', there, rfl⟩ := Option.map_eq_some_iff.mp subscribed
      split at none_
      · rename_i unread
        exact sound.under s' there unread
      · rename_i lsn read
        rw [read] at none_
        cases none_
  | deliver =>
    refine ⟨sound.log, sound.before, sound.tells, sound.updates, sound.distinct, ?_, ?_⟩
    · intro s subscribed u listed
      obtain ⟨s', there, rfl⟩ := Option.map_eq_some_iff.mp subscribed
      exact sound.queue s' there u (take_queue s' u listed)
    · intro s subscribed none_
      obtain ⟨s', there, rfl⟩ := Option.map_eq_some_iff.mp subscribed
      rw [take_lsn] at none_
      have untaken := sound.under s' there none_
      unfold Subscriber.take
      split
      · rename_i read _
        rw [none_] at read
        cases read
      · exact untaken

end Sound
end LocationNode
end TronDB.Server
