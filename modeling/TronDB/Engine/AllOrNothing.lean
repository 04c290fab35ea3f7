import TronDB.Engine.IndexKeys
import TronDB.Engine.LocationLog
import TronDB.Engine.SnapshotRuns
import TronDB.Engine.TxTime

/-! IMPORT against an INSERT of every line, and what is left of a file whose import fails. -/
namespace TronDB.Engine
open TronDB.Core Binary Wal

/-! ### The same file by INSERT -/

def jsonLiteral : Json → Literal
  | .string s => .string s
  | .number (some n) _ => .int n
  | .number none (some f) => .float f
  | .number none none => .null
  | .bool b => .bool b
  | .null => .null
  | .other text => .string text

/-- The INSERT of a line's object. An id that is an array or an object is left to INSERT. -/
def lineInsert (collection : String) (fields : List (String × Json)) : InsertPlan :=
  let given := fields.filter fun
    | ("id", .other _) => false
    | _ => true
  ⟨collection, given.map Prod.fst, given.map fun kv => jsonLiteral kv.2, [], none, none⟩

/-- For the INSERT of a line, which gives the entity the id the import gave it. -/
def Env.forLine (env : Env) (imported : Nat) : Env :=
  { env with freshId := fun _ => env.freshId imported }

def Env.linesOf (env : Env) (path : String) : List ImportLine :=
  (env.importLines path).toOption.getD []

/-- The entities of the lines that are read before the import ends. -/
def State.rowsRead (s : State) (env : Env) (p : ImportPlan) : List Entity :=
  match s.schemas[p.collection]? with
  | none => []
  | some _ => importedEntities env (env.linesOf p.path) 0

section Import
variable [WalPayload Payload]

/-- The state after the INSERTs of all lines; none if a line has no object or its INSERT fails. -/
def insertLines (env : Env) (collection : String) : List ImportLine → Nat → State → Option State
  | [], _, s => some s
  | .blank :: rest, imported, s => insertLines env collection rest imported s
  | .object fields :: rest, imported, s =>
    match insert (env.forLine imported) s (lineInsert collection fields) with
    | (.ok _, s) => insertLines env collection rest (imported + 1) s
    | (.error _, _) => none
  | _ :: _, _, _ => none

/-- No row logged between two states of a session is recovered, whatever comes after. -/
def NeverRecovered (x x' : Session) : Prop :=
  ∀ r ∈ x'.engine.state.wal.buffer.drop x.engine.state.wal.buffer.length, r.isMutation = true →
    ∀ later : List Event, ∀ y ∈ Run.visited Session.next (some x') later, ∀ session ∈ y,
      ∀ order, r ∉ (recover order session.engine.state.wal.dir).records

/-- An import that succeeds leaves the entities and index entries of the INSERTs; one that fails
leaves no row of the file, neither stored nor to be recovered. -/
def AllOrNothing (env : Env) (x : Session) (p : ImportPlan) : Prop :=
  let s := x.engine.state
  match importCollection env s p with
  | (.ok _, s') => ∃ s'', insertLines env p.collection (env.linesOf p.path) 0 s = some s'' ∧
      s'.store.entities = s''.store.entities ∧ s'.store.fieldIndexes = s''.store.fieldIndexes
  | (.error _, s') =>
    (∀ e ∈ s.rowsRead env p, s'.store.entities[(p.collection, e.id)]? ≠ some e) ∧
      NeverRecovered x (x.withState s')

/-! ### The lines by IMPORT -/

variable {env : Env} {collection : String}

omit [WalPayload Payload] in
theorem importLoop_nothing (txId imported : Nat) (s : State) {lines : List ImportLine}
    (nothing : importedEntities env lines imported = []) :
    (importLoop env collection txId lines imported s).2 = s := by
  induction lines with
  | nil => rfl
  | cons line rest ih =>
    cases line with
    | blank => exact ih nothing
    | unreadable m => rfl
    | unparsable m => rfl
    | notObject => rfl
    | object fields => cases nothing

omit [WalPayload Payload] in
theorem importLoop_last (txId imported : Nat) {s : State} {lines : List ImportLine} {e : Entity}
    (present : s.store.hasCollection collection = true)
    (last : (importedEntities env lines imported).getLast? = some e) :
    (importLoop env collection txId lines imported s).2.store.entities[(collection, e.id)]? =
      some e := by
  obtain ⟨before, rows⟩ := List.getLast?_eq_some_iff.mp last
  rw [importLoop_rows env txId lines imported present, rows, List.foldl_append]
  exact (Store.get_putEntity _ _ _ _).trans (if_pos rfl)

def State.importing (s : State) (env : Env) (p : ImportPlan) : State :=
  { s with wal := s.wal.beginTx p.collection env.ts }

omit [WalPayload Payload] in
theorem importedEntities_time {imported : Nat} {lines : List ImportLine} {e : Entity}
    (there : e ∈ importedEntities env lines imported) : e.txTime = 0 := by
  obtain ⟨_, _, rfl⟩ := mem_importedEntities there
  rfl

/-- How an IMPORT can end: before the first line is read, at a line, or behind the last one. -/
inductive ImportEnds (env : Env) (s : State) (p : ImportPlan) (o : Outcome) : Prop
  | refused (error : EngineError) (nothing : s.rowsRead env p = []) (result : o = (.error error, s))
  | failed (error : EngineError) (s' : State) (known : s.schemas.contains p.collection = true)
      (looped : importLoop env p.collection s.wal.nextTx (env.linesOf p.path) 0 (s.importing env p) =
        (.error error, s'))
      (result : o = (.error error, s'))
  | done (imported : Nat) (s' : State) (known : s.schemas.contains p.collection = true)
      (looped : importLoop env p.collection s.wal.nextTx (env.linesOf p.path) 0 (s.importing env p) =
        (.ok imported, s'))
      (result : ∃ reply, o = (.ok reply, { s' with wal := s'.wal.commit s.wal.nextTx env.ts }))

theorem importCollection_ends (env : Env) (s : State) (p : ImportPlan) :
    ImportEnds env s p (importCollection env s p) := by
  unfold importCollection
  cases known : s.schemas[p.collection]? with
  | none => exact .refused _ (by simp only [State.rowsRead, known]) rfl
  | some schema =>
    have known' : s.schemas.contains p.collection = true := by
      rw [Std.ExtTreeMap.contains_eq_isSome_getElem?, known]
      rfl
    cases read : env.importLines p.path with
    | error e =>
      have unread : env.linesOf p.path = [] := by simp [Env.linesOf, read, Except.toOption]
      exact .refused _ (by simp only [State.rowsRead, known, unread, importedEntities]) rfl
    | ok lines =>
      have found : env.linesOf p.path = lines := by simp [Env.linesOf, read, Except.toOption]
      dsimp only
      split
      · rename_i looped
        exact .failed _ _ known' (found ▸ looped) rfl
      · rename_i looped
        exact .done _ _ known' (found ▸ looped) ⟨_, rfl⟩

omit [WalPayload Payload] in
theorem rowsRead_known {s : State} {p : ImportPlan} (known : s.schemas.contains p.collection = true) :
    s.rowsRead env p = importedEntities env (env.linesOf p.path) 0 := by
  rw [Std.ExtTreeMap.contains_eq_isSome_getElem?] at known
  obtain ⟨schema, found⟩ := Option.isSome_iff_exists.mp known
  simp only [State.rowsRead, found]

theorem importCollection_last {s : State} (synced : Synced s) {p : ImportPlan} {e : Entity}
    (last : (s.rowsRead env p).getLast? = some e) :
    (importCollection env s p).2.store.entities[(p.collection, e.id)]? = some e := by
  have looped (known : s.schemas.contains p.collection = true) :
      (importLoop env p.collection s.wal.nextTx (env.linesOf p.path) 0
        (s.importing env p)).2.store.entities[(p.collection, e.id)]? = some e := by
    rw [rowsRead_known known] at last
    rw [synced.schemas] at known
    exact importLoop_last _ 0 known last
  cases importCollection_ends env s p with
  | refused error nothing result =>
    rw [nothing] at last
    cases last
  | failed error s' known loop result =>
    have stored := looped known
    rw [loop] at stored
    rw [result]
    exact stored
  | done imported s' known loop result =>
    have stored := looped known
    rw [loop] at stored
    obtain ⟨reply, result⟩ := result
    rw [result]
    exact stored

/-! ### The lines by INSERT -/

omit [WalPayload Payload] in
theorem lineInsert_target (imported : Nat) (fields : List (String × Json)) :
    (lineInsert collection fields).target (env.forLine imported) =
      (importEntity (env.freshId imported) fields).id := by
  unfold InsertPlan.target findIdInFields lineInsert importEntity Entity.new
  dsimp only
  rw [List.zip_map', List.findSome?_map]
  refine congrArg (Option.getD · _) ?_
  induction fields with
  | nil => rfl
  | cons kv rest ih =>
    obtain ⟨key, json⟩ := kv
    by_cases named : key = "id"
    · subst named
      cases json with
      | number asI64 asF64 => cases asI64 <;> cases asF64 <;> exact ih
      | string s => rfl
      | bool b => exact ih
      | null => exact ih
      | other text => exact ih
    · simp only [List.findSome?_cons]
      simp [named, ih]

theorem insert_stamps {s s' : State} {p : InsertPlan} {result : QueryResult}
    (inserted : insert env s p = (.ok result, s')) :
    ∃ e, s'.store.entities[(p.collection, p.target env)]? = some e ∧ e.txTime = s.wal.nextTx := by
  have ends := insert_ends env s p
  rw [inserted] at ends
  cases ends with
  | refused error rejected failed => cases failed
  | unbuilt schema error known checked built failed => cases failed
  | unstored schema e known checked built absent failed =>
    obtain ⟨error, entries, failed⟩ := failed
    cases failed
  | stored schema e known checked built present wal left =>
    refine ⟨{ e with txTime := s.wal.nextTx }, ?_, rfl⟩
    rw [left.entities, FinMap.get_insert, ← id_of_built built]
    exact if_pos rfl

theorem insertLines_nothing {imported : Nat} {s s' : State} {lines : List ImportLine}
    (nothing : importedEntities env lines imported = [])
    (inserted : insertLines env collection lines imported s = some s') : s' = s := by
  induction lines with
  | nil => exact (Option.some.inj inserted).symm
  | cons line rest ih =>
    cases line with
    | blank => exact ih nothing inserted
    | unreadable m => cases inserted
    | unparsable m => cases inserted
    | notObject => cases inserted
    | object fields => cases nothing

theorem insertLines_last {imported : Nat} {s s' : State} {lines : List ImportLine} {e : Entity}
    (counted : 0 < s.wal.nextTx)
    (inserted : insertLines env collection lines imported s = some s')
    (last : (importedEntities env lines imported).getLast? = some e) :
    ∃ e', s'.store.entities[(collection, e.id)]? = some e' ∧ 0 < e'.txTime := by
  induction lines generalizing imported s with
  | nil => cases last
  | cons line rest ih =>
    cases line with
    | blank => exact ih counted inserted last
    | unreadable m => cases last
    | unparsable m => cases last
    | notObject => cases last
    | object fields =>
      unfold insertLines at inserted
      unfold importedEntities at last
      split at inserted
      · rename_i result s1 line
        have counts := counts_insert (env.forLine imported) s
          (lineInsert collection fields)
        rw [line] at counts
        cases others : importedEntities env rest (imported + 1) with
        | nil =>
          rw [others, List.getLast?_singleton] at last
          cases last
          cases insertLines_nothing others inserted
          obtain ⟨e', stored, time⟩ := insert_stamps line
          rw [lineInsert_target] at stored
          exact ⟨e', stored, time ▸ counted⟩
        | cons e' es =>
          rw [others, List.getLast?_cons_cons, ← others] at last
          exact ih (Nat.lt_of_lt_of_le counted counts) inserted last
      · cases inserted

theorem insertLines_blank {txId imported count : Nat} {s s' : State} {lines : List ImportLine}
    (nothing : importedEntities env lines imported = [])
    (looped : importLoop env collection txId lines imported s = (.ok count, s')) (t : State) :
    insertLines env collection lines imported t = some t := by
  induction lines with
  | nil => rfl
  | cons line rest ih =>
    cases line with
    | blank => exact ih nothing looped
    | unreadable m => cases looped
    | unparsable m => cases looped
    | notObject => cases looped
    | object fields => cases nothing

/-! ### Sessions -/

/-- A session whose transaction counter is past zero. -/
structure Session.Counting (x : Session) : Prop where
  sound : x.Sound
  counted : 0 < x.engine.state.wal.nextTx

namespace Session.Counting

theorem start (config : WalConfig) : (Session.start (.init config)).Counting where
  sound := .start config
  counted := Nat.zero_lt_one

omit [WalPayload Payload] in
theorem kept {x x' : Session} (counting : x.Counting) (sound : x'.Sound)
    (counts : Counts x.engine.state x'.engine.state) : x'.Counting :=
  ⟨sound, Nat.lt_of_lt_of_le counting.counted counts⟩

theorem step {x x' : Session} (counting : x.Counting) (a : Event) (stepped : x.step a = some x') :
    x'.Counting := by
  have sound := counting.sound.step a stepped
  cases a with
  | write env w =>
    cases stepped
    exact counting.kept sound (counts_perform env _ w)
  | beginInsert env p =>
    refine counting.kept sound ?_
    unfold Session.step at stepped
    dsimp only at stepped
    rcases beginInsert_ends env x.engine.state p with
      ⟨-, error, s', failed, counts⟩ | ⟨-, e, s', begun, -, next⟩
    · rw [failed] at stepped
      cases stepped
      exact counts
    · rw [begun] at stepped
      cases stepped
      exact Nat.le_of_lt (next ▸ Nat.lt_succ_self _)
  | finishInsert env i =>
    unfold Session.step at stepped
    dsimp only at stepped
    split at stepped
    · cases stepped
      exact counting
    · rename_i pending _
      cases stepped
      exact counting.kept sound (counts_finishInsert env _ pending)
  | startRecompute env =>
    cases stepped
    exact counting.kept sound (.same rfl)
  | advance env i =>
    unfold Session.step at stepped
    dsimp only at stepped
    split at stepped
    · cases stepped
      exact counting
    · rename_i task _
      cases stepped
      exact counting.kept sound (counts_advance env _ task)
  | checkpoint ts =>
    cases stepped
    exact counting.kept sound (Nat.le_refl _)
  | saveLocation =>
    cases stepped
    exact counting.kept sound (.same rfl)
  | saveHnsw order =>
    cases stepped
    exact counting.kept sound (.same rfl)
  | reopen config order =>
    refine ⟨sound, ?_⟩
    unfold Session.step at stepped
    dsimp only at stepped
    split at stepped
    · rename_i engine unhandled opened
      cases stepped
      obtain ⟨s, replayed, -, -, rebuilt, -⟩ := counting.sound.reopened opened
      have wal : engine.state.wal = WalWriter.open config x.engine.disk.wal :=
        rebuilt.wal.trans (replayed_wal _ replayed)
      unfold Session.start
      dsimp only
      rw [wal]
      exact Nat.zero_lt_one
    · cases stepped

end Session.Counting

/-- The last row is stored without a time, and an INSERT gives it one. -/
theorem not_whole {x : Session} (counting : x.Counting) {p : ImportPlan}
    (some_ : x.engine.state.rowsRead env p ≠ []) : ¬ AllOrNothing env x p := by
  intro whole
  have last := List.getLast?_eq_some_getLast some_
  generalize (x.engine.state.rowsRead env p).getLast some_ = e at last
  have stored := importCollection_last counting.sound.synced last
  unfold AllOrNothing at whole
  dsimp only at whole
  cases importCollection_ends env x.engine.state p with
  | refused error nothing result => exact some_ nothing
  | failed error s' known looped result =>
    rw [result] at stored whole
    exact whole.1 e (List.mem_of_getLast? last) stored
  | done imported s' known looped result =>
    obtain ⟨reply, result⟩ := result
    rw [result] at stored whole
    obtain ⟨s'', inserted, entities, -⟩ := whole
    rw [rowsRead_known known] at last
    obtain ⟨e', stored', time⟩ := insertLines_last counting.counted inserted last
    rw [← entities] at stored'
    cases stored.symm.trans stored'
    have untimed : e.txTime = 0 := importedEntities_time (List.mem_of_getLast? last)
    omega

theorem whole_of_none (x : Session) {p : ImportPlan} (nothing : x.engine.state.rowsRead env p = []) :
    AllOrNothing env x p := by
  unfold AllOrNothing
  dsimp only
  cases importCollection_ends env x.engine.state p with
  | refused error _ result =>
    rw [result]
    refine ⟨fun e there => ?_, fun r logged => ?_⟩
    · rw [nothing] at there
      cases there
    · simp only [Session.withState, List.drop_length] at logged
      cases logged
  | failed error s' known looped result =>
    rw [result]
    have same : (importLoop env p.collection x.engine.state.wal.nextTx (env.linesOf p.path) 0
        (x.engine.state.importing env p)).2 = x.engine.state.importing env p :=
      importLoop_nothing _ 0 _ (rowsRead_known known ▸ nothing)
    rw [looped] at same
    refine ⟨fun e there => ?_, fun r logged mutation => ?_⟩
    · rw [nothing] at there
      cases there
    · dsimp only [Session.withState] at logged same
      rw [same] at logged
      simp only [State.importing, WalWriter.beginTx, WalWriter.append, WalWriter.nextTxId,
        List.drop_left, List.mem_singleton] at logged
      subst logged
      cases mutation
  | done imported s' known looped result =>
    obtain ⟨reply, result⟩ := result
    rw [result]
    have blank : importedEntities env (env.linesOf p.path) 0 = [] := rowsRead_known known ▸ nothing
    have same : (importLoop env p.collection x.engine.state.wal.nextTx (env.linesOf p.path) 0
        (x.engine.state.importing env p)).2 = x.engine.state.importing env p :=
      importLoop_nothing _ 0 _ blank
    rw [looped] at same
    refine ⟨x.engine.state, insertLines_blank blank looped _, ?_⟩
    dsimp only at same ⊢
    rw [same]
    exact ⟨rfl, rfl⟩

/-- In every session of every run, an import is all or nothing, and the INSERTs of its lines, iff
it reads no row. -/
theorem all_or_nothing_iff (config : WalConfig) (as : List Event) (x : Session)
    (reached : some x ∈ Run.visited Session.next (some (.start (.init config))) as) (env : Env)
    (p : ImportPlan) : AllOrNothing env x p ↔ x.engine.state.rowsRead env p = [] := by
  have counting : ∀ y ∈ Run.visited Session.next (some (.start (.init config))) as,
      ∀ session, y = some session → session.Counting := by
    refine Run.invariant Session.next as (fun session this => ?_)
      fun y a counting session stepped => ?_
    · cases this
      exact .start config
    · obtain ⟨before, this, stepped⟩ := Option.bind_eq_some_iff.mp stepped
      exact (counting before this).step a stepped
  constructor
  · intro whole
    by_contra some_
    exact not_whole (counting _ reached x rfl) some_ whole
  · exact whole_of_none x

end Import

section Examples
attribute [local instance] headerOnly

def staffed : Session :=
  (Session.start (.init default)).withState
    (perform .idle (.init default) (.createCollection ⟨"staff", [], [], [], none⟩)).2

def staffFile : ImportPlan := ⟨"staff", "staff.jsonl"⟩

def reading (lines : List ImportLine) : Env := { Env.idle with importLines := fun _ => .ok lines }

/-- A file of blank lines is imported whole. -/
theorem blank_lines_whole : AllOrNothing (reading [.blank, .blank]) staffed staffFile :=
  (all_or_nothing_iff default [.write .idle (.createCollection ⟨"staff", [], [], [], none⟩)] staffed
    (List.mem_cons_of_mem _ (List.mem_cons_self ..)) _ staffFile).mpr (by decide)

def ann : ImportLine := .object [("id", .string "a"), ("name", .string "Ann")]

def halfFile : Env := reading [ann, .unparsable "expected value"]

def insertStaff (id : String) : Event :=
  .write .idle (.insert ⟨"staff", ["id"], [.string id], [], none, none⟩)

def halfway : Session := staffed.withState (importCollection halfFile staffed.engine.state staffFile).2

/-- The commit of another INSERT writes the row out, and a later session commits the id of its
transaction. -/
def afterwards : List Event :=
  [insertStaff "b", .reopen default (.insertionOrder _), insertStaff "c", insertStaff "d"]

/-- The row ahead of a line that cannot be parsed stays in the store, and is recovered later. -/
theorem half_file_stays :
    ¬ AllOrNothing halfFile staffed staffFile ∧ ¬ NeverRecovered staffed halfway := by
  constructor
  · intro whole
    have failed : importCollection halfFile staffed.engine.state staffFile =
        (.error (.storage "import parse: expected value"), halfway.engine.state) := rfl
    have stored : ∃ e ∈ staffed.engine.state.rowsRead halfFile staffFile,
        halfway.engine.state.store.entities[("staff", e.id)]? = some e := by decide
    unfold AllOrNothing at whole
    dsimp only at whole
    rw [failed] at whole
    obtain ⟨e, read, stored⟩ := stored
    exact whole.1 e read stored
  · intro never
    have opens : (afterwards.foldl Session.next (some halfway)).isSome = true := by decide
    have recovered : ∀ session ∈ afterwards.foldl Session.next (some halfway),
        ∃ r ∈ halfway.engine.state.wal.buffer.drop staffed.engine.state.wal.buffer.length,
          r.isMutation = true ∧
            r ∈ (recover (.insertionOrder _) session.engine.state.wal.dir).records := by
      decide
    obtain ⟨session, end_⟩ := Option.isSome_iff_exists.mp opens
    obtain ⟨r, logged, mutation, found⟩ := recovered session end_
    exact never r logged mutation afterwards _ (Run.end_visited _ _ _) session end_ _ found

end Examples
end TronDB.Engine
