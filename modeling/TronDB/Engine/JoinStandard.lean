import TronDB.Engine.Join
import TronDB.Lib.OuterJoin

/-! The relational join by its standard definition, and when JOIN returns it. -/
namespace TronDB.Engine
open TronDB.Core Binary Wal

/-! ### The standard definition -/

/-- The entity under each alias; none where an outer join has found nothing. -/
abbrev Binding := List (String × Option Entity)

def fieldValue (e : Entity) (field : String) : Option Value :=
  if field = "id" then some (.string e.id) else e.metadata[field]?

def Binding.value (b : Binding) (f : QualifiedField) : Option Value :=
  (b.lookup f.aliasName).join.bind fun e => fieldValue e f.field

/-- The combined row; what is missing has a null id. -/
def Binding.combined (b : Binding) : Combined :=
  b.foldl (fun combined ae =>
    match ae.2 with
    | some e => addEntity combined ae.1 e
    | none => combined.insert (qualified ae.1 "id") .null) ∅

/-- Both values are there and equal; nulls are equal to nothing. -/
def joinValues : Option Value → Option Value → Bool
  | some v, some w => !v.eq .null && v.eq w
  | _, _ => false

def JoinClause.holds (join : JoinClause) (b : Binding) (right : Entity) : Bool :=
  let joined := b ++ [(join.aliasName, some right)]
  joinValues (Binding.value joined join.onLeft) (Binding.value joined join.onRight)

def JoinType.keepsLeft (t : JoinType) : Bool := t = .left || t = .full

def JoinType.keepsRight (t : JoinType) : Bool := t = .right || t = .full

def JoinClause.step (store : Store) (aliases : List String) (join : JoinClause) :
    OuterJoin.Step Binding Entity where
  entries := store.partition join.collection
  on := join.holds
  pair b right := b ++ [(join.aliasName, some right)]
  keepsRows := join.joinType.keepsLeft
  pad b := b ++ [(join.aliasName, none)]
  keepsEntries := join.joinType.keepsRight
  alone right := aliases.map (·, none) ++ [(join.aliasName, some right)]

/-- The joins, each with the aliases in front of it. -/
def joinSteps (store : Store) : List JoinClause → List String → List (OuterJoin.Step Binding Entity)
  | [], _ => []
  | join :: rest, aliases => join.step store aliases :: joinSteps store rest (aliases ++ [join.aliasName])

namespace JoinPlan

variable (p : JoinPlan) (store : Store)

def fromRows : List Binding := (store.partition p.fromCollection).map fun e => [(p.fromAlias, some e)]

def standardUpTo (joins : List JoinClause) : List Binding :=
  OuterJoin.joinAll (joinSteps store joins [p.fromAlias]) (p.fromRows store)

def filtered (rows : List Binding) : List Combined := (rows.map Binding.combined).filter p.admits

def limited {α : Type} (rows : List α) : List α :=
  match p.limit with
  | some n => rows.take n
  | none => rows

/-- Joined, filtered, ordered, limited and projected. -/
def standardRows : List Row :=
  let combined := (p.filtered (p.standardUpTo store p.joins)).map fun c => (⟨c, none⟩ : Row)
  (p.limited (sortRows combined p.orderBy)).map fun row => projectJoinRow row.values p.fields

end JoinPlan

/-- What a row has in a column; a missing value is a null. -/
def rowValue (row : Row) (key : String) : Value := row.values[key]?.getD .null

/-- JOIN returns the rows of the standard definition, in their order. -/
def JoinsStandardly (s : State) (env : ReadEnv) (p : JoinPlan) : Prop :=
  ∃ r, executeJoin s env p = .ok r ∧ r.rows.map rowValue = (p.standardRows s.store).map rowValue

/-! ### When JOIN returns it -/

namespace JoinPlan

variable (p : JoinPlan) (store : Store)

def aliasesOf (before : List JoinClause) : List String :=
  p.fromAlias :: before.map JoinClause.aliasName

/-- What joins make of a FROM entity. -/
def chain (joins : List JoinClause) (left : Entity) : List Binding :=
  OuterJoin.extendAll (joinSteps store joins [p.fromAlias]) [(p.fromAlias, some left)]

def leftBlock (lefts : List Entity) : List Combined :=
  p.filtered (lefts.flatMap (p.chain store p.joins))

/-- Some row of the joins before belongs to the entity. -/
def joined (before : List JoinClause) (join : JoinClause) (right : Entity) : Bool :=
  (p.standardUpTo store before).any fun b => join.holds b right

/-- What the joins behind make of an entity nothing was joined to. -/
def chainAlone (before : List JoinClause) (join : JoinClause) (after : List JoinClause)
    (right : Entity) : List Binding :=
  OuterJoin.extendAll (joinSteps store after (p.aliasesOf (before ++ [join])))
    ((join.step store (p.aliasesOf before)).alone right)

/-- The row of such an entity with every other alias padded. -/
def paddedRow (before : List JoinClause) (join : JoinClause) (after : List JoinClause)
    (right : Entity) : Binding :=
  (p.aliasesOf before).map (·, none) ++
    (join.aliasName, some right) :: after.map fun j => (j.aliasName, none)

def lonelyBlock (before : List JoinClause) (join : JoinClause) (after : List JoinClause)
    (rights : List Entity) : List Combined :=
  if join.joinType.keepsRight then
    p.filtered ((rights.filter fun right => !p.joined store before join right).flatMap
      (p.chainAlone store before join after))
  else []

def lonelyBlocks : List JoinClause → List JoinClause → List (List Combined)
  | _, [] => []
  | before, join :: after =>
    p.lonelyBlock store before join after (store.partition join.collection) ::
      lonelyBlocks (before ++ [join]) after

/-- The rows of the FROM entities, and then for each join those of the entities nothing was
joined to. -/
def standardBlocks : List (List Combined) :=
  p.leftBlock store (store.partition p.fromCollection) :: p.lonelyBlocks store [] p.joins

/-- The rows in front of the block of the join behind these. -/
def rowsBefore (before : List JoinClause) : List Combined :=
  ((p.standardBlocks store).take (before.length + 1)).flatten

/-- A loop goes on to the next entity: it has pushed no row yet, or the limit is not reached. -/
def GoesOn (before own : List Combined) : Prop :=
  own = [] ∨ ∀ n, p.limit = some n → (before ++ own).length < n

/-- The last join on a field that has the alias; its table has replaced those of the others. -/
def tableOwner (a : String) : Option JoinClause :=
  p.joins.reverse.find? fun join => join.onRight.field ≠ "id" && join.aliasName = a

/-- The entities that are listed under the text that the FROM entity has in the field. -/
def listed (join : JoinClause) (left : Entity) : List Entity :=
  match fieldValue left join.onLeft.field with
  | some (.string k) =>
    if join.onRight.field = "id" then (store.partition join.collection).filter fun e => e.id = k
    else (p.tableOwner join.aliasName).toList.flatMap fun owner =>
      (store.partition owner.collection).filter fun e =>
        e.metadata[owner.onRight.field]? = some (.string k)
  | _ => []

/-- What JOIN takes for the row of an entity nothing was joined to. -/
structure StandsAlone (before : List JoinClause) (join : JoinClause) (after : List JoinClause)
    (right : Entity) : Prop where
  /-- No join behind finds a partner for it, and it is dropped by those that keep no such rows. -/
  lonely : p.chainAlone store before join after right =
    if after.all fun j => j.joinType.keepsLeft then [p.paddedRow before join after right] else []
  /-- WHERE lets the row alone through iff it lets the padded one through, if there is one. -/
  padded : p.admits (p.unmatchedRow join right) = (after.all (fun j => j.joinType.keepsLeft) &&
    p.admits (Binding.combined (p.paddedRow before join after right)))
  /-- The row has no column that is the id of an alias behind. -/
  apart : ∀ j ∈ after, (p.unmatchedRow join right)[qualified j.aliasName "id"]?.getD .null = .null

end JoinPlan

/-- The inputs on which JOIN takes no shortcut that is not the standard definition. -/
structure ShortcutsUnseen (p : JoinPlan) (store : Store) : Prop where
  fromPresent : store.hasCollection p.fromCollection = true
  present : ∀ join ∈ p.joins, store.hasCollection join.collection = true ∨
    join.onRight.field = "id" ∧ store.partition join.collection = []
  /-- A row that comes to a join has no partner but the first of the entities listed under the text
  that the FROM entity has in the field. -/
  partner : ∀ earlier left later, store.partition p.fromCollection = earlier ++ left :: later →
    p.GoesOn [] (p.leftBlock store earlier) →
      ∀ before join after, p.joins = before ++ join :: after → ∀ b ∈ p.chain store before left,
        (store.partition join.collection).filter (join.holds b) = (p.listed store join left).take 1
  /-- The rows so far show the id of an entity of a RIGHT or FULL join iff the entity is joined to
  something, at least where WHERE lets the row of the entity alone through. -/
  shown : ∀ before join after, p.joins = before ++ join :: after → join.joinType.keepsRight = true →
    ∀ earlier right later, store.partition join.collection = earlier ++ right :: later →
      p.GoesOn (p.rowsBefore store before) (p.lonelyBlock store before join after earlier) →
        p.admits (p.unmatchedRow join right) = true →
          alreadyMatched ((p.limited (p.rowsBefore store before ++
            p.lonelyBlock store before join after earlier)).map fun c => projectJoinRow c p.fields)
              join right = p.joined store before join right
  alone : ∀ before join after, p.joins = before ++ join :: after → join.joinType.keepsRight = true →
    ∀ earlier right later, store.partition join.collection = earlier ++ right :: later →
      p.GoesOn (p.rowsBefore store before) (p.lonelyBlock store before join after earlier) →
        p.joined store before join right = false → p.StandsAlone store before join after right
  /-- ORDER BY asks for the order the rows are in. -/
  ordered : sortRows ((p.filtered (p.standardUpTo store p.joins)).map fun c => ⟨c, none⟩) p.orderBy =
    (p.filtered (p.standardUpTo store p.joins)).map fun c => ⟨c, none⟩
  /-- Each block that has rows starts before the limit. -/
  leftStarts : p.leftBlock store (store.partition p.fromCollection) ≠ [] →
    ∀ n, p.limit = some n → 0 < n
  starts : ∀ before join after, p.joins = before ++ join :: after →
    p.lonelyBlock store before join after (store.partition join.collection) ≠ [] →
      ∀ n, p.limit = some n → (p.rowsBefore store before).length < n

/-! ### One FROM entity -/

/-- The table of a join lists the partners by the text they are joined by. -/
theorem get_lookupTable (entities : List Entity) (field k : String) (table : LookupTable) :
    (entities.foldl (fun table (e : Entity) =>
      match e.metadata[field]? with
      | some (.string k) => table.insert k (table[k]?.getD [] ++ [e])
      | _ => table) table)[k]?.getD [] =
      table[k]?.getD [] ++ entities.filter fun e => e.metadata[field]? = some (.string k) := by
  induction entities generalizing table with
  | nil => simp
  | cons e rest ih =>
    rw [List.foldl_cons, ih]
    cases value : e.metadata[field]? with
    | none => simp [value]
    | some v =>
      cases v with
      | string k' =>
        dsimp only
        rw [FinMap.get_insert]
        by_cases same : k' = k
        · subst same
          simp [value]
        · simp [value, same]
      | _ => simp [value]

theorem head_lookupTable (entities : List Entity) (field k : String) :
    ((lookupTable entities field)[k]?.bind List.head?) =
      (entities.filter fun e => e.metadata[field]? = some (.string k)).head? := by
  have listed := get_lookupTable entities field k ∅
  have empty : ((∅ : LookupTable)[k]?).getD [] = [] := by simp
  rw [empty, List.nil_append] at listed
  rw [← listed]
  unfold lookupTable
  cases (entities.foldl (fun table (e : Entity) =>
      match e.metadata[field]? with
      | some (.string k) => table.insert k (table[k]?.getD [] ++ [e])
      | _ => table) (∅ : LookupTable))[k]? <;> rfl

theorem head_id {store : Store} {collection : String} (present : store.hasCollection collection = true)
    (id : LogicalId) : (store.get collection id).toOption =
      ((store.partition collection).filter fun e => e.id = id).head? := by
  have owner : ∀ e ∈ (store.partition collection).filter (fun e => e.id = id),
      store.entities[(collection, id)]? = some e := by
    intro e there
    obtain ⟨listed, own⟩ := List.mem_filter.mp there
    rw [← of_decide_eq_true own]
    exact (store.mem_partition collection e).mp listed
  unfold Store.get
  rw [if_pos present]
  cases stored : store.entities[(collection, id)]? with
  | none =>
    cases found : (store.partition collection).filter fun e => e.id = id with
    | nil => rfl
    | cons e rest =>
      cases stored.symm.trans (owner e (found ▸ List.mem_cons_self))
  | some e =>
    have own : e.id = id := store.keyed collection id e stored
    have there : e ∈ (store.partition collection).filter fun e => e.id = id :=
      List.mem_filter.mpr ⟨(store.mem_partition collection e).mpr (own ▸ stored), decide_eq_true own⟩
    cases found : (store.partition collection).filter fun e => e.id = id with
    | nil =>
      rw [found] at there
      cases there
    | cons e' rest =>
      have same := owner e' (found ▸ List.mem_cons_self)
      cases stored.symm.trans same
      rfl

theorem rightLookupTables_ok (store : Store) (joins : List JoinClause)
    (present : ∀ join ∈ joins, join.onRight.field ≠ "id" → store.hasCollection join.collection = true)
    (structural : ∀ join ∈ joins, join.confidenceThreshold = none) (tables : FinMap String LookupTable) :
    ∃ tables', rightLookupTables store joins tables = .ok tables' ∧ ∀ a : String, tables'[a]? =
      ((joins.reverse.find? fun join => join.onRight.field ≠ "id" && join.aliasName = a).map fun join =>
        lookupTable (store.partition join.collection) join.onRight.field).or tables[a]? := by
  induction joins generalizing tables with
  | nil => exact ⟨tables, rfl, fun _ => rfl⟩
  | cons join rest ih =>
    rw [List.forall_mem_cons] at present structural
    unfold rightLookupTables
    by_cases byField : join.onRight.field ≠ "id"
    · rw [if_pos ⟨structural.1, byField⟩, Store.scan, if_pos (present.1 byField)]
      dsimp only
      obtain ⟨tables', ok, listed⟩ := ih present.2 structural.2
        (tables.insert join.aliasName (lookupTable (store.partition join.collection) join.onRight.field))
      refine ⟨tables', ok, fun a => ?_⟩
      rw [listed, List.reverse_cons, List.find?_append, FinMap.get_insert]
      cases rest.reverse.find? fun join => join.onRight.field ≠ "id" && join.aliasName = a with
      | some later => rfl
      | none => by_cases own : join.aliasName = a <;> simp [own, byField]
    · rw [if_neg fun both => byField both.2]
      obtain ⟨tables', ok, listed⟩ := ih present.2 structural.2 tables
      refine ⟨tables', ok, fun a => ?_⟩
      rw [listed, List.reverse_cons, List.find?_append]
      cases rest.reverse.find? fun join => join.onRight.field ≠ "id" && join.aliasName = a with
      | some later => rfl
      | none => simp [byField]

theorem rightEntity_first {s : State} (env : ReadEnv) (p : JoinPlan) {join : JoinClause}
    {tables : FinMap String LookupTable} (left : Entity)
    (present : s.store.hasCollection join.collection = true ∨
      join.onRight.field = "id" ∧ s.store.partition join.collection = [])
    (structural : join.confidenceThreshold = none)
    (table : ∀ a : String, tables[a]? = (p.tableOwner a).map fun owner =>
      lookupTable (s.store.partition owner.collection) owner.onRight.field) :
    s.rightEntity env p tables join left =
      (p.listed s.store join left).head?.map fun e => (e, .one) := by
  have value : leftFieldVal join left = fieldValue left join.onLeft.field := rfl
  unfold State.rightEntity JoinPlan.listed
  rw [value]
  by_cases text : ∃ k, fieldValue left join.onLeft.field = some (.string k)
  · obtain ⟨k, text⟩ := text
    rw [text]
    dsimp only
    rw [structural]
    dsimp only
    by_cases byId : join.onRight.field = "id"
    · rw [if_pos byId, if_pos byId]
      by_cases here : s.store.hasCollection join.collection = true
      · rw [head_id here]
      · have empty := (present.resolve_left here).2
        rw [empty, Store.get, if_neg here]
        rfl
    · rw [if_neg byId, if_neg byId, table]
      cases p.tableOwner join.aliasName with
      | none => rfl
      | some owner =>
        rw [Option.map_some, Option.bind_some, head_lookupTable]
        simp
  · cases found : fieldValue left join.onLeft.field with
    | none => rfl
    | some v =>
      cases v with
      | string k => exact absurd ⟨k, found⟩ text
      | _ => rfl

theorem combined_snoc (b : Binding) (a : String) (e : Option Entity) :
    Binding.combined (b ++ [(a, e)]) = match e with
      | some e => addEntity b.combined a e
      | none => b.combined.insert (qualified a "id") .null := by
  unfold Binding.combined
  rw [List.foldl_append]
  rfl

theorem joinSteps_append (store : Store) (joins more : List JoinClause) (aliases : List String) :
    joinSteps store (joins ++ more) aliases = joinSteps store joins aliases ++
      joinSteps store more (aliases ++ joins.map JoinClause.aliasName) := by
  induction joins generalizing aliases with
  | nil => simp [joinSteps]
  | cons join rest ih => simp [joinSteps, ih]

namespace JoinPlan

variable (p : JoinPlan)

theorem aliasesOf_snoc (before : List JoinClause) (join : JoinClause) :
    p.aliasesOf (before ++ [join]) = p.aliasesOf before ++ [join.aliasName] := by
  simp [aliasesOf]

theorem chain_append (store : Store) (before joins : List JoinClause) (left : Entity) :
    p.chain store (before ++ joins) left = (p.chain store before left).flatMap
      (OuterJoin.extendAll (joinSteps store joins (p.aliasesOf before))) := by
  unfold chain
  rw [joinSteps_append, OuterJoin.extendAll_append]
  rfl

theorem mem_chain_snoc {store : Store} {before : List JoinClause} {join : JoinClause} {left : Entity}
    {b b' : Binding} (come : b ∈ p.chain store before left)
    (next : b' ∈ (join.step store (p.aliasesOf before)).extend b) :
    b' ∈ p.chain store (before ++ [join]) left := by
  rw [chain_append]
  exact List.mem_flatMap.mpr ⟨b, come, List.mem_flatMap.mpr ⟨b', next, List.mem_singleton_self b'⟩⟩

end JoinPlan

/-- The row JOIN makes of a FROM entity is the one the chain makes of it. -/
theorem extendAll_joinRow {s : State} (env : ReadEnv) (p : JoinPlan) (tables : FinMap String LookupTable)
    (left : Entity) (joins before : List JoinClause) {b : Binding} (come : b ∈ p.chain s.store before left)
    (structural : ∀ join ∈ joins, join.confidenceThreshold = none)
    (partner : ∀ front join after, joins = front ++ join :: after →
      ∀ b ∈ p.chain s.store (before ++ front) left,
        (s.store.partition join.collection).filter (join.holds b) = (p.listed s.store join left).take 1)
    (first : ∀ join ∈ joins, s.rightEntity env p tables join left =
      (p.listed s.store join left).head?.map fun e => (e, .one)) :
    (OuterJoin.extendAll (joinSteps s.store joins (p.aliasesOf before)) b).map Binding.combined =
      (s.joinRow env p tables left joins b.combined).toList := by
  induction joins generalizing before b with
  | nil => rfl
  | cons join rest ih =>
    rw [List.forall_mem_cons] at structural first
    have own := partner [] join rest rfl b (by rwa [List.append_nil])
    have partners : (join.step s.store (p.aliasesOf before)).partners b =
        (p.listed s.store join left).take 1 := own
    have single : ((join.step s.store (p.aliasesOf before)).partners b).length ≤ 1 := by
      rw [partners]
      exact List.length_take_le 1 _
    have extended := OuterJoin.Step.extend_one (join.step s.store (p.aliasesOf before)) single
    rw [partners, List.head?_take, if_neg Nat.one_ne_zero] at extended
    have next (e : Option Entity)
        (made : (join.step s.store (p.aliasesOf before)).extend b = [b ++ [(join.aliasName, e)]]) :
        (OuterJoin.extendAll (joinSteps s.store rest (p.aliasesOf before ++ [join.aliasName]))
          (b ++ [(join.aliasName, e)])).map Binding.combined =
        (s.joinRow env p tables left rest (Binding.combined (b ++ [(join.aliasName, e)]))).toList := by
      rw [← p.aliasesOf_snoc]
      refine ih (before ++ [join]) ?_ structural.2 (fun front join' after split b' come' => ?_) first.2
      · exact p.mem_chain_snoc come (made ▸ List.mem_singleton_self _)
      · refine partner (join :: front) join' after (by rw [split]; rfl) b' ?_
        rwa [List.append_cons]
    unfold joinSteps State.joinRow
    rw [OuterJoin.extendAll, first.1]
    cases found : (p.listed s.store join left).head? with
    | some right =>
      rw [found] at extended
      have row := next (some right) extended
      rw [combined_snoc] at row
      rw [extended]
      simp only [List.flatMap_cons, List.flatMap_nil, List.append_nil, Option.map_some, structural.1,
        Option.isSome_none, Bool.false_eq_true, if_false]
      exact row
    | none =>
      rw [found] at extended
      have keeps : (join.step s.store (p.aliasesOf before)).keepsRows = join.joinType.keepsLeft := rfl
      rw [keeps] at extended
      cases type : join.joinType with
      | inner | right =>
        have dropped : join.joinType.keepsLeft = false := by rw [type]; rfl
        rw [extended, dropped]
        rfl
      | left | full =>
        have kept : join.joinType.keepsLeft = true := by rw [type]; rfl
        rw [kept, if_pos rfl] at extended
        have row := next none extended
        rw [combined_snoc] at row
        rw [extended]
        simp only [List.flatMap_cons, List.flatMap_nil, List.append_nil, Option.map_none]
        exact row

/-! ### Columns -/

/-- What is in a column; missing values are nulls. -/
def readColumn (combined : Combined) (key : String) : Value := combined[key]?.getD .null

theorem readColumn_insert (combined : Combined) (k : String) (v : Value) (key : String) :
    readColumn (combined.insert k v) key = if k = key then v else readColumn combined key := by
  unfold readColumn
  rw [FinMap.get_insert]
  split <;> rfl

def shownColumns (fields : JoinFieldList) (column : String → Value) (key : String) : Value :=
  match fields with
  | .all => column key
  | .named qfs => if key ∈ qfs.map QualifiedField.key then column key else .null

theorem rowValue_project (combined : Combined) (fields : JoinFieldList) :
    rowValue (projectJoinRow combined fields) = shownColumns fields (readColumn combined) := by
  funext key
  cases fields with
  | all => rfl
  | named qfs =>
    have each (qfs : List QualifiedField) (projected : Combined) :
        readColumn (qfs.foldl (fun projected qf =>
          projected.insert qf.key (combined[qf.key]?.getD .null)) projected) key =
          if key ∈ qfs.map QualifiedField.key then readColumn combined key
          else readColumn projected key := by
      induction qfs generalizing projected with
      | nil => rfl
      | cons qf rest ih =>
        rw [List.foldl_cons, ih, readColumn_insert]
        by_cases later : key ∈ rest.map QualifiedField.key
        · simp only [List.map_cons, List.mem_cons, later, or_true, if_true]
        · by_cases this : qf.key = key
          · subst this
            simp only [later, List.map_cons, List.mem_cons, true_or, if_true, if_false]
            rfl
          · simp only [later, this, Ne.symm this, List.map_cons, List.mem_cons, or_false, if_false]
    refine (each qfs ∅).trans ?_
    simp [shownColumns, readColumn]

theorem qualified_field {a f g : String} (same : qualified a f = qualified a g) : f = g := by
  unfold qualified at same
  have chars := congrArg String.toList same
  simp only [String.toList_append, List.append_assoc] at chars
  exact String.toList_inj.mp (List.append_cancel_left (List.append_cancel_left chars))

theorem readColumn_addEntity_congr {c c' : Combined} (same : readColumn c = readColumn c') (a : String)
    (e : Entity) : readColumn (addEntity c a e) = readColumn (addEntity c' a e) := by
  have insert {c c' : Combined} (same : readColumn c = readColumn c') (k : String) (v : Value) :
      readColumn (c.insert k v) = readColumn (c'.insert k v) := by
    funext key
    rw [readColumn_insert, readColumn_insert, same]
  unfold addEntity
  have start := insert same (qualified a "id") (.string e.id)
  generalize c.insert (qualified a "id") (.string e.id) = d at start
  generalize c'.insert (qualified a "id") (.string e.id) = d' at start
  generalize e.metadata.toList = fields
  induction fields generalizing d d' with
  | nil => exact start
  | cons kv rest ih => exact ih _ _ (insert start (qualified a kv.1) kv.2)

theorem readColumn_pads (aliases : List String) (c : Combined)
    (empty : ∀ a ∈ aliases, readColumn c (qualified a "id") = .null) :
    readColumn (aliases.foldl (fun c a => c.insert (qualified a "id") .null) c) = readColumn c := by
  induction aliases generalizing c with
  | nil => rfl
  | cons a rest ih =>
    rw [List.forall_mem_cons] at empty
    have same : readColumn (c.insert (qualified a "id") .null) = readColumn c := by
      funext key
      rw [readColumn_insert]
      split
      · rename_i here
        rw [← here, empty.1]
      · rfl
    rw [List.foldl_cons, ih _ (by rw [same]; exact empty.2), same]

end TronDB.Engine
