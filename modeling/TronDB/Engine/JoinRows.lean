import TronDB.Engine.JoinStandard
import TronDB.Engine.Reachability

/-! The rows JOIN pushes are the rows of the standard join, if none of its shortcuts is seen. -/
namespace TronDB.Engine
open TronDB.Core Binary Wal

/-! ### Loops that push rows -/

namespace JoinPlan

variable (p : JoinPlan)

/-- A loop over entities that stops with the row that reaches the limit. -/
def push (row : List Row → Entity → Option Row) : List Entity → List Row → List Row
  | [], rows => rows
  | e :: rest, rows =>
    match row rows e with
    | none => push row rest rows
    | some r =>
      let rows := rows ++ [r]
      if p.full rows then rows else push row rest rows

/-- What is shown of a combined row. -/
def columns (c : Combined) : String → Value := rowValue (projectJoinRow c p.fields)

theorem limited_map {α β : Type} (f : α → β) (xs : List α) :
    p.limited (xs.map f) = (p.limited xs).map f := by
  unfold limited
  cases p.limit with
  | none => rfl
  | some n => exact List.map_take.symm

theorem limited_short {α : Type} {xs : List α} (short : ∀ n, p.limit = some n → xs.length ≤ n) :
    p.limited xs = xs := by
  unfold limited
  cases limit : p.limit with
  | none => rfl
  | some n => exact List.take_of_length_le (short n limit)

section Full
variable {α : Type} {rows : List Row} {xs : List α} (length : rows.length = xs.length)

include length

theorem limited_full (fits : ∀ n, p.limit = some n → xs.length ≤ n) (reached : p.full rows = true)
    (later : List α) : p.limited (xs ++ later) = xs := by
  unfold full at reached
  unfold limited
  cases limit : p.limit with
  | none =>
    rw [limit] at reached
    cases reached
  | some n =>
    rw [limit, Option.any_some, decide_eq_true_iff, length] at reached
    exact List.take_left' (Nat.le_antisymm (fits n limit) reached)

theorem short_of_not_full (unreached : ¬ p.full rows = true) (n : Nat) (limit : p.limit = some n) :
    xs.length < n := by
  unfold full at unreached
  rw [limit, Option.any_some, decide_eq_true_iff, length] at unreached
  exact Nat.lt_of_not_le unreached

end Full

theorem single_row {r : Row} {given : List Combined} (now : [rowValue r] = given.map p.columns) :
    ∃ c, given = [c] ∧ p.columns c = rowValue r := by
  cases given with
  | nil => cases now
  | cons c more =>
    cases more with
    | nil => exact ⟨c, rfl, (List.cons.inj now).1.symm⟩
    | cons => cases (List.cons.inj now).2

/-- The loop pushes the rows of a definition that gives the same for each entity it comes to, and
starts before the limit if there are any. -/
theorem push_standard {row : List Row → Entity → Option Row} {given : Entity → List Combined}
    {before own : List Combined} {rows : List Row} (entities : List Entity)
    (same : rows.map rowValue = (p.limited (before ++ own)).map p.columns) (on : p.GoesOn before own)
    (room : own ++ entities.flatMap given ≠ [] → ∀ n, p.limit = some n → before.length < n)
    (each : ∀ earlier e later, entities = earlier ++ e :: later →
      p.GoesOn before (own ++ earlier.flatMap given) → ∀ rows : List Row,
        rows.map rowValue = (p.limited (before ++ (own ++ earlier.flatMap given))).map p.columns →
          (row rows e).toList.map rowValue = (given e).map p.columns) :
    (p.push row entities rows).map rowValue =
      (p.limited (before ++ (own ++ entities.flatMap given))).map p.columns := by
  induction entities generalizing own rows with
  | nil =>
    rw [List.flatMap_nil, List.append_nil]
    exact same
  | cons e rest ih =>
    have now := each [] e rest rfl (by simpa using on) rows (by simpa using same)
    unfold push
    cases pushed : row rows e with
    | none =>
      rw [pushed] at now
      have nothing : given e = [] := List.map_eq_nil_iff.mp now.symm
      rw [List.flatMap_cons, nothing, List.nil_append] at room ⊢
      refine ih same on room fun earlier e' later split => ?_
      have there := each (e :: earlier) e' later (by rw [split]; rfl)
      rwa [List.flatMap_cons, nothing, List.nil_append] at there
    | some r =>
      rw [pushed] at now
      obtain ⟨c, one, value⟩ := p.single_row now
      have next : own ++ (e :: rest).flatMap given = (own ++ [c]) ++ rest.flatMap given := by
        rw [List.flatMap_cons, one, List.append_assoc]
      have below : ∀ n, p.limit = some n → (before ++ own).length < n := by
        rcases on with rfl | below
        · intro n limit
          rw [List.append_nil]
          refine room ?_ n limit
          rw [List.nil_append, List.flatMap_cons, one]
          exact List.cons_ne_nil _ _
        · exact below
      have grown : (rows ++ [r]).map rowValue = (before ++ (own ++ [c])).map p.columns := by
        rw [p.limited_short fun n limit => (below n limit).le] at same
        rw [List.map_append, same]
        simp [value]
      have length : (rows ++ [r]).length = (before ++ (own ++ [c])).length := by
        have lengths := congrArg List.length grown
        rwa [List.length_map, List.length_map] at lengths
      have fits (n : Nat) (limit : p.limit = some n) : (before ++ (own ++ [c])).length ≤ n := by
        rw [← List.append_assoc, List.length_append]
        exact below n limit
      rw [next] at room ⊢
      dsimp only
      by_cases reached : p.full (rows ++ [r]) = true
      · have parts : before ++ ((own ++ [c]) ++ rest.flatMap given) =
            (before ++ (own ++ [c])) ++ rest.flatMap given := (List.append_assoc _ _ _).symm
        rw [if_pos reached, grown, parts, p.limited_full length fits reached]
      · rw [if_neg reached]
        have short := p.short_of_not_full length reached
        refine ih ?_ (.inr short) room fun earlier e' later split => ?_
        · rw [p.limited_short fun n limit => (short n limit).le]
          exact grown
        · have there := each (e :: earlier) e' later (by rw [split]; rfl)
          rwa [List.flatMap_cons, one, ← List.append_assoc own] at there

end JoinPlan

section Pushed
variable {s : State} (env : ReadEnv) (p : JoinPlan)

theorem leftRows_push (tables : FinMap String LookupTable) (lefts : List Entity) (rows : List Row) :
    s.leftRows env p tables lefts rows = p.push (fun _ left =>
      ((s.joinRow env p tables left p.joins (addEntity ∅ p.fromAlias left)).filter p.admits).map
        fun c => projectJoinRow c p.fields) lefts rows := by
  induction lefts generalizing rows with
  | nil => rfl
  | cons left rest ih =>
    unfold State.leftRows JoinPlan.push
    cases s.joinRow env p tables left p.joins (addEntity ∅ p.fromAlias left) with
    | none => exact ih rows
    | some combined =>
      cases admitted : p.admits combined with
      | false =>
        simp only [Option.filter_some, admitted, Bool.false_eq_true, if_false, Option.map_none]
        exact ih rows
      | true =>
        simp only [Option.filter_some, admitted, if_true, Option.map_some]
        split
        · rfl
        · exact ih _

/-- The row JOIN pushes for a right entity. -/
def JoinPlan.lonelyRow (join : JoinClause) (rows : List Row) (right : Entity) : Option Row :=
  if alreadyMatched rows join right then none
  else if p.admits (p.unmatchedRow join right) then some (projectJoinRow (p.unmatchedRow join right) p.fields)
  else none

theorem unmatchedRows_push (join : JoinClause) (rights : List Entity) (rows : List Row) :
    p.unmatchedRows join rights rows = p.push (p.lonelyRow join) rights rows := by
  induction rights generalizing rows with
  | nil => rfl
  | cons right rest ih =>
    unfold JoinPlan.unmatchedRows JoinPlan.push JoinPlan.lonelyRow
    split
    · exact ih rows
    · dsimp only
      split
      · dsimp only
        split
        · rfl
        · exact ih _
      · exact ih rows

end Pushed

/-! ### The blocks of the standard join -/

section Blocks
variable (p : JoinPlan) (store : Store)

namespace JoinPlan

theorem standardUpTo_snoc (before : List JoinClause) (join : JoinClause) :
    p.standardUpTo store (before ++ [join]) =
      (join.step store (p.aliasesOf before)).join (p.standardUpTo store before) := by
  unfold standardUpTo OuterJoin.joinAll
  rw [joinSteps_append, List.foldl_append]
  rfl

theorem filtered_append (rows more : List Binding) :
    p.filtered (rows ++ more) = p.filtered rows ++ p.filtered more := by
  unfold filtered
  rw [List.map_append, List.filter_append]

theorem filtered_flatten (blocks : List (List Binding)) :
    p.filtered blocks.flatten = (blocks.map p.filtered).flatten := by
  induction blocks with
  | nil => rfl
  | cons block rest ih => rw [List.flatten_cons, filtered_append, ih, List.map_cons, List.flatten_cons]

theorem filtered_flatMap {α : Type} (xs : List α) (f : α → List Binding) :
    p.filtered (xs.flatMap f) = xs.flatMap fun x => p.filtered (f x) := by
  rw [List.flatMap_def, filtered_flatten, List.map_map, List.flatMap_def]
  rfl

theorem lonelyBlocks_eq (rest before : List JoinClause) :
    p.lonelyBlocks store before rest = (OuterJoin.blocks (joinSteps store rest (p.aliasesOf before))
      (p.standardUpTo store before)).map p.filtered := by
  induction rest generalizing before with
  | nil => rfl
  | cons join rest ih =>
    have block : p.lonelyBlock store before join rest (store.partition join.collection) =
        p.filtered (((join.step store (p.aliasesOf before)).lonely (p.standardUpTo store before)).flatMap
          (OuterJoin.extendAll (joinSteps store rest (p.aliasesOf (before ++ [join]))))) := by
      have kept : (join.step store (p.aliasesOf before)).keepsEntries = join.joinType.keepsRight := rfl
      unfold lonelyBlock OuterJoin.Step.lonely
      rw [kept]
      cases join.joinType.keepsRight with
      | false => rfl
      | true =>
        rw [if_pos rfl, if_pos rfl, List.flatMap_map]
        rfl
    rw [lonelyBlocks, block, ih, joinSteps, OuterJoin.blocks, List.map_cons, standardUpTo_snoc,
      aliasesOf_snoc]

theorem standardBlocks_flatten :
    (p.standardBlocks store).flatten = p.filtered (p.standardUpTo store p.joins) := by
  have left : p.leftBlock store (store.partition p.fromCollection) = p.filtered
      ((p.fromRows store).flatMap (OuterJoin.extendAll (joinSteps store p.joins [p.fromAlias]))) := by
    unfold leftBlock fromRows
    rw [List.flatMap_map]
    rfl
  unfold standardUpTo standardBlocks
  rw [OuterJoin.joinAll_blocks, p.filtered_append, p.filtered_flatten, List.flatten_cons, left,
    lonelyBlocks_eq]
  rfl

theorem lonelyBlocks_get (before after pre : List JoinClause) (join : JoinClause) :
    (p.lonelyBlocks store pre (before ++ join :: after))[before.length]? =
      some (p.lonelyBlock store (pre ++ before) join after (store.partition join.collection)) := by
  induction before generalizing pre with
  | nil =>
    rw [List.append_nil]
    rfl
  | cons first rest ih =>
    have next := ih (pre ++ [first])
    rw [List.append_assoc] at next
    exact next

theorem length_lonelyBlocks (rest before : List JoinClause) :
    (p.lonelyBlocks store before rest).length = rest.length := by
  induction rest generalizing before with
  | nil => rfl
  | cons join rest ih => rw [lonelyBlocks, List.length_cons, List.length_cons, ih]

theorem rowsBefore_snoc {before after : List JoinClause} {join : JoinClause}
    (split : p.joins = before ++ join :: after) :
    p.rowsBefore store (before ++ [join]) = p.rowsBefore store before ++
      p.lonelyBlock store before join after (store.partition join.collection) := by
  have here := p.lonelyBlocks_get store before after [] join
  rw [← split, List.nil_append] at here
  have block : (p.standardBlocks store)[before.length + 1]? =
      some (p.lonelyBlock store before join after (store.partition join.collection)) := here
  unfold rowsBefore
  rw [List.length_append, List.length_singleton, List.take_add_one, block, List.flatten_append]
  simp

theorem rowsBefore_all : p.rowsBefore store p.joins = p.filtered (p.standardUpTo store p.joins) := by
  rw [← standardBlocks_flatten]
  unfold rowsBefore
  rw [List.take_of_length_le]
  rw [standardBlocks, List.length_cons, length_lonelyBlocks]

theorem lonelyBlock_flatMap {before after : List JoinClause} {join : JoinClause}
    (keeps : join.joinType.keepsRight = true) (rights : List Entity) :
    p.lonelyBlock store before join after rights = rights.flatMap fun right =>
      if p.joined store before join right then []
      else p.filtered (p.chainAlone store before join after right) := by
  unfold lonelyBlock
  rw [keeps, if_pos rfl, filtered_flatMap]
  induction rights with
  | nil => rfl
  | cons right rest ih =>
    rw [List.filter_cons, List.flatMap_cons, ← ih]
    cases p.joined store before join right <;> rfl

end JoinPlan
end Blocks

/-! ### The row of an entity alone -/

section Alone
variable {p : JoinPlan} {store : Store}

theorem combined_pads (aliases : List String) (b : Binding) :
    Binding.combined (b ++ aliases.map (·, none)) =
      aliases.foldl (fun c a => c.insert (qualified a "id") .null) b.combined := by
  induction aliases generalizing b with
  | nil => rw [List.map_nil, List.append_nil]; rfl
  | cons a rest ih =>
    rw [List.map_cons, List.append_cons, ih, combined_snoc]
    rfl

/-- The row of an entity alone and its padded row have the same columns. -/
theorem readColumn_unmatchedRow {before after : List JoinClause} {join : JoinClause} {right : Entity}
    (apart : ∀ j ∈ after, readColumn (p.unmatchedRow join right) (qualified j.aliasName "id") = .null) :
    readColumn (p.unmatchedRow join right) =
      readColumn (Binding.combined (p.paddedRow before join after right)) := by
  have shape : p.paddedRow before join after right =
      (([] ++ (p.aliasesOf before).map (·, none)) ++ [(join.aliasName, some right)]) ++
        (after.map JoinClause.aliasName).map (·, none) := by
    simp [JoinPlan.paddedRow]
  have nothing (aliases : List String) :
      readColumn (aliases.foldl (fun c a => c.insert (qualified a "id") .null) ∅) = readColumn ∅ :=
    readColumn_pads aliases ∅ fun a _ => by simp [readColumn]
  have front : readColumn (p.unmatchedRow join right) = readColumn (addEntity
      ((p.aliasesOf before).foldl (fun c a => c.insert (qualified a "id") .null) ∅)
      join.aliasName right) :=
    readColumn_addEntity_congr ((nothing [p.fromAlias]).trans (nothing _).symm) _ _
  rw [shape, combined_pads, combined_snoc, combined_pads, front]
  refine (readColumn_pads _ _ fun a there => ?_).symm
  obtain ⟨later, behind, rfl⟩ := List.mem_map.mp there
  exact (congrFun front _).symm.trans (apart later behind)

theorem alreadyMatched_rowValue (rows : List Row) (join : JoinClause) (right : Entity) :
    alreadyMatched rows join right =
      (rows.map rowValue).any fun column => column (qualified join.aliasName "id") = .string right.id := by
  unfold alreadyMatched
  rw [List.any_map]
  congr 1
  funext row
  unfold rowValue
  dsimp only [Function.comp_apply]
  rw [decide_eq_decide]
  cases row.values[qualified join.aliasName "id"]? with
  | none => simp
  | some v => simp

/-- What JOIN pushes for an entity it comes to is what the standard join has of it. -/
theorem lonelyRow_standard (unseen : ShortcutsUnseen p store) {before after : List JoinClause}
    {join : JoinClause} (split : p.joins = before ++ join :: after)
    (keeps : join.joinType.keepsRight = true) {earlier later : List Entity} {right : Entity}
    (place : store.partition join.collection = earlier ++ right :: later)
    (on : p.GoesOn (p.rowsBefore store before) (p.lonelyBlock store before join after earlier))
    {rows : List Row} (same : rows.map rowValue = (p.limited (p.rowsBefore store before ++
      p.lonelyBlock store before join after earlier)).map p.columns) :
    (p.lonelyRow join rows right).toList.map rowValue =
      (if p.joined store before join right then []
        else p.filtered (p.chainAlone store before join after right)).map p.columns := by
  have matched (admitted : p.admits (p.unmatchedRow join right) = true) :
      alreadyMatched rows join right = p.joined store before join right := by
    rw [← unseen.shown before join after split keeps earlier right later place on admitted,
      alreadyMatched_rowValue, alreadyMatched_rowValue, same, List.map_map]
    rfl
  unfold JoinPlan.lonelyRow
  cases lonely : p.joined store before join right with
  | true =>
    rw [lonely] at matched
    cases admitted : p.admits (p.unmatchedRow join right) with
    | true => rw [matched admitted]; rfl
    | false => split <;> rfl
  | false =>
    obtain ⟨made, padded, apart⟩ := unseen.alone before join after split keeps earlier right later place on lonely
    rw [lonely] at matched
    rw [made]
    cases admitted : p.admits (p.unmatchedRow join right) with
    | true =>
      rw [admitted] at padded
      obtain ⟨kept, passes⟩ := Bool.and_eq_true_iff.mp padded.symm
      rw [matched admitted, kept]
      have shown : p.columns (p.unmatchedRow join right) =
          p.columns (Binding.combined (p.paddedRow before join after right)) := by
        unfold JoinPlan.columns
        rw [rowValue_project, rowValue_project, readColumn_unmatchedRow apart]
      simpa [JoinPlan.filtered, passes] using (show rowValue (projectJoinRow _ _) = _ from shown)
    | false =>
      rw [admitted] at padded
      have dropped : p.filtered (if after.all fun j => j.joinType.keepsLeft then
          [p.paddedRow before join after right] else []) = [] := by
        cases kept : after.all fun j => j.joinType.keepsLeft with
        | false => rfl
        | true =>
          rw [kept, Bool.true_and] at padded
          simp [JoinPlan.filtered, ← padded]
      rw [dropped]
      split <;> rfl

end Alone

/-! ### All rows -/

section Right
variable {p : JoinPlan} {s : State}

theorem keepsRight_iff (t : JoinType) : t = .right ∨ t = .full ↔ t.keepsRight = true := by
  cases t <;> simp [JoinType.keepsRight]

theorem rightRows_standard (unseen : ShortcutsUnseen p s.store) (rest before : List JoinClause)
    (split : p.joins = before ++ rest) {rows : List Row}
    (same : rows.map rowValue = (p.limited (p.rowsBefore s.store before)).map p.columns) :
    (s.rightRows p rest rows).map rowValue =
      (p.limited (p.rowsBefore s.store p.joins)).map p.columns := by
  induction rest generalizing before rows with
  | nil =>
    rw [List.append_nil] at split
    rw [split]
    exact same
  | cons join rest ih =>
    have split' : p.joins = (before ++ [join]) ++ rest := by rw [split, List.append_cons]
    have next := p.rowsBefore_snoc s.store split
    unfold State.rightRows
    cases keeps : join.joinType.keepsRight with
    | false =>
      have empty : p.lonelyBlock s.store before join rest (s.store.partition join.collection) = [] := by
        rw [JoinPlan.lonelyBlock, keeps]
        rfl
      rw [if_neg fun either => Bool.false_ne_true (keeps.symm.trans ((keepsRight_iff _).mp either))]
      refine ih (before ++ [join]) split' ?_
      rw [next, empty, List.append_nil]
      exact same
    | true =>
      rw [if_pos ((keepsRight_iff _).mpr keeps), Store.scan]
      have block (rights : List Entity) : p.lonelyBlock s.store before join rest rights =
          rights.flatMap fun right => if p.joined s.store before join right then []
            else p.filtered (p.chainAlone s.store before join rest right) :=
        p.lonelyBlock_flatMap s.store keeps rights
      by_cases here : s.store.hasCollection join.collection = true
      · rw [if_pos here]
        dsimp only
        refine ih (before ++ [join]) split' ?_
        rw [unmatchedRows_push, next, block]
        rw [← List.nil_append (List.flatMap _ _)]
        refine p.push_standard (s.store.partition join.collection) ?_ (.inl rfl) ?_ ?_
        · rwa [List.append_nil]
        · rw [List.nil_append, ← block]
          exact unseen.starts before join rest split
        · intro earlier right later place on rows same
          rw [List.nil_append, ← block] at on same
          exact lonelyRow_standard unseen split keeps place on same
      · rw [if_neg here]
        dsimp only
        refine ih (before ++ [join]) split' ?_
        have missing : ¬ s.store.hasCollection join.collection = true := here
        have listed : join ∈ p.joins := split ▸ List.mem_append_right _ List.mem_cons_self
        have empty := ((unseen.present join listed).resolve_left missing).2
        rw [next, block, empty, List.flatMap_nil, List.append_nil]
        exact same

/-- The rows of the FROM entities are those the chain makes of them. -/
theorem leftRows_standard (env : ReadEnv) {tables : FinMap String LookupTable}
    (unseen : ShortcutsUnseen p s.store)
    (structural : ∀ join ∈ p.joins, join.confidenceThreshold = none)
    (table : ∀ a : String, tables[a]? = (p.tableOwner a).map fun owner =>
      lookupTable (s.store.partition owner.collection) owner.onRight.field) :
    (s.leftRows env p tables (s.store.partition p.fromCollection) []).map rowValue =
      (p.limited (p.rowsBefore s.store [])).map p.columns := by
  have block (lefts : List Entity) : p.leftBlock s.store lefts =
      lefts.flatMap fun left => p.filtered (p.chain s.store p.joins left) :=
    p.filtered_flatMap lefts _
  have rows : p.rowsBefore s.store [] = [] ++ ([] ++ (s.store.partition p.fromCollection).flatMap
      fun left => p.filtered (p.chain s.store p.joins left)) := by
    rw [← block]
    simp [JoinPlan.rowsBefore, JoinPlan.standardBlocks]
  rw [leftRows_push, rows]
  refine p.push_standard (s.store.partition p.fromCollection) ?_ (.inl rfl) ?_ ?_
  · have start : p.limited ([] : List Combined) = [] := p.limited_short fun n _ => Nat.zero_le n
    rw [List.append_nil, start]
    rfl
  · rw [List.nil_append, ← block]
    exact unseen.leftStarts
  · intro earlier left later place on rows _
    rw [List.nil_append, ← block] at on
    have partner := unseen.partner earlier left later place on
    have made := extendAll_joinRow (s := s) env p tables left p.joins [] (b := [(p.fromAlias, some left)])
      (List.mem_singleton_self _) structural
      (fun front join after split b come => partner front join after split b come)
      fun join listed => rightEntity_first env p left (unseen.present join listed) (structural join listed) table
    have chained : (p.chain s.store p.joins left).map Binding.combined =
        (s.joinRow env p tables left p.joins (addEntity ∅ p.fromAlias left)).toList := made
    unfold JoinPlan.filtered
    rw [chained]
    cases s.joinRow env p tables left p.joins (addEntity ∅ p.fromAlias left) with
    | none => rfl
    | some combined =>
      rw [Option.filter_some]
      cases admitted : p.admits combined with
      | false => simp [admitted]
      | true => simp [admitted, JoinPlan.columns]

/-- A structural JOIN returns the rows of the standard definition, if none of its shortcuts is
seen. -/
theorem join_standard (env : ReadEnv) (structural : ∀ join ∈ p.joins, join.confidenceThreshold = none)
    (unseen : ShortcutsUnseen p s.store) : JoinsStandardly s env p := by
  obtain ⟨tables, built, listed⟩ := rightLookupTables_ok s.store p.joins
    (fun join there byField => (unseen.present join there).resolve_right fun byId => byField byId.1)
    structural ∅
  have table (a : String) : tables[a]? = (p.tableOwner a).map fun owner =>
      lookupTable (s.store.partition owner.collection) owner.onRight.field := by
    rw [listed a]
    simp [JoinPlan.tableOwner]
  unfold JoinsStandardly executeJoin
  rw [built, Store.scan, if_pos unseen.fromPresent]
  refine ⟨_, rfl, ?_⟩
  dsimp only
  rw [rightRows_standard unseen p.joins [] rfl (leftRows_standard env unseen structural table),
    p.rowsBefore_all]
  unfold JoinPlan.standardRows
  dsimp only
  rw [unseen.ordered, p.limited_map, List.map_map, List.map_map]
  rfl

end Right

/-! ### Authors and their books -/

/-- Authors, and books with the ids of their authors. -/
def library (books : List (String × String)) : List Step :=
  ([.createCollection ⟨"authors", [], [], [], none⟩, .createCollection ⟨"books", [], [], [], none⟩,
    .insert ⟨"authors", ["id"], [.string "ann"], [], none, none⟩,
    .insert ⟨"authors", ["id"], [.string "bob"], [], none, none⟩] ++
    books.map fun book =>
      .insert ⟨"books", ["id", "by"], [.string book.1, .string book.2], [], none, none⟩ :
    List Write).map fun w => (Env.idle, w)

def booksOf (type : JoinType) : JoinClause := ⟨type, "books", "b", ⟨"a", "id"⟩, ⟨"b", "by"⟩, none⟩

def withBooks (type : JoinType) : JoinPlan := ⟨.all, "authors", "a", [booksOf type], none, [], some 4⟩

section Examples
attribute [local instance] headerOnly

/-- One book of a known author, one of an unknown. -/
def twoBooks : State := (library [("emma", "ann"), ("dune", "eve")]).foldl State.step (State.init default)

/-- What holds at each place of a list holds however it is split there. -/
theorem of_place {l : List Entity} {test : List Entity → Entity → Prop}
    (each : ∀ k : Fin l.length, test (l.take k) (l.get k)) {earlier later : List Entity} {e : Entity}
    (place : l = earlier ++ e :: later) : test earlier e := by
  subst place
  have here := each ⟨earlier.length, by simp⟩
  simpa using here

theorem join_standard_full : JoinsStandardly twoBooks .idle (withBooks .full) := by
  have only {before after : List JoinClause} {join : JoinClause}
      (split : [booksOf .full] = before ++ join :: after) :
      before = [] ∧ join = booksOf .full ∧ after = [] := by
    cases before with
    | nil =>
      cases split
      exact ⟨rfl, rfl, rfl⟩
    | cons first rest =>
      have short := congrArg List.length split
      simp at short
  have partner : ∀ left ∈ twoBooks.store.partition "authors",
      (twoBooks.store.partition "books").filter ((booksOf .full).holds [("a", some left)]) =
        ((withBooks .full).listed twoBooks.store (booksOf .full) left).take 1 := by
    decide
  have shown {earlier later : List Entity} {right : Entity}
      (place : twoBooks.store.partition "books" = earlier ++ right :: later) :=
    @of_place _ (fun earlier right =>
      alreadyMatched (((withBooks .full).limited ((withBooks .full).rowsBefore twoBooks.store [] ++
        (withBooks .full).lonelyBlock twoBooks.store [] (booksOf .full) [] earlier)).map
          fun c => projectJoinRow c .all) (booksOf .full) right =
        (withBooks .full).joined twoBooks.store [] (booksOf .full) right) (by decide) _ _ _ place
  have rows : ((withBooks .full).rowsBefore twoBooks.store []).length = 2 := by decide
  refine join_standard .idle (by decide) ?_
  constructor
  case fromPresent => decide
  case present => decide
  case partner =>
    intro earlier left later place _ before join after split b come
    obtain ⟨rfl, rfl, rfl⟩ := only split
    cases List.mem_singleton.mp come
    exact partner left (place ▸ List.mem_append_right _ List.mem_cons_self)
  case shown =>
    intro before join after split _ earlier right later place _ _
    obtain ⟨rfl, rfl, rfl⟩ := only split
    exact shown place
  case alone =>
    intro before join after split _ earlier right later _ _ _
    obtain ⟨rfl, rfl, rfl⟩ := only split
    exact ⟨rfl, rfl, fun j none_ => absurd none_ List.not_mem_nil⟩
  case ordered => rfl
  case leftStarts =>
    intro _ n bound
    cases bound
    decide
  case starts =>
    intro before join after split _ n bound
    obtain ⟨rfl, rfl, rfl⟩ := only split
    cases bound
    rw [rows]
    decide

/-- Of the two books of an author JOIN finds one. -/
theorem second_match_missed : ¬ JoinsStandardly ((library [("emma", "ann"), ("dune", "ann")]).foldl
    State.step (State.init default)) .idle (withBooks .inner) := by
  rintro ⟨r, ran, same⟩
  have one : ((executeJoin ((library [("emma", "ann"), ("dune", "ann")]).foldl
      State.step (State.init default)) .idle (withBooks .inner)).toOption.map
        fun r => r.rows.length) = some 1 := by decide
  have two : ((withBooks .inner).standardRows ((library [("emma", "ann"), ("dune", "ann")]).foldl
      State.step (State.init default)).store).length = 2 := by decide
  have lengths := congrArg List.length same
  rw [List.length_map, List.length_map, two] at lengths
  rw [ran] at one
  cases (Option.some.inj one).symm.trans lengths

end Examples
end TronDB.Engine
