import TronDB.Lib.Connectives
import TronDB.Tql.Where

/-! What a WHERE clause is read as, and whether AND binds tighter than OR in it. -/
namespace TronDB.Tql
open TronDB.Core Parsing Connectives

/-! ### Reading tokens wherever they stand -/

/-- The tokens are read as the value, before anything that may follow them. -/
def ReadsAs {α : Type} (p : TokenParser α) (tokens : List Token) (a : α)
    (follow : Option Token → Prop) : Prop :=
  ∀ ts, ts.map Prod.fst = tokens → p.Reads ts a fun next => follow (next.map Prod.fst)

def anything (_ : Option Token) : Prop := True

section Reading
variable {α β : Type} {p : TokenParser α} {k : α → TokenParser β} {a : α} {b : β} {t : Token}
  {tokens more : List Token} {follow between : Option Token → Prop}

theorem readsAs_pure : ReadsAs (pure a) [] a follow := by
  intro ts placed
  rw [List.map_eq_nil_iff.mp placed]
  exact Parser.reads_pure

theorem ReadsAs.bind (first : ReadsAs p tokens a between) (second : ReadsAs (k a) more b follow)
    (joins : ∀ rest, follow rest.head? → between (more ++ rest).head?) :
    ReadsAs (p >>= k) (tokens ++ more) b follow := by
  intro ts placed
  obtain ⟨front, back, rfl, front_placed, back_placed⟩ := List.map_eq_append_iff.mp placed
  apply (first front front_placed).bind (second back back_placed)
  intro rest may
  have joined := joins (rest.map Prod.fst) (by simpa using may)
  rwa [← back_placed, ← List.map_append, List.head?_map] at joined

theorem ReadsAs.andThen (first : ReadsAs p tokens a anything)
    (second : ReadsAs (k a) more b follow) : ReadsAs (p >>= k) (tokens ++ more) b follow :=
  first.bind second fun _ _ => trivial

theorem ReadsAs.bindNil (first : ReadsAs p tokens a between) (second : ReadsAs (k a) [] b follow)
    (fewer : ∀ next, follow next → between next) : ReadsAs (p >>= k) tokens b follow := by
  rw [← List.append_nil tokens]
  exact first.bind second fun rest => fewer rest.head?

theorem ReadsAs.map (f : α → β) (read : ReadsAs p tokens a follow) :
    ReadsAs (f <$> p) tokens (f a) follow :=
  fun ts placed => (read ts placed).map f

theorem ReadsAs.mono (read : ReadsAs p tokens a between) (fewer : ∀ next, follow next → between next) :
    ReadsAs p tokens a follow :=
  fun ts placed => (read ts placed).mono fun _ may => fewer _ may

theorem ReadsAs.peek {k : Option Token → TokenParser β}
    (read : ReadsAs (k (some t)) (t :: tokens) b follow) :
    ReadsAs (peek >>= k) (t :: tokens) b follow := by
  intro ts placed rest may
  obtain ⟨first, ts, rfl, rfl, same⟩ := List.map_eq_cons_iff.mp placed
  exact read (first :: ts) placed rest may

theorem ReadsAs.advance {k : Unit → TokenParser β} (read : ReadsAs (k ()) tokens b follow) :
    ReadsAs (advance >>= k) (t :: tokens) b follow := by
  intro ts placed rest may
  obtain ⟨first, ts, rfl, rfl, same⟩ := List.map_eq_cons_iff.mp placed
  exact read ts same rest may

theorem readsAs_picking {pick : Token → Option α} (picked : pick t = some a)
    (expected eof : Mention) : ReadsAs (picking pick expected eof) [t] a anything := by
  intro ts placed rest _
  obtain ⟨⟨first, pos⟩, ts, rfl, rfl, same⟩ := List.map_eq_cons_iff.mp placed
  rw [List.map_eq_nil_iff.mp same]
  refine (Parser.run_bind_ok rfl).trans ?_
  dsimp only [List.head?, List.cons_append]
  rw [picked]
  rfl

theorem readsAs_expect (t : Token) : ReadsAs (expect t) [t] () anything :=
  readsAs_picking (if_pos rfl) _ _

theorem readsAs_expectIdent (s : String) : ReadsAs expectIdent [.ident s] s anything :=
  readsAs_picking (show pickIdent (.ident s) = some s from rfl) _ _

theorem readsAs_expectStringLit (s : String) : ReadsAs expectStringLit [.stringLit s] s anything :=
  readsAs_picking (show pickString (.stringLit s) = some s from rfl) _ _

theorem ReadsAs.given (read : ReadsAs p tokens a follow) :
    ReadsAs (given t p) (t :: tokens) (some a) follow := by
  apply ReadsAs.peek
  rw [if_pos rfl]
  exact (read.map some).advance

theorem readsAs_given_none : ReadsAs (given t p) [] none (· ≠ some t) := by
  intro ts placed rest may
  rw [List.map_eq_nil_iff.mp placed]
  have other : ¬ rest.head?.map Prod.fst = some t := may
  change Parser.run (if rest.head?.map Prod.fst = some t then _ else pure none) rest = _
  rw [if_neg other]
  rfl

theorem ReadsAs.inParens (read : ReadsAs p tokens a (· = some .rParen)) :
    ReadsAs (inParens p) (.lParen :: (tokens ++ [.rParen])) a anything := by
  apply (readsAs_expect .lParen).andThen
  apply read.bind
  · exact (readsAs_expect .rParen).bindNil readsAs_pure fun _ _ => trivial
  · simp

def commaTokens (word : α → List Token) (first : α) (items : List α) : List Token :=
  word first ++ items.flatMap fun a => .comma :: word a

theorem readsAs_commaList {word : α → List Token} (each : ∀ a, ReadsAs p (word a) a anything)
    (first : α) (items : List α) :
    ReadsAs (commaList p) (commaTokens word first items) (first :: items) (· ≠ some .comma) := by
  apply (each first).andThen
  suffices ∀ done, ReadsAs (Parser.repeated (fun t => t.1 = .comma) p done)
      (items.flatMap fun a => .comma :: word a) (done ++ items) (· ≠ some .comma) from this [first]
  induction items with
  | nil =>
    intro done ts placed
    rw [List.map_eq_nil_iff.mp placed, List.append_nil]
    apply Parser.reads_loop_nil
    intro t may
    have other : t.1 ≠ .comma := by simpa using may
    simp [other]
  | cons a items ih =>
    intro done ts placed
    rw [List.flatMap_cons, List.cons_append] at placed
    obtain ⟨comma, ts, rfl, comma_placed, same⟩ := List.map_eq_cons_iff.mp placed
    obtain ⟨front, back, rfl, front_placed, back_placed⟩ := List.map_eq_append_iff.mp same
    apply Parser.reads_loop_cons (p := (fun a => done ++ [a]) <$> p)
    · simp [comma_placed]
    · exact (each a front front_placed).map _
    · have others := ih (done ++ [a]) back back_placed
      rw [List.append_assoc] at others
      exact others
    · exact fun _ _ => trivial

end Reading

/-! ### The grammar of WHERE -/

/-- A name, with a second one behind a dot or without. -/
inductive WhereField where
  | plain (name : String)
  | qualified (first : String) (part : Token) (name : String)
      (names : pickFieldAfterDot part = some name)

inductive Operator where
  | eq | neq | gt | lt | gte | lte

inductive Comparison where
  | compare (field : WhereField) (op : Operator) (lit : Literal)
  | isNull (field : WhereField)
  | isNotNull (field : WhereField)
  | isIn (field : WhereField) (first : Literal) (more : List Literal)
  | like (field : WhereField) (pattern : String)

/-- A comparison and the number of NOTs before it. -/
structure Operand where
  nots : Nat
  comparison : Comparison

/-- Comparisons joined by AND and OR. -/
structure Chain where
  first : Operand
  more : List (Connective × Operand)

def WhereField.name : WhereField → String
  | .plain name => name
  | .qualified first _ name _ => first ++ "." ++ name

def WhereField.tokens : WhereField → List Token
  | .plain name => [.ident name]
  | .qualified first part _ _ => [.ident first, .dot, part]

def Operator.token : Operator → Token
  | .eq => .eq
  | .neq => .neq
  | .gt => .gt
  | .lt => .lt
  | .gte => .gte
  | .lte => .lte

def Operator.clause (field : String) (lit : Literal) : Operator → WhereClause
  | .eq => .eq field lit
  | .neq => .neq field lit
  | .gt => .gt field lit
  | .lt => .lt field lit
  | .gte => .gte field lit
  | .lte => .lte field lit

def literalToken : Literal → Token
  | .string s => .stringLit s
  | .int n => .intLit n
  | .float f => .floatLit f
  | .bool true => .true
  | .bool false => .false
  | .null => .null

def Comparison.tokens : Comparison → List Token
  | .compare field op lit => field.tokens ++ [op.token, literalToken lit]
  | .isNull field => field.tokens ++ [.is, .null]
  | .isNotNull field => field.tokens ++ [.is, .not, .null]
  | .isIn field first more => field.tokens ++
      .in_ :: .lParen :: (commaTokens (fun lit => [literalToken lit]) first more ++ [.rParen])
  | .like field pattern => field.tokens ++ [.like, .stringLit pattern]

def Comparison.clause : Comparison → WhereClause
  | .compare field op lit => op.clause field.name lit
  | .isNull field => .isNull field.name
  | .isNotNull field => .isNotNull field.name
  | .isIn field first more => .isIn field.name (first :: more)
  | .like field pattern => .like field.name pattern

def Operand.tokens (o : Operand) : List Token :=
  List.replicate o.nots .not ++ o.comparison.tokens

def connectiveToken : Connective → Token
  | .and => .and
  | .or => .or

def joinClauses : Connective → WhereClause → WhereClause → WhereClause
  | .and => .and
  | .or => .or

def Chain.tokens (s : Chain) : List Token :=
  s.first.tokens ++ s.more.flatMap fun (c, o) => connectiveToken c :: o.tokens

def Operand.clause (o : Operand) : WhereClause := WhereClause.not^[o.nots] o.comparison.clause

/-- Behind an operand that ends a conjunction stands the rest of the disjunction. -/
def standardFrom (left : WhereClause) : List (Connective × Operand) → WhereClause
  | [] => left
  | (.and, o) :: more => standardFrom (.and left o.clause) more
  | (.or, o) :: more => .or left (standardFrom o.clause more)

def Chain.standard (s : Chain) : WhereClause := standardFrom s.first.clause s.more

/-- What the loop makes of it: both connectives on one level, from the left. -/
def Chain.folded (s : Chain) : WhereClause :=
  s.more.foldl (fun left (c, o) => joinClauses c left o.clause) s.first.clause

/-! ### What the parser builds -/

theorem literal_picked (lit : Literal) : pickLiteral (literalToken lit) = some lit := by
  cases lit with
  | bool b => cases b <;> rfl
  | _ => rfl

theorem readsAs_literal (lit : Literal) :
    ReadsAs parseLiteral [literalToken lit] lit anything :=
  readsAs_picking (literal_picked lit) _ _

theorem readsAs_field (field : WhereField) :
    ReadsAs expectWhereField field.tokens field.name (· ≠ some .dot) := by
  cases field with
  | plain name =>
    apply (readsAs_expectIdent name).bindNil _ fun _ _ => trivial
    exact readsAs_given_none.bindNil readsAs_pure fun _ may => may
  | qualified first part name names =>
    apply (readsAs_expectIdent first).andThen
    exact (ReadsAs.given (readsAs_picking names _ _)).bindNil readsAs_pure fun _ _ => trivial

theorem readsAs_operator (field : String) (op : Operator) (lit : Literal) :
    ReadsAs (parseOperator field) [op.token, literalToken lit] (op.clause field lit) anything := by
  intro ts placed
  obtain ⟨⟨t, pos⟩, ts, rfl, rfl, same⟩ := List.map_eq_cons_iff.mp placed
  intro rest may
  have read := (readsAs_literal lit) ts same rest trivial
  cases op <;> exact Parser.run_bind_ok read

/-- What stands behind the field decides how the comparison goes on. -/
theorem readsAs_comparison (c : Comparison) :
    ReadsAs parseComparison c.tokens c.clause anything := by
  cases c with
  | compare field op lit =>
    apply (readsAs_field field).bind
    · apply ReadsAs.peek
      cases op <;> exact readsAs_operator _ _ lit
    · cases op <;> simp [Operator.token]
  | isNull field =>
    apply (readsAs_field field).bind
    · apply ReadsAs.peek
      apply ReadsAs.advance
      apply readsAs_given_none.bind
      · exact (readsAs_expect .null).bindNil readsAs_pure fun _ _ => trivial
      · simp
    · simp
  | isNotNull field =>
    apply (readsAs_field field).bind
    · apply ReadsAs.peek
      apply ReadsAs.advance
      exact (ReadsAs.given (readsAs_expect .null)).bindNil readsAs_pure fun _ _ => trivial
    · simp
  | isIn field first more =>
    apply (readsAs_field field).bind
    · apply ReadsAs.peek
      apply ReadsAs.advance
      have values := (readsAs_commaList readsAs_literal first more).mono
        (show ∀ next, next = some Token.rParen → next ≠ some .comma by simp)
      exact values.inParens.bindNil readsAs_pure fun _ _ => trivial
    · simp
  | like field pattern =>
    apply (readsAs_field field).bind
    · apply ReadsAs.peek
      apply ReadsAs.advance
      exact (readsAs_expectStringLit pattern).bindNil readsAs_pure fun _ _ => trivial
    · simp

theorem comparison_begins (c : Comparison) : ∃ name more, c.tokens = .ident name :: more := by
  cases c with
  | _ field => cases field <;> simp [Comparison.tokens, WhereField.tokens]

theorem readsAs_operand (o : Operand) :
    ReadsAs parseWhereComparison o.tokens o.clause anything := by
  obtain ⟨nots, c⟩ := o
  induction nots with
  | zero =>
    intro ts placed rest may
    obtain ⟨name, more, begins⟩ := comparison_begins c
    have ident : ∃ pos us, ts = (.ident name, pos) :: us := by
      simp only [Operand.tokens, List.replicate_zero, List.nil_append, begins] at placed
      obtain ⟨⟨t, pos⟩, us, same, rfl, _⟩ := List.map_eq_cons_iff.mp placed
      exact ⟨pos, us, same⟩
    obtain ⟨pos, us, rfl⟩ := ident
    rw [parseWhereComparison, Parser.nest_base (by simp [negation])]
    exact readsAs_comparison c _ placed rest may
  | succ nots ih =>
    intro ts placed rest may
    rw [Operand.tokens, List.replicate_succ, List.cons_append] at placed
    obtain ⟨⟨t, pos⟩, ts, rfl, rfl, same⟩ := List.map_eq_cons_iff.mp placed
    have prefixed : negation (.not, pos) = some (pure none) := rfl
    rw [parseWhereComparison, List.cons_append, Parser.nest_prefix prefixed rfl]
    have read := (ih.map WhereClause.not) ts same rest may
    rw [Operand.clause, Function.iterate_succ_apply']
    exact read

theorem connect_join (c : Connective) (pos : Nat) (left : WhereClause) :
    connect (connectiveToken c, pos) left = some (joinClauses c left <$> parseWhereComparison) := by
  cases c <;> rfl

def ends (next : Option Token) : Prop := next ≠ some .and ∧ next ≠ some .or

/-- The loop folds the operands from the left. -/
theorem readsAs_connected (left : WhereClause) (more : List (Connective × Operand)) :
    ReadsAs (Parser.loop connect left) (more.flatMap fun (c, o) => connectiveToken c :: o.tokens)
      (more.foldl (fun left (c, o) => joinClauses c left o.clause) left) ends := by
  induction more generalizing left with
  | nil =>
    intro ts placed
    rw [List.map_eq_nil_iff.mp placed]
    apply Parser.reads_loop_nil
    intro t may
    simp only [ends, Option.map_some, ne_eq, Option.some.injEq] at may
    rw [connect]
    split <;> simp_all
  | cons item more ih =>
    obtain ⟨c, o⟩ := item
    intro ts placed
    rw [List.flatMap_cons, List.cons_append] at placed
    obtain ⟨⟨t, pos⟩, ts, rfl, rfl, same⟩ := List.map_eq_cons_iff.mp placed
    obtain ⟨front, back, rfl, front_placed, back_placed⟩ := List.map_eq_append_iff.mp same
    apply Parser.reads_loop_cons (connect_join c pos left)
    · exact (readsAs_operand o).map (joinClauses c left) front front_placed
    · exact ih _ back back_placed
    · exact fun _ _ => trivial

theorem readsAs_chain (s : Chain) : ReadsAs parseWhereClause s.tokens s.folded ends :=
  (readsAs_operand s.first).andThen (readsAs_connected _ s.more)

/-! ### Truth -/

def comparisons : WhereClause → List WhereClause
  | .and left right | .or left right => comparisons left ++ comparisons right
  | .not inner => comparisons inner
  | clause => [clause]

/-- The truth of a clause when these are the truth values of its comparisons, the first of which
has the number. -/
def truth (v : Nat → Bool) (first : Nat) : WhereClause → Bool
  | .and left right => truth v first left && truth v (first + (comparisons left).length) right
  | .or left right => truth v first left || truth v (first + (comparisons left).length) right
  | .not inner => !truth v first inner
  | _ => v first

theorem truth_entityMatches (e : Entity) (v : Nat → Bool) (clause : WhereClause) (first : Nat)
    (given : ∀ i, ((comparisons clause)[i]?).all fun leaf => v (first + i) = entityMatches e leaf) :
    truth v first clause = entityMatches e clause := by
  induction clause generalizing first with
  | and left right ihl ihr | or left right ihl ihr =>
    have fore := ihl first fun i => by
      have one := given i
      rw [comparisons] at one
      by_cases inside : i < (comparisons left).length
      · rwa [List.getElem?_append_left inside] at one
      · simp [List.getElem?_eq_none (not_lt.mp inside)]
    have hind := ihr (first + (comparisons left).length) fun i => by
      have one := given ((comparisons left).length + i)
      rwa [comparisons, List.getElem?_append_right (by omega), Nat.add_sub_cancel_left,
        ← Nat.add_assoc] at one
    simp [truth, entityMatches, fore, hind]
  | not inner ih => simp [truth, entityMatches, ih first given]
  | _ => simpa [comparisons, truth] using given 0

/-- The truth of an operand, of that of its comparison. -/
def Operand.value (o : Operand) (b : Bool) : Bool := Bool.not^[o.nots] b

theorem Operand.value_value (o : Operand) (b : Bool) : o.value (o.value b) = b := by
  have undone : Function.LeftInverse Bool.not Bool.not := Bool.not_not
  exact undone.iterate o.nots b

theorem comparisons_operand (o : Operand) : comparisons o.clause = [o.comparison.clause] := by
  obtain ⟨nots, c⟩ := o
  induction nots with
  | zero =>
    cases c with
    | compare field op lit => cases op <;> rfl
    | _ => rfl
  | succ nots ih =>
    rw [Operand.clause, Function.iterate_succ_apply']
    exact ih

theorem truth_operand (v : Nat → Bool) (first : Nat) (o : Operand) :
    truth v first o.clause = o.value (v first) := by
  obtain ⟨nots, c⟩ := o
  induction nots with
  | zero =>
    cases c with
    | compare field op lit => cases op <;> rfl
    | _ => rfl
  | succ nots ih =>
    rw [Operand.clause, Operand.value, Function.iterate_succ_apply', Function.iterate_succ_apply']
    exact congrArg Bool.not ih

/-- The truth values of the operands, the first of which has the number. -/
def valued (v : Nat → Bool) : Nat → List (Connective × Operand) → List (Connective × Bool)
  | _, [] => []
  | first, (c, o) :: more => (c, o.value (v first)) :: valued v (first + 1) more

section Truth
variable (v : Nat → Bool) (first : Nat)

theorem comparisons_join (c : Connective) (left : WhereClause) (o : Operand) :
    (comparisons (joinClauses c left o.clause)).length = (comparisons left).length + 1 := by
  cases c <;> simp [joinClauses, comparisons, comparisons_operand]

theorem truth_join (c : Connective) (left : WhereClause) (o : Operand) :
    truth v first (joinClauses c left o.clause) =
      c.apply (truth v first left) (o.value (v (first + (comparisons left).length))) := by
  cases c <;> simp [joinClauses, truth, truth_operand, Connective.apply]

theorem truth_foldl (left : WhereClause) (more : List (Connective × Operand)) :
    truth v first (more.foldl (fun left (c, o) => joinClauses c left o.clause) left) =
      leftValue (truth v first left) (valued v (first + (comparisons left).length) more) := by
  induction more generalizing left with
  | nil => rfl
  | cons item more ih =>
    obtain ⟨c, o⟩ := item
    rw [List.foldl_cons, ih, comparisons_join, truth_join]
    rfl

theorem truth_standardFrom (left : WhereClause) (more : List (Connective × Operand)) :
    truth v first (standardFrom left more) =
      standardValue (truth v first left) (valued v (first + (comparisons left).length) more) := by
  induction more generalizing first left with
  | nil => rfl
  | cons item more ih =>
    obtain ⟨c, o⟩ := item
    cases c with
    | and =>
      have joined := truth_join v first .and left o
      have length := comparisons_join .and left o
      simp only [joinClauses] at joined length
      rw [standardFrom, ih, length, joined]
      rfl
    | or =>
      rw [standardFrom, truth, ih, truth_operand, comparisons_operand]
      rfl

theorem truth_folded (s : Chain) :
    truth v 0 s.folded = leftValue (s.first.value (v 0)) (valued v 1 s.more) := by
  rw [Chain.folded, truth_foldl, truth_operand, comparisons_operand]
  rfl

theorem truth_standard (s : Chain) :
    truth v 0 s.standard = standardValue (s.first.value (v 0)) (valued v 1 s.more) := by
  rw [Chain.standard, truth_standardFrom, truth_operand, comparisons_operand]
  rfl

theorem valued_connectives (more : List (Connective × Operand)) :
    (valued v first more).map Prod.fst = more.map Prod.fst := by
  induction more generalizing first with
  | nil => rfl
  | cons item more ih => simp [valued, ih]

end Truth

theorem exists_valued (more : List (Connective × Operand)) (values : List (Connective × Bool))
    (same : values.map Prod.fst = more.map Prod.fst) (first : Nat) (before : Nat → Bool) :
    ∃ v, (∀ i < first, v i = before i) ∧ valued v first more = values := by
  induction more generalizing values first before with
  | nil => exact ⟨before, fun _ _ => rfl, (List.map_eq_nil_iff.mp same).symm⟩
  | cons item more ih =>
    obtain ⟨c, o⟩ := item
    obtain ⟨⟨c', b⟩, values, rfl, rfl, rest⟩ := List.map_eq_cons_iff.mp same
    obtain ⟨v, kept, reached⟩ :=
      ih values rest (first + 1) (fun i => if i = first then o.value b else before i)
    refine ⟨v, ?_, ?_⟩
    · intro i less
      rw [kept i (by omega), if_neg (by omega)]
    · rw [valued, reached, kept first (by omega), if_pos rfl, Operand.value_value]

def Chain.connectives (s : Chain) : List Connective := s.more.map Prod.fst

/-- The truth values an entity gives the comparisons of a clause. -/
def valuesOn (e : Entity) (clause : WhereClause) (i : Nat) : Bool :=
  ((comparisons clause)[i]?).any (entityMatches e)

theorem truth_valuesOn (e : Entity) (clause : WhereClause) :
    truth (valuesOn e clause) 0 clause = entityMatches e clause := by
  apply truth_entityMatches
  intro i
  rw [Nat.zero_add, valuesOn]
  cases (comparisons clause)[i]? <;> simp

theorem folded_eq_standard_iff (s : Chain) :
    (∀ v, truth v 0 s.folded = truth v 0 s.standard) ↔ AndsFirst s.connectives := by
  rw [← leftValue_eq_standardValue_iff]
  constructor
  · intro agree b values same
    obtain ⟨v, first, reached⟩ := exists_valued s.more values same 1 fun _ => s.first.value b
    have both := agree v
    rwa [truth_folded, truth_standard, first 0 (by omega), Operand.value_value, reached] at both
  · intro agree v
    rw [truth_folded, truth_standard]
    exact agree _ _ (valued_connectives v 1 s.more)

/-- The clause that is built is true of what the standard reading is true of, whatever the
comparisons are worth, when no AND stands behind an OR, and only then. -/
theorem where_precedence_iff (s : Chain) {ts rest : List (Token × Nat)}
    (written : ts.map Prod.fst = s.tokens) (stop : ends (rest.head?.map Prod.fst)) :
    ∃ clause, parseWhereClause.run (ts ++ rest) = .ok (clause, rest) ∧
      (∀ e, entityMatches e clause = truth (valuesOn e clause) 0 clause) ∧
      ((∀ v, truth v 0 clause = truth v 0 s.standard) ↔ AndsFirst s.connectives) :=
  ⟨s.folded, readsAs_chain s ts written rest stop, fun e => (truth_valuesOn e s.folded).symm,
    folded_eq_standard_iff s⟩

def equals (field : String) : Operand := ⟨0, .compare (.plain field) .eq (.int 1)⟩

def andOr : Chain := ⟨{ equals "a" with nots := 1 }, [(.and, equals "b"), (.or, equals "c")]⟩

def place (token : Token) : Token × Nat := (token, 0)

theorem where_precedence_and_or :
    ∃ clause, parseWhereClause.run (andOr.tokens.map place ++ [(.semicolon, 9)]) =
        .ok (clause, [(.semicolon, 9)]) ∧
      (∀ e, entityMatches e clause = truth (valuesOn e clause) 0 clause) ∧
      ((∀ v, truth v 0 clause = truth v 0 andOr.standard) ↔ AndsFirst andOr.connectives) :=
  where_precedence_iff andOr rfl (by simp [ends])

def orAnd : Chain := ⟨equals "a", [(.or, equals "b"), (.and, equals "c")]⟩

/-- With the first comparison true and the others false the standard reading of
`a = 1 OR b = 1 AND c = 1` is true, and what is built is false. -/
theorem or_before_and :
    ∃ clause, parseWhereClause.run
        [(.ident "a", 0), (.eq, 2), (.intLit 1, 4), (.or, 6), (.ident "b", 9), (.eq, 11),
          (.intLit 1, 13), (.and, 15), (.ident "c", 19), (.eq, 21), (.intLit 1, 23)] =
        .ok (clause, []) ∧
      truth (fun i => i = 0) 0 clause = false ∧ truth (fun i => i = 0) 0 orAnd.standard = true :=
  ⟨orAnd.folded, rfl, by decide, by decide⟩

end TronDB.Tql
