import TronDB.Core.Where
import TronDB.Lib.Parsing
import TronDB.Tql.Token

/-! What the parser of TQL does with single tokens, and how it reads a WHERE clause. -/
namespace TronDB.Tql
open TronDB.Core Binary
open Parsing

/-- What an error names: a text of its own, or the Debug form of a token or of what was seen. -/
inductive Mention where
  | text (s : String)
  | token (t : Token)
  | peeked (t : Option Token)
  deriving DecidableEq, Repr

instance : Coe String Mention := ⟨.text⟩

/-- The text of an unexpected end begins with the word expected. -/
inductive ParseError where
  | unexpectedToken (pos : Nat) (expected got : Mention)
  | unexpectedEof (expected : Mention)
  | invalidSyntax (message : String)
  | invalidQuery (message : String)
  | lexerError (pos : Nat)
  deriving DecidableEq, Repr

abbrev TokenParser (α : Type) := Parser (Token × Nat) ParseError α

def peek : TokenParser (Option Token) := Option.map Prod.fst <$> Parser.peek

def advance : TokenParser Unit := (fun _ => ()) <$> Parser.advance

/-- The next token is the one, and the one behind it the other. -/
def followed (first : Token → Bool) (second : Token) : TokenParser Bool :=
  (fun ts => match ts with
    | (t, _) :: (t', _) :: _ => first t && t' = second
    | _ => false) <$> Parser.rest

/-- Takes a token, which has to be one of those that are picked. -/
def picking {α : Type} (pick : Token → Option α) (expected eof : Mention) : TokenParser α := do
  match ← Parser.advance with
  | some (tok, pos) =>
    match pick tok with
    | some a => pure a
    | none => Parser.fail (.unexpectedToken pos expected (.token tok))
  | none => Parser.fail (.unexpectedEof eof)

def refuse {α : Type} (expected eof : String) : TokenParser α := do
  match ← Parser.peek with
  | some (tok, pos) => Parser.fail (.unexpectedToken pos expected (.token tok))
  | none => Parser.fail (.unexpectedEof eof)

def expect (expected : Token) : TokenParser Unit :=
  picking (fun tok => if tok = expected then some () else none) (.token expected) (.token expected)

def pickIdent : Token → Option String
  | .ident s => some s
  | _ => none

def expectIdent : TokenParser String := picking pickIdent "identifier" "identifier"

def pickName : Token → Option String
  | .ident s => some s
  | .sparse => some "sparse"
  | _ => none

def expectName : TokenParser String := picking pickName "identifier" "identifier"

def pickInt : Token → Option Int64
  | .intLit n => some n
  | _ => none

def expectInt : TokenParser Int64 := picking pickInt "integer" "integer"

def pickNumber : Token → Option F64
  | .floatLit f => some f
  | .intLit n => some (F64.ofInt n.toInt)
  | _ => none

def expectFloatOrInt : TokenParser F64 := picking pickNumber "number" "number"

def parseNumberAsF64 : TokenParser F64 := picking pickNumber "number" "number"

def pickString : Token → Option String
  | .stringLit s => some s
  | _ => none

def expectStringLit : TokenParser String := picking pickString "string literal" "string literal"

def pickLiteral : Token → Option Literal
  | .stringLit s => some (.string s)
  | .intLit n => some (.int n)
  | .floatLit f => some (.float f)
  | .true => some (.bool true)
  | .false => some (.bool false)
  | .null => some .null
  | _ => none

def parseLiteral : TokenParser Literal := picking pickLiteral "literal value" "literal"

/-- What a token is ahead of, if the token is there. -/
def given {α : Type} (t : Token) (p : TokenParser α) : TokenParser (Option α) := do
  if (← peek) = some t then
    advance
    some <$> p
  else pure none

def commaList {α : Type} (item : TokenParser α) : TokenParser (List α) := do
  let first ← item
  Parser.repeated (fun t => t.1 = .comma) item [first]

def inParens {α : Type} (p : TokenParser α) : TokenParser α := do
  expect .lParen
  let a ← p
  expect .rParen
  pure a

/-! ### WHERE -/

def pickFieldAfterDot : Token → Option String
  | .ident s => some s
  | .type => some "type"
  | .order => some "order"
  | .set => some "set"
  | .all => some "all"
  | .in_ => some "in"
  | .index => some "index"
  | .edge => some "edge"
  | .fields => some "fields"
  | .auto => some "auto"
  | .step => some "step"
  | .group => some "group"
  | _ => none

def expectWhereField : TokenParser String := do
  let first ← expectIdent
  match ← given .dot (picking pickFieldAfterDot "field name after dot" "field name after dot") with
  | some fieldPart => pure (first ++ "." ++ fieldPart)
  | none => pure first

/-- The literal behind an operator is read before the operator is looked at. -/
def parseOperator (field : String) : TokenParser WhereClause := do
  match ← Parser.advance with
  | none => Parser.fail (.unexpectedEof "operator")
  | some (op, pos) =>
    let lit ← parseLiteral
    match op with
    | .eq => pure (.eq field lit)
    | .neq => pure (.neq field lit)
    | .gt => pure (.gt field lit)
    | .lt => pure (.lt field lit)
    | .gte => pure (.gte field lit)
    | .lte => pure (.lte field lit)
    | _ => Parser.fail (.unexpectedToken pos "comparison operator" (.token op))

def parseComparison : TokenParser WhereClause := do
  let field ← expectWhereField
  match ← peek with
  | some .is =>
    advance
    match ← given .not (expect .null) with
    | some () => pure (.isNotNull field)
    | none =>
      expect .null
      pure (.isNull field)
  | some .in_ =>
    advance
    let values ← inParens (commaList parseLiteral)
    pure (.isIn field values)
  | some .like =>
    advance
    let pattern ← expectStringLit
    pure (.like field pattern)
  | _ => parseOperator field

def negation (t : Token × Nat) : Option (TokenParser (Option WhereClause)) :=
  if t.1 = .not then some (pure none) else none

def parseWhereComparison : TokenParser WhereClause := Parser.nest negation .not parseComparison

def connect (t : Token × Nat) (left : WhereClause) : Option (TokenParser WhereClause) :=
  match t.1 with
  | .and => some (.and left <$> parseWhereComparison)
  | .or => some (.or left <$> parseWhereComparison)
  | _ => none

def parseWhereClause : TokenParser WhereClause := do
  let left ← parseWhereComparison
  Parser.loop connect left

end TronDB.Tql
