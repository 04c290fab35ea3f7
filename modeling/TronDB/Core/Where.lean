import TronDB.Core.Types

/-! WHERE clauses and their evaluation on an entity. -/
namespace TronDB.Core
open Binary

inductive Literal where
  | string (s : String)
  | int (n : Int64)
  | float (f : F64)
  | bool (b : Bool)
  | null
  deriving DecidableEq, Repr

def literalToValue : Literal → Value
  | .string s => .string s
  | .int n => .int n
  | .float f => .float f
  | .bool b => .bool b
  | .null => .null

inductive WhereClause where
  | eq (field : String) (lit : Literal)
  | neq (field : String) (lit : Literal)
  | gt (field : String) (lit : Literal)
  | lt (field : String) (lit : Literal)
  | gte (field : String) (lit : Literal)
  | lte (field : String) (lit : Literal)
  | and (left right : WhereClause)
  | or (left right : WhereClause)
  | not (inner : WhereClause)
  | isNull (field : String)
  | isNotNull (field : String)
  | isIn (field : String) (values : List Literal)
  | like (field : String) (pattern : String)

def valueGt : Value → Value → Bool
  | .int x, .int y => y < x
  | .float x, .float y => x.gt y
  | .int x, .float y => (F64.ofInt x.toInt).gt y
  | .float x, .int y => x.gt (F64.ofInt y.toInt)
  | .string x, .string y => y < x
  | _, _ => false

def valueLt : Value → Value → Bool
  | .int x, .int y => x < y
  | .float x, .float y => x.lt y
  | .int x, .float y => (F64.ofInt x.toInt).lt y
  | .float x, .int y => x.lt (F64.ofInt y.toInt)
  | .string x, .string y => x < y
  | _, _ => false

/-- `%` stands for any sequence, `_` for any single character. -/
def likeMatchRecursive : List Char → List Char → Bool
  | [], value => value = []
  | '%' :: pattern, value => value.tails.any (likeMatchRecursive pattern)
  | '_' :: pattern, _ :: value => likeMatchRecursive pattern value
  | c :: pattern, v :: value => v = c && likeMatchRecursive pattern value
  | _ :: _, [] => false

def likeMatch (value pattern : String) : Bool := likeMatchRecursive pattern.toList value.toList

/-- The metadata value of a field passes the test; a missing field does not. -/
def Entity.fieldIs (e : Entity) (field : String) (test : Value → Bool) : Bool :=
  match e.metadata[field]? with
  | some v => test v
  | none => false

def entityMatches (e : Entity) : WhereClause → Bool
  | .eq field lit =>
    if field = "id" then (Value.string e.id).eq (literalToValue lit)
    else e.fieldIs field fun v => v.eq (literalToValue lit)
  | .gt field lit => e.fieldIs field fun v => valueGt v (literalToValue lit)
  | .lt field lit => e.fieldIs field fun v => valueLt v (literalToValue lit)
  | .gte field lit =>
    e.fieldIs field fun v => valueGt v (literalToValue lit) || v.eq (literalToValue lit)
  | .lte field lit =>
    e.fieldIs field fun v => valueLt v (literalToValue lit) || v.eq (literalToValue lit)
  | .and a b => entityMatches e a && entityMatches e b
  | .or a b => entityMatches e a || entityMatches e b
  | .neq field lit =>
    if field = "id" then !(Value.string e.id).eq (literalToValue lit)
    else match e.metadata[field]? with
      | some v => !v.eq (literalToValue lit)
      | none => true
  | .not inner => !entityMatches e inner
  | .isNull field =>
    if field = "id" then false
    else match e.metadata[field]? with
      | some v => v.eq .null
      | none => true
  | .isNotNull field =>
    if field = "id" then true else e.fieldIs field fun v => !v.eq .null
  | .isIn field values =>
    if field = "id" then values.any fun lit => (literalToValue lit).eq (.string e.id)
    else e.fieldIs field fun v => values.any fun lit => (literalToValue lit).eq v
  | .like field pattern =>
    if field = "id" then likeMatch e.id pattern
    else match e.metadata[field]? with
      | some (.string s) => likeMatch s pattern
      | _ => false

end TronDB.Core
