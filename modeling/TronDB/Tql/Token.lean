import TronDB.Core.Types
import TronDB.Lib.Lexing

/-! The tokens of TQL and its lexer. -/
namespace TronDB.Tql
open Lexing Lexing.Regex Binary

inductive Token where
  | hint (s : String)
  | fetch | search | from_ | where_ | and | or | limit | create | collection | with_ | within
  | dimensions | insert | into | values | vector | near | confidence | explain | null | true
  | false | edge | traverse | depth | to_ | delete | representation | model | tokenMetric | sparse
  | field | dateTime | text | tokenBool | tokenInt | tokenFloat | entityRef | index | on_
  | innerProduct | cosine | collocate | affinity | group | alter | drop | entity | demote | promote
  | tiers | warm | archive | decay | rate | tokenFloor | prune | exponential | linear | step
  | update | set | in_ | fields | using_ | modelPath | tokenDevice | tokenVectoriser
  | tokenEndpoint | tokenAuth | add | infer | confirm | returning | top | history | auto | edges
  | via | type | all | not | is | like | order | by_ | asc | desc | join | inner | left | right
  | full | as_ | of | transaction | valid | during | match_ | checkpoint | backup | restore
  | rename | import_
  | ident (s : String)
  | stringLit (s : String)
  | floatLit (v : F64)
  | intLit (n : Int64)
  | gte | lte | neq | arrow | dotDot | dash | star | comma | semicolon | lParen | rParen | lBracket
  | rBracket | eq | gt | lt | colon | dot
  deriving DecidableEq, Repr

def keywords : List (String × Token) :=
  [("FETCH", .fetch), ("SEARCH", .search), ("FROM", .from_), ("WHERE", .where_), ("AND", .and),
    ("OR", .or), ("LIMIT", .limit), ("CREATE", .create), ("COLLECTION", .collection),
    ("WITH", .with_), ("WITHIN", .within), ("DIMENSIONS", .dimensions), ("INSERT", .insert),
    ("INTO", .into), ("VALUES", .values), ("VECTOR", .vector), ("NEAR", .near),
    ("CONFIDENCE", .confidence), ("EXPLAIN", .explain), ("NULL", .null), ("TRUE", .true),
    ("FALSE", .false), ("EDGE", .edge), ("TRAVERSE", .traverse), ("DEPTH", .depth), ("TO", .to_),
    ("DELETE", .delete), ("REPRESENTATION", .representation), ("MODEL", .model),
    ("METRIC", .tokenMetric), ("SPARSE", .sparse), ("FIELD", .field), ("DATETIME", .dateTime),
    ("TEXT", .text), ("BOOL", .tokenBool), ("INT", .tokenInt), ("FLOAT", .tokenFloat),
    ("ENTITY_REF", .entityRef), ("INDEX", .index), ("ON", .on_), ("INNER_PRODUCT", .innerProduct),
    ("COSINE", .cosine), ("COLLOCATE", .collocate), ("AFFINITY", .affinity), ("GROUP", .group),
    ("ALTER", .alter), ("DROP", .drop), ("ENTITY", .entity), ("DEMOTE", .demote),
    ("PROMOTE", .promote), ("TIERS", .tiers), ("WARM", .warm), ("ARCHIVE", .archive),
    ("DECAY", .decay), ("RATE", .rate), ("FLOOR", .tokenFloor), ("PRUNE", .prune),
    ("EXPONENTIAL", .exponential), ("LINEAR", .linear), ("STEP", .step), ("UPDATE", .update),
    ("SET", .set), ("IN", .in_), ("FIELDS", .fields), ("USING", .using_),
    ("MODEL_PATH", .modelPath), ("DEVICE", .tokenDevice), ("VECTORISER", .tokenVectoriser),
    ("ENDPOINT", .tokenEndpoint), ("AUTH", .tokenAuth), ("ADD", .add), ("INFER", .infer),
    ("CONFIRM", .confirm), ("RETURNING", .returning), ("TOP", .top), ("HISTORY", .history),
    ("AUTO", .auto), ("EDGES", .edges), ("VIA", .via), ("TYPE", .type), ("ALL", .all),
    ("NOT", .not), ("IS", .is), ("LIKE", .like), ("ORDER", .order), ("BY", .by_), ("ASC", .asc),
    ("DESC", .desc), ("JOIN", .join), ("INNER", .inner), ("LEFT", .left), ("RIGHT", .right),
    ("FULL", .full), ("AS", .as_), ("OF", .of), ("TRANSACTION", .transaction), ("VALID", .valid),
    ("DURING", .during), ("MATCH", .match_), ("CHECKPOINT", .checkpoint), ("BACKUP", .backup),
    ("RESTORE", .restore), ("RENAME", .rename), ("IMPORT", .import_)]

def symbols : List (String × Token) :=
  [(">=", .gte), ("<=", .lte), ("!=", .neq), ("->", .arrow), ("..", .dotDot), ("-", .dash),
    ("*", .star), (",", .comma), (";", .semicolon), ("(", .lParen), (")", .rParen),
    ("[", .lBracket), ("]", .rBracket), ("=", .eq), (">", .gt), ("<", .lt), (":", .colon),
    (".", .dot)]

/-! ### The standard library -/

/-- `str::replace` of a text that is not empty; the number counts the letters of the last match
that are still to be passed over. -/
def replace (pattern by_ : List Char) : Nat → List Char → List Char
  | _, [] => []
  | matched + 1, _ :: rest => replace pattern by_ matched rest
  | 0, c :: rest =>
    if pattern.isPrefixOf (c :: rest) then by_ ++ replace pattern by_ (pattern.length - 1) rest
    else c :: replace pattern by_ 0 rest

def isWhitespace (c : Char) : Bool :=
  (9 ≤ c.val && c.val ≤ 13) || (0x2000 ≤ c.val && c.val ≤ 0x200A) ||
    [0x20, 0x85, 0xA0, 0x1680, 0x2028, 0x2029, 0x202F, 0x205F, 0x3000].contains c.val

def trim (s : List Char) : List Char :=
  ((s.dropWhile isWhitespace).reverse.dropWhile isWhitespace).reverse

def decimal (digits : List Char) : Nat := digits.foldl (fun n c => 10 * n + (c.toNat - 48)) 0

/-- A sign, if there is one, and what is behind it. -/
def signed : List Char → Bool × List Char
  | '-' :: rest => (true, rest)
  | '+' :: rest => (false, rest)
  | s => (false, s)

def parseInt (s : List Char) : Option Int :=
  let (negative, digits) := signed s
  if digits.isEmpty || !digits.all Char.isDigit then none
  else some (if negative then -(decimal digits : Int) else decimal digits)

def parseI64 (s : List Char) : Option Int64 :=
  match parseInt s with
  | none => none
  | some n => if -2 ^ 63 ≤ n ∧ n < 2 ^ 63 then some (Int64.ofInt n) else none

/-- The bits below the sign of the binary64 nearest to a quotient, ties to even. -/
def nearest (n d : Nat) : Nat :=
  if n = 0 then 0
  else
    let guess : Int := Nat.log2 n - Nat.log2 d
    let below := if 0 ≤ guess then n < d * 2 ^ guess.toNat else n * 2 ^ (-guess).toNat < d
    let e := max (if below then guess - 1 else guess) (-1022)
    let (p, q) := if e ≤ 52 then (n * 2 ^ (52 - e).toNat, d) else (n, d * 2 ^ (e - 52).toNat)
    let low := p / q
    let rest := p % q
    let significand := if q < 2 * rest ∨ (q = 2 * rest ∧ low % 2 = 1) then low + 1 else low
    -- the leading bit of the significand adds one to the exponent
    min ((e + 1022).toNat * 2 ^ 52 + significand) (0x7FF * 2 ^ 52)

/-- The exponent behind the digits, if nothing else is there. -/
def parseExponent : List Char → Option Int
  | [] => some 0
  | c :: rest => if c = 'e' ∨ c = 'E' then parseInt rest else none

def parseMagnitude (s : List Char) : Option Nat :=
  let name := s.map Char.toLower
  if name = "inf".toList ∨ name = "infinity".toList then some (0x7FF * 2 ^ 52)
  else if name = "nan".toList then some (0x7FF * 2 ^ 52 + 2 ^ 51)
  else
    let (whole, rest) := s.span Char.isDigit
    let (fraction, rest) := match rest with
      | '.' :: rest => rest.span Char.isDigit
      | _ => ([], rest)
    if whole = [] ∧ fraction = [] then none
    else (parseExponent rest).map fun e =>
      let n := decimal (whole ++ fraction)
      let e : Int := e - fraction.length
      if 0 ≤ e then nearest (n * 10 ^ e.toNat) 1 else nearest n (10 ^ (-e).toNat)

def parseF64 (s : List Char) : Option F64 :=
  let (negative, body) := signed s
  (parseMagnitude body).map fun m => ⟨UInt64.ofNat (if negative then 2 ^ 63 + m else m)⟩

example : parseF64 "0.8".toList = some ⟨0x3FE999999999999A⟩ ∧
    parseF64 "-1.5e3".toList = some ⟨0xC097700000000000⟩ := by decide +kernel

/-! ### Regular expressions -/

def char (c : Char) : Regex Char := one fun a => a = c

def anyOf (s : String) : Regex Char := one fun a => s.toList.contains a

def noneOf (s : String) : Regex Char := one fun a => !s.toList.contains a

def literal (s : String) : Regex Char := word (s.toList.map fun c a => a = c)

def caseless (s : String) : Regex Char := word (s.toList.map fun c a => a.toUpper = c.toUpper)

def digits : Regex Char := plus (one Char.isDigit)

def whitespace : Regex Char := plus (anyOf " \t\r\n\x0c")

def lineComment : Regex Char := seq (literal "--") (star (noneOf "\n"))

def blockComment : Regex Char :=
  seq (literal "/*") (seq (noneOf "+")
    (seq (star (alt (noneOf "*") (seq (char '*') (noneOf "/")))) (literal "*/")))

def hint : Regex Char := seq (literal "/*+") (seq (star (noneOf "*")) (literal "*/"))

def ident : Regex Char :=
  seq (one fun c => c.isAlpha || c = '_') (star (one fun c => c.isAlphanum || c = '_'))

def stringLit : Regex Char :=
  seq (char '\'') (seq (star (alt (noneOf "'\\") (seq (char '\\') (noneOf "\n")))) (char '\''))

def floatLit : Regex Char :=
  seq (opt (char '-')) (seq digits (seq (char '.') (seq digits
    (opt (seq (anyOf "eE") (seq (opt (anyOf "+-")) digits))))))

def intLit : Regex Char := seq (opt (char '-')) digits

/-! ### The lexer -/

/-- A text no token begins at, or a literal that cannot be converted. -/
inductive LexFailure where
  | lexerError (pos : Nat)
  | panic
  deriving DecidableEq, Repr

def stripQuotesAndUnescape (slice : List Char) : String :=
  let inner := (slice.drop 1).dropLast
  .ofList (replace ['\\', '\\'] ['\\'] 0 (replace ['\\', '\''] ['\''] 0 inner))

def hintText (slice : List Char) : String := .ofList (trim ((slice.drop 3).dropLast.dropLast))

abbrev TokenRule := Rule Char LexFailure Token

def skip (regex : Regex Char) (priority : Nat) : TokenRule := ⟨regex, priority, fun _ => .ok none⟩

def emit (regex : Regex Char) (priority : Nat) (token : List Char → Token) : TokenRule :=
  ⟨regex, priority, fun slice => .ok (some (token slice))⟩

def convert (regex : Regex Char) (priority : Nat) (token : List Char → Option Token) : TokenRule :=
  ⟨regex, priority, fun slice =>
    match token slice with
    | some token => .ok (some token)
    | none => .error .panic⟩

/-- Without a priority of its own a rule has two for each letter it asks for, and one for each
class. -/
def ahead : List TokenRule :=
  [skip whitespace 1, skip lineComment 4, skip blockComment 9,
    emit hint 5 fun slice => .hint (hintText slice)] ++
  keywords.map (fun keyword => emit (caseless keyword.1) 10 fun _ => keyword.2) ++
  [emit ident 1 fun slice => .ident (.ofList slice)]

def behind : List TokenRule :=
  [convert floatLit 3 fun slice => (parseF64 slice).map .floatLit,
    convert intLit 2 fun slice => (parseI64 slice).map .intLit] ++
  symbols.map fun symbol => emit (literal symbol.1) (2 * symbol.1.length) fun _ => symbol.2

def stringRule : TokenRule := emit stringLit 4 fun slice => .stringLit (stripQuotesAndUnescape slice)

def rules : List TokenRule := ahead ++ stringRule :: behind

def lex (pos : Nat) (input : List Char) : Except LexFailure (List (Token × Nat)) :=
  scan rules Char.utf8Size .lexerError 0 pos input

def lexer (input : String) : Except LexFailure (List (Token × Nat)) := lex 0 input.toList

example : lexer "or 'a'" = .ok [(.or, 0), (.stringLit "a", 3)] := by decide +kernel

end TronDB.Tql
