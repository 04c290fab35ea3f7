import TronDB.Engine.State
import TronDB.Tql.Comments
import TronDB.Tql.Parser
import TronDB.Tql.Precedence

/-! The texts of the decay sweeper of the routing layer, and what the parser of TQL makes of them. -/
namespace TronDB.Routing
open TronDB.Core Tql Lexing

def sweepText (et : EdgeType) (edge : Edge) : String :=
  s!"DELETE EDGE {et.name} FROM '{edge.fromId}' TO '{edge.toId}';"

/-- A word with a blank behind it is read by itself. -/
theorem reading_word {w : List Char} {c : Char} {more rest : List Char} {token : Token}
    (word : w = c :: more) (noBlank : blank c = false) (noQuote : c ≠ '\'') (noSlash : c ≠ '/')
    (noDash : c ≠ '-')
    (alone : (munch rules (w ++ [' '])).map (fun best => (best.2, best.1.action w)) =
      some (w.length, .ok (some token))) :
    reading (w ++ ' ' :: rest) = (reading rest).behind [token] := by
  subst word
  obtain ⟨best, same, -⟩ := steady_other more noBlank noQuote noSlash noDash
  rw [same [' '] ⟨' ', [], rfl, .inr rfl⟩] at alone
  have here := same (' ' :: rest) ⟨' ', rest, rfl, .inr rfl⟩
  cases best with
  | none => cases alone
  | some best =>
    obtain ⟨rule, n⟩ := best
    obtain ⟨rfl, makes⟩ := Prod.mk.inj (Option.some.inj alone)
    rw [reading_token (List.cons_ne_nil _ _) here makes, reading_blank rfl]

/-- The words of the statement. -/
class SweepWords : Prop where
  delete : (munch rules ("DELETE".toList ++ [' '])).map
    (fun best => (best.2, best.1.action "DELETE".toList)) = some (6, .ok (some .delete))
  edge : (munch rules ("EDGE".toList ++ [' '])).map
    (fun best => (best.2, best.1.action "EDGE".toList)) = some (4, .ok (some .edge))
  from_ : (munch rules ("FROM".toList ++ [' '])).map
    (fun best => (best.2, best.1.action "FROM".toList)) = some (4, .ok (some .from_))
  to_ : (munch rules ("TO".toList ++ [' '])).map
    (fun best => (best.2, best.1.action "TO".toList)) = some (2, .ok (some .to_))
  semicolon : reading [';'] = .tokens [.semicolon]

instance sweepWords : SweepWords where
  delete := by decide +kernel
  edge := by decide +kernel
  from_ := by decide +kernel
  to_ := by decide +kernel
  semicolon := by decide +kernel

theorem reading_deleteEdge (rest : List Char) :
    reading ("DELETE".toList ++ ' ' :: ("EDGE".toList ++ ' ' :: rest)) =
      (reading rest).behind [.delete, .edge] := by
  have first (rest : List Char) : reading ("DELETE".toList ++ ' ' :: rest) =
      (reading rest).behind [.delete] :=
    reading_word rfl rfl (by decide) (by decide) (by decide) sweepWords.delete
  have second (rest : List Char) : reading ("EDGE".toList ++ ' ' :: rest) =
      (reading rest).behind [.edge] :=
    reading_word rfl rfl (by decide) (by decide) (by decide) sweepWords.edge
  rw [first, second, Reading.behind_behind]
  rfl

theorem parseDeleteEdge_reads {ts rest : List (Token × Nat)} {stmt : Statement UInt64 UInt32}
    (ran : parseDeleteEdge.run ts = .ok (stmt, rest)) : ∃ d, stmt = .deleteEdge d := by
  obtain ⟨_, _, -, ran⟩ := Parsing.Parser.run_bind_inv ran
  obtain ⟨edgeType, _, -, ran⟩ := Parsing.Parser.run_bind_inv ran
  obtain ⟨_, _, -, ran⟩ := Parsing.Parser.run_bind_inv ran
  obtain ⟨fromId, _, -, ran⟩ := Parsing.Parser.run_bind_inv ran
  obtain ⟨_, _, -, ran⟩ := Parsing.Parser.run_bind_inv ran
  obtain ⟨toId, _, -, ran⟩ := Parsing.Parser.run_bind_inv ran
  obtain ⟨_, _, -, ran⟩ := Parsing.Parser.run_bind_inv ran
  cases ran
  exact ⟨_, rfl⟩

theorem parseStatement_deleteEdge (p q : Nat) (ts : List (Token × Nat)) (count : Nat) :
    (parseStatement castU64 castU32 count).run ((.delete, p) :: (.edge, q) :: ts) =
      parseDeleteEdge.run ((.edge, q) :: ts) := by
  unfold parseStatement
  rw [Parsing.Parser.nest_base (by simp)]
  rfl

theorem lexed_behind {text rest : List Char} {first : List Token} {tokens : List (Token × Nat)}
    (words : reading text = (reading rest).behind first) (lexed : lex 0 text = .ok tokens) :
    ∃ more, tokens.map Prod.fst = first ++ more := by
  unfold reading at words
  rw [lexed] at words
  cases read : readingOf (lex 0 rest) with
  | tokens more =>
    rw [read] at words
    exact ⟨more, Reading.tokens.inj words⟩
  | lexerError =>
    rw [read] at words
    cases words
  | panic =>
    rw [read] at words
    cases words

/-- Whatever stands behind the first two words, nothing but a deletion of an edge is read. -/
theorem parse_deleteEdge {text : String} {rest : List Char} {stmt : Statement UInt64 UInt32}
    (begins : text.toList = "DELETE".toList ++ ' ' :: ("EDGE".toList ++ ' ' :: rest))
    (parsed : parse text = .ok stmt) : ∃ d, stmt = .deleteEdge d := by
  have words : reading text.toList = (reading rest).behind [.delete, .edge] := by
    rw [begins, reading_deleteEdge]
  unfold parse parseWith lexer at parsed
  cases lexed : lex 0 text.toList with
  | error e =>
    rw [lexed] at parsed
    cases parsed
  | ok tokens =>
    rw [lexed] at parsed
    obtain ⟨more, placed⟩ := lexed_behind words lexed
    obtain ⟨⟨_, p⟩, behind, rfl, rfl, second⟩ := List.map_eq_cons_iff.mp placed
    obtain ⟨⟨_, q⟩, ts, rfl, rfl, -⟩ := List.map_eq_cons_iff.mp second
    dsimp only at parsed
    unfold parseTokens at parsed
    rw [parseStatement_deleteEdge] at parsed
    cases ran : parseDeleteEdge.run ((.edge, q) :: ts) with
    | error e =>
      rw [ran] at parsed
      cases parsed
    | ok read =>
      obtain ⟨stmt', left⟩ := read
      rw [ran] at parsed
      cases left with
      | nil =>
        cases parsed
        exact parseDeleteEdge_reads ran
      | cons t left => cases parsed

theorem sweepText_words (et : EdgeType) (edge : Edge) :
    (sweepText et edge).toList = "DELETE".toList ++ ' ' :: ("EDGE".toList ++ ' ' ::
      (et.name.toList ++ ' ' :: ("FROM".toList ++ ' ' :: '\'' :: (edge.fromId.toList ++ '\'' :: ' ' ::
        ("TO".toList ++ ' ' :: '\'' :: (edge.toId.toList ++ ['\'', ';'])))))) := by
  unfold sweepText toString instToStringString
  simp

theorem parse_sweepText {et : EdgeType} {edge : Edge} {stmt : Statement UInt64 UInt32}
    (parsed : parse (sweepText et edge) = .ok stmt) : ∃ d, stmt = .deleteEdge d :=
  parse_deleteEdge (sweepText_words et edge) parsed

/-! ### Texts that are read as they are meant -/

/-- With a blank behind it, the name is read as an identifier. -/
def ReadAsIdent (name : String) : Prop :=
  ∃ c more, name.toList = c :: more ∧ (c.isAlpha || c = '_') = true ∧
    (munch rules (name.toList ++ [' '])).map (fun best => (best.2, best.1.action name.toList)) =
      some (name.toList.length, .ok (some (.ident name)))

def PlainId (id : LogicalId) : Prop := ∀ c ∈ id.toList, c ≠ '\'' ∧ c ≠ '\\'

theorem reading_ident {name : String} (ident : ReadAsIdent name) (rest : List Char) :
    reading (name.toList ++ ' ' :: rest) = (reading rest).behind [.ident name] := by
  obtain ⟨c, more, word, letter, alone⟩ := ident
  have other (d : Char) (none_ : (d.isAlpha || d = '_') = false) : c ≠ d := by
    rintro rfl
    cases none_.symm.trans letter
  have noBlank : blank c = false := by
    have none_ : ∀ d ∈ " \t\r\n\x0c".toList, (d.isAlpha || d = '_') = false := by simp
    cases blank_ : blank c with
    | false => rfl
    | true => exact absurd rfl (other c (none_ c (List.contains_iff_mem.mp blank_)))
  exact reading_word word noBlank (other _ rfl) (other _ rfl) (other _ rfl) alone

theorem reading_quoted {id : LogicalId} (plain : PlainId id) (rest : List Char) :
    reading ('\'' :: (id.toList ++ '\'' :: rest)) = (reading rest).behind [.stringLit id] := by
  have same : quoted id = '\'' :: (id.toList ++ ['\'']) := by
    unfold quoted
    congr 2
    have each : ∀ c ∈ id.toList, escape c = [c] := fun c there => by
      obtain ⟨quote, backslash⟩ := plain c there
      unfold escape
      rw [if_neg backslash, if_neg quote]
    rw [List.flatMap_congr each, List.flatMap_singleton']
  have text : '\'' :: (id.toList ++ '\'' :: rest) = quoted id ++ rest := by
    rw [same]
    simp
  unfold reading
  rw [text, lex_quoted, readingOf_cons, readingOf_lex]
  rfl

theorem reading_sweepText {et : EdgeType} (ident : ReadAsIdent et.name) (edge : Edge) :
    reading (sweepText et edge).toList = (reading ('\'' :: (edge.fromId.toList ++ '\'' :: ' ' ::
      ("TO".toList ++ ' ' :: '\'' :: (edge.toId.toList ++ ['\'', ';']))))).behind
        [.delete, .edge, .ident et.name, .from_] := by
  have from_ (rest : List Char) : reading ("FROM".toList ++ ' ' :: rest) =
      (reading rest).behind [.from_] :=
    reading_word rfl rfl (by decide) (by decide) (by decide) sweepWords.from_
  rw [sweepText_words, reading_deleteEdge, reading_ident ident, from_]
  simp only [Reading.behind_behind]
  rfl

theorem parse_rejected {text : String} (rejected : reading text.toList = .lexerError) :
    ∃ e, parse text = .error (.error e) := by
  unfold reading at rejected
  unfold parse parseWith lexer
  cases lexed : lex 0 text.toList with
  | ok tokens =>
    rw [lexed] at rejected
    cases rejected
  | error failure =>
    cases failure with
    | lexerError pos => exact ⟨_, rfl⟩
    | panic =>
      rw [lexed] at rejected
      cases rejected

theorem readsAs_deleteEdge (t f g : String) :
    ReadsAs (parseDeleteEdge (U := UInt64) (D := UInt32))
      [.edge, .ident t, .from_, .stringLit f, .to_, .stringLit g, .semicolon]
      (.deleteEdge ⟨t, f, g⟩) anything := by
  apply ReadsAs.advance
  apply (readsAs_expectIdent t).andThen
  apply (readsAs_expect .from_).andThen
  apply (readsAs_expectStringLit f).andThen
  apply (readsAs_expect .to_).andThen
  apply (readsAs_expectStringLit g).andThen
  exact (readsAs_expect .semicolon).bindNil readsAs_pure fun _ _ => trivial

theorem parse_plain {et : EdgeType} {edge : Edge} (ident : ReadAsIdent et.name)
    (from_ : PlainId edge.fromId) (to_ : PlainId edge.toId) :
    parse (sweepText et edge) = .ok (.deleteEdge ⟨et.name, edge.fromId, edge.toId⟩) := by
  have words : reading (sweepText et edge).toList = .tokens [.delete, .edge, .ident et.name, .from_,
      .stringLit edge.fromId, .to_, .stringLit edge.toId, .semicolon] := by
    have toWord (rest : List Char) : reading ("TO".toList ++ ' ' :: rest) =
        (reading rest).behind [.to_] :=
      reading_word rfl rfl (by decide) (by decide) (by decide) sweepWords.to_
    rw [reading_sweepText ident, reading_quoted from_, reading_blank rfl, toWord, reading_quoted to_,
      sweepWords.semicolon]
    rfl
  unfold reading at words
  unfold parse parseWith lexer
  cases lexed : lex 0 (sweepText et edge).toList with
  | error failure =>
    rw [lexed] at words
    cases failure <;> cases words
  | ok tokens =>
    rw [lexed] at words
    have placed : tokens.map Prod.fst = _ := Reading.tokens.inj words
    obtain ⟨⟨_, p⟩, behind, rfl, rfl, second⟩ := List.map_eq_cons_iff.mp placed
    have ran := readsAs_deleteEdge et.name edge.fromId edge.toId behind second [] trivial
    obtain ⟨⟨_, q⟩, ts, rfl, rfl, -⟩ := List.map_eq_cons_iff.mp second
    rw [List.append_nil] at ran
    dsimp only
    unfold parseTokens
    rw [parseStatement_deleteEdge, ran]
    rfl

end TronDB.Routing
