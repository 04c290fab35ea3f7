import TronDB.Tql.Token

/-! Texts written as string literals and read back. -/
namespace TronDB.Tql
open Lexing Lexing.Regex

/-- A backslash is doubled, and one is put ahead of a quote. -/
def escape (c : Char) : List Char :=
  if c = '\\' then ['\\', '\\'] else if c = '\'' then ['\\', '\''] else [c]

def quoted (s : String) : List Char := '\'' :: (s.toList.flatMap escape ++ ['\''])

/-! ### Unescaping -/

/-- A text in which backslashes are doubled and quotes stand alone. -/
def doubled (s : List Char) : List Char := s.flatMap fun c => if c = '\\' then ['\\', '\\'] else [c]

theorem escape_cases (c : Char) : c = '\\' ∧ escape c = ['\\', '\\'] ∨
    c = '\'' ∧ escape c = ['\\', '\''] ∨ (c ≠ '\\' ∧ c ≠ '\'') ∧ escape c = [c] := by
  unfold escape
  by_cases backslash : c = '\\'
  · exact .inl ⟨backslash, if_pos backslash⟩
  · rw [if_neg backslash]
    by_cases quote : c = '\''
    · exact .inr (.inl ⟨quote, if_pos quote⟩)
    · exact .inr (.inr ⟨⟨backslash, quote⟩, if_neg quote⟩)

theorem head_escaped (s : List Char) : (s.flatMap escape).head? ≠ some '\'' := by
  cases s with
  | nil => exact nofun
  | cons c rest =>
    rw [List.flatMap_cons]
    rcases escape_cases c with ⟨-, escaped⟩ | ⟨-, escaped⟩ | ⟨⟨-, quote⟩, escaped⟩ <;> rw [escaped]
    · exact fun same => absurd (Option.some.inj same) (by decide)
    · exact fun same => absurd (Option.some.inj same) (by decide)
    · exact fun same => quote (Option.some.inj same)

theorem replace_other {pattern by_ : List Char} {a c : Char} (starts : pattern.head? = some a)
    (other : c ≠ a) (rest : List Char) :
    replace pattern by_ 0 (c :: rest) = c :: replace pattern by_ 0 rest := by
  cases pattern with
  | nil => cases starts
  | cons b pattern =>
    cases starts
    have never : (a :: pattern).isPrefixOf (c :: rest) = false := by
      simp [List.isPrefixOf, Ne.symm other]
    rw [replace, never, if_neg Bool.false_ne_true]

theorem replace_quotes (s : List Char) :
    replace ['\\', '\''] ['\''] 0 (s.flatMap escape) = doubled s := by
  induction s with
  | nil => rfl
  | cons c rest ih =>
    rw [List.flatMap_cons, doubled, List.flatMap_cons, ← doubled, ← ih]
    rcases escape_cases c with ⟨rfl, escaped⟩ | ⟨rfl, escaped⟩ | ⟨⟨backslash, -⟩, escaped⟩
    · -- neither of two backslashes has a quote behind it
      rw [escaped]
      have second : ['\\', '\''].isPrefixOf ('\\' :: rest.flatMap escape) = false := by
        have head := head_escaped rest
        cases h : rest.flatMap escape with
        | nil => rfl
        | cons b more =>
          rw [h] at head
          have other : b ≠ '\'' := fun same => head (congrArg some same)
          simp [List.isPrefixOf, Ne.symm other]
      have first : replace ['\\', '\''] ['\''] 0 ('\\' :: '\\' :: rest.flatMap escape) =
          '\\' :: replace ['\\', '\''] ['\''] 0 ('\\' :: rest.flatMap escape) := rfl
      rw [List.cons_append, List.cons_append, List.nil_append, first, replace, second,
        if_neg Bool.false_ne_true]
      rfl
    · rw [escaped]
      rfl
    · rw [escaped, List.cons_append, List.nil_append, replace_other rfl backslash, if_neg backslash]
      rfl

theorem replace_doubled (s : List Char) : replace ['\\', '\\'] ['\\'] 0 (doubled s) = s := by
  induction s with
  | nil => rfl
  | cons c rest ih =>
    rw [doubled, List.flatMap_cons, ← doubled]
    by_cases backslash : c = '\\'
    · subst backslash
      exact congrArg _ ih
    · rw [if_neg backslash, List.cons_append, List.nil_append, replace_other rfl backslash, ih]

theorem unescape_quoted (s : String) : stripQuotesAndUnescape (quoted s) = s := by
  have inner : ((quoted s).drop 1).dropLast = s.toList.flatMap escape := by
    rw [quoted, List.drop_one, List.tail_cons, List.dropLast_concat]
  unfold stripQuotesAndUnescape
  dsimp only
  rw [inner, replace_quotes, replace_doubled]
  exact String.ofList_toList

/-! ### The literal -/

/-- A letter of a literal, or one that is escaped. -/
def LiteralPart (u : List Char) : Prop := (∃ c, c ≠ '\'' ∧ c ≠ '\\' ∧ u = [c]) ∨ ∃ c, c ≠ '\n' ∧ u = ['\\', c]

theorem mem_char (c : Char) (w : List Char) : w ∈ (char c).language ↔ w = [c] := by
  simp [char, mem_one]

theorem mem_literalPart (u : List Char) :
    u ∈ (alt (noneOf "'\\") (seq (char '\\') (noneOf "\n"))).language ↔ LiteralPart u := by
  rw [mem_alt, mem_seq, noneOf, mem_one, noneOf, LiteralPart]
  refine or_congr (exists_congr fun c => ?_) ⟨?_, ?_⟩
  · simp [and_assoc]
  · rintro ⟨slash, first, v, ⟨c, other, rfl⟩, rfl⟩
    rw [(mem_char _ _).mp first]
    exact ⟨c, by simpa using other, rfl⟩
  · rintro ⟨c, other, rfl⟩
    exact ⟨['\\'], (mem_char _ _).mpr rfl, [c], ⟨c, by simpa using other, rfl⟩, rfl⟩

theorem mem_stringLit (w : List Char) : w ∈ stringLit.language ↔
    ∃ parts : List (List Char), (∀ u ∈ parts, LiteralPart u) ∧ w = '\'' :: (parts.flatten ++ ['\'']) := by
  simp only [stringLit, mem_seq, mem_char, mem_star, mem_literalPart]
  constructor
  · rintro ⟨_, rfl, _, ⟨_, ⟨parts, rfl, all⟩, _, rfl, rfl⟩, rfl⟩
    exact ⟨parts, all, rfl⟩
  · rintro ⟨parts, all, rfl⟩
    exact ⟨_, rfl, _, ⟨_, ⟨parts, rfl, all⟩, _, rfl, rfl⟩, rfl⟩

theorem quoted_literal (s : String) : quoted s ∈ stringLit.language := by
  refine (mem_stringLit _).mpr ⟨s.toList.map escape, fun u there => ?_, ?_⟩
  · obtain ⟨c, -, rfl⟩ := List.mem_map.mp there
    rcases escape_cases c with ⟨-, escaped⟩ | ⟨-, escaped⟩ | ⟨⟨backslash, quote⟩, escaped⟩ <;> rw [escaped]
    · exact .inr ⟨'\\', by decide, rfl⟩
    · exact .inr ⟨'\'', by decide, rfl⟩
    · exact .inl ⟨c, quote, backslash, rfl⟩
  · rw [quoted, List.flatMap_def]

theorem literalPart_code (u u' : List Char) (part : LiteralPart u) (part' : LiteralPart u')
    (v v' : List Char) (joined : u ++ v = u' ++ v') : u = u' := by
  rcases part with ⟨c, -, backslash, rfl⟩ | ⟨c, -, rfl⟩ <;>
    rcases part' with ⟨c', -, backslash', rfl⟩ | ⟨c', -, rfl⟩
  · exact congrArg (· :: []) (List.cons.inj joined).1
  · exact absurd (List.cons.inj joined).1 backslash
  · exact absurd (List.cons.inj joined).1.symm backslash'
  · exact congrArg (fun c => ['\\', c]) (List.cons.inj (List.cons.inj joined).2).1

theorem literalPart_apart (u : List Char) (part : LiteralPart u) (v v' : List Char) :
    u ++ v ≠ ['\''] ++ v' := by
  intro joined
  rcases part with ⟨c, quote, -, rfl⟩ | ⟨c, -, rfl⟩
  · exact quote (List.cons.inj joined).1
  · exact absurd (List.cons.inj joined).1 (by decide)

theorem stringLit_ends {w v : List Char} (there : w ∈ stringLit.language)
    (longer : w ++ v ∈ stringLit.language) : v = [] := by
  obtain ⟨parts, all, rfl⟩ := (mem_stringLit _).mp there
  obtain ⟨more, all', joined⟩ := (mem_stringLit _).mp longer
  exact parts_end literalPart_code literalPart_apart all all' (List.cons.inj joined).2

/-- In every text the literal of a string is one token, that string, and the rest is read as it would
be without it. -/
theorem lex_quoted (s : String) (pos : Nat) (rest : List Char) : lex pos (quoted s ++ rest) =
    (lex (pos + extent Char.utf8Size (quoted s)) rest).map fun tokens =>
      (.stringLit s, pos) :: tokens := by
  have matched := stringLit.longest_eq (quoted_literal s) (fun _ => stringLit_ends (quoted_literal s)) rest
  have best : munch rules (quoted s ++ rest) = some (stringRule, (quoted s).length) :=
    munch_only (by decide +kernel) (by decide +kernel) matched
  refine scan_token _ _ (List.cons_ne_nil _ _) best ?_ pos
  exact congrArg (fun token => Except.ok (some (Token.stringLit token))) (unescape_quoted s)

/-- No string ends its literal early or is changed on the way. -/
theorem lexer_quoted (s : String) : lexer (.ofList (quoted s)) = .ok [(.stringLit s, 0)] := by
  have alone := lex_quoted s 0 []
  rw [List.append_nil] at alone
  rw [lexer, String.toList_ofList, alone]
  rfl

end TronDB.Tql
