import TronDB.Tql.Quoting

/-! Block comments, and where the lexer takes them to end. -/
namespace TronDB.Tql
open Lexing Lexing.Regex

def comment (body : List Char) : List Char := '/' :: '*' :: (body ++ ['*', '/'])

/-- What a text is read as, without the places. -/
inductive Reading where
  | tokens (tokens : List Token)
  | lexerError
  | panic
  deriving DecidableEq, Repr

def LexFailure.reading : LexFailure → Reading
  | .lexerError _ => .lexerError
  | .panic => .panic

def readingOf : Except LexFailure (List (Token × Nat)) → Reading
  | .ok tokens => .tokens (tokens.map Prod.fst)
  | .error failure => failure.reading

def reading (text : List Char) : Reading := readingOf (lex 0 text)

/-- What is read when these tokens stand before it. -/
def Reading.behind (tokens : List Token) : Reading → Reading
  | .tokens more => .tokens (tokens ++ more)
  | failure => failure

/-! ### Where a comment may begin -/

/-- The lexer gets to the end of the text and begins anew there, as it does at a slash. -/
def Whole (before : List Char) : Prop :=
  lex 0 (before ++ ['/']) = .error (.lexerError (extent Char.utf8Size before))

/-- The lexer does not give up at what opens a string literal or a comment. -/
def Admissible (text : List Char) (pos : Nat) (failure : LexFailure) : Prop :=
  ∀ read unread, text = read ++ unread →
    failure = .lexerError (pos + extent Char.utf8Size read) →
      unread.head? ≠ some '\'' ∧ ¬ ['/', '*'] <+: unread

/-- The text does not end inside a string literal or another comment: the lexer gives up at a slash
behind it, or ahead of that at what opens neither. -/
def Outside (before : List Char) : Prop :=
  ∃ failure, lex 0 (before ++ ['/']) = .error failure ∧ Admissible before 0 failure

/-- There is a first letter, and behind it the asterisks at the end of the body pair up. -/
def Closes (body : List Char) : Prop :=
  ∃ c rest, body = c :: rest ∧ Even (rest.reverse.takeWhile (· = '*')).length

/-! ### Readings -/

theorem lex_nothing {c : Char} {text : List Char} (nothing : munch rules (c :: text) = none)
    (pos : Nat) : lex pos (c :: text) = .error (.lexerError pos) :=
  @scan_mismatch _ _ _ rules _ _ _ _ nothing pos

theorem lex_word {w rest : List Char} {token : Token} {tokens : List (Token × Nat)} {pos : Nat}
    (alone : (munch rules (w ++ rest)).map (fun best => (best.2, best.1.action w)) =
      some (w.length, .ok (some token))) (some_ : w ≠ [])
    (later : lex (pos + extent Char.utf8Size w) rest = .ok tokens) :
    lex pos (w ++ rest) = .ok ((token, pos) :: tokens) := by
  obtain ⟨⟨rule, n⟩, best, same⟩ := Option.map_eq_some_iff.mp alone
  obtain ⟨rfl, makes⟩ := Prod.mk.inj same
  rw [lex, scan_token _ _ some_ best makes, ← lex, later]
  rfl

theorem readingOf_cons (token : Token) (pos : Nat)
    (rest : Except LexFailure (List (Token × Nat))) :
    readingOf (rest.map fun tokens => (token, pos) :: tokens) = (readingOf rest).behind [token] := by
  cases rest with
  | ok tokens => rfl
  | error failure => cases failure <;> rfl

theorem readingOf_scan (matched pos pos' : Nat) (text : List Char) :
    readingOf (scan rules Char.utf8Size .lexerError matched pos text) =
      readingOf (scan rules Char.utf8Size .lexerError matched pos' text) := by
  induction text generalizing matched pos pos' with
  | nil => cases matched <;> rfl
  | cons c rest ih =>
    cases matched with
    | succ matched => exact ih matched _ _
    | zero =>
      unfold scan
      cases munch rules (c :: rest) with
      | none => rfl
      | some best =>
        dsimp only
        cases best.1.action ((c :: rest).take best.2) with
        | error e => rfl
        | ok token =>
          have later := ih (best.2 - 1) (pos + c.utf8Size) (pos' + c.utf8Size)
          cases token with
          | none => exact later
          | some token =>
            have both := congrArg (Reading.behind [token]) later
            rw [← readingOf_cons token pos, ← readingOf_cons token pos'] at both
            dsimp only
            revert both
            cases scan rules Char.utf8Size .lexerError (best.2 - 1) (pos + c.utf8Size) rest <;>
              cases scan rules Char.utf8Size .lexerError (best.2 - 1) (pos' + c.utf8Size) rest <;>
              exact id

theorem readingOf_lex (pos : Nat) (text : List Char) : readingOf (lex pos text) = reading text :=
  readingOf_scan 0 pos 0 text

theorem reading_token {rule : TokenRule} {w rest : List Char} {token : Token} (some_ : w ≠ [])
    (best : munch rules (w ++ rest) = some (rule, w.length)) (makes : rule.action w = .ok (some token)) :
    reading (w ++ rest) = (reading rest).behind [token] := by
  unfold reading
  rw [lex, scan_token _ _ some_ best makes, readingOf_cons]
  exact congrArg _ (readingOf_lex _ rest)

theorem reading_skip {rule : TokenRule} {w rest : List Char} (some_ : w ≠ [])
    (best : munch rules (w ++ rest) = some (rule, w.length)) (makes : rule.action w = .ok none) :
    reading (w ++ rest) = reading rest := by
  unfold reading
  rw [lex, scan_skip _ _ some_ best makes]
  exact readingOf_lex _ rest

theorem Reading.behind_nil (r : Reading) : r.behind [] = r := by
  cases r <;> rfl

theorem Reading.behind_behind (ts us : List Token) (r : Reading) :
    (r.behind us).behind ts = r.behind (ts ++ us) := by
  cases r <;> simp [behind]

/-! ### Which rule a text begins with -/

/-- Rules none of whose words has a quote, a slash or a blank. -/
def Plain (rule : TokenRule) : Bool :=
  rule.regex.spares '\'' && (rule.regex.spares '/' && rule.regex.spares ' ')

def Stop (text : List Char) : Prop := ∃ c rest, text = c :: rest ∧ (c = '/' ∨ c = ' ')

/-- What the letters of the rules tell apart. -/
class Letters : Prop where
  words : ∀ rule ∈ ahead.drop 4, Plain rule = true
  others : ∀ rule ∈ behind, Plain rule = true
  blanks : (" \t\r\n\x0c".toList.all fun a =>
    rules.tail.all fun other => !other.regex.starts a) = true
  lines : ∀ rule ∈ rules, rule.regex.spares '\n' = true ∨ rule.regex.starts '-' = false
  dash : lineComment.longest ['-'] = none

instance letters : Letters where
  words := by decide +kernel
  others := by decide +kernel
  blanks := by decide +kernel
  lines := by decide +kernel
  dash := by decide +kernel

theorem forall_rules {P : TokenRule → Prop} (whitespace_ : P (skip whitespace 1))
    (lineComment_ : P (skip lineComment 4)) (blockComment_ : P (skip blockComment 9))
    (hint_ : P (emit hint 5 fun slice => .hint (hintText slice))) (stringLit_ : P stringRule)
    (plain : ∀ rule : TokenRule, Plain rule = true → P rule) : ∀ rule ∈ rules, P rule := by
  have parts : rules = [skip whitespace 1, skip lineComment 4, skip blockComment 9,
      emit hint 5 fun slice => .hint (hintText slice)] ++ ahead.drop 4 ++ stringRule :: behind := rfl
  rw [parts]
  simp only [List.forall_mem_append, List.forall_mem_cons]
  exact ⟨⟨⟨whitespace_, lineComment_, blockComment_, hint_, nofun⟩,
    fun rule there => plain rule (letters.words rule there)⟩, stringLit_,
    fun rule there => plain rule (letters.others rule there)⟩

theorem longest_plain {rule : TokenRule} (plain : Plain rule = true) (w : List Char) {text : List Char}
    (stop : Stop text) : rule.regex.longest (w ++ text) = rule.regex.longest w := by
  obtain ⟨-, slash, blank⟩ : _ ∧ _ ∧ _ := by simpa [Plain] using plain
  obtain ⟨_, rest, rfl, rfl | rfl⟩ := stop
  · exact longest_stops (fun _ => not_mem_of_spares slash) w rest
  · exact longest_stops (fun _ => not_mem_of_spares blank) w rest

theorem starts_plain {rule : TokenRule} (plain : Plain rule = true) :
    rule.regex.starts '\'' = false ∧ rule.regex.starts '/' = false := by
  obtain ⟨quote, slash, -⟩ : _ ∧ _ ∧ _ := by simpa [Plain] using plain
  exact ⟨starts_of_spares quote, starts_of_spares slash⟩

theorem starts_whitespace (c : Char) : whitespace.starts c = " \t\r\n\x0c".toList.contains c := by
  simp [whitespace, plus, anyOf, starts_seq, starts_star, starts_one, nullable_one]

theorem starts_lineComment (c : Char) : lineComment.starts c = decide (c = '-') := by
  simp [lineComment, literal, word, starts_seq, starts_one, nullable_seq, nullable_one]

theorem starts_blockComment (c : Char) : blockComment.starts c = decide (c = '/') := by
  simp [blockComment, literal, word, starts_seq, starts_one, nullable_seq, nullable_one]

theorem starts_hint (c : Char) : hint.starts c = decide (c = '/') := by
  simp [hint, literal, word, starts_seq, starts_one, nullable_seq, nullable_one]

theorem starts_stringLit (c : Char) : stringLit.starts c = decide (c = '\'') := by
  simp [stringLit, char, starts_seq, starts_one, nullable_one]

/-! ### Literals, hints and comments end where they end -/

theorem mem_literal (s : String) (w : List Char) : w ∈ (literal s).language ↔ w = s.toList := by
  unfold literal word
  induction s.toList generalizing w with
  | nil => exact Iff.rfl
  | cons c rest ih =>
    simp only [List.map_cons, List.foldr_cons, mem_seq, mem_one, ih]
    constructor
    · rintro ⟨_, ⟨a, same, rfl⟩, _, rfl, rfl⟩
      simpa using same
    · rintro rfl
      exact ⟨[c], ⟨c, by simp, rfl⟩, rest, rfl, rfl⟩

/-- A letter of a comment, or an asterisk with the letter behind it. -/
def CommentPart (u : List Char) : Prop := (∃ c, c ≠ '*' ∧ u = [c]) ∨ ∃ c, c ≠ '/' ∧ u = ['*', c]

theorem commentPart_code (u u' : List Char) (part : CommentPart u) (part' : CommentPart u')
    (v v' : List Char) (joined : u ++ v = u' ++ v') : u = u' := by
  rcases part with ⟨c, star, rfl⟩ | ⟨c, -, rfl⟩ <;>
    rcases part' with ⟨c', star', rfl⟩ | ⟨c', -, rfl⟩
  · exact congrArg (· :: []) (List.cons.inj joined).1
  · exact absurd (List.cons.inj joined).1 star
  · exact absurd (List.cons.inj joined).1.symm star'
  · exact congrArg (fun c => ['*', c]) (List.cons.inj (List.cons.inj joined).2).1

theorem commentPart_apart (u : List Char) (part : CommentPart u) (v v' : List Char) :
    u ++ v ≠ ['*', '/'] ++ v' := by
  intro joined
  rcases part with ⟨c, star, rfl⟩ | ⟨c, slash, rfl⟩
  · exact star (List.cons.inj joined).1
  · exact slash (List.cons.inj (List.cons.inj joined).2).1

theorem mem_blockComment (w : List Char) : w ∈ blockComment.language ↔
    ∃ (c : Char) (parts : List (List Char)), c ≠ '+' ∧ (∀ u ∈ parts, CommentPart u) ∧
      w = '/' :: '*' :: c :: (parts.flatten ++ ['*', '/']) := by
  have part (u : List Char) :
      u ∈ (alt (noneOf "*") (seq (char '*') (noneOf "/"))).language ↔ CommentPart u := by
    simp only [mem_alt, mem_seq, mem_char, noneOf, mem_one, CommentPart]
    constructor
    · rintro (⟨c, other, rfl⟩ | ⟨_, rfl, _, ⟨c, other, rfl⟩, rfl⟩)
      · exact .inl ⟨c, by simpa using other, rfl⟩
      · exact .inr ⟨c, by simpa using other, rfl⟩
    · rintro (⟨c, other, rfl⟩ | ⟨c, other, rfl⟩)
      · exact .inl ⟨c, by simpa using other, rfl⟩
      · exact .inr ⟨_, rfl, _, ⟨c, by simpa using other, rfl⟩, rfl⟩
  simp only [blockComment, mem_seq, mem_literal, mem_star, part]
  constructor
  · rintro ⟨_, rfl, _, ⟨_, ⟨c, other, rfl⟩, _, ⟨_, ⟨parts, rfl, all⟩, _, rfl, rfl⟩, rfl⟩, rfl⟩
    exact ⟨c, parts, by simpa using other, all, rfl⟩
  · rintro ⟨c, parts, other, all, rfl⟩
    exact ⟨_, rfl, _, ⟨[c], ⟨c, by simpa using other, rfl⟩, _, ⟨_, ⟨parts, rfl, all⟩, _, rfl, rfl⟩,
      rfl⟩, rfl⟩

theorem blockComment_ends {w v : List Char} (there : w ∈ blockComment.language)
    (longer : w ++ v ∈ blockComment.language) : v = [] := by
  obtain ⟨c, parts, -, all, rfl⟩ := (mem_blockComment _).mp there
  obtain ⟨c', more, -, all', joined⟩ := (mem_blockComment _).mp longer
  simp only [List.cons_append, List.cons.injEq, true_and] at joined
  exact parts_end commentPart_code commentPart_apart all all' joined.2

theorem mem_hint (w : List Char) : w ∈ hint.language ↔
    ∃ parts : List (List Char), (∀ u ∈ parts, ∃ c, c ≠ '*' ∧ u = [c]) ∧
      w = '/' :: '*' :: '+' :: (parts.flatten ++ ['*', '/']) := by
  have part (u : List Char) : u ∈ (noneOf "*").language ↔ ∃ c, c ≠ '*' ∧ u = [c] := by
    simp [noneOf, mem_one]
  simp only [hint, mem_seq, mem_literal, mem_star, part]
  constructor
  · rintro ⟨_, rfl, _, ⟨_, ⟨parts, rfl, all⟩, _, rfl, rfl⟩, rfl⟩
    exact ⟨parts, all, rfl⟩
  · rintro ⟨parts, all, rfl⟩
    exact ⟨_, rfl, _, ⟨_, ⟨parts, rfl, all⟩, _, rfl, rfl⟩, rfl⟩

theorem hint_ends {w v : List Char} (there : w ∈ hint.language) (longer : w ++ v ∈ hint.language) :
    v = [] := by
  obtain ⟨parts, all, rfl⟩ := (mem_hint _).mp there
  obtain ⟨more, all', joined⟩ := (mem_hint _).mp longer
  simp only [List.cons_append, List.cons.injEq, true_and] at joined
  exact parts_end commentPart_code commentPart_apart (fun u listed => .inl (all u listed))
    (fun u listed => .inl (all' u listed)) joined

theorem longest_settled {r : Regex Char} {w : List Char} (there : w ∈ r.language)
    (ends : ∀ {w v : List Char}, w ∈ r.language → w ++ v ∈ r.language → v = []) (rest rest' : List Char) :
    r.longest (w ++ rest) = r.longest (w ++ rest') := by
  rw [r.longest_eq there (fun _ => ends there) rest, r.longest_eq there (fun _ => ends there) rest']

theorem blockComment_hint (rest : List Char) : blockComment.longest ('/' :: '*' :: '+' :: rest) = none := by
  cases found : blockComment.longest ('/' :: '*' :: '+' :: rest) with
  | none => rfl
  | some n =>
    obtain ⟨w, rest', joined, -, there⟩ := longest_matches _ found
    obtain ⟨c, parts, other, -, rfl⟩ := (mem_blockComment w).mp there
    simp only [List.cons_append, List.cons.injEq, true_and] at joined
    exact absurd joined.1.symm other

theorem hint_blockComment {c : Char} (other : c ≠ '+') (rest : List Char) :
    hint.longest ('/' :: '*' :: c :: rest) = none := by
  cases found : hint.longest ('/' :: '*' :: c :: rest) with
  | none => rfl
  | some n =>
    obtain ⟨w, rest', joined, -, there⟩ := longest_matches _ found
    obtain ⟨parts, -, rfl⟩ := (mem_hint w).mp there
    simp only [List.cons_append, List.cons.injEq, true_and] at joined
    exact absurd joined.1 other

/-- A match of one of the three rules whose words may have a slash or a blank inside. -/
def Enclosed (w : List Char) : Prop :=
  w ∈ stringLit.language ∨ w ∈ blockComment.language ∨ w ∈ hint.language

theorem munch_enclosed {w : List Char} (enclosed : Enclosed w) (rest rest' : List Char) :
    munch rules (w ++ rest) = munch rules (w ++ rest') := by
  apply munch_congr
  rcases enclosed with literal | block | hint_
  · have settled := longest_settled literal stringLit_ends rest rest'
    obtain ⟨parts, -, rfl⟩ := (mem_stringLit w).mp literal
    apply forall_rules
    · exact longest_other _ (starts_whitespace '\'') _ _
    · exact longest_other _ (starts_lineComment '\'') _ _
    · exact longest_other _ (starts_blockComment '\'') _ _
    · exact longest_other _ (starts_hint '\'') _ _
    · exact settled
    · exact fun rule plain => longest_other _ (starts_plain plain).1 _ _
  · have settled := longest_settled block blockComment_ends rest rest'
    obtain ⟨c, parts, other, -, rfl⟩ := (mem_blockComment w).mp block
    apply forall_rules
    · exact longest_other _ (starts_whitespace '/') _ _
    · exact longest_other _ (starts_lineComment '/') _ _
    · exact settled
    · exact (hint_blockComment other _).trans (hint_blockComment other _).symm
    · exact longest_other _ (starts_stringLit '/') _ _
    · exact fun rule plain => longest_other _ (starts_plain plain).2 _ _
  · have settled := longest_settled hint_ hint_ends rest rest'
    obtain ⟨parts, -, rfl⟩ := (mem_hint w).mp hint_
    apply forall_rules
    · exact longest_other _ (starts_whitespace '/') _ _
    · exact longest_other _ (starts_lineComment '/') _ _
    · exact (blockComment_hint _).trans (blockComment_hint _).symm
    · exact settled
    · exact longest_other _ (starts_stringLit '/') _ _
    · exact fun rule plain => longest_other _ (starts_plain plain).2 _ _

/-! ### Blanks -/

def blank (c : Char) : Bool := " \t\r\n\x0c".toList.contains c

theorem mem_whitespace (w : List Char) : w ∈ whitespace.language ↔ w ≠ [] ∧ ∀ c ∈ w, blank c = true := by
  have one_ (u : List Char) : u ∈ (anyOf " \t\r\n\x0c").language ↔ ∃ c, blank c = true ∧ u = [c] :=
    Iff.rfl
  simp only [whitespace, plus, mem_seq, mem_star, one_]
  constructor
  · rintro ⟨_, ⟨c, here, rfl⟩, _, ⟨words, rfl, all⟩, rfl⟩
    refine ⟨List.cons_ne_nil _ _, fun a there => ?_⟩
    rcases List.mem_cons.mp there with rfl | there
    · exact here
    · obtain ⟨u, listed, inside⟩ := List.mem_flatten.mp there
      obtain ⟨b, blank_, rfl⟩ := all u listed
      exact List.mem_singleton.mp inside ▸ blank_
  · rintro ⟨some_, all⟩
    cases w with
    | nil => exact absurd rfl some_
    | cons c rest =>
      obtain ⟨here, later⟩ := List.forall_mem_cons.mp all
      refine ⟨[c], ⟨c, here, rfl⟩, rest, ⟨rest.map fun c => [c], ?_, ?_⟩, rfl⟩
      · exact (List.flatMap_singleton' rest).symm
      · intro u listed
        obtain ⟨d, there, rfl⟩ := List.mem_map.mp listed
        exact ⟨d, later d there, rfl⟩

/-- A run of blanks up to what is none. -/
theorem lex_blanks {c : Char} {run rest : List Char} (all : ∀ a ∈ c :: run, blank a = true)
    (end_ : ∀ a, rest.head? = some a → blank a = false) (pos : Nat) :
    lex pos ((c :: run) ++ rest) = lex (pos + extent Char.utf8Size (c :: run)) rest := by
  have there : c :: run ∈ whitespace.language := (mem_whitespace _).mpr ⟨List.cons_ne_nil _ _, all⟩
  have longest : whitespace.longest ((c :: run) ++ rest) = some (c :: run).length := by
    obtain ⟨n, found, most⟩ := whitespace.longest_most there rest
    obtain ⟨w, rest', joined, rfl, matched⟩ := whitespace.longest_matches found
    obtain ⟨v, rfl⟩ : (c :: run) <+: w :=
      List.prefix_of_prefix_length_le (List.prefix_append _ rest) ⟨rest', joined.symm⟩ most
    cases v with
    | nil => simpa using found
    | cons a v =>
      have more : rest = a :: (v ++ rest') := by simpa using joined
      have inside := ((mem_whitespace _).mp matched).2 a (by simp)
      have outside := end_ a (by rw [more]; rfl)
      cases inside.symm.trans outside
  have others : ∀ a ∈ " \t\r\n\x0c".toList, ∀ other ∈ rules.tail, other.regex.starts a = false := by
    simpa using letters.blanks
  have first : c ∈ " \t\r\n\x0c".toList := by
    simpa [blank] using all c (List.mem_cons_self ..)
  have best : munch ([] ++ skip whitespace 1 :: rules.tail) ((c :: run) ++ rest) =
      some (skip whitespace 1, (c :: run).length) :=
    munch_only (by simp) (others c first) longest
  exact scan_skip _ _ (List.cons_ne_nil _ _) best rfl pos

theorem lex_blank {c : Char} (here : blank c = true) (pos : Nat) (rest : List Char) :
    lex pos (c :: rest) = lex (pos + c.utf8Size) rest := by
  have all : ∀ a ∈ rest.takeWhile blank, blank a = true := fun a there => by
    simpa using List.all_eq_true.mp (List.all_takeWhile (p := blank) (l := rest)) a there
  have end_ : ∀ a, (rest.dropWhile blank).head? = some a → blank a = false := fun a first => by
    have not := List.head?_dropWhile_not blank rest
    rw [first] at not
    simpa using not
  have whole := List.takeWhile_append_dropWhile (p := blank) (l := rest)
  have run := lex_blanks (List.forall_mem_cons.mpr ⟨here, all⟩) end_ pos
  generalize rest.takeWhile blank = first, rest.dropWhile blank = more at *
  subst whole
  rw [← List.cons_append, run]
  cases first with
  | nil => simp [extent]
  | cons a first =>
    rw [lex_blanks all end_ (pos + c.utf8Size)]
    simp [extent, Nat.add_assoc]

/-! ### A text before a comment -/

/-- The first match in a text does not depend on what stands behind the text, and ends in it. -/
def Steady (text : List Char) : Prop :=
  ∃ best, (∀ more, Stop more → munch rules (text ++ more) = best) ∧
    ∀ rule n, best = some (rule, n) → n ≤ text.length

theorem stop_slash : Stop ['/'] := ⟨'/', [], rfl, .inl rfl⟩

theorem Enclosed.steady {w rest : List Char} (enclosed : Enclosed w) : Steady (w ++ rest) := by
  refine ⟨munch rules w, fun more _ => ?_, fun rule n best => ?_⟩
  · have same := munch_enclosed enclosed (rest ++ more) []
    rwa [List.append_nil, ← List.append_assoc] at same
  · obtain ⟨-, u, rest', rfl, rfl, -⟩ := munch_matches best
    simp only [List.length_append]
    omega

theorem steady_of_plain {text : List Char}
    (special : ∀ rule ∈ [skip whitespace 1, skip lineComment 4, skip blockComment 9,
        emit hint 5 fun slice => .hint (hintText slice), stringRule],
      ∀ more, Stop more → rule.regex.longest (text ++ more) = rule.regex.longest text) : Steady text := by
  refine ⟨munch rules text, fun more stop => munch_congr ?_, fun rule n best => ?_⟩
  · simp only [List.forall_mem_cons] at special
    obtain ⟨whitespace_, lineComment_, blockComment_, hint_, stringLit_, -⟩ := special
    exact forall_rules (whitespace_ more stop) (lineComment_ more stop) (blockComment_ more stop)
      (hint_ more stop) (stringLit_ more stop) fun rule plain => longest_plain plain text stop
  · obtain ⟨-, u, rest, rfl, rfl, -⟩ := munch_matches best
    simp

theorem steady_other {c : Char} (rest : List Char) (noBlank : blank c = false) (noQuote : c ≠ '\'')
    (noSlash : c ≠ '/') (noDash : c ≠ '-') : Steady (c :: rest) := by
  apply steady_of_plain
  simp only [List.forall_mem_cons]
  refine ⟨?_, ?_, ?_, ?_, ?_, nofun⟩ <;> intro more _ <;> apply longest_other
  · exact (starts_whitespace c).trans noBlank
  · exact (starts_lineComment c).trans (decide_eq_false noDash)
  · exact (starts_blockComment c).trans (decide_eq_false noSlash)
  · exact (starts_hint c).trans (decide_eq_false noSlash)
  · exact (starts_stringLit c).trans (decide_eq_false noQuote)

theorem steady_line (w rest : List Char) : Steady ('-' :: (w ++ '\n' :: rest)) := by
  refine ⟨munch rules ('-' :: w), fun more _ => munch_congr fun rule there => ?_, fun rule n best => ?_⟩
  · rcases letters.lines rule there with without | other
    · have stops := longest_stops (fun _ => not_mem_of_spares without) ('-' :: w) (rest ++ more)
      simpa using stops
    · exact longest_other _ other _ _
  · obtain ⟨-, u, rest', joined, rfl, -⟩ := munch_matches best
    have length := congrArg List.length joined
    simp only [List.length_cons, List.length_append] at length ⊢
    omega

theorem longest_lineComment {c : Char} (other : c ≠ '-') (rest : List Char) :
    lineComment.longest ('-' :: c :: rest) = none ∧ lineComment.longest ['-'] = none := by
  refine ⟨?_, letters.dash⟩
  cases found : lineComment.longest ('-' :: c :: rest) with
  | none => rfl
  | some n =>
    obtain ⟨w, rest', joined, -, there⟩ := longest_matches _ found
    simp only [lineComment, mem_seq, mem_literal] at there
    obtain ⟨_, rfl, v, -, rfl⟩ := there
    have second : c :: rest = '-' :: (v ++ rest') := (List.cons.inj joined).2
    exact absurd (List.cons.inj second).1 other

theorem steady_dash {rest : List Char} (single : rest.head? ≠ some '-') : Steady ('-' :: rest) := by
  apply steady_of_plain
  simp only [List.forall_mem_cons]
  refine ⟨?_, ?_, ?_, ?_, ?_, nofun⟩ <;> intro more stop
  · exact longest_other _ (starts_whitespace '-') _ _
  · cases rest with
    | nil =>
      obtain ⟨c, more, rfl, stop⟩ := stop
      have other : c ≠ '-' := by rcases stop with rfl | rfl <;> decide
      exact (longest_lineComment other more).1.trans (longest_lineComment other more).2.symm
    | cons c rest =>
      have other : c ≠ '-' := fun same => single (congrArg some same)
      exact (longest_lineComment other _).1.trans (longest_lineComment other _).1.symm
  · exact longest_other _ (starts_blockComment '-') _ _
  · exact longest_other _ (starts_hint '-') _ _
  · exact longest_other _ (starts_stringLit '-') _ _

theorem rule_slash : ∀ rule ∈ rules, rule.regex.starts '/' = true →
    (rule.regex = blockComment ∨ rule.regex = hint) ∧ ∀ slice e, rule.action slice ≠ .error e := by
  apply forall_rules
  · exact fun bad => absurd ((starts_whitespace '/').symm.trans bad) (by decide)
  · exact fun bad => absurd ((starts_lineComment '/').symm.trans bad) (by decide)
  · exact fun _ => ⟨.inl rfl, nofun⟩
  · exact fun _ => ⟨.inr rfl, nofun⟩
  · exact fun bad => absurd ((starts_stringLit '/').symm.trans bad) (by decide)
  · exact fun rule plain bad => absurd ((starts_plain plain).2.symm.trans bad) (by decide)

theorem rule_quote : ∀ rule ∈ rules, rule.regex.starts '\'' = true → rule.regex = stringLit := by
  apply forall_rules
  · exact fun bad => absurd ((starts_whitespace '\'').symm.trans bad) (by decide)
  · exact fun bad => absurd ((starts_lineComment '\'').symm.trans bad) (by decide)
  · exact fun bad => absurd ((starts_blockComment '\'').symm.trans bad) (by decide)
  · exact fun bad => absurd ((starts_hint '\'').symm.trans bad) (by decide)
  · exact fun _ => rfl
  · exact fun rule plain bad => absurd ((starts_plain plain).1.symm.trans bad) (by decide)

theorem munch_slash {rest : List Char} {rule : TokenRule} {n : Nat}
    (best : munch rules ('/' :: rest) = some (rule, n)) :
    (∃ w rest', '/' :: rest = w ++ rest' ∧ w.length = n ∧
      (w ∈ blockComment.language ∨ w ∈ hint.language)) ∧ ∀ slice e, rule.action slice ≠ .error e := by
  obtain ⟨there, w, rest', joined, length, some_, matched⟩ := munch_matches best
  cases w with
  | nil => exact absurd rfl some_
  | cons c w =>
    cases (List.cons.inj joined).1
    obtain ⟨same | same, never⟩ := rule_slash rule there (starts_of_mem matched)
    · exact ⟨⟨_, rest', joined, length, .inl (same ▸ matched)⟩, never⟩
    · exact ⟨⟨_, rest', joined, length, .inr (same ▸ matched)⟩, never⟩

theorem munch_quote {rest : List Char} {rule : TokenRule} {n : Nat}
    (best : munch rules ('\'' :: rest) = some (rule, n)) :
    ∃ w rest', '\'' :: rest = w ++ rest' ∧ w.length = n ∧ w ∈ stringLit.language := by
  obtain ⟨there, w, rest', joined, length, some_, matched⟩ := munch_matches best
  refine ⟨w, rest', joined, length, ?_⟩
  cases w with
  | nil => exact absurd rfl some_
  | cons c w =>
    cases (List.cons.inj joined).1
    exact rule_quote rule there (starts_of_mem matched) ▸ matched

theorem munch_lone_slash {rest : List Char} (lone : rest.head? ≠ some '*') :
    munch rules ('/' :: rest) = none := by
  cases found : munch rules ('/' :: rest) with
  | none => rfl
  | some best =>
    obtain ⟨⟨w, rest', joined, -, block | hint_⟩, -⟩ := munch_slash found
    · obtain ⟨c, parts, -, -, rfl⟩ := (mem_blockComment w).mp block
      cases joined
      exact absurd rfl lone
    · obtain ⟨parts, -, rfl⟩ := (mem_hint w).mp hint_
      cases joined
      exact absurd rfl lone

/-! ### The lexer up to the comment -/

/-- How the text before a stop is read: as tokens, or not at all. -/
inductive Ends (text : List Char) (pos : Nat) (failure : LexFailure) : Prop where
  | whole (tokens : List Token) (at_ : failure = .lexerError (pos + extent Char.utf8Size text))
      (reads : ∀ more, Stop more → reading (text ++ more) = (reading more).behind tokens)
  | broken (fails : Reading) (before : failure ≠ .lexerError (pos + extent Char.utf8Size text))
      (noTokens : ∀ tokens, fails ≠ .tokens tokens)
      (reads : ∀ more, Stop more → reading (text ++ more) = fails)

theorem extent_append (w rest : List Char) : extent Char.utf8Size (w ++ rest) =
    extent Char.utf8Size w + extent Char.utf8Size rest := by
  simp [extent]

theorem Admissible.later {w rest : List Char} {pos : Nat} {failure : LexFailure}
    (admissible : Admissible (w ++ rest) pos failure) :
    Admissible rest (pos + extent Char.utf8Size w) failure := by
  intro read unread split at_
  apply admissible (w ++ read) unread
  · rw [split, List.append_assoc]
  · rw [at_, extent_append, Nat.add_assoc]

theorem extent_pos {w : List Char} (some_ : w ≠ []) : 0 < extent Char.utf8Size w := by
  cases w with
  | nil => exact absurd rfl some_
  | cons c w =>
    have size := Char.utf8Size_pos c
    simp only [extent, List.map_cons, List.sum_cons]
    omega

theorem Ends.prepend {w text : List Char} {pos : Nat} {failure : LexFailure} (tokens : List Token)
    (ends : Ends text (pos + extent Char.utf8Size w) failure)
    (first : ∀ more, Stop more → reading (w ++ text ++ more) = (reading (text ++ more)).behind tokens) :
    Ends (w ++ text) pos failure := by
  have place : pos + extent Char.utf8Size (w ++ text) =
      pos + extent Char.utf8Size w + extent Char.utf8Size text := by
    rw [extent_append, Nat.add_assoc]
  cases ends with
  | whole later at_ reads =>
    refine .whole (tokens ++ later) (place ▸ at_) fun more stop => ?_
    rw [first more stop, reads more stop, Reading.behind_behind]
  | broken fails before noTokens reads =>
    refine .broken fails (place ▸ before) noTokens fun more stop => ?_
    rw [first more stop, reads more stop]
    cases fails with
    | tokens ts => exact absurd rfl (noTokens ts)
    | lexerError => rfl
    | panic => rfl

theorem action_panics : ∀ rule ∈ rules, ∀ slice e, rule.action slice = .error e → e = .panic := by
  have skips (regex : Regex Char) (n : Nat) : ∀ slice e, (skip regex n).action slice = .error e →
      e = .panic := nofun
  have emits (regex : Regex Char) (n : Nat) (token : List Char → Token) :
      ∀ slice e, (emit regex n token).action slice = .error e → e = .panic := nofun
  have converts (regex : Regex Char) (n : Nat) (token : List Char → Option Token) :
      ∀ slice e, (convert regex n token).action slice = .error e → e = .panic := by
    intro slice e fails
    unfold convert at fails
    dsimp only at fails
    split at fails <;> cases fails
    rfl
  have words : ∀ rule ∈ ahead, ∀ slice e, rule.action slice = .error e → e = .panic := by
    simp only [ahead, List.forall_mem_append, List.forall_mem_cons, List.forall_mem_map]
    exact ⟨⟨⟨skips _ _, skips _ _, skips _ _, emits _ _ _, nofun⟩, fun _ _ => emits _ _ _⟩,
      emits _ _ _, nofun⟩
  have others : ∀ rule ∈ behind, ∀ slice e, rule.action slice = .error e → e = .panic := by
    simp only [behind, List.forall_mem_append, List.forall_mem_cons, List.forall_mem_map]
    exact ⟨⟨converts _ _ _, converts _ _ _, nofun⟩, fun _ _ => emits _ _ _⟩
  exact List.forall_mem_append.mpr ⟨words, List.forall_mem_cons.mpr ⟨emits _ _ _, others⟩⟩

theorem ends_step {text : List Char} {pos : Nat} {failure : LexFailure} (some_ : text ≠ [])
    (steady : Steady text) (failed : lex pos (text ++ ['/']) = .error failure)
    (admissible : Admissible text pos failure)
    (later : ∀ w rest, text = w ++ rest → w ≠ [] →
      lex (pos + extent Char.utf8Size w) (rest ++ ['/']) = .error failure →
        Admissible rest (pos + extent Char.utf8Size w) failure →
          Ends rest (pos + extent Char.utf8Size w) failure) : Ends text pos failure := by
  obtain ⟨best, same, inside⟩ := steady
  have here := same ['/'] stop_slash
  cases best with
  | none =>
    cases text with
    | nil => exact absurd rfl some_
    | cons c rest =>
      have gives (more : List Char) (stop : Stop more) (pos : Nat) :
          lex pos (c :: rest ++ more) = .error (.lexerError pos) :=
        lex_nothing (same more stop) pos
      rw [gives ['/'] stop_slash pos] at failed
      cases failed
      refine .broken .lexerError (fun at_ => ?_) nofun fun more stop => ?_
      · have size := extent_pos (List.cons_ne_nil c rest)
        have place := LexFailure.lexerError.inj at_
        omega
      · unfold reading
        rw [gives more stop 0]
        rfl
  | some best =>
    obtain ⟨rule, n⟩ := best
    obtain ⟨there, w, rest, joined, length, nonempty, -⟩ := munch_matches here
    have short := inside rule n rfl
    obtain ⟨v, rfl⟩ : w <+: text :=
      List.prefix_of_prefix_length_le ⟨rest, joined.symm⟩ (List.prefix_append text ['/'])
        (length ▸ short)
    have match_ (more : List Char) (stop : Stop more) : munch rules (w ++ (v ++ more)) =
        some (rule, w.length) := by
      rw [← List.append_assoc, same more stop, length]
    have admitted := admissible.later
    rw [List.append_assoc, lex] at failed
    cases made : rule.action w with
    | error e =>
      rw [scan_failed _ _ nonempty (match_ _ stop_slash) made pos] at failed
      cases failed
      cases action_panics rule there w _ made
      refine .broken .panic nofun nofun fun more stop => ?_
      unfold reading
      rw [List.append_assoc, lex, scan_failed _ _ nonempty (match_ more stop) made 0]
      rfl
    | ok token =>
      cases token with
      | none =>
        rw [scan_skip _ _ nonempty (match_ _ stop_slash) made pos] at failed
        apply (later w v rfl nonempty failed admitted).prepend []
        intro more stop
        rw [List.append_assoc, reading_skip nonempty (match_ more stop) made, Reading.behind_nil]
      | some token =>
        rw [scan_token _ _ nonempty (match_ _ stop_slash) made pos] at failed
        have rest_failed : lex (pos + extent Char.utf8Size w) (v ++ ['/']) = .error failure := by
          revert failed
          unfold lex
          cases scan rules Char.utf8Size .lexerError 0 (pos + extent Char.utf8Size w) (v ++ ['/']) with
          | ok tokens => nofun
          | error e => exact id
        apply (later w v rfl nonempty rest_failed admitted).prepend [token]
        intro more stop
        rw [List.append_assoc, reading_token nonempty (match_ more stop) made]

theorem not_swallowed {text w : List Char} {rule : TokenRule} {pos : Nat} {failure : LexFailure}
    (whole : text ++ ['/'] = w) (best : munch rules w = some (rule, w.length))
    (never : ∀ slice e, rule.action slice ≠ .error e) :
    lex pos (text ++ ['/']) ≠ .error failure := by
  have some_ : w ≠ [] := by simp [← whole]
  have best' : munch rules (w ++ []) = some (rule, w.length) := by rwa [List.append_nil]
  rw [whole, ← List.append_nil w, lex]
  cases made : rule.action w with
  | error e => exact absurd made (never w e)
  | ok token =>
    cases token with
    | none =>
      rw [scan_skip _ _ some_ best' made pos]
      exact nofun
    | some token =>
      rw [scan_token _ _ some_ best' made pos]
      exact nofun

theorem prefix_or_whole {text w rest : List Char} (joined : text ++ ['/'] = w ++ rest) :
    w <+: text ∨ text ++ ['/'] = w := by
  cases rest with
  | nil => exact .inr (by simpa using joined)
  | cons c rest =>
    have length := congrArg List.length joined
    simp only [List.length_append, List.length_cons, List.length_nil] at length
    exact .inl (List.prefix_of_prefix_length_le ⟨c :: rest, joined.symm⟩ (List.prefix_append text _)
      (by omega))

theorem gives_up {text : List Char} {pos : Nat} {failure : LexFailure} (some_ : text ≠ [])
    (nothing : munch rules (text ++ ['/']) = none)
    (failed : lex pos (text ++ ['/']) = .error failure) : failure = .lexerError pos := by
  cases text with
  | nil => exact absurd rfl some_
  | cons c rest =>
    have gives : lex pos (c :: rest ++ ['/']) = .error (.lexerError pos) :=
      lex_nothing nothing pos
    exact (Except.error.inj (gives.symm.trans failed)).symm

theorem steady_quote {rest : List Char} {pos : Nat} {failure : LexFailure}
    (failed : lex pos ('\'' :: rest ++ ['/']) = .error failure)
    (admissible : Admissible ('\'' :: rest) pos failure) : Steady ('\'' :: rest) := by
  cases found : munch rules ('\'' :: rest ++ ['/']) with
  | none =>
    have at_ := gives_up (List.cons_ne_nil _ _) found failed
    exact absurd rfl (admissible [] _ rfl at_).1
  | some best =>
    obtain ⟨w, rest', joined, -, literal⟩ := munch_quote found
    rcases prefix_or_whole (show ('\'' :: rest) ++ ['/'] = w ++ rest' from joined) with ⟨v, inside⟩ | whole
    · exact inside ▸ Enclosed.steady (.inl literal)
    · -- a literal ends with its quote
      obtain ⟨parts, -, rfl⟩ := (mem_stringLit w).mp literal
      have last := (List.append_inj' (List.cons.inj whole).2 rfl).2
      exact absurd last (by decide)

theorem steady_slash {rest : List Char} {pos : Nat} {failure : LexFailure}
    (failed : lex pos ('/' :: rest ++ ['/']) = .error failure)
    (admissible : Admissible ('/' :: rest) pos failure) : Steady ('/' :: rest) := by
  cases found : munch rules ('/' :: rest ++ ['/']) with
  | none =>
    have at_ := gives_up (List.cons_ne_nil _ _) found failed
    have lone := (admissible [] _ rfl at_).2
    refine ⟨none, fun more stop => munch_lone_slash ?_, nofun⟩
    cases rest with
    | nil =>
      obtain ⟨c, more, rfl, rfl | rfl⟩ := stop
      · exact fun same => absurd (Option.some.inj same) (by decide)
      · exact fun same => absurd (Option.some.inj same) (by decide)
    | cons c rest =>
      intro same
      cases Option.some.inj same
      exact lone ⟨rest, rfl⟩
  | some best =>
    obtain ⟨rule, n⟩ := best
    obtain ⟨⟨w, rest', joined, length, matched⟩, never⟩ := munch_slash found
    rcases prefix_or_whole (show ('/' :: rest) ++ ['/'] = w ++ rest' from joined) with
      ⟨v, inside⟩ | whole
    · exact inside ▸ Enclosed.steady (.inr matched)
    · rw [whole, ← length] at found
      exact absurd failed (not_swallowed whole found never)

theorem rule_line : ∀ rule ∈ rules, ∀ w ∈ rule.regex.language, w.head? = some '-' → '/' ∈ w →
    ∀ slice e, rule.action slice ≠ .error e := by
  apply forall_rules
  · exact fun _ _ _ _ => nofun
  · exact fun _ _ _ _ => nofun
  · exact fun _ _ _ _ => nofun
  · exact fun _ _ _ _ => nofun
  · exact fun _ _ _ _ => nofun
  · intro rule plain w there _ slash
    obtain ⟨-, spared, -⟩ : _ ∧ _ ∧ _ := by simpa [Plain] using plain
    exact absurd slash (not_mem_of_spares spared there)

theorem mem_lineComment (w : List Char) :
    w ∈ lineComment.language ↔ ∃ rest, '\n' ∉ rest ∧ w = '-' :: '-' :: rest := by
  have one_ (u : List Char) : u ∈ (noneOf "\n").language ↔ ∃ c, c ≠ '\n' ∧ u = [c] := by
    simp [noneOf, mem_one]
  simp only [lineComment, mem_seq, mem_literal, mem_star, one_]
  constructor
  · rintro ⟨_, rfl, _, ⟨words, rfl, all⟩, rfl⟩
    refine ⟨words.flatten, fun inside => ?_, rfl⟩
    obtain ⟨u, listed, here⟩ := List.mem_flatten.mp inside
    obtain ⟨c, other, rfl⟩ := all u listed
    exact other (List.mem_singleton.mp here).symm
  · rintro ⟨rest, without, rfl⟩
    refine ⟨_, rfl, rest, ⟨rest.map fun c => [c], ?_, fun u listed => ?_⟩, rfl⟩
    · exact (List.flatMap_singleton' rest).symm
    · obtain ⟨c, there, rfl⟩ := List.mem_map.mp listed
      exact ⟨c, fun same => without (same ▸ there), rfl⟩

theorem steady_dashes {rest : List Char} {pos : Nat} {failure : LexFailure}
    (failed : lex pos ('-' :: rest ++ ['/']) = .error failure) : Steady ('-' :: rest) := by
  by_cases line : '\n' ∈ rest
  · obtain ⟨w, more, rfl⟩ := List.append_of_mem line
    exact steady_line w more
  · by_cases double : rest.head? = some '-'
    · -- the comment takes in the stop
      exfalso
      cases rest with
      | nil => cases double
      | cons c rest =>
        cases Option.some.inj double
        have there : '-' :: '-' :: rest ++ ['/'] ∈ lineComment.language :=
          (mem_lineComment _).mpr ⟨rest ++ ['/'], by simp_all, rfl⟩
        have longest : lineComment.longest ('-' :: '-' :: rest ++ ['/']) =
            some ('-' :: '-' :: rest ++ ['/']).length := by
          obtain ⟨n, found, most⟩ := lineComment.longest_most there []
          rw [List.append_nil] at found
          obtain ⟨w, rest', joined, rfl, -⟩ := lineComment.longest_matches found
          have short : w.length ≤ _ := List.IsPrefix.length_le ⟨rest', joined.symm⟩
          exact found.trans (congrArg some (Nat.le_antisymm short most))
        have among : skip lineComment 4 ∈ rules := by
          simp [rules, ahead]
        obtain ⟨best, m, found, most⟩ := munch_most among longest (by simp)
        obtain ⟨listed, w, rest', joined, rfl, -, matched⟩ := munch_matches found
        replace joined := (List.IsPrefix.eq_of_length_le ⟨rest', joined.symm⟩ most).symm
        have never := rule_line best listed w matched (by simp [← joined]) (by simp [← joined])
        rw [joined] at found
        exact not_swallowed joined found never failed
    · exact steady_dash double

/-- The text before a stop is read in the same way whatever the stop begins. -/
theorem ends_of_admissible (text : List Char) (pos : Nat) (failure : LexFailure)
    (failed : lex pos (text ++ ['/']) = .error failure)
    (admissible : Admissible text pos failure) : Ends text pos failure := by
  induction length : text.length using Nat.strong_induction_on generalizing text pos with
  | _ n ih =>
    cases text with
    | nil =>
      have nothing : munch rules ['/'] = none := munch_lone_slash nofun
      have gives : lex pos ['/'] = .error (.lexerError pos) :=
        lex_nothing nothing pos
      refine .whole [] (Except.error.inj (gives.symm.trans failed)).symm fun more _ => ?_
      rw [List.nil_append, Reading.behind_nil]
    | cons c rest =>
      have later : ∀ w rest', c :: rest = w ++ rest' → w ≠ [] →
          lex (pos + extent Char.utf8Size w) (rest' ++ ['/']) = .error failure →
            Admissible rest' (pos + extent Char.utf8Size w) failure →
              Ends rest' (pos + extent Char.utf8Size w) failure := by
        intro w rest' joined some_ failed' admissible'
        have positive := List.length_pos_of_ne_nil some_
        have total := congrArg List.length joined
        rw [List.length_append] at total
        exact ih rest'.length (by omega) rest' _ failed' admissible' rfl
      by_cases blank_ : blank c = true
      · have one_ : extent Char.utf8Size [c] = c.utf8Size := by simp [extent]
        have skipped : lex (pos + extent Char.utf8Size [c]) (rest ++ ['/']) = .error failure := by
          rw [one_, ← lex_blank blank_ pos]
          exact failed
        have ends := later [c] rest rfl (List.cons_ne_nil _ _) skipped admissible.later
        apply ends.prepend []
        intro more _
        have same := congrArg readingOf (lex_blank blank_ 0 (rest ++ more))
        rw [readingOf_lex, readingOf_lex] at same
        rw [Reading.behind_nil]
        exact same
      · refine ends_step (List.cons_ne_nil _ _) ?_ failed admissible later
        by_cases quote : c = '\''
        · subst quote
          exact steady_quote failed admissible
        · by_cases slash : c = '/'
          · subst slash
            exact steady_slash failed admissible
          · by_cases dash : c = '-'
            · subst dash
              exact steady_dashes failed
            · exact steady_other rest (Bool.eq_false_iff.mpr blank_) quote slash dash

theorem Whole.outside {before : List Char} (whole : Whole before) : Outside before := by
  refine ⟨_, whole, fun read unread joined at_ => ?_⟩
  have place := LexFailure.lexerError.inj at_
  rw [joined, extent_append] at place
  cases unread with
  | nil => exact ⟨nofun, by simp⟩
  | cons c rest =>
    have size := extent_pos (List.cons_ne_nil c rest)
    omega

/-! ### Where a comment closes -/

/-- Read from the left, an asterisk takes the letter behind it along; a slash it cannot take. -/
def pairs : List Char → Bool
  | [] => true
  | ['*'] => false
  | '*' :: c :: rest => c ≠ '/' && pairs rest
  | _ :: rest => pairs rest

theorem pairs_part {u : List Char} (part : CommentPart u) (rest : List Char) :
    pairs (u ++ rest) = pairs rest := by
  rcases part with ⟨c, star, rfl⟩ | ⟨c, slash, rfl⟩
  · rw [List.singleton_append, pairs]
    all_goals simp [star]
  · simp [pairs, slash]

theorem pairs_iff (q : List Char) : pairs q = true ↔
    ∃ parts : List (List Char), (∀ u ∈ parts, CommentPart u) ∧ q = parts.flatten := by
  constructor
  · intro paired
    induction q using pairs.induct with
    | case1 => exact ⟨[], nofun, rfl⟩
    | case2 => cases paired
    | case3 c rest ih =>
      rw [pairs, Bool.and_eq_true, decide_eq_true_eq] at paired
      obtain ⟨parts, all, rfl⟩ := ih paired.2
      exact ⟨['*', c] :: parts, List.forall_mem_cons.mpr ⟨.inr ⟨c, paired.1, rfl⟩, all⟩, rfl⟩
    | case4 c rest alone more ih =>
      have star : c ≠ '*' := by
        rintro rfl
        cases rest with
        | nil => exact alone rfl rfl
        | cons d rest => exact more d rest rfl rfl
      rw [pairs] at paired
      · obtain ⟨parts, all, rfl⟩ := ih paired
        exact ⟨[c] :: parts, List.forall_mem_cons.mpr ⟨.inl ⟨c, star, rfl⟩, all⟩, rfl⟩
      all_goals simp [star]
  · rintro ⟨parts, all, rfl⟩
    induction parts with
    | nil => rfl
    | cons u parts ih =>
      obtain ⟨here, later⟩ := List.forall_mem_cons.mp all
      rw [List.flatten_cons, pairs_part here]
      exact ih later

def trailing (q : List Char) : Nat := (q.reverse.takeWhile (· = '*')).length

theorem trailing_cons (c : Char) (rest : List Char) : trailing (c :: rest) =
    if trailing rest = rest.length ∧ c = '*' then rest.length + 1 else trailing rest := by
  unfold trailing
  rw [List.reverse_cons, List.takeWhile_append, List.length_reverse]
  by_cases all : (rest.reverse.takeWhile (· = '*')).length = rest.length
  · by_cases star : c = '*'
    · simp [all, star]
    · simp [all, star]
  · simp [all]

theorem trailing_le (q : List Char) : trailing q ≤ q.length := by
  have shorter := (List.takeWhile_prefix (fun c => decide (c = '*')) (l := q.reverse)).length_le
  rwa [List.length_reverse] at shorter

/-- Without an end inside, it is the asterisks at the end that count. -/
theorem pairs_iff_even {q : List Char} (inner : ¬ ['*', '/'] <:+: q) :
    pairs q = true ↔ Even (trailing q) := by
  induction q using pairs.induct with
  | case1 => simp [pairs, trailing]
  | case2 => simp [pairs, trailing]
  | case3 c rest ih =>
    have slash : c ≠ '/' := by
      rintro rfl
      exact inner ⟨[], rest, rfl⟩
    have later : ¬ ['*', '/'] <:+: rest := fun inside =>
      inner (inside.trans (List.suffix_append ['*', c] rest).isInfix)
    have bound := trailing_le rest
    rw [pairs, Bool.and_eq_true, ih later, trailing_cons, trailing_cons]
    simp only [slash, ne_eq, not_false_eq_true, decide_true, true_and, List.length_cons, and_true]
    by_cases all : trailing rest = rest.length
    · by_cases star : c = '*'
      · simp [all, star, Nat.even_add_one]
      · have short : ¬ rest.length = rest.length + 1 := by omega
        simp [all, star]
    · have short : ¬ trailing rest = rest.length + 1 := by omega
      simp [all, short]
  | case4 c rest alone more ih =>
    have star : c ≠ '*' := by
      rintro rfl
      cases rest with
      | nil => exact alone rfl rfl
      | cons d rest => exact more d rest rfl rfl
    have later : ¬ ['*', '/'] <:+: rest := fun inside =>
      inner (inside.trans (List.suffix_append [c] rest).isInfix)
    rw [pairs, ih later, trailing_cons]
    all_goals simp [star]

theorem comment_matched_iff {body : List Char} (noHint : body.head? ≠ some '+')
    (inner : ¬ ['*', '/'] <:+: body) : comment body ∈ blockComment.language ↔ Closes body := by
  rw [mem_blockComment]
  constructor
  · rintro ⟨c, parts, -, all, same⟩
    have joined : body ++ ['*', '/'] = (c :: parts.flatten) ++ ['*', '/'] :=
      (List.cons.inj (List.cons.inj same).2).2
    obtain rfl := List.append_cancel_right joined
    have later : ¬ ['*', '/'] <:+: parts.flatten := fun inside =>
      inner (inside.trans (List.suffix_append [c] parts.flatten).isInfix)
    exact ⟨c, parts.flatten, rfl, (pairs_iff_even later).mp ((pairs_iff _).mpr ⟨parts, all, rfl⟩)⟩
  · rintro ⟨c, rest, rfl, even⟩
    have later : ¬ ['*', '/'] <:+: rest := fun inside =>
      inner (inside.trans (List.suffix_append [c] rest).isInfix)
    obtain ⟨parts, all, rfl⟩ := (pairs_iff rest).mp ((pairs_iff_even later).mpr even)
    exact ⟨c, parts, fun plus => noHint (congrArg some plus), all, rfl⟩

/-- Nothing else can be matched at the opening of a comment that does not close. -/
theorem munch_unclosed {body : List Char} (noHint : body.head? ≠ some '+')
    (inner : ¬ ['*', '/'] <:+: body) (unclosed : ¬ Closes body) : munch rules (comment body) = none := by
  cases found : munch rules (comment body) with
  | none => rfl
  | some best =>
    obtain ⟨⟨w, rest', joined, -, block | hint_⟩, -⟩ := munch_slash found
    · obtain ⟨c, parts, -, all, rfl⟩ := (mem_blockComment w).mp block
      have same : body ++ ['*', '/'] = (c :: parts.flatten) ++ (['*', '/'] ++ rest') := by
        simpa using (List.cons.inj (List.cons.inj joined).2).2
      have whole : body ≠ c :: parts.flatten := fun whole =>
        unclosed ((comment_matched_iff noHint inner).mp (by simpa [comment, whole] using block))
      exfalso
      rcases List.append_eq_append_iff.mp same with ⟨front, first, second⟩ | ⟨back, first, second⟩
      · -- no match reaches past the comment
        have length := congrArg List.length second
        simp only [List.length_append, List.length_cons, List.length_nil] at length
        have nothing : front = [] := List.length_eq_zero_iff.mp (by omega)
        exact whole (by simpa [nothing] using first.symm)
      · rcases back with _ | ⟨a, _ | ⟨b, back⟩⟩
        · exact whole (by simpa using first)
        · simp at second
        · obtain ⟨rfl, rfl, -⟩ : '*' = a ∧ '/' = b ∧ _ := by simpa using second
          exact inner ⟨c :: parts.flatten, back, by simp [first]⟩
    · obtain ⟨parts, -, rfl⟩ := (mem_hint w).mp hint_
      have same : body ++ ['*', '/'] = '+' :: (parts.flatten ++ (['*', '/'] ++ rest')) := by
        simpa using (List.cons.inj (List.cons.inj joined).2).2
      cases body with
      | nil => simp at same
      | cons c body => exact absurd (congrArg some (List.cons.inj same).1) noHint

theorem reading_blank {c : Char} (here : blank c = true) (rest : List Char) :
    reading (c :: rest) = reading rest := by
  have same := congrArg readingOf (lex_blank here 0 rest)
  rwa [readingOf_lex, readingOf_lex] at same

theorem reading_comment {body : List Char} (noHint : body.head? ≠ some '+')
    (inner : ¬ ['*', '/'] <:+: body) (closes : Closes body) (after : List Char) :
    reading (comment body ++ after) = reading after := by
  have matched := (comment_matched_iff noHint inner).mpr closes
  have longest : blockComment.longest (comment body ++ after) = some (comment body).length :=
    longest_eq _ matched (fun _ => blockComment_ends matched) after
  obtain ⟨c, rest, rfl, -⟩ := closes
  have other : c ≠ '+' := fun plus => noHint (congrArg some plus)
  have hints : hint.longest (comment (c :: rest) ++ after) = none := hint_blockComment other _
  have best : munch (rules.take 2 ++ skip blockComment 9 ::
      emit hint 5 (fun slice => .hint (hintText slice)) :: rules.drop 4)
        (comment (c :: rest) ++ after) =
      some (skip blockComment 9, (comment (c :: rest)).length) := by
    have others : ∀ rule ∈ rules.take 2 ++ rules.drop 4, rule.regex.starts '/' = false := by
      decide +kernel
    refine munch_alone (fun other there => ?_) (fun other there => ?_) longest
    · exact other.regex.longest_none (others other (List.mem_append_left _ there)) _
    · rcases List.mem_cons.mp there with rfl | there
      · exact fun n found => nomatch hints.symm.trans found
      · exact other.regex.longest_none (others other (List.mem_append_right _ there)) _
  exact reading_skip (List.cons_ne_nil _ _) best rfl

theorem reading_unclosed {body : List Char} (noHint : body.head? ≠ some '+')
    (inner : ¬ ['*', '/'] <:+: body) (unclosed : ¬ Closes body) :
    reading (comment body) = .lexerError := by
  have gives : lex 0 (comment body) = .error (.lexerError 0) :=
    lex_nothing (munch_unclosed noHint inner unclosed) 0
  unfold reading
  rw [gives]
  rfl

/-- Outside literals and other comments, a comment is as good as a blank, whatever comes behind it,
exactly if the asterisks of its body pair up or the text before it cannot be read itself. -/
theorem comment_ends_iff {before body : List Char} (outside : Outside before)
    (noHint : body.head? ≠ some '+') (inner : ¬ ['*', '/'] <:+: body) :
    (∀ after, reading (before ++ comment body ++ after) = reading (before ++ ' ' :: after)) ↔
      (Whole before → Closes body) := by
  obtain ⟨failure, failed, admissible⟩ := outside
  have stop (after : List Char) : Stop (comment body ++ after) := ⟨'/', _, rfl, .inl rfl⟩
  have stop' (after : List Char) : Stop (' ' :: after) := ⟨' ', after, rfl, .inr rfl⟩
  cases ends_of_admissible before 0 failure failed admissible with
  | broken fails ahead_ noTokens reads =>
    have broken : ¬ Whole before := fun whole =>
      ahead_ ((Except.error.inj (failed.symm.trans whole)).trans (by rw [Nat.zero_add]))
    refine iff_of_true (fun after => ?_) fun whole => absurd whole broken
    rw [List.append_assoc, reads _ (stop after), reads _ (stop' after)]
  | whole tokens at_ reads =>
    have whole : Whole before := by
      rw [Whole, failed, at_, Nat.zero_add]
    have both (after : List Char) :
        reading (before ++ comment body ++ after) = (reading (comment body ++ after)).behind tokens ∧
          reading (before ++ ' ' :: after) = (reading after).behind tokens := by
      rw [List.append_assoc, reads _ (stop after), reads _ (stop' after), reading_blank rfl after]
      exact ⟨rfl, rfl⟩
    constructor
    · intro same _
      by_contra unclosed
      have here := same []
      rw [(both []).1, (both []).2, List.append_nil, reading_unclosed noHint inner unclosed] at here
      cases here
    · intro closes after
      rw [(both after).1, (both after).2, reading_comment noHint inner (closes whole)]

/-- A statement behind an ordinary comment. -/
theorem comment_ends_here :
    reading ("FETCH".toList ++ comment " all **".toList ++ " t".toList) =
      reading ("FETCH".toList ++ ' ' :: " t".toList) := by
  have whole : Whole "FETCH".toList := by
    unfold Whole
    decide +kernel
  exact (comment_ends_iff whole.outside (by decide) (by decide)).mpr
    (fun _ => ⟨' ', "all **".toList, rfl, by decide⟩) " t".toList

/-- A single asterisk at the end of the body pairs up with the one that is to close the comment. -/
theorem comment_runs_on : ¬ ∀ before body after : List Char, Outside before →
    body.head? ≠ some '+' → ¬ ['*', '/'] <:+: body →
      reading (before ++ comment body ++ after) = reading (before ++ ' ' :: after) := by
  intro always
  have whole : Whole [] := by
    unfold Whole
    decide +kernel
  have single : ¬ Closes " one *".toList := by
    rintro ⟨c, rest, same, even⟩
    obtain ⟨-, rfl⟩ := List.cons.inj same
    exact absurd even (by decide)
  have same := always [] " one *".toList [] whole.outside (by decide) (by decide)
  have fails : reading (comment " one *".toList) = .lexerError :=
    reading_unclosed (by decide) (by decide) single
  have passes : reading [' '] = reading [] := reading_blank rfl []
  rw [List.nil_append, List.append_nil, List.nil_append, fails, passes] at same
  cases same

end TronDB.Tql
