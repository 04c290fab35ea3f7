import Mathlib.Computability.Language
import Mathlib.Tactic.Ring

/-! Regular expressions over classes of letters, and lexers that take the longest match. -/
namespace Lexing

inductive Regex (α : Type) where
  | never
  | epsilon
  | one (p : α → Bool)
  | alt (r s : Regex α)
  | seq (r s : Regex α)
  | star (r : Regex α)

namespace Regex

variable {α : Type}

def plus (r : Regex α) : Regex α := seq r (star r)

def opt (r : Regex α) : Regex α := alt epsilon r

def word (ps : List (α → Bool)) : Regex α := ps.foldr (fun p r => seq (one p) r) epsilon

def language : Regex α → Language α
  | never => 0
  | epsilon => 1
  | one p => {w | ∃ a, p a = true ∧ w = [a]}
  | alt r s => r.language + s.language
  | seq r s => r.language * s.language
  | star r => KStar.kstar r.language

def nullable : Regex α → Bool
  | never => false
  | epsilon => true
  | one _ => false
  | alt r s => r.nullable || s.nullable
  | seq r s => r.nullable && s.nullable
  | star _ => true

def deriv (a : α) : Regex α → Regex α
  | never => never
  | epsilon => never
  | one p => if p a then epsilon else never
  | alt r s => alt (r.deriv a) (s.deriv a)
  | seq r s => if r.nullable then alt (seq (r.deriv a) s) (s.deriv a) else seq (r.deriv a) s
  | star r => seq (r.deriv a) (star r)

def starts (a : α) : Regex α → Bool
  | never => false
  | epsilon => false
  | one p => p a
  | alt r s => r.starts a || s.starts a
  | seq r s => r.starts a || (r.nullable && s.starts a)
  | star r => r.starts a

theorem nullable_one (p : α → Bool) : (one p).nullable = false := rfl

theorem nullable_seq (r s : Regex α) : (seq r s).nullable = (r.nullable && s.nullable) := rfl

theorem starts_one (p : α → Bool) (a : α) : (one p).starts a = p a := rfl

theorem starts_seq (r s : Regex α) (a : α) :
    (seq r s).starts a = (r.starts a || (r.nullable && s.starts a)) := rfl

theorem starts_star (r : Regex α) (a : α) : (star r).starts a = r.starts a := rfl

theorem mem_one (p : α → Bool) (w : List α) : w ∈ (one p).language ↔ ∃ a, p a = true ∧ w = [a] := Iff.rfl

theorem mem_alt (r s : Regex α) (w : List α) :
    w ∈ (alt r s).language ↔ w ∈ r.language ∨ w ∈ s.language := Iff.rfl

theorem mem_seq (r s : Regex α) (w : List α) :
    w ∈ (seq r s).language ↔ ∃ u ∈ r.language, ∃ v ∈ s.language, u ++ v = w := Language.mem_mul

theorem mem_star (r : Regex α) (w : List α) :
    w ∈ (star r).language ↔ ∃ words : List (List α), w = words.flatten ∧ ∀ u ∈ words, u ∈ r.language :=
  Language.mem_kstar

theorem nullable_iff (r : Regex α) : r.nullable = true ↔ [] ∈ r.language := by
  induction r with
  | never => exact iff_of_false Bool.false_ne_true fun there => there
  | epsilon => exact iff_of_true rfl rfl
  | one p => exact iff_of_false Bool.false_ne_true fun ⟨a, _, this⟩ => nomatch this
  | alt r s ihr ihs => rw [nullable, Bool.or_eq_true, mem_alt, ihr, ihs]
  | seq r s ihr ihs =>
    rw [nullable, Bool.and_eq_true, mem_seq, ihr, ihs]
    constructor
    · rintro ⟨left, right⟩
      exact ⟨[], left, [], right, rfl⟩
    · rintro ⟨u, left, v, right, joined⟩
      obtain ⟨rfl, rfl⟩ := List.append_eq_nil_iff.mp joined
      exact ⟨left, right⟩
  | star r ih => exact iff_of_true rfl (Language.nil_mem_kstar _)

theorem cons_mem_star (r : Regex α) (a : α) (w : List α) : a :: w ∈ (star r).language ↔
    ∃ u v, a :: u ∈ r.language ∧ v ∈ (star r).language ∧ u ++ v = w := by
  constructor
  · intro there
    obtain ⟨words, joined, all⟩ := Language.mem_kstar_iff_exists_nonempty.mp there
    cases words with
    | nil => cases joined
    | cons u rest =>
      rw [List.forall_mem_cons] at all
      cases u with
      | nil => exact absurd rfl all.1.2
      | cons b u =>
        obtain ⟨rfl, rfl⟩ := List.cons.inj joined
        exact ⟨u, rest.flatten, all.1.1, Language.join_mem_kstar fun w listed => (all.2 w listed).1, rfl⟩
  · rintro ⟨u, v, first, rest, rfl⟩
    obtain ⟨words, rfl, all⟩ := Language.mem_kstar.mp rest
    exact Language.mem_kstar.mpr ⟨(a :: u) :: words, rfl, List.forall_mem_cons.mpr ⟨first, all⟩⟩

theorem mem_deriv (r : Regex α) (a : α) (w : List α) :
    w ∈ (r.deriv a).language ↔ a :: w ∈ r.language := by
  induction r generalizing w with
  | never => exact Iff.rfl
  | epsilon => exact iff_of_false (fun there => there) (List.cons_ne_nil a w)
  | one p =>
    unfold deriv
    by_cases inside : p a = true
    · rw [if_pos inside]
      constructor
      · rintro rfl
        exact ⟨a, inside, rfl⟩
      · rintro ⟨b, _, same⟩
        exact (List.cons.inj same).2
    · rw [if_neg inside]
      refine iff_of_false (fun there => there) ?_
      rintro ⟨b, this, same⟩
      exact inside ((List.cons.inj same).1 ▸ this)
  | alt r s ihr ihs => simp only [deriv, mem_alt, ihr, ihs]
  | star r ih =>
    rw [cons_mem_star]
    constructor
    · rintro ⟨u, first, v, rest, joined⟩
      exact ⟨u, v, (ih u).mp first, rest, joined⟩
    · rintro ⟨u, v, first, rest, joined⟩
      exact ⟨u, (ih u).mpr first, v, rest, joined⟩
  | seq r s ihr ihs =>
    -- the first word takes the letter, or is empty and leaves it to the second
    have split : a :: w ∈ (seq r s).language ↔
        (∃ u, a :: u ∈ r.language ∧ ∃ v ∈ s.language, u ++ v = w) ∨
          r.nullable = true ∧ a :: w ∈ s.language := by
      rw [mem_seq]
      constructor
      · rintro ⟨u, first, v, second, joined⟩
        cases u with
        | nil => exact .inr ⟨r.nullable_iff.mpr first, joined ▸ second⟩
        | cons b u =>
          obtain ⟨rfl, same⟩ := List.cons.inj joined
          exact .inl ⟨u, first, v, second, same⟩
      · rintro (⟨u, first, v, second, joined⟩ | ⟨empty, second⟩)
        · exact ⟨a :: u, first, v, second, congrArg _ joined⟩
        · exact ⟨[], r.nullable_iff.mp empty, _, second, rfl⟩
    rw [split]
    unfold deriv
    by_cases empty : r.nullable = true
    · simp only [empty, if_true, mem_alt, mem_seq, ihr, ihs, true_and]
    · simp only [empty, if_false, mem_seq, ihr, Bool.false_eq_true, false_and, or_false]

theorem starts_of_mem {r : Regex α} {a : α} {w : List α} (there : a :: w ∈ r.language) :
    r.starts a = true := by
  induction r generalizing w with
  | never => exact there.elim
  | epsilon => exact absurd there (List.cons_ne_nil a w)
  | one p =>
    obtain ⟨b, inside, same⟩ := there
    exact (List.cons.inj same).1 ▸ inside
  | alt r s ihr ihs => exact Bool.or_eq_true_iff.mpr (there.imp ihr ihs)
  | seq r s ihr ihs =>
    obtain ⟨u, first, v, second, joined⟩ := there
    cases u with
    | nil =>
      have later := ihs (joined ▸ second : a :: w ∈ s.language)
      exact Bool.or_eq_true_iff.mpr (.inr (Bool.and_eq_true_iff.mpr ⟨r.nullable_iff.mpr first, later⟩))
    | cons b u =>
      obtain ⟨rfl, -⟩ := List.cons.inj joined
      exact Bool.or_eq_true_iff.mpr (.inl (ihr first))
  | star r ih =>
    obtain ⟨u, v, first, -, -⟩ := (cons_mem_star r a w).mp there
    exact ih first

def spares (a : α) : Regex α → Bool
  | never => true
  | epsilon => true
  | one p => !p a
  | alt r s => r.spares a && s.spares a
  | seq r s => r.spares a && s.spares a
  | star r => r.spares a

theorem not_mem_of_spares {r : Regex α} {a : α} (spared : r.spares a = true) {w : List α}
    (there : w ∈ r.language) : a ∉ w := by
  induction r generalizing w with
  | never => exact there.elim
  | epsilon => exact (show w = [] from there) ▸ List.not_mem_nil
  | one p =>
    obtain ⟨b, inside, rfl⟩ := there
    intro same
    cases List.mem_singleton.mp same
    simp [spares, inside] at spared
  | alt r s ihr ihs =>
    have both := Bool.and_eq_true_iff.mp spared
    exact there.elim (ihr both.1) (ihs both.2)
  | seq r s ihr ihs =>
    have both := Bool.and_eq_true_iff.mp spared
    obtain ⟨u, first, v, second, rfl⟩ := (mem_seq r s w).mp there
    intro inside
    exact (List.mem_append.mp inside).elim (ihr both.1 first) (ihs both.2 second)
  | star r ih =>
    obtain ⟨words, rfl, all⟩ := (mem_star r w).mp there
    intro inside
    obtain ⟨u, listed, here⟩ := List.mem_flatten.mp inside
    exact ih spared (all u listed) here

theorem starts_of_spares {r : Regex α} {a : α} (spared : r.spares a = true) : r.starts a = false := by
  induction r with
  | never => rfl
  | epsilon => rfl
  | one p => simpa [spares, starts] using spared
  | alt r s ihr ihs =>
    have both := Bool.and_eq_true_iff.mp spared
    simp [starts, ihr both.1, ihs both.2]
  | seq r s ihr ihs =>
    have both := Bool.and_eq_true_iff.mp spared
    simp [starts, ihr both.1, ihs both.2]
  | star r ih => exact ih spared

/-! ### The longest prefix -/

/-- The length of the longest prefix that matches. -/
def longest : Regex α → List α → Option Nat
  | r, [] => if r.nullable then some 0 else none
  | r, a :: rest =>
    match (r.deriv a).longest rest with
    | some n => some (n + 1)
    | none => if r.nullable then some 0 else none

theorem longest_cons (r : Regex α) (a : α) (rest : List α) : r.longest (a :: rest) =
    match (r.deriv a).longest rest with
    | some n => some (n + 1)
    | none => if r.nullable then some 0 else none := rfl

theorem longest_nil (r : Regex α) {n : Nat} (found : (if r.nullable then some 0 else none) = some n) :
    n = 0 ∧ [] ∈ r.language := by
  by_cases empty : r.nullable = true
  · rw [if_pos empty] at found
    exact ⟨(Option.some.inj found).symm, r.nullable_iff.mp empty⟩
  · rw [if_neg empty] at found
    cases found

theorem longest_matches (r : Regex α) {text : List α} {n : Nat} (found : r.longest text = some n) :
    ∃ w rest, text = w ++ rest ∧ w.length = n ∧ w ∈ r.language := by
  induction text generalizing r n with
  | nil =>
    obtain ⟨rfl, empty⟩ := r.longest_nil found
    exact ⟨[], [], rfl, rfl, empty⟩
  | cons a text ih =>
    rw [longest_cons] at found
    cases later : (r.deriv a).longest text with
    | some m =>
      rw [later] at found
      cases found
      obtain ⟨w, rest, rfl, rfl, there⟩ := ih (r.deriv a) later
      exact ⟨a :: w, rest, rfl, rfl, (r.mem_deriv a w).mp there⟩
    | none =>
      rw [later] at found
      obtain ⟨rfl, empty⟩ := r.longest_nil found
      exact ⟨[], a :: text, rfl, rfl, empty⟩

theorem longest_most (r : Regex α) {w : List α} (there : w ∈ r.language) (rest : List α) :
    ∃ n, r.longest (w ++ rest) = some n ∧ w.length ≤ n := by
  induction w generalizing r with
  | nil =>
    have empty := r.nullable_iff.mpr there
    cases rest with
    | nil => exact ⟨0, if_pos empty, Nat.le_refl 0⟩
    | cons a rest =>
      rw [List.nil_append, longest_cons]
      cases (r.deriv a).longest rest with
      | some n => exact ⟨n + 1, rfl, Nat.zero_le _⟩
      | none => exact ⟨0, if_pos empty, Nat.le_refl 0⟩
  | cons a w ih =>
    obtain ⟨n, found, most⟩ := ih (r.deriv a) ((r.mem_deriv a w).mpr there)
    refine ⟨n + 1, ?_, Nat.succ_le_succ most⟩
    rw [List.cons_append, longest_cons, found]

theorem longest_eq (r : Regex α) {w : List α} (there : w ∈ r.language)
    (ends : ∀ v, w ++ v ∈ r.language → v = []) (rest : List α) :
    r.longest (w ++ rest) = some w.length := by
  obtain ⟨n, found, most⟩ := r.longest_most there rest
  obtain ⟨w', rest', joined, rfl, matched⟩ := r.longest_matches found
  obtain ⟨v, rfl⟩ : w <+: w' :=
    List.prefix_of_prefix_length_le (List.prefix_append w rest) ⟨rest', joined.symm⟩ most
  rw [found, ends v matched, List.append_nil]

theorem longest_none (r : Regex α) {a : α} (other : r.starts a = false) (text : List α) :
    ∀ n, r.longest (a :: text) = some n → n = 0 := by
  intro n found
  obtain ⟨w, rest, joined, rfl, matched⟩ := r.longest_matches found
  cases w with
  | nil => rfl
  | cons b w =>
    obtain ⟨rfl, -⟩ := List.cons.inj joined
    cases other.symm.trans (starts_of_mem matched)

theorem longest_other (r : Regex α) {a : α} (other : r.starts a = false) (text text' : List α) :
    r.longest (a :: text) = r.longest (a :: text') := by
  have nothing (text : List α) : (r.deriv a).longest text = none := by
    cases found : (r.deriv a).longest text with
    | none => rfl
    | some n =>
      have more : r.longest (a :: text) = some (n + 1) := by simp [longest_cons, found]
      cases r.longest_none other text _ more
  simp [longest_cons, nothing]

theorem longest_stops {r : Regex α} {a : α} (without : ∀ w ∈ r.language, a ∉ w) (w rest : List α) :
    r.longest (w ++ a :: rest) = r.longest w := by
  induction w generalizing r with
  | nil =>
    have nothing : (r.deriv a).longest rest = none := by
      cases found : (r.deriv a).longest rest with
      | none => rfl
      | some n =>
        obtain ⟨u, _, -, -, there⟩ := longest_matches _ found
        exact absurd (List.mem_cons_self ..) (without _ ((r.mem_deriv a u).mp there))
    rw [List.nil_append, longest_cons, nothing]
    rfl
  | cons b w ih =>
    have later : ∀ u ∈ (r.deriv b).language, a ∉ u := fun u there inside =>
      without _ ((r.mem_deriv b u).mp there) (List.mem_cons_of_mem b inside)
    simp [longest_cons, ih later]

theorem parts_end {part : List α → Prop} {stop : List α}
    (code : ∀ u u', part u → part u' → ∀ v v', u ++ v = u' ++ v' → u = u')
    (apart : ∀ u, part u → ∀ v v', u ++ v ≠ stop ++ v')
    {parts more : List (List α)} (all : ∀ u ∈ parts, part u) (all' : ∀ u ∈ more, part u)
    {v : List α} (joined : parts.flatten ++ stop ++ v = more.flatten ++ stop) : v = [] := by
  induction parts generalizing more with
  | nil =>
    cases more with
    | nil => simpa using joined
    | cons u' more =>
      have first := all' u' (List.mem_cons_self ..)
      exact absurd (by simpa using joined.symm) (apart u' first (more.flatten ++ stop) v)
  | cons u parts ih =>
    obtain ⟨here, later⟩ := List.forall_mem_cons.mp all
    cases more with
    | nil => exact absurd (by simpa using joined) (apart u here (parts.flatten ++ stop ++ v) [])
    | cons u' more =>
      obtain ⟨here', later'⟩ := List.forall_mem_cons.mp all'
      simp only [List.flatten_cons, List.append_assoc] at joined
      cases code u u' here here' _ _ joined
      exact ih later later' (by simpa using List.append_cancel_left joined)

end Regex
/-! ### Lexers -/

/-- A regular expression with what is made of its matches: nothing when they are passed over. -/
structure Rule (α E T : Type) where
  regex : Regex α
  priority : Nat
  action : List α → Except E (Option T)

section Lexers
variable {α E T : Type}

/-- The longer of two matches, and of two equally long ones that of the higher priority. -/
def better (best : Option (Rule α E T × Nat)) (rule : Rule α E T) (n : Nat) :
    Option (Rule α E T × Nat) :=
  match best with
  | none => some (rule, n)
  | some (other, m) =>
    if m < n ∨ m = n ∧ other.priority < rule.priority then some (rule, n) else some (other, m)

/-- The best match at the start of the text that is not empty. -/
def munch (rules : List (Rule α E T)) (text : List α) : Option (Rule α E T × Nat) :=
  rules.foldl (fun best rule =>
    match rule.regex.longest text with
    | none | some 0 => best
    | some (n + 1) => better best rule (n + 1)) none

variable (rules : List (Rule α E T)) (width : α → Nat) (mismatch : Nat → E)

/-- The tokens of a text with the places they start at. The first number counts the letters that
belong to the last match. -/
def scan : Nat → Nat → List α → Except E (List (T × Nat))
  | _, _, [] => .ok []
  | matched + 1, pos, a :: rest => scan matched (pos + width a) rest
  | 0, pos, a :: rest =>
    match munch rules (a :: rest) with
    | none => .error (mismatch pos)
    | some (rule, n) =>
      match rule.action ((a :: rest).take n) with
      | .error e => .error e
      | .ok none => scan (n - 1) (pos + width a) rest
      | .ok (some token) =>
        match scan (n - 1) (pos + width a) rest with
        | .error e => .error e
        | .ok tokens => .ok ((token, pos) :: tokens)

theorem scan_succ (matched pos : Nat) (a : α) (rest : List α) :
    scan rules width mismatch (matched + 1) pos (a :: rest) =
      scan rules width mismatch matched (pos + width a) rest := rfl

theorem scan_zero (pos : Nat) (a : α) (rest : List α) :
    scan rules width mismatch 0 pos (a :: rest) =
      match munch rules (a :: rest) with
      | none => .error (mismatch pos)
      | some (rule, n) =>
        match rule.action ((a :: rest).take n) with
        | .error e => .error e
        | .ok none => scan rules width mismatch (n - 1) (pos + width a) rest
        | .ok (some token) =>
          match scan rules width mismatch (n - 1) (pos + width a) rest with
          | .error e => .error e
          | .ok tokens => .ok ((token, pos) :: tokens) := rfl

def extent (w : List α) : Nat := (w.map width).sum

theorem scan_matched (w rest : List α) (pos : Nat) :
    scan rules width mismatch w.length pos (w ++ rest) =
      scan rules width mismatch 0 (pos + extent width w) rest := by
  induction w generalizing pos with
  | nil => rfl
  | cons a w ih =>
    rw [List.cons_append, List.length_cons, scan_succ, ih]
    simp only [extent, List.map_cons, List.sum_cons, Nat.add_assoc]

variable {rules}

/-- One turn takes the best match, and goes on behind it unless the action fails. -/
theorem scan_best {rule : Rule α E T} {w rest : List α} (some_ : w ≠ [])
    (best : munch rules (w ++ rest) = some (rule, w.length)) (pos : Nat) :
    scan rules width mismatch 0 pos (w ++ rest) = (rule.action w).bind fun made =>
      (scan rules width mismatch 0 (pos + extent width w) rest).map fun tokens =>
        made.toList.map (·, pos) ++ tokens := by
  cases w with
  | nil => exact absurd rfl some_
  | cons a w =>
    have taken : (a :: (w ++ rest)).take (w.length + 1) = a :: w :=
      List.take_left' (rfl : (a :: w).length = w.length + 1)
    have later := scan_matched rules width mismatch w rest (pos + width a)
    rw [List.cons_append, List.length_cons] at best
    rw [List.cons_append, scan_zero, best]
    dsimp only
    rw [taken, Nat.add_sub_cancel, later]
    simp only [extent, List.map_cons, List.sum_cons, ← Nat.add_assoc]
    cases rule.action (a :: w) with
    | error e => rfl
    | ok made => cases made <;> cases scan rules width mismatch 0 (pos + width a + (w.map width).sum) rest <;> rfl

theorem scan_token {rule : Rule α E T} {w rest : List α} {token : T} (some_ : w ≠ [])
    (best : munch rules (w ++ rest) = some (rule, w.length)) (makes : rule.action w = .ok (some token))
    (pos : Nat) : scan rules width mismatch 0 pos (w ++ rest) =
      (scan rules width mismatch 0 (pos + extent width w) rest).map fun tokens => (token, pos) :: tokens := by
  rw [scan_best width mismatch some_ best, makes]
  rfl

theorem munch_skip {text : List α} (before : List (Rule α E T))
    (others : ∀ rule ∈ before, ∀ n, rule.regex.longest text = some n → n = 0)
    (best : Option (Rule α E T × Nat)) :
    before.foldl (fun best rule =>
      match rule.regex.longest text with
      | none | some 0 => best
      | some (n + 1) => better best rule (n + 1)) best = best := by
  induction before with
  | nil => rfl
  | cons rule rest ih =>
    rw [List.forall_mem_cons] at others
    rw [List.foldl_cons]
    cases found : rule.regex.longest text with
    | none => exact ih others.2
    | some n =>
      cases others.1 n found
      exact ih others.2

theorem munch_alone {before after : List (Rule α E T)} {rule : Rule α E T} {text : List α} {n : Nat}
    (earlier : ∀ other ∈ before, ∀ n, other.regex.longest text = some n → n = 0)
    (later : ∀ other ∈ after, ∀ n, other.regex.longest text = some n → n = 0)
    (matched : rule.regex.longest text = some (n + 1)) :
    munch (before ++ rule :: after) text = some (rule, n + 1) := by
  unfold munch
  rw [List.foldl_append, List.foldl_cons, munch_skip before earlier, matched]
  exact munch_skip after later _

theorem munch_only {a : α} {before after : List (Rule α E T)} {rule : Rule α E T} {w : List α}
    (earlier : ∀ other ∈ before, other.regex.starts a = false)
    (later : ∀ other ∈ after, other.regex.starts a = false) {rest : List α}
    (matched : rule.regex.longest ((a :: w) ++ rest) = some (a :: w).length) :
    munch (before ++ rule :: after) ((a :: w) ++ rest) = some (rule, (a :: w).length) :=
  munch_alone (fun other there => other.regex.longest_none (earlier other there) _)
    (fun other there => other.regex.longest_none (later other there) _) matched

theorem scan_skip {rule : Rule α E T} {w rest : List α} (some_ : w ≠ [])
    (best : munch rules (w ++ rest) = some (rule, w.length)) (makes : rule.action w = .ok none)
    (pos : Nat) : scan rules width mismatch 0 pos (w ++ rest) =
      scan rules width mismatch 0 (pos + extent width w) rest := by
  rw [scan_best width mismatch some_ best, makes]
  cases scan rules width mismatch 0 (pos + extent width w) rest <;> rfl

theorem scan_failed {rule : Rule α E T} {w rest : List α} {e : E} (some_ : w ≠ [])
    (best : munch rules (w ++ rest) = some (rule, w.length)) (fails : rule.action w = .error e)
    (pos : Nat) : scan rules width mismatch 0 pos (w ++ rest) = .error e := by
  rw [scan_best width mismatch some_ best, fails]
  rfl

theorem scan_mismatch {a : α} {text : List α} (nothing : munch rules (a :: text) = none) (pos : Nat) :
    scan rules width mismatch 0 pos (a :: text) = .error (mismatch pos) := by
  simp only [scan_zero, nothing]

theorem munch_congr {text text' : List α}
    (same : ∀ rule ∈ rules, rule.regex.longest text = rule.regex.longest text') :
    munch rules text = munch rules text' := by
  unfold munch
  generalize (none : Option (Rule α E T × Nat)) = best
  induction rules generalizing best with
  | nil => rfl
  | cons rule rest ih =>
    obtain ⟨here, later⟩ := List.forall_mem_cons.mp same
    simp only [List.foldl_cons, here]
    exact ih later _

theorem munch_matches {text : List α} {rule : Rule α E T} {n : Nat}
    (best : munch rules text = some (rule, n)) :
    rule ∈ rules ∧ ∃ w rest, text = w ++ rest ∧ w.length = n ∧ w ≠ [] ∧ w ∈ rule.regex.language := by
  have all (found : Option (Rule α E T × Nat))
      (so_far : ∀ rule n, found = some (rule, n) → rule ∈ rules ∧ 0 < n ∧ rule.regex.longest text = some n)
      (tried : List (Rule α E T)) (among : ∀ rule ∈ tried, rule ∈ rules) :
      ∀ rule n, tried.foldl (fun best rule =>
        match rule.regex.longest text with
        | none | some 0 => best
        | some (n + 1) => better best rule (n + 1)) found = some (rule, n) →
          rule ∈ rules ∧ 0 < n ∧ rule.regex.longest text = some n := by
    induction tried generalizing found with
    | nil => exact so_far
    | cons tried rest ih =>
      obtain ⟨here, later⟩ := List.forall_mem_cons.mp among
      rw [List.foldl_cons]
      apply ih _ _ later
      intro rule n taken
      split at taken
      · exact so_far rule n taken
      · exact so_far rule n taken
      · rename_i m longest
        unfold better at taken
        split at taken
        · cases taken
          exact ⟨here, Nat.succ_pos m, longest⟩
        · split at taken
          · cases taken
            exact ⟨here, Nat.succ_pos m, longest⟩
          · exact so_far rule n taken
  obtain ⟨listed, positive, longest⟩ := all none nofun rules (fun _ there => there) rule n best
  obtain ⟨w, rest, joined, rfl, there⟩ := rule.regex.longest_matches longest
  exact ⟨listed, w, rest, joined, rfl, List.ne_nil_of_length_pos positive, there⟩

theorem munch_most {text : List α} {rule : Rule α E T} (there : rule ∈ rules) {n : Nat}
    (longest : rule.regex.longest text = some n) (positive : 0 < n) :
    ∃ best m, munch rules text = some (best, m) ∧ n ≤ m := by
  have grows (tried : List (Rule α E T)) (found : Option (Rule α E T × Nat)) {m : Nat}
      (enough : ∃ best k, found = some (best, k) ∧ m ≤ k) :
      ∃ best k, tried.foldl (fun best rule =>
        match rule.regex.longest text with
        | none | some 0 => best
        | some (n + 1) => better best rule (n + 1)) found = some (best, k) ∧ m ≤ k := by
    induction tried generalizing found with
    | nil => exact enough
    | cons tried rest ih =>
      rw [List.foldl_cons]
      apply ih
      obtain ⟨best, k, rfl, bound⟩ := enough
      split
      · exact ⟨best, k, rfl, bound⟩
      · exact ⟨best, k, rfl, bound⟩
      · rename_i l _
        unfold better
        dsimp only
        split
        · rename_i longer
          exact ⟨tried, l + 1, rfl, by omega⟩
        · exact ⟨best, k, rfl, bound⟩
  obtain ⟨before, after, rfl⟩ := List.append_of_mem there
  unfold munch
  rw [List.foldl_append, List.foldl_cons]
  apply grows
  rw [longest]
  generalize before.foldl _ none = found
  cases n with
  | zero => exact absurd positive (Nat.lt_irrefl 0)
  | succ n =>
    dsimp only
    cases found with
    | none => exact ⟨rule, n + 1, rfl, Nat.le_refl _⟩
    | some found =>
      unfold better
      dsimp only
      split
      · exact ⟨rule, n + 1, rfl, Nat.le_refl _⟩
      · rename_i shorter
        exact ⟨found.1, found.2, rfl, by omega⟩

end Lexers
end Lexing
