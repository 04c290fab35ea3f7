import TronDB.Core.Where
import TronDB.Lib.Splitting

/-! LIKE: the values a pattern matches. -/
namespace TronDB.Core
open Splitting

def Stands : Char → List Char → Prop
  | '%', _ => True
  | '_', part => ∃ v, part = [v]
  | c, part => part = [c]

theorem stands_itself {c : Char} (percent : c ≠ '%') (underscore : c ≠ '_') (part : List Char) :
    Stands c part ↔ ∃ v, v = c ∧ part = [v] := by
  unfold Stands
  simp

theorem likeMatchRecursive_itself {c : Char} (percent : c ≠ '%') (underscore : c ≠ '_')
    (pattern value : List Char) :
    likeMatchRecursive (c :: pattern) value = true ↔
      ∃ v rest, value = v :: rest ∧ v = c ∧ likeMatchRecursive pattern rest = true := by
  cases value with
  | nil => simp [likeMatchRecursive]
  | cons v rest => simp [likeMatchRecursive]

theorem likeMatchRecursive_iff (pattern value : List Char) :
    likeMatchRecursive pattern value = true ↔ Splits Stands pattern value := by
  induction pattern generalizing value with
  | nil => simp [likeMatchRecursive, splits_nil]
  | cons c pattern ih =>
    by_cases percent : c = '%'
    · subst percent
      rw [splits_any fun _ => trivial, likeMatchRecursive, List.any_eq_true]
      simp only [ih]
    · by_cases underscore : c = '_'
      · subst underscore
        have single (part : List Char) : Stands '_' part ↔ ∃ v, True ∧ part = [v] := by
          simp [Stands]
        rw [splits_single single]
        cases value with
        | nil => simp [likeMatchRecursive]
        | cons v rest => simp [likeMatchRecursive, ih]
      · rw [splits_single (stands_itself percent underscore),
          likeMatchRecursive_itself percent underscore]
        simp only [ih]

/-- LIKE matches the values that can be split according to the pattern, and no others. -/
theorem likeMatch_iff (value pattern : String) :
    likeMatch value pattern = true ↔ Splits Stands pattern.toList value.toList :=
  likeMatchRecursive_iff pattern.toList value.toList

example : likeMatch "berlin" "b%l_n%" = true := by decide

end TronDB.Core
