import Mathlib.Data.List.Basic

/-! Truth values joined by AND and OR: from the left with both on one level, and with AND the
tighter of the two. -/
namespace Connectives

inductive Connective where
  | and | or
  deriving DecidableEq

namespace Connective

def apply : Connective → Bool → Bool → Bool
  | .and => Bool.and
  | .or => Bool.or

end Connective

def leftValue (b : Bool) (more : List (Connective × Bool)) : Bool :=
  more.foldl (fun acc (c, b) => c.apply acc b) b

/-- What stands before the first OR is one conjunction. -/
def standardValue (b : Bool) : List (Connective × Bool) → Bool
  | [] => b
  | (.and, b') :: more => standardValue (b && b') more
  | (.or, b') :: more => b || standardValue b' more

def AndsFirst (connectives : List Connective) : Prop :=
  connectives.Pairwise fun earlier later => earlier = .or → later = .or

instance (connectives : List Connective) : Decidable (AndsFirst connectives) :=
  inferInstanceAs (Decidable (List.Pairwise _ _))

theorem andsFirst_and {cs : List Connective} : AndsFirst (.and :: cs) ↔ AndsFirst cs := by
  simp [AndsFirst]

theorem andsFirst_or {cs : List Connective} : AndsFirst (.or :: cs) ↔ .and ∉ cs := by
  have only : (∀ c ∈ cs, c = .or) ↔ .and ∉ cs := by
    constructor
    · intro all member
      cases all _ member
    · intro none c member
      cases c with
      | and => exact absurd member none
      | or => rfl
  simp only [AndsFirst, List.pairwise_cons, true_imp_iff, only, and_iff_left_iff_imp]
  intro none
  exact List.pairwise_of_forall_mem_list fun _ _ c member _ => only.mpr none c member

variable {b : Bool} {more : List (Connective × Bool)}

theorem leftValue_or (only : .and ∉ more.map Prod.fst) (a : Bool) :
    leftValue (a || b) more = (a || leftValue b more) := by
  induction more generalizing b with
  | nil => rfl
  | cons item more ih =>
    obtain ⟨c, b'⟩ := item
    cases c with
    | and => simp at only
    | or =>
      have rest : .and ∉ more.map Prod.fst := by simpa using only
      calc leftValue (a || b) ((.or, b') :: more)
          = leftValue (a || (b || b')) more := by rw [← Bool.or_assoc]; rfl
        _ = (a || leftValue (b || b') more) := ih rest

theorem standardValue_or (only : .and ∉ more.map Prod.fst) :
    standardValue b more = leftValue b more := by
  induction more generalizing b with
  | nil => rfl
  | cons item more ih =>
    obtain ⟨c, b'⟩ := item
    cases c with
    | and => simp at only
    | or =>
      have rest : .and ∉ more.map Prod.fst := by simpa using only
      calc standardValue b ((.or, b') :: more)
          = (b || leftValue b' more) := by rw [← ih rest]; rfl
        _ = leftValue (b || b') more := (leftValue_or rest b).symm

theorem leftValue_eq_standardValue (sorted : AndsFirst (more.map Prod.fst)) :
    leftValue b more = standardValue b more := by
  induction more generalizing b with
  | nil => rfl
  | cons item more ih =>
    obtain ⟨c, b'⟩ := item
    cases c with
    | and => exact ih (andsFirst_and.mp sorted)
    | or =>
      have only : .and ∉ ((Connective.or, b') :: more).map Prod.fst := by
        simpa using andsFirst_or.mp sorted
      exact (standardValue_or only).symm

theorem leftValue_false {cs : List Connective} (b : Bool) (member : b = false ∨ .and ∈ cs) :
    leftValue b (cs.map fun c => (c, false)) = false := by
  induction cs generalizing b with
  | nil => simpa [leftValue] using member
  | cons c cs ih =>
    apply ih
    cases c with
    | and => simp [Connective.apply]
    | or => simpa [Connective.apply] using member

theorem exists_apart {cs : List Connective} (unsorted : ¬ AndsFirst cs) :
    ∃ more, more.map Prod.fst = cs ∧ leftValue true more = false ∧ standardValue true more = true := by
  induction cs with
  | nil => exact absurd List.Pairwise.nil unsorted
  | cons c cs ih =>
    cases c with
    | and =>
      obtain ⟨more, names, left, standard⟩ := ih (mt andsFirst_and.mpr unsorted)
      exact ⟨(.and, true) :: more, by simp [names], left, standard⟩
    | or =>
      have member : .and ∈ cs := by simpa [andsFirst_or] using unsorted
      refine ⟨(.or, false) :: cs.map fun c => (c, false), ?_, ?_, ?_⟩
      · simp [Function.comp_def]
      · exact leftValue_false true (.inr member)
      · rfl

theorem leftValue_eq_standardValue_iff (cs : List Connective) :
    (∀ b more, more.map Prod.fst = cs → leftValue b more = standardValue b more) ↔ AndsFirst cs := by
  constructor
  · intro agree
    by_contra unsorted
    obtain ⟨more, names, left, standard⟩ := exists_apart unsorted
    have same := agree true more names
    simp [left, standard] at same
  · rintro sorted b more rfl
    exact leftValue_eq_standardValue sorted

end Connectives
