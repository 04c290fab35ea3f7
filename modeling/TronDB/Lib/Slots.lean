/-! What an index says of one key when it takes the first value it is given for a key, can bury
that value, and never forgets the key. -/

inductive Slot (V : Type) where
  | unseen
  | live (v : V)
  | buried
  deriving DecidableEq, Repr

/-- What can happen to a key. -/
inductive Slot.Note (V : Type) where
  | given (v : V)
  | bury
  deriving DecidableEq, Repr

namespace Slot

variable {V : Type}

def give (v : V) : Slot V → Slot V
  | .unseen => .live v
  | s => s

def bury : Slot V → Slot V
  | .live _ => .buried
  | s => s

def current : Slot V → Option V
  | .live v => some v
  | _ => none

def offer (offered : Option V) (s : Slot V) : Slot V :=
  match offered with
  | some v => s.give v
  | none => s

def note (s : Slot V) : Note V → Slot V
  | .given v => s.give v
  | .bury => s.bury

@[simp] theorem current_eq_some (s : Slot V) (v : V) : s.current = some v ↔ s = .live v := by
  cases s <;> simp [current]

@[simp] theorem current_bury (s : Slot V) : s.bury.current = none := by
  cases s <;> rfl

@[simp] theorem give_give (s : Slot V) (v w : V) : (s.give v).give w = s.give v := by
  cases s <;> rfl

theorem offer_give (s : Slot V) (v : V) (offered : Option V) :
    (s.give v).offer offered = s.give v := by
  cases offered <;> simp [offer]

/-- The first value given, with what is noted behind it. -/
def firstGiven : List (Note V) → Option (V × List (Note V))
  | [] => none
  | .given v :: rest => some (v, rest)
  | .bury :: rest => firstGiven rest

/-- A buried value stays so, a live one is there until it is buried, and an unseen key has the
first value it is given until that is buried. -/
def settled (s : Slot V) (notes : List (Note V)) : Option V :=
  match s with
  | .buried => none
  | .live v => if notes.any fun n => n matches .bury then none else some v
  | .unseen =>
    match firstGiven notes with
    | none => none
    | some (v, later) => if later.any fun n => n matches .bury then none else some v

theorem foldl_buried (notes : List (Note V)) : notes.foldl note (.buried : Slot V) = .buried := by
  induction notes with
  | nil => rfl
  | cons n rest ih => cases n <;> exact ih

theorem current_foldl_live (v : V) (notes : List (Note V)) :
    (notes.foldl note (.live v)).current = settled (.live v) notes := by
  induction notes with
  | nil => rfl
  | cons n rest ih =>
    cases n with
    | given w => exact ih
    | bury =>
      rw [List.foldl_cons, note, bury, foldl_buried]
      rfl

theorem current_foldl (s : Slot V) (notes : List (Note V)) :
    (notes.foldl note s).current = s.settled notes := by
  cases s with
  | buried =>
    rw [foldl_buried]
    rfl
  | live v => exact current_foldl_live v notes
  | unseen =>
    induction notes with
    | nil => rfl
    | cons n rest ih =>
      cases n with
      | given v => exact current_foldl_live v rest
      | bury => exact ih

end Slot
