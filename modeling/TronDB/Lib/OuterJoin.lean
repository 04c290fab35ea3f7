import Mathlib.Data.List.Basic

/-! Inner and outer joins by nested loops, one after the other. -/
namespace OuterJoin

/-- One join: when a row and an entry belong together, the row they make, and the rows of those
that find nothing on the other side, where they are kept. -/
structure Step (R B : Type) where
  entries : List B
  on : R → B → Bool
  pair : R → B → R
  keepsRows : Bool
  pad : R → R
  keepsEntries : Bool
  alone : B → R

variable {R B : Type}

namespace Step

variable (j : Step R B)

def partners (r : R) : List B := j.entries.filter (j.on r)

def extend (r : R) : List R :=
  match j.partners r with
  | [] => if j.keepsRows then [j.pad r] else []
  | bs => bs.map (j.pair r)

def unmatched (rows : List R) : List B := j.entries.filter fun b => !rows.any fun r => j.on r b

/-- The rows of the entries that are kept though no row belongs to them. -/
def lonely (rows : List R) : List R :=
  if j.keepsEntries then (j.unmatched rows).map j.alone else []

def join (rows : List R) : List R := rows.flatMap j.extend ++ j.lonely rows

end Step

def joinAll (js : List (Step R B)) (rows : List R) : List R :=
  js.foldl (fun rows j => j.join rows) rows

def extendAll : List (Step R B) → R → List R
  | [], r => [r]
  | j :: rest, r => (j.extend r).flatMap (extendAll rest)

theorem extendAll_append (js ks : List (Step R B)) (r : R) :
    extendAll (js ++ ks) r = (extendAll js r).flatMap (extendAll ks) := by
  induction js generalizing r with
  | nil => simp [extendAll]
  | cons j rest ih =>
    rw [List.cons_append, extendAll, extendAll, List.flatMap_assoc, funext ih]

/-- For each join, what becomes of its lonely entries through the joins behind it. -/
def blocks : List (Step R B) → List R → List (List R)
  | [], _ => []
  | j :: rest, rows => (j.lonely rows).flatMap (extendAll rest) :: blocks rest (j.join rows)

theorem joinAll_blocks (js : List (Step R B)) (rows : List R) :
    joinAll js rows = rows.flatMap (extendAll js) ++ (blocks js rows).flatten := by
  induction js generalizing rows with
  | nil => simp [joinAll, extendAll, blocks]
  | cons j rest ih =>
    have step : joinAll (j :: rest) rows = joinAll rest (j.join rows) := rfl
    rw [step, ih, blocks, List.flatten_cons, Step.join, List.flatMap_append, List.flatMap_assoc,
      List.append_assoc]
    rfl

theorem Step.extend_one (j : Step R B) {r : R} (one : (j.partners r).length ≤ 1) :
    j.extend r = match (j.partners r).head? with
      | some b => [j.pair r b]
      | none => if j.keepsRows then [j.pad r] else [] := by
  unfold extend
  match partners : j.partners r with
  | [] => rfl
  | [b] => rfl
  | b :: c :: rest =>
    rw [partners] at one
    simp at one

end OuterJoin
