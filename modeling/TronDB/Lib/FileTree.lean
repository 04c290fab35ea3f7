import Mathlib.Data.List.Infix

/-! A file system as a tree of directories, files and symbolic links: where a path leads, and the
calls that look it up, make a directory or create a file. -/
namespace Files

/-! ### Pathnames -/

/-- A path as it is written, cut at its slashes. -/
structure Pathname where
  absolute : Bool
  pieces : List String
  deriving DecidableEq, Repr

/-- Between two slashes there may be nothing, or a step that stays. -/
def stays (piece : String) : Bool := piece = "" || piece = "."

namespace Pathname

def pieceList (cs : List Char) : List String := (cs.splitOn '/').map String.ofList

def ofString (path : String) : Pathname :=
  match path.toList with
  | '/' :: rest => ⟨true, pieceList rest⟩
  | cs => ⟨false, pieceList cs⟩

/-- The names and the steps up. At the front of a relative path, a step that stays is kept. -/
def components (p : Pathname) : List String :=
  let names := p.pieces.filter fun piece => !stays piece
  if p.absolute = false ∧ p.pieces.head? = some "." then "." :: names else names

def parent (p : Pathname) : Option Pathname :=
  if p.components = [] then none else some ⟨p.absolute, p.components.dropLast⟩

def ancestorsOf (absolute : Bool) : List String → List Pathname
  | [] => []
  | _ :: above => ⟨absolute, above.reverse⟩ :: ancestorsOf absolute above

def ancestors (p : Pathname) : List Pathname := p :: ancestorsOf p.absolute p.components.reverse

def startsWith (p base : Pathname) : Bool :=
  p.absolute = base.absolute ∧ base.components.isPrefixOf p.components

def isEmpty (p : Pathname) : Bool := !p.absolute && p.pieces.all (· = "")

def join (p q : Pathname) : Pathname :=
  if q.absolute ∨ p.isEmpty then q else ⟨p.absolute, p.pieces ++ q.pieces⟩

end Pathname

/-! ### Trees -/

abbrev Place := List String

inductive FileNode where
  | file | dir | link (target : Pathname)
  deriving DecidableEq, Repr

/-- What a call is refused with. -/
inductive Errno where
  | noEntry | notDirectory | alreadyExists | isDirectory | loop | invalidInput
  deriving DecidableEq, Repr

def hasZero (name : String) : Bool := name.toList.contains (Char.ofNat 0)

def Proper (name : String) : Prop := stays name = false ∧ name ≠ ".." ∧ hasZero name = false

instance (name : String) : Decidable (Proper name) := inferInstanceAs (Decidable (_ ∧ _))

structure FileTree where
  node : Place → Option FileNode
  root : node [] = some .dir
  named : ∀ name place, node (name :: place) ≠ none → Proper name ∧ node place = some .dir

namespace FileTree
variable (t : FileTree)

/-- A node is added where there is none, in a directory. -/
def add (place : Place) (kind : FileNode) : FileTree :=
  match place with
  | [] => t
  | name :: parent =>
    if free : Proper name ∧ t.node parent = some .dir ∧ t.node (name :: parent) = none then
      { node := fun other => if other = name :: parent then some kind else t.node other
        root := by simp [t.root]
        named := by
          intro other above present
          have parentOf : ∀ above, t.node above = some .dir → above ≠ name :: parent := by
            rintro _ found rfl
            exact absurd (found.symm.trans free.2.2) nofun
          by_cases here : other :: above = name :: parent
          · cases here
            exact ⟨free.1, by rw [if_neg (parentOf _ free.2.1)]; exact free.2.1⟩
          · rw [if_neg here] at present
            obtain ⟨proper, found⟩ := t.named other above present
            exact ⟨proper, by rw [if_neg (parentOf _ found)]; exact found⟩ }
    else t

/-- Where pieces lead from a place, when links are followed in this way. The last piece may name
nothing. -/
def leadPieces (links : Nat) (follow : Place → List String → Except Errno (Nat × Place)) :
    Place → List String → Except Errno (Nat × Place)
  | here, [] => .ok (links, here)
  | here, piece :: rest =>
    match t.node here with
    | none => .error .noEntry
    | some .dir =>
      if stays piece then leadPieces links follow here rest
      else if piece = ".." then leadPieces links follow here.tail rest
      else
        match t.node (piece :: here) with
        | some (.link target) => follow (if target.absolute then [] else here) (target.pieces ++ rest)
        | _ => leadPieces links follow (piece :: here) rest
    | some _ => .error .notDirectory

/-- Where pieces lead from a place, through at most so many links, and how many are left then. -/
def lead : Nat → Place → List String → Except Errno (Nat × Place)
  | 0 => t.leadPieces 0 fun _ _ => .error .loop
  | links + 1 => t.leadPieces (links + 1) (lead links)

/-- Where pieces lead that have to end at a directory. -/
def enter (links : Nat) (here : Place) (pieces : List String) : Except Errno (Nat × Place) :=
  t.lead links here (pieces ++ [""])

/-! ### Calls -/

def maxLinks : Nat := 40

/-- The empty path leads nowhere, and one with a zero byte cannot be handed over. -/
def refused (p : Pathname) : Option Errno :=
  if p.isEmpty then some .noEntry
  else if p.pieces.any hasZero then some .invalidInput
  else none

section Calls
variable (cwd : Place) (p : Pathname)

def origin : Place := if p.absolute then [] else cwd

def lookup : Except Errno Place :=
  match refused p with
  | some e => .error e
  | none =>
    match t.lead maxLinks (origin cwd p) p.pieces with
    | .error e => .error e
    | .ok (_, place) => if (t.node place).isSome then .ok place else .error .noEntry

def present : Bool := (t.lookup cwd p).isOk

def isDir : Bool :=
  match t.lookup cwd p with
  | .error _ => false
  | .ok place => t.node place = some .dir

/-- A directory of this name, where a path has led. -/
def mkdirAt (name : String) : Except Errno (Nat × Place) → Except Errno (Place × FileTree)
  | .error e => .error e
  | .ok (_, place) =>
    if name = "." ∨ name = ".." then .error .alreadyExists
    else
      match t.node (name :: place) with
      | some _ => .error .alreadyExists
      | none => .ok (name :: place, t.add (name :: place) .dir)

/-- The place and the tree with it. A link is not followed at the end of the path. -/
def mkdir : Except Errno (Place × FileTree) :=
  match refused p with
  | some e => .error e
  | none =>
    match p.pieces.reverse.dropWhile (· = "") with
    | [] => .error .alreadyExists
    | name :: above => t.mkdirAt name (t.enter maxLinks (origin cwd p) above.reverse)

/-- The file that is opened for writing, and the tree, where it was made if it was not there. -/
def create : Except Errno (Place × FileTree) :=
  match refused p with
  | some e => .error e
  | none =>
    match t.lead maxLinks (origin cwd p) p.pieces with
    | .error e => .error e
    | .ok (_, place) =>
      match t.node place with
      | none => .ok (place, t.add place .file)
      | some .file => .ok (place, t)
      | some _ => .error .isDirectory

end Calls

/-- Makes a directory and what is missing above it: the places that were made. -/
def createDirAll (cwd : Place) : List Pathname → FileTree → Except Errno Unit × FileTree × List Place
  | [], t => (.error .noEntry, t, [])
  | p :: above, t =>
    if p.isEmpty then (.ok (), t, [])
    else
      match t.mkdir cwd p with
      | .ok (place, t') => (.ok (), t', [place])
      | .error .noEntry =>
        match createDirAll cwd above t with
        | (.error e, t', made) => (.error e, t', made)
        | (.ok (), t', made) =>
          match t'.mkdir cwd p with
          | .ok (place, t'') => (.ok (), t'', made ++ [place])
          | .error e => if t'.isDir cwd p then (.ok (), t', made) else (.error e, t', made)
      | .error e => if t.isDir cwd p then (.ok (), t, []) else (.error e, t, [])

end FileTree

def Pathname.ofPlace (place : Place) : Pathname := ⟨true, place.reverse⟩

/-! ### Where paths lead -/

namespace FileTree
section Lead
variable {t : FileTree}

@[simp] theorem lead_nil (links : Nat) (here : Place) : t.lead links here [] = .ok (links, here) := by
  cases links <;> rfl

def followed (t : FileTree) (here : Place) (target : Pathname) (rest : List String) :
    Nat → Except Errno (Nat × Place)
  | 0 => .error .loop
  | links + 1 => t.lead links (if target.absolute then [] else here) (target.pieces ++ rest)

theorem lead_cons (links : Nat) (here : Place) (piece : String) (rest : List String) :
    t.lead links here (piece :: rest) =
      match t.node here with
      | none => .error .noEntry
      | some .dir =>
        if stays piece then t.lead links here rest
        else if piece = ".." then t.lead links here.tail rest
        else
          match t.node (piece :: here) with
          | some (.link target) => t.followed here target rest links
          | _ => t.lead links (piece :: here) rest
      | some _ => .error .notDirectory := by
  cases links <;> rfl

theorem lead_stay {links : Nat} {here : Place} {piece : String} {rest : List String}
    (dir : t.node here = some .dir) (stay : stays piece = true) :
    t.lead links here (piece :: rest) = t.lead links here rest := by
  simp [lead_cons, dir, stay]

theorem lead_up {links : Nat} {here : Place} {rest : List String} (dir : t.node here = some .dir) :
    t.lead links here (".." :: rest) = t.lead links here.tail rest := by
  have moves : stays ".." = false := by decide
  simp [lead_cons, dir, moves]

theorem lead_link {links : Nat} {here : Place} {piece : String} {rest : List String}
    {target : Pathname} (dir : t.node here = some .dir) (moves : stays piece = false)
    (name : piece ≠ "..") (link : t.node (piece :: here) = some (.link target)) :
    t.lead links here (piece :: rest) = t.followed here target rest links := by
  simp [lead_cons, dir, moves, name, link]

theorem lead_down {links : Nat} {here : Place} {piece : String} {rest : List String}
    (dir : t.node here = some .dir) (moves : stays piece = false) (name : piece ≠ "..")
    (noLink : ∀ target, t.node (piece :: here) ≠ some (.link target)) :
    t.lead links here (piece :: rest) = t.lead links (piece :: here) rest := by
  cases below : t.node (piece :: here) with
  | none => simp [lead_cons, dir, moves, name, below]
  | some kind =>
    cases kind with
    | link target => exact absurd below (noLink target)
    | file => simp [lead_cons, dir, moves, name, below]
    | dir => simp [lead_cons, dir, moves, name, below]

def barred : Option FileNode → Errno
  | none => .noEntry
  | some _ => .notDirectory

theorem lead_barred {links : Nat} {here : Place} {piece : String} {rest : List String}
    (blocked : t.node here ≠ some .dir) :
    t.lead links here (piece :: rest) = .error (barred (t.node here)) := by
  cases found : t.node here with
  | none => simp [lead_cons, found, barred]
  | some kind =>
    cases kind with
    | dir => exact absurd found blocked
    | file => simp [lead_cons, found, barred]
    | link target => simp [lead_cons, found, barred]

/-- What holds of where pieces lead is shown piece by piece, and through links. -/
theorem lead_induction {motive : Nat → Place → List String → Prop}
    (nil : ∀ links here, motive links here [])
    (bar : ∀ links here piece rest, t.node here ≠ some .dir → motive links here (piece :: rest))
    (stay : ∀ links here piece rest, t.node here = some .dir → stays piece = true →
      motive links here rest → motive links here (piece :: rest))
    (up : ∀ links here rest, t.node here = some .dir → motive links here.tail rest →
      motive links here (".." :: rest))
    (link : ∀ links here piece target rest, t.node here = some .dir → stays piece = false →
      piece ≠ ".." → t.node (piece :: here) = some (.link target) →
      (∀ fewer, links = fewer + 1 →
        motive fewer (if target.absolute then [] else here) (target.pieces ++ rest)) →
      motive links here (piece :: rest))
    (down : ∀ links here piece rest, t.node here = some .dir → stays piece = false →
      piece ≠ ".." → (∀ target, t.node (piece :: here) ≠ some (.link target)) →
      motive links (piece :: here) rest → motive links here (piece :: rest))
    (links : Nat) (here : Place) (pieces : List String) : motive links here pieces := by
  induction links using Nat.strong_induction_on generalizing here pieces with
  | _ links fewer =>
    induction pieces generalizing here with
    | nil => exact nil links here
    | cons piece rest ih =>
      by_cases dir : t.node here = some .dir
      · cases moves : stays piece with
        | true => exact stay links here piece rest dir moves (ih here)
        | false =>
          by_cases name : piece = ".."
          · rw [name]
            exact up links here rest dir (ih here.tail)
          · by_cases linked : ∃ target, t.node (piece :: here) = some (.link target)
            · obtain ⟨target, linked⟩ := linked
              refine link links here piece target rest dir moves name linked fun less same => ?_
              exact fewer less (by omega) _ _
            · exact down links here piece rest dir moves name (not_exists.mp linked) (ih (piece :: here))
      · exact bar links here piece rest dir

theorem lead_append (links : Nat) (here : Place) (front back : List String) :
    t.lead links here (front ++ back) =
      (t.lead links here front).bind fun at_ => t.lead at_.1 at_.2 back := by
  induction links, here, front using @lead_induction t with
  | nil links here =>
    rw [lead_nil]
    rfl
  | bar links here piece rest blocked =>
    rw [List.cons_append, lead_barred blocked, lead_barred blocked]
    rfl
  | stay links here piece rest dir stay ih =>
    rw [List.cons_append, lead_stay dir stay, lead_stay dir stay, ih]
  | up links here rest dir ih => rw [List.cons_append, lead_up dir, lead_up dir, ih]
  | link links here piece target rest dir moves name linked ih =>
    rw [List.cons_append, lead_link dir moves name linked, lead_link dir moves name linked]
    cases links with
    | zero => rfl
    | succ fewer =>
      have later := ih fewer rfl
      rw [List.append_assoc] at later
      exact later
  | down links here piece rest dir moves name noLink ih =>
    rw [List.cons_append, lead_down dir moves name noLink, lead_down dir moves name noLink, ih]

theorem enter_barred {links : Nat} {here : Place} (pieces : List String)
    (blocked : t.node here ≠ some .dir) :
    t.enter links here pieces = .error (barred (t.node here)) := by
  cases pieces with
  | nil => exact lead_barred blocked
  | cons piece rest => exact lead_barred blocked

@[simp] theorem enter_nil {links : Nat} {here : Place} (dir : t.node here = some .dir) :
    t.enter links here [] = .ok (links, here) :=
  (lead_stay dir rfl).trans (lead_nil links here)

theorem enter_eq (links : Nat) (here : Place) (pieces : List String) :
    t.enter links here pieces = (t.lead links here pieces).bind fun at_ => t.enter at_.1 at_.2 [] :=
  lead_append links here pieces [""]

theorem enter_ok_iff {links : Nat} {here : Place} {pieces : List String} {at_ : Nat × Place} :
    t.enter links here pieces = .ok at_ ↔
      t.lead links here pieces = .ok at_ ∧ t.node at_.2 = some .dir := by
  rw [enter_eq]
  cases t.lead links here pieces with
  | error e => exact iff_of_false nofun fun both => nomatch both.1
  | ok other =>
    change t.enter other.1 other.2 [] = .ok at_ ↔ _
    by_cases dir : t.node other.2 = some .dir
    · rw [enter_nil dir, Except.ok.injEq]
      exact ⟨fun same => ⟨same, same ▸ dir⟩, And.left⟩
    · rw [enter_barred [] dir]
      refine iff_of_false nofun fun both => ?_
      cases both.1
      exact dir both.2

theorem enter_append (links : Nat) (here : Place) (front back : List String) :
    t.enter links here (front ++ back) =
      (t.enter links here front).bind fun at_ => t.enter at_.1 at_.2 back := by
  rw [enter, List.append_assoc, lead_append, enter_eq]
  cases t.lead links here front with
  | error e => rfl
  | ok other =>
    change t.enter other.1 other.2 back = (t.enter other.1 other.2 []).bind _
    by_cases dir : t.node other.2 = some .dir
    · rw [enter_nil dir]
      rfl
    · rw [enter_barred back dir, enter_barred [] dir]
      rfl

theorem enter_filter (links : Nat) (here : Place) (pieces : List String) :
    t.enter links here (pieces.filter fun piece => !stays piece) = t.enter links here pieces := by
  induction pieces generalizing links here with
  | nil => rfl
  | cons piece rest ih =>
    by_cases dir : t.node here = some .dir
    · cases stay : stays piece with
      | true =>
        rw [List.filter_cons_of_neg (by simp [stay]), ih]
        exact (lead_stay dir stay).symm
      | false =>
        rw [List.filter_cons_of_pos (by simp [stay]), ← List.singleton_append, enter_append,
          ← List.singleton_append (l := rest), enter_append]
        simp only [ih]
    · rw [enter_barred _ dir, enter_barred _ dir]

/-- A path does not end at a link. -/
theorem lead_no_link {links : Nat} {here : Place} {pieces : List String} {at_ : Nat × Place}
    (leads : t.lead links here pieces = .ok at_) {target : Pathname}
    (linked : t.node at_.2 = some (.link target)) : pieces = [] ∧ at_.2 = here := by
  induction links, here, pieces using @lead_induction t with
  | nil links here =>
    rw [lead_nil] at leads
    cases leads
    exact ⟨rfl, rfl⟩
  | bar links here piece rest blocked =>
    rw [lead_barred blocked] at leads
    cases leads
  | stay links here piece rest dir stay ih =>
    rw [lead_stay dir stay] at leads
    rw [(ih leads).2, dir] at linked
    cases linked
  | up links here rest dir ih =>
    rw [lead_up dir] at leads
    rw [(ih leads).2] at linked
    cases here with
    | nil => cases t.root.symm.trans linked
    | cons name above =>
      have parent := (t.named name above (by simp [dir])).2
      cases parent.symm.trans linked
  | link links here piece target' rest dir moves name linked' ih =>
    rw [lead_link dir moves name linked'] at leads
    cases links with
    | zero => cases leads
    | succ fewer =>
      have ends := (ih fewer rfl leads).2
      rw [ends] at linked
      split at linked
      · cases t.root.symm.trans linked
      · cases dir.symm.trans linked
  | down links here piece rest dir moves name noLink ih =>
    rw [lead_down dir moves name noLink] at leads
    rw [(ih leads).2] at linked
    exact absurd linked (noLink target)

theorem lead_ofPlace (links : Nat) {place : Place} (there : t.node place ≠ none)
    (noLink : ∀ target, t.node place ≠ some (.link target)) :
    t.lead links [] place.reverse = .ok (links, place) := by
  induction place with
  | nil => exact lead_nil links []
  | cons name above ih =>
    obtain ⟨⟨moves, isName, -⟩, dir⟩ := t.named name above there
    rw [List.reverse_cons, lead_append, ih (by simp [dir]) (by simp [dir])]
    exact (lead_down dir moves isName noLink).trans (lead_nil links _)

end Lead

/-! ### Trees that grow -/

section Grow
variable {t : FileTree}

def Extends (t t' : FileTree) : Prop := ∀ place kind, t.node place = some kind → t'.node place = some kind

/-- A path that leads to a node leads there after the tree has grown. -/
theorem Extends.lead {t' : FileTree} (grown : Extends t t') {links : Nat} {here : Place}
    {pieces : List String} {at_ : Nat × Place} (leads : t.lead links here pieces = .ok at_)
    (there : t.node at_.2 ≠ none) : t'.lead links here pieces = .ok at_ := by
  induction links, here, pieces using @lead_induction t with
  | nil links here => simpa using leads
  | bar links here piece rest blocked =>
    rw [lead_barred blocked] at leads
    cases leads
  | stay links here piece rest dir stay ih =>
    rw [lead_stay dir stay] at leads
    rw [lead_stay (grown _ _ dir) stay, ih leads]
  | up links here rest dir ih =>
    rw [lead_up dir] at leads
    rw [lead_up (grown _ _ dir), ih leads]
  | link links here piece target rest dir moves name linked ih =>
    rw [lead_link dir moves name linked] at leads
    rw [lead_link (grown _ _ dir) moves name (grown _ _ linked)]
    cases links with
    | zero => cases leads
    | succ fewer => exact ih fewer rfl leads
  | down links here piece rest dir moves name noLink ih =>
    rw [lead_down dir moves name noLink] at leads
    -- a node that is not there would be the end
    have below : t.node (piece :: here) ≠ none := by
      intro none_
      cases rest with
      | nil =>
        rw [lead_nil] at leads
        cases leads
        exact there none_
      | cons next rest =>
        rw [lead_barred (by simp [none_])] at leads
        cases leads
    obtain ⟨kind, found⟩ := Option.ne_none_iff_exists'.mp below
    have noLink' (target : Pathname) : t'.node (piece :: here) ≠ some (.link target) := by
      rw [grown _ _ found, ← found]
      exact noLink target
    rw [lead_down (grown _ _ dir) moves name noLink', ih leads]

theorem Extends.enter {t' : FileTree} (grown : Extends t t') {links : Nat} {here : Place}
    {pieces : List String} {at_ : Nat × Place} (enters : t.enter links here pieces = .ok at_) :
    t'.enter links here pieces = .ok at_ := by
  obtain ⟨leads, dir⟩ := enter_ok_iff.mp enters
  exact enter_ok_iff.mpr ⟨grown.lead leads (by simp [dir]), grown _ _ dir⟩

theorem add_node {place : Place} {name : String} (proper : Proper name)
    (dir : t.node place = some .dir) (free : t.node (name :: place) = none) (kind : FileNode)
    (other : Place) : (t.add (name :: place) kind).node other =
      if other = name :: place then some kind else t.node other := by
  have added : t.add (name :: place) kind = _ := dif_pos ⟨proper, dir, free⟩
  rw [added]

theorem extends_add (t : FileTree) (place : Place) (kind : FileNode) : Extends t (t.add place kind) := by
  intro other kind' found
  cases place with
  | nil => exact found
  | cons name parent =>
    by_cases free : Proper name ∧ t.node parent = some .dir ∧ t.node (name :: parent) = none
    · rw [add_node free.1 free.2.1 free.2.2, if_neg]
      · exact found
      · rintro rfl
        cases found.symm.trans free.2.2
    · have same : t.add (name :: parent) kind = t := dif_neg free
      rw [same]
      exact found

end Grow
end FileTree
end Files
