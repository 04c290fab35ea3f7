import Mathlib.Data.List.TakeWhile
import TronDB.Lib.FileTree

/-! Making a directory with all that is missing above it, as one walk along the names of its path. -/
namespace Files.FileTree

/-! ### What the calls do -/

section Calls
variable {t : FileTree} {cwd : Place} {p : Pathname}

theorem lookup_ok_iff {place : Place} : t.lookup cwd p = .ok place ↔
    refused p = none ∧ (∃ links, t.lead maxLinks (origin cwd p) p.pieces = .ok (links, place)) ∧
      t.node place ≠ none := by
  unfold lookup
  cases refused p with
  | some e => exact iff_of_false nofun fun all => nomatch all.1
  | none =>
    cases t.lead maxLinks (origin cwd p) p.pieces with
    | error e => exact iff_of_false nofun fun all => nomatch all.2.1.choose_spec
    | ok at_ =>
      obtain ⟨links, other⟩ := at_
      dsimp only
      split
      · rename_i there
        rw [Option.isSome_iff_ne_none] at there
        constructor
        · rintro ⟨⟩
          exact ⟨rfl, ⟨links, rfl⟩, there⟩
        · rintro ⟨-, ⟨_, ⟨⟩⟩, -⟩
          rfl
      · rename_i none_
        refine iff_of_false nofun ?_
        rintro ⟨-, ⟨_, ⟨⟩⟩, there⟩
        exact none_ (Option.isSome_iff_ne_none.mpr there)

theorem isDir_iff : t.isDir cwd p = true ↔
    refused p = none ∧ ∃ at_, t.enter maxLinks (origin cwd p) p.pieces = .ok at_ := by
  have directory : t.isDir cwd p = true ↔ ∃ place, t.lookup cwd p = .ok place ∧
      t.node place = some .dir := by
    unfold isDir
    cases t.lookup cwd p with
    | error e => exact iff_of_false nofun fun ⟨_, found, _⟩ => nomatch found
    | ok place => simp
  rw [directory]
  constructor
  · rintro ⟨place, found, dir⟩
    obtain ⟨taken, ⟨links, leads⟩, -⟩ := lookup_ok_iff.mp found
    exact ⟨taken, _, enter_ok_iff.mpr ⟨leads, dir⟩⟩
  · rintro ⟨taken, at_, enters⟩
    obtain ⟨leads, dir⟩ := enter_ok_iff.mp enters
    exact ⟨at_.2, lookup_ok_iff.mpr ⟨taken, ⟨at_.1, leads⟩, by simp [dir]⟩, dir⟩

theorem last_piece {pieces above : List String} {name : String}
    (parts : pieces.reverse.dropWhile (· = "") = name :: above) :
    name ≠ "" ∧ ∃ blanks, pieces = above.reverse ++ name :: blanks ∧ ∀ blank ∈ blanks, blank = "" := by
  constructor
  · have first := List.head?_dropWhile_not (fun piece : String => decide (piece = "")) pieces.reverse
    rw [parts] at first
    simpa using first
  · refine ⟨(pieces.reverse.takeWhile (· = "")).reverse, ?_, fun blank there => ?_⟩
    · have whole := List.takeWhile_append_dropWhile (p := fun piece : String => decide (piece = ""))
        (l := pieces.reverse)
      rw [parts] at whole
      have back := congrArg List.reverse whole
      rw [List.reverse_append, List.reverse_reverse] at back
      simpa using back.symm
    · simpa using List.mem_takeWhile_imp (List.mem_reverse.mp there)

theorem mkdir_present (there : t.present cwd p = true) :
    ∃ e, t.mkdir cwd p = .error e ∧ e ≠ .noEntry := by
  unfold present at there
  cases found : t.lookup cwd p with
  | error e =>
    rw [found] at there
    cases there
  | ok place =>
    obtain ⟨taken, ⟨links, leads⟩, ends⟩ := lookup_ok_iff.mp found
    unfold mkdir
    rw [taken]
    dsimp only
    split
    · exact ⟨_, rfl, nofun⟩
    · rename_i name above parts
      obtain ⟨nonempty, blanks, split, -⟩ := last_piece parts
      rw [split, lead_append] at leads
      cases first : t.lead maxLinks (origin cwd p) above.reverse with
      | error e =>
        rw [first] at leads
        cases leads
      | ok before =>
        rw [first] at leads
        change t.lead before.1 before.2 (name :: blanks) = .ok (links, place) at leads
        have dir : t.node before.2 = some .dir := by
          by_contra blocked
          rw [lead_barred blocked] at leads
          cases leads
        rw [enter_ok_iff.mpr ⟨first, dir⟩]
        unfold mkdirAt
        dsimp only
        split
        · exact ⟨_, rfl, nofun⟩
        · rename_i isName
          obtain ⟨noDot, noUp⟩ := not_or.mp isName
          cases below : t.node (name :: before.2) with
          | some kind => exact ⟨_, rfl, nofun⟩
          | none =>
            rw [lead_down dir (by simp [stays, nonempty, noDot]) noUp (by simp [below])] at leads
            cases blanks with
            | nil =>
              rw [lead_nil] at leads
              cases leads
              exact absurd below ends
            | cons blank rest =>
              rw [lead_barred (by simp [below])] at leads
              cases leads

end Calls

/-! ### Along the names -/

/-- How far a walk has come, unless it was stopped, and what it has made. -/
structure Way where
  at_ : Option (Nat × Place)
  tree : FileTree
  made : List Place

/-- A name that is missing is made; any other has to lead into a directory. -/
def Way.step (w : Way) (name : String) : Way :=
  match w.at_ with
  | none => w
  | some (links, here) =>
    if name ≠ ".." ∧ w.tree.node (name :: here) = none then
      ⟨some (links, name :: here), w.tree.add (name :: here) .dir, w.made ++ [name :: here]⟩
    else
      match w.tree.enter links here [name] with
      | .error _ => { w with at_ := none }
      | .ok at_ => { w with at_ := some at_ }

def way (t : FileTree) (names : List String) : Way := names.foldl Way.step ⟨some (maxLinks, []), t, []⟩

def Steps (names : List String) : Prop := ∀ name ∈ names, stays name = false ∧ hasZero name = false

section Ways
variable {t : FileTree}

theorem way_snoc (names : List String) (name : String) :
    t.way (names ++ [name]) = (t.way names).step name := by
  unfold way
  rw [List.foldl_append]
  rfl

theorem step_stopped {w : Way} (stopped : w.at_ = none) (name : String) : w.step name = w := by
  unfold Way.step
  rw [stopped]

theorem step_missing {at_ : Nat × Place} {made : List Place} {name : String}
    (missing : name ≠ ".." ∧ t.node (name :: at_.2) = none) :
    Way.step ⟨some at_, t, made⟩ name =
      ⟨some (at_.1, name :: at_.2), t.add (name :: at_.2) .dir, made ++ [name :: at_.2]⟩ :=
  if_pos missing

theorem step_there {at_ : Nat × Place} {made : List Place} {name : String}
    (there : ¬ (name ≠ ".." ∧ t.node (name :: at_.2) = none)) :
    Way.step ⟨some at_, t, made⟩ name = ⟨(t.enter at_.1 at_.2 [name]).toOption, t, made⟩ := by
  refine (if_neg there).trans ?_
  dsimp only
  cases t.enter at_.1 at_.2 [name] <;> rfl

theorem way_entered {names : List String} (steps : Steps names) {at_ : Nat × Place}
    (enters : t.enter maxLinks [] names = .ok at_) : t.way names = ⟨some at_, t, []⟩ := by
  induction names using List.reverseRecOn generalizing at_ with
  | nil =>
    rw [enter_nil t.root] at enters
    cases enters
    rfl
  | append_singleton names name ih =>
    rw [enter_append] at enters
    cases first : t.enter maxLinks [] names with
    | error e =>
      rw [first] at enters
      cases enters
    | ok before =>
      rw [first] at enters
      change t.enter before.1 before.2 [name] = .ok at_ at enters
      rw [way_snoc, ih (fun n there => steps n (by simp [there])) first]
      have there : ¬ (name ≠ ".." ∧ t.node (name :: before.2) = none) := by
        rintro ⟨isName, none_⟩
        obtain ⟨leads, dir⟩ := enter_ok_iff.mp enters
        obtain ⟨-, here⟩ := enter_ok_iff.mp first
        rw [lead_down here (steps name (by simp)).1 isName (by simp [none_]), lead_nil] at leads
        cases leads
        cases none_.symm.trans dir
      rw [step_there there, enters]
      rfl

theorem way_leads {names : List String} (steps : Steps names) {at_ : Nat × Place}
    (comes : (t.way names).at_ = some at_) :
    (t.way names).tree.enter maxLinks [] names = .ok at_ := by
  induction names using List.reverseRecOn generalizing at_ with
  | nil =>
    cases comes
    exact enter_nil t.root
  | append_singleton names name ih =>
    rw [way_snoc] at comes ⊢
    cases first : (t.way names).at_ with
    | none =>
      rw [step_stopped first, first] at comes
      cases comes
    | some before =>
      have enters := ih (fun n there => steps n (by simp [there])) first
      generalize t.way names = w at comes first enters ⊢
      obtain ⟨-, here⟩ := enter_ok_iff.mp enters
      obtain ⟨moves, whole⟩ := steps name (by simp)
      unfold Way.step at comes ⊢
      rw [first] at comes ⊢
      dsimp only at comes ⊢
      split at comes
      · rename_i missing
        obtain ⟨isName, free⟩ := missing
        rw [if_pos ⟨isName, free⟩]
        cases comes
        have made := add_node ⟨moves, isName, whole⟩ here free .dir (name :: before.2)
        rw [if_pos rfl] at made
        have grown := extends_add w.tree (name :: before.2) .dir
        rw [enter_append, grown.enter enters]
        refine enter_ok_iff.mpr ⟨?_, made⟩
        dsimp only
        rw [lead_down (grown _ _ here) moves isName (by simp [made]), lead_nil]
      · rename_i there
        rw [if_neg there]
        cases next : w.tree.enter before.1 before.2 [name] with
        | error e =>
          rw [next] at comes
          cases comes
        | ok at_' =>
          rw [next] at comes
          cases comes
          dsimp only
          rw [enter_append, enters]
          exact next

/-- Where something else is in the way than a missing name, nothing is made. -/
theorem way_barred {names : List String} (steps : Steps names) {e : Errno}
    (fails : t.enter maxLinks [] names = .error e) (other : e ≠ .noEntry) :
    t.way names = ⟨none, t, []⟩ := by
  induction names using List.reverseRecOn generalizing e with
  | nil =>
    rw [enter_nil t.root] at fails
    cases fails
  | append_singleton names name ih =>
    have earlier : Steps names := fun n there => steps n (by simp [there])
    rw [enter_append] at fails
    rw [way_snoc]
    cases first : t.enter maxLinks [] names with
    | error e' =>
      rw [first] at fails
      cases fails
      rw [ih earlier first other]
      rfl
    | ok before =>
      rw [first] at fails
      change t.enter before.1 before.2 [name] = .error e at fails
      rw [way_entered earlier first]
      have there : ¬ (name ≠ ".." ∧ t.node (name :: before.2) = none) := by
        rintro ⟨isName, none_⟩
        obtain ⟨-, here⟩ := enter_ok_iff.mp first
        have missing : t.enter before.1 before.2 [name] = .error .noEntry := by
          refine (lead_down here (steps name (by simp)).1 isName (by simp [none_])).trans ?_
          refine (lead_barred (by simp [none_])).trans ?_
          rw [none_]
          rfl
        rw [missing] at fails
        cases fails
        exact other rfl
      rw [step_there there, fails]
      rfl

/-! ### Making a directory and what is above it -/

/-- What is left of a directory that is made if it is not there. -/
def ensure (t : FileTree) (cwd : Place) (p : Pathname) (made : List Place) :
    Except Errno Unit × FileTree × List Place :=
  match t.mkdir cwd p with
  | .ok (place, t') => (.ok (), t', made ++ [place])
  | .error e => if t.isDir cwd p then (.ok (), t, made) else (.error e, t, made)

def Does (result : Except Errno Unit × FileTree × List Place) (w : Way) : Prop :=
  result.2 = (w.tree, w.made) ∧ (result.1 = .ok () ↔ w.at_.isSome = true)

theorem refused_steps {names : List String} (steps : Steps names) : refused ⟨true, names⟩ = none := by
  have whole : names.any hasZero = false := by
    rw [List.any_eq_false]
    intro name there
    simp [(steps name there).2]
  simp [refused, Pathname.isEmpty, whole]

theorem mkdir_last {cwd : Place} {p : Pathname} {name : String} {above : List String}
    (taken : refused p = none) (last : p.pieces.reverse.dropWhile (· = "") = name :: above) :
    t.mkdir cwd p = t.mkdirAt name (t.enter maxLinks (origin cwd p) above.reverse) := by
  rw [mkdir, taken, last]

theorem mkdir_snoc {cwd : Place} {names : List String} {name : String} (steps : Steps (names ++ [name])) :
    t.mkdir cwd ⟨true, names ++ [name]⟩ = t.mkdirAt name (t.enter maxLinks [] names) := by
  have moves := (steps name (by simp)).1
  simp only [stays, Bool.or_eq_false_iff, decide_eq_false_iff_not] at moves
  have last : (names ++ [name]).reverse.dropWhile (· = "") = name :: names.reverse := by
    simp [moves.1]
  rw [mkdir_last (refused_steps steps) last, List.reverse_reverse]
  rfl

theorem mkdirAt_there {name : String} {at_ : Nat × Place}
    (there : ¬ (name ≠ ".." ∧ t.node (name :: at_.2) = none)) :
    t.mkdirAt name (.ok at_) = .error .alreadyExists := by
  unfold mkdirAt
  dsimp only
  split
  · rfl
  · rename_i isName
    cases below : t.node (name :: at_.2) with
    | none => exact absurd ⟨fun up => isName (.inr up), below⟩ there
    | some kind => rfl

theorem mkdirAt_missing {name : String} {at_ : Nat × Place} (moves : stays name = false)
    (isName : name ≠ "..") (free : t.node (name :: at_.2) = none) :
    t.mkdirAt name (.ok at_) = .ok (name :: at_.2, t.add (name :: at_.2) .dir) := by
  simp only [stays, Bool.or_eq_false_iff, decide_eq_false_iff_not] at moves
  unfold mkdirAt
  dsimp only
  rw [if_neg (not_or.mpr ⟨moves.2, isName⟩), free]

theorem isDir_steps {cwd : Place} {names : List String} (steps : Steps names) :
    t.isDir cwd ⟨true, names⟩ = true ↔ ∃ at_, t.enter maxLinks [] names = .ok at_ := by
  rw [isDir_iff, refused_steps steps]
  simp [origin]

/-- From where a walk has come to, the call does one step of it. -/
theorem ensure_does {cwd : Place} {names : List String} {name : String}
    (steps : Steps (names ++ [name])) {at_ : Nat × Place}
    (enters : t.enter maxLinks [] names = .ok at_) (made : List Place) :
    Does (t.ensure cwd ⟨true, names ++ [name]⟩ made) (Way.step ⟨some at_, t, made⟩ name) ∧
      t.mkdir cwd ⟨true, names ++ [name]⟩ ≠ .error .noEntry := by
  have directory : t.isDir cwd ⟨true, names ++ [name]⟩ = true ↔
      ∃ next, t.enter at_.1 at_.2 [name] = .ok next := by
    rw [isDir_steps steps, enter_append, enters]
    rfl
  unfold ensure Way.step
  rw [mkdir_snoc steps, enters]
  dsimp only
  by_cases missing : name ≠ ".." ∧ t.node (name :: at_.2) = none
  · rw [if_pos missing, mkdirAt_missing (steps name (by simp)).1 missing.1 missing.2]
    exact ⟨⟨rfl, iff_of_true rfl rfl⟩, nofun⟩
  · rw [if_neg missing, mkdirAt_there missing]
    refine ⟨?_, nofun⟩
    dsimp only
    cases next : t.enter at_.1 at_.2 [name] with
    | error e =>
      have no : ¬ t.isDir cwd ⟨true, names ++ [name]⟩ = true := by
        rw [directory, next]
        rintro ⟨_, ⟨⟩⟩
      rw [if_neg no]
      exact ⟨rfl, iff_of_false nofun nofun⟩
    | ok at_' =>
      rw [if_pos (directory.mpr ⟨at_', next⟩)]
      exact ⟨rfl, iff_of_true rfl rfl⟩

theorem components_steps {names : List String} (steps : Steps names) :
    Pathname.components ⟨true, names⟩ = names := by
  have all : names.filter (fun piece => !stays piece) = names := by
    rw [List.filter_eq_self]
    intro name there
    simp [(steps name there).1]
  simp [Pathname.components, all]

theorem createDirAll_direct {cwd : Place} {p : Pathname} (above : List Pathname)
    (nonempty : p.isEmpty = false) (found : t.mkdir cwd p ≠ .error .noEntry) :
    createDirAll cwd (p :: above) t = t.ensure cwd p [] := by
  unfold createDirAll ensure
  rw [nonempty]
  cases made : t.mkdir cwd p with
  | ok pair => rfl
  | error e =>
    cases e with
    | noEntry => exact absurd made found
    | _ => rfl

theorem createDirAll_above {cwd : Place} {p : Pathname} (above : List Pathname)
    (nonempty : p.isEmpty = false) (missing : t.mkdir cwd p = .error .noEntry) :
    createDirAll cwd (p :: above) t =
      match createDirAll cwd above t with
      | (.error e, t', made) => (.error e, t', made)
      | (.ok (), t', made) => t'.ensure cwd p made := by
  rw [createDirAll, nonempty, missing]
  rfl

/-- Making a directory with all that is missing above it walks along its names. -/
theorem createDirAll_does {cwd : Place} {names : List String} (steps : Steps names) :
    Does (createDirAll cwd (Pathname.ancestors ⟨true, names⟩) t) (t.way names) := by
  induction names using List.reverseRecOn with
  | nil =>
    have dir : t.isDir cwd ⟨true, []⟩ = true := (isDir_steps steps).mpr ⟨_, enter_nil t.root⟩
    have exists_ : t.mkdir cwd ⟨true, []⟩ = .error .alreadyExists := rfl
    rw [Pathname.ancestors, createDirAll_direct _ rfl (by simp [exists_]), ensure, exists_]
    dsimp only
    rw [if_pos dir]
    exact ⟨rfl, iff_of_true rfl rfl⟩
  | append_singleton names name ih =>
    have earlier : Steps names := fun n there => steps n (by simp [there])
    have chain : Pathname.ancestors ⟨true, names ++ [name]⟩ =
        ⟨true, names ++ [name]⟩ :: Pathname.ancestors ⟨true, names⟩ := by
      simp only [Pathname.ancestors, components_steps steps, components_steps earlier,
        List.reverse_append, List.reverse_singleton, List.singleton_append, Pathname.ancestorsOf,
        List.reverse_reverse]
    rw [chain, way_snoc]
    cases enters : t.enter maxLinks [] names with
    | ok at_ =>
      obtain ⟨does, found⟩ := @ensure_does t cwd _ _ steps _ enters []
      rw [createDirAll_direct _ rfl found, way_entered earlier enters]
      exact does
    | error e =>
      have fails : t.mkdir cwd ⟨true, names ++ [name]⟩ = .error e := by
        rw [mkdir_snoc steps, enters]
        rfl
      by_cases missing : e = .noEntry
      · rw [missing] at fails
        rw [createDirAll_above _ rfl fails]
        obtain ⟨left, ok⟩ := ih earlier
        generalize createDirAll cwd (Pathname.ancestors ⟨true, names⟩) t = above at left ok ⊢
        obtain ⟨result, t', made⟩ := above
        cases left
        cases comes : (t.way names).at_ with
        | none =>
          rw [comes] at ok
          rw [step_stopped comes]
          cases result with
          | error e' => exact ⟨rfl, iff_of_false nofun (by simp [comes])⟩
          | ok done => exact absurd (ok.mp rfl) nofun
        | some at_ =>
          rw [comes] at ok
          cases result with
          | error e' => exact absurd (ok.mpr rfl) nofun
          | ok done =>
            have does := (@ensure_does _ cwd _ _ steps _ (way_leads earlier comes)
              (t.way names).made).1
            rw [← comes] at does
            exact does
      · have stopped : ¬ t.isDir cwd ⟨true, names ++ [name]⟩ = true := by
          rw [isDir_steps steps, enter_append, enters]
          rintro ⟨_, ⟨⟩⟩
        rw [createDirAll_direct _ rfl (by simp [fails, missing]), ensure, fails,
          way_barred earlier enters missing]
        dsimp only
        rw [if_neg stopped]
        exact ⟨rfl, iff_of_false nofun nofun⟩

end Ways

/-! ### A path as it is written -/

/-- Only what is there can have a step behind it that stays. -/
def endsInDot (p : Pathname) : Bool := (p.pieces.reverse.dropWhile (· = "")).head? = some "."

def madeNames (p : Pathname) : List String :=
  if endsInDot p then p.components.dropLast else p.components

section Written
variable {t : FileTree} {cwd : Place} {p : Pathname}

theorem components_blank (blank : ∀ piece ∈ p.pieces, piece = "") : p.components = [] := by
  have none_ : p.pieces.filter (fun piece => !stays piece) = [] := by
    rw [List.filter_eq_nil_iff]
    intro piece there
    rw [blank piece there]
    decide
  have noDot : p.pieces.head? ≠ some "." := by
    intro first
    exact absurd (blank "." (List.mem_of_head? first)) (by decide)
  simp [Pathname.components, none_, noDot]

theorem last_of_components (some_ : p.components ≠ []) :
    ∃ name above, p.pieces.reverse.dropWhile (· = "") = name :: above := by
  cases last : p.pieces.reverse.dropWhile (· = "") with
  | cons name above => exact ⟨name, above, rfl⟩
  | nil =>
    rw [List.dropWhile_eq_nil_iff] at last
    refine absurd (components_blank fun piece there => ?_) some_
    simpa using last piece (List.mem_reverse.mpr there)

theorem moving_pieces {above blanks : List String} {name : String}
    (split : p.pieces = above.reverse ++ name :: blanks) (blank : ∀ b ∈ blanks, b = "") :
    p.pieces.filter (fun piece => !stays piece) = above.reverse.filter (fun piece => !stays piece) ++
      if stays name = true then [] else [name] := by
  have none_ : blanks.filter (fun piece => !stays piece) = [] := by
    rw [List.filter_eq_nil_iff]
    intro b there
    rw [blank b there]
    decide
  rw [split, List.filter_append, List.filter_cons, none_]
  cases stays name <;> rfl

theorem last_name (some_ : p.components ≠ []) (noDot : endsInDot p = false) :
    ∃ name above, p.pieces.reverse.dropWhile (· = "") = name :: above ∧ stays name = false ∧
      name ∈ p.pieces ∧ p.pieces.filter (fun piece => !stays piece) =
        above.reverse.filter (fun piece => !stays piece) ++ [name] := by
  obtain ⟨name, above, last⟩ := last_of_components some_
  obtain ⟨nonempty, blanks, split, blank⟩ := last_piece last
  have isName : name ≠ "." := by
    rintro rfl
    simp [endsInDot, last] at noDot
  have moves : stays name = false := by simp [stays, nonempty, isName]
  have names := moving_pieces split blank
  rw [moves] at names
  exact ⟨name, above, last, moves, by simp [split], names⟩

theorem refused_none (taken : refused p = none) :
    p.isEmpty = false ∧ ∀ piece ∈ p.pieces, hasZero piece = false := by
  unfold refused at taken
  cases empty : p.isEmpty with
  | true =>
    rw [empty] at taken
    cases taken
  | false =>
    cases zero : p.pieces.any hasZero with
    | true =>
      rw [empty, zero] at taken
      cases taken
    | false => exact ⟨rfl, fun piece there => by simpa using List.any_eq_false.mp zero piece there⟩

theorem not_isDir (missing : t.present cwd p = false) : t.isDir cwd p = false := by
  unfold present at missing
  unfold isDir
  cases found : t.lookup cwd p with
  | error e => rfl
  | ok place =>
    rw [found] at missing
    cases missing

theorem ensure_missing {e : Errno} (fails : t.mkdir cwd p = .error e) (made : List Place) :
    ∃ result, t.ensure cwd p made = (result, t, made) ∧ (result = .ok () ↔ t.isDir cwd p = true) := by
  unfold ensure
  rw [fails]
  cases t.isDir cwd p with
  | true => exact ⟨_, rfl, iff_of_true rfl rfl⟩
  | false => exact ⟨_, rfl, iff_of_false nofun nofun⟩

theorem steps_components (absolute : p.absolute = true) (taken : refused p = none) :
    Steps p.components ∧ p.components = p.pieces.filter fun piece => !stays piece := by
  have parts : p.components = p.pieces.filter fun piece => !stays piece := by
    simp [Pathname.components, absolute]
  refine ⟨fun name there => ?_, parts⟩
  rw [parts, List.mem_filter] at there
  exact ⟨by simpa using there.2, (refused_none taken).2 name there.1⟩

theorem mkdir_components (absolute : p.absolute = true) (taken : refused p = none)
    (some_ : p.components ≠ []) (noDot : endsInDot p = false) :
    t.mkdir cwd p = t.mkdir cwd ⟨true, p.components⟩ := by
  obtain ⟨steps, parts⟩ := steps_components absolute taken
  obtain ⟨name, above, last, -, -, names⟩ := last_name some_ noDot
  rw [parts, names] at steps ⊢
  rw [mkdir_last taken last, ← enter_filter, origin, absolute]
  exact (mkdir_snoc steps).symm

theorem isDir_components (absolute : p.absolute = true) (taken : refused p = none) :
    t.isDir cwd p = t.isDir cwd ⟨true, p.components⟩ := by
  obtain ⟨steps, parts⟩ := steps_components absolute taken
  rw [Bool.eq_iff_iff, isDir_iff, isDir_steps steps, parts, enter_filter, origin, absolute]
  exact ⟨And.right, fun enters => ⟨taken, enters⟩⟩

theorem ancestors_cons (some_ : p.components ≠ []) : ∃ above,
    p.ancestors = p :: ⟨p.absolute, p.components.dropLast⟩ :: above ∧
      Pathname.ancestorsOf p.absolute p.components.reverse =
        ⟨p.absolute, p.components.dropLast⟩ :: above := by
  obtain ⟨names, name, parts⟩ := List.eq_nil_or_concat p.components |>.resolve_left some_
  refine ⟨Pathname.ancestorsOf p.absolute names.reverse, ?_⟩
  rw [Pathname.ancestors, parts]
  simp [Pathname.ancestorsOf]

theorem ancestorsOf_steps {names : List String} (steps : Steps names) (some_ : names ≠ []) :
    Pathname.ancestorsOf true names.reverse = Pathname.ancestors ⟨true, names.dropLast⟩ := by
  obtain ⟨front, name, parts⟩ := List.eq_nil_or_concat names |>.resolve_left some_
  have earlier : Steps front := fun n there => steps n (by simp [parts, there])
  rw [parts]
  simp [Pathname.ancestorsOf, Pathname.ancestors, components_steps earlier]

theorem mkdir_dot (taken : refused p = none) (dot : endsInDot p = true) :
    t.mkdir cwd p = t.mkdirAt "." (t.enter maxLinks (origin cwd p) p.pieces) := by
  cases last : p.pieces.reverse.dropWhile (· = "") with
  | nil => simp [endsInDot, last] at dot
  | cons name above =>
    have isDot : name = "." := by simpa [endsInDot, last] using dot
    subst isDot
    obtain ⟨-, blanks, split, blank⟩ := last_piece last
    have names := moving_pieces split blank
    rw [if_pos (by decide), List.append_nil] at names
    rw [mkdir_last taken last, ← enter_filter, ← names, enter_filter]

theorem mkdir_dot_fails (taken : refused p = none) (dot : endsInDot p = true)
    (missing : t.isDir cwd p = false) : ∃ e, t.mkdir cwd p = .error e ∧
      t.enter maxLinks (origin cwd p) p.pieces = .error e := by
  cases enters : t.enter maxLinks (origin cwd p) p.pieces with
  | error e =>
    refine ⟨e, ?_, rfl⟩
    rw [mkdir_dot taken dot, enters]
    rfl
  | ok at_ =>
    have there := isDir_iff.mpr ⟨taken, at_, enters⟩
    rw [missing] at there
    cases there

/-- An absolute path that is not there is made along its names. -/
theorem createDirAll_written (absolute : p.absolute = true) (taken : refused p = none)
    (some_ : p.components ≠ []) (missing : t.isDir cwd p = false) :
    let w := t.way (madeNames p)
    ∃ result, createDirAll cwd p.ancestors t = (result, w.tree, w.made) ∧
      (result = .ok () → w.at_.isSome = true) ∧
      (w.at_.isSome = true → result ≠ .ok () → w.tree.isDir cwd p = false) := by
  obtain ⟨steps, parts⟩ := steps_components absolute taken
  have above : p.ancestors = p :: Pathname.ancestors ⟨true, p.components.dropLast⟩ := by
    rw [Pathname.ancestors, absolute, ancestorsOf_steps steps some_]
  cases dot : endsInDot p with
  | false =>
    -- the path is as good as its components
    have same : createDirAll cwd p.ancestors t =
        createDirAll cwd (Pathname.ancestors ⟨true, p.components⟩) t := by
      have above' : Pathname.ancestors ⟨true, p.components⟩ =
          ⟨true, p.components⟩ :: Pathname.ancestors ⟨true, p.components.dropLast⟩ := by
        rw [Pathname.ancestors, components_steps steps, ancestorsOf_steps steps some_]
      have written (t : FileTree) := @mkdir_components t cwd _ absolute taken some_ dot
      have entered (t : FileTree) := @isDir_components t cwd _ absolute taken
      rw [above, above']
      simp only [createDirAll, (refused_none taken).1, written, entered]
      rfl
    obtain ⟨left, ok⟩ := @createDirAll_does t cwd _ steps
    simp only [madeNames, dot, Bool.false_eq_true, if_false]
    rw [same]
    refine ⟨_, Prod.ext rfl left, ok.mp, fun comes fails => absurd (ok.mpr comes) fails⟩
  | true =>
    have earlier : Steps p.components.dropLast := fun n there => steps n (List.mem_of_mem_dropLast there)
    simp only [madeNames, dot, if_true]
    obtain ⟨e, fails, blocked⟩ := mkdir_dot_fails taken dot missing
    rw [above]
    by_cases noEntry : e = .noEntry
    · rw [noEntry] at fails
      rw [createDirAll_above _ (refused_none taken).1 fails]
      obtain ⟨left, ok⟩ := @createDirAll_does t cwd _ earlier
      generalize createDirAll cwd (Pathname.ancestors ⟨true, p.components.dropLast⟩) t = outcome
        at left ok ⊢
      obtain ⟨result, t', made⟩ := outcome
      cases left
      cases result with
      | error e' => exact ⟨_, rfl, nofun, fun comes _ => absurd (ok.mpr comes) nofun⟩
      | ok done =>
        have again : ∃ e', (t.way p.components.dropLast).tree.mkdir cwd p = .error e' := by
          rw [mkdir_dot taken dot]
          cases (t.way p.components.dropLast).tree.enter maxLinks (origin cwd p) p.pieces with
          | error e' => exact ⟨e', rfl⟩
          | ok at_ => exact ⟨.alreadyExists, rfl⟩
        obtain ⟨e', fails'⟩ := again
        obtain ⟨result, ends, found⟩ := ensure_missing fails' (t.way p.components.dropLast).made
        refine ⟨result, ends, fun _ => ok.mp rfl, fun _ left => ?_⟩
        exact Bool.eq_false_iff.mpr fun there => left (found.mpr there)
    · obtain ⟨result, ends, found⟩ := ensure_missing fails []
      have left : result ≠ .ok () := fun ok => by
        rw [missing] at found
        exact absurd (found.mp ok) nofun
      rw [createDirAll_direct _ (refused_none taken).1 (by simp [fails, noEntry]), ends]
      rw [← enter_filter, ← parts, origin, absolute, if_pos rfl] at blocked
      cases enters : t.enter maxLinks [] p.components.dropLast with
      | ok at_ =>
        rw [way_entered earlier enters]
        exact ⟨result, rfl, fun ok => absurd ok left, fun _ _ => missing⟩
      | error e' =>
        rw [← List.dropLast_append_getLast some_, enter_append, enters] at blocked
        cases blocked
        rw [way_barred earlier enters noEntry]
        exact ⟨result, rfl, fun ok => absurd ok left, nofun⟩

theorem createDirAll_present (above : List Pathname) (there : t.present cwd p = true) :
    ∃ result, createDirAll cwd (p :: above) t = (result, t, []) ∧
      (result = .ok () ↔ t.isDir cwd p = true) := by
  obtain ⟨e, fails, found⟩ := mkdir_present there
  have nonempty : p.isEmpty = false := by
    cases taken : refused p with
    | none => exact (refused_none taken).1
    | some e' =>
      have refuses : t.lookup cwd p = .error e' := by rw [lookup, taken]
      rw [present, refuses] at there
      cases there
  obtain ⟨result, ends, ok⟩ := ensure_missing fails []
  exact ⟨result, (createDirAll_direct above nonempty (by simp [fails, found])).trans ends, ok⟩

theorem createDirAll_stops {e : Errno} (above : List Pathname) (nonempty : p.isEmpty = false)
    (fails : t.mkdir cwd p = .error e) (other : e ≠ .noEntry) (missing : t.isDir cwd p = false) :
    ∃ result, createDirAll cwd (p :: above) t = (result, t, []) ∧ result ≠ .ok () := by
  obtain ⟨result, ends, ok⟩ := ensure_missing fails []
  refine ⟨result, (createDirAll_direct above nonempty (by simp [fails, other])).trans ends, fun done => ?_⟩
  rw [missing] at ok
  exact absurd (ok.mp done) nofun

theorem present_lookup {place : Place} (found : t.lookup cwd p = .ok place) : t.present cwd p = true := by
  rw [present, found]
  rfl

theorem parent_some {q : Pathname} (parent : p.parent = some q) :
    p.components ≠ [] ∧ q = ⟨p.absolute, p.components.dropLast⟩ := by
  unfold Pathname.parent at parent
  split at parent
  · cases parent
  · rename_i some_
    cases parent
    exact ⟨some_, rfl⟩

theorem parent_nonempty {q : Pathname} (parent : p.parent = some q) : p.isEmpty = false := by
  rw [Bool.eq_false_iff]
  intro empty
  simp only [Pathname.isEmpty, Bool.and_eq_true, List.all_eq_true, decide_eq_true_eq] at empty
  exact (parent_some parent).1 (components_blank empty.2)

theorem refused_zero {e : Errno} (nonempty : p.isEmpty = false) (refuses : refused p = some e) :
    e ≠ .noEntry := by
  rw [refused, nonempty] at refuses
  split at refuses
  · contradiction
  · split at refuses
    · cases refuses
      exact nofun
    · cases refuses

theorem enter_parent {q : Pathname} (parent : p.parent = some q) {names : List String} {name : String}
    (parts : p.pieces.filter (fun piece => !stays piece) = names ++ [name]) :
    t.enter maxLinks (origin cwd q) q.pieces = t.enter maxLinks (origin cwd p) names := by
  obtain ⟨-, rfl⟩ := parent_some parent
  have all : names.filter (fun piece => !stays piece) = names := by
    rw [List.filter_eq_self]
    intro n there
    have listed : n ∈ p.pieces.filter (fun piece => !stays piece) := by simp [parts, there]
    exact (List.mem_filter.mp listed).2
  have above : p.components.dropLast.filter (fun piece => !stays piece) = names := by
    unfold Pathname.components
    rw [parts]
    split
    · rw [← List.cons_append, List.dropLast_concat, List.filter_cons_of_neg (by decide), all]
    · rw [List.dropLast_concat, all]
  rw [← enter_filter, above]
  rfl

/-- Below a place that is there, a missing directory is made, or nothing. -/
theorem createDirAll_beside {q : Pathname} {place : Place} (parent : p.parent = some q)
    (found : t.lookup cwd q = .ok place) (missing : t.present cwd p = false) :
    ∃ result t' made, createDirAll cwd p.ancestors t = (result, t', made) ∧
      (result ≠ .ok () ∧ made = [] ∨
        ∃ name links, made = [name :: place] ∧ (∀ file, t'.node (file :: name :: place) = none) ∧
          t'.enter maxLinks (origin cwd p) p.pieces = .ok (links, name :: place)) := by
  obtain ⟨some_, isParent⟩ := parent_some parent
  have noDir := not_isDir missing
  have nonempty := parent_nonempty parent
  obtain ⟨rest, chain, -⟩ := ancestors_cons some_
  rw [chain, ← isParent]
  have stopped {e : Errno} (fails : t.mkdir cwd p = .error e) (other : e ≠ .noEntry) :
      ∃ result t' made, createDirAll cwd (p :: q :: rest) t = (result, t', made) ∧
        (result ≠ .ok () ∧ made = [] ∨
          ∃ name links, made = [name :: place] ∧ (∀ file, t'.node (file :: name :: place) = none) ∧
            t'.enter maxLinks (origin cwd p) p.pieces = .ok (links, name :: place)) := by
    obtain ⟨result, ends, left⟩ := createDirAll_stops (q :: rest) nonempty fails other noDir
    exact ⟨result, t, [], ends, .inl ⟨left, rfl⟩⟩
  cases taken : refused p with
  | some e => exact stopped (e := e) (by rw [mkdir, taken]) (refused_zero nonempty taken)
  | none =>
    cases dot : endsInDot p with
    | true =>
      obtain ⟨e, fails, -⟩ := mkdir_dot_fails taken dot noDir
      by_cases noEntry : e = .noEntry
      · rw [noEntry] at fails
        obtain ⟨result, ends, -⟩ := createDirAll_present rest (present_lookup found)
        rw [createDirAll_above _ nonempty fails, ends]
        cases result with
        | error e' => exact ⟨_, _, _, rfl, .inl ⟨nofun, rfl⟩⟩
        | ok done =>
          obtain ⟨result, ends', ok⟩ := ensure_missing fails []
          refine ⟨result, t, [], ends', .inl ⟨fun done => ?_, rfl⟩⟩
          rw [noDir] at ok
          exact absurd (ok.mp done) nofun
      · exact stopped fails noEntry
    | false =>
      obtain ⟨name, above, last, moves, listed, names⟩ := last_name some_ dot
      have up := @enter_parent t cwd _ _ parent _ _ names
      rw [enter_filter] at up
      obtain ⟨-, ⟨links, leads⟩, there⟩ := lookup_ok_iff.mp found
      by_cases dir : t.node place = some .dir
      · rw [enter_ok_iff.mpr ⟨leads, dir⟩] at up
        by_cases free : name ≠ ".." ∧ t.node (name :: place) = none
        · have makes : t.mkdir cwd p = .ok (name :: place, t.add (name :: place) .dir) := by
            rw [mkdir_last taken last, ← up, mkdirAt_missing moves free.1 free.2]
          have nodes := add_node ⟨moves, free.1, (refused_none taken).2 name listed⟩ dir free.2 .dir
          have made := nodes (name :: place)
          rw [if_pos rfl] at made
          have grown := extends_add t (name :: place) .dir
          rw [createDirAll_direct _ nonempty (by simp [makes]), ensure, makes]
          refine ⟨_, _, _, rfl, .inr ⟨name, links, rfl, fun file => ?_, ?_⟩⟩
          · rw [nodes, if_neg (by simp)]
            by_contra below
            cases (t.named file _ below).2.symm.trans free.2
          rw [← enter_filter, names, enter_append, enter_filter, grown.enter up.symm]
          refine enter_ok_iff.mpr ⟨?_, made⟩
          dsimp only
          rw [lead_down (grown _ _ dir) moves free.1 (by simp [made]), lead_nil]
        · refine stopped (e := .alreadyExists) ?_ nofun
          rw [mkdir_last taken last, ← up, mkdirAt_there free]
      · have barred_ : t.enter maxLinks (origin cwd p) above.reverse = .error .notDirectory := by
          rw [← up, enter_eq, leads]
          change t.enter links place [] = _
          obtain ⟨kind, found'⟩ := Option.ne_none_iff_exists'.mp there
          rw [enter_barred [] dir, found']
          rfl
        refine stopped (e := .notDirectory) ?_ nofun
        rw [mkdir_last taken last, barred_]
        rfl

end Written

/-! ### Files -/

def lands (t : FileTree) (cwd : Place) (p : Pathname) : Option Place :=
  match t.create cwd p with
  | .error _ => none
  | .ok (place, _) => some place

/-- The files that are opened one after the other, up to the first that cannot be. -/
def createEach (cwd : Place) : List Pathname → FileTree → List Place
  | [], _ => []
  | p :: rest, t =>
    match t.create cwd p with
    | .error _ => []
    | .ok (place, t') => place :: createEach cwd rest t'

/-- Each of the files lies inside, up to the first that cannot be opened. -/
def FilesInside (Inside : Place → Prop) (t : FileTree) (cwd : Place) : List Pathname → Prop
  | [] => True
  | p :: rest => ∀ place, t.lands cwd p = some place → Inside place ∧ FilesInside Inside t cwd rest

/-- Each name that is missing lies inside, and so does what comes after the last. -/
def WayInside (Inside : Place → Prop) (last : FileTree → Prop) :
    FileTree → Nat → Place → List String → Prop
  | t, _, _, [] => last t
  | t, links, here, name :: rest =>
    if name ≠ ".." ∧ t.node (name :: here) = none then
      Inside (name :: here) ∧
        WayInside Inside last (t.add (name :: here) .dir) links (name :: here) rest
    else ∀ at_, t.enter links here [name] = .ok at_ → WayInside Inside last t at_.1 at_.2 rest

section Inside
variable {t : FileTree} {cwd : Place} {Inside : Place → Prop}

theorem lands_iff {p : Pathname} {place : Place} : t.lands cwd p = some place ↔
    refused p = none ∧ (∃ links, t.lead maxLinks (origin cwd p) p.pieces = .ok (links, place)) ∧
      (t.node place = none ∨ t.node place = some .file) := by
  unfold lands create
  cases refused p with
  | some e => exact iff_of_false nofun fun all => nomatch all.1
  | none =>
    cases t.lead maxLinks (origin cwd p) p.pieces with
    | error e => exact iff_of_false nofun fun all => nomatch all.2.1.choose_spec
    | ok at_ =>
      obtain ⟨links, other⟩ := at_
      dsimp only
      have same (there : t.node other = none ∨ t.node other = some .file) : some other = some place ↔
          (none : Option Errno) = none ∧ (∃ links', Except.ok (ε := Errno) (links, other) =
            .ok (links', place)) ∧ (t.node place = none ∨ t.node place = some .file) := by
        constructor
        · rintro ⟨⟩
          exact ⟨rfl, ⟨links, rfl⟩, there⟩
        · rintro ⟨-, ⟨_, ⟨⟩⟩, -⟩
          rfl
      cases found : t.node other with
      | none => exact same (.inl found)
      | some kind =>
        cases kind with
        | file => exact same (.inr found)
        | _ =>
          refine iff_of_false nofun ?_
          rintro ⟨-, ⟨_, ⟨⟩⟩, none_ | file⟩
          · cases none_.symm.trans found
          · cases file.symm.trans found

theorem lead_same {t' : FileTree} (dirs : ∀ place, t'.node place = some .dir ↔ t.node place = some .dir)
    (links_ : ∀ place target, t'.node place = some (.link target) ↔ t.node place = some (.link target))
    (links : Nat) (here : Place) (pieces : List String) (at_ : Nat × Place) :
    t'.lead links here pieces = .ok at_ ↔ t.lead links here pieces = .ok at_ := by
  induction links, here, pieces using @lead_induction t with
  | nil links here => rw [lead_nil, lead_nil]
  | bar links here piece rest blocked =>
    rw [lead_barred blocked, lead_barred (mt (dirs here).mp blocked)]
    exact iff_of_false nofun nofun
  | stay links here piece rest dir stay ih => rw [lead_stay dir stay, lead_stay ((dirs _).mpr dir) stay, ih]
  | up links here rest dir ih => rw [lead_up dir, lead_up ((dirs _).mpr dir), ih]
  | link links here piece target rest dir moves name linked ih =>
    rw [lead_link dir moves name linked,
      lead_link ((dirs _).mpr dir) moves name ((links_ _ _).mpr linked)]
    cases links with
    | zero => exact iff_of_false nofun nofun
    | succ fewer => exact ih fewer rfl
  | down links here piece rest dir moves name noLink ih =>
    rw [lead_down dir moves name noLink, lead_down ((dirs _).mpr dir) moves name
      (fun target => mt (links_ _ target).mp (noLink target)), ih]

theorem add_file_node {place : Place} (free : t.node place = none) (other : Place) :
    (t.add place .file).node other = t.node other ∨
      t.node other = none ∧ (t.add place .file).node other = some .file := by
  cases place with
  | nil => exact .inl rfl
  | cons name parent =>
    by_cases able : Proper name ∧ t.node parent = some .dir ∧ t.node (name :: parent) = none
    · rw [add_node able.1 able.2.1 able.2.2]
      split
      · rename_i here
        exact .inr ⟨here ▸ free, rfl⟩
      · exact .inl rfl
    · have same : t.add (name :: parent) .file = t := dif_neg able
      exact .inl (by rw [same])

theorem create_lands {p : Pathname} {place : Place} {t' : FileTree}
    (created : t.create cwd p = .ok (place, t')) (q : Pathname) : t'.lands cwd q = t.lands cwd q := by
  have nodes (other : Place) : t'.node other = t.node other ∨
      t.node other = none ∧ t'.node other = some .file := by
    unfold create at created
    split at created
    · cases created
    · split at created
      · cases created
      · split at created
        · rename_i free
          cases created
          exact add_file_node free other
        · cases created
          exact .inl rfl
        · cases created
  have kinds (kind : FileNode) (noFile : kind ≠ .file) (other : Place) :
      t'.node other = some kind ↔ t.node other = some kind := by
    obtain same | ⟨free, file⟩ := nodes other
    · rw [same]
    · rw [free, file]
      exact iff_of_false (fun same => noFile (Option.some.inj same).symm) nofun
  have files (other : Place) : (t'.node other = none ∨ t'.node other = some .file) ↔
      (t.node other = none ∨ t.node other = some .file) := by
    obtain same | ⟨free, file⟩ := nodes other
    · rw [same]
    · rw [free, file]
      exact iff_of_true (.inr rfl) (.inl rfl)
  have leads := lead_same (kinds .dir nofun) fun other target => kinds (.link target) nofun other
  apply Option.ext
  intro other
  rw [lands_iff, lands_iff]
  simp only [leads, files]

theorem filesInside_of_lands {t' : FileTree} (same : ∀ q, t'.lands cwd q = t.lands cwd q)
    (paths : List Pathname) : FilesInside Inside t' cwd paths ↔ FilesInside Inside t cwd paths := by
  induction paths with
  | nil => rfl
  | cons p rest ih => simp only [FilesInside, same, ih]

theorem filesInside_of_all {paths : List Pathname}
    (all : ∀ p ∈ paths, ∀ place, t.lands cwd p = some place → Inside place) :
    FilesInside Inside t cwd paths := by
  induction paths with
  | nil => trivial
  | cons p rest ih =>
    obtain ⟨here, others⟩ := List.forall_mem_cons.mp all
    exact fun place landed => ⟨here place landed, ih others⟩

theorem createEach_inside_iff (paths : List Pathname) (t : FileTree) :
    (∀ place ∈ createEach cwd paths t, Inside place) ↔ FilesInside Inside t cwd paths := by
  induction paths generalizing t with
  | nil => exact iff_of_true nofun trivial
  | cons p rest ih =>
    unfold createEach FilesInside
    cases created : t.create cwd p with
    | error e =>
      have none_ : t.lands cwd p = none := by rw [lands, created]
      rw [none_]
      exact iff_of_true nofun nofun
    | ok pair =>
      obtain ⟨place, t'⟩ := pair
      have landed : t.lands cwd p = some place := by rw [lands, created]
      dsimp only
      rw [landed, List.forall_mem_cons, ih, filesInside_of_lands (create_lands created)]
      exact ⟨fun both _ same => Option.some.inj same ▸ both, fun all => all place rfl⟩

theorem join_file {p : Pathname} (nonempty : p.isEmpty = false) (file : String) :
    p.join ⟨false, [file]⟩ = ⟨p.absolute, p.pieces ++ [file]⟩ := by
  simp [Pathname.join, nonempty]

/-- Behind what is no directory, no file can be opened. -/
theorem lands_barred {p : Pathname} (nonempty : p.isEmpty = false) (noDir : t.isDir cwd p = false)
    (file : String) : t.lands cwd (p.join ⟨false, [file]⟩) = none := by
  by_contra some_
  obtain ⟨place, landed⟩ := Option.ne_none_iff_exists'.mp some_
  rw [join_file nonempty] at landed
  obtain ⟨taken, ⟨links, leads⟩, -⟩ := lands_iff.mp landed
  change t.lead maxLinks (origin cwd p) (p.pieces ++ [file]) = _ at leads
  rw [lead_append] at leads
  cases first : t.lead maxLinks (origin cwd p) p.pieces with
  | error e =>
    rw [first] at leads
    cases leads
  | ok at_ =>
    rw [first] at leads
    change t.lead at_.1 at_.2 [file] = _ at leads
    have dir : t.node at_.2 = some .dir := by
      by_contra blocked
      rw [lead_barred blocked] at leads
      cases leads
    have taken' : refused p = none := by
      have whole : p.pieces.any hasZero = false := by
        rw [List.any_eq_false]
        intro piece there
        simpa using (refused_none taken).2 piece (List.mem_append_left _ there)
      simp [refused, nonempty, whole]
    have there := isDir_iff.mpr ⟨taken', at_, enter_ok_iff.mpr ⟨first, dir⟩⟩
    rw [noDir] at there
    cases there

theorem lands_below {p : Pathname} (nonempty : p.isEmpty = false) {links : Nat} {place other : Place}
    (enters : t.enter maxLinks (origin cwd p) p.pieces = .ok (links, place)) {file : String}
    (moves : stays file = false) (isName : file ≠ "..") (free : t.node (file :: place) = none)
    (landed : t.lands cwd (p.join ⟨false, [file]⟩) = some other) : other = file :: place := by
  rw [join_file nonempty] at landed
  obtain ⟨-, ⟨links', leads⟩, -⟩ := lands_iff.mp landed
  change t.lead maxLinks (origin cwd p) (p.pieces ++ [file]) = _ at leads
  obtain ⟨first, dir⟩ := enter_ok_iff.mp enters
  rw [lead_append, first] at leads
  change t.lead links place [file] = _ at leads
  rw [lead_down dir moves isName (by simp [free]), lead_nil] at leads
  cases leads
  rfl

/-- Along its names, a walk makes what is inside and goes on so exactly if this holds of the tree. -/
theorem way_inside_iff (last : FileTree → Prop) (names : List String) (t : FileTree) (links : Nat)
    (here : Place) (made : List Place) :
    let w := names.foldl Way.step ⟨some (links, here), t, made⟩
    ((∀ place ∈ w.made, Inside place) ∧ (w.at_.isSome = true → last w.tree)) ↔
      (∀ place ∈ made, Inside place) ∧ WayInside Inside last t links here names := by
  induction names generalizing t links here made with
  | nil => simp [WayInside]
  | cons name rest ih =>
    rw [List.foldl_cons]
    unfold WayInside
    by_cases missing : name ≠ ".." ∧ t.node (name :: here) = none
    · rw [if_pos missing, step_missing missing]
      refine (ih _ _ _ _).trans ?_
      rw [List.forall_mem_append, List.forall_mem_singleton, and_assoc]
    · rw [if_neg missing, step_there missing]
      cases next : t.enter links here [name] with
      | error e =>
        have stopped (names : List String) :
            names.foldl Way.step ⟨none, t, made⟩ = ⟨none, t, made⟩ := by
          induction names with
          | nil => rfl
          | cons name rest ih' => exact ih'
        change (∀ place ∈ (rest.foldl Way.step ⟨none, t, made⟩).made, _) ∧ _ ↔ _
        simp [Except.toOption, stopped]
      | ok at_ =>
        refine (ih _ _ _ _).trans ?_
        simp

theorem way_inside (last : FileTree → Prop) (names : List String) (t : FileTree) :
    ((∀ place ∈ (t.way names).made, Inside place) ∧
      ((t.way names).at_.isSome = true → last (t.way names).tree)) ↔
      WayInside Inside last t maxLinks [] names := by
  refine (way_inside_iff last names t maxLinks [] []).trans ?_
  simp

end Inside
end Files.FileTree
