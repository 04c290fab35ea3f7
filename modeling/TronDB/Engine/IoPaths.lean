import TronDB.Engine.Backup
import TronDB.Lib.Ways

/-! The paths of BACKUP and IMPORT: what is accepted, and what is touched then. -/
namespace TronDB.Engine
open TronDB.Core Files FileTree

/-! ### The calls of the standard library -/

def ioError : Errno → String
  | .noEntry => "No such file or directory (os error 2)"
  | .notDirectory => "Not a directory (os error 20)"
  | .alreadyExists => "File exists (os error 17)"
  | .isDirectory => "Is a directory (os error 21)"
  | .loop => "Too many levels of symbolic links (os error 40)"
  | .invalidInput => "file name contained an unexpected NUL byte"

section Paths
variable (t : FileTree) (cwd : Place)

def canonicalize (p : Pathname) : Except Errno Pathname := (t.lookup cwd p).map Pathname.ofPlace

/-! ### BACKUP and IMPORT -/

variable (dataDir : Pathname)

/-- A path as the request has it, below the data directory unless it is absolute. -/
def resolveIoPath (path : String) : Pathname :=
  let requested := Pathname.ofString path
  if requested.absolute then requested else dataDir.join requested

def validateIoPath (path : String) : Except EngineError Pathname :=
  let resolved := resolveIoPath dataDir path
  match canonicalize t cwd dataDir with
  | .error e => .error (.invalidQuery ("data dir error: " ++ ioError e))
  | .ok canonicalBase =>
    if t.present cwd resolved then
      match canonicalize t cwd resolved with
      | .error e => .error (.invalidQuery ("path error: " ++ ioError e))
      | .ok canonical =>
        if canonical.startsWith canonicalBase then .ok canonical
        else .error (.invalidQuery "path outside data directory")
    else
      match resolved.parent with
      | none => .error (.invalidQuery "invalid path")
      | some parent =>
        if t.present cwd parent then
          match canonicalize t cwd parent with
          | .error e => .error (.invalidQuery ("path error: " ++ ioError e))
          | .ok canonicalParent =>
            if canonicalParent.startsWith canonicalBase then .ok resolved
            else .error (.invalidQuery "path outside data directory")
        else if resolved.startsWith canonicalBase then .ok resolved
        else .error (.invalidQuery "path outside data directory")

def filePaths (backupDir : Pathname) (files : List String) : List Pathname :=
  files.map fun file => backupDir.join (.ofString file)

/-- What a backup makes and opens: its directory with all above it, and then its files. -/
def backupTouches (files : List String) (backupDir : Pathname) : List Place :=
  match createDirAll cwd backupDir.ancestors t with
  | (.error _, _, made) => made
  | (.ok (), t', made) =>
    made ++ createEach cwd (filePaths backupDir files) t'

/-- What BACKUP touches, and what IMPORT opens, of a path that is accepted lies under the data
directory. -/
structure KeepsInside (files : List String) (path : String) : Prop where
  backup : ∀ base, t.lookup cwd dataDir = .ok base → ∀ p, validateIoPath t cwd dataDir path = .ok p →
    ∀ place ∈ backupTouches t cwd files p, base <:+ place
  imported : ∀ base, t.lookup cwd dataDir = .ok base → ∀ p, validateIoPath t cwd dataDir path = .ok p →
    ∀ place, t.lookup cwd p = .ok place → base <:+ place

/-- The files that a backup opens, as it comes to them: the entities are read before their file. -/
def openedPaths (s : Store) : List String :=
  Store.schemaPath :: ((s.listCollectionSchemas.takeWhile fun schema =>
    (s.scan schema.name).isOk).map fun schema => Store.entityPath schema.name)

/-- Where the path is, no file of the backup is led out by a link. Where neither it nor its parent
is, each directory that is missing along the path lies under the data directory, and then the
files. -/
def LeadsInside (files : List String) (path : String) : Prop :=
  ∀ base, t.lookup cwd dataDir = .ok base →
    let resolved := resolveIoPath dataDir path
    (∀ place, t.lookup cwd resolved = .ok place → base <:+ place →
      FilesInside (base <:+ ·) t cwd (filePaths (.ofPlace place) files)) ∧
    (∀ parent, t.present cwd resolved = false → resolved.parent = some parent →
      t.present cwd parent = false → resolved.startsWith (.ofPlace base) = true →
      refused resolved = none →
        WayInside (base <:+ ·) (fun t' => FilesInside (base <:+ ·) t' cwd (filePaths resolved files))
          t maxLinks [] (madeNames resolved))

/-! ### Places and their paths -/

section Accepted
variable {t cwd dataDir}

theorem steps_place {place : Place} (there : t.node place ≠ none) : Steps place.reverse := by
  induction place with
  | nil => exact nofun
  | cons name above ih =>
    obtain ⟨⟨moves, -, whole⟩, dir⟩ := t.named name above there
    intro piece listed
    rw [List.reverse_cons, List.mem_append, List.mem_singleton] at listed
    rcases listed with listed | rfl
    · exact ih (by simp [dir]) piece listed
    · exact ⟨moves, whole⟩

theorem startsWith_ofPlace {base place : Place} (thereBase : t.node base ≠ none)
    (there : t.node place ≠ none) :
    (Pathname.ofPlace place).startsWith (.ofPlace base) = true ↔ base <:+ place := by
  unfold Pathname.startsWith Pathname.ofPlace
  rw [components_steps (steps_place thereBase), components_steps (steps_place there)]
  simp [List.reverse_prefix]

theorem begins_absolute {p : Pathname} {base : Place} (begins : p.startsWith (.ofPlace base) = true) :
    p.absolute = true :=
  (of_decide_eq_true begins).1

theorem lookup_no_link {p : Pathname} {place : Place} (found : t.lookup cwd p = .ok place)
    (target : Pathname) : t.node place ≠ some (.link target) := by
  intro linked
  obtain ⟨taken, ⟨links, leads⟩, -⟩ := lookup_ok_iff.mp found
  obtain ⟨empty, here⟩ := lead_no_link leads linked
  have nonempty := (refused_none taken).1
  cases absolute : p.absolute with
  | true =>
    have root : place = [] := here.trans (by rw [origin, absolute]; rfl)
    rw [root] at linked
    cases t.root.symm.trans linked
  | false => simp [Pathname.isEmpty, absolute, empty] at nonempty

theorem lookup_ofPlace {p : Pathname} {place : Place} (found : t.lookup cwd p = .ok place) :
    t.lookup cwd (.ofPlace place) = .ok place := by
  obtain ⟨-, -, there⟩ := lookup_ok_iff.mp found
  exact lookup_ok_iff.mpr ⟨refused_steps (steps_place there),
    ⟨_, lead_ofPlace maxLinks there (lookup_no_link found)⟩, there⟩

/-- What is accepted: a place under the base, or a path whose parent is one, or one that neither
leads anywhere nor has a parent that does, and begins as the base does. -/
inductive Accepted (t : FileTree) (cwd base : Place) (resolved : Pathname) : Pathname → Prop
  | there (place : Place) (found : t.lookup cwd resolved = .ok place) (under : base <:+ place) :
      Accepted t cwd base resolved (.ofPlace place)
  | beside (missing : t.present cwd resolved = false) (parent : Pathname)
      (isParent : resolved.parent = some parent) (place : Place)
      (found : t.lookup cwd parent = .ok place) (under : base <:+ place) :
      Accepted t cwd base resolved resolved
  | written (missing : t.present cwd resolved = false) (parent : Pathname)
      (isParent : resolved.parent = some parent) (missingParent : t.present cwd parent = false)
      (begins : resolved.startsWith (.ofPlace base) = true) :
      Accepted t cwd base resolved resolved

theorem accepted_there {base place : Place} {resolved p : Pathname}
    (found : t.lookup cwd resolved = .ok place) :
    Accepted t cwd base resolved p ↔ base <:+ place ∧ p = .ofPlace place := by
  constructor
  · intro accepted
    cases accepted with
    | there place' found' under =>
      cases found.symm.trans found'
      exact ⟨under, rfl⟩
    | beside missing => cases (present_lookup found).symm.trans missing
    | written missing => cases (present_lookup found).symm.trans missing
  · rintro ⟨under, rfl⟩
    exact .there place found under

theorem accepted_missing {base : Place} {resolved p : Pathname}
    (missing : t.present cwd resolved = false) : Accepted t cwd base resolved p ↔
      p = resolved ∧ ∃ parent, resolved.parent = some parent ∧
        ((∃ place, t.lookup cwd parent = .ok place ∧ base <:+ place) ∨
          t.present cwd parent = false ∧ resolved.startsWith (.ofPlace base) = true) := by
  constructor
  · intro accepted
    cases accepted with
    | there place found => cases (present_lookup found).symm.trans missing
    | beside _ parent isParent place found under =>
      exact ⟨rfl, parent, isParent, .inl ⟨place, found, under⟩⟩
    | written _ parent isParent missingParent begins =>
      exact ⟨rfl, parent, isParent, .inr ⟨missingParent, begins⟩⟩
  · rintro ⟨rfl, parent, isParent, ⟨place, found, under⟩ | ⟨missingParent, begins⟩⟩
    · exact .beside missing parent isParent place found under
    · exact .written missing parent isParent missingParent begins

theorem validateIoPath_ok_iff {base : Place} (based : t.lookup cwd dataDir = .ok base)
    (path : String) (p : Pathname) : validateIoPath t cwd dataDir path = .ok p ↔
      Accepted t cwd base (resolveIoPath dataDir path) p := by
  have canonicalBase : canonicalize t cwd dataDir = .ok (.ofPlace base) := by rw [canonicalize, based]; rfl
  obtain ⟨-, -, thereBase⟩ := lookup_ok_iff.mp based
  unfold validateIoPath
  dsimp only
  rw [canonicalBase]
  dsimp only
  generalize resolveIoPath dataDir path = resolved
  cases found : t.lookup cwd resolved with
  | ok place =>
    obtain ⟨-, -, there⟩ := lookup_ok_iff.mp found
    have canonical : canonicalize t cwd resolved = .ok (.ofPlace place) := by rw [canonicalize, found]; rfl
    rw [if_pos (present_lookup found), canonical, accepted_there found,
      ← startsWith_ofPlace thereBase there]
    dsimp only
    split
    · rename_i under
      rw [Except.ok.injEq]
      exact ⟨fun same => ⟨under, same.symm⟩, fun both => both.2.symm⟩
    · rename_i outside
      refine iff_of_false (fun same => ?_) fun both => outside both.1
      cases same
  | error e =>
    have missing : t.present cwd resolved = false := by rw [present, found]; rfl
    rw [if_neg (by simp [missing]), accepted_missing missing]
    cases isParent : resolved.parent with
    | none =>
      constructor
      · intro same
        cases same
      · rintro ⟨-, _, same, -⟩
        cases same
    | some parent =>
      dsimp only
      cases foundParent : t.lookup cwd parent with
      | ok place =>
        obtain ⟨-, -, there⟩ := lookup_ok_iff.mp foundParent
        have canonical : canonicalize t cwd parent = .ok (.ofPlace place) := by
          rw [canonicalize, foundParent]
          rfl
        rw [if_pos (present_lookup foundParent), canonical]
        dsimp only
        split
        · rename_i under
          rw [startsWith_ofPlace thereBase there] at under
          rw [Except.ok.injEq]
          exact ⟨fun same => ⟨same.symm, parent, rfl, .inl ⟨place, foundParent, under⟩⟩,
            fun both => both.1.symm⟩
        · rename_i outside
          rw [startsWith_ofPlace thereBase there] at outside
          constructor
          · intro same
            cases same
          · rintro ⟨-, _, ⟨⟩, ⟨place', found', under⟩ | ⟨missingParent, -⟩⟩
            · cases foundParent.symm.trans found'
              exact absurd under outside
            · cases (present_lookup foundParent).symm.trans missingParent
      | error e =>
        have missingParent : t.present cwd parent = false := by rw [present, foundParent]; rfl
        rw [if_neg (by simp [missingParent])]
        split
        · rename_i begins
          rw [Except.ok.injEq]
          exact ⟨fun same => ⟨same.symm, parent, rfl, .inr ⟨missingParent, begins⟩⟩,
            fun both => both.1.symm⟩
        · rename_i other
          constructor
          · intro same
            cases same
          · rintro ⟨-, _, ⟨⟩, ⟨place', found', -⟩ | ⟨-, begins⟩⟩
            · cases foundParent.symm.trans found'
            · exact absurd begins other

end Accepted

/-! ### A backup at an accepted path -/

def PlainName (file : String) : Prop :=
  Pathname.ofString file = ⟨false, [file]⟩ ∧ stays file = false ∧ file ≠ ".."

section Backup
variable {t cwd} {files : List String} {Inside : Place → Prop}

theorem filesInside_barred (plain : ∀ file ∈ files, PlainName file) {p : Pathname}
    (nonempty : p.isEmpty = false) (noDir : t.isDir cwd p = false) :
    FilesInside Inside t cwd (filePaths p files) := by
  cases files with
  | nil => trivial
  | cons file rest =>
    intro place landed
    change t.lands cwd (p.join (.ofString file)) = some place at landed
    rw [(plain file List.mem_cons_self).1, lands_barred nonempty noDir] at landed
    cases landed

theorem backup_there (plain : ∀ file ∈ files, PlainName file) {p : Pathname} {place : Place}
    (found : t.lookup cwd p = .ok place) :
    (∀ other ∈ backupTouches t cwd files (.ofPlace place), Inside other) ↔
      FilesInside Inside t cwd (filePaths (.ofPlace place) files) := by
  have there := present_lookup (lookup_ofPlace found)
  obtain ⟨result, ends, ok⟩ := createDirAll_present (Pathname.ancestorsOf true
    (Pathname.ofPlace place).components.reverse) there
  unfold backupTouches Pathname.ancestors
  rw [show (Pathname.ofPlace place).absolute = true from rfl, ends]
  cases result with
  | error e =>
    refine iff_of_true nofun (filesInside_barred plain rfl ?_)
    exact Bool.eq_false_iff.mpr fun dir => absurd (ok.mpr dir) nofun
  | ok done => exact createEach_inside_iff _ t

/-- Below a parent that is there, nothing but a new directory is touched. -/
theorem backup_beside (plain : ∀ file ∈ files, PlainName file) {base place : Place} {p q : Pathname}
    (missing : t.present cwd p = false) (parent : p.parent = some q)
    (found : t.lookup cwd q = .ok place) (under : base <:+ place) :
    ∀ other ∈ backupTouches t cwd files p, base <:+ other := by
  obtain ⟨result, t', made, ends, stops | ⟨name, links, rfl, fresh, enters⟩⟩ :=
    createDirAll_beside parent found missing
  · obtain ⟨fails, rfl⟩ := stops
    unfold backupTouches
    rw [ends]
    cases result with
    | error e => exact nofun
    | ok done => exact absurd rfl fails
  · have below : base <:+ name :: place := under.trans (List.suffix_cons name place)
    have inside : FilesInside (base <:+ ·) t' cwd (filePaths p files) := by
      apply filesInside_of_all
      intro path listed other landed
      obtain ⟨file, there, rfl⟩ := List.mem_map.mp listed
      obtain ⟨one, moves, isName⟩ := plain file there
      rw [one] at landed
      rw [lands_below (parent_nonempty parent) enters moves isName (fresh file) landed]
      exact below.trans (List.suffix_cons file _)
    rw [← createEach_inside_iff] at inside
    unfold backupTouches
    rw [ends]
    cases result with
    | error e => simpa using below
    | ok done =>
      dsimp only
      rw [List.forall_mem_append, List.forall_mem_singleton]
      exact ⟨below, inside⟩

/-- Along a path that is not there, what is made and the files are what counts. -/
theorem backup_written (plain : ∀ file ∈ files, PlainName file) {p q : Pathname}
    (absolute : p.absolute = true) (missing : t.present cwd p = false) (parent : p.parent = some q) :
    (∀ other ∈ backupTouches t cwd files p, Inside other) ↔ (refused p = none →
      WayInside Inside (fun t' => FilesInside Inside t' cwd (filePaths p files)) t maxLinks []
        (madeNames p)) := by
  have nonempty := parent_nonempty parent
  have noDir := not_isDir missing
  obtain ⟨some_, -⟩ := parent_some parent
  cases taken : refused p with
  | some e =>
    obtain ⟨result, ends, fails⟩ := @createDirAll_stops t cwd _ e
      (Pathname.ancestorsOf p.absolute p.components.reverse) nonempty (by rw [mkdir, taken])
      (refused_zero nonempty taken) noDir
    refine iff_of_true ?_ fun none_ => by cases none_
    unfold backupTouches Pathname.ancestors
    rw [ends]
    cases result with
    | error e => exact List.forall_mem_nil _
    | ok done => exact absurd rfl fails
  | none =>
    obtain ⟨result, ends, arrives, stops⟩ := createDirAll_written absolute taken some_ noDir
    rw [forall_prop_of_true rfl, ← way_inside]
    unfold backupTouches
    rw [ends]
    cases result with
    | error e =>
      refine ⟨fun all => ⟨all, fun comes => ?_⟩, And.left⟩
      apply filesInside_barred plain nonempty
      apply stops comes
      intro same
      cases same
    | ok done =>
      dsimp only
      rw [List.forall_mem_append, createEach_inside_iff]
      exact and_congr_right fun _ => ⟨fun all _ => all, fun all => all (arrives rfl)⟩

end Backup

/-! ### Every path and every tree -/

theorem plain_of_no_slash {file : String} (noSlash : '/' ∉ file.toList) (moves : stays file = false)
    (isName : file ≠ "..") : PlainName file := by
  refine ⟨?_, moves, isName⟩
  have pieces (cs : List Char) (none_ : '/' ∉ cs) :
      Pathname.pieceList cs = [String.ofList cs] := by
    have whole : cs.splitOn '/' = [cs] := by
      apply List.splitOnP_eq_singleton
      intro c there
      simpa using fun (same : c = '/') => none_ (same ▸ there)
    simp [Pathname.pieceList, whole]
  unfold Pathname.ofString
  split
  · rename_i rest parts
    simp [parts] at noSlash
  · rw [pieces _ noSlash, String.ofList_toList]

/-- The files of a backup have plain names, as the partitions have whose names they begin with. -/
theorem openedPaths_plain {s : Store}
    (partitions : ∀ schema ∈ s.listCollectionSchemas, '/' ∉ schema.name.toList) :
    ∀ file ∈ openedPaths s, PlainName file := by
  intro file listed
  rcases List.mem_cons.mp listed with rfl | listed
  · exact plain_of_no_slash (by decide) (by decide) (by decide)
  · obtain ⟨schema, there, rfl⟩ := List.mem_map.mp listed
    have noSlash := partitions schema ((List.takeWhile_sublist _).subset there)
    have whole : (Store.entityPath schema.name).toList = schema.name.toList ++ ".jsonl".toList := by
      rw [Store.entityPath, String.toList_append]
    have long : 6 ≤ (Store.entityPath schema.name).toList.length := by
      rw [whole, List.length_append]
      exact Nat.le_add_left 6 _
    apply plain_of_no_slash
    · rw [whole, List.mem_append, not_or]
      exact ⟨noSlash, by decide⟩
    · unfold stays
      rw [Bool.or_eq_false_iff, decide_eq_false_iff_not, decide_eq_false_iff_not]
      constructor
      · intro short
        rw [short] at long
        exact absurd long (by decide)
      · intro short
        rw [short] at long
        exact absurd long (by decide)
    · intro short
      rw [short] at long
      exact absurd long (by decide)

/-- Whatever the tree, what BACKUP and IMPORT do with an accepted path stays under the data
directory exactly if the path leads inside. -/
theorem keeps_inside_iff (t : FileTree) (cwd : Place) (dataDir : Pathname) (s : Store)
    (partitions : ∀ schema ∈ s.listCollectionSchemas, '/' ∉ schema.name.toList) (path : String) :
    KeepsInside t cwd dataDir (openedPaths s) path ↔ LeadsInside t cwd dataDir (openedPaths s) path := by
  have plain := openedPaths_plain partitions
  constructor
  · intro keeps base based
    have accepted := validateIoPath_ok_iff based path
    refine ⟨fun place found under => ?_, fun parent missing isParent missingParent begins => ?_⟩
    · rw [← backup_there plain found]
      exact keeps.backup base based _ ((accepted _).mpr (.there place found under))
    · rw [← backup_written plain (begins_absolute begins) missing isParent]
      exact keeps.backup base based _
        ((accepted _).mpr (.written missing parent isParent missingParent begins))
  · intro leads
    refine ⟨fun base based p valid => ?_, fun base based p valid place opened => ?_⟩
    · obtain ⟨there, written⟩ := leads base based
      cases (validateIoPath_ok_iff based path p).mp valid with
      | there place found under => exact (backup_there plain found).mpr (there place found under)
      | beside missing parent isParent place found under =>
        exact backup_beside plain missing isParent found under
      | written missing parent isParent missingParent begins =>
        rw [backup_written plain (begins_absolute begins) missing isParent]
        exact written parent missing isParent missingParent begins
    · -- a path that leads nowhere cannot be opened
      cases (validateIoPath_ok_iff based path p).mp valid with
      | there place' found under =>
        cases (lookup_ofPlace found).symm.trans opened
        exact under
      | beside missing => cases (present_lookup opened).symm.trans missing
      | written missing => cases (present_lookup opened).symm.trans missing

end Paths

/-! ### Out of the data directory -/

section Examples

def dataOnly : FileTree where
  node place := if place = [] ∨ place = ["data"] then some .dir else none
  root := rfl
  named := by
    intro name place present
    by_cases here : name :: place = ["data"]
    · cases here
      decide
    · simp [here] at present

/-- A new directory below the data directory is accepted, and nothing else is touched. -/
theorem backup_kept :
    KeepsInside dataOnly [] (.ofString "/data") (openedPaths Store.empty) "backup" := by
  refine (keeps_inside_iff dataOnly [] (.ofString "/data") Store.empty (by decide) "backup").mpr ?_
  intro base based
  refine ⟨fun place found => ?_, fun parent missing isParent missingParent => ?_⟩
  · have nowhere : dataOnly.lookup [] (resolveIoPath (.ofString "/data") "backup") =
        .error .noEntry := by decide +kernel
    cases nowhere.symm.trans found
  · have above : (resolveIoPath (.ofString "/data") "backup").parent = some (.ofPlace ["data"]) := by
      decide +kernel
    cases above.symm.trans isParent
    have there : dataOnly.present [] (.ofPlace ["data"]) = true := by decide +kernel
    cases there.symm.trans missingParent

/-- The way to the backup goes through a directory that is missing, and out again. -/
theorem backup_outside :
    ¬ KeepsInside dataOnly [] (.ofString "/data") (openedPaths Store.empty) "new/../../out" := by
  intro keeps
  have accepted : validateIoPath dataOnly [] (.ofString "/data") "new/../../out" =
      .ok ⟨true, ["data", "new", "..", "..", "out"]⟩ := by decide +kernel
  have touched : ["schemas.jsonl", "out"] ∈ backupTouches dataOnly [] (openedPaths Store.empty)
      ⟨true, ["data", "new", "..", "..", "out"]⟩ := by decide +kernel
  have under := keeps.backup ["data"] (by decide +kernel) _ accepted _ touched
  revert under
  decide

end Examples
end TronDB.Engine
