import FidbPoc.Lib.Checked
import FidbPoc.Lib.Files

namespace FidbPoc.Extraction

open FidbPoc.Lib FidbPoc.Lib.Checked

inductive Error
  | pipeline (message : String)
  | os (message : String)
  deriving DecidableEq

abbrev Result := Except Error

structure File where
  content : String
  mode : Nat
  modified : Rat
  deriving DecidableEq

inductive Kind
  | directory
  | symlink (linkName : Target)
  | file (content : String)
  | other
  deriving DecidableEq

/-- A member of the archive; names are given by what stands between their slashes. -/
structure Member where
  name : Target
  kind : Kind
  mode : Nat
  modified : Rat
  deriving DecidableEq

def nameText (name : Target) : String := (if name.absolute then "/" else "") ++ "/".intercalate name.parts

/-- Where a call works: the file system that it finds, with the directory of the sources, the name of the library and the
name that the temporary directory was given. -/
structure Place where
  prior : FileTree File
  sources : Path
  identifier : String
  temporary : String
  directory : prior.node? sources = some .directory
  fresh : prior.node? (sources ++ [temporary]) = none
  identifier_name : IsName identifier
  temporary_name : IsName temporary

namespace Place

variable (place : Place)

def temp : Path := place.sources ++ [place.temporary]

def stage : Path := place.temp ++ [place.identifier]

def destination : Path := place.sources ++ [place.identifier]

def before : Files File := .ofTree place.prior

/-- The files once the staging directory is made. -/
def staged : Files File := (place.before.set place.temp .directory).set place.stage .directory

end Place

structure State where
  files : Files File
  deferredSymlinks : List (Path × Target)
  deferredDirectoryTimes : List (Path × Rat)
  memberCount : Nat
  fileCount : Nat

structure Extracted where
  path : Path
  directoryTimes : Dict Path Rat
  memberCount : Nat
  fileCount : Nat

section Extracting

variable (place : Place)

def safeMemberPath (files : Files File) (name : Target) : Result Path := do
  require (name.absolute = false ∧ ".." ∉ name.parts) (.pipeline s!"unsafe archive path: {nameText name}")
  match files.resolve (place.stage ++ name.parts) with
  | none => .error (.os "symlink loop")
  | some resolved => do
    require (place.stage <+: resolved) (.pipeline s!"archive member escapes destination: {nameText name}")
    pure resolved

def safeSymlinkTarget (files : Files File) (link : Path) (linkName : Target) : Result Path := do
  require (linkName.absolute = false) (.pipeline s!"unsafe archive symlink target: {nameText linkName}")
  match files.resolve (link.dropLast ++ linkName.parts) with
  | none => .error (.pipeline s!"archive symlink target does not exist: {nameText linkName}")
  | some resolved => do
    require (place.stage <+: resolved) (.pipeline s!"archive symlink target escapes destination: {nameText linkName}")
    require ((files.get? resolved).isSome = true) (.pipeline s!"archive symlink target does not exist: {nameText linkName}")
    pure resolved

def mkdir (files : Files File) (path : Path) : Result (Files File) :=
  (files.makeDirectories path).elim (.error (.os "File exists")) .ok

/-- `open("wb")`, `chmod` and `utime`. -/
def writeFile (files : Files File) (path : Path) (file : File) : Result (Files File) :=
  match files.get? path with
  | some .directory => .error (.os "Is a directory")
  | _ => pure (files.set path (.file file))

def fileMode (mode : Nat) : Nat := if mode &&& 0o111 ≠ 0 then 0o755 else 0o644

def extractMember (state : State) (member : Member) : Result State := do
  let target ← safeMemberPath place state.files member.name
  let counted := { state with memberCount := state.memberCount + 1 }
  match member.kind with
  | .directory => do
    let files ← mkdir state.files target
    pure { counted with files
                        deferredDirectoryTimes := state.deferredDirectoryTimes ++ [(target, member.modified)] }
  | .symlink linkName => do
    let files ← mkdir state.files target.dropLast
    pure { counted with files, deferredSymlinks := state.deferredSymlinks ++ [(target, linkName)] }
  | .other => .error (.pipeline s!"unsupported archive member type for {nameText member.name}")
  | .file content => do
    let files ← mkdir state.files target.dropLast
    let files ← writeFile files target ⟨content, fileMode member.mode, member.modified⟩
    pure { counted with files, fileCount := state.fileCount + 1 }

/-- One deferred link: checked, then made where nothing stands. -/
def createSymlink (files : Files File) (link : Path × Target) : Result (Files File) := do
  let _ ← safeSymlinkTarget place files link.1 link.2
  require (nameText link.2 ≠ "") (.os "No such file or directory")
  require ((files.get? link.1).isNone = true) (.os "File exists")
  pure (files.set link.1 (.symlink link.2))

/-- Where the extracted tree comes to stand, and what is left of the rest. -/
def replaced (files : Files File) (path : Path) : Option (Node File) :=
  if place.destination <+: path then files.get? (place.stage ++ path.drop place.destination.length)
  else if place.temp <+: path then none
  else files.get? path

def directoryTimes (times : List (Path × Rat)) : Dict Path Rat :=
  times.reverse.foldl (fun times time => times.set (time.1.drop place.stage.length) time.2) .empty

/-- The statements of `extract_source`: the files in the staging directory, and what is returned. -/
def extractStaged (members : List Member) (sourceDirectory : String) : Result (Files File × Extracted) := do
  let state ← members.foldlM (extractMember place) ⟨place.staged, [], [], 0, 0⟩
  let files ← state.deferredSymlinks.foldlM (createSymlink place) state.files
  require (((files.resolve (place.stage ++ [sourceDirectory])).bind files.get?).any Node.isDirectory = true)
    (.pipeline s!"archive for {place.identifier} did not contain {sourceDirectory}")
  require (place.before.get? place.destination ≠ some .special) (.os "Not a directory")
  pure (files, {
    path := place.destination ++ [sourceDirectory]
    directoryTimes := directoryTimes place state.deferredDirectoryTimes
    memberCount := state.memberCount
    fileCount := state.fileCount + state.deferredSymlinks.length })

/-- `extract_source`: the nodes of the file system afterwards, and what is returned. The temporary directory is removed in
any case. -/
def extractSource (members : List Member) (sourceDirectory : String) : (Path → Option (Node File)) × Result Extracted :=
  match extractStaged place members sourceDirectory with
  | .error e => (place.before.get?, .error e)
  | .ok (files, extracted) => (replaced place files, .ok extracted)

end Extracting

end FidbPoc.Extraction
