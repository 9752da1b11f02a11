import GivenClause.Files.Path
import GivenClause.Files.Standard
import GivenClause.Text.Quoted

/-!
# File trees

A file system as plain data: a working directory, a list of files with their contents, and a list of
further directories.  The standard directories and devices are always there.  There are no links, so
following a path ends at one place.

* `Tree.read` gives a file's text, with every line break as a single character.
* `Tree.write` gives the tree after a file has been written.
* Both can fail, and `FileError.message` words the failure as the operating system does.
-/

namespace GivenClause.Files

/-- Why a path does not lead where it should. -/
inductive Fault where
  | missing
  | notADirectory
  | isADirectory
  | nameTooLong
  | noSpace
  /-- What is read has no end. -/
  | endless
  /-- The path holds a NUL character. -/
  | nullCharacter
  deriving Repr, DecidableEq

/-- A fault and the path it happened on. -/
structure FileError where
  fault : Fault
  path : String
  deriving Repr, DecidableEq

/-- The wording of a fault. -/
def FileError.message (e : FileError) : String :=
  let numbered (number : Nat) (description : String) : String :=
    "[Errno " ++ toString number ++ "] " ++ description ++ ": " ++ Text.quoted e.path
  match e.fault with
  | .missing => numbered 2 "No such file or directory"
  | .notADirectory => numbered 20 "Not a directory"
  | .isADirectory => numbered 21 "Is a directory"
  | .nameTooLong => numbered 36 "File name too long"
  | .noSpace => "[Errno 28] No space left on device"
  | .endless => "no end of file: " ++ Text.quoted e.path
  | .nullCharacter => "embedded null byte"

/-- Files with their contents, and directories.  The working directory and the directories on the way
to a file exist without being listed. -/
structure Tree where
  /-- The working directory.  Where it is matters only to paths that leave it. -/
  here : Location := ["tmp", "work"]
  files : List (Location × String) := []
  directories : List Location := []
  deriving Repr, DecidableEq

/-- What a path leads to. -/
inductive Node where
  | directory (place : Location)
  | file (place : Location) (content : String)
  | device (d : Device)
  deriving Repr, DecidableEq

namespace Tree

/-! ## Following paths -/

/-- The content of the file at a place. -/
def file? (tree : Tree) (place : Location) : Option String := tree.files.lookup place

/-- Whether there is a directory at a place. -/
def isDirectory (tree : Tree) (place : Location) : Bool :=
  Standard.isDirectory place || (tree.here :: tree.directories).any (place.isPrefixOf ·)
    || tree.files.any fun (file, _) => place.isPrefixOf file && place != file

/-- What there is at a place. -/
def node? (tree : Tree) (place : Location) : Option Node :=
  match tree.file? place, Standard.device? place with
  | some content, _ => some (.file place content)
  | none, some d => some (.device d)
  | none, none => if tree.isDirectory place then some (.directory place) else none

/-- The longest name of a file, in bytes. -/
def longestName : Nat := 255

/-- The longest path, in bytes. -/
def longestPath : Nat := 4095

/-- One name further.  The root is above itself. -/
def enter (tree : Tree) (name : String) : Node → Except Fault Node
  | .file _ _ => .error .notADirectory
  | .device _ => .error .notADirectory
  | .directory place =>
    if name = "." then .ok (.directory place)
    else if name = ".." then .ok (.directory place.dropLast)
    else if longestName < name.utf8ByteSize then .error .nameTooLong
    else
      match tree.node? (place ++ [name]) with
      | some node => .ok node
      | none => .error .missing

/-- Follow names from a node. -/
def walk (tree : Tree) : List String → Node → Except Fault Node
  | [], node => .ok node
  | name :: rest, node => do walk tree rest (← tree.enter name node)

/-- The node at which a path with this root starts. -/
def start (tree : Tree) : Root → Node
  | .here => .directory tree.here
  | _ => .directory []

/-- A fault that the text of a path has by itself. -/
def textFault? (text : String) : Option Fault :=
  if text.toList.contains '\x00' then some .nullCharacter
  else if longestPath < text.utf8ByteSize then some .nameTooLong
  else none

/-- What a path leads to. -/
def find (tree : Tree) (path : Path) : Except Fault Node :=
  match textFault? path.render with
  | some fault => .error fault
  | none => tree.walk path.names (tree.start path.root)

/-- Whether a path leads to a file.  A path that leads nowhere does not; one that is too long is an
error. -/
def isFile (tree : Tree) (path : Path) : Except FileError Bool :=
  match tree.find path with
  | .ok (.file _ _) => .ok true
  | .error .nameTooLong => .error ⟨.nameTooLong, path.render⟩
  | _ => .ok false

/-- A node that is a file of the tree, if it is a file at all. -/
def Holds (tree : Tree) : Node → Prop
  | .directory _ => True
  | .file place content => tree.file? place = some content
  | .device _ => True

theorem holds_node {tree : Tree} {place : Location} {node : Node}
    (h : tree.node? place = some node) : tree.Holds node := by
  simp only [node?] at h
  split at h
  · rename_i hfile
    cases h
    exact hfile
  · cases h; trivial
  · split at h
    · cases h; trivial
    · cases h

theorem holds_enter {tree : Tree} {name : String} {node next : Node}
    (h : tree.enter name node = .ok next) : tree.Holds next := by
  cases node with
  | file => cases h
  | device => cases h
  | directory place =>
    simp only [enter] at h
    split at h
    · cases h; trivial
    · split at h
      · cases h; trivial
      · split at h
        · cases h
        · split at h
          · rename_i hnode
            cases h
            exact holds_node hnode
          · cases h

/-- Following a path ends at a file of the tree, if it ends at a file. -/
theorem holds_walk {tree : Tree} {names : List String} {node last : Node}
    (hnode : tree.Holds node) (h : tree.walk names node = .ok last) : tree.Holds last := by
  induction names generalizing node with
  | nil => cases h; exact hnode
  | cons name rest ih =>
    simp only [walk] at h
    cases henter : tree.enter name node with
    | error e => simp [henter, bind, Except.bind] at h
    | ok next => exact ih (holds_enter henter) (by simpa [henter, bind, Except.bind] using h)

theorem file?_of_find {tree : Tree} {path : Path} {place : Location} {content : String}
    (h : tree.find path = .ok (.file place content)) : tree.file? place = some content := by
  simp only [find] at h
  split at h
  · cases h
  · refine holds_walk ?_ h
    cases path.root <;> trivial

/-! ## Reading and writing -/

/-- Every way of ending a line as a single line feed. -/
def normalizeLines : List Char → List Char
  | '\r' :: '\n' :: rest => '\n' :: normalizeLines rest
  | c :: rest => (if c = '\r' then '\n' else c) :: normalizeLines rest
  | [] => []

/-- What there is to read at the end of a path. -/
inductive Source where
  /-- The text of a file in the tree. -/
  | file (place : Location) (text : String)
  /-- A device that is at its end from the beginning. -/
  | nothing
  deriving Repr, DecidableEq

/-- What there is to read at the end of a path. -/
def read (tree : Tree) (path : Path) : Except FileError Source :=
  match tree.find path with
  | .ok (.file place content) => .ok (.file place (String.ofList (normalizeLines content.toList)))
  | .ok (.device .null) => .ok .nothing
  | .ok (.device _) => .error ⟨.endless, path.render⟩
  | .ok (.directory _) => .error ⟨.isADirectory, path.render⟩
  | .error fault => .error ⟨fault, path.render⟩

/-- A file that can be read is one of the tree. -/
theorem mem_files_of_read {tree : Tree} {path : Path} {place : Location} {text : String}
    (h : tree.read path = .ok (.file place text)) : ∃ content, (place, content) ∈ tree.files := by
  simp only [read] at h
  split at h
  · rename_i p content hfind
    cases h
    have := file?_of_find hfind
    rw [file?, List.lookup_eq_some_iff] at this
    obtain ⟨before, after, heq, _⟩ := this
    exact ⟨content, by rw [heq]; simp⟩
  all_goals cases h

/-- Set the content of a place. -/
def put (place : Location) (content : String) : List (Location × String) → List (Location × String)
  | [] => [(place, content)]
  | (p, old) :: rest =>
    if p = place then (p, content) :: rest else (p, old) :: put place content rest

/-- Write a file into a directory. -/
def writeInto (tree : Tree) (name content : String) (place : Location) : Except Fault Tree :=
  if name = "." ∨ name = ".." then .error .isADirectory
  else if longestName < name.utf8ByteSize then .error .nameTooLong
  else
    match tree.node? (place ++ [name]) with
    | some (.directory _) => .error .isADirectory
    | some (.device .full) => .error .noSpace
    | some (.device _) => .ok tree
    | _ => .ok { tree with files := put (place ++ [name]) content tree.files }

/-- Follow a path as it is written, points and all, and write the file at its end.  A path that ends
in a slash can only mean a directory. -/
def writeAt (tree : Tree) (path content : String) : Except Fault Tree :=
  let names := ((pieces path.toList).map String.ofList).filter (· ≠ "")
  match textFault? path, names.getLast? with
  | some fault, _ => .error fault
  | none, none => .error (if path = "" then .missing else .isADirectory)
  | none, some name =>
    match tree.walk names.dropLast (tree.start (Path.rootOf path.toList)) with
    | .error fault => .error fault
    | .ok (.directory place) =>
      if path.toList.getLast? = some '/' then .error .isADirectory
      else tree.writeInto name content place
    | .ok _ => .error .notADirectory

/-- Write a file. -/
def write (tree : Tree) (path content : String) : Except FileError Tree :=
  (tree.writeAt path content).mapError fun fault => ⟨fault, path⟩

/-- The files that are new in the second tree or have another content there. -/
def changes (old new : Tree) : List (Location × String) :=
  new.files.filter fun (place, content) => old.file? place ≠ some content

/-- The path from the working directory to a place below it. -/
def pathBelow? (tree : Tree) (place : Location) : Option String :=
  if tree.here.isPrefixOf place then some (Text.join "/" (place.drop tree.here.length)) else none

end Tree

end GivenClause.Files
