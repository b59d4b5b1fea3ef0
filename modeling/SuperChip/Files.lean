import SuperChip.Bytes
import SuperChip.Text.Quoted

/-!
# Files, folders and links

The files that a tool can read and write. Files, folders and symbolic links are nodes with numbers,
and a folder gives names to nodes, so that one file can have several names. A path is cut at slashes
and walked name by name; a link on the way is replaced by the path it holds. A file that is opened
for writing is emptied, or made, at once; what is written then may break off.
-/

set_option autoImplicit false

namespace SuperChip

/-- An error of the system: its number and its wording. -/
structure SystemError where
  number : Nat
  wording : String
  deriving DecidableEq, Repr

namespace SystemError

/-- Nothing stands at the path. -/
def notFound : SystemError := ⟨2, "No such file or directory"⟩

/-- A path goes on behind a file. -/
def notFolder : SystemError := ⟨20, "Not a directory"⟩

/-- A folder is opened as a file. -/
def isFolder : SystemError := ⟨21, "Is a directory"⟩

/-- There is no room for more bytes. -/
def noSpace : SystemError := ⟨28, "No space left on device"⟩

/-- A name or the path is too long. -/
def nameTooLong : SystemError := ⟨36, "File name too long"⟩

/-- A path leads through too many links. -/
def tooManyLinks : SystemError := ⟨40, "Too many levels of symbolic links"⟩

/-- The wording behind the number. -/
def text (e : SystemError) : String := s!"[Errno {e.number}] " ++ e.wording

end SystemError

/-- Why a file cannot be read or written. -/
inductive FileError where
  /-- The system refuses to open the file at a path. -/
  | refused (error : SystemError) (path : String)
  /-- The file is open, but the system fails to write to it. -/
  | whileWriting (error : SystemError)
  /-- The path holds the character that ends every path. -/
  | holdsNull
  deriving DecidableEq, Repr

namespace FileError

/-- The wording of each refusal. -/
def message : FileError → String
  | .refused e path => e.text ++ ": " ++ Text.quoted path
  | .whileWriting e => e.text
  | .holdsNull => "embedded null byte"

/-- Whether the system is asked at all: a path with the character that ends paths never gets
there. -/
def isSystem : FileError → Bool
  | .refused .. | .whileWriting _ => true
  | .holdsNull => false

end FileError

/-- A folder: the folder above it, the names in it with the numbers of their nodes, and why it
cannot be searched, or no name can be added to it, if so. -/
structure Folder where
  above : Nat
  entries : List (String × Nat) := []
  unsearchable : Option SystemError := none
  unwritable : Option SystemError := none
  deriving DecidableEq, Repr

/-- A file: its bytes, and why it cannot be opened for reading or for writing, if so. -/
structure File where
  data : Bytes := #[]
  unreadable : Option SystemError := none
  unwritable : Option SystemError := none
  deriving DecidableEq, Repr

/-- What a name may stand for. -/
inductive FileNode where
  | folder (folder : Folder)
  | file (file : File)
  | link (target : String)
  deriving DecidableEq, Repr

/-- The nodes by their numbers. Writing breaks off, if so, behind some number of bytes. -/
structure Files where
  nodes : List FileNode := [.folder { above := 0 }, .folder { above := 0 }]
  breaksOff : Option (Nat × SystemError) := none
  deriving DecidableEq, Repr, Inhabited

namespace Files

/-- The folder with a number. -/
def folder? (files : Files) (number : Nat) : Option Folder :=
  match files.nodes[number]? with
  | some (.folder folder) => some folder
  | _ => none

/-- The file with a number. -/
def file? (files : Files) (number : Nat) : Option File :=
  match files.nodes[number]? with
  | some (.file file) => some file
  | _ => none

/-- The path that the link with a number holds. -/
def link? (files : Files) (number : Nat) : Option String :=
  match files.nodes[number]? with
  | some (.link target) => some target
  | _ => none

/-- The number of the root. -/
def root : Nat := 0

/-- The number of the working directory. -/
def here : Nat := 1

/-! ## Paths -/

/-- What stands between the slashes of a path. -/
def pieces (path : String) : List String := (path.toList.splitOn '/').map String.ofList

/-- Where a path starts that is met in a folder. -/
def start (path : String) (place : Nat) : Nat :=
  if path.toList.head? = some '/' then root else place

/-- How many bytes a name may have. -/
def nameLimit : Nat := 255

/-- How many bytes a path may have. -/
def pathLimit : Nat := 4095

/-- How many links a path may lead through. -/
def linkLimit : Nat := 40

end Files

/-- The node that a name leads to from the folder at a place. Nothing and a dot are the folder
itself, two dots the one above. -/
def Folder.child? (folder : Folder) (place : Nat) (name : String) : Option Nat :=
  if name = "" || name = "." then some place
  else if name = ".." then some folder.above
  else folder.entries.lookup name

namespace Files

/-- Where a name leads to in a folder. -/
inductive Turn where
  /-- To a node with a number. -/
  | on (number : Nat)
  /-- To a link with its path. -/
  | through (target : String)
  /-- To a file that can be made. -/
  | vacant
  deriving DecidableEq, Repr

/-- Whether only slashes are left of a path. -/
def namesFolder (rest : List String) : Bool := !rest.isEmpty && rest.all (· == "")

/-- The turn that a walk takes at a name in front of others. Where a file may be made, the last name
need not stand for anything, but nothing is made whose path ends in a slash. -/
def turn (files : Files) (making : Bool) (place : Nat) (name : String) (rest : List String) :
    Except SystemError Turn :=
  match files.folder? place with
  | none => .error .notFolder
  | some folder =>
    match folder.unsearchable.filter fun _ => name != "" with
    | some e => .error e
    | none =>
      if making && namesFolder rest then .error .isFolder
      else match folder.child? place name with
        | none =>
          if nameLimit < name.utf8ByteSize then .error .nameTooLong
          else if making && rest.isEmpty then .ok .vacant
          else .error .notFound
        | some number =>
          match files.link? number with
          | some target => .ok (.through target)
          | none => .ok (.on number)

/-- Where a walk ends: at a node, or at a name in a folder that stands for nothing yet. -/
inductive Spot where
  | node (number : Nat)
  | vacant (folder : Nat) (name : String)
  deriving DecidableEq, Repr

/-- Follows names from a node on, up to the first link. -/
def follow (files : Files) (making : Bool) (onLink : Nat → List String → Except SystemError Spot)
    (place : Nat) : List String → Except SystemError Spot
  | [] => .ok (.node place)
  | name :: rest =>
    match files.turn making place name rest with
    | .error e => .error e
    | .ok (.on number) => files.follow making onLink number rest
    | .ok (.through target) => onLink (start target place) (pieces target ++ rest)
    | .ok .vacant => .ok (.vacant place name)

/-- Follows names from a node on, through as many links as are left. -/
def walk (files : Files) (making : Bool) : Nat → Nat → List String → Except SystemError Spot
  | 0 => files.follow making fun _ _ => .error .tooManyLinks
  | links + 1 => files.follow making (files.walk making links)

/-- The spot that a path leads to, where a file may be made or not. -/
def locate (files : Files) (making : Bool) (path : String) : Except FileError Spot :=
  if path.toList.contains '\x00' then .error .holdsNull
  else if path.isEmpty then .error (.refused .notFound path)
  else if pathLimit < path.utf8ByteSize then .error (.refused .nameTooLong path)
  else (files.walk making linkLimit (start path here) (pieces path)).mapError (.refused · path)

/-! ## Reading and writing -/

/-- Why a node that is no file cannot be opened. -/
def noFile (files : Files) (number : Nat) : SystemError :=
  if (files.folder? number).isSome then .isFolder else .notFound

/-- The bytes of the file at a path. -/
def read (files : Files) (path : String) : Except FileError Bytes :=
  match files.locate false path with
  | .error e => .error e
  | .ok (.vacant ..) => .error (.refused .notFound path)
  | .ok (.node number) =>
    match files.file? number with
    | none => .error (.refused (files.noFile number) path)
    | some file =>
      match file.unreadable with
      | none => .ok file.data
      | some e => .error (.refused e path)

end Files

/-- A node with other bytes, if it is a file. -/
def FileNode.holding (node : FileNode) (data : Bytes) : FileNode :=
  match node with
  | .file f => .file { f with data }
  | other => other

/-- A node with one name more, if it is a folder. -/
def FileNode.naming (node : FileNode) (name : String) (number : Nat) : FileNode :=
  match node with
  | .folder f => .folder { f with entries := (name, number) :: f.entries }
  | other => other

namespace Files

/-- The files with other bytes in one of them. -/
def hold (files : Files) (number : Nat) (data : Bytes) : Files :=
  { files with nodes := files.nodes.modify number (·.holding data) }

/-- The files with one node more, under a name in a folder. -/
def add (files : Files) (folder : Nat) (name : String) (node : FileNode) : Files :=
  { files with
    nodes := files.nodes.modify folder (·.naming name files.nodes.length) ++ [node] }

/-- A change of the files that may fail. What is changed by then stays. -/
abbrev Change (α : Type) := EStateM FileError Files α

/-- Breaks off if there is a reason to refuse a path. -/
def refuse (path : String) : Option SystemError → Change Unit
  | none => pure ()
  | some e => throw (.refused e path)

/-- Opens the file at a path for writing: it is emptied if there is one, or else made. Gives the
number of the file. -/
def openEmpty (path : String) : Change Nat := do
  let files ← get
  match files.locate true path with
  | .error e => throw e
  | .ok (.node number) =>
    match files.file? number with
    | none => throw (.refused (files.noFile number) path)
    | some file =>
      refuse path file.unwritable
      set (files.hold number #[])
      return number
  | .ok (.vacant place name) =>
    match files.folder? place with
    | none => throw (.refused .notFolder path)
    | some folder =>
      refuse path folder.unwritable
      set (files.add place name (.file {}))
      return files.nodes.length

/-- Writes bytes to an empty file, as far as that goes. -/
def fill (number : Nat) (data : Bytes) : Change Unit := do
  let files ← get
  match files.breaksOff with
  | none => set (files.hold number data)
  | some (count, e) =>
    if count ≤ data.size then
      set (files.hold number (data.take count))
      throw (.whileWriting e)
    else set (files.hold number data)

/-- Writes bytes to the file at a path. -/
def write (path : String) (data : Bytes) : Change Unit := do
  fill (← openEmpty path) data

/-! ## Building -/

/-- The files with the folders that names lead through, and the number of the last one. -/
def addFolders (files : Files) (place : Nat) : List String → Files × Nat
  | [] => (files, place)
  | name :: rest =>
    match files.folder? place with
    | none => (files, place)
    | some folder =>
      match folder.child? place name with
      | some number => files.addFolders number rest
      | none =>
        (files.add place name (.folder { above := place })).addFolders files.nodes.length rest

/-- The files with a folder at a path. -/
def addFolder (files : Files) (path : String) : Files :=
  (files.addFolders (start path here) (pieces path)).1

/-- The files with a file at a path, in folders made for it. -/
def addFile (files : Files) (path : String) (data : Bytes) : Files :=
  let (files, folder) := files.addFolders (start path here) (pieces path).dropLast
  match (pieces path).getLast? with
  | none => files
  | some name => files.add folder name (.file { data })

end Files

end SuperChip
