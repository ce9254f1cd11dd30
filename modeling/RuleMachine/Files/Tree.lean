import RuleMachine.Code.Operand
import RuleMachine.Files.Path
/-!
Files as a value: a tree of directories with files at its leaves and a directory in it where
relative paths start, with the ways in which a path can fail to lead to a file.
-/

set_option autoImplicit false

namespace RuleMachine

inductive FileNode where
  | file (content : Bytes)
  | directory (entries : List (String × FileNode))
  deriving Repr, Inhabited

inductive FileError where
  | notFound
  | notDirectory
  | isDirectory
  | busy
  | nameTooLong
  | invalidName
  | invalidText
  | other (message : String)
  deriving DecidableEq, Repr

def FileError.message : FileError → String
  | .notFound => "No such file or directory (os error 2)"
  | .notDirectory => "Not a directory (os error 20)"
  | .isDirectory => "Is a directory (os error 21)"
  | .busy => "Device or resource busy (os error 16)"
  | .nameTooLong => "File name too long (os error 36)"
  | .invalidName => "file name contained an unexpected NUL byte"
  | .invalidText => "stream did not contain valid UTF-8"
  | .other message => message

abbrev Location := List String

namespace FileNode

def isDirectory : FileNode → Bool
  | .file _ => false
  | .directory _ => true

def child? (name : String) : FileNode → Option FileNode
  | .file _ => none
  | .directory entries => entries.lookup name

def find? : Location → FileNode → Option FileNode
  | [], node => some node
  | name :: rest, node => (node.child? name).bind (find? rest)

def setEntry (name : String) (node : FileNode) :
    List (String × FileNode) → List (String × FileNode)
  | [] => [(name, node)]
  | (key, old) :: rest =>
    if key = name then (key, node) :: rest else (key, old) :: setEntry name node rest

/-- The tree with a node at a location. Directories on the way that are not there are made. -/
def put (leaf : FileNode) : Location → FileNode → FileNode
  | [], _ => leaf
  | name :: rest, node =>
    let entries := match node with
      | .file _ => []
      | .directory entries => entries
    let inner := (entries.lookup name).getD (.directory [])
    .directory (setEntry name (put leaf rest inner) entries)

def erase : Location → FileNode → FileNode
  | [], node => node
  | _ :: _, .file content => .file content
  | name :: rest, .directory entries =>
    match rest with
    | [] => .directory (entries.filter (·.1 != name))
    | _ :: _ =>
      match entries.lookup name with
      | none => .directory entries
      | some inner => .directory (setEntry name (erase rest inner) entries)

end FileNode

structure FileSystem where
  root : FileNode
  current : Location
  deriving Repr, Inhabited

namespace FileSystem

def maxName : Nat := 255

def maxPath : Nat := 4095

/-- Where one part of a path leads from a location. Only a directory can be left or entered, and
two dots lead to the directory around it. -/
def follow (fs : FileSystem) (here : Location) (part : String) : Except FileError Location :=
  match fs.root.find? here with
  | none => .error .notFound
  | some (.file _) => .error .notDirectory
  | some (.directory entries) =>
    if part = "" || part = "." then .ok here
    else if part = ".." then .ok here.dropLast
    else if maxName < part.utf8ByteSize then .error .nameTooLong
    else if (entries.lookup part).isSome then .ok (here ++ [part])
    else .error .notFound

def followAll (fs : FileSystem) : Location → List String → Except FileError Location
  | here, [] => .ok here
  | here, part :: rest => do fs.followAll (← fs.follow here part) rest

def start (fs : FileSystem) (path : String) : Except FileError (Location × List String) :=
  if path.toList.contains '\x00' then .error .invalidName
  else if path = "" then .error .notFound
  else if maxPath < path.utf8ByteSize then .error .nameTooLong
  else .ok (if path.startsWith "/" then [] else fs.current,
    (FilePath.parts path.toList).map String.ofList)

def locate (fs : FileSystem) (path : String) : Except FileError Location := do
  let (here, parts) ← fs.start path
  fs.followAll here parts

def read (fs : FileSystem) (path : String) : Except FileError Bytes := do
  let location ← fs.locate path
  match fs.root.find? location with
  | some (.file content) => return content
  | some (.directory _) => .error .isDirectory
  | none => .error .notFound

def isFile (fs : FileSystem) (path : String) : Bool :=
  match fs.locate path with
  | .ok location => (fs.root.find? location).any (!·.isDirectory)
  | .error _ => false

def currentDirectory (fs : FileSystem) : Except FileError String :=
  if (fs.root.find? fs.current).any FileNode.isDirectory then
    .ok ("/" ++ "/".intercalate fs.current)
  else .error .notFound

inductive LastName where
  | name (name : String) (slashed : Bool)
  | dots
  deriving DecidableEq, Repr

/-- The location of the directory that a path's last name is in, and that name. -/
def place (fs : FileSystem) (path : String) : Except FileError (Location × LastName) := do
  let (here, parts) ← fs.start path
  let back := parts.reverse.dropWhile (· = "")
  match back with
  | [] => return (here, .dots)
  | last :: front =>
    let directory ← fs.followAll here front.reverse
    -- the last name is looked for in a directory
    let directory ← fs.follow directory "."
    if last = "." || last = ".." then return (directory, .dots)
    if maxName < last.utf8ByteSize then .error .nameTooLong
    return (directory, .name last (back.length < parts.length))

def put (fs : FileSystem) (content : Bytes) (location : Location) : FileSystem :=
  { fs with root := FileNode.put (.file content) location fs.root }

def write (fs : FileSystem) (path : String) (content : Bytes) : Except FileError FileSystem := do
  match ← fs.place path with
  | (_, .dots) => .error .isDirectory
  | (_, .name _ true) => .error .isDirectory
  | (directory, .name name false) =>
    let location := directory ++ [name]
    if (fs.root.find? location).any FileNode.isDirectory then .error .isDirectory
    return fs.put content location

/-- Moves a file to where a path leads, in the place of a file that is there. -/
def move (fs : FileSystem) (origin : Location) (path : String) :
    Except FileError (Location × FileSystem) := do
  match ← fs.place path with
  | (_, .dots) => .error .busy
  | (_, .name _ true) => .error .notDirectory
  | (directory, .name name false) =>
    let target := directory ++ [name]
    if (fs.root.find? target).any FileNode.isDirectory then .error .isDirectory
    match fs.root.find? origin with
    | some (.file content) =>
      let left := FileNode.erase origin fs.root
      return (target, { fs with root := FileNode.put (.file content) target left })
    | _ => .error .notFound

end FileSystem

end RuleMachine
