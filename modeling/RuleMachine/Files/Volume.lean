import RuleMachine.Files.Tree

set_option autoImplicit false

namespace RuleMachine

/-- Files of which some cannot be read although they are there. -/
structure Volume extends FileSystem where
  fault : Location → Option FileError

def decodeText (bytes : Bytes) : Except FileError String :=
  match String.fromUTF8? ⟨bytes.toArray⟩ with
  | some text => .ok text
  | none => .error .invalidText

namespace Volume

def sound (fs : FileSystem) : Volume := ⟨fs, fun _ => none⟩

def read (v : Volume) (path : String) : Except FileError Bytes := do
  match v.fault (← v.locate path) with
  | some e => .error e
  | none => v.toFileSystem.read path

def readText (v : Volume) (path : String) : Except FileError String := do
  decodeText (← v.read path)

end Volume

/-- A library for temporary files: a new file in a directory is written, and then moved to a path
or thrown away. -/
class TempFiles where
  File : Type
  create (directory : String) : StateM Volume (Except FileError File)
  write (file : File) (content : Bytes) : StateM Volume (Except FileError Unit)
  persist (file : File) (path : String) : StateM Volume (Except FileError Unit)
  discard (file : File) : StateM Volume Unit

namespace TempFiles

def freshName? (entries : List (String × FileNode)) : Option String :=
  ((List.range (entries.length + 1)).map fun n => s!".tmp{n}").find? fun name =>
    (entries.lookup name).isNone

def createIn (v : Volume) (directory : String) : Except FileError Location := do
  let location ← v.follow (← v.locate directory) "."
  match v.root.find? location with
  | some (.directory entries) =>
    match freshName? entries with
    | some name => .ok (location ++ [name])
    | none => .error (.other "too many temporary files exist")
  | _ => .error .notDirectory

/-- Temporary files have names of their own until they are moved. What is moved can be read. -/
@[reducible] def named : TempFiles where
  File := Location
  create directory := fun v =>
    match createIn v directory with
    | .ok file => (.ok file, { v with toFileSystem := v.put [] file })
    | .error e => (.error e, v)
  write file content := fun v => (.ok (), { v with toFileSystem := v.put content file })
  persist file path := fun v =>
    match v.move file path with
    | .ok (target, fs) => (.ok (), ⟨fs, fun l => if l = target then none else v.fault l⟩)
    | .error e => (.error e, v)
  discard file := fun v => ((), { v with root := FileNode.erase file v.root })

end TempFiles

end RuleMachine
