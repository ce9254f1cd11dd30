import RuleMachine.Files.Volume
/-!
What commands may do with files, for any monad that can do it. The files can be real ones or a tree
that is passed along.
-/

set_option autoImplicit false

namespace RuleMachine

class FileAccess (m : Type → Type) where
  currentDirectory : m (Except FileError String)
  read (path : String) : m (Except FileError Bytes)
  isFile (path : String) : m Bool
  write (path : String) (content : Bytes) : m (Except FileError Unit)
  TempFile : Type
  createTemp (directory : String) : m (Except FileError TempFile)
  writeTemp (file : TempFile) (content : Bytes) : m (Except FileError Unit)
  persistTemp (file : TempFile) (path : String) : m (Except FileError Unit)
  discardTemp (file : TempFile) : m Unit

instance Volume.fileAccess [T : TempFiles] : FileAccess (StateM Volume) where
  currentDirectory := fun v => (v.currentDirectory, v)
  read path := fun v => (v.read path, v)
  isFile path := fun v => (v.isFile path, v)
  write path content := fun v =>
    match v.toFileSystem.write path content with
    | .ok fs => (.ok (), { v with toFileSystem := fs })
    | .error e => (.error e, v)
  TempFile := T.File
  createTemp := T.create
  writeTemp := T.write
  persistTemp := T.persist
  discardTemp := T.discard

namespace FileSystem

def onVolume {α : Type} (work : StateM Volume α) : StateM FileSystem α := fun fs =>
  let (a, v) := work (.sound fs)
  (a, v.toFileSystem)

instance : FileAccess (StateM FileSystem) :=
  let volume := @Volume.fileAccess .named
  { currentDirectory := onVolume volume.currentDirectory
    read := fun path => onVolume (volume.read path)
    isFile := fun path => onVolume (volume.isFile path)
    write := fun path content => onVolume (volume.write path content)
    TempFile := volume.TempFile
    createTemp := fun directory => onVolume (volume.createTemp directory)
    writeTemp := fun file content => onVolume (volume.writeTemp file content)
    persistTemp := fun file path => onVolume (volume.persistTemp file path)
    discardTemp := fun file => onVolume (volume.discardTemp file) }

end FileSystem

variable {m : Type → Type} [Monad m] [FileAccess m]

def readBytes (path : String) : ExceptT FileError m Bytes := FileAccess.read path

def readText (path : String) : ExceptT FileError m String := do
  decodeText (← readBytes path)

end RuleMachine
