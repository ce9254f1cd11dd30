import RuleMachine.Command.Perform

set_option autoImplicit false

namespace RuleMachine

def fileError (e : IO.Error) : FileError :=
  match e with
  | .noFileOrDirectory .. => .notFound
  | .inappropriateType _ code _ => if code = 21 then .isDirectory else .notDirectory
  | .invalidArgument _ code _ => if code = 36 then .nameTooLong else .other (toString e)
  | .resourceBusy .. => .busy
  | e => .other (toString e)

def attempt {α : Type} (work : IO α) : IO (Except FileError α) := do
  try return .ok (← work)
  catch e => return .error (fileError e)

def createFresh (directory : String) : Nat → Nat → IO (Except FileError (String × IO.FS.Handle))
  | 0, _ => return .error (.other "too many temporary files exist")
  | tries + 1, n => do
    let path := FilePath.join directory s!".tmp{n}"
    try return .ok (path, ← IO.FS.Handle.mk path .writeNew)
    catch
      | .alreadyExists .. => createFresh directory tries (n + 1)
      | e => return .error (fileError e)

instance : FileAccess IO where
  currentDirectory := attempt do return (← IO.currentDir).toString
  read path := attempt do return (← IO.FS.readBinFile path).toList
  isFile path := do
    match ← attempt do (← IO.FS.realPath path).metadata with
    | .ok data => return data.type == .file
    | .error _ => return false
  write path content := attempt (IO.FS.writeBinFile path ⟨content.toArray⟩)
  TempFile := String × IO.FS.Handle
  createTemp directory := createFresh directory 65536 0
  writeTemp file content := attempt do
    file.2.write ⟨content.toArray⟩
    file.2.flush
  persistTemp file path := attempt (IO.FS.rename file.1 path)
  discardTemp file := do
    let _ ← attempt (IO.FS.removeFile file.1)

end RuleMachine

open RuleMachine

def main (args : List String) : IO UInt32 := do
  let outcome ← performArguments (m := IO) args
  (← IO.getStdout).putStr outcome.output
  match outcome.ending with
  | .done => pure ()
  | .failed f => (← IO.getStderr).putStr f.message
  | .misused => (← IO.getStderr).putStr usage
  return outcome.exitCode
