
set_option autoImplicit false

namespace RuleMachine

namespace FilePath

def parts (path : List Char) : List (List Char) := path.splitOn '/'

/-- The name of the file that a path ends in. Empty parts and single dots at the end do not count,
and two dots are no name. -/
def fileName? (path : String) : Option (List Char) :=
  let named := (parts path.toList).filter fun part => part != [] && part != ['.']
  match named.getLast? with
  | some ['.', '.'] => none
  | other => other

def extension? (path : String) : Option (List Char) := do
  let name ← fileName? path
  let back := name.reverse.takeWhile (· != '.')
  match name.reverse.dropWhile (· != '.') with
  | _ :: _ :: _ => some back.reverse
  | _ => none

/-- A path read from its end, without slashes there and without single dots behind them. The slash
of the root stays. -/
def trimmed : List Char → List Char
  | ['/'] => ['/']
  | '/' :: rest => trimmed rest
  | '.' :: '/' :: rest => trimmed ('/' :: rest)
  | path => path
termination_by path => path.length

def directory (path : String) : String :=
  let front := (trimmed path.toList.reverse).dropWhile (· != '/')
  if front = [] then "." else String.ofList (trimmed front).reverse

def join (directory name : String) : String :=
  if directory = "" || directory.endsWith "/" then directory ++ name else directory ++ "/" ++ name

end FilePath

end RuleMachine
