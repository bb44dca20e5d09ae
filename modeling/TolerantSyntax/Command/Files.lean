import TolerantSyntax.Command.Options

/-!
# Source files

Commands see files through three questions, so that they run on real files as well as on
a file tree in memory.
-/

namespace TolerantSyntax

inductive FileError where
  | absent
  | other (reason : String)
deriving DecidableEq, Repr

/-- How to get at files in a monad. -/
structure FileAccess (m : Type → Type) where
  isDirectory (path : String) : m Bool
  names (path : String) : m (List String)
  read (path : String) : m (Except FileError ByteArray)

namespace Path

def join (directory name : String) : String :=
  if directory.endsWith "/" then directory ++ name else directory ++ "/" ++ name

/-- What follows the last dot of a name; none when only the first character is one. -/
def extension? (name : String) : Option String :=
  let reversed := name.toList.reverse
  match reversed.dropWhile (· ≠ '.') with
  | [] | [_] => none
  | _ => some (String.ofList (reversed.takeWhile (· ≠ '.')).reverse)

def isSource (name : String) : Bool := (extension? name).any fun ext => ext.toLower == "cs"

/-- Directories nest less deep than a path has bytes, of which there are at most 4096. -/
def maxDepth : Nat := 4096

end Path

namespace FileAccess

variable {m : Type → Type} [Monad m]

def readSource (files : FileAccess m) (path : String) : m (Except CommandError String) := do
  match ← files.read path with
  | .error .absent => return .error (.notFound path)
  | .error (.other reason) => return .error (.unreadable path reason)
  | .ok bytes =>
      match String.fromUTF8? bytes with
      | none => return .error (.invalidUtf8 path)
      | some text => return .ok text

def searchWithin (files : FileAccess m) : Nat → String → m (List String)
  | 0, _ => return []
  | n + 1, directory => do
      let names := (← files.names directory).mergeSort
      let found ← names.mapM fun name => do
        let path := Path.join directory name
        if ← files.isDirectory path then files.searchWithin n path
        else return if Path.isSource name then [path] else []
      return found.flatten

/-- The files that paths stand for: a directory for the source files below it, any other
path for itself. -/
def sources (files : FileAccess m) (paths : List String) : m (List String) := do
  let found ← paths.mapM fun path => do
    if ← files.isDirectory path then files.searchWithin Path.maxDepth path else return [path]
  return found.flatten

end FileAccess
end TolerantSyntax
