import TolerantSyntax.Command.Files

/-!
# File trees

Files in memory, at paths relative to a root. Paths are followed name by name, and each
name must be looked up in a directory that is there.
-/

namespace TolerantSyntax

inductive FileTree where
  | file (bytes : ByteArray)
  | directory (entries : List (String × FileTree))

namespace FileTree

def empty : FileTree := .directory []

def entries : FileTree → List (String × FileTree)
  | file _ => []
  | directory entries => entries

def isDirectory : FileTree → Bool
  | file _ => false
  | directory _ => true

def entry? (tree : FileTree) (name : String) : Option FileTree :=
  (tree.entries.find? (·.1 == name)).map (·.2)

def setEntry (tree : FileTree) (name : String) (entry : FileTree) : FileTree :=
  .directory ((name, entry) :: tree.entries.filter (·.1 != name))

def segments (path : String) : List String := path.splitOn "/"

def namesOn (path : String) : List String :=
  (segments path).filter fun name => name != "" && name != "."

def changeAt (change : FileTree → FileTree) : List String → FileTree → FileTree
  | [], tree => change tree
  | name :: rest, tree =>
      tree.setEntry name (changeAt change rest ((tree.entry? name).getD empty))

def addFile (tree : FileTree) (path : String) (bytes : ByteArray) : FileTree :=
  tree.changeAt (fun _ => .file bytes) (namesOn path)

def addDirectory (tree : FileTree) (path : String) : FileTree :=
  tree.changeAt id (namesOn path)

def notDirectory : FileError := .other "Not a directory (os error 20)"
def isADirectory : FileError := .other "Is a directory (os error 21)"
def nameTooLong : FileError := .other "File name too long (os error 36)"
def nameWithNul : FileError := .other "file name contained an unexpected NUL byte"

/-- Follows names from a tree, with the directories above it from the inside out. Above
the root nothing is found. -/
def follow : List FileTree → FileTree → List String → Except FileError FileTree
  | _, tree, [] => .ok tree
  | above, tree, name :: rest =>
      if !tree.isDirectory then .error notDirectory
      else if name == "" || name == "." then follow above tree rest
      else if name == ".." then
        match above with
        | [] => .error .absent
        | parent :: above => follow above parent rest
      else if 255 < name.utf8ByteSize then .error nameTooLong
      else
        match tree.entry? name with
        | none => .error .absent
        | some entry => follow (tree :: above) entry rest

def lookup (tree : FileTree) (path : String) : Except FileError FileTree :=
  if path.any (· == '\x00') then .error nameWithNul
  else if 4096 ≤ path.utf8ByteSize then .error nameTooLong
  else if path == "" || path.startsWith "/" then .error .absent
  else follow [] tree (segments path)

def readFile (tree : FileTree) (path : String) : Except FileError ByteArray :=
  match tree.lookup path with
  | .error error => .error error
  | .ok (.directory _) => .error isADirectory
  | .ok (.file bytes) => .ok bytes

def access (tree : FileTree) : FileAccess Id where
  isDirectory path :=
    match tree.lookup path with
    | .ok entry => entry.isDirectory
    | .error _ => false
  names path :=
    match tree.lookup path with
    | .ok entry => entry.entries.map (·.1)
    | .error _ => []
  read path := tree.readFile path

end FileTree
end TolerantSyntax
