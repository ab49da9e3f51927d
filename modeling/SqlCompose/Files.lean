/-!
Access to files. What settings and documents need of a file system is whether something exists at a
path and what text a file holds; the operations run in whatever monad provides them. A tree of files
in memory provides them without any effect: it consists of a working directory with files and
directories in it, and paths are resolved in it component by component, as systems do.
-/

set_option autoImplicit false
set_option relaxedAutoImplicit false

namespace SqlCompose

/-- The two operations on files. -/
structure FileAccess (m : Type → Type) where
  /-- Whether there is a file or directory at a path. -/
  isPresent : String → m Bool
  /-- The text of a file, or the system's reason why there is none. -/
  readText : String → m (Except String String)

/-- Why a path does not lead to a text. -/
inductive FileFailure
  | notFound
  | notADirectory
  | isADirectory
  | notText
deriving DecidableEq, Repr

/-- The system's wording of a failure. -/
def FileFailure.message : FileFailure → String
  | notFound => "No such file or directory (os error 2)"
  | notADirectory => "Not a directory (os error 20)"
  | isADirectory => "Is a directory (os error 21)"
  | notText => "stream did not contain valid UTF-8"

/-- What a path leads to. -/
inductive FileNode
  | file (bytes : ByteArray)
  | directory

/-- A directory tree. Each entry is the path of a file or directory, as a list of names from the
root on; the directories on the way exist too. -/
structure FileTree where
  workingDirectory : List String
  entries : List (List String × FileNode)

namespace FileTree

/-- What there is at a path of names. -/
def node? (tree : FileTree) (path : List String) : Option FileNode :=
  match tree.entries.find? fun entry ↦ entry.1 == path with
  | some entry => some entry.2
  | none =>
    if path.isPrefixOf tree.workingDirectory ||
        tree.entries.any fun entry ↦ path.isPrefixOf entry.1
    then some .directory
    else none

/-- What the components of a path lead to, from a given place on. A component can only be followed
from a directory; an empty one or a single dot stays there, and two dots lead back. -/
def follow (tree : FileTree) (place : List String) : List String → Except FileFailure FileNode
  | [] =>
    match tree.node? place with
    | some node => .ok node
    | none => .error .notFound
  | component :: rest =>
    match tree.node? place with
    | none => .error .notFound
    | some (.file _) => .error .notADirectory
    | some .directory =>
      if component = "" ∨ component = "." then tree.follow place rest
      else if component = ".." then tree.follow place.dropLast rest
      else tree.follow (place ++ [component]) rest

/-- What a path leads to; the empty path leads nowhere. -/
def resolve (tree : FileTree) (path : String) : Except FileFailure FileNode :=
  if path = "" then .error .notFound
  else tree.follow (if path.startsWith "/" then [] else tree.workingDirectory) (path.splitOn "/")

/-- The text of the file at a path. -/
def text (tree : FileTree) (path : String) : Except FileFailure String :=
  match tree.resolve path with
  | .error failure => .error failure
  | .ok .directory => .error .isADirectory
  | .ok (.file bytes) =>
    match String.fromUTF8? bytes with
    | some text => .ok text
    | none => .error .notText

/-- File access in the tree. -/
def access (tree : FileTree) : FileAccess Id where
  isPresent path := (tree.resolve path).isOk
  readText path := (tree.text path).mapError FileFailure.message

end FileTree

end SqlCompose
