import Scriptlet.Text.Cut

/-!
# Files

A file system is a tree of folders with files at its leaves (`FileTree`). A path leads
through it from a folder, name by name; `.` stays, `..` goes back to the folder around,
and a slash in front starts at the outermost folder. A path can only go on at a folder,
so behind the name of a file not even a slash may follow (`WorkingFolder.find`).
-/

namespace Scriptlet

namespace CommandLine

open Text

/-- Why a file cannot be read. -/
inductive FileFault
  | missing
  | denied
  | notFolder
  | isFolder
  | nameTooLong
  | notText
  deriving DecidableEq, Repr

namespace FileFault

/-- What is reported. -/
def message : FileFault → String
  | missing => "No such file or directory (os error 2)"
  | denied => "Permission denied (os error 13)"
  | notFolder => "Not a directory (os error 20)"
  | isFolder => "Is a directory (os error 21)"
  | nameTooLong => "File name too long (os error 36)"
  | notText => "stream did not contain valid UTF-8"

/-- Whether the file is there and can be opened, and only its text cannot be had. -/
def isAfterOpening : FileFault → Bool
  | isFolder | notText => true
  | _ => false

end FileFault

/-- A file with its text, or a folder with what it holds. -/
inductive FileTree
  | file (text : String)
  | folder (entries : List (List Char × FileTree))

namespace FileTree

/-- What a folder holds. -/
def entries : FileTree → List (List Char × FileTree)
  | folder es => es
  | file _ => []

/-- A folder with an entry of a name, in place of the one it has. -/
def put (t : FileTree) (name : List Char) (entry : FileTree) : FileTree :=
  folder ((name, entry) :: t.entries.filter fun e => e.1 != name)

/-- A folder with a file at a path of names, and the folders that lead to it. -/
def insert (text : String) : List (List Char) → FileTree → FileTree
  | [], _ => file text
  | name :: names, t =>
    t.put name (insert text names ((t.entries.lookup name).getD (folder [])))

end FileTree

/-- The names in a path. -/
def pathNames (path : String) : List (List Char) := splitAll (· == '/') path.toList

/-- A place in a file system: what is there, and the folders around it from the innermost
    one on. -/
structure WorkingFolder where
  here : FileTree
  around : List FileTree

namespace WorkingFolder

/-- A folder with files, given by their names and texts, in a file system where else only
    the empty files `/dev/null` and `/dev/stdin` are. -/
def ofFiles (files : List (String × String)) : WorkingFolder where
  here := files.foldl (fun t f => t.insert f.2 (pathNames f.1)) (.folder [])
  around := [["/dev/null", "/dev/stdin"].foldl
    (fun t name => t.insert "" (pathNames name).tail) (.folder [])]

/-- The outermost folder. -/
def outermost (w : WorkingFolder) : WorkingFolder := ⟨w.around.getLastD w.here, []⟩

/-- Follows one name of a path. -/
def follow (w : WorkingFolder) (name : List Char) : Except FileFault WorkingFolder :=
  match w.here with
  | .file _ => throw .notFolder
  | .folder entries =>
    if name = [] ∨ name = ['.'] then pure w
    else if name = ['.', '.'] then
      match w.around with
      | [] => pure w
      | t :: ts => pure ⟨t, ts⟩
    else if 255 < (String.ofList name).utf8ByteSize then throw .nameTooLong
    else
      match entries.lookup name with
      | some entry => pure ⟨entry, w.here :: w.around⟩
      | none => throw .missing

/-- Follows a path. -/
def find (w : WorkingFolder) (path : String) : Except FileFault WorkingFolder :=
  if path.isEmpty then throw .missing
  else if 4095 < path.utf8ByteSize then throw .nameTooLong
  else
    let start := if startsWith ['/'] path.toList then w.outermost else w
    (pathNames path).foldlM follow start

/-- The text of the file at a path. -/
def read (w : WorkingFolder) (path : String) : Except FileFault String := do
  match (← w.find path).here with
  | .file text => pure text
  | .folder _ => throw .isFolder

end WorkingFolder

end CommandLine

end Scriptlet
