/-!
# Files below a directory

A `FileTree` lists the files and directories below the current one.  `FileTree.read` follows a path
and answers the bytes of the file at its end, or why there are none.
-/

namespace Interning

inductive FileEntry
  | file (content : ByteArray)
  | directory

inductive FileError
  | notFound
  | isADirectory
  | notADirectory
  | invalidData
  | invalidFilename
  | invalidInput
  deriving DecidableEq, Repr

def FileError.name : FileError → String
  | notFound => "NotFound"
  | isADirectory => "IsADirectory"
  | notADirectory => "NotADirectory"
  | invalidData => "InvalidData"
  | invalidFilename => "InvalidFilename"
  | invalidInput => "InvalidInput"

/-- The files and directories below the current directory, each under the names that lead to it; the
directories on the way need not be listed.  Of two entries of the same names the first one counts. -/
structure FileTree where
  entries : List (List String × FileEntry)

namespace FileTree

def components (path : String) : List String :=
  (path.toList.splitOn '/').map String.ofList

/-- The places that a path passes, from a directory on, the last one first; names of directories
above lead back. -/
def places (dir : List String) : List String → List (List String)
  | [] => [dir]
  | name :: rest =>
    if name = "" ∨ name = "." then places dir rest
    else
      let next := if name = ".." then dir.dropLast else dir ++ [name]
      places next rest ++ [dir]

/-- The entries that come with something at the end of a path: itself, and the directories that are
made on the way to it. -/
def entriesOf (path : String) (e : FileEntry) : List (List String × FileEntry) :=
  match places [] (components path) with
  | [] => []
  | last :: passed => (last, e) :: passed.map fun dir => (dir, .directory)

/-- The tree of some paths, made in order: what a later one puts in a place counts. -/
def ofPaths (files : List (String × FileEntry)) : FileTree :=
  ⟨files.reverse.flatMap fun (path, e) => entriesOf path e⟩

def find? (tree : FileTree) (names : List String) : Option FileEntry :=
  match tree.entries.lookup names with
  | some e => some e
  | none => if tree.entries.any fun e => names.isPrefixOf e.1 then some .directory else none

def maxNameBytes : Nat := 255

def maxPathBytes : Nat := 4095

/-- Follows the names from a directory on; `none` stands for a directory above the tree, where
nothing is found. -/
def follow (tree : FileTree) : List String → Option (List String) → Except FileError FileEntry
  | [], _ => .ok .directory
  | name :: rest, place =>
    if name = "" ∨ name = "." then follow tree rest place
    else if name = ".." then
      match place with
      | some (inner :: outer) => follow tree rest (some (inner :: outer).dropLast)
      | _ => follow tree rest none
    else if maxNameBytes < name.utf8ByteSize then .error .invalidFilename
    else
      match place with
      | none => .error .notFound
      | some dir =>
        match tree.find? (dir ++ [name]) with
        | none => .error .notFound
        | some .directory => follow tree rest (some (dir ++ [name]))
        | some (.file content) =>
          if rest.isEmpty then .ok (.file content) else .error .notADirectory

/-- The bytes of the file at the end of a path. -/
def read (tree : FileTree) (path : String) : Except FileError ByteArray :=
  if path = "" then .error .notFound
  else if path.toList.contains '\x00' then .error .invalidInput
  else if maxPathBytes < path.utf8ByteSize then .error .invalidFilename
  else
    match tree.follow (components path) (if path.toList.head? = some '/' then none else some []) with
    | .ok (.file content) => .ok content
    | .ok .directory => .error .isADirectory
    | .error e => .error e

def readText (tree : FileTree) (path : String) : Except FileError String :=
  match tree.read path with
  | .ok content =>
    match String.fromUTF8? content with
    | some s => .ok s
    | none => .error .invalidData
  | .error e => .error e

end FileTree

end Interning
