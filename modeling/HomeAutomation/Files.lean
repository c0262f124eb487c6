import HomeAutomation.Files.Path

/-! A tree of files, without links. -/

namespace HomeAutomation

inductive Entry where
  | directory
  /-- A file with its text, or with bytes that are no text. -/
  | file (text : Option String)
  deriving DecidableEq

/-- Where an entry is: the names from the root on. -/
abbrev Location := List String

/-- The entries of a tree and where relative paths begin. Whatever an entry or that place is in
is a directory. -/
structure Files where
  entries : List (Location × Entry)
  working : Location := []
  /-- How many bytes the longest path has that can be followed, if there is a bound. -/
  longestPath : Option Nat := none

namespace Files

def entry? (fs : Files) (l : Location) : Option Entry :=
  match fs.entries.lookup l with
  | some e => some e
  | none =>
    if l.isPrefixOf fs.working || fs.entries.any fun (other, _) => l.isPrefixOf other then
      some .directory
    else none

def isDirectory (fs : Files) (l : Location) : Bool := fs.entry? l = some .directory

/-- Follows names from a directory. The root is its own parent, and an empty name or a dot stays
in place, but only in a directory. -/
def walk? (fs : Files) : Location → List String → Option Location
  | l, [] => some l
  | l, name :: names =>
    if !fs.isDirectory l then none
    else if name = "" || name = "." then walk? fs l names
    else if name = ".." then walk? fs l.dropLast names
    else if (fs.entry? (l ++ [name])).isSome then walk? fs (l ++ [name]) names
    else none

/-- Where a path leads. An empty one leads nowhere, and neither does one that is too long. -/
def locate? (fs : Files) (p : Path) : Option Location :=
  if p.text = "" || fs.longestPath.any fun n => n < p.text.utf8ByteSize then none
  else fs.walk? (if p.isAbsolute then [] else fs.working) p.names

def contains (fs : Files) (p : Path) : Bool := (fs.locate? p).isSome

def read? (fs : Files) (p : Path) : Option String :=
  match (fs.locate? p).bind fs.entry? with
  | some (.file text) => text
  | _ => none

end Files

end HomeAutomation
