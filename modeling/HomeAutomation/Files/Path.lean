/-! Paths as they are written, and their components. Two paths with the same components are the
same path; nothing is looked up for that, so going down and up again counts. -/

namespace HomeAutomation

/-- A path by the names between its slashes. Names may be empty: the first one of an absolute
path is, and so is the last one behind a closing slash. -/
structure Path where
  names : List String
  deriving DecidableEq

namespace Path

instance : Inhabited Path := ⟨⟨[""]⟩⟩

def split : List Char → List (List Char)
  | [] => [[]]
  | c :: cs =>
    if c = '/' then [] :: split cs
    else
      match split cs with
      | [] => [[c]]
      | p :: ps => (c :: p) :: ps

def ofText (text : String) : Path := ⟨(split text.toList).map String.ofList⟩

def text (p : Path) : String := "/".intercalate p.names

def isAbsolute (p : Path) : Bool :=
  match p.names with
  | "" :: _ :: _ => true
  | _ => false

inductive Component where
  | root
  | here
  | up
  | name (s : String)
  deriving DecidableEq

def component? (name : String) : Option Component :=
  if name = "" || name = "." then none
  else if name = ".." then some .up
  else some (.name name)

/-- A single dot counts only at the beginning of a relative path. -/
def components (p : Path) : List Component :=
  match p.names with
  | [] => []
  | first :: rest =>
    let head := if p.isAbsolute then some .root
      else if first = "." then some .here
      else component? first
    head.toList ++ rest.filterMap component?

def same (p q : Path) : Bool := p.components = q.components

def join (base p : Path) : Path :=
  if p.isAbsolute then p
  else if base.names.getLast? = some "" then ⟨base.names.dropLast ++ p.names⟩
  else ⟨base.names ++ p.names⟩

def trimEnd (names : List String) : List String :=
  (names.reverse.dropWhile fun n => (component? n).isNone).reverse

/-- A path without its last component. The root has no parent, and neither has an empty path. -/
def parent? (p : Path) : Option Path :=
  match p.names with
  | [] => none
  | first :: rest =>
    let inner := trimEnd rest
    if inner.isEmpty then if first = "" then none else some ⟨[""]⟩
    else
      let inner := trimEnd inner.dropLast
      some (if inner.isEmpty && first = "" then ⟨["", ""]⟩ else ⟨first :: inner⟩)

end Path

end HomeAutomation
