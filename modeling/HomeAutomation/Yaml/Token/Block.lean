import HomeAutomation.Yaml.Cursor

/-! Scalars in a block of their own, literal or folded: a header line, and then every line that is
indented far enough. -/

namespace HomeAutomation.Yaml

inductive Chomping where
  | strip
  | clip
  | keep
  deriving DecidableEq

/-- The header of a block: how it ends, and by how much it is indented if that is said. -/
structure Header where
  chomping : Chomping := .clip
  increment : Option Nat := none

namespace Header

def sign? (c : Cursor) : Option Chomping :=
  if c.sees '+' then some .keep else if c.sees '-' then some .strip else none

/-- A digit in a header; a zero is refused. -/
def increment? (c : Cursor) : Option (Option Nat × Cursor) :=
  match (c.peek.filter Char.isDigit).bind digit? with
  | none => some (none, c)
  | some 0 => none
  | some n => some (some n, c.skip)

def read? (c : Cursor) : Option (Header × Cursor) :=
  match sign? c with
  | some chomping => (increment? c.skip).map fun (increment, c) => (⟨chomping, increment⟩, c)
  | none => (increment? c).map fun (increment, c) =>
    match increment, sign? c with
    | some _, some chomping => (⟨chomping, increment⟩, c.skip)
    | _, _ => (⟨.clip, increment⟩, c)

end Header

structure Margin where
  breaks : List Char := []
  /-- The furthest column where a line so far began. -/
  widest : Nat := 0

/-- Goes over empty lines and the indentation of the first other one. A tab may not stand where
the indentation is expected; without an indentation that is known, every blank belongs to it. -/
def Margin.scan (indent : Option Nat) : Nat → Margin → Cursor → Option (Margin × Cursor)
  | 0, m, c => some (m, c)
  | n + 1, m, c =>
    let isIndented (c : Cursor) : Bool := indent.all fun i => c.column < i
    if c.sees ' ' && isIndented c then scan indent n m c.skip
    else
      let m := { m with widest := max m.widest c.column }
      if c.sees '\t' && isIndented c then none
      else if c.at? isBreak then scan indent n { m with breaks := m.breaks ++ c.breakText } c.nextLine
      else some (m, c)

def Margin.read? (indent : Option Nat) (c : Cursor) : Option (Margin × Cursor) :=
  scan indent (c.rest.length + 1) {} c

structure Block where
  text : List Char := []
  /-- The break behind the last line. -/
  lastBreak : List Char := []
  /-- The breaks of the empty lines after it. -/
  emptyLines : List Char := []
  /-- Whether the last line began with a blank. -/
  blankStart : Bool := false

namespace Block

/-- What stands between the last line and the next. In a folded block the break between two lines
that begin with no blank becomes a space, or goes away where empty lines follow it. -/
def between (folded : Bool) (b : Block) (blankStart : Bool) : List Char :=
  if folded && b.lastBreak.head? = some '\n' && !b.blankStart && !blankStart then
    if b.emptyLines.isEmpty then [' '] else b.emptyLines
  else b.lastBreak ++ b.emptyLines

def lines (folded : Bool) (indent : Nat) : Nat → Block → Cursor → Option (Block × Cursor)
  | 0, _, _ => none
  | n + 1, b, c =>
    if c.column = indent && c.peek.isSome then
      let blankStart := c.at? isBlank
      let line := c.run fun ch => !isBreak ch
      let next := c.skip line.length
      let text := b.text ++ b.between folded blankStart ++ line
      (Margin.read? (some indent) next.endLine).bind fun (m, c) =>
        lines folded indent n ⟨text, next.breakText, m.breaks, blankStart⟩ c
    else some (b, c)

def finish (b : Block) : Chomping → List Char
  | .strip => b.text
  | .clip => b.text ++ b.lastBreak
  | .keep => b.text ++ b.lastBreak ++ b.emptyLines

/-- A block scalar from its indicator on, inside a collection at the column `parent`. -/
def read? (folded : Bool) (parent : Int) (c : Cursor) : Option (List Char × Cursor) := do
  let (header, c) ← Header.read? c.skip
  let c ← c.finishLine?
  let indent? := header.increment.map fun n => n + parent.toNat
  let (m, c) ← Margin.read? indent? c
  let indent := indent?.getD (max m.widest (max (parent + 1).toNat 1))
  let (b, c) ← lines folded indent (c.rest.length + 1) { emptyLines := m.breaks } c
  return (b.finish header.chomping, c)

end Block

end HomeAutomation.Yaml
