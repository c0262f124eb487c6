/-! A place in a text and the characters that YAML tells apart. -/

namespace HomeAutomation.Yaml

def isPrintable (c : Char) : Bool :=
  let n := c.toNat
  n = 0x09 || n = 0x0A || n = 0x0D || (0x20 ≤ n && n ≤ 0x7E) || n = 0x85 ||
    (0xA0 ≤ n && n ≤ 0xFFFD) || 0x10000 ≤ n

def isBlank (c : Char) : Bool := c = ' ' || c = '\t'

def isBreak (c : Char) : Bool :=
  c = '\n' || c = '\r' || c = '\u0085' || c = '\u2028' || c = '\u2029'

def isWord (c : Char) : Bool := c.isAlphanum || c = '_' || c = '-'

def digit? (c : Char) : Option Nat :=
  if c.isDigit then some (c.toNat - '0'.toNat)
  else if 'a' ≤ c && c ≤ 'f' then some (c.toNat - 'a'.toNat + 10)
  else if 'A' ≤ c && c ≤ 'F' then some (c.toNat - 'A'.toNat + 10)
  else none

def natural? (base : Nat) (cs : List Char) : Option Nat :=
  if cs.isEmpty then none
  else cs.foldl (fun n? c => n?.bind fun n => (digit? c).bind fun d =>
    if d < base then some (n * base + d) else none) (some 0)

def byteLength (cs : List Char) : Nat := cs.foldl (fun n c => n + c.utf8Size) 0

/-- What is left of a text, and where that begins: the index counts bytes, the column characters. -/
structure Cursor where
  rest : List Char
  index : Nat := 0
  line : Nat := 0
  column : Nat := 0

namespace Cursor

def peek (c : Cursor) (n : Nat := 0) : Option Char := c.rest[n]?

def at? (c : Cursor) (p : Char → Bool) (n : Nat := 0) : Bool := (c.peek n).any p

def sees (c : Cursor) (ch : Char) (n : Nat := 0) : Bool := c.peek n = some ch

def lineEnds (c : Cursor) (n : Nat := 0) : Bool := (c.peek n).all isBreak

def wordEnds (c : Cursor) (n : Nat := 0) : Bool :=
  (c.peek n).all fun ch => isBlank ch || isBreak ch

/-- Goes on over characters of the same line. -/
def skip (c : Cursor) (n : Nat := 1) : Cursor :=
  { c with
    rest := c.rest.drop n
    index := c.index + byteLength (c.rest.take n)
    column := c.column + n }

def run (c : Cursor) (p : Char → Bool) : List Char := c.rest.takeWhile p

def skipRun (c : Cursor) (p : Char → Bool) : Cursor := c.skip (c.run p).length

def nextLine (c : Cursor) : Cursor :=
  let n := if c.sees '\r' && c.sees '\n' 1 then 2 else 1
  { rest := c.rest.drop n
    index := c.index + byteLength (c.rest.take n)
    line := c.line + 1
    column := 0 }

/-- The line break here as a scalar contains it. -/
def breakText (c : Cursor) : List Char :=
  match c.peek with
  | none => []
  | some ch => if ch = '\u2028' || ch = '\u2029' then [ch] else if isBreak ch then ['\n'] else []

def endLine (c : Cursor) : Cursor := if c.at? isBreak then c.nextLine else c

/-- Whether a line here begins with a mark of three characters alone. -/
def isMark (c : Cursor) (ch : Char) : Bool :=
  c.column = 0 && c.sees ch && c.sees ch 1 && c.sees ch 2 && c.wordEnds 3

def atDocument (c : Cursor) : Bool := c.isMark '-' || c.isMark '.'

def skipComment (c : Cursor) : Cursor :=
  if c.sees '#' then c.skipRun fun ch => !isBreak ch else c

/-- Goes to the next line over blanks and a comment; nothing else may be in between. -/
def finishLine? (c : Cursor) : Option Cursor :=
  let c := (c.skipRun isBlank).skipComment
  if c.lineEnds then some c.endLine else none

end Cursor

end HomeAutomation.Yaml
