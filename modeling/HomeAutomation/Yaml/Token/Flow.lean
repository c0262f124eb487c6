import HomeAutomation.Yaml.Cursor

/-! Scalars that may go on over several lines: quoted ones and plain ones. A line break within
them counts as a space, and each further one as a line break. -/

namespace HomeAutomation.Yaml

structure Gap where
  /-- The blanks in front of the first line break. -/
  blanks : List Char := []
  breaks : List Char := []
  /-- The line break in front of it is escaped. -/
  escaped : Bool := false

namespace Gap

def text (g : Gap) : List Char :=
  if g.escaped then g.breaks
  else
    match g.breaks with
    | [] => g.blanks
    | '\n' :: [] => [' ']
    | '\n' :: more => more
    | all => all

def breaksLine (g : Gap) : Bool := g.escaped || !g.breaks.isEmpty

/-- Reads a gap. In a plain scalar a tab may not stand left of the column `indent` of a
continuation line. -/
def scan (indent : Int) : Nat → Gap → Cursor → Option (Gap × Cursor)
  | 0, g, c => some (g, c)
  | n + 1, g, c =>
    match c.peek with
    | none => some (g, c)
    | some ch =>
      if isBlank ch then
        if g.breaksLine then
          if ch = '\t' && c.column < indent then none else scan indent n g c.skip
        else scan indent n { g with blanks := g.blanks ++ [ch] } c.skip
      else if isBreak ch then scan indent n { g with breaks := g.breaks ++ c.breakText } c.nextLine
      else some (g, c)

def read? (indent : Int) (escaped : Bool) (c : Cursor) : Option (Gap × Cursor) :=
  scan indent c.rest.length { escaped } c

end Gap

def charOf? (n : Nat) : Option Char := if n.isValidChar then some (Char.ofNat n) else none

def escapes : List (Char × Char) :=
  [('0', '\x00'), ('a', '\x07'), ('b', '\x08'), ('t', '\t'), ('\t', '\t'), ('n', '\n'),
    ('v', '\x0B'), ('f', '\x0C'), ('r', '\r'), ('e', '\x1B'), (' ', ' '), ('"', '"'), ('/', '/'),
    ('\\', '\\'), ('N', '\u0085'), ('_', '\u00A0'), ('L', '\u2028'), ('P', '\u2029')]

def codeLengths : List (Char × Nat) := [('x', 2), ('u', 4), ('U', 8)]

/-- The character that a letter and what follows it escape, and how many characters that takes. -/
def unescape? : List Char → Option (Char × Nat)
  | [] => none
  | c :: cs =>
    match escapes.lookup c, codeLengths.lookup c with
    | some e, _ => some (e, 1)
    | none, some n =>
      if n ≤ cs.length then
        ((natural? 16 (cs.take n)).bind charOf?).map fun e => (e, n + 1)
      else none
    | none, none => none

def quotedWithin (quote : Char) : Nat → Cursor → Option (List Char × Cursor)
  | 0, _ => none
  | n + 1, c =>
    let keep (text : List Char) (c : Cursor) : Option (List Char × Cursor) :=
      (quotedWithin quote n c).map fun (more, c) => (text ++ more, c)
    if c.atDocument then none
    else
      match c.peek with
      | none => none
      | some ch =>
        if ch = quote then
          if quote = '\'' && c.sees '\'' 1 then keep ['\''] (c.skip 2) else some ([], c.skip)
        else if ch = '\\' && quote = '"' then
          if c.at? isBreak 1 then
            (Gap.read? 0 true c.skip.nextLine).bind fun (g, c) => keep g.text c
          else (unescape? c.skip.rest).bind fun (e, length) => keep [e] (c.skip (length + 1))
        else if isBlank ch || isBreak ch then
          (Gap.read? 0 false c).bind fun (g, c) => keep g.text c
        else keep [ch] c.skip

def quoted? (quote : Char) (c : Cursor) : Option (List Char × Cursor) :=
  quotedWithin quote c.rest.length c.skip

def isFlowMark (c : Char) : Bool := c = ',' || c = '[' || c = ']' || c = '\x7b' || c = '\x7d'

/-- A word of a plain scalar. Among brackets a colon may not stand right before another mark. -/
def word? (flow : Bool) : List Char → Option (List Char)
  | [] => some []
  | c :: cs =>
    if isBlank c || isBreak c then some []
    else if flow && c = ':' && (cs.head?.any fun d => isFlowMark d || d = '?') then none
    else if c = ':' && (cs.head?.all fun d => isBlank d || isBreak d) then some []
    else if flow && isFlowMark c then some []
    else (word? flow cs).map (c :: ·)

/-- What was read of a plain scalar. The gap behind its last word is not part of it. -/
structure Plain where
  text : List Char
  breaksLine : Bool
  cursor : Cursor

/-- A plain scalar whose lines are indented at least by `indent` outside brackets. The gap is the
one in front of the next word. -/
def plainWithin (flow : Bool) (indent : Int) : Nat → Gap → Cursor → Option Plain
  | 0, _, _ => none
  | n + 1, g, c =>
    if c.atDocument || c.sees '#' then some ⟨[], g.breaksLine, c⟩
    else
      (word? flow c.rest).bind fun word =>
        let next := c.skip word.length
        if word.isEmpty then some ⟨[], g.breaksLine, c⟩
        else
          let add (p : Plain) : Plain := { p with text := g.text ++ word ++ p.text }
          if next.at? fun ch => isBlank ch || isBreak ch then
            (Gap.read? indent false next).bind fun (g, c) =>
              if !flow && c.column < indent then some (add ⟨[], g.breaksLine, c⟩)
              else (plainWithin flow indent n g c).map add
          else some (add ⟨[], false, next⟩)

def plain? (flow : Bool) (indent : Int) (c : Cursor) : Option Plain :=
  plainWithin flow indent (c.rest.length + 1) {} c

end HomeAutomation.Yaml
