import HomeAutomation.Yaml.Cursor
import HomeAutomation.Yaml.Token

/-! Anchors, aliases, tags and directives. -/

namespace HomeAutomation.Yaml

def endsAnchor (c : Char) : Bool :=
  isBlank c || isBreak c || "?:,]\x7d%@\x60".toList.contains c

def anchorName? (c : Cursor) : Option (String × Cursor) :=
  let c := c.skip
  let name := c.run isWord
  let c := c.skip name.length
  if !name.isEmpty && c.peek.all endsAnchor then some (String.ofList name, c) else none

/-- Characters of a tag; `all` is for a verbatim one. -/
def isTagChar (all : Bool) (c : Char) : Bool :=
  isWord c || ";/?:@&=+$.!~*'()".toList.contains c || (all && ",[]".toList.contains c)

def byte? (c : Cursor) : Option Nat :=
  if c.sees '%' then
    match (c.peek 1).bind digit?, (c.peek 2).bind digit? with
    | some a, some b => some (16 * a + b)
    | _, _ => none
  else none

/-- How many bytes a character has that begins with a byte, and the bits that byte adds to it. -/
def leadingByte? (b : Nat) : Option (Nat × Nat) :=
  if b < 0x80 then some (1, b)
  else if 0xC0 ≤ b && b < 0xE0 then some (2, b - 0xC0)
  else if 0xE0 ≤ b && b < 0xF0 then some (3, b - 0xE0)
  else if 0xF0 ≤ b && b < 0xF8 then some (4, b - 0xF0)
  else none

def trailingBytes? : Nat → Nat → Cursor → Option (Nat × Cursor)
  | 0, bits, c => some (bits, c)
  | n + 1, bits, c =>
    match byte? c with
    | some b =>
      if 0x80 ≤ b && b < 0xC0 then trailingBytes? n (bits * 64 + (b - 0x80)) (c.skip 3) else none
    | none => none

def leastOfLength (length : Nat) : Nat :=
  if length = 2 then 0x80 else if length = 3 then 0x800 else if length = 4 then 0x10000 else 0

/-- An escaped character. Bytes of the right form may still be no character. -/
def escapedChar? (c : Cursor) : Option (Option Char × Cursor) := do
  let b ← byte? c
  let (length, bits) ← leadingByte? b
  let (code, c) ← trailingBytes? (length - 1) bits (c.skip 3)
  let valid := leastOfLength length ≤ code && decide code.isValidChar
  return (if valid then some (Char.ofNat code) else none, c)

def tagCharsWithin (all : Bool) : Nat → Cursor → Option (Escaped × Cursor)
  | 0, c => some ([], c)
  | n + 1, c =>
    match c.peek with
    | none => some ([], c)
    | some ch =>
      if ch = '%' then
        (escapedChar? c).bind fun (e, c) =>
          (tagCharsWithin all n c).map fun (more, c) => (e :: more, c)
      else if isTagChar all ch then
        (tagCharsWithin all n c.skip).map fun (more, c) => (some ch :: more, c)
      else some ([], c)

/-- The part of a tag before an escaped NUL, which ends it. -/
def untilNul (e : Escaped) : Escaped := e.takeWhile (· ≠ some '\x00')

def tagChars? (all : Bool) (c : Cursor) : Option (Escaped × Cursor) :=
  tagCharsWithin all c.rest.length c

def someTagChars? (all : Bool) (c : Cursor) : Option (Escaped × Cursor) :=
  (tagChars? all c).filter fun (e, _) => !e.isEmpty

def handleText (c : Cursor) : List Char :=
  let name := '!' :: c.skip.run isWord
  if (c.skip name.length).sees '!' then name ++ ['!'] else name

def isHandle (h : List Char) : Bool := 1 < h.length && h.getLast? = some '!'

/-- A tag, from its exclamation mark on. The mark alone is a tag too, whatever its handle stands
for. -/
def tag? (flow : Bool) (c : Cursor) : Option (Token × Cursor) := do
  let (token, c) ←
    if c.sees '<' 1 then do
      let (suffix, c) ← someTagChars? true (c.skip 2)
      if c.sees '>' then pure (Token.tag "" (untilNul suffix), c.skip) else none
    else do
      let h := handleText c
      let c := c.skip h.length
      if isHandle h then
        let (suffix, c) ← someTagChars? false c
        pure (Token.tag (String.ofList h) (untilNul suffix), c)
      else
        let (more, c) ← tagChars? false c
        let suffix := untilNul (h.tail.map some ++ more)
        pure (if suffix.isEmpty then Token.tag "" [some '!'] else Token.tag "!" suffix, c)
  if (flow && c.sees ',') || c.wordEnds then return (token, c) else none

def versionNumber? (c : Cursor) : Option (Nat × Cursor) :=
  let digits := c.run Char.isDigit
  if 9 < digits.length then none
  else (natural? 10 digits).map fun n => (n, c.skip digits.length)

def directive? (c : Cursor) : Option (Token × Cursor) := do
  let name := c.skip.run isWord
  let c := c.skip (name.length + 1)
  if name.isEmpty || !c.wordEnds then none
  else
    let c := c.skipRun isBlank
    let (token, c) ←
      if name = "YAML".toList then do
        let (major, c) ← versionNumber? c
        if c.sees '.' then
          let (minor, c) ← versionNumber? c.skip
          pure (Token.version major minor, c)
        else none
      else if name = "TAG".toList then do
        let h := handleText c
        let isName := h = ['!'] || isHandle h
        let c' := c.skip h.length
        if c.sees '!' && isName && c'.at? isBlank then
          let (replacement, c) ← someTagChars? true (c'.skipRun isBlank)
          if c.wordEnds then pure (Token.handle (String.ofList h) (untilNul replacement), c) else none
        else none
      else none
    return (token, ← c.finishLine?)

end HomeAutomation.Yaml
