import HomeAutomation.Json

/-! Reading JSON. A number is the double next to it, and arrays and objects nest at most 127
deep. -/

namespace HomeAutomation

namespace Json

inductive Error where
  | malformed
  /-- The text is JSON, but no boolean, number or string. -/
  | noVariant
  deriving DecidableEq

def Error.message : Error → String
  | .malformed => "the text is not JSON"
  | .noVariant => "data did not match any variant of untagged enum Value"

end Json

namespace Json.Reader

def isSpace (c : Char) : Bool := c == ' ' || c == '\n' || c == '\t' || c == '\r'

def skipSpace (cs : List Char) : List Char := cs.dropWhile isSpace

def digits (cs : List Char) : Option (List Char × List Char) :=
  let ds := cs.takeWhile Char.isDigit
  if ds.isEmpty then none else some (ds, cs.dropWhile Char.isDigit)

def fraction : List Char → Option (List Char × List Char)
  | '.' :: cs => digits cs
  | cs => some ([], cs)

def exponent : List Char → Option (Int × List Char)
  | c :: cs =>
    if c == 'e' || c == 'E' then
      let (negative, cs) := Numeral.splitSign cs
      (digits cs).map fun (ds, cs) =>
        let n : Int := Nat.ofDigitChars 10 ds 0
        (if negative then -n else n, cs)
    else some (0, c :: cs)
  | [] => some (0, [])

/-- A number: a whole part without superfluous zeros, then fraction and exponent. The double next
to it has to be finite. -/
def number (cs : List Char) : Option (Json × List Char) := do
  let (negative, cs) := match cs with
    | '-' :: cs => (true, cs)
    | cs => (false, cs)
  let (whole, cs) ← digits cs
  let (fraction, cs) ← fraction cs
  let (e, cs) ← exponent cs
  let x := (Numeral.mk negative whole fraction e).decimal.toDouble
  if x.isFinite && (whole.length = 1 || whole.head? ≠ some '0') then return (.number x, cs)
  else none

def hexDigit? (c : Char) : Option Nat :=
  if c.isDigit then some (c.toNat - '0'.toNat)
  else if 'a' ≤ c && c ≤ 'f' then some (c.toNat - 'a'.toNat + 10)
  else if 'A' ≤ c && c ≤ 'F' then some (c.toNat - 'A'.toNat + 10)
  else none

def hexUnit : List Char → Option (Nat × List Char)
  | a :: b :: c :: d :: cs => do
    let a ← hexDigit? a
    let b ← hexDigit? b
    let c ← hexDigit? c
    let d ← hexDigit? d
    return (((a * 16 + b) * 16 + c) * 16 + d, cs)
  | _ => none

/-- The character after a backslash and `u`: one unit, or two that make a pair. -/
def unicode (cs : List Char) : Option (Char × List Char) := do
  let (unit, cs) ← hexUnit cs
  if 0xDC00 ≤ unit ∧ unit ≤ 0xDFFF then none
  else if 0xD800 ≤ unit ∧ unit ≤ 0xDBFF then
    match cs with
    | '\\' :: 'u' :: cs =>
      let (low, cs) ← hexUnit cs
      if 0xDC00 ≤ low ∧ low ≤ 0xDFFF then
        return (Char.ofNat (0x10000 + (unit - 0xD800) * 0x400 + (low - 0xDC00)), cs)
      else none
    | _ => none
  else return (Char.ofNat unit, cs)

def escaped : List Char → Option (Char × List Char)
  | '"' :: cs => some ('"', cs)
  | '\\' :: cs => some ('\\', cs)
  | '/' :: cs => some ('/', cs)
  | 'b' :: cs => some ('\x08', cs)
  | 'f' :: cs => some ('\x0c', cs)
  | 'n' :: cs => some ('\n', cs)
  | 'r' :: cs => some ('\r', cs)
  | 't' :: cs => some ('\t', cs)
  | 'u' :: cs => unicode cs
  | _ => none

/-- The characters of a string up to its closing quote, given the opening one is read. The bound
is on the characters. -/
def stringTail : Nat → List Char → Option (List Char × List Char)
  | 0, _ => none
  | n + 1, cs => match cs with
    | [] => none
    | '"' :: cs => some ([], cs)
    | '\\' :: cs => do
      let (c, cs) ← escaped cs
      let (rest, cs) ← stringTail n cs
      return (c :: rest, cs)
    | c :: cs =>
      if c.toNat < 0x20 then none
      else do
        let (rest, cs) ← stringTail n cs
        return (c :: rest, cs)

def string (cs : List Char) : Option (String × List Char) := do
  let (s, cs) ← stringTail (cs.length + 1) cs
  return (String.ofList s, cs)

def keyword (word : String) (j : Json) (cs : List Char) : Option (Json × List Char) :=
  if word.toList.isPrefixOf cs then some (j, cs.drop word.length) else none

mutual

/-- A value, with space in front of it. Groups nest at most `depth` deep; the first bound is on
the characters. -/
def value : Nat → Nat → List Char → Option (Json × List Char)
  | 0, _, _ => none
  | n + 1, depth, cs => match skipSpace cs with
    | 'n' :: cs => keyword "ull" .null cs
    | 't' :: cs => keyword "rue" (.bool true) cs
    | 'f' :: cs => keyword "alse" (.bool false) cs
    | '"' :: cs => do
      let (s, cs) ← string cs
      return (.string s, cs)
    | '[' :: cs =>
      if depth = 0 then none
      else match skipSpace cs with
        | ']' :: cs => some (.array [], cs)
        | cs => do
          let (items, cs) ← items n (depth - 1) cs
          return (.array items, cs)
    | '\x7b' :: cs =>
      if depth = 0 then none
      else match skipSpace cs with
        | '\x7d' :: cs => some (.object [], cs)
        | cs => do
          let (members, cs) ← members n (depth - 1) cs
          return (.object members, cs)
    | cs => number cs

def items : Nat → Nat → List Char → Option (List Json × List Char)
  | 0, _, _ => none
  | n + 1, depth, cs => do
    let (item, cs) ← value n depth cs
    match skipSpace cs with
    | ']' :: cs => return ([item], cs)
    | ',' :: cs =>
      let (rest, cs) ← items n depth cs
      return (item :: rest, cs)
    | _ => none

def members : Nat → Nat → List Char → Option (List (String × Json) × List Char)
  | 0, _, _ => none
  | n + 1, depth, cs => match skipSpace cs with
    | '"' :: cs => do
      let (key, cs) ← string cs
      match skipSpace cs with
      | ':' :: cs =>
        let (item, cs) ← value n depth cs
        match skipSpace cs with
        | '\x7d' :: cs => return ([(key, item)], cs)
        | ',' :: cs =>
          let (rest, cs) ← members n depth cs
          return ((key, item) :: rest, cs)
        | _ => none
      | _ => none
    | _ => none

end

def maxDepth : Nat := 127

def read? (s : String) : Option Json :=
  let cs := s.toList
  (value (2 * cs.length + 2) maxDepth cs).bind fun (j, rest) =>
    if (skipSpace rest).isEmpty then some j else none

end Json.Reader

namespace Value

def readJson (s : String) : Except Json.Error Value :=
  match Json.Reader.read? s with
  | none => .error .malformed
  | some j =>
    match ofJson? j with
    | none => .error .noVariant
    | some v => .ok v

end Value

end HomeAutomation
