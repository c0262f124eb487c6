import HomeAutomation.Number.Decimal
import HomeAutomation.Yaml
import HomeAutomation.Yaml.Cursor

/-! What the text of a plain scalar stands for: nothing, a truth value, an integer, a float, or
the text itself. -/

namespace HomeAutomation.Yaml

def readNull? (s : String) : Option Yaml :=
  if s = "null" || s = "Null" || s = "NULL" || s = "~" then some .null else none

def readBool? (s : String) : Option Yaml :=
  if s = "true" || s = "True" || s = "TRUE" then some (.bool true)
  else if s = "false" || s = "False" || s = "FALSE" then some (.bool false)
  else none

/-- Several decimal digits that start with a zero write no number. -/
def isPadded (cs : List Char) : Bool :=
  cs.head? = some '0' && 1 < cs.length && cs.all Char.isDigit

/-- An unsigned integer: decimal, or hexadecimal, octal or binary after `0x`, `0o` or `0b`. -/
def unsigned? : List Char → Option Nat
  | '0' :: 'x' :: cs => natural? 16 cs
  | '0' :: 'o' :: cs => natural? 8 cs
  | '0' :: 'b' :: cs => natural? 2 cs
  | cs => if isPadded cs then none else natural? 10 cs

def integer? (cs : List Char) : Option Int :=
  let (negative, digits) := Numeral.splitSign cs
  (unsigned? digits).map fun (n : Nat) => if negative then -(n : Int) else n

/-- Whether an integer can be held: in 64 bits, signed or unsigned. -/
def fits (i : Int) : Bool := -0x8000000000000000 ≤ i && i ≤ 0xFFFFFFFFFFFFFFFF

/-- Whether an integer is too large to hold and too small to be taken for a float. -/
def overflows (i : Int) : Bool := !fits i && -Nat.pow 2 127 ≤ i && i < Nat.pow 2 128

def readInt? (s : String) : Option Yaml :=
  (integer? s.toList).bind fun i => if fits i then some (.int i) else none

def readFloat? (s : String) : Option Yaml :=
  if s = ".inf" || s = ".Inf" || s = ".INF" || s = "+.inf" || s = "+.Inf" || s = "+.INF" then
    some (.float (.infinite false))
  else if s = "-.inf" || s = "-.Inf" || s = "-.INF" then some (.float (.infinite true))
  else if s = ".nan" || s = ".NaN" || s = ".NAN" then some (.float .nan)
  else (Numeral.read? s.toList).bind fun x => if x.isFinite then some (.float x) else none

/-- The float of a plain scalar: decimal digits after a zero are none. -/
def readPlainFloat? (s : String) : Option Yaml :=
  if isPadded (Numeral.splitSign s.toList).2 then none else readFloat? s

def readPlain? (s : String) : Option Yaml :=
  if s.isEmpty then some .null
  else if (integer? s.toList).any overflows then none
  else some <|
    (readNull? s).getD <| (readBool? s).getD <| (readInt? s).getD <|
      (readPlainFloat? s).getD (.string s)

def readTagged? (tag s : String) : Option Yaml :=
  if tag = "tag:yaml.org,2002:bool" then readBool? s
  else if tag = "tag:yaml.org,2002:int" then readInt? s
  else if tag = "tag:yaml.org,2002:float" then readFloat? s
  else if tag = "tag:yaml.org,2002:null" then readNull? s
  else some (.string s)

end HomeAutomation.Yaml
