import HomeAutomation.Number.Double

/-! Decimal numerals: the grammar of a written number, its parts, and the double next to the
number they denote. -/

namespace HomeAutomation

/-- The number `± coefficient · 10^exponent`. -/
structure Decimal where
  negative : Bool
  coefficient : Nat
  exponent : Int
  deriving DecidableEq

namespace Decimal

/-- The nearest double. A power of ten above 10⁴⁰⁰ is out of range whatever it multiplies, and a
number below 2⁻¹⁰⁹⁰ is next to zero; neither needs the power itself. -/
def toDouble (d : Decimal) : Double :=
  if d.coefficient = 0 then .finite d.negative .zero
  else match d.exponent with
    | .ofNat e =>
      if 400 < e then .infinite d.negative
      else .ofUnits d.negative (d.coefficient * Nat.pow 10 e * Double.unitsPerOne) 1
    | .negSucc e =>
      if d.coefficient.log2 + 1100 < 3 * (e + 1) then .finite d.negative .zero
      else .ofUnits d.negative (d.coefficient * Double.unitsPerOne) (Nat.pow 10 (e + 1))

end Decimal

/-- A written number, `[sign] digits [. digits] [e [sign] digits]`, by its parts. -/
structure Numeral where
  negative : Bool
  whole : List Char
  fraction : List Char
  exponent : Int

namespace Numeral

def splitSign : List Char → Bool × List Char
  | '-' :: cs => (true, cs)
  | '+' :: cs => (false, cs)
  | cs => (false, cs)

def splitFraction : List Char → List Char × List Char
  | '.' :: cs => (cs.takeWhile Char.isDigit, cs.dropWhile Char.isDigit)
  | cs => ([], cs)

def exponent? : List Char → Option Int
  | [] => some 0
  | c :: cs =>
    let (negative, digits) := splitSign cs
    if (c == 'e' || c == 'E') && !digits.isEmpty && digits.all Char.isDigit then
      let n : Int := Nat.ofDigitChars 10 digits 0
      some (if negative then -n else n)
    else none

def parse? (cs : List Char) : Option Numeral :=
  let (negative, cs) := splitSign cs
  let whole := cs.takeWhile Char.isDigit
  let (fraction, rest) := splitFraction (cs.dropWhile Char.isDigit)
  if whole.isEmpty && fraction.isEmpty then none
  else (exponent? rest).map fun e => ⟨negative, whole, fraction, e⟩

def decimal (n : Numeral) : Decimal :=
  ⟨n.negative, Nat.ofDigitChars 10 (n.whole ++ n.fraction) 0,
    n.exponent - n.fraction.length⟩

def read? (cs : List Char) : Option Double :=
  (parse? cs).map fun n => n.decimal.toDouble

end Numeral

end HomeAutomation
