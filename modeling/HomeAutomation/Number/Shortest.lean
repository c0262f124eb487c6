import HomeAutomation.Number.Decimal

/-! The text of a number: the fewest digits that read back to it. Of two such numerals the
nearer one is taken, and the greater when they are equally near. -/

namespace HomeAutomation

namespace Magnitude

def readsBack (m : Magnitude) (d : Nat × Int) : Bool :=
  Decimal.toDouble ⟨false, d.1, d.2⟩ = .finite false m

/-- The number over 10⁻¹⁰⁷⁴, of which every double is a whole multiple. -/
def exactCoefficient (m : Magnitude) : Nat := m.units * Nat.pow 5 1074

def dropZeros : Nat → Nat × Int → Nat × Int
  | 0, d => d
  | n + 1, (c, e) => if c % 10 = 0 then dropZeros n (c / 10, e + 1) else (c, e)

/-- The decimal with `places` fewer digits than the exact one that reads back, if there is
one: a neighbour of the number on that grid, the nearer one first. -/
def atPlaces? (m : Magnitude) (places : Nat) : Option (Nat × Int) :=
  let step := Nat.pow 10 places
  let below := m.exactCoefficient / step
  let neighbours :=
    if 2 * (m.exactCoefficient % step) < step then [below, below + 1] else [below + 1, below]
  let decimals := neighbours.map fun c => dropZeros c.log2 (c, (places : Int) - 1074)
  decimals.find? fun d => d.1 != 0 && m.readsBack d

/-- The coefficient and exponent of the shortest decimal that reads back. Seventeen digits are
always enough; the exact decimal stands behind them. -/
def shortest (m : Magnitude) : Nat × Int :=
  if m.units = 0 then (0, 0) else
    let digits := (Nat.toDigits 10 m.exactCoefficient).length
    ((List.range 17).findSome? fun n => m.atPlaces? (digits - (n + 1))).getD
      (m.exactCoefficient, -1074)

end Magnitude

def pointed (digits : List Char) (places : Nat) : List Char :=
  if places = 0 then digits
  else
    let padded := List.replicate (places + 1 - digits.length) '0' ++ digits
    padded.take (padded.length - places) ++ '.' :: padded.drop (padded.length - places)

/-- Writes `coefficient · 10^exponent` without an exponent. -/
def positional (coefficient : Nat) : Int → List Char
  | .ofNat e => Nat.toDigits 10 (coefficient * Nat.pow 10 e)
  | .negSucc e => pointed (Nat.toDigits 10 coefficient) (e + 1)

namespace Double

def signed (negative : Bool) (cs : List Char) : List Char :=
  if negative then '-' :: cs else cs

/-- The characters of a number: positional, the shortest digits that read back, a sign in
front, also of zero. -/
def chars : Double → List Char
  | .nan => "NaN".toList
  | .infinite s => signed s "inf".toList
  | .finite s m => signed s (positional m.shortest.1 m.shortest.2)

def text (x : Double) : String := String.ofList x.chars

def scientific (digits : List Char) (exponent : Int) : List Char :=
  let mantissa := pointed digits (digits.length - 1)
  mantissa ++ 'e' :: (toString (exponent + (digits.length - 1 : Nat))).toList

/-- The text of a number among diagnostics: a whole number keeps `.0`, and from 10¹⁶ on, or below
10⁻⁴, an exponent is written. -/
def debugText : Double → String
  | .finite s m =>
    let (c, e) := m.shortest
    let digits := Nat.toDigits 10 c
    let leading := e + (digits.length - 1 : Nat)
    let body :=
      if m.units ≠ 0 ∧ (leading < -4 ∨ 16 ≤ leading) then scientific digits e
      else if 0 ≤ e then positional c e ++ ['.', '0']
      else positional c e
    String.ofList (signed s body)
  | x => x.text

def ofText? : String → Option Double
  | "NaN" => some .nan
  | "inf" => some (.infinite false)
  | "-inf" => some (.infinite true)
  | s => Numeral.read? s.toList

end Double

end HomeAutomation
