/-! Double-precision numbers, held exactly. A finite one is a sign and a whole number of
units of 2⁻¹⁰⁷⁴, so order and rounding are questions about natural numbers. -/

namespace HomeAutomation

/-- The units of 2¹⁰²⁴, the first power of two that is too large. -/
def unitsBound : Nat := Nat.pow 2 2098

/-- Units that a double can hold: at most 53 significant bits, below 2¹⁰²⁴. -/
def Representable (units : Nat) : Prop :=
  units < unitsBound ∧ Nat.pow 2 (units.log2 - 52) ∣ units

instance (units : Nat) : Decidable (Representable units) :=
  inferInstanceAs (Decidable (_ ∧ _))

structure Magnitude where
  units : Nat
  representable : Representable units
  deriving DecidableEq

/-- Zero is signed, and there is one not-a-number. -/
inductive Double where
  | nan
  | infinite (negative : Bool)
  | finite (negative : Bool) (magnitude : Magnitude)
  deriving DecidableEq

namespace Magnitude

def zero : Magnitude := ⟨0, by decide +kernel⟩

end Magnitude

/-- The quotient rounded to the nearest whole number, a half to the even neighbour. -/
def roundDiv (num den : Nat) : Nat :=
  let q := num / den
  let twice := 2 * (num % den)
  if twice < den then q else if den < twice then q + 1 else q + q % 2

/-- The units of the double next to `num / den` units: 53 bits are kept, and a half goes to
the even neighbour. -/
def roundUnits (num den : Nat) : Nat :=
  let ulp := Nat.pow 2 ((num / den).log2 - 52)
  roundDiv num (den * ulp) * ulp

namespace Double

instance : Inhabited Double := ⟨.nan⟩

def zero : Double := .finite false .zero

def unitsPerOne : Nat := Nat.pow 2 1074

/-- The double nearest to `num / den` units; what no double can hold is infinite. -/
def ofUnits (negative : Bool) (num den : Nat) : Double :=
  let units := roundUnits num den
  if h : Representable units then .finite negative ⟨units, h⟩ else .infinite negative

def ofNat (n : Nat) : Double := ofUnits false (n * unitsPerOne) 1

def ofInt : Int → Double
  | .ofNat n => ofNat n
  | .negSucc n => ofUnits true ((n + 1) * unitsPerOne) 1

def isFinite : Double → Bool
  | .finite _ _ => true
  | _ => false

def neg : Double → Double
  | .nan => .nan
  | .infinite s => .infinite !s
  | .finite s m => .finite (!s) m

instance : Neg Double := ⟨neg⟩

/-- The place of a number among the ordered ones; not-a-number has none. Both zeros share
theirs. -/
def rank? : Double → Option Int
  | .nan => none
  | .infinite false => some unitsBound
  | .infinite true => some (-unitsBound)
  | .finite false m => some m.units
  | .finite true m => some (-m.units)

def order? (x y : Double) : Option Ordering :=
  match x.rank?, y.rank? with
  | some a, some b => some (compare a b)
  | _, _ => none

/-- Equality as numbers: the zeros agree, and not-a-number differs from itself. -/
def same (x y : Double) : Bool := x.order? y == some .eq

def mulFinite (negative : Bool) (x y : Magnitude) : Double :=
  ofUnits negative (x.units * y.units) unitsPerOne

def divFinite (negative : Bool) (x y : Magnitude) : Double :=
  ofUnits negative (x.units * unitsPerOne) y.units

end Double

end HomeAutomation
