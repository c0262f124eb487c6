import HomeAutomation.Number.Shortest

/-! The simple value an event carries, and its text as a literal of a trigger. An event without
a value has none of these; absence is not a value. -/

namespace HomeAutomation

inductive Value where
  | bool (b : Bool)
  | number (x : Double)
  | string (s : String)
  deriving DecidableEq

namespace Value

inductive Kind where
  | boolean
  | number
  | string
  deriving DecidableEq, Repr

def Kind.name : Kind → String
  | .boolean => "boolean"
  | .number => "number"
  | .string => "string"

def kind : Value → Kind
  | .bool _ => .boolean
  | .number _ => .number
  | .string _ => .string

def bool? : Value → Option Bool
  | .bool b => some b
  | _ => none

def number? : Value → Option Double
  | .number x => some x
  | _ => none

def string? : Value → Option String
  | .string s => some s
  | _ => none

/-- A character between double quotes: quotes, backslashes, line feeds and tabs are escaped, and
nothing else is. -/
def escape : Char → List Char
  | '"' => ['\\', '"']
  | '\\' => ['\\', '\\']
  | '\n' => ['\\', 'n']
  | '\t' => ['\\', 't']
  | c => [c]

def quoted (s : String) : List Char :=
  '"' :: s.toList.flatMap escape ++ ['"']

def boolText (b : Bool) : String := if b then "true" else "false"

def literal : Value → List Char
  | .bool b => (boolText b).toList
  | .number x => x.chars
  | .string s => quoted s

def text (v : Value) : String := String.ofList v.literal

/-- The order of two values of one kind: false before true, strings by code points. Values of
two kinds have none. -/
def order? : Value → Value → Option Ordering
  | .bool a, .bool b => some (compare a b)
  | .number x, .number y => x.order? y
  | .string s, .string t => some (compare s t)
  | _, _ => none

def same (v w : Value) : Bool := v.order? w == some .eq

end Value

end HomeAutomation
