import HomeAutomation.Trigger.Condition

/-! Tokens of the trigger language and their places in the source. -/

namespace HomeAutomation.Trigger

/-- A place in a source text: lines end at line feeds, columns count characters, both from one. -/
structure Position where
  line : Nat
  column : Nat
  deriving DecidableEq, Repr

namespace Position

def start : Position := ⟨1, 1⟩

def next (p : Position) (c : Char) : Position :=
  if c = '\n' then ⟨p.line + 1, 1⟩ else ⟨p.line, p.column + 1⟩

def after (p : Position) (cs : List Char) : Position := cs.foldl next p

end Position

namespace Token

inductive Kind where
  | id (name : String)
  | literal (v : Value)
  | unknown
  | or
  | and
  | not
  | openGroup
  | closeGroup
  | op (o : Operator)
  | endOfText
  deriving DecidableEq

def Kind.describe : Kind → String
  | .id name => "event id '" ++ name ++ "'"
  | .literal (.string _) => "string literal"
  | .literal (.number _) => "number literal"
  | .literal (.bool _) => "boolean literal"
  | .unknown => "'unknown'"
  | .or => "'|'"
  | .and => "'&'"
  | .not => "'!'"
  | .openGroup => "'('"
  | .closeGroup => "')'"
  | .op o => "'" ++ o.symbol ++ "'"
  | .endOfText => "end of input"

end Token

structure Token where
  kind : Token.Kind
  position : Position
  deriving DecidableEq

end HomeAutomation.Trigger
