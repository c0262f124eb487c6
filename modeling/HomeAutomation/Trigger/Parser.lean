import HomeAutomation.Trigger.Token

/-! From tokens to a condition. A disjunction holds conjunctions, those hold negations and atoms,
and an atom is an id, a comparison or a parenthesized disjunction; a group of one element is
that element. Groups nest only as deep as a budget allows. -/

namespace HomeAutomation.Trigger.Parser

def maxNesting : Nat := 256

inductive Fault where
  | trailing (found : Token)
  | tooDeep (opening : Token)
  | expectedClose (found : Token)
  | expectedAtom (found : Token)
  | expectedLiteral (found : Token)
  | orderedBooleans (operator : Token) (op : Operator)
  | orderedPresence (operator : Token) (op : Operator)
  /-- The tokens ran out before the end of the text, which none of a source do. -/
  | outOfTokens
  deriving DecidableEq

namespace Fault

def message : Fault → String
  | .trailing t => "unexpected " ++ t.kind.describe
  | .tooDeep _ => "groups nested deeper than " ++ toString maxNesting ++ " levels"
  | .expectedClose t => "expected ')' but found " ++ t.kind.describe
  | .expectedAtom t => "expected event id or '(' but found " ++ t.kind.describe
  | .expectedLiteral t => "expected literal but found " ++ t.kind.describe
  | .orderedBooleans _ op => "operator '" ++ op.symbol ++ "' cannot compare booleans"
  | .orderedPresence _ op => "operator '" ++ op.symbol ++ "' cannot be used in a presence test"
  | .outOfTokens => "unexpected end of tokens"

def token? : Fault → Option Token
  | .trailing t | .tooDeep t | .expectedClose t | .expectedAtom t | .expectedLiteral t
  | .orderedBooleans t _ | .orderedPresence t _ => some t
  | .outOfTokens => none

end Fault

abbrev Parse (α : Type) := Except Fault (α × List Token)

/-- The operand of a comparison. It may be left out where the comparison ends. -/
def operand : List Token → Parse Operand
  | [] => .error .outOfTokens
  | t :: ts =>
    match t.kind with
    | .literal v => .ok (.literal v, ts)
    | .unknown => .ok (.unknown, ts)
    | .or | .and | .closeGroup | .endOfText => .ok (.unknown, t :: ts)
    | .id _ | .not | .openGroup | .op _ => .error (.expectedLiteral t)

def checkOperand (operator : Token) (op : Operator) (o : Operand) : Except Fault Unit :=
  match o with
  | .literal (.bool _) =>
    if op.isEquality then .ok () else .error (.orderedBooleans operator op)
  | .unknown => if op.isEquality then .ok () else .error (.orderedPresence operator op)
  | .literal (.string _) | .literal (.number _) => .ok ()

def leaf (id : String) (line : Nat) : List Token → Parse Expr
  | [] => .error .outOfTokens
  | t :: ts =>
    match t.kind with
    | .op op =>
      match operand ts with
      | .error e => .error e
      | .ok (o, rest) =>
        match checkOperand t op o with
        | .error e => .error e
        | .ok () => .ok (.compare ⟨id, op, o, line⟩, rest)
    | _ => .ok (.transient id, t :: ts)

/-- An id, a comparison or a group; `group` reads the inside of a group, if one may open. -/
def atom (group : Option (List Token → Parse Expr)) : List Token → Parse Expr
  | [] => .error .outOfTokens
  | t :: ts =>
    match t.kind with
    | .id name => leaf name t.position.line ts
    | .openGroup =>
      match group with
      | none => .error (.tooDeep t)
      | some inside =>
        match inside ts with
        | .error e => .error e
        | .ok (_, []) => .error .outOfTokens
        | .ok (e, close :: rest) =>
          if close.kind = .closeGroup then .ok (e, rest) else .error (.expectedClose close)
    | _ => .error (.expectedAtom t)

def negation (group : Option (List Token → Parse Expr)) : List Token → Parse Expr
  | [] => .error .outOfTokens
  | t :: ts =>
    if t.kind = .not then (atom group ts).map fun (e, rest) => (.not e, rest)
    else atom group (t :: ts)

/-- Items with a separator between them. What is left after a separator is shorter than what the
item was read from, as items give back a part of their tokens. -/
def separated (sep : Token.Kind) (item : List Token → Parse Expr) (ts : List Token) :
    Parse (List Expr) :=
  match item ts with
  | .error e => .error e
  | .ok (_, []) => .error .outOfTokens
  | .ok (e, t :: rest) =>
    if t.kind = sep then
      if rest.length < ts.length then
        (separated sep item rest).map fun (es, rest) => (e :: es, rest)
      else .error .outOfTokens
    else .ok ([e], t :: rest)
termination_by ts.length

def group (node : List Expr → Expr) : List Expr → Expr
  | [e] => e
  | es => node es

def conjunction (inside : Option (List Token → Parse Expr)) (ts : List Token) : Parse Expr :=
  (separated .and (negation inside) ts).map fun (es, rest) => (group .and es, rest)

def disjunction (inside : Option (List Token → Parse Expr)) (ts : List Token) : Parse Expr :=
  (separated .or (conjunction inside) ts).map fun (es, rest) => (group .or es, rest)

/-- A condition in which at most `budget` groups are open at once. -/
def condition : Nat → List Token → Parse Expr
  | 0 => disjunction none
  | budget + 1 => disjunction (some (condition budget))

def parse (ts : List Token) : Except Fault Expr :=
  match condition maxNesting ts with
  | .error e => .error e
  | .ok (_, []) => .error .outOfTokens
  | .ok (e, t :: _) => if t.kind = .endOfText then .ok e else .error (.trailing t)

end HomeAutomation.Trigger.Parser
