import HomeAutomation.Trigger.Compile

/-! Evaluating a condition for an arrived event. Disjunctions and conjunctions stop at the first
child that decides them, so a comparison that is not reached raises no type error. -/

namespace HomeAutomation.Trigger

abbrev Values := String → Option Value

structure TypeMismatch where
  line : Nat
  id : String
  expected : Value.Kind
  found : Value.Kind
  deriving DecidableEq

def TypeMismatch.message (m : TypeMismatch) : String :=
  "line " ++ toString m.line ++ ": type error: " ++ m.id ++ " is not a " ++ m.expected.name ++
    " (found " ++ m.found.name ++ ")"

/-- Whether a token stands for an id: the id itself, or one that goes on with a point or a
parameter list. -/
def matchesTransient (token id : String) : Bool :=
  match token.toList.isPrefixOf? id.toList with
  | none => false
  | some [] => true
  | some (c :: _) => c == '.' || c == '('

namespace Comparison

/-- The value a comparison looks at: the arrived event's own, or else the latest one. -/
def resolve (c : Comparison) (event : Event) (values : Values) : Option Value :=
  if c.id = event.id then event.value else values c.id

/-- A presence test asks whether there is a value; any other comparison of no value is false. -/
def holds (c : Comparison) : Option Value → Except TypeMismatch Bool
  | none =>
    match c.operand with
    | .unknown => .ok (c.op = .eq)
    | .literal _ => .ok false
  | some found =>
    match c.operand with
    | .unknown => .ok (c.op ≠ .eq)
    | .literal v =>
      if v.kind = found.kind then .ok (c.op.holds (found.order? v))
      else .error ⟨c.line, c.id, v.kind, found.kind⟩

def eval (c : Comparison) (event : Event) (values : Values) : Except TypeMismatch Bool :=
  c.holds (c.resolve event values)

end Comparison

structure Run where
  visited : List Comparison
  result : Except TypeMismatch Bool

namespace Expr

mutual

def run (event : Event) (values : Values) : Expr → Run
  | .or es => runUntil event values true es
  | .and es => runUntil event values false es
  | .not e =>
    let r := run event values e
    ⟨r.visited, r.result.map Bool.not⟩
  | .transient token => ⟨[], .ok (matchesTransient token event.id)⟩
  | .compare c => ⟨[c], c.eval event values⟩

/-- Runs conditions up to the first that ends in the deciding result or in an error; the other
result stands if none does. -/
def runUntil (event : Event) (values : Values) (deciding : Bool) : List Expr → Run
  | [] => ⟨[], .ok (!deciding)⟩
  | e :: es =>
    let r := run event values e
    match r.result with
    | .error m => ⟨r.visited, .error m⟩
    | .ok b =>
      if b = deciding then ⟨r.visited, .ok b⟩
      else
        let rest := runUntil event values deciding es
        ⟨r.visited ++ rest.visited, rest.result⟩

end

mutual

/-- Whether an event with this id can matter to the condition: a comparison names the id, or a
transient token matches it. -/
def references (id : String) : Expr → Bool
  | .or es => referencesAny id es
  | .and es => referencesAny id es
  | .not e => references id e
  | .transient token => matchesTransient token id
  | .compare c => c.id == id

def referencesAny (id : String) : List Expr → Bool
  | [] => false
  | e :: es => references id e || referencesAny id es

end

end Expr

namespace Condition

def run (c : Condition) (event : Event) (values : Values) : Run := c.root.run event values

def eval (c : Condition) (event : Event) (values : Values) : Except TypeMismatch Bool :=
  (c.run event values).result

def references (c : Condition) (id : String) : Bool := c.root.references id

end Condition

end HomeAutomation.Trigger
