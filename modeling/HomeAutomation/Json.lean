import HomeAutomation.Event

/-! JSON as events, values and nodes are written in it and taken from it. Numbers are doubles. -/

namespace HomeAutomation

inductive Json where
  | null
  | bool (b : Bool)
  | number (x : Double)
  | string (s : String)
  | array (items : List Json)
  | object (members : List (String × Json))

namespace Value

/-- A value in JSON; a number that is not finite becomes null. -/
def json : Value → Json
  | .bool b => .bool b
  | .number x => if x.isFinite then .number x else .null
  | .string s => .string s

def ofJson? : Json → Option Value
  | .bool b => some (.bool b)
  | .number x => some (.number x)
  | .string s => some (.string s)
  | _ => none

end Value

def Event.json (e : Event) : Json :=
  .object [("id", .string e.id), ("source", .string e.source.id), ("kind", .string e.kindName),
    ("value", (e.value.map Value.json).getD .null)]

namespace Node

def json (n : Node) : Json := .string n.id

def ofJson? : Json → Option Node
  | .string s => some ⟨s⟩
  | _ => none

end Node

end HomeAutomation
