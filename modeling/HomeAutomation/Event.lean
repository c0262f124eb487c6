import HomeAutomation.Value

/-! Events: one state observation or occurrence, posted by a node. A stable event is kept as the
latest of its id; a transient one is not. -/

namespace HomeAutomation

structure Node where
  id : String
  deriving DecidableEq

namespace Node

def system : Node := ⟨"system"⟩

def ui : Node := ⟨"ui"⟩

def rules : Node := ⟨"rules"⟩

end Node

structure Event where
  id : String
  source : Node
  stable : Bool
  value : Option Value
  id_ne_empty : id ≠ "" := by decide
  deriving DecidableEq

namespace Event

inductive Error where
  | emptyId
  deriving DecidableEq

def Error.message : Error → String
  | .emptyId => "event id must not be empty"

def make (source : Node) (id : String) (stable : Bool) (value : Option Value) :
    Except Error Event :=
  if h : id = "" then .error .emptyId else .ok ⟨id, source, stable, value, h⟩

def kindName (e : Event) : String := if e.stable then "stable" else "transient"

/-- Equality as observations: not-a-number differs from itself. -/
def same (e f : Event) : Bool :=
  e.id == f.id && e.source == f.source && e.stable == f.stable &&
    match e.value, f.value with
    | none, none => true
    | some v, some w => v.same w
    | _, _ => false

end Event

inductive Lifecycle where
  | start
  | ready
  | quit
  deriving DecidableEq, Repr

namespace Lifecycle

def name : Lifecycle → String
  | .start => "start"
  | .ready => "ready"
  | .quit => "quit"

def event (phase : Lifecycle) : Event where
  id := "system.state"
  source := .system
  stable := true
  value := some (.string phase.name)

end Lifecycle

end HomeAutomation
