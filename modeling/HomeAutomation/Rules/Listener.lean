import HomeAutomation.Bus.Dispatch
import HomeAutomation.Rules.Rule
import HomeAutomation.Scheduler

/-! Rules as a listener on the bus. An event is put to every rule whose trigger references its
id; a trigger that holds submits the rule's action as a task. -/

namespace HomeAutomation.Rules

variable {κ σ : Type}

structure Firing (κ : Type) where
  rule : String
  action : Action κ
  trigger : Event

def Firing.task (f : Firing κ) : Scheduler.Task (Firing κ) where
  name := "rule:" ++ f.rule
  pool := .worker
  blocking := true
  work := f

inductive Verdict where
  /-- The trigger does not reference the event. -/
  | unconcerned
  | quiet
  | fires
  | mismatch (m : Trigger.TypeMismatch)

def Rule.verdict (r : Rule κ) (e : Event) (values : Trigger.Values) : Verdict :=
  if r.trigger.references e.id then
    match r.trigger.eval e values with
    | .ok true => .fires
    | .ok false => .quiet
    | .error m => .mismatch m
  else .unconcerned

def logAll (ns : List Notice) (next : Reaction σ) : Reaction σ := ns.foldr Reaction.log next

/-- Puts an event to one rule after another; `submit` hands a firing to the scheduler. -/
def reactAll (submit : Firing κ → σ → σ × List Notice) (e : Event) (values : Trigger.Values) :
    List (Rule κ) → Reaction σ
  | [] => .finish .success
  | r :: rs =>
    let next := reactAll submit e values rs
    match r.verdict e values with
    | .unconcerned | .quiet => next
    | .mismatch m => .log (.triggerFailed r.name e.id m.message) next
    | .fires => .look fun s =>
      let (s, ns) := submit ⟨r.name, r.action, e⟩ s
      .update (fun _ => s) (logAll ns next)

def listenerName : String := "rules"

/-- The rules as a listener. They always end well, whatever the scheduler does with the tasks. -/
def handler (submit : Firing κ → σ → σ × List Notice) (rs : List (Rule κ)) : Handler σ :=
  fun e => .read fun cache => reactAll submit e cache.values rs

end HomeAutomation.Rules
