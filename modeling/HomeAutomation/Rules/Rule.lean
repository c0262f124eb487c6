import HomeAutomation.Rules.Action
import HomeAutomation.Text.Blank
import HomeAutomation.Trigger.Eval

/-! Rules, and loading a list of definitions. A definition that does not compile, has a blank
name or repeats the name of a loaded rule is reported and left out. -/

namespace HomeAutomation.Rules

open Trigger

structure Definition (κ : Type) where
  name : String
  trigger : String
  action : Action κ

structure Rule (κ : Type) where
  name : String
  trigger : Condition
  action : Action κ

inductive RuleError where
  | compile (rule : String) (error : CompileError)
  | duplicate (rule : String)
  | blankName (rule : String)
  deriving DecidableEq

namespace RuleError

def rule : RuleError → String
  | .compile r _ | .duplicate r | .blankName r => r

def blankReason : String := "rule name must not be empty"

def message : RuleError → String
  | .compile r e => "rule '" ++ r ++ "': " ++ e.text
  | .duplicate r => "duplicate rule name: " ++ r
  | .blankName r => "invalid rule '" ++ r ++ "': " ++ blankReason

def notice : RuleError → Notice
  | .duplicate r => .duplicateRule r
  | e => .ruleRejected e.rule e.message

end RuleError

variable {κ : Type}

def Definition.compile (d : Definition κ) : Except RuleError (Rule κ) :=
  if Text.allBlank d.name then .error (.blankName d.name)
  else
    match Trigger.compile d.trigger with
    | .error e => .error (.compile d.name e)
    | .ok trigger => .ok ⟨d.name, trigger, d.action⟩

/-- What becomes of each definition, in order, given the names that are loaded already. -/
def verdicts (loaded : List String) : List (Definition κ) → List (Except RuleError (Rule κ))
  | [] => []
  | d :: ds =>
    if loaded.contains d.name then .error (.duplicate d.name) :: verdicts loaded ds
    else
      match d.compile with
      | .error e => .error e :: verdicts loaded ds
      | .ok r => .ok r :: verdicts (r.name :: loaded) ds

structure Loaded (κ : Type) where
  rules : List (Rule κ)
  errors : List RuleError

def load (ds : List (Definition κ)) : Loaded κ :=
  let vs := verdicts [] ds
  ⟨vs.filterMap Except.toOption, vs.filterMap fun v =>
    match v with
    | .error e => some e
    | .ok _ => none⟩

namespace Loaded

def notices (l : Loaded κ) : List Notice :=
  l.errors.map RuleError.notice ++ [.rulesLoaded l.rules.length l.errors.length]

def get? (l : Loaded κ) (name : String) : Option (Rule κ) :=
  l.rules.find? fun r => r.name == name

end Loaded

end HomeAutomation.Rules
