import HomeAutomation.Config.Error
import HomeAutomation.Rules.Action
import HomeAutomation.Rules.Rule
import HomeAutomation.Scheduler.Settings

/-! The configuration of a home and the checks it has to pass. -/

namespace HomeAutomation

namespace Config

inductive Effect where
  | post (id : String) (value : Option Value) (transient : Bool)
  | log (message : String)
  deriving DecidableEq

structure Rule where
  name : String
  trigger : String
  effects : List Effect
  deriving DecidableEq

def defaultLevel : String := "info"

end Config

structure Config where
  tasks : Scheduler.Settings
  level : String
  rules : List Config.Rule
  deriving DecidableEq

namespace Config

def default (processors : Nat) : Config := ⟨.default processors, defaultLevel, []⟩

def Effect.toAction {κ : Type} : Effect → Rules.Action κ
  | .post id value transient => .post id value transient
  | .log message => .log message

def Rule.action {κ : Type} (r : Rule) : Rules.Action κ :=
  .ofList (r.effects.map Effect.toAction)

def Rule.definition {κ : Type} (r : Rule) : Rules.Definition κ := ⟨r.name, r.trigger, r.action⟩

def definitions {κ : Type} (c : Config) : List (Rules.Definition κ) := c.rules.map Rule.definition

def ruleKey (index : Nat) (field : String) : String :=
  "rules[" ++ toString index ++ "]." ++ field

def Effect.isValid : Effect → Bool
  | .post id _ _ => id ≠ ""
  | .log _ => true

/-- A rule needs a name, and every event that it posts an id. -/
def Rule.validate (index : Nat) (r : Rule) : Except Error Unit :=
  if Text.allBlank r.name then
    .error (.invalidValue (ruleKey index "name") Rules.RuleError.blankReason)
  else if r.effects.all Effect.isValid then .ok ()
  else .error (.invalidValue (ruleKey index "then.post.id") Event.Error.emptyId.message)

def validateRules : Nat → List Rule → Except Error Unit
  | _, [] => .ok ()
  | index, r :: rs =>
    match r.validate index with
    | .error e => .error e
    | .ok () => validateRules (index + 1) rs

def validate (c : Config) : Except Error Unit :=
  match c.tasks.validate with
  | .error e => .error (.invalidValue "tasks" e.message)
  | .ok () => validateRules 0 c.rules

end Config

end HomeAutomation
