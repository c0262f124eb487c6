import HomeAutomation.Event
import HomeAutomation.Failure
import HomeAutomation.Log

/-! What a rule does when it fires. An action is carried out in surroundings that can post, log
and run embedded code; a sequence stops at the first failure, and where its task is asked to
stop. -/

namespace HomeAutomation.Rules

inductive Action (κ : Type) where
  | post (id : String) (value : Option Value) (transient : Bool)
  | log (message : String)
  | custom (code : κ)
  | sequence (actions : List (Action κ))

structure Surroundings (κ ω : Type) where
  post : Event → ω → ω
  log : Notice → ω → ω
  isInterrupted : ω → Bool
  custom : κ → Event → ω → Outcome × ω

namespace Action

variable {κ ω : Type}

instance : Inhabited (Action κ) := ⟨.sequence []⟩

def postFailure (rule id : String) (e : Event.Error) : Failure :=
  ⟨["rule '" ++ rule ++ "' cannot post '" ++ id ++ "'", e.message]⟩

mutual

def execute (w : Surroundings κ ω) (rule : String) (trigger : Event) :
    Action κ → ω → Outcome × ω
  | .post id value transient, s =>
    match Event.make .rules id (!transient) value with
    | .error e => (.failure (postFailure rule id e), s)
    | .ok e => (.success, w.post e s)
  | .log message, s => (.success, w.log (.ruleMessage rule trigger.id message) s)
  | .custom code, s => w.custom code trigger s
  | .sequence actions, s => executeAll w rule trigger actions s

def executeAll (w : Surroundings κ ω) (rule : String) (trigger : Event) :
    List (Action κ) → ω → Outcome × ω
  | [], s => (.success, s)
  | a :: as, s =>
    if w.isInterrupted s then (.success, s)
    else
      match execute w rule trigger a s with
      | (.success, s) => executeAll w rule trigger as s
      | r => r

end

def ofList : List (Action κ) → Action κ
  | [a] => a
  | as => .sequence as

end Action

end HomeAutomation.Rules
