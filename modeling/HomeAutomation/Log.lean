/-! What is written to the log, by cause; the wording of a line and its fields follow from it. -/

namespace HomeAutomation

inductive Level where
  | info
  | warn
  | error
  deriving DecidableEq, Repr

def Level.name : Level → String
  | .info => "info"
  | .warn => "warn"
  | .error => "error"

inductive Notice where
  | listenerFailed (id : Nat) (listener event error : String)
  | listenerPanicked (id : Nat) (listener event panic : String)
  | busShutDown (listeners : Nat)
  | duplicateRule (rule : String)
  | ruleRejected (rule error : String)
  | rulesLoaded (loaded failed : Nat)
  | triggerFailed (rule event error : String)
  | ruleMessage (rule trigger message : String)
  | taskFailed (task error : String)
  | taskPanicked (task panic : String)
  | taskRejected (task : String)
  | shutdownTimedOut (remaining : Nat)
  | ruleNotLoaded (rule error : String)
  deriving DecidableEq

namespace Notice

def level : Notice → Level
  | .busShutDown _ | .rulesLoaded _ _ | .ruleMessage _ _ _ => .info
  | .duplicateRule _ | .ruleRejected _ _ | .triggerFailed _ _ _ | .taskRejected _
  | .shutdownTimedOut _ => .warn
  | .listenerFailed _ _ _ _ | .listenerPanicked _ _ _ _ | .taskFailed _ _ | .taskPanicked _ _
  | .ruleNotLoaded _ _ => .error

def message : Notice → String
  | .listenerFailed _ _ _ _ => "Listener failed to handle event"
  | .listenerPanicked _ _ _ _ => "Listener panicked while handling event"
  | .busShutDown _ => "Event bus shut down"
  | .duplicateRule _ => "Skipping rule with duplicate name"
  | .ruleRejected _ _ => "Skipping rule that failed to compile"
  | .rulesLoaded _ _ => "Loaded rules"
  | .triggerFailed _ _ _ => "Rule trigger failed"
  | .ruleMessage _ _ message => message
  | .taskFailed _ _ => "Task failed"
  | .taskPanicked _ _ => "Task panicked"
  | .taskRejected _ => "Rejecting task, scheduler is shut down"
  | .shutdownTimedOut _ => "Shutdown timeout expired with tasks still running"
  | .ruleNotLoaded _ _ => "Rule not loaded"

def fields : Notice → List (String × String)
  | .listenerFailed id listener event error =>
    [("listener_id", toString id), ("listener", listener), ("event_id", event), ("error", error)]
  | .listenerPanicked id listener event panic =>
    [("listener_id", toString id), ("listener", listener), ("event_id", event), ("panic", panic)]
  | .busShutDown n => [("listeners", toString n)]
  | .duplicateRule rule => [("rule", rule)]
  | .ruleRejected rule error => [("rule", rule), ("error", error)]
  | .rulesLoaded loaded failed => [("loaded", toString loaded), ("failed", toString failed)]
  | .triggerFailed rule event error => [("rule", rule), ("event", event), ("error", error)]
  | .ruleMessage rule trigger _ => [("rule", rule), ("trigger", trigger)]
  | .taskFailed task error => [("task", task), ("error", error)]
  | .taskPanicked task panic => [("task", task), ("panic", panic)]
  | .taskRejected task => [("task", task)]
  | .shutdownTimedOut n => [("remaining", toString n)]
  | .ruleNotLoaded rule error => [("rule", rule), ("error", error)]

end Notice

end HomeAutomation
