import HomeAutomation.Rules.Action
import HomeAutomation.Text.Printable

/-! Actions in diagnostics. Embedded code is not shown. -/

namespace HomeAutomation.Rules

open Text

def describeValue : Option Value → String
  | none => "None"
  | some (.bool b) => "Some(Bool(" ++ Value.boolText b ++ "))"
  | some (.number x) => "Some(Number(" ++ x.debugText ++ "))"
  | some (.string s) => "Some(String(" ++ debugQuoted s ++ "))"

namespace Action

variable {κ : Type}

mutual

def describe : Action κ → String
  | .post id value transient =>
    "Post \x7b id: " ++ debugQuoted id ++ ", value: " ++ describeValue value ++
      ", transient: " ++ Value.boolText transient ++ " \x7d"
  | .log message => "Log \x7b message: " ++ debugQuoted message ++ " \x7d"
  | .custom _ => "Custom(..)"
  | .sequence actions => "Sequence([" ++ ", ".intercalate (describeAll actions) ++ "])"

def describeAll : List (Action κ) → List String
  | [] => []
  | a :: as => describe a :: describeAll as

end

end Action

end HomeAutomation.Rules
