/-! How a callback or a task ends: well, with a chain of errors, or by a panic. -/

namespace HomeAutomation

inductive Panic where
  | text (s : String)
  | other
  deriving DecidableEq

def Panic.message : Panic → String
  | .text s => s
  | .other => "unknown panic"

/-- An error and the errors behind it, outermost first. -/
structure Failure where
  chain : List String
  deriving DecidableEq

def Failure.message (f : Failure) : String := ": ".intercalate f.chain

inductive Outcome where
  | success
  | failure (f : Failure)
  | panic (p : Panic)
  deriving DecidableEq

end HomeAutomation
