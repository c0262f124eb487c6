import HomeAutomation.Trigger.Canonical
import HomeAutomation.Trigger.Lexer
import HomeAutomation.Trigger.Parser

/-! Compiling a trigger: its source becomes tokens, and these become a condition. -/

namespace HomeAutomation.Trigger

inductive CompileError where
  | lexical (fault : Lexer.Fault) (position : Position)
  | grammatical (fault : Parser.Fault)
  deriving DecidableEq

namespace CompileError

def position : CompileError → Position
  | .lexical _ p => p
  | .grammatical f => (f.token?.map Token.position).getD .start

def message : CompileError → String
  | .lexical f _ => f.message
  | .grammatical f => f.message

def text (e : CompileError) : String :=
  "line " ++ toString e.position.line ++ ":" ++ toString e.position.column ++ ": " ++ e.message

end CompileError

def tokenize (source : String) : Except CompileError (List Token) :=
  match Lexer.tokens .start source.toList with
  | .error (fault, p) => .error (.lexical fault p)
  | .ok ts => .ok ts

structure Condition where
  source : String
  root : Expr

def compile (source : String) : Except CompileError Condition :=
  match tokenize source with
  | .error e => .error e
  | .ok ts =>
    match Parser.parse ts with
    | .error f => .error (.grammatical f)
    | .ok root => .ok ⟨source, root⟩

namespace Condition

def text (c : Condition) : String := c.root.text

def ids (c : Condition) : List String := c.root.ids

end Condition

end HomeAutomation.Trigger
