import HomeAutomation.Trigger.Condition

/-! The canonical text of a condition. Parentheses stand around a disjunction inside any other
group, a conjunction inside a conjunction or a negation, and a negation inside a negation. -/

namespace HomeAutomation.Trigger

def Operand.chars : Operand → List Char
  | .unknown => "unknown".toList
  | .literal v => v.literal

def Comparison.chars (c : Comparison) : List Char :=
  c.id.toList ++ ' ' :: c.op.symbol.toList ++ ' ' :: c.operand.chars

namespace Expr

def wrap (group : Bool) (cs : List Char) : List Char :=
  if group then '(' :: cs ++ [')'] else cs

/-- Whether an operand of a disjunction needs parentheses. -/
def isOr : Expr → Bool
  | .or _ => true
  | _ => false

/-- Whether an operand of a conjunction needs parentheses. -/
def isOrAnd : Expr → Bool
  | .or _ | .and _ => true
  | _ => false

/-- Whether the operand of a negation needs parentheses. -/
def isOrAndNot : Expr → Bool
  | .or _ | .and _ | .not _ => true
  | _ => false

mutual

def chars : Expr → List Char
  | .or es => disjuncts es
  | .and es => conjuncts es
  | .not e => '!' :: wrap e.isOrAndNot (chars e)
  | .transient token => token.toList
  | .compare c => c.chars

def disjuncts : List Expr → List Char
  | [] => []
  | [e] => wrap e.isOr (chars e)
  | e :: es => wrap e.isOr (chars e) ++ ' ' :: '|' :: ' ' :: disjuncts es

def conjuncts : List Expr → List Char
  | [] => []
  | [e] => wrap e.isOrAnd (chars e)
  | e :: es => wrap e.isOrAnd (chars e) ++ ' ' :: '&' :: ' ' :: conjuncts es

end

def text (e : Expr) : String := String.ofList e.chars

end Expr

end HomeAutomation.Trigger
