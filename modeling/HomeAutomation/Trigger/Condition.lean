import HomeAutomation.Event

/-! Conditions: trees of comparisons of stable values and of matches of arriving events, and the
event ids that occur in them. -/

namespace HomeAutomation.Trigger

inductive Operator where
  | eq
  | ne
  | gt
  | lt
  | ge
  | le
  deriving DecidableEq, Repr

namespace Operator

def all : List Operator := [.eq, .ne, .gt, .lt, .ge, .le]

def symbol : Operator → String
  | .eq => "=="
  | .ne => "!="
  | .gt => ">"
  | .lt => "<"
  | .ge => ">="
  | .le => "<="

def isEquality : Operator → Bool
  | .eq | .ne => true
  | _ => false

/-- Whether the operator holds of two values in this order; `none` means that they have no
order, so that only `!=` holds. -/
def holds : Operator → Option Ordering → Bool
  | .eq, o => o == some .eq
  | .ne, o => o != some .eq
  | .gt, o => o == some .gt
  | .lt, o => o == some .lt
  | .ge, o => o == some .gt || o == some .eq
  | .le, o => o == some .lt || o == some .eq

end Operator

/-- What a comparison compares with; `unknown` asks whether there is a value at all. -/
inductive Operand where
  | unknown
  | literal (v : Value)
  deriving DecidableEq

def Operand.expectedKind? : Operand → Option Value.Kind
  | .unknown => none
  | .literal v => some v.kind

structure Comparison where
  id : String
  op : Operator
  operand : Operand
  line : Nat
  deriving DecidableEq

inductive Expr where
  | or (children : List Expr)
  | and (children : List Expr)
  | not (child : Expr)
  /-- The arrival of an event with the token's id or one below it. -/
  | transient (token : String)
  | compare (c : Comparison)

namespace Expr

instance : Inhabited Expr := ⟨.transient ""⟩

mutual

def ids : Expr → List String
  | .or es => idsAll es
  | .and es => idsAll es
  | .not e => ids e
  | .transient token => [token]
  | .compare c => [c.id]

def idsAll : List Expr → List String
  | [] => []
  | e :: es => ids e ++ idsAll es

end

mutual

def same : Expr → Expr → Bool
  | .or es, .or fs => sameAll es fs
  | .and es, .and fs => sameAll es fs
  | .not e, .not f => same e f
  | .transient s, .transient t => s == t
  | .compare c, .compare d => c == d
  | _, _ => false

def sameAll : List Expr → List Expr → Bool
  | [], [] => true
  | e :: es, f :: fs => same e f && sameAll es fs
  | _, _ => false

end

mutual

theorem same_iff : ∀ e f : Expr, same e f = true ↔ e = f
  | .or es, f => by cases f <;> simp [same, sameAll_iff es]
  | .and es, f => by cases f <;> simp [same, sameAll_iff es]
  | .not e, f => by cases f <;> simp [same, same_iff e]
  | .transient s, f => by cases f <;> simp [same]
  | .compare c, f => by cases f <;> simp [same]

theorem sameAll_iff : ∀ es fs : List Expr, sameAll es fs = true ↔ es = fs
  | [], fs => by cases fs <;> simp [sameAll]
  | e :: es, fs => by cases fs <;> simp [sameAll, same_iff e, sameAll_iff es]

end

instance : DecidableEq Expr := fun e f => decidable_of_iff (same e f = true) (same_iff e f)

end Expr

end HomeAutomation.Trigger
