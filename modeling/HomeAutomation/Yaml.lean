import HomeAutomation.Number.Double

/-! YAML values. Mappings keep the order of their entries, and no two of their keys are the same
value. -/

namespace HomeAutomation

inductive Yaml where
  | null
  | bool (b : Bool)
  | int (i : Int)
  | float (x : Double)
  | string (s : String)
  | sequence (items : List Yaml)
  | mapping (entries : List (Yaml × Yaml))
  /-- A value under a tag of its document; the tag is kept without its exclamation mark. -/
  | tagged (tag : String) (value : Yaml)

namespace Yaml

instance : Inhabited Yaml := ⟨.null⟩

/-- Equality of floats as keys: the zeros agree, and so does every not-a-number. -/
def sameFloat (x y : Double) : Bool := x.same y || (x = .nan && y = .nan)

mutual

/-- Equality of keys. An integer is no float, and the order of a mapping does not matter. -/
def same : Yaml → Yaml → Bool
  | .null, .null => true
  | .bool a, .bool b => a = b
  | .int a, .int b => a = b
  | .float a, .float b => sameFloat a b
  | .string a, .string b => a = b
  | .sequence as, .sequence bs => sameAll as bs
  | .mapping as, .mapping bs => as.length = bs.length && within as bs
  | .tagged t a, .tagged u b => t = u && same a b
  | _, _ => false

def sameAll : List Yaml → List Yaml → Bool
  | [], [] => true
  | a :: as, b :: bs => same a b && sameAll as bs
  | _, _ => false

def within : List (Yaml × Yaml) → List (Yaml × Yaml) → Bool
  | [], _ => true
  | (k, v) :: as, bs => bs.any (fun (l, w) => same k l && same v w) && within as bs

end

def tagText (tag : String) : String := "!" ++ tag

def untagged : Yaml → Yaml
  | .tagged _ v => untagged v
  | v => v

def find? (entries : List (Yaml × Yaml)) (key : String) : Option Yaml :=
  match entries with
  | [] => none
  | (.string k, v) :: rest => if k = key then some v else find? rest key
  | _ :: rest => find? rest key

def get? (y : Yaml) (key : String) : Option Yaml :=
  match y.untagged with
  | .mapping entries => find? entries key
  | _ => none

end Yaml

end HomeAutomation
