import HomeAutomation.Yaml.Token

/-! The nodes of a document. `ι` is what an alias names its target by: a text as written, or a
number. -/

namespace HomeAutomation.Yaml

structure Properties (ι : Type) where
  anchor : Option ι := none
  tag : Option Escaped := none

inductive Node (ι : Type) where
  | alias (target : ι)
  | scalar (properties : Properties ι) (text : String) (plain : Bool)
  | sequence (properties : Properties ι) (items : List (Node ι))
  | mapping (properties : Properties ι) (entries : List (Node ι × Node ι))

namespace Node

variable {ι : Type}

instance [Inhabited ι] : Inhabited (Node ι) := ⟨.alias default⟩

def empty (p : Properties ι) : Node ι := .scalar p "" true

def properties : Node ι → Properties ι
  | .alias _ => {}
  | .scalar p _ _ | .sequence p _ | .mapping p _ => p

mutual

/-- The anchored nodes in the order in which they begin, by their anchors. -/
def anchored : Node ι → List (ι × Node ι)
  | .alias _ => []
  | .scalar p text plain => (p.anchor.map fun a => (a, .scalar p text plain)).toList
  | .sequence p items =>
    (p.anchor.map fun a => (a, .sequence p items)).toList ++ anchoredAll items
  | .mapping p entries =>
    (p.anchor.map fun a => (a, .mapping p entries)).toList ++ anchoredEntries entries

def anchoredAll : List (Node ι) → List (ι × Node ι)
  | [] => []
  | n :: ns => anchored n ++ anchoredAll ns

def anchoredEntries : List (Node ι × Node ι) → List (ι × Node ι)
  | [] => []
  | (k, v) :: es => anchored k ++ anchored v ++ anchoredEntries es

end

mutual

/-- The number of scalars, aliases, and beginnings and ends of collections. -/
def size : Node ι → Nat
  | .alias _ | .scalar _ _ _ => 1
  | .sequence _ items => 2 + sizeAll items
  | .mapping _ entries => 2 + sizeEntries entries

def sizeAll : List (Node ι) → Nat
  | [] => 0
  | n :: ns => size n + sizeAll ns

def sizeEntries : List (Node ι × Node ι) → Nat
  | [] => 0
  | (k, v) :: es => size k + size v + sizeEntries es

end

/-- The numbers of the anchors so far. An anchor gets the number of names before it; a name that
is used again replaces its number and counts once, so two anchors may share a number. -/
abbrev Numbers := List (String × Nat)

def numberAnchor (ns : Numbers) (p : Properties String) : Properties Nat × Numbers :=
  match p.anchor with
  | none => (⟨none, p.tag⟩, ns)
  | some a => (⟨some ns.length, p.tag⟩, (a, ns.length) :: ns.filter fun (b, _) => b ≠ a)

mutual

/-- Names targets by numbers, in the order of the document. An alias needs an anchor before it. -/
def number? (ns : Numbers) : Node String → Option (Node Nat × Numbers)
  | .alias name => (ns.lookup name).map fun n => (.alias n, ns)
  | .scalar p text plain =>
    let (p, ns) := numberAnchor ns p
    some (.scalar p text plain, ns)
  | .sequence p items =>
    let (p, ns) := numberAnchor ns p
    (numberAll? ns items).map fun (items, ns) => (.sequence p items, ns)
  | .mapping p entries =>
    let (p, ns) := numberAnchor ns p
    (numberEntries? ns entries).map fun (entries, ns) => (.mapping p entries, ns)

def numberAll? (ns : Numbers) : List (Node String) → Option (List (Node Nat) × Numbers)
  | [] => some ([], ns)
  | n :: rest =>
    (number? ns n).bind fun (n, ns) =>
      (numberAll? ns rest).map fun (rest, ns) => (n :: rest, ns)

def numberEntries? (ns : Numbers) :
    List (Node String × Node String) → Option (List (Node Nat × Node Nat) × Numbers)
  | [] => some ([], ns)
  | (k, v) :: rest =>
    (number? ns k).bind fun (k, ns) =>
      (number? ns v).bind fun (v, ns) =>
        (numberEntries? ns rest).map fun (rest, ns) => ((k, v) :: rest, ns)

end

end Node

end HomeAutomation.Yaml
