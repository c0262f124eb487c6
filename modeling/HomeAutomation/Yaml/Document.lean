import HomeAutomation.Yaml.Node.Grammar
import HomeAutomation.Yaml.Scalar
import HomeAutomation.Yaml.Token.Lexer

/-! Reading a text as a YAML value. Aliases are replaced by what they stand for, within bounds on
their number and on the depth of the value. -/

namespace HomeAutomation.Yaml

structure Document where
  root : Node Nat
  anchored : List (Nat × Node Nat)

namespace Document

/-- The node that an alias stands for: the last to have its number. -/
def target? (d : Document) (n : Nat) : Option (Node Nat) := d.anchored.reverse.lookup n

def aliasLimit (d : Document) : Nat := 100 * d.root.size

def depthLimit : Nat := 128

/-- The document of a text, if the text is well-formed; there may be none. -/
def read? (text : String) : Option (Option Document) :=
  (tokens? text).bind fun ts =>
    (document? ts).bind fun node? =>
      match node? with
      | none => some none
      | some node => (node.number? []).map fun (root, _) => some ⟨root, root.anchored⟩

/-- The node itself or what it stands for, with how many aliases may still be replaced. -/
def follow? (d : Document) (left : Nat) : Node Nat → Option (Node Nat × Nat)
  | .alias n =>
    match left with
    | 0 => none
    | left + 1 => (d.target? n).map fun node => (node, left)
  | node => some (node, left)

/-- A tag without its exclamation mark, unless the mark is all of it. -/
def afterMark : List Char → List Char
  | '!' :: c :: cs => c :: cs
  | cs => cs

/-- The name of a tag of the document's own, without up to two exclamation marks. A tag with bytes
that are no character has none. -/
def localTag? (tag : Option Escaped) : Option String :=
  match tag with
  | some (some '!' :: name) =>
    (name.mapM id).map fun cs => String.ofList (afterMark (afterMark ('!' :: cs)))
  | _ => none

def scalar? (tag : Option Escaped) (text : String) (plain : Bool) : Option Yaml :=
  let byForm := if plain then readPlain? text else some (.string text)
  match tag with
  | none => byForm
  | some (some '!' :: _) => byForm
  | some t =>
    match t.mapM id with
    | some cs => readTagged? (String.ofList cs) text
    | none => some (.string text)

/-- Values with how many aliases may still be replaced. -/
abbrev Valued (α : Type) := Option (α × Nat)

def valuesWith (value : Nat → Node Nat → Valued Yaml) : Nat → List (Node Nat) → Valued (List Yaml)
  | left, [] => some ([], left)
  | left, n :: ns =>
    (value left n).bind fun (v, left) =>
      (valuesWith value left ns).map fun (vs, left) => (v :: vs, left)

/-- The entries of a mapping; no two keys are the same. `seen` are the keys so far. -/
def entriesWith (value : Nat → Node Nat → Valued Yaml) :
    Nat → List Yaml → List (Node Nat × Node Nat) → Valued (List (Yaml × Yaml))
  | left, _, [] => some ([], left)
  | left, seen, (k, v) :: rest =>
    (value left k).bind fun (k, left) =>
      if seen.any (same k) then none
      else
        (value left v).bind fun (v, left) =>
          (entriesWith value left (k :: seen) rest).map fun (es, left) => ((k, v) :: es, left)

def wrap (tag : Option Escaped) (v : Yaml) : Yaml :=
  match localTag? tag with
  | some name => .tagged name v
  | none => v

/-- The value of a node that is no alias, given the values of the nodes in a collection, if it may
be one. -/
def valueWith (inner? : Option (Nat → Node Nat → Valued Yaml)) (left : Nat) : Node Nat → Valued Yaml
  | .alias _ => none
  | .scalar p text plain => (scalar? p.tag text plain).map fun v => (wrap p.tag v, left)
  | .sequence p items =>
    inner?.bind fun value =>
      (valuesWith value left items).map fun (vs, left) => (wrap p.tag (.sequence vs), left)
  | .mapping p entries =>
    inner?.bind fun value =>
      (entriesWith value left [] entries).map fun (es, left) => (wrap p.tag (.mapping es), left)

/-- The value of a node that may contain collections this deep. -/
def value? (d : Document) : Nat → Nat → Node Nat → Valued Yaml
  | 0, left, node => (d.follow? left node).bind fun (target, left) => valueWith none left target
  | depth + 1, left, node =>
    (d.follow? left node).bind fun (target, left) => valueWith (some (value? d depth)) left target

/-- The text of a key, whatever its tag or type. -/
def keyText (d : Document) (left : Nat) (k : Node Nat) : Valued String :=
  (d.follow? left k).bind fun (target, left) =>
    match target with
    | .scalar _ text _ => some (text, left)
    | _ => none

def membersWith (d : Document) (value : Nat → Node Nat → Valued Yaml) :
    Nat → List (Node Nat × Node Nat) → Valued (List (String × Yaml))
  | left, [] => some ([], left)
  | left, (k, v) :: rest =>
    (keyText d left k).bind fun (k, left) =>
      (value left v).bind fun (v, left) =>
        (membersWith d value left rest).map fun (ms, left) => ((k, v) :: ms, left)

/-- The entries of the mapping that is the document; a plain scalar without text has none. -/
def members? (d : Document) : Option (List (String × Yaml)) :=
  match d.root with
  | .mapping _ entries =>
    (membersWith d (d.value? (depthLimit - 1)) d.aliasLimit entries).map Prod.fst
  | .scalar _ text plain => if plain && text.isEmpty then some [] else none
  | _ => none

end Document

def read? (text : String) : Option Yaml :=
  (Document.read? text).bind fun d? =>
    match d? with
    | none => some .null
    | some d => (d.value? Document.depthLimit d.aliasLimit d.root).map Prod.fst

/-- A document that is one scalar without an anchor. -/
theorem read?_scalar {source text : String} {ts : List Token} {tag : Option Escaped} {plain : Bool}
    {v : Yaml} (hts : tokens? source = some ts)
    (hnode : document? ts = some (some (.scalar ⟨none, tag⟩ text plain)))
    (hv : Document.scalar? tag text plain = some v) :
    read? source = some (Document.wrap tag v) := by
  have hdoc : Document.read? source = some (some ⟨.scalar ⟨none, tag⟩ text plain, []⟩) := by
    rw [Document.read?, hts, Option.bind_some, hnode]
    rfl
  rw [read?, hdoc, Option.bind_some]
  change ((Document.scalar? tag text plain).map fun v => (Document.wrap tag v, _)).map Prod.fst = _
  rw [hv]
  rfl

def readMembers? (text : String) : Option (List (String × Yaml)) :=
  (Document.read? text).bind fun d? =>
    match d? with
    | none => some []
    | some d => d.members?

end HomeAutomation.Yaml
