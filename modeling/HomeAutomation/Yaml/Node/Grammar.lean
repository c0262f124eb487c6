import HomeAutomation.Yaml.Node

/-! The grammar of nodes over tokens. A stream holds one document at most, and the end of the
tokens is the end of the stream. -/

namespace HomeAutomation.Yaml

inductive Place where
  | block
  /-- A key or value of a block, whose dashes need not be indented further. -/
  | entry
  | flow
  deriving DecidableEq

abbrev Handles := List (String × Escaped)

def Handles.standard : Handles :=
  [("!", [some '!']), ("!!", "tag:yaml.org,2002:".toList.map some)]

def resolveTag? (hs : Handles) (handle : String) (suffix : Escaped) : Option Escaped :=
  if handle.isEmpty then some suffix
  else (hs.lookup handle).map fun replacement => replacement ++ suffix

/-- Whether a collection goes on or ends here, so that a node in front of it is missing. -/
def atToken (ts : List Token) (among : List Token) : Bool := ts.head?.any among.contains

def entryEnds : List Token := [.key, .value, .dedent]

namespace Node

abbrev Parsed := Option (Node String × List Token)

def missing (ts : List Token) : Parsed := some (.empty {}, ts)

def orMissing (ends : List Token) (parse : List Token → Parsed) (ts : List Token) : Parsed :=
  if atToken ts ends then missing ts else parse ts

def valueOf (ends : List Token) (parse : List Token → Parsed) : List Token → Parsed
  | .value :: ts => orMissing ends parse ts
  | ts => missing ts

def bare? (p : Properties String) (ts : List Token) : Parsed :=
  if p.anchor.isSome || p.tag.isSome then some (.empty p, ts) else none

def properties? (hs : Handles) : List Token → Option (Properties String × List Token)
  | .anchor a :: .tag h s :: ts => (resolveTag? hs h s).map fun t => (⟨some a, some t⟩, ts)
  | .tag h s :: .anchor a :: ts => (resolveTag? hs h s).map fun t => (⟨some a, some t⟩, ts)
  | .anchor a :: ts => some (⟨some a, none⟩, ts)
  | .tag h s :: ts => (resolveTag? hs h s).map fun t => (⟨none, some t⟩, ts)
  | ts => some ({}, ts)

def separator? (first : Bool) : List Token → Option (List Token)
  | .comma :: ts => if first then some (.comma :: ts) else some ts
  | ts => if first then some ts else none

/-- The key of an entry without braces. Where it is missing the next token counts as part of it,
whatever it is. -/
def pairKey (parse : List Token → Parsed) : List Token → Parsed
  | .value :: ts | .comma :: ts | .closeBracket :: ts => missing ts
  | ts => parse ts

mutual

/-- A node and the tokens behind it; the number bounds the depth of the recursion. -/
def parse? (hs : Handles) : Nat → Place → List Token → Parsed
  | 0, _, _ => none
  | n + 1, place, ts =>
    match ts with
    | .alias name :: ts => some (.alias name, ts)
    | _ =>
      (properties? hs ts).bind fun (p, ts) =>
        match ts with
        | .scalar text plain :: ts => some (.scalar p text plain, ts)
        | .openBracket :: ts =>
          (flowItems? hs n true ts).map fun (items, ts) => (.sequence p items, ts)
        | .openBrace :: ts =>
          (flowEntries? hs n true ts).map fun (entries, ts) => (.mapping p entries, ts)
        | .dash :: _ =>
          if place = .entry then
            (looseItems? hs n ts).map fun (items, ts) => (.sequence p items, ts)
          else bare? p ts
        | .beginSequence :: rest =>
          if place = .flow then bare? p ts
          else (items? hs n rest).map fun (items, ts) => (.sequence p items, ts)
        | .beginMapping :: rest =>
          if place = .flow then bare? p ts
          else (entries? hs n rest).map fun (entries, ts) => (.mapping p entries, ts)
        | _ => bare? p ts

def items? (hs : Handles) : Nat → List Token → Option (List (Node String) × List Token)
  | 0, _ => none
  | n + 1, ts =>
    match ts with
    | .dedent :: ts => some ([], ts)
    | .dash :: ts =>
      (orMissing [.dash, .dedent] (parse? hs n .block) ts).bind fun (item, ts) =>
        (items? hs n ts).map fun (items, ts) => (item :: items, ts)
    | _ => none

/-- The items of a sequence that is not indented. -/
def looseItems? (hs : Handles) : Nat → List Token → Option (List (Node String) × List Token)
  | 0, _ => none
  | n + 1, ts =>
    match ts with
    | .dash :: ts =>
      (orMissing (.dash :: entryEnds) (parse? hs n .block) ts).bind fun (item, ts) =>
        (looseItems? hs n ts).map fun (items, ts) => (item :: items, ts)
    | ts => some ([], ts)

def entries? (hs : Handles) : Nat → List Token →
    Option (List (Node String × Node String) × List Token)
  | 0, _ => none
  | n + 1, ts =>
    match ts with
    | .dedent :: ts => some ([], ts)
    | .key :: ts =>
      (orMissing entryEnds (parse? hs n .entry) ts).bind fun (k, ts) =>
        (valueOf entryEnds (parse? hs n .entry) ts).bind fun (v, ts) =>
          (entries? hs n ts).map fun (entries, ts) => ((k, v) :: entries, ts)
    | _ => none

/-- The items between brackets. An item with a key is a mapping of one entry. -/
def flowItems? (hs : Handles) : Nat → Bool → List Token →
    Option (List (Node String) × List Token)
  | 0, _, _ => none
  | n + 1, first, ts =>
    match ts with
    | .closeBracket :: ts => some ([], ts)
    | _ =>
      (separator? first ts).bind fun ts =>
        match ts with
        | .closeBracket :: ts => some ([], ts)
        | .key :: ts =>
          (pairKey (parse? hs n .flow) ts).bind fun (k, ts) =>
            (valueOf [.comma, .closeBracket] (parse? hs n .flow) ts).bind fun (v, ts) =>
              (flowItems? hs n false ts).map fun (items, ts) =>
                (.mapping {} [(k, v)] :: items, ts)
        | _ =>
          (parse? hs n .flow ts).bind fun (item, ts) =>
            (flowItems? hs n false ts).map fun (items, ts) => (item :: items, ts)

/-- The entries between braces. A node without a key sign is a key without a value. -/
def flowEntries? (hs : Handles) : Nat → Bool → List Token →
    Option (List (Node String × Node String) × List Token)
  | 0, _, _ => none
  | n + 1, first, ts =>
    match ts with
    | .closeBrace :: ts => some ([], ts)
    | _ =>
      (separator? first ts).bind fun ts =>
        match ts with
        | .closeBrace :: ts => some ([], ts)
        | .key :: ts =>
          (orMissing [.value, .comma, .closeBrace] (parse? hs n .flow) ts).bind fun (k, ts) =>
            (valueOf [.comma, .closeBrace] (parse? hs n .flow) ts).bind fun (v, ts) =>
              (flowEntries? hs n false ts).map fun (entries, ts) => ((k, v) :: entries, ts)
        | _ =>
          (parse? hs n .flow ts).bind fun (k, ts) =>
            (flowEntries? hs n false ts).map fun (entries, ts) => ((k, .empty {}) :: entries, ts)

end

end Node

/-- The directives at the head: at most one version, which is 1.1 or 1.2, and no handle twice. -/
def directives? : List Token → Option (Handles × Bool × List Token)
  | .version major minor :: ts =>
    (directives? ts).bind fun (hs, versioned, ts) =>
      if versioned || major ≠ 1 || (minor ≠ 1 && minor ≠ 2) then none else some (hs, true, ts)
  | .handle name replacement :: ts =>
    (directives? ts).bind fun (hs, versioned, ts) =>
      if hs.any fun (other, _) => other = name then none
      else some ((name, replacement) :: hs, versioned, ts)
  | ts => some ([], false, ts)

def endsDocument : List Token → Bool
  | [] | .version _ _ :: _ | .handle _ _ :: _ | .documentStart :: _ | .documentEnd :: _ => true
  | _ => false

def document? (ts : List Token) : Option (Option (Node String)) := do
  let bound := 4 * (ts.length + 1)
  let (hs, versioned, rest) ← directives? ts
  let finish (node : Node String) (ts : List Token) : Option (Option (Node String)) :=
    if ts.all (· = .documentEnd) then some (some node) else none
  match rest with
  | .documentStart :: rest =>
    if endsDocument rest then finish (.empty {}) rest
    else
      let (node, rest) ← Node.parse? (hs ++ .standard) bound .block rest
      finish node rest
  | _ =>
    if versioned || !hs.isEmpty then none
    else if rest.isEmpty then some none
    else
      let (node, rest) ← Node.parse? .standard bound .block rest
      finish node rest

end HomeAutomation.Yaml
