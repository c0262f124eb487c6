import HomeAutomation.Config
import HomeAutomation.Config.Loader

/-! Reading a configuration from YAML. A record is a mapping from the names of its fields, and
other names are ignored; a list, a text, a number and a record may stand under any tag. -/

namespace HomeAutomation.Config.Reader

/-- The fields of a record. Null is a record without fields; keys have to be text. -/
def fields? (y : Yaml) : Option (List (String × Yaml)) :=
  match y.untagged with
  | .null => some []
  | .mapping entries => entries.mapM fun (k, v) =>
    match k.untagged with
    | .string name => some (name, v)
    | _ => none
  | _ => none

/-- The values of a field; more than one is an error. -/
def field? (fields : List (String × Yaml)) (name : String) : Option (Option Yaml) :=
  match fields.filter fun (k, _) => k = name with
  | [] => some none
  | [(_, v)] => some (some v)
  | _ => none

def fieldOr? {α : Type} (fields : List (String × Yaml)) (name : String) (absent : α)
    (read? : Yaml → Option α) : Option α :=
  (field? fields name).bind fun v? =>
    match v? with
    | none => some absent
    | some v => read? v

def required? {α : Type} (fields : List (String × Yaml)) (name : String)
    (read? : Yaml → Option α) : Option α :=
  (field? fields name).bind fun v? => v?.bind read?

def text? (y : Yaml) : Option String :=
  match y.untagged with
  | .string s => some s
  | _ => none

def natural? (y : Yaml) : Option Nat :=
  match y.untagged with
  | .int (.ofNat n) => some n
  | _ => none

def list? {α : Type} (read? : Yaml → Option α) (y : Yaml) : Option (List α) :=
  match y.untagged with
  | .null => some []
  | .sequence items => items.mapM read?
  | _ => none

mutual

def isPlain : Yaml → Bool
  | .tagged _ _ => false
  | .sequence items => areAllPlain items
  | .mapping entries => areEntriesPlain entries
  | _ => true

def areAllPlain : List Yaml → Bool
  | [] => true
  | v :: vs => isPlain v && areAllPlain vs

def areEntriesPlain : List (Yaml × Yaml) → Bool
  | [] => true
  | (k, v) :: es => isPlain k && isPlain v && areEntriesPlain es

end

/-- The field of an action or of a post by its key: a name, or the place of the name among all. -/
def fieldName? (names : List String) : Yaml → Option (Option String)
  | .string s => some (if names.contains s then some s else none)
  | .int (.ofNat n) => some names[n]?
  | _ => none

def namedFields? (names : List String) : List (Yaml × Yaml) → Option (List (String × Yaml))
  | [] => some []
  | (k, v) :: es =>
    match fieldName? names k, namedFields? names es with
    | some (some name), some fields => some ((name, v) :: fields)
    | some none, some fields => some fields
    | _, _ => none

def plainText? : Yaml → Option String
  | .string s => some s
  | _ => none

def bool? : Yaml → Option Bool
  | .bool b => some b
  | _ => none

def value? : Yaml → Option (Option Value)
  | .null => some none
  | .bool b => some (some (.bool b))
  | .int i => some (some (.number (.ofInt i)))
  | .float x => some (some (.number x))
  | .string s => some (some (.string s))
  | _ => none

/-- What a post is configured by: its id, value and kind, by name or in this order. -/
def post? : Yaml → Option Effect
  | .mapping entries => do
    let fields ← namedFields? ["id", "value", "transient"] entries
    let id ← required? fields "id" plainText?
    let value ← fieldOr? fields "value" none value?
    let transient ← fieldOr? fields "transient" false bool?
    return .post id value transient
  | .sequence [id] => do return .post (← plainText? id) none false
  | .sequence [id, value] => do return .post (← plainText? id) (← value? value) false
  | .sequence [id, value, transient] => do
    return .post (← plainText? id) (← value? value) (← bool? transient)
  | _ => none

/-- An action: a post if it can be read as one, and else a message to log. -/
def effect? (y : Yaml) : Option Effect :=
  if !isPlain y then none
  else
    match y with
    | .mapping entries =>
      ((namedFields? ["post"] entries).bind fun fields => required? fields "post" post?).or
        ((namedFields? ["log"] entries).bind fun fields =>
          (required? fields "log" plainText?).map .log)
    | _ => none

def rule? (y : Yaml) : Option Rule := do
  let fields ← fields? y
  let name ← required? fields "name" text?
  let trigger ← required? fields "when" text?
  let effects ← fieldOr? fields "then" [] (list? effect?)
  return ⟨name, trigger, effects⟩

def settings? (absent : Scheduler.Settings) (y : Yaml) : Option Scheduler.Settings := do
  let fields ← fields? y
  let maxThreads ← fieldOr? fields "max_threads" absent.maxThreads natural?
  let systemThreads ← fieldOr? fields "system_threads" absent.systemThreads natural?
  let timeout ← fieldOr? fields "shutdown_timeout_secs" absent.shutdownTimeoutSecs natural?
  return ⟨maxThreads, systemThreads, timeout⟩

def level? (y : Yaml) : Option String := do
  let fields ← fields? y
  fieldOr? fields "level" defaultLevel text?

/-- The configuration that YAML stands for, where `absent` is what is not configured. -/
def config? (absent : Config) (y : Yaml) : Option Config := do
  let fields ← fields? y
  let tasks ← fieldOr? fields "tasks" absent.tasks (settings? absent.tasks)
  let level ← fieldOr? fields "logging" absent.level level?
  let rules ← fieldOr? fields "rules" absent.rules (list? rule?)
  return ⟨tasks, level, rules⟩

end Reader

def unquotedReason (tag : String) : String :=
  "read as YAML tag '" ++ Yaml.tagText tag ++ "'; quote triggers starting with '!'"

def checkTriggers : Nat → List Yaml → Except Error Unit
  | _, [] => .ok ()
  | index, rule :: rules =>
    match rule.get? "when" with
    | some (.tagged tag _) => .error (.invalidValue (ruleKey index "when") (unquotedReason tag))
    | _ => checkTriggers (index + 1) rules

/-- Looks for a trigger that lost its exclamation mark, whatever tags are around it. -/
def checkUnquoted (y : Yaml) : Except Error Unit :=
  match (y.get? "rules").map Yaml.untagged with
  | some (.sequence rules) => checkTriggers 0 rules
  | _ => .ok ()

def ofYaml (processors : Nat) (source : Path) (y : Yaml) : Except Error Config := do
  checkUnquoted y
  match Reader.config? (.default processors) y with
  | none => throw (.mismatch source)
  | some c =>
    c.validate
    return c

def ofText (processors depth : Nat) (files : Files) (environment : String → Option String)
    (text : String) : Option (Except Error Config) :=
  (loadYamlText files environment depth {} text).map fun r => r.bind (ofYaml processors textSource)

/-- The configuration in a file. Its secrets, and its own path again, are taken from the directory
it is in. -/
def load (processors depth : Nat) (files : Files) (environment : String → Option String)
    (path : Path) : Option (Except Error Config) :=
  let directory := path.parent?.getD (.ofText ".")
  (loadYaml files environment depth directory path).map fun r => r.bind (ofYaml processors path)

end HomeAutomation.Config
