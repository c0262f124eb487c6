import HomeAutomation.Config.Secrets
import HomeAutomation.Text.Blank

/-! Loading YAML in which three tags stand for something else: the value of another file, a
secret, or the value of an environment variable. Only values are replaced, never keys, and what
takes the place of a secret or variable is not looked through again. -/

namespace HomeAutomation.Config

structure Sources where
  files : Files
  environment : String → Option String
  secrets : Secrets := {}
  /-- Where relative paths begin. -/
  directory : Path

inductive Access where
  | tested (path : Path)
  | opened (path : Path)
  | secret (key : String)
  | variable (name : String)
  deriving DecidableEq

structure Progress where
  loading : List Path := []
  accesses : List Access := []

/-- A step of loading. It changes the state even if it fails; without a result, files are included
deeper than some bound. -/
abbrev Load (α : Type) := ExceptT Error (StateT Progress Option) α

def fail {α : Type} (e : Error) : Load α := throw e

def ofExcept {α : Type} : Except Error α → Load α
  | .ok a => pure a
  | .error e => fail e

def note (a : Access) : Load Unit := modify fun s => { s with accesses := s.accesses ++ [a] }

/-- The first word of a text, and the rest without blanks around it unless there is no blank. -/
def splitWord (cs : List Char) : List Char × Option (List Char) :=
  match cs.dropWhile fun c => !Text.isBlank c with
  | [] => (cs, none)
  | _ :: rest => (cs.takeWhile fun c => !Text.isBlank c, some (Text.trimBlank rest))

/-- A text read as YAML, or as itself if it is not well-formed. -/
def reread (text : String) : Yaml := (Yaml.read? text).getD (.string text)

def resolveVariable (w : Sources) : Yaml → Load Yaml
  | .string text => do
    let (name, default?) := splitWord text.toList
    let name := String.ofList name
    note (.variable name)
    match (w.environment name).or (default?.map String.ofList) with
    | some text => return reread text
    | none => fail (.variableNotSet name)
  | _ => fail (.invalidValue "!env_var" "environment variable name must be a string")

def resolveSecret (w : Sources) : Yaml → Load Yaml
  | .string key => do
    note (.secret key)
    ofExcept (w.secrets.get key)
  | _ => fail (.invalidValue "!secret" "secret key must be a string")

/-- The value of a file whose path begins at the directory of the including one. -/
def resolveInclude (w : Sources) (load : Path → Load Yaml) (source : Path) : Yaml → Load Yaml
  | .string text => do
    let path := (source.parent?.getD w.directory).join (.ofText text)
    note (.tested path)
    if w.files.contains path then load path else fail (.includeNotFound path)
  | _ => fail (.invalidValue "!include" "include path must be a string")

mutual

/-- The value that YAML of some source stands for, given how files are loaded. Tags without a
meaning are kept. -/
def resolve (w : Sources) (load : Path → Load Yaml) (source : Path) : Yaml → Load Yaml
  | .tagged tag v =>
    if tag = "include" then resolveInclude w load source v
    else if tag = "secret" then resolveSecret w v
    else if tag = "env_var" then resolveVariable w v
    else do return .tagged tag (← resolve w load source v)
  | .sequence items => do return .sequence (← resolveAll w load source items)
  | .mapping entries => do return .mapping (← resolveEntries w load source entries)
  | v => pure v

def resolveAll (w : Sources) (load : Path → Load Yaml) (source : Path) :
    List Yaml → Load (List Yaml)
  | [] => pure []
  | v :: vs => do
    let v ← resolve w load source v
    return v :: (← resolveAll w load source vs)

def resolveEntries (w : Sources) (load : Path → Load Yaml) (source : Path) :
    List (Yaml × Yaml) → Load (List (Yaml × Yaml))
  | [] => pure []
  | (k, v) :: es => do
    let v ← resolve w load source v
    return (k, v) :: (← resolveEntries w load source es)

end

def loadTextWith (w : Sources) (load : Path → Load Yaml) (source : Path) (text : String) :
    Load Yaml :=
  match Yaml.read? text with
  | none => fail (.malformed source)
  | some v => resolve w load source v

def whileLoading {α : Type} (path : Path) (m : Load α) : Load α :=
  ExceptT.mk do
    modify fun s => { s with loading := path :: s.loading }
    let r ← m.run
    modify fun s => { s with loading := s.loading.filter fun p => !p.same path }
    return r

/-- The value of a file whose includes are nested at most so deep. A file that is being loaded
cannot be loaded again within. -/
def loadFile (w : Sources) : Nat → Path → Load Yaml
  | 0, _ => ExceptT.mk fun _ => none
  | depth + 1, path => do
    let path := if path.isAbsolute then path else w.directory.join path
    if (← get).loading.any path.same then fail (.circularInclude path)
    else
      note (.opened path)
      match w.files.read? path with
      | none => fail (.unreadable path)
      | some text => whileLoading path (loadTextWith w (loadFile w depth) path text)

def textSource : Path := .ofText "<string>"

def loadText (w : Sources) (depth : Nat) (text : String) : Load Yaml :=
  loadTextWith w (loadFile w depth) textSource text

def Load.result? {α : Type} (m : Load α) : Option (Except Error α) := (m.run.run {}).map Prod.fst

def loadYaml (files : Files) (environment : String → Option String) (depth : Nat)
    (directory path : Path) : Option (Except Error Yaml) :=
  match Secrets.load files directory with
  | .error e => some (.error e)
  | .ok secrets => (loadFile { files, environment, secrets, directory } depth path).result?

def loadYamlText (files : Files) (environment : String → Option String) (depth : Nat)
    (secrets : Secrets) (text : String) : Option (Except Error Yaml) :=
  (loadText { files, environment, secrets, directory := .ofText "." } depth text).result?

end HomeAutomation.Config
