import HomeAutomation.Config.Error
import HomeAutomation.Files
import HomeAutomation.Yaml.Document

/-! Values that a configuration refers to by name. They are kept in a file of their own, and keep
the types they have there. -/

namespace HomeAutomation.Config

structure Secrets where
  entries : List (String × Yaml) := []

namespace Secrets

def insert (s : Secrets) (key : String) (value : Yaml) : Secrets :=
  ⟨(key, value) :: s.entries.filter fun (k, _) => k ≠ key⟩

/-- Of several secrets under one key the last is kept. -/
def ofList (entries : List (String × Yaml)) : Secrets :=
  entries.foldl (fun s (k, v) => s.insert k v) {}

def size (s : Secrets) : Nat := s.entries.length

def isEmpty (s : Secrets) : Bool := s.entries.isEmpty

def get? (s : Secrets) (key : String) : Option Yaml := s.entries.lookup key

def get (s : Secrets) (key : String) : Except Error Yaml :=
  match s.get? key with
  | some v => .ok v
  | none => .error (.secretNotFound key)

def fileName : Path := .ofText "secrets.yaml"

def load (fs : Files) (directory : Path) : Except Error Secrets :=
  let path := directory.join fileName
  if !fs.contains path then .ok {}
  else
    match fs.read? path with
    | none => .error (.unreadable path)
    | some text =>
      match Yaml.readMembers? text with
      | none => .error (.malformed path)
      | some entries => .ok (ofList entries)

end Secrets

end HomeAutomation.Config
