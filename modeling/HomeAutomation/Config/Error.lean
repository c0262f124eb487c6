import HomeAutomation.Files.Path

/-! Why a configuration cannot be loaded. -/

namespace HomeAutomation.Config

inductive Error where
  /-- A file that is missing or not text. -/
  | unreadable (path : Path)
  | malformed (path : Path)
  /-- YAML that is no configuration. -/
  | mismatch (path : Path)
  | secretNotFound (key : String)
  | includeNotFound (path : Path)
  | circularInclude (path : Path)
  | variableNotSet (name : String)
  | invalidValue (key reason : String)
  deriving DecidableEq

def Error.message : Error → String
  | .unreadable p => "failed to read file " ++ p.text
  | .malformed p => "failed to parse YAML in " ++ p.text
  | .mismatch p => "invalid configuration in " ++ p.text
  | .secretNotFound key => "secret '" ++ key ++ "' not found in secrets.yaml"
  | .includeNotFound p => "included file not found: " ++ p.text
  | .circularInclude p => "circular include detected: " ++ p.text
  | .variableNotSet name => "environment variable '" ++ name ++ "' not set"
  | .invalidValue key reason =>
    "invalid configuration value for '" ++ key ++ "': " ++ reason

end HomeAutomation.Config
