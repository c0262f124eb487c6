/-! The tokens of a YAML stream. Blocks that are marked by indentation alone get tokens for where
they begin and end. -/

namespace HomeAutomation.Yaml

/-- Text with escaped bytes; `none` stands for bytes that are no character. -/
abbrev Escaped := List (Option Char)

inductive Token where
  | version (major minor : Nat)
  | handle (name : String) (replacement : Escaped)
  | documentStart
  | documentEnd
  | beginSequence
  | beginMapping
  | dedent
  | openBracket
  | closeBracket
  | openBrace
  | closeBrace
  | comma
  | dash
  /-- A key follows, whether a question mark or its colon says so. -/
  | key
  | value
  | alias (name : String)
  | anchor (name : String)
  /-- A tag by its handle, empty for a verbatim one, and what follows the handle. -/
  | tag (handle : String) (suffix : Escaped)
  | scalar (text : String) (plain : Bool)
  deriving DecidableEq

end HomeAutomation.Yaml
