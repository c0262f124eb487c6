import HomeAutomation.Config
import HomeAutomation.Yaml

/-! A configuration as YAML, with every field. -/

namespace HomeAutomation.Config

def yamlRecord (fields : List (String × Yaml)) : Yaml :=
  .mapping (fields.map fun (k, v) => (.string k, v))

def yamlValue : Option Value → Yaml
  | none => .null
  | some (.bool b) => .bool b
  | some (.number x) => .float x
  | some (.string s) => .string s

def Effect.toYaml : Effect → Yaml
  | .post id value transient =>
    yamlRecord [("post", yamlRecord
      [("id", .string id), ("value", yamlValue value), ("transient", .bool transient)])]
  | .log message => yamlRecord [("log", .string message)]

def Rule.toYaml (r : Rule) : Yaml :=
  yamlRecord [("name", .string r.name), ("when", .string r.trigger),
    ("then", .sequence (r.effects.map Effect.toYaml))]

def yamlSettings (s : Scheduler.Settings) : Yaml :=
  yamlRecord [("max_threads", .int s.maxThreads), ("system_threads", .int s.systemThreads),
    ("shutdown_timeout_secs", .int s.shutdownTimeoutSecs)]

def toYaml (c : Config) : Yaml :=
  yamlRecord [("tasks", yamlSettings c.tasks),
    ("logging", yamlRecord [("level", .string c.level)]),
    ("rules", .sequence (c.rules.map Rule.toYaml))]

end HomeAutomation.Config
