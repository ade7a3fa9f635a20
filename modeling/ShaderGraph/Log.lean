import ShaderGraph.Text.Quoted

/-!
# Log lines

A compilation reports its progress as entries: a level, a message and named attributes. An entry is
written as one line of `key=value` words.
-/

namespace ShaderGraph

/-- The severity of a log entry; higher is more severe. -/
abbrev LogLevel := Int

namespace LogLevel

def debug : LogLevel := -4
def info : LogLevel := 0
def warn : LogLevel := 4
def error : LogLevel := 8

/-- The name of a level: the nearest named level below it and the distance to it. -/
def name (level : LogLevel) : String :=
  let offset (base : String) (n : Int) : String :=
    if n = 0 then base else base ++ (if 0 < n then "+" else "") ++ toString n
  if level < info then offset "DEBUG" (level - debug)
  else if level < warn then offset "INFO" (level - info)
  else if level < error then offset "WARN" (level - warn)
  else offset "ERROR" (level - error)

end LogLevel

/-- An entry of a log. -/
structure LogEntry where
  level : LogLevel
  message : String
  attributes : List (String × String)

/-- The line of an entry. -/
def LogEntry.line (e : LogEntry) : String :=
  " ".intercalate <|
    ("level=" ++ e.level.name) :: ("msg=" ++ Text.word e.message) ::
      e.attributes.map fun (key, value) => Text.word key ++ "=" ++ Text.word value

/-- The lines of the entries at or above a level. -/
def logLines (threshold : LogLevel) (entries : List LogEntry) : List String :=
  (entries.filter fun e => threshold ≤ e.level).map LogEntry.line

end ShaderGraph
