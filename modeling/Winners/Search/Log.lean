import Winners.Number.Layout

set_option autoImplicit false

/-! # Log entries

A log entry has a level, a message and named fields. On a log line the fields follow the message
in order; numbers are written in the layout of log lines.
-/

namespace Winners

inductive Level
  | trace
  | debug
  | info
  | warn
deriving DecidableEq

def Level.name : Level → String
  | trace => "TRACE"
  | debug => "DEBUG"
  | info => "INFO"
  | warn => "WARN"

inductive FieldValue
  | number (x : Binary64)
  | integer (i : Int)
  | text (s : String)
deriving DecidableEq

def FieldValue.write : FieldValue → String
  | number x => Layout.log.write x
  | integer i => toString i
  | text s => s

structure LogEntry where
  level : Level
  message : String
  fields : List (String × FieldValue)
deriving DecidableEq

/-- The entry on one line. -/
def LogEntry.line (e : LogEntry) : String :=
  let fields := e.fields.map fun (name, value) => s!" {name}=" ++ value.write
  e.level.name ++ " " ++ e.message ++ String.join fields

/-- A value that may be missing, as a log line shows it. -/
def optionText : Option String → String
  | none => "None"
  | some text => "Some(" ++ text ++ ")"

end Winners
