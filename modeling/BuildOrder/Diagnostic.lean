/-! # Diagnostics

A diagnostic describes a failure to a person: what happened, where, in which context, and what
could be done about it.  It can be laid out for a terminal, in colour or plain.
-/

namespace BuildOrder

/-- How serious a diagnostic is. -/
inductive Severity
  | error
  | warning
deriving DecidableEq

namespace Severity

/-- The word for a severity. -/
def word : Severity → String
  | error => "error"
  | warning => "warning"

/-- The terminal colour of a severity. -/
def colour : Severity → String
  | error => "31"
  | warning => "33"

end Severity

/-- A message with its circumstances. -/
structure Diagnostic where
  message : String
  severity : Severity := .error
  location : Option String := none
  context : List String := []
  suggestions : List String := []

namespace Diagnostic

/-- Adds a line of context after those already there. -/
def addContext (d : Diagnostic) (line : String) : Diagnostic := { d with context := d.context ++ [line] }

/-- Adds a suggestion after those already there. -/
def addSuggestion (d : Diagnostic) (line : String) : Diagnostic :=
  { d with suggestions := d.suggestions ++ [line] }

/-- Says where the failure is, in place of what was said before. -/
def locate (d : Diagnostic) (place : String) : Diagnostic := { d with location := some place }

/-- A word in bold, in a terminal colour when `coloured`. -/
def highlight (coloured : Bool) (colour word : String) : String :=
  if coloured then "\x1b[1;" ++ colour ++ "m" ++ word ++ "\x1b[0m" else word

/-- Lines numbered from `start`. -/
def numbered (start : Nat) : List String → String
  | [] => ""
  | line :: rest => "  " ++ toString start ++ ". " ++ line ++ "\n" ++ numbered (start + 1) rest

/-- The layout for a terminal: the message, the place, the context, and after a blank line the
    suggestions, if there are any. -/
def format (d : Diagnostic) (coloured : Bool) : String :=
  highlight coloured d.severity.colour d.severity.word ++ ": " ++ d.message ++ "\n" ++
    (d.location.map fun place => "  --> " ++ place ++ "\n").getD "" ++
    String.join (d.context.map fun line => "  = " ++ line ++ "\n") ++
    if d.suggestions.isEmpty then ""
    else "\n" ++ highlight coloured "32" "help" ++ ": consider:\n" ++ numbered 1 d.suggestions

end Diagnostic

end BuildOrder
