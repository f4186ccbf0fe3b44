import BuildOrder.Policy.Setting
import BuildOrder.Toml.Statement

/-! # Policies as text

A policy is written as a document of four settings, and read from any document.
-/

namespace BuildOrder

namespace Setting

/-- Whether a value is an array or a table that holds nothing. -/
def isEmptyContainer : Toml.Value → Bool
  | .array items => items.isEmpty
  | .table _ entries => entries.isEmpty
  | _ => false

/-- A value of a document as a setting.  A table is a tag when it has one entry, and that holds
    nothing. -/
def ofValue : Toml.Value → Setting
  | .boolean b => .boolean b
  | .string s => .text s
  | .table _ [(name, v)] => if isEmptyContainer v then .tag name else .other
  | _ => .other

end Setting

namespace Policy

/-- Why there is no policy. -/
inductive ReadFault
  /-- A text is no document, or holds settings that are no policy. -/
  | malformed
  /-- A file cannot be read as text. -/
  | unreadableFile (path : String)
  /-- A file's text is malformed. -/
  | malformedFile (path : String)

/-- The fault in one line. -/
def ReadFault.message : ReadFault → String
  | malformed => "failed to parse manifest config"
  | unreadableFile path => "failed to read manifest config: " ++ path
  | malformedFile path => "failed to parse manifest config: " ++ path

/-- The policy of a document. -/
def ofText? (text : String) : Option Policy :=
  (Toml.parse? text).bind fun entries => ofSettings? (entries.map fun (k, v) => (k, Setting.ofValue v))

/-- The policy of a document, or why there is none. -/
def ofText (text : String) : Except ReadFault Policy :=
  match ofText? text with
  | some policy => .ok policy
  | none => .error .malformed

/-- The policy of a file's content, which is missing when there is no such file. -/
def ofFile (path : String) (content : Option ByteArray) : Except ReadFault Policy :=
  match content.bind String.fromUTF8? with
  | none => .error (.unreadableFile path)
  | some text =>
    match ofText? text with
    | some policy => .ok policy
    | none => .error (.malformedFile path)

/-- The policy of a file's content, or the default policy when it gives none. -/
def ofFileOrDefault (path : String) (content : Option ByteArray) : Policy :=
  match ofFile path content with
  | .ok policy => policy
  | .error _ => {}

/-- A truth value as it is written. -/
def flagText (b : Bool) : String := if b then "true" else "false"

/-- The policy as a document, each setting on a line. -/
def toText (p : Policy) : String :=
  keepAllUnitsKey ++ " = " ++ flagText p.keepAllUnits ++ "\n" ++
    keepMoochersKey ++ " = " ++ flagText p.keepMoochers ++ "\n" ++
    keepOriginalOrderKey ++ " = " ++ flagText p.keepOriginalOrder ++ "\n" ++
    strategyKey ++ " = " ++ "\"" ++ p.strategy.name ++ "\"\n"

end Policy

end BuildOrder
