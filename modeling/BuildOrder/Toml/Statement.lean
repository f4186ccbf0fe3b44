import BuildOrder.Toml.Value

/-! # Statements of TOML

A document is a list of statements, one to a line: an assignment, or the header of a table or of
an element of an array of tables.
-/

namespace BuildOrder.Toml

open BuildOrder.Text

/-- One statement of a document. -/
inductive Statement
  | assign (path : Path) (value : Value)
  | header (path : Path)
  | arrayHeader (path : Path)

/-- A key has fewer names than this. -/
def nameLimit : Nat := 80

/-- Arrays and tables stand within each other at most so many deep. -/
def depthLimit : Nat := 79

/-- A character of a key without quotes. -/
def isBare (c : Char) : Bool := c.isAlphanum || c == '-' || c == '_'

/-- A key without dots. -/
def simpleKey : Reader String := lineString.or ((Reader.char isBare).many1.map String.ofList)

/-- A key, with dots between its names. -/
def key : Reader Path :=
  ((surrounded simpleKey).separated (Reader.exactly '.')).filterMap fun names =>
    if names.length < nameLimit then Path.ofNames? names else none

/-- What stands between two brackets of a kind; it may be nothing. -/
def bracketed (opening closing : Char) (nothing : Scanner β) (content : Reader (List α)) : Reader (List α) :=
  ((Reader.exactly opening).andThen ((content.before (Reader.exactly closing)).or
    (Scanner.andThen nothing ((Reader.exactly closing).map fun _ => []))))

/-- The items of an array.  Lines and comments may end between them, and a comma may follow the
    last. -/
def items (value : Reader Value) : Reader (List Value) :=
  ((((spread value).separated (Reader.exactly ',')).skip (Reader.exactly ',').optional).skip filler)

/-- An assignment: a key and its value. -/
def assignment (value : Reader Value) : Reader (Path × Value) :=
  (key.before (Reader.exactly '=')).pair (surrounded value)

/-- A value without parts. -/
def scalar : Reader Value :=
  (string.map .string).or ((dateTime.map .dateTime).or ((float.map .float).or ((integer.map .integer).or
    (((Reader.word "true").map fun _ => .boolean true).or ((Reader.word "false").map fun _ => .boolean false)))))

/-- A value in which arrays and tables stand at most so many deep. -/
def value : (depth : Nat) → Reader Value
  | 0 => scalar
  | depth + 1 =>
    let inner := value depth
    ((bracketed '[' ']' filler (items inner)).map .array).or
      (((bracketed '\x7b' '\x7d' blanks ((assignment inner).separated (Reader.exactly ','))).filterMap
        fun assignments => (Entries.ofAssignments assignments []).map (.table .inline)).or scalar)

/-- One line with what it states; an empty line states nothing. -/
def line : Reader (Option Statement) :=
  let header := ((Reader.exactly '[').andThen key).before (Reader.exactly ']')
  let arrayHeader := ((Reader.word "[[").andThen key).before (Reader.word "]]")
  let statement : Reader Statement :=
    (arrayHeader.map .arrayHeader).or ((header.map .header).or
      ((assignment (value depthLimit)).map fun (path, v) => .assign path v))
  Scanner.andThen blanks
    (lineEnd.map (fun _ => none) |>.or ((wholeLine comment).map (fun _ => none) |>.or
      ((wholeLine statement).map some)))

/-- The statements of a text.  A byte order mark before them does not count. -/
def statements? (text : String) : Option (List Statement) :=
  let start := (Reader.exactly '\ufeff').optional text.toList
  let body := Scanner.pair line.many blanks start.rest
  if body.rest.isEmpty then some (body.value.1.filterMap id) else none

/-- Carries statements out in the table that the last header named. -/
def execute : (header : List String) → List Statement → Entries → Option Entries
  | _, [], entries => some entries
  | header, .assign path v :: rest, entries =>
    match Entries.within (Entries.assign path.parents path.key v) header entries with
    | some next => execute header rest next
    | none => none
  | _, .header path :: rest, entries =>
    match Entries.within (Entries.declare path.key) path.parents entries with
    | some next => execute (path.parents ++ [path.key]) rest next
    | none => none
  | _, .arrayHeader path :: rest, entries =>
    match Entries.within (Entries.append path.key) path.parents entries with
    | some next => execute (path.parents ++ [path.key]) rest next
    | none => none

/-- The entries of a document, if it is well formed. -/
def parse? (text : String) : Option Entries := (statements? text).bind fun list => execute [] list []

end BuildOrder.Toml
