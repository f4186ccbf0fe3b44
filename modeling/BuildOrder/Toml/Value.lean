import BuildOrder.Toml.DateTime

/-! # Values of TOML

Tables keep their entries in order, and remember how they came about, since that decides how they
may still be extended.

* `Value.assign`   puts a value where a dotted key leads
* `Value.within`   changes the table that a header names
* `Value.declare`  and `Value.append` begin a table, or an element of an array of tables
-/

namespace BuildOrder.Toml

/-- How a table came about. -/
inductive Origin
  /-- Written between braces; nothing can be added to it. -/
  | inline
  /-- Named by a header of its own. -/
  | header
  /-- On the way to a table that a header names. -/
  | implied
  /-- On the way to a value with a dotted key. -/
  | dotted
deriving DecidableEq

/-- A value of a document. -/
inductive Value
  | boolean (b : Bool)
  | string (s : String)
  | integer (k : Int)
  | float (d : Decimal)
  | dateTime (d : DateTime)
  | array (items : List Value)
  | table (origin : Origin) (entries : List (String × Value))
  /-- An array of tables, which headers of its own extend. -/
  | tables (elements : List (List (String × Value)))

/-- The keys of a table with their values, in order. -/
abbrev Entries := List (String × Value)

/-- Where a value stands: the names of the tables on the way, and its key in the last of them. -/
structure Path where
  parents : List String
  key : String

/-- The path of a list of names. -/
def Path.ofNames? : List String → Option Path
  | [] => none
  | name :: rest =>
    match ofNames? rest with
    | none => some ⟨[], name⟩
    | some path => some ⟨name :: path.parents, path.key⟩

namespace Entries

/-- Whether a key has a value. -/
def has (entries : Entries) (key : String) : Bool := (entries.lookup key).isSome

/-- Gives a key another value, at the place where it stands. -/
def replace (entries : Entries) (key : String) (value : Value) : Entries :=
  entries.map fun (k, v) => if k == key then (k, value) else (k, v)

/-- Takes a key out. -/
def erase (entries : Entries) (key : String) : Entries := entries.filter fun (k, _) => k != key

/-- Changes the last of a list of tables. -/
def changeLast (change : Entries → Option Entries) : List Entries → Option (List Entries)
  | [] => none
  | [last] => (change last).map fun next => [next]
  | first :: rest => (changeLast change rest).map fun next => first :: next

/-- Puts a value where a dotted key leads, through the tables that are named before the key.
    Tables that are not there are made.  Those that are there must have come about in this way
    or on the way to a header's table; a header's own table, or one between braces, is closed to
    dotted keys, and the table that gets the value must belong to dotted keys alone. -/
def assign : (parents : List String) → (key : String) → Value → Entries → Option Entries
  | [], key, value, entries => if entries.has key then none else some (entries ++ [(key, value)])
  | name :: rest, key, value, entries =>
    match entries.lookup name with
    | none => (assign rest key value []).map fun inner => entries ++ [(name, .table .dotted inner)]
    | some (.table .dotted inner) =>
      (assign rest key value inner).map fun next => entries.replace name (.table .dotted next)
    | some (.table .implied inner) =>
      if rest.isEmpty then none
      else (assign rest key value inner).map fun next => entries.replace name (.table .implied next)
    | some (.tables elements) =>
      if rest.isEmpty then none
      else (changeLast (assign rest key value) elements).map fun next => entries.replace name (.tables next)
    | some _ => none

/-- Changes the table that the names of a header lead to.  Tables that are not there are made,
    and of an array of tables the last one is meant. -/
def within (change : Entries → Option Entries) : List String → Entries → Option Entries
  | [], entries => change entries
  | name :: rest, entries =>
    match entries.lookup name with
    | none => (within change rest []).map fun inner => entries ++ [(name, .table .implied inner)]
    | some (.table .inline _) => none
    | some (.table origin inner) =>
      (within change rest inner).map fun next => entries.replace name (.table origin next)
    | some (.tables elements) =>
      (changeLast (within change rest) elements).map fun next => entries.replace name (.tables next)
    | some _ => none

/-- Begins the table of a header.  A table that was only on the way to others becomes the
    header's with all it holds, and moves to the end; any other value is in the way. -/
def declare (key : String) (entries : Entries) : Option Entries :=
  match entries.lookup key with
  | none => some (entries ++ [(key, .table .header [])])
  | some (.table .implied inner) => some (entries.erase key ++ [(key, .table .header inner)])
  | some _ => none

/-- Begins another element of an array of tables. -/
def append (key : String) (entries : Entries) : Option Entries :=
  match entries.lookup key with
  | none => some (entries ++ [(key, .tables [[]])])
  | some (.tables elements) => some (entries.replace key (.tables (elements ++ [[]])))
  | some _ => none

/-- The entries that assignments make one after the other. -/
def ofAssignments : List (Path × Value) → Entries → Option Entries
  | [], entries => some entries
  | (path, value) :: rest, entries =>
    match assign path.parents path.key value entries with
    | some next => ofAssignments rest next
    | none => none

end Entries

end BuildOrder.Toml
