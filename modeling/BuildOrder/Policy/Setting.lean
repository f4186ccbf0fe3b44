import BuildOrder.Policy

/-! # Policies from settings

A policy is read from named settings.  A setting that is not there has its default, and one that
no policy knows is passed over; but a known setting must have a value of its kind.
-/

namespace BuildOrder

/-- The value of a setting, as far as policies tell values apart. -/
inductive Setting
  | boolean (b : Bool)
  | text (t : String)
  /-- A name that holds nothing. -/
  | tag (name : String)
  | other

namespace Policy

/-- The names of the settings, with the parts of a policy. -/
def keepAllUnitsKey : String := "keep-all-units"

/-- See `keepAllUnitsKey`. -/
def keepMoochersKey : String := "keep-moochers"

/-- See `keepAllUnitsKey`. -/
def keepOriginalOrderKey : String := "keep-original-order"

/-- See `keepAllUnitsKey`. -/
def strategyKey : String := "sort-strategy"

/-- The truth value of a setting. -/
def flagOf? : Setting → Option Bool
  | .boolean b => some b
  | _ => none

/-- The strategy that a setting names, as text or as a tag. -/
def strategyOf? : Setting → Option Strategy
  | .text t => Strategy.ofName? t
  | .tag name => Strategy.ofName? name
  | _ => none

/-- The value of a setting, or its default when it is not there. -/
def valueOf? (settings : List (String × Setting)) (key : String) (read : Setting → Option α) (default : α) :
    Option α :=
  match settings.lookup key with
  | some setting => read setting
  | none => some default

/-- The policy of a list of settings. -/
def ofSettings? (settings : List (String × Setting)) : Option Policy :=
  let default : Policy := {}
  match valueOf? settings keepAllUnitsKey flagOf? default.keepAllUnits,
    valueOf? settings keepMoochersKey flagOf? default.keepMoochers,
    valueOf? settings keepOriginalOrderKey flagOf? default.keepOriginalOrder,
    valueOf? settings strategyKey strategyOf? default.strategy with
  | some keepAllUnits, some keepMoochers, some keepOriginalOrder, some strategy =>
    some { keepAllUnits, keepMoochers, keepOriginalOrder, strategy }
  | _, _, _, _ => none

end Policy

end BuildOrder
