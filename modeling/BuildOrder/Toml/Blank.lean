import BuildOrder.Text.Reader

/-! # White space, line ends and comments of TOML

Control characters other than the tab stand nowhere in a document, except as part of a line end.
-/

namespace BuildOrder.Toml

open BuildOrder.Text

/-- Whether a character separates tokens within a line. -/
def isBlank (c : Char) : Bool := c == ' ' || c == '\t'

/-- Whether a character may stand in comments and literal strings: the tab, and every character
    that is not a control character of ASCII. -/
def isPlain (c : Char) : Bool := c == '\t' || (0x20 ≤ c.val && c.val != 0x7f)

/-- Any number of blanks. -/
def blanks : Scanner (List Char) := Reader.many (Reader.char isBlank)

/-- A line end: a line feed, which a carriage return may precede. -/
def lineEnd : Reader Unit := (Reader.word "\n").or (Reader.word "\r\n")

/-- A comment, without the end of its line. -/
def comment : Reader Unit :=
  ((Reader.exactly '#').skip (Reader.many (Reader.char isPlain))).map fun _ => ()

/-- Any number of blanks, line ends and comment lines. -/
def filler : Scanner (List Unit) :=
  Reader.many (((Reader.char isBlank).map fun _ => ()).or (lineEnd.or (comment.andThen lineEnd)))

/-- Blanks around what a reader takes. -/
def surrounded (r : Reader α) : Reader α := (Scanner.andThen blanks r).skip blanks

/-- Blanks, line ends and comment lines around what a reader takes. -/
def spread (r : Reader α) : Reader α := (Scanner.andThen filler r).skip filler

/-- Nothing but blanks and a comment between what a reader takes and the end of its line. -/
def wholeLine (r : Reader α) : Reader α := fun text =>
  match r text with
  | none => none
  | some a =>
    let tail := Scanner.pair blanks comment.optional a.rest
    have lt : tail.rest.length < text.length := Nat.lt_of_le_of_lt tail.le a.lt
    match tail.rest, lt with
    | [], lt => some ⟨a.value, [], lt⟩
    | '\n' :: rest, lt => some ⟨a.value, rest, Nat.lt_of_succ_lt lt⟩
    | '\r' :: '\n' :: rest, lt => some ⟨a.value, rest, Nat.lt_of_succ_lt (Nat.lt_of_succ_lt lt)⟩
    | _, _ => none

end BuildOrder.Toml
