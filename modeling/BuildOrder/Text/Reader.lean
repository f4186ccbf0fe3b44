/-! # Readers

A reader takes characters from the front of a text, or refuses it.  What it takes is never
empty, and the type says so: the rest is shorter than the text.  That is why a reader can be
repeated until it refuses.  A *scanner* never refuses, and may take nothing.
-/

namespace BuildOrder.Text

/-- What a reader made of a text, and the text that it left. -/
structure Taken (α : Type) (text : List Char) where
  value : α
  rest : List Char
  /-- Something was taken. -/
  lt : rest.length < text.length

/-- What a scanner made of a text, and the text that it left. -/
structure Scanned (α : Type) (text : List Char) where
  value : α
  rest : List Char
  /-- Nothing was added. -/
  le : rest.length ≤ text.length

/-- Takes at least one character, or refuses. -/
abbrev Reader (α : Type) := (text : List Char) → Option (Taken α text)

/-- Takes any number of characters. -/
abbrev Scanner (α : Type) := (text : List Char) → Scanned α text

namespace Reader

/-- Takes one character that satisfies a test. -/
def char (p : Char → Bool) : Reader Char
  | [] => none
  | c :: rest => if p c then some ⟨c, rest, Nat.lt_succ_self _⟩ else none

/-- Takes a given character. -/
def exactly (c : Char) : Reader Char := char (· == c)

/-- Takes a given word. -/
def word (w : String) : Reader Unit := fun text =>
  if h : w.toList ≠ [] ∧ w.toList <+: text then
    some ⟨(), text.drop w.toList.length, by
      have hpos : 0 < w.toList.length := List.length_pos_iff.2 h.1
      have hle := h.2.length_le
      rw [List.length_drop]
      omega⟩
  else none

/-- Takes what `r` takes and goes on from its value. -/
def map (f : α → β) (r : Reader α) : Reader β := fun text =>
  (r text).map fun a => ⟨f a.value, a.rest, a.lt⟩

/-- Refuses values that have no image. -/
def filterMap (f : α → Option β) (r : Reader α) : Reader β := fun text =>
  match r text with
  | none => none
  | some a => (f a.value).map fun b => ⟨b, a.rest, a.lt⟩

/-- Tries a second reader where the first refuses. -/
def or (r s : Reader α) : Reader α := fun text =>
  match r text with
  | some a => some a
  | none => s text

/-- One reader after the other. -/
def pair (r : Reader α) (s : Reader β) : Reader (α × β) := fun text =>
  match r text with
  | none => none
  | some a =>
    match s a.rest with
    | none => none
    | some b => some ⟨(a.value, b.value), b.rest, Nat.lt_trans b.lt a.lt⟩

/-- One reader after the other, for the value of the first. -/
def before (r : Reader α) (s : Reader β) : Reader α := (r.pair s).map Prod.fst

/-- One reader after the other, for the value of the second. -/
def andThen (r : Reader α) (s : Reader β) : Reader β := (r.pair s).map Prod.snd

/-- A reader and then a scanner. -/
def scan (r : Reader α) (s : Scanner β) : Reader (α × β) := fun text =>
  (r text).map fun a =>
    let b := s a.rest
    ⟨(a.value, b.value), b.rest, Nat.lt_of_le_of_lt b.le a.lt⟩

/-- A reader and then a scanner whose value does not matter. -/
def skip (r : Reader α) (s : Scanner β) : Reader α := (r.scan s).map Prod.fst

/-- Repeats a reader until it refuses. -/
def many (r : Reader α) : Scanner (List α) := fun text =>
  match r text with
  | none => ⟨[], text, Nat.le_refl _⟩
  | some a =>
    let more := many r a.rest
    ⟨a.value :: more.value, more.rest, Nat.le_of_lt (Nat.lt_of_le_of_lt more.le a.lt)⟩
termination_by text => text.length
decreasing_by exact a.lt

/-- Repeats a reader at least once. -/
def many1 (r : Reader α) : Reader (List α) := (r.scan r.many).map fun (a, more) => a :: more

/-- Takes what `r` takes, or nothing. -/
def optional (r : Reader α) : Scanner (Option α) := fun text =>
  match r text with
  | none => ⟨none, text, Nat.le_refl _⟩
  | some a => ⟨some a.value, a.rest, Nat.le_of_lt a.lt⟩

/-- Repeats a reader once more often than the given number. -/
def succTimes : Nat → Reader α → Reader (List α)
  | 0, r => r.map fun a => [a]
  | k + 1, r => (r.pair (succTimes k r)).map fun (a, more) => a :: more

/-- Repeats a reader, with a separator between its values. -/
def separated (r : Reader α) (separator : Reader β) : Reader (List α) :=
  (r.scan (separator.andThen r).many).map fun (a, more) => a :: more

end Reader

namespace Scanner

/-- A scanner and then a reader. -/
def read (s : Scanner α) (r : Reader β) : Reader (α × β) := fun text =>
  let a := s text
  (r a.rest).map fun b => ⟨(a.value, b.value), b.rest, Nat.lt_of_lt_of_le b.lt a.le⟩

/-- A scanner whose value does not matter and then a reader. -/
def andThen (s : Scanner α) (r : Reader β) : Reader β := (s.read r).map Prod.snd

/-- One scanner after the other. -/
def pair (s : Scanner α) (t : Scanner β) : Scanner (α × β) := fun text =>
  let a := s text
  let b := t a.rest
  ⟨(a.value, b.value), b.rest, Nat.le_trans b.le a.le⟩

end Scanner

end BuildOrder.Text
