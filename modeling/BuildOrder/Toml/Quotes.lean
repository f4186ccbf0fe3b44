import BuildOrder.Toml.Blank

/-! # Strings of TOML

A *basic* string stands between double quotes and knows escapes; a *literal* string stands
between single quotes and has none.  Each has a form that may run over several lines, between
three quotes.
-/

namespace BuildOrder.Toml

open BuildOrder.Text

/-- The value of a hexadecimal digit. -/
def hexDigit? (c : Char) : Option Nat :=
  if '0' ≤ c && c ≤ '9' then some (c.toNat - '0'.toNat)
  else if 'a' ≤ c && c ≤ 'f' then some (c.toNat - 'a'.toNat + 10)
  else if 'A' ≤ c && c ≤ 'F' then some (c.toNat - 'A'.toNat + 10)
  else none

/-- The number that digits make, the most significant first. -/
def ofDigits (radix : Nat) (digits : List Nat) : Nat := digits.foldl (fun n d => n * radix + d) 0

/-- The character of a code point; surrogates and numbers beyond the last code point have none. -/
def scalar? (code : Nat) : Option Char := if h : code.isValidChar then some (Char.ofNatAux code h) else none

/-- A character given by a number of hexadecimal digits, one more than said. -/
def numbered (digitsPred : Nat) : Reader Char :=
  (Reader.succTimes digitsPred ((Reader.char fun _ => true).filterMap hexDigit?)).filterMap
    fun digits => scalar? (ofDigits 16 digits)

/-- The character that a letter after a backslash stands for. -/
def short? : Char → Option Char
  | 'b' => some '\x08'
  | 't' => some '\t'
  | 'n' => some '\n'
  | 'f' => some '\x0c'
  | 'r' => some '\r'
  | '"' => some '"'
  | '\\' => some '\\'
  | _ => none

/-- A backslash with what belongs to it. -/
def escape : Reader Char :=
  (Reader.exactly '\\').andThen
    (((Reader.char fun _ => true).filterMap short?).or
      (((Reader.exactly 'u').andThen (numbered 3)).or ((Reader.exactly 'U').andThen (numbered 7))))

/-- A character of a basic string that stands for itself. -/
def basicChar : Reader Char := Reader.char fun c => isPlain c && c != '"' && c != '\\'

/-- A character of a literal string. -/
def literalChar : Reader Char := Reader.char fun c => isPlain c && c != '\''

/-- A text between two quotes. -/
def between (quote : Char) (content : Reader Char) : Reader String :=
  (((Reader.exactly quote).scan content.many).before (Reader.exactly quote)).map
    fun (_, chars) => String.ofList chars

/-- A string that stays on its line. -/
def lineString : Reader String := (between '"' (basicChar.or escape)).or (between '\'' literalChar)

/-- One or two quotes that do not close a string of several lines. -/
def loneQuotes (quote : Char) : Reader (List Char)
  | a :: b :: c :: rest =>
    if a != quote then none
    else if b != quote then some ⟨[a], b :: c :: rest, Nat.lt_succ_self _⟩
    else if c != quote then some ⟨[a, b], c :: rest, Nat.lt_succ_of_lt (Nat.lt_succ_self _)⟩
    else none
  | _ => none

/-- A backslash at the end of a line, with the white space up to the next other character. -/
def continuation : Reader (List Char) :=
  ((((Reader.exactly '\\').skip blanks).before lineEnd).skip
    (Reader.many (((Reader.char isBlank).map fun _ => ()).or lineEnd))).map fun _ => []

/-- A text between three quotes.  A line end right after the first three does not count, and up
    to two quotes may stand right before the last three. -/
def betweenThree (quote : Char) (content : Reader (List Char)) : Reader String :=
  let three := Reader.word (String.ofList [quote, quote, quote])
  let newLine : Reader (List Char) := lineEnd.map fun _ => ['\n']
  let body := (content.or (newLine.or (loneQuotes quote))).many
  let last := Scanner.pair (Reader.exactly quote).optional (Reader.exactly quote).optional
  ((((three.skip lineEnd.optional).scan body).before three).scan last).map
    fun ((_, chars), (x, y)) => String.ofList (chars.flatten ++ x.toList ++ y.toList)

/-- A string over several lines. -/
def longString : Reader String :=
  (betweenThree '"' ((basicChar.map fun c => [c]).or (continuation.or (escape.map fun c => [c])))).or
    (betweenThree '\'' (literalChar.map fun c => [c]))

/-- A string in any of the four forms. -/
def string : Reader String := longString.or lineString

end BuildOrder.Toml
