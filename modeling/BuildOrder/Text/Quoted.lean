/-! # Quoted text

A text between double quotes, on one line, in which quotes, backslashes and control characters
are escaped.
-/

namespace BuildOrder.Text

/-- A number in lower-case hexadecimal digits, without leading zeros. -/
def hexNumber (n : Nat) : String := String.ofList (Nat.toDigits 16 n)

/-- How one character is written between quotes.  Control characters that have no short escape
    are written with their number. -/
def escape (c : Char) : String :=
  match c with
  | '"' => "\\\""
  | '\\' => "\\\\"
  | '\n' => "\\n"
  | '\r' => "\\r"
  | '\t' => "\\t"
  | '\x00' => "\\0"
  | c => if c.val < 0x20 || c.val == 0x7f then "\\u\x7b" ++ hexNumber c.toNat ++ "\x7d" else c.toString

/-- A text between double quotes. -/
def quoted (text : String) : String := "\"" ++ String.join (text.toList.map escape) ++ "\""

/-- Items between square brackets, with commas between them. -/
def bracketed (items : List String) : String := "[" ++ ", ".intercalate items ++ "]"

end BuildOrder.Text
