import BuildOrder.Toml.Quotes

/-! # Numbers of TOML

Integers have sixty-four bits.  A float is kept as the decimal that was written; one that exceeds
every finite number of double precision is refused, unless it is negative.
-/

namespace BuildOrder.Toml

open BuildOrder.Text

/-- A number with a fraction or an exponent, as it was written. -/
inductive Decimal
  /-- The digits as one number, times a power of ten. -/
  | finite (negative : Bool) (digits : Nat) (exponent : Int)
  | infinite (negative : Bool)
  | notANumber
deriving DecidableEq

/-- A digit below a radix. -/
def digit (radix : Nat) : Reader Nat :=
  (Reader.char fun _ => true).filterMap fun c => (hexDigit? c).filter (· < radix)

/-- Digits, with single underscores between them. -/
def digits (radix : Nat) : Reader (List Nat) :=
  ((digit radix).scan (Scanner.andThen (Reader.exactly '_').optional (digit radix)).many).map
    fun (d, more) => d :: more

/-- A decimal number without leading zeros. -/
def natural : Reader Nat :=
  ((digits 10).filterMap fun ds => if ds.head? = some 0 then none else some (ofDigits 10 ds)).or
    ((Reader.exactly '0').map fun _ => 0)

/-- A sign, if there is one; true for a minus. -/
def sign : Scanner Bool := fun text =>
  let s := (Reader.char fun c => c == '+' || c == '-').optional text
  ⟨s.value == some '-', s.rest, s.le⟩

/-- A number with a sign. -/
def signed (negative : Bool) (n : Nat) : Int := if negative then -n else n

/-- An integer, if it has sixty-four bits. -/
def int64? (k : Int) : Option Int := if -(Nat.pow 2 63) ≤ k ∧ k < Nat.pow 2 63 then some k else none

/-- An integer in sixteen, eight, two or ten digits; only the last can have a sign. -/
def integer : Reader Int :=
  let based (mark : String) (radix : Nat) : Reader Int :=
    ((Reader.word mark).andThen (digits radix)).filterMap fun ds => int64? (ofDigits radix ds)
  (based "0x" 16).or ((based "0o" 8).or ((based "0b" 2).or
    ((Scanner.read sign natural).filterMap fun (negative, n) => int64? (signed negative n))))

/-- Whether a decimal rounds to a number beyond the largest finite one of double precision.  The
    first two tests settle all that is clear from the position of the first digit. -/
def overflows (digits : Nat) (exponent : Int) : Bool :=
  let length : Int := (Nat.toDigits 10 digits).length
  let limit := Nat.pow 2 1024 - Nat.pow 2 970
  if digits = 0 || length + exponent ≤ 308 then false
  else if 310 ≤ length + exponent then true
  else if 0 ≤ exponent then limit ≤ digits * Nat.pow 10 exponent.toNat
  else limit * Nat.pow 10 (-exponent).toNat ≤ digits

/-- A decimal, if it is accepted. -/
def Decimal.check : Decimal → Option Decimal
  | finite false ds e => if overflows ds e then none else some (finite false ds e)
  | infinite false => some (infinite false)
  | d => some d

/-- The power of ten that a number is scaled by. -/
def exponent : Reader Int :=
  ((Reader.char fun c => c == 'e' || c == 'E').andThen (Scanner.read sign (digits 10))).map
    fun (negative, ds) => signed negative (ofDigits 10 ds)

/-- The digits after a point, and the power of ten that follows them. -/
def fraction : Reader (List Nat × Option Int) :=
  ((Reader.exactly '.').andThen (digits 10)).scan exponent.optional

/-- A decimal with a fraction, an exponent, or both. -/
def finite : Reader Decimal :=
  let scale : Reader (List Nat × Int) :=
    (exponent.map fun e => ([], e)).or (fraction.map fun (ds, e) => (ds, e.getD 0))
  (Scanner.read sign (natural.pair scale)).map fun (negative, n, ds, e) =>
    .finite negative (n * Nat.pow 10 ds.length + ofDigits 10 ds) (e - ds.length)

/-- A word for a number that has no digits. -/
def special : Reader Decimal :=
  (Scanner.read sign (((Reader.word "inf").map fun _ => true).or ((Reader.word "nan").map fun _ => false))).map
    fun (negative, infinite) => if infinite then .infinite negative else .notANumber

/-- A float. -/
def float : Reader Decimal := (finite.filterMap Decimal.check).or special

end BuildOrder.Toml
