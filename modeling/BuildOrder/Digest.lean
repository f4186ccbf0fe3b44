import BuildOrder.Digest.Sha256

/-! # Content digests

A digest is the SHA-256 hash of some content, written as hexadecimal text.
-/

namespace BuildOrder.Digest

/-- The lower-case hexadecimal digit of a number below sixteen. -/
def hexDigit (k : Nat) : Char := if k < 10 then Char.ofNat (48 + k) else Char.ofNat (87 + k)

/-- Each byte as two hexadecimal digits. -/
def hexText (bytes : List UInt8) : List Char :=
  bytes.flatMap fun b => [hexDigit (b.toNat / 16), hexDigit (b.toNat % 16)]

/-- The digest of a list of bytes. -/
def ofBytes (bytes : List UInt8) : String := String.ofList (hexText (Sha256.hash bytes))

/-- The digest of a text is that of its UTF-8 bytes. -/
def ofText (text : String) : String := ofBytes text.toUTF8.toList

theorem ofText_empty : ofText "" = "e3b0c44298fc1c149afbf4c8996fb92427ae41e4649b934ca495991b7852b855" := by
  decide +kernel

/-- The characters that fill the first `limit` bytes, or all of a shorter text.  There is no
    answer when a character lies across that limit. -/
def takeBytes : Nat → List Char → Option (List Char)
  | 0, _ => some []
  | _, [] => some []
  | limit, c :: rest =>
    if c.utf8Size ≤ limit then (takeBytes (limit - c.utf8Size) rest).map (c :: ·) else none

/-- The number of bytes of a short digest. -/
def shortSize : Nat := 12

/-- The first bytes of a digest, enough to recognise it by. -/
def short (digest : String) : Option String :=
  (takeBytes shortSize digest.toList).map String.ofList

end BuildOrder.Digest
