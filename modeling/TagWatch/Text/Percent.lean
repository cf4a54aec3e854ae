import TagWatch.Text.Numeral

/-!
# Percent-encoding

In an address a byte may be written as `%` and two hexadecimal digits. `encode` writes the
characters that a test picks in that way, byte by byte of their UTF-8 form; `percentBytes` undoes
it. A `%` that no two hexadecimal digits follow stands for itself.
-/

namespace TagWatch.Text

/-- A hexadecimal digit, with capital letters. -/
def hexDigit (n : Nat) : Char := (Nat.digitChar n).toUpper

/-- The encoded form of a character. -/
def encodeChar (c : Char) : List Char :=
  (String.ofList [c]).toUTF8.toList.flatMap fun byte =>
    ['%', hexDigit (byte.toNat / 16), hexDigit (byte.toNat % 16)]

/-- A text in which the characters that a test picks are encoded. -/
def encode (needed : Char → Bool) (s : List Char) : List Char :=
  s.flatMap fun c => if needed c then encodeChar c else [c]

/-- The bytes of a text whose encoded bytes are decoded. -/
def percentBytes : List Char → List UInt8
  | [] => []
  | '%' :: a :: b :: rest =>
    match hexValue? a, hexValue? b with
    | some high, some low => (16 * high + low).toUInt8 :: percentBytes rest
    | _, _ => '%'.toNat.toUInt8 :: percentBytes (a :: b :: rest)
  | c :: rest => (String.ofList [c]).toUTF8.toList ++ percentBytes rest

end TagWatch.Text
