import TagWatch.Text.Cut
import TagWatch.Text.Percent

/-!
# Hosts

The host of an address is a name or a numeric address. A text in square brackets is an address
of eight pieces of 16 bits; a name whose last part is a number must be an address of four bytes.

**Four bytes.** An address has at most four parts between dots, each a decimal, octal (`0` in
front) or hexadecimal (`0x` in front) number. The last part fills all bytes that the parts before
it leave.

**Eight pieces.** Pieces are hexadecimal numbers of at most four digits between colons. One pair
of colons may stand for a run of zeros, and the last two pieces may be written as four bytes. In
the normal form the first of the longest runs of at least two zeros is left out.
-/

namespace TagWatch.Http

open Text

/-- The host of an address. -/
inductive Host where
  | domain (name : String)
  /-- An address of four bytes, as one number. -/
  | ipv4 (address : Nat)
  /-- An address of eight pieces. -/
  | ipv6 (pieces : List Nat)
  deriving Repr, DecidableEq

namespace Host

/-! ## Four bytes -/

/-- The number in a part of an address of four bytes. -/
def readPart? : List Char → Option Nat
  | [] => none
  | '0' :: 'x' :: digits => radixValue? 16 digits
  | '0' :: 'X' :: digits => radixValue? 16 digits
  | '0' :: d :: digits => radixValue? 8 (d :: digits)
  | digits => radixValue? 10 digits

/-- The parts between the dots of a name, without an empty part at its end. -/
def parts (s : List Char) : List (List Char) :=
  let all := fields '.' s
  if all.getLast? = some [] then all.dropLast else all

/-- Whether a name ends in a number, so that it has to be an address. -/
def endsInNumber (s : List Char) : Bool :=
  match (parts s).getLast? with
  | some part => (!part.isEmpty && part.all Char.isDigit) || (readPart? part).isSome
  | none => false

/-- The address that numbers denote, the last of which fills the bytes that are left. -/
def joinParts? : (bytes : Nat) → List Nat → Option Nat
  | _, [] => none
  | 0, _ :: _ => none
  | bytes + 1, [n] => if n < 256 * weight bytes then some n else none
  | bytes + 1, n :: rest =>
    if n < 256 then (joinParts? bytes rest).map (n * weight bytes + ·) else none
where
  /-- The weight of the byte in front of a number of bytes. -/
  weight : Nat → Nat
    | 0 => 1
    | bytes + 1 => 256 * weight bytes

/-- Reads an address of four bytes. -/
def readBytes? (s : List Char) : Option Nat := (parts s).mapM readPart? >>= joinParts? 4

/-- The text of an address of four bytes. -/
def renderBytes (address : Nat) : String :=
  ".".intercalate ([16777216, 65536, 256, 1].map fun weight => toString (address / weight % 256))

/-! ## Eight pieces -/

/-- Reads a piece. -/
def readPiece? (s : List Char) : Option Nat :=
  if s.isEmpty || 4 < s.length then none else radixValue? 16 s

/-- Reads a byte of an address inside an address of pieces: no leading zeros. -/
def readByte? : List Char → Option Nat
  | ['0'] => some 0
  | '0' :: _ => none
  | s => do
    let n ← if s.isEmpty || 3 < s.length then none else radixValue? 10 s
    if n < 256 then some n else none

/-- Reads the last piece, which may also be two pieces written as four bytes. -/
def readLast? (s : List Char) : Option (List Nat) :=
  match (fields '.' s).mapM readByte? with
  | some [a, b, c, d] => some [256 * a + b, 256 * c + d]
  | _ => (readPiece? s).map fun n => [n]

/-- Reads pieces between colons; `atEnd` says whether they end the address. -/
def readPieces? (atEnd : Bool) (s : List Char) : Option (List Nat) :=
  if s.isEmpty then some []
  else go (fields ':' s)
where
  /-- Reads one piece after another. -/
  go : List (List Char) → Option (List Nat)
    | [] => some []
    | [last] => if atEnd then readLast? last else (readPiece? last).map fun n => [n]
    | first :: rest => do
      let n ← readPiece? first
      let ns ← go rest
      return n :: ns

/-- The parts of a text before and after the first pair of colons. -/
def cutPair : List Char → Option (List Char × List Char)
  | ':' :: ':' :: rest => some ([], rest)
  | c :: rest => (cutPair rest).map fun p => (c :: p.1, p.2)
  | [] => none

/-- Reads an address of eight pieces. -/
def readAddress? (s : List Char) : Option (List Nat) :=
  match cutPair s with
  | some (before, after) => do
    let front ← readPieces? false before
    let back ← readPieces? true after
    if front.length + back.length ≤ 7 then
      some (front ++ List.replicate (8 - front.length - back.length) 0 ++ back)
    else none
  | none => do
    let pieces ← readPieces? true s
    if pieces.length = 8 then some pieces else none

/-- The place and the length of the first of the longest runs of zeros from a place on. -/
def longestRun (place : Nat) : List Nat → Nat × Nat
  | [] => (place, 0)
  | n :: rest =>
    let here := ((n :: rest).takeWhile (· = 0)).length
    let later := longestRun (place + 1) rest
    if later.2 ≤ here then (place, here) else later

/-- The text of pieces. -/
def renderPieces (pieces : List Nat) : String :=
  ":".intercalate (pieces.map fun n => String.ofList (Nat.toDigits 16 n))

/-- The text of an address of eight pieces. -/
def renderAddress (pieces : List Nat) : String :=
  let (place, length) := longestRun 0 pieces
  if length < 2 then renderPieces pieces
  else renderPieces (pieces.take place) ++ "::" ++ renderPieces (pieces.drop (place + length))

/-! ## Reading and rendering -/

/-- Whether a character may not stand in a name. -/
def forbidden (c : Char) : Bool :=
  c.toNat ≤ 0x20 || c.toNat = 0x7F || "#/:<>?@[\\]^|%".toList.contains c

/-- Reads the host of an address. -/
def read? (s : List Char) : Option Host :=
  match s with
  | '[' :: rest =>
    if rest.getLast? = some ']' then (readAddress? rest.dropLast).map ipv6 else none
  | _ => do
    let decoded ← String.fromUTF8? ⟨(percentBytes s).toArray⟩
    let text := lower decoded.toList
    if text.isEmpty || text.any forbidden then none
    else if endsInNumber text then (readBytes? text).map ipv4
    else some (domain (String.ofList text))

/-- The text of a host. -/
def render : Host → String
  | domain name => name
  | ipv4 address => renderBytes address
  | ipv6 pieces => "[" ++ renderAddress pieces ++ "]"

end Host

end TagWatch.Http
