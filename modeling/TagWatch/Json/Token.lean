import TagWatch.Text.Numeral

/-!
# The tokens of a JSON text

`Token.scan` splits a text into tokens. White space is blank, tab, line feed and carriage return.
A number is a longest block of number characters and a word a longest block of letters; what
follows such a block can begin no other token of the same kind, so nothing that is well formed is
missed. In a string every character below blank must be escaped.
-/

namespace TagWatch.Json

open Text (hexValue?)

/-- A token of a JSON text. -/
inductive Token where
  | openArray
  | closeArray
  | openObject
  | closeObject
  | comma
  | colon
  | null
  | bool (value : Bool)
  | number (literal : String)
  | string (content : Option String)
  deriving Repr, DecidableEq

/-! ## Numbers -/

/-- Whether a character can be part of a number. -/
def isNumberChar (c : Char) : Bool :=
  c.isDigit || c = '-' || c = '+' || c = '.' || c = 'e' || c = 'E'

/-- Whether a text is empty or an exponent. -/
def isExponent : List Char → Bool
  | [] => true
  | e :: s =>
    (e = 'e' || e = 'E') &&
      (match s with
        | '+' :: digits => !digits.isEmpty && digits.all Char.isDigit
        | '-' :: digits => !digits.isEmpty && digits.all Char.isDigit
        | digits => !digits.isEmpty && digits.all Char.isDigit)

/-- Whether a text is empty or a fraction, an exponent or both. -/
def isFraction : List Char → Bool
  | '.' :: s =>
    !(s.takeWhile Char.isDigit).isEmpty && isExponent (s.dropWhile Char.isDigit)
  | s => isExponent s

/-- Whether a text is a number without sign. -/
def isUnsigned (s : List Char) : Bool :=
  (match s.takeWhile Char.isDigit with
    | [] => false
    | '0' :: _ :: _ => false
    | _ => true) && isFraction (s.dropWhile Char.isDigit)

/-- Whether a text is a number. -/
def isNumber : List Char → Bool
  | '-' :: s => isUnsigned s
  | s => isUnsigned s

/-! ## Strings -/

/-- A character of a string, or a code unit of UTF-16 that is written as an escape. -/
inductive StringUnit where
  | char (c : Char)
  | escape (unit : Nat)
  deriving Repr, DecidableEq

/-- The value of four hexadecimal digits. -/
def hex4? (a b c d : Char) : Option Nat := do
  let a ← hexValue? a
  let b ← hexValue? b
  let c ← hexValue? c
  let d ← hexValue? d
  return ((a * 16 + b) * 16 + c) * 16 + d

/-- The character that a backslash and a letter stand for. -/
def shortEscape? : Char → Option Char
  | '"' => some '"'
  | '\\' => some '\\'
  | '/' => some '/'
  | 'b' => some '\x08'
  | 'f' => some '\x0c'
  | 'n' => some '\n'
  | 'r' => some '\r'
  | 't' => some '\t'
  | _ => none

/-- One more unit in front of a scanned string. -/
def pushUnit (u : StringUnit) (scanned : Option (List StringUnit × List Char)) :
    Option (List StringUnit × List Char) :=
  scanned.map fun p => (u :: p.1, p.2)

/-- The units of a string up to its closing quote, and the text after it. -/
def scanString : List Char → Option (List StringUnit × List Char)
  | [] => none
  | '"' :: rest => some ([], rest)
  | '\\' :: 'u' :: a :: b :: c :: d :: rest =>
    match hex4? a b c d with
    | some unit => pushUnit (.escape unit) (scanString rest)
    | none => none
  | '\\' :: e :: rest =>
    match shortEscape? e with
    | some c => pushUnit (.char c) (scanString rest)
    | none => none
  | c :: rest => if c.toNat < 0x20 then none else pushUnit (.char c) (scanString rest)

/-- Whether a code unit is the first half of a pair. -/
def isHighSurrogate (unit : Nat) : Bool := 0xD800 ≤ unit && unit < 0xDC00

/-- Whether a code unit is the second half of a pair. -/
def isLowSurrogate (unit : Nat) : Bool := 0xDC00 ≤ unit && unit < 0xE000

/-- The character that a pair of code units stands for. -/
def pairChar (high low : Nat) : Char :=
  Char.ofNat (0x10000 + (high - 0xD800) * 0x400 + (low - 0xDC00))

/-- The characters that units stand for: halves of pairs must come together. -/
def decodeUnits : List StringUnit → Option (List Char)
  | [] => some []
  | .char c :: rest => (decodeUnits rest).map (c :: ·)
  | .escape u :: .escape v :: rest =>
    if isHighSurrogate u then
      if isLowSurrogate v then (decodeUnits rest).map (pairChar u v :: ·) else none
    else if isLowSurrogate u then none
    else (decodeUnits (.escape v :: rest)).map (Char.ofNat u :: ·)
  | .escape u :: rest =>
    if isHighSurrogate u || isLowSurrogate u then none
    else (decodeUnits rest).map (Char.ofNat u :: ·)

theorem length_of_scanString {s rest : List Char} {units : List StringUnit}
    (h : scanString s = some (units, rest)) : rest.length < s.length := by
  fun_induction scanString s generalizing units rest with
  | case1 => simp at h
  | case2 => simp at h; simp [h.2]
  | case3 a b c d r unit hu ih =>
    simp only [pushUnit, Option.map_eq_some_iff, Prod.mk.injEq, Prod.exists] at h
    obtain ⟨us, r', hs, _, rfl⟩ := h
    have := ih hs
    simp only [List.length_cons]; omega
  | case4 => simp at h
  | case5 e r _ c hc ih =>
    simp only [pushUnit, Option.map_eq_some_iff, Prod.mk.injEq, Prod.exists] at h
    obtain ⟨us, r', hs, _, rfl⟩ := h
    have := ih hs
    simp only [List.length_cons]; omega
  | case6 => simp at h
  | case7 => simp at h
  | case8 c r _ _ _ _ ih =>
    simp only [pushUnit, Option.map_eq_some_iff, Prod.mk.injEq, Prod.exists] at h
    obtain ⟨us, r', hs, _, rfl⟩ := h
    have := ih hs
    simp only [List.length_cons]; omega

/-! ## Tokens -/

/-- Whether a character is white space between tokens. -/
def isSpace (c : Char) : Bool := c = ' ' || c = '\t' || c = '\n' || c = '\r'

/-- The token that a word stands for. -/
def wordToken? (s : List Char) : Option Token :=
  if s = "null".toList then some .null
  else if s = "true".toList then some (.bool true)
  else if s = "false".toList then some (.bool false)
  else none

/-- The token that is a single character. -/
def punctuation? : Char → Option Token
  | '[' => some .openArray
  | ']' => some .closeArray
  | '{' => some .openObject
  | '}' => some .closeObject
  | ',' => some .comma
  | ':' => some .colon
  | _ => none

/-- The token at the beginning of a text, given by its first character and the rest, and the
text after it. -/
def nextToken? (c : Char) (s : List Char) : Option (Token × List Char) :=
  match punctuation? c with
  | some t => some (t, s)
  | none =>
    if c = '"' then
      match scanString s with
      | some (units, rest) => some (.string ((decodeUnits units).map String.ofList), rest)
      | none => none
    else if c.isDigit || c = '-' then
      let literal := c :: s.takeWhile isNumberChar
      if isNumber literal then
        some (.number (String.ofList literal), s.dropWhile isNumberChar)
      else none
    else if c.isAlpha then
      (wordToken? (c :: s.takeWhile Char.isAlpha)).map fun t => (t, s.dropWhile Char.isAlpha)
    else none

theorem length_dropWhile_le (p : Char → Bool) (s : List Char) :
    (s.dropWhile p).length ≤ s.length :=
  (List.dropWhile_suffix p).length_le

theorem length_of_nextToken? {c : Char} {s rest : List Char} {t : Token}
    (h : nextToken? c s = some (t, rest)) : rest.length ≤ s.length := by
  unfold nextToken? at h
  split at h
  · simp at h; simp [h.2]
  · split at h
    · split at h
      · next hs =>
        simp only [Option.some.injEq, Prod.mk.injEq] at h
        have := length_of_scanString hs
        rw [← h.2]; omega
      · simp at h
    · split at h
      · simp only at h
        split at h
        · simp only [Option.some.injEq, Prod.mk.injEq] at h
          rw [← h.2]; exact length_dropWhile_le _ _
        · simp at h
      · split at h
        · simp only [Option.map_eq_some_iff, Prod.mk.injEq] at h
          obtain ⟨_, _, _, rfl⟩ := h
          exact length_dropWhile_le _ _
        · simp at h

/-- The tokens of a text. -/
def Token.scan (s : List Char) : Option (List Token) :=
  match s with
  | [] => some []
  | c :: s =>
    if isSpace c then scan s
    else match _h : nextToken? c s with
      | some (t, rest) => (scan rest).map (t :: ·)
      | none => none
termination_by s.length
decreasing_by
  · simp
  · have := length_of_nextToken? _h
    simp only [List.length_cons]; omega

end TagWatch.Json
