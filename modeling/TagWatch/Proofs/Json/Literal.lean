import TagWatch.Json.Token

/-!
# How strings are written

Between its quotes a string is a list of units, each a character that stands for itself or an
escape (`StringUnit.Spells`). This is how strings are scanned (`scanString_eq_some_iff`): a quote
that ends a string is the first one in front of which there is no backslash that begins an escape.

Units stand for text (`Denotes`) as long as no half of a pair of code units comes alone, and this is
how they are decoded (`decodeUnits_eq_some_iff`).
-/

namespace TagWatch.Json

open Text (hexValue?)

/-! ## Units -/

/-- The letters behind a backslash, and the characters that they stand for. -/
def escapeLetters : List (Char × Char) :=
  [('"', '"'), ('\\', '\\'), ('/', '/'), ('b', '\x08'), ('f', '\x0c'), ('n', '\n'), ('r', '\r'),
    ('t', '\t')]

/-- How a unit of a string is written. -/
inductive StringUnit.Spells : List Char → StringUnit → Prop
  | plain {c : Char} (hvisible : 0x20 ≤ c.toNat) (hquote : c ≠ '"') (hbackslash : c ≠ '\\') :
    Spells [c] (.char c)
  | short {letter c : Char} (h : (letter, c) ∈ escapeLetters) : Spells ['\\', letter] (.char c)
  | code {a b c d : Char} {i j k l : Nat} (ha : hexValue? a = some i) (hb : hexValue? b = some j)
    (hc : hexValue? c = some k) (hd : hexValue? d = some l) :
    Spells ['\\', 'u', a, b, c, d] (.escape (((i * 16 + j) * 16 + k) * 16 + l))

/-- How a string is written between its quotes. -/
inductive SpellsString : List Char → List StringUnit → Prop
  | nil : SpellsString [] []
  | cons {s rest : List Char} {u : StringUnit} {units : List StringUnit} (hfirst : u.Spells s)
    (hrest : SpellsString rest units) : SpellsString (s ++ rest) (u :: units)

variable {s rest : List Char} {u : StringUnit} {units : List StringUnit}

theorem shortEscape?_eq_some_iff {letter c : Char} :
    shortEscape? letter = some c ↔ (letter, c) ∈ escapeLetters := by
  constructor
  · intro h
    unfold shortEscape? at h
    split at h <;> first | (obtain rfl := Option.some.inj h; decide) | cases h
  · intro h
    simp only [escapeLetters, List.mem_cons, List.not_mem_nil, or_false, Prod.mk.injEq] at h
    rcases h with h | h | h | h | h | h | h | h <;> obtain ⟨rfl, rfl⟩ := h <;> rfl

theorem hex4?_eq_some_iff {a b c d : Char} {n : Nat} : hex4? a b c d = some n ↔
    ∃ i j k l, hexValue? a = some i ∧ hexValue? b = some j ∧ hexValue? c = some k ∧
      hexValue? d = some l ∧ ((i * 16 + j) * 16 + k) * 16 + l = n := by
  simp [hex4?, Option.bind_eq_some_iff]

theorem pushUnit_eq_some_iff {scanned : Option (List StringUnit × List Char)} :
    pushUnit u scanned = some (units, rest) ↔
      ∃ others, units = u :: others ∧ scanned = some (others, rest) := by
  rw [pushUnit, Option.map_eq_some_iff]
  constructor
  · rintro ⟨⟨others, rest'⟩, hscanned, heq⟩
    obtain ⟨rfl, rfl⟩ := Prod.mk.inj heq
    exact ⟨others, rfl, hscanned⟩
  · rintro ⟨others, rfl, hscanned⟩
    exact ⟨(others, rest), hscanned, rfl⟩

/-! ## Scanning -/

/-- A unit is scanned as it is written. -/
theorem scanString_append (h : u.Spells s) :
    scanString (s ++ rest) = pushUnit u (scanString rest) := by
  cases h with
  | @plain c hvisible hquote hbackslash =>
    rw [List.singleton_append, scanString.eq_5 c rest hquote (fun _ _ _ _ _ h _ => hbackslash h)
      (fun _ _ h _ => hbackslash h), if_neg (Nat.not_lt.mpr hvisible)]
  | @short letter c h =>
    have hletter : letter ≠ 'u' := by
      rintro rfl
      simp [escapeLetters] at h
    rw [List.cons_append, List.singleton_append,
      scanString.eq_4 letter rest (fun _ _ _ _ _ h _ => hletter h), shortEscape?_eq_some_iff.mpr h]
  | @code a b c d i j k l ha hb hc hd =>
    have hcode := hex4?_eq_some_iff.mpr ⟨i, j, k, l, ha, hb, hc, hd, rfl⟩
    simp only [List.cons_append, List.nil_append]
    rw [scanString.eq_3, hcode]

theorem scanString_of_spells (h : SpellsString s units) :
    scanString (s ++ '"' :: rest) = some (units, rest) := by
  induction h with
  | nil => rw [List.nil_append, scanString]
  | cons hfirst _ ih =>
    rw [List.append_assoc, scanString_append hfirst, ih, pushUnit, Option.map_some]

theorem exists_spells_of_scanString (h : scanString s = some (units, rest)) :
    ∃ text, s = text ++ '"' :: rest ∧ SpellsString text units := by
  fun_induction scanString s generalizing units with
  | case1 => cases h
  | case2 after =>
    obtain ⟨rfl, rfl⟩ := Prod.mk.inj (Option.some.inj h)
    exact ⟨[], rfl, .nil⟩
  | case3 a b c d after unit hcode ih =>
    obtain ⟨others, rfl, hscan⟩ := pushUnit_eq_some_iff.mp h
    obtain ⟨text, rfl, htext⟩ := ih hscan
    obtain ⟨i, j, k, l, ha, hb, hc, hd, rfl⟩ := hex4?_eq_some_iff.mp hcode
    exact ⟨_, rfl, .cons (.code ha hb hc hd) htext⟩
  | case4 => cases h
  | case5 e after hother c hshort ih =>
    obtain ⟨others, rfl, hscan⟩ := pushUnit_eq_some_iff.mp h
    obtain ⟨text, rfl, htext⟩ := ih hscan
    exact ⟨_, rfl, .cons (.short (shortEscape?_eq_some_iff.mp hshort)) htext⟩
  | case6 => cases h
  | case7 => cases h
  | case8 c after hquote _ hescape hvisible ih =>
    obtain ⟨others, rfl, hscan⟩ := pushUnit_eq_some_iff.mp h
    have hbackslash : c ≠ '\\' := by
      rintro rfl
      -- a backslash at the end of the text is not followed by a quote that ends the string
      cases after with
      | nil => cases hscan
      | cons e after => exact hescape e after rfl rfl
    obtain ⟨text, rfl, htext⟩ := ih hscan
    exact ⟨_, rfl, .cons (.plain (Nat.not_lt.mp hvisible) hquote hbackslash) htext⟩

/-- A string is scanned exactly as it is written. -/
theorem scanString_eq_some_iff : scanString s = some (units, rest) ↔
    ∃ text, s = text ++ '"' :: rest ∧ SpellsString text units := by
  constructor
  · intro h
    exact exists_spells_of_scanString h
  · rintro ⟨text, rfl, htext⟩
    exact scanString_of_spells htext

/-! ## Decoding -/

/-- The text that units stand for. The halves of a pair of code units stand for one character when
they come together, and for nothing when they come alone. -/
inductive Denotes : List StringUnit → List Char → Prop
  | nil : Denotes [] []
  | char {c : Char} {units : List StringUnit} {text : List Char} (hrest : Denotes units text) :
    Denotes (.char c :: units) (c :: text)
  | escape {n : Nat} {units : List StringUnit} {text : List Char}
    (hsingle : n < 0xD800 ∨ 0xE000 ≤ n) (hrest : Denotes units text) :
    Denotes (.escape n :: units) (Char.ofNat n :: text)
  | pair {high low : Nat} {units : List StringUnit} {text : List Char}
    (hhigh : 0xD800 ≤ high ∧ high < 0xDC00) (hlow : 0xDC00 ≤ low ∧ low < 0xE000)
    (hrest : Denotes units text) :
    Denotes (.escape high :: .escape low :: units)
      (Char.ofNat (0x10000 + (high - 0xD800) * 0x400 + (low - 0xDC00)) :: text)

theorem isHighSurrogate_iff {n : Nat} :
    isHighSurrogate n = true ↔ 0xD800 ≤ n ∧ n < 0xDC00 := by
  simp [isHighSurrogate]

theorem isLowSurrogate_iff {n : Nat} : isLowSurrogate n = true ↔ 0xDC00 ≤ n ∧ n < 0xE000 := by
  simp [isLowSurrogate]

theorem isSingle_iff {n : Nat} : (¬ isHighSurrogate n = true ∧ ¬ isLowSurrogate n = true) ↔
    n < 0xD800 ∨ 0xE000 ≤ n := by
  rw [isHighSurrogate_iff, isLowSurrogate_iff]
  omega

theorem denotes_of_decodeUnits {text : List Char} (h : decodeUnits units = some text) :
    Denotes units text := by
  fun_induction decodeUnits units generalizing text with
  | case1 =>
    obtain rfl := Option.some.inj h
    exact .nil
  | case2 c rest ih =>
    obtain ⟨others, hothers, rfl⟩ := Option.map_eq_some_iff.mp h
    exact .char (ih hothers)
  | case3 u v rest hhigh hlow ih =>
    obtain ⟨others, hothers, rfl⟩ := Option.map_eq_some_iff.mp h
    exact .pair (isHighSurrogate_iff.mp hhigh) (isLowSurrogate_iff.mp hlow) (ih hothers)
  | case4 => cases h
  | case5 => cases h
  | case6 u v rest hhigh hlow ih =>
    obtain ⟨others, hothers, rfl⟩ := Option.map_eq_some_iff.mp h
    exact .escape (isSingle_iff.mp ⟨hhigh, hlow⟩) (ih hothers)
  | case7 => cases h
  | case8 u rest _ hsingle ih =>
    obtain ⟨others, hothers, rfl⟩ := Option.map_eq_some_iff.mp h
    rw [Bool.or_eq_true, not_or] at hsingle
    exact .escape (isSingle_iff.mp hsingle) (ih hothers)

theorem decodeUnits_escape {n : Nat} (hsingle : n < 0xD800 ∨ 0xE000 ≤ n) (units : List StringUnit) :
    decodeUnits (.escape n :: units) = (decodeUnits units).map (Char.ofNat n :: ·) := by
  obtain ⟨hhigh, hlow⟩ := isSingle_iff.mpr hsingle
  cases units with
  | nil => simp [decodeUnits, hhigh, hlow]
  | cons u units => cases u <;> simp [decodeUnits, hhigh, hlow]

/-- Units are decoded to the text that they stand for. -/
theorem decodeUnits_eq_some_iff {text : List Char} :
    decodeUnits units = some text ↔ Denotes units text := by
  constructor
  · intro h
    exact denotes_of_decodeUnits h
  · intro h
    induction h with
    | nil => rfl
    | char _ ih => rw [decodeUnits, ih, Option.map_some]
    | escape hsingle _ ih => rw [decodeUnits_escape hsingle, ih, Option.map_some]
    | pair hhigh hlow _ ih =>
      rw [decodeUnits, if_pos (isHighSurrogate_iff.mpr hhigh), if_pos (isLowSurrogate_iff.mpr hlow),
        ih, Option.map_some]
      rfl

/-! ## Strings for all texts -/

theorem hexValue?_digitChar {n : Nat} (h : n < 16) : hexValue? (Nat.digitChar n) = some n := by
  have hall : ∀ n < 16, hexValue? (Nat.digitChar n) = some n := by decide
  exact hall n h

/-- Every character can be written: quotes, backslashes and control characters are escaped. -/
theorem exists_unit (c : Char) : ∃ s u, StringUnit.Spells s u ∧
    ∀ units text, Denotes units text → Denotes (u :: units) (c :: text) := by
  by_cases hshort : (c, c) ∈ escapeLetters
  · exact ⟨_, _, .short hshort, fun _ _ h => .char h⟩
  have hquote : c ≠ '"' := by
    rintro rfl
    exact hshort (by decide)
  have hbackslash : c ≠ '\\' := by
    rintro rfl
    exact hshort (by decide)
  by_cases hvisible : 0x20 ≤ c.toNat
  · exact ⟨_, _, .plain hvisible hquote hbackslash, fun _ _ h => .char h⟩
  · have hzero := hexValue?_digitChar (n := 0) (by decide)
    have hhigh := hexValue?_digitChar (n := c.toNat / 16) (by omega)
    have hlow := hexValue?_digitChar (n := c.toNat % 16) (by omega)
    refine ⟨_, _, .code hzero hzero hhigh hlow, fun units text h => ?_⟩
    have hcode : ((0 * 16 + 0) * 16 + c.toNat / 16) * 16 + c.toNat % 16 = c.toNat := by omega
    rw [hcode]
    have hescape := Denotes.escape (.inl (by omega : c.toNat < 0xD800)) h
    rwa [Char.ofNat_toNat] at hescape

/-- Every text can be written as a string. -/
theorem exists_spellsString (text : List Char) :
    ∃ s units, SpellsString s units ∧ Denotes units text := by
  induction text with
  | nil => exact ⟨_, _, .nil, .nil⟩
  | cons c text ih =>
    obtain ⟨s, units, hspells, hdenotes⟩ := ih
    obtain ⟨first, u, hfirst, hunit⟩ := exists_unit c
    exact ⟨_, _, .cons hfirst hspells, hunit _ _ hdenotes⟩

end TagWatch.Json
