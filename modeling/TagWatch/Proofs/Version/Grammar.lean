import Mathlib.Data.List.Forall2
import TagWatch.Proofs.Registry.Name
import TagWatch.Proofs.Version.Spelling

/-!
# Which tags hold a version

**Theorem (`Version.ofTag?_exact`).** A tag holds a version if and only if it is an optional `v`,
one to three numerals with dots between them and, possibly, a hyphen with an ending after it. The
parts of the version are those of the tag, and an ending is a revision, a prerelease or a variant,
and only one of them.

`Version.Written` is the grammar of tags, and `Ending.Spells` that of endings: what could be a
revision is one, and of the rest what could be a prerelease is one. Both say how a text is put
together, not how it is taken apart. There is only one way to take a tag apart, because no numeral
has a dot or a hyphen in it.
-/

namespace TagWatch

open Text

/-! ## Numerals -/

/-- A numeral that fits into 64 bits: digits alone, and at least one of them. -/
structure Text.IsNumeral (s : List Char) : Prop where
  ne_nil : s ≠ []
  digits : ∀ c ∈ s, c.isDigit = true
  bounded : digitsValue s ≤ 18446744073709551615

theorem Text.word?_eq_some_iff_isNumeral {s : List Char} {n : Nat} :
    word? s = some n ↔ IsNumeral s ∧ digitsValue s = n := by
  rw [word?_eq_some_iff]
  have hbound : digitsValue s < wordBound ↔ digitsValue s ≤ 18446744073709551615 :=
    Nat.lt_succ_iff
  rw [hbound]
  constructor
  · rintro ⟨hne, hdigits, hle, hvalue⟩
    exact ⟨⟨hne, hdigits, hle⟩, hvalue⟩
  · rintro ⟨⟨hne, hdigits, hle⟩, hvalue⟩
    exact ⟨hne, hdigits, hle, hvalue⟩

/-- A numeral that may have a plus sign in front, and its value. -/
def Text.IsSigned (s : List Char) (n : Nat) : Prop :=
  ∃ digits, (s = digits ∨ s = '+' :: digits) ∧ IsNumeral digits ∧ digitsValue digits = n

theorem Text.signedWord?_eq_some_iff {s : List Char} {n : Nat} :
    signedWord? s = some n ↔ IsSigned s n := by
  fun_cases signedWord? s with
  | case1 digits =>
    rw [word?_eq_some_iff_isNumeral]
    constructor
    · rintro ⟨hnumeral, hvalue⟩
      exact ⟨digits, .inr rfl, hnumeral, hvalue⟩
    · rintro ⟨digits', rfl | heq, hnumeral, hvalue⟩
      · exact absurd (hnumeral.digits '+' List.mem_cons_self) (by decide)
      · obtain rfl := (List.cons.inj heq).2
        exact ⟨hnumeral, hvalue⟩
  | case2 s hplus =>
    rw [word?_eq_some_iff_isNumeral]
    constructor
    · rintro ⟨hnumeral, hvalue⟩
      exact ⟨s, .inl rfl, hnumeral, hvalue⟩
    · rintro ⟨digits, rfl | rfl, hnumeral, hvalue⟩
      · exact ⟨hnumeral, hvalue⟩
      · exact absurd rfl (hplus digits)

/-! ## Prereleases -/

/-- How an identifier is written: a number without a leading zero, or letters, digits and hyphens
that are not all digits. -/
inductive Identifier.Spells : List Char → Identifier → Prop
  | number {s : List Char} (ne_nil : s ≠ []) (digits : ∀ c ∈ s, c.isDigit = true)
    (plain : Plain s) : Spells s (.number (digitsValue s))
  | word {s : List Char} (allowed : ∀ c ∈ s, c.isAlphanum = true ∨ c = '-')
    (other : ∃ c ∈ s, c.isDigit = false) : Spells s (.word s)

/-- How a prerelease is written: its identifiers with dots between them. -/
def Prerelease.Spells (s : List Char) (p : Prerelease) : Prop :=
  ∃ parts, parts ≠ [] ∧ s = joinWith '.' parts ∧ List.Forall₂ Identifier.Spells parts p

theorem Identifier.allowed_iff {c : Char} : allowed c = true ↔ c.isAlphanum = true ∨ c = '-' := by
  rw [allowed, Bool.or_eq_true, decide_eq_true_eq]

theorem Identifier.allowed_of_isDigit {c : Char} (h : c.isDigit = true) : allowed c = true := by
  rw [allowed_iff, Char.isAlphanum, h, Bool.or_true]
  exact .inl rfl

theorem Identifier.read?_eq_some_iff {s : List Char} {i : Identifier} :
    read? s = some i ↔ Spells s i := by
  constructor
  · intro h
    unfold read? at h
    split at h
    · cases h
    · next hallowed =>
      rw [Bool.or_eq_true, not_or, List.isEmpty_iff, Bool.not_eq_true', Bool.not_eq_false,
        List.all_eq_true] at hallowed
      obtain ⟨hne, hallowed⟩ := hallowed
      split at h
      · next hother =>
        obtain rfl := Option.some.inj h
        rw [Bool.not_eq_true', List.all_eq_false] at hother
        obtain ⟨c, hc, hdigit⟩ := hother
        exact .word (fun c hc => allowed_iff.mp (hallowed c hc))
          ⟨c, hc, Bool.eq_false_iff.mpr hdigit⟩
      · next hdigits =>
        rw [Bool.not_eq_true', Bool.not_eq_false, List.all_eq_true] at hdigits
        split at h
        · cases h
        · next hzero =>
          obtain rfl := Option.some.inj h
          refine .number hne hdigits fun hhead => ?_
          obtain ⟨rest, rfl⟩ := List.head?_eq_some_iff.mp hhead
          cases rest with
          | nil => rfl
          | cons d rest => exact absurd rfl (hzero d rest)
  · rintro (⟨hne, hdigits, hplain⟩ | ⟨hallowed, c, hc, hdigit⟩)
    · have hall : s.all allowed = true :=
        List.all_eq_true.mpr fun c hc => allowed_of_isDigit (hdigits c hc)
      unfold read?
      rw [if_neg (by simp [hne, hall]), if_neg (by simpa using hdigits)]
      split
      · exact absurd (hplain rfl) (by simp)
      · rfl
    · have hall : s.all allowed = true :=
        List.all_eq_true.mpr fun c hc => allowed_iff.mpr (hallowed c hc)
      unfold read?
      rw [if_neg (by simp [List.ne_nil_of_mem hc, hall]), if_pos]
      simpa using ⟨c, hc, hdigit⟩

theorem Identifier.Spells.not_mem_dot {s : List Char} {i : Identifier} (h : Spells s i) :
    '.' ∉ s := by
  intro hmem
  cases h with
  | number _ digits _ => exact absurd (digits '.' hmem) (by decide)
  | word allowed _ => exact absurd (allowed '.' hmem) (by decide)

theorem Identifier.Spells.render {s : List Char} {i : Identifier} (h : Spells s i) :
    i.render = s := by
  cases h with
  | number ne_nil digits plain => exact (plain.eq_toDigits ne_nil digits).symm
  | word _ _ => rfl

theorem Prerelease.read?_eq_some_iff {s : List Char} {p : Prerelease} :
    read? s = some p ↔ Spells s p := by
  rw [read?, mapM_eq_some_iff]
  simp only [Identifier.read?_eq_some_iff]
  constructor
  · intro h
    exact ⟨fields '.' s, fields_ne_nil '.' s, (joinWith_fields '.' s).symm, h⟩
  · rintro ⟨parts, hne, rfl, h⟩
    have hdots : ∀ part ∈ parts, '.' ∉ part :=
      ((List.forall₂_and_left _ _).mp (h.imp fun _ _ hi => ⟨hi.not_mem_dot, hi⟩)).1
    rw [fields_joinWith '.' hne hdots]
    exact h

/-- A prerelease is written as it is read. -/
theorem Prerelease.Spells.render {s : List Char} {p : Prerelease} (h : Spells s p) :
    p.render = String.ofList s := by
  obtain ⟨parts, -, rfl, h⟩ := h
  have hparts : p.map Identifier.render = parts := by
    induction h with
    | nil => rfl
    | cons hi _ ih => rw [List.map_cons, hi.render, ih]
  rw [Prerelease.render, hparts]

theorem Prerelease.Spells.ne_nil {s : List Char} {p : Prerelease} (h : Spells s p) : p ≠ [] := by
  obtain ⟨parts, hne, -, hparts⟩ := h
  rintro rfl
  exact hne (List.forall₂_nil_right_iff.mp hparts)

/-- A text begins, in letters of any case, with a word that marks prereleases, and the word is not
the beginning of a longer one. -/
def HasMarker (s : List Char) : Prop :=
  ∃ marker ∈ prereleaseMarkers, ∃ word after, s = word ++ after ∧ lower word = marker.toList ∧
    ∀ c, after.head? = some c → c.isDigit = true ∨ c = '.' ∨ c = '-'

/-- Making letters small changes no character into one that is no letter. -/
theorem toLower_eq_iff {c d : Char} (hd : d.toNat < 65) : c.toLower = d ↔ c = d := by
  rw [← Char.toNat_inj, ← Char.toNat_inj (c := c), toNat_toLower]
  split <;> omega

theorem isDigit_toLower (c : Char) : c.toLower.isDigit = c.isDigit := by
  have hdigit (d : Char) : d.isDigit = true ↔ 48 ≤ d.toNat ∧ d.toNat ≤ 57 := by
    rw [Char.isDigit, Bool.and_eq_true, decide_eq_true_eq, decide_eq_true_eq]
    exact Iff.rfl
  rw [Bool.eq_iff_iff, hdigit, hdigit, toNat_toLower]
  split <;> omega

theorem endsMarker_lower {s : List Char} : endsMarker (lower s) = true ↔
    ∀ c, s.head? = some c → c.isDigit = true ∨ c = '.' ∨ c = '-' := by
  cases s with
  | nil => simp [lower, endsMarker]
  | cons c s =>
    simp [lower, endsMarker, isDigit_toLower, toLower_eq_iff (d := '.') (by decide),
      toLower_eq_iff (d := '-') (by decide), or_assoc]

theorem hasMarker_iff {s : List Char} : hasMarker s = true ↔ HasMarker s := by
  rw [hasMarker, List.any_eq_true]
  refine exists_congr fun marker => and_congr_right fun _ => ?_
  rw [Option.any_eq_true]
  constructor
  · rintro ⟨rest, hstrip, hends⟩
    obtain ⟨word, after, rfl, hword, rfl⟩ :=
      List.map_eq_append_iff.mp (strip?_eq_some_iff.mp hstrip)
    exact ⟨word, after, rfl, hword, endsMarker_lower.mp hends⟩
  · rintro ⟨word, after, rfl, hword, hafter⟩
    refine ⟨lower after, strip?_eq_some_iff.mpr ?_, endsMarker_lower.mpr hafter⟩
    rw [← hword, lower, List.map_append]
    rfl

/-! ## Endings -/

/-- How an ending is written, if there is one: what is neither a revision nor a prerelease is a
variant. -/
inductive Ending.Spells : Option (List Char) → Ending → Prop
  | none : Spells Option.none .none
  | revision {s : List Char} {n : Nat} (revision : IsSigned s n) : Spells (some s) (.revision n)
  | prerelease {s : List Char} {p : Prerelease} (other : ∀ n, ¬ IsSigned s n)
    (marker : HasMarker s) (identifiers : Prerelease.Spells s p) : Spells (some s) (.prerelease p)
  | variant {s : List Char} (other : ∀ n, ¬ IsSigned s n)
    (unmarked : ¬ (HasMarker s ∧ ∃ p, Prerelease.Spells s p)) :
    Spells (some s) (.variant (String.ofList s))

theorem Ending.spells_ofText (s : List Char) : Spells (some s) (ofText s) := by
  rw [ofText]
  cases hrev : signedWord? s with
  | some n => exact .revision (signedWord?_eq_some_iff.mp hrev)
  | none =>
    have hother (n : Nat) : ¬ IsSigned s n := by
      rw [← signedWord?_eq_some_iff, hrev]
      exact Option.some_ne_none n ∘ Eq.symm
    dsimp only
    split
    · next hmarker =>
      cases hp : Prerelease.read? s with
      | some p =>
        exact .prerelease hother (hasMarker_iff.mp hmarker) (Prerelease.read?_eq_some_iff.mp hp)
      | none =>
        refine .variant hother ?_
        rintro ⟨-, p, hspells⟩
        rw [Prerelease.read?_eq_some_iff.mpr hspells] at hp
        cases hp
    · next hmarker => exact .variant hother fun h => hmarker (hasMarker_iff.mpr h.1)

/-- A text spells one ending only. -/
theorem Ending.Spells.unique {rest : Option (List Char)} {e e' : Ending} (h : Spells rest e)
    (h' : Spells rest e') : e = e' := by
  cases h with
  | none => cases h'; rfl
  | revision hrev =>
    cases h' with
    | revision hrev' =>
      have hread := signedWord?_eq_some_iff.mpr hrev
      rw [signedWord?_eq_some_iff.mpr hrev'] at hread
      exact congrArg Ending.revision (Option.some.inj hread).symm
    | prerelease hother _ _ => exact absurd hrev (hother _)
    | variant hother _ => exact absurd hrev (hother _)
  | prerelease hother hmarker hspells =>
    cases h' with
    | revision hrev' => exact absurd hrev' (hother _)
    | prerelease _ _ hspells' =>
      have hread := Prerelease.read?_eq_some_iff.mpr hspells
      rw [Prerelease.read?_eq_some_iff.mpr hspells'] at hread
      exact congrArg Ending.prerelease (Option.some.inj hread).symm
    | variant _ hunmarked => exact absurd ⟨hmarker, _, hspells⟩ hunmarked
  | variant hother hunmarked =>
    cases h' with
    | revision hrev' => exact absurd hrev' (hother _)
    | prerelease _ hmarker hspells => exact absurd ⟨hmarker, _, hspells⟩ hunmarked
    | variant _ _ => rfl

namespace Version

/-! ## Tags -/

/-- How a tag that holds a version is written: a mark, numerals with dots between them, and possibly
a hyphen with an ending after it. -/
structure Written (tag : String) (mark : List Char) (numerals : List (List Char))
    (ending : Option (List Char)) : Prop where
  toList : tag.toList = mark ++ joinWith '.' numerals ++ (ending.map ('-' :: ·)).getD []
  mark : mark = [] ∨ mark = ['v'] ∨ mark = ['V']
  count : 1 ≤ numerals.length ∧ numerals.length ≤ 3
  numerals : ∀ s ∈ numerals, IsNumeral s
  ending : ∀ s, ending = some s → s ≠ [] ∧ '\n' ∉ s

/-- The parts of a version, read off the parts of a tag. -/
structure HasParts (v : Version) (mark : List Char) (numerals : List (List Char))
    (ending : Option (List Char)) : Prop where
  prefixed : v.prefixed = true ↔ mark ≠ []
  components : v.components = numerals.length
  /-- Numbers that are not written are zero. -/
  numbers : [v.major, v.minor, v.patch] = (numerals.map digitsValue).rightpad 3 0
  ending : Ending.Spells ending v.ending

variable {tag : String} {v : Version} {mark : List Char} {numerals : List (List Char)}
  {ending : Option (List Char)}

theorem ofNumbers_eq_some_iff {prefixed : Bool} {e : Ending} {ns : List Nat} :
    ofNumbers prefixed e ns = some v ↔ (1 ≤ ns.length ∧ ns.length ≤ 3) ∧ v.prefixed = prefixed ∧
      v.components = ns.length ∧ [v.major, v.minor, v.patch] = ns.rightpad 3 0 ∧ v.ending = e := by
  constructor
  · intro h
    unfold ofNumbers at h
    split at h
    · obtain rfl := Option.some.inj h
      exact ⟨by simp, rfl, rfl, rfl, rfl⟩
    · obtain rfl := Option.some.inj h
      exact ⟨by simp, rfl, rfl, rfl, rfl⟩
    · obtain rfl := Option.some.inj h
      exact ⟨by simp, rfl, rfl, rfl, rfl⟩
    · cases h
  · obtain ⟨_, _, major, minor, patch, _⟩ := v
    rintro ⟨hcount, rfl, rfl, hnumbers, rfl⟩
    match ns, hcount with
    | [a], _ =>
      obtain ⟨⟩ : [major, minor, patch] = [a, 0, 0] := hnumbers
      rfl
    | [a, b], _ =>
      obtain ⟨⟩ : [major, minor, patch] = [a, b, 0] := hnumbers
      rfl
    | [a, b, c], _ =>
      obtain ⟨⟩ : [major, minor, patch] = [a, b, c] := hnumbers
      rfl

theorem dropMark_append {s : List Char} (hmark : mark = [] ∨ mark = ['v'] ∨ mark = ['V'])
    (hs : ∀ c, s.head? = some c → c.isDigit = true) :
    dropMark (mark ++ s) = (!mark.isEmpty, s) := by
  rcases hmark with rfl | rfl | rfl
  · refine dropMark.eq_3 s ?_ ?_
    · rintro rest rfl
      exact absurd (hs 'v' rfl) (by decide)
    · rintro rest rfl
      exact absurd (hs 'V' rfl) (by decide)
  · rfl
  · rfl

theorem markIn_cases (s : List Char) : markIn s = [] ∨ markIn s = ['v'] ∨ markIn s = ['V'] := by
  fun_cases markIn s with
  | case1 => exact .inr (.inl rfl)
  | case2 => exact .inr (.inr rfl)
  | case3 => exact .inl rfl

namespace Written

variable (h : Written tag mark numerals ending)
include h

theorem head_isDigit {c : Char} (hc : (joinWith '.' numerals).head? = some c) :
    c.isDigit = true := by
  match numerals, h.count, h.numerals with
  | first :: others, _, hall =>
    obtain ⟨d, digits, rfl⟩ := List.exists_cons_of_ne_nil (hall first List.mem_cons_self).ne_nil
    have hd : d = c := by
      cases others with
      | nil => exact Option.some.inj hc
      | cons _ _ => exact Option.some.inj hc
    exact hd ▸ (hall _ List.mem_cons_self).digits d List.mem_cons_self

/-- A character that is no digit, no dot and no `v` is in the ending only. -/
theorem not_mem_head {c : Char} (hdigit : c.isDigit = false) (hdot : c ≠ '.') (hv : c ≠ 'v')
    (hV : c ≠ 'V') : c ∉ mark ++ joinWith '.' numerals := by
  rw [List.mem_append, not_or]
  constructor
  · rcases h.mark with rfl | rfl | rfl <;> simp [hv, hV]
  · intro hmem
    rcases mem_joinWith '.' hmem with heq | ⟨part, hpart, hc⟩
    · exact hdot heq
    · rw [(h.numerals part hpart).digits c hc] at hdigit
      cases hdigit

theorem ofHead_eq (e : Ending) : ofHead (mark ++ joinWith '.' numerals) e =
    ofNumbers (!mark.isEmpty) e (numerals.map digitsValue) := by
  have hne : numerals ≠ [] := List.ne_nil_of_length_pos h.count.1
  have hdots : ∀ s ∈ numerals, '.' ∉ s := fun s hs hdot =>
    absurd ((h.numerals s hs).digits '.' hdot) (by decide)
  have hread : numerals.mapM word? = some (numerals.map digitsValue) := by
    rw [mapM_eq_some_iff, List.forall₂_map_right_iff, List.forall₂_same]
    exact fun s hs => word?_eq_some_iff_isNumeral.mpr ⟨h.numerals s hs, rfl⟩
  rw [ofHead, dropMark_append h.mark fun c => h.head_isDigit]
  show ((fields '.' (joinWith '.' numerals)).mapM word?).bind _ = _
  rw [fields_joinWith '.' hne hdots, hread]
  rfl

/-- The first hyphen of a tag is the one in front of its ending. -/
theorem cut_eq : cut '-' tag.toList = ending.map (mark ++ joinWith '.' numerals, ·) := by
  have hhyphen : '-' ∉ mark ++ joinWith '.' numerals :=
    h.not_mem_head (by decide) (by decide) (by decide) (by decide)
  rw [h.toList]
  cases ending with
  | none =>
    rw [Option.map_none, Option.getD_none, List.append_nil]
    exact cut_eq_none_iff.mpr hhyphen
  | some s =>
    rw [Option.map_some, Option.getD_some]
    exact cut_eq_some_iff.mpr ⟨rfl, hhyphen⟩

theorem ofTag?_eq : ofTag? tag = ofNumbers (!mark.isEmpty) (ending.elim .none Ending.ofText)
    (numerals.map digitsValue) := by
  rw [ofTag?, ofChars?, h.cut_eq]
  cases ending with
  | none =>
    have htag := h.toList
    rw [Option.map_none, Option.getD_none, List.append_nil] at htag
    rw [htag]
    exact h.ofHead_eq _
  | some s =>
    obtain ⟨hne, hline⟩ := h.ending s rfl
    show (if s.isEmpty || s.contains '\n' then none else _) = _
    rw [if_neg (by simp [hne, hline])]
    exact h.ofHead_eq _

/-- However a tag is put together, the parts of its version are those. -/
theorem ofTag?_eq_some_iff : ofTag? tag = some v ↔ v.HasParts mark numerals ending := by
  have hmark : v.prefixed = !mark.isEmpty ↔ (v.prefixed = true ↔ mark ≠ []) := by
    rcases h.mark with rfl | rfl | rfl <;> simp
  have hending : v.ending = ending.elim .none Ending.ofText ↔ Ending.Spells ending v.ending := by
    have hspells : Ending.Spells ending (ending.elim .none Ending.ofText) := by
      cases ending with
      | none => exact .none
      | some s => exact Ending.spells_ofText s
    constructor
    · intro heq
      exact heq ▸ hspells
    · intro hv
      exact hv.unique hspells
  rw [h.ofTag?_eq, ofNumbers_eq_some_iff, hmark, hending, List.length_map]
  constructor
  · rintro ⟨-, hprefixed, hcomponents, hnumbers, hspells⟩
    exact ⟨hprefixed, hcomponents, hnumbers, hspells⟩
  · rintro ⟨hprefixed, hcomponents, hnumbers, hspells⟩
    exact ⟨h.count, hprefixed, hcomponents, hnumbers, hspells⟩

theorem exists_ofTag? : ∃ v, ofTag? tag = some v := by
  rw [h.ofTag?_eq]
  match numerals, h.count with
  | [a], _ => exact ⟨_, rfl⟩
  | [a, b], _ => exact ⟨_, rfl⟩
  | [a, b, c], _ => exact ⟨_, rfl⟩

end Written

/-- A text that is read as the numbers of a version is put together from a mark and numerals. -/
theorem exists_numerals {head : List Char} {e : Ending} (h : ofHead head e = some v) :
    ∃ mark numerals, head = mark ++ joinWith '.' numerals ∧
      (mark = [] ∨ mark = ['v'] ∨ mark = ['V']) ∧
      (1 ≤ numerals.length ∧ numerals.length ≤ 3) ∧ ∀ s ∈ numerals, IsNumeral s := by
  obtain ⟨ns, hns, hv⟩ := Option.bind_eq_some_iff.mp h
  have hread : List.Forall₂ (fun s n => word? s = some n) (fields '.' (dropMark head).2) ns :=
    mapM_eq_some_iff.mp hns
  have hnumerals := (List.forall₂_and_left _ _).mp
    (hread.imp fun _ _ hn => ⟨(word?_eq_some_iff_isNumeral.mp hn).1, hn⟩)
  refine ⟨markIn head, fields '.' (dropMark head).2, ?_, markIn_cases head, ?_, hnumerals.1⟩
  · rw [joinWith_fields, markIn_append_dropMark]
  · exact hread.length_eq ▸ (ofNumbers_eq_some_iff.mp hv).1

/-- A tag that holds a version is put together from its parts. -/
theorem exists_written (h : ofTag? tag = some v) :
    ∃ mark numerals ending, Written tag mark numerals ending := by
  rw [ofTag?, ofChars?] at h
  cases hcut : cut '-' tag.toList with
  | none =>
    rw [hcut] at h
    obtain ⟨mark, numerals, hhead, hmark, hcount, hnumerals⟩ := exists_numerals h
    refine ⟨mark, numerals, none, ?_, hmark, hcount, hnumerals, fun s hs => by cases hs⟩
    rw [hhead]
    exact (List.append_nil _).symm
  | some p =>
    obtain ⟨head, rest⟩ := p
    rw [hcut] at h
    dsimp only at h
    split at h
    · cases h
    · next hrest =>
      rw [Bool.or_eq_true, not_or, List.isEmpty_iff, List.contains_iff_mem] at hrest
      obtain ⟨mark, numerals, rfl, hmark, hcount, hnumerals⟩ := exists_numerals h
      refine ⟨mark, numerals, some rest, (cut_eq_some_iff.mp hcut).1, hmark, hcount, hnumerals, ?_⟩
      rintro s ⟨⟩
      exact hrest

/-- What a version tells about the ending of its tag. Without an ending there is neither a revision
nor a prerelease nor a variant; otherwise there is one of them, and no other. -/
def Classifies (v : Version) : Option (List Char) → Prop
  | none => v.revision = none ∧ v.isPrerelease = false ∧ v.variant = none
  | some s =>
    (∃ n, IsSigned s n ∧ v.revision = some n ∧ v.isPrerelease = false ∧ v.variant = none) ∨
    ((∀ n, ¬ IsSigned s n) ∧
      ((HasMarker s ∧ Prerelease.Spells s v.prerelease ∧ v.prerelease.render = String.ofList s ∧
          v.revision = none ∧ v.isPrerelease = true ∧ v.variant = none) ∨
        (¬ (HasMarker s ∧ ∃ p, Prerelease.Spells s p) ∧ v.revision = none ∧
          v.isPrerelease = false ∧ v.variant = some (String.ofList s))))

theorem HasParts.classifies (h : v.HasParts mark numerals ending) : v.Classifies ending := by
  obtain ⟨_, _, _, _, _, e⟩ := v
  have hspells : Ending.Spells ending e := h.ending
  cases hspells with
  | none => exact ⟨rfl, rfl, rfl⟩
  | revision hsigned => exact .inl ⟨_, hsigned, rfl, rfl, rfl⟩
  | prerelease hother hmarker hparts =>
    refine .inr ⟨hother, .inl ⟨hmarker, hparts, hparts.render, rfl, ?_, rfl⟩⟩
    rw [isPrerelease, Bool.not_eq_true', List.isEmpty_eq_false_iff]
    exact hparts.ne_nil
  | variant hother hunmarked => exact .inr ⟨hother, .inr ⟨hunmarked, rfl, rfl, rfl⟩⟩

/-- **The tags that hold a version are those that are written as the grammar says**, and the
version has the parts that are written. -/
theorem ofTag?_exact (tag : String) :
    ((ofTag? tag).isSome = true ↔ ∃ mark numerals ending, Written tag mark numerals ending) ∧
      ∀ mark numerals ending, Written tag mark numerals ending →
        ∃ v, ofTag? tag = some v ∧ v.HasParts mark numerals ending ∧ v.Classifies ending := by
  have hparts (mark : List Char) (numerals : List (List Char)) (ending : Option (List Char))
      (h : Written tag mark numerals ending) :
      ∃ v, ofTag? tag = some v ∧ v.HasParts mark numerals ending ∧ v.Classifies ending := by
    obtain ⟨v, hv⟩ := h.exists_ofTag?
    have hv' := h.ofTag?_eq_some_iff.mp hv
    exact ⟨v, hv, hv', hv'.classifies⟩
  refine ⟨⟨fun h => ?_, ?_⟩, hparts⟩
  · obtain ⟨v, hv⟩ := Option.isSome_iff_exists.mp h
    exact exists_written hv
  · rintro ⟨mark, numerals, ending, h⟩
    obtain ⟨v, hv, -⟩ := hparts mark numerals ending h
    exact Option.isSome_iff_exists.mpr ⟨v, hv⟩

/-- A tag with a mark, a leading zero and a prerelease in capital letters. -/
theorem ofTag?_exact_candidate :
    Written "v1.02-RC.1" ['v'] [['1'], ['0', '2']] (some ['R', 'C', '.', '1']) ∧
      ofTag? "v1.02-RC.1" =
        some ⟨true, 2, 1, 2, 0, .prerelease [.word ['R', 'C'], .number 1]⟩ ∧
      ∃ v, ofTag? "v1.02-RC.1" = some v ∧
        v.HasParts ['v'] [['1'], ['0', '2']] (some ['R', 'C', '.', '1']) ∧
        v.Classifies (some ['R', 'C', '.', '1']) := by
  have h : Written "v1.02-RC.1" ['v'] [['1'], ['0', '2']] (some ['R', 'C', '.', '1']) := by
    refine ⟨rfl, .inr (.inl rfl), by decide, ?_, ?_⟩
    · rintro s hs
      rcases List.mem_pair.mp hs with rfl | rfl
      · exact ⟨by decide, List.all_eq_true.mp (by decide), by decide⟩
      · exact ⟨by decide, List.all_eq_true.mp (by decide), by decide⟩
    · rintro s ⟨⟩
      decide
  exact ⟨h, by decide +kernel, (ofTag?_exact _).2 _ _ _ h⟩

/-- Digits of other scripts are no digits of a numeral. -/
example : ofTag? "١.2" = none := by decide +kernel

end Version

end TagWatch
