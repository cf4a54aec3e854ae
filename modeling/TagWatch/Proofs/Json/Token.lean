import Mathlib.Data.List.Chain
import TagWatch.Proofs.Json.Literal
import TagWatch.Proofs.Json.Number

/-!
# How tokens are written

A token is a character, a word, a number or a string (`Token.Spells`). A text of tokens has white
space around each of them (`SpellsTokens`).

A text that is scanned is a text of the tokens that are found (`Token.spellsTokens_of_scan`). In the
other direction a text is scanned to its tokens as long as no number and no word is followed by
another one, which would be read as its continuation: of two neighbours one is a single character
(`Token.scan_of_spellsTokens`).
-/

namespace TagWatch.Json

namespace Token

/-- How a token is written. A string that spells half a pair of code units has no content. -/
inductive Spells : List Char → Token → Prop
  | openArray : Spells ['['] .openArray
  | closeArray : Spells [']'] .closeArray
  | openObject : Spells ['{'] .openObject
  | closeObject : Spells ['}'] .closeObject
  | comma : Spells [','] .comma
  | colon : Spells [':'] .colon
  | null : Spells ['n', 'u', 'l', 'l'] .null
  | yes : Spells ['t', 'r', 'u', 'e'] (.bool true)
  | no : Spells ['f', 'a', 'l', 's', 'e'] (.bool false)
  | number {s : List Char} (h : SpellsNumber s) : Spells s (.number (String.ofList s))
  | string {s : List Char} {units : List StringUnit} {content : Option String}
    (h : SpellsString s units)
    (hcontent : ∀ text, content = some text ↔ Denotes units text.toList) :
    Spells ('"' :: (s ++ ['"'])) (.string content)

/-- Whether a token is a single character. -/
def isMark : Token → Bool
  | .openArray | .closeArray | .openObject | .closeObject | .comma | .colon => true
  | _ => false

/-- Tokens of which one is a single character can stand side by side. -/
def Apart (t u : Token) : Prop := t.isMark = true ∨ u.isMark = true

end Token

/-- White space. -/
def IsSpaces (s : List Char) : Prop := ∀ c ∈ s, isSpace c = true

/-- How tokens are written one after another, with white space around each of them. -/
inductive SpellsTokens : List Char → List Token → Prop
  | nil {spaces : List Char} (hspaces : IsSpaces spaces) : SpellsTokens spaces []
  | cons {spaces s rest : List Char} {t : Token} {ts : List Token} (hspaces : IsSpaces spaces)
    (hfirst : t.Spells s) (hrest : SpellsTokens rest ts) :
    SpellsTokens (spaces ++ (s ++ rest)) (t :: ts)

namespace Token

variable {s rest : List Char} {c : Char} {t : Token} {ts : List Token}

/-! ## Single characters -/

theorem punctuation?_eq_some_iff : punctuation? c = some t ↔ t.isMark = true ∧ t.Spells [c] := by
  constructor
  · intro h
    unfold punctuation? at h
    split at h
    · obtain rfl := Option.some.inj h; exact ⟨rfl, .openArray⟩
    · obtain rfl := Option.some.inj h; exact ⟨rfl, .closeArray⟩
    · obtain rfl := Option.some.inj h; exact ⟨rfl, .openObject⟩
    · obtain rfl := Option.some.inj h; exact ⟨rfl, .closeObject⟩
    · obtain rfl := Option.some.inj h; exact ⟨rfl, .comma⟩
    · obtain rfl := Option.some.inj h; exact ⟨rfl, .colon⟩
    · cases h
  · rintro ⟨hmark, hspells⟩
    generalize hs : [c] = s at hspells
    cases hspells with
    | number _ => cases hmark
    | string _ _ => cases hmark
    | _ => first | (obtain rfl := (List.cons.inj hs).1; rfl) | cases hs

/-- A single character is written in one way. -/
theorem Spells.eq_singleton (h : t.Spells s) (hmark : t.isMark = true) :
    ∃ c, s = [c] ∧ punctuation? c = some t := by
  cases h with
  | number _ => cases hmark
  | string _ _ => cases hmark
  | _ => first | exact ⟨_, rfl, rfl⟩ | cases hmark

theorem punctuation?_of_digit (hc : (c.isDigit || c = '-') = true) :
    punctuation? c = none ∧ c ≠ '"' := by
  constructor
  · unfold punctuation?
    split <;> simp_all
  · rintro rfl
    simp at hc

/-! ## One token -/

theorem decodeUnits_map_eq {units : List StringUnit} {content : Option String}
    (h : ∀ text, content = some text ↔ Denotes units text.toList) :
    (decodeUnits units).map String.ofList = content := by
  ext text
  rw [Option.map_eq_some_iff, h]
  constructor
  · rintro ⟨cs, hcs, rfl⟩
    rw [String.toList_ofList]
    exact decodeUnits_eq_some_iff.mp hcs
  · intro hdenotes
    exact ⟨text.toList, decodeUnits_eq_some_iff.mpr hdenotes, String.ofList_toList⟩

/-- A text that does not go on with a number or a word. -/
def Stops (rest : List Char) : Prop :=
  ∀ c, rest.head? = some c → isNumberChar c = false ∧ c.isAlpha = false

theorem nextToken?_word {word : List Char} (hfirst : punctuation? c = none)
    (hquote : c ≠ '"') (hdigit : (c.isDigit || c = '-') = false)
    (halpha : ∀ d ∈ c :: word, d.isAlpha = true) (hstops : Stops rest) :
    nextToken? c (word ++ rest) = (wordToken? (c :: word)).map fun t => (t, rest) := by
  have hword (d : Char) (hd : d ∈ word) := halpha d (List.mem_cons_of_mem c hd)
  have hrest (d : Char) (hd : rest.head? = some d) := (hstops d hd).2
  unfold nextToken?
  rw [hfirst]
  simp only [if_neg hquote, hdigit, halpha c List.mem_cons_self,
    takeWhile_append_of_stop hword hrest, dropWhile_append_of_stop hword hrest]
  rfl

/-- A token is found as it is written, if it is a single character or the text stops after it. -/
theorem nextToken?_of_spells (h : t.Spells (c :: s)) (hend : t.isMark = true ∨ Stops rest) :
    nextToken? c (s ++ rest) = some (t, rest) := by
  rcases hend with hmark | hstops
  · obtain ⟨d, hd, hpunctuation⟩ := h.eq_singleton hmark
    obtain ⟨rfl, rfl⟩ := List.cons.inj hd
    simp [nextToken?, hpunctuation]
  · generalize hs : c :: s = written at h
    cases h with
    | number h =>
      subst hs
      obtain ⟨d, others, hd, hdigit⟩ := h.head
      obtain rfl := (List.cons.inj hd).1
      obtain ⟨hfirst, hquote⟩ := punctuation?_of_digit hdigit
      have hall (d : Char) (hd : d ∈ s) := h.isNumberChar d (List.mem_cons_of_mem c hd)
      have hrest (d : Char) (hd : rest.head? = some d) := (hstops d hd).1
      unfold nextToken?
      rw [hfirst]
      simp only [if_neg hquote, hdigit, if_true, takeWhile_append_of_stop hall hrest,
        dropWhile_append_of_stop hall hrest, isNumber_iff.mpr h]
    | string h hcontent =>
      obtain ⟨rfl, rfl⟩ := List.cons.inj hs
      rw [List.append_assoc, List.singleton_append, nextToken?, scanString_of_spells h,
        ← decodeUnits_map_eq hcontent]
      rfl
    | null =>
      obtain ⟨rfl, rfl⟩ := List.cons.inj hs
      exact nextToken?_word rfl (by decide) rfl (List.all_eq_true.mp rfl) hstops
    | yes =>
      obtain ⟨rfl, rfl⟩ := List.cons.inj hs
      exact nextToken?_word rfl (by decide) rfl (List.all_eq_true.mp rfl) hstops
    | no =>
      obtain ⟨rfl, rfl⟩ := List.cons.inj hs
      exact nextToken?_word rfl (by decide) rfl (List.all_eq_true.mp rfl) hstops
    | _ =>
      obtain ⟨rfl, rfl⟩ := List.cons.inj hs
      rfl

theorem spells_of_wordToken? (h : wordToken? s = some t) : t.Spells s := by
  unfold wordToken? at h
  split at h
  · next hs => obtain rfl := Option.some.inj h; exact hs ▸ .null
  · split at h
    · next hs => obtain rfl := Option.some.inj h; exact hs ▸ .yes
    · split at h
      · next hs => obtain rfl := Option.some.inj h; exact hs ▸ .no
      · cases h

/-- A token that is found is written at the beginning of the text. -/
theorem spells_of_nextToken? (h : nextToken? c s = some (t, rest)) :
    ∃ written, c :: s = written ++ rest ∧ t.Spells written := by
  unfold nextToken? at h
  split at h
  · next hpunctuation =>
    obtain ⟨rfl, rfl⟩ := Prod.mk.inj (Option.some.inj h)
    exact ⟨[c], rfl, (punctuation?_eq_some_iff.mp hpunctuation).2⟩
  · split at h
    · next hquote =>
      subst hquote
      split at h
      · next units after hscan =>
        obtain ⟨rfl, rfl⟩ := Prod.mk.inj (Option.some.inj h)
        obtain ⟨text, rfl, htext⟩ := scanString_eq_some_iff.mp hscan
        refine ⟨'"' :: (text ++ ['"']), by simp, .string htext fun content => ?_⟩
        rw [← decodeUnits_eq_some_iff, Option.map_eq_some_iff]
        constructor
        · rintro ⟨cs, hcs, rfl⟩
          rw [hcs, String.toList_ofList]
        · intro hcontent
          exact ⟨_, hcontent, String.ofList_toList⟩
      · cases h
    · split at h
      · dsimp only at h
        split at h
        · next hnumber =>
          obtain ⟨rfl, rfl⟩ := Prod.mk.inj (Option.some.inj h)
          refine ⟨c :: s.takeWhile isNumberChar, ?_, .number (isNumber_iff.mp hnumber)⟩
          rw [List.cons_append, List.takeWhile_append_dropWhile]
        · cases h
      · split at h
        · obtain ⟨word, hword, heq⟩ := Option.map_eq_some_iff.mp h
          obtain ⟨rfl, rfl⟩ := Prod.mk.inj heq
          refine ⟨c :: s.takeWhile Char.isAlpha, ?_, spells_of_wordToken? hword⟩
          rw [List.cons_append, List.takeWhile_append_dropWhile]
        · cases h

/-- The first character of a token is no white space. -/
theorem Spells.head (h : t.Spells s) : ∃ c rest, s = c :: rest ∧ isSpace c = false := by
  cases h with
  | number h =>
    obtain ⟨c, rest, rfl, hdigit⟩ := h.head
    refine ⟨c, rest, rfl, ?_⟩
    by_contra hspace
    rw [Bool.not_eq_false] at hspace
    simp only [isSpace, Bool.or_eq_true, decide_eq_true_eq, or_assoc] at hspace
    rcases hspace with rfl | rfl | rfl | rfl <;> cases hdigit
  | _ => exact ⟨_, _, rfl, rfl⟩

theorem exists_spells_ofNat (n : Nat) : ∃ s, Spells s (.number (toString n)) := by
  refine ⟨Nat.toDigits 10 n, ?_⟩
  rw [Nat.toString_eq_ofList_toDigits]
  exact .number (spellsNumber_toDigits n)

theorem exists_spells_ofText (text : String) : ∃ s, Spells s (.string (some text)) := by
  obtain ⟨s, units, hspells, hdenotes⟩ := exists_spellsString text.toList
  refine ⟨_, .string hspells fun other => ?_⟩
  rw [← decodeUnits_eq_some_iff, decodeUnits_eq_some_iff.mpr hdenotes, Option.some_inj,
    Option.some_inj, String.toList_inj]

/-! ## All tokens -/

/-- Tokens that can be written one by one can be written one after another. -/
theorem exists_spellsTokens (h : ∀ t ∈ ts, ∃ s, t.Spells s) : ∃ s, SpellsTokens s ts := by
  have hnone : IsSpaces [] := fun c hc => absurd hc List.not_mem_nil
  induction ts with
  | nil => exact ⟨_, .nil hnone⟩
  | cons t ts ih =>
    obtain ⟨s, hs⟩ := h t List.mem_cons_self
    obtain ⟨rest, hrest⟩ := ih fun u hu => h u (List.mem_cons_of_mem t hu)
    exact ⟨_, .cons hnone hs hrest⟩

theorem scan_spaces {spaces : List Char} (hspaces : IsSpaces spaces) :
    scan (spaces ++ s) = scan s := by
  induction spaces with
  | nil => rfl
  | cons c spaces ih =>
    rw [List.cons_append, scan, if_pos (hspaces c List.mem_cons_self)]
    exact ih fun d hd => hspaces d (List.mem_cons_of_mem c hd)

theorem scan_cons (hspace : isSpace c = false) (h : nextToken? c s = some (t, rest)) :
    scan (c :: s) = (scan rest).map (t :: ·) := by
  rw [scan, if_neg (by simp [hspace])]
  split
  · next heq =>
    obtain ⟨rfl, rfl⟩ := Prod.mk.inj (Option.some.inj (h.symm.trans heq))
    rfl
  · next heq => cases h.symm.trans heq

/-- A text of tokens stops if the first of them is a single character. -/
theorem stops_of_spellsTokens (h : SpellsTokens s ts)
    (hmark : ∀ t, ts.head? = some t → t.isMark = true) : Stops s := by
  have hspace {d : Char} (hd : isSpace d = true) : isNumberChar d = false ∧ d.isAlpha = false := by
    simp only [isSpace, Bool.or_eq_true, decide_eq_true_eq, or_assoc] at hd
    rcases hd with rfl | rfl | rfl | rfl <;> exact ⟨rfl, rfl⟩
  intro d hd
  cases h with
  | nil hspaces => exact hspace (hspaces d (List.mem_of_mem_head? hd))
  | @cons spaces word rest t ts hspaces hfirst hrest =>
    cases spaces with
    | cons e spaces =>
      obtain rfl := Option.some.inj hd
      exact hspace (hspaces e List.mem_cons_self)
    | nil =>
      obtain ⟨c, rfl, hpunctuation⟩ := hfirst.eq_singleton (hmark t rfl)
      obtain rfl := Option.some.inj hd
      unfold punctuation? at hpunctuation
      split at hpunctuation <;> first | exact ⟨rfl, rfl⟩ | cases hpunctuation

/-- A text of tokens is scanned to them if no two numbers or words are side by side. -/
theorem scan_of_spellsTokens (h : SpellsTokens s ts) (hapart : ts.IsChain Apart) :
    scan s = some ts := by
  induction h with
  | @nil spaces hspaces =>
    rw [← List.append_nil spaces, scan_spaces hspaces, scan]
  | @cons spaces word rest t ts hspaces hfirst hrest ih =>
    have hend : t.isMark = true ∨ Stops rest := by
      by_cases hmark : t.isMark = true
      · exact .inl hmark
      · refine .inr (stops_of_spellsTokens hrest fun u hu => ?_)
        exact ((List.isChain_cons.mp hapart).1 u hu).resolve_left hmark
    obtain ⟨c, s, rfl, hspace⟩ := hfirst.head
    rw [scan_spaces hspaces, List.cons_append, scan_cons hspace (nextToken?_of_spells hfirst hend),
      ih hapart.tail, Option.map_some]

/-- A text that is scanned is a text of its tokens. -/
theorem spellsTokens_of_scan (h : scan s = some ts) : SpellsTokens s ts := by
  fun_induction scan s generalizing ts with
  | case1 =>
    obtain rfl := Option.some.inj h
    exact .nil fun c hc => absurd hc List.not_mem_nil
  | case2 c s hspace ih =>
    have hall {spaces : List Char} (hspaces : IsSpaces spaces) : IsSpaces (c :: spaces) := by
      intro d hd
      rcases List.mem_cons.mp hd with rfl | hd
      · exact hspace
      · exact hspaces d hd
    cases ih h with
    | nil hspaces => exact .nil (hall hspaces)
    | @cons spaces word rest t ts hspaces hfirst hrest =>
      have hcons : SpellsTokens ((c :: spaces) ++ (word ++ rest)) (t :: ts) :=
        .cons (hall hspaces) hfirst hrest
      exact hcons
  | case3 c s _ t rest hnext ih =>
    obtain ⟨others, hothers, rfl⟩ := Option.map_eq_some_iff.mp h
    obtain ⟨word, hword, hspells⟩ := spells_of_nextToken? hnext
    rw [hword]
    have hnone : IsSpaces [] := fun d hd => absurd hd List.not_mem_nil
    have hcons : SpellsTokens ([] ++ (word ++ rest)) (t :: others) :=
      .cons hnone hspells (ih hothers)
    exact hcons
  | case4 => cases h

end Token

end TagWatch.Json
