/-!
# Cutting a text at a character

`cut` splits a text at the first occurrence of a character and `cutLast` at the last one;
`fields` splits it at every occurrence. In each case the character itself is dropped, and
putting it back between the parts gives the text again (`cut_eq_some_iff`,
`cutLast_eq_some_iff`). The lines of a text for a reader are put together with a line break
after each of them (`unlines`).
-/

namespace TagWatch.Text

/-- The parts before and after the first occurrence of a character. -/
def cut (c : Char) : List Char → Option (List Char × List Char)
  | [] => none
  | d :: rest =>
    if d = c then some ([], rest) else (cut c rest).map fun p => (d :: p.1, p.2)

/-- The parts before and after the last occurrence of a character. -/
def cutLast (c : Char) : List Char → Option (List Char × List Char)
  | [] => none
  | d :: rest =>
    match cutLast c rest with
    | some p => some (d :: p.1, p.2)
    | none => if d = c then some ([], rest) else none

/-- The parts between the occurrences of a character: one more than there are occurrences. -/
def fields (c : Char) : List Char → List (List Char)
  | [] => [[]]
  | d :: rest =>
    if d = c then [] :: fields c rest
    else match fields c rest with
      | [] => [[d]]
      | f :: fs => (d :: f) :: fs

/-- Parts written one after another with a character between them. -/
def joinWith (c : Char) : List (List Char) → List Char
  | [] => []
  | [f] => f
  | f :: fs => f ++ c :: joinWith c fs

/-- Lines as one text, in which every line is ended by a line break. -/
def unlines (lines : List String) : String := String.join (lines.map (· ++ "\n"))

/-- The text after a given beginning. -/
def strip? (start : List Char) (s : List Char) : Option (List Char) :=
  match start, s with
  | [], s => some s
  | _ :: _, [] => none
  | c :: start, d :: s => if c = d then strip? start s else none

/-- Whether a text begins with another. -/
def startsWith (start s : List Char) : Bool := (strip? start s).isSome

/-- Whether a text ends with another. -/
def endsWith (ending s : List Char) : Bool := startsWith ending.reverse s.reverse

/-- Whether a text holds another as a block of consecutive characters. -/
def occursIn (part : List Char) : List Char → Bool
  | [] => part.isEmpty
  | c :: s => startsWith part (c :: s) || occursIn part s

/-- The capital letters of ASCII made small. -/
def lower (s : List Char) : List Char := s.map Char.toLower

/-- The capital letters of ASCII made small, in a string. -/
def lowerString (s : String) : String := String.ofList (lower s.toList)

theorem cut_eq_some_iff {c : Char} {s a b : List Char} :
    cut c s = some (a, b) ↔ s = a ++ c :: b ∧ c ∉ a := by
  induction s generalizing a with
  | nil => simp [cut]
  | cons d rest ih =>
    by_cases h : d = c
    · subst h
      simp only [cut, if_true, Option.some.injEq, Prod.mk.injEq]
      constructor
      · rintro ⟨rfl, rfl⟩; simp
      · rintro ⟨h1, h2⟩
        cases a with
        | nil => simpa using h1
        | cons x a => simp at h1 h2; exact absurd h1.1 h2.1
    · simp only [cut, h, if_false, Option.map_eq_some_iff, Prod.exists, Prod.mk.injEq]
      constructor
      · rintro ⟨a', b', hc, rfl, rfl⟩
        obtain ⟨rfl, hn⟩ := ih.mp hc
        simp [hn, Ne.symm h]
      · rintro ⟨h1, h2⟩
        cases a with
        | nil => simp at h1; exact absurd h1.1 h
        | cons x a =>
          simp at h1 h2
          exact ⟨a, b, ih.mpr ⟨h1.2, h2.2⟩, by simp [h1.1]⟩

theorem cut_eq_none_iff {c : Char} {s : List Char} : cut c s = none ↔ c ∉ s := by
  induction s with
  | nil => simp [cut]
  | cons d rest ih =>
    by_cases h : d = c
    · simp [cut, h]
    · simp [cut, h, ih, Ne.symm h]

theorem cutLast_eq_none_iff {c : Char} {s : List Char} : cutLast c s = none ↔ c ∉ s := by
  induction s with
  | nil => simp [cutLast]
  | cons d rest ih =>
    rw [cutLast, List.mem_cons, not_or, ← ih]
    cases cutLast c rest with
    | some p => simp
    | none => simp [eq_comm]

theorem cutLast_eq_some_iff {c : Char} {s a b : List Char} :
    cutLast c s = some (a, b) ↔ s = a ++ c :: b ∧ c ∉ b := by
  induction s generalizing a b with
  | nil => simp [cutLast]
  | cons d rest ih =>
    rw [cutLast]
    cases hrest : cutLast c rest with
    | some p =>
      obtain ⟨before, after⟩ := p
      obtain ⟨hp, hn⟩ := ih.mp hrest
      simp only [Option.some.injEq, Prod.mk.injEq]
      constructor
      · rintro ⟨rfl, rfl⟩
        exact ⟨congrArg (d :: ·) hp, hn⟩
      · rintro ⟨heq, hb⟩
        cases a with
        | nil =>
          -- the rest has the character in it, so it does not come after the last one
          obtain ⟨-, rfl⟩ := List.cons.inj heq
          exact absurd (hp ▸ List.mem_append_right _ List.mem_cons_self) hb
        | cons x a =>
          obtain ⟨rfl, htail⟩ := List.cons.inj heq
          have hsame := hrest.symm.trans (ih.mpr ⟨htail, hb⟩)
          obtain ⟨rfl, rfl⟩ := Prod.mk.inj (Option.some.inj hsame)
          exact ⟨rfl, rfl⟩
    | none =>
      have hn := cutLast_eq_none_iff.mp hrest
      simp only [Option.ite_none_right_eq_some, Option.some.injEq, Prod.mk.injEq]
      constructor
      · rintro ⟨rfl, rfl, rfl⟩
        exact ⟨rfl, hn⟩
      · rintro ⟨heq, -⟩
        cases a with
        | nil =>
          obtain ⟨rfl, rfl⟩ := List.cons.inj heq
          exact ⟨rfl, rfl, rfl⟩
        | cons x a =>
          obtain ⟨-, rfl⟩ := List.cons.inj heq
          exact absurd (List.mem_append_right _ List.mem_cons_self) hn

theorem strip?_eq_some_iff {p s r : List Char} : strip? p s = some r ↔ s = p ++ r := by
  induction p generalizing s with
  | nil => simp [strip?, eq_comm]
  | cons c p ih =>
    cases s with
    | nil => simp [strip?]
    | cons d s =>
      by_cases h : c = d
      · subst h; simp [strip?, ih]
      · simp [strip?, h, Ne.symm h]

end TagWatch.Text
