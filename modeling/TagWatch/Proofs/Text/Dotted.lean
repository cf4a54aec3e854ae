import Mathlib.Data.List.Forall2
import Mathlib.Data.List.Infix
import TagWatch.Text.Cut
import TagWatch.Text.Numeral

/-!
# Numbers with dots between them

Splitting a text at a character and putting the character back gives the text again
(`joinWith_fields`), parts without that character are found again (`fields_joinWith`), and a text of
such parts begins with any number of its first parts (`joinWith_eq_append`).

A text of digits is some zeros before the usual numeral of its value (`exists_zeros`); without
leading zeros (`Plain`) it is this numeral.
-/

namespace TagWatch.Text

/-! ## Lists that are read element by element -/

theorem forall₂_of_mapM {α β : Type} {f : α → Option β} {l : List α} {l' : List β}
    (h : l.mapM f = some l') : List.Forall₂ (fun a b => f a = some b) l l' := by
  induction l generalizing l' with
  | nil =>
    obtain rfl := Option.some.inj h
    exact .nil
  | cons a l ih =>
    rw [List.mapM_cons] at h
    obtain ⟨b, hb, h⟩ := Option.bind_eq_some_iff.mp h
    obtain ⟨rest, hrest, h⟩ := Option.bind_eq_some_iff.mp h
    obtain rfl := Option.some.inj h
    exact .cons hb (ih hrest)

theorem mapM_eq_some_iff {α β : Type} {f : α → Option β} {l : List α} {l' : List β} :
    l.mapM f = some l' ↔ List.Forall₂ (fun a b => f a = some b) l l' := by
  refine ⟨forall₂_of_mapM, fun h => ?_⟩
  induction h with
  | nil => rfl
  | cons hab _ ih => rw [List.mapM_cons, hab, ih]; rfl

/-- What has been read has been read from an element. -/
theorem exists_of_mem_mapM {α β : Type} {f : α → Option β} {l : List α} {l' : List β} {b : β}
    (h : l.mapM f = some l') (hb : b ∈ l') : ∃ a ∈ l, f a = some b := by
  have hall := forall₂_of_mapM h
  clear h
  induction hall with
  | nil => cases hb
  | @cons a b' l l' hab _ ih =>
    rcases List.mem_cons.mp hb with rfl | hb
    · exact ⟨a, List.mem_cons_self, hab⟩
    · obtain ⟨a', ha', hf⟩ := ih hb
      exact ⟨a', List.mem_cons_of_mem a ha', hf⟩

/-! ## Parts of texts -/

theorem startsWith_iff {start s : List Char} : startsWith start s = true ↔ start <+: s := by
  rw [startsWith, Option.isSome_iff_exists]
  constructor
  · rintro ⟨rest, h⟩
    exact ⟨rest, (strip?_eq_some_iff.mp h).symm⟩
  · rintro ⟨rest, h⟩
    exact ⟨rest, strip?_eq_some_iff.mpr h.symm⟩

theorem occursIn_iff {part s : List Char} : occursIn part s = true ↔ part <:+: s := by
  induction s with
  | nil => rw [occursIn, List.isEmpty_iff, List.infix_nil]
  | cons c s ih => rw [occursIn, Bool.or_eq_true, startsWith_iff, ih, List.infix_cons_iff]

variable (c : Char)

theorem joinWith_cons_of_ne_nil {parts : List (List Char)} (h : parts ≠ []) (part : List Char) :
    joinWith c (part :: parts) = part ++ c :: joinWith c parts := by
  cases parts with
  | nil => exact absurd rfl h
  | cons _ _ => rfl

theorem fields_ne_nil (s : List Char) : fields c s ≠ [] := by
  induction s with
  | nil => exact List.cons_ne_nil _ _
  | cons d s ih =>
    rw [fields]
    split
    · exact List.cons_ne_nil _ _
    · split <;> exact List.cons_ne_nil _ _

theorem joinWith_fields (s : List Char) : joinWith c (fields c s) = s := by
  induction s with
  | nil => rfl
  | cons d s ih =>
    rw [fields]
    split
    · next h => rw [joinWith_cons_of_ne_nil c (fields_ne_nil c s), ih, h]; rfl
    · split
      · next h => exact absurd h (fields_ne_nil c s)
      · next part parts h =>
        rw [h] at ih
        cases parts with
        | nil => exact congrArg (d :: ·) ih
        | cons _ _ => exact congrArg (d :: ·) ih

variable {c} in
theorem fields_of_not_mem {s : List Char} (h : c ∉ s) : fields c s = [s] := by
  induction s with
  | nil => rfl
  | cons d s ih =>
    rw [List.mem_cons, not_or] at h
    rw [fields, if_neg (Ne.symm h.1), ih h.2]

theorem fields_append_cons (s t : List Char) :
    fields c (s ++ c :: t) = fields c s ++ fields c t := by
  induction s with
  | nil => exact if_pos rfl
  | cons d s ih =>
    rw [List.cons_append, fields, fields, ih]
    split
    · rfl
    · cases hs : fields c s with
      | nil => exact absurd hs (fields_ne_nil c s)
      | cons part parts => rfl

/-- What stands between the characters of joined parts stands between those of one of them. -/
theorem fields_joinWith_eq_flatMap {parts : List (List Char)} (hne : parts ≠ []) :
    fields c (joinWith c parts) = parts.flatMap (fields c) := by
  induction parts with
  | nil => exact absurd rfl hne
  | cons part parts ih =>
    by_cases hnil : parts = []
    · subst hnil
      rw [List.flatMap_singleton]
      rfl
    · rw [joinWith_cons_of_ne_nil c hnil, fields_append_cons, ih hnil, List.flatMap_cons]

/-- Parts without the character between them are found again. -/
theorem fields_joinWith {parts : List (List Char)} (hne : parts ≠ [])
    (h : ∀ part ∈ parts, c ∉ part) : fields c (joinWith c parts) = parts := by
  rw [fields_joinWith_eq_flatMap c hne,
    List.flatMap_congr fun part hpart => fields_of_not_mem (h part hpart),
    List.flatMap_singleton']

theorem infix_joinWith {part : List Char} {parts : List (List Char)} (h : part ∈ parts) :
    part <:+: joinWith c parts := by
  induction parts with
  | nil => cases h
  | cons first parts ih =>
    by_cases hnil : parts = []
    · subst hnil
      rw [List.mem_singleton.mp h]
      exact List.infix_rfl
    · rw [joinWith_cons_of_ne_nil c hnil]
      rcases List.mem_cons.mp h with rfl | h
      · exact (List.prefix_append _ _).isInfix
      · exact (List.infix_cons (ih h)).trans (List.suffix_append first _).isInfix

variable {c} in
theorem infix_of_mem_fields {part s : List Char} (h : part ∈ fields c s) : part <:+: s :=
  joinWith_fields c s ▸ infix_joinWith c h

/-- A text of parts has the characters of its parts and the one between them. -/
theorem mem_joinWith {d : Char} {parts : List (List Char)} (h : d ∈ joinWith c parts) :
    d = c ∨ ∃ part ∈ parts, d ∈ part := by
  induction parts with
  | nil => cases h
  | cons part parts ih =>
    by_cases hnil : parts = []
    · subst hnil
      exact .inr ⟨part, List.mem_cons_self, h⟩
    · rw [joinWith_cons_of_ne_nil c hnil, List.mem_append, List.mem_cons] at h
      rcases h with h | h | h
      · exact .inr ⟨part, List.mem_cons_self, h⟩
      · exact .inl h
      · exact (ih h).imp_right fun ⟨part', hmem, hd⟩ => ⟨part', List.mem_cons_of_mem _ hmem, hd⟩

/-- A text begins with its first parts, each with the character after it, unless they are all
of its parts. -/
theorem joinWith_eq_append {k : Nat} {parts : List (List Char)} (h : k < parts.length) :
    joinWith c parts =
      (parts.take k).flatMap (· ++ [c]) ++ joinWith c (parts.drop k) := by
  induction k generalizing parts with
  | zero => rfl
  | succ k ih =>
    cases parts with
    | nil => cases h
    | cons part parts =>
      have hlength : k < parts.length := Nat.lt_of_succ_lt_succ h
      have hne : parts ≠ [] := List.ne_nil_of_length_pos (Nat.zero_lt_of_lt hlength)
      rw [joinWith_cons_of_ne_nil c hne, ih hlength, List.take_succ_cons, List.drop_succ_cons,
        List.flatMap_cons]
      simp only [List.append_assoc, List.cons_append, List.nil_append]

/-! ## Numerals -/

/-- A numeral has no leading zero, unless it is the single zero. -/
def Plain (s : List Char) : Prop := s.head? = some '0' → s = ['0']

instance (s : List Char) : Decidable (Plain s) :=
  inferInstanceAs (Decidable (s.head? = some '0' → s = ['0']))

theorem digitsValue_concat (s : List Char) (d : Char) :
    digitsValue (s ++ [d]) = 10 * digitsValue s + (d.toNat - '0'.toNat) := by
  rw [digitsValue, List.foldl_append]
  rfl

theorem digitChar_of_isDigit {d : Char} (h : d.isDigit) :
    d.toNat - '0'.toNat < 10 ∧ Nat.digitChar (d.toNat - '0'.toNat) = d := by
  rw [Char.isDigit, Bool.and_eq_true, decide_eq_true_eq, decide_eq_true_eq] at h
  have hlow : 48 ≤ d.toNat := UInt32.le_iff_toNat_le.mp h.1
  have hhigh : d.toNat ≤ 57 := UInt32.le_iff_toNat_le.mp h.2
  have hlt : d.toNat - '0'.toNat < 10 := by
    show d.toNat - 48 < 10
    omega
  refine ⟨hlt, Char.toNat_inj.mp ?_⟩
  rw [Nat.toNat_digitChar_of_lt_ten hlt]
  show 48 + (d.toNat - 48) = d.toNat
  omega

/-- A text of digits is the numeral of its value after some zeros. -/
theorem exists_zeros {s : List Char} (hne : s ≠ []) (hdigits : ∀ d ∈ s, d.isDigit) :
    ∃ k, s = List.replicate k '0' ++ Nat.toDigits 10 (digitsValue s) := by
  induction s using List.reverseRecOn with
  | nil => exact absurd rfl hne
  | append_singleton s d ih =>
    obtain ⟨hlt, hchar⟩ := digitChar_of_isDigit (hdigits d (List.mem_append_right s List.mem_cons_self))
    have hlast : Nat.toDigits 10 (d.toNat - '0'.toNat) = [d] := by
      rw [Nat.toDigits_of_lt_base hlt, hchar]
    rw [digitsValue_concat]
    by_cases hs : s = []
    · subst hs
      refine ⟨0, ?_⟩
      rw [digitsValue, List.foldl_nil, Nat.mul_zero, Nat.zero_add, hlast]
      rfl
    obtain ⟨k, hk⟩ := ih hs fun d hd => hdigits d (List.mem_append_left _ hd)
    by_cases hzero : digitsValue s = 0
    · -- So far there are only zeros, and they all come before the numeral.
      refine ⟨k + 1, ?_⟩
      rw [hzero] at hk ⊢
      rw [hk, Nat.mul_zero, Nat.zero_add, hlast, List.replicate_succ']
      rfl
    · refine ⟨k, ?_⟩
      rw [← Nat.toDigits_append_toDigits (by decide) (Nat.pos_of_ne_zero hzero) hlt, hlast,
        ← List.append_assoc, ← hk]

theorem Plain.eq_toDigits {s : List Char} (h : Plain s) (hne : s ≠ [])
    (hdigits : ∀ d ∈ s, d.isDigit) : s = Nat.toDigits 10 (digitsValue s) := by
  obtain ⟨k, hk⟩ := exists_zeros hne hdigits
  cases k with
  | zero => exact hk
  | succ k =>
    have hs : s = ['0'] := h (by rw [hk]; rfl)
    rw [hs]
    rfl

theorem digitsValue_toDigits (n : Nat) : digitsValue (Nat.toDigits 10 n) = n :=
  Nat.ofDigitChars_ten_toDigits

theorem plain_toDigits (n : Nat) : Plain (Nat.toDigits 10 n) := by
  induction n using Nat.strongRecOn with
  | ind n ih =>
    by_cases hlt : n < 10
    · intro hzero
      rw [Nat.toDigits_of_lt_base hlt] at hzero ⊢
      rw [Option.some.inj hzero]
    · intro hzero
      have hpos : 0 < n / 10 := by omega
      rw [Nat.toDigits_of_base_le (by decide) (by omega),
        List.head?_append_of_ne_nil _ Nat.toDigits_ne_nil] at hzero
      -- the digits in front would be a single zero, and so their value
      have hvalue := digitsValue_toDigits (n / 10)
      rw [ih (n / 10) (by omega) hzero, show digitsValue ['0'] = 0 from rfl] at hvalue
      omega

end TagWatch.Text
