import TagWatch.Client.Challenge
import TagWatch.Proofs.Registry.Name
import TagWatch.Proofs.Text.Dotted

/-!
# What a bearer challenge says

A challenge is written as a scheme and a list of parameters with commas between them (`header`). A
parameter is a name and a value in quotes (`Parameter`), with any number of spaces around it.

**Theorem (`read?_header`).** Of a bearer challenge the last realm and the last service are read,
whatever other parameters there are and in whatever order they come. Without a realm there is no
challenge, and neither is there one under another scheme.

The scanner does not look for the commas. It is at the beginning of a parameter whenever it has no
name begun and the text goes on with one: the quote that ends a value is the first one after the one
that begins it, so nothing in a value is taken for a name (`scan_parameter`), and between two
parameters there is nothing that could be one (`scan_gap`).
-/

namespace TagWatch.Challenge

open Text

/-! ## The scanner -/

variable {name value s rest : List Char}

theorem isNameChar_iff {c : Char} : isNameChar c = true ↔ c.isAlphanum = true ∨ c = '_' := by
  rw [isNameChar, Bool.or_eq_true, decide_eq_true_eq]

/-- A name is read as long as it goes on. -/
theorem scan_name (h : ∀ c ∈ s, isNameChar c = true) :
    scan name (s ++ rest) = scan (s.reverse ++ name) rest := by
  induction s generalizing name with
  | nil => rfl
  | cons c s ih =>
    obtain ⟨hc, hs⟩ := List.forall_mem_cons.mp h
    rw [List.cons_append, scan, if_pos hc, ih hs, List.reverse_cons, List.append_assoc]
    rfl

/-- Where no name has begun, everything that cannot be in a name is passed over. -/
theorem scan_gap (h : ∀ c ∈ s, isNameChar c = false) : scan [] (s ++ rest) = scan [] rest := by
  induction s with
  | nil => rfl
  | cons c s ih =>
    obtain ⟨hc, hs⟩ := List.forall_mem_cons.mp h
    rw [List.cons_append, scan, if_neg (by simp [hc]), if_pos List.isEmpty_nil, ih hs]

theorem quoted?_eq_some_iff :
    quoted? s = some (value, rest) ↔ s = '=' :: '"' :: (value ++ '"' :: rest) ∧ '"' ∉ value := by
  constructor
  · intro h
    unfold quoted? at h
    split at h
    · obtain ⟨rfl, hvalue⟩ := cut_eq_some_iff.mp h
      exact ⟨rfl, hvalue⟩
    · cases h
  · rintro ⟨rfl, hvalue⟩
    exact cut_eq_some_iff.mpr ⟨rfl, hvalue⟩

theorem scan_of_quoted? (hname : name ≠ []) (h : quoted? s = some (value, rest)) :
    scan name s = (name.reverse, value) :: scan [] rest := by
  obtain ⟨rfl, hvalue⟩ := quoted?_eq_some_iff.mp h
  rw [scan, if_neg (by decide), if_neg (by simpa using hname)]
  split
  · next hquoted =>
    rw [h] at hquoted
    obtain ⟨rfl, rfl⟩ := Prod.mk.inj (Option.some.inj hquoted)
    rfl
  · next hquoted =>
    rw [h] at hquoted
    cases hquoted

/-- Whatever a value says, it is read as the value of the name in front of it. -/
theorem scan_parameter (hne : name ≠ []) (hname : ∀ c ∈ name, isNameChar c = true)
    (h : '"' ∉ value) :
    scan [] (name ++ '=' :: '"' :: (value ++ '"' :: rest)) = (name, value) :: scan [] rest := by
  rw [scan_name hname, List.append_nil,
    scan_of_quoted? (by simpa using hne) (quoted?_eq_some_iff.mpr ⟨rfl, h⟩), List.reverse_reverse]

/-! ## Blanks at the end -/

/-- Letters and digits have three ranges of codes. -/
theorem toNat_of_isAlphanum {c : Char} (h : c.isAlphanum = true) :
    (65 ≤ c.toNat ∧ c.toNat ≤ 90) ∨ (97 ≤ c.toNat ∧ c.toNat ≤ 122) ∨
      (48 ≤ c.toNat ∧ c.toNat ≤ 57) := by
  rcases Bool.or_eq_true_iff.mp h with hletter | hdigit
  · rcases Bool.or_eq_true_iff.mp hletter with hupper | hlower
    · exact .inl (of_decide_eq_true hupper)
    · have hrange := Bool.and_eq_true_iff.mp hlower
      exact .inr (.inl ⟨of_decide_eq_true hrange.1, of_decide_eq_true hrange.2⟩)
  · have hrange := Bool.and_eq_true_iff.mp hdigit
    exact .inr (.inr ⟨of_decide_eq_true hrange.1, of_decide_eq_true hrange.2⟩)

theorem isNameChar_of_isBlank {c : Char} (h : isBlank c = true) : isNameChar c = false := by
  apply Bool.eq_false_iff.mpr
  intro hname
  rcases isNameChar_iff.mp hname with halphanum | rfl
  · have hrange := toNat_of_isAlphanum halphanum
    simp only [isBlank, Bool.or_eq_true, Bool.and_eq_true, decide_eq_true_eq, beq_iff_eq] at h
    omega
  · exact absurd h (by decide)

section Blanks

variable {blanks : List Char} (h : ∀ c ∈ blanks, isBlank c = true)
include h

/-- A value that ends before the blanks has begun before them. -/
theorem exists_of_quoted?_append (hs : quoted? (s ++ blanks) = some (value, rest)) :
    ∃ rest', rest = rest' ++ blanks ∧ quoted? s = some (value, rest') := by
  obtain ⟨heq, hvalue⟩ := quoted?_eq_some_iff.mp hs
  have hsplit : s ++ blanks = ('=' :: '"' :: value) ++ ['"'] ++ rest := by simpa using heq
  rcases List.append_eq_append_iff.mp hsplit with ⟨inside, hinside, hblanks⟩ | ⟨rest', hs', hrest⟩
  · rcases List.eq_nil_or_concat inside with rfl | ⟨before, d, rfl⟩
    · rw [List.append_nil] at hinside
      refine ⟨[], hblanks.symm, quoted?_eq_some_iff.mpr ⟨?_, hvalue⟩⟩
      simpa using hinside.symm
    · -- the quote at the end would be one of the blanks
      rw [List.concat_eq_append, ← List.append_assoc] at hinside
      obtain ⟨-, hd⟩ := List.append_inj' hinside rfl
      obtain rfl : '"' = d := List.singleton_inj.mp hd
      exact absurd (h '"' (by simp [hblanks])) (by decide)
  · refine ⟨rest', hrest, quoted?_eq_some_iff.mpr ⟨?_, hvalue⟩⟩
    simpa using hs'

theorem scan_blanks : scan name blanks = [] := by
  induction blanks generalizing name with
  | nil => rw [scan]
  | cons c blanks ih =>
    obtain ⟨hc, hblanks⟩ := List.forall_mem_cons.mp h
    have hquoted : quoted? (c :: blanks) = none := by
      apply Option.eq_none_iff_forall_ne_some.mpr
      intro p hp
      obtain ⟨heq, -⟩ := quoted?_eq_some_iff.mp hp
      obtain rfl := (List.cons.inj heq).1
      exact absurd hc (by decide)
    rw [scan, if_neg (by simp [isNameChar_of_isBlank hc])]
    split
    · exact ih hblanks
    · split
      · next hsome => rw [hquoted] at hsome; cases hsome
      · exact ih hblanks

/-- Blanks at the end of a text hold no parameter, and end none. -/
theorem scan_append_blanks : scan name (s ++ blanks) = scan name s := by
  fun_induction scan name s with
  | case1 name => exact scan_blanks h
  | case2 name c s hc ih => rw [List.cons_append, scan, if_pos hc, ih]
  | case3 name c s hc hname ih => rw [List.cons_append, scan, if_neg hc, if_pos hname, ih]
  | case4 name c s hc hname value rest hquoted _ ih =>
    have hquoted' : quoted? (c :: s ++ blanks) = some (value, rest ++ blanks) := by
      obtain ⟨heq, hvalue⟩ := quoted?_eq_some_iff.mp hquoted
      refine quoted?_eq_some_iff.mpr ⟨?_, hvalue⟩
      rw [heq]
      simp
    rw [scan_of_quoted? (by simpa using hname) hquoted', ih]
  | case5 name c s hc hname hquoted ih =>
    rw [List.cons_append, scan, if_neg hc, if_neg hname]
    split
    · next hsome =>
      obtain ⟨rest', -, hrest⟩ := exists_of_quoted?_append h (s := c :: s) hsome
      rw [hquoted] at hrest
      cases hrest
    · exact ih

end Blanks

/-! ## Schemes -/

/-- The first word of a text: what comes before the first space, if blanks in front are left out. -/
def firstWord (s : List Char) : List Char := (s.dropWhile isBlank).takeWhile (· ≠ ' ')

/-- The characters of a scheme that is read are no blanks. -/
theorem isBlank_of_lower_eq {scheme : List Char} (h : lower scheme = "bearer".toList) :
    ∀ c ∈ scheme, isBlank c = false := by
  intro c hc
  have hlower : c.toLower ∈ "bearer".toList := h ▸ List.mem_map_of_mem hc
  have hplain : ∀ d ∈ "bearer".toList, isBlank d = false := by simp [isBlank]
  rw [← isBlank_toLower]
  exact hplain _ hlower

theorem ne_nil_of_lower_eq {scheme : List Char} (h : lower scheme = "bearer".toList) :
    scheme ≠ [] := by
  rintro rfl
  cases h

/-- Trimming drops blanks in front and blanks at the end. -/
theorem exists_trim_append (s : List Char) :
    ∃ blanks, s.dropWhile isBlank = trim s ++ blanks ∧ ∀ c ∈ blanks, isBlank c = true := by
  refine ⟨((s.dropWhile isBlank).reverse.takeWhile isBlank).reverse, ?_, ?_⟩
  · rw [trim, trimWhile, dropEndWhile, ← List.reverse_append, List.takeWhile_append_dropWhile,
      List.reverse_reverse]
  · intro c hc
    exact List.mem_takeWhile_imp (List.mem_reverse.mp hc)

/-- Trimming a challenge takes blanks from its parameters, or leaves only the scheme. -/
theorem trim_scheme {scheme : List Char} (hne : scheme ≠ [])
    (hplain : ∀ c ∈ scheme, isBlank c = false) (body : List Char) :
    ∃ blanks, (∀ c ∈ blanks, isBlank c = true) ∧
      ((trim (scheme ++ ' ' :: body) = scheme ∧ body = blanks) ∨
        ∃ inner, trim (scheme ++ ' ' :: body) = scheme ++ ' ' :: inner ∧
          body = inner ++ blanks) := by
  have hfront : (scheme ++ ' ' :: body).dropWhile isBlank = scheme ++ ' ' :: body := by
    obtain ⟨c, scheme, rfl⟩ := List.exists_cons_of_ne_nil hne
    exact List.dropWhile_cons_of_neg (by simp [hplain c List.mem_cons_self])
  obtain ⟨blanks, htrim, hblanks⟩ := exists_trim_append (scheme ++ ' ' :: body)
  rw [hfront] at htrim
  rcases List.append_eq_append_iff.mp htrim with ⟨after, hafter, hbody⟩ | ⟨taken, htaken, hbody⟩
  · cases after with
    | nil =>
      rw [List.append_nil] at hafter
      rw [List.nil_append] at hbody
      refine ⟨body, ?_, .inl ⟨hafter, rfl⟩⟩
      intro c hc
      exact hblanks c (hbody ▸ List.mem_cons_of_mem _ hc)
    | cons c inner =>
      obtain ⟨rfl, hinner⟩ := List.cons.inj hbody
      exact ⟨blanks, hblanks, .inr ⟨inner, hafter, hinner⟩⟩
  · refine ⟨body, ?_, .inl ⟨?_, rfl⟩⟩
    · intro c hc
      exact hblanks c (hbody ▸ List.mem_append_right _ (List.mem_cons_of_mem _ hc))
    · -- no blank has been taken from the scheme
      have hnil : taken = [] := by
        apply List.eq_nil_iff_forall_not_mem.mpr
        intro c hc
        have hblank := hblanks c (hbody ▸ List.mem_append_left _ hc)
        rw [hplain c (htaken ▸ List.mem_append_right _ hc)] at hblank
        cases hblank
      rw [hnil, List.append_nil] at htaken
      exact htaken.symm

/-- Under a bearer scheme the parameters behind the first space count. -/
theorem read?_of_bearer {scheme body : List Char} (h : lower scheme = "bearer".toList) :
    read? (String.ofList (scheme ++ ' ' :: body)) =
      (valueOf? "realm" (parameters body)).map fun realm =>
        ⟨realm, valueOf? "service" (parameters body)⟩ := by
  have hplain := isBlank_of_lower_eq h
  have hspace : ' ' ∉ scheme := fun hmem => absurd (hplain ' ' hmem) (by decide)
  obtain ⟨blanks, hblanks, ⟨htrim, rfl⟩ | ⟨inner, htrim, rfl⟩⟩ :=
    trim_scheme (ne_nil_of_lower_eq h) hplain body
  · rw [read?, String.toList_ofList, htrim, cut_eq_none_iff.mpr hspace, parameters,
      scan_blanks hblanks]
    rfl
  · have hcut : cut ' ' (scheme ++ ' ' :: inner) = some (scheme, inner) :=
      cut_eq_some_iff.mpr ⟨rfl, hspace⟩
    have hfound : parameters (inner ++ blanks) = parameters inner := scan_append_blanks hblanks
    rw [read?, String.toList_ofList, htrim, hcut, hfound]
    exact if_neg (not_not_intro h)

/-- Under another scheme there is no challenge. -/
theorem read?_of_ne {header : String} (h : lower (firstWord header.toList) ≠ "bearer".toList) :
    read? header = none := by
  rw [read?]
  split
  · rfl
  · next scheme rest hcut =>
    rw [if_pos]
    intro hbearer
    apply h
    obtain ⟨htrim, hspace⟩ := cut_eq_some_iff.mp hcut
    obtain ⟨blanks, hfront, -⟩ := exists_trim_append header.toList
    rw [firstWord, hfront, htrim, List.append_assoc, List.takeWhile_append_of_pos]
    · simpa using hbearer
    · intro c hc
      rw [decide_eq_true_eq]
      exact fun heq => hspace (heq ▸ hc)

/-! ## Parameters -/

/-- A parameter of a challenge, as a server writes it. -/
structure Parameter where
  name : String
  value : String
  /-- The spaces before the name. -/
  lead : Nat := 0
  /-- The spaces after the value. -/
  trail : Nat := 0
  name_ne : name ≠ ""
  name_plain : ∀ c ∈ name.toList, c.isAlphanum = true ∨ c = '_'
  value_plain : '"' ∉ value.toList

namespace Parameter

/-- The parameter as it is written. -/
def text (p : Parameter) : List Char :=
  List.replicate p.lead ' ' ++ (p.name.toList ++
    '=' :: '"' :: (p.value.toList ++ '"' :: List.replicate p.trail ' '))

/-- The value of the last parameter of a name. -/
def last? (name : String) (parameters : List Parameter) : Option String :=
  ((parameters.filter (·.name = name)).getLast?).map (·.value)

variable (p : Parameter)

theorem scan_text (h : ∀ c ∈ s, isNameChar c = false) :
    scan [] (p.text ++ (s ++ rest)) = (p.name.toList, p.value.toList) :: scan [] rest := by
  have hspaces (n : Nat) : ∀ c ∈ List.replicate n ' ', isNameChar c = false := by
    intro c hc
    rw [List.eq_of_mem_replicate hc]
    rfl
  have hne : p.name.toList ≠ [] := fun hnil => p.name_ne (String.toList_inj.mp hnil)
  have hname : ∀ c ∈ p.name.toList, isNameChar c = true := fun c hc =>
    isNameChar_iff.mpr (p.name_plain c hc)
  have htext : p.text ++ (s ++ rest) = List.replicate p.lead ' ' ++ (p.name.toList ++
      '=' :: '"' :: (p.value.toList ++ '"' :: (List.replicate p.trail ' ' ++ (s ++ rest)))) := by
    simp only [text, List.append_assoc, List.cons_append]
  rw [htext, scan_gap (hspaces p.lead), scan_parameter hne hname p.value_plain,
    scan_gap (hspaces p.trail), scan_gap h]

end Parameter

open Parameter

/-- Every parameter is found, and in the order in which they are written. -/
theorem parameters_joinWith (ps : List Parameter) :
    parameters (joinWith ',' (ps.map text)) = ps.map fun p => (p.name.toList, p.value.toList) := by
  rw [parameters]
  induction ps with
  | nil => rw [List.map_nil, List.map_nil, joinWith, scan]
  | cons p ps ih =>
    cases ps with
    | nil =>
      have hlast := @scan_text [] [] p fun c hc => absurd hc List.not_mem_nil
      rw [List.append_nil, List.append_nil, scan] at hlast
      exact hlast
    | cons q ps =>
      rw [List.map_cons, joinWith_cons_of_ne_nil ',' (by simp)]
      have hcomma : ∀ c ∈ [','], isNameChar c = false := by simp [isNameChar]
      have hnext := @scan_text [','] (joinWith ',' ((q :: ps).map text)) p hcomma
      rw [ih] at hnext
      exact hnext

/-- The last parameter of a name is the one that counts. -/
theorem valueOf?_map (name : String) (ps : List Parameter) :
    valueOf? name (ps.map fun p => (p.name.toList, p.value.toList)) = last? name ps := by
  have hname (p : Parameter) : (p.name.toList == name.toList) = decide (p.name = name) := by
    rw [Bool.eq_iff_iff, beq_iff_eq, decide_eq_true_eq, String.toList_inj]
  rw [valueOf?, last?, ← List.map_reverse, List.find?_map, List.getLast?_filter, Option.map_map]
  simp only [Function.comp_def, hname, String.ofList_toList]

theorem last?_eq_none_iff {name : String} {ps : List Parameter} :
    last? name ps = none ↔ ∀ p ∈ ps, p.name ≠ name := by
  simp [last?]

/-- A challenge under the name of a scheme. -/
def header (scheme : String) (parameters : List Parameter) : String :=
  String.ofList (scheme.toList ++ ' ' :: joinWith ',' (parameters.map text))

/-- **A bearer challenge says where to get a token.** Of its parameters the last realm counts, and
the last service if there is one; without a realm nothing is read. Under another scheme nothing is
read either, whatever follows it. -/
theorem read?_header {scheme : String} (h : lowerString scheme = "bearer") (ps : List Parameter) :
    read? (header scheme ps) =
        (last? "realm" ps).map (fun realm => ⟨realm, last? "service" ps⟩) ∧
      (read? (header scheme ps) = none ↔ ∀ p ∈ ps, p.name ≠ "realm") ∧
      ∀ other, lower (firstWord other.toList) ≠ "bearer".toList → read? other = none := by
  have hscheme : lower scheme.toList = "bearer".toList := by
    rw [← h, lowerString, String.toList_ofList]
  have hread : read? (header scheme ps) =
      (last? "realm" ps).map (fun realm => ⟨realm, last? "service" ps⟩) := by
    rw [header, read?_of_bearer hscheme, parameters_joinWith, valueOf?_map, valueOf?_map]
  refine ⟨hread, ?_, ?_⟩
  · rw [hread, Option.map_eq_none_iff, last?_eq_none_iff]
  · intro other hother
    exact read?_of_ne hother

/-- A challenge whose values look like parameters. -/
def exampleParameters : List Parameter :=
  [{ name := "realm", value := "https://old.example", name_ne := by decide,
     name_plain := by simp, value_plain := by decide },
   { name := "scope", value := "a, realm=b, service=", lead := 1, name_ne := by decide,
     name_plain := by simp, value_plain := by decide },
   { name := "realm", value := "https://auth.example/token", trail := 2, name_ne := by decide,
     name_plain := by simp, value_plain := by decide }]

/-- Of two realms the last one counts, and what stands in quotes is no parameter: the commas and
equals signs in the value of `scope` name no service. -/
theorem read?_header_mixed :
    lowerString "BEARER" = "bearer" ∧
      header "BEARER" exampleParameters = "BEARER realm=\"https://old.example\"," ++
        " scope=\"a, realm=b, service=\",realm=\"https://auth.example/token\"  " ∧
      read? (header "BEARER" exampleParameters) = some ⟨"https://auth.example/token", none⟩ := by
  have hscheme : lowerString "BEARER" = "bearer" := by decide
  refine ⟨hscheme, by decide +kernel, ?_⟩
  rw [(read?_header hscheme exampleParameters).1]
  decide +kernel

end TagWatch.Challenge
