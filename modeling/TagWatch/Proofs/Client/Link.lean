import TagWatch.Proofs.Client.Listing
import TagWatch.Proofs.Text.Dotted

/-!
# What a header of links says

A header is a number of values with commas between them, and a value is a target with the name of
its relation (`Value`), written with any number of spaces around its parts. The reader cuts the
header at all its commas, those in the targets included, and takes the first piece that speaks of
the next page. One such piece comes from every value of that name and from no other value
(`name_eq_of_mark`), so the values are found one by one. But only a target without a comma is in
the same piece as its angle brackets: with one, the piece has no target. In a header of any form the
next page is the target of that piece (`IsNext`, `next?_eq_some_iff`).

**Theorem (`links_followed`).** The link to the next page is the target of the first value
with the name `next`, unless there is a comma in this target: then there is no link, as when there
is no such value. A list of tags goes from page to page by these links and ends early only where
a page fails or the number of pages is used up.
-/

namespace TagWatch.Link

open Text

/-! ## Values -/

/-- A value of a header of links, as a server writes it. -/
structure Value where
  target : String
  /-- The name of the relation. -/
  name : String
  /-- The spaces before the target. -/
  lead : Nat := 0
  /-- The spaces before the semicolon. -/
  left : Nat := 0
  /-- The spaces after the semicolon. -/
  right : Nat := 1
  /-- The spaces at the end. -/
  trail : Nat := 0
  target_ne : target ≠ ""
  target_plain : ∀ c ∈ target.toList, c ≠ '<' ∧ c ≠ '>' ∧ c ≠ '"'
  name_plain : '"' ∉ name.toList

/-- What a piece of a header has to hold to speak of the next page. -/
def mark : List Char := "rel=\"next\"".toList

namespace Value

/-- What stands between the target and the name of the relation. -/
def middle (v : Value) : List Char :=
  '>' :: (List.replicate v.left ' ' ++ ';' :: (List.replicate v.right ' ' ++ "rel=".toList))

/-- What follows after the target. -/
def ending (v : Value) : List Char :=
  v.middle ++ '"' :: (v.name.toList ++ '"' :: List.replicate v.trail ' ')

/-- What stands before the target. -/
def opening (v : Value) : List Char := List.replicate v.lead ' ' ++ ['<']

/-- The value as it is written. -/
def text (v : Value) : List Char := v.opening ++ (v.target.toList ++ v.ending)

/-- The link that is found in a value. -/
def link? (v : Value) : Option String := if ',' ∈ v.target.toList then none else some v.target

variable (v : Value)

theorem not_mem_opening {c : Char} (hspace : c ≠ ' ') (hangle : c ≠ '<') : c ∉ v.opening := by
  simp [opening, hspace, hangle]

theorem quote_not_mem_target : '"' ∉ v.target.toList := fun h => (v.target_plain _ h).2.2 rfl

theorem quote_not_mem_middle : '"' ∉ v.middle := by
  simp [middle]

/-- The only quotes of a value are the two around the name. -/
theorem count_quote_text : v.text.count '"' = 2 := by
  have hopening := List.count_eq_zero.mpr (v.not_mem_opening (c := '"') (by decide) (by decide))
  have htarget := List.count_eq_zero.mpr v.quote_not_mem_target
  have hmiddle := List.count_eq_zero.mpr v.quote_not_mem_middle
  have hname := List.count_eq_zero.mpr v.name_plain
  simp [text, ending, hopening, htarget, hmiddle, hname, List.count_replicate]

/-- A value speaks of the next page only by its name. -/
theorem name_eq_of_mark (h : mark <:+: v.text) : v.name = "next" := by
  obtain ⟨before, after, heq⟩ := h
  have hcount : (before ++ mark ++ after).count '"' = 2 := heq ▸ v.count_quote_text
  have hmark : mark.count '"' = 2 := by decide
  rw [List.count_append, List.count_append, hmark] at hcount
  have hbefore : '"' ∉ before := List.count_eq_zero.mp (by omega)
  -- the first quote of the value is the one of the mark, and so is the second
  have hfirst : cut '"' v.text = some (before ++ "rel=".toList, "next\"".toList ++ after) := by
    refine cut_eq_some_iff.mpr ⟨?_, ?_⟩
    · rw [← heq, show mark = "rel=".toList ++ '"' :: "next\"".toList from rfl]
      simp only [List.append_assoc, List.cons_append]
    · simpa using hbefore
  have hname : cut '"' v.text = some (v.opening ++ (v.target.toList ++ v.middle),
      v.name.toList ++ '"' :: List.replicate v.trail ' ') := by
    refine cut_eq_some_iff.mpr ⟨by simp [text, ending], ?_⟩
    simp only [List.mem_append, not_or]
    exact ⟨v.not_mem_opening (by decide) (by decide), v.quote_not_mem_target,
      v.quote_not_mem_middle⟩
  have hrest := (Prod.mk.inj (Option.some.inj (hname.symm.trans hfirst))).2
  have hsecond : cut '"' (v.name.toList ++ '"' :: List.replicate v.trail ' ') =
      some (v.name.toList, List.replicate v.trail ' ') :=
    cut_eq_some_iff.mpr ⟨rfl, v.name_plain⟩
  have hnext : cut '"' (v.name.toList ++ '"' :: List.replicate v.trail ' ') =
      some ("next".toList, after) :=
    cut_eq_some_iff.mpr ⟨by rw [hrest]; rfl, by decide⟩
  exact String.toList_inj.mp (Prod.mk.inj (Option.some.inj (hsecond.symm.trans hnext))).1

/-- No piece of a value with another name speaks of the next page. -/
theorem find?_fields_of_ne (h : v.name ≠ "next") :
    (fields ',' v.text).find? (occursIn mark) = none := by
  refine List.find?_eq_none.mpr fun part hpart hmark => h (v.name_eq_of_mark ?_)
  exact (occursIn_iff.mp hmark).trans (infix_of_mem_fields hpart)

section Next

variable {v}

theorem comma_not_mem_ending (h : v.name = "next") : ',' ∉ v.ending := by
  simp [ending, middle, h]

theorem occursIn_mark (h : v.name = "next") (before : List Char) :
    occursIn mark (before ++ v.ending) = true := by
  refine occursIn_iff.mpr ⟨before ++ '>' :: (List.replicate v.left ' ' ++ ';' ::
    List.replicate v.right ' '), List.replicate v.trail ' ', ?_⟩
  rw [show mark = "rel=".toList ++ '"' :: ("next".toList ++ ['"']) from rfl, ending, middle, h]
  simp only [List.append_assoc, List.cons_append, List.nil_append]

/-- The target is in one piece with its angle brackets. -/
theorem target?_text : target? v.text = some v.target.toList := by
  have hleft : cut '<' v.text = some (List.replicate v.lead ' ', v.target.toList ++ v.ending) :=
    cut_eq_some_iff.mpr ⟨by simp [text, opening], by simp⟩
  have hright : cut '>' v.text = some (v.opening ++ v.target.toList, v.ending.tail) := by
    refine cut_eq_some_iff.mpr ⟨by simp [text, ending, middle], ?_⟩
    rw [List.mem_append, not_or]
    exact ⟨v.not_mem_opening (by decide) (by decide), fun h => (v.target_plain _ h).2.1 rfl⟩
  have hlength : 0 < v.target.toList.length :=
    List.length_pos_iff.mpr fun h => v.target_ne (String.toList_inj.mp h)
  have hopening : v.opening.length = v.lead + 1 := by simp [opening]
  rw [target?, hleft, hright]
  simp only [List.length_replicate, List.length_append, hopening]
  rw [if_pos (by omega), ← hopening, List.drop_left]

/-- Behind a comma of the target the piece has no left angle bracket any more. -/
theorem target?_of_comma (h : v.name = "next") {rest : List Char}
    (hrest : ∀ c ∈ rest, c ∈ v.target.toList) : target? (rest ++ v.ending) = none := by
  have hleft : cut '<' (rest ++ v.ending) = none := by
    refine cut_eq_none_iff.mpr ?_
    rw [List.mem_append, not_or]
    exact ⟨fun hmem => (v.target_plain _ (hrest _ hmem)).1 rfl, by simp [ending, middle, h]⟩
  rw [target?, hleft]

/-- One piece of a value with the name `next` speaks of the next page. -/
theorem find?_fields_of_eq (h : v.name = "next") :
    ∃ part, (fields ',' v.text).find? (occursIn mark) = some part ∧
      (target? part).map String.ofList = v.link? := by
  by_cases hcomma : ',' ∈ v.target.toList
  · obtain ⟨⟨before, rest⟩, hcut⟩ :=
      Option.ne_none_iff_exists'.mp (mt cutLast_eq_none_iff.mp (not_not_intro hcomma))
    obtain ⟨htarget, hrest⟩ := cutLast_eq_some_iff.mp hcut
    refine ⟨rest ++ v.ending, ?_, ?_⟩
    · have htext : v.text = (v.opening ++ before) ++ ',' :: (rest ++ v.ending) := by
        rw [text, htarget]
        simp only [List.append_assoc, List.cons_append]
      have hquote : '"' ∉ v.opening ++ before := by
        rw [List.mem_append, not_or]
        refine ⟨v.not_mem_opening (by decide) (by decide), fun hmem => v.quote_not_mem_target ?_⟩
        rw [htarget]
        exact List.mem_append_left _ hmem
      have hnone : (fields ',' (v.opening ++ before)).find? (occursIn mark) = none := by
        refine List.find?_eq_none.mpr fun part hpart hmark => hquote ?_
        exact ((occursIn_iff.mp hmark).trans (infix_of_mem_fields hpart)).subset (by decide)
      have hpiece : ',' ∉ rest ++ v.ending := by
        rw [List.mem_append, not_or]
        exact ⟨hrest, comma_not_mem_ending h⟩
      rw [htext, fields_append_cons, fields_of_not_mem hpiece, List.find?_append, hnone,
        List.find?_cons_of_pos (occursIn_mark h rest)]
      rfl
    · rw [link?, if_pos hcomma, target?_of_comma h fun c hc => by
        rw [htarget]
        exact List.mem_append_right _ (List.mem_cons_of_mem _ hc)]
      rfl
  · have hpiece : ',' ∉ v.text := by
      rw [text, List.mem_append, List.mem_append, not_or, not_or]
      exact ⟨v.not_mem_opening (by decide) (by decide), hcomma, comma_not_mem_ending h⟩
    have hmark : occursIn mark v.text = true := by
      rw [text, ← List.append_assoc]
      exact occursIn_mark h _
    refine ⟨v.text, ?_, ?_⟩
    · rw [fields_of_not_mem hpiece, List.find?_cons_of_pos hmark]
    · rw [link?, if_neg hcomma, target?_text, Option.map_some, String.ofList_toList]

end Next

end Value

/-! ## Headers -/

/-- A header of values. -/
def header (values : List Value) : String := String.ofList (joinWith ',' (values.map Value.text))

/-- The link to the next page that is found in the values of a header. -/
def announced (values : List Value) : Option String :=
  (values.find? (·.name = "next")).bind Value.link?

theorem find?_pieces (values : List Value) :
    (((values.map Value.text).flatMap (fields ',')).find? (occursIn mark)).bind
      (fun part => (target? part).map String.ofList) = announced values := by
  rw [announced]
  induction values with
  | nil => rfl
  | cons v values ih =>
    rw [List.map_cons, List.flatMap_cons, List.find?_append]
    by_cases h : v.name = "next"
    · obtain ⟨part, hfind, hlink⟩ := v.find?_fields_of_eq h
      rw [hfind, List.find?_cons_of_pos (by simpa using h)]
      exact hlink
    · rw [v.find?_fields_of_ne h, List.find?_cons_of_neg (by simpa using h)]
      exact ih

theorem next?_ofList (s : List Char) :
    next? (String.ofList s) = ((fields ',' s).find? (occursIn mark)).bind fun part =>
      (target? part).map String.ofList := by
  have hlist : (String.ofList s).toList = s := String.toList_ofList
  rw [next?, hlist]
  rfl

theorem next?_header (values : List Value) : next? (header values) = announced values := by
  rw [header, next?_ofList]
  cases values with
  | nil => rfl
  | cons v values =>
    rw [List.map_cons,
      fields_joinWith_eq_flatMap ',' (List.cons_ne_nil v.text (values.map Value.text))]
    exact find?_pieces (v :: values)

/-- The first value with the name `next` is found with its target as long as that has no comma. -/
theorem announced_eq_map_iff {values : List Value} :
    announced values = (values.find? (·.name = "next")).map (·.target) ↔
      ∀ v, values.find? (·.name = "next") = some v → ',' ∉ v.target.toList := by
  rw [announced]
  cases values.find? (·.name = "next") with
  | none => simp
  | some v => by_cases h : ',' ∈ v.target.toList <;> simp [Value.link?, h]

/-! ## Headers of any form -/

/-- The target of a piece stands between its first left angle bracket and its first right one. -/
inductive IsTarget : List Char → List Char → Prop
  | intro {left target right : List Char} (hleft : '<' ∉ left ∧ '>' ∉ left)
    (htarget : '>' ∉ target) (hne : target ≠ []) :
    IsTarget (left ++ '<' :: (target ++ '>' :: right)) target

/-- The next page is the target of the first piece between commas that speaks of it. -/
inductive IsNext : List Char → List Char → Prop
  | intro {before after : List (List Char)} {part target : List Char}
    (hpieces : ∀ piece ∈ before ++ part :: after, ',' ∉ piece)
    (hbefore : ∀ piece ∈ before, ¬ mark <:+: piece) (hmark : mark <:+: part)
    (htarget : IsTarget part target) : IsNext (joinWith ',' (before ++ part :: after)) target

end TagWatch.Link

/-! ## Lists of tags -/

namespace TagWatch.Distribution

open Http

/-- **Links are read from their header, and a list is followed by them.** The link to the next page
is the target of the first value with the name `next` exactly if there is no comma in this target,
and with a comma in it there is no link. Whatever the servers answer, a page has the next page that
the link in the header of its answer leads to, and a list that ends before its number of pages is
used up ends at a page that fails or has no next one. -/
theorem links_followed (values : List Link.Value) {σ : Type}
    (handler : Handler Request (fun _ => Except NetworkFailure Response) σ) (e : Endpoint)
    (image : String) (memory : Memory) (s : σ) :
    (Link.next? (Link.header values) = (values.find? (·.name = "next")).map (·.target) ↔
      ∀ v, values.find? (·.name = "next") = some v → ',' ∉ v.target.toList) ∧
    (∀ v, values.find? (·.name = "next") = some v → ',' ∈ v.target.toList →
      Link.next? (Link.header values) = none) ∧
    ∃ visits memory' s',
      Walk (.session handler) (page e image) e.maxPages (listUrl e image) (memory, s) visits
        (memory', s') ∧
      ((Interpreter.session handler).run (allTags e image) (memory, s)).1 = outcome visits ∧
      (∀ v ∈ visits, ∀ here, v.brought = .ok here → ∃ request response,
        v.said.getLast? = some ⟨request, .ok response⟩ ∧
          here.next = ((response.header? "link").bind Link.next?).map (linkUrl e)) ∧
      (visits.length < e.maxPages →
        ∃ v, visits.getLast? = some v ∧ ∀ here, v.brought = .ok here → here.next = none) := by
  refine ⟨?_, ?_, ?_⟩
  · rw [Link.next?_header, Link.announced_eq_map_iff]
  · intro v hfind hcomma
    rw [Link.next?_header, Link.announced, hfind, Option.bind_some, Link.Value.link?, if_pos hcomma]
  obtain ⟨visits, memory', s', hwalk, -, hasked, -, hdoes⟩ := allTags_walk handler e image memory s
  exact ⟨visits, memory', s', hwalk, congrArg Prod.fst hdoes.run,
    fun v hv here hhere => (hasked v hv).next hhere, hwalk.ends_at_last⟩

/-- A value with a comma in its target. -/
def commaValue : Link.Value where
  target := "/v2/app/tags/list?last=1.0.0,x&n=100"
  name := "next"
  target_ne := by decide
  target_plain := by simp
  name_plain := by decide

/-- The next page is announced and not found. -/
theorem links_followed_comma :
    Link.header [commaValue] = "</v2/app/tags/list?last=1.0.0,x&n=100>; rel=\"next\"" ∧
      Link.next? (Link.header [commaValue]) = none :=
  ⟨rfl, (links_followed [commaValue] (fun _ s => (.error .malformed, s)) ⟨"http://reg.test", 10⟩
    "app" {} ()).2.1 commaValue rfl (by decide)⟩

end TagWatch.Distribution
