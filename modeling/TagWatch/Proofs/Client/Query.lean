import Mathlib.Data.List.Forall2
import Mathlib.Data.List.Sublists
import TagWatch.Proofs.Client.Listing
import TagWatch.Proofs.Version.Spelling
import TagWatch.Proofs.Version.Sublist

/-!
# The narrow query to Docker Hub

To find the newest tag inside a scope, the client for Docker Hub lists only the tags that contain
a text: the mark of the current tag and the numbers that the scope keeps. The text is put together
from the numbers, while tags are compared by their values, so that a tag may be inside the scope
and still not contain the text.

**Theorem (`latest_eq_latestInScope`).** On a server that answers each query with the tags that
contain its text, the narrow query finds the tag that would be chosen from all tags, provided that
this tag spells its mark and its numbers as the query does (`Written`): it has the mark of the
current tag, if that has one, and no leading zeros in the numbers that the query names.

Neither condition can be left out (`latest_missed`).
-/

namespace TagWatch.Hub

open Http Text Version

/-! ## Servers -/

/-- Whether a query finds a tag: the tag contains the text that is asked for, if one is. -/
def finds (filter : Option String) (tag : String) : Bool :=
  filter.all fun text => occursIn text.toList tag.toList

variable {σ : Type} (handler : Handler Request (fun _ => Except NetworkFailure Response) σ)

/-- The pages of each query, as far as they are followed, bring the tags of the image that the
query finds, in order. -/
def Serves (e : Endpoint) (image : String) (tags : List String) (s : σ) : Prop :=
  ∀ filter, ∃ visits s' found,
    Walk (.http handler) (page image) e.maxPages (listUrl e image filter) s visits s' ∧
      outcome visits = .ok found ∧ found.map (·.name) = tags.filter (finds filter)

/-- A query is answered by the tags that it finds. -/
theorem run_listTags {e : Endpoint} {image : String} {tags : List String} {s : σ}
    (h : Serves handler e image tags s) (filter : Option String) :
    ((listTags e image filter).run handler s).1 = .ok (tags.filter (finds filter)) := by
  obtain ⟨visits, s', found, hwalk, houtcome, hfound⟩ := h filter
  have hdoes := hwalk.does_follow []
  rw [← listPages_eq_follow, houtcome] at hdoes
  have hrun : (listPages image e.maxPages (listUrl e image filter) []).run handler s =
      (.ok found, s') := hdoes.run
  rw [listTags, Program.run_bind, hrun]
  exact congrArg Except.ok hfound

theorem run_latest {e : Endpoint} {image : String} {tags : List String} {s : σ}
    (h : Serves handler e image tags s) (tag : String) (scope : Level) (digest : Option String)
    (prereleases : Bool) :
    ((answer e (.latest image tag scope digest prereleases)).run handler s).1 =
      .ok (latestInScope tag (tags.filter (finds (scopeFilter tag scope))) scope prereleases) := by
  have hlist := run_listTags handler h (scopeFilter tag scope)
  show ((latest e image tag scope prereleases).run handler s).1 = _
  rw [latest, Program.run_bind, hlist]
  rfl

/-! ## The text of a query -/

/-- How many numbers a scope keeps. -/
def kept : Level → Nat
  | .patch => 2
  | .minor => 1
  | .major => 0

/-- How many numbers the query for a scope names, for tags with a number of components: those that
the scope keeps, but never the last one. -/
def named (scope : Level) (components : Nat) : Nat := min (kept scope) (components - 1)

/-- A query begins with the mark of the current tag. -/
theorem toList_prefix {tag : String} {v : Version} (h : Spelled tag v) :
    (if v.prefixed then String.ofList (tag.toList.take 1) else "").toList = mark tag := by
  by_cases hprefixed : v.prefixed = true
  · rw [if_pos hprefixed, String.toList_ofList, mark_of_ne_nil (h.prefixed.mp hprefixed)]
  · rw [if_neg hprefixed]
    exact (not_not.mp fun hne => hprefixed (h.prefixed.mpr hne)).symm

/-- The text of a query: the mark of the current tag and the numbers that are named. -/
theorem toList_scopeFilter {tag text : String} {scope : Level} {v : Version}
    (hv : ofTag? tag = some v) (h : scopeFilter tag scope = some text) :
    text.toList = mark tag ++ ((numbers v).take (named scope v.components)).flatMap fun n =>
      Nat.toDigits 10 n ++ ['.'] := by
  have hspelled := spelled_of_ofTag? hv
  have hmark := toList_prefix hspelled
  rw [scopeFilter, hv, Option.bind_some] at h
  generalize (if v.prefixed then String.ofList (tag.toList.take 1) else "") = front at h hmark
  have hone (hkept : (numbers v).take (named scope v.components) = [v.major])
      (htext : some (front ++ toString v.major ++ ".") = some text) :
      text.toList = mark tag ++ ((numbers v).take (named scope v.components)).flatMap fun n =>
        Nat.toDigits 10 n ++ ['.'] := by
    obtain rfl := Option.some.inj htext
    simp [hkept, hmark]
  cases scope with
  | patch =>
    simp only at h
    split at h
    · next hthree =>
      have hkept : (numbers v).take (named .patch v.components) = [v.major, v.minor] := by
        rw [numbers, hthree]
        rfl
      obtain rfl := Option.some.inj h
      simp [hkept, hmark]
    · split at h
      · next htwo => exact hone (by rw [numbers, htwo]; rfl) h
      · cases h
  | minor =>
    simp only at h
    split at h
    · next htwo =>
      refine hone ?_ h
      have hcases : v.components = 2 ∨ v.components = 3 := by
        have := hspelled.components
        omega
      rcases hcases with hc | hc <;> rw [numbers, hc] <;> rfl
    · cases h
  | major => cases h

/-! ## Tags that contain the text -/

/-- A tag spells its mark and its numbers as the query for the scope of another tag does: it has
the mark of that tag, if there is one, and the numbers that are named have no leading zeros. Before
the first number of a tag without a mark, zeros do no harm. -/
structure Written (tag : String) (scope : Level) (chosen : String) : Prop where
  mark : mark tag = [] ∨ mark chosen = mark tag
  plain : ∀ numeral ∈ ((numerals chosen).take (named scope (numerals chosen).length)).drop
    (if Version.mark tag = [] then 1 else 0), Plain numeral

/-- Numerals without leading zeros are determined by the numbers that they denote. -/
theorem flatMap_eq_of_plain {numerals : List (List Char)} {numbers : List Nat}
    (h : List.Forall₂ (fun s n => word? s = some n) numerals numbers)
    (hplain : ∀ s ∈ numerals, Plain s) :
    numerals.flatMap (· ++ ['.']) = numbers.flatMap fun n => Nat.toDigits 10 n ++ ['.'] := by
  induction h with
  | nil => rfl
  | @cons s n numerals numbers hs _ ih =>
    obtain ⟨hne, hdigits, -, rfl⟩ := word?_eq_some_iff.mp hs
    obtain ⟨hplain, hrest⟩ := List.forall_mem_cons.mp hplain
    rw [List.flatMap_cons, List.flatMap_cons, ih hrest, ← hplain.eq_toDigits hne hdigits]

/-- Leading zeros of the first numeral come before the text of the numbers. -/
theorem exists_flatMap_eq {numerals : List (List Char)} {numbers : List Nat}
    (h : List.Forall₂ (fun s n => word? s = some n) numerals numbers)
    (hplain : ∀ s ∈ numerals.drop 1, Plain s) :
    ∃ zeros, numerals.flatMap (· ++ ['.']) =
      zeros ++ numbers.flatMap fun n => Nat.toDigits 10 n ++ ['.'] := by
  cases h with
  | nil => exact ⟨[], rfl⟩
  | @cons s n numerals numbers hs hrest =>
    obtain ⟨hne, hdigits, -, rfl⟩ := word?_eq_some_iff.mp hs
    obtain ⟨k, hk⟩ := exists_zeros hne hdigits
    refine ⟨List.replicate k '0', ?_⟩
    rw [List.flatMap_cons, List.flatMap_cons, flatMap_eq_of_plain hrest hplain,
      ← List.append_assoc, ← List.append_assoc, ← hk]

/-- The numbers that a query names are the same for every version inside the scope. -/
theorem named_numbers {scope : Level} {v w : Version} (hcomponents : w.components = v.components)
    (hinside : Inside scope v w) :
    (numbers w).take (named scope w.components) = (numbers v).take (named scope v.components) := by
  rw [numbers, numbers, List.take_take, List.take_take, hcomponents]
  have hbound : min (named scope v.components) v.components ≤ kept scope :=
    Nat.le_trans (Nat.min_le_left _ _) (Nat.min_le_left _ _)
  generalize min (named scope v.components) v.components = k at hbound
  cases scope with
  | patch =>
    obtain ⟨hmajor, hminor⟩ := hinside
    rw [hmajor, hminor]
    match k, hbound with
    | 0, _ => rfl
    | 1, _ => rfl
    | 2, _ => rfl
  | minor =>
    have hmajor : w.major = v.major := hinside
    rw [hmajor]
    match k, hbound with
    | 0, _ => rfl
    | 1, _ => rfl
  | major =>
    obtain rfl := Nat.le_zero.mp hbound
    rfl

theorem length_numerals {tag : String} {v : Version} (h : Spelled tag v) :
    (numerals tag).length = v.components := by
  rw [h.numerals.length_eq, numbers, List.length_take]
  exact Nat.min_eq_left h.components

/-- **A tag inside the scope that is written like the query contains its text.** -/
theorem finds_of_written {tag chosen : String} {scope : Level} {v w : Version}
    (hv : ofTag? tag = some v) (hw : ofTag? chosen = some w)
    (hcomponents : w.components = v.components) (hinside : Inside scope v w)
    (hwritten : Written tag scope chosen) : finds (scopeFilter tag scope) chosen = true := by
  cases htext : scopeFilter tag scope with
  | none => rfl
  | some text =>
    have hspelled := spelled_of_ofTag? hw
    have hlength := length_numerals hspelled
    have hplain := hwritten.plain
    rw [finds, Option.all_some, occursIn_iff, toList_scopeFilter hv htext,
      ← named_numbers hcomponents hinside, ← hlength]
    -- From here on `k` numbers are named, and the tag begins with its first `k` numerals.
    have hk : named scope (numerals chosen).length < (numerals chosen).length := by
      have hpos := List.length_pos_of_ne_nil (fields_ne_nil '.' (dropMark (headOf chosen)).2)
      exact Nat.lt_of_le_of_lt (Nat.min_le_right _ _) (Nat.sub_lt hpos Nat.one_pos)
    obtain ⟨ending, htoList⟩ := hspelled.toList
    rw [htoList, joinWith_eq_append '.' hk]
    generalize named scope (numerals chosen).length = k at hplain
    have hnumerals := List.forall₂_take k hspelled.numerals
    by_cases hmark : mark tag = []
    · rw [if_pos hmark] at hplain
      obtain ⟨zeros, hzeros⟩ := exists_flatMap_eq hnumerals hplain
      rw [hzeros, hmark, List.nil_append]
      exact ⟨mark chosen ++ zeros, joinWith '.' ((numerals chosen).drop k) ++ ending, by simp⟩
    · rw [if_neg hmark, List.drop_zero] at hplain
      rw [flatMap_eq_of_plain hnumerals hplain, hwritten.mark.resolve_left hmark]
      exact ⟨[], joinWith '.' ((numerals chosen).drop k) ++ ending, by simp⟩

/-- **The narrow query agrees with the list of all tags**, when the tag that is chosen from all tags
is written like the query. -/
theorem latest_eq_latestInScope {baseUrl : String} {cap : Nat} {image : String}
    {tags : List String} {s : σ} (hserves : Serves handler (.make baseUrl cap) image tags s)
    (tag : String) (scope : Level) (digest : Option String) (prereleases : Bool)
    (hwritten : ∀ chosen, latestInScope tag tags scope prereleases = some chosen →
      Written tag scope chosen) :
    ((answer (.make baseUrl cap) (.latest image tag scope digest prereleases)).run handler s).1 =
      .ok (latestInScope tag tags scope prereleases) := by
  rw [run_latest handler hserves, latestInScope_filter]
  intro chosen hchosen
  cases hv : ofTag? tag with
  | none => rw [latestInScope, hv] at hchosen; cases hchosen
  | some v =>
    obtain ⟨-, w, hw, heligible, hinside, -⟩ := latestInScope_spec hv hchosen
    exact finds_of_written hv hw heligible.components hinside (hwritten chosen hchosen)

/-! ## A server -/

/-- The text of a page with some tags and no next page. -/
def pageText (tags : List String) : String :=
  "\x7b\"results\":[" ++
    ",".intercalate (tags.map fun tag => "\x7b\"name\":\"" ++ tag ++ "\"\x7d") ++ "]\x7d"

/-- The server that keeps the tags of one image and answers each query on a single page. -/
def shelf (e : Endpoint) (image : String) (tags : List String) :
    Handler Request (fun _ => Except NetworkFailure Response) Unit := fun r _ =>
  let filter := (strip? (listUrl e image (some "")).toList r.url.toList).map String.ofList
  (.ok ⟨r.url, 200, [], .text (pageText (tags.filter (finds filter)))⟩, ())

/-- The server reads the text of a query off its address. -/
theorem strip?_listUrl (e : Endpoint) (image : String) (filter : Option String) :
    (strip? (listUrl e image (some "")).toList (listUrl e image filter).toList).map String.ofList =
      filter := by
  cases filter with
  | none =>
    cases h : strip? (listUrl e image (some "")).toList (listUrl e image none).toList with
    | none => rfl
    | some rest =>
      have hlength := congrArg List.length (strip?_eq_some_iff.mp h)
      simp only [listUrl, String.toList_append, List.length_append] at hlength
      change _ + 0 = _ + (6 + 0) + _ at hlength
      omega
  | some text =>
    have h : (listUrl e image (some text)).toList =
        (listUrl e image (some "")).toList ++ text.toList := by
      simp only [listUrl, String.toList_append, List.append_assoc]
      rfl
    rw [strip?_eq_some_iff.mpr h, Option.map_some, String.ofList_toList]

/-- The server answers as it should, if its pages can be read. -/
theorem serves_shelf (e : Endpoint) (image : String) (tags : List String) (hcap : 0 < e.maxPages)
    (hread : ∀ part ∈ tags.sublists, (Json.read? (pageText part)).bind TagPage.ofJson? =
      some ⟨none, part.map (⟨·, none, none⟩)⟩) :
    Serves (shelf e image tags) e image tags () := by
  intro filter
  have hpart := hread (tags.filter (finds filter)) (List.mem_sublists.mpr List.filter_sublist)
  generalize htags : tags.filter (finds filter) = part at hpart
  let response : Response := ⟨listUrl e image filter, 200, [], .text (pageText part)⟩
  have hanswer : shelf e image tags ⟨.get, listUrl e image filter, none, none⟩ () =
      (.ok response, ()) := by
    rw [shelf, strip?_listUrl, htags]
  have hcontent : response.content image TagPage.ofJson? =
      .ok ⟨none, part.map (⟨·, none, none⟩)⟩ := by
    have herror : response.error? image = none := rfl
    have hbody : response.body = .text (pageText part) := rfl
    rw [Response.content, herror]
    simp only [Response.decode, hbody, hpart]
  have hdoes := does_page _ image hanswer
  rw [received_readPage_eq_ok_iff.mpr ⟨response, _, rfl, hcontent, rfl⟩] at hdoes
  obtain ⟨pages, hpages⟩ := Nat.exists_eq_succ_of_ne_zero (Nat.ne_of_gt hcap)
  refine ⟨_, (), part.map (⟨·, none, none⟩), by rw [hpages]; exact .last hdoes, ?_, ?_⟩
  · rw [outcome_ok, outcome_nil]
    exact congrArg Except.ok (List.append_nil _)
  · rw [List.map_map]
    exact List.map_id part

/-- A newer tag with the same mark is found. -/
theorem latest_eq_latestInScope_marked :
    Serves (shelf (.make "http://hub.test" 1) "org/app" ["v1.2.3", "v1.2.4"])
        (.make "http://hub.test" 1) "org/app" ["v1.2.3", "v1.2.4"] () ∧
      ((answer (.make "http://hub.test" 1) (.latest "org/app" "v1.2.3" .patch none false)).run
          (shelf (.make "http://hub.test" 1) "org/app" ["v1.2.3", "v1.2.4"]) ()).1 =
        .ok (some "v1.2.4") := by
  have hserves := serves_shelf (.make "http://hub.test" 1) "org/app" ["v1.2.3", "v1.2.4"]
    (by decide) (by decide +kernel)
  have hchosen : latestInScope "v1.2.3" ["v1.2.3", "v1.2.4"] .patch false = some "v1.2.4" := by
    decide +kernel
  refine ⟨hserves, ?_⟩
  rw [latest_eq_latestInScope _ hserves "v1.2.3" .patch none false fun chosen h => ?_, hchosen]
  obtain rfl := Option.some.inj (hchosen.symm.trans h)
  exact ⟨by decide, by decide⟩

/-- Two newer tags that are not found: one without the mark of the current tag, and one whose
second number has a leading zero. -/
theorem latest_missed :
    (Serves (shelf (.make "http://hub.test" 1) "org/app" ["v1.2.3", "1.2.4"])
        (.make "http://hub.test" 1) "org/app" ["v1.2.3", "1.2.4"] () ∧
      latestInScope "v1.2.3" ["v1.2.3", "1.2.4"] .patch false = some "1.2.4" ∧
      ((answer (.make "http://hub.test" 1) (.latest "org/app" "v1.2.3" .patch none false)).run
          (shelf (.make "http://hub.test" 1) "org/app" ["v1.2.3", "1.2.4"]) ()).1 = .ok none) ∧
    Serves (shelf (.make "http://hub.test" 1) "org/app" ["2024.04.1", "2024.04.2"])
        (.make "http://hub.test" 1) "org/app" ["2024.04.1", "2024.04.2"] () ∧
      latestInScope "2024.04.1" ["2024.04.1", "2024.04.2"] .patch false = some "2024.04.2" ∧
      ((answer (.make "http://hub.test" 1) (.latest "org/app" "2024.04.1" .patch none false)).run
          (shelf (.make "http://hub.test" 1) "org/app" ["2024.04.1", "2024.04.2"]) ()).1 =
        .ok none := by
  have hmarked := serves_shelf (.make "http://hub.test" 1) "org/app" ["v1.2.3", "1.2.4"]
    (by decide) (by decide +kernel)
  have hdated := serves_shelf (.make "http://hub.test" 1) "org/app" ["2024.04.1", "2024.04.2"]
    (by decide) (by decide +kernel)
  refine ⟨⟨hmarked, by decide +kernel, ?_⟩, hdated, by decide +kernel, ?_⟩
  · rw [run_latest _ hmarked]
    exact congrArg Except.ok (by decide +kernel)
  · rw [run_latest _ hdated]
    exact congrArg Except.ok (by decide +kernel)

end TagWatch.Hub
