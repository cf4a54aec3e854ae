import TagWatch.Text.Cut

/-!
# Links to the next page

A paged list names its next page in a header such as `</v2/app/tags/list?last=9>; rel="next"`.
The header is cut at its commas, and the first part that speaks of the next page has the address
between its first angle brackets.
-/

namespace TagWatch.Link

open Text

/-- The text between the first `<` and the first `>`, which has to come later and not at once. -/
def target? (s : List Char) : Option (List Char) :=
  match cut '<' s, cut '>' s with
  | some (before, _), some (inside, _) =>
    if before.length + 1 < inside.length then some (inside.drop (before.length + 1)) else none
  | _, _ => none

/-- The address of the next page in the text of the header. -/
def next? (header : String) : Option String :=
  ((fields ',' header.toList).find? (occursIn "rel=\"next\"".toList)).bind fun part =>
    (target? part).map String.ofList

end TagWatch.Link
