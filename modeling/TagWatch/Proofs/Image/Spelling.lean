import TagWatch.Proofs.Image.Rendering

/-!
# What a reference is spelled with

A text without the blanks at its ends is a name, possibly a tag behind a colon, and possibly a
digest behind an `@` (`Spelled`). Every text is spelled in some way (`exists_spelled`), and what is
read from it is told by its spelling (`read?_eq`).

**Theorem (`read?_complete`).** A text is refused exactly if its name is empty, or its tag is
written and empty. What is read always has a registry and a tag. The name is not looked at again
once its host is split off, and the digest is not looked at: the repository is empty or ends with a
slash exactly if the name ends with a slash, and the digest is empty exactly if it is written and
empty.
-/

namespace TagWatch.Reference

open Text

/-- The part of a reference that names a tag. -/
def tagPart : Option (List Char) → List Char
  | some tag => ':' :: tag
  | none => []

/-- Between blanks, a text is a name with a tag and a digest, each of which may be left out. -/
structure Spelled (text : String) (name : List Char) (tag digest : Option (List Char)) : Prop where
  text : trim text.toList = (name ++ tagPart tag) ++ digestPart digest
  name_at : '@' ∉ name
  tag_plain : ∀ t, tag = some t → '/' ∉ t ∧ ':' ∉ t ∧ '@' ∉ t
  /-- Without a tag there is a slash after the last colon of the name. -/
  untagged : tag = none → ∀ before after, name = before ++ ':' :: after → ':' ∉ after → '/' ∈ after

variable {text : String} {name : List Char} {tag digest : Option (List Char)}

/-- Without a tag the name goes to the end. -/
theorem splitTag_of_untagged
    (h : ∀ before after, name = before ++ ':' :: after → ':' ∉ after → '/' ∈ after) :
    splitTag name = (name, "latest".toList) := by
  have hfile : cutLast ':' (splitPath name).2 = none := by
    rw [Option.eq_none_iff_forall_ne_some]
    rintro ⟨before, after⟩ hcut
    obtain ⟨hfile, hcolon⟩ := cutLast_eq_some_iff.mp hcut
    rw [splitPath] at hfile
    cases hpath : cutLast '/' name with
    | none =>
      rw [hpath] at hfile
      refine cutLast_eq_none_iff.mp hpath ?_
      rw [show name = before ++ ':' :: after from hfile]
      exact List.mem_append_right _ (List.mem_cons_of_mem _ (h before after hfile hcolon))
    | some p =>
      obtain ⟨directory, file⟩ := p
      rw [hpath] at hfile
      obtain ⟨hname, hslash⟩ := cutLast_eq_some_iff.mp hpath
      dsimp only at hfile
      refine hslash (hfile ▸ List.mem_append_right _ (List.mem_cons_of_mem _ ?_))
      exact h (directory ++ '/' :: before) after (by simp [hname, hfile]) hcolon
  rw [splitTag]
  dsimp only
  rw [hfile]

theorem exists_spelled (text : String) : ∃ name tag digest, Spelled text name tag digest := by
  rcases hsplit : splitDigest (trim text.toList) with ⟨nameAndTag, digest⟩
  obtain ⟨htext, hat⟩ := splitDigest_eq_iff.mp hsplit
  have huntagged (h : ∀ before after, nameAndTag = before ++ ':' :: after → ':' ∉ after →
      '/' ∈ after) : Spelled text nameAndTag none digest :=
    ⟨by rw [tagPart, List.append_nil, htext], hat, nofun, fun _ => h⟩
  cases hcut : cutLast ':' nameAndTag with
  | none =>
    refine ⟨nameAndTag, none, digest, huntagged fun before after heq _ => ?_⟩
    exact absurd (heq ▸ List.mem_append_right _ List.mem_cons_self) (cutLast_eq_none_iff.mp hcut)
  | some p =>
    obtain ⟨name, tag⟩ := p
    obtain ⟨rfl, hcolon⟩ := cutLast_eq_some_iff.mp hcut
    by_cases hslash : '/' ∈ tag
    · refine ⟨_, none, digest, huntagged fun before after heq hafter => ?_⟩
      have hsame := hcut.symm.trans (cutLast_eq_some_iff.mpr ⟨heq, hafter⟩)
      obtain ⟨-, rfl⟩ := Prod.mk.inj (Option.some.inj hsame)
      exact hslash
    · rw [List.mem_append, List.mem_cons, not_or, not_or] at hat
      refine ⟨name, some tag, digest, htext, hat.1, ?_, nofun⟩
      rintro _ ⟨⟩
      exact ⟨hslash, hcolon, hat.2.2⟩

section Spelled

variable (h : Spelled text name tag digest)
include h

theorem Spelled.splitDigest_eq :
    splitDigest (trim text.toList) = (name ++ tagPart tag, digest) := by
  refine splitDigest_eq_iff.mpr ⟨h.text, ?_⟩
  cases tag with
  | none => simpa [tagPart] using h.name_at
  | some t => simpa [tagPart] using ⟨h.name_at, (h.tag_plain t rfl).2.2⟩

theorem Spelled.splitTag_eq :
    splitTag (name ++ tagPart tag) = (name, tag.getD "latest".toList) := by
  cases tag with
  | none =>
    rw [tagPart, List.append_nil]
    exact splitTag_of_untagged (h.untagged rfl)
  | some t => exact splitTag_append (h.tag_plain t rfl).1 (h.tag_plain t rfl).2.1

/-- **What is read is told by the spelling.** -/
theorem Spelled.read?_eq : read? text =
    if name = [] ∨ tag = some [] then none
    else some
      { registry := String.ofList (splitHost name).1
        image := String.ofList
          (repository (String.ofList (splitHost name).1) (splitHost name).2)
        tag := String.ofList (tag.getD "latest".toList)
        digest := digest.map String.ofList } := by
  have hempty : (name.isEmpty || (tag.getD "latest".toList).isEmpty) = true ↔
      name = [] ∨ tag = some [] := by
    cases tag <;> simp
  rw [read?, h.splitDigest_eq]
  dsimp only
  rw [h.splitTag_eq]
  dsimp only
  rw [if_congr hempty rfl rfl]

end Spelled

/-! ## Empty parts -/

section Repository

variable {registry : String} {host path : List Char} (h : splitHost name = (host, path))
  (hname : name ≠ [])
include h hname

/-- There is no repository after a host and a slash, unless it is put into a namespace. -/
theorem repository_eq_nil_iff : repository (String.ofList host) path = [] ↔
    name = host ++ ['/'] ∧ Registry.canonical (String.ofList host) ≠ Registry.hub := by
  have hrepository : repository (String.ofList host) path = [] ↔
      path = [] ∧ Registry.canonical (String.ofList host) ≠ Registry.hub := by
    rw [repository]
    split
    · next hhub =>
      rw [Bool.and_eq_true, beq_iff_eq] at hhub
      simp [hhub.1]
    · next hhub =>
      constructor
      · rintro rfl
        exact ⟨rfl, fun heq => hhub (by simp [heq])⟩
      · exact And.left
  rw [hrepository]
  refine and_congr_left fun hother => ?_
  obtain ⟨-, -, rfl | ⟨rfl, rfl⟩⟩ := splitHost_spec h
  · simp
  · exact absurd (by decide +kernel) hother

/-- A repository ends like its name, unless it is empty. -/
theorem repository_ends_iff :
    (repository registry path = [] ∨ (repository registry path).getLast? = some '/') ↔
      name.getLast? = some '/' := by
  have hend : name.getLast? = some '/' ↔ path = [] ∨ path.getLast? = some '/' := by
    obtain ⟨-, -, rfl | ⟨rfl, rfl⟩⟩ := splitHost_spec h
    · rw [List.getLast?_append_of_ne_nil _ (List.cons_ne_nil _ _), List.getLast?_cons]
      cases hpath : path.getLast? with
      | none => simp [List.getLast?_eq_none_iff.mp hpath]
      | some c => simp [show path ≠ [] by rintro rfl; cases hpath]
    · simp [hname]
  rw [hend, repository]
  split
  · by_cases hpath : path = []
    · simp [hpath]
    · rw [List.getLast?_append_of_ne_nil _ hpath]
      simp [hpath]
  · rfl

end Repository

/-- **References and their empty parts.** Every text has a spelling. It is refused exactly if its
name is empty, or a tag is written and empty. Otherwise the registry and the tag that are read are
not empty. The repository is empty exactly if the name is a host with a slash and the registry is
not Docker Hub, and it is empty or ends with a slash exactly if the name ends with a slash. The
digest is empty exactly if one is written and empty. -/
theorem read?_complete (text : String) :
    (∃ name tag digest, Spelled text name tag digest) ∧
      ∀ name tag digest, Spelled text name tag digest →
        (read? text = none ↔ name = [] ∨ tag = some []) ∧
        ∀ r, read? text = some r → r.registry ≠ "" ∧ r.tag ≠ "" ∧
          (r.image = "" ↔ name = r.registry.toList ++ ['/'] ∧
            Registry.canonical r.registry ≠ Registry.hub) ∧
          ((r.image = "" ∨ r.image.toList.getLast? = some '/') ↔ name.getLast? = some '/') ∧
          (r.digest = some "" ↔ digest = some []) := by
  refine ⟨exists_spelled text, fun name tag digest h => ⟨?_, fun r hread => ?_⟩⟩
  · rw [h.read?_eq]
    split
    · next hempty => exact iff_of_true rfl hempty
    · next hne => exact iff_of_false (Option.some_ne_none _) hne
  have hlegible := legible_of_read? hread
  rw [h.read?_eq] at hread
  split at hread
  · cases hread
  next hne =>
  have hname : name ≠ [] := (not_or.mp hne).1
  have hhost : splitHost name = ((splitHost name).1, (splitHost name).2) := rfl
  refine ⟨fun heq => hlegible.registry_ne_nil (congrArg String.toList heq),
    fun heq => hlegible.tag_ne_nil (congrArg String.toList heq), ?_⟩
  cases hread
  refine ⟨?_, ?_, ?_⟩
  · rw [String.ofList_eq_empty_iff, String.toList_ofList]
    exact repository_eq_nil_iff hhost hname
  · rw [String.ofList_eq_empty_iff, String.toList_ofList]
    exact repository_ends_iff hhost hname
  · cases digest with
    | none => simp
    | some d => simp

/-- A host with a slash is read without a repository, and so is a text that ends with its `@` with
an empty digest. -/
theorem read?_complete_gaps :
    (∃ r, read? "ghcr.io/" = some r ∧ r.image = "") ∧
      ∃ r, read? "nginx@" = some r ∧ r.digest = some "" := by
  have hhost : Spelled "ghcr.io/" "ghcr.io/".toList none none :=
    ⟨by decide +kernel, by decide, nofun, fun _ before after heq _ =>
      absurd (heq ▸ List.mem_append_right before List.mem_cons_self) (by decide)⟩
  have hdigest : Spelled "nginx@" "nginx".toList none (some []) :=
    ⟨by decide +kernel, by decide, nofun, fun _ before after heq _ =>
      absurd (heq ▸ List.mem_append_right before List.mem_cons_self) (by decide)⟩
  have hread : read? "ghcr.io/" = some ⟨"ghcr.io", "", "latest", none⟩ := by decide +kernel
  have hread' : read? "nginx@" = some ⟨"docker.io", "library/nginx", "latest", some ""⟩ := by
    decide +kernel
  have hall := (((read?_complete "ghcr.io/").2 _ _ _ hhost).2 _ hread).2.2.1
  have hall' := (((read?_complete "nginx@").2 _ _ _ hdigest).2 _ hread').2.2.2.2
  exact ⟨⟨_, hread, hall.mpr ⟨rfl, by decide +kernel⟩⟩, ⟨_, hread', hall'.mpr rfl⟩⟩

end TagWatch.Reference
