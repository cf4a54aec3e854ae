import TagWatch.Image.Reference
import TagWatch.Proofs.Registry.Name

/-!
# References are read back

A reference has marks of three kinds between its parts, and the same marks may stand inside them: a
colon in a host with a port, in a path and in a digest, a slash in a path, an `@` in a digest.

**Theorem (`Reference.read?_rendered`).** Whatever can be read is read back from its rendering, and
so is every reference whose parts could have been written by hand.

Where a part ends is told by what its neighbours do not contain: the digest begins at the first `@`,
the tag after the last colon, and the host ends at the first slash. `Legible` collects what the
parts must not contain for this; a reference that was read has all of it
(`legible_of_read?`), and everything legible is read back (`Legible.read?_render`).
-/

namespace TagWatch

open Text

namespace Reference

/-! ## Where the parts end -/

section Parts

variable {s name tag host path : List Char} {digest : Option (List Char)}

/-- The part of a reference that names a digest. -/
def digestPart : Option (List Char) → List Char
  | some digest => '@' :: digest
  | none => []

theorem splitDigest_eq_iff : splitDigest s = (name, digest) ↔
    s = name ++ digestPart digest ∧ '@' ∉ name := by
  rw [splitDigest]
  cases hcut : cut '@' s with
  | none =>
    have hs := cut_eq_none_iff.mp hcut
    simp only [Prod.mk.injEq]
    constructor
    · rintro ⟨rfl, rfl⟩
      exact ⟨(List.append_nil s).symm, hs⟩
    · rintro ⟨rfl, hname⟩
      cases digest with
      | none => exact ⟨List.append_nil name, rfl⟩
      | some d => exact absurd (List.mem_append_right _ List.mem_cons_self) hs
  | some p =>
    obtain ⟨before, after⟩ := p
    simp only [Prod.mk.injEq]
    constructor
    · rintro ⟨rfl, rfl⟩
      exact cut_eq_some_iff.mp hcut
    · rintro ⟨rfl, hname⟩
      cases digest with
      | none =>
        rw [digestPart, List.append_nil, cut_eq_none_iff.mpr hname] at hcut
        cases hcut
      | some d =>
        have hsame := hcut.symm.trans (cut_eq_some_iff.mpr ⟨rfl, hname⟩)
        obtain ⟨rfl, rfl⟩ := Prod.mk.inj (Option.some.inj hsame)
        exact ⟨rfl, rfl⟩

/-- The tag is the text after the last colon, if no slash comes after that. -/
theorem splitTag_append (hslash : '/' ∉ tag) (hcolon : ':' ∉ tag) :
    splitTag (name ++ ':' :: tag) = (name, tag) := by
  have hfile (file : List Char) : cutLast ':' (file ++ ':' :: tag) = some (file, tag) :=
    cutLast_eq_some_iff.mpr ⟨rfl, hcolon⟩
  cases hname : cutLast '/' name with
  | none =>
    have hnone : cutLast '/' (name ++ ':' :: tag) = none := by
      rw [cutLast_eq_none_iff] at hname ⊢
      simp [hname, hslash]
    rw [splitTag, splitPath, hnone]
    dsimp only
    rw [hfile]
    rfl
  | some p =>
    obtain ⟨directory, file⟩ := p
    obtain ⟨rfl, hslash'⟩ := cutLast_eq_some_iff.mp hname
    have hpath : cutLast '/' (directory ++ '/' :: file ++ ':' :: tag) =
        some (directory, file ++ ':' :: tag) :=
      cutLast_eq_some_iff.mpr ⟨by simp, by simp [hslash, hslash']⟩
    rw [splitTag, splitPath, hpath]
    dsimp only
    rw [hfile]
    dsimp only
    rw [List.append_assoc, List.singleton_append]

/-- The tag of a name is written after a colon, or it is `latest`. -/
theorem splitTag_spec (h : splitTag s = (name, tag)) : '/' ∉ tag ∧ ':' ∉ tag ∧
    (s = name ++ ':' :: tag ∨ s = name ∧ tag = "latest".toList) := by
  have hpath : s = (splitPath s).1 ++ (splitPath s).2 ∧ '/' ∉ (splitPath s).2 := by
    rw [splitPath]
    cases hcut : cutLast '/' s with
    | none => exact ⟨rfl, cutLast_eq_none_iff.mp hcut⟩
    | some p =>
      obtain ⟨hs, hfile⟩ := cutLast_eq_some_iff.mp hcut
      exact ⟨by simpa using hs, hfile⟩
  rw [splitTag] at h
  generalize splitPath s = p at h hpath
  obtain ⟨directory, file⟩ := p
  obtain ⟨hs, hslash⟩ := hpath
  dsimp only at h hs hslash
  cases hcut : cutLast ':' file with
  | none =>
    rw [hcut] at h
    obtain ⟨rfl, rfl⟩ := Prod.mk.inj h
    exact ⟨by decide, by decide, .inr ⟨rfl, rfl⟩⟩
  | some p =>
    obtain ⟨before, after⟩ := p
    rw [hcut] at h
    obtain ⟨rfl, rfl⟩ := Prod.mk.inj h
    obtain ⟨rfl, hcolon⟩ := cutLast_eq_some_iff.mp hcut
    exact ⟨fun hmem => hslash (by simp [hmem]), hcolon, .inl (by simpa using hs)⟩

theorem splitHost_append (hhost : isHost host = true) (hslash : '/' ∉ host) :
    splitHost (host ++ '/' :: path) = (host, path) := by
  rw [splitHost, cut_eq_some_iff.mpr ⟨rfl, hslash⟩]
  exact if_pos hhost

/-- The host of a name is written before a slash, or it is `docker.io`. -/
theorem splitHost_spec (h : splitHost s = (host, path)) : isHost host = true ∧ '/' ∉ host ∧
    (s = host ++ '/' :: path ∨ s = path ∧ host = "docker.io".toList) := by
  have hdefault : isHost "docker.io".toList = true ∧ '/' ∉ "docker.io".toList := by decide
  rw [splitHost] at h
  split at h
  · next first rest hcut =>
    obtain ⟨hs, hslash⟩ := cut_eq_some_iff.mp hcut
    split at h
    · next hhost =>
      obtain ⟨rfl, rfl⟩ := Prod.mk.inj h
      exact ⟨hhost, hslash, .inl hs⟩
    · obtain ⟨rfl, rfl⟩ := Prod.mk.inj h
      exact ⟨hdefault.1, hdefault.2, .inr ⟨rfl, rfl⟩⟩
  · obtain ⟨rfl, rfl⟩ := Prod.mk.inj h
    exact ⟨hdefault.1, hdefault.2, .inr ⟨rfl, rfl⟩⟩

end Parts

/-! ## Legible references -/

/-- The parts of a reference do not hide where they end, and its text has no blanks at its ends. -/
structure Legible (r : Reference) : Prop where
  host : isHost r.registry.toList = true
  host_slash : '/' ∉ r.registry.toList
  host_at : '@' ∉ r.registry.toList
  image_at : '@' ∉ r.image.toList
  /-- On Docker Hub the namespace is written out. -/
  namespaced : Registry.canonical r.registry = Registry.hub → '/' ∈ r.image.toList
  tag_ne_nil : r.tag.toList ≠ []
  tag_slash : '/' ∉ r.tag.toList
  tag_colon : ':' ∉ r.tag.toList
  tag_at : '@' ∉ r.tag.toList
  first : ∀ c, r.registry.toList.head? = some c → isBlank c = false
  /-- The text ends with the digest, or else with the tag. -/
  last : ∀ c, (r.digest.getD r.tag).toList.getLast? = some c → isBlank c = false

theorem toList_render (r : Reference) : r.render.toList =
    (r.registry.toList ++ '/' :: r.image.toList) ++ ':' :: r.tag.toList ++
      digestPart (r.digest.map String.toList) := by
  rw [render]
  cases r.digest with
  | none => simp [digestPart]
  | some d => simp [digestPart]

variable {text : String} {r : Reference}

theorem isHost_nil : isHost [] = false := by decide

theorem Legible.registry_ne_nil (h : r.Legible) : r.registry.toList ≠ [] := by
  intro hnil
  have hhost := h.host
  rw [hnil, isHost_nil] at hhost
  cases hhost

/-- The text of a reference ends with the digest, or else with the tag. -/
theorem getLast?_tag_digest {tag : List Char} (htag : tag ≠ []) (digest : Option (List Char))
    (name : List Char) {c : Char}
    (h : (name ++ ':' :: tag ++ digestPart digest).getLast? = some c) :
    c = '@' ∨ (digest.getD tag).getLast? = some c := by
  cases digest with
  | none =>
    rw [digestPart, List.append_nil, List.getLast?_append_of_ne_nil _ (List.cons_ne_nil _ _),
      List.getLast?_cons_of_ne_nil htag] at h
    exact .inr h
  | some d =>
    rw [digestPart, List.getLast?_append_of_ne_nil _ (List.cons_ne_nil _ _), List.getLast?_cons,
      Option.some.injEq] at h
    cases hlast : d.getLast? with
    | none =>
      rw [hlast] at h
      exact .inl h.symm
    | some c' =>
      rw [hlast] at h
      exact .inr (by rw [Option.getD_some, hlast]; exact congrArg some h)

/-- A legible reference has no blanks at the ends of its text. -/
theorem Legible.trim_render (h : r.Legible) : trim r.render.toList = r.render.toList := by
  rw [trim_eq_self_iff, toList_render]
  constructor
  · rw [List.append_assoc, List.append_assoc, List.head?_append_of_ne_nil _ h.registry_ne_nil]
    exact h.first
  · intro c hc
    rcases getLast?_tag_digest h.tag_ne_nil _ _ hc with rfl | hlast
    · rfl
    · apply h.last c
      cases hd : r.digest with
      | none => rwa [hd] at hlast
      | some d => rwa [hd] at hlast

/-- **Legible references are read back.** -/
theorem Legible.read?_render (h : r.Legible) : read? r.render = some r := by
  have hname : '@' ∉ (r.registry.toList ++ '/' :: r.image.toList) ++ ':' :: r.tag.toList := by
    simp [h.host_at, h.image_at, h.tag_at]
  have hdigest : splitDigest (trim r.render.toList) =
      ((r.registry.toList ++ '/' :: r.image.toList) ++ ':' :: r.tag.toList,
        r.digest.map String.toList) := by
    rw [h.trim_render, toList_render]
    exact splitDigest_eq_iff.mpr ⟨rfl, hname⟩
  have hrepository : repository r.registry r.image.toList = r.image.toList := by
    rw [repository, if_neg]
    simpa using h.namespaced
  have hdigest' : (r.digest.map String.toList).map String.ofList = r.digest := by
    cases r.digest <;> simp
  rw [read?, hdigest]
  dsimp only
  rw [splitTag_append h.tag_slash h.tag_colon]
  dsimp only
  rw [splitHost_append h.host h.host_slash, if_neg]
  · dsimp only
    rw [String.ofList_toList, String.ofList_toList, hrepository, String.ofList_toList, hdigest']
  · simp [h.tag_ne_nil]

/-- The parts that a reference is read from. -/
theorem parts_of_read? (h : read? text = some r) : ∃ nameAndTag digest name tag host path,
    trim text.toList = nameAndTag ++ digestPart digest ∧ '@' ∉ nameAndTag ∧
      splitTag nameAndTag = (name, tag) ∧ tag ≠ [] ∧ splitHost name = (host, path) ∧
      r = ⟨String.ofList host, String.ofList (repository (String.ofList host) path),
        String.ofList tag, digest.map String.ofList⟩ := by
  rw [read?] at h
  dsimp only at h
  split at h
  · cases h
  · next hne =>
    rw [Bool.or_eq_true, not_or, List.isEmpty_iff, List.isEmpty_iff] at hne
    obtain ⟨htext, hat⟩ := splitDigest_eq_iff.mp (Prod.eta (splitDigest (trim text.toList))).symm
    exact ⟨_, _, _, _, _, _, htext, hat, (Prod.eta _).symm, hne.2, (Prod.eta _).symm,
      (Option.some.inj h).symm⟩

/-- On Docker Hub a repository has a namespace. -/
theorem slash_mem_repository {registry : String} {path : List Char}
    (h : Registry.canonical registry = Registry.hub) : '/' ∈ repository registry path := by
  rw [repository]
  split
  · exact List.mem_append_left _ (by decide)
  · next hslash => simpa [h] using hslash

theorem at_not_mem_repository {registry : String} {path : List Char} (h : '@' ∉ path) :
    '@' ∉ repository registry path := by
  rw [repository]
  split
  · rw [List.mem_append, not_or]
    exact ⟨by decide, h⟩
  · exact h

section Read

variable {nameAndTag name tag host path : List Char} {digest : Option (List Char)} {c : Char}

/-- The parts of a name and a tag have no character that the two do not have together. -/
theorem not_mem_of_splitTag (h : splitTag nameAndTag = (name, tag)) (hc : c ∉ nameAndTag)
    (hlatest : c ∉ "latest".toList) : c ∉ name ∧ c ∉ tag := by
  obtain ⟨-, -, rfl | ⟨rfl, rfl⟩⟩ := splitTag_spec h
  · rw [List.mem_append, List.mem_cons, not_or, not_or] at hc
    exact ⟨hc.1, hc.2.2⟩
  · exact ⟨hc, hlatest⟩

/-- The parts of a name have no character that the name does not have. -/
theorem not_mem_of_splitHost (h : splitHost name = (host, path)) (hc : c ∉ name)
    (hdefault : c ∉ "docker.io".toList) : c ∉ host ∧ c ∉ path := by
  obtain ⟨-, -, rfl | ⟨rfl, rfl⟩⟩ := splitHost_spec h
  · rw [List.mem_append, List.mem_cons, not_or, not_or] at hc
    exact ⟨hc.1, hc.2.2⟩
  · exact ⟨hdefault, hc⟩

/-- A host that is not left out stands in front. -/
theorem head?_of_splitHost (h : splitHost name = (host, path))
    (hsplit : splitTag nameAndTag = (name, tag)) (hc : host.head? = some c) :
    nameAndTag.head? = some c ∨ isBlank c = false := by
  have hfront : ∃ rest, nameAndTag = name ++ rest := by
    obtain ⟨-, -, rfl | ⟨rfl, rfl⟩⟩ := splitTag_spec hsplit
    · exact ⟨_, rfl⟩
    · exact ⟨[], (List.append_nil _).symm⟩
  obtain ⟨rest, rfl⟩ := hfront
  obtain ⟨-, -, rfl | ⟨rfl, rfl⟩⟩ := splitHost_spec h
  · left
    rw [List.append_assoc, List.head?_append, hc, Option.some_or]
  · right
    obtain rfl := Option.some.inj hc
    rfl

/-- A tag that is not left out stands at the end. -/
theorem getLast?_of_splitTag (h : splitTag nameAndTag = (name, tag)) (htag : tag ≠ [])
    (hc : tag.getLast? = some c) : nameAndTag.getLast? = some c ∨ isBlank c = false := by
  obtain ⟨-, -, rfl | ⟨rfl, rfl⟩⟩ := splitTag_spec h
  · left
    rwa [List.getLast?_append_of_ne_nil _ (List.cons_ne_nil _ _),
      List.getLast?_cons_of_ne_nil htag]
  · right
    obtain rfl := Option.some.inj hc
    rfl

end Read

/-- **What was read is legible.** -/
theorem legible_of_read? (h : read? text = some r) : r.Legible := by
  obtain ⟨nameAndTag, digest, name, tag, host, path, htext, hat, hsplit, htag, hhost, rfl⟩ :=
    parts_of_read? h
  obtain ⟨htagSlash, htagColon, -⟩ := splitTag_spec hsplit
  obtain ⟨hisHost, hhostSlash, -⟩ := splitHost_spec hhost
  obtain ⟨hnameAt, htagAt⟩ := not_mem_of_splitTag hsplit hat (by decide)
  obtain ⟨hhostAt, hpathAt⟩ := not_mem_of_splitHost hhost hnameAt (by decide)
  have htrim : trim (nameAndTag ++ digestPart digest) = nameAndTag ++ digestPart digest := by
    rw [← htext, trim_trim]
  obtain ⟨hfirst, hlast⟩ := trim_eq_self_iff.mp htrim
  have hofList (s : List Char) : (String.ofList s).toList = s := String.toList_ofList
  constructor
  case host => rwa [hofList]
  case host_slash => rwa [hofList]
  case host_at => rwa [hofList]
  case image_at =>
    rw [hofList]
    exact at_not_mem_repository hpathAt
  case namespaced =>
    rw [hofList]
    exact slash_mem_repository
  case tag_ne_nil => rwa [hofList]
  case tag_slash => rwa [hofList]
  case tag_colon => rwa [hofList]
  case tag_at => rwa [hofList]
  case first =>
    intro c hc
    rw [hofList] at hc
    rcases head?_of_splitHost hhost hsplit hc with hhead | hblank
    · exact hfirst c (by rw [List.head?_append, hhead, Option.some_or])
    · exact hblank
  case last =>
    intro c hc
    cases digest with
    | none =>
      rw [Option.map_none, Option.getD_none, hofList] at hc
      rcases getLast?_of_splitTag hsplit htag hc with hend | hblank
      · exact hlast c (by rwa [digestPart, List.append_nil])
      · exact hblank
    | some d =>
      rw [Option.map_some, Option.getD_some, hofList] at hc
      apply hlast c
      rw [digestPart, List.getLast?_append_of_ne_nil _ (List.cons_ne_nil _ _), List.getLast?_cons,
        hc]
      rfl

/-! ## The round trip -/

/-- The parts of a reference could have been written by hand: a host, a path, a tag and possibly a
digest, none of which runs into its neighbours. -/
structure WellFormed (r : Reference) : Prop where
  host : '.' ∈ r.registry.toList ∨ ':' ∈ r.registry.toList ∨ r.registry = "localhost"
  host_plain : '/' ∉ r.registry.toList ∧ '@' ∉ r.registry.toList
  host_trimmed : trim r.registry.toList = r.registry.toList
  image_ne_nil : r.image ≠ ""
  image_at : '@' ∉ r.image.toList
  namespaced : Registry.canonical r.registry = Registry.hub → '/' ∈ r.image.toList
  tag_ne_nil : r.tag ≠ ""
  tag_plain : '/' ∉ r.tag.toList ∧ ':' ∉ r.tag.toList ∧ '@' ∉ r.tag.toList
  tag_trimmed : trim r.tag.toList = r.tag.toList
  digest_trimmed : ∀ d, r.digest = some d → trim d.toList = d.toList

theorem isHost_iff {host : List Char} :
    isHost host = true ↔ '.' ∈ host ∨ ':' ∈ host ∨ host = "localhost".toList := by
  rw [isHost, Bool.or_eq_true, Bool.or_eq_true, List.contains_iff_mem, List.contains_iff_mem,
    beq_iff_eq, or_assoc]

theorem WellFormed.legible (h : r.WellFormed) : r.Legible where
  host := isHost_iff.mpr (h.host.imp_right (Or.imp_right (congrArg String.toList)))
  host_slash := h.host_plain.1
  host_at := h.host_plain.2
  image_at := h.image_at
  namespaced := h.namespaced
  tag_ne_nil := mt String.toList_eq_nil_iff.mp h.tag_ne_nil
  tag_slash := h.tag_plain.1
  tag_colon := h.tag_plain.2.1
  tag_at := h.tag_plain.2.2
  first := (trim_eq_self_iff.mp h.host_trimmed).1
  last := by
    cases hd : r.digest with
    | none => exact (trim_eq_self_iff.mp h.tag_trimmed).2
    | some d => exact (trim_eq_self_iff.mp (h.digest_trimmed d hd)).2

/-- **References are read back.** Whatever was read from a text is read again, exactly, from its
rendering `registry/image:tag[@digest]`, and so is every well-formed reference. -/
theorem read?_rendered (r : Reference) :
    (∀ text, read? text = some r → read? r.render = some r) ∧
      (r.WellFormed → read? r.render = some r) :=
  ⟨fun _ h => (legible_of_read? h).read?_render, fun h => h.legible.read?_render⟩

/-- Blanks around the tag, a colon in the path and an `@` in the digest are kept when a reference is
read again; on Docker Hub a namespace is kept as well. -/
theorem read?_rendered_marks :
    let r : Reference := ⟨"host:5000", "a:b/c", " x ", some "y:z@/w"⟩
    let r' : Reference := ⟨"Index.Docker.io", "library/a:b", "1.0", none⟩
    (read? " host:5000/a:b/c: x @y:z@/w " = some r ∧ read? r.render = some r) ∧
      r'.WellFormed ∧ read? r'.render = some r' := by
  intro r r'
  have hread : read? " host:5000/a:b/c: x @y:z@/w " = some r := by decide +kernel
  have hformed : r'.WellFormed := by
    constructor
    case digest_trimmed => exact nofun
    all_goals decide +kernel
  exact ⟨⟨hread, (read?_rendered r).1 _ hread⟩, hformed, (read?_rendered r').2 hformed⟩

end Reference

end TagWatch
