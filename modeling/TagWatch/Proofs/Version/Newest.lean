import Mathlib.Data.List.Forall2
import Mathlib.Data.Option.Defs
import TagWatch.Proofs.Version.Spelling
import TagWatch.Proofs.Version.Sublist

/-!
# The chosen tag is the newest one

**Theorem (`latestInScope_exact`).** The choice of a tag is pinned down by three sentences. Nothing
is chosen exactly if the current tag holds no version or no tag of the list is a candidate. A tag is
chosen exactly if it is the last of the best ones: a candidate that no candidate exceeds, and whose
mark in front is there or not as in the current tag if that can be had. In another order the same
list leads to a tag that holds the same version.

The best tags are the largest ones by the order of preference (`best_iff`), so they are told apart
neither by their version nor by their mark; only the last place in the list makes one of them the
chosen one.
-/

namespace TagWatch

open Std Text

/-! ## Versions that compare as equal -/

instance : LawfulEqCmp Identifier.cmp where
  eq_of_compare {a b} h := by
    cases a with
    | number m =>
      cases b with
      | number n =>
        have h : compare m n = .eq := h
        exact congrArg Identifier.number (LawfulEqCmp.eq_of_compare h)
      | word t => cases h
    | word s =>
      cases b with
      | number n => cases h
      | word t =>
        have h : compare s t = .eq := h
        exact congrArg Identifier.word (LawfulEqCmp.eq_of_compare h)

instance : LawfulEqCmp Prerelease.cmp where
  eq_of_compare {a b} h := by
    cases a with
    | nil =>
      cases b with
      | nil => rfl
      | cons j q => cases h
    | cons i p =>
      cases b with
      | nil => cases h
      | cons j q =>
        rw [Prerelease.cmp_cons] at h
        exact LawfulEqCmp.eq_of_compare h

instance : LawfulEqCmp cmpRevision where
  eq_of_compare {a b} h := by
    cases a with
    | none =>
      cases b with
      | none => rfl
      | some n => cases h
    | some m =>
      cases b with
      | none => cases h
      | some n =>
        have h : compare m n = .eq := h
        exact congrArg some (LawfulEqCmp.eq_of_compare h)

/-- A prerelease that can be read has an identifier. -/
theorem Prerelease.ne_nil_of_read? {s : List Char} {p : Prerelease} (h : read? s = some p) :
    p ≠ [] := by
  rintro rfl
  have hall := forall₂_of_mapM h
  exact fields_ne_nil '.' s (List.forall₂_nil_right_iff.mp hall)

/-- An ending is no prerelease without identifiers, which would say as little as no ending. -/
def Ending.Proper (e : Ending) : Prop := e ≠ .prerelease []

theorem Ending.proper_ofText (s : List Char) : (Ending.ofText s).Proper := by
  rw [Ending.ofText]
  split
  · exact Ending.noConfusion
  · split
    · split
      · next p hp =>
        intro hnil
        exact Prerelease.ne_nil_of_read? hp (Ending.prerelease.inj hnil)
      · exact Ending.noConfusion
    · exact Ending.noConfusion

namespace Version

variable {v w : Version} {tag : String}

theorem ending_of_ofHead {head : List Char} {ending : Ending} (h : ofHead head ending = some v) :
    v.ending = ending := by
  obtain ⟨ns, -, hv⟩ := Option.bind_eq_some_iff.mp h
  unfold ofNumbers at hv
  split at hv
  · obtain rfl := Option.some.inj hv
    rfl
  · obtain rfl := Option.some.inj hv
    rfl
  · obtain rfl := Option.some.inj hv
    rfl
  · cases hv

theorem proper_of_ofTag? (h : ofTag? tag = some v) : v.ending.Proper := by
  rw [ofTag?, ofChars?] at h
  split at h
  · rw [ending_of_ofHead h]
    exact Ending.noConfusion
  · split at h
    · cases h
    · rw [ending_of_ofHead h]
      exact Ending.proper_ofText _

theorem ending_eq (hv : v.ending.Proper) (hw : w.ending.Proper)
    (hprerelease : v.prerelease = w.prerelease) (hvariant : v.variant = w.variant)
    (hrevision : v.revision = w.revision) : v.ending = w.ending := by
  unfold prerelease at hprerelease
  unfold variant at hvariant
  unfold revision at hrevision
  unfold Ending.Proper at hv hw
  cases hve : v.ending <;> cases hwe : w.ending <;> simp_all

/-- Versions of one shape and with one mark are the same if they compare as equal. -/
theorem eq_of_cmp_eq (hv : v.ending.Proper) (hw : w.ending.Proper) (h : v.cmp w = .eq)
    (hprefixed : v.prefixed = w.prefixed) (hcomponents : v.components = w.components)
    (hvariant : v.variant = w.variant) : v = w := by
  simp only [cmp, Ordering.then_eq_eq, LawfulEqCmp.compare_eq_iff_eq] at h
  obtain ⟨hmajor, hminor, hpatch, hprerelease, hrevision⟩ := h
  have hending := ending_eq hv hw hprerelease hvariant hrevision
  obtain ⟨prefixed, components, major, minor, patch, ending⟩ := v
  obtain ⟨prefixed', components', major', minor', patch', ending'⟩ := w
  simp only at *
  simp only [hprefixed, hcomponents, hmajor, hminor, hpatch, hending]

end Version

/-! ## Candidates and the best of them -/

/-- A tag holds a version that may replace the current one and lies inside the scope. -/
structure Candidate (current : Version) (scope : Level) (prereleases : Bool) (tag : String)
    (v : Version) : Prop where
  holds : Version.ofTag? tag = some v
  eligible : current.Eligible prereleases v
  inside : Version.Inside scope current v

/-- A candidate of a list that no candidate of the list exceeds. -/
structure Newest (current : Version) (scope : Level) (prereleases : Bool) (tags : List String)
    (tag : String) (v : Version) : Prop where
  mem : tag ∈ tags
  candidate : Candidate current scope prereleases tag v
  unexceeded : ∀ t ∈ tags, ∀ w, Candidate current scope prereleases t w → w.cmp v ≠ .gt

/-- A newest tag whose mark in front is there or not as in the current tag, if any newest tag has
such a mark. -/
structure Best (current : Version) (scope : Level) (prereleases : Bool) (tags : List String)
    (tag : String) (v : Version) : Prop where
  newest : Newest current scope prereleases tags tag v
  marked : (∃ t w, Newest current scope prereleases tags t w ∧ w.prefixed = current.prefixed) →
    v.prefixed = current.prefixed

variable {current v w : Version} {scope : Level} {prereleases : Bool} {tags : List String}
  {tag : String}

theorem mem_candidates_iff {t : VersionedTag} :
    t ∈ candidates current scope prereleases tags ↔
      t.tag ∈ tags ∧ Candidate current scope prereleases t.tag t.version := by
  rw [mem_candidates]
  constructor
  · rintro ⟨hmem, hholds, helig, hin⟩
    exact ⟨hmem, hholds, helig, hin⟩
  · rintro ⟨hmem, hholds, helig, hin⟩
    exact ⟨hmem, hholds, helig, hin⟩

theorem isLE_compare_bool (a b : Bool) : (compare a b).isLE ↔ (a = true → b = true) := by
  cases a <;> cases b <;> decide

/-- The version counts before the mark in front. -/
theorem Version.prefer_isLE_iff : (current.prefer v w).isLE ↔ v.cmp w = .lt ∨
    v.cmp w = .eq ∧ (v.prefixed = current.prefixed → w.prefixed = current.prefixed) := by
  rw [prefer, Ordering.isLE_then_iff_or, isLE_compare_bool, beq_iff_eq, beq_iff_eq]

/-- The best tags are the candidates that are preferred to all others. -/
theorem best_iff : Best current scope prereleases tags tag v ↔
    (⟨tag, v⟩ : VersionedTag) ∈ candidates current scope prereleases tags ∧
      ∀ t ∈ candidates current scope prereleases tags, (current.prefer t.version v).isLE := by
  constructor
  · intro h
    refine ⟨mem_candidates_iff.mpr ⟨h.newest.mem, h.newest.candidate⟩, fun t ht => ?_⟩
    obtain ⟨hmem, hcand⟩ := mem_candidates_iff.mp ht
    rw [Version.prefer_isLE_iff]
    cases hcmp : t.version.cmp v with
    | lt => exact .inl rfl
    | gt => exact absurd hcmp (h.newest.unexceeded t.tag hmem t.version hcand)
    | eq =>
      -- a candidate of the same version is as new
      have hnewest : Newest current scope prereleases tags t.tag t.version := by
        refine ⟨hmem, hcand, fun u hu w hw => ?_⟩
        rw [TransCmp.congr_right hcmp]
        exact h.newest.unexceeded u hu w hw
      exact .inr ⟨rfl, fun hmark => h.marked ⟨t.tag, t.version, hnewest, hmark⟩⟩
  · rintro ⟨hmem, hpreferred⟩
    obtain ⟨hmem, hcand⟩ := mem_candidates_iff.mp hmem
    have hle (t : String) (ht : t ∈ tags) (w : Version)
        (hw : Candidate current scope prereleases t w) := Version.prefer_isLE_iff.mp
      (hpreferred ⟨t, w⟩ (mem_candidates_iff.mpr ⟨ht, hw⟩))
    refine ⟨⟨hmem, hcand, fun t ht w hw hgt => ?_⟩, ?_⟩
    · rcases hle t ht w hw with hlt | ⟨heq, -⟩
      · rw [hgt] at hlt
        cases hlt
      · rw [hgt] at heq
        cases heq
    · rintro ⟨t, w, hnewest, hmark⟩
      rcases hle t hnewest.mem w hnewest.candidate with hlt | ⟨-, himp⟩
      · exact absurd (OrientedCmp.gt_of_lt hlt) (hnewest.unexceeded tag hmem v hcand)
      · exact himp hmark

/-- The last largest element of a list is the last one that is not exceeded. -/
theorem isLastMax_iff {α : Type} {cmp : α → α → Ordering} [TransCmp cmp] {l : List α} {m : α} :
    IsLastMax cmp l m ↔ ∃ before after, l = before ++ m :: after ∧ (∀ x ∈ l, (cmp x m).isLE) ∧
      ∀ x ∈ after, ¬ ∀ y ∈ l, (cmp y x).isLE := by
  constructor
  · rintro ⟨before, after, rfl, hbefore, hafter⟩
    refine ⟨before, after, rfl, fun x hx => ?_, fun x hx hall => ?_⟩
    · rcases List.mem_append.mp hx with hx | hx
      · exact hbefore x hx
      · rcases List.mem_cons.mp hx with rfl | hx
        · exact ReflCmp.isLE_rfl
        · exact Ordering.isLE_of_eq_lt (OrientedCmp.lt_of_gt (hafter x hx))
    · have hle := hall m (List.mem_append_right _ List.mem_cons_self)
      rw [hafter x hx] at hle
      cases hle
  · rintro ⟨before, after, rfl, hall, hafter⟩
    refine ⟨before, after, rfl, fun x hx => hall x (List.mem_append_left _ hx), fun x hx => ?_⟩
    by_contra hne
    apply hafter x hx
    intro y hy
    exact TransCmp.isLE_trans (hall y hy) (Ordering.isLE_iff_ne_gt.mpr hne)

/-! ## Places in the list -/

theorem candidates_append (tags tags' : List String) :
    candidates current scope prereleases (tags ++ tags') =
      candidates current scope prereleases tags ++ candidates current scope prereleases tags' := by
  rw [candidates, List.filterMap_append, List.filter_append, ← candidates, ← candidates]

theorem candidates_cons (h : Candidate current scope prereleases tag v) (tags : List String) :
    candidates current scope prereleases (tag :: tags) =
      ⟨tag, v⟩ :: candidates current scope prereleases tags := by
  have htag : VersionedTag.ofTag? tag = some ⟨tag, v⟩ := by
    rw [VersionedTag.ofTag?, h.holds]
    rfl
  rw [candidates, List.filterMap_cons_some htag, List.filter_cons_of_pos, ← candidates]
  exact Version.candidate_iff.mpr ⟨h.eligible, h.inside⟩

/-- A candidate stands in the list where it stands among the candidates. -/
theorem candidates_split {t : VersionedTag} {before after : List VersionedTag}
    (h : candidates current scope prereleases tags = before ++ t :: after) :
    ∃ tags₁ tags₂, tags = tags₁ ++ t.tag :: tags₂ ∧
      candidates current scope prereleases tags₁ = before ∧
      candidates current scope prereleases tags₂ = after := by
  have hmap (tags : List String) : candidates current scope prereleases tags =
      tags.filterMap fun tag => (VersionedTag.ofTag? tag).filter
        fun t => current.candidate scope prereleases t.version :=
    List.filter_filterMap
  rw [hmap, List.filterMap_eq_append_iff] at h
  obtain ⟨tags₁, rest, rfl, hbefore, hrest⟩ := h
  obtain ⟨skipped, tag, tags₂, rfl, hskipped, htag, hafter⟩ := List.filterMap_eq_cons_iff.mp hrest
  obtain rfl : t.tag = tag := by
    obtain ⟨hholds, -⟩ := Option.filter_eq_some_iff.mp htag
    obtain ⟨w, -, rfl⟩ := Option.map_eq_some_iff.mp hholds
    rfl
  refine ⟨tags₁ ++ skipped, tags₂, (List.append_assoc _ _ _).symm, ?_, ?_⟩
  · rw [hmap, List.filterMap_append, hbefore, List.filterMap_eq_nil_iff.mpr hskipped,
      List.append_nil]
  · rw [hmap]
    exact hafter

/-! ## The choice -/

theorem Best.congr {tags' : List String} (hmem : ∀ t, t ∈ tags ↔ t ∈ tags')
    (h : Best current scope prereleases tags tag v) :
    Best current scope prereleases tags' tag v := by
  have hnewest {l l' : List String} (hmem : ∀ t, t ∈ l ↔ t ∈ l') {t : String} {w : Version}
      (h : Newest current scope prereleases l t w) : Newest current scope prereleases l' t w :=
    ⟨(hmem t).mp h.mem, h.candidate, fun u hu => h.unexceeded u ((hmem u).mpr hu)⟩
  refine ⟨hnewest hmem h.newest, ?_⟩
  rintro ⟨t, w, hw, hmark⟩
  exact h.marked ⟨t, w, hnewest (fun t => (hmem t).symm) hw, hmark⟩

/-- All best tags hold the same version. -/
theorem Best.version_eq {tag' : String} (h : Best current scope prereleases tags tag v)
    (h' : Best current scope prereleases tags tag' w) : v = w := by
  obtain ⟨hmem, hall⟩ := best_iff.mp h
  obtain ⟨hmem', hall'⟩ := best_iff.mp h'
  have heq : current.prefer v w = .eq := OrientedCmp.isLE_antisymm (hall' _ hmem) (hall _ hmem')
  rw [Version.prefer, Ordering.then_eq_eq] at heq
  obtain ⟨hcmp, hmark⟩ := heq
  have hprefixed : v.prefixed = w.prefixed := by
    revert hmark
    cases v.prefixed <;> cases w.prefixed <;> cases current.prefixed <;> decide
  have hv := h.newest.candidate
  have hw := h'.newest.candidate
  exact Version.eq_of_cmp_eq (Version.proper_of_ofTag? hv.holds) (Version.proper_of_ofTag? hw.holds)
    hcmp hprefixed (hv.eligible.components.trans hw.eligible.components.symm)
    (hv.eligible.variant.trans hw.eligible.variant.symm)

variable {currentTag : String}

theorem latestInScope_eq_none_iff : latestInScope currentTag tags scope prereleases = none ↔
    ∀ current, Version.ofTag? currentTag = some current →
      ∀ t ∈ tags, ∀ v, ¬ Candidate current scope prereleases t v := by
  constructor
  · intro hnone current hc t ht v hcand
    have hsome : (latestInScope currentTag tags scope prereleases).isSome = true :=
      (latestInScope_isSome_iff hc).mpr ⟨t, ht, v, hcand.holds, hcand.eligible, hcand.inside⟩
    rw [hnone] at hsome
    cases hsome
  · intro h
    cases hc : Version.ofTag? currentTag with
    | none => rw [latestInScope, hc, Option.bind_none]
    | some current =>
      rw [← Option.not_isSome_iff_eq_none, latestInScope_isSome_iff hc]
      rintro ⟨t, ht, v, hholds, helig, hin⟩
      exact h current hc t ht v ⟨hholds, helig, hin⟩

/-- The chosen tag is the last of the best ones. -/
theorem latestInScope_eq_some_iff (hc : Version.ofTag? currentTag = some current) :
    latestInScope currentTag tags scope prereleases = some tag ↔
      ∃ before after, tags = before ++ tag :: after ∧
        (∃ v, Best current scope prereleases tags tag v) ∧
        ∀ t ∈ after, ∀ w, ¬ Best current scope prereleases tags t w := by
  have : TransCmp fun a b : VersionedTag => current.prefer a.version b.version :=
    transCmp_comap current.prefer VersionedTag.version
  rw [latestInScope, hc, Option.bind_some, Option.map_eq_some_iff]
  simp only [lastMax_eq_some_iff, isLastMax_iff]
  constructor
  · rintro ⟨m, ⟨before, after, hsplit, hall, hafter⟩, rfl⟩
    have hm : m ∈ candidates current scope prereleases tags :=
      hsplit ▸ List.mem_append_right _ List.mem_cons_self
    obtain ⟨tags₁, tags₂, htags, -, rfl⟩ := candidates_split hsplit
    refine ⟨tags₁, tags₂, htags, ⟨m.version, best_iff.mpr ⟨hm, hall⟩⟩, fun t ht w hbest => ?_⟩
    exact hafter ⟨t, w⟩ (mem_candidates_iff.mpr ⟨ht, hbest.newest.candidate⟩) (best_iff.mp hbest).2
  · rintro ⟨before, after, htags, ⟨v, hbest⟩, hafter⟩
    have hsplit : candidates current scope prereleases tags =
        candidates current scope prereleases before ++
          ⟨tag, v⟩ :: candidates current scope prereleases after := by
      rw [htags, candidates_append, candidates_cons hbest.newest.candidate]
    refine ⟨⟨tag, v⟩, ⟨_, _, hsplit, (best_iff.mp hbest).2, fun t ht hall => ?_⟩, rfl⟩
    apply hafter t.tag (mem_candidates_iff.mp ht).1 t.version
    rw [best_iff, hsplit]
    refine ⟨List.mem_append_right _ (List.mem_cons_of_mem _ ht), ?_⟩
    rw [← hsplit]
    exact hall

/-- In another order a list leads to a tag that holds the same version, if to any. -/
theorem latestInScope_perm {tags' : List String} (h : tags.Perm tags') :
    Option.Rel (fun t t' => ∃ v, Version.ofTag? t = some v ∧ Version.ofTag? t' = some v)
      (latestInScope currentTag tags scope prereleases)
      (latestInScope currentTag tags' scope prereleases) := by
  have hnone : latestInScope currentTag tags scope prereleases = none ↔
      latestInScope currentTag tags' scope prereleases = none := by
    simp only [latestInScope_eq_none_iff, h.mem_iff]
  cases hfirst : latestInScope currentTag tags scope prereleases with
  | none =>
    rw [hnone.mp hfirst]
    exact .none
  | some t =>
    cases hsecond : latestInScope currentTag tags' scope prereleases with
    | none =>
      rw [hnone.mpr hsecond] at hfirst
      cases hfirst
    | some t' =>
      obtain ⟨current, hc, -⟩ := Option.bind_eq_some_iff.mp hfirst
      obtain ⟨-, -, -, ⟨v, hbest⟩, -⟩ := (latestInScope_eq_some_iff hc).mp hfirst
      obtain ⟨-, -, -, ⟨v', hbest'⟩, -⟩ := (latestInScope_eq_some_iff hc).mp hsecond
      obtain rfl := (hbest.congr fun _ => h.mem_iff).version_eq hbest'
      exact .some ⟨v, hbest.newest.candidate.holds, hbest'.newest.candidate.holds⟩

/-- **The chosen tag is the newest one.** Nothing is chosen if and only if the current tag holds no
version or no tag of the list is a candidate. A tag is chosen if and only if it is the last best tag
of the list. The order of the list only decides between tags that hold the same version. -/
theorem latestInScope_exact (currentTag : String) (tags : List String) (scope : Level)
    (prereleases : Bool) :
    (latestInScope currentTag tags scope prereleases = none ↔
      Version.ofTag? currentTag = none ∨ ∃ current, Version.ofTag? currentTag = some current ∧
        ∀ t ∈ tags, ∀ v, ¬ Candidate current scope prereleases t v) ∧
    (∀ tag, latestInScope currentTag tags scope prereleases = some tag ↔
      ∃ current, Version.ofTag? currentTag = some current ∧
        ∃ before after, tags = before ++ tag :: after ∧
          (∃ v, Best current scope prereleases tags tag v) ∧
          ∀ t ∈ after, ∀ w, ¬ Best current scope prereleases tags t w) ∧
    ∀ tags', tags.Perm tags' →
      Option.Rel (fun t t' => ∃ v, Version.ofTag? t = some v ∧ Version.ofTag? t' = some v)
        (latestInScope currentTag tags scope prereleases)
        (latestInScope currentTag tags' scope prereleases) := by
  refine ⟨?_, fun tag => ?_, fun tags' => latestInScope_perm⟩
  · rw [latestInScope_eq_none_iff]
    cases hc : Version.ofTag? currentTag with
    | none => simp
    | some current => simp
  · constructor
    · intro h
      obtain ⟨current, hc, -⟩ := Option.bind_eq_some_iff.mp h
      exact ⟨current, hc, (latestInScope_eq_some_iff hc).mp h⟩
    · rintro ⟨current, hc, h⟩
      exact (latestInScope_eq_some_iff hc).mpr h

/-- Of three spellings of the newest version the last one with the mark of the current tag is
chosen, and in another order one that holds the same version. -/
theorem latestInScope_exact_spellings :
    let tags := ["1.3.0", "v1.03.0", "V1.3.0", "1.3.00", "1.3.0-rc.1", "2.0.0"]
    let tags' := ["V1.3.0", "2.0.0", "1.3.00", "1.3.0-rc.1", "v1.03.0", "1.3.0"]
    latestInScope "v1.2.0" tags .minor false = some "V1.3.0" ∧
      ∃ t v, latestInScope "v1.2.0" tags' .minor false = some t ∧ Version.ofTag? t = some v ∧
        Version.ofTag? "V1.3.0" = some v := by
  intro tags tags'
  have hchosen : latestInScope "v1.2.0" tags .minor false = some "V1.3.0" := by decide +kernel
  obtain ⟨-, -, hperm⟩ := latestInScope_exact "v1.2.0" tags .minor false
  have hrel := hperm tags' (by decide)
  rw [hchosen] at hrel
  generalize latestInScope "v1.2.0" tags' .minor false = chosen at hrel
  obtain ⟨v, hv, hv'⟩ | _ := hrel
  exact ⟨hchosen, _, v, rfl, hv', hv⟩

end TagWatch
