import TagWatch.Proofs.Version.Grammar
import TagWatch.Proofs.Version.Selection

/-!
# The chosen tag keeps the variant

An image is built in variants, such as one on top of Alpine Linux, and a tag names its variant in its
ending. A prerelease has no room for one: whatever follows the first hyphen belongs to its identifiers
(`Version.render_prerelease`), so that in `1.1.0-rc2-alpine` the word `alpine` is read as a part of the
prerelease.

**Theorem (`latestInScope_variant`).** The chosen tag names the same variant as the current one, and a
tag that names a variant is never replaced by a prerelease. The image stays in its variant exactly if
both tags have the same word behind a prerelease, so always if neither is a prerelease.

The words behind a prerelease do not count in the choice (`latestInScope_crosses_variant`): the
prereleases of all variants of an image replace each other.
-/

namespace TagWatch

open Text

namespace Version

variable {v w : Version} {tag s : String}

/-! ## The image that a version stands for -/

/-- The word behind a prerelease: what its text says after the first hyphen, unless that is empty or
of digits alone. -/
def trailing (v : Version) : Option String := tagSuffix v.prerelease.render

/-- The variant that the image of a version comes in: the one it names, or else the word behind its
prerelease. -/
def imageVariant (v : Version) : Option String := v.variant.or v.trailing

theorem isPrerelease_of_variant (h : v.variant = some s) : v.isPrerelease = false := by
  unfold variant at h
  unfold isPrerelease prerelease
  split at h
  · next hending => simp [hending]
  · cases h

/-- Only prereleases have a word behind them. -/
theorem trailing_of_release (h : v.isPrerelease = false) : v.trailing = none := by
  have hnil : v.prerelease = [] := by simpa [isPrerelease] using h
  rw [trailing, hnil]
  rfl

/-- The text of a prerelease is all that follows the first hyphen of the tag. -/
theorem render_prerelease (h : ofTag? tag = some v) (hpre : v.isPrerelease = true) :
    ∃ head rest, cut '-' tag.toList = some (head, rest) ∧
      v.prerelease.render = String.ofList rest := by
  obtain ⟨mark, numerals, ending, hwritten⟩ := exists_written h
  have hclass := (hwritten.ofTag?_eq_some_iff.mp h).classifies
  cases ending with
  | none => simp [hclass.2.1] at hpre
  | some rest =>
    refine ⟨mark ++ joinWith '.' numerals, rest, hwritten.cut_eq, ?_⟩
    rcases hclass with ⟨n, -, -, hrelease, -⟩ | ⟨-, ⟨-, -, hrender, -⟩ | ⟨-, -, hrelease, -⟩⟩
    · simp [hrelease] at hpre
    · exact hrender
    · simp [hrelease] at hpre

/-- Versions that name the same variant stand for the same image exactly if they have the same word
behind a prerelease. -/
theorem imageVariant_eq_iff (h : v.variant = w.variant) :
    v.imageVariant = w.imageVariant ↔ v.trailing = w.trailing := by
  unfold imageVariant
  rw [h]
  cases hw : w.variant with
  | none => rw [Option.none_or, Option.none_or]
  | some s =>
    have hv : v.trailing = none :=
      trailing_of_release (isPrerelease_of_variant (h.trans hw))
    have hw' : w.trailing = none := trailing_of_release (isPrerelease_of_variant hw)
    simp [hv, hw']

end Version

/-! ## The choice -/

/-- **The chosen tag keeps the variant.** A tag that is chosen names the variant that the current tag
names, and if it names one it is no prerelease. The image variant is kept exactly if the two tags have
the same word behind a prerelease; so it is kept whenever the current tag is a release and prereleases
are not asked for. -/
theorem latestInScope_variant {currentTag tag : String} {tags : List String} {scope : Level}
    {prereleases : Bool} (h : latestInScope currentTag tags scope prereleases = some tag) :
    ∃ current v, Version.ofTag? currentTag = some current ∧ Version.ofTag? tag = some v ∧
      v.variant = current.variant ∧
      (∀ s, current.variant = some s → v.imageVariant = some s ∧ v.isPrerelease = false) ∧
      (v.imageVariant = current.imageVariant ↔ v.trailing = current.trailing) ∧
      (prereleases = false → current.isPrerelease = false →
        v.imageVariant = current.imageVariant) := by
  obtain ⟨current, hc, -⟩ := Option.bind_eq_some_iff.mp h
  obtain ⟨-, v, hv, helig, -⟩ := latestInScope_spec hc h
  have hvariant := helig.variant
  refine ⟨current, v, hc, hv, hvariant, ?_, Version.imageVariant_eq_iff hvariant, ?_⟩
  · intro s hs
    rw [hs] at hvariant
    refine ⟨?_, Version.isPrerelease_of_variant hvariant⟩
    rw [Version.imageVariant, hvariant, Option.some_or]
  · intro hasked hrelease
    have hv' : v.isPrerelease = false := by
      by_contra hpre
      have := helig.allowed (by simpa using hpre)
      simp [hasked, hrelease] at this
    rw [Version.imageVariant_eq_iff hvariant, Version.trailing_of_release hv',
      Version.trailing_of_release hrelease]

/-- An Alpine tag stays an Alpine tag, past later tags of other images and a prerelease. -/
theorem latestInScope_variant_alpine :
    latestInScope "1.25.3-alpine" ["2.0.0", "1.26.1-alpine", "2.0.0-rc.1", "2.0.0-slim"] .major
        true = some "1.26.1-alpine" ∧
      (Version.ofTag? "1.26.1-alpine").bind Version.variant = some "alpine" := by
  have hchosen : latestInScope "1.25.3-alpine"
      ["2.0.0", "1.26.1-alpine", "2.0.0-rc.1", "2.0.0-slim"] .major true =
        some "1.26.1-alpine" := by decide +kernel
  have halpine : (Version.ofTag? "1.25.3-alpine").bind Version.variant = some "alpine" := by
    decide +kernel
  obtain ⟨current, v, hc, hv, hvariant, -⟩ := latestInScope_variant hchosen
  rw [hc] at halpine
  refine ⟨hchosen, ?_⟩
  rw [hv, Option.bind_some, hvariant]
  exact halpine

/-- A plain release candidate is replaced by the release candidate of an Alpine image. -/
theorem latestInScope_crosses_variant :
    latestInScope "1.0.0-rc1" ["1.1.0-rc2-alpine"] .major false = some "1.1.0-rc2-alpine" ∧
      (Version.ofTag? "1.0.0-rc1").map Version.imageVariant = some none ∧
      (Version.ofTag? "1.1.0-rc2-alpine").map Version.imageVariant = some (some "alpine") := by
  refine ⟨?_, ?_, ?_⟩ <;> decide +kernel

end TagWatch
