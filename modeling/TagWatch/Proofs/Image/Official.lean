import TagWatch.Image.Container
import TagWatch.Proofs.Image.Spelling

/-!
# The spellings of an image on Docker Hub

An image without a namespace of its own lives in the namespace `library` of Docker Hub. The
namespace may be written or left out, and so may the host, which has five names in letters of any
case (`HubName`).

Whatever is left out is put in by a different function: the host and the namespace by the reader of
references, one name for all hosts by the keys. In the end all spellings have the same key
(`HubName.key_eq`).
-/

namespace TagWatch

open Text

/-- A word of a reference has no mark that separates its parts, and no blanks. -/
structure Word (word : String) : Prop where
  ne : word ≠ ""
  plain : ∀ c ∈ word.toList, c ≠ '/' ∧ c ≠ ':' ∧ c ≠ '@' ∧ isBlank c = false

/-- The hosts of Docker Hub. -/
def hubHosts : List String :=
  ["docker.io", "index.docker.io", "registry-1.docker.io", "registry.hub.docker.com",
    "hub.docker.com"]

/-- The paths of an image of Docker Hub, with its namespace and without. -/
inductive HubPath (n : String) : String → Prop where
  | bare : HubPath n n
  | official : HubPath n ("library/" ++ n)

/-- The names of an image of Docker Hub, with the registry that each of them is read with. -/
inductive HubName (n : String) : String → String → Prop where
  | short {path : String} : HubPath n path → HubName n path "docker.io"
  | long {h path : String} : lowerString h ∈ hubHosts → HubPath n path →
    HubName n (h ++ "/" ++ path) h

/-! ## Hosts -/

section Hosts

variable {h : String} (hmem : lowerString h ∈ hubHosts)
include hmem

/-- What holds of the letters of all hosts in small letters holds of a host in letters of any
case. -/
theorem forall_mem_hubHost {p : Char → Prop} (hall : ∀ host ∈ hubHosts, ∀ c ∈ host.toList, p c) :
    ∀ c ∈ h.toList, p c.toLower := by
  intro c hc
  refine hall _ hmem _ ?_
  rw [lowerString, String.toList_ofList]
  exact List.mem_map_of_mem hc

theorem plain_hubHost : ∀ c ∈ h.toList, c ≠ '/' ∧ c ≠ ':' ∧ c ≠ '@' ∧ isBlank c = false := by
  intro c hc
  have hplain := forall_mem_hubHost hmem
    (p := fun c => c ≠ '/' ∧ c ≠ ':' ∧ c ≠ '@' ∧ isBlank c = false) (by simp [hubHosts, isBlank])
    c hc
  obtain ⟨hslash, hcolon, hat, hblank⟩ := hplain
  rw [isBlank_toLower] at hblank
  refine ⟨?_, ?_, ?_, hblank⟩
  · rintro rfl
    exact hslash rfl
  · rintro rfl
    exact hcolon rfl
  · rintro rfl
    exact hat rfl

theorem isHost_hubHost : Reference.isHost h.toList = true := by
  refine Reference.isHost_iff.mpr (.inl ((mem_lower_iff (by decide)).mp ?_))
  have hdot : ∀ host ∈ hubHosts, '.' ∈ host.toList := by decide
  simpa [lowerString] using hdot _ hmem

theorem canonical_hubHost : Registry.canonical h = Registry.hub := by
  have hslash : '/' ∉ h.toList := fun hc => (plain_hubHost hmem _ hc).1 rfl
  have htrim : trim h.toList = h.toList :=
    trim_eq_self fun c hc => (plain_hubHost hmem c hc).2.2.2
  have hall : ∀ host ∈ hubHosts, Registry.ofHost host.toList = Registry.hub := by decide +kernel
  rw [Registry.canonical, Registry.host_of_not_mem hslash, htrim]
  simpa [lowerString] using hall _ hmem

end Hosts

/-! ## Names -/

variable {n t s registry : String}

theorem Word.toList_ne_nil (h : Word n) : n.toList ≠ [] := mt String.toList_eq_nil_iff.mp h.ne

theorem Word.not_mem_slash (h : Word n) : '/' ∉ n.toList := fun hc => (h.plain _ hc).1 rfl

section Path

variable {path : String} (hn : Word n) (h : HubPath n path)
include hn h

theorem HubPath.ne_nil : path.toList ≠ [] := by
  cases h with
  | bare => exact hn.toList_ne_nil
  | official => simp

theorem HubPath.plain : ∀ c ∈ path.toList, c ≠ ':' ∧ c ≠ '@' ∧ isBlank c = false := by
  intro c hc
  cases h with
  | bare => exact (hn.plain c hc).2
  | official =>
    rw [String.toList_append, List.mem_append] at hc
    rcases hc with hc | hc
    · have hlibrary : ∀ c ∈ "library/".toList, c ≠ ':' ∧ c ≠ '@' ∧ isBlank c = false := by
        simp [isBlank]
      exact hlibrary c hc
    · exact (hn.plain c hc).2

theorem HubPath.splitHost_eq :
    Reference.splitHost path.toList = ("docker.io".toList, path.toList) := by
  cases h with
  | bare => rw [Reference.splitHost, cut_eq_none_iff.mpr hn.not_mem_slash]
  | official =>
    have hcut : cut '/' ("library/" ++ n).toList = some ("library".toList, n.toList) :=
      cut_eq_some_iff.mpr ⟨by rw [String.toList_append]; rfl, by decide⟩
    rw [Reference.splitHost, hcut]
    rfl

/-- The namespace is put in where it is left out. -/
theorem HubPath.repository_eq (hhub : Registry.canonical registry = Registry.hub) :
    Reference.repository registry path.toList = ("library/" ++ n).toList := by
  rw [Reference.repository, hhub]
  cases h with
  | bare => simp [hn.not_mem_slash]
  | official => simp

end Path

/-- The registry is Docker Hub in any case. -/
theorem HubName.canonical_eq (h : HubName n s registry) :
    Registry.canonical registry = Registry.hub := by
  cases h with
  | short _ => decide +kernel
  | long hmem _ => exact canonical_hubHost hmem

theorem HubName.not_mem_slash (h : HubName n s registry) : '/' ∉ registry.toList := by
  cases h with
  | short _ => decide
  | long hmem _ => exact fun hc => (plain_hubHost hmem _ hc).1 rfl

section Name

variable (hn : Word n) (h : HubName n s registry)
include hn h

theorem HubName.ne_nil : s.toList ≠ [] := by
  cases h with
  | short hpath => exact hpath.ne_nil hn
  | long _ _ => simp

theorem HubName.plain : ∀ c ∈ s.toList, c ≠ ':' ∧ c ≠ '@' ∧ isBlank c = false := by
  intro c hc
  cases h with
  | short hpath => exact hpath.plain hn c hc
  | long hmem hpath =>
    rw [String.toList_append, String.toList_append, List.mem_append, List.mem_append] at hc
    rcases hc with (hc | hc) | hc
    · exact (plain_hubHost hmem c hc).2
    · rw [List.mem_singleton.mp hc]
      decide
    · exact hpath.plain hn c hc

theorem HubName.splitHost_eq : ∃ path, HubPath n path ∧
    Reference.splitHost s.toList = (registry.toList, path.toList) := by
  cases h with
  | short hpath => exact ⟨_, hpath, hpath.splitHost_eq hn⟩
  | @long _ path hmem hpath =>
    refine ⟨path, hpath, ?_⟩
    have htoList : (registry ++ "/" ++ path).toList = registry.toList ++ '/' :: path.toList := by
      rw [String.toList_append, String.toList_append, List.append_assoc]
      rfl
    rw [htoList]
    exact Reference.splitHost_append (isHost_hubHost hmem)
      fun hc => (plain_hubHost hmem _ hc).1 rfl

/-! ## References -/

/-- A name stands for itself, without a tag. -/
theorem HubName.spelled : Reference.Spelled s s.toList none none where
  text := by
    rw [trim_eq_self fun c hc => (h.plain hn c hc).2.2]
    simp [Reference.tagPart, Reference.digestPart]
  name_at := fun hc => (h.plain hn _ hc).2.1 rfl
  tag_plain := nofun
  untagged := fun _ before after heq _ =>
    absurd rfl (h.plain hn ':' (heq ▸ List.mem_append_right before List.mem_cons_self)).1

theorem HubName.spelled_tag (ht : Word t) :
    Reference.Spelled (s ++ ":" ++ t) s.toList (some t.toList) none where
  text := by
    rw [trim_eq_self]
    · simp [Reference.tagPart, Reference.digestPart]
    · intro c hc
      rw [String.toList_append, String.toList_append, List.mem_append, List.mem_append] at hc
      rcases hc with (hc | hc) | hc
      · exact (h.plain hn c hc).2.2
      · rw [List.mem_singleton.mp hc]
        decide
      · exact (ht.plain c hc).2.2.2
  name_at := fun hc => (h.plain hn _ hc).2.1 rfl
  tag_plain := by
    rintro _ ⟨⟩
    exact ⟨fun hc => (ht.plain _ hc).1 rfl, fun hc => (ht.plain _ hc).2.1 rfl,
      fun hc => (ht.plain _ hc).2.2.1 rfl⟩
  untagged := nofun

theorem HubName.read?_spelled {text : String} {tag : Option (List Char)}
    (hspelled : Reference.Spelled text s.toList tag none) (htag : tag ≠ some []) :
    Reference.read? text =
      some ⟨registry, "library/" ++ n, String.ofList (tag.getD "latest".toList), none⟩ := by
  obtain ⟨path, hpath, hsplit⟩ := h.splitHost_eq hn
  rw [hspelled.read?_eq, if_neg (not_or.mpr ⟨h.ne_nil hn, htag⟩), hsplit]
  dsimp only
  rw [String.ofList_toList, hpath.repository_eq hn h.canonical_eq, String.ofList_toList]
  rfl

theorem HubName.read?_tag (ht : Word t) :
    Reference.read? (s ++ ":" ++ t) = some ⟨registry, "library/" ++ n, t, none⟩ := by
  rw [h.read?_spelled hn (h.spelled_tag hn ht) fun heq => ht.toList_ne_nil (Option.some.inj heq),
    Option.getD_some, String.ofList_toList]

/-- A name without a tag is read like one with the tag `latest`. -/
theorem HubName.read?_untagged :
    Reference.read? s = Reference.read? (s ++ ":latest") := by
  have hlatest : Word "latest" := ⟨by decide, by simp [isBlank]⟩
  have hread := h.read?_tag hn hlatest
  rw [h.read?_spelled hn (h.spelled hn) (Option.some_ne_none []).symm]
  rw [String.append_assoc] at hread
  exact hread.symm

end Name

end TagWatch
