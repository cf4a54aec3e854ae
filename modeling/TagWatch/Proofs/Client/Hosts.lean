import TagWatch.Client.Web
import TagWatch.Image.Reference
import TagWatch.Proofs.Registry.Name

/-!
# Registries of image references have clients

A reference takes the first part of its path for a registry host if it contains a dot or a colon or
is `localhost`. A client needs an address: a well-known registry has one, and any other host is its
own address if its canonical name contains a dot or a colon.

**Theorem (`make_registry_of_read?`).** The two agree on every host but one. The registry of a
reference that can be read has a client unless it is `localhost`, which is a host to the reference
and no address.

Dots and colons outlast the way to the canonical name: they are no blanks, and they have no small
form. A canonical name that loses them is a short name, and has a known address
(`exists_defaultUrl`).
-/

namespace TagWatch

open Text

/-! ## What the canonical name keeps -/

namespace Text

variable {p : Char → Bool} {s : List Char} {c : Char}

theorem mem_dropWhile_of_mem (hp : p c = false) (h : c ∈ s) : c ∈ s.dropWhile p := by
  rw [← List.takeWhile_append_dropWhile (p := p) (l := s)] at h
  rcases List.mem_append.mp h with h | h
  · rw [List.mem_takeWhile_imp h] at hp
    cases hp
  · exact h

/-- Only blanks are lost at the ends of a text. -/
theorem mem_trim_of_mem (hblank : isBlank c = false) (h : c ∈ s) : c ∈ trim s := by
  have hfront : c ∈ s.dropWhile isBlank := mem_dropWhile_of_mem hblank h
  rw [trim, trimWhile, dropEndWhile, List.mem_reverse]
  exact mem_dropWhile_of_mem hblank (List.mem_reverse.mpr hfront)

/-- A mark is no blank and no capital letter. -/
theorem mem_lower_trim_of_mem (hblank : isBlank c = false) (hsmall : c.toLower = c)
    (h : c ∈ s) : c ∈ lower (trim s) :=
  List.mem_map.mpr ⟨c, mem_trim_of_mem hblank h, hsmall⟩

end Text

namespace Web

/-- The well-known registries have addresses. -/
theorem exists_defaultUrl_of_alias {host name : String}
    (h : Table.find host Registry.aliases = some name) : ∃ url, defaultUrl? name = some url := by
  have hall : ∀ e ∈ Registry.aliases, (defaultUrl? e.2).isSome = true := by decide +kernel
  exact Option.isSome_iff_exists.mp (hall (host, name) (Table.mem_of_find_eq_some h))

theorem exists_defaultUrl_of_mem {name : String} (h : '.' ∈ name.toList ∨ ':' ∈ name.toList) :
    ∃ url, defaultUrl? name = some url := by
  rw [defaultUrl?]
  split
  · exact ⟨_, rfl⟩
  · rw [if_pos]
    · exact ⟨_, rfl⟩
    · rw [Bool.or_eq_true, List.contains_iff_mem, List.contains_iff_mem]
      exact h

/-- A host with a dot or a colon has an address. -/
theorem exists_defaultUrl {host : List Char} (hslash : '/' ∉ host)
    (h : '.' ∈ host ∨ ':' ∈ host) :
    ∃ url, defaultUrl? (Registry.canonical (String.ofList host)) = some url := by
  have hhost : Registry.host (String.ofList host) = lower (trim host) := by
    rw [Registry.host_of_not_mem (by rwa [String.toList_ofList]), String.toList_ofList]
  rw [Registry.canonical, hhost, Registry.ofHost]
  split
  · next name hfind => exact exists_defaultUrl_of_alias hfind
  · split
    · exact ⟨_, rfl⟩
    · apply exists_defaultUrl_of_mem
      rw [String.toList_ofList]
      exact h.imp (mem_lower_trim_of_mem rfl rfl) (mem_lower_trim_of_mem rfl rfl)

end Web

/-! ## References -/

/-- The registry of a reference is left out, or is the first part of the path and names a host. -/
theorem Reference.registry_cases {text : String} {r : Reference} (h : read? text = some r) :
    r.registry = "docker.io" ∨
      ∃ host, r.registry = String.ofList host ∧ '/' ∉ host ∧ isHost host = true := by
  rw [read?] at h
  dsimp only at h
  split at h
  · cases h
  · obtain rfl := Option.some.inj h
    dsimp only
    generalize (splitTag _).1 = name
    rw [splitHost]
    split
    · next first rest hcut =>
      split
      · next hhost => exact .inr ⟨first, rfl, (cut_eq_some_iff.mp hcut).2, hhost⟩
      · exact .inl rfl
    · exact .inl rfl

/-- The registry of a reference has an address unless it is `localhost`. -/
theorem Reference.exists_defaultUrl {text : String} {r : Reference} (h : read? text = some r)
    (hlocal : r.registry ≠ "localhost") :
    ∃ url, Web.defaultUrl? (Registry.canonical r.registry) = some url := by
  rcases registry_cases h with hhub | ⟨host, hhost, hslash, hnames⟩
  · rw [hhub]
    exact ⟨"https://hub.docker.com", by decide +kernel⟩
  · rw [hhost] at hlocal ⊢
    apply Web.exists_defaultUrl hslash
    rw [isHost, Bool.or_eq_true, Bool.or_eq_true, List.contains_iff_mem, List.contains_iff_mem,
      beq_iff_eq] at hnames
    rcases hnames with hmark | rfl
    · exact hmark
    · exact absurd rfl hlocal

/-- **Registries of image references have clients**, unless they are `localhost`. -/
theorem make_registry_of_read? {text : String} {r : Reference} (h : Reference.read? text = some r)
    (maxPages : Nat) :
    let factory : Web.Factory := { maxPages := maxPages }
    (r.registry ≠ "localhost" → ∃ url,
      factory.make r.registry = .ok (.make (Registry.canonical r.registry) url maxPages)) ∧
    (r.registry = "localhost" →
      factory.make r.registry = .error (.unsupportedRegistry "localhost")) := by
  intro factory
  have hnone (name : String) : factory.baseUrls.get? name = none := rfl
  constructor
  · intro hlocal
    obtain ⟨url, hurl⟩ := Reference.exists_defaultUrl h hlocal
    refine ⟨url, ?_⟩
    simp only [Web.Factory.make, hnone, Option.none_or, hurl]
    rfl
  · intro hlocal
    have hname : Registry.canonical "localhost" = "localhost" := by decide +kernel
    have hurl : Web.defaultUrl? "localhost" = none := by decide +kernel
    simp only [Web.Factory.make, hlocal, hnone, hname, hurl]
    rfl

/-- A host with a port has a client, a bare `localhost` has none, and both can be read. -/
theorem make_registry_of_read?_localhost :
    (∃ r url, Reference.read? "localhost:5000/app:1.0.0" = some r ∧
      Web.Factory.make {} r.registry = .ok (.make "localhost:5000" url 10)) ∧
    ∃ r, Reference.read? "localhost/app:1.0.0" = some r ∧
      Web.Factory.make {} r.registry = .error (.unsupportedRegistry "localhost") := by
  have hport : Reference.read? "localhost:5000/app:1.0.0" =
      some ⟨"localhost:5000", "app", "1.0.0", none⟩ := by decide +kernel
  have hbare : Reference.read? "localhost/app:1.0.0" =
      some ⟨"localhost", "app", "1.0.0", none⟩ := by decide +kernel
  obtain ⟨url, hurl⟩ := (make_registry_of_read? hport 10).1 (by decide)
  exact ⟨⟨_, url, hport, hurl⟩, _, hbare, (make_registry_of_read? hbare 10).2 rfl⟩

end TagWatch
