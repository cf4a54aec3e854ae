import TagWatch.Client.Web
import TagWatch.Limit.Limiter
import TagWatch.Proofs.Fetch.Conversation
import TagWatch.Proofs.Registry.Name
import TagWatch.Run.Metrics

/-!
# Names that are canonical once and for all

The name of a registry is made canonical when a key is made, and again by everyone who is given the
key: the fetch, the limiter, those who make clients and count checks. They all mean the same
registry if a canonical name is its own canonical name.

**Theorem (`canonical_canonical_iff`).** That is so exactly if the host that a name speaks of is
well known, by itself or by its domain, or is `Plain`: it has no blanks at its ends, no slash at its
end and no scheme in front. It is so for every name without a slash.

Each spelling is cleaned up once, in a fixed order, and what one step lays open is not cleaned up by
the steps before it. A host that is left in such a state becomes shorter when it is cleaned up again
(`host_ofList_eq_self_iff`), and so another name, unless its name is a short one.
-/

namespace TagWatch

/-! ## Texts in small letters -/

namespace Text

variable {s : List Char}

theorem lower_eq_self_iff : lower s = s ↔ ∀ c ∈ s, c.toLower = c := by
  induction s with
  | nil => exact iff_of_true rfl (List.forall_mem_nil _)
  | cons c s ih =>
    rw [lower, List.map_cons, List.cons.injEq, ← lower, ih, List.forall_mem_cons]

/-- A part of a text in small letters is in small letters. -/
theorem lower_eq_self_of_sublist {part : List Char} (hpart : part.Sublist s) (h : lower s = s) :
    lower part = part :=
  lower_eq_self_iff.mpr fun c hc => lower_eq_self_iff.mp h c (hpart.subset hc)

theorem trim_sublist (s : List Char) : (trim s).Sublist s :=
  dropEndWhile_isPrefix.sublist.trans (List.dropWhile_sublist _)

end Text

namespace Registry

open Text

/-! ## Hosts -/

/-- A host with nothing to clean up. -/
structure Plain (host : List Char) : Prop where
  trimmed : trim host = host
  slash : host.getLast? ≠ some '/'
  https : startsWith "https://".toList host = false
  http : startsWith "http://".toList host = false

theorem dropScheme_isSuffix (s : List Char) : dropScheme s <:+ s := by
  rw [dropScheme]
  cases hs : strip? "https://".toList s with
  | some rest => exact ⟨_, (strip?_eq_some_iff.mp hs).symm⟩
  | none =>
    cases h : strip? "http://".toList s with
    | some rest => exact ⟨_, (strip?_eq_some_iff.mp h).symm⟩
    | none => exact List.suffix_refl s

theorem dropScheme_eq_self_iff {s : List Char} : dropScheme s = s ↔
    startsWith "https://".toList s = false ∧ startsWith "http://".toList s = false := by
  -- What is left after a scheme is shorter.
  have hne {scheme rest : List Char} (hs : strip? scheme s = some rest)
      (hscheme : 0 < scheme.length) : rest ≠ s := by
    rintro rfl
    have hlength := congrArg List.length (strip?_eq_some_iff.mp hs)
    rw [List.length_append] at hlength
    omega
  rw [dropScheme, startsWith, startsWith]
  cases hs : strip? "https://".toList s with
  | some rest => simpa using hne hs (by decide)
  | none =>
    cases h : strip? "http://".toList s with
    | some rest => simpa using hne h (by decide)
    | none => simp

theorem dropEndWhile_slash_eq_self_iff {s : List Char} :
    dropEndWhile (· = '/') s = s ↔ s.getLast? ≠ some '/' := by
  rw [show dropEndWhile (· = '/') s = s.rdropWhile (· = '/') from rfl,
    List.rdropWhile_eq_self_iff]
  cases hlast : s.getLast? with
  | none => simp [List.getLast?_eq_none_iff.mp hlast]
  | some c =>
    obtain ⟨before, rfl⟩ := List.getLast?_eq_some_iff.mp hlast
    simp

/-- A host is in small letters. -/
theorem lower_host (name : String) : lower (host name) = host name :=
  lower_eq_self_of_sublist (dropScheme_isSuffix _).sublist (lower_lower _)

/-- A host stands for itself exactly if there is nothing to clean up: every step could only make it
shorter. -/
theorem host_ofList_eq_self_iff {s : List Char} (hlower : lower s = s) :
    host (String.ofList s) = s ↔ Plain s := by
  rw [host, String.toList_ofList]
  have hend : (dropEndWhile (· = '/') (trim s)).Sublist (trim s) := dropEndWhile_isPrefix.sublist
  rw [lower_eq_self_of_sublist (hend.trans (trim_sublist s)) hlower]
  constructor
  · intro h
    have hscheme := (dropScheme_isSuffix (dropEndWhile (· = '/') (trim s))).sublist
    rw [h] at hscheme
    have htrim : trim s = s := (trim_sublist s).antisymm (hscheme.trans hend)
    rw [htrim] at h hscheme hend
    have hopen : dropEndWhile (· = '/') s = s := hend.antisymm hscheme
    rw [hopen] at h
    obtain ⟨hhttps, hhttp⟩ := dropScheme_eq_self_iff.mp h
    exact ⟨htrim, dropEndWhile_slash_eq_self_iff.mp hopen, hhttps, hhttp⟩
  · intro h
    rw [h.trimmed, dropEndWhile_slash_eq_self_iff.mpr h.slash,
      dropScheme_eq_self_iff.mpr ⟨h.https, h.http⟩]

/-! ## Names -/

/-- A name that needs to be made canonical only once: its host is well known, by itself or by its
domain, or there is nothing more to clean up in it. -/
inductive Settled (name : String) : Prop where
  | known {short : String} : Table.find (String.ofList (host name)) aliases = some short →
    Settled name
  | domain : endsWith ".gcr.io".toList (host name) = true → Settled name
  | plain : Plain (host name) → Settled name

/-- A host without a slash has none at its end and no scheme. -/
theorem plain_of_not_mem {s : List Char} (h : '/' ∉ s) (htrim : trim s = s) : Plain s := by
  obtain ⟨hhttps, hhttp⟩ := dropScheme_eq_self_iff.mp (dropScheme_of_not_mem h)
  refine ⟨htrim, ?_, hhttps, hhttp⟩
  intro hlast
  exact h (List.mem_of_getLast? hlast)

theorem settled_of_not_mem {name : String} (h : '/' ∉ name.toList) : Settled name := by
  have hslash : '/' ∉ host name := by
    rw [host_of_not_mem h]
    exact slash_not_mem_lower fun hmem => h (mem_of_mem_trim hmem)
  have htrim : trim (host name) = host name := by
    rw [host_of_not_mem h, trim_lower, trim_trim]
  exact .plain (plain_of_not_mem hslash htrim)

/-- A short name is the name of a well-known host, too. -/
theorem find_short {host short : String} (h : Table.find host aliases = some short) :
    Table.find short aliases = some short := by
  have hall : ∀ e ∈ aliases, Table.find e.2 aliases = some e.2 := by decide +kernel
  exact hall (host, short) (Table.mem_of_find_eq_some h)

/-- Hosts that are not well known are told apart by their names. -/
theorem eq_of_ofHost_eq {s s' : List Char} (hnone : Table.find (String.ofList s) aliases = none)
    (h : ofHost s' = String.ofList s) : s' = s := by
  rw [ofHost] at h
  split at h
  · next short hfind =>
    have hshort := find_short hfind
    rw [h, hnone] at hshort
    cases hshort
  · split at h
    · rw [← h] at hnone
      exact absurd hnone (by decide)
    · exact String.ofList_injective h

/-- A canonical name is short, or it is the whole host. -/
theorem canonical_cases (name : String) :
    (∃ short, Table.find (String.ofList (host name)) aliases = some short ∧
      canonical name = short) ∨
    (endsWith ".gcr.io".toList (host name) = true ∧ canonical name = "gcr") ∨
    (Table.find (String.ofList (host name)) aliases = none ∧
      ¬ endsWith ".gcr.io".toList (host name) = true ∧
      canonical name = String.ofList (host name)) := by
  cases hfind : Table.find (String.ofList (host name)) aliases with
  | some short =>
    refine .inl ⟨short, rfl, ?_⟩
    rw [canonical, ofHost, hfind]
  | none =>
    by_cases hdomain : endsWith ".gcr.io".toList (host name) = true
    · refine .inr (.inl ⟨hdomain, ?_⟩)
      rw [canonical, ofHost, hfind, if_pos hdomain]
    · refine .inr (.inr ⟨rfl, hdomain, ?_⟩)
      rw [canonical, ofHost, hfind, if_neg hdomain]

/-- A canonical name is its own canonical name exactly if nothing is left to clean up that would
matter. -/
theorem canonical_idem_iff (name : String) :
    canonical (canonical name) = canonical name ↔ Settled name := by
  constructor
  · intro h
    obtain ⟨short, hfind, -⟩ | ⟨hdomain, -⟩ | ⟨hnone, -, hself⟩ := canonical_cases name
    · exact .known hfind
    · exact .domain hdomain
    · rw [hself] at h
      apply Settled.plain
      apply (host_ofList_eq_self_iff (lower_host name)).mp
      exact eq_of_ofHost_eq hnone h
  · intro h
    obtain ⟨short, hfind, hshort⟩ | ⟨-, hshort⟩ | ⟨hnone, hdomain, hself⟩ := canonical_cases name
    · rw [hshort]
      exact canonical_alias hfind
    · rw [hshort]
      decide +kernel
    · have hplain : Plain (host name) := by
        cases h with
        | known hfind =>
          rw [hnone] at hfind
          cases hfind
        | domain h => exact absurd h hdomain
        | plain h => exact h
      rw [hself]
      nth_rewrite 1 [canonical]
      rw [(host_ofList_eq_self_iff (lower_host name)).mpr hplain]
      exact hself

end Registry

/-! ## Those who are given a key -/

/-- The registry that a step of a fetch names, by itself or in a key. -/
def FetchStep.named? : FetchStep → Option String
  | lookUp key | remember key _ => some key.registry
  | acquire registry | connect registry => some registry
  | call _ _ | release => none

namespace FetchRequest

variable {settings : FetchSettings} {inRun : Bool} {r : FetchRequest} {said : List Event}
  {response : FetchResponse}

/-- A fetch names the registry of its own key and no other. -/
theorem Visit.registry_eq (h : r.Visit settings inRun said response) :
    ∀ event ∈ said, ∀ registry ∈ event.1.named?, registry = r.key.registry := by
  intro event hmem registry hregistry
  cases h with
  | refused waited e =>
    simp only [List.mem_cons, List.not_mem_nil, or_false] at hmem
    rcases hmem with rfl | rfl | rfl
    · exact (Option.some.inj hregistry).symm
    · exact (Option.some.inj hregistry).symm
    · cases hregistry
  | served waited id hasked =>
    simp only [List.cons_append, List.nil_append, session, List.append_assoc, List.mem_cons,
      List.mem_append, List.mem_map] at hmem
    rcases hmem with rfl | rfl | ⟨reply, -, rfl⟩ | rfl | rfl | hmem
    · exact (Option.some.inj hregistry).symm
    · exact (Option.some.inj hregistry).symm
    · cases hregistry
    · cases hregistry
    · cases hregistry
    · revert hmem
      -- The answer is kept under the key of the request, if it is kept.
      cases settled _ (r.gather _ _) with
      | error e => exact fun hmem => absurd hmem List.not_mem_nil
      | ok result =>
        cases inRun with
        | false => exact fun hmem => absurd hmem List.not_mem_nil
        | true =>
          intro hmem
          obtain rfl := List.mem_singleton.mp hmem
          exact (Option.some.inj hregistry).symm

theorem Protocol.registry_eq (h : r.Protocol settings inRun said response) :
    ∀ event ∈ said, ∀ registry ∈ event.1.named?, registry = r.key.registry := by
  intro event hmem registry hregistry
  cases h with
  | kept result hrun =>
    obtain rfl := List.mem_singleton.mp hmem
    exact (Option.some.inj hregistry).symm
  | anew hvisit =>
    rcases List.mem_append.mp hmem with hmem | hmem
    · cases inRun with
      | false => exact absurd hmem List.not_mem_nil
      | true =>
        obtain rfl := List.mem_singleton.mp hmem
        exact (Option.some.inj hregistry).symm
    · exact hvisit.registry_eq event hmem registry hregistry

end FetchRequest

/-- Everyone who is given a key takes its registry for the one of a name. -/
structure Key.Understood (k : Key) (name : String) : Prop where
  /-- A key that is made from the registry of the key is the key. -/
  again : Key.make k.registry k.image k.tag k.scope k.prereleases = k
  request : ∀ digest, (FetchRequest.ofKey k digest).key = k
  /-- A fetch for the key looks up answers, waits, makes a client and keeps its answer for the
  registry of the key. -/
  fetch : ∀ settings inRun digest said response,
    (FetchRequest.ofKey k digest).Protocol settings inRun said response →
    ∀ event ∈ said, ∀ registry ∈ event.1.named?, registry = k.registry
  limiter : ∀ (s : Limit.Limiter) t, s.ask t k.registry = s.ask t name
  rates : ∀ rates : Rates, rates.forRegistry k.registry = rates.forRegistry name
  factory : ∀ f : Web.Factory, f.make k.registry = f.make name
  metrics : ∀ (m : Metrics) latency cacheHit,
    m.recordCheck k.registry latency cacheHit = m.recordCheck name latency cacheHit

theorem Key.understood_make {name : String}
    (h : Registry.canonical (Registry.canonical name) = Registry.canonical name)
    (image tag : String) (scope : Level) (prereleases : Bool) :
    (Key.make name image tag scope prereleases).Understood name := by
  have hkey : ∀ digest, (FetchRequest.ofKey (Key.make name image tag scope prereleases)
      digest).key = Key.make name image tag scope prereleases := by
    intro digest
    simp only [FetchRequest.key, FetchRequest.ofKey, Key.make, h]
  refine ⟨?_, hkey, ?_, ?_, ?_, ?_, ?_⟩
  · simp only [Key.make, h]
  · intro settings inRun digest said response hprotocol event hmem registry hregistry
    rw [hprotocol.registry_eq event hmem registry hregistry, hkey]
  · intro s t
    simp only [Limit.Limiter.ask, Key.make, h]
  · intro rates
    simp only [Rates.forRegistry, Key.make, h]
  · intro f
    simp only [Web.Factory.make, Key.make, h]
  · intro m latency cacheHit
    simp only [Metrics.recordCheck, Key.make, h]

/-- **Names that are canonical once and for all.** A canonical name is its own canonical name
exactly if the name that it comes from is settled. Exactly then, everyone who is given a key that
was made for the name takes its registry for the one that the name speaks of. A name is settled if
it has no slash, and whenever its host has no slash and no blanks at its ends. -/
theorem Registry.canonical_canonical_iff (name image tag : String) (scope : Level)
    (prereleases : Bool) :
    (canonical (canonical name) = canonical name ↔ Settled name) ∧
    (Settled name ↔ (Key.make name image tag scope prereleases).Understood name) ∧
    ('/' ∉ name.toList → Settled name) ∧
    ('/' ∉ host name → Text.trim (host name) = host name → Settled name) := by
  refine ⟨canonical_idem_iff name, ?_, settled_of_not_mem, ?_⟩
  · constructor
    · intro hsettled
      exact Key.understood_make ((canonical_idem_iff name).mpr hsettled) image tag scope prereleases
    · intro h
      have hregistry := congrArg Key.registry h.again
      simp only [Key.make] at hregistry
      exact (canonical_idem_iff name).mp hregistry
  · intro hslash htrim
    exact .plain (plain_of_not_mem hslash htrim)

/-- A host with a port is settled, however it is spelled. -/
theorem Registry.canonical_canonical_port :
    Settled " HTTPS://Registry.Example.com:5000// " ∧
      canonical (canonical " HTTPS://Registry.Example.com:5000// ") =
        canonical " HTTPS://Registry.Example.com:5000// " := by
  obtain ⟨hiff, -, -, hsettled⟩ :=
    canonical_canonical_iff " HTTPS://Registry.Example.com:5000// " "app" "1.0.0" .minor false
  have h := hsettled (by decide +kernel) (by decide +kernel)
  exact ⟨h, hiff.mpr h⟩

/-- A second scheme, and a blank before the slash that is cut off, are cleaned up only when the name
is made canonical once more. -/
theorem Registry.canonical_canonical_ne :
    canonical "https://https://h" = "https://h" ∧
      canonical (canonical "https://https://h") = "h" ∧
      canonical "ghcr.io /" = "ghcr.io " ∧ canonical (canonical "ghcr.io /") = "ghcr" := by
  decide +kernel

end TagWatch
