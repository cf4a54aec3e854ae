import TagWatch.Proofs.Config.Partial
import TagWatch.Proofs.Limit.Size

/-!
# Which configurations are accepted

A configuration that is loaded fits into 64 bits, and every configuration that does can be loaded
(`Config.fits_of_load`, `Config.exists_load`). Nothing else is asked of the numbers of slots.

**Theorem (`Config.limiter_exact`).** The limiter of a configuration that is loaded can exist, after
anything that users do, if and only if the number of global slots is at most `Limit.maxSlots`, and
so is the number of slots of every registry that has been asked for. If no number of slots is
configured larger, nothing that is asked for ends it.
-/

namespace TagWatch

open Limit
open Limit.Workload (Operation perform fresh requested)

/-! ## Fields that are read -/

namespace Json

variable {α : Type} {j : Json}

theorem word?_lt {n : Nat} (h : word? j = some n) : n < Text.wordBound := by
  cases j with
  | number literal =>
    obtain ⟨-, -, hlt, rfl⟩ := Text.word?_eq_some_iff.mp h
    exact hlt
  | _ => cases h

/-- A number that has a default fits into 64 bits if the default does. -/
theorem withDefault_word?_lt {default n : Nat} {field : Option Json}
    (hdefault : default < Text.wordBound) (h : withDefault default word? field = some n) :
    n < Text.wordBound := by
  cases field with
  | none => exact Option.some.inj h ▸ hdefault
  | some v => exact word?_lt h

theorem required_word?_lt {n : Nat} {field : Option Json} (h : required word? field = some n) :
    n < Text.wordBound := by
  cases field with
  | none => cases h
  | some v => exact word?_lt h

/-- A table has every name once, and all its values have been read. -/
theorem table?_spec {read : Json → Option α} {t : Table String α} (h : table? read j = some t) :
    t.keys.Nodup ∧ ∀ e ∈ t.entries, ∃ v, read v = some e.2 := by
  cases j with
  | object members =>
    obtain ⟨entries, hentries, rfl⟩ := Option.map_eq_some_iff.mp h
    obtain ⟨hn, hmem⟩ := Table.ofList_spec entries
    refine ⟨hn, fun e he => ?_⟩
    obtain ⟨m, -, hm⟩ := Text.exists_of_mem_mapM hentries (hmem e he)
    obtain ⟨name, -, hm⟩ := Option.bind_eq_some_iff.mp hm
    obtain ⟨a, ha, hm⟩ := Option.bind_eq_some_iff.mp hm
    obtain rfl := Option.some.inj hm
    exact ⟨m.2, ha⟩
  | _ => cases h

end Json

theorem Rate.fits_of_ofJson? {j : Json} {r : Rate} (h : Rate.ofJson? j = some r) : r.Fits := by
  unfold Rate.ofJson? at h
  split at h
  · obtain ⟨rpm, hrpm, h⟩ := Option.bind_eq_some_iff.mp h
    obtain ⟨concurrent, hconcurrent, h⟩ := Option.bind_eq_some_iff.mp h
    obtain ⟨burst, hburst, h⟩ := Option.bind_eq_some_iff.mp h
    obtain rfl := Option.some.inj h
    exact ⟨Json.required_word?_lt hrpm, Json.required_word?_lt hconcurrent,
      Json.required_word?_lt hburst⟩
  · cases h

namespace Config

variable {c : Config}

theorem fits_of_ofJson? {j : Json} (h : ofJson? j = some c) : c.Fits := by
  unfold ofJson? at h
  dsimp only at h
  split at h
  · obtain ⟨prereleases, -, h⟩ := Option.bind_eq_some_iff.mp h
    obtain ⟨concurrency, hconcurrency, h⟩ := Option.bind_eq_some_iff.mp h
    obtain ⟨allTags, -, h⟩ := Option.bind_eq_some_iff.mp h
    obtain ⟨timeout, htimeout, h⟩ := Option.bind_eq_some_iff.mp h
    obtain ⟨pages, hpages, h⟩ := Option.bind_eq_some_iff.mp h
    obtain ⟨limits, hlimits, h⟩ := Option.bind_eq_some_iff.mp h
    obtain ⟨log, -, h⟩ := Option.bind_eq_some_iff.mp h
    obtain rfl := Option.some.inj h
    have htable : limits.keys.Nodup ∧ ∀ e ∈ limits.entries, e.2.Fits := by
      unfold Json.withDefault at hlimits
      split at hlimits
      · obtain ⟨hn, hread⟩ := Json.table?_spec hlimits
        refine ⟨hn, fun e he => ?_⟩
        obtain ⟨v, hv⟩ := hread e he
        exact Rate.fits_of_ofJson? hv
      · obtain rfl := Option.some.inj hlimits
        exact ⟨List.nodup_nil, fun e he => absurd he List.not_mem_nil⟩
    exact ⟨Json.withDefault_word?_lt (by decide) hconcurrency,
      Json.withDefault_word?_lt (by decide) htimeout,
      Json.withDefault_word?_lt (by decide) hpages, htable.1, htable.2⟩
  · cases h

/-- The numbers of a configuration that is loaded fit into 64 bits. -/
theorem fits_of_load {content : FileContent} (h : load content = .ok c) : c.Fits := by
  unfold load at h
  split at h
  · cases h
  · cases h
  · cases h
  · split at h
    · cases h
    · split at h
      · next config hread =>
        obtain rfl := Except.ok.inj h
        obtain ⟨j, -, hj⟩ := Option.bind_eq_some_iff.mp hread
        exact fits_of_ofJson? hj
      · cases h

/-- A configuration whose numbers fit into 64 bits is accepted in some file, whether its limiter can
exist or not. -/
theorem exists_load (hc : c.Fits) :
    ∃ content loaded, load content = .ok loaded ∧ loaded.Same c := by
  obtain ⟨text, htext⟩ := c.exists_spells fieldNames LogConfig.fieldNames
  obtain ⟨loaded, hloaded, hsame⟩ := load_text hc htext
  rw [keep_of_subset (List.Subset.refl _) (List.Subset.refl _)] at hsame
  exact ⟨_, loaded, hloaded, hsame⟩

end Config

/-! ## Limits -/

namespace Rates

variable {P : Rate → Prop}

/-- What holds of the built-in limits and of all overrides holds of all limits together. -/
theorem forall_overriding {overrides : Rates} (hbuiltIn : ∀ e ∈ builtIn.entries, P e.2)
    (h : ∀ e ∈ overrides.entries, P e.2) : ∀ e ∈ (overriding overrides).entries, P e.2 := by
  obtain ⟨entries⟩ := overrides
  suffices hall : ∀ rates : Rates, (∀ e ∈ rates.entries, P e.2) →
      ∀ e ∈ (entries.foldl (fun rates e => rates.set (Registry.canonical e.1) e.2) rates).entries,
        P e.2 from hall builtIn hbuiltIn
  induction entries with
  | nil => exact fun rates hrates => hrates
  | cons first rest ih =>
    intro rates hrates
    apply ih fun e he => h e (List.mem_cons_of_mem _ he)
    intro e he
    rcases Table.mem_put he with rfl | he
    · exact h first List.mem_cons_self
    · exact hrates e he

theorem lookup_all {rates : Rates} (hstandard : P Rate.standard) (h : ∀ e ∈ rates.entries, P e.2)
    (registry : String) : P (rates.lookup registry) := by
  rw [lookup, Table.getD]
  cases hfind : rates.get? registry with
  | none => exact hstandard
  | some rate => exact h _ (Table.mem_of_find_eq_some hfind)

end Rates

namespace Config

variable {c : Config}

/-- No registry has more slots than possible if none is configured to. -/
theorem concurrent_le_maxSlots (h : ∀ e ∈ c.rateLimits.entries, e.2.concurrent ≤ maxSlots)
    (registry : String) : (c.rates.lookup registry).concurrent ≤ maxSlots := by
  have hstandard : Rate.standard.concurrent ≤ maxSlots := by decide
  have hbuiltIn : ∀ e ∈ Rates.builtIn.entries, e.2.concurrent ≤ maxSlots := by decide
  exact Rates.lookup_all (P := fun rate => rate.concurrent ≤ maxSlots) hstandard
    (Rates.forall_overriding (P := fun rate => rate.concurrent ≤ maxSlots) hbuiltIn h) registry

/-- **The limiter of a configuration.** A configuration that is accepted fits into 64 bits, and
after anything that users do its limiter can exist if and only if no pool is configured larger than
`maxSlots`, be it the global one or that of a registry that has been asked for. If no number of
slots is configured larger, this is so whatever users do. -/
theorem limiter_exact {content : FileContent} (h : load content = .ok c) :
    c.Fits ∧
    (∀ ops : List Operation, (ops.foldl perform (fresh c.limiter)).limiter.feasible = true ↔
      c.globalConcurrency ≤ maxSlots ∧
        ∀ registry ∈ requested ops, (c.rates.lookup registry).concurrent ≤ maxSlots) ∧
    (c.globalConcurrency ≤ maxSlots → (∀ e ∈ c.rateLimits.entries, e.2.concurrent ≤ maxSlots) →
      ∀ ops : List Operation, (ops.foldl perform (fresh c.limiter)).limiter.feasible = true) := by
  refine ⟨fits_of_load h, ?_, ?_⟩
  · intro ops
    exact Limit.Workload.feasible_run_iff c.rates c.globalConcurrency ops
  · intro hglobal hrates ops
    refine (Limit.Workload.feasible_run_iff c.rates c.globalConcurrency ops).mpr ⟨hglobal, ?_⟩
    intro registry _
    exact concurrent_le_maxSlots hrates registry

/-- A configuration with more global slots than possible. -/
def oversized : Config where
  globalConcurrency := 18446744073709551615

/-- A configuration with more slots for one registry than possible. -/
def lopsided : Config where
  rateLimits := ⟨[("ghcr", ⟨60, 2305843009213693952, 10⟩)]⟩

/-- A file with the configuration `oversized`. -/
def oversizedText : String := "\x7b\"globalConcurrency\": 18446744073709551615\x7d"

/-- A file with the configuration `lopsided`. -/
def lopsidedText : String :=
  "\x7b\"rateLimits\": \x7b\"ghcr\": \x7b\"requestsPerMinute\": 60, " ++
    "\"concurrentLimit\": 2305843009213693952, \"burstLimit\": 10\x7d\x7d\x7d"

/-- Both files are accepted. The first limiter cannot be made, and the second one is lost with the
first request for the registry. -/
theorem limiter_exact_oversized :
    load (.bytes oversizedText.toUTF8) = .ok oversized ∧
      (fresh oversized.limiter).limiter.feasible = false ∧
    load (.bytes lopsidedText.toUTF8) = .ok lopsided ∧
      (fresh lopsided.limiter).limiter.feasible = true ∧
      (perform (fresh lopsided.limiter) (.acquire "ghcr.io" "a" 0)).limiter.feasible = false := by
  have hoversized : load (.bytes oversizedText.toUTF8) = .ok oversized :=
    load_of_read? (by decide +kernel)
  have hlopsided : load (.bytes lopsidedText.toUTF8) = .ok lopsided :=
    load_of_read? (by decide +kernel)
  refine ⟨hoversized, ?_, hlopsided, ?_, ?_⟩
  · rw [Bool.eq_false_iff]
    intro hfeasible
    have h := ((limiter_exact hoversized).2.1 []).mp hfeasible
    exact absurd h.1 (by decide)
  · exact ((limiter_exact hlopsided).2.1 []).mpr ⟨by decide, by decide⟩
  · rw [Bool.eq_false_iff]
    intro hfeasible
    have h := ((limiter_exact hlopsided).2.1 [.acquire "ghcr.io" "a" 0]).mp hfeasible
    exact absurd (h.2 "ghcr" (by decide)) (by decide)

end Config

end TagWatch
