import TagWatch.Config.Settings
import TagWatch.Proofs.Json.Record
import TagWatch.Proofs.Json.Value

/-!
# Configurations that are written in part

**Theorem (`Config.load_of_spells`).** A file that writes some of the fields of a configuration, and
some of the fields of its section on logging, is loaded to the configuration that has these fields
and the defaults elsewhere. A file that writes all of them is loaded to the configuration itself.

`Config.Spells` says which files these are. The members of every object may come in any order, and
between them there may be any members that are no fields of it. The table of rate limits has no
fields: every member of it is an entry, and the entries are loaded in the order of the file, which
is no part of what the table says (`Config.Same`).

Each section has its own lemma on how it is read, and a field that may be left out is read in the
same way wherever it stands (`Json.withDefault_ite`).
-/

namespace TagWatch

open Json (IsRecord IsTable)

/-! ## Rate limits -/

namespace Rate

/-- The names of the fields of a rate limit. -/
def fieldNames : List String := ["requestsPerMinute", "concurrentLimit", "burstLimit"]

/-- The fields of a rate limit with their values. -/
def fields (r : Rate) : List (String × Json) :=
  [("requestsPerMinute", .ofNat r.requestsPerMinute), ("concurrentLimit", .ofNat r.concurrent),
    ("burstLimit", .ofNat r.burst)]

/-- The numbers of a rate limit fit into 64 bits. -/
structure Fits (r : Rate) : Prop where
  requestsPerMinute : r.requestsPerMinute < Text.wordBound
  concurrent : r.concurrent < Text.wordBound
  burst : r.burst < Text.wordBound

/-- How a rate limit is written: with all its fields. -/
def Written (r : Rate) (j : Json) : Prop := IsRecord fieldNames r.fields j

variable {r : Rate} {j : Json}

theorem ofJson?_of_written (hr : r.Fits) (h : r.Written j) : ofJson? j = some r := by
  have hfields : j.fields? false fieldNames =
      some [some (.ofNat r.requestsPerMinute), some (.ofNat r.concurrent), some (.ofNat r.burst)] :=
    Json.fields?_of_isRecord h (by decide : fieldNames.Nodup) false
  rw [fieldNames] at hfields
  rw [ofJson?, hfields]
  simp [Json.required, Json.word?_ofNat hr.requestsPerMinute, Json.word?_ofNat hr.concurrent,
    Json.word?_ofNat hr.burst]

theorem exists_written_table (rates : Rates) :
    ∃ j, IsTable Written rates j ∧ j.Writable := by
  refine ⟨.ofMembers (rates.entries.map fun e => (e.1, .ofMembers e.2.fields)), ?_, ?_⟩
  · refine .intro (.refl _) ?_
    rw [List.forall₂_map_right_iff, List.forall₂_same]
    intro e _
    exact ⟨rfl, .of_written _ _⟩
  · apply Json.writable_ofMembers
    intro m hm
    obtain ⟨e, -, rfl⟩ := List.mem_map.mp hm
    apply Json.writable_ofMembers
    simp [fields, Json.writable_ofNat]

end Rate

/-! ## The section on logging -/

namespace LogConfig

/-- The names of the fields of the section. -/
def fieldNames : List String := ["level", "json", "file"]

/-- The fields of the section with their values. -/
def fields (l : LogConfig) : List (String × Json) :=
  [("level", .ofText l.level), ("json", .bool l.json), ("file", .bool l.file)]

/-- How some of the fields are written. -/
def Written (chosen : List String) (l : LogConfig) (j : Json) : Prop :=
  IsRecord fieldNames (l.fields.filter fun m => m.1 ∈ chosen) j

/-- Some of the fields, and the defaults elsewhere. -/
def keep (chosen : List String) (l : LogConfig) : LogConfig where
  level := if "level" ∈ chosen then l.level else ({} : LogConfig).level
  json := if "json" ∈ chosen then l.json else ({} : LogConfig).json
  file := if "file" ∈ chosen then l.file else ({} : LogConfig).file

variable {chosen : List String} {l : LogConfig} {j : Json}

theorem keep_of_subset (h : fieldNames ⊆ chosen) : l.keep chosen = l := by
  have hall (name : String) (hname : name ∈ fieldNames) : name ∈ chosen := h hname
  simp [fieldNames] at hall
  simp [keep, hall]

theorem ofJson?_of_written (h : l.Written chosen j) : ofJson? j = some (l.keep chosen) := by
  have hfields : j.fields? true fieldNames =
      some [if "level" ∈ chosen then some (.ofText l.level) else none,
        if "json" ∈ chosen then some (.bool l.json) else none,
        if "file" ∈ chosen then some (.bool l.file) else none] :=
    Json.fields?_of_isRecord_filter h (by decide : fieldNames.Nodup) true
  rw [fieldNames] at hfields
  rw [ofJson?, hfields]
  simp only [Json.withDefault_ite (Json.text?_ofText l.level),
    Json.withDefault_ite (Json.bool?_bool _)]
  rfl

theorem exists_written (l : LogConfig) (chosen : List String) :
    ∃ j, l.Written chosen j ∧ j.Writable := by
  refine ⟨_, .of_written _ _, Json.writable_ofMembers ?_⟩
  intro m hm
  have hfield := (List.mem_filter.mp hm).1
  simp only [fields, List.mem_cons, List.not_mem_nil, or_false] at hfield
  rcases hfield with rfl | rfl | rfl
  · exact Json.writable_ofText _
  · exact Json.writable_bool _
  · exact Json.writable_bool _

end LogConfig

/-! ## The whole configuration -/

namespace Config

/-- The fields of a configuration with their values, given how its sections are written. -/
def fields (c : Config) (limits log : Json) : List (String × Json) :=
  [("includePrereleases", .bool c.includePrereleases),
    ("globalConcurrency", .ofNat c.globalConcurrency), ("collectAllTags", .bool c.collectAllTags),
    ("requestTimeoutMs", .ofNat c.requestTimeoutMs), ("maxTagPages", .ofNat c.maxTagPages),
    ("rateLimits", limits), ("log", log)]

/-- The numbers of a configuration fit into 64 bits, and no name is limited twice. -/
structure Fits (c : Config) : Prop where
  globalConcurrency : c.globalConcurrency < Text.wordBound
  requestTimeoutMs : c.requestTimeoutMs < Text.wordBound
  maxTagPages : c.maxTagPages < Text.wordBound
  distinct : c.rateLimits.keys.Nodup
  rates : ∀ e ∈ c.rateLimits.entries, e.2.Fits

/-- How some of the fields are written, and some of those of the section on logging. -/
def Written (chosen logChosen : List String) (c : Config) (j : Json) : Prop :=
  ∃ limits log, IsTable Rate.Written c.rateLimits limits ∧ c.log.Written logChosen log ∧
    IsRecord fieldNames ((c.fields limits log).filter fun m => m.1 ∈ chosen) j

/-- A text that writes some of the fields, and some of those of the section on logging. -/
def Spells (chosen logChosen : List String) (c : Config) (text : String) : Prop :=
  ∃ j, c.Written chosen logChosen j ∧ Json.Spells text j

/-- Some of the fields, and the defaults elsewhere. -/
def keep (chosen logChosen : List String) (c : Config) : Config where
  includePrereleases :=
    if "includePrereleases" ∈ chosen then c.includePrereleases else ({} : Config).includePrereleases
  globalConcurrency :=
    if "globalConcurrency" ∈ chosen then c.globalConcurrency else ({} : Config).globalConcurrency
  collectAllTags :=
    if "collectAllTags" ∈ chosen then c.collectAllTags else ({} : Config).collectAllTags
  requestTimeoutMs :=
    if "requestTimeoutMs" ∈ chosen then c.requestTimeoutMs else ({} : Config).requestTimeoutMs
  maxTagPages := if "maxTagPages" ∈ chosen then c.maxTagPages else ({} : Config).maxTagPages
  rateLimits := if "rateLimits" ∈ chosen then c.rateLimits else ({} : Config).rateLimits
  log := if "log" ∈ chosen then c.log.keep logChosen else ({} : Config).log

/-- Two configurations that say the same: the order of their rate limits does not matter. -/
structure Same (c c' : Config) : Prop where
  rateLimits : ∀ name, c.rateLimits.get? name = c'.rateLimits.get? name
  others : { c with rateLimits := .empty } = { c' with rateLimits := .empty }

variable {c : Config} {chosen logChosen : List String} {j : Json} {text : String}

theorem keep_of_subset (h : fieldNames ⊆ chosen) (hlog : LogConfig.fieldNames ⊆ logChosen) :
    c.keep chosen logChosen = c := by
  have hall (name : String) (hname : name ∈ fieldNames) : name ∈ chosen := h hname
  simp [fieldNames] at hall
  simp [keep, hall, LogConfig.keep_of_subset hlog]

theorem ofJson?_of_written (hc : c.Fits) (h : c.Written chosen logChosen j) :
    ∃ loaded, ofJson? j = some loaded ∧ loaded.Same (c.keep chosen logChosen) := by
  obtain ⟨limits, log, hlimits, hlog, hj⟩ := h
  obtain ⟨entries, hentries, horder⟩ := Json.table?_of_isTable hlimits hc.distinct
    fun e he v hv => Rate.ofJson?_of_written (hc.rates e he) hv
  have hsame (name : String) :
      (⟨entries⟩ : Rates).get? name = c.rateLimits.get? name :=
    Table.find_perm horder ((horder.map Prod.fst).nodup_iff.mpr hc.distinct) name
  have hfields : j.fields? true fieldNames = some
      [if "includePrereleases" ∈ chosen then some (.bool c.includePrereleases) else none,
        if "globalConcurrency" ∈ chosen then some (.ofNat c.globalConcurrency) else none,
        if "collectAllTags" ∈ chosen then some (.bool c.collectAllTags) else none,
        if "requestTimeoutMs" ∈ chosen then some (.ofNat c.requestTimeoutMs) else none,
        if "maxTagPages" ∈ chosen then some (.ofNat c.maxTagPages) else none,
        if "rateLimits" ∈ chosen then some limits else none,
        if "log" ∈ chosen then some log else none] :=
    Json.fields?_of_isRecord_filter hj (by decide : fieldNames.Nodup) true
  refine ⟨{ c with rateLimits := ⟨entries⟩ : Config }.keep chosen logChosen, ?_, ?_, rfl⟩
  · rw [ofJson?, hfields]
    simp only [Json.withDefault_ite (Json.bool?_bool _),
      Json.withDefault_ite (Json.word?_ofNat hc.globalConcurrency),
      Json.withDefault_ite (Json.word?_ofNat hc.requestTimeoutMs),
      Json.withDefault_ite (Json.word?_ofNat hc.maxTagPages), Json.withDefault_ite hentries,
      Json.withDefault_ite (LogConfig.ofJson?_of_written hlog)]
    rfl
  · intro name
    by_cases hchosen : "rateLimits" ∈ chosen
    · simp [keep, hchosen, hsame name]
    · simp [keep, hchosen]

/-! ## Every choice of fields can be written -/

theorem exists_written (c : Config) (chosen logChosen : List String) :
    ∃ j, c.Written chosen logChosen j ∧ j.Writable := by
  obtain ⟨limits, hlimits, hlimitsText⟩ := Rate.exists_written_table c.rateLimits
  obtain ⟨log, hlog, hlogText⟩ := c.log.exists_written logChosen
  refine ⟨_, ⟨limits, log, hlimits, hlog, .of_written _ _⟩, Json.writable_ofMembers ?_⟩
  intro m hm
  have hfield := (List.mem_filter.mp hm).1
  simp only [fields, List.mem_cons, List.not_mem_nil, or_false] at hfield
  rcases hfield with rfl | rfl | rfl | rfl | rfl | rfl | rfl
  · exact Json.writable_bool _
  · exact Json.writable_ofNat _
  · exact Json.writable_bool _
  · exact Json.writable_ofNat _
  · exact Json.writable_ofNat _
  · exact hlimitsText
  · exact hlogText

/-- Every configuration, and any of its fields, can be written. -/
theorem exists_spells (c : Config) (chosen logChosen : List String) :
    ∃ text, c.Spells chosen logChosen text := by
  obtain ⟨j, hwritten, hj⟩ := exists_written c chosen logChosen
  obtain ⟨text, htext⟩ := hj.exists_spells
  exact ⟨text, j, hwritten, htext⟩

/-! ## Loading -/

theorem fromUTF8?_toUTF8 (text : String) : String.fromUTF8? text.toUTF8 = some text := by
  rw [String.fromUTF8?, String.toUTF8_eq_toByteArray, dif_pos text.isValidUTF8]
  rfl

theorem load_of_read? (h : read? text = some c) : load (.bytes text.toUTF8) = .ok c := by
  rw [load, fromUTF8?_toUTF8]
  simp only [h]

/-- A text with some of the fields is loaded to these fields and the defaults elsewhere. -/
theorem load_text (hc : c.Fits) (h : c.Spells chosen logChosen text) :
    ∃ loaded, load (.bytes text.toUTF8) = .ok loaded ∧ loaded.Same (c.keep chosen logChosen) := by
  obtain ⟨j, hwritten, htext⟩ := h
  obtain ⟨loaded, hloaded, hsame⟩ := ofJson?_of_written hc hwritten
  have hread : read? text = some loaded := by
    rw [read?, Json.read?_eq_some_iff.mpr htext]
    exact hloaded
  exact ⟨loaded, load_of_read? hread, hsame⟩

/-- **Configurations can be written in part.** A file with some of the fields of a configuration
is loaded to the configuration with these fields and the defaults elsewhere, and a file with all of
them to the configuration itself. -/
theorem load_of_spells (hc : c.Fits) (h : c.Spells chosen logChosen text) :
    ∃ loaded, load (.bytes text.toUTF8) = .ok loaded ∧ loaded.Same (c.keep chosen logChosen) ∧
      (fieldNames ⊆ chosen → LogConfig.fieldNames ⊆ logChosen → loaded.Same c) := by
  obtain ⟨loaded, hloaded, hsame⟩ := load_text hc h
  refine ⟨loaded, hloaded, hsame, ?_⟩
  intro hall hlog
  rwa [keep_of_subset hall hlog] at hsame

/-- A configuration without defaults. -/
def custom : Config where
  includePrereleases := true
  globalConcurrency := 4
  collectAllTags := true
  requestTimeoutMs := 5000
  maxTagPages := 40
  rateLimits := ⟨[("ghcr", ⟨10, 2, 3⟩)]⟩
  log := ⟨"debug", true, true⟩

/-- Two fields of `custom`, one of them with one field of the section on logging, and members that
are no fields. -/
def customText : String :=
  "\x7b\t\"level\" : -0.50,\n \"log\": \x7b\"colour\": [1e9, null, \"\\ud800\"], " ++
    "\"level\": \"d\\u0065bug\"\x7d, \"rateLimits\":\x7b\"ghcr\":\x7b\"burstLimit\":3," ++
      "\"concurrentLimit\":2,\"requestsPerMinute\":10\x7d\x7d \x7d"

theorem custom_fits : custom.Fits where
  globalConcurrency := by decide
  requestTimeoutMs := by decide
  maxTagPages := by decide
  distinct := by decide
  rates := by
    intro e he
    obtain rfl := List.mem_singleton.mp he
    exact ⟨by decide, by decide, by decide⟩

theorem custom_spells : custom.Spells ["rateLimits", "log"] ["level"] customText := by
  let rate : Json := .ofMembers
    [("burstLimit", .ofNat 3), ("concurrentLimit", .ofNat 2), ("requestsPerMinute", .ofNat 10)]
  let colour : String × Json := ("colour", .array [.number "1e9", .null, .string none])
  let depth : String × Json := ("level", .number "-0.50")
  have hrate : Rate.Written ⟨10, 2, 3⟩ rate :=
    @IsRecord.intro _ _ _ [] (by simp) (List.reverse_perm (Rate.fields ⟨10, 2, 3⟩))
  have hlimits : IsTable Rate.Written custom.rateLimits (.ofMembers [("ghcr", rate)]) :=
    @IsTable.intro _ _ _ [("ghcr", ⟨10, 2, 3⟩)] _ (.refl _) (.cons ⟨rfl, hrate⟩ .nil)
  have hlog : custom.log.Written ["level"] (.ofMembers [colour, ("level", .ofText "debug")]) :=
    @IsRecord.intro _ _ _ [colour] (by simp [colour, LogConfig.fieldNames]) (.swap _ _ _)
  refine ⟨_, ⟨_, _, hlimits, hlog, @IsRecord.intro _ _ _ [depth] (by simp [depth, fieldNames])
    (List.reverse_perm _)⟩, ?_⟩
  apply Json.Token.spellsTokens_of_scan
  decide +kernel

/-- A file with two of seven fields, and with one of three in the section on logging. -/
theorem load_of_spells_custom : custom.Fits ∧
    custom.Spells ["rateLimits", "log"] ["level"] customText ∧
      ∃ loaded, load (.bytes customText.toUTF8) = .ok loaded ∧
        loaded.Same (custom.keep ["rateLimits", "log"] ["level"]) := by
  obtain ⟨loaded, hloaded, hsame, -⟩ := load_of_spells custom_fits custom_spells
  exact ⟨custom_fits, custom_spells, loaded, hloaded, hsame⟩

end Config

end TagWatch
