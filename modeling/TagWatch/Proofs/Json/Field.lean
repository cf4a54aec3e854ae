import Mathlib.Data.List.Forall2
import TagWatch.Proofs.Json.Record

/-!
# What records say

A record says something in each of its fields, or nothing where the field is missing (`HasFields`).
An object says it in members of these names, none of which comes twice, and an array in its
elements, one for each field. Nothing else is a record, and this is how records are read
(`fields?_eq_some_iff`).

What a field says is stated in the same way for each kind of field, beside an iff on how it is read:
a text (`IsText`), a list (`IsList`), and something that may be missing or null (`IsOptional`).
-/

namespace TagWatch.Json

open Text (mapM_eq_some_iff)

variable {α : Type} {j : Json}

/-! ## Records -/

/-- What a record says in the fields of the given names. -/
inductive HasFields (known : List String) (values : List (Option Json)) : Json → Prop
  | object {members : List (String × Json)}
    (hvalues : List.Forall₂
      (fun name v => (members.filter (·.1 = name)).map Prod.snd = v.toList) known values) :
    HasFields known values (.ofMembers members)
  | array {elements : List Json} (hvalues : values = elements.map some)
    (hlength : elements.length = known.length) : HasFields known values (.array elements)

theorem single?_eq_some_iff {values : List Json} {v : Option Json} :
    single? values = some v ↔ values = v.toList := by
  constructor
  · intro h
    unfold single? at h
    split at h
    · obtain rfl := Option.some.inj h
      rfl
    · obtain rfl := Option.some.inj h
      rfl
    · cases h
  · rintro rfl
    cases v <;> rfl

theorem filterMap_eq_map_filter (name : String) (members : List (String × Json)) :
    (members.filterMap fun m => if m.1 = name then some m.2 else none) =
      (members.filter (·.1 = name)).map Prod.snd := by
  rw [← List.filterMap_eq_map, List.filterMap_filter]
  refine List.filterMap_congr fun m _ => ?_
  by_cases hm : m.1 = name <;> simp [hm]

/-- The names of an object are texts if and only if it is one of named members. -/
theorem exists_ofMembers_of_names? {members : List (Option String × Json)} {names : List String}
    (h : names? members = some names) :
    ∃ named : List (String × Json), members = named.map fun m => (some m.1, m.2) := by
  have hnames := mapM_eq_some_iff.mp h
  clear h
  induction hnames with
  | nil => exact ⟨[], rfl⟩
  | @cons m name members names hm _ ih =>
    obtain ⟨named, rfl⟩ := ih
    refine ⟨(name, m.2) :: named, ?_⟩
    rw [List.map_cons, ← hm]

/-- A record is read field by field. -/
theorem fields?_eq_some_iff {known : List String} {values : List (Option Json)} :
    j.fields? false known = some values ↔ HasFields known values j := by
  have hobject (members : List (String × Json)) :
      (ofMembers members).fields? false known = some values ↔
        List.Forall₂ (fun name v => (members.filter (·.1 = name)).map Prod.snd = v.toList)
          known values := by
    rw [ofMembers, fields?, names?_ofMembers]
    show known.mapM _ = _ ↔ _
    rw [mapM_eq_some_iff]
    simp only [single?_eq_some_iff, valuesOf_ofMembers, filterMap_eq_map_filter]
  constructor
  · intro h
    cases j with
    | object members =>
      obtain ⟨names, hnames, -⟩ := Option.bind_eq_some_iff.mp h
      obtain ⟨named, rfl⟩ := exists_ofMembers_of_names? hnames
      exact .object ((hobject named).mp h)
    | array elements =>
      rw [fields?] at h
      split at h
      · next hlength =>
        have hlength' : elements.length = known.length := by simpa using hlength
        refine .array ?_ hlength'
        simpa [hlength'] using (Option.some.inj h).symm
      · cases h
    | _ => cases h
  · intro h
    cases h with
    | object hvalues => exact (hobject _).mpr hvalues
    | array hvalues hlength => simp [fields?, hvalues, hlength]

/-! ## Fields -/

/-- A field that is a text. -/
def IsText (s : String) (v : Json) : Prop := v = .ofText s

/-- A field that is a list, given what its elements say. -/
inductive IsList (P : α → Json → Prop) (as : List α) : Json → Prop
  | intro {elements : List Json} (h : List.Forall₂ P as elements) : IsList P as (.array elements)

/-- A field that may be missing or null, given what it says otherwise. -/
inductive IsOptional (P : α → Json → Prop) : Option α → Option Json → Prop
  | missing : IsOptional P none none
  | null : IsOptional P none (some .null)
  | present {a : α} {v : Json} (h : P a v) : IsOptional P (some a) (some v)

theorem text?_eq_some_iff {s : String} : text? j = some s ↔ IsText s j := by
  constructor
  · intro h
    cases j with
    | string content =>
      obtain rfl : content = some s := h
      rfl
    | _ => cases h
  · rintro rfl
    rfl

section Reading

variable {read : Json → Option α} {P : α → Json → Prop} (hread : ∀ j a, read j = some a ↔ P a j)
include hread

theorem nullable_eq_some_iff (hnull : read .null = none) {a : Option α} {field : Option Json} :
    nullable read field = some a ↔ IsOptional P a field := by
  constructor
  · intro h
    unfold nullable at h
    split at h
    · obtain rfl := Option.some.inj h
      exact .missing
    · obtain rfl := Option.some.inj h
      exact .null
    · next v _ =>
      obtain ⟨a, ha, rfl⟩ := Option.map_eq_some_iff.mp h
      exact .present ((hread v a).mp ha)
  · intro h
    cases h with
    | missing => rfl
    | null => rfl
    | @present a v h =>
      have ha := (hread v a).mpr h
      unfold nullable
      split
      · next heq => cases heq
      · next heq =>
        obtain rfl := Option.some.inj heq
        rw [hnull] at ha
        cases ha
      · next heq =>
        obtain rfl := Option.some.inj heq
        rw [ha, Option.map_some]

end Reading

theorem nullable_text_eq_some_iff {field : Option Json} {s : Option String} :
    nullable text? field = some s ↔ IsOptional IsText s field :=
  nullable_eq_some_iff (fun _ _ => text?_eq_some_iff) rfl

end TagWatch.Json
