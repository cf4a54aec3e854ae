import Mathlib.Data.List.Forall2
import TagWatch.Json.Record
import TagWatch.Proofs.Text.Dotted

/-!
# How records are written

A record is written as an object that has its fields among its members, in any order. Between them
there may be members of other names (`IsRecord`), which say nothing, and all fields are found where
they are (`fields?_of_isRecord`). A table is written as an object as well, whose members are exactly
its entries (`IsTable`), and is read to the same entries in the order of the object
(`table?_of_isTable`).
-/

namespace TagWatch.Json

open Text (mapM_eq_some_iff)

variable {α : Type} {known : List String} {written : List (String × Json)} {j : Json}

/-- An object with the given members and with others that have none of the known names, in any
order. -/
inductive IsRecord (known : List String) (written : List (String × Json)) : Json → Prop
  | intro {members extra : List (String × Json)} (hextra : ∀ m ∈ extra, m.1 ∉ known)
    (horder : members.Perm (written ++ extra)) : IsRecord known written (.ofMembers members)

/-- An object whose members are the entries of a table in any order, given how values are
written. -/
inductive IsTable (writes : α → Json → Prop) (t : Table String α) : Json → Prop
  | intro {entries : List (String × α)} {members : List (String × Json)}
    (horder : entries.Perm t.entries)
    (hvalues : List.Forall₂ (fun e m => m.1 = e.1 ∧ writes e.2 m.2) entries members) :
    IsTable writes t (.ofMembers members)

/-! ## Records -/

/-- Nothing but the fields, in their order. -/
theorem IsRecord.of_written (known : List String) (written : List (String × Json)) :
    IsRecord known written (.ofMembers written) :=
  @IsRecord.intro known written written [] (fun _ hm => absurd hm List.not_mem_nil)
    (.of_eq (List.append_nil written).symm)

theorem names?_ofMembers (members : List (String × Json)) :
    names? (members.map fun m => (some m.1, m.2)) = some (members.map Prod.fst) := by
  induction members with
  | nil => rfl
  | cons m members ih =>
    rw [names?] at ih ⊢
    rw [List.map_cons, List.mapM_cons, ih]
    rfl

theorem valuesOf_ofMembers (name : String) (members : List (String × Json)) :
    valuesOf name (members.map fun m => (some m.1, m.2)) =
      members.filterMap fun m => if m.1 = name then some m.2 else none := by
  simp [valuesOf, List.filterMap_map]

/-- Distinct names have at most one value each. -/
theorem filterMap_eq_find (hn : (written.map Prod.fst).Nodup) (name : String) :
    (written.filterMap fun m => if m.1 = name then some m.2 else none) =
      (Table.find name written).toList := by
  induction written with
  | nil => rfl
  | cons m written ih =>
    rw [List.map_cons, List.nodup_cons] at hn
    by_cases hm : m.1 = name
    · subst hm
      have hnone : Table.find m.1 written = none := by
        rw [Option.eq_none_iff_forall_ne_some]
        intro v hv
        exact hn.1 (List.mem_map.mpr ⟨_, Table.mem_of_find_eq_some hv, rfl⟩)
      rw [List.filterMap_cons, ih hn.2, hnone]
      simp [Table.find]
    · rw [List.filterMap_cons, ih hn.2]
      simp [Table.find, hm]

theorem single?_of_perm {values : List Json} {v : Option Json} (h : values.Perm v.toList) :
    single? values = some v := by
  cases v with
  | none => rw [List.perm_nil.mp h]; rfl
  | some v => rw [List.perm_singleton.mp h]; rfl

/-- The fields of a record are found in it, in any order and between any other members. -/
theorem fields?_of_isRecord (h : IsRecord known written j) (hn : (written.map Prod.fst).Nodup)
    (relaxed : Bool) :
    j.fields? relaxed known = some (known.map fun name => Table.find name written) := by
  obtain ⟨hextra, horder⟩ := h
  rename_i members extra
  have hfield (name : String) (hname : name ∈ known) :
      single? (valuesOf name (members.map fun m => (some m.1, m.2))) =
        some (Table.find name written) := by
    have hnone : (extra.filterMap fun m => if m.1 = name then some m.2 else none) = [] := by
      rw [List.filterMap_eq_nil_iff]
      intro m hm
      exact if_neg fun heq : m.1 = name => hextra m hm (heq ▸ hname)
    apply single?_of_perm
    rw [valuesOf_ofMembers, ← filterMap_eq_find hn]
    have hperm := horder.filterMap fun m => if m.1 = name then some m.2 else none
    rwa [List.filterMap_append, hnone, List.append_nil] at hperm
  rw [ofMembers, fields?, names?_ofMembers]
  show known.mapM _ = _
  rw [mapM_eq_some_iff, List.forall₂_map_right_iff, List.forall₂_same]
  exact hfield

/-- Where only some of the fields are written, the others are missing. -/
theorem fields?_of_isRecord_filter {chosen : List String}
    (h : IsRecord known (written.filter fun m => m.1 ∈ chosen) j)
    (hn : (written.map Prod.fst).Nodup) (relaxed : Bool) :
    j.fields? relaxed known =
      some (known.map fun name => if name ∈ chosen then Table.find name written else none) := by
  have hdistinct : ((written.filter fun m => m.1 ∈ chosen).map Prod.fst).Nodup :=
    hn.sublist (List.filter_sublist.map Prod.fst)
  rw [fields?_of_isRecord h hdistinct]
  simp only [Table.find_filter (fun name => decide (name ∈ chosen)), decide_eq_true_eq]

/-! ## Fields -/

@[simp] theorem bool?_bool (b : Bool) : bool? (.bool b) = some b := rfl

@[simp] theorem text?_ofText (s : String) : text? (.ofText s) = some s := rfl

theorem word?_ofNat {n : Nat} (h : n < Text.wordBound) : word? (.ofNat n) = some n := by
  show Text.word? (toString n).toList = some n
  rw [Nat.toString_eq_repr, Nat.toList_repr, Text.word?_eq_some_iff, Text.digitsValue_toDigits]
  refine ⟨Nat.toDigits_ne_nil, fun c hc => ?_, h, rfl⟩
  exact Nat.isDigit_of_mem_toDigits (by decide) (by decide) hc

/-- A field that may be left out has its own value where it is written. -/
theorem withDefault_ite {read : Json → Option α} {v : Json} {a : α} (h : read v = some a)
    (default : α) (p : Prop) [Decidable p] :
    withDefault default read (if p then some v else none) = some (if p then a else default) := by
  by_cases hp : p
  · rw [if_pos hp, if_pos hp, withDefault, h]
  · rw [if_neg hp, if_neg hp, withDefault]

/-! ## Tables -/

/-- A table is read to its entries, in the order in which they are written. -/
theorem table?_of_isTable {writes : α → Json → Prop} {t : Table String α} {read : Json → Option α}
    (h : IsTable writes t j) (hn : t.keys.Nodup)
    (hread : ∀ e ∈ t.entries, ∀ v, writes e.2 v → read v = some e.2) :
    ∃ entries, table? read j = some ⟨entries⟩ ∧ entries.Perm t.entries := by
  obtain ⟨horder, hvalues⟩ := h
  rename_i entries members
  refine ⟨entries, ?_, horder⟩
  have hpairs : (members.map fun m => (some m.1, m.2)).mapM (pair? read) = some entries := by
    rw [mapM_eq_some_iff, List.forall₂_map_left_iff]
    have hmem (e : String × α) (he : e ∈ entries) := hread e (horder.mem_iff.mp he)
    clear horder
    induction hvalues with
    | nil => exact .nil
    | @cons e m entries members hfirst _ ih =>
      refine .cons ?_ (ih fun e he => hmem e (List.mem_cons_of_mem _ he))
      simp [pair?, hfirst.1, hmem e List.mem_cons_self _ hfirst.2]
  have hdistinct : (entries.map Prod.fst).Nodup := (horder.map Prod.fst).nodup_iff.mpr hn
  rw [ofMembers, table?, hpairs, Option.map_some, Table.ofList_of_nodup hdistinct]

end TagWatch.Json
