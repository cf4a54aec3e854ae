import TagWatch.Proofs.Version.Selection

/-!
# Choosing from a part of a list

`lastMax` picks the element with nothing larger before it and only smaller ones after it
(`lastMax_eq_some_iff`). Leaving out other elements does not change that, so the choice of a tag
from a part of a list is the choice from the whole list as soon as the part has the chosen tag
(`latestInScope_filter`).
-/

namespace TagWatch

open Std

/-- An element of a list with no larger ones before it and only smaller ones after it. -/
def IsLastMax {α : Type} (cmp : α → α → Ordering) (l : List α) (m : α) : Prop :=
  ∃ before after, l = before ++ m :: after ∧ (∀ x ∈ before, (cmp x m).isLE) ∧
    ∀ x ∈ after, cmp m x = .gt

section LastMax

variable {α : Type} {cmp : α → α → Ordering}

theorem IsLastMax.filter {l : List α} {m : α} (h : IsLastMax cmp l m) {p : α → Bool}
    (hp : p m = true) : IsLastMax cmp (l.filter p) m := by
  obtain ⟨before, after, rfl, hbefore, hafter⟩ := h
  refine ⟨before.filter p, after.filter p, ?_, fun x hx => hbefore x (List.mem_filter.mp hx).1,
    fun x hx => hafter x (List.mem_filter.mp hx).1⟩
  rw [List.filter_append, List.filter_cons_of_pos hp]

/-- What comes after a last largest element is passed over. -/
theorem foldl_later_of_gt {m : α} {l : List α} (h : ∀ x ∈ l, cmp m x = .gt) :
    l.foldl (fun best b => if cmp best b == .gt then best else b) m = m := by
  induction l with
  | nil => rfl
  | cons b l ih =>
    have hb : (cmp m b == .gt) = true := beq_iff_eq.mpr (h b List.mem_cons_self)
    rw [List.foldl_cons, if_pos hb]
    exact ih fun x hx => h x (List.mem_cons_of_mem b hx)

theorem IsLastMax.lastMax_eq {l : List α} {m : α} (h : IsLastMax cmp l m) :
    lastMax cmp l = some m := by
  obtain ⟨before, after, rfl, hbefore, hafter⟩ := h
  cases before with
  | nil => exact congrArg some (foldl_later_of_gt hafter)
  | cons a before =>
    have hle : (cmp (before.foldl (fun best b => if cmp best b == .gt then best else b) a) m).isLE :=
      hbefore _ (foldl_later_mem a before)
    rw [List.cons_append, lastMax, List.foldl_append, List.foldl_cons, if_neg]
    · exact congrArg some (foldl_later_of_gt hafter)
    · exact fun hgt => Ordering.isLE_iff_ne_gt.mp hle (beq_iff_eq.mp hgt)

variable [TransCmp cmp]

theorem isLastMax_foldl_later (a : α) (l : List α) :
    IsLastMax cmp (a :: l)
      (l.foldl (fun best b => if cmp best b == .gt then best else b) a) := by
  induction l generalizing a with
  | nil => exact ⟨[], [], rfl, List.forall_mem_nil _, List.forall_mem_nil _⟩
  | cons b l ih =>
    rw [List.foldl_cons]
    have hle : (cmp (if cmp a b == .gt then a else b)
        (l.foldl (fun best b => if cmp best b == .gt then best else b)
          (if cmp a b == .gt then a else b))).isLE :=
      isLE_foldl_later _ l _ List.mem_cons_self
    obtain ⟨before, after, hsplit, hbefore, hafter⟩ := ih (if cmp a b == .gt then a else b)
    generalize List.foldl _ _ l = m at hsplit hbefore hafter hle ⊢
    by_cases hgt : cmp a b = .gt
    · -- `a` stays, and `b` goes wherever it is not in the way.
      rw [if_pos (beq_iff_eq.mpr hgt)] at hsplit hle
      cases before with
      | nil =>
        obtain ⟨rfl, rfl⟩ := List.cons.inj hsplit
        exact ⟨[], b :: l, rfl, List.forall_mem_nil _, List.forall_mem_cons.mpr ⟨hgt, hafter⟩⟩
      | cons c before =>
        obtain ⟨rfl, rfl⟩ := List.cons.inj hsplit
        obtain ⟨ha, hbefore⟩ := List.forall_mem_cons.mp hbefore
        have hb : (cmp b m).isLE :=
          TransCmp.isLE_trans (Ordering.isLE_of_eq_lt (OrientedCmp.lt_of_gt hgt)) hle
        exact ⟨a :: b :: before, after, rfl,
          List.forall_mem_cons.mpr ⟨ha, List.forall_mem_cons.mpr ⟨hb, hbefore⟩⟩, hafter⟩
    · rw [if_neg fun h => hgt (beq_iff_eq.mp h)] at hsplit hle
      have ha : (cmp a m).isLE := TransCmp.isLE_trans (Ordering.isLE_iff_ne_gt.mpr hgt) hle
      exact ⟨a :: before, after, by rw [hsplit, List.cons_append],
        List.forall_mem_cons.mpr ⟨ha, hbefore⟩, hafter⟩

/-- The element that `lastMax` picks. -/
theorem lastMax_eq_some_iff {l : List α} {m : α} :
    lastMax cmp l = some m ↔ IsLastMax cmp l m := by
  refine ⟨fun h => ?_, IsLastMax.lastMax_eq⟩
  cases l with
  | nil => cases h
  | cons a l =>
    obtain rfl := Option.some.inj h
    exact isLastMax_foldl_later a l

end LastMax

/-! ## Tags -/

theorem candidates_filter (current : Version) (scope : Level) (prereleases : Bool)
    (tags : List String) (p : String → Bool) :
    candidates current scope prereleases (tags.filter p) =
      (candidates current scope prereleases tags).filter fun t => p t.tag := by
  have hholding : (tags.filter p).filterMap VersionedTag.ofTag? =
      (tags.filterMap VersionedTag.ofTag?).filter fun t => p t.tag := by
    rw [List.filterMap_filter, List.filter_filterMap]
    refine congrArg (List.filterMap · tags) (funext fun tag => ?_)
    rw [VersionedTag.ofTag?]
    cases Version.ofTag? tag with
    | none => exact ite_self none
    | some v => cases hp : p tag <;> simp [hp, Option.filter]
  rw [candidates, candidates, hholding, List.filter_filter, List.filter_filter]
  exact List.filter_congr fun t _ => Bool.and_comm _ _

/-- **A part of a list that has the tag chosen from the whole list leads to the same choice.** -/
theorem latestInScope_filter {currentTag : String} {tags : List String} {scope : Level}
    {prereleases : Bool} {p : String → Bool}
    (hp : ∀ chosen, latestInScope currentTag tags scope prereleases = some chosen → p chosen = true) :
    latestInScope currentTag (tags.filter p) scope prereleases =
      latestInScope currentTag tags scope prereleases := by
  cases hc : Version.ofTag? currentTag with
  | none => rw [latestInScope, latestInScope, hc, Option.bind_none, Option.bind_none]
  | some current =>
    have : TransCmp fun a b : VersionedTag => current.prefer a.version b.version :=
      transCmp_comap current.prefer VersionedTag.version
    rw [latestInScope, hc, Option.bind_some] at hp
    rw [latestInScope, latestInScope, hc, Option.bind_some, Option.bind_some, candidates_filter]
    cases hbest : lastMax (fun a b => current.prefer a.version b.version)
        (candidates current scope prereleases tags) with
    | none => rw [lastMax_eq_none_iff.mp hbest]; rfl
    | some m =>
      have hm : p m.tag = true := hp m.tag (by rw [hbest]; rfl)
      rw [((lastMax_eq_some_iff.mp hbest).filter hm).lastMax_eq]

end TagWatch
