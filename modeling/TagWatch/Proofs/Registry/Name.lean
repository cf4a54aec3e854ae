import Mathlib.Data.List.DropRight
import TagWatch.Registry.Name

/-!
# Canonical names are canonical

**Theorem (`Registry.canonical_canonical`).** The canonical name of a registry without a slash is
its own canonical name.

A canonical name is a short name, which stands for itself, or a host in small letters. A host
without a slash has no scheme to drop and no slashes at its end, and its blanks are gone already.
With slashes this fails: `https://https://h` becomes `https://h`, which becomes `h`.
-/

namespace TagWatch

namespace Text

variable {p : Char → Bool} {s : List Char} {c : Char}

/-! ## Small letters and blanks -/

theorem toNat_toLower (c : Char) :
    c.toLower.toNat = if 65 ≤ c.toNat ∧ c.toNat ≤ 90 then c.toNat + 32 else c.toNat := by
  unfold Char.toLower
  split
  · next h =>
    have h' : 65 ≤ c.toNat ∧ c.toNat ≤ 90 := h
    rw [if_pos h']
    show (c.val + 32).toNat = c.val.toNat + 32
    rw [UInt32.toNat_add]
    have hlt : c.val.toNat ≤ 90 := h'.2
    show (c.val.toNat + 32) % 2 ^ 32 = _
    omega
  · next h =>
    have h' : ¬ (65 ≤ c.toNat ∧ c.toNat ≤ 90) := h
    rw [if_neg h']

theorem isBlank_toLower (c : Char) : isBlank c.toLower = isBlank c := by
  rw [Bool.eq_iff_iff]
  simp only [isBlank, toNat_toLower, Bool.or_eq_true, Bool.and_eq_true, decide_eq_true_eq,
    beq_iff_eq]
  split <;> omega

theorem toLower_toLower (c : Char) : c.toLower.toLower = c.toLower := by
  have h : c.toLower.toLower.toNat = c.toLower.toNat := by
    rw [toNat_toLower c.toLower, toNat_toLower c]
    by_cases hc : 65 ≤ c.toNat ∧ c.toNat ≤ 90
    · rw [if_pos hc, if_neg (by omega)]
    · rw [if_neg hc, if_neg hc]
  exact Char.toNat_inj.mp h

theorem lower_lower (s : List Char) : lower (lower s) = lower s := by
  rw [lower, lower, List.map_map]
  exact List.map_congr_left fun c _ => toLower_toLower c

/-- A character before the letters is in a text exactly if it is there in small letters. -/
theorem mem_lower_iff (hc : c.toNat < 65) : c ∈ lower s ↔ c ∈ s := by
  constructor
  · intro hmem
    obtain ⟨d, hd, hlow⟩ := List.mem_map.mp hmem
    have hnat := toNat_toLower d
    rw [hlow] at hnat
    have heq : d.toNat = c.toNat := by split at hnat <;> omega
    exact Char.toNat_inj.mp heq ▸ hd
  · intro hmem
    have hlow : c.toLower = c := by
      refine Char.toNat_inj.mp ((toNat_toLower c).trans (if_neg ?_))
      omega
    exact hlow ▸ List.mem_map_of_mem hmem

theorem slash_not_mem_lower (h : '/' ∉ s) : '/' ∉ lower s := mt (mem_lower_iff (by decide)).mp h

/-! ## Trimming -/

theorem dropWhile_lower (s : List Char) :
    (lower s).dropWhile isBlank = lower (s.dropWhile isBlank) := by
  rw [lower, List.dropWhile_map]
  exact congrArg (List.map Char.toLower) (congrArg (List.dropWhile · s) (funext isBlank_toLower))

theorem dropEndWhile_lower (s : List Char) :
    dropEndWhile isBlank (lower s) = lower (dropEndWhile isBlank s) := by
  rw [dropEndWhile, dropEndWhile, lower, ← List.map_reverse, ← lower, dropWhile_lower, lower, lower,
    List.map_reverse]

theorem trim_lower (s : List Char) : trim (lower s) = lower (trim s) := by
  rw [trim, trim, trimWhile, trimWhile, dropWhile_lower, dropEndWhile_lower]

theorem dropEndWhile_isPrefix : dropEndWhile p s <+: s := List.rdropWhile_prefix p s

/-- A text that begins with no character to drop still does so when its end is cut. -/
theorem dropWhile_dropEndWhile (h : s.dropWhile p = s) :
    (dropEndWhile p s).dropWhile p = dropEndWhile p s := by
  rw [List.dropWhile_eq_self_iff] at *
  intro hpos
  obtain ⟨rest, hrest⟩ := @dropEndWhile_isPrefix p s
  have hlen := congrArg List.length hrest
  rw [List.length_append] at hlen
  have hs := h (by omega)
  have hget : (dropEndWhile p s)[0]? = s[0]? := by
    conv => rhs; rw [← hrest]
    exact (List.getElem?_append_left hpos).symm
  rw [List.getElem?_eq_getElem hpos, List.getElem?_eq_getElem (by omega)] at hget
  rwa [Option.some.inj hget]

theorem trim_trim (s : List Char) : trim (trim s) = trim s := by
  have hdrop : (trim s).dropWhile isBlank = trim s :=
    dropWhile_dropEndWhile (List.dropWhile_idempotent isBlank s)
  show dropEndWhile isBlank ((trim s).dropWhile isBlank) = trim s
  rw [hdrop]
  exact List.rdropWhile_idempotent isBlank _

/-- A text has no blanks at its ends if its first and its last character are none. -/
theorem trim_eq_self_iff : trim s = s ↔
    (∀ c, s.head? = some c → isBlank c = false) ∧
      ∀ c, s.getLast? = some c → isBlank c = false := by
  have hfront : s.dropWhile isBlank = s ↔ ∀ c, s.head? = some c → isBlank c = false := by
    cases s with
    | nil => simp
    | cons c s => simp [List.dropWhile_eq_self_iff]
  have hback : dropEndWhile isBlank s = s ↔ ∀ c, s.getLast? = some c → isBlank c = false := by
    rw [show dropEndWhile isBlank s = s.rdropWhile isBlank from rfl, List.rdropWhile_eq_self_iff]
    cases hlast : s.getLast? with
    | none => simp [List.getLast?_eq_none_iff.mp hlast]
    | some c =>
      obtain ⟨before, rfl⟩ := List.getLast?_eq_some_iff.mp hlast
      simp
  rw [← hfront, ← hback]
  constructor
  · intro h
    -- each of the two steps could only make the text shorter
    have hend : (trim s).Sublist (s.dropWhile isBlank) := dropEndWhile_isPrefix.sublist
    rw [h] at hend
    have hs : s.dropWhile isBlank = s := (List.dropWhile_sublist _).antisymm hend
    refine ⟨hs, ?_⟩
    rwa [trim, trimWhile, hs] at h
  · rintro ⟨hs, hend⟩
    rw [trim, trimWhile, hs, hend]

theorem trim_eq_self (h : ∀ c ∈ s, isBlank c = false) : trim s = s :=
  trim_eq_self_iff.mpr ⟨fun c hc => h c (List.mem_of_mem_head? hc),
    fun c hc => h c (List.mem_of_getLast? hc)⟩

theorem mem_of_mem_trim (h : c ∈ trim s) : c ∈ s :=
  (List.dropWhile_sublist _).subset (dropEndWhile_isPrefix.subset h)

end Text

/-! ## Canonical names -/

namespace Registry

open Text

theorem dropEndWhile_slash {s : List Char} (h : '/' ∉ s) : dropEndWhile (· = '/') s = s := by
  rw [dropEndWhile, List.dropWhile_eq_self_iff.mpr, List.reverse_reverse]
  intro hpos hslash
  have hmem : s.reverse[0] ∈ s := List.mem_reverse.mp (List.getElem_mem hpos)
  rw [of_decide_eq_true hslash] at hmem
  exact h hmem

/-- Without a slash there is no scheme to drop. -/
theorem dropScheme_of_not_mem {s : List Char} (h : '/' ∉ s) : dropScheme s = s := by
  have hstrip {start : List Char} (hs : '/' ∈ start) : strip? start s = none := by
    cases hr : strip? start s with
    | none => rfl
    | some rest =>
      rw [strip?_eq_some_iff] at hr
      exact absurd (hr ▸ List.mem_append_left _ hs) h
  rw [dropScheme, hstrip (by decide), hstrip (by decide)]
  rfl

theorem host_of_not_mem {name : String} (h : '/' ∉ name.toList) :
    host name = lower (trim name.toList) := by
  have htrim : '/' ∉ trim name.toList := fun hm => h (mem_of_mem_trim hm)
  rw [host, dropEndWhile_slash htrim, dropScheme_of_not_mem (slash_not_mem_lower htrim)]

/-- A host without a slash that stands for itself is its own host. -/
theorem host_ofList {s : List Char} (h : '/' ∉ s) :
    host (String.ofList (lower (trim s))) = lower (trim s) := by
  have hslash : '/' ∉ (String.ofList (lower (trim s))).toList := by
    rw [String.toList_ofList]
    exact slash_not_mem_lower fun hm => h (mem_of_mem_trim hm)
  rw [host_of_not_mem hslash, String.toList_ofList, trim_lower, trim_trim, lower_lower]

/-- The short names stand for themselves. -/
theorem canonical_alias {host name : String} (h : Table.find host aliases = some name) :
    canonical name = name := by
  have hall : ∀ e ∈ aliases, canonical e.2 = e.2 := by decide +kernel
  exact hall (host, name) (Table.mem_of_find_eq_some h)

/-- **Canonical names are canonical.** -/
theorem canonical_canonical {name : String} (h : '/' ∉ name.toList) :
    canonical (canonical name) = canonical name := by
  have hname : canonical name = ofHost (lower (trim name.toList)) := by
    rw [canonical, host_of_not_mem h]
  rw [hname, ofHost]
  split
  · next short hfind => exact canonical_alias hfind
  · next hnone =>
    split
    · decide +kernel
    · next hgcr => rw [canonical, host_ofList h, ofHost, hnone, if_neg hgcr]

end Registry

end TagWatch
