import TagWatch.Client.Endpoint
import TagWatch.Proofs.Http.Blank

/-!
# Addresses below another one

The address of a registry with a slash and more text after it is the address of something on the
same server.

**Theorem (`origin_below`).** Below an address that can be read, all addresses that can be read have
the same scheme, host and socket.

The slash ends the host, so that what comes after it does not matter (`authority_append_slash`). The
text before the slash is read like the address alone, but for blanks at its end, and these make the
longer address unreadable.
-/

namespace TagWatch.Http

open Text

namespace Url

/-- Whether a character may stand between the scheme and the server. -/
def isSlash (c : Char) : Bool := c = '/' || c = '\\'

/-- The text between the scheme and what ends the host. -/
def authority (rest : List Char) : List Char := (rest.dropWhile isSlash).takeWhile (!endsHost ·)

/-- The text of an address, up to some place, names a server. -/
def Serves (front : List Char) (origin : Bool × Host × Option Nat) : Prop :=
  ∃ scheme rest, splitScheme front = some (scheme, rest) ∧
    server? (scheme == "https".toList) (authority rest) = some origin

theorem serves_of_read {text : String} {u : Url} (h : read text = .ok u) :
    Serves (clean text.toList) u.origin := by
  rw [read] at h
  split at h
  · cases h
  · next scheme rest hscheme =>
    split at h
    · cases h
    · refine ⟨scheme, rest, hscheme, ?_⟩
      dsimp only at h
      split at h
      · next host socket hhost hsocket =>
        obtain rfl := Except.ok.inj h
        change Host.read? (splitSocket false (splitLogin (authority rest)).2).1 = _ at hhost
        change readSocket _ (splitSocket false (splitLogin (authority rest)).2).2 = _ at hsocket
        simp only [server?, hhost, hsocket]
        rfl
      · cases h

theorem server?_nil (secure : Bool) : server? secure [] = none := by
  cases secure <;> decide +kernel

/-! ## The scheme -/

section Scheme

variable {s w scheme rest : List Char}

theorem splitScheme_eq_some_iff : splitScheme s = some (scheme, rest) ↔ ∃ c cs,
    cut ':' s = some (c :: cs, rest) ∧ lower (c :: cs) = scheme ∧
      (c.isAlpha && cs.all fun d => d.isAlphanum || d = '+' || d = '-' || d = '.') = true := by
  rw [splitScheme]
  split
  · next c cs rest' hcut =>
    rw [hcut]
    simp only [Option.ite_none_right_eq_some, Option.some.injEq, Prod.mk.injEq, List.cons.injEq]
    constructor
    · rintro ⟨hall, rfl, rfl⟩
      exact ⟨c, cs, ⟨⟨rfl, rfl⟩, rfl⟩, rfl, hall⟩
    · rintro ⟨_, _, ⟨⟨rfl, rfl⟩, rfl⟩, rfl, hall⟩
      exact ⟨hall, rfl, rfl⟩
  · next hcut =>
    constructor
    · intro h
      cases h
    · rintro ⟨c, cs, h, -⟩
      exact absurd h (hcut c cs rest)

theorem splitScheme_append (h : splitScheme s = some (scheme, rest)) (w : List Char) :
    splitScheme (s ++ w) = some (scheme, rest ++ w) := by
  obtain ⟨c, cs, hcut, hscheme, hall⟩ := splitScheme_eq_some_iff.mp h
  refine splitScheme_eq_some_iff.mpr ⟨c, cs, ?_, hscheme, hall⟩
  obtain ⟨rfl, hcolon⟩ := cut_eq_some_iff.mp hcut
  exact cut_eq_some_iff.mpr ⟨by simp, hcolon⟩

/-- The scheme ends before the first slash. -/
theorem splitScheme_append_slash (h : splitScheme (s ++ '/' :: w) = some (scheme, rest)) :
    ∃ r, splitScheme s = some (scheme, r) ∧ rest = r ++ '/' :: w := by
  obtain ⟨c, cs, hcut, hscheme, hall⟩ := splitScheme_eq_some_iff.mp h
  obtain ⟨hs, hcolon⟩ := cut_eq_some_iff.mp hcut
  have hslash : '/' ∉ c :: cs := by
    rw [Bool.and_eq_true, List.all_eq_true] at hall
    rintro (_ | ⟨_, hmem⟩)
    · exact absurd hall.1 (by decide)
    · exact absurd (hall.2 '/' hmem) (by decide)
  rcases List.append_eq_append_iff.mp hs with ⟨r, hfront, hback⟩ | ⟨r, hfront, hback⟩
  · cases r with
    | nil => cases hback
    | cons d r =>
      obtain ⟨rfl, -⟩ := List.cons.inj hback
      exact absurd (hfront ▸ List.mem_append_right _ List.mem_cons_self) hslash
  · cases r with
    | nil => cases hback
    | cons d r =>
      obtain ⟨rfl, rfl⟩ := List.cons.inj hback
      refine ⟨r, splitScheme_eq_some_iff.mpr ⟨c, cs, ?_, hscheme, hall⟩, rfl⟩
      exact cut_eq_some_iff.mpr ⟨hfront, hcolon⟩

end Scheme

/-! ## The server -/

section Authority

variable {r w : List Char}

theorem dropWhile_append_of_ne_nil {p : Char → Bool} (h : r.dropWhile p ≠ []) (w : List Char) :
    (r ++ w).dropWhile p = r.dropWhile p ++ w := by
  rw [List.dropWhile_append, List.isEmpty_eq_false_iff.mpr h]
  rfl

/-- A slash ends the host. -/
theorem authority_append_slash (h : r.dropWhile isSlash ≠ []) (w : List Char) :
    authority (r ++ '/' :: w) = authority r := by
  rw [authority, dropWhile_append_of_ne_nil h, List.takeWhile_append]
  split
  · next hlen =>
    have hstop : ('/' :: w).takeWhile (!endsHost ·) = [] := rfl
    rw [hstop, List.append_nil, authority]
    exact ((List.takeWhile_prefix _).eq_of_length hlen).symm
  · rfl

/-- Blanks after the host belong to it. -/
theorem authority_append (h : r.dropWhile isSlash ≠ []) (hw : ∀ c ∈ w, IsSkipped c) :
    authority (r ++ w) = authority r ∨ authority (r ++ w) = authority r ++ w := by
  have hall : w.takeWhile (!endsHost ·) = w := by
    apply List.takeWhile_eq_self_iff.mpr
    intro c hc
    have hne (d : Char) (hd : 0x20 < d.toNat) : (c = d) = False := eq_false ((hw c hc).ne hd)
    simp [endsHost, hne]
  rw [authority, dropWhile_append_of_ne_nil h, List.takeWhile_append]
  split
  · next hlen =>
    right
    rw [hall, authority, (List.takeWhile_prefix _).eq_of_length hlen]
  · exact .inl rfl

theorem dropWhile_ne_nil_of_server? {secure : Bool} {origin : Bool × Host × Option Nat}
    (h : server? secure (authority r) = some origin) : r.dropWhile isSlash ≠ [] := by
  intro hnil
  rw [authority, hnil, List.takeWhile_nil, server?_nil] at h
  cases h

end Authority

theorem Serves.unique {front : List Char} {origin origin' : Bool × Host × Option Nat}
    (h : Serves front origin) (h' : Serves front origin') : origin = origin' := by
  obtain ⟨scheme, rest, hscheme, hserver⟩ := h
  obtain ⟨scheme', rest', hscheme', hserver'⟩ := h'
  obtain ⟨rfl, rfl⟩ := Prod.mk.inj (Option.some.inj (hscheme.symm.trans hscheme'))
  exact Option.some.inj (hserver.symm.trans hserver')

/-- Blanks after the text of an address do not lead to another server. -/
theorem Serves.unique_append {front w : List Char} {origin origin' : Bool × Host × Option Nat}
    (h : Serves front origin) (hw : ∀ c ∈ w, IsSkipped c) (h' : Serves (front ++ w) origin') :
    origin = origin' := by
  obtain ⟨scheme, rest, hscheme, hserver⟩ := h
  obtain ⟨scheme', rest', hscheme', hserver'⟩ := h'
  rw [splitScheme_append hscheme] at hscheme'
  obtain ⟨rfl, rfl⟩ := Prod.mk.inj (Option.some.inj hscheme')
  rcases authority_append (dropWhile_ne_nil_of_server? hserver) hw with hsame | hlonger
  · rw [hsame] at hserver'
    exact Option.some.inj (hserver.symm.trans hserver')
  · rcases List.eq_nil_or_concat w with rfl | ⟨w', b, rfl⟩
    · rw [List.append_nil] at hserver'
      exact Option.some.inj (hserver.symm.trans hserver')
    · rw [hlonger, List.concat_eq_append, ← List.append_assoc] at hserver'
      rw [server?_concat (hw b (by simp))] at hserver'
      cases hserver'

/-! ## Cleaning -/

/-- The text of the beginning of an address, of which only the front is clean. -/
def front (s : List Char) : List Char :=
  (s.dropWhile fun c => c.toNat ≤ 0x20).filter fun c => c ≠ '\t' && c ≠ '\n' && c ≠ '\r'

theorem clean_append_slash (s w : List Char) :
    ∃ w', (∀ c ∈ w', c ∈ w) ∧ clean (s ++ '/' :: w) = front s ++ '/' :: w' := by
  have hdrop : (s ++ '/' :: w).dropWhile (fun c => c.toNat ≤ 0x20) =
      s.dropWhile (fun c => c.toNat ≤ 0x20) ++ '/' :: w := by
    rw [List.dropWhile_append]
    split
    · next hempty =>
      rw [List.isEmpty_iff.mp hempty]
      rfl
    · rfl
  have hend (p : Char → Bool) (hp : p '/' = false) (a : List Char) :
      ∃ w', (∀ c ∈ w', c ∈ w) ∧ dropEndWhile p (a ++ '/' :: w) = a ++ '/' :: w' := by
    refine ⟨dropEndWhile p w, fun c hc => dropEndWhile_isPrefix.subset hc, ?_⟩
    rw [dropEndWhile, List.reverse_append, List.reverse_cons, List.append_assoc,
      List.dropWhile_append]
    split
    · next hempty =>
      rw [dropEndWhile, List.isEmpty_iff.mp hempty, List.singleton_append, List.dropWhile_cons, hp]
      simp
    · simp [dropEndWhile]
  obtain ⟨w', hw', htrim⟩ := hend (fun c => c.toNat ≤ 0x20) rfl
    (s.dropWhile fun c => c.toNat ≤ 0x20)
  refine ⟨w'.filter fun c => c ≠ '\t' && c ≠ '\n' && c ≠ '\r',
    fun c hc => hw' c (List.mem_filter.mp hc).1, ?_⟩
  rw [clean, trimWhile, hdrop, htrim, List.filter_append, front]
  rfl

theorem front_eq_clean_append (s : List Char) :
    ∃ w, (∀ c ∈ w, IsSkipped c) ∧ front s = clean s ++ w := by
  have hsplit (p : Char → Bool) (a : List Char) :
      ∃ w, (∀ c ∈ w, p c = true) ∧ a = dropEndWhile p a ++ w := by
    refine ⟨(a.reverse.takeWhile p).reverse,
      fun c hc => List.mem_takeWhile_imp (List.mem_reverse.mp hc), ?_⟩
    rw [dropEndWhile, ← List.reverse_append, List.takeWhile_append_dropWhile, List.reverse_reverse]
  obtain ⟨w, hw, hs⟩ := hsplit (fun c => c.toNat ≤ 0x20) (s.dropWhile fun c => c.toNat ≤ 0x20)
  refine ⟨w.filter fun c => c ≠ '\t' && c ≠ '\n' && c ≠ '\r',
    fun c hc => ?_, ?_⟩
  · show c.toNat ≤ 0x20
    exact of_decide_eq_true (hw c (List.mem_filter.mp hc).1)
  rw [front, clean, trimWhile, ← List.filter_append, ← hs]

/-! ## Below an address -/

section Below

variable {s w : List Char} {u : Url}

/-- The server of a longer address is named by the text in front of the slash, unless that text
names none. -/
theorem read_append_slash (h : read (String.ofList (s ++ '/' :: w)) = .ok u) :
    ∃ scheme rest w', (∀ c ∈ w', c ∈ w) ∧ splitScheme (front s) = some (scheme, rest) ∧
      server? (scheme == "https".toList) (authority (rest ++ '/' :: w')) = some u.origin := by
  obtain ⟨scheme, rest, hscheme, hserver⟩ := serves_of_read h
  obtain ⟨w', hw', hclean⟩ := clean_append_slash s w
  rw [String.toList_ofList, hclean] at hscheme
  obtain ⟨r, hfront, rfl⟩ := splitScheme_append_slash hscheme
  exact ⟨scheme, r, w', hw', hfront, hserver⟩

/-- A text in front of slashes alone names the server itself. -/
theorem serves_front_of_slashes (h : read (String.ofList (s ++ '/' :: w)) = .ok u)
    (hw : ∀ c ∈ w, c = '/') : Serves (front s) u.origin := by
  obtain ⟨scheme, rest, w', hw', hscheme, hserver⟩ := read_append_slash h
  refine ⟨scheme, rest, hscheme, ?_⟩
  rwa [authority_append_slash] at hserver
  intro hnil
  apply dropWhile_ne_nil_of_server? hserver
  rw [List.dropWhile_append, hnil]
  have hslashes : ∀ c ∈ '/' :: w', isSlash c = true := by
    intro c hc
    obtain rfl : c = '/' := by
      rcases List.mem_cons.mp hc with hc | hc
      · exact hc
      · exact hw c (hw' c hc)
    rfl
  exact List.dropWhile_eq_nil_iff.mpr hslashes

/-- A text that can be read as far as the server names the server of every longer address. -/
theorem serves_front (h : read (String.ofList (s ++ '/' :: w)) = .ok u) {scheme rest : List Char}
    (hscheme : splitScheme (front s) = some (scheme, rest)) (hrest : rest.dropWhile isSlash ≠ []) :
    Serves (front s) u.origin := by
  obtain ⟨scheme', rest', w', -, hscheme', hserver⟩ := read_append_slash h
  obtain ⟨rfl, rfl⟩ := Prod.mk.inj (Option.some.inj (hscheme.symm.trans hscheme'))
  rw [authority_append_slash hrest] at hserver
  exact ⟨scheme, rest, hscheme, hserver⟩

/-- Addresses below an address have its origin. -/
theorem origin_of_read {base : Url} (hbase : read (String.ofList s) = .ok base)
    (h : read (String.ofList (s ++ '/' :: w)) = .ok u) : u.origin = base.origin := by
  have hclean := serves_of_read hbase
  rw [String.toList_ofList] at hclean
  obtain ⟨blanks, hblanks, hfront⟩ := front_eq_clean_append s
  obtain ⟨scheme, rest, hscheme, hserver⟩ := id hclean
  have hrest := dropWhile_ne_nil_of_server? hserver
  have hlonger : splitScheme (front s) = some (scheme, rest ++ blanks) := by
    rw [hfront]
    exact splitScheme_append hscheme blanks
  have hserves : Serves (front s) u.origin := by
    apply serves_front h hlonger
    rw [dropWhile_append_of_ne_nil hrest]
    exact List.append_ne_nil_of_left_ne_nil hrest _
  rw [hfront] at hserves
  exact (hclean.unique_append hblanks hserves).symm

/-- Slashes at the end of an address make no difference. -/
theorem origin_of_slashes {slashes : List Char} {base : Url}
    (hbase : read (String.ofList (s ++ '/' :: slashes)) = .ok base)
    (hslashes : ∀ c ∈ slashes, c = '/') (h : read (String.ofList (s ++ '/' :: w)) = .ok u) :
    u.origin = base.origin := by
  have hserves := serves_front_of_slashes hbase hslashes
  obtain ⟨scheme, rest, hscheme, hserver⟩ := id hserves
  exact (hserves.unique (serves_front h hscheme (dropWhile_ne_nil_of_server? hserver))).symm

end Below

end Url

/-- **Below the address of a registry, everything has its origin.** -/
theorem origin_below {baseUrl : String} {cap : Nat} {base u : Url} {rest : List Char}
    (hbase : Url.read baseUrl = .ok base)
    (h : Url.read ((Endpoint.make baseUrl cap).baseUrl ++ String.ofList ('/' :: rest)) = .ok u) :
    u.origin = base.origin := by
  let s := dropEndWhile (· = '/') baseUrl.toList
  obtain ⟨slashes, hslashes, hurl⟩ : ∃ slashes, (∀ c ∈ slashes, c = '/') ∧
      baseUrl = String.ofList (s ++ slashes) := by
    refine ⟨(baseUrl.toList.reverse.takeWhile (· = '/')).reverse, ?_, ?_⟩
    · intro c hc
      have hslash := List.mem_takeWhile_imp (List.mem_reverse.mp hc)
      exact of_decide_eq_true hslash
    · simp only [s]
      rw [dropEndWhile, ← List.reverse_append, List.takeWhile_append_dropWhile,
        List.reverse_reverse, String.ofList_toList]
  rw [show (Endpoint.make baseUrl cap).baseUrl = String.ofList s from rfl, ← String.ofList_append] at h
  rw [hurl] at hbase
  cases slashes with
  | nil =>
    rw [List.append_nil] at hbase
    exact Url.origin_of_read hbase h
  | cons c slashes =>
    obtain rfl := hslashes c List.mem_cons_self
    exact Url.origin_of_slashes hbase (fun c hc => hslashes c (List.mem_cons_of_mem _ hc)) h

end TagWatch.Http
