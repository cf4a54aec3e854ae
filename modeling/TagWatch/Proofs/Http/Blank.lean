import TagWatch.Http.Url
import TagWatch.Proofs.Registry.Name

/-!
# A server is not named with a blank at the end

Blanks around an address are skipped. When an address is put together from two texts, a blank at the
end of the first one is no longer at the end of the whole.

**Theorem (`server?_concat`).** A text that ends with a blank names no server: the blank would
belong to the socket number or to the host, and may stand in neither. In a host that may be encoded
it is still there after decoding (`mem_of_fromUTF8?`).
-/

namespace TagWatch.Http

open Text

/-- A character that is skipped at both ends of an address. -/
def IsSkipped (c : Char) : Prop := c.toNat ≤ 0x20

theorem IsSkipped.ne {c d : Char} (h : IsSkipped c) (hd : 0x20 < d.toNat) : c ≠ d := by
  rintro rfl
  exact absurd h (Nat.not_le.mpr hd)

/-! ## Bytes -/

/-- A byte of a text that is below 128 is the code of a character. -/
theorem exists_of_mem_utf8Encode {b : UInt8} (hb : b.toNat < 128) {l : List Char}
    (h : b ∈ l.flatMap String.utf8EncodeChar) : ∃ c ∈ l, c.toNat = b.toNat := by
  obtain ⟨c, hc, hmem⟩ := List.mem_flatMap.mp h
  refine ⟨c, hc, ?_⟩
  have hval : c.toNat = c.val.toNat := rfl
  simp only [String.utf8EncodeChar] at hmem
  split at hmem
  · rw [List.mem_singleton.mp hmem, UInt8.toNat_ofNat', hval]
    omega
  -- all bytes of a longer code are at least 128
  · exfalso
    split at hmem
    · rcases List.mem_pair.mp hmem with rfl | rfl <;> rw [UInt8.toNat_ofNat'] at hb <;> omega
    · split at hmem
      · simp only [List.mem_cons, List.not_mem_nil, or_false] at hmem
        rcases hmem with rfl | rfl | rfl <;> rw [UInt8.toNat_ofNat'] at hb <;> omega
      · simp only [List.mem_cons, List.not_mem_nil, or_false] at hmem
        rcases hmem with rfl | rfl | rfl | rfl <;> rw [UInt8.toNat_ofNat'] at hb <;> omega

/-- A character that is decoded from a byte below 128. -/
theorem mem_of_fromUTF8? {bytes : List UInt8} {text : String} {c : Char}
    (h : String.fromUTF8? ⟨bytes.toArray⟩ = some text) (hc : c.toNat < 128)
    (hmem : c.toNat.toUInt8 ∈ bytes) : c ∈ text.toList := by
  rw [String.fromUTF8?] at h
  split at h
  · next hvalid =>
    obtain ⟨l, hl⟩ := hvalid
    obtain rfl := Option.some.inj h
    have hbytes : bytes = l.flatMap String.utf8EncodeChar := by
      have hdata := congrArg ByteArray.data hl
      rw [List.utf8Encode, List.data_toByteArray] at hdata
      exact List.toArray_inj hdata
    have hbyte : c.toNat.toUInt8.toNat = c.toNat := by
      rw [Nat.toUInt8, UInt8.toNat_ofNat']
      omega
    rw [hbytes] at hmem
    obtain ⟨d, hd, heq⟩ := exists_of_mem_utf8Encode (by omega) hmem
    obtain rfl : d = c := Char.toNat_inj.mp (heq.trans hbyte)
    have htext : String.fromUTF8 ⟨bytes.toArray⟩ ⟨l, hl⟩ = String.ofList l := by
      apply String.toByteArray_inj.mp
      rw [String.toByteArray_ofList]
      exact hl
    rw [htext, String.toList_ofList]
    exact hd
  · cases h

theorem hexValue?_of_isSkipped {c : Char} (h : IsSkipped c) : hexValue? c = none := by
  have hall : ∀ n < 0x21, hexValue? (Char.ofNat n) = none := by decide
  rw [← Char.ofNat_toNat c]
  exact hall _ (Nat.lt_succ_of_le h)

/-- A skipped character stands for itself among bytes. -/
theorem mem_percentBytes {c : Char} (hc : IsSkipped c) {s : List Char} (h : c ∈ s) :
    c.toNat.toUInt8 ∈ percentBytes s := by
  have hpercent : c ≠ '%' := hc.ne (by decide)
  have hself : c.toNat.toUInt8 ∈ (String.ofList [c]).toUTF8.toList := by
    have hall : ∀ n < 0x21, n.toUInt8 ∈ (String.ofList [Char.ofNat n]).toUTF8.toList := by
      decide +kernel
    have hn := hall c.toNat (Nat.lt_succ_of_le hc)
    rwa [Char.ofNat_toNat] at hn
  fun_induction percentBytes s with
  | case1 => cases h
  | case2 a b rest high low ha hb ih =>
    have hne {d : Char} {n : Nat} (hd : hexValue? d = some n) : c ≠ d := by
      rintro rfl
      rw [hexValue?_of_isSkipped hc] at hd
      cases hd
    simp only [List.mem_cons, hpercent, hne ha, hne hb, false_or] at h
    exact List.mem_cons_of_mem _ (ih h)
  | case3 a b rest _ ih =>
    exact List.mem_cons_of_mem _ (ih (List.mem_of_ne_of_mem hpercent h))
  | case4 d rest _ ih =>
    rcases List.mem_cons.mp h with rfl | h
    · exact List.mem_append_left _ hself
    · exact List.mem_append_right _ (ih h)

/-! ## Servers -/

theorem Host.read?_concat {b : Char} (hb : IsSkipped b) (s : List Char) :
    Host.read? (s ++ [b]) = none := by
  rw [Host.read?.eq_def]
  split
  · next rest hrest =>
    have hlast : rest.getLast? ≠ some ']' := by
      intro hlast
      have hwhole : (s ++ [b]).getLast? = some ']' := by
        rw [hrest, List.getLast?_cons, hlast]
        rfl
      rw [List.getLast?_concat] at hwhole
      exact hb.ne (by decide) (Option.some.inj hwhole)
    rw [if_neg hlast]
  · cases hdecoded : String.fromUTF8? ⟨(percentBytes (s ++ [b])).toArray⟩ with
    | none => rfl
    | some decoded =>
      have hmem : b ∈ decoded.toList :=
        mem_of_fromUTF8? hdecoded (Nat.lt_of_le_of_lt hb (by decide))
          (mem_percentBytes hb List.mem_concat_self)
      have hforbidden : (lower decoded.toList).any Host.forbidden = true := by
        apply List.any_eq_true.mpr
        refine ⟨b, List.mem_map.mpr ⟨b, hmem, ?_⟩, ?_⟩
        · apply Char.toNat_inj.mp
          rw [toNat_toLower, if_neg (by have : b.toNat ≤ 0x20 := hb; omega)]
        · rw [Host.forbidden, decide_eq_true (show b.toNat ≤ 0x20 from hb)]
          rfl
      show (if (lower decoded.toList).isEmpty || (lower decoded.toList).any Host.forbidden then
        none else _) = none
      rw [hforbidden, Bool.or_true, if_pos rfl]

namespace Url

theorem readSocket_concat {b : Char} (hb : IsSkipped b) (secure : Bool) (s : List Char) :
    readSocket secure (s ++ [b]) = none := by
  have hdigit : b.isDigit = false := by
    have hall : ∀ n < 0x21, (Char.ofNat n).isDigit = false := by decide
    rw [← Char.ofNat_toNat b]
    exact hall _ (Nat.lt_succ_of_le hb)
  have hempty : (s ++ [b]).isEmpty = false := by simp
  have hdigits : (s ++ [b]).all Char.isDigit = false := by simp [hdigit]
  simp only [readSocket, hempty, hdigits, Bool.false_eq_true, if_false]

theorem cutLast_concat {c b : Char} (hb : b ≠ c) (s : List Char) :
    cutLast c (s ++ [b]) = (cutLast c s).map fun p => (p.1, p.2 ++ [b]) := by
  induction s with
  | nil => simp [cutLast, hb]
  | cons d s ih =>
    rw [List.cons_append, cutLast, ih, cutLast]
    cases cutLast c s with
    | some p => rfl
    | none =>
      simp only [Option.map_none]
      split <;> rfl

/-- The last character of a text, unless it is a mark, belongs to what follows the login. -/
theorem splitLogin_concat {b : Char} (hb : b ≠ '@') (s : List Char) :
    ∃ server, (splitLogin (s ++ [b])).2 = server ++ [b] := by
  rw [splitLogin, cutLast_concat hb]
  cases cutLast '@' s with
  | none => exact ⟨s, rfl⟩
  | some p =>
    refine ⟨p.2, ?_⟩
    simp only [Option.map_some]
    split <;> rfl

/-- The last character of a text, unless it is a colon, belongs to the socket number if there is
one and to the host if there is none. -/
theorem splitSocket_concat {b : Char} (hb : b ≠ ':') (bracketed : Bool) (s : List Char) :
    (∃ host socket, splitSocket bracketed (s ++ [b]) = (host, socket ++ [b])) ∨
      ∃ host, splitSocket bracketed (s ++ [b]) = (host ++ [b], []) := by
  induction s generalizing bracketed with
  | nil => exact .inr ⟨[], by simp [splitSocket, hb]⟩
  | cons c s ih =>
    rw [List.cons_append, splitSocket]
    split
    · exact .inl ⟨[], s, rfl⟩
    · rcases ih (c = '[' || bracketed && c ≠ ']') with ⟨host, socket, h⟩ | ⟨host, h⟩
      · exact .inl ⟨c :: host, socket, by rw [h]⟩
      · exact .inr ⟨c :: host, by rw [h]; rfl⟩

/-- The server that the text between the scheme and the path names. -/
def server? (secure : Bool) (authority : List Char) : Option (Bool × Host × Option Nat) :=
  let parts := splitSocket false (splitLogin authority).2
  match Host.read? parts.1, readSocket secure parts.2 with
  | some host, some socket => some (secure, host, socket)
  | _, _ => none

/-- **A server is not named with a blank at the end.** -/
theorem server?_concat {b : Char} (hb : IsSkipped b) (secure : Bool) (s : List Char) :
    server? secure (s ++ [b]) = none := by
  obtain ⟨server, hserver⟩ := splitLogin_concat (hb.ne (by decide)) s
  rw [server?, hserver]
  rcases splitSocket_concat (hb.ne (by decide)) false server with ⟨host, socket, h⟩ | ⟨host, h⟩
  · rw [h]
    simp only [readSocket_concat hb]
    split <;> trivial
  · rw [h]
    simp only [Host.read?_concat hb]

end Url

end TagWatch.Http
