import TagWatch.Json.Reader
import TagWatch.Proofs.Json.Token

/-!
# How values are written

The tokens of a value are those of its parts between brackets, with commas between them (`tokens`).
The machine that reads tokens is exact (`ofTokens?_eq_some_iff`):

* on the tokens of a value it comes to that value, whatever is open around it (`foldlM_tokens`), by
  recursion on the value, and
* what it has read at any time is told by its state (`Reading.consumed`), so that a value that it
  has read came from the tokens of that value.

Of two neighbours among the tokens of a value one is always a single character (`isChain_tokens`).
So a text is read to a value exactly if it is a text of the tokens of the value
(`read?_eq_some_iff`).
-/

namespace TagWatch.Json

mutual

/-- The tokens of a value. -/
def tokens : Json → List Token
  | .null => [.null]
  | .bool b => [.bool b]
  | .number literal => [.number literal]
  | .string content => [.string content]
  | .array [] => [.openArray, .closeArray]
  | .array (v :: rest) => .openArray :: (v.tokens ++ elementTokens rest)
  | .object [] => [.openObject, .closeObject]
  | .object ((name, v) :: rest) =>
    .openObject :: .string name :: .colon :: (v.tokens ++ memberTokens rest)

/-- The tokens of further elements of an array and of its end. -/
def elementTokens : List Json → List Token
  | [] => [.closeArray]
  | v :: rest => .comma :: (v.tokens ++ elementTokens rest)

/-- The tokens of further members of an object and of its end. -/
def memberTokens : List (Option String × Json) → List Token
  | [] => [.closeObject]
  | (name, v) :: rest => .comma :: .string name :: .colon :: (v.tokens ++ memberTokens rest)

end

/-- A text that is a value with white space around its tokens. -/
def Spells (text : String) (v : Json) : Prop := SpellsTokens text.toList v.tokens

variable {v : Json} {vs : List Json} {m : Option String × Json}
  {ms : List (Option String × Json)} {outer : List Frame} {ts : List Token} {t : Token}

theorem tokens_eq_cons (v : Json) :
    ∃ t rest, v.tokens = t :: rest ∧ t ≠ .closeArray := by
  match v with
  | .null | .bool _ | .number _ | .string _ => exact ⟨_, _, by rw [tokens], by simp⟩
  | .array [] | .array (_ :: _) => exact ⟨_, _, by rw [tokens], by simp⟩
  | .object [] | .object ((_, _) :: _) => exact ⟨_, _, by rw [tokens], by simp⟩

/-! ## Values are read -/

theorem Reading.step_firstElement (ht : t ≠ .closeArray) :
    step (.firstElement outer) t = step (.value (.array [] :: outer)) t := by
  cases t <;> first | rfl | exact absurd rfl ht

mutual

/-- The tokens of a value are read to it. -/
theorem foldlM_tokens (v : Json) (outer : List Frame) (ts : List Token) :
    (v.tokens ++ ts).foldlM Reading.step (.value outer) =
      ts.foldlM Reading.step (.after v outer) := by
  match v with
  | .null | .bool _ | .number _ | .string _ => rw [tokens]; rfl
  | .array [] => rw [tokens]; rfl
  | .array (v :: rest) =>
    obtain ⟨t, others, hv, ht⟩ := tokens_eq_cons v
    have hstart (more : List Token) :
        (v.tokens ++ more).foldlM Reading.step (.firstElement outer) =
          (v.tokens ++ more).foldlM Reading.step (.value (.array [] :: outer)) := by
      rw [hv, List.cons_append, List.foldlM_cons, List.foldlM_cons, Reading.step_firstElement ht]
    rw [tokens, List.cons_append, List.append_assoc]
    exact (hstart _).trans ((foldlM_tokens v _ _).trans (foldlM_elementTokens rest [] v outer ts))
  | .object [] => rw [tokens]; rfl
  | .object ((name, v) :: rest) =>
    rw [tokens, List.cons_append, List.cons_append, List.cons_append, List.append_assoc]
    exact (foldlM_tokens v _ _).trans (foldlM_memberTokens rest [] name v outer ts)

/-- Further elements are put behind those that are done. -/
theorem foldlM_elementTokens (vs done : List Json) (v : Json) (outer : List Frame)
    (ts : List Token) :
    (elementTokens vs ++ ts).foldlM Reading.step (.after v (.array done :: outer)) =
      ts.foldlM Reading.step (.after (.array (done.reverse ++ v :: vs)) outer) := by
  match vs with
  | [] =>
    rw [elementTokens, ← List.reverse_cons]
    rfl
  | w :: rest =>
    rw [elementTokens, List.cons_append, List.append_assoc]
    refine (foldlM_tokens w (.array (v :: done) :: outer) _).trans ?_
    rw [foldlM_elementTokens rest (v :: done) w outer ts, List.reverse_cons, List.append_assoc,
      List.singleton_append]

/-- Further members are put behind those that are done. -/
theorem foldlM_memberTokens (ms done : List (Option String × Json)) (name : Option String)
    (v : Json) (outer : List Frame) (ts : List Token) :
    (memberTokens ms ++ ts).foldlM Reading.step (.after v (.object done name :: outer)) =
      ts.foldlM Reading.step (.after (.object (done.reverse ++ (name, v) :: ms)) outer) := by
  match ms with
  | [] =>
    rw [memberTokens, ← List.reverse_cons]
    rfl
  | (next, w) :: rest =>
    rw [memberTokens, List.cons_append, List.cons_append, List.cons_append, List.append_assoc]
    refine (foldlM_tokens w (.object ((name, v) :: done) next :: outer) _).trans ?_
    rw [foldlM_memberTokens rest ((name, v) :: done) next w outer ts, List.reverse_cons,
      List.append_assoc, List.singleton_append]

end

/-! ## What is read is a value -/

/-- The tokens of elements that are done, the latest first, and of the commas behind them. -/
def doneElements : List Json → List Token
  | [] => []
  | v :: done => doneElements done ++ (v.tokens ++ [.comma])

/-- The tokens of members that are done, the latest first, and of the commas behind them. -/
def doneMembers : List (Option String × Json) → List Token
  | [] => []
  | (name, v) :: done => doneMembers done ++ (.string name :: .colon :: (v.tokens ++ [.comma]))

theorem tokens_array (done : List Json) (v : Json) (vs : List Json) :
    tokens (.array (done.reverse ++ v :: vs)) =
      .openArray :: (doneElements done ++ (v.tokens ++ elementTokens vs)) := by
  induction done generalizing v vs with
  | nil => rw [List.reverse_nil, List.nil_append, tokens, doneElements, List.nil_append]
  | cons w done ih =>
    rw [List.reverse_cons, List.append_assoc, List.singleton_append, ih, elementTokens,
      doneElements]
    simp only [List.append_assoc, List.singleton_append]

theorem tokens_object (done : List (Option String × Json)) (name : Option String) (v : Json)
    (ms : List (Option String × Json)) :
    tokens (.object (done.reverse ++ (name, v) :: ms)) =
      .openObject :: (doneMembers done ++
        (.string name :: .colon :: (v.tokens ++ memberTokens ms))) := by
  induction done generalizing name v ms with
  | nil => rw [List.reverse_nil, List.nil_append, tokens, doneMembers, List.nil_append]
  | cons m done ih =>
    obtain ⟨next, w⟩ := m
    rw [List.reverse_cons, List.append_assoc, List.singleton_append, ih, memberTokens, doneMembers]
    simp only [List.append_assoc, List.cons_append, List.nil_append]

namespace Reading

/-- The tokens that have been read inside the containers that are open. -/
def opened : List Frame → List Token
  | [] => []
  | .array done :: outer => opened outer ++ .openArray :: doneElements done
  | .object done name :: outer =>
    opened outer ++ .openObject :: (doneMembers done ++ [.string name, .colon])

/-- The tokens that have been read. -/
def consumed : Reading → List Token
  | .value outer => opened outer
  | .firstElement outer => opened outer ++ [.openArray]
  | .firstName outer => opened outer ++ [.openObject]
  | .nextName done outer => opened outer ++ .openObject :: doneMembers done
  | .colon done name outer => opened outer ++ .openObject :: (doneMembers done ++ [.string name])
  | .after v outer => opened outer ++ v.tokens

variable {r r' : Reading}

theorem consumed_begin (h : begin outer t = some r) : r.consumed = opened outer ++ [t] := by
  unfold begin at h
  split at h <;> first | (obtain rfl := Option.some.inj h; simp [consumed, tokens]) | cases h

/-- A step reads its token. -/
theorem consumed_step (h : r.step t = some r') : r'.consumed = r.consumed ++ [t] := by
  unfold step at h
  split at h
  · exact consumed_begin h
  · obtain rfl := Option.some.inj h
    simp [consumed, tokens]
  · rw [consumed_begin h]
    simp [consumed, opened, doneElements]
  · obtain rfl := Option.some.inj h
    simp [consumed, tokens]
  · obtain rfl := Option.some.inj h
    simp [consumed, doneMembers]
  · obtain rfl := Option.some.inj h
    simp [consumed]
  · obtain rfl := Option.some.inj h
    simp [consumed, opened]
  · obtain rfl := Option.some.inj h
    simp [consumed, opened, doneElements]
  · next v done outer =>
    obtain rfl := Option.some.inj h
    simp [consumed, opened, tokens_array, elementTokens]
  · obtain rfl := Option.some.inj h
    simp [consumed, opened, doneMembers]
  · next v done name outer =>
    obtain rfl := Option.some.inj h
    simp [consumed, opened, tokens_object, memberTokens]
  · cases h

theorem consumed_foldlM (h : ts.foldlM step r = some r') : r'.consumed = r.consumed ++ ts := by
  induction ts generalizing r with
  | nil =>
    obtain rfl := Option.some.inj h
    rw [List.append_nil]
  | cons t ts ih =>
    rw [List.foldlM_cons] at h
    obtain ⟨next, hnext, h⟩ := Option.bind_eq_some_iff.mp h
    rw [ih h, consumed_step hnext, List.append_assoc, List.singleton_append]

end Reading

/-- Tokens are read to the value of which they are the tokens. -/
theorem ofTokens?_eq_some_iff : ofTokens? ts = some v ↔ ts = v.tokens := by
  constructor
  · intro h
    obtain ⟨r, hr, hresult⟩ := Option.bind_eq_some_iff.mp h
    have hconsumed := Reading.consumed_foldlM hr
    unfold Reading.result? at hresult
    split at hresult
    · obtain rfl := Option.some.inj hresult
      exact hconsumed.symm
    · cases hresult
  · rintro rfl
    rw [ofTokens?, ← List.append_nil v.tokens, foldlM_tokens]
    rfl

/-! ## Values in texts -/

theorem isChain_cons_mark (hmark : t.isMark = true) (h : ts.IsChain Token.Apart) :
    (t :: ts).IsChain Token.Apart :=
  List.isChain_cons.mpr ⟨fun _ _ => .inl hmark, h⟩

theorem isChain_append_mark {ts₁ ts₂ : List Token} (h₁ : ts₁.IsChain Token.Apart)
    (h₂ : ts₂.IsChain Token.Apart) (hmark : ∀ t ∈ ts₂.head?, t.isMark = true) :
    (ts₁ ++ ts₂).IsChain Token.Apart :=
  List.isChain_append.mpr ⟨h₁, h₂, fun _ _ t ht => .inr (hmark t ht)⟩

/-- A name and its colon in front of other tokens. -/
theorem isChain_name (name : Option String) (h : ts.IsChain Token.Apart) :
    (.string name :: .colon :: ts : List Token).IsChain Token.Apart :=
  List.isChain_cons_cons.mpr ⟨.inr rfl, isChain_cons_mark rfl h⟩

theorem isMark_head_elementTokens (vs : List Json) :
    ∀ t ∈ (elementTokens vs).head?, t.isMark = true := by
  cases vs <;> simp [elementTokens, Token.isMark]

theorem isMark_head_memberTokens (ms : List (Option String × Json)) :
    ∀ t ∈ (memberTokens ms).head?, t.isMark = true := by
  cases ms <;> simp [memberTokens, Token.isMark]

mutual

theorem isChain_tokens (v : Json) : v.tokens.IsChain Token.Apart := by
  match v with
  | .null | .bool _ | .number _ | .string _ => rw [tokens]; exact .singleton _
  | .array [] => rw [tokens]; exact isChain_cons_mark rfl (.singleton _)
  | .array (v :: rest) =>
    rw [tokens]
    exact isChain_cons_mark rfl (isChain_append_mark (isChain_tokens v)
      (isChain_elementTokens rest) (isMark_head_elementTokens rest))
  | .object [] => rw [tokens]; exact isChain_cons_mark rfl (.singleton _)
  | .object ((name, v) :: rest) =>
    rw [tokens]
    exact isChain_cons_mark rfl (isChain_name name (isChain_append_mark (isChain_tokens v)
      (isChain_memberTokens rest) (isMark_head_memberTokens rest)))

theorem isChain_elementTokens (vs : List Json) : (elementTokens vs).IsChain Token.Apart := by
  match vs with
  | [] => rw [elementTokens]; exact .singleton _
  | v :: rest =>
    rw [elementTokens]
    exact isChain_cons_mark rfl (isChain_append_mark (isChain_tokens v)
      (isChain_elementTokens rest) (isMark_head_elementTokens rest))

theorem isChain_memberTokens (ms : List (Option String × Json)) :
    (memberTokens ms).IsChain Token.Apart := by
  match ms with
  | [] => rw [memberTokens]; exact .singleton _
  | (name, v) :: rest =>
    rw [memberTokens]
    exact isChain_cons_mark rfl (isChain_name name (isChain_append_mark (isChain_tokens v)
      (isChain_memberTokens rest) (isMark_head_memberTokens rest)))

end

/-- A text is read to the value that it spells. -/
theorem read?_eq_some_iff {text : String} : read? text = some v ↔ Spells text v := by
  rw [read?, Option.bind_eq_some_iff]
  constructor
  · rintro ⟨ts, hscan, hread⟩
    obtain rfl := ofTokens?_eq_some_iff.mp hread
    exact Token.spellsTokens_of_scan hscan
  · intro h
    exact ⟨v.tokens, Token.scan_of_spellsTokens h (isChain_tokens v), ofTokens?_eq_some_iff.mpr rfl⟩

/-! ## Values that can be written -/

/-- A value all of whose tokens can be written. -/
def Writable (v : Json) : Prop := ∀ t ∈ v.tokens, ∃ s, Token.Spells s t

theorem Writable.exists_spells (h : v.Writable) : ∃ text, Spells text v := by
  obtain ⟨s, hs⟩ := Token.exists_spellsTokens h
  exact ⟨String.ofList s, by rwa [Spells, String.toList_ofList]⟩

theorem writable_bool (b : Bool) : (Json.bool b).Writable := by
  intro t ht
  rw [tokens, List.mem_singleton] at ht
  cases b with
  | true => exact ht ▸ ⟨_, .yes⟩
  | false => exact ht ▸ ⟨_, .no⟩

theorem writable_ofNat (n : Nat) : (Json.ofNat n).Writable := by
  intro t ht
  rw [ofNat, tokens, List.mem_singleton] at ht
  exact ht ▸ Token.exists_spells_ofNat n

theorem writable_ofText (text : String) : (Json.ofText text).Writable := by
  intro t ht
  rw [ofText, tokens, List.mem_singleton] at ht
  exact ht ▸ Token.exists_spells_ofText text

theorem memberTokens_writable {members : List (String × Json)} (h : ∀ m ∈ members, m.2.Writable) :
    ∀ t ∈ memberTokens (members.map fun m => (some m.1, m.2)), ∃ s, Token.Spells s t := by
  induction members with
  | nil =>
    intro t ht
    rw [List.map_nil, memberTokens, List.mem_singleton] at ht
    exact ht ▸ ⟨_, .closeObject⟩
  | cons m members ih =>
    intro t ht
    simp only [List.map_cons, memberTokens, List.mem_cons, List.mem_append] at ht
    rcases ht with rfl | rfl | rfl | ht | ht
    · exact ⟨_, .comma⟩
    · exact Token.exists_spells_ofText m.1
    · exact ⟨_, .colon⟩
    · exact h m List.mem_cons_self t ht
    · exact ih (fun m hm => h m (List.mem_cons_of_mem _ hm)) t ht

theorem writable_ofMembers {members : List (String × Json)} (h : ∀ m ∈ members, m.2.Writable) :
    (Json.ofMembers members).Writable := by
  intro t ht
  cases members with
  | nil =>
    simp only [ofMembers, List.map_nil, tokens, List.mem_cons, List.not_mem_nil, or_false] at ht
    rcases ht with rfl | rfl
    · exact ⟨_, .openObject⟩
    · exact ⟨_, .closeObject⟩
  | cons m members =>
    -- the tokens are those of a further member, except for the first one
    have hmembers := memberTokens_writable h
    rw [List.map_cons, memberTokens] at hmembers
    rw [ofMembers, List.map_cons, tokens] at ht
    rcases List.mem_cons.mp ht with rfl | ht
    · exact ⟨_, .openObject⟩
    · exact hmembers t (List.mem_cons_of_mem _ ht)

end TagWatch.Json
