/-!
# Tables

A table is a finite map kept as the list of its entries, in the order in which the keys were
first written. Writing a key that is present replaces its value in place, so a table built by
`set` from `empty` has every key once. `get?_set` says what a write does to every later read,
and `keys_set` what it does to the order; `mem_entries_iff` says that in such a table the entries
are what can be read.
-/

namespace TagWatch

/-- A finite map as a list of entries, the oldest key first. -/
structure Table (κ : Type) (α : Type) where
  entries : List (κ × α)
  deriving Repr, DecidableEq

namespace Table

variable {κ α β : Type}

/-- The table without entries. -/
def empty : Table κ α := ⟨[]⟩

instance : Inhabited (Table κ α) := ⟨empty⟩

/-- The keys, oldest first. -/
def keys (t : Table κ α) : List κ := t.entries.map Prod.fst

/-- The number of keys. -/
def size (t : Table κ α) : Nat := t.entries.length

/-- Every value changed by a function of its key. -/
def mapValues (f : κ → α → β) (t : Table κ α) : Table κ β :=
  ⟨t.entries.map fun e => (e.1, f e.1 e.2)⟩

/-- The entries that pass a test. -/
def filter (p : κ → α → Bool) (t : Table κ α) : Table κ α :=
  ⟨t.entries.filter fun e => p e.1 e.2⟩

variable [DecidableEq κ]

/-- The value under a key in a list of entries: the first entry of that key counts. -/
def find (k : κ) : List (κ × α) → Option α
  | [] => none
  | (k', a) :: rest => if k' = k then some a else find k rest

/-- The list of entries after writing a key: in place when the key is there, else at the end. -/
def put (k : κ) (a : α) : List (κ × α) → List (κ × α)
  | [] => [(k, a)]
  | (k', b) :: rest => if k' = k then (k, a) :: rest else (k', b) :: put k a rest

/-- The value under a key. -/
def get? (t : Table κ α) (k : κ) : Option α := find k t.entries

/-- The value under a key, or a default. -/
def getD (t : Table κ α) (k : κ) (default : α) : α := (t.get? k).getD default

/-- Whether a key has a value. -/
def has (t : Table κ α) (k : κ) : Bool := (t.get? k).isSome

/-- The table with a key written. -/
def set (t : Table κ α) (k : κ) (a : α) : Table κ α := ⟨put k a t.entries⟩

/-- The table with the value under a key changed, starting from a default when it is absent. -/
def alter (t : Table κ α) (k : κ) (default : α) (f : α → α) : Table κ α :=
  t.set k (f (t.getD k default))

/-- The table that results from writing entries in order: of equal keys the last one counts. -/
def ofList (entries : List (κ × α)) : Table κ α :=
  entries.foldl (fun t e => t.set e.1 e.2) empty

/-! ## Reading after writing -/

theorem find_put_self (k : κ) (a : α) (l : List (κ × α)) : find k (put k a l) = some a := by
  induction l with
  | nil => simp [put, find]
  | cons e rest ih => by_cases h : e.1 = k <;> simp [put, find, h, ih]

theorem find_put_of_ne {k k' : κ} (h : k' ≠ k) (a : α) (l : List (κ × α)) :
    find k' (put k a l) = find k' l := by
  induction l with
  | nil => simp [put, find, Ne.symm h]
  | cons e rest ih =>
    by_cases he : e.1 = k
    · simp [put, find, he, Ne.symm h]
    · simp [put, find, he, ih]

@[simp] theorem get?_empty (k : κ) : (empty : Table κ α).get? k = none := rfl

theorem get?_set (t : Table κ α) (k k' : κ) (a : α) :
    (t.set k a).get? k' = if k' = k then some a else t.get? k' := by
  by_cases h : k' = k
  · subst h; simp [set, get?, find_put_self]
  · simp [set, get?, find_put_of_ne h, h]

theorem get?_mapValues (f : κ → α → β) (t : Table κ α) (k : κ) :
    (t.mapValues f).get? k = (t.get? k).map (f k) := by
  obtain ⟨l⟩ := t
  show find k (l.map fun e => (e.1, f e.1 e.2)) = (find k l).map (f k)
  induction l with
  | nil => rfl
  | cons e rest ih => by_cases h : e.1 = k <;> simp [find, h, ih]

theorem find_filter (p : κ → Bool) (k : κ) (l : List (κ × α)) :
    find k (l.filter fun e => p e.1) = if p k then find k l else none := by
  induction l with
  | nil => simp [find]
  | cons e rest ih =>
    by_cases he : e.1 = k
    · subst he
      cases hp : p e.1 <;> simp [find, hp, ih]
    · cases hp : p e.1 <;> simp [find, hp, he, ih]

theorem map_fst_put (k : κ) (a : α) (l : List (κ × α)) :
    (put k a l).map Prod.fst =
      if k ∈ l.map Prod.fst then l.map Prod.fst else l.map Prod.fst ++ [k] := by
  induction l with
  | nil => simp [put]
  | cons e rest ih =>
    by_cases h : e.1 = k
    · simp [put, h]
    · have h' : ¬ k = e.1 := fun he => h he.symm
      simp only [put, if_neg h, List.map_cons, ih, List.mem_cons, h', false_or]
      split <;> simp

theorem keys_set (t : Table κ α) (k : κ) (a : α) :
    (t.set k a).keys = if k ∈ t.keys then t.keys else t.keys ++ [k] :=
  map_fst_put k a t.entries

theorem mem_keys_set_self (t : Table κ α) (k : κ) (a : α) : k ∈ (t.set k a).keys := by
  rw [keys_set]
  split
  · assumption
  · exact List.mem_append_right _ (List.mem_singleton_self k)

theorem keys_subset_set (t : Table κ α) (k : κ) (a : α) : t.keys ⊆ (t.set k a).keys := by
  rw [keys_set]
  split
  · exact fun _ hk => hk
  · exact List.subset_append_left _ _

theorem nodup_keys_set {t : Table κ α} (h : t.keys.Nodup) (k : κ) (a : α) :
    (t.set k a).keys.Nodup := by
  rw [keys_set]
  split
  · exact h
  · next hk => exact List.nodup_append.mpr ⟨h, List.pairwise_singleton _ k, fun x hx y hy hxy =>
      hk (List.mem_singleton.mp hy ▸ hxy ▸ hx)⟩

/-! ## Tables with distinct keys -/

theorem mem_of_find_eq_some {k : κ} {a : α} {l : List (κ × α)} (h : find k l = some a) :
    (k, a) ∈ l := by
  induction l with
  | nil => cases h
  | cons e rest ih =>
    by_cases he : e.1 = k
    · simp [find, he] at h
      exact List.mem_cons.mpr (.inl (Prod.ext he.symm h.symm))
    · simp [find, he] at h
      exact List.mem_cons_of_mem _ (ih h)

theorem find_eq_some_of_mem {k : κ} {a : α} {l : List (κ × α)} (hn : (l.map Prod.fst).Nodup)
    (h : (k, a) ∈ l) : find k l = some a := by
  induction l with
  | nil => cases h
  | cons e rest ih =>
    rw [List.map_cons, List.nodup_cons] at hn
    rcases List.mem_cons.mp h with rfl | h
    · simp [find]
    · have hne : e.1 ≠ k := fun he => hn.1 (he ▸ List.mem_map.mpr ⟨_, h, rfl⟩)
      simp [find, hne, ih hn.2 h]

theorem mem_entries_iff {t : Table κ α} (hn : t.keys.Nodup) {k : κ} {a : α} :
    (k, a) ∈ t.entries ↔ t.get? k = some a :=
  ⟨find_eq_some_of_mem hn, mem_of_find_eq_some⟩

/-- The order of entries with distinct keys does not matter for reading them. -/
theorem find_perm {l l' : List (κ × α)} (h : l.Perm l') (hn : (l.map Prod.fst).Nodup) (k : κ) :
    find k l = find k l' := by
  have hn' : (l'.map Prod.fst).Nodup := (h.map Prod.fst).nodup_iff.mp hn
  ext a
  constructor
  · intro hfind
    exact find_eq_some_of_mem hn' (h.mem_iff.mp (mem_of_find_eq_some hfind))
  · intro hfind
    exact find_eq_some_of_mem hn (h.mem_iff.mpr (mem_of_find_eq_some hfind))

theorem put_of_not_mem {k : κ} {l : List (κ × α)} (hk : k ∉ l.map Prod.fst) (a : α) :
    put k a l = l ++ [(k, a)] := by
  induction l with
  | nil => rfl
  | cons e rest ih =>
    rw [List.map_cons, List.mem_cons, not_or] at hk
    rw [put, if_neg (Ne.symm hk.1), ih hk.2, List.cons_append]

theorem mem_put {k : κ} {a : α} {e : κ × α} {l : List (κ × α)} (h : e ∈ put k a l) :
    e = (k, a) ∨ e ∈ l := by
  induction l with
  | nil => exact .inl (List.mem_singleton.mp h)
  | cons e' rest ih =>
    rw [put] at h
    split at h
    · rcases List.mem_cons.mp h with h | h
      · exact .inl h
      · exact .inr (List.mem_cons_of_mem _ h)
    · rcases List.mem_cons.mp h with h | h
      · exact .inr (h ▸ List.mem_cons_self)
      · exact (ih h).imp id (List.mem_cons_of_mem _)

/-- Writing entries in order gives every key once, with an entry that has been written. -/
theorem ofList_spec (l : List (κ × α)) :
    (ofList l).keys.Nodup ∧ ∀ e ∈ (ofList l).entries, e ∈ l := by
  suffices hall : ∀ t : Table κ α, t.keys.Nodup →
      (l.foldl (fun t e => t.set e.1 e.2) t).keys.Nodup ∧
        ∀ e ∈ (l.foldl (fun t e => t.set e.1 e.2) t).entries, e ∈ t.entries ∨ e ∈ l by
    obtain ⟨hn, hmem⟩ := hall empty List.nodup_nil
    exact ⟨hn, fun e he => (hmem e he).resolve_left List.not_mem_nil⟩
  induction l with
  | nil => exact fun t hn => ⟨hn, fun e he => .inl he⟩
  | cons e rest ih =>
    intro t hn
    obtain ⟨hn', hmem⟩ := ih (t.set e.1 e.2) (nodup_keys_set hn e.1 e.2)
    refine ⟨hn', fun e' he' => ?_⟩
    rcases hmem e' he' with he' | he'
    · rcases mem_put he' with rfl | he'
      · exact .inr List.mem_cons_self
      · exact .inl he'
    · exact .inr (List.mem_cons_of_mem _ he')

/-- Entries with distinct keys are written as they are. -/
theorem ofList_of_nodup {l : List (κ × α)} (hn : (l.map Prod.fst).Nodup) : ofList l = ⟨l⟩ := by
  suffices hall : ∀ done, ((done ++ l).map Prod.fst).Nodup →
      l.foldl (fun t e => t.set e.1 e.2) (⟨done⟩ : Table κ α) = ⟨done ++ l⟩ from hall [] hn
  induction l with
  | nil =>
    intro done _
    rw [List.foldl_nil, List.append_nil]
  | cons e rest ih =>
    intro done hdone
    have hk : e.1 ∉ done.map Prod.fst := by
      intro hmem
      rw [List.map_append, List.nodup_append] at hdone
      exact hdone.2.2 _ hmem _ (List.mem_cons_self ..) rfl
    have hsplit : done ++ e :: rest = (done ++ [e]) ++ rest := by
      rw [List.append_assoc, List.singleton_append]
    rw [List.foldl_cons, set, put_of_not_mem hk, hsplit]
    rw [List.map_cons, List.nodup_cons] at hn
    exact ih hn.2 _ (hsplit ▸ hdone)

end Table

end TagWatch
