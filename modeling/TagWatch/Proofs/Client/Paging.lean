import Mathlib.Data.List.Chain
import TagWatch.Proofs.Client.Transcript
import TagWatch.Registry.Error

/-!
# Lists that come in pages

A list is followed from page to page, each page naming the next one, and no further than a number
of pages. `follow` is this loop, for any way to ask for a page; a `Walk` is what happens to it:
the pages that were visited one after the other, until there is no next one, until a page fails,
or until the number is reached. What a walk says about its visits alone is that they are a `Trail`.

**Theorem (`follow_walk`).** Whatever the pages are, following them is a walk. It visits at most
the allowed number of pages, what it says is what its visits say, and it ends with what they
brought (`outcome`): the first failure, or else all that was found, in order.
-/

namespace TagWatch

/-- What is on a page of a list. -/
structure Page (α : Type) where
  found : List α
  /-- The address of the next page. -/
  next : Option String

/-- A page that was asked for. -/
structure Visit (α ε : Type) where
  url : String
  brought : Except RegistryError (Page α)
  /-- What was said to get it. -/
  said : List ε

/-- What a number of visits brought together: the first failure, or else all that was found. -/
def outcome {α ε : Type} (visits : List (Visit α ε)) : Except RegistryError (List α) :=
  (visits.mapM Visit.brought).map (·.flatMap Page.found)

section Outcome

variable {α ε : Type} (url : String) (said : List ε) (visits : List (Visit α ε))

theorem outcome_nil : outcome ([] : List (Visit α ε)) = .ok [] := rfl

theorem outcome_error (e : RegistryError) : outcome (⟨url, .error e, said⟩ :: visits) = .error e := by
  rw [outcome, List.mapM_cons]
  rfl

theorem outcome_ok (page : Page α) :
    outcome (⟨url, .ok page, said⟩ :: visits) = (outcome visits).map (page.found ++ ·) := by
  rw [outcome, outcome, List.mapM_cons]
  cases visits.mapM Visit.brought <;> rfl

end Outcome

section Follow

variable {m : Type → Type} [Monad m] {α σ ε : Type}

/-- Everything on a number of pages, from an address on, after what was found before. -/
def follow (page : String → m (Except RegistryError (Page α))) :
    (pages : Nat) → (url : String) → List α → m (Except RegistryError (List α))
  | 0, _, found => return .ok found
  | pages + 1, url, found => do
    match ← page url with
    | .error e => return .error e
    | .ok here =>
      match here.next with
      | some next => follow page pages next (found ++ here.found)
      | none => return .ok (found ++ here.found)

/-- Visits from an address on when at most a number of pages are allowed: each page but the last one
names the next, and if more pages are allowed then the last one fails or names none. -/
structure Trail (pages : Nat) (url : String) (visits : List (Visit α ε)) : Prop where
  length_le : visits.length ≤ pages
  starts : ∀ v ∈ visits.head?, v.url = url
  leads : visits.IsChain fun v w => ∃ found, v.brought = .ok ⟨found, some w.url⟩
  ends : visits.length < pages →
    ∃ v, visits.getLast? = some v ∧ ∀ here, v.brought = .ok here → here.next = none

/-- The visits that are made from an address on when at most a number of pages are allowed, with
the state before and after them. -/
inductive Walk (I : Interpreter m σ ε) (page : String → m (Except RegistryError (Page α))) :
    (pages : Nat) → (url : String) → σ → List (Visit α ε) → σ → Prop
  /-- No further page is allowed. -/
  | capped (url : String) (s : σ) : Walk I page 0 url s [] s
  | broken {pages : Nat} {url : String} {s s' : σ} {said : List ε} {e : RegistryError} :
    I.Does (page url) s said (.error e) s' →
      Walk I page (pages + 1) url s [⟨url, .error e, said⟩] s'
  /-- There is no next page. -/
  | last {pages : Nat} {url : String} {s s' : σ} {said : List ε} {found : List α} :
    I.Does (page url) s said (.ok ⟨found, none⟩) s' →
      Walk I page (pages + 1) url s [⟨url, .ok ⟨found, none⟩, said⟩] s'
  | more {pages : Nat} {url next : String} {s s' s'' : σ} {said : List ε} {found : List α}
      {visits : List (Visit α ε)} :
    I.Does (page url) s said (.ok ⟨found, some next⟩) s' → Walk I page pages next s' visits s'' →
      Walk I page (pages + 1) url s (⟨url, .ok ⟨found, some next⟩, said⟩ :: visits) s''

namespace Walk

variable {I : Interpreter m σ ε} {page : String → m (Except RegistryError (Page α))} {pages : Nat}
  {url : String} {s s' : σ} {visits : List (Visit α ε)}

/-- Some walk is taken, whatever the pages are. -/
theorem exists_walk (I : Interpreter m σ ε) (page : String → m (Except RegistryError (Page α)))
    (pages : Nat) (url : String) (s : σ) : ∃ visits s', Walk I page pages url s visits s' := by
  induction pages generalizing url s with
  | zero => exact ⟨[], s, .capped url s⟩
  | succ pages ih =>
    obtain ⟨said, _ | ⟨found, _ | next⟩, s', hdoes⟩ := I.exists_does (page url) s
    · exact ⟨_, s', .broken hdoes⟩
    · exact ⟨_, s', .last hdoes⟩
    · obtain ⟨visits, s'', h⟩ := ih next s'
      exact ⟨_, s'', .more hdoes h⟩

theorem length_le (h : Walk I page pages url s visits s') : visits.length ≤ pages := by
  induction h with
  | capped => exact Nat.le_refl 0
  | broken | last => exact Nat.succ_le_succ (Nat.zero_le _)
  | more _ _ ih => exact Nat.succ_le_succ ih

/-- On each visit the page at its address is asked for. -/
theorem does_visit (h : Walk I page pages url s visits s') :
    ∀ v ∈ visits, ∃ s s', I.Does (page v.url) s v.said v.brought s' := by
  induction h with
  | capped => exact List.forall_mem_nil _
  | broken hdoes | last hdoes => exact List.forall_mem_singleton.mpr ⟨_, _, hdoes⟩
  | more hdoes _ ih => exact List.forall_mem_cons.mpr ⟨⟨_, _, hdoes⟩, ih⟩

/-- What holds of any page that is asked for holds of each visit. -/
theorem forall_visit {P : Visit α ε → Prop}
    (hP : ∀ {url s said brought s'}, I.Does (page url) s said brought s' → P ⟨url, brought, said⟩)
    (h : Walk I page pages url s visits s') : ∀ v ∈ visits, P v := by
  intro v hv
  obtain ⟨_, _, hdoes⟩ := h.does_visit v hv
  exact hP hdoes

/-- A walk that ends before it has to ends at a page that fails or has no next one. -/
theorem ends_at_last (h : Walk I page pages url s visits s') (hshort : visits.length < pages) :
    ∃ v, visits.getLast? = some v ∧ ∀ here, v.brought = .ok here → here.next = none := by
  induction h with
  | capped => cases hshort
  | broken hdoes => exact ⟨_, rfl, fun _ h => nomatch h⟩
  | last hdoes =>
    refine ⟨_, rfl, ?_⟩
    rintro _ ⟨⟩
    rfl
  | more hdoes _ ih =>
    obtain ⟨v, hlast, hnext⟩ := ih (Nat.lt_of_succ_lt_succ hshort)
    exact ⟨v, by rw [List.getLast?_cons, hlast]; rfl, hnext⟩

/-- A walk starts at its address. -/
theorem starts (h : Walk I page pages url s visits s') : ∀ v ∈ visits.head?, v.url = url := by
  cases h <;> simp

/-- The visits of a walk lead from page to page. -/
theorem trail (h : Walk I page pages url s visits s') : Trail pages url visits where
  length_le := h.length_le
  starts := h.starts
  leads := by
    induction h with
    | capped => exact .nil
    | broken | last => exact .singleton _
    | more _ hrest ih =>
      exact List.isChain_cons.mpr ⟨fun w hw => ⟨_, by rw [hrest.starts w hw]⟩, ih⟩
  ends := h.ends_at_last

/-- A part of the state that no page changes is not changed by the walk. -/
theorem keeps {τ : Type} (h : Walk I page pages url s visits s') (part : σ → τ)
    (hpart : ∀ url s, part (I.run (page url) s).2 = part s) : part s' = part s := by
  induction h with
  | capped => rfl
  | @broken _ url s _ _ _ hdoes | @last _ url s _ _ _ hdoes =>
    simpa only [hdoes.run] using hpart url s
  | @more _ url _ s _ _ _ _ _ hdoes _ ih =>
    rw [ih]
    simpa only [hdoes.run] using hpart url s

/-- Following the pages ends with what the visits brought, and says what they say. -/
theorem does_follow (h : Walk I page pages url s visits s') (before : List α) :
    I.Does (follow page pages url before) s (visits.flatMap Visit.said)
      ((outcome visits).map (before ++ ·)) s' := by
  induction h generalizing before with
  | capped =>
    rw [follow, outcome_nil, Except.map, List.append_nil]
    exact I.does_pure _ _
  | broken hdoes =>
    rw [List.flatMap_singleton, outcome_error]
    exact hdoes.bind_pure rfl
  | last hdoes =>
    rw [List.flatMap_singleton, outcome_ok, outcome_nil, Except.map, Except.map, List.append_nil]
    exact hdoes.bind_pure rfl
  | @more _ _ _ _ _ _ _ found visits hdoes _ ih =>
    have hrest := ih (before ++ found)
    rw [List.flatMap_cons, outcome_ok]
    cases houtcome : outcome visits with
    | error e =>
      rw [houtcome] at hrest
      exact hdoes.bind hrest
    | ok rest =>
      rw [houtcome, Except.map, List.append_assoc] at hrest
      exact hdoes.bind hrest

end Walk

/-- **Following pages is a walk**, whatever the pages are. -/
theorem follow_walk (I : Interpreter m σ ε) (page : String → m (Except RegistryError (Page α)))
    (pages : Nat) (url : String) (s : σ) :
    ∃ visits s', Walk I page pages url s visits s' ∧ visits.length ≤ pages ∧
      I.Does (follow page pages url []) s (visits.flatMap Visit.said) (outcome visits) s' := by
  obtain ⟨visits, s', h⟩ := Walk.exists_walk I page pages url s
  refine ⟨visits, s', h, h.length_le, ?_⟩
  have hdoes := h.does_follow []
  rcases houtcome : outcome visits with e | found
  · rwa [houtcome] at hdoes
  · rwa [houtcome] at hdoes

end Follow

end TagWatch
