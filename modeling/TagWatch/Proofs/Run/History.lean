import TagWatch.Proofs.Fetch.Conversation
import TagWatch.Proofs.Run.Inquiries
import TagWatch.Proofs.Run.Operations

/-!
# Histories of fetches that share a context

A **history** of some fetches is the list of the steps that they have taken, in order, each with its
answer. Any fetch that is not over may take the next step. A look-up finds what is kept at that
moment; every other step may be answered in any way, so that nothing is assumed about the registries
or the limiter.

**Theorem (`Pool.run_history`).** Every run of a pool has a history.

How far a fetch has come tells what it has said about its key (`Progress.Tells`): whether it has
looked for an answer and what it has found, the clients that it has asked for, and the answer that
it has kept. A step says one thing more (`Progress.Tells.step`), and the steps of the others say
nothing for it (`History.tells`).
-/

namespace TagWatch

open FetchProgram (Rest Ends)

/-! ## Steps and the context -/

/-- What a step of a fetch does with the context. -/
def Event.operation? : Event → Option Context.Operation
  | ⟨.lookUp k, _⟩ => some (.get k)
  | ⟨.remember k result, _⟩ => some (.set k result)
  | ⟨.acquire _, _⟩ | ⟨.connect _, _⟩ | ⟨.call _ _, _⟩ | ⟨.release, _⟩ => none

namespace Context

/-- The context after some steps, each of a fetch that is told by its number. -/
def after (ctx : Context) (told : List (Nat × Event)) : Context :=
  ctx.performAll (told.filterMap fun e => Event.operation? e.2)

/-- A look-up finds what is kept. -/
def Fits (ctx : Context) : Event → Prop
  | ⟨.lookUp k, found⟩ => found = ctx.get? k
  | ⟨.remember _ _, _⟩ | ⟨.acquire _, _⟩ | ⟨.connect _, _⟩ | ⟨.call _ _, _⟩ | ⟨.release, _⟩ => True

variable {ctx : Context} {told : List (Nat × Event)} {k : Key} {result : FetchResult}

theorem after_concat (ctx : Context) (told : List (Nat × Event)) (e : Nat × Event) :
    ctx.after (told ++ [e]) = (ctx.after told).performAll (Event.operation? e.2).toList := by
  rw [after, filterMap_concat, performAll_append, after]

/-- The steps of fetches leave the counters alone. -/
theorem metrics_after (ctx : Context) (told : List (Nat × Event)) :
    (ctx.after told).metrics = ctx.metrics := by
  induction told using List.reverseRecOn with
  | nil => rfl
  | append_singleton told e ih =>
    obtain ⟨i, q, answer⟩ := e
    rw [after_concat, ← ih]
    cases q <;> rfl

end Context

/-! ## Histories -/

/-- What some fetches have said one after another, from a context on, and what is left of them. -/
inductive History (ctx : Context) (ps : List (FetchProgram FetchResponse)) :
    List (Nat × Event) → List (FetchProgram FetchResponse) → Prop where
  | nil : History ctx ps [] ps
  | snoc {told : List (Nat × Event)} {ps' : List (FetchProgram FetchResponse)} {i : Nat}
    {q : FetchStep} {next : q.Answer → FetchProgram FetchResponse} (answer : q.Answer) :
    History ctx ps told ps' → ps'[i]? = some (.ask q next) → (ctx.after told).Fits ⟨q, answer⟩ →
    History ctx ps (told ++ [(i, ⟨q, answer⟩)]) (ps'.set i (next answer))

variable {σ : Type} {service : Service σ} {ctx : Context}
  {ps ps' : List (FetchProgram FetchResponse)} {told : List (Nat × Event)} {i : Nat}
  {k : Key} {st : Progress} {said : List Event} {result : FetchResult}

/-- A step of an interleaving is one of a history, or the beginning of a call. -/
theorem FetchProgram.Step.history {before after : List (FetchProgram FetchResponse)}
    {p p' : FetchProgram FetchResponse} {s s' : Shared σ}
    (h : History ctx ps told (before ++ p :: after)) (hctx : s.context = ctx.after told)
    (hs : FetchProgram.Step service p s p' s') :
    ∃ told', History ctx ps told' (before ++ p' :: after) ∧ s'.context = ctx.after told' := by
  have hplace : (before ++ p :: after)[before.length]? = some p := by simp
  have hset (p' : FetchProgram FetchResponse) :
      (before ++ p :: after).set before.length p' = before ++ p' :: after := by simp
  -- a step that is answered
  have hsnoc {q : FetchStep} {next : q.Answer → FetchProgram FetchResponse} (answer : q.Answer)
      (hp : p = .ask q next) (hfits : s.context.Fits ⟨q, answer⟩)
      (hcontext : s'.context = s.context.performAll (Event.operation? ⟨q, answer⟩).toList) :
      ∃ told', History ctx ps told' (before ++ next answer :: after) ∧
        s'.context = ctx.after told' := by
    subst hp
    rw [hctx] at hfits hcontext
    refine ⟨_, hset (next answer) ▸ h.snoc answer hplace hfits, ?_⟩
    rw [hcontext, Context.after_concat]
  cases hs with
  | lookUp key next => exact hsnoc (q := FetchStep.lookUp key) _ rfl rfl rfl
  | acquire registry next waited => exact hsnoc (q := FetchStep.acquire registry) _ rfl trivial rfl
  | connect registry next => exact hsnoc (q := FetchStep.connect registry) _ rfl trivial rfl
  | start id call next => exact ⟨told, h, hctx⟩
  | answer id call next => exact hsnoc (q := FetchStep.call id call) _ rfl trivial rfl
  | release next => exact hsnoc (q := FetchStep.release) _ rfl trivial rfl
  | remember key result next => exact hsnoc (q := FetchStep.remember key result) _ rfl trivial rfl

/-- An interleaving has a history. -/
theorem Interleaved.history {s s' : Shared σ} (h : Interleaved service ps s ps' s') :
    ∃ told, History s.context ps told ps' ∧ s'.context = s.context.after told := by
  induction h with
  | refl => exact ⟨[], .nil, rfl⟩
  | tail _ hs ih =>
    obtain ⟨told, htold, hcontext⟩ := ih
    exact hs.history htold hcontext

/-- **Every run of a pool has a history.** -/
theorem Pool.run_history (service : Service σ) (ps : List (FetchProgram FetchResponse))
    (w : World σ) : ∃ told ps', History w.context ps told ps' ∧
      (Pool.run service ps w).1 = ps'.map Program.value? := by
  obtain ⟨ps', hinterleaved, hvalues⟩ := Pool.run_interleaved service ps w
  obtain ⟨told, htold, -⟩ := hinterleaved.history
  exact ⟨told, ps', htold, hvalues⟩

/-! ## What a fetch has said -/

namespace Event

/-- The key that is looked up, with what is found. -/
def lookUp? : Event → Option (Key × Option FetchResult)
  | ⟨.lookUp k, found⟩ => some (k, found)
  | ⟨.remember _ _, _⟩ | ⟨.acquire _, _⟩ | ⟨.connect _, _⟩ | ⟨.call _ _, _⟩ | ⟨.release, _⟩ => none

/-- The registry for which a client is asked for. -/
def client? : Event → Option String
  | ⟨.connect registry, _⟩ => some registry
  | ⟨.lookUp _, _⟩ | ⟨.remember _ _, _⟩ | ⟨.acquire _, _⟩ | ⟨.call _ _, _⟩ | ⟨.release, _⟩ => none

/-- The answer that is kept, with its key. -/
def kept? : Event → Option (Key × FetchResult)
  | ⟨.remember k result, _⟩ => some (k, result)
  | ⟨.lookUp _, _⟩ | ⟨.acquire _, _⟩ | ⟨.connect _, _⟩ | ⟨.call _ _, _⟩ | ⟨.release, _⟩ => none

variable {event : Event} {k : Key} {found : Option FetchResult} {result : FetchResult}

theorem lookUp?_eq_some_iff : lookUp? event = some (k, found) ↔ event = ⟨.lookUp k, found⟩ := by
  constructor
  · obtain ⟨q, answer⟩ := event
    cases q <;> rintro ⟨⟩
    rfl
  · rintro rfl
    rfl

theorem kept?_eq_some_iff : kept? event = some (k, result) ↔ event = ⟨.remember k result, ()⟩ := by
  constructor
  · obtain ⟨q, answer⟩ := event
    cases q <;> rintro ⟨⟩
    rfl
  · rintro rfl
    rfl

end Event

/-- What a fetch of a key that is part of a run has looked up. -/
def Progress.looked (key : Key) : Progress → List (Key × Option FetchResult)
  | unbegun => []
  | found result => [(key, some result)]
  | missed | admitted | refused | served _ | finished | kept _ => [(key, none)]

/-- How far a fetch of a key has come tells what it has said. -/
structure Progress.Tells (key : Key) (st : Progress) (said : List Event) : Prop where
  looked : said.filterMap Event.lookUp? = st.looked key
  asked : said.filterMap Event.client? = st.asked key.registry
  kept : said.filterMap Event.kept? = st.entries key

theorem Progress.tells_unbegun (k : Key) : Progress.unbegun.Tells k [] := ⟨rfl, rfl, rfl⟩

/-- A fetch that has come to one point comes to another one by saying one thing more. -/
theorem Progress.Tells.concat {st' : Progress} {event : Event} (h : st.Tells k said)
    (hlooked : st'.looked k = st.looked k ++ (Event.lookUp? event).toList)
    (hasked : st'.asked k.registry = st.asked k.registry ++ (Event.client? event).toList)
    (hkept : st'.entries k = st.entries k ++ (Event.kept? event).toList) :
    st'.Tells k (said ++ [event]) := by
  refine ⟨?_, ?_, ?_⟩
  · rw [filterMap_concat, h.looked, hlooked]
  · rw [filterMap_concat, h.asked, hasked]
  · rw [filterMap_concat, h.kept, hkept]

/-- A step of a fetch, whatever its answer. -/
theorem Progress.Tells.step {q : FetchStep} {next : q.Answer → FetchProgram FetchResponse} {n : Nat}
    (h : st.Tells k said) (hrest : Rest k true (.ask q next) st n) (answer : q.Answer) :
    ∃ st' n', Rest k true (next answer) st' n' ∧ st'.Tells k (said ++ [⟨q, answer⟩]) := by
  cases q with
  | lookUp key =>
    obtain ⟨rfl, rfl, hnone, hsome⟩ := hrest
    cases answer with
    | none => exact ⟨.missed, n, hnone, h.concat rfl rfl rfl⟩
    | some result => exact ⟨.found result, n, hsome result, h.concat rfl rfl rfl⟩
  | acquire registry =>
    obtain ⟨rfl, -, -, hrest⟩ := hrest
    exact ⟨.admitted, _, hrest answer, h.concat rfl rfl rfl⟩
  | connect registry =>
    obtain ⟨rfl, rfl, herror, hok⟩ := hrest
    cases answer with
    | error e => exact ⟨.refused, n, herror e, h.concat rfl rfl rfl⟩
    | ok id => exact ⟨.served id, n, hok id, h.concat rfl rfl rfl⟩
  | call id call =>
    obtain ⟨rfl, -, hrest⟩ := hrest
    exact ⟨.served id, _, hrest answer, h.concat rfl rfl rfl⟩
  | release =>
    obtain ⟨rfl | ⟨id, rfl⟩, -, hrest⟩ := hrest
    · exact ⟨.finished, _, hrest, h.concat rfl rfl rfl⟩
    · exact ⟨.finished, _, hrest, h.concat rfl rfl rfl⟩
  | remember key result =>
    obtain ⟨rfl, rfl, -, hrest⟩ := hrest
    exact ⟨.kept result, n, hrest, h.concat rfl rfl rfl⟩

/-- A fetch that has kept its answer is over, with this answer. -/
theorem FetchProgram.over_of_rest_kept {p : FetchProgram FetchResponse} {n : Nat}
    (h : Rest k true p (.kept result) n) : ∃ response, p = .done response ∧
      response.result = result ∧ response.cacheHit = false ∧ result.error = none := by
  cases p with
  | done response =>
    have hends : Ends true (.kept result) response := h
    cases hends with
    | kept _ waited _ hok => exact ⟨_, rfl, rfl, rfl, hok⟩
  | ask q next =>
    cases q with
    | lookUp key => exact nomatch h.1
    | acquire registry => exact nomatch h.1
    | connect registry => exact nomatch h.1
    | call id call => exact nomatch h.1
    | release =>
      obtain ⟨hst | ⟨id, hst⟩, -⟩ := h
      · cases hst
      · cases hst
    | remember key result => exact nomatch h.1

/-- What the fetch of some number has said. -/
def saidBy (i : Nat) (told : List (Nat × Event)) : List Event :=
  (told.filter (·.1 = i)).map (·.2)

theorem mem_saidBy_iff {event : Event} : event ∈ saidBy i told ↔ (i, event) ∈ told := by
  simp [saidBy]

theorem saidBy_concat (i : Nat) (told : List (Nat × Event)) (e : Nat × Event) :
    saidBy i (told ++ [e]) = saidBy i told ++ if e.1 = i then [e.2] else [] := by
  rw [saidBy, List.filter_append, List.map_append, ← saidBy]
  by_cases h : e.1 = i <;> simp [h]

theorem Progress.Tells.mem_looked {found : Option FetchResult}
    (h : st.Tells k (saidBy i told)) {key : Key} :
    (i, ⟨.lookUp key, found⟩) ∈ told ↔ (key, found) ∈ st.looked k := by
  rw [← h.looked, ← mem_saidBy_iff, List.mem_filterMap]
  constructor
  · exact fun hmem => ⟨_, hmem, rfl⟩
  · rintro ⟨event, hmem, hevent⟩
    rwa [← Event.lookUp?_eq_some_iff.mp hevent]

theorem Progress.Tells.mem_entries (h : st.Tells k (saidBy i told)) {key : Key} :
    (i, ⟨.remember key result, ()⟩) ∈ told ↔ (key, result) ∈ st.entries k := by
  rw [← h.kept, ← mem_saidBy_iff, List.mem_filterMap]
  constructor
  · exact fun hmem => ⟨_, hmem, rfl⟩
  · rintro ⟨event, hmem, hevent⟩
    rwa [← Event.kept?_eq_some_iff.mp hevent]

namespace History

/-- A fetch for a key has come to a point that tells what it has said. -/
theorem tells {p : FetchProgram FetchResponse} {n : Nat} (h : History ctx ps told ps')
    (hp : ps[i]? = some p) (hrest : Rest k true p .unbegun n) :
    ∃ p' st n', ps'[i]? = some p' ∧ Rest k true p' st n' ∧ st.Tells k (saidBy i told) := by
  induction h with
  | nil => exact ⟨p, .unbegun, n, hp, hrest, Progress.tells_unbegun k⟩
  | @snoc told ps' j q next answer _ hj _ ih =>
    obtain ⟨p', st, n', hp', hrest', htells⟩ := ih
    rw [saidBy_concat]
    by_cases hij : j = i
    · subst hij
      obtain rfl := Option.some.inj (hp'.symm.trans hj)
      obtain ⟨st'', n'', hrest'', htells''⟩ := htells.step hrest' answer
      refine ⟨_, st'', n'', ?_, hrest'', by rwa [if_pos rfl]⟩
      exact List.getElem?_set_self (List.getElem?_eq_some_iff.mp hj).1
    · refine ⟨p', st, n', ?_, hrest', ?_⟩
      · rwa [List.getElem?_set_ne hij]
      · rwa [if_neg hij, List.append_nil]

/-- What a fetch has said in a history is what its program says. -/
theorem program_says {p : FetchProgram FetchResponse} (h : History ctx ps told ps')
    (hp : ps[i]? = some p) : ∃ p', ps'[i]? = some p' ∧ p.Says (saidBy i told) p' := by
  induction h with
  | nil => exact ⟨p, hp, .nil p⟩
  | @snoc told ps' j q next answer _ hj _ ih =>
    obtain ⟨p', hp', hsays⟩ := ih
    rw [saidBy_concat]
    by_cases hij : j = i
    · subst hij
      obtain rfl := Option.some.inj (hp'.symm.trans hj)
      refine ⟨next answer, List.getElem?_set_self (List.getElem?_eq_some_iff.mp hj).1, ?_⟩
      rw [if_pos rfl]
      exact hsays.trans (.cons answer (.nil _))
    · refine ⟨p', ?_, ?_⟩
      · rwa [List.getElem?_set_ne hij]
      · rwa [if_neg hij, List.append_nil]

theorem length_eq (h : History ctx ps told ps') : ps'.length = ps.length := by
  induction h with
  | nil => rfl
  | snoc _ _ _ _ ih => rw [List.length_set, ih]

/-- Only the fetches that there are say something. -/
theorem exists_program {event : Event} (h : History ctx ps told ps') (hmem : (i, event) ∈ told) :
    ∃ p, ps[i]? = some p := by
  induction h with
  | nil => cases hmem
  | snoc answer h hj _ ih =>
    rcases List.mem_append.mp hmem with hmem | hmem
    · exact ih hmem
    · obtain ⟨rfl, -⟩ := Prod.mk.inj (List.mem_singleton.mp hmem)
      have hlt := (List.getElem?_eq_some_iff.mp hj).1
      rw [h.length_eq] at hlt
      exact ⟨_, List.getElem?_eq_getElem hlt⟩

/-- Every answer fits the context of its moment. -/
theorem fits {before after : List (Nat × Event)} {e : Nat × Event} (h : History ctx ps told ps')
    (hsplit : told = before ++ e :: after) : (ctx.after before).Fits e.2 := by
  induction h generalizing after with
  | nil => exact absurd hsplit.symm (List.append_ne_nil_of_right_ne_nil _ (List.cons_ne_nil _ _))
  | @snoc told ps' j q next answer _ _ hfits ih =>
    rcases List.eq_nil_or_concat after with rfl | ⟨after, last, rfl⟩
    · obtain ⟨rfl, he⟩ := List.append_inj' hsplit rfl
      obtain rfl := List.singleton_inj.mp he
      exact hfits
    · rw [List.concat_eq_append, ← List.cons_append, ← List.append_assoc] at hsplit
      exact ih (List.append_inj' hsplit rfl).1

end History

end TagWatch
