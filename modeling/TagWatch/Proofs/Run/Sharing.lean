import TagWatch.Client.Prepared
import TagWatch.Proofs.Run.History

/-!
# Calls for one key that share an answer

A fetch that is part of a run looks for a kept answer first and keeps its own in the end. In between
it waits for its permit and for the registry, and meanwhile others may look for an answer to the
same key in vain. Two such calls **overlap**: each of them asks for a client, and the registry may
tell them different things (`History.calls_overlap`).

**Theorem (`History.calls_share`).** In every history, calls for one key both ask for a client
exactly if they overlap. What any other call finds was kept by one that asked for a client. So calls
that do not overlap share one answer, and one client.

A history keeps what each fetch has said, so its protocol tells what it has ended with. An answer
that is found was reported by the call that had kept it (`History.reported`).

The moment to look at is right before the first answer for the key is kept. All look-ups in vain are
before it and all answers are kept after it, so that any two calls that asked for clients overlap
there (`History.overlap_of_misses`).
-/

namespace TagWatch

open FetchProgram (Rest Ends)

/-! ## What is kept -/

namespace Event

variable {event : Event} {k : Key} {result : FetchResult}

/-- The answer that a step of a fetch sets in the context is the one that it keeps. -/
theorem operation?_bind_answer? :
    (operation? event).bind (Context.Operation.answer? k) = some result ↔
      event = ⟨.remember k result, ()⟩ := by
  constructor
  · obtain ⟨q, answer⟩ := event
    cases q with
    | remember k' result' =>
      intro h
      change (if k' = k then some result' else none) = some result at h
      split at h
      · next hk =>
        obtain rfl := Option.some.inj h
        rw [hk]
        rfl
      · cases h
    | _ => rintro ⟨⟩
  · rintro rfl
    exact if_pos rfl

end Event

namespace Context

variable {ctx : Context} {told : List (Nat × Event)} {i : Nat} {k : Key} {result : FetchResult}

theorem get?_after (ctx : Context) (told : List (Nat × Event)) (k : Key) :
    (ctx.after told).get? k = ((told.filterMap fun e =>
      (Event.operation? e.2).bind (Operation.answer? k)).getLast?).or (ctx.get? k) := by
  rw [after, get?_performAll, List.filterMap_filterMap]

/-- What is found was there in the beginning, or was kept by one of the fetches. -/
theorem exists_remember (hget : (ctx.after told).get? k = some result) :
    ctx.get? k = some result ∨ ∃ j, (j, ⟨.remember k result, ()⟩) ∈ told := by
  rw [get?_after, Option.or_eq_some_iff] at hget
  rcases hget with hlast | ⟨-, hget⟩
  · obtain ⟨⟨j, event⟩, hmem, hanswer⟩ := List.mem_filterMap.mp (List.mem_of_getLast? hlast)
    obtain rfl := Event.operation?_bind_answer?.mp hanswer
    exact .inr ⟨j, hmem⟩
  · exact .inl hget

/-- No answer is lost. -/
theorem get?_of_get?_after (h : (ctx.after told).get? k = none) : ctx.get? k = none := by
  rw [get?_after] at h
  exact (Option.or_eq_none_iff.mp h).2

/-- After a fetch has kept its answer there is one. -/
theorem get?_after_ne_none (hmem : (i, ⟨.remember k result, ()⟩) ∈ told) :
    (ctx.after told).get? k ≠ none := by
  rw [get?_after]
  intro hnone
  have hlast := (Option.or_eq_none_iff.mp hnone).1
  rw [List.getLast?_eq_none_iff, List.filterMap_eq_nil_iff] at hlast
  have hanswer := hlast _ hmem
  rw [Event.operation?_bind_answer?.mpr rfl] at hanswer
  cases hanswer

end Context

/-! ## Calls -/

/-- A fetch that is part of a run. -/
structure FetchCall where
  settings : FetchSettings
  request : FetchRequest

namespace FetchCall

/-- What the call does. -/
def program (c : FetchCall) : FetchProgram FetchResponse := .fetch c.settings true c.request

/-- The key that the call is for. -/
def key (c : FetchCall) : Key := c.request.key

end FetchCall

/-- One of some calls, for a given key, is over and has succeeded. -/
structure Succeeds (calls : List FetchCall) (ps : List (FetchProgram FetchResponse)) (k : Key)
    (i : Nat) (response : FetchResponse) : Prop where
  call : ∃ c, calls[i]? = some c ∧ c.key = k
  finished : ps[i]? = some (.done response)
  ok : response.result.error = none

variable {ctx : Context} {calls : List FetchCall} {told : List (Nat × Event)}
  {ps₀ ps : List (FetchProgram FetchResponse)} {i j : Nat} {k : Key}
  {response response' : FetchResponse} {result : FetchResult}

/-- The registries for which a call has asked for a client. -/
def clientsOf (i : Nat) (told : List (Nat × Event)) : List String :=
  (saidBy i told).filterMap Event.client?

/-- Two calls overlap: at some moment both have looked in vain for an answer to a key, and have not
kept their own yet. -/
def Overlap (k : Key) (told : List (Nat × Event)) (i j : Nat) : Prop :=
  ∃ before after, told = before ++ after ∧
    (i, ⟨.lookUp k, none⟩) ∈ before ∧ (j, ⟨.lookUp k, none⟩) ∈ before ∧
    (∃ result, (i, ⟨.remember k result, ()⟩) ∈ after) ∧
    ∃ result, (j, ⟨.remember k result, ()⟩) ∈ after

/-- No two of the calls for a key that have succeeded overlap. -/
def Apart (calls : List FetchCall) (ps : List (FetchProgram FetchResponse)) (k : Key)
    (told : List (Nat × Event)) : Prop :=
  ∀ i j response response', Succeeds calls ps k i response → Succeeds calls ps k j response' →
    i ≠ j → ¬ Overlap k told i j

/-- A call of a pool whose value is free of errors has succeeded. -/
theorem succeeds_of_value {c : FetchCall} (hc : calls[i]? = some c)
    (hvalue : (ps.map Program.value?)[i]? = some (some response))
    (hok : response.result.error = none) : Succeeds calls ps c.key i response := by
  rw [List.getElem?_map, Option.map_eq_some_iff] at hvalue
  obtain ⟨p, hp, hover⟩ := hvalue
  cases p with
  | done r =>
    obtain rfl := Option.some.inj hover
    exact ⟨⟨c, hc, rfl⟩, hp, hok⟩
  | ask q next => cases hover

theorem Succeeds.unique (h : Succeeds calls ps k i response)
    (h' : Succeeds calls ps k i response') : response' = response := by
  have hover := h'.finished
  rw [h.finished] at hover
  exact (Program.done.inj (Option.some.inj hover)).symm

/-- If an answer for a key is kept, one is kept first. -/
theorem exists_first_remember (hkeep : (i, ⟨.remember k result, ()⟩) ∈ told) :
    ∃ before m first after, told = before ++ (m, ⟨.remember k first, ()⟩) :: after ∧
      ∀ j result', (j, ⟨.remember k result', ()⟩) ∉ before := by
  let keeps (e : Nat × Event) : Bool := (Event.kept? e.2).map (·.1) = some k
  have hkeeps (j : Nat) (result' : FetchResult) :
      keeps (j, ⟨.remember k result', ()⟩) = true := decide_eq_true rfl
  obtain ⟨⟨m, event⟩, hfirst⟩ : ∃ e, told.find? keeps = some e := by
    rw [← Option.isSome_iff_exists, List.find?_isSome]
    exact ⟨_, hkeep, hkeeps i result⟩
  obtain ⟨hevent, before, after, hsplit, hbefore⟩ := List.find?_eq_some_iff_append.mp hfirst
  obtain ⟨⟨k', first⟩, hkept, rfl⟩ := Option.map_eq_some_iff.mp (of_decide_eq_true hevent)
  obtain rfl := Event.kept?_eq_some_iff.mp hkept
  refine ⟨before, m, first, after, hsplit, fun j result' hmem => ?_⟩
  have hnot := hbefore _ hmem
  rw [hkeeps] at hnot
  cases hnot

namespace History

/-- A call has come to a point that tells what it has said. -/
theorem call_tells {c : FetchCall} (h : History ctx (calls.map FetchCall.program) told ps)
    (hc : calls[i]? = some c) :
    ∃ p st n, ps[i]? = some p ∧ Rest c.key true p st n ∧ st.Tells c.key (saidBy i told) := by
  have hprogram : (calls.map FetchCall.program)[i]? = some c.program := by
    rw [List.getElem?_map, hc]
    rfl
  exact h.tells hprogram (FetchProgram.rest_fetch true)

/-- A call that has succeeded has found a kept answer and asked for no client, or it has looked in
vain, asked for one client and kept its answer. -/
theorem succeeds_cases (h : History ctx (calls.map FetchCall.program) told ps)
    (hs : Succeeds calls ps k i response) :
    (response.cacheHit = true ∧ clientsOf i told = [] ∧
      (i, ⟨.lookUp k, some response.result⟩) ∈ told ∧ (i, ⟨.lookUp k, none⟩) ∉ told) ∨
    (response.cacheHit = false ∧ clientsOf i told = [k.registry] ∧
      (i, ⟨.lookUp k, none⟩) ∈ told ∧ (i, ⟨.remember k response.result, ()⟩) ∈ told) := by
  obtain ⟨⟨c, hc, hkey⟩, hover, hok⟩ := hs
  obtain ⟨p, st, n, hp, hrest, htells⟩ := h.call_tells hc
  rw [hkey] at hrest htells
  obtain rfl := Option.some.inj (hp.symm.trans hover)
  have hends : Ends true st response := hrest
  cases hends with
  | found result _ =>
    refine .inl ⟨rfl, htells.asked, htells.mem_looked.mpr List.mem_cons_self, fun hmem => ?_⟩
    have hfound := List.mem_singleton.mp (htells.mem_looked.mp hmem)
    exact nomatch (Prod.mk.inj hfound).2
  | kept result waited _ _ =>
    exact .inr ⟨rfl, htells.asked, htells.mem_looked.mpr List.mem_cons_self,
      htells.mem_entries.mpr List.mem_cons_self⟩
  | failed e waited => cases hok
  | alone result waited hrun => cases hrun

theorem said_of_miss (h : History ctx (calls.map FetchCall.program) told ps)
    (hs : Succeeds calls ps k i response) (hmiss : response.cacheHit = false) :
    clientsOf i told = [k.registry] ∧ (i, ⟨.lookUp k, none⟩) ∈ told ∧
      (i, ⟨.remember k response.result, ()⟩) ∈ told := by
  obtain ⟨hhit, -⟩ | ⟨-, hsaid⟩ := h.succeeds_cases hs
  · rw [hmiss] at hhit
    cases hhit
  · exact hsaid

/-- A call that has kept an answer has succeeded with it, and has not found it. -/
theorem succeeds_of_remember (h : History ctx (calls.map FetchCall.program) told ps)
    (hmem : (i, ⟨.remember k result, ()⟩) ∈ told) :
    ∃ response, Succeeds calls ps k i response ∧ response.cacheHit = false ∧
      response.result = result := by
  obtain ⟨p, hp⟩ := h.exists_program hmem
  rw [List.getElem?_map, Option.map_eq_some_iff] at hp
  obtain ⟨c, hc, -⟩ := hp
  obtain ⟨p, st, n, hp, hrest, htells⟩ := h.call_tells hc
  obtain ⟨hkey, rfl⟩ := Course.eq_kept (c := ⟨⟨c.key, true⟩, st⟩) (htells.mem_entries.mp hmem)
  obtain ⟨response, rfl, rfl, hhit, hok⟩ := FetchProgram.over_of_rest_kept hrest
  exact ⟨response, ⟨⟨c, hc, hkey⟩, hp, hok⟩, hhit, rfl⟩

/-- What a call has found was kept at the moment of its look-up: from the beginning, or by a call
that has succeeded with it. -/
theorem exists_source (h : History ctx (calls.map FetchCall.program) told ps)
    (hfound : (i, ⟨.lookUp k, some result⟩) ∈ told) :
    ∃ before after, told = before ++ (i, ⟨.lookUp k, some result⟩) :: after ∧
      (ctx.after before).get? k = some result ∧
      (ctx.get? k = some result ∨ ∃ j, (j, ⟨.remember k result, ()⟩) ∈ before ∧
        ∃ response, Succeeds calls ps k j response ∧ response.cacheHit = false ∧
          response.result = result) := by
  obtain ⟨before, after, hsplit⟩ := List.append_of_mem hfound
  have hget : (ctx.after before).get? k = some result := (h.fits hsplit).symm
  refine ⟨before, after, hsplit, hget, (Context.exists_remember hget).imp_right ?_⟩
  rintro ⟨j, hremember⟩
  refine ⟨j, hremember, h.succeeds_of_remember (i := j) ?_⟩
  rw [hsplit]
  exact List.mem_append_left _ hremember

/-- A call that is over has kept to its protocol. -/
theorem protocol (h : History ctx (calls.map FetchCall.program) told ps)
    (hi : ps[i]? = some (.done response)) : ∃ c : FetchCall,
      c.request.Protocol c.settings true (saidBy i told) response := by
  obtain ⟨p, hp⟩ : ∃ p, (calls.map FetchCall.program)[i]? = some p := by
    have hlt := (List.getElem?_eq_some_iff.mp hi).1
    rw [h.length_eq] at hlt
    exact ⟨_, List.getElem?_eq_getElem hlt⟩
  obtain ⟨p', hp', hsays⟩ := h.program_says hp
  rw [List.getElem?_map, Option.map_eq_some_iff] at hp
  obtain ⟨c, -, rfl⟩ := hp
  obtain rfl := Option.some.inj (hp'.symm.trans hi)
  exact ⟨c, FetchProgram.says_fetch_iff.mp hsays⟩

/-- When nothing was kept before, every answer was reported by a fetch that visited its registry: by
the call itself, or by the one that had kept it. -/
theorem reported (h : History ctx (calls.map FetchCall.program) told ps)
    (hempty : ∀ k, ctx.get? k = none) (hi : ps[i]? = some (.done response)) :
    ∃ r : FetchRequest, r.Reports response.result := by
  have hanew {j : Nat} {response : FetchResponse} (hj : ps[j]? = some (.done response))
      (hmiss : response.cacheHit = false) : ∃ r : FetchRequest, r.Reports response.result := by
    obtain ⟨c, hprotocol⟩ := h.protocol hj
    exact ⟨c.request, hprotocol.reports hmiss⟩
  obtain ⟨c, hprotocol⟩ := h.protocol hi
  cases hhit : response.cacheHit with
  | false => exact hanew hi hhit
  | true =>
    have hfound : (i, ⟨.lookUp c.request.key, some response.result⟩) ∈ told := by
      generalize hsaid : saidBy i told = said at hprotocol
      cases hprotocol with
      | kept result _ => exact mem_saidBy_iff.mp (hsaid ▸ List.mem_singleton_self _)
      | anew hvisit =>
        cases hvisit <;> cases hhit
    obtain ⟨-, -, -, -, hget | ⟨j, -, source, hsource, hmiss, hresult⟩⟩ := h.exists_source hfound
    · rw [hempty] at hget
      cases hget
    · rw [← hresult]
      exact hanew hsource.finished hmiss

/-- Nobody looks in vain if there was an answer in the beginning. -/
theorem get?_eq_none_of_lookUp (h : History ctx ps₀ told ps)
    (hlook : (i, ⟨.lookUp k, none⟩) ∈ told) : ctx.get? k = none := by
  obtain ⟨before, after, hsplit⟩ := List.append_of_mem hlook
  have hnone : none = (ctx.after before).get? k := h.fits hsplit
  exact Context.get?_of_get?_after hnone.symm

/-- Nobody looks in vain once an answer is kept. -/
theorem not_mem_of_remember {before after : List (Nat × Event)} (h : History ctx ps₀ told ps)
    (hsplit : told = before ++ (j, ⟨.remember k result, ()⟩) :: after) :
    (i, ⟨.lookUp k, none⟩) ∉ after := by
  intro hmem
  obtain ⟨between, rest, rfl⟩ := List.append_of_mem hmem
  rw [← List.cons_append, ← List.append_assoc] at hsplit
  have hnone : none = (ctx.after (before ++ (j, ⟨.remember k result, ()⟩) :: between)).get? k :=
    h.fits hsplit
  exact Context.get?_after_ne_none (List.mem_append_right _ List.mem_cons_self) hnone.symm

/-- Two calls that have looked in vain and kept their answers overlap: the moment is right before
the first answer for the key is kept. -/
theorem overlap_of_misses (h : History ctx ps₀ told ps) {result' : FetchResult}
    (hlook : (i, ⟨.lookUp k, none⟩) ∈ told) (hlook' : (j, ⟨.lookUp k, none⟩) ∈ told)
    (hkeep : (i, ⟨.remember k result, ()⟩) ∈ told)
    (hkeep' : (j, ⟨.remember k result', ()⟩) ∈ told) : Overlap k told i j := by
  obtain ⟨before, m, first, after, hsplit, hbefore⟩ := exists_first_remember hkeep
  have hearly {i : Nat} (hlook : (i, ⟨.lookUp k, none⟩) ∈ told) :
      (i, ⟨.lookUp k, none⟩) ∈ before := by
    rw [hsplit] at hlook
    rcases List.mem_append.mp hlook with hmem | hmem
    · exact hmem
    · rcases List.mem_cons.mp hmem with heq | hmem
      · cases heq
      · exact absurd hmem (h.not_mem_of_remember hsplit)
  have hlate {i : Nat} {result : FetchResult} (hkeep : (i, ⟨.remember k result, ()⟩) ∈ told) :
      (i, ⟨.remember k result, ()⟩) ∈ (m, ⟨.remember k first, ()⟩) :: after := by
    rw [hsplit] at hkeep
    exact (List.mem_append.mp hkeep).resolve_left (hbefore i result)
  exact ⟨before, _, hsplit, hearly hlook, hearly hlook', ⟨_, hlate hkeep⟩, _, hlate hkeep'⟩

/-- Calls that have succeeded overlap exactly if none of them has found its answer. -/
theorem overlap_iff (h : History ctx (calls.map FetchCall.program) told ps)
    (hi : Succeeds calls ps k i response) (hj : Succeeds calls ps k j response') :
    response.cacheHit = false ∧ response'.cacheHit = false ↔ Overlap k told i j := by
  constructor
  · rintro ⟨hmiss, hmiss'⟩
    obtain ⟨-, hlook, hkeep⟩ := h.said_of_miss hi hmiss
    obtain ⟨-, hlook', hkeep'⟩ := h.said_of_miss hj hmiss'
    exact h.overlap_of_misses hlook hlook' hkeep hkeep'
  · rintro ⟨before, after, rfl, hlook, hlook', -⟩
    have hmiss := (h.succeeds_cases hi).resolve_left fun hhit =>
      hhit.2.2.2 (List.mem_append_left _ hlook)
    have hmiss' := (h.succeeds_cases hj).resolve_left fun hhit =>
      hhit.2.2.2 (List.mem_append_left _ hlook')
    exact ⟨hmiss.1, hmiss'.1⟩

/-- Every answer was there in the beginning, or goes back to a call that has not found it. -/
theorem exists_miss (h : History ctx (calls.map FetchCall.program) told ps)
    (hs : Succeeds calls ps k i response) :
    ctx.get? k = some response.result ∨ ctx.get? k = none ∧ ∃ j response',
      Succeeds calls ps k j response' ∧ response'.cacheHit = false ∧
        response'.result = response.result := by
  have hmiss {j : Nat} {response' : FetchResponse} (hj : Succeeds calls ps k j response')
      (hmiss : response'.cacheHit = false) : ctx.get? k = none :=
    h.get?_eq_none_of_lookUp (h.said_of_miss hj hmiss).2.1
  obtain ⟨-, -, hfound, -⟩ | ⟨hanew, -⟩ := h.succeeds_cases hs
  · obtain ⟨-, -, -, -, hget | ⟨j, -, response', hj, hanew, hresult⟩⟩ := h.exists_source hfound
    · exact .inl hget
    · exact .inr ⟨hmiss hj hanew, j, response', hj, hanew, hresult⟩
  · exact .inr ⟨hmiss hs hanew, i, response, hs, hanew, rfl⟩

/-- Of calls that do not overlap, one at most has not found its answer. -/
theorem eq_of_misses (h : History ctx (calls.map FetchCall.program) told ps)
    (hapart : Apart calls ps k told) (hi : Succeeds calls ps k i response)
    (hj : Succeeds calls ps k j response') (hmiss : response.cacheHit = false)
    (hmiss' : response'.cacheHit = false) : i = j := by
  by_contra hne
  exact hapart i j response response' hi hj hne ((h.overlap_iff hi hj).mp ⟨hmiss, hmiss'⟩)

/-- Calls that do not overlap have one result. -/
theorem result_eq_of_apart (h : History ctx (calls.map FetchCall.program) told ps)
    (hapart : Apart calls ps k told) (hi : Succeeds calls ps k i response)
    (hj : Succeeds calls ps k j response') : response'.result = response.result := by
  obtain hget | ⟨hnone, m, source, hm, hmiss, hresult⟩ := h.exists_miss hi
  · obtain hget' | ⟨hnone, -⟩ := h.exists_miss hj
    · exact Option.some.inj (hget'.symm.trans hget)
    · rw [hnone] at hget
      cases hget
  · obtain hget | ⟨-, m', source', hm', hmiss', hresult'⟩ := h.exists_miss hj
    · rw [hnone] at hget
      cases hget
    · obtain rfl := h.eq_of_misses hapart hm hm' hmiss hmiss'
      rw [← hresult, ← hresult', hm.unique hm']

/-- One alone of the calls that do not overlap has asked for a client, if nothing was kept in the
beginning. -/
theorem existsUnique_of_apart (h : History ctx (calls.map FetchCall.program) told ps)
    (hapart : Apart calls ps k told) (hs : Succeeds calls ps k i response)
    (hnew : ctx.get? k = none) :
    ∃! j, clientsOf j told ≠ [] ∧ ∃ response', Succeeds calls ps k j response' := by
  obtain hget | ⟨-, m, source, hm, hmiss, -⟩ := h.exists_miss hs
  · rw [hnew] at hget
    cases hget
  · refine ⟨m, ⟨?_, source, hm⟩, ?_⟩
    · rw [(h.said_of_miss hm hmiss).1]
      exact List.cons_ne_nil _ _
    · rintro j ⟨hclients, response', hj⟩
      obtain ⟨-, hnone, -⟩ | ⟨hmiss', -⟩ := h.succeeds_cases hj
      · exact absurd hnone hclients
      · exact h.eq_of_misses hapart hj hm hmiss' hmiss

/-- **Calls for one key share an answer unless they overlap.** A call that succeeds asks for one
client, or it asks for none and has found the answer that was kept last; unless that was kept from
the beginning, a call that asked for a client had kept it by then. Two calls both ask for a client
exactly if they overlap. When no two calls that succeed overlap, all of them have one result, and
one of them alone has asked for a client if nothing was kept in the beginning. -/
theorem calls_share (h : History ctx (calls.map FetchCall.program) told ps) (k : Key) :
    (∀ i response, Succeeds calls ps k i response →
      clientsOf i told = (if response.cacheHit then [] else [k.registry]) ∧
      (response.cacheHit = true → ∃ before after,
        told = before ++ (i, ⟨.lookUp k, some response.result⟩) :: after ∧
        (ctx.after before).get? k = some response.result ∧
        (ctx.get? k = some response.result ∨
          ∃ j, (j, ⟨.remember k response.result, ()⟩) ∈ before ∧
            ∃ response', Succeeds calls ps k j response' ∧ response'.cacheHit = false ∧
              response'.result = response.result))) ∧
    (∀ i j response response', Succeeds calls ps k i response → Succeeds calls ps k j response' →
      i ≠ j → (response.cacheHit = false ∧ response'.cacheHit = false ↔ Overlap k told i j)) ∧
    (Apart calls ps k told → ∀ i response, Succeeds calls ps k i response →
      (∀ j response', Succeeds calls ps k j response' → response'.result = response.result) ∧
      (ctx.get? k = none →
        ∃! j, clientsOf j told ≠ [] ∧ ∃ response', Succeeds calls ps k j response')) := by
  refine ⟨fun i response hs => ?_, fun i j _ _ hi hj _ => h.overlap_iff hi hj, ?_⟩
  · obtain ⟨hhit, hclients, hfound, -⟩ | ⟨hmiss, hclients, -, -⟩ := h.succeeds_cases hs
    · refine ⟨by rw [hclients, hhit, if_pos rfl], fun _ => ?_⟩
      exact h.exists_source hfound
    · rw [hmiss]
      exact ⟨hclients, Bool.noConfusion⟩
  · intro hapart i response hs
    exact ⟨fun j response' hj => h.result_eq_of_apart hapart hs hj,
      h.existsUnique_of_apart hapart hs⟩

end History

/-- The second of two calls in a pool finds the answer of the first one. -/
theorem History.calls_share_second :
    let c : FetchCall := ⟨{}, ⟨"ghcr.io", "tool", "1.0.0", .patch, false, none⟩⟩
    let s : Prepared.State := ⟨⟨[("tool", { tags := some ["1.0.0", "1.0.1"] })]⟩, ⟨[]⟩, []⟩
    let w : World Prepared.State := .fresh (.fresh ⟨[]⟩ 2) s
    ∃ told ps, History w.context ([c, c].map FetchCall.program) told ps ∧
      (Pool.run Prepared.service ([c, c].map FetchCall.program) w).1 = ps.map Program.value? ∧
      ∃! j, clientsOf j told ≠ [] ∧ ∃ response, Succeeds [c, c] ps c.key j response := by
  intro c s w
  obtain ⟨told, ps, h, hvalues⟩ :=
    Pool.run_history Prepared.service ([c, c].map FetchCall.program) w
  refine ⟨told, ps, h, hvalues, ?_⟩
  let result : FetchResult := .success ["1.0.0", "1.0.1"] (some "1.0.1") (some "1.0.1") none
  have hrun : (Pool.run Prepared.service ([c, c].map FetchCall.program) w).1 =
      [some ⟨result, false, 0⟩, some ⟨result, true, 0⟩] := by decide +kernel
  rw [hrun] at hvalues
  have hfirst : Succeeds [c, c] ps c.key 0 ⟨result, false, 0⟩ :=
    succeeds_of_value rfl (by rw [← hvalues]; rfl) rfl
  have hsecond : Succeeds [c, c] ps c.key 1 ⟨result, true, 0⟩ :=
    succeeds_of_value rfl (by rw [← hvalues]; rfl) rfl
  obtain ⟨-, hoverlap, hshare⟩ := calls_share h c.key
  have hlt {i : Nat} {response : FetchResponse} (hs : Succeeds [c, c] ps c.key i response) :
      i < 2 := by
    obtain ⟨d, hd, -⟩ := hs.call
    exact (List.getElem?_eq_some_iff.mp hd).1
  refine (hshare (fun i j response response' hi hj hne hover => ?_) 0 _ hfirst).2 rfl
  obtain ⟨hmiss, hmiss'⟩ := (hoverlap i j response response' hi hj hne).mpr hover
  obtain rfl | rfl : i = 1 ∨ j = 1 := by
    have := hlt hi
    have := hlt hj
    omega
  · rw [hsecond.unique hi] at hmiss
    cases hmiss
  · rw [hsecond.unique hj] at hmiss'
    cases hmiss'

/-- Two calls for one key overlap: both ask for a client, and they have different results, because a
question fails for the one and not for the other. -/
theorem History.calls_overlap :
    let c : FetchCall := ⟨{}, ⟨"ghcr.io", "tool", "1.0.0", .patch, false, none⟩⟩
    let image : Prepared.Image :=
      { latencyMs := 10
        tags := some ["1.0.0", "1.0.1", "2.0.0"]
        failures := ⟨[(.latestOverall, ⟨.network (.unreachable "down"), some 1⟩)]⟩ }
    let w : World Prepared.State := .fresh (.fresh ⟨[]⟩ 2) ⟨⟨[("tool", image)]⟩, ⟨[]⟩, []⟩
    ∃ told ps response response', History w.context ([c, c].map FetchCall.program) told ps ∧
      Succeeds [c, c] ps c.key 0 response ∧ Succeeds [c, c] ps c.key 1 response' ∧
      response.result ≠ response'.result ∧
      clientsOf 0 told = ["ghcr"] ∧ clientsOf 1 told = ["ghcr"] := by
  intro c image w
  obtain ⟨told, ps, h, hvalues⟩ :=
    Pool.run_history Prepared.service ([c, c].map FetchCall.program) w
  let result (overall : Option String) : FetchResult :=
    .success ["1.0.0", "1.0.1", "2.0.0"] (some "1.0.1") overall none
  have hrun : (Pool.run Prepared.service ([c, c].map FetchCall.program) w).1 =
      [some ⟨result none, false, 0⟩, some ⟨result (some "2.0.0"), false, 0⟩] := by decide +kernel
  rw [hrun] at hvalues
  have hfirst : Succeeds [c, c] ps c.key 0 ⟨result none, false, 0⟩ :=
    succeeds_of_value rfl (by rw [← hvalues]; rfl) rfl
  have hsecond : Succeeds [c, c] ps c.key 1 ⟨result (some "2.0.0"), false, 0⟩ :=
    succeeds_of_value rfl (by rw [← hvalues]; rfl) rfl
  have hregistry : c.key.registry = "ghcr" := by decide +kernel
  have hclients {i : Nat} {response : FetchResponse} (hs : Succeeds [c, c] ps c.key i response)
      (hmiss : response.cacheHit = false) : clientsOf i told = ["ghcr"] := by
    rw [← hregistry]
    exact (h.said_of_miss hs hmiss).1
  exact ⟨told, ps, _, _, h, hfirst, hsecond, by decide, hclients hfirst rfl, hclients hsecond rfl⟩

end TagWatch
