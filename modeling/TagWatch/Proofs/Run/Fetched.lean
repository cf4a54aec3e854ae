import TagWatch.Proofs.Client.Choice
import TagWatch.Proofs.Run.Accounting
import TagWatch.Proofs.Run.Diary

/-!
# What a check decides on was fetched for its key

**Theorem (`checkContainers_fetched`).** The result that a check decides on was brought home in the
same run by a visit to a registry, and the key of the request is the one that the container looks
for its answer under.

Most groups visit the registry themselves. A group that finds a kept answer owes it to another group
of the run with the same key (`Told.found`), since nothing was kept before the run began, and that
group has visited the registry.

The diary of the run ties the replies of a visit to the service. When the clients choose the newest
tags from lists, the newest tags of the result are chosen for the image, the scope and the choice
about prereleases in the key (`FetchedFor.chosen`).
-/

namespace TagWatch

open Limit (Ticket)

/-! ## Lists side by side -/

section Lists

variable {α β : Type} {R : α → β → Prop} {as : List α} {bs : List β}

theorem forall₂_getElem? (h : List.Forall₂ R as bs) {i : Nat} {a : α} (ha : as[i]? = some a) :
    ∃ b, bs[i]? = some b ∧ R a b := by
  induction h generalizing i with
  | nil => cases ha
  | cons hab _ ih =>
    cases i with
    | zero =>
      obtain rfl := Option.some.inj ha
      exact ⟨_, rfl, hab⟩
    | succ i => exact ih ha

theorem forall₂_of_getElem? (hlength : as.length = bs.length)
    (h : ∀ (i : Nat) a, as[i]? = some a → ∃ b, bs[i]? = some b ∧ R a b) : List.Forall₂ R as bs := by
  induction as generalizing bs with
  | nil =>
    rw [List.length_eq_zero_iff.mp hlength.symm]
    exact .nil
  | cons a as ih =>
    obtain ⟨b, hb, hab⟩ := h 0 a rfl
    cases bs with
    | nil => cases hb
    | cons b' bs =>
      obtain rfl := Option.some.inj hb
      exact .cons hab (ih (Nat.succ.inj hlength) fun i => h (i + 1))

end Lists

/-! ## Results that were fetched -/

/-- A result was fetched for a key: in a diary, some fetch with this key has noted a visit to its
registry that ended with the result. -/
inductive FetchedFor (settings : FetchSettings) (entries : List (Ticket × Note)) (k : Key)
    (result : FetchResult) : Prop where
  | visit {t : Ticket} {r : FetchRequest} {said : List Event} {response : FetchResponse}
    {before : List Note} : r.key = k.asked → r.Visit settings true said response →
    response.result = result → notesOf t entries = before ++ said.flatMap Event.notes →
    FetchedFor settings entries k result

theorem FetchedFor.congr {settings : FetchSettings} {entries : List (Ticket × Note)} {k k' : Key}
    {result : FetchResult} (h : FetchedFor settings entries k result) (hk : k.asked = k'.asked) :
    FetchedFor settings entries k' result := by
  obtain ⟨hkey, hvisit, hresult, hnotes⟩ := h
  exact .visit (hkey.trans hk) hvisit hresult hnotes

variable {σ : Type} {service : Service σ} {settings : FetchSettings} {w w' : World σ}
  {entries : List (Ticket × Note)}

/-- A fetch in a run that finds no kept answer visits its registry. -/
theorem FetchRequest.Protocol.visit {r : FetchRequest} {said : List Event}
    {response : FetchResponse} (h : r.Protocol settings true said response)
    (hmiss : response.cacheHit = false) :
    ∃ visit, said = r.lookUps true ++ visit ∧ r.Visit settings true visit response := by
  cases h with
  | kept result => cases hmiss
  | anew hvisit => exact ⟨_, rfl, hvisit⟩

/-- What becomes of the fetches of some groups, and what they have noted. -/
structure GroupsTold (service : Service σ) (settings : FetchSettings) (w : World σ)
    (groups : List (Key × List Container)) (cs : List Course) (entries : List (Ticket × Note))
    (o : List (Option FetchResponse) × World σ) : Prop where
  told : Told (fun _ _ => True) w (groups.map (·.1.inquiry)) cs o
  diary : Diary service w entries o.2
  said : ∀ i g, groups[i]? = some g → ∃ response said, o.1[i]? = some (some response) ∧
    (FetchRequest.ofKey g.1 (g.2.head?.bind (·.digest))).Protocol settings true said response ∧
    notesOf (w.nextTicket + i) entries = said.flatMap Event.notes

theorem Pool.run_groupsTold (service : Service σ) (settings : FetchSettings) (hr : w.Rested)
    (groups : List (Key × List Container)) : ∃ cs entries,
      GroupsTold service settings w groups cs entries
        (Pool.run service (groups.map fun g => groupFetch settings g.1 g.2) w) := by
  have hmade : List.Forall₂ Inquiry.IsMadeBy (groups.map (·.1.inquiry))
      (groups.map fun g => groupFetch settings g.1 g.2) := by
    rw [List.forall₂_map_left_iff, List.forall₂_map_right_iff, List.forall₂_same]
    exact fun g _ => isMadeBy_groupFetch g.1 g.2
  have hfetches : ∀ program ∈ groups.map fun g => groupFetch settings g.1 g.2,
      program.IsFetch := by
    intro program hmem
    obtain ⟨g, -, rfl⟩ := List.mem_map.mp hmem
    exact FetchProgram.isFetch_fetch settings true _
  obtain ⟨entries, hdiary, hsaid⟩ := Pool.run_diary service hr hfetches
  obtain ⟨cs, htold⟩ := Pool.run_inquiries service.logs_nothing hr hmade
  refine ⟨cs, entries, htold, hdiary, ?_⟩
  intro i g hg
  obtain ⟨response, said, hresponse, hverdict, hnotes⟩ :=
    hsaid i (groupFetch settings g.1 g.2) (by rw [List.getElem?_map, hg]; rfl)
  exact ⟨response, said, hresponse, FetchProgram.says_fetch_iff.mp hverdict, hnotes⟩

section Groups

variable {groups : List (Key × List Container)} {cs : List Course}
  {o : List (Option FetchResponse) × World σ} {i : Nat} {g : Key × List Container}
  {response : FetchResponse}

theorem GroupsTold.inquiry_eq (h : GroupsTold service settings w groups cs entries o) (i : Nat) :
    cs[i]?.map (·.inquiry) = groups[i]?.map (·.1.inquiry) := by
  rw [← List.getElem?_map, ← List.getElem?_map, h.told.traced.inquiries]

/-- A group that finds no kept answer gets what it has fetched itself. -/
theorem GroupsTold.fetched_of_miss (h : GroupsTold service settings w groups cs entries o)
    (hg : groups[i]? = some g) (ho : o.1[i]? = some (some response))
    (hmiss : response.cacheHit = false) : FetchedFor settings entries g.1 response.result := by
  obtain ⟨response', said, ho', hprotocol, hnotes⟩ := h.said i g hg
  obtain rfl : response = response' := Option.some.inj (Option.some.inj (ho.symm.trans ho'))
  obtain ⟨visit, rfl, hvisit⟩ := hprotocol.visit hmiss
  rw [List.flatMap_append] at hnotes
  exact .visit (FetchRequest.key_ofKey _ _) hvisit rfl hnotes

/-- The answer that a group finds was kept by another group with the same key. -/
theorem GroupsTold.exists_kept (h : GroupsTold service settings w groups cs entries o)
    (hempty : w.context.cache = .empty) (hg : groups[i]? = some g)
    (ho : o.1[i]? = some (some response)) (hhit : response.cacheHit = true) :
    ∃ (j : Nat) (g' : Key × List Container) (kept : FetchResponse),
      groups[j]? = some g' ∧ g'.1.asked = g.1.asked ∧ o.1[j]? = some (some kept) ∧
        kept.cacheHit = false ∧ kept.result = response.result := by
  obtain ⟨c, hc, hinquiry⟩ : ∃ c, cs[i]? = some c ∧ c.inquiry = g.1.inquiry := by
    rw [← Option.map_eq_some_iff, h.inquiry_eq, hg]
    rfl
  obtain ⟨_, ho', response', rfl, hends⟩ := forall₂_getElem? h.told.ended hc
  obtain rfl : response = response' := Option.some.inj (Option.some.inj (ho.symm.trans ho'))
  obtain ⟨-, c', hc', hkey, hkept⟩ :=
    h.told.found hempty (List.mem_of_getElem? hc) (hends.eq_found hhit)
  obtain ⟨j, hj⟩ := List.mem_iff_getElem?.mp hc'
  obtain ⟨_, hoj, kept, rfl, hendsKept⟩ := forall₂_getElem? h.told.ended hj
  obtain ⟨g', hg', hinquiry'⟩ : ∃ g', groups[j]? = some g' ∧ g'.1.inquiry = c'.inquiry := by
    rw [← Option.map_eq_some_iff, ← h.inquiry_eq, hj]
    rfl
  have hsame : g'.1.inquiry.key = g.1.inquiry.key := by
    rw [hinquiry', hkey, hinquiry]
  rw [hkept] at hendsKept
  cases hendsKept with
  | kept result waited => exact ⟨j, g', _, hg', hsame, hoj, rfl, rfl⟩

theorem GroupsTold.fetched (h : GroupsTold service settings w groups cs entries o)
    (hempty : w.context.cache = .empty) (hg : groups[i]? = some g) :
    ∃ response, o.1[i]? = some (some response) ∧
      FetchedFor settings entries g.1 response.result := by
  obtain ⟨response, -, ho, -, -⟩ := h.said i g hg
  refine ⟨response, ho, ?_⟩
  cases hhit : response.cacheHit with
  | false => exact h.fetched_of_miss hg ho hhit
  | true =>
    obtain ⟨j, g', kept, hg', hkey, hoj, hmiss, hresult⟩ := h.exists_kept hempty hg ho hhit
    rw [← hresult]
    exact (h.fetched_of_miss hg' hoj hmiss).congr hkey

/-- Every group gets what was fetched for its key. -/
theorem GroupsTold.forall_fetched (h : GroupsTold service settings w groups cs entries o)
    (hempty : w.context.cache = .empty) :
    List.Forall₂ (fun k outcome => ∃ response, outcome = some response ∧
      FetchedFor settings entries k response.result) (groups.map Prod.fst) o.1 := by
  rw [List.forall₂_map_left_iff]
  apply forall₂_of_getElem?
  · have hlength := congrArg List.length h.told.traced.inquiries
    rw [List.length_map, List.length_map] at hlength
    exact hlength.symm.trans h.told.ended.length_eq
  · intro i g hg
    obtain ⟨response, ho, hfor⟩ := h.fetched hempty hg
    exact ⟨some response, ho, response, rfl, hfor⟩

end Groups

/-! ## Checks -/

/-- The world in which the groups of a run are fetched: nothing is kept, and the groups are
counted. -/
def World.grouped (w : World σ) (containers : List Container) (lookup : PrereleaseLookup) :
    World σ :=
  { w with context := (Context.group {} containers lookup).2 }

/-- **What a check decides on was fetched for its key**, in the same run. -/
theorem checkContainers_fetched (service : Service σ) (settings : FetchSettings)
    (containers : List Container) (hr : w.Rested) :
    let lookup := prereleaseLookup settings containers
    let o := checkContainers service settings containers w
    ∃ entries, Diary service (w.grouped containers lookup) entries o.2 ∧
      List.Forall₂ (fun c check => ∃ result,
        FetchedFor settings entries (c.keyIn lookup) result ∧
        check.Says c ((c.state (lookup.getD c.id false)).decide result)) containers o.1.checks := by
  rw [checkContainers_eq]
  dsimp only
  generalize prereleaseLookup settings containers = lookup
  obtain ⟨cs, entries, htold⟩ := Pool.run_groupsTold service settings
    (hr.withContext (Context.group {} containers lookup).2)
    (groupContainers containers lookup).entries
  have hfetched := htold.forall_fetched rfl
  have hdiary := htold.diary
  obtain ⟨-, hmem⟩ := keys_groupContainers containers lookup
  change List.Forall₂ _ (groupContainers containers lookup).keys _ at hfetched
  generalize (groupContainers containers lookup).keys = keys at hmem hfetched ⊢
  generalize Pool.run service _ _ = o at hfetched hdiary ⊢
  have hget (c : Container) (hc : c ∈ containers) :
      ∃ response, (answered keys o.1).get? (c.keyIn lookup) = some response ∧
        FetchedFor settings entries (c.keyIn lookup) response.result :=
    get?_answered ((hmem _).mpr ⟨c, hc, rfl⟩) hfetched
  have hsays := judgeAll_says (fun c hc => (hget c hc).imp fun _ => And.left) o.2.context.metrics
  refine ⟨entries, hdiary, forall₂_imp_mem hsays ?_⟩
  rintro c hc check - ⟨response, hresponse, hverdict⟩
  obtain ⟨response', hresponse', hfor⟩ := hget c hc
  obtain rfl : response = response' := Option.some.inj (hresponse.symm.trans hresponse')
  exact ⟨response.result, hfor, hverdict⟩

/-! ## Newest tags that were fetched -/

/-- A client is called in some state of the service. -/
theorem Diary.exists_answer {t : Ticket} {id : ClientId} {call : Call} {a : call.Answer}
    (h : Diary service w entries w') (hmem : Note.told ⟨.call id call, a⟩ ∈ notesOf t entries) :
    ∃ s, a = (service.answer id call s).1 := by
  induction h with
  | nil => cases hmem
  | passes _ _ ih => exact ih hmem
  | @happens _ _ _ t' note entries hhappens _ ih =>
    rw [show (t', note) :: entries = [(t', note)] ++ entries from rfl, notesOf_append] at hmem
    rcases List.mem_append.mp hmem with hmem | hmem
    · obtain ⟨e, he, hnote⟩ := List.mem_map.mp hmem
      obtain rfl := List.mem_singleton.mp (List.mem_filter.mp he).1
      obtain rfl : note = _ := hnote
      cases hhappens
      exact ⟨_, rfl⟩
    · exact ih hmem

section Replies

variable {r : FetchRequest} {inRun : Bool} {said : List Event} {response : FetchResponse}
  {tag : String} {floating uses : Bool} {replies : List Reply} {e? : Option RegistryError}

/-- The newest tag inside the scope is told in reply to one question, which bears the choice about
prereleases. -/
theorem Asked.latest_chosen (h : Asked (r.questions settings floating uses) replies e?)
    (hchosen : ∀ reply ∈ replies, reply.Chosen)
    (hlatest : replies.findSome? Reply.latest? = some tag) :
    ∃ tags, latestInScope r.tag tags r.scope r.prereleases = some tag := by
  obtain ⟨⟨call, answer⟩, hmem, htag⟩ := List.exists_of_findSome?_eq_some hlatest
  rcases FetchProgram.mem_questions (h.mem _ hmem) with rfl | rfl | rfl | rfl
  · cases htag
  · cases htag
  · rcases answer with error | newest
    · cases htag
    · obtain ⟨tags, rfl⟩ := hchosen _ hmem newest rfl
      exact ⟨tags, htag⟩
  · cases htag

theorem Asked.latestOverall_chosen (h : Asked (r.questions settings floating uses) replies e?)
    (hchosen : ∀ reply ∈ replies, reply.Chosen)
    (hoverall : replies.findSome? Reply.latestOverall? = some tag) :
    ∃ tags, latestOverall r.tag tags r.prereleases = some tag := by
  obtain ⟨⟨call, answer⟩, hmem, htag⟩ := List.exists_of_findSome?_eq_some hoverall
  rcases FetchProgram.mem_questions (h.mem _ hmem) with rfl | rfl | rfl | rfl
  · cases htag
  · cases htag
  · cases htag
  · rcases answer with error | newest
    · cases htag
    · obtain ⟨tags, rfl⟩ := hchosen _ hmem newest rfl
      exact ⟨tags, htag⟩

/-- The newest tags of a result are chosen for the request. -/
theorem FetchRequest.Visit.chosen (h : r.Visit settings inRun said response)
    (hchosen : ∀ id reply, Reply.event id reply ∈ said → reply.Chosen) :
    (∀ tag, response.result.latest = some tag →
      ∃ tags, latestInScope r.tag tags r.scope r.prereleases = some tag) ∧
    ∀ tag, response.result.latestOverall = some tag →
      ∃ tags, TagWatch.latestOverall r.tag tags r.prereleases = some tag := by
  cases h with
  | refused waited e => exact ⟨fun tag h => (nomatch h), fun tag h => (nomatch h)⟩
  | @served waited id floating uses replies e? hasked =>
    cases e? with
    | some e => exact ⟨fun tag h => (nomatch h), fun tag h => (nomatch h)⟩
    | none =>
      have hreplies : ∀ reply ∈ replies, reply.Chosen := by
        intro reply hmem
        apply hchosen id
        apply List.mem_append_left
        apply List.mem_append_right
        apply List.mem_append_left
        exact List.mem_map_of_mem (List.mem_append_right _ hmem)
      refine ⟨fun tag => hasked.latest_chosen hreplies, ?_⟩
      intro tag hoverall
      change (if r.scope = .major then _ else _) = some tag at hoverall
      split at hoverall
      · next hmajor =>
        obtain ⟨tags, htags⟩ := hasked.latest_chosen hreplies hoverall
        rw [hmajor] at htags
        exact ⟨tags, htags⟩
      · exact hasked.latestOverall_chosen hreplies hoverall

end Replies

/-- When the clients choose from lists, the newest tags that were fetched for a key are chosen for
what the key says. -/
theorem FetchedFor.chosen {k : Key} {result : FetchResult} (hservice : service.Chooses)
    (hdiary : Diary service w entries w') (h : FetchedFor settings entries k result) :
    (∀ tag, result.latest = some tag →
      ∃ tags, latestInScope k.tag tags k.scope k.prereleases = some tag) ∧
    ∀ tag, result.latestOverall = some tag →
      ∃ tags, latestOverall k.tag tags k.prereleases = some tag := by
  obtain @⟨t, r, said, response, before, hkey, hvisit, rfl, hnotes⟩ := h
  have hchosen : ∀ id reply, Reply.event id reply ∈ said → reply.Chosen := by
    rintro id ⟨call, answer⟩ hmem
    have htold : Note.told ⟨.call id call, answer⟩ ∈ notesOf t entries := by
      rw [hnotes]
      apply List.mem_append_right
      apply List.mem_flatMap.mpr
      exact ⟨_, hmem, List.mem_cons_of_mem _ List.mem_cons_self⟩
    obtain ⟨s, rfl⟩ := hdiary.exists_answer htold
    exact hservice id call s
  obtain ⟨-, -, htag, hscope, hprereleases⟩ := Key.mk.inj hkey
  rw [← show r.tag = k.tag from htag, ← show r.scope = k.scope from hscope,
    ← show r.prereleases = k.prereleases from hprereleases]
  exact hvisit.chosen hchosen

end TagWatch
