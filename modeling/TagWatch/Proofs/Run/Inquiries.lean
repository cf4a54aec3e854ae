import TagWatch.Proofs.Client.Directory
import TagWatch.Proofs.Run.Pool

/-!
# What fetches leave behind, whatever they are answered

**Theorem (`Pool.run_inquiries`).** Fetches that run side by side in a world at rest all come to one
of the ends of the protocol. Clients were asked for by those alone that found no kept answer, once
by each; the answers that were added to the context are those of the fetches that succeeded; and
what a fetch found was kept before, or by another fetch of the same key.

All this is known of fetches under way (`Traced`), and every step preserves it (`Traced.step`).
-/

namespace TagWatch

open FetchProgram (Rest Ends)

/-- What a fetch is to find out. -/
structure Inquiry where
  key : Key
  /-- Whether the fetch is part of a run. -/
  inRun : Bool

/-- A program is a fetch for an inquiry. -/
def Inquiry.IsMadeBy (q : Inquiry) (program : FetchProgram FetchResponse) : Prop :=
  Rest q.key q.inRun program (.start q.inRun) FetchProgram.budget

/-- The answers that a fetch of a key has added to the context. -/
def Progress.entries (key : Key) : Progress → List (Key × FetchResult)
  | unbegun => []
  | found _ => []
  | missed => []
  | admitted => []
  | refused => []
  | served _ => []
  | finished => []
  | kept result => [(key, result)]

/-- A fetch has found no kept answer, or did not look for one. -/
def Progress.Anew : Progress → Prop
  | unbegun => False
  | found _ => False
  | _ => True

/-- A fetch under way. -/
structure Course where
  inquiry : Inquiry
  progress : Progress

namespace Course

/-- A fetch at its beginning. -/
def begin (q : Inquiry) : Course := ⟨q, .start q.inRun⟩

/-- The registries for which a fetch has asked for a client. -/
def asked (c : Course) : List String := c.progress.asked c.inquiry.key.registry

/-- The answers that a fetch has added to the context. -/
def entries (c : Course) : List (Key × FetchResult) := c.progress.entries c.inquiry.key

/-- A program is what is left of a fetch. -/
def Leaves (c : Course) (p : FetchProgram FetchResponse) : Prop :=
  ∃ n, Rest c.inquiry.key c.inquiry.inRun p c.progress n

theorem asked_begin (q : Inquiry) : (begin q).asked = [] := by
  obtain ⟨key, inRun⟩ := q
  cases inRun <;> rfl

theorem entries_begin (q : Inquiry) : (begin q).entries = [] := by
  obtain ⟨key, inRun⟩ := q
  cases inRun <;> rfl

theorem not_found_begin (q : Inquiry) (result : FetchResult) :
    (begin q).progress ≠ .found result := by
  obtain ⟨key, inRun⟩ := q
  cases inRun <;> exact Progress.noConfusion

theorem not_anew_begin {q : Inquiry} (h : q.inRun = true) : ¬ (begin q).progress.Anew := by
  rw [begin, h]
  exact id

end Course

namespace Context

/-- The context with several answers kept, one after another. -/
def keep (ctx : Context) (entries : List (Key × FetchResult)) : Context :=
  entries.foldl (fun ctx e => ctx.set e.1 e.2) ctx

variable {ctx : Context} {entries : List (Key × FetchResult)} {k : Key} {result : FetchResult}

theorem keep_append (ctx : Context) (entries more : List (Key × FetchResult)) :
    ctx.keep (entries ++ more) = (ctx.keep entries).keep more :=
  List.foldl_append

theorem get?_set (ctx : Context) (k k' : Key) (result : FetchResult) :
    (ctx.set k result).get? k' = if k' = k then some result else ctx.get? k' :=
  Table.get?_set ctx.cache k k' result

/-- An answer that is found was kept before or is among those that are added. -/
theorem get?_keep (h : (ctx.keep entries).get? k = some result) :
    ctx.get? k = some result ∨ (k, result) ∈ entries := by
  induction entries generalizing ctx with
  | nil => exact .inl h
  | cons e entries ih =>
    rcases ih h with hget | hmem
    · rw [get?_set] at hget
      split at hget
      · next hk =>
        obtain rfl := Option.some.inj hget
        exact .inr (hk ▸ List.mem_cons_self)
      · exact .inl hget
    · exact .inr (List.mem_cons_of_mem _ hmem)

/-- No answer is lost. -/
theorem get?_of_get?_keep (h : (ctx.keep entries).get? k = none) : ctx.get? k = none := by
  induction entries generalizing ctx with
  | nil => exact h
  | cons e entries ih =>
    have hset := ih h
    rw [get?_set] at hset
    split at hset
    · cases hset
    · exact hset

theorem metrics_keep (ctx : Context) (entries : List (Key × FetchResult)) :
    (ctx.keep entries).metrics = ctx.metrics := by
  induction entries generalizing ctx with
  | nil => rfl
  | cons e entries ih => exact ih (ctx.set e.1 e.2)

end Context

variable {σ : Type} {service : Service σ} {log : σ → List String → Prop} {s₀ s s' : Shared σ}
  {p p' : FetchProgram FetchResponse} {c c' : Course}

/-! ## Steps -/

/-- What a step does to a fetch under way, and to what is shared. -/
structure Course.Advanced (log : σ → List String → Prop) (s : Shared σ) (c : Course)
    (p' : FetchProgram FetchResponse) (s' : Shared σ) (c' : Course) (more : List String)
    (added : List (Key × FetchResult)) : Prop where
  inquiry : c'.inquiry = c.inquiry
  leaves : c'.Leaves p'
  asked : c'.asked = c.asked ++ more
  logged : ∀ l, log s.service l → log s'.service (l ++ more)
  entries : c'.entries = c.entries ++ added
  context : s'.context = s.context.keep added
  found : ∀ result, c'.progress = .found result →
    c.progress = .found result ∨ s.context.get? c.inquiry.key = some result
  anew : c'.progress.Anew → c.progress.Anew ∨ s.context.get? c.inquiry.key = none

/-- A step of a fetch that asks for no client and keeps nothing. -/
theorem Course.Advanced.still (hinquiry : c'.inquiry = c.inquiry) (hleaves : c'.Leaves p')
    (hasked : c'.asked = c.asked) (hlogged : ∀ l, log s.service l → log s'.service l)
    (hentries : c'.entries = c.entries) (hcontext : s'.context = s.context)
    (hfound : ∀ result, c'.progress = .found result →
      c.progress = .found result ∨ s.context.get? c.inquiry.key = some result)
    (hanew : c'.progress.Anew → c.progress.Anew ∨ s.context.get? c.inquiry.key = none) :
    c.Advanced log s p' s' c' [] [] := by
  refine ⟨hinquiry, hleaves, ?_, fun l hl => ?_, ?_, hcontext, hfound, hanew⟩
  · rw [hasked, List.append_nil]
  · rw [List.append_nil]
    exact hlogged l hl
  · rw [hentries, List.append_nil]

/-- A fetch under way takes a step. -/
theorem Course.Leaves.step (h : c.Leaves p) (hlog : service.Logs log)
    (hs : FetchProgram.Step service p s p' s') :
    ∃ c' more added, c.Advanced log s p' s' c' more added := by
  obtain ⟨q, st⟩ := c
  obtain ⟨n, hrest⟩ := h
  change Rest q.key q.inRun p st n at hrest
  cases hs with
  | lookUp key next s =>
    obtain ⟨rfl, rfl, hnone, hsome⟩ := hrest
    cases hget : s.context.get? q.key with
    | none =>
      exact ⟨⟨q, .missed⟩, [], [], .still rfl ⟨n, hnone⟩ rfl (fun _ => id) rfl rfl
        (fun _ h => nomatch h) fun _ => .inr hget⟩
    | some result =>
      refine ⟨⟨q, .found result⟩, [], [], .still rfl ⟨n, hsome result⟩ rfl (fun _ => id) rfl rfl
        (fun _ h => .inr ?_) fun h => h.elim⟩
      cases h
      exact hget
  | acquire registry next waited s =>
    obtain ⟨rfl, rfl, -, hrest⟩ := hrest
    exact ⟨⟨q, .admitted⟩, [], [], .still rfl ⟨_, hrest waited⟩ rfl (fun _ => id) rfl rfl
      (fun _ h => nomatch h) fun _ => .inl trivial⟩
  | connect registry next s =>
    obtain ⟨rfl, rfl, herror, hok⟩ := hrest
    have hlogged := hlog.connect q.key.registry s.service
    cases hclient : (service.connect q.key.registry s.service).1 with
    | error e =>
      exact ⟨⟨q, .refused⟩, [q.key.registry], [], rfl, ⟨n, herror e⟩, rfl, hlogged, rfl, rfl,
        fun _ h => (nomatch h), fun _ => .inl trivial⟩
    | ok id =>
      exact ⟨⟨q, .served id⟩, [q.key.registry], [], rfl, ⟨n, hok id⟩, rfl, hlogged, rfl, rfl,
        fun _ h => (nomatch h), fun _ => .inl trivial⟩
  | start id call next s =>
    exact ⟨⟨q, st⟩, [], [], .still rfl ⟨n, hrest⟩ rfl (hlog.start id call s.service) rfl rfl
      (fun _ => .inl) .inl⟩
  | answer id call next s =>
    obtain ⟨rfl, -, hrest⟩ := hrest
    exact ⟨⟨q, .served id⟩, [], [], .still rfl ⟨_, hrest _⟩ rfl (hlog.answer id call s.service) rfl
      rfl (fun _ => .inl) .inl⟩
  | release next s =>
    obtain ⟨hst, -, hrest⟩ := hrest
    refine ⟨⟨q, .finished⟩, [], [], .still rfl ⟨_, hrest⟩ ?_ (fun _ => id) ?_ rfl
      (fun _ h => nomatch h) fun _ => .inl ?_⟩
    · rcases hst with rfl | ⟨id, rfl⟩ <;> rfl
    · rcases hst with rfl | ⟨id, rfl⟩ <;> rfl
    · rcases hst with rfl | ⟨id, rfl⟩ <;> trivial
  | remember key result next s =>
    obtain ⟨rfl, rfl, -, hrest⟩ := hrest
    refine ⟨⟨q, .kept result⟩, [], [(q.key, result)], rfl, ⟨n, hrest⟩, rfl, fun l hl => ?_, rfl,
      rfl, fun _ h => (nomatch h), fun _ => .inl trivial⟩
    rwa [List.append_nil]

/-! ## Fetches under way -/

/-- What is known about fetches under way, and about what they share. -/
structure Traced (log : σ → List String → Prop) (s₀ : Shared σ) (qs : List Inquiry)
    (cs : List Course) (s : Shared σ) : Prop where
  inquiries : cs.map (·.inquiry) = qs
  logged : ∃ asked, asked.Perm (cs.flatMap (·.asked)) ∧
    ∀ l, log s₀.service l → log s.service (l ++ asked)
  written : ∃ entries, entries.Perm (cs.flatMap (·.entries)) ∧ s.context = s₀.context.keep entries
  found : ∀ c ∈ cs, ∀ result, c.progress = .found result →
    s₀.context.get? c.inquiry.key = some result ∨
      (c.inquiry.key, result) ∈ cs.flatMap (·.entries)
  anew : ∀ c ∈ cs, c.inquiry.inRun = true → c.progress.Anew →
    s₀.context.get? c.inquiry.key = none

/-- An answer that is kept now was kept before, or by one of the fetches. -/
theorem Traced.get? {qs : List Inquiry} {cs : List Course} {k : Key} {result : FetchResult}
    (h : Traced log s₀ qs cs s) (hget : s.context.get? k = some result) :
    s₀.context.get? k = some result ∨ (k, result) ∈ cs.flatMap (·.entries) := by
  obtain ⟨entries, hperm, hcontext⟩ := h.written
  rw [hcontext] at hget
  exact (Context.get?_keep hget).imp_right fun hmem => hperm.mem_iff.mp hmem

theorem Traced.begin (qs : List Inquiry) (s : Shared σ) :
    Traced log s qs (qs.map .begin) s := by
  have hasked : (qs.map Course.begin).flatMap (·.asked) = [] := by
    rw [List.flatMap_map, List.flatMap_eq_nil_iff]
    exact fun q _ => Course.asked_begin q
  have hentries : (qs.map Course.begin).flatMap (·.entries) = [] := by
    rw [List.flatMap_map, List.flatMap_eq_nil_iff]
    exact fun q _ => Course.entries_begin q
  refine ⟨?_, ⟨[], hasked ▸ .nil, fun l hl => ?_⟩, ⟨[], hentries ▸ .nil, rfl⟩,
    fun c hc result hfound => ?_, fun c hc hinRun hanew => ?_⟩
  · rw [List.map_map]
    exact List.map_id qs
  · rwa [List.append_nil]
  · obtain ⟨q, -, rfl⟩ := List.mem_map.mp hc
    exact absurd hfound (Course.not_found_begin q result)
  · obtain ⟨q, -, rfl⟩ := List.mem_map.mp hc
    exact absurd hanew (Course.not_anew_begin hinRun)

/-- A fetch under way takes a step. -/
theorem Traced.step {qs : List Inquiry} {cs₁ cs₂ : List Course}
    (h : Traced log s₀ qs (cs₁ ++ c :: cs₂) s) (hlog : service.Logs log) (hc : c.Leaves p)
    (hs : FetchProgram.Step service p s p' s') :
    ∃ c', c'.Leaves p' ∧ Traced log s₀ qs (cs₁ ++ c' :: cs₂) s' := by
  obtain ⟨c', more, added, hadv⟩ := hc.step hlog hs
  obtain ⟨asked, hasked, hlogged⟩ := h.logged
  obtain ⟨entries, hentries, hcontext⟩ := h.written
  have hperm : ((cs₁ ++ c' :: cs₂).flatMap (·.entries)).Perm
      ((cs₁ ++ c :: cs₂).flatMap (·.entries) ++ added) := perm_flatMap_middle hadv.entries
  have hkept {e : Key × FetchResult} (he : e ∈ (cs₁ ++ c :: cs₂).flatMap (·.entries)) :
      e ∈ (cs₁ ++ c' :: cs₂).flatMap (·.entries) :=
    hperm.mem_iff.mpr (List.mem_append_left _ he)
  refine ⟨c', hadv.leaves, ?_, ⟨asked ++ more, ?_, fun l hl => ?_⟩,
    ⟨entries ++ added, ?_, ?_⟩, fun b hb result hfound => ?_, fun b hb hinRun hanew => ?_⟩
  · rw [← h.inquiries]
    simp [hadv.inquiry]
  · exact (hasked.append_right _).trans (perm_flatMap_middle hadv.asked).symm
  · rw [← List.append_assoc]
    exact hadv.logged _ (hlogged l hl)
  · exact (hentries.append_right _).trans hperm.symm
  · rw [hadv.context, hcontext, Context.keep_append]
  · rcases eq_or_mem_of_mem_middle (a := c) hb with rfl | hb
    · -- what was found by the fetch that takes the step was kept at that moment
      rw [hadv.inquiry]
      rcases hadv.found result hfound with hfound | hget
      · exact (h.found c (List.mem_append_right _ List.mem_cons_self) _ hfound).imp_right hkept
      · exact (h.get? hget).imp_right hkept
    · exact (h.found b hb result hfound).imp_right hkept
  · rcases eq_or_mem_of_mem_middle (a := c) hb with rfl | hb
    · rw [hadv.inquiry] at hinRun ⊢
      rcases hadv.anew hanew with hanew | hnone
      · exact h.anew c (List.mem_append_right _ List.mem_cons_self) hinRun hanew
      · exact Context.get?_of_get?_keep (hcontext ▸ hnone)
    · exact h.anew b hb hinRun hanew

/-! ## Whole pools -/

/-- What becomes of fetches that run side by side. -/
structure Told (log : σ → List String → Prop) (w : World σ) (qs : List Inquiry) (cs : List Course)
    (o : List (Option FetchResponse) × World σ) : Prop where
  traced : Traced log w.shared qs cs o.2.shared
  ended : List.Forall₂ (fun c outcome => ∃ response, outcome = some response ∧
    Ends c.inquiry.inRun c.progress response) cs o.1
  rested : o.2.Rested

/-- **What fetches leave behind**, whatever they are answered. -/
theorem Pool.run_inquiries {w : World σ} {qs : List Inquiry}
    {programs : List (FetchProgram FetchResponse)} (hlog : service.Logs log) (hr : w.Rested)
    (hprograms : List.Forall₂ Inquiry.IsMadeBy qs programs) :
    ∃ cs, Told log w qs cs (Pool.run service programs w) := by
  have hfetches : ∀ program ∈ programs, program.IsFetch := by
    intro program hp
    obtain ⟨q, -, hq⟩ := exists_of_forall₂ hprograms.flip hp
    exact ⟨_, _, hq⟩
  obtain ⟨houtcomes, hrested, -⟩ := Pool.run_rested service hr hfetches
  obtain ⟨ps, hinterleaved, hvalues⟩ := Pool.run_interleaved service programs w
  generalize Pool.run service programs w = o at *
  have hbegin : List.Forall₂ Course.Leaves (qs.map .begin) programs := by
    rw [List.forall₂_map_left_iff]
    exact hprograms.imp fun q p hp => ⟨_, hp⟩
  obtain ⟨cs, hcs, htraced⟩ := hinterleaved.described (R := fun _ => Course.Leaves)
    (fun hs hc h => by
      obtain ⟨c', hc', h'⟩ := h.step hlog hc hs
      exact ⟨c', hc', h', fun _ _ _ => id⟩) hbegin (Traced.begin qs w.shared)
  refine ⟨cs, htraced, ?_, hrested⟩
  rw [hvalues, List.forall₂_map_right_iff]
  refine forall₂_imp_mem hcs fun c _ p hp ⟨n, hrest⟩ => ?_
  have hvalue := houtcomes p.value? (hvalues ▸ List.mem_map_of_mem hp)
  cases p with
  | done r => exact ⟨r, rfl, hrest⟩
  | ask q next => cases hvalue

end TagWatch
