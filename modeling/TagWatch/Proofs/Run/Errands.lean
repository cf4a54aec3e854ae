import TagWatch.Proofs.Fetch.Plan
import TagWatch.Proofs.Run.Pool

/-!
# Fetches side by side find what each of them finds alone

**Theorem (`Pool.run_spec`).** When a service follows a directory, fetches with different keys that
run side by side in a world at rest all come to an end, and each finds what its errand is to find,
whatever the limits are. Clients are asked for once for each of them, and the world is at rest
again.

Every fetch is on its errand at some point of its plan (`OnErrand`). A step brings one fetch to
another point and leaves the others where they are, because their keys are different
(`OnErrand.step`); that they come to an end is known already (`Pool.run_rested`).
-/

namespace TagWatch

open FetchProgram (Plan Answers)

/-- What a fetch is to find out, and what it is to find. -/
structure Errand where
  key : Key
  result : FetchResult

/-- A program is a fetch for an errand. -/
def Errand.IsDoneBy (dir : Directory) (e : Errand) (program : FetchProgram FetchResponse) : Prop :=
  program.IsFetch ∧ Plan dir e.key (Answers e.result) program .unbegun

/-- The registries for which a fetch has asked for a client. -/
def Standing.asked (registry : String) : Standing → List String
  | .unbegun => []
  | .admitted => []
  | .refused => [registry]
  | .served _ => [registry]
  | .finished => [registry]

variable {σ : Type} {service : Service σ} {dir : Directory} (f : service.Follows dir)
  {log : σ → List String → Prop}

/-- What is shared while a fetch stands somewhere in its plan. -/
def Shared.Stands (s : Shared σ) (e : Errand) : Standing → Prop
  | .unbegun => s.context.get? e.key = none
  | .admitted => True
  | .refused => True
  | .served id => f.Serves s.service id e.key.registry
  | .finished => True

/-- A program is what is left of an errand, from some point of its plan on. -/
def OnErrand (s : Shared σ) (c : Errand × Standing) (p : FetchProgram FetchResponse) : Prop :=
  s.Stands f c.1 c.2 ∧ Plan dir c.1.key (Answers c.1.result) p c.2

/-- A change of what is shared that leaves alone the errands for all keys but one. -/
structure Shared.Spares (s s' : Shared σ) (key : Key) : Prop where
  context : ∀ k ≠ key, s'.context.get? k = s.context.get? k
  serves : ∀ id r, f.Serves s.service id r → f.Serves s'.service id r

variable {f} {s s' : Shared σ} {p p' : FetchProgram FetchResponse} {c : Errand × Standing}

theorem OnErrand.spare {key : Key} (h : OnErrand f s c p) (hs : s.Spares f s' key)
    (hk : c.1.key ≠ key) : OnErrand f s' c p := by
  refine ⟨?_, h.2⟩
  have hstands := h.1
  unfold Shared.Stands at hstands ⊢
  split
  · next he => rw [he] at hstands; exact (hs.context _ hk).trans hstands
  · trivial
  · trivial
  · next id he => rw [he] at hstands; exact hs.serves _ _ hstands
  · trivial

/-- What a step does to a fetch on its errand, and to what is shared. -/
structure WentOn (f : service.Follows dir) (log : σ → List String → Prop) (s : Shared σ)
    (c : Errand × Standing) (p' : FetchProgram FetchResponse) (s' : Shared σ) (st : Standing)
    (more : List String) : Prop where
  onErrand : OnErrand f s' (c.1, st) p'
  good : f.Good s'.service
  spares : s.Spares f s' c.1.key
  asked : st.asked c.1.key.registry = c.2.asked c.1.key.registry ++ more
  logged : ∀ l, log s.service l → log s'.service (l ++ more)

/-- A step that leaves the service alone. -/
theorem WentOn.still {st : Standing} (hg : f.Good s.service) (hservice : s'.service = s.service)
    (hcontext : ∀ k ≠ c.1.key, s'.context.get? k = s.context.get? k)
    (honErrand : OnErrand f s' (c.1, st) p')
    (hasked : st.asked c.1.key.registry = c.2.asked c.1.key.registry) :
    WentOn f log s c p' s' st [] := by
  refine ⟨honErrand, hservice ▸ hg, ⟨hcontext, fun id r hs => hservice ▸ hs⟩, ?_, fun l hl => ?_⟩
  · rw [hasked, List.append_nil]
  · rwa [List.append_nil, hservice]

theorem OnErrand.step (h : OnErrand f s c p) (hlog : service.Logs log) (hg : f.Good s.service)
    (hs : FetchProgram.Step service p s p' s') : ∃ st more, WentOn f log s c p' s' st more := by
  obtain ⟨e, st⟩ := c
  obtain ⟨hstands, hplan⟩ := h
  cases hs with
  | lookUp key next s =>
    obtain ⟨rfl, rfl, hplan⟩ := hplan
    refine ⟨.unbegun, [], .still hg rfl (fun _ _ => rfl) ⟨hstands, ?_⟩ rfl⟩
    rw [show s.context.get? e.key = none from hstands]
    exact hplan
  | acquire registry next waited s =>
    obtain ⟨rfl, rfl, hplan⟩ := hplan
    exact ⟨.admitted, [], .still hg rfl (fun _ _ => rfl) ⟨trivial, hplan waited⟩ rfl⟩
  | connect registry next s =>
    obtain ⟨rfl, rfl, herror, hok⟩ := hplan
    have hspares : s.Spares f ⟨s.context, (service.connect e.key.registry s.service).2⟩ e.key :=
      ⟨fun _ _ => rfl, f.serves_connect e.key.registry s.service⟩
    have hgood := f.good_connect e.key.registry s.service hg
    have hlogged := hlog.connect e.key.registry s.service
    cases hrefusal : dir.refusal e.key.registry with
    | some error =>
      rw [f.refused e.key.registry s.service error hg hrefusal]
      exact ⟨.refused, [_], ⟨trivial, herror error hrefusal⟩, hgood, hspares, rfl, hlogged⟩
    | none =>
      obtain ⟨id, hid, hserves⟩ := f.connected e.key.registry s.service hg hrefusal
      rw [hid]
      exact ⟨.served id, [_], ⟨hserves, hok hrefusal id⟩, hgood, hspares, rfl, hlogged⟩
  | start id call next s =>
    obtain ⟨rfl, hplan⟩ := hplan
    have hserves := f.serves_start id call s.service
    refine ⟨.served id, [], ⟨hserves _ _ hstands, rfl, hplan⟩,
      f.good_start id call s.service hg, ⟨fun _ _ => rfl, hserves⟩, rfl, fun l hl => ?_⟩
    rw [List.append_nil]
    exact hlog.start id call s.service l hl
  | answer id call next s =>
    obtain ⟨rfl, hplan⟩ := hplan
    have hserves := f.serves_answer id call s.service
    rw [f.answered id call s.service e.key.registry hg hstands]
    refine ⟨.served id, [], ⟨hserves _ _ hstands, hplan⟩,
      f.good_answer id call s.service hg, ⟨fun _ _ => rfl, hserves⟩, rfl, fun l hl => ?_⟩
    rw [List.append_nil]
    exact hlog.answer id call s.service l hl
  | release next s =>
    obtain ⟨hst, hplan⟩ := hplan
    have hasked : st.asked e.key.registry = [e.key.registry] := by
      rcases hst with rfl | ⟨id, rfl⟩ <;> rfl
    exact ⟨.finished, [], .still hg rfl (fun _ _ => rfl) ⟨trivial, hplan⟩ hasked.symm⟩
  | remember key result next s =>
    obtain ⟨rfl, rfl, hplan⟩ := hplan
    refine ⟨.finished, [], .still hg rfl (fun k hk => ?_) ⟨trivial, hplan⟩ rfl⟩
    show (s.context.cache.set e.key result).get? k = s.context.cache.get? k
    rw [Table.get?_set, if_neg hk]

/-! ## Whole pools -/

/-- The registries for which a fetch on an errand has asked for a client. -/
def registriesAsked (c : Errand × Standing) : List String := c.2.asked c.1.key.registry

/-- What is known about several errands under way. -/
structure UnderWay (f : service.Follows dir) (log : σ → List String → Prop) (s₀ : Shared σ)
    (es : List Errand) (cs : List (Errand × Standing)) (s : Shared σ) : Prop where
  errands : cs.map Prod.fst = es
  good : f.Good s.service
  logged : ∃ asked, asked.Perm (cs.flatMap registriesAsked) ∧
    ∀ l, log s₀.service l → log s.service (l ++ asked)

theorem UnderWay.step {s₀ : Shared σ} {es : List Errand} {cs₁ cs₂ : List (Errand × Standing)}
    (h : UnderWay f log s₀ es (cs₁ ++ c :: cs₂) s) (hlog : service.Logs log)
    (hkeys : (es.map (·.key)).Nodup) (hc : OnErrand f s c p)
    (hs : FetchProgram.Step service p s p' s') :
    ∃ c', OnErrand f s' c' p' ∧ UnderWay f log s₀ es (cs₁ ++ c' :: cs₂) s' ∧
      ∀ b ∈ cs₁ ++ cs₂, ∀ q, OnErrand f s b q → OnErrand f s' b q := by
  obtain ⟨st, more, hwent⟩ := hc.step hlog h.good hs
  obtain ⟨asked, hperm, hlogged⟩ := h.logged
  refine ⟨(c.1, st), hwent.onErrand, ⟨?_, hwent.good, asked ++ more, ?_, fun l hl => ?_⟩,
    fun b hb q hq => hq.spare hwent.spares fun hbc => ?_⟩
  · rw [← h.errands]
    simp
  · have hasked : registriesAsked (c.1, st) = registriesAsked c ++ more := hwent.asked
    exact (hperm.append_right more).trans (perm_flatMap_middle hasked).symm
  · rw [← List.append_assoc]
    exact hwent.logged _ (hlogged l hl)
  · -- no other errand is for the same key
    rw [← h.errands, List.map_map, List.map_append, List.map_cons, List.nodup_middle,
      List.nodup_cons, ← List.map_append] at hkeys
    exact hkeys.1 (List.mem_map.mpr ⟨b, hb, hbc⟩)

/-- A fetch is over, and has found what it was to find. -/
structure Fulfilled (c : Errand × Standing) (p : FetchProgram FetchResponse) : Prop where
  finished : c.2 = .finished
  found : ∃ r, p.value? = some r ∧ r.result = c.1.result

/-- A fetch on its errand that has a value is over. -/
theorem OnErrand.fulfilled (h : OnErrand f s c p) (hvalue : p.value?.isSome) : Fulfilled c p := by
  obtain ⟨-, hplan⟩ := h
  cases p with
  | done r => exact ⟨hplan.1, r, rfl, hplan.2⟩
  | ask q next => cases hvalue

theorem registriesAsked_of_fulfilled {cs : List (Errand × Standing)}
    {ps : List (FetchProgram FetchResponse)} (h : List.Forall₂ Fulfilled cs ps) :
    cs.flatMap registriesAsked = (cs.map Prod.fst).map (·.key.registry) := by
  induction h with
  | nil => rfl
  | cons hc _ ih =>
    rw [List.flatMap_cons, ih, registriesAsked, hc.finished]
    rfl

/-- What becomes of fetches that run side by side. -/
structure Ran (f : service.Follows dir) (log : σ → List String → Prop) (w : World σ)
    (es : List Errand) (o : List (Option FetchResponse) × World σ) : Prop where
  found : List.Forall₂ (fun e outcome => ∃ r, outcome = some r ∧ r.result = e.result) es o.1
  rested : o.2.Rested
  good : f.Good o.2.service
  logged : ∃ asked, asked.Perm (es.map (·.key.registry)) ∧
    ∀ l, log w.service l → log o.2.service (l ++ asked)

/-- **Side by side as alone.** Fetches with different keys that run side by side in a world at rest
all find what they are to find, and leave the world at rest. -/
theorem Pool.run_spec {w : World σ} {es : List Errand}
    {programs : List (FetchProgram FetchResponse)}
    (hlog : service.Logs log) (hr : w.Rested) (hg : f.Good w.service)
    (hplans : List.Forall₂ (Errand.IsDoneBy dir) es programs) (hkeys : (es.map (·.key)).Nodup)
    (hcontext : ∀ e ∈ es, w.context.get? e.key = none) :
    Ran f log w es (Pool.run service programs w) := by
  have hfetches : ∀ program ∈ programs, program.IsFetch := by
    intro program hp
    obtain ⟨i, hi, rfl⟩ := List.getElem_of_mem hp
    exact ((List.forall₂_iff_get.mp hplans).2 i (hplans.length_eq ▸ hi) hi).1
  obtain ⟨houtcomes, hrested, -⟩ := Pool.run_rested service hr hfetches
  obtain ⟨ps, hinterleaved, hvalues⟩ := Pool.run_interleaved service programs w
  generalize Pool.run service programs w = o at *
  have hbegin : List.Forall₂ (OnErrand f w.shared) (es.map fun e => (e, Standing.unbegun))
      programs := by
    rw [List.forall₂_map_left_iff]
    exact forall₂_imp_mem hplans fun e he p _ hp => ⟨hcontext e he, hp.2⟩
  have hunderWay : UnderWay f log w.shared es (es.map fun e => (e, Standing.unbegun)) w.shared := by
    refine ⟨by rw [List.map_map]; exact List.map_id es, hg, [], ?_, fun l hl => ?_⟩
    · have hnone : (fun e : Errand => registriesAsked (e, .unbegun)) = fun _ => [] := rfl
      rw [List.flatMap_map, hnone, List.flatMap_eq_nil_iff.mpr fun _ _ => rfl]
    · rwa [List.append_nil]
  obtain ⟨cs, hcs, hend⟩ := hinterleaved.described
    (fun hs hc h => UnderWay.step h hlog hkeys hc hs) hbegin hunderWay
  have hfulfilled : List.Forall₂ Fulfilled cs ps :=
    forall₂_imp_mem hcs fun c _ p hp hc =>
      hc.fulfilled (houtcomes p.value? (hvalues ▸ List.mem_map_of_mem hp))
  obtain ⟨asked, hperm, hlogged⟩ := hend.logged
  refine ⟨?_, hrested, hend.good, asked, ?_, hlogged⟩
  · rw [hvalues, ← hend.errands, List.forall₂_map_left_iff, List.forall₂_map_right_iff]
    exact hfulfilled.imp fun c p h => h.found
  · rwa [registriesAsked_of_fulfilled hfulfilled, hend.errands] at hperm

end TagWatch
