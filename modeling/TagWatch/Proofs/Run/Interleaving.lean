import Mathlib.Data.List.Forall2
import TagWatch.Run.Pool

/-!
# A pool interleaves its fetches

Whatever the limits, the service and the turns are, the fetches of a pool go on one step at a time,
and each step does to the answers that are kept, and to the service, what it would do alone. Only
the order of the steps, and how long each permit takes, is up to the pool.

**Theorem (`Pool.run_interleaved`).** A run of a pool is an interleaving of steps of its fetches.

So what every single step preserves holds of the outcome of every pool, without any assumption about
the limiter. When the fetches are described one by one, it is enough to describe anew the one that
takes a step (`Interleaved.described`).
-/

namespace TagWatch

open Limit (Ticket)

variable {σ : Type} {service : Service σ}

/-- What the fetches of a pool share apart from the limiter: what is kept for the run, and the state
of the service. -/
structure Shared (σ : Type) where
  context : Context
  service : σ

/-- What is shared in a world. -/
def World.shared (w : World σ) : Shared σ := ⟨w.context, w.service⟩

/-- The value of a program that has ended. -/
def Program.value? {Q : Type} {A : Q → Type} {α : Type} : Program Q A α → Option α
  | .done a => some a
  | .ask _ _ => none

theorem Job.response?_eq (j : Job) : j.response? = j.program.value? := by
  rw [response?]
  cases j.program <;> rfl

/-! ## Steps -/

/-- One step of a fetch: its question is answered, or a call of it begins. A permit may take any
time. -/
inductive FetchProgram.Step (service : Service σ) :
    FetchProgram FetchResponse → Shared σ → FetchProgram FetchResponse → Shared σ → Prop where
  | lookUp (key : Key) (next : (FetchStep.lookUp key).Answer → FetchProgram FetchResponse)
    (s : Shared σ) : Step service (.ask (.lookUp key) next) s (next (s.context.get? key)) s
  | acquire (registry : String)
    (next : (FetchStep.acquire registry).Answer → FetchProgram FetchResponse) (waited : Nat)
    (s : Shared σ) : Step service (.ask (.acquire registry) next) s (next waited) s
  | connect (registry : String)
    (next : (FetchStep.connect registry).Answer → FetchProgram FetchResponse) (s : Shared σ) :
    Step service (.ask (.connect registry) next) s (next (service.connect registry s.service).1)
      { s with service := (service.connect registry s.service).2 }
  | start (client : ClientId) (call : Call)
    (next : (FetchStep.call client call).Answer → FetchProgram FetchResponse) (s : Shared σ) :
    Step service (.ask (.call client call) next) s (.ask (.call client call) next)
      { s with service := (service.start client call s.service).2 }
  | answer (client : ClientId) (call : Call)
    (next : (FetchStep.call client call).Answer → FetchProgram FetchResponse) (s : Shared σ) :
    Step service (.ask (.call client call) next) s (next (service.answer client call s.service).1)
      { s with service := (service.answer client call s.service).2 }
  | release (next : FetchStep.release.Answer → FetchProgram FetchResponse) (s : Shared σ) :
    Step service (.ask .release next) s (next ()) s
  | remember (key : Key) (result : FetchResult)
    (next : (FetchStep.remember key result).Answer → FetchProgram FetchResponse) (s : Shared σ) :
    Step service (.ask (.remember key result) next) s (next ())
      { s with context := s.context.set key result }

/-- Steps of several fetches, in any order. -/
inductive Interleaved (service : Service σ) (ps : List (FetchProgram FetchResponse))
    (s : Shared σ) : List (FetchProgram FetchResponse) → Shared σ → Prop where
  | refl : Interleaved service ps s ps s
  | tail {before after : List (FetchProgram FetchResponse)} {p p' : FetchProgram FetchResponse}
    {s' s'' : Shared σ} :
    Interleaved service ps s (before ++ p :: after) s' → FetchProgram.Step service p s' p' s'' →
      Interleaved service ps s (before ++ p' :: after) s''

namespace Interleaved

variable {ps ps' ps'' : List (FetchProgram FetchResponse)} {s s' s'' : Shared σ}

theorem trans (h : Interleaved service ps s ps' s') (h' : Interleaved service ps' s' ps'' s'') :
    Interleaved service ps s ps'' s'' := by
  induction h' with
  | refl => exact h
  | tail _ hstep ih => exact ih.tail hstep

theorem single {before after : List (FetchProgram FetchResponse)}
    {p p' : FetchProgram FetchResponse}
    (h : FetchProgram.Step service p s p' s') :
    Interleaved service (before ++ p :: after) s (before ++ p' :: after) s' :=
  refl.tail h

end Interleaved

theorem forall₂_imp_mem {α β : Type} {R S : α → β → Prop} {as : List α} {bs : List β}
    (h : List.Forall₂ R as bs) (himp : ∀ a ∈ as, ∀ b ∈ bs, R a b → S a b) :
    List.Forall₂ S as bs := by
  induction h with
  | nil => exact .nil
  | cons hab _ ih =>
    refine .cons (himp _ List.mem_cons_self _ List.mem_cons_self hab) (ih fun a ha b hb => ?_)
    exact himp a (List.mem_cons_of_mem _ ha) b (List.mem_cons_of_mem _ hb)

theorem exists_of_forall₂ {α β : Type} {R : α → β → Prop} {as : List α} {bs : List β}
    (h : List.Forall₂ R as bs) {a : α} (ha : a ∈ as) : ∃ b ∈ bs, R a b := by
  induction h with
  | nil => cases ha
  | cons hab _ ih =>
    rcases List.mem_cons.mp ha with rfl | ha
    · exact ⟨_, List.mem_cons_self, hab⟩
    · obtain ⟨b, hb, hab⟩ := ih ha
      exact ⟨b, List.mem_cons_of_mem _ hb, hab⟩

/-- Two lists with the same images, one beside the other. -/
theorem exists_pairs_of_map_eq {α β γ : Type} {f : α → γ} {g : β → γ} {as : List α} {bs : List β}
    (h : as.map f = bs.map g) : ∃ pairs : List (α × β), as = pairs.map Prod.fst ∧
      bs = pairs.map Prod.snd ∧ ∀ p ∈ pairs, f p.1 = g p.2 := by
  have hall : List.Forall₂ (· = ·) (as.map f) (bs.map g) := by
    rw [List.forall₂_eq_eq_eq]
    exact h
  rw [List.forall₂_map_left_iff, List.forall₂_map_right_iff] at hall
  exact ⟨as.zip bs, (List.map_fst_zip (Nat.le_of_eq hall.length_eq)).symm,
    (List.map_snd_zip (Nat.le_of_eq hall.length_eq.symm)).symm, fun _ => List.forall₂_zip hall⟩

theorem exists_of_forall₂_middle {α β : Type} {R : α → β → Prop} {as : List α}
    {before after : List β} {b : β} (h : List.Forall₂ R as (before ++ b :: after)) :
    ∃ as₁ a as₂, as = as₁ ++ a :: as₂ ∧ List.Forall₂ R as₁ before ∧ R a b ∧
      List.Forall₂ R as₂ after := by
  have hbefore := List.forall₂_take_append as before (b :: after) h
  have hrest := List.forall₂_drop_append as before (b :: after) h
  obtain ⟨a, as₂, hab, hafter, hdrop⟩ := List.forall₂_cons_right_iff.mp hrest
  refine ⟨as.take before.length, a, as₂, ?_, hbefore, hab, hafter⟩
  rw [← hdrop, List.take_append_drop]

/-- After a change of one element the others are as before. -/
theorem eq_or_mem_of_mem_middle {α : Type} {a a' b : α} {as₁ as₂ : List α}
    (h : b ∈ as₁ ++ a' :: as₂) : b = a' ∨ b ∈ as₁ ++ a :: as₂ := by
  rw [List.mem_append, List.mem_cons] at h ⊢
  rcases h with h | h | h
  · exact .inr (.inl h)
  · exact .inl h
  · exact .inr (.inr (.inr h))

theorem perm_flatMap_middle {α β : Type} {g : α → List β} {a a' : α} {as₁ as₂ : List α}
    {more : List β} (h : g a' = g a ++ more) :
    ((as₁ ++ a' :: as₂).flatMap g).Perm ((as₁ ++ a :: as₂).flatMap g ++ more) := by
  simp only [List.flatMap_append, List.flatMap_cons, h, List.append_assoc]
  exact (List.perm_append_comm.append_left (g a)).append_left _

/-- **What every step preserves holds in the end.** The fetches are described one by one; a step
describes one of them anew and leaves the descriptions of the others true. -/
theorem Interleaved.described {A : Type} {R : Shared σ → A → FetchProgram FetchResponse → Prop}
    {G : List A → Shared σ → Prop} {ps ps' : List (FetchProgram FetchResponse)} {s s' : Shared σ}
    {as : List A} (h : Interleaved service ps s ps' s')
    (hstep : ∀ {as₁ as₂ a p p' s s'}, FetchProgram.Step service p s p' s' → R s a p →
      G (as₁ ++ a :: as₂) s → ∃ a', R s' a' p' ∧ G (as₁ ++ a' :: as₂) s' ∧
        ∀ b ∈ as₁ ++ as₂, ∀ q, R s b q → R s' b q)
    (hR : List.Forall₂ (R s) as ps) (hG : G as s) :
    ∃ as', List.Forall₂ (R s') as' ps' ∧ G as' s' := by
  induction h with
  | refl => exact ⟨as, hR, hG⟩
  | tail _ hs ih =>
    obtain ⟨as', hR', hG'⟩ := ih
    obtain ⟨as₁, a, as₂, rfl, hbefore, ha, hafter⟩ := exists_of_forall₂_middle hR'
    obtain ⟨a', ha', hG'', hothers⟩ := hstep hs ha hG'
    refine ⟨as₁ ++ a' :: as₂, List.rel_append ?_ (.cons ha' ?_), hG''⟩
    · exact forall₂_imp_mem hbefore fun b hb q _ => hothers b (List.mem_append_left _ hb) q
    · exact forall₂_imp_mem hafter fun b hb q _ => hothers b (List.mem_append_right _ hb) q

/-! ## Turns -/

namespace Job

/-- A fetch that goes on as far as it can takes steps meanwhile, whatever its phase. -/
def GoesOn (service : Service σ) (before after : List (FetchProgram FetchResponse)) (t : Ticket)
    (p : FetchProgram FetchResponse) : Prop :=
  ∀ (phase : Phase) (w : World σ),
    Interleaved service (before ++ p :: after) w.shared
      (before ++ (goOn service t p phase w).1.program :: after) (goOn service t p phase w).2.shared

variable {before after : List (FetchProgram FetchResponse)} {t : Ticket}

theorem goesOn_acquire (registry : String)
    {next : (FetchStep.acquire registry).Answer → FetchProgram FetchResponse}
    (hnext : ∀ waited, GoesOn service before after t (next waited)) :
    GoesOn service before after t (.ask (.acquire registry) next) := by
  intro phase w
  rw [goOn]
  generalize hasked : (if phase = .queued then w else w.onLimiter (·.ask t registry)) = w'
  have hshared : w'.shared = w.shared := by
    rw [← hasked]
    split <;> rfl
  cases (w'.onLimiter (·.turn t)).limiter.grantOf? t with
  | none =>
    show Interleaved service _ w.shared _ w'.shared
    rw [hshared]
    exact .refl
  | some grant =>
    have hgrant : Interleaved service (before ++ .ask (.acquire registry) next :: after) w'.shared
        (before ++ next grant.waited :: after) w'.shared :=
      .single (.acquire registry next grant.waited w'.shared)
    rw [← hshared]
    exact hgrant.trans (hnext grant.waited .ready (w'.onLimiter (·.turn t)))

theorem goesOn_call (client : ClientId) (call : Call)
    {next : (FetchStep.call client call).Answer → FetchProgram FetchResponse}
    (hnext : ∀ answer, GoesOn service before after t (next answer)) :
    GoesOn service before after t (.ask (.call client call) next) := by
  intro phase w
  have hanswer (w : World σ) : Interleaved service
      (before ++ .ask (.call client call) next :: after) w.shared _ _ :=
    (Interleaved.single (.answer client call next w.shared)).trans
      (hnext _ .ready { w with service := (service.answer client call w.service).2 })
  have hstart : Interleaved service (before ++ .ask (.call client call) next :: after) w.shared
      _ ({ w with service := (service.start client call w.service).2 } : World σ).shared :=
    .single (.start client call next w.shared)
  -- a call that takes no time is answered at once
  have hbegin (hphase : ∀ doneAt, phase ≠ .calling doneAt) :
      let o := goOn service t (.ask (.call client call) next) phase w
      Interleaved service (before ++ .ask (.call client call) next :: after) w.shared
        (before ++ o.1.program :: after) o.2.shared := by
    rw [goOn]
    · dsimp only
      split
      · exact hstart.trans (hanswer { w with service := (service.start client call w.service).2 })
      · exact hstart
    · exact hphase
  cases phase with
  | ready => exact hbegin fun _ => Phase.noConfusion
  | queued => exact hbegin fun _ => Phase.noConfusion
  | calling doneAt =>
    rw [goOn]
    dsimp only
    split
    · exact hanswer w
    · exact .refl

/-- A fetch that goes on takes steps. -/
theorem goOn_interleaved (before after : List (FetchProgram FetchResponse)) (t : Ticket)
    (p : FetchProgram FetchResponse) : GoesOn service before after t p := by
  induction p with
  | done r =>
    intro phase w
    rw [goOn]
    exact .refl
  | ask q next ih =>
    cases q with
    | acquire registry => exact goesOn_acquire registry ih
    | call client call => exact goesOn_call client call ih
    | lookUp key =>
      intro phase w
      rw [goOn]
      exact (Interleaved.single (.lookUp key next w.shared)).trans (ih _ .ready w)
    | connect registry =>
      intro phase w
      rw [goOn]
      exact (Interleaved.single (.connect registry next w.shared)).trans
        (ih _ .ready { w with service := (service.connect registry w.service).2 })
    | release =>
      intro phase w
      rw [goOn]
      exact (Interleaved.single (.release next w.shared)).trans
        (ih () .ready (w.onLimiter (·.release t)))
    | remember key result =>
      intro phase w
      rw [goOn]
      exact (Interleaved.single (.remember key result next w.shared)).trans
        (ih () .ready { w with context := w.context.set key result })

end Job

namespace Pool

/-- The programs of some fetches. -/
def programs (js : List Job) : List (FetchProgram FetchResponse) := js.map (·.program)

theorem programs_jobs (first : Ticket) (ps : List (FetchProgram FetchResponse)) :
    programs (jobs first ps) = ps := by
  induction ps generalizing first with
  | nil => rfl
  | cons p ps ih => exact congrArg (p :: ·) (ih (first + 1))

theorem sweep_interleaved (picked : Job → Bool) (before : List (FetchProgram FetchResponse))
    (js : List Job) (w : World σ) :
    let o := sweep service picked js w
    Interleaved service (before ++ programs js) w.shared (before ++ programs o.1) o.2.shared := by
  induction js generalizing before w with
  | nil => exact .refl
  | cons j js ih =>
    have hfirst : let o := if picked j then j.turn service w else (j, w)
        Interleaved service (before ++ programs (j :: js)) w.shared
          (before ++ o.1.program :: programs js) o.2.shared := by
      split
      · exact Job.goOn_interleaved before (programs js) j.ticket j.program j.phase w
      · exact .refl
    have hrest := ih (before ++ [(if picked j then j.turn service w else (j, w)).1.program])
      (if picked j then j.turn service w else (j, w)).2
    simp only [List.append_assoc, List.singleton_append] at hrest
    exact hfirst.trans hrest

theorem runSteps_interleaved (service : Service σ) (inRounds : Bool) (fuel : Nat) (js : List Job)
    (w : World σ) :
    let o := runSteps service inRounds fuel js w
    Interleaved service (programs js) w.shared (programs o.1) o.2.shared := by
  induction fuel generalizing js w with
  | zero => exact .refl
  | succ fuel ih =>
    unfold runSteps
    split
    · next first rest _ =>
      cases inRounds with
      | true =>
        exact (sweep_interleaved (fun _ => true) [] js (w.withCalled [])).trans (ih _ _)
      | false =>
        exact (sweep_interleaved (·.ticket == first) [] js (w.withCalled rest)).trans (ih _ _)
    · next alarm _ _ => exact ih js (w.onLimiter (·.sleepUntil alarm))
    · exact .refl

/-- **A pool interleaves its fetches.** The outcomes of a pool are the values of its programs after
steps of all of them, in some order. -/
theorem run_interleaved (service : Service σ) (ps : List (FetchProgram FetchResponse))
    (w : World σ) :
    let o := run service ps w
    ∃ ps', Interleaved service ps w.shared ps' o.2.shared ∧ o.1 = ps'.map Program.value? := by
  rw [run]
  -- how many steps there are plays no part
  generalize steps ps.length = fuel
  have hsteps := runSteps_interleaved service (ps.length ≤ roundLimit) fuel
    (jobs w.nextTicket ps) ({ w with nextTicket := w.nextTicket + ps.length }.withCalled
      ((jobs w.nextTicket ps).map Job.ticket))
  rw [programs_jobs] at hsteps
  refine ⟨_, hsteps, ?_⟩
  rw [programs, List.map_map]
  exact List.map_congr_left fun j _ => j.response?_eq

end Pool

end TagWatch
