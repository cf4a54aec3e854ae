import TagWatch.Proofs.Limit.Session
import TagWatch.Proofs.Limit.Workload

/-!
# Workloads settle

**Theorem (`Workload.waits_for_a_reason`).** Whoever waits in a settled session waits for a reason,
and sleepers have no global slots; and after every operation of its users a workload is a settled
session.

The second half is about the turns of `Workload.settle`, of which there are a fixed number. Every
turn costs some effort (`Limiter.effort`): it answers a call, and a new call comes only with a grant
or with a permit that is given back. A ticket is granted once and gives its permit back once, so
that four turns for each ticket are enough, and eight are taken.
-/

namespace TagWatch.Limit

/-! ## The effort of a limiter -/

namespace Limiter

variable {s : Limiter} {t n : Ticket} {r : String}

/-- A turn leaves its ticket where it cannot go on. -/
theorem Healthy.not_canGo_turn (h : s.Healthy) (t : Ticket) (r : String) :
    ¬ (s.turn t).CanGo r t := by
  by_cases hwaits : ∃ r', t ∈ (s.lane r').tickets
  · obtain ⟨r', ht⟩ := hwaits
    exact (turn_spec h ht).stuck r
  · have hidle : s.Idle t := fun r' ht => hwaits ⟨r', ht⟩
    have hreg : (s.onAgenda (·.take t)).registryOf? t = none :=
      h.orderly.registryOf?_eq_none_iff.mpr hidle
    rw [turn, hreg]
    exact fun hgo => hidle r hgo.mem_tickets

/-- The number of turns that the calls may still lead to, when so many tickets are in use. -/
def effort (s : Limiter) (n : Ticket) : Nat :=
  s.agenda.called.length + 3 * (n - s.grants.length) + 2 * s.held.length

theorem effort_take (ht : t ∈ s.agenda.called) :
    (s.onAgenda (·.take t)).effort n + 1 = s.effort n := by
  have hlen : (s.agenda.called.erase t).length = s.agenda.called.length - 1 :=
    List.length_erase_of_mem ht
  have hpos := List.length_pos_of_mem ht
  show (s.agenda.called.erase t).length + 3 * (n - s.grants.length) + 2 * s.held.length + 1 = _
  rw [effort]
  omega

theorem effort_callAt (s : Limiter) (time : Nat) (t : Ticket) :
    (s.callAt time t).effort n = s.effort n := by
  show (s.agenda.callAt time t).called.length + _ + _ = _
  rw [Agenda.called_callAt]
  rfl

theorem effort_look (s : Limiter) (t : Ticket) (r : String) :
    (s.look t r).effort n = s.effort n := by
  rcases look_cases s t r with ⟨he, -⟩ | ⟨waited, -, ⟨-, he⟩ | ⟨wakeAt, w, -, -, -, he⟩⟩
  · rw [he]
  · rw [he]
    rfl
  · rw [he, effort_callAt]
    rfl

theorem effort_grant (hn : (s.grant t r).grants.length ≤ n) :
    (s.grant t r).effort n ≤ s.effort n := by
  rcases grant_spec s t r with ⟨he, -⟩ | ⟨waited, hg⟩
  · exact Nat.le_of_eq (congrArg (effort · n) he)
  · have hcalled := Agenda.length_called_callAll s.agenda (s.lane r).seated.head?.toList
    have hhead : (s.lane r).seated.head?.toList.length ≤ 1 := Option.length_toList_le
    rw [hg.grants, List.length_append, List.length_singleton] at hn
    rw [effort, effort, hg.agenda, hg.grants, hg.held, List.length_append, List.length_append,
      List.length_singleton, List.length_singleton]
    omega

theorem effort_release (s : Limiter) (t : Ticket) : (s.release t).effort n ≤ s.effort n := by
  rcases release_spec s t with ⟨-, he⟩ | ⟨r, hr⟩
  · exact Nat.le_of_eq (congrArg (effort · n) he)
  · have hagenda : (s.release t).agenda =
        s.agenda.callAll ((s.lane r).slots.next?.toList ++ s.pool.next?.toList) := by
      rw [release, hr.found]
      rfl
    have hcalled := Agenda.length_called_callAll s.agenda
      ((s.lane r).slots.next?.toList ++ s.pool.next?.toList)
    have hslot : (s.lane r).slots.next?.toList.length ≤ 1 := Option.length_toList_le
    have hpool : s.pool.next?.toList.length ≤ 1 := Option.length_toList_le
    obtain ⟨before, after, hheld, hheld'⟩ := hr.held_split
    rw [List.length_append] at hcalled
    rw [effort, effort, hagenda, hr.grants, hheld, hheld', List.length_append, List.length_append,
      List.length_cons]
    omega

/-- A turn that answers a call costs effort. -/
theorem effort_turn (hn : (s.turn t).grants.length ≤ n) (ht : t ∈ s.agenda.called) :
    (s.turn t).effort n < s.effort n := by
  have htake := @effort_take s t n ht
  rw [turn] at hn ⊢
  split at hn
  · have hgrant := effort_grant hn
    rw [effort_look] at hgrant
    exact Nat.lt_of_le_of_lt hgrant (Nat.lt_of_succ_le (Nat.le_of_eq htake))
  · exact Nat.lt_of_succ_le (Nat.le_of_eq htake)

theorem Numbered.length_grants_le (h : s.Numbered n) (ho : s.Orderly) : s.grants.length ≤ n := by
  rw [← List.length_map Grant.ticket]
  exact Agenda.length_le_of_nodup ho.grantedOnce fun t ht => h.granted_lt ht

theorem Orderly.length_held_le (h : s.Orderly) : s.held.length ≤ s.grants.length := by
  have hsub : s.held.map Prod.fst ⊆ s.granted := by
    intro t ht
    obtain ⟨⟨t, r⟩, hmem, rfl⟩ := List.mem_map.mp ht
    obtain ⟨g, hg, hgt, -⟩ := h.heldGranted hmem
    exact List.mem_map.mpr ⟨g, hg, hgt⟩
  have hle := (List.subperm_of_subset h.heldOnce hsub).length_le
  rwa [List.length_map, granted, List.length_map] at hle

/-- Four turns for every ticket are enough. -/
theorem Numbered.effort_le (h : s.Numbered n) (ho : s.Orderly) : s.effort n ≤ 4 * n := by
  have hcalled := Agenda.length_le_of_nodup h.below.once h.below.called
  have hgrants := h.length_grants_le ho
  have hheld := ho.length_held_le
  rw [effort]
  omega

end Limiter

/-! ## Turns in a session -/

namespace Session

variable {rates : Rates} {globalConcurrency : Nat} {s : Limiter} {n : Ticket}
  {running : List Ticket}

/-- A whole turn is made of steps. -/
theorem Watched.steps_turn (h : Watched rates globalConcurrency ⟨s, n, running⟩) (t : Ticket) :
    Steps ⟨s, n, running⟩ ⟨s.turn t, n, running.erase t⟩ := by
  have hturn : Steps ⟨s, n, running⟩ ⟨s.turn t, n, t :: running⟩ := by
    have hresume : Steps ⟨s, n, running⟩ ⟨s.onAgenda (·.take t), n, t :: running⟩ :=
      .single (.resume t)
    rw [Limiter.turn]
    split
    · next r _ =>
      have ht : t ∈ t :: running := List.mem_cons_self
      exact ((((hresume.tail (.seat t r ht)).tail (.enter t r ht)).tail (.wake t r ht)).tail
        (.look t r ht)).tail (.grant t r ht)
    · exact hresume
  have hstuck (r : String) (hgo : (s.turn t).CanGo r t) : t ∈ (s.turn t).agenda.called :=
    absurd hgo (h.healthy.not_canGo_turn t r)
  have hpause := hturn.tail (.pause t hstuck)
  rw [List.erase_cons_head] at hpause
  exact hpause.tail (.pause t hstuck)

end Session

/-! ## Workloads as sessions -/

namespace Workload

open Session (Steps Step Watched Reachable)

variable {rates : Rates} {globalConcurrency : Nat} {w w' : Workload} {t : Ticket}

/-- A workload as a session in which nobody is in the middle of a turn. -/
def session (w : Workload) : Session := ⟨w.limiter, w.nextTicket, []⟩

/-- A workload whose limiter has been used in steps, and whose tasks have tickets. -/
structure Tended (rates : Rates) (globalConcurrency : Nat) (w : Workload) : Prop where
  reachable : Reachable rates globalConcurrency w.session
  named : ∀ name t, w.names.get? name = some t → t < w.nextTicket

/-- Nobody is called. -/
def Calm (w : Workload) : Prop := w.limiter.agenda.called = []

theorem tended_fresh (rates : Rates) (globalConcurrency : Nat) :
    Tended rates globalConcurrency (fresh (.fresh rates globalConcurrency)) where
  reachable := .refl
  named _ _ h := by cases h

theorem Tended.watched (h : Tended rates globalConcurrency w) :
    Watched rates globalConcurrency w.session :=
  h.reachable.watched

/-- A workload stays tended when its limiter is used in steps and no task is added. -/
theorem Tended.steps (h : Tended rates globalConcurrency w) (hs : Steps w.session w'.session)
    (hnames : w'.names = w.names) (hnext : w'.nextTicket = w.nextTicket) :
    Tended rates globalConcurrency w' where
  reachable := h.reachable.trans hs
  named := by
    rw [hnames, hnext]
    exact h.named

theorem Tended.onLimiter (h : Tended rates globalConcurrency w) {f : Limiter → Limiter}
    (hf : Step w.session (w.session.onLimiter f)) :
    Tended rates globalConcurrency (w.onLimiter f) :=
  h.steps (.single hf) rfl rfl

theorem Tended.lt_of_called (h : Tended rates globalConcurrency w)
    (ht : t ∈ w.limiter.agenda.called) : t < w.nextTicket :=
  h.watched.numbered.below.called t ht

/-! ## Turns of a workload -/

/-- What the turn of a ticket does after the ticket has gone on. -/
theorem turn_cases (w : Workload) (t : Ticket) :
    w.turn t = w.onLimiter (·.turn t) ∨ w.turn t = (w.onLimiter (·.turn t)).finish t ∨
      ∃ time, w.turn t = (w.onLimiter (·.turn t)).onLimiter (·.callAt time t) := by
  rw [turn]
  split
  · next time _ =>
    split
    · exact .inr (.inl rfl)
    · exact .inr (.inr ⟨time, rfl⟩)
  · exact .inl rfl

theorem names_turn (w : Workload) (t : Ticket) : (w.turn t).names = w.names := by
  rcases turn_cases w t with he | he | ⟨time, he⟩ <;> rw [he] <;> rfl

theorem nextTicket_turn (w : Workload) (t : Ticket) : (w.turn t).nextTicket = w.nextTicket := by
  rcases turn_cases w t with he | he | ⟨time, he⟩ <;> rw [he] <;> rfl

/-- The turn of a ticket is made of steps, also when it is the first one. -/
theorem steps_turn {running : List Ticket}
    (h : Watched rates globalConcurrency ⟨w.limiter, w.nextTicket, running⟩)
    (hrunning : running.erase t = []) (ht : t < w.nextTicket) :
    Steps ⟨w.limiter, w.nextTicket, running⟩ (w.turn t).session := by
  have hturn := h.steps_turn t
  rw [hrunning] at hturn
  rcases turn_cases w t with he | he | ⟨time, he⟩
  · rw [he]
    exact hturn
  · rw [he]
    exact hturn.tail (.release t)
  · rw [he]
    exact hturn.tail (.callAt time t ht)

theorem Tended.turn (h : Tended rates globalConcurrency w) (ht : t ∈ w.limiter.agenda.called) :
    Tended rates globalConcurrency (w.turn t) :=
  h.steps (steps_turn h.watched rfl (h.lt_of_called ht)) (names_turn w t) (nextTicket_turn w t)

/-- A turn that answers a call costs effort. -/
theorem Tended.effort_turn (h : Tended rates globalConcurrency w)
    (ht : t ∈ w.limiter.agenda.called) :
    (w.turn t).limiter.effort w.nextTicket < w.limiter.effort w.nextTicket := by
  have hturned := h.watched.steps (h.watched.steps_turn t)
  have hgrants := hturned.numbered.length_grants_le hturned.healthy.orderly
  have hlt := Limiter.effort_turn hgrants ht
  rcases turn_cases w t with he | he | ⟨time, he⟩
  · rw [he]
    exact hlt
  · rw [he]
    exact Nat.lt_of_le_of_lt (Limiter.effort_release _ t) hlt
  · rw [he]
    exact Nat.lt_of_le_of_lt (Nat.le_of_eq (Limiter.effort_callAt _ time t)) hlt

theorem called_of_next? {awaited : Option Ticket} (h : w.next? awaited = some t) :
    t ∈ w.limiter.agenda.called := by
  rw [next?, Option.or_eq_some_iff] at h
  rcases h with h | ⟨-, h⟩
  · exact List.mem_of_mem_filter (List.mem_of_mem_head? h)
  · exact List.mem_of_mem_head? h

theorem calm_of_next? {awaited : Option Ticket} (h : w.next? awaited = none) : w.Calm := by
  rw [next?, Option.or_eq_none_iff] at h
  exact List.head?_eq_none_iff.mp h.2

/-- Turns are taken until nobody is called or the awaited ticket has been granted. -/
theorem Tended.takeTurns {awaited : Option Ticket} {fuel : Nat}
    (h : Tended rates globalConcurrency w) (hfuel : w.limiter.effort w.nextTicket ≤ fuel) :
    Tended rates globalConcurrency (takeTurns awaited fuel w) ∧
      (awaited = none → (takeTurns awaited fuel w).Calm) := by
  induction fuel generalizing w with
  | zero =>
    refine ⟨h, fun _ => List.eq_nil_of_length_eq_zero ?_⟩
    rw [Limiter.effort] at hfuel
    show w.limiter.agenda.called.length = 0
    omega
  | succ fuel ih =>
    rw [Workload.takeTurns]
    split
    · next hgranted =>
      refine ⟨h, fun hnone => ?_⟩
      rw [hnone] at hgranted
      cases hgranted
    · split
      · next t ht =>
        have hcalled := called_of_next? ht
        have hlt := h.effort_turn hcalled
        refine ih (h.turn hcalled) ?_
        rw [nextTicket_turn]
        omega
      · next hnone => exact ⟨h, fun _ => calm_of_next? hnone⟩

/-- **There are enough turns.** After them nobody is called, unless somebody was awaited. -/
theorem Tended.settle (h : Tended rates globalConcurrency w) (awaited : Option Ticket) :
    Tended rates globalConcurrency (w.settle awaited) ∧
      (awaited = none → (w.settle awaited).Calm) := by
  have hle := h.watched.numbered.effort_le h.watched.healthy.orderly
  refine h.takeTurns (Nat.le_trans hle ?_)
  exact Nat.mul_le_mul_right _ (by decide)

theorem Tended.settleAll (h : Tended rates globalConcurrency w) :
    Tended rates globalConcurrency (w.settle none) ∧ (w.settle none).Calm :=
  (h.settle none).imp_right fun hcalm => hcalm rfl

/-! ## Time -/

theorem Tended.turnOf (h : Tended rates globalConcurrency w) (awaited : Option Ticket) :
    Tended rates globalConcurrency (w.turnOf awaited) := by
  unfold Workload.turnOf
  split
  · split
    · next hc => exact h.turn (List.contains_iff_mem.mp hc)
    · exact h
  · exact h

theorem Tended.sleepUntil (h : Tended rates globalConcurrency w) (awaited : Option Ticket)
    (time : Nat) :
    Tended rates globalConcurrency (w.sleepUntil awaited time) ∧
      (awaited = none → (w.sleepUntil awaited time).Calm) :=
  ((h.onLimiter (.sleepUntil time)).turnOf awaited).settle awaited

theorem Tended.passUntil (h : Tended rates globalConcurrency w) (awaited : Option Ticket)
    (time target : Nat) :
    Tended rates globalConcurrency (passUntil awaited w time target) ∧
      (awaited = none → (passUntil awaited w time target).Calm) := by
  fun_induction Workload.passUntil awaited w time target with
  | case1 w time hgranted =>
    refine ⟨h, fun hnone => ?_⟩
    rw [hnone] at hgranted
    cases hgranted
  | case2 w time _ alarm _ _ ih => exact ih (h.sleepUntil awaited alarm).1
  | case3 => exact h.sleepUntil awaited _
  | case4 => exact h.sleepUntil awaited _

/-! ## Operations -/

theorem Tended.keep (h : Tended rates globalConcurrency w) (name : String) (t : Ticket) :
    Tended rates globalConcurrency (w.keep name t) := by
  rw [Workload.keep]
  split
  · next old _ => exact h.steps (.single (.release old)) rfl rfl
  · exact h.steps .refl rfl rfl

/-- The next ticket has joined the line of a registry and is in its first turn. -/
theorem Tended.steps_joined (h : Tended rates globalConcurrency w) (registry : String) :
    Reachable rates globalConcurrency
      ⟨(w.joined registry).limiter, (w.joined registry).nextTicket, [w.nextTicket]⟩ :=
  h.reachable.tail (.request registry)

theorem Tended.turn_joined (h : Tended rates globalConcurrency w) (registry : String) :
    Tended rates globalConcurrency ((w.joined registry).turn w.nextTicket) := by
  have hjoined := h.steps_joined registry
  refine ⟨hjoined.trans (steps_turn hjoined.watched ?_ (Nat.lt_succ_self _)), ?_⟩
  · exact List.erase_cons_head _ _
  · rw [names_turn, nextTicket_turn]
    exact fun name t ht => Nat.lt_succ_of_lt (h.named name t ht)

theorem Tended.acquire (h : Tended rates globalConcurrency w) (registry name : String)
    (timeout : Nat) :
    Tended rates globalConcurrency (w.acquire registry name timeout).1 ∧
      (w.acquire registry name timeout).1.Calm := by
  have hpass (time target : Nat) := ((h.turn_joined registry).passUntil (some w.nextTicket) time
    target).1
  rw [Workload.acquire]
  split
  · exact ((hpass _ _).keep name w.nextTicket).settleAll
  · exact ((hpass _ _).onLimiter (.abandon w.nextTicket)).settleAll

theorem Tended.spawned (h : Tended rates globalConcurrency w) (registry name : String)
    (hold : Hold) : Tended rates globalConcurrency (w.spawned registry name hold) := by
  have hcalled := (h.steps_joined registry).tail (.call w.nextTicket (Nat.lt_succ_self _))
  -- the first turn is left to whoever is called
  have hpaused := hcalled.tail (.pause w.nextTicket fun _ _ =>
    Agenda.mem_called_call.mpr (.inr rfl))
  have hnone : [w.nextTicket].erase w.nextTicket = [] := List.erase_cons_head _ _
  dsimp only [Session.onLimiter] at hpaused
  rw [hnone] at hpaused
  refine ⟨hpaused, fun name' t ht => ?_⟩
  change (w.names.set name w.nextTicket).get? name' = some t at ht
  rw [Table.get?_set] at ht
  split at ht
  · cases ht
    exact Nat.lt_succ_self _
  · exact Nat.lt_succ_of_lt (h.named name' t ht)

theorem Tended.spawn (h : Tended rates globalConcurrency w) (registry name : String)
    (hold : Hold) :
    Tended rates globalConcurrency (w.spawn registry name hold) ∧
      (w.spawn registry name hold).Calm :=
  (h.spawned registry name hold).settleAll

theorem Tended.release (h : Tended rates globalConcurrency w) (hc : w.Calm) (name : String) :
    Tended rates globalConcurrency (w.release name).1 ∧ (w.release name).1.Calm := by
  rw [Workload.release]
  split
  · next t _ =>
    have hreleased : Tended rates globalConcurrency
        ({ w with permits := w.permits.filter fun name' _ => name' ≠ name }.onLimiter
          (·.release t)) :=
      h.steps (.single (.release t)) rfl rfl
    exact hreleased.settleAll
  · split
    · next t ht =>
      have hcalled : Tended rates globalConcurrency
          ((w.onTask t fun task => { task with told := true }).onLimiter (·.call t)) :=
        h.steps (.single (.call t (h.named name t ht))) rfl rfl
      exact hcalled.settleAll
    · exact ⟨h, hc⟩

theorem Tended.abort (h : Tended rates globalConcurrency w) (hc : w.Calm) (name : String) :
    Tended rates globalConcurrency (w.abort name) ∧ (w.abort name).Calm := by
  rw [Workload.abort]
  split
  · next t _ =>
    have habandoned : Tended rates globalConcurrency
        ((w.onTask t fun task => { task with finished := true }).onLimiter (·.abandon t)) :=
      h.steps (.single (.abandon t)) rfl rfl
    exact habandoned.settleAll
  · exact ⟨h, hc⟩

/-- After an operation nobody is called. -/
theorem Tended.perform (h : Tended rates globalConcurrency w) (hc : w.Calm) (op : Operation) :
    Tended rates globalConcurrency (w.perform op) ∧ (w.perform op).Calm := by
  cases op with
  | acquire registry name timeout => exact h.acquire registry name timeout
  | spawn registry name hold => exact h.spawn registry name hold
  | release name => exact h.release hc name
  | abort name => exact h.abort hc name
  | advance ms => exact (h.passUntil none _ _).imp_right fun hcalm => hcalm rfl
  | resetMetrics => exact ⟨h.onLimiter .resetMetrics, hc⟩

theorem tended_run (rates : Rates) (globalConcurrency : Nat) (ops : List Operation) :
    let w := ops.foldl perform (fresh (.fresh rates globalConcurrency))
    Tended rates globalConcurrency w ∧ w.Calm := by
  induction ops using List.reverseRecOn with
  | nil => exact ⟨tended_fresh rates globalConcurrency, rfl⟩
  | append_singleton ops op ih =>
    rw [List.foldl_append, List.foldl_cons, List.foldl_nil]
    exact ih.1.perform ih.2 op

/-- **Nobody waits without a reason.** However the turns of tickets overlap, and whoever is given up
on the way, a sleeper has no global slot. When nothing more happens at the current time, whoever
waits for a permit of a registry does so because all slots of that registry are held by permits, or
because its window is full and one ticket sleeps until there is room, or because all global slots
are held by permits; and without a permit and a sleeper nobody waits. After every operation of its
users a workload is in such a state. -/
theorem waits_for_a_reason (rates : Rates) (globalConcurrency : Nat) :
    (∀ c, Reachable rates globalConcurrency c →
      (∀ r t wakeAt, c.limiter.Asleep r t wakeAt →
        c.limiter.globalSlotsOf t = 0 ∧ t ∉ c.limiter.pool.line) ∧
      (c.Settled → Session.AtRest rates globalConcurrency c.limiter)) ∧
    ∀ ops : List Operation,
      let w := ops.foldl perform (fresh (.fresh rates globalConcurrency))
      Reachable rates globalConcurrency w.session ∧ w.session.Settled := by
  refine ⟨fun c hc => ⟨fun r t wakeAt => ?_, ?_⟩, fun ops => ?_⟩
  · exact hc.watched.healthy.not_pooled_of_asleep
  · exact hc.watched.atRest
  · obtain ⟨h, hcalm⟩ := tended_run rates globalConcurrency ops
    exact ⟨h.reachable, hcalm, rfl⟩

/-- One request per minute and two slots: the first task is done, the second one sleeps, and the
third one waits behind it for the window lock. -/
theorem waits_for_a_reason_sleeper :
    let rates : Rates := ⟨[("r", ⟨1, 2, 1⟩)]⟩
    let ops : List Operation := [.spawn "r" "a" (.forMs 0), .spawn "r" "b" .untilTold,
      .spawn "r" "c" .untilTold]
    let w := ops.foldl perform (fresh (.fresh rates 1))
    w.limiter.held = [] ∧ (w.limiter.lane "r").tickets = [2, 1] ∧
      w.limiter.Asleep "r" 1 60000 ∧ w.limiter.globalSlotsOf 1 = 0 ∧
      w.limiter.Blocked rates 1 "r" := by
  have hstate :
      let w := [.spawn "r" "a" (.forMs 0), .spawn "r" "b" .untilTold,
        .spawn "r" "c" .untilTold].foldl perform (fresh (.fresh ⟨[("r", ⟨1, 2, 1⟩)]⟩ 1))
      w.limiter.held = [] ∧ (w.limiter.lane "r").tickets = [2, 1] ∧
        (w.limiter.lane "r").admitting = some ⟨1, .asleep 60000, 60000⟩ := by decide
  obtain ⟨hheld, htickets, hadmitting⟩ := hstate
  obtain ⟨hsessions, hworkloads⟩ := waits_for_a_reason ⟨[("r", ⟨1, 2, 1⟩)]⟩ 1
  obtain ⟨hreachable, hsettled⟩ := hworkloads [.spawn "r" "a" (.forMs 0),
    .spawn "r" "b" .untilTold, .spawn "r" "c" .untilTold]
  obtain ⟨hsleepers, hrest⟩ := hsessions _ hreachable
  have hasleep := hsleepers "r" 1 60000 ⟨60000, hadmitting⟩
  refine ⟨hheld, htickets, ⟨60000, hadmitting⟩, hasleep.1, (hrest hsettled).blocked "r" 2 ?_⟩
  exact htickets.symm ▸ List.mem_cons_self

end Workload

end TagWatch.Limit
