import TagWatch.Proofs.Limit.Concern

/-!
# What a turn does

**Theorem (`Limiter.turn_spec`).** A turn carries a ticket as far as it can go. Afterwards the
ticket has its permit or cannot go on, and the load that the turn adds to the agenda is paid for
by the fee of the ticket.

A limiter is `Healthy` when all invariants of runs hold and whoever sleeps has an alarm for the end
of its sleep. The calls of a limiter and its health together are what keeps it going.
-/

namespace TagWatch.Limit.Limiter

variable {s s' : Limiter} {t u : Ticket} {r : String}

/-! ## Healthy limiters -/

/-- Whoever sleeps is going to be called at the end of its sleep. -/
def Alarmed (s : Limiter) : Prop :=
  ∀ r t wakeAt waited, (s.lane r).admitting = some ⟨t, .asleep wakeAt, waited⟩ →
    (wakeAt, t) ∈ s.agenda.alarms ∨ wakeAt ≤ s.now

/-- All invariants of a limiter. -/
structure Healthy (s : Limiter) : Prop where
  orderly : s.Orderly
  lined : s.Lined
  timely : s.Timely
  balanced : ∃ globalConcurrency, s.Balanced s.rates globalConcurrency
  alarmed : s.Alarmed

theorem healthy_fresh (rates : Rates) (globalConcurrency : Nat) :
    (fresh rates globalConcurrency).Healthy where
  orderly := orderly_fresh rates globalConcurrency
  lined := lined_fresh rates globalConcurrency
  timely := timely_fresh rates globalConcurrency
  balanced := ⟨globalConcurrency, balanced_fresh rates globalConcurrency⟩
  alarmed r t wakeAt waited h := by cases h

/-- A move keeps a limiter healthy if every sleeper keeps its alarm. -/
theorem Healthy.move (h : s.Healthy) (m : Move) (hm : ∀ t, m.asked? = some t → s.Unused t)
    (ha : (s.move m).Alarmed) : (s.move m).Healthy := by
  obtain ⟨globalConcurrency, hb⟩ := h.balanced
  have hb' := hb.move m
  exact ⟨h.orderly.move hm, h.lined.move h.orderly m, h.timely.move m,
    ⟨globalConcurrency, hb'.configured ▸ hb'⟩, ha⟩

/-- Sleepers keep their alarms when nobody falls asleep and no alarm is lost before its time. -/
theorem Alarmed.congr (h : s.Alarmed) (hnow : s.now ≤ s'.now)
    (halarms : ∀ e ∈ s.agenda.alarms, e ∈ s'.agenda.alarms ∨ e.1 ≤ s'.now)
    (hasleep : ∀ r t wakeAt waited, (s'.lane r).admitting = some ⟨t, .asleep wakeAt, waited⟩ →
      (s.lane r).admitting = some ⟨t, .asleep wakeAt, waited⟩ ∨
        (wakeAt, t) ∈ s'.agenda.alarms) : s'.Alarmed := by
  intro r t wakeAt waited hadm
  rcases hasleep r t wakeAt waited hadm with hadm | hmem
  · rcases h r t wakeAt waited hadm with hmem | hle
    · exact halarms _ hmem
    · exact .inr (Nat.le_trans hle hnow)
  · exact .inl hmem

theorem Alarmed.onLane (h : s.Alarmed) (r : String) (f : Lane → Lane)
    (hasleep : ∀ t wakeAt waited, (f (s.lane r)).admitting = some ⟨t, .asleep wakeAt, waited⟩ →
      (s.lane r).admitting = some ⟨t, .asleep wakeAt, waited⟩) : (s.onLane r f).Alarmed := by
  refine h.congr (Nat.le_refl _) (fun e he => .inl he) fun r' t wakeAt waited hadm => .inl ?_
  rw [lane_onLane] at hadm
  split at hadm
  · next hr => rw [hr]; exact hasleep t wakeAt waited hadm
  · exact hadm

theorem Healthy.ask (h : s.Healthy) (ht : s.Unused t) (registry : String) :
    (s.ask t registry).Healthy := by
  refine h.move (.ask t registry) (fun u hu => ?_) (h.alarmed.onLane _ (·.ask t) fun _ _ _ => id)
  cases hu
  exact ht

theorem Healthy.seat (h : s.Healthy) (t : Ticket) (r : String) : (s.seat t r).Healthy := by
  refine h.move (.seat t r) (fun u hu => by cases hu) (h.alarmed.onLane r (·.seat t) ?_)
  intro u wakeAt waited hadm
  rwa [Lane.admitting_seat] at hadm

theorem Healthy.enter (h : s.Healthy) (t : Ticket) (r : String) : (s.enter t r).Healthy := by
  refine h.move (.enter t r) (fun u hu => by cases hu) (h.alarmed.onLane r (·.enter t) ?_)
  exact fun u wakeAt waited => (Lane.admitting_enter Stage.noConfusion).mp

theorem Healthy.wake (h : s.Healthy) (t : Ticket) (r : String) : (s.wake t r).Healthy := by
  refine h.move (.wake t r) (fun u hu => by cases hu) (h.alarmed.onLane r (·.wake s.now t) ?_)
  exact fun u wakeAt waited => Lane.admitting_of_wake Stage.noConfusion

theorem Healthy.look (h : s.Healthy) (t : Ticket) (r : String) : (s.look t r).Healthy := by
  refine h.move (.look t r) (fun u hu => by cases hu) ?_
  show (s.look t r).Alarmed
  rcases look_cases s t r with ⟨he, -⟩ | ⟨waited, -, ⟨hpooled, he⟩ | ⟨wakeAt, w, hasleep, -, -, he⟩⟩
  · rw [he]
    exact h.alarmed
  · rw [he]
    refine h.alarmed.congr (Nat.le_refl _) (fun e he => .inl he) fun r' u wakeAt w hadm => .inl ?_
    change ((s.onLane r (·.look s.now)).lane r').admitting = _ at hadm
    rw [lane_onLane] at hadm
    split at hadm
    · rw [hpooled] at hadm
      cases hadm
    · exact hadm
  · rw [he]
    refine h.alarmed.congr ?_ (fun e he => .inl (Agenda.mem_alarms_callAt.mpr (.inl he)))
      fun r' u wakeAt' w' hadm => ?_
    · rw [now_callAt]
      exact Nat.le_refl _
    · change ((s.onLane r (·.look s.now)).lane r').admitting = _ at hadm
      rw [lane_onLane] at hadm
      split at hadm
      · rw [hasleep] at hadm
        cases hadm
        exact .inr (Agenda.mem_alarms_callAt.mpr (.inr rfl))
      · exact .inl hadm

theorem Healthy.grant (h : s.Healthy) (t : Ticket) (r : String) : (s.grant t r).Healthy := by
  refine h.move (.grant t r) (fun u hu => by cases hu) ?_
  show (s.grant t r).Alarmed
  rcases grant_spec s t r with ⟨he, -⟩ | ⟨waited, hg⟩
  · rw [he]
    exact h.alarmed
  · refine h.alarmed.congr (Nat.le_of_eq hg.now.symm) (fun e he => .inl ?_)
      fun r' u wakeAt w hadm => .inl ?_
    · rwa [hg.agenda, Agenda.alarms_callAll]
    · rw [hg.lane r'] at hadm
      split at hadm
      · cases hadm
      · exact hadm

theorem Healthy.release (h : s.Healthy) (t : Ticket) : (s.release t).Healthy := by
  have hc := concerns_release s t
  refine h.move (.release t) (fun u hu => by cases hu) ?_
  refine h.alarmed.congr (Nat.le_of_eq hc.now.symm) (fun e he => .inl (hc.alarms e he))
    fun r' u wakeAt w hadm => .inl ?_
  change ((s.release t).lane r').admitting = _ at hadm
  rcases release_spec s t with ⟨-, he⟩ | ⟨r, hr⟩
  · rwa [he] at hadm
  · rw [hr.lane r'] at hadm
    split at hadm
    · next he => rw [he]; exact hadm
    · exact hadm

/-- A limiter stays healthy when calls change and no alarm is lost. -/
theorem Healthy.onAgenda (h : s.Healthy) (f : Agenda → Agenda)
    (hnow : (f s.agenda).now = s.agenda.now)
    (ha : ∀ e ∈ s.agenda.alarms, e ∈ (f s.agenda).alarms) : (s.onAgenda f).Healthy := by
  have he : s.onAgenda f = s.move (.plan (f s.agenda).called (f s.agenda).alarms) := by
    show s.onAgenda f = s.onAgenda fun a => ⟨a.now, _, _⟩
    rw [Limiter.onAgenda, Limiter.onAgenda, ← hnow]
  rw [he]
  refine h.move _ (fun u hu => by cases hu) (h.alarmed.congr (Nat.le_refl _) ?_ fun _ _ _ _ => .inl)
  exact fun e hmem => .inl (ha e hmem)

theorem Healthy.sleepUntil (h : s.Healthy) (time : Nat) : (s.sleepUntil time).Healthy := by
  refine h.move (.sleepUntil time) (fun u hu => by cases hu)
    (h.alarmed.congr ?_ (fun e he => ?_) fun _ _ _ _ => .inl)
  · rw [show s.move (.sleepUntil time) = s.sleepUntil time from rfl, now_sleepUntil]
    exact Nat.le_max_left _ _
  · show e ∈ (s.agenda.sleepUntil time).alarms ∨ e.1 ≤ (s.sleepUntil time).now
    rw [now_sleepUntil, Agenda.mem_alarms_sleepUntil]
    rcases Nat.lt_or_ge (max s.now time) e.1 with hlt | hle
    · exact .inl ⟨he, hlt⟩
    · exact .inr hle

/-! ## The steps of a turn -/

/-- One step of a turn, after which the ticket still waits in its lane. -/
structure Carries (s s' : Limiter) (t : Ticket) (r : String) : Prop where
  concerns : Concerns s s' t
  healthy : s'.Healthy
  waits : t ∈ (s'.lane r).tickets
  load : s'.agenda.load + (s'.lane r).fee t ≤ s.agenda.load + (s.lane r).fee t

theorem Carries.trans {s'' : Limiter} (h : Carries s s' t r) (h' : Carries s' s'' t r) :
    Carries s s'' t r :=
  ⟨h.concerns.trans h'.concerns, h'.healthy, h'.waits, Nat.le_trans h'.load h.load⟩

theorem carries_take (h : s.Healthy) (ht : t ∈ (s.lane r).tickets) :
    Carries s (s.onAgenda (·.take t)) t r :=
  ⟨concerns_take s t, h.onAgenda (·.take t) rfl fun _ => id, ht,
    Nat.add_le_add_right (Agenda.load_take s.agenda t) _⟩

/-- A step inside the lane that keeps the fee adds no load. -/
theorem carries_onLane {f : Lane → Lane} (hc : Concerns s (s.onLane r f) t)
    (h : (s.onLane r f).Healthy) (hfee : (f (s.lane r)).fee t = (s.lane r).fee t)
    (ht : t ∈ (s.lane r).tickets) : Carries s (s.onLane r f) t r := by
  have hfee' : ((s.onLane r f).lane r).fee t = (s.lane r).fee t := by
    rw [lane_onLane_self]
    exact hfee
  refine ⟨hc, h, ?_, ?_⟩
  · rw [← Lane.fee_pos_iff] at *
    rwa [hfee']
  · rw [hfee']
    exact Nat.le_refl _

theorem carries_seat (h : s.Healthy) (ht : t ∈ (s.lane r).tickets) : Carries s (s.seat t r) t r :=
  carries_onLane (concerns_seat s t r) (h.seat t r) Lane.fee_seat ht

theorem carries_enter (h : s.Healthy) (ht : t ∈ (s.lane r).tickets) : Carries s (s.enter t r) t r :=
  carries_onLane (concerns_enter s t r) (h.enter t r) Lane.fee_enter ht

theorem carries_wake (h : s.Healthy) (ht : t ∈ (s.lane r).tickets) : Carries s (s.wake t r) t r :=
  carries_onLane (concerns_wake h.timely t r) (h.wake t r) (Lane.fee_wake (h.timely r)) ht

theorem carries_look (h : s.Healthy) (ht : t ∈ (s.lane r).tickets) :
    Carries s (s.look t r) t r := by
  have hc := concerns_look s t r
  have hs := h.look t r
  rcases look_cases s t r with ⟨he, -⟩ |
    ⟨waited, hadm, ⟨hpooled, he⟩ | ⟨wakeAt, w, hasleep, hfull, -, he⟩⟩
  · rw [he] at hc hs ⊢
    exact ⟨hc, hs, ht, Nat.le_refl _⟩
  · have hadm' : ((s.look t r).lane r).admitting = some ⟨t, .pooled, waited⟩ := by
      rw [he]
      show ((s.onLane r (·.look s.now)).lane r).admitting = _
      rw [lane_onLane_self]
      exact hpooled
    refine ⟨hc, hs, Lane.mem_tickets_of_admitting hadm', ?_⟩
    rw [Lane.fee_of_admitting (hs.orderly.once r) hadm',
      Lane.fee_of_admitting (h.orderly.once r) hadm, he, if_neg fun hp => Stage.noConfusion hp.1]
    have hle : 1 ≤ if Stage.looking = .looking ∧ waited = 0 then 3 else 1 := by split <;> omega
    exact Nat.add_le_add_left hle _
  · have hadm' : ((s.look t r).lane r).admitting = some ⟨t, .asleep wakeAt, w⟩ := by
      rw [he]
      show ((s.onLane r (·.look s.now)).lane r).admitting = _
      rw [lane_onLane_self]
      exact hasleep
    -- a ticket that has slept finds room, so this is its first sleep
    have hwaited : waited = 0 := by
      refine Nat.eq_zero_of_not_pos fun hpos => hfull ?_
      exact (h.timely r).fits _ hadm hpos
    refine ⟨hc, hs, Lane.mem_tickets_of_admitting hadm', ?_⟩
    rw [Lane.fee_of_admitting (hs.orderly.once r) hadm',
      Lane.fee_of_admitting (h.orderly.once r) hadm, he,
      if_neg fun hp => Stage.noConfusion hp.1, if_pos ⟨rfl, hwaited⟩]
    exact Nat.add_le_add_right (Agenda.load_callAt s.agenda wakeAt t) 1

end TagWatch.Limit.Limiter

/-! ## The end of a turn -/

namespace TagWatch.Limit.Lane

variable {l : Lane} {t : Ticket} {now : Nat}

theorem not_admits_seat (hn : l.tickets.Nodup) : ¬ (l.seat t).slots.admits t = true := by
  have hline : l.slots.line.Nodup := hn.sublist (List.sublist_append_left _ _)
  have hslots : (l.seat t).slots = l.slots.pass t := by
    rw [seat, Gate.pass]
    split <;> rfl
  rw [hslots]
  exact Gate.not_admits_pass hline

theorem seated_enter_ne (h : (l.enter t).admitting = none) (rest : List Ticket) :
    (l.enter t).seated ≠ t :: rest := by
  intro hs
  unfold enter at h hs
  split at h
  · next first rest' hadm hseat =>
    split at h
    · cases h
    · next hne =>
      rw [hadm, hseat] at hs
      simp only [if_neg hne] at hs
      rw [hseat] at hs
      exact hne (List.cons.inj hs).1
  · next hno =>
    rw [h] at hs
    split at hs
    · next first rest' _ hseat => exact hno first rest' h hseat
    · exact hno t rest h hs

theorem lt_of_wake {wakeAt waited : Nat}
    (h : (l.wake now t).admitting = some ⟨t, .asleep wakeAt, waited⟩) : now < wakeAt := by
  refine Nat.lt_of_not_le fun hle => ?_
  have hadm := admitting_of_wake Stage.noConfusion h
  rw [wake, hadm] at h
  dsimp only at h
  rw [if_pos ⟨rfl, hle⟩] at h
  cases h

/-- A ticket that has had its steps in a lane can only look at the window or take a global slot. -/
theorem canGo_steps {pool : Gate} (hn : l.tickets.Nodup)
    (h : (((l.seat t).enter t).wake now t).CanGo now pool t) :
    (∃ waited, (((l.seat t).enter t).wake now t).admitting = some ⟨t, .looking, waited⟩) ∨
      ∃ waited, (((l.seat t).enter t).wake now t).admitting = some ⟨t, .pooled, waited⟩ ∧
        pool.admits t = true := by
  cases h with
  | seat h =>
    rw [slots_wake, slots_enter] at h
    exact absurd h (not_admits_seat hn)
  | enter rest h hs =>
    rcases wake_cases ((l.seat t).enter t) now t with he | ⟨wakeAt, waited, -, -, he⟩
    · rw [he] at h hs
      exact absurd hs (seated_enter_ne h rest)
    · rw [he] at h
      cases h
  | look waited h => exact .inl ⟨waited, h⟩
  | wake wakeAt waited h hle => exact absurd (lt_of_wake h) (Nat.not_lt_of_le hle)
  | grant waited h hp => exact .inr ⟨waited, h, hp⟩

end TagWatch.Limit.Lane

namespace TagWatch.Limit.Limiter

variable {s s' : Limiter} {t u : Ticket} {r : String}

/-- After a look a ticket can only go on in a way in which it could do so before, or by taking a
global slot. -/
theorem canGo_look (h : (s.look t r).CanGo r t) :
    (s.CanGo r t ∧ s.look t r = s ∧ ∀ waited, (s.lane r).admitting ≠ some ⟨t, .looking, waited⟩) ∨
      (s.lane r).slots.admits t = true ∨
      ∃ waited, ((s.look t r).lane r).admitting = some ⟨t, .pooled, waited⟩ ∧
        (s.look t r).pool.admits t = true := by
  rcases look_cases s t r with ⟨he, hno⟩ | ⟨waited, hadm, hlook⟩
  · exact .inl ⟨he ▸ h, he, hno⟩
  · have hlane : (s.look t r).lane r = (s.lane r).look s.now := by
      rcases hlook with ⟨-, he⟩ | ⟨wakeAt, w, -, -, -, he⟩
      · rw [he]; exact lane_onLane_self s r (·.look s.now)
      · rw [he]; exact lane_onLane_self s r (·.look s.now)
    have hnow : (s.look t r).now = s.now := (concerns_look s t r).now
    refine .inr ?_
    cases h with
    | seat h =>
      rw [hlane, Lane.slots_look] at h
      exact .inl h
    | enter rest h hs =>
      rw [hlane] at h
      rcases hlook with ⟨hpooled, -⟩ | ⟨wakeAt, w, hasleep, -⟩
      · rw [hpooled] at h; cases h
      · rw [hasleep] at h; cases h
    | look w h =>
      rw [hlane] at h
      rcases hlook with ⟨hpooled, -⟩ | ⟨wakeAt, w, hasleep, -⟩
      · rw [hpooled] at h; cases h
      · rw [hasleep] at h; cases h
    | wake wakeAt' w' h hle =>
      rw [hlane] at h
      rw [hnow] at hle
      rcases hlook with ⟨hpooled, -⟩ | ⟨wakeAt, w, hasleep, -, hlt, -⟩
      · rw [hpooled] at h; cases h
      · rw [hasleep] at h
        cases h
        exact absurd hlt (Nat.not_lt_of_le hle)
    | grant w h hp => exact .inr ⟨w, h, hp⟩

/-- The limiter after the steps of a ticket up to its look at the window. -/
def steps (s : Limiter) (t : Ticket) (r : String) : Limiter :=
  ((((s.onAgenda (·.take t)).seat t r).enter t r).wake t r).look t r

theorem carries_steps (h : s.Healthy) (ht : t ∈ (s.lane r).tickets) :
    Carries s (s.steps t r) t r := by
  have h₁ := carries_take h ht
  have h₂ := h₁.trans (carries_seat h₁.healthy h₁.waits)
  have h₃ := h₂.trans (carries_enter h₂.healthy h₂.waits)
  have h₄ := h₃.trans (carries_wake h₃.healthy h₃.waits)
  exact h₄.trans (carries_look h₄.healthy h₄.waits)

/-- After its steps a ticket can only go on by taking a global slot. -/
theorem pooled_of_canGo_steps (h : s.Healthy) (hgo : (s.steps t r).CanGo r t) :
    ∃ waited, ((s.steps t r).lane r).admitting = some ⟨t, .pooled, waited⟩ ∧
      (s.steps t r).pool.admits t = true := by
  have hn : (s.lane r).tickets.Nodup := h.orderly.once r
  have hlane : ((((s.onAgenda (·.take t)).seat t r).enter t r).wake t r).lane r =
      (((s.lane r).seat t).enter t).wake s.now t := by
    rw [wake, lane_onLane_self, enter, lane_onLane_self, seat, lane_onLane_self]
    rfl
  rcases canGo_look hgo with ⟨hgo, he, hno⟩ | hadmits | hpooled
  · rw [CanGo, hlane] at hgo
    rcases Lane.canGo_steps hn hgo with ⟨waited, hlooks⟩ | ⟨waited, hpooled, hp⟩
    · exact absurd (hlane ▸ hlooks) (hno waited)
    · rw [steps, he]
      exact ⟨waited, hlane ▸ hpooled, hp⟩
  · rw [hlane, Lane.slots_wake, Lane.slots_enter] at hadmits
    exact absurd hadmits (Lane.not_admits_seat hn)
  · exact hpooled

/-- What the turn of a ticket leaves behind. -/
structure Turned (s s' : Limiter) (t : Ticket) (r : String) : Prop where
  concerns : Concerns s s' t
  healthy : s'.Healthy
  stuck : ∀ r', ¬ s'.CanGo r' t
  load : s'.agenda.load + (s'.lane r).fee t ≤ s.agenda.load + (s.lane r).fee t
  place : t ∈ (s'.lane r).tickets ∨ s'.Idle t ∧ (t, r) ∈ s'.held

/-- A ticket that has been granted waits nowhere. -/
theorem idle_of_granted {waited : Nat} (h : s.Orderly) (hg : Granted s s' t r waited) :
    s'.Idle t := by
  intro r' hmem
  rw [hg.lane r'] at hmem
  split at hmem
  · next hr =>
    have hperm : (s.lane r).tickets.Perm (t :: ((s.lane r).grantAt s.now).tickets) :=
      Lane.tickets_grantAt hg.pooled
    exact (List.nodup_cons.mp (hperm.nodup (h.once r))).1 hmem
  · next hr => exact hr (h.apart hmem hg.mem_tickets)

theorem fee_eq_zero (h : t ∉ (s.lane r).tickets) : (s.lane r).fee t = 0 :=
  Nat.eq_zero_of_not_pos (mt Lane.fee_pos_iff.mp h)

/-- **What a turn does.** The ticket goes as far as it can: it gets its permit, or still waits and
cannot go on. Nobody else moves, and the load that is added is paid for by the fee. -/
theorem turn_spec (h : s.Healthy) (ht : t ∈ (s.lane r).tickets) : Turned s (s.turn t) t r := by
  have hreg : (s.onAgenda (·.take t)).registryOf? t = some r :=
    h.orderly.registryOf?_eq_some_iff.mpr ht
  have hturn : s.turn t = (s.steps t r).grant t r := by
    rw [turn, hreg]
    rfl
  have hsteps := carries_steps h ht
  have hhealthy := hsteps.healthy.grant t r
  have hconcerns := hsteps.concerns.trans (concerns_grant (s.steps t r) t r)
  rw [hturn]
  rcases grant_spec (s.steps t r) t r with ⟨he, hno⟩ | ⟨waited, hg⟩
  · rw [he] at hhealthy hconcerns ⊢
    refine ⟨hconcerns, hhealthy, fun r' hgo => ?_, hsteps.load, .inl hsteps.waits⟩
    obtain rfl : r' = r := hhealthy.orderly.apart hgo.mem_tickets hsteps.waits
    obtain ⟨waited, hpooled, hp⟩ := pooled_of_canGo_steps h hgo
    exact hno waited hpooled hp
  · have hidle := idle_of_granted hsteps.healthy.orderly hg
    have hheld : (t, r) ∈ ((s.steps t r).grant t r).held := by
      rw [hg.held]
      exact List.mem_append_right _ (List.mem_singleton_self _)
    refine ⟨hconcerns, hhealthy, fun r' hgo => hidle r' hgo.mem_tickets, ?_, .inr ⟨hidle, hheld⟩⟩
    have hload := hsteps.load
    have hcall := Agenda.load_callAll (s.steps t r).agenda
      ((s.steps t r).lane r).seated.head?.toList
    have hone : ((s.steps t r).lane r).seated.head?.toList.length ≤ 1 := by
      cases ((s.steps t r).lane r).seated.head? <;> simp
    rw [Lane.fee_of_admitting (hsteps.healthy.orderly.once r) hg.pooled,
      if_neg fun hp => Stage.noConfusion hp.1] at hload
    rw [fee_eq_zero (hidle r), hg.agenda]
    omega

/-! ## Nobody is forgotten -/

/-- Whoever can go on has been called or is about to get a turn. -/
def Attentive (s : Limiter) (due : List Ticket) : Prop :=
  ∀ r u, s.CanGo r u → u ∈ s.agenda.called ∨ u ∈ due

/-- A ticket that has had its turn, and cannot go on, is not due any more. -/
theorem Attentive.concerns {due : List Ticket} (h : s.Attentive (t :: due)) (hc : Concerns s s' t)
    (hstuck : ∀ r, ¬ s'.CanGo r t) : s'.Attentive due := by
  intro r u hgo
  have hu : u ≠ t := by
    rintro rfl
    exact hstuck r hgo
  rcases hc.canGo u hu r hgo with hgo | hcalled
  · rcases h r u hgo with hcalled | hdue
    · exact .inl (hc.called u hu hcalled)
    · exact .inr (List.mem_of_ne_of_mem hu hdue)
  · exact .inl hcalled

/-- Calls may be dropped for turns that are to come. -/
theorem Attentive.onAgenda {due due' : List Ticket} (h : s.Attentive due) (f : Agenda → Agenda)
    (hnow : (f s.agenda).now = s.agenda.now)
    (hcalled : ∀ r u, s.CanGo r u → u ∈ s.agenda.called ∨ u ∈ due →
      u ∈ (f s.agenda).called ∨ u ∈ due') : (s.onAgenda f).Attentive due' := by
  intro r u hgo
  have hgo' : s.CanGo r u := by
    rw [CanGo, show (s.onAgenda f).now = s.now from hnow] at hgo
    exact hgo
  exact hcalled r u hgo' (h r u hgo')

/-- When time passes, whoever can go on because of it is called. -/
theorem Attentive.sleepUntil {due : List Ticket} (h : s.Attentive due) (ha : s.Alarmed)
    (time : Nat) : (s.sleepUntil time).Attentive due := by
  have hcalled {u : Ticket} (hc : u ∈ s.agenda.called ∨ u ∈ due) :
      u ∈ (s.sleepUntil time).agenda.called ∨ u ∈ due :=
    hc.imp_left fun hc => Agenda.mem_called_sleepUntil.mpr (.inl hc)
  intro r u hgo
  cases hgo with
  | seat hadmits => exact hcalled (h r u (.seat hadmits))
  | enter rest hadm hs => exact hcalled (h r u (.enter rest hadm hs))
  | look waited hadm => exact hcalled (h r u (.look waited hadm))
  | wake wakeAt waited hadm hle =>
    rw [now_sleepUntil] at hle
    rcases ha r u wakeAt waited hadm with hmem | hpast
    · exact .inl (Agenda.mem_called_sleepUntil.mpr (.inr ⟨wakeAt, hmem, hle⟩))
    · exact hcalled (h r u (.wake wakeAt waited hadm hpast))
  | grant waited hadm hp => exact hcalled (h r u (.grant waited hadm hp))

/-- A permit that is given back makes two calls at most. -/
theorem load_release (s : Limiter) (t : Ticket) :
    (s.release t).agenda.load ≤ s.agenda.load + 2 := by
  have hone (o : Option Ticket) : o.toList.length ≤ 1 := by cases o <;> simp
  rw [release]
  split
  · next u r _ =>
    refine Nat.le_trans (Agenda.load_callAll s.agenda _) (Nat.add_le_add_left ?_ _)
    rw [List.length_append]
    exact Nat.add_le_add (hone _) (hone _)
  · exact Nat.le_add_right _ _

end TagWatch.Limit.Limiter
