import TagWatch.Proofs.Limit.Numbers
import TagWatch.Proofs.Limit.View

/-!
# Registries apart

What a limiter does to a ticket of one registry it also does to the view of that registry, and what
it does to other tickets cannot be seen there, as long as nobody has to wait for a global slot: at
the beginning of a turn the line for the global slots is empty and a slot is free.

The tickets of a view wait in the lane of its registry and hold its permits, and nobody else does
(`View.Sorts`). A turn keeps the line for the global slots empty (`Limiter.line_turn`).
-/

namespace TagWatch.Limit

/-! ## An empty line for the global slots -/

namespace Gate

variable {g : Gate}

theorem next?_of_nil (h : g.line = []) : g.next? = none := by
  rw [next?, h]
  rfl

theorem admits_of_nil (h : g.line = []) (t : Ticket) : g.admits t = false := by
  rw [admits, h, List.take_nil]
  rfl

theorem successor?_of_nil (h : g.line = []) (t : Ticket) : g.successor? t = none := by
  rw [successor?, admits_of_nil h, if_neg Bool.false_ne_true]

theorem leave_of_nil (h : g.line = []) (t : Ticket) : g.leave t = g := by
  rw [leave, h, List.erase_nil, ← h]

end Gate

namespace Limiter

variable {s : Limiter} {t : Ticket} {r : String}

theorem free_look (s : Limiter) (t : Ticket) (r : String) : (s.look t r).pool.free = s.pool.free :=
  (quiet_look s t r).free

/-- At most the ticket itself joins the empty line when it looks at its window. -/
theorem line_look (hline : s.pool.line = []) (t : Ticket) (r : String) :
    (s.look t r).pool.line = [] ∨ (s.look t r).pool.line = [t] := by
  rcases look_cases s t r with ⟨he, -⟩ | ⟨waited, -, ⟨-, he⟩ | ⟨wakeAt, w, -, -, -, he⟩⟩
  · rw [he]
    exact .inl hline
  · rw [he]
    refine .inr ?_
    show s.pool.line ++ [t] = [t]
    rw [hline]
    rfl
  · rw [he]
    exact .inl hline

/-- A ticket that has joined the empty line takes a free slot at once. -/
theorem line_grant_look (hline : s.pool.line = []) (hfree : 0 < s.pool.free) (t : Ticket)
    (r : String) : ((s.look t r).grant t r).pool.line = [] := by
  have hpass (g : Gate) (hg : g.line = [] ∨ g.line = [t]) (ha : g.admits t = true) :
      (g.pass t).line = [] := by
    rw [Gate.pass_of_admits ha]
    rcases hg with hg | hg <;> rw [hg]
    · rfl
    · exact List.erase_cons_head t []
  rcases grant_spec (s.look t r) t r with ⟨he, hno⟩ | ⟨waited, hg⟩
  · rw [he]
    rcases look_cases s t r with ⟨he, -⟩ | ⟨waited, -, ⟨hpooled, he⟩ | ⟨wakeAt, w, -, -, -, he⟩⟩
    · rwa [he]
    · have hadm : ((s.look t r).lane r).admitting = some ⟨t, .pooled, waited⟩ := by
        rw [he]
        show ((s.onLane r (·.look s.now)).lane r).admitting = _
        rw [lane_onLane_self]
        exact hpooled
      have hhead : (s.look t r).pool.line.head? = some t := by
        rw [he]
        show (s.pool.line ++ [t]).head? = some t
        rw [hline]
        rfl
      refine absurd (Gate.admits_head hhead ?_) (hno waited hadm)
      rwa [free_look]
    · rwa [he]
  · rw [hg.pool]
    exact hpass _ (line_look hline t r) hg.admits

/-- A turn leaves nobody in the line for the global slots. -/
theorem line_turn (hline : s.pool.line = []) (hfree : 0 < s.pool.free) (t : Ticket) :
    (s.turn t).pool.line = [] := by
  rw [turn]
  split
  · next r _ =>
    exact line_grant_look (s := (((s.onAgenda (·.take t)).seat t r).enter t r).wake t r) hline
      hfree t r
  · exact hline

theorem line_release (hline : s.pool.line = []) (t : Ticket) : (s.release t).pool.line = [] := by
  rcases release_spec s t with ⟨-, hr⟩ | ⟨r, hr⟩
  · rwa [hr]
  · rw [hr.pool]
    exact hline

theorem line_abandon (hline : s.pool.line = []) (t : Ticket) : (s.abandon t).pool.line = [] := by
  rw [abandon]
  split
  · show s.pool.line.erase t = []
    rw [hline]
    rfl
  · exact line_release hline t

end Limiter

namespace View

variable {v : View} {s : Limiter} {t u : Ticket} {r : String}

/-! ## Limiters -/

/-- The global gate, with the slots free that others hold. -/
def gate (v : View) (others : Nat) (g : Gate) : Gate := ⟨g.free + others, v.pick g.line⟩

theorem gate_join_of_sees (n : Nat) (ht : v.sees t = true) (g : Gate) :
    v.gate n (g.join t) = (v.gate n g).join (v.number t) :=
  congrArg (Gate.mk _) (part_append_of_sees (k := id) ht)

theorem gate_join_of_not_sees (n : Nat) (ht : v.sees t = false) (g : Gate) :
    v.gate n (g.join t) = v.gate n g :=
  congrArg (Gate.mk _) (part_append_of_not_sees (k := id) ht)

/-- The number of permits of other registries. -/
def others (v : View) (held : List (Ticket × String)) : Nat :=
  held.countP fun h => !v.sees h.1

/-- What is left of a limiter. -/
def limiter (v : View) (s : Limiter) : Limiter where
  rates := s.rates
  agenda := v.agenda s.agenda
  lanes := s.lanes.part (· == v.registry) (·.rename v.number)
  pool := v.gate (v.others s.held) s.pool
  held := v.part Prod.fst (fun h => (v.number h.1, h.2)) s.held
  grants := v.part Grant.ticket (fun g => { g with ticket := v.number g.ticket }) s.grants

/-- Exactly the tickets that are seen wait in the lane of the registry and hold its permits. -/
structure Sorts (v : View) (s : Limiter) : Prop where
  waiting : ∀ {t r}, t ∈ (s.lane r).tickets → (v.sees t = true ↔ r = v.registry)
  holding : ∀ {t r}, (t, r) ∈ s.held → (v.sees t = true ↔ r = v.registry)

theorem lane_limiter (v : View) (s : Limiter) :
    (v.limiter s).lane v.registry = (s.lane v.registry).rename v.number := by
  show ((s.lanes.part (· == v.registry) (·.rename v.number)).get? v.registry).getD _ =
    ((s.lanes.get? v.registry).getD _).rename v.number
  rw [Table.get?_part, beq_self_eq_true, if_pos rfl]
  cases s.lanes.get? v.registry <;> rfl

theorem limiter_onAgenda {f g : Agenda → Agenda}
    (h : v.agenda (f s.agenda) = g (v.agenda s.agenda)) :
    v.limiter (s.onAgenda f) = (v.limiter s).onAgenda g := by
  rw [limiter, Limiter.onAgenda, Limiter.onAgenda]
  simp only [h]
  rfl

theorem limiter_onAgenda_of_eq {f : Agenda → Agenda}
    (h : v.agenda (f s.agenda) = v.agenda s.agenda) :
    v.limiter (s.onAgenda f) = v.limiter s :=
  limiter_onAgenda (g := id) h

theorem limiter_setLane (v : View) (s : Limiter) (l : Lane) :
    v.limiter (s.setLane v.registry l) = (v.limiter s).setLane v.registry (l.rename v.number) := by
  rw [limiter, Limiter.setLane, Limiter.setLane, Table.part_set, beq_self_eq_true, if_pos rfl]
  rfl

theorem limiter_setLane_of_ne (hr : r ≠ v.registry) (l : Lane) :
    v.limiter (s.setLane r l) = v.limiter s := by
  rw [limiter, Limiter.setLane, Table.part_set, beq_false_of_ne hr, if_neg Bool.false_ne_true]
  rfl

/-- A change of the lane of the registry is seen. -/
theorem limiter_onLane {f g : Lane → Lane}
    (h : g ((s.lane v.registry).rename v.number) = (f (s.lane v.registry)).rename v.number) :
    v.limiter (s.onLane v.registry f) = (v.limiter s).onLane v.registry g := by
  rw [Limiter.onLane, Limiter.onLane, limiter_setLane, lane_limiter, h]

theorem limiter_onLane_of_ne (hr : r ≠ v.registry) (f : Lane → Lane) :
    v.limiter (s.onLane r f) = v.limiter s :=
  limiter_setLane_of_ne hr _

/-! ## Who waits where -/

theorem Sorts.move (h : v.Sorts s) (m : Move)
    (hm : ∀ t registry, m = .ask t registry →
      (v.sees t = true ↔ Registry.canonical registry = v.registry)) : v.Sorts (s.move m) := by
  refine ⟨fun {t r} ht => ?_, fun {t r} ht => ?_⟩
  · rcases Limiter.waited_or_asked ht with ht | ⟨registry, hask, hr⟩
    · exact h.waiting ht
    · rw [hr]
      exact hm t registry hask
  · cases Limiter.move_spec s m with
    | asked u registry hu ha => exact h.holding (ha.held ▸ ht)
    | quiet hq => exact h.holding (hq.held ▸ ht)
    | granted u r' waited hg =>
      rw [hg.held, List.mem_append, List.mem_singleton] at ht
      rcases ht with ht | ht
      · exact h.holding ht
      · obtain ⟨rfl, rfl⟩ := Prod.mk.inj ht
        exact h.waiting hg.mem_tickets
    | returned u r' hr => exact h.holding (List.mem_of_mem_eraseP (hr.held ▸ ht))

theorem Sorts.leads {s' : Limiter} (h : v.Sorts s) (hl : Limiter.Leads s s') : v.Sorts s' := by
  obtain ⟨moves, rfl, hasked⟩ := hl
  induction moves generalizing s with
  | nil => exact h
  | cons m moves ih =>
    rw [asked_cons, List.append_eq_nil_iff] at hasked
    refine ih (h.move m fun t registry hm => ?_) hasked.2
    subst hm
    cases hasked.1

theorem Sorts.ask (h : v.Sorts s) {registry : String}
    (ht : v.sees t = true ↔ Registry.canonical registry = v.registry) :
    v.Sorts (s.ask t registry) :=
  h.move (.ask t registry) fun u registry' hm => by cases hm; exact ht

theorem sorts_fresh (v : View) (rates : Rates) (globalConcurrency : Nat) :
    v.Sorts (.fresh rates globalConcurrency) where
  waiting h := absurd h List.not_mem_nil
  holding h := absurd h List.not_mem_nil

theorem Sorts.seen (h : v.Sorts s) (ht : t ∈ (s.lane v.registry).tickets) : v.sees t = true :=
  (h.waiting ht).mpr rfl

theorem Sorts.not_seen (h : v.Sorts s) (hr : r ≠ v.registry) (ht : t ∈ (s.lane r).tickets) :
    v.sees t = false :=
  Bool.eq_false_iff.mpr fun hs => hr ((h.waiting ht).mp hs)

/-- A ticket that is seen is found in the view where it is found in the limiter. -/
theorem Sorts.registryOf?_limiter (h : v.Sorts s) (ho : s.Orderly) (ht : v.sees t = true) :
    (v.limiter s).registryOf? (v.number t) = s.registryOf? t := by
  have hfind : (s.lanes.entries.find? fun e => decide ((e.1 == v.registry) = true ∧
      ((fun e : String × Lane => e.2.holds (v.number t)) ∘ fun e =>
        (e.1, e.2.rename v.number)) e = true)) =
      s.lanes.entries.find? fun e => e.2.holds t := by
    refine List.find?_congr fun e he => ?_
    have hlane : s.lane e.1 = e.2 := by
      rw [Limiter.lane, Table.getD, (Table.mem_entries_iff ho.keys).mp he]
      rfl
    rw [Bool.eq_iff_iff, decide_eq_true_eq, beq_iff_eq, Function.comp_apply,
      Lane.holds_rename v.number_injective]
    refine ⟨And.right, fun hholds => ⟨?_, hholds⟩⟩
    rw [Lane.holds_iff, ← hlane] at hholds
    exact (h.waiting hholds).mp ht
  show (List.find? _ ((s.lanes.entries.filter fun e => e.1 == v.registry).map fun e =>
    (e.1, e.2.rename v.number))).map Prod.fst = _
  rw [List.find?_map, List.find?_filter, hfind, Option.map_map]
  rfl

/-! ## Moves of a ticket that is seen -/

theorem limiter_ask {registry : String} (hr : Registry.canonical registry = v.registry)
    (s : Limiter) (t : Ticket) :
    v.limiter (s.ask t registry) = (v.limiter s).ask (v.number t) registry := by
  rw [Limiter.ask, Limiter.ask, hr]
  exact limiter_onLane (Lane.ask_rename _ t)

theorem limiter_seat (v : View) (s : Limiter) (t : Ticket) :
    v.limiter (s.seat t v.registry) = (v.limiter s).seat (v.number t) v.registry :=
  limiter_onLane (Lane.seat_rename v.number_injective _ t)

theorem limiter_enter (v : View) (s : Limiter) (t : Ticket) :
    v.limiter (s.enter t v.registry) = (v.limiter s).enter (v.number t) v.registry :=
  limiter_onLane (Lane.enter_rename v.number_injective _ t)

theorem limiter_wake (v : View) (s : Limiter) (t : Ticket) :
    v.limiter (s.wake t v.registry) = (v.limiter s).wake (v.number t) v.registry :=
  limiter_onLane (Lane.wake_rename v.number_injective _ s.now t)

theorem limiter_callAt (ht : v.sees t = true) (s : Limiter) (time : Nat) :
    v.limiter (s.callAt time t) = (v.limiter s).callAt time (v.number t) :=
  limiter_onAgenda (agenda_callAt_of_sees time ht)

theorem limiter_look (ht : v.sees t = true) (s : Limiter) :
    v.limiter (s.look t v.registry) = (v.limiter s).look (v.number t) v.registry := by
  have hset := limiter_setLane v s ((s.lane v.registry).look s.now)
  rw [Limiter.look, Limiter.look, lane_limiter, Lane.isAt_rename v.number_injective,
    show (v.limiter s).now = s.now from rfl, Lane.look_rename]
  split
  · dsimp only
    rw [← hset, show (((s.lane v.registry).look s.now).rename v.number).admitting =
      ((s.lane v.registry).look s.now).admitting.map (·.rename v.number) from rfl]
    rcases ((s.lane v.registry).look s.now).admitting with _ | ⟨u, stage, waited⟩
    · rfl
    · cases stage with
      | looking => rfl
      | asleep wakeAt => exact limiter_callAt ht _ wakeAt
      | pooled =>
        have hpool := gate_join_of_sees (v.others s.held) ht s.pool
        exact congrArg (fun g => { v.limiter (s.setLane v.registry _) with pool := g }) hpool
  · rfl

theorem line_gate {g : Gate} {n : Nat} (h : g.line = []) : (v.gate n g).line = [] := by
  rw [gate, h]
  rfl

theorem line_limiter (h : s.pool.line = []) : (v.limiter s).pool.line = [] := line_gate h

/-- The global gate lets a ticket pass in the view when it does so in the limiter. -/
theorem admits_gate {g : Gate} (n : Nat) (ht : v.sees t = true) (hfree : 0 < g.free)
    (hline : g.line = [] ∨ g.line = [t]) : (v.gate n g).admits (v.number t) = g.admits t := by
  rcases hline with hline | hline
  · rw [Gate.admits_of_nil hline, Gate.admits_of_nil (line_gate hline)]
  · have hhead : (v.gate n g).line.head? = some (v.number t) := by
      rw [gate, hline, pick_cons_of_sees ht]
      rfl
    rw [Gate.admits_head (by rw [hline]; rfl) hfree,
      Gate.admits_head hhead (Nat.lt_of_lt_of_le hfree (Nat.le_add_right _ _))]

/-- The global gate after a ticket has passed that was alone in the line. -/
theorem pass_gate {g : Gate} (n : Nat) (ht : v.sees t = true) (hfree : 0 < g.free)
    (hline : g.line = [] ∨ g.line = [t]) :
    v.gate n (g.pass t) = (v.gate n g).pass (v.number t) := by
  rw [Gate.pass, Gate.pass, admits_gate n ht hfree hline]
  split
  · rw [gate, gate, pick_erase]
    exact congrArg (Gate.mk · _) (Nat.sub_add_comm hfree).symm
  · rfl

theorem others_append_of_sees (ht : v.sees t = true) (held : List (Ticket × String)) (r : String) :
    v.others (held ++ [(t, r)]) = v.others held := by
  rw [others, List.countP_append, List.countP_singleton, ht]
  rfl

theorem others_append_of_not_sees (ht : v.sees t = false) (held : List (Ticket × String))
    (r : String) : v.others (held ++ [(t, r)]) = v.others held + 1 := by
  rw [others, List.countP_append, List.countP_singleton, ht]
  rfl

theorem limiter_grant (h : v.Sorts s) (ht : v.sees t = true) (hfree : 0 < s.pool.free)
    (hline : s.pool.line = [] ∨ s.pool.line = [t]) :
    v.limiter (s.grant t v.registry) = (v.limiter s).grant (v.number t) v.registry := by
  have hpool := admits_gate (v.others s.held) ht hfree hline
  rw [Limiter.grant, Limiter.grant, lane_limiter,
    show ((s.lane v.registry).rename v.number).admitting =
      (s.lane v.registry).admitting.map (·.rename v.number) from rfl]
  rcases (s.lane v.registry).admitting with _ | ⟨u, stage, waited⟩
  · rfl
  cases stage with
  | looking => rfl
  | asleep wakeAt => rfl
  | pooled =>
    have hiff : (v.number u = v.number t ∧ (v.limiter s).pool.admits (v.number t) = true) ↔
        (u = t ∧ s.pool.admits t = true) := by
      rw [v.number_injective.eq_iff, show (v.limiter s).pool = v.gate _ s.pool from rfl, hpool]
    show v.limiter (if u = t ∧ s.pool.admits t = true then _ else s) =
      if v.number u = v.number t ∧ (v.limiter s).pool.admits (v.number t) = true then _ else _
    by_cases hgo : u = t ∧ s.pool.admits t = true
    · rw [if_pos hgo, if_pos (hiff.mpr hgo)]
      have hlanes : (v.limiter (s.onLane v.registry (·.grantAt s.now))).lanes =
          ((v.limiter s).onLane v.registry (·.grantAt s.now)).lanes :=
        congrArg Limiter.lanes (limiter_onLane (Lane.grantAt_rename _ _))
      have hseats (u : Ticket) (hu : u ∈ (s.lane v.registry).seated.head?.toList) :
          v.sees u = true := by
        refine h.seen (List.mem_append_right _ (List.mem_append_left _ ?_))
        exact List.mem_of_mem_head? (Option.mem_toList.mp hu)
      rw [Limiter.mk.injEq]
      refine ⟨rfl, ?_, hlanes, ?_, ?_, ?_⟩
      · show v.agenda (s.agenda.callAll _) = (v.agenda s.agenda).callAll _
        rw [agenda_callAll, pick_of_sees hseats, ← Option.toList_map, ← List.head?_map]
        rfl
      · show v.gate (v.others (s.held ++ [_])) (s.pool.pass t) =
          (v.gate (v.others s.held) s.pool).pass _
        rw [others_append_of_sees ht, pass_gate _ ht hfree hline]
      · exact part_append_of_sees (k := Prod.fst) (x := (t, v.registry)) ht
      · exact part_append_of_sees (k := Grant.ticket) (x := ⟨t, v.registry, s.now, waited⟩) ht
    · rw [if_neg hgo, if_neg (mt hiff.mp hgo)]

theorem limiter_turn (h : v.Sorts s) (ho : s.Orderly) (ht : v.sees t = true)
    (hline : s.pool.line = []) (hfree : 0 < s.pool.free) :
    v.limiter (s.turn t) = (v.limiter s).turn (v.number t) := by
  have htake : v.limiter (s.onAgenda (·.take t)) =
      (v.limiter s).onAgenda (·.take (v.number t)) := limiter_onAgenda (agenda_take s.agenda t)
  rw [Limiter.turn, Limiter.turn, ← htake,
    show (s.onAgenda (·.take t)).registryOf? t = s.registryOf? t from rfl,
    show (v.limiter (s.onAgenda (·.take t))).registryOf? (v.number t) = s.registryOf? t from
      h.registryOf?_limiter ho ht]
  cases hr : s.registryOf? t with
  | none => rfl
  | some r =>
    obtain rfl : r = v.registry := (h.waiting (ho.registryOf?_eq_some_iff.mp hr)).mp ht
    have hsteps : v.Sorts (((((s.onAgenda (·.take t)).seat t v.registry).enter t v.registry).wake t
        v.registry).look t v.registry) :=
      h.leads ((Limiter.leads_plan s (·.take t) rfl).trans ⟨[.seat t v.registry,
        .enter t v.registry, .wake t v.registry, .look t v.registry], rfl, rfl⟩)
    dsimp only
    rw [limiter_grant hsteps ht, limiter_look ht, limiter_wake, limiter_enter, limiter_seat]
    · rw [Limiter.free_look]
      exact hfree
    · exact Limiter.line_look (s := (((s.onAgenda (·.take t)).seat t v.registry).enter t
        v.registry).wake t v.registry) hline t v.registry

/-! ## Moves of a ticket that is not seen -/

theorem limiter_callAt_of_not_sees (ht : v.sees t = false) (s : Limiter) (time : Nat) :
    v.limiter (s.callAt time t) = v.limiter s :=
  limiter_onAgenda_of_eq (agenda_callAt_of_not_sees time ht)

theorem limiter_look_of_not_sees (hr : r ≠ v.registry) (ht : v.sees t = false) (s : Limiter) :
    v.limiter (s.look t r) = v.limiter s := by
  rw [Limiter.look]
  split
  · have hset := limiter_setLane_of_ne (s := s) hr ((s.lane r).look s.now)
    dsimp only
    split
    · have hpool := gate_join_of_not_sees (v.others s.held) ht s.pool
      rw [← hset]
      exact congrArg (fun g => { v.limiter (s.setLane r _) with pool := g }) hpool
    · rw [limiter_callAt_of_not_sees ht, hset]
    · exact hset
  · rfl

theorem limiter_grant_of_not_sees (h : v.Sorts s) (hr : r ≠ v.registry) (ht : v.sees t = false) :
    v.limiter (s.grant t r) = v.limiter s := by
  rw [Limiter.grant]
  split
  · split
    · next hgo =>
      have hlanes : (v.limiter (s.onLane r (·.grantAt s.now))).lanes = (v.limiter s).lanes :=
        congrArg Limiter.lanes (limiter_onLane_of_ne hr _)
      have hseats (u : Ticket) (hu : u ∈ (s.lane r).seated.head?.toList) : v.sees u = false := by
        refine h.not_seen hr (List.mem_append_right _ (List.mem_append_left _ ?_))
        exact List.mem_of_mem_head? (Option.mem_toList.mp hu)
      rw [limiter, limiter, Limiter.mk.injEq]
      refine ⟨rfl, agenda_callAll_of_not_sees hseats, hlanes, ?_, ?_, ?_⟩
      · show v.gate (v.others (s.held ++ [_])) (s.pool.pass t) = v.gate (v.others s.held) s.pool
        have hfree := Gate.free_pos_of_admits hgo.2
        rw [others_append_of_not_sees ht, Gate.pass_of_admits hgo.2, gate, gate,
          pick_erase_of_not_sees ht]
        refine congrArg (Gate.mk · _) ?_
        show s.pool.free - 1 + (v.others s.held + 1) = s.pool.free + v.others s.held
        omega
      · exact part_append_of_not_sees (k := Prod.fst) (x := (t, r)) ht
      · exact part_append_of_not_sees (k := Grant.ticket) (x := ⟨t, r, s.now, _⟩) ht
    · rfl
  · rfl

theorem limiter_turn_of_not_sees (h : v.Sorts s) (ho : s.Orderly) (ht : v.sees t = false) :
    v.limiter (s.turn t) = v.limiter s := by
  have htake : v.limiter (s.onAgenda (·.take t)) = v.limiter s :=
    limiter_onAgenda_of_eq (agenda_take_of_not_sees ht)
  rw [Limiter.turn]
  split
  · next r hr =>
    have hne : r ≠ v.registry := by
      rintro rfl
      rw [h.seen (ho.registryOf?_eq_some_iff.mp hr)] at ht
      cases ht
    have hsteps : v.Sorts (((((s.onAgenda (·.take t)).seat t r).enter t r).wake t r).look t r) :=
      h.leads ((Limiter.leads_plan s (·.take t) rfl).trans ⟨[.seat t r, .enter t r, .wake t r,
        .look t r], rfl, rfl⟩)
    rw [limiter_grant_of_not_sees hsteps hne ht, limiter_look_of_not_sees hne ht]
    exact (limiter_onLane_of_ne hne _).trans <| (limiter_onLane_of_ne hne _).trans <|
      (limiter_onLane_of_ne hne _).trans htake
  · exact htake

/-! ## Ends of an acquisition -/

theorem gate_restore (n : Nat) (g : Gate) : v.gate n g.restore = (v.gate n g).restore :=
  congrArg (Gate.mk · _) (Nat.add_right_comm g.free 1 n)

/-- The slot of a permit that others give back was free in the view before. -/
theorem gate_restore_others (n : Nat) (g : Gate) : v.gate n g.restore = v.gate (n + 1) g :=
  congrArg (Gate.mk · _) (Nat.add_right_comm g.free 1 n)

theorem others_returned_of_sees {s' : Limiter} (hr : Limiter.Returned s s' t r)
    (ht : v.sees t = true) : v.others s'.held = v.others s.held := by
  obtain ⟨before, after, hheld, hheld'⟩ := hr.held_split
  rw [hheld, hheld', others, others, List.countP_append, List.countP_append, List.countP_cons, ht]
  rfl

theorem others_returned_of_not_sees {s' : Limiter} (hr : Limiter.Returned s s' t r)
    (ht : v.sees t = false) : v.others s.held = v.others s'.held + 1 := by
  obtain ⟨before, after, hheld, hheld'⟩ := hr.held_split
  rw [hheld, hheld', others, others, List.countP_append, List.countP_append, List.countP_cons, ht]
  rfl

theorem limiter_release (h : v.Sorts s) (ht : v.sees t = true) (hline : s.pool.line = []) :
    v.limiter (s.release t) = (v.limiter s).release (v.number t) := by
  have hfind : (v.limiter s).held.find? (·.1 == v.number t) =
      (s.held.find? (·.1 == t)).map fun h => (v.number h.1, h.2) :=
    find?_part (fun _ => rfl) ht
  rcases Limiter.release_spec s t with ⟨hnone, he⟩ | ⟨r, hr⟩
  · rw [he, Limiter.release, hfind, hnone]
    rfl
  · obtain rfl : r = v.registry := (h.holding (List.mem_of_find?_eq_some hr.found)).mp ht
    have hothers := hr.held ▸ others_returned_of_sees hr ht
    have hlanes : (v.limiter (s.onLane v.registry (·.returnSlot))).lanes =
        ((v.limiter s).onLane v.registry (·.returnSlot)).lanes :=
      congrArg Limiter.lanes (limiter_onLane (Lane.returnSlot_rename _))
    -- nobody waits for the global slot, and the ticket that waits for the other one is seen
    have hnext : v.pick ((s.lane v.registry).slots.next?.toList ++ s.pool.next?.toList) =
        ((v.limiter s).lane v.registry).slots.next?.toList ++ (v.limiter s).pool.next?.toList := by
      rw [Gate.next?_of_nil hline, Gate.next?_of_nil (line_limiter hline), lane_limiter,
        show ((s.lane v.registry).rename v.number).slots =
          (s.lane v.registry).slots.rename v.number from rfl, Gate.next?_rename,
        Option.toList_map, Option.toList_none, List.append_nil, List.append_nil]
      refine pick_of_sees fun u hu => h.seen (List.mem_append_left _ ?_)
      exact List.mem_of_getElem? (Option.mem_toList.mp hu)
    rw [Limiter.release, Limiter.release, hfind, hr.found, limiter, Limiter.mk.injEq]
    refine ⟨rfl, ?_, hlanes, ?_, ?_, rfl⟩
    · show v.agenda (s.agenda.callAll _) = (v.agenda s.agenda).callAll _
      rw [agenda_callAll, hnext]
    · show v.gate (v.others (s.held.eraseP _)) s.pool.restore = (v.gate _ s.pool).restore
      rw [hothers, gate_restore]
    · exact part_eraseP_of_sees (k := Prod.fst) (fun _ => rfl) ht

theorem limiter_release_of_not_sees (h : v.Sorts s) (ht : v.sees t = false)
    (hline : s.pool.line = []) : v.limiter (s.release t) = v.limiter s := by
  rcases Limiter.release_spec s t with ⟨hnone, he⟩ | ⟨r, hr⟩
  · rw [he]
  · have hne : r ≠ v.registry := by
      rintro rfl
      have hs := (h.holding (List.mem_of_find?_eq_some hr.found)).mpr rfl
      exact Bool.false_ne_true (ht.symm.trans hs)
    have hothers := hr.held ▸ others_returned_of_not_sees hr ht
    have hlanes : (v.limiter (s.onLane r (·.returnSlot))).lanes = (v.limiter s).lanes :=
      congrArg Limiter.lanes (limiter_onLane_of_ne hne _)
    have hnext (u : Ticket) (hu : u ∈ (s.lane r).slots.next?.toList ++ s.pool.next?.toList) :
        v.sees u = false := by
      rw [Gate.next?_of_nil hline, Option.toList_none, List.append_nil] at hu
      exact h.not_seen hne (List.mem_append_left _ (List.mem_of_getElem? (Option.mem_toList.mp hu)))
    rw [Limiter.release, hr.found, limiter, limiter, Limiter.mk.injEq]
    refine ⟨rfl, agenda_callAll_of_not_sees hnext, hlanes, ?_, ?_, rfl⟩
    · show v.gate (v.others (s.held.eraseP _)) s.pool.restore = v.gate (v.others s.held) s.pool
      rw [hothers, gate_restore_others]
    · exact part_eraseP_of_not_sees (k := Prod.fst) ht

/-- A ticket gives up that waits in the lane of the registry. -/
theorem limiter_withdraw (h : v.Sorts s) (hline : s.pool.line = []) (t : Ticket) :
    v.limiter (s.withdraw t v.registry) = (v.limiter s).withdraw (v.number t) v.registry := by
  have hlanes : (v.limiter (s.onLane v.registry (·.cancel t))).lanes =
      ((v.limiter s).onLane v.registry (·.cancel (v.number t))).lanes :=
    congrArg Limiter.lanes (limiter_onLane (Lane.cancel_rename v.number_injective _ t))
  have hheirs : v.pick ((s.lane v.registry).heirs t) =
      ((v.limiter s).lane v.registry).heirs (v.number t) := by
    rw [lane_limiter, Lane.heirs_rename v.number_injective]
    exact pick_of_sees fun u hu => h.seen (Lane.mem_tickets_of_mem_heirs hu)
  rw [Limiter.withdraw, Limiter.withdraw, limiter, Limiter.mk.injEq]
  refine ⟨rfl, ?_, hlanes, ?_, rfl, rfl⟩
  · dsimp only
    rw [Gate.successor?_of_nil hline, Gate.successor?_of_nil (line_limiter hline),
      agenda_callAll, agenda_dismiss, Option.toList_none, List.nil_append, List.nil_append, hheirs]
    rfl
  · show v.gate _ (s.pool.leave t) = (v.gate _ s.pool).leave (v.number t)
    rw [Gate.leave_of_nil hline, Gate.leave_of_nil (line_gate hline)]
    rfl

theorem limiter_withdraw_of_not_sees (h : v.Sorts s) (hr : r ≠ v.registry) (ht : v.sees t = false)
    (hline : s.pool.line = []) : v.limiter (s.withdraw t r) = v.limiter s := by
  have hlanes : (v.limiter (s.onLane r (·.cancel t))).lanes = (v.limiter s).lanes :=
    congrArg Limiter.lanes (limiter_onLane_of_ne hr _)
  have hheirs (u : Ticket) (hu : u ∈ (s.pool.successor? t).toList ++ (s.lane r).heirs t) :
      v.sees u = false := by
    rw [Gate.successor?_of_nil hline, Option.toList_none, List.nil_append] at hu
    exact h.not_seen hr (Lane.mem_tickets_of_mem_heirs hu)
  rw [Limiter.withdraw, limiter, limiter, Limiter.mk.injEq]
  refine ⟨rfl, ?_, hlanes, ?_, rfl, rfl⟩
  · exact (agenda_callAll_of_not_sees hheirs).trans (agenda_dismiss_of_not_sees ht)
  · show v.gate _ (s.pool.leave t) = v.gate _ s.pool
    rw [Gate.leave_of_nil hline]
    rfl

theorem limiter_abandon (h : v.Sorts s) (ho : s.Orderly) (ht : v.sees t = true)
    (hline : s.pool.line = []) : v.limiter (s.abandon t) = (v.limiter s).abandon (v.number t) := by
  rw [Limiter.abandon, Limiter.abandon, h.registryOf?_limiter ho ht]
  cases hr : s.registryOf? t with
  | none =>
    dsimp only
    rw [← limiter_release h ht hline]
    exact limiter_onAgenda (agenda_dismiss _ t)
  | some r =>
    obtain rfl : r = v.registry := (h.waiting (ho.registryOf?_eq_some_iff.mp hr)).mp ht
    exact limiter_withdraw h hline t

theorem limiter_abandon_of_not_sees (h : v.Sorts s) (ho : s.Orderly) (ht : v.sees t = false)
    (hline : s.pool.line = []) : v.limiter (s.abandon t) = v.limiter s := by
  rw [Limiter.abandon]
  split
  · next r hr =>
    refine limiter_withdraw_of_not_sees h ?_ ht hline
    rintro rfl
    rw [h.seen (ho.registryOf?_eq_some_iff.mp hr)] at ht
    cases ht
  · rw [limiter_onAgenda_of_eq (agenda_dismiss_of_not_sees ht),
      limiter_release_of_not_sees h ht hline]

/-! ## What concerns everybody -/

theorem limiter_sleepUntil (v : View) (s : Limiter) (time : Nat) :
    v.limiter (s.sleepUntil time) = (v.limiter s).sleepUntil time :=
  limiter_onAgenda (agenda_sleepUntil s.agenda time)

theorem limiter_resetMetrics (v : View) (s : Limiter) :
    v.limiter s.resetMetrics = (v.limiter s).resetMetrics := by
  rw [limiter, Limiter.resetMetrics, Limiter.resetMetrics,
    Table.part_mapValues _ _ fun l => (Lane.resetCounters_rename l).symm]
  rfl

theorem grantOf?_limiter (ht : v.sees t = true) (s : Limiter) :
    (v.limiter s).grantOf? (v.number t) =
      (s.grantOf? t).map fun g => { g with ticket := v.number g.ticket } :=
  find?_part (k := Grant.ticket) (fun _ => rfl) ht

theorem isGranted_limiter (ht : v.sees t = true) (s : Limiter) :
    (v.limiter s).isGranted (v.number t) = s.isGranted t := by
  rw [Limiter.isGranted, Limiter.isGranted, grantOf?_limiter ht, Option.isSome_map]

end View

end TagWatch.Limit
