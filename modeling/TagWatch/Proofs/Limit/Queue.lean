import TagWatch.Proofs.Limit.Tickets

/-!
# The roll of a registry

The three queues of a lane, put one behind another, are one queue (`Lane.queue`): first the ticket at
the window lock, then those with a seat, then the line for a slot. The *roll* of a registry is this
queue behind the tickets that the registry was granted already. A request is written at its end, a
ticket that gives up is struck out, and nothing else ever changes it: whoever goes on only moves the
border between the queues.

**Theorem (`Limiter.Orderly.roll_run`).** After a run that keeps the lines, the roll of a registry is
what it was before with the new requests behind it and without the tickets that gave up.

**Keeping the lines.** A free slot is kept for a ticket in line, but several slots may be free, and a
scheduler could let the second ticket in line take its slot before the first one does. A run
`KeepsLines` when the slots of a lane are taken in the order of the line, as those of a first-in
first-out semaphore are. The window lock needs no such condition, because `enter` lets only the
first seated ticket have it; nor do the global slots, because a lane has one ticket there at most.
-/

namespace TagWatch.Limit

/-! ## The queue of a lane -/

namespace Lane

variable {l : Lane} {t : Ticket} {now : Nat}

/-- The tickets that wait in a lane, in the order in which they are to be granted. -/
def queue (l : Lane) : List Ticket := l.admitted ++ l.seated ++ l.slots.line

theorem queue_perm (l : Lane) : l.queue.Perm l.tickets :=
  (List.perm_append_comm.append_right l.slots.line).trans List.perm_append_comm

theorem queue_ask (l : Lane) (t : Ticket) : (l.ask t).queue = l.queue ++ [t] :=
  (List.append_assoc _ l.slots.line [t]).symm

/-- Whoever is first in line and takes a slot stays where it is in the queue. -/
theorem queue_seat (h : l.slots.admits t = true → l.slots.line.head? = some t) :
    (l.seat t).queue = l.queue := by
  by_cases hadmits : l.slots.admits t = true
  · obtain ⟨rest, hline⟩ := List.head?_eq_some_iff.mp (h hadmits)
    rw [seat_of_admits hadmits, queue, queue, hline, List.erase_cons_head]
    show l.admitted ++ (l.seated ++ [t]) ++ rest = l.admitted ++ l.seated ++ t :: rest
    rw [← List.append_assoc, List.append_assoc _ [t], List.singleton_append]
  · rw [seat, if_neg hadmits]

theorem queue_enter (l : Lane) (t : Ticket) : (l.enter t).queue = l.queue := by
  rcases enter_cases l t with h | ⟨rest, hadm, hseat, h⟩
  · rw [h]
  · rw [h, queue, queue, hseat, show l.admitted = [] by rw [admitted, hadm]; rfl]
    rfl

theorem queue_wake (l : Lane) (now : Nat) (t : Ticket) : (l.wake now t).queue = l.queue := by
  have hseat : (l.wake now t).seated = l.seated := by
    rcases wake_cases l now t with h | ⟨_, _, _, _, h⟩ <;> rw [h]
  rw [queue, queue, admitted_wake, hseat, slots_wake]

theorem queue_look (l : Lane) (now : Nat) : (l.look now).queue = l.queue := by
  have hseat : (l.look now).seated = l.seated := by
    rcases look_cases l now with h | ⟨_, _, _, _, h⟩ | ⟨_, _, _, _, _, _, _, h⟩ <;> rw [h]
  rw [queue, queue, admitted_look, hseat, slots_look]

/-- Whoever is granted was the first of the queue. -/
theorem queue_grantAt {a : Admission} (h : l.admitting = some a) :
    l.queue = a.ticket :: (l.grantAt now).queue := by
  rw [queue, admitted_of_admitting h]
  rfl

/-- A ticket that gives up is taken out of the queue, wherever it waits. -/
theorem queue_cancel (hn : l.tickets.Nodup) (t : Ticket) :
    (l.cancel t).queue = l.queue.erase t := by
  rw [tickets, inside, List.nodup_append] at hn
  obtain ⟨-, hinside, hdisj⟩ := hn
  rw [List.nodup_append] at hinside
  obtain ⟨-, -, hseats⟩ := hinside
  have houter : l.queue.erase t = if t ∈ l.admitted ++ l.seated
      then (l.admitted ++ l.seated).erase t ++ l.slots.line
      else l.admitted ++ l.seated ++ l.slots.line.erase t := List.erase_append
  by_cases hline : t ∈ l.slots.line
  · have hout : t ∉ l.admitted ++ l.seated := fun hin =>
      hdisj t hline t (List.mem_append.mpr (List.mem_append.mp hin).symm) rfl
    rw [houter, if_neg hout, cancel, if_pos (List.contains_iff_mem.mpr hline)]
    rfl
  · rw [houter, cancel, if_neg (mt List.contains_iff_mem.mp hline)]
    by_cases hseat : t ∈ l.seated
    · have hadm : t ∉ l.admitted := fun hadm => hseats t hseat t hadm rfl
      rw [if_pos (List.mem_append_right _ hseat), if_pos (List.contains_iff_mem.mpr hseat),
        List.erase_append_right _ hadm]
      rfl
    · rw [if_neg (mt List.contains_iff_mem.mp hseat)]
      by_cases hadm : t ∈ l.admitted
      · have hat := isAdmitting_iff.mpr hadm
        rw [if_pos (List.mem_append_left _ hadm), List.erase_append_left _ hadm, erase_admitted,
          if_pos hat, if_pos hat]
        rfl
      · rw [if_neg (mt List.mem_append.mp (not_or.mpr ⟨hadm, hseat⟩)),
          if_neg (mt isAdmitting_iff.mp hadm), List.erase_of_not_mem hline]
        rfl

end Lane

/-! ## Requests -/

/-- The ticket with which a move begins an acquisition, and its registry. -/
def Move.request? : Move → Option (Ticket × String)
  | ask t registry => some (t, Registry.canonical registry)
  | _ => none

/-- The acquisitions that begin in a run, in order. -/
def requests (moves : List Move) : List (Ticket × String) := moves.filterMap Move.request?

/-- The tickets of those requests that are for a registry. -/
def ticketsFor (r : String) (requests : List (Ticket × String)) : List Ticket :=
  (requests.filter (·.2 = r)).map Prod.fst

theorem requests_cons (m : Move) (moves : List Move) :
    requests (m :: moves) = m.request?.toList ++ requests moves := by
  rw [requests, List.filterMap_cons]
  cases m.request? <;> rfl

theorem requests_append (moves moves' : List Move) :
    requests (moves ++ moves') = requests moves ++ requests moves' :=
  List.filterMap_append

theorem ticketsFor_append (r : String) (requests requests' : List (Ticket × String)) :
    ticketsFor r (requests ++ requests') = ticketsFor r requests ++ ticketsFor r requests' := by
  rw [ticketsFor, List.filter_append, List.map_append]
  rfl

theorem ticketsFor_singleton (r : String) (t : Ticket) (r' : String) :
    ticketsFor r [(t, r')] = if r' = r then [t] else [] := by
  rw [ticketsFor, List.filter_cons, List.filter_nil]
  by_cases hr : r' = r <;> simp [hr]

theorem map_fst_requests (moves : List Move) : (requests moves).map Prod.fst = asked moves := by
  rw [requests, List.map_filterMap, asked]
  refine congrArg (moves.filterMap ·) (funext fun m => ?_)
  cases m <;> rfl

theorem ticketsFor_sublist (r : String) (requests : List (Ticket × String)) :
    (ticketsFor r requests).Sublist (requests.map Prod.fst) :=
  List.filter_sublist.map Prod.fst

namespace Limiter

variable {s s' : Limiter} {m : Move} {t : Ticket} {r : String}

/-! ## Runs that keep the lines -/

/-- Whoever takes a slot of a lane is the first in line for it. -/
def KeepsLine (s : Limiter) : Move → Prop
  | .seat t r => (s.lane r).slots.admits t = true → (s.lane r).slots.line.head? = some t
  | _ => True

/-- The slots of all lanes are taken in the order of the lines. -/
def KeepsLines : Limiter → List Move → Prop
  | _, [] => True
  | s, m :: moves => s.KeepsLine m ∧ (s.move m).KeepsLines moves

instance (s : Limiter) (m : Move) : Decidable (s.KeepsLine m) := by
  cases m <;> unfold KeepsLine <;> infer_instance

instance decidableKeepsLines : (s : Limiter) → (moves : List Move) → Decidable (s.KeepsLines moves)
  | _, [] => .isTrue trivial
  | s, m :: moves => @instDecidableAnd _ _ _ (decidableKeepsLines (s.move m) moves)

theorem keepsLines_append {moves moves' : List Move} :
    s.KeepsLines (moves ++ moves') ↔ s.KeepsLines moves ∧ (s.run moves).KeepsLines moves' := by
  induction moves generalizing s with
  | nil => exact ⟨fun h => ⟨trivial, h⟩, And.right⟩
  | cons m moves ih => exact (and_congr_right fun _ => ih).trans and_assoc.symm

/-- A ticket takes a slot in no lane, unless it is the first in line there. -/
def GoesFirst (s : Limiter) (t : Ticket) : Prop := ∀ r, s.KeepsLine (.seat t r)

/-- The ticket that stops waiting without a permit by a move. -/
def givesUp? (s : Limiter) : Move → Option Ticket
  | .abandon t => if (s.registryOf? t).isSome then some t else none
  | _ => none

/-- The tickets that stop waiting without a permit in a run. -/
def givenUp : Limiter → List Move → List Ticket
  | _, [] => []
  | s, m :: moves => (s.givesUp? m).toList ++ (s.move m).givenUp moves

theorem givenUp_append (s : Limiter) (moves moves' : List Move) :
    s.givenUp (moves ++ moves') = s.givenUp moves ++ (s.run moves).givenUp moves' := by
  induction moves generalizing s with
  | nil => rfl
  | cons m moves ih =>
    show _ ++ (s.move m).givenUp (moves ++ moves') = _
    rw [ih, ← List.append_assoc]
    rfl

/-! ## The roll -/

theorem filter_not_mem_nil (ts : List Ticket) : ts.filter (· ∉ []) = ts :=
  List.filter_eq_self.mpr fun _ _ => decide_eq_true List.not_mem_nil

/-- The tickets that have been granted permits of a registry, in order. -/
def served (s : Limiter) (r : String) : List Ticket :=
  (s.grants.filter (·.registry = r)).map (·.ticket)

/-- The granted and the waiting tickets of a registry, in the order of their grants. -/
def roll (s : Limiter) (r : String) : List Ticket := s.served r ++ (s.lane r).queue

theorem roll_congr (hgrants : s'.grants = s.grants) (h : (s'.lane r).queue = (s.lane r).queue) :
    s'.roll r = s.roll r := by
  rw [roll, served, hgrants, h]
  rfl

/-- A change of one lane that keeps its queue keeps the rolls of all registries. -/
theorem roll_onLane {r' : String} {f : Lane → Lane}
    (h : (f (s.lane r')).queue = (s.lane r').queue) : (s.onLane r' f).roll r = s.roll r := by
  refine roll_congr rfl ?_
  rw [lane_onLane]
  split
  · next hr => rw [h, hr]
  · rfl

theorem roll_look (s : Limiter) (t : Ticket) (r r' : String) :
    (s.look t r').roll r = s.roll r := by
  have h : (s.setLane r' ((s.lane r').look s.now)).roll r = s.roll r :=
    roll_onLane (f := (·.look s.now)) (Lane.queue_look _ s.now)
  rw [look]
  split
  · dsimp only
    split <;> exact h
  · rfl

theorem Granted.roll {waited : Nat} {r' : String} (h : Granted s s' t r' waited) :
    s'.roll r = s.roll r := by
  have hserved : s'.served r = s.served r ++ if r' = r then [t] else [] := by
    rw [served, h.grants, List.filter_append, List.map_append, List.filter_cons, List.filter_nil]
    by_cases hr : r' = r <;> simp [served, hr]
  rw [Limiter.roll, Limiter.roll, hserved, h.lane r, List.append_assoc]
  refine congrArg (_ ++ ·) ?_
  by_cases hr : r' = r
  · subst hr
    rw [if_pos rfl, if_pos rfl]
    exact (Lane.queue_grantAt h.pooled).symm
  · rw [if_neg hr, if_neg (Ne.symm hr)]
    rfl

theorem Returned.roll {r' : String} (h : Returned s s' t r') : s'.roll r = s.roll r := by
  refine roll_congr h.grants ?_
  rw [h.lane]
  split
  · next hr => rw [hr]; rfl
  · rfl

theorem roll_release (s : Limiter) (t : Ticket) (r : String) :
    (s.release t).roll r = s.roll r := by
  rcases release_spec s t with ⟨-, h⟩ | ⟨r', h⟩
  · rw [h]
  · exact h.roll

theorem served_sublist (s : Limiter) (r : String) : (s.served r).Sublist s.granted :=
  List.filter_sublist.map _

theorem Orderly.nodup_roll (h : s.Orderly) (r : String) : (s.roll r).Nodup := by
  have hqueue : (s.lane r).queue.Nodup := (Lane.queue_perm _).nodup_iff.mpr (h.once r)
  refine List.nodup_append.mpr ⟨h.grantedOnce.sublist (served_sublist s r), hqueue, ?_⟩
  rintro t hserved u hwaits rfl
  exact h.ungranted ((Lane.queue_perm _).mem_iff.mp hwaits) ((served_sublist s r).mem hserved)

/-- A ticket that gives up is struck from the roll. -/
theorem Orderly.roll_withdraw {r' : String} (h : s.Orderly) (ht : t ∈ (s.lane r').tickets)
    (r : String) : (s.withdraw t r').roll r = (s.roll r).filter (· ∉ [t]) := by
  have hserved : t ∉ s.served r := fun hs => h.ungranted ht ((served_sublist s r).mem hs)
  have herase : (s.withdraw t r').roll r = (s.roll r).erase t := by
    have hlane : (s.withdraw t r').lane r = if r = r' then (s.lane r').cancel t else s.lane r :=
      lane_onLane s r' r (·.cancel t)
    rw [roll, roll, List.erase_append_right _ hserved, hlane]
    refine congrArg (_ ++ ·) ?_
    split
    · next hr => rw [hr, Lane.queue_cancel (h.once r')]
    · next hr =>
      refine (List.erase_of_not_mem fun hq => hr ?_).symm
      exact h.apart ((Lane.queue_perm _).mem_iff.mp hq) ht
  rw [herase, (h.nodup_roll r).erase_eq_filter]
  exact List.filter_congr fun u _ => by simp only [List.mem_singleton, decide_not]; rfl

/-- **What a move does to a roll.** A request is written at its end, and a ticket that gives up is
struck out. -/
theorem Orderly.roll_move (h : s.Orderly) (hm : s.KeepsLine m) (r : String) :
    (s.move m).roll r =
      (s.roll r ++ ticketsFor r m.request?.toList).filter (· ∉ (s.givesUp? m).toList) := by
  -- nobody comes and nobody gives up
  have hsame (hrequest : m.request? = none) (hgives : s.givesUp? m = none)
      (hroll : (s.move m).roll r = s.roll r) : (s.move m).roll r =
        (s.roll r ++ ticketsFor r m.request?.toList).filter (· ∉ (s.givesUp? m).toList) := by
    rw [hrequest, hgives, hroll]
    show s.roll r = (s.roll r ++ []).filter (· ∉ [])
    rw [List.append_nil, filter_not_mem_nil]
  cases m with
  | ask t registry =>
    have hroll : (s.ask t registry).roll r =
        s.roll r ++ ticketsFor r [(t, Registry.canonical registry)] := by
      rw [ticketsFor_singleton, roll, ask, lane_onLane, roll, List.append_assoc]
      refine congrArg (_ ++ ·) ?_
      by_cases hr : Registry.canonical registry = r
      · rw [if_pos hr, if_pos hr.symm, Lane.queue_ask, hr]
      · rw [if_neg hr, if_neg (Ne.symm hr), List.append_nil]
    exact hroll.trans (filter_not_mem_nil _).symm
  | seat t r' => exact hsame rfl rfl (roll_onLane (Lane.queue_seat hm))
  | enter t r' => exact hsame rfl rfl (roll_onLane (Lane.queue_enter _ t))
  | wake t r' => exact hsame rfl rfl (roll_onLane (Lane.queue_wake _ s.now t))
  | look t r' => exact hsame rfl rfl (roll_look s t r r')
  | grant t r' =>
    refine hsame rfl rfl ?_
    rcases grant_spec s t r' with ⟨he, -⟩ | ⟨waited, hg⟩
    · exact congrArg (roll · r) he
    · exact hg.roll
  | release t => exact hsame rfl rfl (roll_release s t r)
  | abandon t =>
    show (s.abandon t).roll r = (s.roll r ++ []).filter _
    rw [abandon, givesUp?, List.append_nil]
    cases hreg : s.registryOf? t with
    | some r' => exact h.roll_withdraw (h.registryOf?_eq_some_iff.mp hreg) r
    | none => exact (roll_release s t r).trans (filter_not_mem_nil _).symm
  | sleepUntil time => exact hsame rfl rfl rfl
  | resetMetrics =>
    refine hsame rfl rfl (roll_congr rfl ?_)
    rw [show s.move .resetMetrics = s.resetMetrics from rfl, lane_resetMetrics]
    rfl
  | plan called alarms => exact hsame rfl rfl rfl

/-- Whoever gives up has waited. -/
theorem Orderly.waits_of_givesUp? (h : s.Orderly) (ht : s.givesUp? m = some t) : ¬ s.Idle t := by
  cases m with
  | abandon u =>
    rw [givesUp?] at ht
    split at ht
    · next hreg =>
      cases ht
      exact fun hidle => Option.ne_none_iff_isSome.mpr hreg (h.registryOf?_eq_none_iff.mpr hidle)
    · cases ht
  | _ => cases ht

/-- **The roll of a run.** After a run that keeps the lines, the roll of a registry is what it was
before with the new requests behind it, and without the tickets that gave up. -/
theorem Orderly.roll_run {moves : List Move} (h : s.Orderly) (ha : s.Admissible moves)
    (hk : s.KeepsLines moves) (r : String) : (s.run moves).roll r =
      (s.roll r ++ ticketsFor r (requests moves)).filter (· ∉ s.givenUp moves) := by
  induction moves generalizing s with
  | nil =>
    show s.roll r = (s.roll r ++ []).filter (· ∉ [])
    rw [List.append_nil, filter_not_mem_nil]
  | cons m moves ih =>
    -- nobody who gives up comes back
    have hback : (ticketsFor r (requests moves)).filter (· ∉ (s.givesUp? m).toList) =
        ticketsFor r (requests moves) := by
      refine List.filter_eq_self.mpr fun t ht => decide_eq_true fun hgives => ?_
      have hasked : t ∈ Limit.asked moves :=
        map_fst_requests moves ▸ (ticketsFor_sublist r _).mem ht
      have hunused : s.Unused t :=
        ha.unused t (asked_cons m moves ▸ List.mem_append_right _ hasked)
      exact h.waits_of_givesUp? (Option.mem_toList.mp hgives) hunused.1
    have hstep := ih (h.move ha.head) ha.tail hk.2
    calc (s.run (m :: moves)).roll r
        = ((s.roll r ++ ticketsFor r m.request?.toList).filter (· ∉ (s.givesUp? m).toList) ++
            ticketsFor r (requests moves)).filter (· ∉ (s.move m).givenUp moves) := by
          rw [← h.roll_move hk.1]
          exact hstep
      _ = ((s.roll r ++ ticketsFor r (requests (m :: moves))).filter
            (· ∉ (s.givesUp? m).toList)).filter (· ∉ (s.move m).givenUp moves) := by
          rw [requests_cons, ticketsFor_append, ← List.append_assoc, List.filter_append
            (s.roll r ++ _), hback]
      _ = (s.roll r ++ ticketsFor r (requests (m :: moves))).filter
            (· ∉ s.givenUp (m :: moves)) := by
          rw [List.filter_filter]
          refine List.filter_congr fun t _ => ?_
          simp only [givenUp, List.mem_append, not_or, Bool.decide_and, Bool.and_comm]

/-! ## The order of the requests -/

end Limiter

end TagWatch.Limit
