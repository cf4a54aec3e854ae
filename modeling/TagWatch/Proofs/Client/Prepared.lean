import TagWatch.Client.Prepared
import TagWatch.Proofs.Client.Directory

/-!
# Prepared answers follow a directory

The answers of a prepared service come from its tables of images and registries, which only a
failure that is limited in number changes. Without one (`State.Steady`) the service follows the
directory of its first state, `State.directory`.
-/

namespace TagWatch.Prepared

variable {s s' : State} {id id' : ClientId} {r name : String} {method : Method} {α : Type}

namespace State

/-- No call is made to fail a number of times only. -/
def Steady (s : State) : Prop :=
  ∀ name method error times,
    (s.image name).failures.get? method ≠ some ⟨error, some times⟩

/-- The fixed answers of a state. -/
def directory (s : State) : Directory where
  refusal registry := (s.plan registry).error
  answer registry call := (answer 0 call { s with transcripts := [⟨registry, []⟩] }).1
  digest_irrelevant _ _ _ _ _ _ := rfl

/-- A state has the tables of another one. -/
def Copies (s s' : State) : Prop := s'.images = s.images ∧ s'.registries = s.registries

/-- A client is one of a registry. -/
def Serves (s : State) (id : ClientId) (registry : String) : Prop :=
  s.transcripts[id]?.map (·.registry) = some registry

theorem planOf_of_serves (h : s.Serves id r) : s.planOf id = s.plan r := by
  rw [Serves] at h
  rw [planOf]
  cases ht : s.transcripts[id]? with
  | none =>
    rw [ht] at h
    cases h
  | some t =>
    rw [ht] at h
    cases h
    rfl

theorem takeFailure_of_steady (h : s.Steady) :
    s.takeFailure name method = (((s.image name).failures.get? method).map (·.error), s) := by
  rw [takeFailure]
  cases hf : (s.image name).failures.get? method with
  | none => rfl
  | some failure =>
    obtain ⟨error, times⟩ := failure
    cases times with
    | none => rfl
    | some times => exact absurd hf (h name method error times)

theorem reply_of_steady (h : s.Steady) (answer : Image → Except RegistryError α) :
    s.reply name method answer =
      (match ((s.image name).failures.get? method).map (·.error) with
        | some error => .error error
        | none => answer (s.image name), s) := by
  rw [reply, takeFailure_of_steady h]
  cases ((s.image name).failures.get? method).map (·.error) <;> rfl

theorem transcripts_reply (answer : Image → Except RegistryError α) :
    (s.reply name method answer).2.transcripts = s.transcripts := by
  have htake : (s.takeFailure name method).2.transcripts = s.transcripts := by
    rw [takeFailure]
    split <;> rfl
  rw [reply]
  split <;> (next he => rw [he] at htake; exact htake)

theorem Copies.steady (h : s.Copies s') (hs : s.Steady) : s'.Steady := by
  intro name
  rw [image, h.1]
  exact hs name

theorem Copies.reply (h : s.Copies s') (hs : s.Steady) (answer : Image → Except RegistryError α) :
    (s'.reply name method answer).1 = (s.reply name method answer).1 := by
  rw [reply_of_steady (h.steady hs), reply_of_steady hs, image, h.1]
  rfl

end State

theorem answer_snd (h : s.Steady) (id : ClientId) (call : Call) : (answer id call s).2 = s := by
  cases call <;> first | rfl | exact congrArg Prod.snd (State.reply_of_steady h _)

theorem answer_fst (h : s.Copies s') (hs : s.Steady) (hplan : s'.planOf id' = s.planOf id)
    (call : Call) : (answer id' call s').1 = (answer id call s).1 := by
  cases call with
  | usesTagCache => exact congrArg RegistryPlan.usesTagCache hplan
  | isFloating tag =>
    rw [answer, answer, hplan]
  | allTags image => exact h.reply hs _
  | latest image tag scope digest prereleases => exact h.reply hs _
  | latestOverall image tag prereleases => exact h.reply hs _
  | metadata image tag => exact h.reply hs _
  | close => rfl

theorem serves_note (call : Call) (h : s.Serves id r) : (s.note id' call).Serves id r := by
  rw [State.Serves, State.note, List.getElem?_modify]
  rw [← h]
  cases s.transcripts[id]? with
  | none => rfl
  | some t => split <;> rfl

theorem serves_start (call : Call) (h : s.Serves id r) : (start id' call s).2.Serves id r := by
  cases call with
  | usesTagCache => exact h
  | isFloating tag => exact h
  | allTags image => exact serves_note _ h
  | latest image tag scope digest prereleases => exact serves_note _ h
  | latestOverall image tag prereleases => exact serves_note _ h
  | metadata image tag => exact serves_note _ h
  | close => exact serves_note _ h

theorem serves_answer (call : Call) (h : s.Serves id r) : (answer id' call s).2.Serves id r := by
  have htranscripts : (answer id' call s).2.transcripts = s.transcripts := by
    cases call <;> first | rfl | exact State.transcripts_reply _
  rw [State.Serves, htranscripts]
  exact h

theorem copies_start (call : Call) (h : s.Copies s') : s.Copies (start id call s').2 := by
  cases call <;> exact h

theorem snd_connect (registry : String) (s : State) :
    (connect registry s).2 = { s with transcripts := s.transcripts ++ [⟨registry, []⟩] } := by
  rw [connect]
  split <;> rfl

theorem fst_connect (registry : String) (s : State) :
    (connect registry s).1 =
      match (s.plan registry).error with
      | some error => .error error
      | none => .ok s.transcripts.length := by
  have hplan : State.plan { s with transcripts := s.transcripts ++ [⟨registry, []⟩] } registry =
      s.plan registry := rfl
  simp only [connect, hplan]
  cases (s.plan registry).error <;> rfl

theorem serves_connect (registry : String) (h : s.Serves id r) :
    (connect registry s).2.Serves id r := by
  have hlt : id < s.transcripts.length := by
    refine Nat.lt_of_not_le fun hle => ?_
    rw [State.Serves, List.getElem?_eq_none hle] at h
    cases h
  rw [snd_connect, State.Serves, List.getElem?_append_left hlt]
  exact h

/-- **Steady services follow their directory.** -/
def follows (s : State) (hs : s.Steady) : service.Follows s.directory where
  Good := s.Copies
  Serves := State.Serves
  good_connect registry s' h := by
    rw [show (service.connect registry s').2 = _ from snd_connect registry s']
    exact h
  good_start _ call _ h := copies_start call h
  good_answer id call s' h := by
    rw [show (service.answer id call s').2 = s' from answer_snd (h.steady hs) id call]
    exact h
  serves_connect registry _ _ _ h := serves_connect registry h
  serves_start _ call _ _ _ h := serves_start call h
  serves_answer _ call _ _ _ h := serves_answer call h
  connected registry s' h hnone := by
    have hplan : (s'.plan registry).error = none := by
      rw [State.plan, h.2]
      exact hnone
    refine ⟨s'.transcripts.length, ?_, ?_⟩
    · rw [show (service.connect registry s').1 = _ from fst_connect registry s', hplan]
    · rw [show (service.connect registry s').2 = _ from snd_connect registry s', State.Serves]
      simp
  refused registry s' error h hsome := by
    have hplan : (s'.plan registry).error = some error := by
      rw [State.plan, h.2]
      exact hsome
    rw [show (service.connect registry s').1 = _ from fst_connect registry s', hplan]
  answered id call s' registry h hserves := by
    have hplan : s'.planOf id =
        State.planOf { s with transcripts := [⟨registry, []⟩] } 0 := by
      rw [State.planOf_of_serves hserves, State.plan, h.2]
      rfl
    exact answer_fst (show State.Copies { s with transcripts := [⟨registry, []⟩] } s' from h)
      (show State.Steady { s with transcripts := [⟨registry, []⟩] } from hs) hplan call

end TagWatch.Prepared
