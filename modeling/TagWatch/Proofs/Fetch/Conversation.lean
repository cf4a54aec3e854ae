import TagWatch.Fetch.Fetch

/-!
# What a fetch says

A program says something when its questions get answers. `Program.Says` does not care who answers,
so what holds of everything that a program may say holds whatever its surroundings do.

**Theorem (`FetchProgram.says_fetch_iff`).** A fetch says exactly what the protocol allows. It takes
a permit, makes a client, interviews it, closes it and gives the permit back. In the interview the
questions are asked in a fixed order up to the first failure; only a failure to find the newest tag
of all does not count.

The questions depend on what the client is like, and are stated as a list
(`FetchRequest.questions`). A part of a fetch `Interviews` a client if it asks a list of questions
up to the first failure, and parts that do can be put together (`interviews_bind`).

**The result (`FetchRequest.Protocol.reports`).** Unless the answer was kept from before, it is an
error and nothing else, the metadata of a floating tag and nothing else, or what is known about the
tags of the image.
-/

namespace TagWatch

/-! ## What a program says -/

namespace Program

variable {Q : Type} {A : Q → Type} {α β : Type}

/-- Some questions of a program are answered, and another program is left. -/
inductive Says : Program Q A α → List ((q : Q) × A q) → Program Q A α → Prop where
  | nil (p : Program Q A α) : Says p [] p
  | cons {q : Q} {next : A q → Program Q A α} {said : List ((q : Q) × A q)}
    {p : Program Q A α} (answer : A q) :
    Says (next answer) said p → Says (ask q next) (⟨q, answer⟩ :: said) p

variable {p p' p'' : Program Q A α} {f : α → Program Q A β} {a a' : α} {b : β}
  {said said' : List ((q : Q) × A q)}

theorem Says.trans (h : p.Says said p') (h' : p'.Says said' p'') : p.Says (said ++ said') p'' := by
  induction h with
  | nil => exact h'
  | cons answer _ ih => exact .cons answer (ih h')

theorem says_done_iff : (done a).Says said (done a') ↔ said = [] ∧ a' = a := by
  constructor
  · rintro ⟨⟩
    exact ⟨rfl, rfl⟩
  · rintro ⟨rfl, rfl⟩
    exact .nil _

theorem says_ask_iff {q : Q} {next : A q → Program Q A α} :
    (ask q next).Says said (done a) ↔
      ∃ answer more, said = ⟨q, answer⟩ :: more ∧ (next answer).Says more (done a) := by
  constructor
  · rintro (_ | ⟨answer, h⟩)
    exact ⟨answer, _, rfl, h⟩
  · rintro ⟨answer, more, rfl, h⟩
    exact .cons answer h

/-- What a composed program says is what its parts say, one after the other. -/
theorem says_bind_iff : (p >>= f).Says said (done b) ↔
    ∃ first a second, said = first ++ second ∧ p.Says first (done a) ∧
      (f a).Says second (done b) := by
  constructor
  · intro h
    induction p generalizing said with
    | done a => exact ⟨[], a, said, rfl, .nil _, h⟩
    | ask q next ih =>
      obtain ⟨answer, more, rfl, hmore⟩ := says_ask_iff.mp h
      obtain ⟨first, a, second, rfl, hfirst, hsecond⟩ := ih answer hmore
      exact ⟨_ :: first, a, second, rfl, .cons answer hfirst, hsecond⟩
  · rintro ⟨first, a, second, rfl, hfirst, hsecond⟩
    induction p generalizing first with
    | done c =>
      obtain ⟨rfl, rfl⟩ := says_done_iff.mp hfirst
      exact hsecond
    | ask q next ih =>
      obtain ⟨answer, more, rfl, hmore⟩ := says_ask_iff.mp hfirst
      exact .cons answer (ih answer more hmore)

/-- A single question and what comes after it. -/
theorem says_question_iff {q : Q} {f : A q → Program Q A β} :
    ((ask q done : Program Q A (A q)) >>= f).Says said (done b) ↔
      ∃ answer more, said = ⟨q, answer⟩ :: more ∧ (f answer).Says more (done b) :=
  says_ask_iff

end Program

/-! ## Calls and their replies -/

/-- A call of a client with its answer. -/
abbrev Reply := (call : Call) × call.Answer

/-- A step of a fetch with its answer. -/
abbrev Event := (q : FetchStep) × q.Answer

namespace Reply

/-- The event in which a client replies. -/
def event (id : ClientId) (reply : Reply) : Event := ⟨.call id reply.1, reply.2⟩

/-- The error that a reply stands for. There is one if a tag is unknown, and none if the newest tag
of all cannot be found. -/
def failure? : Reply → Option RegistryError
  | ⟨.allTags _, .error e⟩ => some e
  | ⟨.latest _ _ _ _ _, .error e⟩ => some e
  | ⟨.metadata _ _, .error e⟩ => some e
  | ⟨.metadata image tag, .ok none⟩ => some (.notFound (image ++ ":" ++ tag))
  | _ => none

/-- The tags of an image that are told. -/
def tags? : Reply → Option (List String)
  | ⟨.allTags _, .ok tags⟩ => some tags
  | _ => none

/-- The newest tag inside a scope that is told. -/
def latest? : Reply → Option String
  | ⟨.latest _ _ _ _ _, .ok tag⟩ => tag
  | _ => none

/-- The newest tag of all that is told. -/
def latestOverall? : Reply → Option String
  | ⟨.latestOverall _ _ _, .ok tag⟩ => tag
  | _ => none

/-- What is told about a tag. -/
def metadata? : Reply → Option TagMetadata
  | ⟨.metadata _ _, .ok metadata⟩ => metadata
  | _ => none

end Reply

/-- Questions are asked one after another up to the first failure. -/
inductive Asked : List Call → List Reply → Option RegistryError → Prop where
  | nil : Asked [] [] none
  | failed {call : Call} {calls : List Call} {answer : call.Answer} {e : RegistryError} :
    Reply.failure? ⟨call, answer⟩ = some e → Asked (call :: calls) [⟨call, answer⟩] (some e)
  | cons {call : Call} {calls : List Call} {answer : call.Answer} {replies : List Reply}
    {e? : Option RegistryError} : Reply.failure? ⟨call, answer⟩ = none → Asked calls replies e? →
    Asked (call :: calls) (⟨call, answer⟩ :: replies) e?

namespace FetchRequest

variable (settings : FetchSettings) (r : FetchRequest)

/-- The question for the tags of the image. -/
def allTags : Call := .allTags r.image

/-- The question for the newest tag inside the scope. -/
def latest : Call := .latest r.image r.tag r.scope r.digest r.prereleases

/-- The question for the newest tag of all. -/
def latestOverall : Call := .latestOverall r.image r.tag r.prereleases

/-- The question for what is known about the current tag. -/
def metadata : Call := .metadata r.image r.tag

/-- The questions about the tags of the image. A client that looks into the list of tags needs the
list first, and any other is asked for it only if all lists are wanted. -/
def tagQuestions (usesTagCache : Bool) : List Call :=
  if usesTagCache then [r.allTags, r.latest]
  else if settings.collectAllTags then [r.latest, r.allTags]
  else [r.latest]

/-- The question for the newest tag of all, unless the scope leaves nothing out. -/
def overallQuestions : List Call := if r.scope = .major then [] else [r.latestOverall]

/-- Everything that a client is asked. -/
def questions (floating usesTagCache : Bool) : List Call :=
  if floating then [r.metadata] else r.tagQuestions settings usesTagCache ++ r.overallQuestions

/-- What a client is asked about itself before anything else. -/
def preface (floating usesTagCache : Bool) : List Reply :=
  ⟨.isFloating r.tag, floating⟩ :: if floating then [] else [⟨.usesTagCache, usesTagCache⟩]

/-- The result that replies add up to. -/
def gather (floating : Bool) (replies : List Reply) : FetchResult where
  tags := (replies.findSome? Reply.tags?).getD []
  latest := replies.findSome? Reply.latest?
  latestOverall :=
    if r.scope = .major then replies.findSome? Reply.latest?
    else replies.findSome? Reply.latestOverall?
  metadata := replies.findSome? Reply.metadata?
  floating := floating
  error := none

end FetchRequest

/-- A value, or the error that stands in its way. -/
def settled {α : Type} (e? : Option RegistryError) (a : α) : Except RegistryError α :=
  match e? with
  | some e => .error e
  | none => .ok a

/-- Only the questions are asked. -/
theorem Asked.mem {calls : List Call} {replies : List Reply} {e? : Option RegistryError}
    (h : Asked calls replies e?) : ∀ reply ∈ replies, reply.1 ∈ calls := by
  induction h with
  | nil => simp
  | failed => simp
  | cons _ _ ih =>
    intro reply hmem
    rcases List.mem_cons.mp hmem with rfl | hmem
    · exact List.mem_cons_self
    · exact List.mem_cons_of_mem _ (ih reply hmem)

theorem asked_append_iff {first second : List Call} {replies : List Reply}
    {e? : Option RegistryError} : Asked (first ++ second) replies e? ↔
      (∃ e, e? = some e ∧ Asked first replies (some e)) ∨
      ∃ before after, replies = before ++ after ∧ Asked first before none ∧
        Asked second after e? := by
  constructor
  · intro h
    induction first generalizing replies with
    | nil => exact .inr ⟨[], replies, rfl, .nil, h⟩
    | cons call first ih =>
      cases h with
      | failed hfail => exact .inl ⟨_, rfl, .failed hfail⟩
      | cons hok hrest =>
        rcases ih hrest with ⟨e, rfl, hfirst⟩ | ⟨before, after, rfl, hbefore, hafter⟩
        · exact .inl ⟨e, rfl, .cons hok hfirst⟩
        · exact .inr ⟨_ :: before, after, rfl, .cons hok hbefore, hafter⟩
  · rintro (⟨e, rfl, h⟩ | ⟨before, after, rfl, hbefore, hafter⟩)
    · induction first generalizing replies with
      | nil => cases h
      | cons call first ih =>
        cases h with
        | failed hfail => exact .failed hfail
        | cons hok h => exact .cons hok (ih h)
    · induction first generalizing before with
      | nil =>
        cases hbefore
        exact hafter
      | cons call first ih =>
        cases hbefore with
        | cons hok h => exact .cons hok (ih _ h)

namespace FetchProgram

open Program

variable {α β : Type} {id : ClientId} {settings : FetchSettings} {r : FetchRequest}

/-! ## Interviews -/

/-- A program asks a client the questions of a list, up to the first failure, and ends with what the
replies come to. -/
def Interviews (id : ClientId) (calls : List Call) (result : List Reply → α)
    (p : FetchProgram (Except RegistryError α)) : Prop :=
  ∀ said outcome, p.Says said (.done outcome) ↔ ∃ replies e?, Asked calls replies e? ∧
    said = replies.map (·.event id) ∧ outcome = settled e? (result replies)

theorem interviews_done {result : List Reply → α} {a : α} (h : a = result []) :
    Interviews id [] result (.done (.ok a)) := by
  intro said outcome
  rw [says_done_iff, h]
  constructor
  · rintro ⟨rfl, rfl⟩
    exact ⟨[], none, .nil, rfl, rfl⟩
  · rintro ⟨_, _, ⟨⟩, rfl, rfl⟩
    exact ⟨rfl, rfl⟩

/-- One question, which may fail, and then some others. -/
theorem interviews_ask {call : Call} {calls : List Call} {result : List Reply → α}
    {f : (FetchStep.call id call).Answer → FetchProgram (Except RegistryError α)}
    (hfail : ∀ answer e, Reply.failure? ⟨call, answer⟩ = some e → f answer = .done (.error e))
    (hok : ∀ answer, Reply.failure? ⟨call, answer⟩ = none →
      Interviews id calls (fun replies => result (⟨call, answer⟩ :: replies)) (f answer)) :
    Interviews id (call :: calls) result (.ask (.call id call) f) := by
  intro said outcome
  refine says_ask_iff.trans ?_
  constructor
  · rintro ⟨answer, more, rfl, hmore⟩
    cases hfailure : Reply.failure? ⟨call, answer⟩ with
    | some e =>
      rw [hfail answer e hfailure] at hmore
      obtain ⟨rfl, rfl⟩ := says_done_iff.mp hmore
      exact ⟨_, _, .failed hfailure, rfl, rfl⟩
    | none =>
      obtain ⟨replies, e?, hasked, rfl, rfl⟩ := (hok answer hfailure _ _).mp hmore
      exact ⟨_, _, .cons hfailure hasked, rfl, rfl⟩
  · rintro ⟨replies, e?, hasked, rfl, rfl⟩
    cases hasked with
    | @failed _ _ answer e hfailure =>
      refine ⟨answer, [], rfl, ?_⟩
      rw [hfail answer e hfailure]
      exact .nil _
    | @cons _ _ answer replies _ hfailure hasked =>
      exact ⟨answer, _, rfl, (hok answer hfailure _ _).mpr ⟨replies, e?, hasked, rfl, rfl⟩⟩

/-- One interview after another. -/
theorem interviews_bind {first second : List Call} {part : List Reply → α}
    {result : List Reply → β} {p : FetchProgram (Except RegistryError α)}
    {f : Except RegistryError α → FetchProgram (Except RegistryError β)}
    (hp : Interviews id first part p) (hfail : ∀ e, f (.error e) = .done (.error e))
    (hok : ∀ before, Asked first before none →
      Interviews id second (fun after => result (before ++ after)) (f (.ok (part before)))) :
    Interviews id (first ++ second) result (p >>= f) := by
  intro said outcome
  rw [says_bind_iff]
  constructor
  · rintro ⟨said, listing, more, rfl, hfirst, hsecond⟩
    obtain ⟨before, e?, hbefore, rfl, rfl⟩ := (hp _ _).mp hfirst
    cases e? with
    | some e =>
      rw [settled, hfail] at hsecond
      obtain ⟨rfl, rfl⟩ := says_done_iff.mp hsecond
      exact ⟨before, some e, asked_append_iff.mpr (.inl ⟨e, rfl, hbefore⟩), List.append_nil _, rfl⟩
    | none =>
      obtain ⟨after, e?, hafter, rfl, rfl⟩ := (hok before hbefore _ _).mp hsecond
      exact ⟨before ++ after, e?, asked_append_iff.mpr (.inr ⟨before, after, rfl, hbefore, hafter⟩),
        (List.map_append).symm, rfl⟩
  · rintro ⟨replies, e?, hasked, rfl, rfl⟩
    rcases asked_append_iff.mp hasked with ⟨e, rfl, hbefore⟩ | ⟨before, after, rfl, hbefore, hafter⟩
    · refine ⟨_, .error e, [], (List.append_nil _).symm,
        (hp _ _).mpr ⟨replies, some e, hbefore, rfl, rfl⟩, ?_⟩
      rw [hfail]
      exact .nil _
    · exact ⟨_, .ok (part before), _, List.map_append,
        (hp _ _).mpr ⟨before, none, hbefore, rfl, rfl⟩,
        (hok before hbefore _ _).mpr ⟨after, e?, hafter, rfl, rfl⟩⟩

/-! ## The parts of an interview -/

/-- The result for a floating tag. -/
theorem gather_metadata (metadata : TagMetadata) :
    r.gather true [⟨r.metadata, .ok (some metadata)⟩] = .ofFloating metadata := by
  show FetchResult.mk [] none (if r.scope = .major then none else none) (some metadata) true none =
    _
  rw [ite_self]
  rfl

theorem interviews_askMetadata :
    Interviews id [r.metadata] (r.gather true) (askMetadata id r) := by
  refine interviews_ask (fun answer e hfail => ?_) fun answer hok => ?_
  · rcases answer with e' | _ | metadata
    · cases hfail
      rfl
    · cases hfail
      rfl
    · cases hfail
  · rcases answer with e' | _ | metadata
    · cases hok
    · cases hok
    · exact interviews_done (gather_metadata metadata).symm

/-- The tags of an image and the newest of them inside the scope, as they are told. -/
def listed (replies : List Reply) : List String × Option String :=
  ((replies.findSome? Reply.tags?).getD [], replies.findSome? Reply.latest?)

section Questions

variable {calls : List Call} {result : List Reply → α}

theorem interviews_allTags
    {f : (FetchStep.call id r.allTags).Answer → FetchProgram (Except RegistryError α)}
    (hfail : ∀ e : RegistryError, f (.error e) = .done (.error e))
    (hok : ∀ tags : List String,
      Interviews id calls (fun replies => result (⟨r.allTags, .ok tags⟩ :: replies))
        (f (.ok tags))) :
    Interviews id (r.allTags :: calls) result (.ask (.call id r.allTags) f) := by
  refine interviews_ask (fun answer e h => ?_) fun answer h => ?_
  · rcases answer with e' | tags
    · cases h
      exact hfail e
    · cases h
  · rcases answer with e | tags
    · cases h
    · exact hok tags

theorem interviews_latest
    {f : (FetchStep.call id r.latest).Answer → FetchProgram (Except RegistryError α)}
    (hfail : ∀ e : RegistryError, f (.error e) = .done (.error e))
    (hok : ∀ newest : Option String,
      Interviews id calls (fun replies => result (⟨r.latest, .ok newest⟩ :: replies))
        (f (.ok newest))) :
    Interviews id (r.latest :: calls) result (.ask (.call id r.latest) f) := by
  refine interviews_ask (fun answer e h => ?_) fun answer h => ?_
  · rcases answer with e' | newest
    · cases h
      exact hfail e
    · cases h
  · rcases answer with e | newest
    · cases h
    · exact hok newest

end Questions

theorem askTags_spec : ∃ next, askTags settings id r = .ask (.call id .usesTagCache) next ∧
    ∀ uses : Bool, Interviews id (r.tagQuestions settings uses) listed (next uses) := by
  refine ⟨_, rfl, fun uses => ?_⟩
  unfold FetchRequest.tagQuestions
  cases uses with
  | true =>
    refine interviews_allTags (fun _ => rfl) fun tags => ?_
    refine interviews_latest (fun _ => rfl) fun newest => interviews_done ?_
    cases newest <;> rfl
  | false =>
    by_cases hcollect : settings.collectAllTags = true
    · simp only [hcollect, if_true]
      refine interviews_latest (fun _ => rfl) fun newest => ?_
      refine interviews_allTags (fun _ => rfl) fun tags => interviews_done ?_
      cases newest <;> rfl
    · simp only [hcollect]
      refine interviews_latest (fun _ => rfl) fun newest => interviews_done ?_
      cases newest <;> rfl

theorem mem_tagQuestions {call : Call} {uses : Bool} (h : call ∈ r.tagQuestions settings uses) :
    call = r.allTags ∨ call = r.latest := by
  unfold FetchRequest.tagQuestions at h
  split at h
  · simpa using h
  · split at h
    · simpa [or_comm] using h
    · exact .inr (List.mem_singleton.mp h)

theorem mem_overallQuestions {call : Call} (h : call ∈ r.overallQuestions) :
    call = r.latestOverall := by
  unfold FetchRequest.overallQuestions at h
  split at h
  · cases h
  · exact List.mem_singleton.mp h

theorem mem_questions {call : Call} {floating uses : Bool}
    (h : call ∈ r.questions settings floating uses) :
    call = r.metadata ∨ call = r.allTags ∨ call = r.latest ∨ call = r.latestOverall := by
  cases floating with
  | true => exact .inl (List.mem_singleton.mp h)
  | false =>
    rcases List.mem_append.mp h with h | h
    · rcases mem_tagQuestions h with h | h
      · exact .inr (.inl h)
      · exact .inr (.inr (.inl h))
    · exact .inr (.inr (.inr (mem_overallQuestions h)))

/-- What the replies about the tags come to, together with those about the newest tag of all. -/
theorem gather_append {before after : List Reply}
    (hbefore : ∀ reply ∈ before, reply.1 = r.allTags ∨ reply.1 = r.latest)
    (hafter : ∀ reply ∈ after, reply.1 = r.latestOverall) :
    r.gather false (before ++ after) = .success (listed before).1 (listed before).2
      (if r.scope = .major then (listed before).2 else after.findSome? Reply.latestOverall?)
      none := by
  have hbeforeOverall : before.findSome? Reply.latestOverall? = none := by
    refine List.findSome?_eq_none_iff.mpr ?_
    rintro ⟨call, answer⟩ hmem
    rcases hbefore _ hmem with rfl | rfl <;> rfl
  have hbeforeMetadata : before.findSome? Reply.metadata? = none := by
    refine List.findSome?_eq_none_iff.mpr ?_
    rintro ⟨call, answer⟩ hmem
    rcases hbefore _ hmem with rfl | rfl <;> rfl
  have hafterNone {β : Type} {f : Reply → Option β}
      (hf : ∀ answer, f ⟨r.latestOverall, answer⟩ = none) : after.findSome? f = none := by
    refine List.findSome?_eq_none_iff.mpr ?_
    rintro ⟨call, answer⟩ hmem
    obtain rfl : call = r.latestOverall := hafter _ hmem
    exact hf answer
  simp only [FetchRequest.gather, FetchResult.success, listed, List.findSome?_append,
    hbeforeOverall, hbeforeMetadata, hafterNone (f := Reply.tags?) fun _ => rfl,
    hafterNone (f := Reply.latest?) fun _ => rfl, hafterNone (f := Reply.metadata?) fun _ => rfl,
    Option.or_none, Option.none_or]

/-- The newest tag of all completes the result. -/
theorem interviews_askOverall {before : List Reply} {uses : Bool}
    (h : Asked (r.tagQuestions settings uses) before none) :
    Interviews id r.overallQuestions (fun after => r.gather false (before ++ after))
      (askOverall id r (listed before).2 >>= fun overall =>
        pure (.ok (.success (listed before).1 (listed before).2 overall none))) := by
  have hbefore : ∀ reply ∈ before, reply.1 = r.allTags ∨ reply.1 = r.latest :=
    fun reply hmem => mem_tagQuestions (h.mem reply hmem)
  unfold askOverall FetchRequest.overallQuestions
  by_cases hmajor : r.scope = .major
  · simp only [hmajor, if_true]
    refine interviews_done ?_
    rw [gather_append hbefore (by simp), if_pos hmajor]
  · simp only [hmajor, if_false]
    refine interviews_ask (fun answer e hfail => nomatch hfail) fun answer _ => ?_
    have hgather : r.gather false (before ++ [⟨r.latestOverall, answer⟩]) =
        .success (listed before).1 (listed before).2
          (Reply.latestOverall? ⟨r.latestOverall, answer⟩) none := by
      rw [gather_append hbefore (by simp), if_neg hmajor, List.findSome?_singleton]
    rcases answer with e | overall
    · exact interviews_done hgather.symm
    · exact interviews_done hgather.symm

theorem askClient_spec : ∃ next,
    askClient settings id r = .ask (.call id (.isFloating r.tag)) next ∧
    next true = askMetadata id r ∧
    ∃ next', next false = .ask (.call id .usesTagCache) next' ∧
      ∀ uses : Bool, Interviews id (r.questions settings false uses) (r.gather false)
        (next' uses) := by
  obtain ⟨next, hnext, htags⟩ := @askTags_spec id settings r
  refine ⟨_, rfl, rfl, ?_⟩
  change ∃ next', (askTags settings id r >>= _) = _ ∧ _
  rw [hnext]
  refine ⟨_, rfl, fun uses => ?_⟩
  exact interviews_bind (htags uses) (fun _ => rfl) fun _ hbefore => interviews_askOverall hbefore

/-- An interview begins with what the client is like, which decides on the questions. -/
theorem says_askClient_iff {said : List Event} {outcome : Except RegistryError FetchResult} :
    (askClient settings id r).Says said (.done outcome) ↔ ∃ floating uses replies e?,
      Asked (r.questions settings floating uses) replies e? ∧
      said = (r.preface floating uses ++ replies).map (·.event id) ∧
      outcome = settled e? (r.gather floating replies) := by
  obtain ⟨next, hnext, hfloating, next', hnext', hlisting⟩ := @askClient_spec id settings r
  rw [hnext]
  constructor
  · intro h
    obtain ⟨floating, more, rfl, hmore⟩ := says_ask_iff.mp h
    cases floating with
    | true =>
      rw [hfloating] at hmore
      obtain ⟨replies, e?, hasked, rfl, rfl⟩ := (interviews_askMetadata _ _).mp hmore
      exact ⟨true, false, replies, e?, hasked, rfl, rfl⟩
    | false =>
      rw [hnext'] at hmore
      obtain ⟨uses, rest, rfl, hrest⟩ := says_ask_iff.mp hmore
      obtain ⟨replies, e?, hasked, rfl, rfl⟩ := (hlisting uses _ _).mp hrest
      exact ⟨false, uses, replies, e?, hasked, rfl, rfl⟩
  · rintro ⟨floating, uses, replies, e?, hasked, rfl, rfl⟩
    refine says_ask_iff.mpr ⟨floating, _, rfl, ?_⟩
    cases floating with
    | true =>
      rw [hfloating]
      exact (interviews_askMetadata _ _).mpr ⟨replies, e?, hasked, rfl, rfl⟩
    | false =>
      rw [hnext']
      exact says_ask_iff.mpr
        ⟨uses, _, rfl, (hlisting uses _ _).mpr ⟨replies, e?, hasked, rfl, rfl⟩⟩

/-! ## The whole fetch -/

end FetchProgram

namespace FetchRequest

variable (settings : FetchSettings) (r : FetchRequest) (inRun : Bool)

/-- Everything that is said with a client. It is closed in the end. -/
def session (id : ClientId) (floating usesTagCache : Bool) (replies : List Reply) : List Event :=
  (r.preface floating usesTagCache ++ replies).map (·.event id) ++ [⟨.call id .close, ()⟩]

/-- In a run, a fetch first finds that there is no kept answer. -/
def lookUps : List Event := if inRun then [⟨.lookUp r.key, none⟩] else []

/-- In a run, a fetch that succeeds keeps its answer. -/
def remembers : Except RegistryError FetchResult → List Event
  | .error _ => []
  | .ok result => if inRun then [⟨.remember r.key result, ()⟩] else []

end FetchRequest

/-- The result of a fetch, which holds the text of the error if there is one. -/
def FetchResult.ofOutcome : Except RegistryError FetchResult → FetchResult
  | .error e => .failed e.message
  | .ok result => result

/-- What is said from the permit on, and the response to it. -/
inductive FetchRequest.Visit (settings : FetchSettings) (inRun : Bool) (r : FetchRequest) :
    List Event → FetchResponse → Prop where
  /-- There is no client. -/
  | refused (waited : Nat) (e : RegistryError) :
    Visit settings inRun r
      [⟨.acquire r.key.registry, waited⟩, ⟨.connect r.key.registry, .error e⟩, ⟨.release, ()⟩]
      ⟨.failed e.message, false, waited⟩
  /-- A client is asked what it is like, and then questions up to the first failure. It is closed
  before the permit is given back. -/
  | served (waited : Nat) (id : ClientId) {floating usesTagCache : Bool} {replies : List Reply}
    {e? : Option RegistryError} :
    Asked (r.questions settings floating usesTagCache) replies e? →
    Visit settings inRun r
      ([⟨.acquire r.key.registry, waited⟩, ⟨.connect r.key.registry, .ok id⟩] ++
        r.session id floating usesTagCache replies ++
        ⟨.release, ()⟩ :: r.remembers inRun (settled e? (r.gather floating replies)))
      ⟨.ofOutcome (settled e? (r.gather floating replies)), false, waited⟩

/-- What a fetch says, and its response: in a run there may be a kept answer, and otherwise the
registry is visited. -/
inductive FetchRequest.Protocol (settings : FetchSettings) (inRun : Bool) (r : FetchRequest) :
    List Event → FetchResponse → Prop where
  | kept (result : FetchResult) : inRun = true →
    Protocol settings inRun r [⟨.lookUp r.key, some result⟩] ⟨result, true, 0⟩
  | anew {visit : List Event} {response : FetchResponse} : r.Visit settings inRun visit response →
    Protocol settings inRun r (r.lookUps inRun ++ visit) response

namespace FetchProgram

open Program

theorem says_askRegistry_iff {said : List Event} {registry : String}
    {outcome : Except RegistryError FetchResult} :
    (askRegistry settings registry r).Says said (.done outcome) ↔
      (∃ e, said = [⟨.connect registry, .error e⟩] ∧ outcome = .error e) ∨
      ∃ id floating uses replies e?, Asked (r.questions settings floating uses) replies e? ∧
        said = ⟨.connect registry, .ok id⟩ :: r.session id floating uses replies ∧
        outcome = settled e? (r.gather floating replies) := by
  constructor
  · intro h
    obtain ⟨client, more, rfl, hmore⟩ := says_question_iff.mp h
    rcases client with e | id
    · obtain ⟨rfl, rfl⟩ := says_done_iff.mp hmore
      exact .inl ⟨e, rfl, rfl⟩
    · obtain ⟨interview, outcome, rest, rfl, hinterview, hrest⟩ := says_bind_iff.mp hmore
      obtain ⟨closed, last, rfl, hlast⟩ := says_question_iff.mp hrest
      obtain ⟨rfl, rfl⟩ := says_done_iff.mp hlast
      obtain ⟨floating, uses, replies, e?, hasked, rfl, rfl⟩ := says_askClient_iff.mp hinterview
      exact .inr ⟨id, floating, uses, replies, e?, hasked, rfl, rfl⟩
  · rintro (⟨e, rfl, rfl⟩ | ⟨id, floating, uses, replies, e?, hasked, rfl, rfl⟩)
    · exact says_question_iff.mpr ⟨.error e, [], rfl, .nil _⟩
    · refine says_question_iff.mpr ⟨.ok id, _, rfl, ?_⟩
      refine says_bind_iff.mpr ⟨_, _, _, rfl,
        says_askClient_iff.mpr ⟨floating, uses, replies, e?, hasked, rfl, rfl⟩, ?_⟩
      exact says_question_iff.mpr ⟨(), [], rfl, .nil _⟩

theorem says_fetchAnew_iff {said : List Event} {inRun : Bool} {response : FetchResponse} :
    (fetchAnew settings inRun r).Says said (.done response) ↔ ∃ waited said' outcome,
      (askRegistry settings r.key.registry r).Says said' (.done outcome) ∧
      said = ⟨.acquire r.key.registry, waited⟩ ::
        (said' ++ ⟨.release, ()⟩ :: r.remembers inRun outcome) ∧
      response = ⟨.ofOutcome outcome, false, waited⟩ := by
  constructor
  · intro h
    obtain ⟨waited, more, rfl, hmore⟩ := says_question_iff.mp h
    obtain ⟨said', outcome, rest, rfl, hasked, hrest⟩ := says_bind_iff.mp hmore
    obtain ⟨released, last, rfl, hlast⟩ := says_question_iff.mp hrest
    refine ⟨waited, said', outcome, hasked, ?_⟩
    rcases outcome with e | result
    · obtain ⟨rfl, rfl⟩ := says_done_iff.mp hlast
      exact ⟨rfl, rfl⟩
    · cases inRun with
      | true =>
        obtain ⟨kept, nothing, rfl, hnothing⟩ := says_question_iff.mp hlast
        obtain ⟨rfl, rfl⟩ := says_done_iff.mp hnothing
        exact ⟨rfl, rfl⟩
      | false =>
        obtain ⟨rfl, rfl⟩ := says_done_iff.mp hlast
        exact ⟨rfl, rfl⟩
  · rintro ⟨waited, said', outcome, hasked, rfl, rfl⟩
    refine says_question_iff.mpr ⟨waited, _, rfl, says_bind_iff.mpr ⟨_, _, _, rfl, hasked, ?_⟩⟩
    refine says_question_iff.mpr ⟨(), _, rfl, ?_⟩
    rcases outcome with e | result
    · exact .nil _
    · cases inRun with
      | true => exact says_question_iff.mpr ⟨(), [], rfl, .nil _⟩
      | false => exact .nil _

/-- A fetch that finds no kept answer visits the registry. -/
theorem says_fetchAnew_iff_visit {said : List Event} {inRun : Bool} {response : FetchResponse} :
    (fetchAnew settings inRun r).Says said (.done response) ↔
      r.Visit settings inRun said response := by
  rw [says_fetchAnew_iff]
  constructor
  · rintro ⟨waited, said', outcome, hasked, rfl, rfl⟩
    rcases says_askRegistry_iff.mp hasked with
      ⟨e, rfl, rfl⟩ | ⟨id, floating, uses, replies, e?, hreplies, rfl, rfl⟩
    · exact .refused waited e
    · exact .served waited id hreplies
  · rintro (⟨waited, e⟩ | ⟨waited, id, hasked⟩)
    · exact ⟨waited, _, _, says_askRegistry_iff.mpr (.inl ⟨e, rfl, rfl⟩), rfl, rfl⟩
    · exact ⟨waited, _, _, says_askRegistry_iff.mpr (.inr ⟨id, _, _, _, _, hasked, rfl, rfl⟩), rfl,
        rfl⟩

/-- **A fetch says exactly what the protocol allows**, whatever its surroundings do. -/
theorem says_fetch_iff {said : List Event} {inRun : Bool} {response : FetchResponse} :
    (fetch settings inRun r).Says said (.done response) ↔
      r.Protocol settings inRun said response := by
  cases inRun with
  | false =>
    refine says_fetchAnew_iff_visit.trans ⟨.anew, ?_⟩
    rintro (⟨-, ⟨⟩⟩ | hvisit)
    exact hvisit
  | true =>
    refine (says_question_iff (q := FetchStep.lookUp r.key)).trans ?_
    constructor
    · rintro ⟨kept | result, more, rfl, hmore⟩
      · exact .anew (says_fetchAnew_iff_visit.mp hmore)
      · obtain ⟨rfl, rfl⟩ := says_done_iff.mp hmore
        exact .kept result rfl
    · rintro (⟨result, -⟩ | hvisit)
      · exact ⟨some result, [], rfl, .nil _⟩
      · exact ⟨none, _, rfl, says_fetchAnew_iff_visit.mpr hvisit⟩

end FetchProgram

/-! ## The result -/

/-- What the result of a fetch can be: the text of an error and nothing else, the metadata of a
floating tag and nothing else, or what is known about the tags of the image. The newest tag of all
is the newest one inside the scope if the scope leaves nothing out. -/
inductive FetchRequest.Reports (r : FetchRequest) : FetchResult → Prop where
  | failed (text : String) : Reports r (.failed text)
  | floating (metadata : TagMetadata) : Reports r (.ofFloating metadata)
  | known (tags : List String) {latest overall : Option String} :
    (r.scope = .major → overall = latest) → Reports r (.success tags latest overall none)

namespace FetchRequest

open FetchProgram

variable {settings : FetchSettings} {r : FetchRequest} {inRun : Bool}

/-- The result of an interview without a failure. -/
theorem reports_gather {floating uses : Bool} {replies : List Reply}
    (h : Asked (r.questions settings floating uses) replies none) :
    r.Reports (r.gather floating replies) := by
  cases floating with
  | true =>
    obtain _ | _ | ⟨hok, ⟨⟩⟩ := h
    next answer =>
    rcases answer with e | _ | metadata
    · cases hok
    · cases hok
    · rw [gather_metadata]
      exact .floating metadata
  | false =>
    rcases asked_append_iff.mp h with ⟨e, he, -⟩ | ⟨before, after, rfl, hbefore, hafter⟩
    · cases he
    · rw [gather_append (fun reply hmem => mem_tagQuestions (hbefore.mem reply hmem))
        fun reply hmem => mem_overallQuestions (hafter.mem reply hmem)]
      exact .known _ fun hmajor => if_pos hmajor

theorem Visit.reports {said : List Event} {response : FetchResponse}
    (h : r.Visit settings inRun said response) : r.Reports response.result := by
  cases h with
  | refused waited e => exact .failed e.message
  | @served waited id floating uses replies e? hasked =>
    cases e? with
    | some e => exact .failed e.message
    | none => exact reports_gather hasked

/-- The result of a fetch that finds no kept answer. -/
theorem Protocol.reports {said : List Event} {response : FetchResponse}
    (h : r.Protocol settings inRun said response) (hnew : response.cacheHit = false) :
    r.Reports response.result := by
  cases h with
  | kept result => cases hnew
  | anew hvisit => exact hvisit.reports

end FetchRequest

end TagWatch
