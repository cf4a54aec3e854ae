import TagWatch.Client.Distribution

/-!
# What is said while a program runs

The transcript of a program against a handler is the list of its questions, each with the answer
that it got. Running a composed program is running its parts, and its transcript is theirs, one
after the other (`transcript_bind`).

A program of the client for the distribution interface also has a memory. An `Interpreter` takes
the two kinds of program together: whatever runs the programs of a monad from a state and says
what was said on the way, and does so part by part. `Interpreter.http` runs the programs that
only send requests, `Interpreter.session` those with a memory. What a program does is a judgement,
`Does`, which is put together along the program (`Does.bind`).
-/

namespace TagWatch

/-! ## Programs -/

namespace Program

variable {Q : Type} {A : Q → Type} {α β σ : Type}

/-- The questions of a program, each with its answer, in order. -/
def transcript (handler : Handler Q A σ) : Program Q A α → σ → List ((q : Q) × A q)
  | done _, _ => []
  | ask q next, s =>
    let (answer, s) := handler q s
    ⟨q, answer⟩ :: (next answer).transcript handler s

theorem transcript_bind (handler : Handler Q A σ) (p : Program Q A α) (f : α → Program Q A β)
    (s : σ) :
    (p >>= f).transcript handler s =
      p.transcript handler s ++
        (f (p.run handler s).1).transcript handler (p.run handler s).2 := by
  show (p.andThen f).transcript handler s = _
  induction p generalizing s with
  | done a => rfl
  | ask q next ih =>
    show _ :: ((next _).andThen f).transcript handler _ = _ :: _
    rw [ih]
    rfl

theorem andThen_done (p : Program Q A α) : p.andThen done = p := by
  induction p with
  | done a => rfl
  | ask q next ih => exact congrArg (ask q) (funext ih)

theorem andThen_assoc {γ : Type} (p : Program Q A α) (f : α → Program Q A β)
    (g : β → Program Q A γ) :
    (p.andThen f).andThen g = p.andThen fun a => (f a).andThen g := by
  induction p with
  | done a => rfl
  | ask q next ih => exact congrArg (ask q) (funext ih)

instance : LawfulMonad (Program Q A) :=
  LawfulMonad.mk' (Program Q A) andThen_done (fun _ _ => rfl) andThen_assoc

end Program

/-- A request with the answer that it got. -/
abbrev Http.Exchange := (_ : Http.Request) × Except NetworkFailure Http.Response

/-! ## Interpreters -/

/-- A way to run the programs of a monad from a state, together with what is said on the way. -/
structure Interpreter (m : Type → Type) [Monad m] (σ ε : Type) where
  run : {α : Type} → m α → σ → α × σ
  said : {α : Type} → m α → σ → List ε
  run_pure : ∀ {α : Type} (a : α) s, run (pure a) s = (a, s)
  said_pure : ∀ {α : Type} (a : α) s, said (pure a) s = []
  run_bind : ∀ {α β : Type} (p : m α) (f : α → m β) s,
    run (p >>= f) s = run (f (run p s).1) (run p s).2
  said_bind : ∀ {α β : Type} (p : m α) (f : α → m β) s,
    said (p >>= f) s = said p s ++ said (f (run p s).1) (run p s).2

namespace Interpreter

section Does

variable {m : Type → Type} [Monad m] {σ ε α β : Type}

/-- From a state, a program says something and ends with a value and in a state. -/
structure Does (I : Interpreter m σ ε) (p : m α) (s : σ) (said : List ε) (a : α) (s' : σ) :
    Prop where
  run : I.run p s = (a, s')
  said : I.said p s = said

variable {I : Interpreter m σ ε} {p : m α} {f : α → m β} {a : α} {b : β} {s s' s'' : σ}
  {said said' : List ε}

theorem exists_does (I : Interpreter m σ ε) (p : m α) (s : σ) :
    ∃ said a s', I.Does p s said a s' := ⟨_, _, _, rfl, rfl⟩

theorem does_pure (I : Interpreter m σ ε) (a : α) (s : σ) : I.Does (pure a) s [] a s :=
  ⟨I.run_pure a s, I.said_pure a s⟩

theorem Does.bind (hp : I.Does p s said a s') (hf : I.Does (f a) s' said' b s'') :
    I.Does (p >>= f) s (said ++ said') b s'' := by
  constructor
  · rw [I.run_bind, hp.run]
    exact hf.run
  · rw [I.said_bind, hp.said, hp.run]
    exact congrArg (said ++ ·) hf.said

/-- What comes after a program and says nothing adds nothing to the transcript. -/
theorem said_bind_silent (hf : ∀ a s, I.said (f a) s = []) (s : σ) :
    I.said (p >>= f) s = I.said p s := by
  rw [I.said_bind, hf, List.append_nil]

/-- The last step of a program says nothing. -/
theorem Does.bind_pure (hp : I.Does p s said a s') (hf : f a = pure b) :
    I.Does (p >>= f) s said b s' := by
  rw [← List.append_nil said]
  exact hp.bind (hf ▸ I.does_pure b s')

end Does

open Http TagWatch.Distribution

variable {σ : Type}

/-- The programs that send requests, against anything that answers them. -/
def http (handler : Handler Request (fun _ => Except NetworkFailure Response) σ) :
    Interpreter HttpProgram σ Exchange where
  run p s := p.run handler s
  said p s := p.transcript handler s
  run_pure _ _ := rfl
  said_pure _ _ := rfl
  run_bind := Program.run_bind handler
  said_bind := Program.transcript_bind handler

/-- The programs that send requests and use the memory of a client. -/
def session (handler : Handler Request (fun _ => Except NetworkFailure Response) σ) :
    Interpreter Session (Memory × σ) Exchange where
  run p s :=
    let ((a, memory), s) := (p.run s.1).run handler s.2
    (a, (memory, s))
  said p s := (p.run s.1).transcript handler s.2
  run_pure _ _ := rfl
  said_pure _ _ := rfl
  run_bind p f s := by
    simp only [StateT.run_bind, Program.run_bind]
  said_bind p f s := by
    simp only [StateT.run_bind, Program.transcript_bind]

section Steps

variable (handler : Handler Request (fun _ => Except NetworkFailure Response) σ)

theorem does_send {r : Request} {answer : Except NetworkFailure Response} {s s' : σ}
    (h : handler r s = (answer, s')) :
    (http handler).Does (HttpProgram.send r) s [⟨r, answer⟩] answer s' := by
  refine ⟨h, ?_⟩
  show [(⟨r, (handler r s).1⟩ : Exchange)] = _
  rw [h]

theorem does_exchange {r : Request} {answer : Except NetworkFailure Response} (memory : Memory)
    {s s' : σ} (h : handler r s = (answer, s')) :
    (session handler).Does (exchange r) (memory, s) [⟨r, answer⟩] answer (memory, s') := by
  constructor
  · show (((handler r s).1, memory, (handler r s).2) : _ × Memory × σ) = _
    rw [h]
  · show [(⟨r, (handler r s).1⟩ : Exchange)] = _
    rw [h]

theorem does_get (memory : Memory) (s : σ) :
    (session handler).Does get (memory, s) [] memory (memory, s) := ⟨rfl, rfl⟩

theorem does_modify (f : Memory → Memory) (memory : Memory) (s : σ) :
    (session handler).Does (modify f) (memory, s) [] () (f memory, s) := ⟨rfl, rfl⟩

end Steps

end Interpreter

end TagWatch
