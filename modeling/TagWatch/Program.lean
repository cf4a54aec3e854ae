/-!
# Programs that ask questions

A program is a finite description of a computation that asks its surroundings questions and
goes on according to the answers. What the surroundings are is left open: the same program runs
against a network, a prepared table of answers, or every conceivable behaviour at once.

`run` answers the questions one after another by a handler with a state; `run_bind` says that
running a composed program is running its parts.
-/

namespace TagWatch

/-- A computation that asks questions `q : Q`, gets answers of type `A q` and ends with a value. -/
inductive Program (Q : Type) (A : Q → Type) (α : Type) where
  | done (value : α)
  | ask (question : Q) (next : A question → Program Q A α)

/-- A way to answer questions that may change a state. -/
abbrev Handler (Q : Type) (A : Q → Type) (σ : Type) := (q : Q) → σ → A q × σ

namespace Program

variable {Q : Type} {A : Q → Type} {α β σ : Type}

/-- One program after another. -/
def andThen : Program Q A α → (α → Program Q A β) → Program Q A β
  | done a, f => f a
  | ask q next, f => ask q fun a => (next a).andThen f

instance : Monad (Program Q A) where
  pure := done
  bind := andThen

/-- The program that asks a single question. -/
def question (q : Q) : Program Q A (A q) := ask q done

/-- The value of a program, and the state after it, when a handler answers its questions. -/
def run (handler : Handler Q A σ) : Program Q A α → σ → α × σ
  | done a, s => (a, s)
  | ask q next, s =>
    let (answer, s) := handler q s
    (next answer).run handler s

theorem run_andThen (handler : Handler Q A σ) (p : Program Q A α) (f : α → Program Q A β)
    (s : σ) :
    (p.andThen f).run handler s = (f (p.run handler s).1).run handler (p.run handler s).2 := by
  induction p generalizing s with
  | done a => rfl
  | ask q next ih => simp only [andThen, run]; exact ih _ _

theorem run_bind (handler : Handler Q A σ) (p : Program Q A α) (f : α → Program Q A β) (s : σ) :
    (p >>= f).run handler s = (f (p.run handler s).1).run handler (p.run handler s).2 :=
  run_andThen handler p f s

end Program

end TagWatch
