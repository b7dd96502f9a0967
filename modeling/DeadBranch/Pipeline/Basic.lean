import DeadBranch.Event
import DeadBranch.Tree.Node

/-!
# Pipelines

A transformer works on a program, keeps a state of its own between calls, logs,
and may fail. A pipeline is a list of transformer states. `run` calls each of
them once, in order, and stops at the first failure; `runUntilStable` repeats
whole runs until one of them leaves the program exactly as it was, spans
included, or the allowed number of rounds is used up.

A failed call may have changed the program and the transformer's state, and a
failed run keeps what it did: nothing is rolled back.
-/
namespace DeadBranch

/-- What a call of a transformer gives. -/
structure Call (τ ε : Type) where
  outcome : Except ε Unit
  state : τ
  program : Node
  log : List Event

/-- Transformers with states in `τ` that fail with an `ε`. -/
class Transformer (τ : Type) (ε : outParam Type) where
  name : τ → String
  transform : τ → Node → Call τ ε

namespace Pipeline

/-- Why a pipeline gave up. -/
inductive Failure (ε : Type) where
  | inTransformer (name : String) (cause : ε)
  /-- Every one of the allowed rounds changed the program. -/
  | unstable (rounds : Nat)
deriving Repr, DecidableEq

def Failure.message {ε : Type} : Failure ε → String
  | .inTransformer name _ => "in transformer " ++ name
  | .unstable rounds => "pipeline did not stabilise within " ++ toString rounds ++ " rounds"

/-- The message, followed by that of the cause if there is one. -/
def Failure.chain {ε : Type} (describe : ε → String) (f : Failure ε) : List String :=
  match f with
  | .inTransformer _ cause => [f.message, describe cause]
  | .unstable _ => [f.message]

/-- What running a pipeline gives: an answer or a failure, and in either case the
transformers and the program as the run left them. -/
structure Run (τ ε α : Type) where
  outcome : Except (Failure ε) α
  transformers : List τ
  program : Node
  log : List Event

variable {τ ε : Type} [Transformer τ ε]

/-- Call every transformer once, in order. A failure carries the name that its
transformer has after the call. -/
def run : List τ → Node → Run τ ε Unit
  | [], program => ⟨.ok (), [], program, []⟩
  | t :: ts, program =>
      let call := Transformer.transform t program
      let log := .running (Transformer.name t) :: call.log
      match call.outcome with
      | .ok () =>
          let rest := run ts call.program
          ⟨rest.outcome, call.state :: rest.transformers, rest.program, log ++ rest.log⟩
      | .error cause =>
          ⟨.error (.inTransformer (Transformer.name call.state) cause), call.state :: ts,
            call.program, log⟩

/-- The rounds that are left, when `done` of them have changed the program. -/
def runRounds : (left done : Nat) → List τ → Node → Run τ ε Nat
  | 0, done, ts, program => ⟨.error (.unstable done), ts, program, []⟩
  | left + 1, done, ts, program =>
      let round := run ts program
      match round.outcome with
      | .error failure => ⟨.error failure, round.transformers, round.program, round.log⟩
      | .ok () =>
          if round.program = program then
            ⟨.ok done, round.transformers, round.program, round.log ++ [.stable done]⟩
          else
            let rest := runRounds left (done + 1) round.transformers round.program
            ⟨rest.outcome, rest.transformers, rest.program, round.log ++ rest.log⟩

/-- Run a pipeline until a round changes nothing; the answer is how many rounds
changed something. -/
def runUntilStable (maxRounds : Nat) (ts : List τ) (program : Node) : Run τ ε Nat :=
  runRounds maxRounds 0 ts program

end Pipeline
end DeadBranch
