import DeadBranch.Pipeline.Stage
import DeadBranch.Source.Minified
import DeadBranch.Source.Program

/-!
# Sessions

A session holds a program and a pipeline and carries out commands one by one.
Loading another program keeps the pipeline with everything its transformers
remember; a text that cannot be read leaves the session as it was.
-/
namespace DeadBranch

/-- A text that is not a module, and the name it was read under. -/
structure ParseError where
  name : String
  cause : Source.SyntaxError
deriving Repr, DecidableEq

def ParseError.message (e : ParseError) : String := "in parsing " ++ e.name

/-- Read a named text as a module. -/
def parse (name text : String) : Except ParseError Node :=
  (Source.readModule text).mapError (⟨name, ·⟩)

structure Session where
  program : Node
  stages : List Stage := []

inductive Command where
  | apply (rule : Rule)
  | deadCode (rules : RuleSet)
  | run
  | runUntilStable (maxRounds : Nat)
  | addStage (stage : Stage)
  | stats
  | loadText (name text : String)
  | loadProgram (program : Node)

inductive Result where
  | count (n : Nat)
  | passStats (stats : Stats)
  | done
  | rounds (n : Nat)
  | stageNames (names : List String)
  | stageStats (stats : List Stats)
  | pipelineFailure (failure : Pipeline.Failure String)
  | parseFailure (error : ParseError)

namespace Result

/-- The result of a pipeline that ran to its end or failed. -/
def ofOutcome {α : Type} (ok : α → Result) : Except (Pipeline.Failure String) α → Result
  | .ok a => ok a
  | .error failure => .pipelineFailure failure

end Result

structure Reply where
  session : Session
  result : Result
  log : List Event := []

namespace Session

def step (s : Session) : Command → Reply
  | .apply rule =>
      let traced := rule.rewrite s.program
      ⟨{ s with program := traced.value }, .count traced.count, traced.log⟩
  | .deadCode rules =>
      let call := DeadCode.transform { rules } s.program
      ⟨{ s with program := call.program }, .passStats call.state.stats, call.log⟩
  | .run =>
      let run := Pipeline.run s.stages s.program
      ⟨⟨run.program, run.transformers⟩, .ofOutcome (fun _ => .done) run.outcome, run.log⟩
  | .runUntilStable maxRounds =>
      let run := Pipeline.runUntilStable maxRounds s.stages s.program
      ⟨⟨run.program, run.transformers⟩, .ofOutcome .rounds run.outcome, run.log⟩
  | .addStage stage =>
      let stages := s.stages ++ [stage]
      ⟨{ s with stages }, .stageNames (stages.map Stage.name), []⟩
  | .stats => ⟨s, .stageStats (s.stages.filterMap Stage.stats?), []⟩
  | .loadText name text =>
      match parse name text with
      | .ok program => ⟨{ s with program }, .done, []⟩
      | .error e => ⟨s, .parseFailure e, []⟩
  | .loadProgram program => ⟨{ s with program }, .done, []⟩

end Session
end DeadBranch
