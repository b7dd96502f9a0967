import DeadBranch.Pipeline.Basic
import DeadBranch.Rewrite.DeadCode

/-!
# The dead code pass as a transformer

Its state is its rules and the counts of its latest call. It never fails, which
the error type says.
-/
namespace DeadBranch.DeadCode

def name : String := "DeadCode"

/-- Run the pass once, remember the counts and report them. -/
def transform (pass : DeadCode) (program : Node) : Call DeadCode Empty :=
  let result := run pass.rules program
  { outcome := .ok ()
    state := { pass with stats := result.stats }
    program := result.program
    log := result.log ++ [.passFinished result.stats] }

instance : Transformer DeadCode Empty where
  name _ := name
  transform := transform

end DeadBranch.DeadCode
