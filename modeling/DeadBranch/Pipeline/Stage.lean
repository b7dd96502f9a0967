import DeadBranch.Pipeline.DeadCode
import DeadBranch.Tree.TopLevel

/-!
# Stages

The transformers a session can put into its pipeline: the dead code pass, and
small edits of a program's top level. An edit counts its calls from one and, if
it has a limit, does nothing on the calls after that many. A failing edit fails
with the text it was given.
-/
namespace DeadBranch

/-- What an edit does to a program. -/
inductive Edit where
  /-- Fail on one call, or on every call if none is named. -/
  | fail (message : String) (onCall : Option Nat)
  | dropEmpty
  | append
  | pop
  | reverse
  | touch
  | toggle
deriving Repr, DecidableEq

namespace Edit

/-- The effect of an edit on its call with this number. -/
def apply (call : Nat) (program : Node) : Edit → Except String Node
  | .fail message onCall => if onCall.all (· = call) then .error message else .ok program
  | .dropEmpty => .ok (program.mapItems (·.filter (!·.isEmptyStatement)))
  | .append => .ok (program.mapItems (· ++ [.emptyStatement ⟨0, 0⟩]))
  | .pop => .ok (program.mapItems List.dropLast)
  | .reverse => .ok (program.mapItems List.reverse)
  | .touch => .ok (program.mapProgramSpan fun s => { s with hi := s.hi + 1 })
  | .toggle => .ok (program.mapItems (·.map Node.negateTest))

end Edit

/-- A transformer of a session. -/
inductive Stage where
  | deadCode (pass : DeadCode)
  | edit (name : String) (edit : Edit) (limit : Option Nat) (calls : Nat)
deriving Repr, DecidableEq

namespace Stage

/-- An edit that has not been called yet. -/
def ofEdit (name : String) (e : Edit) (limit : Option Nat) : Stage := .edit name e limit 0

def name : Stage → String
  | .deadCode _ => DeadCode.name
  | .edit name .. => name

/-- The counts of the latest call, for a dead code pass. -/
def stats? : Stage → Option Stats
  | .deadCode pass => some pass.stats
  | .edit .. => none

def transform : Stage → Node → Call Stage String
  | .deadCode pass, program =>
      let call := pass.transform program
      ⟨.ok (), .deadCode call.state, call.program, call.log⟩
  | .edit name e limit calls, program =>
      let state := .edit name e limit (calls + 1)
      if limit.all (calls + 1 ≤ ·) then
        match e.apply (calls + 1) program with
        | .ok program => ⟨.ok (), state, program, []⟩
        | .error message => ⟨.error message, state, program, []⟩
      else ⟨.ok (), state, program, []⟩

instance : Transformer Stage String := ⟨name, transform⟩

end Stage
end DeadBranch
