import DeadBranch.Proofs.Convergence
import DeadBranch.Proofs.DanglingElse
import DeadBranch.Proofs.Meaning
import DeadBranch.Session
import DeadBranch.Tree.Document
import DeadBranch.Proofs.Pipeline.RunUntilStable
import DeadBranch.Proofs.Rewrite.Splicing
import DeadBranch.Proofs.Rewrite.Exhaustion
import DeadBranch.Proofs.Rewrite.KeptPlaces
import DeadBranch.Proofs.Rewrite.Chains
import DeadBranch.Proofs.RoundBudget
import DeadBranch.Proofs.Declarations
import DeadBranch.Proofs.LexicalClash
import DeadBranch.Proofs.HoistedNames
import DeadBranch.Proofs.Placement
import DeadBranch.Proofs.IdleRun
import DeadBranch.Proofs.DecidedChain
import DeadBranch.Proofs.Pipeline.FirstFailure
import DeadBranch.Proofs.Descent
import DeadBranch.Proofs.Flattening
import DeadBranch.Proofs.Relabelling
import DeadBranch.Proofs.AuditTrail
import DeadBranch.Proofs.SecondTraversal
import DeadBranch.Proofs.Commutation
import DeadBranch.Proofs.Bookkeeping
import DeadBranch.Proofs.EntryByEntry
import DeadBranch.Proofs.LiteralAccess
import DeadBranch.Proofs.Directives
