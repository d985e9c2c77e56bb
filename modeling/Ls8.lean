import Ls8.CommandLine.Log
import Ls8.FileStore
import Ls8.Main
import Ls8.Proofs.CrashFreedom
import Ls8.Proofs.ErrorDecision
import Ls8.Proofs.FailedStep
import Ls8.Proofs.InstructionTable
import Ls8.Proofs.Lockstep
import Ls8.Proofs.Reachable
import Ls8.Proofs.RunEnding
import Ls8.Proofs.FreshStart
import Ls8.Proofs.ListStack
import Ls8.Proofs.ListingGrammar
import Ls8.Proofs.StoredFiles
import Ls8.Proofs.FileRun
import Ls8.Proofs.BoundedOutput
import Ls8.Proofs.ListingLayout
import Ls8.Proofs.Subroutine
import Ls8.Proofs.StraightLine
import Ls8.Proofs.RunSteps
import Ls8.Proofs.RunRecord
import Ls8.Proofs.UnreadBytes
import Ls8.Proofs.RejectedListing
import Ls8.Proofs.History
import Ls8.Proofs.JoinedListings
import Ls8.Proofs.StackWrites
import Ls8.Proofs.LastComparison
import Ls8.Proofs.StackBounds
import Ls8.Proofs.ForwardSteps
import Ls8.Proofs.Printout
import Ls8.Proofs.Halting
import Ls8.Proofs.ExactArithmetic
import Ls8.Proofs.EndlessRuns
import Ls8.Proofs.TraceLine
