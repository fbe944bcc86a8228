import EofVerifier.Main
import EofVerifier.Proofs.WalkOrder
import EofVerifier.Proofs.HeightAssignment
import EofVerifier.Proofs.ContainerVerdict
import EofVerifier.Proofs.Workers
import EofVerifier.Proofs.FrameMachine
import EofVerifier.Proofs.ContainerRules
import EofVerifier.Proofs.SuiteCommand
import EofVerifier.Proofs.ListingRoundTrip
import EofVerifier.Proofs.FinalChecks
import EofVerifier.Proofs.InstructionReading
import EofVerifier.Proofs.RunPrefixes
import EofVerifier.Proofs.Rejections
import EofVerifier.Proofs.ByteOrder
import EofVerifier.Proofs.DepthFirst
import EofVerifier.Proofs.ReportEntries
import EofVerifier.Proofs.WalkHistory
import EofVerifier.Proofs.MalformedOperands
import EofVerifier.Proofs.EdgeAccounting
import EofVerifier.Proofs.SameEffects
import EofVerifier.Proofs.DeclaredHeight
import EofVerifier.Proofs.EventLog
import EofVerifier.Proofs.AssembledCode
import EofVerifier.Proofs.FaultLines
import EofVerifier.Proofs.Payloads
import EofVerifier.Proofs.ValidateCommand
import EofVerifier.Proofs.Expectations
import EofVerifier.Proofs.SignatureText
import EofVerifier.Proofs.SuiteFormat
import EofVerifier.Proofs.SuiteFiles
import EofVerifier.Proofs.ExactHeights
