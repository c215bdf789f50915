import ReleaseAudit.Fixture.Suite
import ReleaseAudit.Main
import ReleaseAudit.Proofs.Declarations.BodyEdit
import ReleaseAudit.Proofs.Declarations.Designation
import ReleaseAudit.Proofs.Declarations.Supertypes
import ReleaseAudit.Proofs.Inference.Designation
import ReleaseAudit.Proofs.Inference.ScopeAgreement
import ReleaseAudit.Proofs.Server.View
import ReleaseAudit.Proofs.Source.Receiver
import ReleaseAudit.Proofs.Verdict.BodyEdit
import ReleaseAudit.Proofs.Verdict.FileOrder
import ReleaseAudit.Proofs.Verdict.Monotone
import ReleaseAudit.Proofs.Verdict.Stream
import ReleaseAudit.Proofs.Verdict.Suppression
import ReleaseAudit.Proofs.Verdict.Chain
import ReleaseAudit.Proofs.Source.Argument
import ReleaseAudit.Proofs.Verdict.HandedBack
import ReleaseAudit.Proofs.Fixture.ByLine
import ReleaseAudit.Proofs.Fixture.Verification
import ReleaseAudit.Proofs.Inference.Visibility
import ReleaseAudit.Proofs.Verdict.HeaderUse
import ReleaseAudit.Proofs.Verdict.StoredLocal
import ReleaseAudit.Proofs.Source.Copy
import ReleaseAudit.Proofs.Source.Respelling
import ReleaseAudit.Proofs.Source.Twins
import ReleaseAudit.Proofs.Source.TwinAnswers
import ReleaseAudit.Proofs.Inference.Respelling
import ReleaseAudit.Proofs.Verdict.TwinRelease
import ReleaseAudit.Proofs.Verdict.TwinPlacement
import ReleaseAudit.Proofs.Verdict.Respelling
import ReleaseAudit.Proofs.Types.Bytes
import ReleaseAudit.Proofs.Types.Cursor
import ReleaseAudit.Proofs.Types.Spelling
import ReleaseAudit.Proofs.Declarations.Walks
import ReleaseAudit.Proofs.Fixture.Pairing
import ReleaseAudit.Proofs.Declarations.Members
import ReleaseAudit.Proofs.Declarations.ExtensionTable
import ReleaseAudit.Proofs.Declarations.Instantiation
import ReleaseAudit.Proofs.Inference.Instantiation
import ReleaseAudit.Proofs.Settings.Layers
import ReleaseAudit.Proofs.Inference.EnclosingEntry
import ReleaseAudit.Proofs.Report.Snippet
import ReleaseAudit.Proofs.Fixture.Statement
import ReleaseAudit.Proofs.Inference.Allowance
import ReleaseAudit.Proofs.Source.Header
import ReleaseAudit.Proofs.Verdict.Passing
