import BoundaryTypes.Main
import BoundaryTypes.Proofs.DeclarationFile.Acceptance
import BoundaryTypes.Proofs.DeclarationFile.Capture
import BoundaryTypes.Proofs.DeclarationFile.Chains
import BoundaryTypes.Proofs.DeclarationFile.Closed
import BoundaryTypes.Proofs.DeclarationFile.Nesting
import BoundaryTypes.Proofs.DeclarationFile.Order
import BoundaryTypes.Proofs.DeclarationFile.Writing
import BoundaryTypes.Proofs.Descriptor.RoundTrip
import BoundaryTypes.Proofs.Extraction.Readers
import BoundaryTypes.Proofs.TypeExpr.Quotation
import BoundaryTypes.Proofs.Session.References
import BoundaryTypes.Proofs.Disk.Places
import BoundaryTypes.Proofs.Disk.Replacement
import BoundaryTypes.Proofs.Run.Reading
import BoundaryTypes.Proofs.Run.Failing
import BoundaryTypes.Proofs.Disk.Completion
import BoundaryTypes.Proofs.Run.Wholesale
import BoundaryTypes.Proofs.Translator.Failures
import BoundaryTypes.Proofs.Routes
import BoundaryTypes.Proofs.TypeExpr.Shorthand
import BoundaryTypes.Proofs.Run.Repetition
import BoundaryTypes.Proofs.Service.Agreement
import BoundaryTypes.Proofs.Settings.Acceptance
import BoundaryTypes.Proofs.Diff.Usable
import BoundaryTypes.Proofs.Run.Override
import BoundaryTypes.Proofs.CommandLine.Logging
