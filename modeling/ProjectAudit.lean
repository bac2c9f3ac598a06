import ProjectAudit.Audit.MetadataRecords
import ProjectAudit.Main
import ProjectAudit.Proofs.Audit.ChecklistLayout
import ProjectAudit.Proofs.Audit.Filtering
import ProjectAudit.Proofs.Audit.MetadataQuery
import ProjectAudit.Proofs.Audit.UpwardSearch
import ProjectAudit.Proofs.Cargo.DiagnosticLines
import ProjectAudit.Proofs.Cargo.Levels
import ProjectAudit.Proofs.Cargo.Messages
import ProjectAudit.Proofs.Cargo.Packages
import ProjectAudit.Proofs.Cargo.Totals
import ProjectAudit.Proofs.Cargo.Workspace
import ProjectAudit.Proofs.CommandLine.EntryPoints
import ProjectAudit.Proofs.CommandLine.Listing
import ProjectAudit.Proofs.CommandLine.NearestChecklist
import ProjectAudit.Proofs.CommandLine.Recursion
import ProjectAudit.Proofs.CommandLine.Verbosity
import ProjectAudit.Proofs.CommandLine.Views
import ProjectAudit.Proofs.Evaluation.Independence
import ProjectAudit.Proofs.Evaluation.Keyed
import ProjectAudit.Proofs.Evaluation.OwnEntries
import ProjectAudit.Proofs.Evaluation.ReadBack
import ProjectAudit.Proofs.Evaluation.WithoutMetadata
import ProjectAudit.Proofs.Outcome.Combining
import ProjectAudit.Proofs.Rules.Faults
import ProjectAudit.Proofs.Rules.Integrating
import ProjectAudit.Proofs.Rules.Libraries
import ProjectAudit.Proofs.Rules.OwnSettings
import ProjectAudit.Proofs.Rules.Searching
import ProjectAudit.Proofs.Rules.TestRuns
import ProjectAudit.Proofs.Rules.Versioning
import ProjectAudit.Proofs.Settings.Entries
import ProjectAudit.Proofs.Settings.Layouts
import ProjectAudit.Rules.Registry
