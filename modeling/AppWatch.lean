import AppWatch.Api.Client
import AppWatch.Batch
import AppWatch.Json.Printer
import AppWatch.Json.Reader
import AppWatch.KindCache
import AppWatch.Main
import AppWatch.Rehearsal
import AppWatch.Rehearsal.Files
import AppWatch.Rehearsal.Server
import AppWatch.Proofs.Ancestors
import AppWatch.Proofs.Windows
import AppWatch.Proofs.Cache
import AppWatch.Proofs.FormerAncestors
import AppWatch.Proofs.Snapshot
import AppWatch.Proofs.Growth
import AppWatch.Proofs.Outcomes
import AppWatch.Proofs.Moves
import AppWatch.Proofs.Chains
import AppWatch.Proofs.Recompute
import AppWatch.Proofs.ChangeLog
import AppWatch.Proofs.Waits
import AppWatch.Proofs.Openings
import AppWatch.Proofs.Permissions
import AppWatch.Proofs.Isolation
import AppWatch.Proofs.Coverage
import AppWatch.Proofs.Intake
import AppWatch.Proofs.Conservation
import AppWatch.Proofs.Provenance
import AppWatch.Proofs.Confinement
import AppWatch.Proofs.Restriction
import AppWatch.Proofs.Shipments
import AppWatch.Proofs.Versions
import AppWatch.Proofs.Conveyance
import AppWatch.Proofs.SnapshotOrder
import AppWatch.Proofs.Handling
import AppWatch.Proofs.Contents
import AppWatch.Proofs.Reports
import AppWatch.Proofs.Pledges
import AppWatch.Proofs.Dispatch
import AppWatch.Proofs.ObjectKeys
import AppWatch.Proofs.Relisting
import AppWatch.Proofs.Stopping
import AppWatch.Proofs.Membership
import AppWatch.Proofs.Updates
import AppWatch.Proofs.Interleaving
import AppWatch.Proofs.Groups
import AppWatch.Proofs.Ascent
import AppWatch.Proofs.Accumulation
import AppWatch.Proofs.Questions
import AppWatch.Proofs.FailedStarts
import AppWatch.Proofs.Discoveries
import AppWatch.Proofs.PermissionHistory
import AppWatch.Proofs.Declarations
import AppWatch.Proofs.Layers
import AppWatch.Proofs.Timing
import AppWatch.Proofs.Readers
import AppWatch.Proofs.StreamReports
import AppWatch.Proofs.Readings
import AppWatch.Proofs.Coalescing
import AppWatch.Proofs.KeyTexts
import AppWatch.Proofs.Identities
