import Triage.Capabilities
import Triage.Cloud
import Triage.Cloud.Exchange
import Triage.Cloud.Signature
import Triage.CommandLine
import Triage.CommandLine.Help
import Triage.Commands
import Triage.Config
import Triage.Config.Environment
import Triage.Config.Validation
import Triage.Content
import Triage.Detection
import Triage.Document
import Triage.Failure
import Triage.FileSystem.Change
import Triage.FileSystem.Difference
import Triage.FileSystem.Lookup
import Triage.FileSystem.Node
import Triage.FileSystem.Path
import Triage.Finding
import Triage.Fingerprint
import Triage.Formats
import Triage.Glob
import Triage.Ignore
import Triage.ItemId
import Triage.Log
import Triage.Machine
import Triage.Main
import Triage.Manifest
import Triage.Manifest.Dependency
import Triage.Manifest.PackageJson
import Triage.Manifest.Pipfile
import Triage.Manifest.Pyproject
import Triage.Manifest.Requirements
import Triage.Pass
import Triage.Pass.Cloud
import Triage.Pass.Dependencies
import Triage.Pass.External
import Triage.Pass.Phases
import Triage.Phase
import Triage.Pool
import Triage.Privilege
import Triage.Program
import Triage.Proofs.AcceptedNames
import Triage.Proofs.Arrangements
import Triage.Proofs.Batch
import Triage.Proofs.Calendar
import Triage.Proofs.CapabilityBlocks
import Triage.Proofs.Capture
import Triage.Proofs.Comparison
import Triage.Proofs.ConfigNormalForm
import Triage.Proofs.Descriptors
import Triage.Proofs.DetectionAccount
import Triage.Proofs.Digits
import Triage.Proofs.Draft
import Triage.Proofs.Eligibility
import Triage.Proofs.ExitStatus
import Triage.Proofs.FileSystem.Agreement
import Triage.Proofs.FileSystem.Following
import Triage.Proofs.FileSystem.Making
import Triage.Proofs.FileSystem.Moving
import Triage.Proofs.FileSystem.Path
import Triage.Proofs.FileSystem.Tree
import Triage.Proofs.FileSystem.Ways
import Triage.Proofs.FindingOrder
import Triage.Proofs.Fingerprint
import Triage.Proofs.Footer
import Triage.Proofs.GeneratedIds
import Triage.Proofs.IgnoreFile
import Triage.Proofs.IgnoreRules
import Triage.Proofs.InlineTables
import Triage.Proofs.Interleaving
import Triage.Proofs.Isolation
import Triage.Proofs.LineFindings
import Triage.Proofs.LineSearch
import Triage.Proofs.Lines
import Triage.Proofs.ManifestLines
import Triage.Proofs.Order
import Triage.Proofs.OrderIndependence
import Triage.Proofs.ParsedCommands
import Triage.Proofs.PipfileTables
import Triage.Proofs.Pool
import Triage.Proofs.Quarantine.Alone
import Triage.Proofs.Quarantine.Calls
import Triage.Proofs.Quarantine.Candidates
import Triage.Proofs.Quarantine.Catalogue
import Triage.Proofs.Quarantine.Claims
import Triage.Proofs.Quarantine.Containment
import Triage.Proofs.Quarantine.Creation
import Triage.Proofs.Quarantine.Crossing
import Triage.Proofs.Quarantine.FailedCreation
import Triage.Proofs.Quarantine.Failure
import Triage.Proofs.Quarantine.FirstFree
import Triage.Proofs.Quarantine.Handout
import Triage.Proofs.Quarantine.Mutations
import Triage.Proofs.Quarantine.NewItem
import Triage.Proofs.Quarantine.Race
import Triage.Proofs.Quarantine.Rejection
import Triage.Proofs.Quarantine.Serial
import Triage.Proofs.Quarantine.Settling
import Triage.Proofs.Quarantine.Steady
import Triage.Proofs.Quarantine.Steps
import Triage.Proofs.Quarantine.Stock
import Triage.Proofs.Quarantine.Turns
import Triage.Proofs.Ranking
import Triage.Proofs.Regex.Acceptance
import Triage.Proofs.Regex.Reading
import Triage.Proofs.Regex.Search
import Triage.Proofs.Regex.Whole
import Triage.Proofs.Regex.Window
import Triage.Proofs.ReportPaths
import Triage.Proofs.RequirementArray
import Triage.Proofs.RequirementLine
import Triage.Proofs.Score
import Triage.Proofs.SearchPath
import Triage.Proofs.Selection
import Triage.Proofs.ShippedRules
import Triage.Proofs.Signatures
import Triage.Proofs.SkipNotes
import Triage.Proofs.Slug
import Triage.Proofs.Snippet
import Triage.Proofs.SourceGrammar
import Triage.Proofs.Tally
import Triage.Proofs.Text
import Triage.Proofs.TimeForms
import Triage.Proofs.ToolIsolation
import Triage.Proofs.UnpinnedFindings
import Triage.Proofs.Utf8
import Triage.Proofs.VerdictGate
import Triage.Proofs.Walk
import Triage.Provenance
import Triage.Quarantine
import Triage.Quarantine.Description
import Triage.Quarantine.Error
import Triage.Quarantine.Step
import Triage.Regex.Match
import Triage.Regex.Pattern
import Triage.Regex.Syntax
import Triage.Report
import Triage.Report.Comparison
import Triage.Report.Draft
import Triage.Report.Rendering
import Triage.Report.Storage
import Triage.Rule
import Triage.Rule.Search
import Triage.Rule.Table
import Triage.Scan
import Triage.Score
import Triage.Session
import Triage.Severity
import Triage.Sha256
import Triage.Shell
import Triage.Shell.Reading
import Triage.Shell.Syntax
import Triage.Shell.Utility
import Triage.Source
import Triage.Subprocess
import Triage.Text
import Triage.Time
import Triage.Token
import Triage.Tool
import Triage.Tool.Adapter
import Triage.Walk
