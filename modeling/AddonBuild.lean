import AddonBuild.Binary64
import AddonBuild.Blake3
import AddonBuild.Build.Cleanup
import AddonBuild.Build.Contents
import AddonBuild.Build.Manifests
import AddonBuild.Build.Run
import AddonBuild.Command.Arguments
import AddonBuild.Command.Run
import AddonBuild.Config
import AddonBuild.Config.Parser
import AddonBuild.Disk.Access
import AddonBuild.Disk.Archive
import AddonBuild.Disk.Basic
import AddonBuild.Disk.Change
import AddonBuild.Disk.Listing
import AddonBuild.Disk.Output
import AddonBuild.Disk.Replace
import AddonBuild.Disk.Session
import AddonBuild.Document
import AddonBuild.Fault
import AddonBuild.Glob
import AddonBuild.Import.AliasTable
import AddonBuild.Import.Relocator
import AddonBuild.Import.Resolution
import AddonBuild.Json.Basic
import AddonBuild.Json.Decoder
import AddonBuild.Json.Fault
import AddonBuild.Json.Lexeme
import AddonBuild.Json.Parser
import AddonBuild.Json.Printer
import AddonBuild.Json.Relaxed
import AddonBuild.Json.Slices
import AddonBuild.Main
import AddonBuild.Path.Basic
import AddonBuild.Path.Clean
import AddonBuild.Path.Relative
import AddonBuild.Pattern
import AddonBuild.Project.Loading
import AddonBuild.Project.Manifest
import AddonBuild.Project.Module
import AddonBuild.Project.Pack
import AddonBuild.Project.Source
import AddonBuild.Script.Ends
import AddonBuild.Script.Lexeme
import AddonBuild.Script.Scanner
import AddonBuild.Script.Specifier
import AddonBuild.Selector
import AddonBuild.Text.Invisible
import AddonBuild.Text.Prefix
import AddonBuild.Text.Quoted
import AddonBuild.Tool
import AddonBuild.Uuid
import AddonBuild.Vendor.Closure
import AddonBuild.Vendor.Package
import AddonBuild.Vendor.Staging
import AddonBuild.Version
import AddonBuild.Proofs.Script.Encoding
import AddonBuild.Proofs.Script.Skipping
import AddonBuild.Proofs.Script.LookAhead
import AddonBuild.Proofs.Script.Places
import AddonBuild.Proofs.Script.Scanning
import AddonBuild.Proofs.Script.Statements
import AddonBuild.Proofs.Path.Segments
import AddonBuild.Proofs.Path.Cleaning
import AddonBuild.Proofs.Path.Specifier
import AddonBuild.Proofs.Import.Route
import AddonBuild.Proofs.Import.Denotation
import AddonBuild.Proofs.Import.Moving
import AddonBuild.Proofs.Script.Replacing
import AddonBuild.Proofs.Import.Splicing
import AddonBuild.Proofs.Path.Filling
import AddonBuild.Proofs.Import.Lookup
import AddonBuild.Proofs.Steps
import AddonBuild.Proofs.Vendor.Exports
import AddonBuild.Proofs.Disk.Locating
import AddonBuild.Proofs.Vendor.Visiting
import AddonBuild.Proofs.Vendor.Dependencies
import AddonBuild.Proofs.Vendor.Needs
import AddonBuild.Proofs.Vendor.Reordering
import AddonBuild.Proofs.Disk.Changing
import AddonBuild.Proofs.Disk.Writing
import AddonBuild.Proofs.Import.Asking
import AddonBuild.Proofs.Vendor.Schedules
import AddonBuild.Proofs.Vendor.Interleaving
import AddonBuild.Proofs.Disk.Agreement
import AddonBuild.Proofs.Vendor.Independence
import AddonBuild.Proofs.Json.Relaxing
import AddonBuild.Proofs.Vendor.Trees
import AddonBuild.Proofs.Build.Manifests
import AddonBuild.Proofs.Script.Enclosing
import AddonBuild.Proofs.Import.Patching
import AddonBuild.Proofs.Import.Deciding
import AddonBuild.Proofs.Import.Files
import AddonBuild.Proofs.Pattern.Matching
import AddonBuild.Proofs.Path.RoundTrip
import AddonBuild.Proofs.Build.Containment
import AddonBuild.Proofs.Build.Rebuilding
import AddonBuild.Proofs.Import.Recording
import AddonBuild.Proofs.Build.Sparing
import AddonBuild.Proofs.Disk.Replacing
import AddonBuild.Proofs.Json.Slicing
import AddonBuild.Proofs.Json.Merging
import AddonBuild.Proofs.Build.Inputs
import AddonBuild.Proofs.Path.Ahead
import AddonBuild.Proofs.Script.Quoting
import AddonBuild.Proofs.Import.Quoting
import AddonBuild.Proofs.Json.Keys
import AddonBuild.Proofs.Project.Layering
import AddonBuild.Proofs.Vendor.Calls
import AddonBuild.Proofs.Vendor.Subpaths
import AddonBuild.Proofs.Json.Skimming
import AddonBuild.Proofs.Json.Checking
import AddonBuild.Proofs.Script.Shifts
import AddonBuild.Proofs.Script.Blanks
import AddonBuild.Proofs.Script.Templates
import AddonBuild.Proofs.Path.Climbing
import AddonBuild.Proofs.Vendor.Nearest
import AddonBuild.Proofs.Build.Sweeping
