import DenoPackager.Build
import DenoPackager.CommandLine.Arguments
import DenoPackager.CommandLine.Run
import DenoPackager.Compiler.Diagnostic
import DenoPackager.Compiler.Emit
import DenoPackager.Compiler.Options
import DenoPackager.Compiler.Output
import DenoPackager.Compiler.Project
import DenoPackager.Compiler.Run
import DenoPackager.Compiler.Target
import DenoPackager.Configuration.Basic
import DenoPackager.Configuration.Options
import DenoPackager.Configuration.Source
import DenoPackager.Console
import DenoPackager.Discovery
import DenoPackager.Emission
import DenoPackager.EntryPoint
import DenoPackager.Failure
import DenoPackager.FileTree.Basic
import DenoPackager.FileTree.Branch
import DenoPackager.FileTree.Change
import DenoPackager.FileTree.Locate
import DenoPackager.Glob.Braces
import DenoPackager.Glob.Match
import DenoPackager.Glob.Name
import DenoPackager.Glob.Search
import DenoPackager.Json.Basic
import DenoPackager.Json.Display
import DenoPackager.Json.Equality
import DenoPackager.Json.Escape
import DenoPackager.Json.Key
import DenoPackager.Json.Parts
import DenoPackager.Json.Printer
import DenoPackager.Json.Reader
import DenoPackager.Json.Token
import DenoPackager.Main
import DenoPackager.Manifest
import DenoPackager.Number.Binary64
import DenoPackager.Number.Layout
import DenoPackager.Number.Shortest
import DenoPackager.Path.Basic
import DenoPackager.Path.Normal
import DenoPackager.Path.Order
import DenoPackager.Policy
import DenoPackager.Proofs.Basics.Braces
import DenoPackager.Proofs.Basics.Repetition
import DenoPackager.Proofs.Confinement.Denial
import DenoPackager.Proofs.Confinement.Location
import DenoPackager.Proofs.Confinement.Plain
import DenoPackager.Proofs.Confinement.Undenied
import DenoPackager.Proofs.Confinement.Waypoints
import DenoPackager.Proofs.Confinement.Writes
import DenoPackager.Proofs.Course.Commands
import DenoPackager.Proofs.Course.Compile
import DenoPackager.Proofs.Course.Deed
import DenoPackager.Proofs.Course.Installation
import DenoPackager.Proofs.Course.Order
import DenoPackager.Proofs.Course.Passes
import DenoPackager.Proofs.Course.Quiet
import DenoPackager.Proofs.Course.Settings
import DenoPackager.Proofs.Course.Stages
import DenoPackager.Proofs.Exit.Compiler
import DenoPackager.Proofs.Exit.Reading
import DenoPackager.Proofs.Exit.Throws
import DenoPackager.Proofs.Exit.Unnoticed
import DenoPackager.Proofs.Files.CleanUp
import DenoPackager.Proofs.Files.Emission
import DenoPackager.Proofs.Files.Exports
import DenoPackager.Proofs.Files.Members
import DenoPackager.Proofs.Files.Package
import DenoPackager.Proofs.Files.Placement
import DenoPackager.Proofs.Files.Removal
import DenoPackager.Proofs.Files.Run
import DenoPackager.Proofs.Files.Staging
import DenoPackager.Proofs.Files.Touch
import DenoPackager.Proofs.Files.Tree
import DenoPackager.Proofs.Globs.Discovery
import DenoPackager.Proofs.Globs.Expansion
import DenoPackager.Proofs.Globs.Grammar
import DenoPackager.Proofs.Globs.Rearrangement
import DenoPackager.Proofs.Globs.Selection
import DenoPackager.Proofs.Globs.Selectors
import DenoPackager.Proofs.Links.Apart
import DenoPackager.Proofs.Links.Destination
import DenoPackager.Proofs.Links.Kept
import DenoPackager.Proofs.Links.Launcher
import DenoPackager.Proofs.Links.Meeting
import DenoPackager.Proofs.Links.Phrases
import DenoPackager.Proofs.Links.Reports
import DenoPackager.Proofs.Links.Routing
import DenoPackager.Proofs.Links.Way
import DenoPackager.Proofs.Manifest.Derived
import DenoPackager.Proofs.Manifest.Lookup
import DenoPackager.Proofs.Manifest.Merging
import DenoPackager.Proofs.Manifest.Ranges
import DenoPackager.Proofs.Manifest.Sharing
import DenoPackager.Proofs.Manifest.Subpaths
import DenoPackager.Proofs.Manifest.Tables
import DenoPackager.Proofs.Memory.Forgetting
import DenoPackager.Proofs.Memory.Requests
import DenoPackager.Proofs.Modules.Collect
import DenoPackager.Proofs.Modules.Partition
import DenoPackager.Proofs.Modules.Walk
import DenoPackager.Proofs.Paths.Endings
import DenoPackager.Proofs.Paths.Stem
import DenoPackager.Proofs.Paths.Text
import DenoPackager.Proofs.Printed.Heading
import DenoPackager.Proofs.Printed.Launcher
import DenoPackager.Proofs.Printed.Literals
import DenoPackager.Proofs.Printed.RoundTrip
import DenoPackager.Proofs.Rebuild.Finding
import DenoPackager.Proofs.Rebuild.Finish
import DenoPackager.Proofs.Rebuild.Idempotence
import DenoPackager.Proofs.Rebuild.Overlay
import DenoPackager.Proofs.Rebuild.Package
import DenoPackager.Proofs.Rebuild.Preparation
import DenoPackager.Proofs.Rebuild.Programs
import DenoPackager.Proofs.Rebuild.Redo
import DenoPackager.Proofs.Rebuild.Stages
import DenoPackager.Proofs.Relay.Room
import DenoPackager.Proofs.Relay.Texts
import DenoPackager.Proofs.Reported.CommandLine
import DenoPackager.Proofs.Reported.Configuration
import DenoPackager.Proofs.Reported.Loading
import DenoPackager.Proofs.Script.Automaton
import DenoPackager.Proofs.Script.Contents
import DenoPackager.Proofs.Script.Ending
import DenoPackager.Proofs.Script.Grammar
import DenoPackager.Proofs.Script.Literals
import DenoPackager.Proofs.Script.MetaAccess
import DenoPackager.Proofs.Script.MetaReplaced
import DenoPackager.Proofs.Script.MetaStable
import DenoPackager.Proofs.Script.Parts
import DenoPackager.Proofs.Script.Phrases
import DenoPackager.Proofs.Script.References
import DenoPackager.Proofs.Script.ReferencesStable
import DenoPackager.Proofs.Script.RegularExpressions
import DenoPackager.Proofs.Script.Relex
import DenoPackager.Proofs.Script.Segments
import DenoPackager.Proofs.Trace.Compiler
import DenoPackager.Proofs.Trace.Faithful
import DenoPackager.Proofs.Trace.Refusal
import DenoPackager.Proofs.Trace.Within
import DenoPackager.Source.ImportMeta
import DenoPackager.Source.Namespace
import DenoPackager.Source.Segment
import DenoPackager.Source.Specifier
import DenoPackager.TestLauncher
import DenoPackager.Text.Blank
import DenoPackager.Text.Digit
import DenoPackager.Text.Extension
import DenoPackager.Text.Pieces
import DenoPackager.Text.Printable
import DenoPackager.Text.Search
import DenoPackager.Text.Table
import DenoPackager.Text.Word
import DenoPackager.Tools
import DenoPackager.Transform.Adapt
import DenoPackager.Transform.Layout
import DenoPackager.Transform.Output
import DenoPackager.Transform.Walk
import DenoPackager.Workspace.Action
import DenoPackager.Workspace.Event
import DenoPackager.Writer
