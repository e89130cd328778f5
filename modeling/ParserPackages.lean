import ParserPackages.Main
import ParserPackages.Report.Description
import ParserPackages.Proofs.Keyed
import ParserPackages.Proofs.Ranked.StableSort
import ParserPackages.Proofs.Configuration.MergeLaw
import ParserPackages.Proofs.Configuration.Reached
import ParserPackages.Proofs.Parser.Extension
import ParserPackages.Proofs.Parser.History
import ParserPackages.Proofs.Script.Account
import ParserPackages.Proofs.Parser.Agreement
import ParserPackages.Proofs.Script.Agreement
import ParserPackages.Proofs.Parser.Rollback
import ParserPackages.Proofs.Parser.Calls
import ParserPackages.Proofs.Parser.Filters
import ParserPackages.Proofs.Parser.Selection
import ParserPackages.Proofs.Configuration.Lookup
import ParserPackages.Proofs.Parser.Indexing
import ParserPackages.Proofs.Parser.HookFree
import ParserPackages.Proofs.OptionTree.OverlayLaws
import ParserPackages.Proofs.OptionTree.Layers
import ParserPackages.Proofs.OptionTree.Paths
import ParserPackages.Proofs.Parser.AppendOnly
import ParserPackages.Proofs.Script.AppendOnly
import ParserPackages.Proofs.Parser.Joining
import ParserPackages.Proofs.Engine.OptionCalls
import ParserPackages.Proofs.Engine.Hooks
import ParserPackages.Proofs.Script.Served
import ParserPackages.Proofs.Parser.OptionStep
import ParserPackages.Proofs.Settings.Resolution
import ParserPackages.Proofs.Configuration.Kept
import ParserPackages.Proofs.Parser.Kept
import ParserPackages.Proofs.Parser.MergedOnce
import ParserPackages.Proofs.Configuration.Passes
import ParserPackages.Proofs.Package.WellNamed
import ParserPackages.Proofs.Configuration.WellNamed
import ParserPackages.Proofs.Parser.WellNamed
import ParserPackages.Proofs.Builtin.Library
import ParserPackages.Proofs.Builtin.Merging
import ParserPackages.Proofs.Builtin.Shadowing
import ParserPackages.Proofs.Registry.History
import ParserPackages.Proofs.Parser.EngineBlind
import ParserPackages.Proofs.Report.Difference
import ParserPackages.Proofs.Json.Compact
import ParserPackages.Proofs.OptionTree.Leaves
import ParserPackages.Proofs.Configuration.SummaryText
import ParserPackages.Proofs.OptionTree.Undeclared
import ParserPackages.Proofs.Configuration.Independence
import ParserPackages.Proofs.Json.Reading
import ParserPackages.Proofs.Parser.Requests
import ParserPackages.Proofs.Settings.Loading
import ParserPackages.Proofs.Configuration.PolicyLaws
import ParserPackages.Proofs.Ranked.Insertion
import ParserPackages.Proofs.Configuration.StepOrder
import ParserPackages.Proofs.Package.Calls
import ParserPackages.Proofs.OptionTree.LeafPaths
import ParserPackages.Proofs.Configuration.OptionLines
import ParserPackages.Proofs.Parser.CrossingOut
