import RegionScope.Main
import RegionScope.Proofs.Tree.Ancestry
import RegionScope.Proofs.Tree.Descent
import RegionScope.Proofs.Text.Lines
import RegionScope.Proofs.Source.Tokens
import RegionScope.Proofs.Source.Frontier
import RegionScope.Proofs.Source.RightEdge
import RegionScope.Proofs.Source.DirectiveOrder
import RegionScope.Proofs.Source.Bodies
import RegionScope.Proofs.Brackets
import RegionScope.Proofs.Source.Braces
import RegionScope.Proofs.Tree.Owners
import RegionScope.Proofs.Source.Enclosures
import RegionScope.Proofs.Source.Placement
import RegionScope.Proofs.Directive.Groups
import RegionScope.Proofs.Directive.GroupOrder
import RegionScope.Proofs.Directive.RegionPairs
import RegionScope.Proofs.Lint.RegionReports
import RegionScope.Proofs.Directive.Unpaired
import RegionScope.Proofs.Lint.PairingReports
import RegionScope.Proofs.Source.Extents
import RegionScope.Proofs.Source.Edits
import RegionScope.Proofs.Source.Scans
import RegionScope.Proofs.Source.Fillings
import RegionScope.Proofs.Source.Overwriting
import RegionScope.Proofs.Lint.MarkerReports
import RegionScope.Proofs.Lint.OverwrittenDirectives
import RegionScope.Proofs.Source.Sketch
import RegionScope.Proofs.Source.SketchRuns
import RegionScope.Proofs.Source.Nesting
import RegionScope.Proofs.Source.NestingSites
import RegionScope.Proofs.Lint.AddedNesting
import RegionScope.Proofs.Lint.Selection
import RegionScope.Proofs.Source.Closers
import RegionScope.Proofs.StableSort
import RegionScope.Proofs.Tables
import RegionScope.Proofs.Source.TextEnds
import RegionScope.Proofs.Source.Raising
import RegionScope.Proofs.Source.Seams
import RegionScope.Proofs.Directive.Concatenation
import RegionScope.Proofs.Lint.Concatenation
import RegionScope.Proofs.Source.LiteralEnds
import RegionScope.Proofs.Source.CallDepths
import RegionScope.Proofs.Source.CheckedLiterals
import RegionScope.Proofs.Source.StatementKeywords
import RegionScope.Proofs.Source.CheckedScan
import RegionScope.Proofs.Source.NestedLiterals
import RegionScope.Proofs.Source.VerbatimStrings
import RegionScope.Proofs.Source.EscapedNewlines
import RegionScope.Proofs.Directive.GroupMembers
import RegionScope.Proofs.Directive.Matching
import RegionScope.Proofs.Tree.DirectiveGroups
import RegionScope.Proofs.Lint.RelatedDirectives
import RegionScope.Proofs.Lint.RegistryCalls
import RegionScope.Proofs.CommandLine.AddedFlags
import RegionScope.Proofs.CommandLine.Hosts
import RegionScope.Proofs.CommandLine.OutputModes
import RegionScope.Proofs.Tree.CommonBody
import RegionScope.Proofs.Lint.SelectedRules
import RegionScope.Proofs.Files.SourceSearch
import RegionScope.Proofs.Source.ParenDepth
import RegionScope.Proofs.Source.HeaderExtents
import RegionScope.Proofs.Source.RawStrings
import RegionScope.Proofs.Tree.Siblings
import RegionScope.Proofs.Source.ChildOrder
import RegionScope.Proofs.Source.HeaderWords
import RegionScope.Proofs.Source.TupleTypes
import RegionScope.Proofs.Lint.RuleInputs
import RegionScope.Proofs.Lint.SourceEncodings
import RegionScope.Proofs.Text.Trimmed
import RegionScope.Proofs.Source.ConstraintClauses
import RegionScope.Proofs.Source.AttributeLists
import RegionScope.Proofs.Directive.Names
import RegionScope.Proofs.Source.LineStarts
import RegionScope.Proofs.Source.WrittenDirectives
import RegionScope.Proofs.Json.Members
import RegionScope.Proofs.SettingsFile
import RegionScope.Proofs.Tree.Walks
import RegionScope.Proofs.Text.NewlineIndex
import RegionScope.Proofs.Source.NodeLines
