import BuildGraph.File.Operation
import BuildGraph.Files.Directory
import BuildGraph.Main
import BuildGraph.Ninja.Stream
import BuildGraph.Ninja.Emission
import BuildGraph.Shell.Split
import BuildGraph.Proofs.Marks
import BuildGraph.Proofs.Written
import BuildGraph.Proofs.Spelling
import BuildGraph.Proofs.Pieces
import BuildGraph.Proofs.CommandWords
import BuildGraph.Proofs.Conversion
import BuildGraph.Proofs.Declarations
import BuildGraph.Proofs.Consistency
import BuildGraph.Proofs.Rendering
import BuildGraph.Proofs.Streaming
import BuildGraph.Proofs.LineReader
import BuildGraph.Proofs.BuildLine
import BuildGraph.Proofs.Lines
import BuildGraph.Proofs.Blocks
import BuildGraph.Proofs.Statements
import BuildGraph.Proofs.References
import BuildGraph.Proofs.SharedEntries
import BuildGraph.Proofs.Runs
import BuildGraph.Proofs.FirstDeclarations
import BuildGraph.Proofs.VersionOrder
import BuildGraph.Proofs.RequiredVersion
import BuildGraph.Proofs.CommandEdges
import BuildGraph.Proofs.CollapsedCommands
import BuildGraph.Plan.Canonical
import BuildGraph.Proofs.VersionText
import BuildGraph.Proofs.CanonicalNodes
import BuildGraph.Proofs.CanonicalPlans
import BuildGraph.Proofs.AppliedPlans
import BuildGraph.Proofs.PlanTools
import BuildGraph.Proofs.PlanVariables
import BuildGraph.Proofs.Directories
import BuildGraph.Proofs.WholeRuns
import BuildGraph.Proofs.UnescapedQuotes
import BuildGraph.Proofs.SplicedRoots
import BuildGraph.Proofs.OutputTexts
import BuildGraph.Proofs.Header
import BuildGraph.Proofs.PlanNodes
import BuildGraph.Proofs.NodeForms
import BuildGraph.Proofs.KnownKeys
import BuildGraph.Proofs.ToolVariables
import BuildGraph.Proofs.ToolCalls
import BuildGraph.Proofs.RejectedEdges
import BuildGraph.Proofs.RejectedPlans
import BuildGraph.Proofs.Texts
import BuildGraph.Proofs.EdgeOutcomes
import BuildGraph.Proofs.CheckedWriting
import BuildGraph.Proofs.Envelopes
import BuildGraph.Proofs.DependencyFiles
import BuildGraph.Proofs.QuotedWords
import BuildGraph.Proofs.FlatFragments
import BuildGraph.Proofs.Places
import BuildGraph.Proofs.BareFragments
import BuildGraph.Proofs.DisplayedPaths
