import ClosedSum.Main
import ClosedSum.NameTable
import ClosedSum.Proofs.Alike
import ClosedSum.Proofs.AlikeRuns
import ClosedSum.Proofs.Discipline
import ClosedSum.Proofs.Definition
import ClosedSum.Proofs.Dispatch
import ClosedSum.Proofs.Clauses
import ClosedSum.Proofs.Coverage
import ClosedSum.Proofs.SameWorld
import ClosedSum.Proofs.MatchSite
import ClosedSum.Proofs.GeneratedNames
import ClosedSum.Proofs.Derivation
import ClosedSum.Proofs.ParserSoundness
import ClosedSum.Proofs.ParserCompleteness
import ClosedSum.Proofs.Parsing
import ClosedSum.Proofs.Lowering
import ClosedSum.Proofs.QueueLaws
import ClosedSum.Proofs.Collecting
import ClosedSum.Proofs.ErrorGate
import ClosedSum.Proofs.DepthLimit
import ClosedSum.Proofs.Scanning
import ClosedSum.Proofs.AlikeMatches
import ClosedSum.Proofs.Changes
import ClosedSum.Proofs.AlikeModules
import ClosedSum.Proofs.AlikePrograms
import ClosedSum.Proofs.ChangedModules
import ClosedSum.Proofs.UnusedParameters
import ClosedSum.Proofs.LocalNames
import ClosedSum.Proofs.Spelling
import ClosedSum.Proofs.LoweringLogs
import ClosedSum.Proofs.GlobalNames
import ClosedSum.Proofs.ParserProgress
import ClosedSum.Proofs.Renumbering
import ClosedSum.Proofs.Isolation
import ClosedSum.Proofs.IsolatedSites
import ClosedSum.Proofs.GuardedRuns
import ClosedSum.Proofs.GuardedCalls
import ClosedSum.Proofs.Promotion
import ClosedSum.Proofs.Rearranging
import ClosedSum.Proofs.DeclarationOrder
import ClosedSum.Proofs.ParserPrefixes
import ClosedSum.Proofs.SteadyParsers
import ClosedSum.Proofs.Recovery
import ClosedSum.Proofs.InwardCalls
import ClosedSum.Proofs.CodeReader
import ClosedSum.Proofs.ReadBack
import ClosedSum.Proofs.PrintedBodies
import ClosedSum.Proofs.ClauseLists
import ClosedSum.Proofs.Stepping
import ClosedSum.Proofs.StepCases
import ClosedSum.Proofs.CallDepth
import ClosedSum.Proofs.Restoring
import ClosedSum.Proofs.Blocks
import ClosedSum.Proofs.DeclaredValues
import ClosedSum.Proofs.CaseFunctions
import ClosedSum.Proofs.DrawnNames
import ClosedSum.Proofs.FreeNames
import ClosedSum.Proofs.ParameterReports
import ClosedSum.Proofs.TokenSpans
import ClosedSum.Proofs.SpanReading
import ClosedSum.Proofs.ExactSpans
import ClosedSum.Proofs.LineTables
import ClosedSum.Proofs.QueueRuns
import ClosedSum.Proofs.QueueRepetitions
import ClosedSum.Proofs.Underlines
import ClosedSum.Proofs.Walks
import ClosedSum.Proofs.ParserWalks
import ClosedSum.Proofs.ParserTermination
import ClosedSum.Proofs.Positions
import ClosedSum.Proofs.Colors
import ClosedSum.Proofs.ScopeChains
import ClosedSum.Proofs.Environments
import ClosedSum.Proofs.ValueOrigins
import ClosedSum.Proofs.OperatorLaws
import ClosedSum.Proofs.NameWords
import ClosedSum.Proofs.NameTables
