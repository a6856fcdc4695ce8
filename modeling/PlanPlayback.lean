import PlanPlayback.CommandLine.Arguments
import PlanPlayback.CommandLine.Execution
import PlanPlayback.Console.Filter
import PlanPlayback.Console.Journal
import PlanPlayback.Console.Line
import PlanPlayback.Console.Quantity
import PlanPlayback.Console.Record
import PlanPlayback.Console.Style
import PlanPlayback.Decimal.Binary
import PlanPlayback.Decimal.Fixed
import PlanPlayback.Decimal.Numeral
import PlanPlayback.Decimal.Shortest
import PlanPlayback.Dialect
import PlanPlayback.Json.Document
import PlanPlayback.Main
import PlanPlayback.Numeric.Expression
import PlanPlayback.Numeric.Fluent
import PlanPlayback.Numeric.Key
import PlanPlayback.Numeric.TotalOrder
import PlanPlayback.Numeric.Update
import PlanPlayback.Pddl.Classification
import PlanPlayback.Pddl.Consistency
import PlanPlayback.Pddl.Domain
import PlanPlayback.Pddl.Issue
import PlanPlayback.Pddl.Literal
import PlanPlayback.Pddl.Problem
import PlanPlayback.Pddl.Sections
import PlanPlayback.Pddl.TypedList
import PlanPlayback.Pddl.Walk
import PlanPlayback.Plan.Basic
import PlanPlayback.Plan.Document
import PlanPlayback.Plan.Statistics
import PlanPlayback.Playback.Audience
import PlanPlayback.Playback.Clock
import PlanPlayback.Playback.Event
import PlanPlayback.Playback.Player
import PlanPlayback.Playback.Resolution
import PlanPlayback.Playback.Schedule
import PlanPlayback.Playback.Simulation
import PlanPlayback.Playback.Store
import PlanPlayback.Proofs.Binary64.Arithmetic
import PlanPlayback.Proofs.Binary64.Format
import PlanPlayback.Proofs.Binary64.Order
import PlanPlayback.Proofs.Binary64.Rounding
import PlanPlayback.Proofs.Playback.ClockBounds
import PlanPlayback.Proofs.Playback.Completion
import PlanPlayback.Proofs.Playback.Control
import PlanPlayback.Proofs.Playback.HighWater
import PlanPlayback.Proofs.Playback.Loading
import PlanPlayback.Proofs.Playback.Progress
import PlanPlayback.Proofs.Playback.Replay
import PlanPlayback.Proofs.Playback.Rewind
import PlanPlayback.Proofs.Playback.Visit
import PlanPlayback.Session
import PlanPlayback.Settings
import PlanPlayback.Settings.Node
import PlanPlayback.Settings.Toml
import PlanPlayback.Settings.Yaml
import PlanPlayback.Sexpr.Basic
import PlanPlayback.Sexpr.Reading
import PlanPlayback.Sexpr.Token
import PlanPlayback.Text.Blank
import PlanPlayback.Text.CharClass
import PlanPlayback.Text.Column
import PlanPlayback.Text.LetterCase
import PlanPlayback.Text.Scan
import PlanPlayback.Transcript.ActionLine
import PlanPlayback.Transcript.Cues
import PlanPlayback.Transcript.Lines
import PlanPlayback.Transcript.PlanReading
import PlanPlayback.Transcript.Report
import PlanPlayback.Transcript.SolutionFile
import PlanPlayback.Proofs.Playback.Clamping
import PlanPlayback.Proofs.Playback.FluentRange
import PlanPlayback.Proofs.Playback.ClockRange
import PlanPlayback.Proofs.Playback.Reports
import PlanPlayback.Proofs.Sexpr.Forest
import PlanPlayback.Proofs.Sexpr.Lexing
import PlanPlayback.Proofs.Sexpr.RoundTrip
import PlanPlayback.Proofs.Binary64.Bits
import PlanPlayback.Proofs.Decimal.Nearest
import PlanPlayback.Proofs.Decimal.Shortest
import PlanPlayback.Proofs.Text.Scanning
import PlanPlayback.Proofs.Decimal.Notation
import PlanPlayback.Proofs.Text.Words
import PlanPlayback.Proofs.Text.LowerCase
import PlanPlayback.Proofs.Text.Occurrence
import PlanPlayback.Proofs.Transcript.Printing
import PlanPlayback.Proofs.Transcript.BodyLines
import PlanPlayback.Proofs.Plan.Assembly
import PlanPlayback.Proofs.Transcript.Silence
import PlanPlayback.Proofs.Transcript.TemporalRoundTrip
import PlanPlayback.Proofs.Transcript.ClassicalRoundTrip
import PlanPlayback.Proofs.Transcript.NumericLine
import PlanPlayback.Proofs.Transcript.PlanSoundness
import PlanPlayback.Proofs.Playback.EffectSources
import PlanPlayback.Proofs.Playback.PlayedOut
import PlanPlayback.Proofs.Binary64.Absorption
import PlanPlayback.Proofs.Session
import PlanPlayback.Proofs.Playback.SimulationEnd
import PlanPlayback.Proofs.Transcript.SharedLines
import PlanPlayback.Proofs.Transcript.ReadersAgree
import PlanPlayback.Proofs.Playback.StoreView
import PlanPlayback.Proofs.Playback.Together
import PlanPlayback.Proofs.Playback.Growth
import PlanPlayback.Proofs.Playback.Targets
import PlanPlayback.Proofs.Playback.PlanPosition
import PlanPlayback.Proofs.Playback.UnboundVariables
import PlanPlayback.Proofs.Playback.Repetition
import PlanPlayback.Proofs.Playback.Ticking
import PlanPlayback.Proofs.Binary64.TotalOrder
import PlanPlayback.Proofs.Plan.Arrangement
import PlanPlayback.Proofs.Playback.FanOut
import PlanPlayback.Proofs.Sexpr.Conservation
import PlanPlayback.Proofs.Sexpr.RenderedParts
import PlanPlayback.Proofs.Pddl.Definition
import PlanPlayback.Proofs.Pddl.Declarations
import PlanPlayback.Proofs.Pddl.OperatorSource
import PlanPlayback.Proofs.Pddl.Calls
import PlanPlayback.Proofs.Pddl.NumericCues
import PlanPlayback.Proofs.Pddl.DurativeCues
import PlanPlayback.Proofs.Pddl.DeclarationOrder
import PlanPlayback.Proofs.Pddl.ExpressionText
import PlanPlayback.Proofs.Pddl.TypedLists
import PlanPlayback.Proofs.Pddl.WalkLeaves
import PlanPlayback.Proofs.Pddl.LiteralChecks
import PlanPlayback.Proofs.Pddl.TypeHierarchy
import PlanPlayback.Proofs.Pddl.Reports
import PlanPlayback.Proofs.Pddl.SkippedForms
import PlanPlayback.Proofs.Transcript.ScrapedNumbers
import PlanPlayback.Proofs.Sexpr.SinglePass
import PlanPlayback.Proofs.Transcript.LineReading
import PlanPlayback.Proofs.Transcript.CallsReadBack
import PlanPlayback.Proofs.Playback.Frames
import PlanPlayback.Proofs.Text.Lines
import PlanPlayback.Proofs.Pddl.Comments
import PlanPlayback.Proofs.Playback.GroundFluents
