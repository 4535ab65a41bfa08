import RouteScript.Channel
import RouteScript.ClassTable
import RouteScript.CommandLine
import RouteScript.Decimal.Dyadic
import RouteScript.Decimal.Layout
import RouteScript.Decimal.Numeral
import RouteScript.Decimal.Shortest
import RouteScript.Dict
import RouteScript.Dispatch
import RouteScript.Eval.Builtin
import RouteScript.Eval.Call
import RouteScript.Eval.Evaluator
import RouteScript.Eval.Expression
import RouteScript.Eval.Perform
import RouteScript.Eval.Statement
import RouteScript.Eval.Target
import RouteScript.Fault
import RouteScript.File.Path
import RouteScript.File.Tree
import RouteScript.Interpreter
import RouteScript.Json.Basic
import RouteScript.Json.Number
import RouteScript.Json.Reader
import RouteScript.Json.Writer
import RouteScript.Main
import RouteScript.Proofs.Syntax.Climbing
import RouteScript.Proofs.Syntax.Coverage
import RouteScript.Proofs.Syntax.ExpressionReads
import RouteScript.Proofs.Syntax.Fragment
import RouteScript.Proofs.Syntax.Reads
import RouteScript.Proofs.Syntax.RoundTrip
import RouteScript.Proofs.Syntax.StatementReads
import RouteScript.Proofs.Syntax.Tree
import RouteScript.Proofs.Syntax.Written
import RouteScript.Route
import RouteScript.Scope
import RouteScript.Service.Argument
import RouteScript.Service.Call
import RouteScript.Service.Collection
import RouteScript.Service.Math
import RouteScript.Service.Router
import RouteScript.Service.System
import RouteScript.Service.Web
import RouteScript.Settings.Basic
import RouteScript.Settings.EnvFile
import RouteScript.Settings.Load
import RouteScript.Syntax.Basic
import RouteScript.Syntax.Cursor
import RouteScript.Syntax.Diagnostic
import RouteScript.Syntax.Expression
import RouteScript.Syntax.Level
import RouteScript.Syntax.Outline
import RouteScript.Syntax.Parse
import RouteScript.Syntax.Program
import RouteScript.Syntax.Statement
import RouteScript.Task.Machine
import RouteScript.Task.Schedule
import RouteScript.Task.Script
import RouteScript.Task.Signal
import RouteScript.Task.Store
import RouteScript.Text.Ascii
import RouteScript.Text.Blank
import RouteScript.Text.Printable
import RouteScript.Text.Quoted
import RouteScript.Text.Split
import RouteScript.Token.Basic
import RouteScript.Token.Lexer
import RouteScript.Toml.Basic
import RouteScript.Toml.Lexeme
import RouteScript.Toml.Reader
import RouteScript.Value.Basic
import RouteScript.Value.Builtin
import RouteScript.Value.Display
import RouteScript.Value.Element
import RouteScript.Value.Format
import RouteScript.Value.Json
import RouteScript.Value.Operators
import RouteScript.Value.Tag
import RouteScript.Proofs.Syntax.Placement
import RouteScript.Proofs.Token.Spelling
import RouteScript.Proofs.Syntax.Spelled
import RouteScript.Proofs.Eval.Rule
import RouteScript.Proofs.Eval.ServiceRules
import RouteScript.Proofs.Eval.EvaluatorRules
import RouteScript.Proofs.Eval.Frames
import RouteScript.Proofs.Eval.Agreement
import RouteScript.Proofs.Eval.Calls
import RouteScript.Proofs.ClassTable.Ancestry
import RouteScript.Proofs.ClassTable.Links
import RouteScript.Proofs.ClassTable.Descent
import RouteScript.Proofs.Dict
import RouteScript.Proofs.Scope.Fork
import RouteScript.Proofs.Scope.Types
import RouteScript.Proofs.Eval.Variables
import RouteScript.Proofs.Eval.DeclaredTypes
import RouteScript.Proofs.Channel.Conservation
import RouteScript.Proofs.Syntax.Recovery
import RouteScript.Proofs.Syntax.Resumption
import RouteScript.Proofs.Syntax.FaultOrder
import RouteScript.Proofs.Token.Tiling
import RouteScript.Proofs.Eval.Parts
import RouteScript.Proofs.Eval.Policy
import RouteScript.Proofs.Eval.Flow
import RouteScript.Proofs.Eval.FlowServices
import RouteScript.Proofs.Eval.FlowEvaluator
import RouteScript.Proofs.Eval.Halting
import RouteScript.Proofs.Eval.Termination
import RouteScript.Proofs.Eval.Coupling
import RouteScript.Proofs.Eval.Loading
import RouteScript.Proofs.Eval.Construction
import RouteScript.Proofs.Route.History
import RouteScript.Proofs.Route.Captures
import RouteScript.Proofs.Route.Gate
import RouteScript.Proofs.Eval.Hosted
import RouteScript.Proofs.Eval.Settling
import RouteScript.Proofs.Route.Group
import RouteScript.Proofs.Eval.Refusal
import RouteScript.Proofs.Token.Rendering
import RouteScript.Proofs.Token.Lines
import RouteScript.Proofs.Eval.Targets
import RouteScript.Proofs.Session.Journal
import RouteScript.Proofs.Session.Realm
import RouteScript.Proofs.Session.Bags
import RouteScript.Proofs.Session.Mirror
import RouteScript.Proofs.Session.MirrorServices
import RouteScript.Proofs.Session.MirrorEvaluator
import RouteScript.Proofs.Session.MirrorSchedule
import RouteScript.Proofs.Session.WriteBack
import RouteScript.Proofs.Eval.Levels
import RouteScript.Proofs.Scope.Bindings
import RouteScript.Proofs.Eval.PathReads
import RouteScript.Proofs.Eval.PathWrites
import RouteScript.Proofs.Eval.ElementWrites
import RouteScript.Proofs.Eval.ReadBack
import RouteScript.Proofs.Eval.Presence
import RouteScript.Proofs.ClassTable.DeclarationOrder
import RouteScript.Proofs.Eval.FirstValues
import RouteScript.Proofs.Route.Normalization
import RouteScript.Proofs.Route.Pattern
import RouteScript.Proofs.Syntax.Layout
import RouteScript.Proofs.Syntax.LaysOut
import RouteScript.Proofs.Syntax.ExpressionLayout
import RouteScript.Proofs.Syntax.StatementLayout
import RouteScript.Proofs.Syntax.LineBreaks
import RouteScript.Proofs.Token.Scanning
import RouteScript.Proofs.Eval.IntegerText
import RouteScript.Proofs.Syntax.Names
import RouteScript.Proofs.Eval.Echo
import RouteScript.Proofs.Syntax.Chains
import RouteScript.Proofs.Value.IntegerOperators
import RouteScript.Proofs.Settings.EnvFile
import RouteScript.Proofs.Json.Scalars
import RouteScript.Proofs.Json.RoundTrip
import RouteScript.Proofs.Value.Plain
import RouteScript.Proofs.Decimal.Doubles
import RouteScript.Proofs.Service.Extremes
import RouteScript.Proofs.Text.Splitting
import RouteScript.Proofs.Value.Templates
import RouteScript.Proofs.Eval.LooseEquality
