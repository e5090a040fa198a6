import Bindery.BuildStep
import Bindery.Command
import Bindery.CommandLine
import Bindery.Config
import Bindery.Cpp
import Bindery.Declaration
import Bindery.Diagnostic
import Bindery.Directive
import Bindery.Event
import Bindery.FileTree
import Bindery.Format
import Bindery.Json.Form
import Bindery.Json.Reader
import Bindery.Json.Value
import Bindery.Json.Writer
import Bindery.Main
import Bindery.Run
import Bindery.Setup
import Bindery.Text
import Bindery.Text.Printable
import Bindery.Token
import Bindery.Toml.Document
import Bindery.Toml.Scalar
import Bindery.Toml.Settings
import Bindery.Toml.Table
import Bindery.TypeExpr
import Bindery.ValueType
import Bindery.Wrapper
import Bindery.Proofs.TokenForm
import Bindery.Proofs.TypeReading
import Bindery.Proofs.Grammar
import Bindery.Proofs.CanonicalSpelling
import Bindery.Proofs.TypeWords
import Bindery.Proofs.SourceLines
import Bindery.Proofs.AcceptedOrders
import Bindery.Proofs.ReplayTargets
import Bindery.Proofs.RegisteredWrappers
import Bindery.Proofs.FailedScans
import Bindery.Proofs.LineEndings
import Bindery.Proofs.RunHistory
import Bindery.Proofs.DuplicateWarnings
import Bindery.Proofs.PolicyAgreement
import Bindery.Proofs.RefusedDirectives
import Bindery.Proofs.LineAccounts
import Bindery.Proofs.JoinedSources
import Bindery.Proofs.MarkedLines
import Bindery.Proofs.SavedFiles
import Bindery.Proofs.FrontEnds
import Bindery.Proofs.DeclarationFaults
import Bindery.Proofs.MessageBlanks
import Bindery.Proofs.DiagnosticLines
import Bindery.Proofs.PaintedText
import Bindery.Proofs.PrintedLines
import Bindery.Proofs.CommandStatus
import Bindery.Proofs.CallTexts
import Bindery.Proofs.EngineMachine
import Bindery.Proofs.SetupSimulation
import Bindery.Proofs.SetupEffect
import Bindery.Proofs.StackDiscipline
import Bindery.Proofs.KeptBindings
import Bindery.Proofs.RunLog
import Bindery.Proofs.JsonForms
import Bindery.Proofs.WrittenSources
import Bindery.Proofs.CppText
import Bindery.Proofs.StatementLines
import Bindery.Proofs.ScriptNames
import Bindery.Proofs.NativeCalls
import Bindery.Proofs.Layout
import Bindery.Proofs.RespelledNames
import Bindery.Proofs.ParamNames
