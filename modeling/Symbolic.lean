import Symbolic.Text.Quoted
import Symbolic.Binary64.Basic
import Symbolic.Binary64.Reader
import Symbolic.Binary64.Shortest
import Symbolic.Number
import Symbolic.Bindings
import Symbolic.Expr.Basic
import Symbolic.Expr.Calculus
import Symbolic.Expr.Leaf
import Symbolic.Expr.Render
import Symbolic.Expr.Walk
import Symbolic.Json.Basic
import Symbolic.Json.Printer
import Symbolic.Json.Reader
import Symbolic.Expr.Codec
import Symbolic.Sketch
import Symbolic.Stack
import Symbolic.Tool.Basic
import Symbolic.Tool.Call
import Symbolic.Tool.Sketched
import Symbolic.Integer
import Symbolic.Logger
import Symbolic.Yaml.Source
import Symbolic.Yaml.Lexer
import Symbolic.Yaml.Node
import Symbolic.Yaml.Document
import Symbolic.Yaml.Mapping
import Symbolic.Duration
import Symbolic.Settings.Basic
import Symbolic.Settings.Loader
import Symbolic.Service.Body
import Symbolic.Service.Handler
import Symbolic.Expr.Outline
import Symbolic.Service.Address
import Symbolic.Command.Basic
import Symbolic.Command.Run
import Symbolic.Standard
import Symbolic.Main
import Symbolic.Proofs.Numeral
import Symbolic.Proofs.Infix
import Symbolic.Proofs.Rendering
import Symbolic.Proofs.Closure
import Symbolic.Proofs.JsonText
import Symbolic.Proofs.RoundTrip
import Symbolic.Proofs.Derivative
import Symbolic.Proofs.FixedPoint
import Symbolic.Proofs.Positional
import Symbolic.Proofs.FullSubstitution
import Symbolic.Proofs.Truncation
import Symbolic.Proofs.Responses
import Symbolic.Proofs.MixedDerivative
import Symbolic.Proofs.JsonGrammar
import Symbolic.Proofs.JsonReading
import Symbolic.Proofs.Calls
import Symbolic.Proofs.RequestBody
import Symbolic.Proofs.Schedules
import Symbolic.Proofs.Language
import Symbolic.Proofs.BatchBody
import Symbolic.Proofs.Faultless
import Symbolic.Proofs.Agreement
import Symbolic.Proofs.NormalForm
import Symbolic.Proofs.PartialEvaluation
import Symbolic.Proofs.Degree
import Symbolic.Proofs.NumeralPattern
import Symbolic.Proofs.ShortestNumeral
import Symbolic.Proofs.Brackets
import Symbolic.Proofs.Positions
import Symbolic.Proofs.Hashing
import Symbolic.Proofs.Identity
import Symbolic.Proofs.CutOff
import Symbolic.Proofs.HashContext
import Symbolic.Proofs.Parameters
import Symbolic.Proofs.Acceptance
import Symbolic.Proofs.Growth
import Symbolic.Proofs.Checks
import Symbolic.Proofs.FirstFault
import Symbolic.Proofs.DerivativeNames
import Symbolic.Proofs.AbsentNodes
import Symbolic.Proofs.Layering
import Symbolic.Proofs.Precedence
import Symbolic.Proofs.UnnamedPairs
import Symbolic.Proofs.Lockstep
import Symbolic.Proofs.Pruning
