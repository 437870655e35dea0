import Symbolic.Bindings
import Symbolic.Expr.Codec
import Symbolic.Logger
import Symbolic.Service.Address
import Symbolic.Settings.Loader

/-!
The commands of the program, the flags and arguments each of them takes, and what has to be read to
carry out a command line.
-/

namespace Symbolic

inductive Flag where
  | verbose
  | config
  | help
  | json
  | name
  | times
  | env
  | envFile
  | address
deriving DecidableEq, Repr

/-- What the flags of a command line say; a later flag wins, bindings add up. -/
structure Options where
  verbose : Bool := false
  config : String := ""
  help : Bool := false
  json : Bool := false
  name : String := "x"
  times : Int := 1
  env : List String := []
  envFile : String := ""
  address : String := ""
deriving DecidableEq, Repr

namespace Flag

def label : Flag → String
  | .verbose => "verbose"
  | .config => "config"
  | .help => "help"
  | .json => "json"
  | .name => "var"
  | .times => "times"
  | .env => "env"
  | .envFile => "env-file"
  | .address => "addr"

def letter? : Flag → Option Char
  | .verbose => some 'v'
  | .help => some 'h'
  | .times => some 'n'
  | _ => none

def isSwitch : Flag → Bool
  | .verbose | .help | .json => true
  | _ => false

end Flag

inductive Command where
  | render
  | diff
  | simplify
  | equal
  | hash
  | vars
  | dump
  | schema
  | serve
  /-- Explains the program, as does a command line without a command. -/
  | help
  /-- Writes a script that completes command lines. -/
  | completion
deriving DecidableEq, Repr

/-- Why words are no command line, with a hint that the program adds. -/
structure UsageError where
  message : String
  hint : String := ""
deriving DecidableEq, Repr

inductive CommandError where
  | usage (cause : UsageError)
  | tooManyArguments (given : Nat)
  | argumentCount (given : Nat)
  | unexpectedArgument (argument : String) (command : Command)
  | settings (cause : SettingsError)
  | logger (cause : LoggerError)
  | name (cause : LeafError)
  | bindings (cause : BindingsError)
  | pair (cause : PairError)
  | file (cause : FileError)
  | input (cause : String)
  | noExpr (source : String)
  | expr (source : String) (cause : ParseError)
  | address (cause : Service.AddressError)
deriving DecidableEq, Repr

namespace Command

def all : List Command :=
  [.render, .diff, .simplify, .equal, .hash, .vars, .dump, .schema, .serve, .help, .completion]

def label : Command → String
  | .render => "render"
  | .diff => "diff"
  | .simplify => "simplify"
  | .equal => "equal"
  | .hash => "hash"
  | .vars => "vars"
  | .dump => "dump"
  | .schema => "schema"
  | .serve => "serve"
  | .help => "help"
  | .completion => "completion"

def ofLabel? (s : String) : Option Command :=
  all.find? (·.label = s)

def commonFlags : List Flag := [.verbose, .config, .help]

def flags : Command → List Flag
  | .render => .json :: commonFlags
  | .diff => .json :: .name :: .times :: commonFlags
  | .simplify => .json :: .env :: .envFile :: commonFlags
  | .serve => .address :: commonFlags
  | _ => commonFlags

/-- The command only tells about the program. -/
def explains : Command → Bool
  | .help | .completion => true
  | _ => false

/-- Two files to compare, no argument at all, or at most one file to read. -/
def checkArguments (c : Command) (args : List String) : Except CommandError Unit :=
  match c, args with
  | .equal, _ => if args.length = 2 then .ok () else .error (.argumentCount args.length)
  | .schema, arg :: _ | .serve, arg :: _ => .error (.unexpectedArgument arg c)
  | _, _ => if args.length ≤ 1 then .ok () else .error (.tooManyArguments args.length)

end Command

namespace CommandError

def message : CommandError → String
  | .usage cause => cause.message
  | .tooManyArguments n => "accepts at most 1 arg(s), received " ++ toString n
  | .argumentCount n => "accepts 2 arg(s), received " ++ toString n
  | .unexpectedArgument arg c =>
    "unknown command " ++ quote arg ++ " for " ++ quote ("expressivo " ++ c.label)
  | .settings cause => cause.message
  | .logger cause => cause.message
  | .name cause => "--var: " ++ cause.message
  | .bindings cause => cause.message
  | .pair cause => cause.message
  | .file cause => "failed to read expression: " ++ cause.message
  | .input cause => "failed to read stdin: " ++ cause
  | .noExpr source => source ++ ": no expression given"
  | .expr source cause => source ++ ": " ++ cause.message
  | .address cause => cause.message

def leaf? : CommandError → Option LeafError
  | .name cause => some cause
  | .expr _ cause => cause.leaf?
  | _ => none

def hint : CommandError → String
  | .usage cause => cause.hint
  | _ => ""

def report (e : CommandError) : String :=
  "Error: " ++ e.message ++ "\n" ++ e.hint ++ "error: " ++ e.message ++ "\n"

end CommandError

structure Invocation where
  command : Command
  options : Options
  arguments : List String
deriving DecidableEq, Repr

namespace Invocation

def readsExpr (i : Invocation) : Bool :=
  i.command ∈ [.render, .diff, .simplify, .hash, .vars, .dump]

/-- The expression comes from the standard input, for which a dash may stand. -/
def readsInput (i : Invocation) : Bool :=
  i.readsExpr && (i.arguments = [] || i.arguments = ["-"])

def paths (i : Invocation) : List String :=
  i.options.config :: i.options.envFile :: i.arguments

end Invocation

end Symbolic
