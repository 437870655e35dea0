import Symbolic.Command.Basic
import Symbolic.Expr.Outline
import Symbolic.Tool.Call

/-!
Running a command line. Flags are read first, then the arguments are counted, then the settings are
loaded, and only then the command reads what it needs.
-/

namespace Symbolic

/-- What the program leaves to others. -/
structure Libraries where
  /-- The command line in some words; none, if they ask for nothing but an explanation. -/
  readWords : List String → Except UsageError (Option Invocation)
  decodeSettings : Bytes → Except String Settings.Assignment
  decodeBindings : Bytes → Except String Bindings
  logging : Logging

structure World extends Libraries where
  files : Files
  /-- The standard input, or why it cannot be read. -/
  input : Except String Bytes
  environ : Environment

inductive Outcome where
  | output (text : String)
  /-- An explanation of the program is asked for. -/
  | help
  /-- The service takes requests until it is stopped. -/
  | serving (settings : Settings)

namespace World

def isBlankText (t : Text) : Bool :=
  t.all fun
    | .char c => isBlank c
    | .stray _ => false

def parseExpr (source : String) (content : Bytes) : Except CommandError Expr :=
  if isBlankText content.text then .error (.noExpr source)
  else (Expr.parse content.chars).mapError (.expr source)

def fileExpr (w : World) (path : String) : Except CommandError Expr := do
  parseExpr path (← (w.files path).mapError .file)

def inputExpr (w : World) : Except CommandError Expr := do
  parseExpr "stdin" (← w.input.mapError .input)

/-- A dash stands for the standard input, as does the lack of an argument. -/
def readExpr (w : World) : List String → Except CommandError Expr
  | [path] => if path = "-" then w.inputExpr else w.fileExpr path
  | _ => w.inputExpr

/-- The bindings of a file, if one is given, under those given one by one. -/
def readBindings (w : World) (o : Options) : Except CommandError Bindings := do
  let fromFile ←
    if o.envFile = "" then pure .empty
    else (Bindings.load w.decodeBindings w.files o.envFile).mapError .bindings
  let fromFlags ← (Bindings.ofPairs o.env).mapError .pair
  return fromFile.override fromFlags

end World

namespace Invocation

def exprText (o : Options) (e : Expr) : String :=
  (if o.json then e.toJson.compact else e.render) ++ "\n"

def linesOf (names : List String) : String :=
  String.join (names.map (· ++ "\n"))

/-- Serves at the address of the flag, if one is given, else at that of the settings. -/
def serveAt (s : Settings) (o : Options) : Except CommandError Outcome :=
  let s := { s with address := Settings.override o.address s.address }
  match Service.checkAddress s.address with
  | .error e => .error (.address e)
  | .ok () => .ok (.serving s)

def perform (w : World) (s : Settings) (o : Options) (args : List String) :
    Command → Except CommandError Outcome
  | .render => return .output (exprText o (← w.readExpr args))
  | .diff => do
    let _ ← (Expr.ofName (Text.ofString o.name)).mapError .name
    let e ← w.readExpr args
    return .output (exprText o (e.diffN o.name o.times))
  | .simplify => do
    let env ← w.readBindings o
    let e ← w.readExpr args
    return .output (exprText o (e.simplify env))
  | .equal => do
    let a ← w.fileExpr (args.headD "")
    let b ← w.fileExpr (args.tail.headD "")
    return .output (Tool.boolText (a = b) ++ "\n")
  | .hash => return .output ((← w.readExpr args).hashText ++ "\n")
  | .vars => return .output (linesOf (← w.readExpr args).freeNames)
  | .dump => return .output ((← w.readExpr args).outline ++ "\n")
  | .schema => return .output (Tool.catalogueText ++ "\n")
  | .serve => serveAt s o
  | .help | .completion => return .help

def run (w : World) (i : Invocation) : Except CommandError Outcome := do
  i.command.checkArguments i.arguments
  let s ← (Settings.load w.decodeSettings w.files w.environ i.options.config).mapError .settings
  let _ ← (w.logging.new s.level s.format i.options.verbose).mapError .logger
  perform w s i.options i.arguments i.command

end Invocation

def runWords (w : World) (words : List String) : Except CommandError Outcome := do
  match ← (w.readWords words).mapError .usage with
  | none => return .help
  | some i => i.run w

end Symbolic
