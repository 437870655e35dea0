import Symbolic.Command.Basic
import Symbolic.Integer

/-!
Command lines out of words. A flag is given by its name after two dashes or by its letter after one;
its value follows in the same word or in the next one, and a switch needs none. Letters may share a
word. Words after `--` are no flags, and all words that are not taken are arguments.
-/

namespace Symbolic

inductive FlagError where
  | syntaxError (word : String)
  | unknown (name : String)
  | unknownLetter (letter : Char) (cluster : String)
  | noValue (name : String)
  | noLetterValue (letter : Char) (cluster : String)
  | badSwitch (flag : Flag) (value : String)
  | badNumber (flag : Flag) (value : String) (cause : NumeralError)
deriving DecidableEq, Repr

namespace Flag

def title (f : Flag) : String :=
  match f.letter? with
  | some c => "-" ++ c.toString ++ ", --" ++ f.label
  | none => "--" ++ f.label

def boolOf? (s : String) : Option Bool :=
  if s ∈ ["1", "t", "T", "TRUE", "true", "True"] then some true
  else if s ∈ ["0", "f", "F", "FALSE", "false", "False"] then some false
  else none

def switchValue (f : Flag) (value : String) : Except FlagError Bool :=
  match boolOf? value with
  | some b => .ok b
  | none => .error (.badSwitch f value)

def numberValue (f : Flag) (value : String) : Except FlagError Int :=
  (Numeral.integer64 value.toList).mapError (.badNumber f value)

def set (o : Options) (value : String) : Flag → Except FlagError Options
  | .verbose => return { o with verbose := ← switchValue .verbose value }
  | .config => .ok { o with config := value }
  | .help => return { o with help := ← switchValue .help value }
  | .json => return { o with json := ← switchValue .json value }
  | .name => .ok { o with name := value }
  | .times => return { o with times := ← numberValue .times value }
  | .env => .ok { o with env := o.env ++ [value] }
  | .envFile => .ok { o with envFile := value }
  | .address => .ok { o with address := value }

end Flag

namespace FlagError

def invalidText (f : Flag) (value reader reason : String) : String :=
  "invalid argument " ++ quote value ++ " for " ++ quote f.title ++ " flag: strconv." ++ reader
    ++ ": parsing " ++ quote value ++ ": " ++ reason

def message : FlagError → String
  | .syntaxError word => "bad flag syntax: " ++ word
  | .unknown name => "unknown flag: --" ++ name
  | .unknownLetter letter cluster =>
    "unknown shorthand flag: " ++ quoteChar letter ++ " in -" ++ cluster
  | .noValue name => "flag needs an argument: --" ++ name
  | .noLetterValue letter cluster =>
    "flag needs an argument: " ++ quoteChar letter ++ " in -" ++ cluster
  | .badSwitch flag value => invalidText flag value "ParseBool" NumeralError.malformed.message
  | .badNumber flag value cause => invalidText flag value "ParseInt" cause.message

end FlagError

namespace Options

/-- Options so far, and a flag whose value is the next word, with the fault if there is none. -/
abbrev Reading := Options × Option (Flag × FlagError)

def splitEquals (cs : List Char) : List Char × Option (List Char) :=
  match cs.dropWhile (· ≠ '=') with
  | [] => (cs, none)
  | _ :: value => (cs.takeWhile (· ≠ '='), some value)

def readLong (known : List Flag) (o : Options) (cs : List Char) : Except FlagError Reading :=
  let (nameChars, value) := splitEquals cs
  let name := String.ofList nameChars
  if cs.head? = some '-' || cs.head? = some '=' then
    .error (.syntaxError (String.ofList ('-' :: '-' :: cs)))
  else
    match known.find? (·.label = name), value with
    | none, _ => .error (.unknown name)
    | some f, some v => return (← f.set o (String.ofList v), none)
    | some f, none =>
      if f.isSwitch then return (← f.set o "true", none) else .ok (o, some (f, .noValue name))

def leadingByte (c : Char) : Char :=
  match String.utf8EncodeChar c with
  | b :: _ => Char.ofNat b.toNat
  | [] => c

/-- How an unknown letter is shown: by its first byte as a character, and that one in turn by its
first byte. Letters of ASCII are shown as they are. -/
def shownLetter (c : Char) : Char :=
  leadingByte (leadingByte c)

/-- Letters of flags that share a word. What starts with `test.` is passed over. -/
def readLetters (known : List Flag) (o : Options) : List Char → Except FlagError Reading
  | [] => .ok (o, none)
  | c :: cs =>
    if "test.".toList.isPrefixOf (c :: cs) then .ok (o, none)
    else
      match known.find? (·.letter? = some c) with
      | none => .error (.unknownLetter (shownLetter c) (String.ofList (c :: cs)))
      | some f =>
        match cs with
        | '=' :: v :: vs => do return (← f.set o (String.ofList (v :: vs)), none)
        | _ =>
          if f.isSwitch then do readLetters known (← f.set o "true") cs
          else if cs.isEmpty then .ok (o, some (f, .noLetterValue c (String.ofList [c])))
          else do return (← f.set o (String.ofList cs), none)

def readWords (known : List Flag) (o : Options) :
    Option (Flag × FlagError) → List String → Except FlagError (Options × List String)
  | none, [] => .ok (o, [])
  | some (_, fault), [] => .error fault
  | some (f, _), word :: rest => do readWords known (← f.set o word) none rest
  | none, word :: rest =>
    match word.toList with
    | ['-', '-'] => .ok (o, rest)
    | '-' :: '-' :: cs => do
      let (o, waiting) ← readLong known o cs
      readWords known o waiting rest
    | '-' :: c :: cs => do
      let (o, waiting) ← readLetters known o (c :: cs)
      readWords known o waiting rest
    | _ => do
      let (o, args) ← readWords known o none rest
      return (o, word :: args)

def read (known : List Flag) (words : List String) : Except FlagError (Options × List String) :=
  readWords known {} none words

end Options

namespace Command

/-- A word whose value would be the next word, as far as can be told before the command is known. -/
def takesNext (word : String) : Bool :=
  match word.toList with
  | '-' :: '-' :: cs => !cs.contains '=' && String.ofList cs ≠ Flag.verbose.label
  | ['-', c] => c ≠ '=' && c ≠ 'v' && c.toNat < 0x80
  | _ => false

/-- The first word that is neither a flag nor the value of one, and the other words. A flag that has
but one word left for its value ends the search. -/
def find? : List String → Option (String × List String)
  | [] => none
  | [word] => if word = "" || word.toList.head? = some '-' then none else some (word, [])
  | word :: next :: rest =>
    if word = "--" then none
    else if takesNext word then
      if rest.isEmpty then none else (find? rest).map fun (name, others) => (name, word :: next :: others)
    else if word = "" || word.toList.head? = some '-' then
      (find? (next :: rest)).map fun (name, others) => (name, word :: others)
    else some (word, next :: rest)

end Command

def UsageError.unknownCommand (word : String) : UsageError where
  message := "unknown command " ++ quote word ++ " for \"expressivo\""
  hint := "Run 'expressivo --help' for usage.\n"

def UsageError.ofFlag (e : FlagError) : UsageError :=
  { message := e.message }

namespace Invocation

/-- A command line that names no command, or asks for help, is good for an explanation only. -/
def ofWords (words : List String) : Except UsageError (Option Invocation) :=
  match Command.find? words with
  | none => do
    let _ ← (Options.read Command.commonFlags words).mapError .ofFlag
    return none
  | some (word, others) =>
    match Command.ofLabel? word with
    | none => .error (.unknownCommand word)
    | some c => do
      let (o, args) ← (Options.read c.flags others).mapError .ofFlag
      return if o.help || c.explains then none else some ⟨c, o, args⟩

end Invocation

end Symbolic
