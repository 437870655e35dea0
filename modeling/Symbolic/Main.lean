import Symbolic.Standard

/-!
The program. It reads the files and the standard input that a command line asks for, runs it, and
writes what comes of it.
-/

namespace Symbolic.Program

def fileError (path : String) : IO.Error → FileError
  | .noFileOrDirectory .. => .missing path
  | .permissionDenied .. => .denied path
  | .invalidArgument _ 36 _ => .nameTooLong path
  | .inappropriateType _ code _ => if code = 21 then .isDirectory path else .notDirectory path
  | _ => .invalid path

def readPath (path : String) : IO (Except FileError Bytes) := do
  try
    return .ok (← IO.FS.readBinFile path).toList
  catch e =>
    return .error (fileError path e)

partial def readAll (stream : IO.FS.Stream) (read : ByteArray) : IO ByteArray := do
  let chunk ← stream.read 65536
  if chunk.isEmpty then return read else readAll stream (read ++ chunk)

def readInput (wanted : Bool) : IO (Except String Bytes) := do
  if !wanted then return .ok []
  try
    return .ok (← readAll (← IO.getStdin) .empty).toList
  catch e =>
    return .error (toString e)

def overrides : List String :=
  ["EXPRESSIVO_ADDR", "EXPRESSIVO_LOG_LEVEL", "EXPRESSIVO_LOG_FORMAT"]

def worldFor (paths : List String) (input : Bool) : IO World := do
  let files ← paths.mapM fun path => return (path, ← readPath path)
  let environ ← overrides.mapM fun name => return (name, (← IO.getEnv name).getD "")
  return {
    toLibraries := .standard
    files := fun path => (files.lookup path).getD (.error (.missing path))
    input := ← readInput input
    environ := fun name => (environ.lookup name).getD "" }

def usage : String :=
  "usage: expressivo COMMAND [flags] [file]\ncommands: "
    ++ String.intercalate " " (Command.all.map Command.label) ++ "\n"

def finish : Except CommandError Outcome → IO UInt32
  | .ok (.output text) => do
    (← IO.getStdout).putStr text
    return 0
  | .ok .help => do
    (← IO.getStdout).putStr usage
    return 0
  | .ok (.serving s) => do
    (← IO.getStderr).putStr ("error: no listener available for " ++ s.address ++ "\n")
    return 1
  | .error e => do
    (← IO.getStderr).putStr e.report
    return 1

end Symbolic.Program

def main (words : List String) : IO UInt32 := do
  let (paths, input) := match Symbolic.Invocation.ofWords words with
    | .ok (some i) => (i.paths, i.readsInput)
    | _ => ([], false)
  let world ← Symbolic.Program.worldFor paths input
  Symbolic.Program.finish (Symbolic.runWords world words)
