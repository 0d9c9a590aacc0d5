import TypeInType.Command

/-!
# The command line

Reads the arguments and the files, and writes what a command answers. An interactive session is
answered line by line.
-/

namespace TypeInType

/-- Why a computation has no result. -/
def haltMessage : Halt Empty → String
  | .fault x => "bug: internal fault: " ++ x.describe ++ "\n"
  | .outOfFuel => "bug: out of fuel\n"

/-- The reason for which the system could not read a file. -/
def loadError : IO.Error → LoadError
  | .permissionDenied .. => .denied
  | .inappropriateType _ code _ => if code = 20 then .notDirectory else .isDirectory
  | .invalidArgument _ code _ => if code = 36 then .nameTooLong else .nulInName
  | _ => .notFound

/-- Read a file. -/
def readFile (file : String) : IO Content := do
  try
    let bytes ← IO.FS.readBinFile file
    return .ok bytes.data.toList
  catch e =>
    return .error (loadError e)

/-- Read the standard input to its end. -/
def readStdin : IO Content := do
  let bytes ← (← IO.getStdin).readBinToEnd
  return .ok bytes.data.toList

/-- Write the answer of a command, and give its exit code. -/
def answer (r : Run Empty Command.Outcome) : IO UInt32 := do
  match r with
  | .ok outcome =>
    IO.print outcome.out
    IO.eprint outcome.err
    return outcome.code.toUInt32
  | .error h =>
    IO.eprint (haltMessage h)
    return Command.faultCode.toUInt32

/-- Answer lines until one ends the session or the input ends. -/
partial def converse (s : Session) : IO UInt32 := do
  let stdin ← IO.getStdin
  let stdout ← IO.getStdout
  stdout.putStr prompt
  stdout.flush
  let line ← try pure (some (← stdin.getLine)) catch _ => pure none
  match line with
  | none =>
    IO.eprint (s.complain (.loading "<stdin>" .notText)).err
    return 0
  | some "" => return 0
  | some line =>
    match s.processLine (.ofText line) with
    | .ok none => return 0
    | .ok (some r) =>
      stdout.putStr r.out
      stdout.flush
      IO.eprint r.err
      converse r.session
    | .error h =>
      IO.eprint (haltMessage h)
      return Command.faultCode.toUInt32

end TypeInType

open TypeInType in
/-- Run the command that the arguments ask for. -/
def main (args : List String) : IO UInt32 := do
  match Command.parse args with
  | none =>
    IO.eprint Topic.overview.text
    return Command.usageCode.toUInt32
  | some .interact =>
    IO.print (banner ++ "\n")
    converse (Command.session false)
  | some command =>
    let content ← match command.file? with
      | some "-" => readStdin
      | some file => readFile file
      | none => pure (.ok [])
    answer (command.run content)
