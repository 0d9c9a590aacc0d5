import TypeInType.Session.Interact

/-!
# Commands

What the arguments of the command line ask for, and what is done about it.
-/

namespace TypeInType

/-- What help can be asked about. -/
inductive Topic where
  | overview
  | check
  | interact
  | normalise
  | help
  deriving DecidableEq, Repr

namespace Topic

/-- The topic of the words after `help`. -/
def parse : List String → Option Topic
  | [] => some overview
  | ["check"] => some check
  | ["repl"] => some interact
  | ["norm"] => some normalise
  | ["help"] => some help
  | _ => none

/-- What a topic is about. -/
def summary : Topic → String
  | overview =>
    "A dependently typed lambda calculus " ++
    "with bidirectional checking and normalisation by evaluation"
  | check => "Check a program, printing the result of each declaration to stdout"
  | interact => "Start an interactive session"
  | normalise => "Normalise a term, printing its normal form and type"
  | help => "Print this message or the help of the given subcommand(s)"

/-- How the commands of a topic are written, and what their arguments are. -/
def details : Topic → String
  | overview =>
    "Usage: lambdapi <COMMAND>\n\nCommands:\n" ++
    "  check  " ++ check.summary ++ "\n" ++
    "  repl   " ++ interact.summary ++ "\n" ++
    "  norm   " ++ normalise.summary ++ "\n" ++
    "  help   " ++ help.summary ++ "\n" ++
    "\nOptions:\n  -h, --help     Print help\n  -V, --version  Print version\n"
  | check =>
    "Usage: lambdapi check [OPTIONS] <FILE>\n" ++
    "\nArguments:\n  <FILE>  Path to the program to check\n" ++
    "\nOptions:\n      --allow-errors  Continue even if errors were encountered\n" ++
    "  -h, --help          Print help\n"
  | interact => "Usage: lambdapi repl\n\nOptions:\n  -h, --help  Print help\n"
  | normalise =>
    "Usage: lambdapi norm --term <TERM_FILE>\n" ++
    "\nOptions:\n      --term <TERM_FILE>  Path to a term to normalise\n" ++
    "  -h, --help              Print help\n"
  | help =>
    "Usage: lambdapi help [COMMAND]...\n" ++
    "\nArguments:\n  [COMMAND]...  Print help for the subcommand(s)\n"

/-- The help on a topic. -/
def text (topic : Topic) : String :=
  topic.summary ++ "\n\n" ++ topic.details

end Topic

/-- A command. A file `-` is the standard input. -/
inductive Command where
  | check (file : String) (keepGoing : Bool)
  | interact
  | normalise (file : String)
  | help (topic : Topic)
  | version
  deriving DecidableEq, Repr

namespace Command

/-- An argument that begins with a hyphen and is more than one. -/
def isOption (arg : String) : Bool :=
  match arg.toList with
  | '-' :: _ :: _ => true
  | _ => false

/-- The argument is a long option, or letters after one hyphen of which this is the first. The
first of such letters is obeyed before the next is looked at. -/
def asks (long : String) (short : Char) (arg : String) : Bool :=
  arg = long || ['-', short].isPrefixOf arg.toList

/-- An argument that asks for help. -/
def asksHelp (arg : String) : Bool :=
  asks "--help" 'h' arg

/-- An argument that asks for the version. -/
def asksVersion (arg : String) : Bool :=
  asks "--version" 'V' arg

/-- The arguments after `--`: one file, unless there is one already. -/
def onlyFile (file : Option String) : List String → Option String
  | [] => file
  | [arg] => if file.isNone then some arg else none
  | _ => none

/-- The arguments of `check`, with what has been read of them. -/
def parseCheck (file : Option String) (keepGoing : Bool) : List String → Option Command
  | [] => file.map fun f => check f keepGoing
  | arg :: args =>
    if arg = "--" then (onlyFile file args).map fun f => check f keepGoing
    else if asksHelp arg then some (help .check)
    else if arg = "--allow-errors" then
      if keepGoing then none else parseCheck file true args
    else if isOption arg then none
    else if file.isNone then parseCheck (some arg) keepGoing args
    else none

/-- The arguments of `norm`, with what has been read of them. -/
def parseNormalise (file : Option String) : List String → Option Command
  | [] => file.map normalise
  | ["--"] => file.map normalise
  | arg :: args =>
    if asksHelp arg then some (help .normalise)
    else if file.isSome then none
    else if arg = "--term" then
      match args with
      | [] => none
      | value :: args => if isOption value then none else parseNormalise (some value) args
    else match arg.toList with
      | '-' :: '-' :: 't' :: 'e' :: 'r' :: 'm' :: '=' :: value =>
        parseNormalise (some (String.ofList value)) args
      | _ => none

/-- The command that arguments ask for, if they are well formed. -/
def parse : List String → Option Command
  | "check" :: args => parseCheck none false args
  | "norm" :: args => parseNormalise none args
  | "repl" :: [] => some interact
  | "repl" :: "--" :: [] => some interact
  | "repl" :: arg :: _ => if asksHelp arg then some (help .interact) else none
  | "help" :: names => (Topic.parse names).map help
  | arg :: _ =>
    if asksHelp arg then some (help .overview)
    else if asksVersion arg then some version
    else none
  | [] => none

/-- The name and the version of the program. -/
def versionText : String :=
  "lambdapi 0.1.0\n"

/-- The width of the lines that commands write. -/
def width : Nat := 80

/-- The exit code of a usage error. -/
def usageCode : Nat := 2

/-- The exit code of a command that stops at an internal fault. -/
def faultCode : Nat := 101

/-- A session as a command starts it. -/
def session (keepGoing : Bool) : Session :=
  { Session.initial with width := width, keepGoing := keepGoing }

/-- The file that a command reads. -/
def file? : Command → Option String
  | check file _ | normalise file => some file
  | interact => some "-"
  | help _ | version => none

/-- The name that messages give to a file. -/
def fileName (file : String) : String :=
  if file = "-" then "<stdin>" else file

/-- What a command has written, and its exit code. -/
structure Outcome where
  code : Nat
  out : String
  err : String

/-- Process a file, or report that it could not be read. -/
def processFile (s : Session) (file : String) (content : Content)
    (process : Session → String → String → Run Empty Reply) : Run Empty Outcome := do
  let r ← match Content.text content with
    | .ok text => process s (fileName file) text
    | .error e => pure (s.complain (.loading (fileName file) e))
  return ⟨r.session.status, r.out, r.err⟩

/-- Run a command, given the content of the file that it reads. -/
def run (content : Content) : Command → Run Empty Outcome
  | check file keepGoing => processFile (session keepGoing) file content Session.checkSource
  | normalise file => processFile (session false) file content Session.normaliseSource
  | interact => do
    let r ← (session false).interact (content.toOption.getD [])
    return ⟨0, r.out, r.err⟩
  | help topic => return ⟨0, topic.text, ""⟩
  | version => return ⟨0, versionText, ""⟩

/-- Run a command in a folder, with a standard input. -/
def runIn (folder : Folder) (input : List UInt8) (command : Command) : Run Empty Outcome :=
  command.run <| match command.file? with
    | some "-" => .ok input
    | some file => folder.read file
    | none => .ok []

end Command

end TypeInType
