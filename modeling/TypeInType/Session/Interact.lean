import TypeInType.Session
import TypeInType.Text.Input

/-!
# Interactive sessions

A loop over lines of input. A line is a command, or declarations, or an expression.
-/

namespace TypeInType

/-- The commands of the loop. -/
def banner : String :=
  "Commands:\n" ++
  "  axiom <name>, ... : <type>    postulate names of a type\n" ++
  "  defun <name> = <expr>         define a name\n" ++
  "  check <expr>                  normalise an expression and show its type\n" ++
  "  <expr>                        same as `check <expr>`\n" ++
  "  :env                          list the global environment\n" ++
  "  :clear, :cls                  clear the global environment\n" ++
  "  :help, :h                     show this message\n" ++
  "  :quit, :q                     leave the REPL\n"

/-- What asks for a line. -/
def prompt : String := "λΠ> "

/-- A line of the loop. -/
inductive Line where
  | blank
  | quit
  | clear
  | list
  | help
  | input (text : String)
  deriving DecidableEq, Repr

/-- What a line says, the white space around it apart. -/
def Line.ofText (text : String) : Line :=
  let text := String.ofList (trimBlank text.toList)
  if text = "" then blank
  else if text = ":quit" ∨ text = ":q" then quit
  else if text = ":clear" ∨ text = ":cls" then clear
  else if text = ":env" then list
  else if text = ":help" ∨ text = ":h" then help
  else input text

namespace Session

/-- Process an interactive input. The rest of an input is left out after a declaration that fails.
-/
def processInput (s : Session) (text : String) : Run Empty Reply :=
  let count := s.inputs + 1
  let (s, file) := load { s with inputs := count } ("<repl:" ++ toString count ++ ">") text
  s.onceRead file (readInput text) (declareAll false file s)

/-- Process a line; `none` ends the loop. -/
def processLine (s : Session) : Line → Run Empty (Option Reply)
  | .blank => return some ⟨s, "", ""⟩
  | .quit => return none
  | .clear => return some ⟨{ s with signature := ∅ }, "cleared the environment\n", ""⟩
  | .list => return some ⟨s, ← s.listing, ""⟩
  | .help => return some ⟨s, banner, ""⟩
  | .input text => return some (← s.processInput text)

/-- Process lines up to one that ends the loop, or that cannot be decoded. -/
def processLines (s : Session) : List (Option String) → Run Empty Reply
  | [] => return ⟨s, prompt, ""⟩
  | none :: _ => return (s.complain (.loading "<stdin>" .notText)).after prompt ""
  | some text :: lines => do
    match ← s.processLine (.ofText text) with
    | none => return ⟨s, prompt, ""⟩
    | some first =>
      let r ← processLines first.session lines
      return r.after (prompt ++ first.out) first.err

/-- An interactive session over the given input. -/
def interact (s : Session) (bytes : List UInt8) : Run Empty Reply := do
  let r ← s.processLines (decodeLines bytes)
  return r.after (banner ++ "\n") ""

end Session

end TypeInType
