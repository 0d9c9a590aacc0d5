import TypeInType.Folder
import TypeInType.Report.Render

/-!
# Sessions

A session takes declarations one after another. Each one that succeeds is committed to the signature
and answered with a text; each one that fails is answered with a report, and leaves the signature as
it was.
-/

namespace TypeInType

/-- Whatever a session reports. -/
inductive Complaint where
  | loading (name : String) (error : LoadError)
  | reading (file : Nat) (error : SyntaxError)
  | elaboration (error : ElabError)
  | typing (error : TypeError)

/-- What the user is told. -/
def Complaint.report : Complaint → Report
  | loading name e => ⟨"couldn't read `" ++ name ++ "`: " ++ e.message, none, []⟩
  | reading file e => e.report file
  | elaboration e => e.report
  | typing e => e.report

/-- The state of a session. -/
structure Session where
  sources : Sources
  signature : Signature
  /-- The number of interactive inputs so far. -/
  inputs : Nat
  /-- Go on after a declaration that fails. -/
  keepGoing : Bool
  /-- Something has been reported. -/
  failed : Bool
  /-- The width of the lines of answers. -/
  width : Nat
  /-- The fuel of each evaluation. -/
  fuel : Nat

/-- The new state of a session, and the texts that it has written to its two outputs. -/
structure Reply where
  session : Session
  out : String
  err : String

namespace Reply

/-- Write an answer first. -/
def after (out err : String) (r : Reply) : Reply :=
  ⟨r.session, out ++ r.out, err ++ r.err⟩

end Reply

namespace Session

/-- A width that no line exceeds. -/
def unlimitedWidth : Nat := Nat.pow 2 64 - 1

/-- Fuel for every evaluation that ends within the memory of a machine. -/
def ampleFuel : Nat := Nat.pow 2 60

/-- A session in which nothing has happened. -/
def initial : Session :=
  ⟨∅, ∅, 0, false, false, unlimitedWidth, ampleFuel⟩

/-! ## Answers -/

/-- A document with its line breaks, ended by a line feed. -/
def layout (s : Session) (doc : Doc) : String :=
  (Doc.group doc).render s.width ++ "\n"

/-- A text followed by a document, on a line of its own if need be. -/
def introduce (text : String) (doc : Doc) : Doc :=
  .text text ++ .nest 2 (.line ++ doc)

/-- The document of a closed term. -/
def termDoc (t : Check) : Doc :=
  t.doc [] .top

/-- A term with its type. -/
def typedDoc (term type : Check) : Doc :=
  .group (termDoc term ++ .text " :" ++ .nest 2 (.line ++ termDoc type))

/-- Report an error. -/
def complain (s : Session) (c : Complaint) : Reply :=
  ⟨{ s with failed := true }, "", c.report.render s.sources⟩

/-! ## Declarations -/

/-- The context of a declaration. -/
def context (s : Session) : Context :=
  .ofSignature s.signature

/-- Elaborate an expression of the source with a number. -/
def elaborate (file : Nat) (e : Expr) : Run Complaint Synth :=
  (e.elaborate file .builtin).mapRefused .elaboration

/-- The normal form of a value. -/
def normalForm (s : Session) (v : Value) : Run Complaint Check :=
  (s.context.quote s.fuel v).widen

/-- The value and the type of an expression. -/
def infer (s : Session) (file : Nat) (e : Expr) : Run Complaint (Value × Value) := do
  let t ← elaborate file e
  let type ← (t.infer s.fuel s.context).mapRefused .typing
  let value ← (t.eval s.fuel (s.context.env [])).widen
  return (value, type)

/-- The answer to a request to check an expression: its normal form and its type. -/
def evaluate (s : Session) (file : Nat) (e : Expr) : Run Complaint String := do
  let (value, type) ← s.infer file e
  let term ← s.normalForm value
  let type ← s.normalForm type
  return s.layout (typedDoc term type)

/-- Process a declaration: the new signature, and the answer. -/
def declare (s : Session) (file : Nat) : Decl → Run Complaint (Signature × String)
  | .postulate _ names e => do
    let t ← elaborate file e
    let type ← ((Check.synth t).checkType s.fuel s.context).mapRefused .typing
    let typeForm ← s.normalForm type
    let sig := names.foldl (fun sig x => sig.postulate x.name type) s.signature
    let list := ", ".intercalate (names.map Ident.name)
    return (sig, s.layout (introduce ("postulated " ++ list ++ " :") (termDoc typeForm)))
  | .define _ x e => do
    let (value, type) ← s.infer file e
    let term ← s.normalForm value
    let typeForm ← s.normalForm type
    let sig := s.signature.define x.name value type
    return (sig, s.layout (introduce ("defined " ++ x.name ++ " =") (typedDoc term typeForm)))
  | .check _ e => return (s.signature, ← s.evaluate file e)
  | .expr e => return (s.signature, ← s.evaluate file e)

/-- Process declarations in turn. After one that fails, the others are processed only if
`keepGoing`. -/
def declareAll (keepGoing : Bool) (file : Nat) (s : Session) : List Decl → Run Empty Reply
  | [] => return ⟨s, "", ""⟩
  | d :: ds =>
    match s.declare file d with
    | .ok (sig, out) => do
      let r ← declareAll keepGoing file { s with signature := sig } ds
      return r.after out ""
    | .error (.refused c) => do
      let first := s.complain c
      if keepGoing then
        let r ← declareAll keepGoing file first.session ds
        return r.after "" first.err
      else return first
    | .error (.fault x) => .abort x
    | .error .outOfFuel => .error .outOfFuel

/-! ## Sources -/

/-- Load a source from a text. -/
def load (s : Session) (name text : String) : Session × Nat :=
  let (sources, file) := s.sources.add name text
  ({ s with sources := sources }, file)

/-- Go on with what has been read from a source, or report why it cannot be read. -/
def onceRead {α : Type} (s : Session) (file : Nat) (reading : Run SyntaxError α)
    (go : α → Run Empty Reply) : Run Empty Reply :=
  match reading with
  | .ok a => go a
  | .error (.refused e) => return s.complain (.reading file e)
  | .error (.fault x) => .abort x
  | .error .outOfFuel => .error .outOfFuel

/-- Process the declarations of a source. -/
def checkSource (s : Session) (name text : String) : Run Empty Reply :=
  let (s, file) := s.load name text
  s.onceRead file (readProgram text) (declareAll s.keepGoing file s)

/-- Answer the one expression of a source. -/
def normaliseSource (s : Session) (name text : String) : Run Empty Reply :=
  let (s, file) := s.load name text
  s.onceRead file (readTerm text) fun e => declareAll false file s [.expr e]

/-- The exit code of a session that is over. -/
def status (s : Session) : Nat :=
  if s.failed then 1 else 0

/-- Every name with its type. -/
def listing (s : Session) : Run Empty String := do
  if s.signature.entries.isEmpty then return "environment is empty\n"
  let lines ← s.signature.entries.mapM fun e => do
    let type ← s.context.quote s.fuel e.type
    let word := if s.signature.isPostulate e.name then "axiom " else ""
    return s.layout (introduce (word ++ e.name ++ " :") (termDoc type))
  return String.join lines

end Session

end TypeInType
