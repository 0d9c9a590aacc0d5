import TypeInType.Expr.Read
import TypeInType.Term.Elaborate
import TypeInType.Term.Print
import TypeInType.Typing

/-!
# Reports

What the user is told of an error: a message, the place in a source where it arose, and notes.
-/

namespace TypeInType

/-- A place in a source, with what is said of it. -/
structure Label where
  region : Region
  message : String
  deriving DecidableEq, Repr

/-- What the user is told of an error. -/
structure Report where
  message : String
  label : Option Label
  notes : List String
  deriving DecidableEq, Repr

namespace Report

/-- A report of an error at a span, which has no label if the span is empty. -/
def atSpan (message : String) (span : Span) (label : String) (notes : List String) : Report :=
  ⟨message, span.map (⟨·, label⟩), notes⟩

end Report

/-! ## Errors of reading -/

/-- The note that lists what could have stood at the place of an error. -/
def expectationNote (expected : List Token) : String :=
  let quoted := expected.map fun t => "`" ++ t.describe ++ "`"
  match quoted.reverse with
  | [] => "expected nothing"
  | [item] => "expected " ++ item
  | last :: items => "expected one of " ++ ", ".intercalate items.reverse ++ ", or " ++ last

namespace SyntaxError

def message : SyntaxError → String
  | unexpectedCharacter _ => "unexpected character"
  | unexpectedToken _ found _ => "unexpected token `" ++ found ++ "`"
  | unexpectedEnd _ _ => "unexpected end of file"
  | numberTooLarge _ => "number literal is too large"

def label : SyntaxError → String
  | unexpectedCharacter _ => ""
  | unexpectedToken _ _ _ => "unexpected token"
  | unexpectedEnd _ _ => "unexpected end of file"
  | numberTooLarge _ => ""

def notes : SyntaxError → List String
  | unexpectedCharacter _ => []
  | unexpectedToken _ _ expected => [expectationNote expected]
  | unexpectedEnd _ expected => [expectationNote expected]
  | numberTooLarge _ => ["the largest number literal is " ++ toString maxNumber]

/-- The report of an error in the source with a number. -/
def report (file : Nat) (e : SyntaxError) : Report :=
  .atSpan e.message (some ⟨file, e.range⟩) e.label e.notes

end SyntaxError

/-! ## Errors of elaboration -/

namespace ElabError

def message : ElabError → String
  | lambdaNotInferable _ => "cannot infer the type of a function literal"
  | formerNotInferable _ name => "cannot infer the type of term former '" ++ name ++ "'"
  | formerArity _ name expected found =>
    "Term former '" ++ name ++ "' expects " ++ toString expected ++ " argument(s), but got " ++
      toString found
  | numberNotSupported _ =>
    "number literals are not supported without the `Zero` and `Succ` term formers"

def label : ElabError → String
  | lambdaNotInferable _ => "type annotations needed"
  | formerNotInferable _ _ => "type annotations needed"
  | formerArity _ _ _ _ => "missing arguments"
  | numberNotSupported _ => "number literal"

def notes : ElabError → List String
  | lambdaNotInferable _ => ["help: add a type annotation with `:`"]
  | formerNotInferable _ _ => ["help: add a type annotation with `:`"]
  | formerArity _ _ _ _ => ["Term former does not support currying"]
  | numberNotSupported _ => []

def report (e : ElabError) : Report :=
  .atSpan e.message e.span e.label e.notes

end ElabError

/-! ## Errors of typing -/

namespace TypeError

def message : TypeError → String
  | mismatch _ expected found =>
    "type mismatch, expected `" ++ expected.display ++ "`, found `" ++ found.display ++ "`"
  | undefinedVariable _ name _ => "Undefined variable identifier " ++ name
  | expectedFunction _ found => "expected function type, found `" ++ found.display ++ "`"
  | unexpectedLambda _ expected =>
    "lambda checked against non-function type `" ++ expected.display ++ "`"

def label : TypeError → String
  | mismatch _ _ _ => "type mismatch"
  | undefinedVariable _ _ _ => "not found in scope"
  | expectedFunction _ _ => "applied to an argument"
  | unexpectedLambda _ _ => "unexpected function literal"

def notes : TypeError → List String
  | undefinedVariable _ _ (some x) => ["help: a global with a similar name exists: `" ++ x ++ "`"]
  | _ => []

def report (e : TypeError) : Report :=
  .atSpan e.message e.span e.label e.notes

end TypeError

end TypeInType
