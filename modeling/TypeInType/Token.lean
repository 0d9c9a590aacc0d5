import TypeInType.Text.Range

/-!
# Tokens

The classes of token, and lexemes: occurrences of a token in a source.
-/

namespace TypeInType

/-- The classes of token. Names and number literals are told apart by the text of their lexeme. -/
inductive Token where
  | name
  | number
  | axiomWord
  | checkWord
  | defunWord
  | forallSign
  | lambdaSign
  | colon
  | comma
  | equals
  | dot
  | arrow
  | star
  | openParen
  | closeParen
  deriving DecidableEq, Repr, Inhabited

namespace Token

/-- What a message calls the token. -/
def describe : Token → String
  | name => "name"
  | number => "number literal"
  | axiomWord => "axiom"
  | checkWord => "check"
  | defunWord => "defun"
  | forallSign => "forall"
  | lambdaSign => "lambda"
  | colon => ":"
  | comma => ","
  | equals => "="
  | dot => "."
  | arrow => "->"
  | star => "*"
  | openParen => "("
  | closeParen => ")"

/-- The words that begin a declaration. -/
def startsDecl : Token → Bool
  | axiomWord | checkWord | defunWord => true
  | _ => false

/-- The tokens that begin an atomic expression. -/
def startsAtom : Token → Bool
  | openParen | name | star | number => true
  | _ => false

end Token

/-- An occurrence of a token: its text, and the byte at which the text starts. -/
structure Lexeme where
  token : Token
  text : String
  start : Nat
  deriving DecidableEq, Repr, Inhabited

/-- The bytes that the lexeme covers. -/
def Lexeme.range (l : Lexeme) : Range :=
  ⟨l.start, l.start + byteLength l.text.toList⟩

end TypeInType
