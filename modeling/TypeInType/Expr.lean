import TypeInType.Text.Range

/-!
# Expressions and declarations

What a source says, with names as they are written and the range of every node.
-/

namespace TypeInType

/-- A name where it is bound or declared. -/
structure Ident where
  range : Range
  name : String
  deriving DecidableEq, Repr, Inhabited

/-- An expression. A function type without a binder is an arrow. -/
inductive Expr where
  | ann (range : Range) (expr type : Expr)
  | star (range : Range)
  | pi (range : Range) (binder : Option Ident) (domain codomain : Expr)
  | var (range : Range) (name : String)
  | app (range : Range) (head arg : Expr)
  | lam (range : Range) (binder : Ident) (body : Expr)
  | number (range : Range) (value : Nat)
  deriving DecidableEq, Repr, Inhabited

namespace Expr

/-- The bytes that the expression covers, the parentheses around it apart. -/
def range : Expr → Range
  | ann r _ _ | star r | pi r _ _ _ | var r _ | app r _ _ | lam r _ _ | number r _ => r

/-- Function types with the given binders, the first one outermost, all of one range. -/
def pis (range : Range) (binders : List (Ident × Expr)) (body : Expr) : Expr :=
  binders.foldr (fun b body => pi range (some b.1) b.2 body) body

/-- Function literals with the given binders, the first one outermost, all of one range. -/
def lams (range : Range) (binders : List Ident) (body : Expr) : Expr :=
  binders.foldr (fun b body => lam range b body) body

end Expr

/-- A declaration. A bare expression stands for the request to check it. -/
inductive Decl where
  | postulate (range : Range) (names : List Ident) (type : Expr)
  | define (range : Range) (name : Ident) (expr : Expr)
  | check (range : Range) (expr : Expr)
  | expr (expr : Expr)
  deriving DecidableEq, Repr, Inhabited

/-- The bytes that the declaration covers. -/
def Decl.range : Decl → Range
  | postulate r _ _ | define r _ _ | check r _ => r
  | expr e => e.range

end TypeInType
