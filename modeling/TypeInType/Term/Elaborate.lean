import TypeInType.Expr
import TypeInType.Vocabulary

/-!
# Elaboration

From expressions to terms: names become indices or names of the signature, formers are applied to
all their operands, and number literals become chains of successors.
-/

namespace TypeInType

/-- Why an expression stands for no term. -/
inductive ElabError where
  | lambdaNotInferable (span : Span)
  | formerNotInferable (span : Span) (name : String)
  | formerArity (span : Span) (name : String) (expected found : Nat)
  | numberNotSupported (span : Span)
  deriving DecidableEq, Repr

/-- Where the error is. -/
def ElabError.span : ElabError → Span
  | lambdaNotInferable s | formerNotInferable s _ | formerArity s _ _ _ | numberNotSupported s => s

/-- A term whose type can be inferred, if this is one. -/
def Check.inferable : Check → Run ElabError Synth
  | .synth t => return t
  | .lam s _ _ => .refuse (.lambdaNotInferable s)
  | .ascribe s _ _ => .refuse (.formerNotInferable s Former.ascribe.name)
  | .sealed s _ => .refuse (.formerNotInferable s Former.sealed.name)

/-- The operand of a kind that a term gives. -/
def Operand.ofKind : OperandKind → Check → Run ElabError Operand
  | .synth, t => return .synth (← t.inferable)
  | .check, t => return .check t

/-- The head of an application on the way to a term: a former that waits for operands of the given
kinds, with those that it has, the last first; or a term. -/
inductive Head where
  | waiting (spec : FormerSpec) (operands : List Operand) (kinds : List OperandKind)
  | term (t : Check)

namespace Head

/-- A former with some operands, at a span. It is a term once it waits for no more. -/
def ofFormer (spec : FormerSpec) (span : Span) (operands : List Operand) :
    List OperandKind → Run ElabError Head
  | [] => return .term (← spec.make span operands.reverse)
  | kind :: kinds => return .waiting spec operands (kind :: kinds)

/-- Apply the head to one more argument. The span is that of the application. -/
def apply (span : Span) (arg : Unit → Run ElabError Check) : Head → Run ElabError Head
  | .waiting spec operands (kind :: kinds) => do
    let t ← arg ()
    let operand ← Operand.ofKind kind t
    ofFormer spec span (operand :: operands) kinds
  | .waiting _ _ [] => .abort .invalidFormerArguments
  | .term t => do
    let t ← t.inferable
    let a ← arg ()
    return .term (.synth (.app span t a))

/-- The term that the head has become. -/
def finish : Head → Run ElabError Check
  | .term t => return t
  | .waiting _ _ _ => .abort .invalidFormerArguments

end Head

namespace Elaborate

variable (file : Nat) (voc : Vocabulary)

/-- The span of a node. -/
def span (range : Range) : Span :=
  some ⟨file, range⟩

/-- A chain of successors. -/
def successors (zero succ : FormerSpec) (kind : OperandKind) (s : Span) : Nat → Run ElabError Check
  | 0 => zero.make s []
  | n + 1 => do
    let t ← successors zero succ kind s n
    let operand ← Operand.ofKind kind t
    succ.make s [operand]

/-- The term of a number literal. -/
def number (range : Range) (n : Nat) : Run ElabError Check :=
  match voc.find? Former.zero.name, voc.find? Former.succ.name with
  | some zero, some succ =>
    match zero.kinds, succ.kinds with
    | [], [kind] => successors zero succ kind (span file range) n
    | _, _ => .refuse (.numberNotSupported (span file range))
  | _, _ => .refuse (.numberNotSupported (span file range))

/-- A name at the head of an application to `args` arguments with the given range in all: a bound
variable, a former, or a name of the signature. -/
def name (scope : List (Option String)) (whole : Range) (args : Nat) (range : Range) (x : String) :
    Run ElabError Head :=
  match scope.findIdx? (· == some x) with
  | some i => return .term (.synth (.bound (span file range) i))
  | none =>
    match voc.find? x with
    | some spec =>
      if args < spec.arity then
        .refuse (.formerArity (span file whole) spec.name spec.arity args)
      else Head.ofFormer spec (span file range) [] spec.kinds
    | none => return .term (.synth (.free (span file range) (.global x)))

/-- An expression applied to `args` arguments, the application having the given range in all. The
names of the binders in scope are listed with the innermost first. -/
def head (scope : List (Option String)) (whole : Range) (args : Nat) : Expr → Run ElabError Head
  | .ann r e t => do
    let e ← (← head scope e.range 0 e).finish
    let t ← (← head scope t.range 0 t).finish
    return .term (.synth (.ann (span file r) e t))
  | .star r => return .term (.synth (.star (span file r)))
  | .pi r x d c => do
    let x := x.map Ident.name
    let d ← (← head scope d.range 0 d).finish
    let c ← (← head (x :: scope) c.range 0 c).finish
    return .term (.synth (.pi (span file r) x d c))
  | .var r x => name file voc scope whole args r x
  | .app r h a => do
    let h ← head scope whole (args + 1) h
    h.apply (span file r) fun _ => do (← head scope a.range 0 a).finish
  | .lam r x b => do
    let b ← (← head (some x.name :: scope) b.range 0 b).finish
    return .term (.lam (span file r) (some x.name) b)
  | .number r n => return .term (← number file voc r n)

/-- The term of an expression by itself. -/
def check (scope : List (Option String)) (e : Expr) : Run ElabError Check := do
  (← head file voc scope e.range 0 e).finish

end Elaborate

/-- Elaborate an expression without free bound variables to a term whose type can be inferred. -/
def Expr.elaborate (file : Nat) (voc : Vocabulary) (e : Expr) : Run ElabError Synth := do
  let t ← Elaborate.check file voc [] e
  t.inferable

end TypeInType
