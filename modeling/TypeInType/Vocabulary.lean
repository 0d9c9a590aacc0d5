import TypeInType.Run
import TypeInType.Term

/-!
# Vocabularies of formers

Which names a source may use for formers, with the operands that each takes. A name of the
vocabulary is a former wherever no binder shadows it.
-/

namespace TypeInType

/-- How an operand is elaborated. -/
inductive OperandKind where
  | synth
  | check
  deriving DecidableEq, Repr

/-- An operand. -/
inductive Operand where
  | synth (term : Synth)
  | check (term : Check)

/-- A former that sources may use: its name, the kinds of its operands, and the term that it makes
at a span of its operands, unless they do not fit. -/
structure FormerSpec where
  name : String
  kinds : List OperandKind
  build : Span → List Operand → Option Check

namespace FormerSpec

def arity (spec : FormerSpec) : Nat :=
  spec.kinds.length

/-- Make the term, or stop if the operands do not fit. -/
def make {ε : Type} (spec : FormerSpec) (span : Span) (operands : List Operand) : Run ε Check :=
  match spec.build span operands with
  | some t => return t
  | none => .abort .invalidFormerArguments

/-- A former that stands for a constant, whatever operands it is given. -/
def constant (name : String) (build : Span → Synth) : FormerSpec :=
  ⟨name, [], fun s _ => some (.synth (build s))⟩

def nat : FormerSpec :=
  constant Former.nat.name .nat

def zero : FormerSpec :=
  constant Former.zero.name .zero

def succ : FormerSpec :=
  ⟨Former.succ.name, [.check], fun
    | s, [.check n] => some (.synth (.succ s n))
    | _, _ => none⟩

def natElim : FormerSpec :=
  ⟨Former.natElim.name, [.check, .check, .check, .check], fun
    | s, [.check m, .check b, .check t, .check n] => some (.synth (.natElim s m b t n))
    | _, _ => none⟩

def vec : FormerSpec :=
  ⟨Former.vec.name, [.check, .check], fun
    | s, [.check a, .check n] => some (.synth (.vec s a n))
    | _, _ => none⟩

def nil : FormerSpec :=
  ⟨Former.nil.name, [.check], fun
    | s, [.check a] => some (.synth (.nil s a))
    | _, _ => none⟩

def cons : FormerSpec :=
  ⟨Former.cons.name, [.check, .check, .check, .check], fun
    | s, [.check a, .check n, .check x, .check xs] => some (.synth (.cons s a n x xs))
    | _, _ => none⟩

def vecElim : FormerSpec :=
  ⟨Former.vecElim.name, [.check, .check, .check, .check, .check, .check], fun
    | s, [.check a, .check m, .check b, .check t, .check n, .check xs] =>
      some (.synth (.vecElim s a m b t n xs))
    | _, _ => none⟩

/-- `id T e`: the term `e`, which is checked against `T`. -/
def ascribe : FormerSpec :=
  ⟨Former.ascribe.name, [.check, .check], fun
    | s, [.check t, .check e] => some (.ascribe s t e)
    | _, _ => none⟩

/-- `opaque e`: the term `e`, whose type is not inferred outside. -/
def sealed : FormerSpec :=
  ⟨Former.sealed.name, [.synth], fun
    | s, [.synth e] => some (.sealed s e)
    | _, _ => none⟩

end FormerSpec

/-- The formers that a source may use. -/
structure Vocabulary where
  specs : List FormerSpec

namespace Vocabulary

/-- The former with a name. -/
def find? (voc : Vocabulary) (x : String) : Option FormerSpec :=
  voc.specs.find? (·.name == x)

/-- Add a former, in place of one with the same name. -/
def insert (voc : Vocabulary) (spec : FormerSpec) : Vocabulary :=
  ⟨spec :: voc.specs⟩

/-- Natural numbers. -/
def nats : List FormerSpec :=
  [.nat, .zero, .succ, .natElim]

/-- Vectors. -/
def vecs : List FormerSpec :=
  [.vec, .nil, .cons, .vecElim]

/-- Natural numbers and vectors. -/
def builtin : Vocabulary :=
  ⟨nats ++ vecs⟩

end Vocabulary

end TypeInType
