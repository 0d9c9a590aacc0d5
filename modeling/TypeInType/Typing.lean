import TypeInType.Signature
import TypeInType.Text.Distance
import TypeInType.Value.Quote

/-!
# Typing

Bidirectional checking. Types are values; two types are equal when they have the same normal form.
Under a binder the bound variable is replaced by a fresh hypothesis.
-/

namespace TypeInType

/-- Why a term has no type, or not the one that it is checked against. -/
inductive TypeError where
  | mismatch (span : Span) (expected found : Check)
  | undefinedVariable (span : Span) (name : String) (suggestion : Option String)
  | expectedFunction (span : Span) (found : Check)
  | unexpectedLambda (span : Span) (expected : Check)

/-- Where the error is. -/
def TypeError.span : TypeError → Span
  | mismatch s _ _ | undefinedVariable s _ _ | expectedFunction s _ | unexpectedLambda s _ => s

/-- The signature, and the types of the hypotheses, the innermost first. -/
structure Context where
  signature : Signature
  hyps : List Value

/-- The first name at the least distance. -/
def nearest? (distance : String → Nat) : List String → Option String
  | [] => none
  | x :: xs =>
    match nearest? distance xs with
    | some y => if distance y < distance x then some y else some x
    | none => some x

namespace Context

/-- The context without hypotheses. -/
def ofSignature (sig : Signature) : Context :=
  ⟨sig, []⟩

/-- The number of hypotheses. -/
def depth (ctx : Context) : Nat :=
  ctx.hyps.length

/-- The variable that stands for the next hypothesis. -/
def freshVar (ctx : Context) : Synth :=
  .free none (.hyp ctx.depth)

/-- Add a hypothesis. -/
def bind (ctx : Context) (type : Value) : Context :=
  { ctx with hyps := type :: ctx.hyps }

/-- The environment with the given values of bound variables. -/
def env (ctx : Context) (locals : List Value) : Env :=
  ⟨ctx.signature.values, locals⟩

/-- The value of a term in which the given values stand for the bound variables. -/
def evalIn (ctx : Context) (fuel : Nat) (locals : List Value) (t : Check) : Run Empty Value :=
  t.eval fuel (ctx.env locals)

/-- The value of a term without bound variables. -/
def eval (ctx : Context) (fuel : Nat) (t : Check) : Run Empty Value :=
  ctx.evalIn fuel [] t

/-- The normal form of a value. -/
def quote (ctx : Context) (fuel : Nat) (v : Value) : Run Empty Check :=
  v.quote fuel ctx.depth

/-- The first of the nearest names that are at most two edits away from `x`. -/
def suggestion? (ctx : Context) (x : String) : Option String :=
  let distance (y : String) := editDistance x.toList y.toList
  nearest? distance (ctx.signature.names.filter fun y => distance y ≤ 2)

/-- The type of a free variable. -/
def lookup (ctx : Context) (span : Span) : Name → Run TypeError Value
  | .global x =>
    match ctx.signature.type? x with
    | some type => return type
    | none => .refuse (.undefinedVariable span x (ctx.suggestion? x))
  | .hyp l =>
    match atLevel? ctx.hyps l with
    | some type => return type
    | none => .abort .unboundVariable
  | .quote _ => .abort .unboundQuote

/-- Types are equal when their normal forms are. -/
def convert (ctx : Context) (fuel : Nat) (span : Span) (expected found : Value) :
    Run TypeError Unit := do
  let expected ← (ctx.quote fuel expected).widen
  let found ← (ctx.quote fuel found).widen
  if expected.alphaEq found then return ()
  else .refuse (.mismatch span expected found)

end Context

/-! ## The types of the eliminators' arguments -/

namespace Telescope

/-- A bound variable. -/
def var (i : Nat) : Synth :=
  .bound none i

/-- A function type that does not depend on its argument. The codomain counts the argument. -/
def arrow (domain codomain : Synth) : Synth :=
  .pi none none (.synth domain) (.synth codomain)

/-- A function type. -/
def pi (x : String) (domain codomain : Synth) : Synth :=
  .pi none (some x) (.synth domain) (.synth codomain)

def app (head arg : Synth) : Synth :=
  .app none head (.synth arg)

def nat : Synth :=
  .nat none

def succ (n : Synth) : Synth :=
  .succ none (.synth n)

def vec (a n : Synth) : Synth :=
  .vec none (.synth a) (.synth n)

def cons (a n x xs : Synth) : Synth :=
  .cons none (.synth a) (.synth n) (.synth x) (.synth xs)

/-- `Nat -> *`. -/
def natMotive : Synth :=
  arrow nat (.star none)

/-- `forall (n : Nat) -> m n -> m (Succ n)`, where the bound variable is `m`. -/
def natStep : Synth :=
  pi "n" nat (arrow (app (var 1) (var 0)) (app (var 2) (succ (var 1))))

/-- `forall (n : Nat) -> Vec a n -> *`, where the bound variable is `a`. -/
def vecMotive : Synth :=
  pi "n" nat (arrow (vec (var 1) (var 0)) (.star none))

/-- `forall (n : Nat) (x : a) (xs : Vec a n) -> m n xs -> m (Succ n) (Cons a n x xs)`, where the
bound variables are `m` and, outside it, `a`. -/
def vecStep : Synth :=
  pi "n" nat (pi "x" (var 2) (pi "xs" (vec (var 3) (var 1))
    (arrow (app (app (var 3) (var 2)) (var 0))
      (app (app (var 4) (succ (var 3))) (cons (var 5) (var 3) (var 2) (var 1))))))

end Telescope

/-! ## Checking -/

mutual

/-- The type of a term. -/
def Synth.infer (fuel : Nat) (ctx : Context) (t : Synth) : Run TypeError Value :=
  match fuel with
  | 0 => .error .outOfFuel
  | fuel + 1 =>
    match t with
    | .ann _ e t => do
      t.check fuel ctx .star
      let type ← (ctx.eval fuel t).widen
      e.check fuel ctx type
      return type
    | .star _ => return .star
    | .pi _ _ d c => do
      d.check fuel ctx .star
      let domain ← (ctx.eval fuel d).widen
      let codomain := c.subst 0 ctx.freshVar
      codomain.check fuel (ctx.bind domain) .star
      let _ ← ((ctx.bind domain).eval fuel codomain).widen
      return .star
    | .bound _ _ => .abort .unexpectedBound
    | .free span x => ctx.lookup span x
    | .app _ h a => do
      match ← h.infer fuel ctx with
      | .pi _ domain codomain =>
        a.check fuel ctx domain
        let v ← (ctx.eval fuel a).widen
        (codomain.apply fuel v).widen
      | type => .refuse (.expectedFunction h.span (← (ctx.quote fuel type).widen))
    | .nat _ => return .star
    | .zero _ => return .nat
    | .succ _ n => do
      n.check fuel ctx .nat
      return .nat
    | .natElim _ m b s n => do
      let motiveType ← (ctx.eval fuel (.synth Telescope.natMotive)).widen
      m.check fuel ctx motiveType
      let motive ← (ctx.eval fuel m).widen
      let baseType ← (motive.apply fuel .zero).widen
      b.check fuel ctx baseType
      let stepType ← (ctx.evalIn fuel [motive] (.synth Telescope.natStep)).widen
      s.check fuel ctx stepType
      n.check fuel ctx .nat
      let scrut ← (ctx.eval fuel n).widen
      (motive.apply fuel scrut).widen
    | .vec _ a n => do
      a.check fuel ctx .star
      let _ ← (ctx.eval fuel a).widen
      n.check fuel ctx .nat
      return .star
    | .nil _ a => do
      a.check fuel ctx .star
      let elem ← (ctx.eval fuel a).widen
      return .vec elem .zero
    | .cons _ a n x xs => do
      a.check fuel ctx .star
      let elem ← (ctx.eval fuel a).widen
      n.check fuel ctx .nat
      let len ← (ctx.eval fuel n).widen
      x.check fuel ctx elem
      xs.check fuel ctx (.vec elem len)
      return .vec elem (.succ len)
    | .vecElim _ a m b s n xs => do
      a.check fuel ctx .star
      let elem ← (ctx.eval fuel a).widen
      let motiveType ← (ctx.evalIn fuel [elem] (.synth Telescope.vecMotive)).widen
      m.check fuel ctx motiveType
      let motive ← (ctx.eval fuel m).widen
      let baseType ← (motive.applyAll fuel [.zero, .nil elem]).widen
      b.check fuel ctx baseType
      let stepType ← (ctx.evalIn fuel [motive, elem] (.synth Telescope.vecStep)).widen
      s.check fuel ctx stepType
      n.check fuel ctx .nat
      let len ← (ctx.eval fuel n).widen
      xs.check fuel ctx (.vec elem len)
      let scrut ← (ctx.eval fuel xs).widen
      (motive.applyAll fuel [len, scrut]).widen

/-- Check a term against a type. -/
def Check.check (fuel : Nat) (ctx : Context) (t : Check) (type : Value) : Run TypeError Unit :=
  match fuel with
  | 0 => .error .outOfFuel
  | fuel + 1 =>
    match t with
    | .synth t => do
      let found ← t.infer fuel ctx
      ctx.convert fuel t.span type found
    | .lam span _ b =>
      match type with
      | .pi _ domain codomain => do
        let v ← (ctx.eval fuel (.synth ctx.freshVar)).widen
        let bodyType ← (codomain.apply fuel v).widen
        (b.subst 0 ctx.freshVar).check fuel (ctx.bind domain) bodyType
      | type => do
        .refuse (.unexpectedLambda span (← (ctx.quote fuel type).widen))
    | .ascribe _ t e => do
      t.check fuel ctx .star
      let found ← (ctx.eval fuel t).widen
      ctx.convert fuel e.span type found
      e.check fuel ctx found
    | .sealed _ e => do
      let found ← e.infer fuel ctx
      ctx.convert fuel e.span type found

end

/-- Check that a term is a type, and evaluate it. -/
def Check.checkType (fuel : Nat) (ctx : Context) (t : Check) : Run TypeError Value := do
  t.check fuel ctx .star
  (ctx.eval fuel t).widen

end TypeInType
