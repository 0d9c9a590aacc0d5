import TypeInType.Run
import TypeInType.Value

/-!
# Evaluation

Call by value, in an environment. Every call spends one unit of fuel, so a result does not depend on
how much fuel there was beyond what it took.
-/

namespace TypeInType

mutual

/-- The value of a term. -/
def Synth.eval (fuel : Nat) (env : Env) (t : Synth) : Run Empty Value :=
  match fuel with
  | 0 => .error .outOfFuel
  | fuel + 1 =>
    match t with
    | .ann _ e _ => e.eval fuel env
    | .star _ => return .star
    | .pi _ x d c => return .pi x (← d.eval fuel env) ⟨env, c⟩
    | .bound _ i =>
      match env.locals[i]? with
      | some v => return v
      | none => .abort .unboundVariable
    | .free _ (.global x) =>
      match env.global? x with
      | some v => return v
      | none => .abort .unboundGlobal
    | .free _ x => return .free x
    | .app _ h a => do
      let f ← h.eval fuel env
      let v ← a.eval fuel env
      f.apply fuel v
    | .nat _ => return .nat
    | .zero _ => return .zero
    | .succ _ n => return .succ (← n.eval fuel env)
    | .natElim _ m b s n => do
      let m ← m.eval fuel env
      let b ← b.eval fuel env
      let s ← s.eval fuel env
      let n ← n.eval fuel env
      n.natElim fuel m b s
    | .vec _ a n => do
      let a ← a.eval fuel env
      let n ← n.eval fuel env
      return .vec a n
    | .nil _ a => return .nil (← a.eval fuel env)
    | .cons _ a n x xs => do
      let a ← a.eval fuel env
      let n ← n.eval fuel env
      let x ← x.eval fuel env
      let xs ← xs.eval fuel env
      return .cons a n x xs
    | .vecElim _ a m b s n xs => do
      let a ← a.eval fuel env
      let m ← m.eval fuel env
      let b ← b.eval fuel env
      let s ← s.eval fuel env
      let n ← n.eval fuel env
      let xs ← xs.eval fuel env
      xs.vecElim fuel a m b s n

/-- The value of a term. -/
def Check.eval (fuel : Nat) (env : Env) (t : Check) : Run Empty Value :=
  match fuel with
  | 0 => .error .outOfFuel
  | fuel + 1 =>
    match t with
    | .synth t => t.eval fuel env
    | .lam _ x b => return .lam x ⟨env, b⟩
    | .ascribe _ _ e => e.eval fuel env
    | .sealed _ e => e.eval fuel env

/-- Apply a function value. -/
def Value.apply (fuel : Nat) (f v : Value) : Run Empty Value :=
  match fuel with
  | 0 => .error .outOfFuel
  | fuel + 1 =>
    match f with
    | .lam _ b => b.body.eval fuel (b.env.push v)
    | .neutral n => return .neutral (.app n v)
    | _ => .abort .invalidApplication

/-- Eliminate a natural number. The recursive call comes before the step is applied. -/
def Value.natElim (fuel : Nat) (n m b s : Value) : Run Empty Value :=
  match fuel with
  | 0 => .error .outOfFuel
  | fuel + 1 =>
    match n with
    | .zero => return b
    | .succ n => do
      let r ← n.natElim fuel m b s
      let f ← s.apply fuel n
      f.apply fuel r
    | .neutral n => return .neutral (.natElim m b s n)
    | _ => .abort .invalidFormerArguments

/-- Eliminate a vector. Below a `Cons` the length is the one that the `Cons` gives. -/
def Value.vecElim (fuel : Nat) (xs a m b s n : Value) : Run Empty Value :=
  match fuel with
  | 0 => .error .outOfFuel
  | fuel + 1 =>
    match xs with
    | .nil _ => return b
    | .cons _ n x xs => do
      let r ← xs.vecElim fuel a m b s n
      let f ← s.apply fuel n
      let f ← f.apply fuel x
      let f ← f.apply fuel xs
      f.apply fuel r
    | .neutral xs => return .neutral (.vecElim a m b s n xs)
    | _ => .abort .invalidFormerArguments

end

/-- Apply a closure to the value of its bound variable. -/
def Closure.apply (fuel : Nat) (c : Closure) (v : Value) : Run Empty Value :=
  c.body.eval fuel (c.env.push v)

/-- Apply a function value to several arguments in turn. -/
def Value.applyAll (fuel : Nat) (f : Value) (args : List Value) : Run Empty Value :=
  args.foldlM (fun f v => f.apply fuel v) f

end TypeInType
