import TypeInType.Scope
import TypeInType.Value.Eval

/-!
# Read-back

The normal form of a value. A closure is read back by applying it to a variable that stands for its
binder; at the end the levels of these variables become indices.
-/

namespace TypeInType

/-- The variable with a name, seen from under `depth` binders of read-back. -/
def Name.quote? (depth : Nat) : Name → Run Empty Synth
  | .quote l =>
    match indexOfLevel? depth l with
    | some i => return .bound none i
    | none => .abort .unboundQuote
  | x => return .free none x

mutual

/-- The normal form of a value, seen from under `depth` binders of read-back. -/
def Value.quote (fuel : Nat) (depth : Nat) (v : Value) : Run Empty Check :=
  match fuel with
  | 0 => .error .outOfFuel
  | fuel + 1 =>
    match v with
    | .neutral n => return .synth (← n.quote fuel depth)
    | .star => return .synth (.star none)
    | .pi x d c => do
      let d ← d.quote fuel depth
      let c ← c.quote fuel depth
      return .synth (.pi none x d c)
    | .lam x b => return .lam none x (← b.quote fuel depth)
    | .nat => return .synth (.nat none)
    | .zero => return .synth (.zero none)
    | .succ n => return .synth (.succ none (← n.quote fuel depth))
    | .vec a n => do
      let a ← a.quote fuel depth
      let n ← n.quote fuel depth
      return .synth (.vec none a n)
    | .nil a => return .synth (.nil none (← a.quote fuel depth))
    | .cons a n x xs => do
      let a ← a.quote fuel depth
      let n ← n.quote fuel depth
      let x ← x.quote fuel depth
      let xs ← xs.quote fuel depth
      return .synth (.cons none a n x xs)

/-- The normal form of a neutral value: the variable first, then each elimination. -/
def Neutral.quote (fuel : Nat) (depth : Nat) (n : Neutral) : Run Empty Synth :=
  match fuel with
  | 0 => .error .outOfFuel
  | fuel + 1 =>
    match n with
    | .free x => x.quote? depth
    | .app f v => do
      let f ← f.quote fuel depth
      let v ← v.quote fuel depth
      return .app none f v
    | .natElim m b s n => do
      let n ← n.quote fuel depth
      let m ← m.quote fuel depth
      let b ← b.quote fuel depth
      let s ← s.quote fuel depth
      return .natElim none m b s (.synth n)
    | .vecElim a m b s n xs => do
      let xs ← xs.quote fuel depth
      let a ← a.quote fuel depth
      let m ← m.quote fuel depth
      let b ← b.quote fuel depth
      let s ← s.quote fuel depth
      let n ← n.quote fuel depth
      return .vecElim none a m b s n (.synth xs)

/-- The normal form of the body of a binder. -/
def Closure.quote (fuel : Nat) (depth : Nat) (c : Closure) : Run Empty Check :=
  match fuel with
  | 0 => .error .outOfFuel
  | fuel + 1 => do
    let v ← c.apply fuel (.free (.quote depth))
    v.quote fuel (depth + 1)

end

/-- The normal form of a term, read back under as many binders as the environment has locals. -/
def Check.normalise (fuel : Nat) (env : Env) (t : Check) : Run Empty Check := do
  let v ← t.eval fuel env
  v.quote fuel env.locals.length

end TypeInType
