import TypeInType.Value.Quote

/-!
# Read-back with depths of 32 bits

Read-back counts the binders that it goes under. A counter of 32 bits overflows in the end, which a number
does not.
-/

namespace TypeInType

/-- The last depth that can be counted. -/
def maxDepth : Nat := 4294967295

mutual

/-- The normal form of a value, seen from under `depth` binders, which are counted. -/
def Value.quoteCounted (fuel : Nat) (depth : Nat) (v : Value) : Run Empty Check :=
  match fuel with
  | 0 => .error .outOfFuel
  | fuel + 1 =>
    match v with
    | .neutral n => return .synth (← n.quoteCounted fuel depth)
    | .star => return .synth (.star none)
    | .pi x d c => do
      let d ← d.quoteCounted fuel depth
      let c ← c.quoteCounted fuel depth
      return .synth (.pi none x d c)
    | .lam x b => return .lam none x (← b.quoteCounted fuel depth)
    | .nat => return .synth (.nat none)
    | .zero => return .synth (.zero none)
    | .succ n => return .synth (.succ none (← n.quoteCounted fuel depth))
    | .vec a n => do
      let a ← a.quoteCounted fuel depth
      let n ← n.quoteCounted fuel depth
      return .synth (.vec none a n)
    | .nil a => return .synth (.nil none (← a.quoteCounted fuel depth))
    | .cons a n x xs => do
      let a ← a.quoteCounted fuel depth
      let n ← n.quoteCounted fuel depth
      let x ← x.quoteCounted fuel depth
      let xs ← xs.quoteCounted fuel depth
      return .synth (.cons none a n x xs)

/-- The normal form of a neutral value. -/
def Neutral.quoteCounted (fuel : Nat) (depth : Nat) (n : Neutral) : Run Empty Synth :=
  match fuel with
  | 0 => .error .outOfFuel
  | fuel + 1 =>
    match n with
    | .free x => x.quote? depth
    | .app f v => do
      let f ← f.quoteCounted fuel depth
      let v ← v.quoteCounted fuel depth
      return .app none f v
    | .natElim m b s n => do
      let n ← n.quoteCounted fuel depth
      let m ← m.quoteCounted fuel depth
      let b ← b.quoteCounted fuel depth
      let s ← s.quoteCounted fuel depth
      return .natElim none m b s (.synth n)
    | .vecElim a m b s n xs => do
      let xs ← xs.quoteCounted fuel depth
      let a ← a.quoteCounted fuel depth
      let m ← m.quoteCounted fuel depth
      let b ← b.quoteCounted fuel depth
      let s ← s.quoteCounted fuel depth
      let n ← n.quoteCounted fuel depth
      return .vecElim none a m b s n (.synth xs)

/-- The normal form of the body of a binder. The depth is counted after the body has been evaluated. -/
def Closure.quoteCounted (fuel : Nat) (depth : Nat) (c : Closure) : Run Empty Check :=
  match fuel with
  | 0 => .error .outOfFuel
  | fuel + 1 => do
    let v ← c.apply fuel (.free (.quote depth))
    if depth < maxDepth then v.quoteCounted fuel (depth + 1) else .abort .depthOverflow

end

end TypeInType
