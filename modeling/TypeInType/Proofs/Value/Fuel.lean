import TypeInType.Proofs.Run
import TypeInType.Value.Quote

/-!
# Fuel

Evaluation and read-back that end with some fuel end in the same way with more.
-/

namespace TypeInType

open Run (Le)

mutual

theorem Synth.eval_le : ∀ (fuel : Nat) (env : Env) (t : Synth),
    (t.eval fuel env).Le (t.eval (fuel + 1) env)
  | 0, _, _ => .inl rfl
  | fuel + 1, env, .ann _ e _ => by
    simp only [Synth.eval]
    exact Check.eval_le fuel env e
  | fuel + 1, env, .star _ => .refl _
  | fuel + 1, env, .pi _ x d c => by
    simp only [Synth.eval]
    exact (Check.eval_le fuel env d).bind fun _ => .refl _
  | fuel + 1, env, .bound _ i => .refl _
  | fuel + 1, env, .free _ (.global x) => .refl _
  | fuel + 1, env, .free _ (.hyp l) => .refl _
  | fuel + 1, env, .free _ (.quote l) => .refl _
  | fuel + 1, env, .app _ h a => by
    simp only [Synth.eval]
    refine (Synth.eval_le fuel env h).bind fun f => ?_
    exact (Check.eval_le fuel env a).bind fun v => Value.apply_le fuel f v
  | fuel + 1, env, .nat _ => .refl _
  | fuel + 1, env, .zero _ => .refl _
  | fuel + 1, env, .succ _ n => by
    simp only [Synth.eval]
    exact (Check.eval_le fuel env n).bind fun _ => .refl _
  | fuel + 1, env, .natElim _ m b s n => by
    simp only [Synth.eval]
    refine (Check.eval_le fuel env m).bind fun m => ?_
    refine (Check.eval_le fuel env b).bind fun b => ?_
    refine (Check.eval_le fuel env s).bind fun s => ?_
    exact (Check.eval_le fuel env n).bind fun n => Value.natElim_le fuel n m b s
  | fuel + 1, env, .vec _ a n => by
    simp only [Synth.eval]
    refine (Check.eval_le fuel env a).bind fun _ => ?_
    exact (Check.eval_le fuel env n).bind fun _ => .refl _
  | fuel + 1, env, .nil _ a => by
    simp only [Synth.eval]
    exact (Check.eval_le fuel env a).bind fun _ => .refl _
  | fuel + 1, env, .cons _ a n x xs => by
    simp only [Synth.eval]
    refine (Check.eval_le fuel env a).bind fun _ => ?_
    refine (Check.eval_le fuel env n).bind fun _ => ?_
    refine (Check.eval_le fuel env x).bind fun _ => ?_
    exact (Check.eval_le fuel env xs).bind fun _ => .refl _
  | fuel + 1, env, .vecElim _ a m b s n xs => by
    simp only [Synth.eval]
    refine (Check.eval_le fuel env a).bind fun a => ?_
    refine (Check.eval_le fuel env m).bind fun m => ?_
    refine (Check.eval_le fuel env b).bind fun b => ?_
    refine (Check.eval_le fuel env s).bind fun s => ?_
    refine (Check.eval_le fuel env n).bind fun n => ?_
    exact (Check.eval_le fuel env xs).bind fun xs => Value.vecElim_le fuel xs a m b s n

theorem Check.eval_le : ∀ (fuel : Nat) (env : Env) (t : Check),
    (t.eval fuel env).Le (t.eval (fuel + 1) env)
  | 0, _, _ => .inl rfl
  | fuel + 1, env, .synth t => by
    simp only [Check.eval]
    exact Synth.eval_le fuel env t
  | fuel + 1, env, .lam _ x b => .refl _
  | fuel + 1, env, .ascribe _ _ e => by
    simp only [Check.eval]
    exact Check.eval_le fuel env e
  | fuel + 1, env, .sealed _ e => by
    simp only [Check.eval]
    exact Synth.eval_le fuel env e

theorem Value.apply_le : ∀ (fuel : Nat) (f v : Value), (f.apply fuel v).Le (f.apply (fuel + 1) v)
  | 0, _, _ => .inl rfl
  | fuel + 1, f, v => by
    simp only [Value.apply]
    cases f with
    | lam x b => exact Check.eval_le fuel _ b.body
    | _ => exact .refl _

theorem Value.natElim_le : ∀ (fuel : Nat) (n m b s : Value),
    (n.natElim fuel m b s).Le (n.natElim (fuel + 1) m b s)
  | 0, _, _, _, _ => .inl rfl
  | fuel + 1, n, m, b, s => by
    simp only [Value.natElim]
    cases n with
    | succ n =>
      refine (Value.natElim_le fuel n m b s).bind fun r => ?_
      exact (Value.apply_le fuel s n).bind fun f => Value.apply_le fuel f r
    | _ => exact .refl _

theorem Value.vecElim_le : ∀ (fuel : Nat) (xs a m b s n : Value),
    (xs.vecElim fuel a m b s n).Le (xs.vecElim (fuel + 1) a m b s n)
  | 0, _, _, _, _, _, _ => .inl rfl
  | fuel + 1, xs, a, m, b, s, n => by
    simp only [Value.vecElim]
    cases xs with
    | cons e l x xs =>
      refine (Value.vecElim_le fuel xs a m b s l).bind fun r => ?_
      refine (Value.apply_le fuel s l).bind fun f => ?_
      refine (Value.apply_le fuel f x).bind fun f => ?_
      exact (Value.apply_le fuel f xs).bind fun f => Value.apply_le fuel f r
    | _ => exact .refl _

end

mutual

theorem Value.quote_le : ∀ (fuel depth : Nat) (v : Value),
    (v.quote fuel depth).Le (v.quote (fuel + 1) depth)
  | 0, _, _ => .inl rfl
  | fuel + 1, depth, .neutral n => by
    simp only [Value.quote]
    exact (Neutral.quote_le fuel depth n).bind fun _ => .refl _
  | fuel + 1, depth, .star => .refl _
  | fuel + 1, depth, .pi x d c => by
    simp only [Value.quote]
    refine (Value.quote_le fuel depth d).bind fun _ => ?_
    exact (Closure.quote_le fuel depth c).bind fun _ => .refl _
  | fuel + 1, depth, .lam x b => by
    simp only [Value.quote]
    exact (Closure.quote_le fuel depth b).bind fun _ => .refl _
  | fuel + 1, depth, .nat => .refl _
  | fuel + 1, depth, .zero => .refl _
  | fuel + 1, depth, .succ n => by
    simp only [Value.quote]
    exact (Value.quote_le fuel depth n).bind fun _ => .refl _
  | fuel + 1, depth, .vec a n => by
    simp only [Value.quote]
    refine (Value.quote_le fuel depth a).bind fun _ => ?_
    exact (Value.quote_le fuel depth n).bind fun _ => .refl _
  | fuel + 1, depth, .nil a => by
    simp only [Value.quote]
    exact (Value.quote_le fuel depth a).bind fun _ => .refl _
  | fuel + 1, depth, .cons a n x xs => by
    simp only [Value.quote]
    refine (Value.quote_le fuel depth a).bind fun _ => ?_
    refine (Value.quote_le fuel depth n).bind fun _ => ?_
    refine (Value.quote_le fuel depth x).bind fun _ => ?_
    exact (Value.quote_le fuel depth xs).bind fun _ => .refl _

theorem Neutral.quote_le : ∀ (fuel depth : Nat) (n : Neutral),
    (n.quote fuel depth).Le (n.quote (fuel + 1) depth)
  | 0, _, _ => .inl rfl
  | fuel + 1, depth, .free x => .refl _
  | fuel + 1, depth, .app f v => by
    simp only [Neutral.quote]
    refine (Neutral.quote_le fuel depth f).bind fun _ => ?_
    exact (Value.quote_le fuel depth v).bind fun _ => .refl _
  | fuel + 1, depth, .natElim m b s n => by
    simp only [Neutral.quote]
    refine (Neutral.quote_le fuel depth n).bind fun _ => ?_
    refine (Value.quote_le fuel depth m).bind fun _ => ?_
    refine (Value.quote_le fuel depth b).bind fun _ => ?_
    exact (Value.quote_le fuel depth s).bind fun _ => .refl _
  | fuel + 1, depth, .vecElim a m b s n xs => by
    simp only [Neutral.quote]
    refine (Neutral.quote_le fuel depth xs).bind fun _ => ?_
    refine (Value.quote_le fuel depth a).bind fun _ => ?_
    refine (Value.quote_le fuel depth m).bind fun _ => ?_
    refine (Value.quote_le fuel depth b).bind fun _ => ?_
    refine (Value.quote_le fuel depth s).bind fun _ => ?_
    exact (Value.quote_le fuel depth n).bind fun _ => .refl _

theorem Closure.quote_le : ∀ (fuel depth : Nat) (c : Closure),
    (c.quote fuel depth).Le (c.quote (fuel + 1) depth)
  | 0, _, _ => .inl rfl
  | fuel + 1, depth, c => by
    simp only [Closure.quote, Closure.apply]
    refine (Check.eval_le fuel _ c.body).bind fun v => ?_
    exact Value.quote_le fuel (depth + 1) v

end

theorem Value.quote_mono {fuel fuel' depth : Nat} {v : Value} {r : Check} (h : fuel ≤ fuel')
    (hr : v.quote fuel depth = .ok r) : v.quote fuel' depth = .ok r :=
  (Le.of_succ (fun n => Value.quote_le n depth v) h).eq_ok hr

end TypeInType
