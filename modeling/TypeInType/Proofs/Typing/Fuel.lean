import TypeInType.Proofs.Value.Fuel
import TypeInType.Typing

/-!
# Fuel of the checker

Checking that ends with some fuel ends in the same way with more.
-/

namespace TypeInType

open Run (Le)

theorem Value.applyAll_le (fuel : Nat) (args : List Value) (f : Value) :
    (f.applyAll fuel args).Le (f.applyAll (fuel + 1) args) := by
  induction args generalizing f with
  | nil => exact .refl _
  | cons v args ih => exact (Value.apply_le fuel f v).bind ih

namespace Context

variable (ctx : Context) (fuel : Nat)

theorem eval_le (t : Check) : (ctx.eval fuel t).Le (ctx.eval (fuel + 1) t) :=
  Check.eval_le fuel _ t

theorem evalIn_le (locals : List Value) (t : Check) :
    (ctx.evalIn fuel locals t).Le (ctx.evalIn (fuel + 1) locals t) :=
  Check.eval_le fuel _ t

theorem quote_le (v : Value) : (ctx.quote fuel v).Le (ctx.quote (fuel + 1) v) :=
  Value.quote_le fuel _ v

theorem convert_le (span : Span) (expected found : Value) :
    (ctx.convert fuel span expected found).Le (ctx.convert (fuel + 1) span expected found) := by
  unfold Context.convert
  refine (ctx.quote_le fuel expected).widen.bind fun _ => ?_
  exact (ctx.quote_le fuel found).widen.bind fun _ => .refl _

end Context

open Context (eval_le evalIn_le quote_le convert_le)

mutual

theorem Synth.infer_le : ∀ (fuel : Nat) (ctx : Context) (t : Synth),
    (t.infer fuel ctx).Le (t.infer (fuel + 1) ctx)
  | 0, _, _ => .inl rfl
  | fuel + 1, ctx, .ann _ e t => by
    simp only [Synth.infer]
    refine (Check.check_le fuel ctx t .star).bind fun _ => ?_
    refine (eval_le ctx fuel t).widen.bind fun T => ?_
    exact (Check.check_le fuel ctx e T).bind fun _ => .refl _
  | fuel + 1, ctx, .star _ => .refl _
  | fuel + 1, ctx, .pi _ x d c => by
    simp only [Synth.infer]
    refine (Check.check_le fuel ctx d .star).bind fun _ => ?_
    refine (eval_le ctx fuel d).widen.bind fun D => ?_
    refine (Check.check_le fuel (ctx.bind D) (c.subst 0 ctx.freshVar) .star).bind fun _ => ?_
    exact (eval_le (ctx.bind D) fuel _).widen.bind fun _ => .refl _
  | fuel + 1, ctx, .bound _ i => .refl _
  | fuel + 1, ctx, .free span x => .refl _
  | fuel + 1, ctx, .app _ h a => by
    simp only [Synth.infer]
    refine (Synth.infer_le fuel ctx h).bind fun T => ?_
    cases T with
    | pi x d c =>
      refine (Check.check_le fuel ctx a d).bind fun _ => ?_
      refine (eval_le ctx fuel a).widen.bind fun v => ?_
      exact (Check.eval_le fuel _ c.body).widen
    | _ => exact (quote_le ctx fuel _).widen.bind fun _ => .refl _
  | fuel + 1, ctx, .nat _ => .refl _
  | fuel + 1, ctx, .zero _ => .refl _
  | fuel + 1, ctx, .succ _ n => by
    simp only [Synth.infer]
    exact (Check.check_le fuel ctx n .nat).bind fun _ => .refl _
  | fuel + 1, ctx, .natElim _ m b s n => by
    simp only [Synth.infer]
    refine (eval_le ctx fuel (.synth Telescope.natMotive)).widen.bind fun M => ?_
    refine (Check.check_le fuel ctx m M).bind fun _ => ?_
    refine (eval_le ctx fuel m).widen.bind fun mv => ?_
    refine (Value.apply_le fuel mv .zero).widen.bind fun B => ?_
    refine (Check.check_le fuel ctx b B).bind fun _ => ?_
    refine (evalIn_le ctx fuel [mv] (.synth Telescope.natStep)).widen.bind fun S => ?_
    refine (Check.check_le fuel ctx s S).bind fun _ => ?_
    refine (Check.check_le fuel ctx n .nat).bind fun _ => ?_
    refine (eval_le ctx fuel n).widen.bind fun nv => ?_
    exact (Value.apply_le fuel mv nv).widen
  | fuel + 1, ctx, .vec _ a n => by
    simp only [Synth.infer]
    refine (Check.check_le fuel ctx a .star).bind fun _ => ?_
    refine (eval_le ctx fuel a).widen.bind fun _ => ?_
    exact (Check.check_le fuel ctx n .nat).bind fun _ => .refl _
  | fuel + 1, ctx, .nil _ a => by
    simp only [Synth.infer]
    refine (Check.check_le fuel ctx a .star).bind fun _ => ?_
    exact (eval_le ctx fuel a).widen.bind fun _ => .refl _
  | fuel + 1, ctx, .cons _ a n x xs => by
    simp only [Synth.infer]
    refine (Check.check_le fuel ctx a .star).bind fun _ => ?_
    refine (eval_le ctx fuel a).widen.bind fun av => ?_
    refine (Check.check_le fuel ctx n .nat).bind fun _ => ?_
    refine (eval_le ctx fuel n).widen.bind fun nv => ?_
    refine (Check.check_le fuel ctx x av).bind fun _ => ?_
    exact (Check.check_le fuel ctx xs (.vec av nv)).bind fun _ => .refl _
  | fuel + 1, ctx, .vecElim _ a m b s n xs => by
    simp only [Synth.infer]
    refine (Check.check_le fuel ctx a .star).bind fun _ => ?_
    refine (eval_le ctx fuel a).widen.bind fun av => ?_
    refine (evalIn_le ctx fuel [av] (.synth Telescope.vecMotive)).widen.bind fun M => ?_
    refine (Check.check_le fuel ctx m M).bind fun _ => ?_
    refine (eval_le ctx fuel m).widen.bind fun mv => ?_
    refine (Value.applyAll_le fuel _ mv).widen.bind fun B => ?_
    refine (Check.check_le fuel ctx b B).bind fun _ => ?_
    refine (evalIn_le ctx fuel [mv, av] (.synth Telescope.vecStep)).widen.bind fun S => ?_
    refine (Check.check_le fuel ctx s S).bind fun _ => ?_
    refine (Check.check_le fuel ctx n .nat).bind fun _ => ?_
    refine (eval_le ctx fuel n).widen.bind fun nv => ?_
    refine (Check.check_le fuel ctx xs (.vec av nv)).bind fun _ => ?_
    refine (eval_le ctx fuel xs).widen.bind fun xsv => ?_
    exact (Value.applyAll_le fuel _ mv).widen

theorem Check.check_le : ∀ (fuel : Nat) (ctx : Context) (t : Check) (T : Value),
    (t.check fuel ctx T).Le (t.check (fuel + 1) ctx T)
  | 0, _, _, _ => .inl rfl
  | fuel + 1, ctx, .synth t, T => by
    simp only [Check.check]
    exact (Synth.infer_le fuel ctx t).bind fun U => convert_le ctx fuel t.span T U
  | fuel + 1, ctx, .lam span x b, T => by
    simp only [Check.check]
    cases T with
    | pi x d c =>
      refine (eval_le ctx fuel (.synth ctx.freshVar)).widen.bind fun v => ?_
      refine (Check.eval_le fuel _ c.body).widen.bind fun B => ?_
      exact Check.check_le fuel (ctx.bind d) (b.subst 0 ctx.freshVar) B
    | _ => exact (quote_le ctx fuel _).widen.bind fun _ => .refl _
  | fuel + 1, ctx, .ascribe _ t e, T => by
    simp only [Check.check]
    refine (Check.check_le fuel ctx t .star).bind fun _ => ?_
    refine (eval_le ctx fuel t).widen.bind fun U => ?_
    refine (convert_le ctx fuel e.span T U).bind fun _ => ?_
    exact Check.check_le fuel ctx e U
  | fuel + 1, ctx, .sealed _ e, T => by
    simp only [Check.check]
    exact (Synth.infer_le fuel ctx e).bind fun U => convert_le ctx fuel e.span T U

end

end TypeInType
