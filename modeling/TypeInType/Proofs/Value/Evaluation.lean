import TypeInType.Proofs.Core.Reduction
import TypeInType.Proofs.Run
import TypeInType.Proofs.Value.Embedding
import TypeInType.Value.Eval

/-!
# Evaluation as reduction

A term in an environment reduces to its value, and evaluation introduces no name. Both go by
induction on the fuel.
-/

namespace TypeInType

open TypeInType.Core (Reds)
open Run (bind_eq_ok pure_eq_ok)

/-! ## Values are reducts -/

section Reduction

variable (Θ : Theory) (ρ : Atom → Core)

mutual

theorem Synth.eval_reds : ∀ {fuel : Nat} {env : Env} {t : Synth} {v : Value},
    t.eval fuel env = .ok v → Reds Θ (t.erase (env.names ρ) (env.bound ρ)) (v.embed ρ)
  | 0, _, _, _, h => by simp only [Synth.eval, reduceCtorEq] at h
  | fuel + 1, env, .ann _ e _, v, h => by
    simp only [Synth.eval] at h
    exact Check.eval_reds h
  | fuel + 1, env, .star _, v, h => by
    simp only [Synth.eval, pure_eq_ok] at h
    subst h
    simp only [Value.embed, Synth.erase]
    exact .refl
  | fuel + 1, env, .pi _ x d c, v, h => by
    simp only [Synth.eval, bind_eq_ok, pure_eq_ok] at h
    obtain ⟨d', hd, rfl⟩ := h
    simp only [Value.embed, Synth.erase, Closure.embed]
    exact (Check.eval_reds hd).pi .refl
  | fuel + 1, env, .bound _ i, v, h => by
    simp only [Synth.eval] at h
    split at h
    · rename_i w hw
      cases h
      rw [Synth.erase, Env.bound_local hw]
    · cases h
  | fuel + 1, env, .free _ (.global x), v, h => by
    simp only [Synth.eval] at h
    split at h
    · rename_i w hw
      cases h
      rw [Synth.erase, Env.names_global hw]
    · cases h
  | fuel + 1, env, .free _ (.hyp l), v, h => by
    simp only [Synth.eval, pure_eq_ok] at h
    subst h
    simp only [Synth.erase, Env.names, Value.free, Value.embed, Neutral.embed]
    exact .refl
  | fuel + 1, env, .free _ (.quote l), v, h => by
    simp only [Synth.eval, pure_eq_ok] at h
    subst h
    simp only [Synth.erase, Env.names, Value.free, Value.embed, Neutral.embed]
    exact .refl
  | fuel + 1, env, .app _ f a, v, h => by
    simp only [Synth.eval, bind_eq_ok] at h
    obtain ⟨f', hf, a', ha, hv⟩ := h
    exact ((Synth.eval_reds hf).app (Check.eval_reds ha)).trans (Value.apply_reds hv)
  | fuel + 1, env, .nat _, v, h => by
    simp only [Synth.eval, pure_eq_ok] at h
    subst h
    simp only [Value.embed, Synth.erase]
    exact .refl
  | fuel + 1, env, .zero _, v, h => by
    simp only [Synth.eval, pure_eq_ok] at h
    subst h
    simp only [Value.embed, Synth.erase]
    exact .refl
  | fuel + 1, env, .succ _ n, v, h => by
    simp only [Synth.eval, bind_eq_ok, pure_eq_ok] at h
    obtain ⟨n', hn, rfl⟩ := h
    simp only [Value.embed, Synth.erase]
    exact (Check.eval_reds hn).succ
  | fuel + 1, env, .natElim _ m b s n, v, h => by
    simp only [Synth.eval, bind_eq_ok] at h
    obtain ⟨m', hm, b', hb, s', hs, n', hn, hv⟩ := h
    exact ((Check.eval_reds hm).natElim (Check.eval_reds hb) (Check.eval_reds hs)
      (Check.eval_reds hn)).trans (Value.natElim_reds hv)
  | fuel + 1, env, .vec _ a n, v, h => by
    simp only [Synth.eval, bind_eq_ok, pure_eq_ok] at h
    obtain ⟨a', ha, n', hn, rfl⟩ := h
    simp only [Value.embed, Synth.erase]
    exact (Check.eval_reds ha).vec (Check.eval_reds hn)
  | fuel + 1, env, .nil _ a, v, h => by
    simp only [Synth.eval, bind_eq_ok, pure_eq_ok] at h
    obtain ⟨a', ha, rfl⟩ := h
    simp only [Value.embed, Synth.erase]
    exact (Check.eval_reds ha).nil
  | fuel + 1, env, .cons _ a n x xs, v, h => by
    simp only [Synth.eval, bind_eq_ok, pure_eq_ok] at h
    obtain ⟨a', ha, n', hn, x', hx, xs', hxs, rfl⟩ := h
    simp only [Value.embed, Synth.erase]
    exact (Check.eval_reds ha).cons (Check.eval_reds hn) (Check.eval_reds hx) (Check.eval_reds hxs)
  | fuel + 1, env, .vecElim _ a m b s n xs, v, h => by
    simp only [Synth.eval, bind_eq_ok] at h
    obtain ⟨a', ha, m', hm, b', hb, s', hs, n', hn, xs', hxs, hv⟩ := h
    exact ((Check.eval_reds ha).vecElim (Check.eval_reds hm) (Check.eval_reds hb)
      (Check.eval_reds hs) (Check.eval_reds hn) (Check.eval_reds hxs)).trans
      (Value.vecElim_reds hv)

theorem Check.eval_reds : ∀ {fuel : Nat} {env : Env} {t : Check} {v : Value},
    t.eval fuel env = .ok v → Reds Θ (t.erase (env.names ρ) (env.bound ρ)) (v.embed ρ)
  | 0, _, _, _, h => by simp only [Check.eval, reduceCtorEq] at h
  | fuel + 1, env, .synth t, v, h => by
    simp only [Check.eval] at h
    exact Synth.eval_reds h
  | fuel + 1, env, .lam _ x b, v, h => by
    simp only [Check.eval, pure_eq_ok] at h
    subst h
    simp only [Value.embed, Check.erase, Closure.embed]
    exact .refl
  | fuel + 1, env, .ascribe _ _ e, v, h => by
    simp only [Check.eval] at h
    rw [Check.erase]
    exact Check.eval_reds h
  | fuel + 1, env, .sealed _ e, v, h => by
    simp only [Check.eval] at h
    exact Synth.eval_reds h

theorem Value.apply_reds : ∀ {fuel : Nat} {f a v : Value},
    f.apply fuel a = .ok v → Reds Θ (.app (f.embed ρ) (a.embed ρ)) (v.embed ρ)
  | 0, _, _, _, h => by simp only [Value.apply, reduceCtorEq] at h
  | fuel + 1, f, a, v, h => by
    simp only [Value.apply] at h
    split at h
    · rename_i x b
      simp only [Value.embed]
      refine (Reds.beta _ _).trans ?_
      rw [Closure.inst_embed]
      exact Check.eval_reds h
    · cases h
      simp only [Value.embed, Neutral.embed]
      exact .refl
    · cases h

theorem Value.natElim_reds : ∀ {fuel : Nat} {n m b s v : Value},
    n.natElim fuel m b s = .ok v →
      Reds Θ (.natElim (m.embed ρ) (b.embed ρ) (s.embed ρ) (n.embed ρ)) (v.embed ρ)
  | 0, _, _, _, _, _, h => by simp only [Value.natElim, reduceCtorEq] at h
  | fuel + 1, n, m, b, s, v, h => by
    simp only [Value.natElim] at h
    split at h
    · cases h
      simp only [Value.embed]
      exact Reds.natZero _ _ _
    · rename_i p
      simp only [bind_eq_ok] at h
      obtain ⟨r, hr, f, hf, hv⟩ := h
      simp only [Value.embed]
      refine (Reds.natSucc _ _ _ _).trans ?_
      exact ((Value.apply_reds hf).app (Value.natElim_reds hr)).trans (Value.apply_reds hv)
    · cases h
      simp only [Value.embed, Neutral.embed]
      exact .refl
    · cases h

theorem Value.vecElim_reds : ∀ {fuel : Nat} {xs a m b s n v : Value},
    xs.vecElim fuel a m b s n = .ok v →
      Reds Θ (.vecElim (a.embed ρ) (m.embed ρ) (b.embed ρ) (s.embed ρ) (n.embed ρ) (xs.embed ρ))
        (v.embed ρ)
  | 0, _, _, _, _, _, _, _, h => by simp only [Value.vecElim, reduceCtorEq] at h
  | fuel + 1, xs, a, m, b, s, n, v, h => by
    simp only [Value.vecElim] at h
    split at h
    · cases h
      simp only [Value.embed]
      exact Reds.vecNil _ _ _ _ _ _
    · rename_i e l y ys
      simp only [bind_eq_ok] at h
      obtain ⟨r, hr, f₁, hf₁, f₂, hf₂, f₃, hf₃, hv⟩ := h
      simp only [Value.embed]
      refine (Reds.vecCons _ _ _ _ _ _ _ _ _).trans ?_
      have h₁ := Value.apply_reds hf₁
      have h₂ := (Reds.app h₁ .refl).trans (Value.apply_reds hf₂)
      have h₃ := (Reds.app h₂ .refl).trans (Value.apply_reds hf₃)
      exact (Reds.app h₃ (Value.vecElim_reds hr)).trans (Value.apply_reds hv)
    · cases h
      simp only [Value.embed, Neutral.embed]
      exact .refl
    · cases h

end

theorem Closure.apply_reds {fuel : Nat} {c : Closure} {a v : Value} (h : c.apply fuel a = .ok v) :
    Reds Θ ((c.embed ρ).inst (a.embed ρ)) (v.embed ρ) := by
  rw [Closure.inst_embed]
  exact Check.eval_reds Θ ρ h

end Reduction

/-! ## Values stay in scope -/

section Scope

variable {D : Indices} {P : Name → Prop}

mutual

theorem Synth.eval_scopedBy : ∀ {fuel : Nat} {env : Env} {t : Synth} {k : Nat} {v : Value},
    env.ScopedBy D P → D.Allows env.locals.length k → t.Scoped (OrGlobal P) k →
      t.eval fuel env = .ok v → v.ScopedBy D P
  | 0, _, _, _, _, _, _, _, h => by simp only [Synth.eval, reduceCtorEq] at h
  | fuel + 1, env, .ann _ e _, k, v, henv, hk, ht, h => by
    simp only [Synth.eval] at h
    exact Check.eval_scopedBy henv hk ht.1 h
  | fuel + 1, env, .star _, k, v, _, _, _, h => by
    simp only [Synth.eval, pure_eq_ok] at h
    subst h
    trivial
  | fuel + 1, env, .pi _ x d c, k, v, henv, hk, ht, h => by
    simp only [Synth.eval, bind_eq_ok, pure_eq_ok] at h
    obtain ⟨d', hd, rfl⟩ := h
    exact ⟨Check.eval_scopedBy henv hk ht.1 hd, henv, k, hk, ht.2⟩
  | fuel + 1, env, .bound _ i, k, v, henv, _, _, h => by
    simp only [Synth.eval] at h
    split at h
    · rename_i w hw
      cases h
      exact henv.get hw
    · cases h
  | fuel + 1, env, .free _ (.global x), k, v, henv, _, _, h => by
    simp only [Synth.eval] at h
    split at h
    · rename_i w hw
      cases h
      exact henv.global hw
    · cases h
  | fuel + 1, env, .free _ (.hyp l), k, v, _, _, ht, h => by
    simp only [Synth.eval, pure_eq_ok] at h
    subst h
    exact ht
  | fuel + 1, env, .free _ (.quote l), k, v, _, _, ht, h => by
    simp only [Synth.eval, pure_eq_ok] at h
    subst h
    exact ht
  | fuel + 1, env, .app _ f a, k, v, henv, hk, ht, h => by
    simp only [Synth.eval, bind_eq_ok] at h
    obtain ⟨f', hf, a', ha, hv⟩ := h
    exact Value.apply_scopedBy (Synth.eval_scopedBy henv hk ht.1 hf)
      (Check.eval_scopedBy henv hk ht.2 ha) hv
  | fuel + 1, env, .nat _, k, v, _, _, _, h => by
    simp only [Synth.eval, pure_eq_ok] at h
    subst h
    trivial
  | fuel + 1, env, .zero _, k, v, _, _, _, h => by
    simp only [Synth.eval, pure_eq_ok] at h
    subst h
    trivial
  | fuel + 1, env, .succ _ n, k, v, henv, hk, ht, h => by
    simp only [Synth.eval, bind_eq_ok, pure_eq_ok] at h
    obtain ⟨n', hn, rfl⟩ := h
    show n'.ScopedBy D P
    exact Check.eval_scopedBy henv hk ht hn
  | fuel + 1, env, .natElim _ m b s n, k, v, henv, hk, ht, h => by
    simp only [Synth.eval, bind_eq_ok] at h
    obtain ⟨m', hm, b', hb, s', hs, n', hn, hv⟩ := h
    exact Value.natElim_scopedBy (Check.eval_scopedBy henv hk ht.2.2.2 hn)
      (Check.eval_scopedBy henv hk ht.1 hm) (Check.eval_scopedBy henv hk ht.2.1 hb)
      (Check.eval_scopedBy henv hk ht.2.2.1 hs) hv
  | fuel + 1, env, .vec _ a n, k, v, henv, hk, ht, h => by
    simp only [Synth.eval, bind_eq_ok, pure_eq_ok] at h
    obtain ⟨a', ha, n', hn, rfl⟩ := h
    exact ⟨Check.eval_scopedBy henv hk ht.1 ha, Check.eval_scopedBy henv hk ht.2 hn⟩
  | fuel + 1, env, .nil _ a, k, v, henv, hk, ht, h => by
    simp only [Synth.eval, bind_eq_ok, pure_eq_ok] at h
    obtain ⟨a', ha, rfl⟩ := h
    show a'.ScopedBy D P
    exact Check.eval_scopedBy henv hk ht ha
  | fuel + 1, env, .cons _ a n x xs, k, v, henv, hk, ht, h => by
    simp only [Synth.eval, bind_eq_ok, pure_eq_ok] at h
    obtain ⟨a', ha, n', hn, x', hx, xs', hxs, rfl⟩ := h
    exact ⟨Check.eval_scopedBy henv hk ht.1 ha, Check.eval_scopedBy henv hk ht.2.1 hn,
      Check.eval_scopedBy henv hk ht.2.2.1 hx, Check.eval_scopedBy henv hk ht.2.2.2 hxs⟩
  | fuel + 1, env, .vecElim _ a m b s n xs, k, v, henv, hk, ht, h => by
    simp only [Synth.eval, bind_eq_ok] at h
    obtain ⟨a', ha, m', hm, b', hb, s', hs, n', hn, xs', hxs, hv⟩ := h
    exact Value.vecElim_scopedBy (Check.eval_scopedBy henv hk ht.2.2.2.2.2 hxs)
      (Check.eval_scopedBy henv hk ht.1 ha) (Check.eval_scopedBy henv hk ht.2.1 hm)
      (Check.eval_scopedBy henv hk ht.2.2.1 hb) (Check.eval_scopedBy henv hk ht.2.2.2.1 hs)
      (Check.eval_scopedBy henv hk ht.2.2.2.2.1 hn) hv

theorem Check.eval_scopedBy : ∀ {fuel : Nat} {env : Env} {t : Check} {k : Nat} {v : Value},
    env.ScopedBy D P → D.Allows env.locals.length k → t.Scoped (OrGlobal P) k →
      t.eval fuel env = .ok v → v.ScopedBy D P
  | 0, _, _, _, _, _, _, _, h => by simp only [Check.eval, reduceCtorEq] at h
  | fuel + 1, env, .synth t, k, v, henv, hk, ht, h => by
    simp only [Check.eval] at h
    exact Synth.eval_scopedBy henv hk ht h
  | fuel + 1, env, .lam _ x b, k, v, henv, hk, ht, h => by
    simp only [Check.eval, pure_eq_ok] at h
    subst h
    exact ⟨henv, k, hk, ht⟩
  | fuel + 1, env, .ascribe _ _ e, k, v, henv, hk, ht, h => by
    simp only [Check.eval] at h
    exact Check.eval_scopedBy henv hk ht.2 h
  | fuel + 1, env, .sealed _ e, k, v, henv, hk, ht, h => by
    simp only [Check.eval] at h
    exact Synth.eval_scopedBy henv hk ht h

theorem Value.apply_scopedBy : ∀ {fuel : Nat} {f a v : Value}, f.ScopedBy D P → a.ScopedBy D P →
    f.apply fuel a = .ok v → v.ScopedBy D P
  | 0, _, _, _, _, _, h => by simp only [Value.apply, reduceCtorEq] at h
  | fuel + 1, f, a, v, hf, ha, h => by
    simp only [Value.apply] at h
    split at h
    · rename_i x b
      obtain ⟨env, body⟩ := b
      obtain ⟨henv, k, hk, hbody⟩ := hf
      exact Check.eval_scopedBy (henv.push ha) hk.succ hbody h
    · cases h
      exact ⟨hf, ha⟩
    · cases h

theorem Value.natElim_scopedBy : ∀ {fuel : Nat} {n m b s v : Value}, n.ScopedBy D P →
    m.ScopedBy D P → b.ScopedBy D P → s.ScopedBy D P → n.natElim fuel m b s = .ok v → v.ScopedBy D P
  | 0, _, _, _, _, _, _, _, _, _, h => by simp only [Value.natElim, reduceCtorEq] at h
  | fuel + 1, n, m, b, s, v, hn, hm, hb, hs, h => by
    simp only [Value.natElim] at h
    split at h
    · cases h
      exact hb
    · rename_i p
      simp only [bind_eq_ok] at h
      obtain ⟨r, hr, f, hf, hv⟩ := h
      have hp : p.ScopedBy D P := hn
      exact Value.apply_scopedBy (Value.apply_scopedBy hs hp hf)
        (Value.natElim_scopedBy hp hm hb hs hr) hv
    · cases h
      exact ⟨hm, hb, hs, hn⟩
    · cases h

theorem Value.vecElim_scopedBy : ∀ {fuel : Nat} {xs a m b s n v : Value}, xs.ScopedBy D P →
    a.ScopedBy D P → m.ScopedBy D P → b.ScopedBy D P → s.ScopedBy D P → n.ScopedBy D P →
    xs.vecElim fuel a m b s n = .ok v → v.ScopedBy D P
  | 0, _, _, _, _, _, _, _, _, _, _, _, _, _, h => by simp only [Value.vecElim, reduceCtorEq] at h
  | fuel + 1, xs, a, m, b, s, n, v, hxs, ha, hm, hb, hs, hn, h => by
    simp only [Value.vecElim] at h
    split at h
    · cases h
      exact hb
    · rename_i e l y ys
      simp only [bind_eq_ok] at h
      obtain ⟨r, hr, f₁, hf₁, f₂, hf₂, f₃, hf₃, hv⟩ := h
      obtain ⟨_, hl, hy, hys⟩ := hxs
      have h₁ := Value.apply_scopedBy hs hl hf₁
      have h₂ := Value.apply_scopedBy h₁ hy hf₂
      have h₃ := Value.apply_scopedBy h₂ hys hf₃
      exact Value.apply_scopedBy h₃ (Value.vecElim_scopedBy hys ha hm hb hs hl hr) hv
    · cases h
      exact ⟨ha, hm, hb, hs, hn, hxs⟩
    · cases h

end

theorem Closure.apply_scopedBy {fuel : Nat} {v a : Value} : ∀ {c : Closure}, c.ScopedBy D P →
    a.ScopedBy D P → c.apply fuel a = .ok v → v.ScopedBy D P
  | ⟨_, _⟩, ⟨henv, _, hk, hbody⟩, ha, h => Check.eval_scopedBy (henv.push ha) hk.succ hbody h

theorem Check.eval_scoped {fuel : Nat} {env : Env} {t : Check} {v : Value} (henv : env.Scoped P)
    (ht : t.Scoped (OrGlobal P) env.locals.length) (h : t.eval fuel env = .ok v) : v.Scoped P :=
  Value.scopedBy_known.mp (Check.eval_scopedBy (Env.scopedBy_known.mpr henv) rfl ht h)

theorem Value.apply_scoped {fuel : Nat} {f a v : Value} (hf : f.Scoped P) (ha : a.Scoped P)
    (h : f.apply fuel a = .ok v) : v.Scoped P :=
  scopedBy_known.mp (apply_scopedBy (scopedBy_known.mpr hf) (scopedBy_known.mpr ha) h)

theorem Closure.apply_scoped {fuel : Nat} {v a : Value} {c : Closure} (hc : c.Scoped P)
    (ha : a.Scoped P) (h : c.apply fuel a = .ok v) : v.Scoped P :=
  Value.scopedBy_known.mp
    (apply_scopedBy (scopedBy_known.mpr hc) (Value.scopedBy_known.mpr ha) h)

end Scope

end TypeInType
