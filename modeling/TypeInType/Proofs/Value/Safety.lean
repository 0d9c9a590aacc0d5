import TypeInType.Proofs.Core.Preservation
import TypeInType.Proofs.Value.ReadBack

/-!
# Well-typed values do not fault

A value of a function type is a function or is stuck, and so for numbers and vectors. So evaluation of
a well-typed term meets no value that it cannot eliminate. Nor does it meet a variable that stands for
nothing, since such a variable has no type.
-/

namespace TypeInType

open TypeInType.Core (HasType CtxOk Shape Conv Reds shift)

/-! ## Canonical forms -/

/-- The names of values stand for neutral terms, and what is out of scope for an atom without a
type. -/
structure Inert (ρ : Atom → Core) : Prop where
  name : ∀ x : Name, (ρ x.atom).shape = some .neutral
  undeclared : ∀ x, ρ (.undeclared x) = .atom (.undeclared x)
  stray : ∀ i, ρ (.stray i) = .atom (.stray i)

theorem Neutral.shape_embed {ρ : Atom → Core} (hρ : Inert ρ) (n : Neutral) :
    (n.embed ρ).shape = some .neutral := by
  cases n with
  | free x => simp only [Neutral.embed]; exact hρ.name x
  | app n _ => simp only [Neutral.embed, Core.shape, Neutral.shape_embed hρ n, if_true]
  | natElim _ _ _ n => simp only [Neutral.embed, Core.shape, Neutral.shape_embed hρ n, if_true]
  | vecElim _ _ _ _ _ xs => simp only [Neutral.embed, Core.shape, Neutral.shape_embed hρ xs, if_true]

/-- What a value looks like. -/
def Value.shape : Value → Shape
  | .neutral _ => .neutral
  | .star => .star
  | .pi _ _ _ => .pi
  | .lam _ _ => .lam
  | .nat => .nat
  | .zero => .zero
  | .succ _ => .succ
  | .vec _ _ => .vec
  | .nil _ => .nil
  | .cons _ _ _ _ => .cons

theorem Value.shape_embed {ρ : Atom → Core} (hρ : Inert ρ) (v : Value) :
    (v.embed ρ).shape = some v.shape := by
  cases v with
  | neutral n => simp only [Value.embed]; exact n.shape_embed hρ
  | _ => simp only [Value.embed, Core.shape, Value.shape]

/-- A value that is convertible to a function type is one. -/
theorem Value.eq_pi_of_conv {Θ : Theory} {ρ : Atom → Core} (hρ : Inert ρ) {v : Value} {A B : Core}
    (h : Conv Θ (v.embed ρ) (.pi A B)) : ∃ x d c, v = .pi x d c := by
  have hs := h.shape_eq (v.shape_embed hρ) rfl
  cases v with
  | pi x d c => exact ⟨x, d, c, rfl⟩
  | _ => cases hs

section Canonical

variable {Θ : Theory} {ρ : Atom → Core} {Γ : List Core}

/-- The shape of the type of a constructor. -/
theorem Value.type_shape {v : Value} {T : Core} (h : HasType Θ Γ (v.embed ρ) T) {s : Shape}
    (hT : T.shape = some s) : match v with
      | .neutral _ => True
      | .star | .pi _ _ _ | .nat | .vec _ _ => s = .star
      | .lam _ _ => s = .pi
      | .zero | .succ _ => s = .nat
      | .nil _ | .cons _ _ _ _ => s = .vec := by
  cases v with
  | neutral n => trivial
  | star =>
    simp only [Value.embed] at h
    obtain ⟨_, rfl, hc⟩ := h.inv
    exact (hc.shape_eq rfl hT).symm
  | pi x d c =>
    simp only [Value.embed] at h
    obtain ⟨_, ⟨_, _, rfl⟩, hc⟩ := h.inv
    exact (hc.shape_eq rfl hT).symm
  | lam x b =>
    simp only [Value.embed] at h
    obtain ⟨_, ⟨_, _, _, _, rfl⟩, hc⟩ := h.inv
    exact (hc.shape_eq rfl hT).symm
  | nat =>
    simp only [Value.embed] at h
    obtain ⟨_, rfl, hc⟩ := h.inv
    exact (hc.shape_eq rfl hT).symm
  | zero =>
    simp only [Value.embed] at h
    obtain ⟨_, rfl, hc⟩ := h.inv
    exact (hc.shape_eq rfl hT).symm
  | succ n =>
    simp only [Value.embed] at h
    obtain ⟨_, ⟨_, rfl⟩, hc⟩ := h.inv
    exact (hc.shape_eq rfl hT).symm
  | vec a n =>
    simp only [Value.embed] at h
    obtain ⟨_, ⟨_, _, rfl⟩, hc⟩ := h.inv
    exact (hc.shape_eq rfl hT).symm
  | nil a =>
    simp only [Value.embed] at h
    obtain ⟨_, ⟨_, rfl⟩, hc⟩ := h.inv
    exact (hc.shape_eq rfl hT).symm
  | cons a n x xs =>
    simp only [Value.embed] at h
    obtain ⟨_, ⟨_, _, _, _, rfl⟩, hc⟩ := h.inv
    exact (hc.shape_eq rfl hT).symm

theorem Value.canonical_pi {v : Value} {A B : Core} (h : HasType Θ Γ (v.embed ρ) (.pi A B)) :
    (∃ x b, v = .lam x b) ∨ ∃ n, v = .neutral n := by
  have hs := Value.type_shape h rfl
  cases v with
  | neutral n => exact .inr ⟨n, rfl⟩
  | lam x b => exact .inl ⟨x, b, rfl⟩
  | _ => cases hs

theorem Value.canonical_nat {v : Value} (h : HasType Θ Γ (v.embed ρ) .nat) :
    v = .zero ∨ (∃ n, v = .succ n) ∨ ∃ n, v = .neutral n := by
  have hs := Value.type_shape h rfl
  cases v with
  | neutral n => exact .inr (.inr ⟨n, rfl⟩)
  | zero => exact .inl rfl
  | succ n => exact .inr (.inl ⟨n, rfl⟩)
  | _ => cases hs

theorem Value.canonical_vec {v : Value} {a n : Core} (h : HasType Θ Γ (v.embed ρ) (.vec a n)) :
    (∃ e, v = .nil e) ∨ (∃ e l x xs, v = .cons e l x xs) ∨ ∃ n, v = .neutral n := by
  have hs := Value.type_shape h rfl
  cases v with
  | neutral n => exact .inr (.inr ⟨n, rfl⟩)
  | nil e => exact .inl ⟨e, rfl⟩
  | cons e l x xs => exact .inr (.inl ⟨e, l, x, xs, rfl⟩)
  | _ => cases hs

end Canonical

/-! ## Evaluation -/

section Evaluation

variable {Θ : Theory} {ρ : Atom → Core} {Γ : List Core} {E : Empty → Prop}

mutual

theorem Synth.eval_safe (hΘ : Θ.Ok) (hΓ : CtxOk Θ Γ) (hρ : Inert ρ) :
    ∀ {fuel : Nat} {env : Env} {t : Synth} {T : Core},
    HasType Θ Γ (t.erase (env.names ρ) (env.bound ρ)) T → (t.eval fuel env).Ends E fun _ => True
  | 0, _, _, _, _ => by simp only [Synth.eval]; trivial
  | fuel + 1, env, .ann _ e _, T, h => by
    simp only [Synth.eval]
    exact Check.eval_safe hΘ hΓ hρ h
  | fuel + 1, env, .star _, T, _ => by simp only [Synth.eval]; trivial
  | fuel + 1, env, .pi _ x d c, T, h => by
    obtain ⟨hd, _⟩ := h.pi_inv
    simp only [Synth.eval]
    exact (Check.eval_safe hΘ hΓ hρ hd).bind fun _ _ _ => trivial
  | fuel + 1, env, .bound _ i, T, h => by
    simp only [Synth.eval]
    split
    · trivial
    · rename_i hi
      -- An index that stands for nothing has no type.
      obtain ⟨j, hj⟩ := Env.bound_stray (ρ := ρ) hi
      rw [Synth.erase, hj, hρ.stray] at h
      obtain ⟨_, hg, _⟩ := h.inv
      exact hg.elim
  | fuel + 1, env, .free _ (.global x), T, h => by
    simp only [Synth.eval]
    split
    · trivial
    · rename_i hx
      rw [Synth.erase, Env.names_undeclared hx, hρ.undeclared] at h
      obtain ⟨_, hg, _⟩ := h.inv
      exact hg.elim
  | fuel + 1, env, .free _ (.hyp l), T, _ => by simp only [Synth.eval]; trivial
  | fuel + 1, env, .free _ (.quote l), T, _ => by simp only [Synth.eval]; trivial
  | fuel + 1, env, .app _ f a, T, h => by
    obtain ⟨_, ⟨_, _, hf, ha, _⟩, _⟩ := h.inv
    simp only [Synth.eval]
    refine (Synth.eval_safe hΘ hΓ hρ hf).bind fun f' hf' _ => ?_
    refine (Check.eval_safe hΘ hΓ hρ ha).bind fun a' ha' _ => ?_
    exact Value.apply_safe hΘ hΓ hρ (h.reds hΘ hΓ ((f.eval_reds Θ ρ hf').app (a.eval_reds Θ ρ ha')))
  | fuel + 1, env, .nat _, T, _ => by simp only [Synth.eval]; trivial
  | fuel + 1, env, .zero _, T, _ => by simp only [Synth.eval]; trivial
  | fuel + 1, env, .succ _ n, T, h => by
    simp only [Synth.eval]
    exact (Check.eval_safe hΘ hΓ hρ (HasType.succ_inv h)).bind fun _ _ _ => trivial
  | fuel + 1, env, .natElim _ m b s n, T, h => by
    obtain ⟨_, ⟨hm, hb, hs, hn, _⟩, _⟩ := h.inv
    simp only [Synth.eval]
    refine (Check.eval_safe hΘ hΓ hρ hm).bind fun m' hm' _ => ?_
    refine (Check.eval_safe hΘ hΓ hρ hb).bind fun b' hb' _ => ?_
    refine (Check.eval_safe hΘ hΓ hρ hs).bind fun s' hs' _ => ?_
    refine (Check.eval_safe hΘ hΓ hρ hn).bind fun n' hn' _ => ?_
    exact Value.natElim_safe hΘ hΓ hρ (h.reds hΘ hΓ ((m.eval_reds Θ ρ hm').natElim (b.eval_reds Θ ρ hb')
      (s.eval_reds Θ ρ hs') (n.eval_reds Θ ρ hn')))
  | fuel + 1, env, .vec _ a n, T, h => by
    obtain ⟨_, ⟨ha, hn, _⟩, _⟩ := h.inv
    simp only [Synth.eval]
    refine (Check.eval_safe hΘ hΓ hρ ha).bind fun _ _ _ => ?_
    exact (Check.eval_safe hΘ hΓ hρ hn).bind fun _ _ _ => trivial
  | fuel + 1, env, .nil _ a, T, h => by
    obtain ⟨_, ⟨ha, _⟩, _⟩ := h.inv
    simp only [Synth.eval]
    exact (Check.eval_safe hΘ hΓ hρ ha).bind fun _ _ _ => trivial
  | fuel + 1, env, .cons _ a n x xs, T, h => by
    obtain ⟨_, ⟨ha, hn, hx, hxs, _⟩, _⟩ := h.inv
    simp only [Synth.eval]
    refine (Check.eval_safe hΘ hΓ hρ ha).bind fun _ _ _ => ?_
    refine (Check.eval_safe hΘ hΓ hρ hn).bind fun _ _ _ => ?_
    refine (Check.eval_safe hΘ hΓ hρ hx).bind fun _ _ _ => ?_
    exact (Check.eval_safe hΘ hΓ hρ hxs).bind fun _ _ _ => trivial
  | fuel + 1, env, .vecElim _ a m b s n xs, T, h => by
    obtain ⟨_, ⟨ha, hm, hb, hs, hn, hxs, _⟩, _⟩ := h.inv
    simp only [Synth.eval]
    refine (Check.eval_safe hΘ hΓ hρ ha).bind fun a' ha' _ => ?_
    refine (Check.eval_safe hΘ hΓ hρ hm).bind fun m' hm' _ => ?_
    refine (Check.eval_safe hΘ hΓ hρ hb).bind fun b' hb' _ => ?_
    refine (Check.eval_safe hΘ hΓ hρ hs).bind fun s' hs' _ => ?_
    refine (Check.eval_safe hΘ hΓ hρ hn).bind fun n' hn' _ => ?_
    refine (Check.eval_safe hΘ hΓ hρ hxs).bind fun xs' hxs' _ => ?_
    exact Value.vecElim_safe hΘ hΓ hρ (h.reds hΘ hΓ ((a.eval_reds Θ ρ ha').vecElim (m.eval_reds Θ ρ hm')
      (b.eval_reds Θ ρ hb') (s.eval_reds Θ ρ hs') (n.eval_reds Θ ρ hn') (xs.eval_reds Θ ρ hxs')))

theorem Check.eval_safe (hΘ : Θ.Ok) (hΓ : CtxOk Θ Γ) (hρ : Inert ρ) :
    ∀ {fuel : Nat} {env : Env} {t : Check} {T : Core},
    HasType Θ Γ (t.erase (env.names ρ) (env.bound ρ)) T → (t.eval fuel env).Ends E fun _ => True
  | 0, _, _, _, _ => by simp only [Check.eval]; trivial
  | fuel + 1, env, .synth t, T, h => by
    simp only [Check.eval]
    exact Synth.eval_safe hΘ hΓ hρ h
  | fuel + 1, env, .lam _ x b, T, _ => by simp only [Check.eval]; trivial
  | fuel + 1, env, .ascribe _ _ e, T, h => by
    rw [Check.erase] at h
    simp only [Check.eval]
    exact Check.eval_safe hΘ hΓ hρ h
  | fuel + 1, env, .sealed _ e, T, h => by
    rw [Check.erase] at h
    simp only [Check.eval]
    exact Synth.eval_safe hΘ hΓ hρ h

theorem Value.apply_safe (hΘ : Θ.Ok) (hΓ : CtxOk Θ Γ) (hρ : Inert ρ) :
    ∀ {fuel : Nat} {f a : Value} {T : Core},
    HasType Θ Γ (.app (f.embed ρ) (a.embed ρ)) T → (f.apply fuel a).Ends E fun _ => True
  | 0, _, _, _, _ => by simp only [Value.apply]; trivial
  | fuel + 1, f, a, T, h => by
    obtain ⟨_, ⟨_, _, hf, _, _⟩, _⟩ := h.inv
    obtain ⟨x, b, rfl⟩ | ⟨n, rfl⟩ := Value.canonical_pi hf
    · simp only [Value.apply]
      simp only [Value.embed] at h
      have hb := h.contract_beta hΘ hΓ
      rw [Closure.inst_embed] at hb
      exact Check.eval_safe hΘ hΓ hρ hb
    · simp only [Value.apply]; trivial

theorem Value.natElim_safe (hΘ : Θ.Ok) (hΓ : CtxOk Θ Γ) (hρ : Inert ρ) :
    ∀ {fuel : Nat} {n m b s : Value} {T : Core},
    HasType Θ Γ (.natElim (m.embed ρ) (b.embed ρ) (s.embed ρ) (n.embed ρ)) T →
      (n.natElim fuel m b s).Ends E fun _ => True
  | 0, _, _, _, _, _, _ => by simp only [Value.natElim]; trivial
  | fuel + 1, n, m, b, s, T, h => by
    obtain ⟨_, ⟨_, _, _, hn, _⟩, _⟩ := h.inv
    obtain rfl | ⟨p, rfl⟩ | ⟨n, rfl⟩ := Value.canonical_nat hn
    · simp only [Value.natElim]; trivial
    · simp only [Value.natElim]
      simp only [Value.embed] at h
      have hstep := h.contract_natSucc hΘ hΓ
      obtain ⟨_, ⟨_, _, hs, hr, _⟩, _⟩ := hstep.inv
      refine (Value.natElim_safe hΘ hΓ hρ hr).bind fun r hr' _ => ?_
      refine (Value.apply_safe hΘ hΓ hρ hs).bind fun f hf _ => ?_
      exact Value.apply_safe hΘ hΓ hρ (hstep.reds hΘ hΓ
        ((Value.apply_reds Θ ρ hf).app (Value.natElim_reds Θ ρ hr')))
    · simp only [Value.natElim]; trivial

theorem Value.vecElim_safe (hΘ : Θ.Ok) (hΓ : CtxOk Θ Γ) (hρ : Inert ρ) :
    ∀ {fuel : Nat} {xs a m b s n : Value} {T : Core},
    HasType Θ Γ (.vecElim (a.embed ρ) (m.embed ρ) (b.embed ρ) (s.embed ρ) (n.embed ρ)
      (xs.embed ρ)) T → (xs.vecElim fuel a m b s n).Ends E fun _ => True
  | 0, _, _, _, _, _, _, _, _ => by simp only [Value.vecElim]; trivial
  | fuel + 1, xs, a, m, b, s, n, T, h => by
    obtain ⟨_, ⟨_, _, _, _, _, hxs, _⟩, _⟩ := h.inv
    obtain ⟨e, rfl⟩ | ⟨e, l, y, ys, rfl⟩ | ⟨k, rfl⟩ := Value.canonical_vec hxs
    · simp only [Value.vecElim]; trivial
    · simp only [Value.vecElim]
      simp only [Value.embed] at h
      have h₄ := h.contract_vecCons hΘ hΓ
      simp only [Core.app4] at h₄
      -- The step takes its four arguments one by one, each on top of the reduct before it.
      obtain ⟨_, ⟨_, _, h₃, hr, _⟩, _⟩ := h₄.inv
      obtain ⟨_, ⟨_, _, h₂, _, _⟩, _⟩ := h₃.inv
      obtain ⟨_, ⟨_, _, h₁, _, _⟩, _⟩ := h₂.inv
      refine (Value.vecElim_safe hΘ hΓ hρ hr).bind fun r hr' _ => ?_
      refine (Value.apply_safe hΘ hΓ hρ h₁).bind fun f₁ hf₁ _ => ?_
      have r₁ := Value.apply_reds Θ ρ hf₁
      refine (Value.apply_safe hΘ hΓ hρ (h₂.reds hΘ hΓ (r₁.app .refl))).bind fun f₂ hf₂ _ => ?_
      have r₂ := (Reds.app r₁ .refl).trans (Value.apply_reds Θ ρ hf₂)
      refine (Value.apply_safe hΘ hΓ hρ (h₃.reds hΘ hΓ (Reds.app r₂ .refl))).bind fun f₃ hf₃ _ => ?_
      have r₃ := (Reds.app r₂ .refl).trans (Value.apply_reds Θ ρ hf₃)
      exact Value.apply_safe hΘ hΓ hρ (h₄.reds hΘ hΓ (Reds.app r₃ (Value.vecElim_reds Θ ρ hr')))
    · simp only [Value.vecElim]; trivial

end

theorem Closure.apply_safe (hΘ : Θ.Ok) (hΓ : CtxOk Θ Γ) (hρ : Inert ρ) {fuel : Nat} {c : Closure}
    {a : Value} {T : Core} (h : HasType Θ Γ ((c.embed ρ).inst (a.embed ρ)) T) :
    (c.apply fuel a).Ends E fun _ => True := by
  rw [Closure.inst_embed] at h
  exact Check.eval_safe hΘ hΓ hρ h

end Evaluation

/-! ## Read-back -/

/-- Under `k` binders, the variables of checking and of read-back with a level below `k` are the
variables of these binders. -/
def levels (k : Nat) : Atom → Core
  | .hyp l => if l < k then .var (k - l - 1) else .atom (.hyp l)
  | .quote l => if l < k then .var (k - l - 1) else .atom (.quote l)
  | a => .atom a

theorem levels_zero : levels 0 = Core.atom := by
  funext a
  cases a <;> simp [levels]

theorem levels_inert (k : Nat) : Inert (levels k) where
  name x := by
    cases x with
    | global x => rfl
    | hyp l => simp only [Name.atom, levels]; split <;> rfl
    | quote l => simp only [Name.atom, levels]; split <;> rfl
  undeclared _ := rfl
  stray _ := rfl

/-- Every level of a name that satisfies `P` is below `k`. -/
structure Bounded (P : Name → Prop) (k : Nat) : Prop where
  hyp : ∀ l, P (.hyp l) → l < k
  quote : ∀ l, P (.quote l) → l < k

theorem Bounded.orQuote {P : Name → Prop} {k : Nat} (h : Bounded P k) :
    Bounded (OrQuote P k) (k + 1) where
  hyp l
    | .inl hl => Nat.lt_succ_of_lt (h.hyp l hl)
  quote := OrQuote.lt h.quote

theorem Bounded.agree_succ {P : Name → Prop} {k : Nat} (h : Bounded P k) :
    Agree P (levels (k + 1)) (shift ∘ levels k) where
  name x hx := by
    cases x with
    | global x => rfl
    | hyp l =>
      have hl := h.hyp l hx
      have hl' : k + 1 - l - 1 = k - l - 1 + 1 := by omega
      simp [Name.atom, levels, hl, Nat.lt_succ_of_lt hl, hl', Core.shift, Core.rename]
    | quote l =>
      have hl := h.quote l hx
      have hl' : k + 1 - l - 1 = k - l - 1 + 1 := by omega
      simp [Name.atom, levels, hl, Nat.lt_succ_of_lt hl, hl', Core.shift, Core.rename]
  undeclared x := rfl

/-- A closure applied to the variable of its own binder is the body of that binder. -/
theorem Closure.inst_levels {P : Name → Prop} {k : Nat} (hP : Bounded P k) {c : Closure}
    (hc : c.Scoped P) : (c.embed (levels (k + 1))).inst (.var 0) = c.embed (levels k) := by
  rw [Closure.embed_congr hP.agree_succ hc, Closure.inst_embed_shift]

section ReadBack

variable {Θ : Theory} {E : Empty → Prop}

theorem Name.quote?_safe {Γ : List Core} {x : Name} {T : Core}
    (h : HasType Θ Γ (levels Γ.length x.atom) T) :
    (x.quote? Γ.length).Ends E fun _ => True := by
  cases x with
  | global x => trivial
  | hyp l => trivial
  | quote l =>
    simp only [Name.quote?]
    split
    · trivial
    · rename_i hl
      simp only [indexOfLevel?, ite_eq_right_iff, reduceCtorEq, imp_false] at hl
      simp only [Name.atom, levels, if_neg hl] at h
      obtain ⟨_, hg, _⟩ := h.inv
      exact hg.elim

mutual

theorem Value.quote_safe (hΘ : Θ.Ok) : ∀ {fuel : Nat} {Γ : List Core} {P : Name → Prop} {v : Value}
    {T : Core}, CtxOk Θ Γ → Bounded P Γ.length → v.Scoped P → HasType Θ Γ (v.embed (levels Γ.length)) T →
      (v.quote fuel Γ.length).Ends E fun _ => True
  | 0, _, _, _, _, _, _, _, _ => by simp only [Value.quote]; trivial
  | fuel + 1, Γ, P, .neutral n, T, hΓ, hP, hv, h => by
    simp only [Value.embed] at h
    simp only [Value.quote]
    exact (Neutral.quote_safe hΘ hΓ hP hv h).bind fun _ _ _ => trivial
  | fuel + 1, Γ, P, .star, T, _, _, _, _ => by simp only [Value.quote]; trivial
  | fuel + 1, Γ, P, .pi x d c, T, hΓ, hP, hv, h => by
    simp only [Value.embed] at h
    obtain ⟨hd, hc⟩ := h.pi_inv
    simp only [Value.quote]
    refine (Value.quote_safe hΘ hΓ hP hv.1 hd).bind fun _ _ _ => ?_
    exact (Closure.quote_safe hΘ (.cons hΓ hd) hP hv.2 hc).bind fun _ _ _ => trivial
  | fuel + 1, Γ, P, .lam x b, T, hΓ, hP, hv, h => by
    simp only [Value.embed] at h
    obtain ⟨_, ⟨A, B, hA, hb, _⟩, _⟩ := h.inv
    simp only [Value.quote]
    exact (Closure.quote_safe hΘ (.cons hΓ hA) hP hv hb).bind fun _ _ _ => trivial
  | fuel + 1, Γ, P, .nat, T, _, _, _, _ => by simp only [Value.quote]; trivial
  | fuel + 1, Γ, P, .zero, T, _, _, _, _ => by simp only [Value.quote]; trivial
  | fuel + 1, Γ, P, .succ n, T, hΓ, hP, hv, h => by
    simp only [Value.embed] at h
    simp only [Value.quote]
    exact (Value.quote_safe hΘ (v := n) hΓ hP hv h.succ_inv).bind fun _ _ _ => trivial
  | fuel + 1, Γ, P, .vec a n, T, hΓ, hP, hv, h => by
    simp only [Value.embed] at h
    obtain ⟨_, ⟨ha, hn, _⟩, _⟩ := h.inv
    simp only [Value.quote]
    refine (Value.quote_safe hΘ hΓ hP hv.1 ha).bind fun _ _ _ => ?_
    exact (Value.quote_safe hΘ hΓ hP hv.2 hn).bind fun _ _ _ => trivial
  | fuel + 1, Γ, P, .nil a, T, hΓ, hP, hv, h => by
    simp only [Value.embed] at h
    obtain ⟨_, ⟨ha, _⟩, _⟩ := h.inv
    simp only [Value.quote]
    exact (Value.quote_safe hΘ (v := a) hΓ hP hv ha).bind fun _ _ _ => trivial
  | fuel + 1, Γ, P, .cons a n x xs, T, hΓ, hP, hv, h => by
    simp only [Value.embed] at h
    obtain ⟨_, ⟨ha, hn, hx, hxs, _⟩, _⟩ := h.inv
    simp only [Value.quote]
    refine (Value.quote_safe hΘ hΓ hP hv.1 ha).bind fun _ _ _ => ?_
    refine (Value.quote_safe hΘ hΓ hP hv.2.1 hn).bind fun _ _ _ => ?_
    refine (Value.quote_safe hΘ hΓ hP hv.2.2.1 hx).bind fun _ _ _ => ?_
    exact (Value.quote_safe hΘ hΓ hP hv.2.2.2 hxs).bind fun _ _ _ => trivial

theorem Neutral.quote_safe (hΘ : Θ.Ok) : ∀ {fuel : Nat} {Γ : List Core} {P : Name → Prop} {n : Neutral}
    {T : Core}, CtxOk Θ Γ → Bounded P Γ.length → n.Scoped P →
      HasType Θ Γ (n.embed (levels Γ.length)) T → (n.quote fuel Γ.length).Ends E fun _ => True
  | 0, _, _, _, _, _, _, _, _ => by simp only [Neutral.quote]; trivial
  | fuel + 1, Γ, P, .free x, T, _, _, _, h => by
    simp only [Neutral.embed] at h
    simp only [Neutral.quote]
    exact Name.quote?_safe h
  | fuel + 1, Γ, P, .app f v, T, hΓ, hP, hv, h => by
    simp only [Neutral.embed] at h
    obtain ⟨_, ⟨_, _, hf, ha, _⟩, _⟩ := h.inv
    simp only [Neutral.quote]
    refine (Neutral.quote_safe hΘ hΓ hP hv.1 hf).bind fun _ _ _ => ?_
    exact (Value.quote_safe hΘ hΓ hP hv.2 ha).bind fun _ _ _ => trivial
  | fuel + 1, Γ, P, .natElim m b s n, T, hΓ, hP, hv, h => by
    simp only [Neutral.embed] at h
    obtain ⟨_, ⟨hm, hb, hs, hn, _⟩, _⟩ := h.inv
    simp only [Neutral.quote]
    refine (Neutral.quote_safe hΘ hΓ hP hv.2.2.2 hn).bind fun _ _ _ => ?_
    refine (Value.quote_safe hΘ hΓ hP hv.1 hm).bind fun _ _ _ => ?_
    refine (Value.quote_safe hΘ hΓ hP hv.2.1 hb).bind fun _ _ _ => ?_
    exact (Value.quote_safe hΘ hΓ hP hv.2.2.1 hs).bind fun _ _ _ => trivial
  | fuel + 1, Γ, P, .vecElim a m b s n xs, T, hΓ, hP, hv, h => by
    simp only [Neutral.embed] at h
    obtain ⟨_, ⟨ha, hm, hb, hs, hn, hxs, _⟩, _⟩ := h.inv
    simp only [Neutral.quote]
    refine (Neutral.quote_safe hΘ hΓ hP hv.2.2.2.2.2 hxs).bind fun _ _ _ => ?_
    refine (Value.quote_safe hΘ hΓ hP hv.1 ha).bind fun _ _ _ => ?_
    refine (Value.quote_safe hΘ hΓ hP hv.2.1 hm).bind fun _ _ _ => ?_
    refine (Value.quote_safe hΘ hΓ hP hv.2.2.1 hb).bind fun _ _ _ => ?_
    refine (Value.quote_safe hΘ hΓ hP hv.2.2.2.1 hs).bind fun _ _ _ => ?_
    exact (Value.quote_safe hΘ hΓ hP hv.2.2.2.2.1 hn).bind fun _ _ _ => trivial

/-- The variable of read-back that a closure is applied to is the variable of its binder. -/
theorem Closure.quote_safe (hΘ : Θ.Ok) : ∀ {fuel : Nat} {Γ : List Core} {A : Core} {P : Name → Prop}
    {c : Closure} {B : Core}, CtxOk Θ (A :: Γ) → Bounded P Γ.length → c.Scoped P →
      HasType Θ (A :: Γ) (c.embed (levels Γ.length)) B →
        (c.quote fuel Γ.length).Ends E fun _ => True
  | 0, _, _, _, _, _, _, _, _, _ => by simp only [Closure.quote]; trivial
  | fuel + 1, Γ, A, P, c, B, hΓ, hP, hc, h => by
    have hvar : (Value.free (.quote Γ.length)).embed (levels (Γ.length + 1)) = .var 0 := by
      simp [Value.free, Value.embed, Neutral.embed, Name.atom, levels]
    rw [← Closure.inst_levels hP hc, ← hvar] at h
    simp only [Closure.quote]
    refine (Closure.apply_safe hΘ hΓ (levels_inert _) h).bind fun v hv _ => ?_
    have hvs : v.Scoped (OrQuote P Γ.length) :=
      Closure.apply_scoped (hc.mono fun _ => .inl) (Value.scoped_free (.inr rfl)) hv
    exact Value.quote_safe hΘ (Γ := A :: Γ) hΓ hP.orQuote hvs
      (h.reds hΘ hΓ (Closure.apply_reds Θ _ hv))

end

end ReadBack

end TypeInType
