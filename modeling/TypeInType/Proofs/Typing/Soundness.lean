import TypeInType.Proofs.Typing.Context

/-!
# The checker is sound

What the checker infers is a type that the rules give, and what it accepts has the type that it is
checked against. The checker does not fault: it evaluates nothing that it has not checked before.
-/

namespace TypeInType

open TypeInType.Core (Reds Conv HasType)

/-! ## The types of the eliminators' arguments -/

namespace Telescope

variable (P : Name → Prop)

theorem natMotive_scoped : (Check.synth natMotive).Scoped P 0 :=
  ⟨trivial, trivial⟩

theorem natStep_scoped : (Check.synth natStep).Scoped P 1 := by
  simp [natStep, pi, arrow, app, succ, nat, var, Check.Scoped, Synth.Scoped]

theorem vecMotive_scoped : (Check.synth vecMotive).Scoped P 1 := by
  simp [vecMotive, pi, arrow, vec, nat, var, Check.Scoped, Synth.Scoped]

theorem vecStep_scoped : (Check.synth vecStep).Scoped P 2 := by
  simp [vecStep, pi, arrow, app, succ, vec, cons, nat, var, Check.Scoped, Synth.Scoped]

end Telescope

namespace Context

variable {Θ : Theory} {G : String → Prop} {N : Naming} {ctx : Context}

theorem Member.star : ctx.Member Θ G .star .star :=
  ⟨trivial, .star⟩

theorem Member.nat : ctx.Member Θ G .nat .star :=
  ⟨trivial, .nat⟩

theorem Member.zero : ctx.Member Θ G .zero .nat :=
  ⟨trivial, .zero⟩

theorem Member.vec {a n : Value} (ha : ctx.Member Θ G a .star) (hn : ctx.Member Θ G n .nat) :
    ctx.Member Θ G (.vec a n) .star :=
  ⟨⟨ha.inScope, hn.inScope⟩, .vec ha.typed hn.typed⟩

theorem Member.nil {a : Value} (ha : ctx.Member Θ G a .star) :
    ctx.Member Θ G (.nil a) (.vec (ctx.embed a) .zero) :=
  ⟨ha.inScope, .nil ha.typed⟩

theorem Member.succ {n : Value} (hn : ctx.Member Θ G n .nat) : ctx.Member Θ G (.succ n) .nat :=
  ⟨hn.inScope, .succ hn.typed⟩

theorem Member.pi_domain {x : Option String} {d : Value} {c : Closure} {A : Core}
    (h : ctx.Member Θ G (.pi x d c) A) : ctx.Member Θ G d .star := by
  have ht := h.typed
  simp only [embed, Value.embed] at ht
  exact ⟨h.inScope.1, ht.pi_inv.1⟩

theorem Member.pi_codomain {x : Option String} {d : Value} {c : Closure} {A : Core}
    (h : ctx.Member Θ G (.pi x d c) A) :
    HasType Θ (ctx.embed d :: ctx.core) (c.embed (levels ctx.depth)) .star := by
  have ht := h.typed
  simp only [embed, Value.embed] at ht
  exact ht.pi_inv.2

theorem Reaches.vec {a n : Core} {av nv : Value} (ha : ctx.Reaches Θ G a .star av)
    (hn : ctx.Reaches Θ G n .nat nv) : ctx.Reaches Θ G (.vec a n) .star (.vec av nv) :=
  ⟨.vec ha.toMember hn.toMember, Reds.vec ha.reds hn.reds⟩

section Telescope

variable (hΘ : Θ.Ok) (hctx : ctx.Ok Θ G N)

include hΘ hctx

theorem eval_natMotive {fuel : Nat} :
    (ctx.eval fuel (.synth Telescope.natMotive)).Ends (fun _ => True)
      (ctx.Reaches Θ G Core.natMotive .star) :=
  evalIn_spec hΘ hctx [] trivial (Telescope.natMotive_scoped _) HasType.natMotive_type

theorem eval_natStep {fuel : Nat} {m : Value} (hm : ctx.Member Θ G m Core.natMotive) :
    (ctx.evalIn fuel [m] (.synth Telescope.natStep)).Ends (fun _ => True)
      (ctx.Reaches Θ G (Core.natStep (ctx.embed m)) .star) :=
  evalIn_spec hΘ hctx [m] ⟨hm.inScope, trivial⟩ (Telescope.natStep_scoped _) hm.typed.natStep_type

theorem eval_vecMotive {fuel : Nat} {a : Value} (ha : ctx.Member Θ G a .star) :
    (ctx.evalIn fuel [a] (.synth Telescope.vecMotive)).Ends (fun _ => True)
      (ctx.Reaches Θ G (Core.vecMotive (ctx.embed a)) .star) :=
  evalIn_spec hΘ hctx [a] ⟨ha.inScope, trivial⟩ (Telescope.vecMotive_scoped _)
    ha.typed.vecMotive_type

theorem eval_vecStep {fuel : Nat} {a m : Value} (ha : ctx.Member Θ G a .star)
    (hm : ctx.Member Θ G m (Core.vecMotive (ctx.embed a))) :
    (ctx.evalIn fuel [m, a] (.synth Telescope.vecStep)).Ends (fun _ => True)
      (ctx.Reaches Θ G (Core.vecStep (ctx.embed a) (ctx.embed m)) .star) :=
  evalIn_spec hΘ hctx [m, a] ⟨hm.inScope, ha.inScope, trivial⟩ (Telescope.vecStep_scoped _)
    (ha.typed.vecStep_type hm.typed)

/-- A motive for numbers applied to a number. -/
theorem apply_natMotive {fuel : Nat} {m n : Value} (hm : ctx.Member Θ G m Core.natMotive)
    (hn : ctx.Member Θ G n .nat) :
    (m.apply fuel n).Ends (fun _ => True)
      (ctx.Reaches Θ G (.app (ctx.embed m) (ctx.embed n)) .star) :=
  apply_spec hΘ hctx hm.inScope hn.inScope (hm.typed.natMotive_app hn.typed)

/-- A motive for vectors applied to a length and a vector. -/
theorem applyAll_vecMotive {fuel : Nat} {a m n xs : Value}
    (hm : ctx.Member Θ G m (Core.vecMotive (ctx.embed a))) (hn : ctx.Member Θ G n .nat)
    (hxs : ctx.Member Θ G xs (.vec (ctx.embed a) (ctx.embed n))) :
    (m.applyAll fuel [n, xs]).Ends (fun _ => True)
      (ctx.Reaches Θ G (.app (.app (ctx.embed m) (ctx.embed n)) (ctx.embed xs)) .star) := by
  have happ := hm.typed.vecMotive_app hn.typed hxs.typed
  obtain ⟨_, ⟨_, _, hmn, _, _⟩, _⟩ := happ.inv
  simp only [Value.applyAll, List.foldlM_cons, List.foldlM_nil, bind_pure]
  refine (apply_spec hΘ hctx hm.inScope hn.inScope hmn).bind fun f _ hf => ?_
  have hr : Reds Θ (.app (.app (ctx.embed m) (ctx.embed n)) (ctx.embed xs))
      (.app (ctx.embed f) (ctx.embed xs)) := Reds.app hf.reds .refl
  exact (apply_spec hΘ hctx hf.inScope hxs.inScope
    (happ.reds hΘ hctx.ctxOk hr)).mono fun v _ hv => hv.head hr

/-- The fresh variable is in scope in the context of the domain. There a codomain applied to it is
the codomain as the body of a binder. -/
theorem apply_freshVar {fuel : Nat} {x : Option String} {d : Value} {c : Closure} {A : Core}
    (h : ctx.Member Θ G (.pi x d c) A) :
    (c.apply fuel (.free (.hyp ctx.depth))).Ends (fun _ => True)
      ((ctx.bind d).Reaches Θ G (c.embed (levels ctx.depth)) .star) := by
  have hvar : (ctx.bind d).embed (.free (.hyp ctx.depth)) = .var 0 := by
    simp [embed, bind, depth, Value.free, Value.embed, Neutral.embed, Name.atom, levels]
  have hinst : (c.embed (levels (ctx.bind d).depth)).inst
      ((ctx.bind d).embed (.free (.hyp ctx.depth))) = c.embed (levels ctx.depth) := by
    rw [hvar]
    exact Closure.inst_levels (Within.bounded G _) h.inScope.2
  have hcod : HasType Θ (ctx.bind d).core _ .star := h.pi_codomain
  have hcs : c.Scoped (Within G (ctx.bind d).depth) :=
    h.inScope.2.mono (Within.mono (Nat.le_succ _))
  have hvs : (Value.free (.hyp ctx.depth)).Scoped (Within G (ctx.bind d).depth) :=
    Nat.lt_succ_self ctx.depth
  rw [← hinst] at hcod ⊢
  exact closure_apply_spec hΘ (hctx.bind h.pi_domain) hcs hvs hcod

end Telescope

theorem eval_freshVar {fuel : Nat} :
    (ctx.eval fuel (.synth (.free none (.hyp ctx.depth)))).Ends (fun _ => True)
      fun v => v = .free (.hyp ctx.depth) := by
  match fuel with
  | 0 => trivial
  | 1 => trivial
  | fuel + 2 => exact Run.Ends.pure rfl

end Context

/-! ## Soundness -/

section Soundness

variable {Θ : Theory} {G : String → Prop} {N : Naming} (hΘ : Θ.Ok)

theorem Check.Has.core_of_reaches {ctx : Context} {t : Check} {T : Value} {A B : Core}
    (h : Check.Has Θ N ctx.core t (ctx.embed T)) (hT : ctx.Reaches Θ G A B T)
    (hA : HasType Θ ctx.core A .star) : Check.Has Θ N ctx.core t A :=
  .conv h hT.reds.conv.symm hA

include hΘ

mutual

theorem Synth.infer_sound : ∀ {fuel : Nat} {ctx : Context} {t : Synth}, ctx.Ok Θ G N →
    t.Scoped IsGlobal ctx.depth → ((t.withHyps ctx.depth 0).infer fuel ctx).Ends (fun _ => True)
      fun T => ctx.Member Θ G T .star ∧ Synth.Has Θ N ctx.core t (ctx.embed T)
  | 0, _, _, _, _ => by simp only [Synth.infer]; trivial
  | fuel + 1, ctx, .ann _ e t, hctx, ht => by
    simp only [Synth.withHyps, Synth.infer]
    refine (Check.check_sound hctx ht.2 .star).bind fun _ _ hty => ?_
    have htc := hty.hasType hctx.signature.naming
    refine (Context.eval_spec hΘ hctx ht.2 htc).widen.bind fun T _ hT => ?_
    refine (Check.check_sound hctx ht.1 hT.toMember).bind fun _ _ he => ?_
    exact ⟨hT.toMember, .conv (.ann hty (he.core_of_reaches hT htc)) hT.reds.conv hT.typed⟩
  | fuel + 1, ctx, .star _, _, _ => by
    simp only [Synth.withHyps, Synth.infer]
    exact ⟨.star, .star⟩
  | fuel + 1, ctx, .pi _ x d c, hctx, ht => by
    simp only [Synth.withHyps, Synth.infer, Context.freshVar, Check.subst_withHyps]
    refine (Check.check_sound hctx ht.1 .star).bind fun _ _ hd => ?_
    have hdc := hd.hasType hctx.signature.naming
    refine (Context.eval_spec hΘ hctx ht.1 hdc).widen.bind fun D _ hD => ?_
    have hctx' := hctx.bind hD.toMember
    refine (Check.check_sound (t := c) hctx' ht.2 .star).bind fun _ _ hc => ?_
    have hcc := hc.hasType hctx.signature.naming
    refine (Context.eval_spec hΘ hctx' ht.2
      hcc).widen.bind fun _ _ _ => ?_
    -- The checker adds the value of the domain to the context, the rule the domain itself.
    have hconv : CtxConv Θ (ctx.bind D).core (d.core N :: ctx.core) :=
      .head hD.reds.conv.symm hD.typed hctx.ctxOk
    exact ⟨.star, .pi hd (hc.ctxConv hctx.signature.naming hconv)⟩
  | fuel + 1, ctx, .bound _ i, hctx, ht => by
    obtain ⟨T, hT, hTs, hlook⟩ := hctx.lookup ht
    simp only [Synth.withHyps, Nat.not_lt_zero, if_false, Nat.sub_zero, Synth.infer,
      Context.lookup, hT]
    exact ⟨⟨hTs, hlook.ok hctx.ctxOk⟩, .bound hlook⟩
  | fuel + 1, ctx, .free _ (.global x), hctx, _ => by
    simp only [Synth.withHyps, Synth.infer, Context.lookup, Signature.type?]
    cases hx : ctx.signature.find? x with
    | none => trivial
    | some e =>
      have hm := Context.Member.of_signature hctx.signature hx ctx
      have hs := (hctx.signature.inScope e (List.mem_of_find?_eq_some hx)).2
      obtain ⟨A, hA, hc, _⟩ := hctx.signature.type hx
      rw [← hs.embed_levels ctx.depth] at hc
      exact ⟨hm, .conv (.global hA) hc hm.typed⟩
  | fuel + 1, ctx, .app _ f a, hctx, ht => by
    simp only [Synth.withHyps, Synth.infer]
    refine (Synth.infer_sound hctx ht.1).bind fun F _ hF => ?_
    split
    · rename_i x D c
      have hfun := hF.2
      simp only [Context.embed, Value.embed] at hfun
      have hD := hF.1.pi_domain
      refine (Check.check_sound hctx ht.2 hD).bind fun _ _ ha => ?_
      have hac := ha.hasType hctx.signature.naming
      refine (Context.eval_spec hΘ hctx ht.2 hac).widen.bind fun v _ hv => ?_
      have hinst := hF.1.pi_codomain.inst hv.typed
      refine (Context.closure_apply_spec hΘ hctx hF.1.inScope.2 hv.inScope
        hinst).widen.mono fun T _ hT => ?_
      exact ⟨hT.toMember, .conv (.app hfun ha)
        ((Conv.inst (.refl _) hv.reds.conv).trans hT.reds.conv) hT.typed⟩
    · refine (Context.quote_spec hΘ hctx hF.1).widen.bind fun _ _ _ => ?_
      trivial
  | fuel + 1, ctx, .nat _, _, _ => by
    simp only [Synth.withHyps, Synth.infer]
    exact ⟨.star, .nat⟩
  | fuel + 1, ctx, .zero _, _, _ => by
    simp only [Synth.withHyps, Synth.infer]
    exact ⟨.nat, .zero⟩
  | fuel + 1, ctx, .succ _ n, hctx, ht => by
    simp only [Synth.withHyps, Synth.infer]
    refine (Check.check_sound (t := n) hctx ht .nat).bind fun _ _ hn => ?_
    exact ⟨.nat, .succ hn⟩
  | fuel + 1, ctx, .natElim _ m b s n, hctx, ht => by
    have hN := hctx.signature.naming
    simp only [Synth.withHyps, Synth.infer]
    refine (Context.eval_natMotive hΘ hctx).widen.bind fun M _ hM => ?_
    refine (Check.check_sound hctx ht.1 hM.toMember).bind fun _ _ hm => ?_
    replace hm := hm.core_of_reaches hM HasType.natMotive_type
    have hmc := hm.hasType hN
    refine (Context.eval_spec hΘ hctx ht.1 hmc).widen.bind fun mv _ hmv => ?_
    refine (Context.apply_natMotive hΘ hctx hmv.toMember .zero).widen.bind fun B _ hB => ?_
    replace hB := hB.head (Reds.app hmv.reds .refl)
    refine (Check.check_sound hctx ht.2.1 hB.toMember).bind fun _ _ hb => ?_
    replace hb := hb.core_of_reaches hB (hmc.natMotive_app .zero)
    refine (Context.eval_natStep hΘ hctx hmv.toMember).widen.bind fun S _ hS => ?_
    refine (Check.check_sound hctx ht.2.2.1 hS.toMember).bind fun _ _ hs => ?_
    replace hs : Check.Has Θ N ctx.core s (Core.natStep (m.core N)) :=
      .conv hs (hmv.reds.conv.natStep.trans hS.reds.conv).symm hmc.natStep_type
    refine (Check.check_sound hctx ht.2.2.2 .nat).bind fun _ _ hn => ?_
    refine (Context.eval_spec hΘ hctx ht.2.2.2 (hn.hasType hN)).widen.bind fun nv _ hnv => ?_
    refine (Context.apply_natMotive hΘ hctx hmv.toMember hnv.toMember).widen.mono
      fun T _ hT => ?_
    exact ⟨hT.toMember, .conv (.natElim hm hb hs hn)
      ((Reds.app hmv.reds hnv.reds).conv.trans hT.reds.conv) hT.typed⟩
  | fuel + 1, ctx, .vec _ a n, hctx, ht => by
    simp only [Synth.withHyps, Synth.infer]
    refine (Check.check_sound hctx ht.1 .star).bind fun _ _ ha => ?_
    have hac := ha.hasType hctx.signature.naming
    refine (Context.eval_spec hΘ hctx ht.1 hac).widen.bind fun _ _ _ => ?_
    refine (Check.check_sound hctx ht.2 .nat).bind fun _ _ hn => ?_
    exact ⟨.star, .vec ha hn⟩
  | fuel + 1, ctx, .nil _ a, hctx, ht => by
    simp only [Synth.withHyps, Synth.infer]
    refine (Check.check_sound (t := a) hctx ht .star).bind fun _ _ ha => ?_
    have hac := ha.hasType hctx.signature.naming
    refine (Context.eval_spec (t := a) hΘ hctx ht hac).widen.bind fun av _ hav => ?_
    have hT : ctx.Member Θ G (.vec av .zero) .star := .vec hav.toMember .zero
    exact ⟨hT, .conv (.nil ha) (.vec hav.reds.conv (.refl _)) hT.typed⟩
  | fuel + 1, ctx, .cons _ a n x xs, hctx, ht => by
    have hN := hctx.signature.naming
    simp only [Synth.withHyps, Synth.infer]
    refine (Check.check_sound hctx ht.1 .star).bind fun _ _ ha => ?_
    have hac := ha.hasType hN
    refine (Context.eval_spec hΘ hctx ht.1 hac).widen.bind fun av _ hav => ?_
    refine (Check.check_sound hctx ht.2.1 .nat).bind fun _ _ hn => ?_
    have hnc := hn.hasType hN
    refine (Context.eval_spec hΘ hctx ht.2.1 hnc).widen.bind fun nv _ hnv => ?_
    refine (Check.check_sound hctx ht.2.2.1 hav.toMember).bind fun _ _ hx => ?_
    replace hx := hx.core_of_reaches hav hac
    have hvec := hav.vec hnv
    refine (Check.check_sound hctx ht.2.2.2 hvec.toMember).bind fun _ _ hxs => ?_
    replace hxs := hxs.core_of_reaches hvec (.vec hac hnc)
    have hT : ctx.Member Θ G (.vec av (.succ nv)) .star := .vec hav.toMember (.succ hnv.toMember)
    exact ⟨hT, .conv (.cons ha hn hx hxs) (.vec hav.reds.conv hnv.reds.succ.conv) hT.typed⟩
  | fuel + 1, ctx, .vecElim _ a m b s n xs, hctx, ht => by
    have hN := hctx.signature.naming
    simp only [Synth.withHyps, Synth.infer]
    refine (Check.check_sound hctx ht.1 .star).bind fun _ _ ha => ?_
    have hac := ha.hasType hN
    refine (Context.eval_spec hΘ hctx ht.1 hac).widen.bind fun av _ hav => ?_
    refine (Context.eval_vecMotive hΘ hctx hav.toMember).widen.bind fun M _ hM => ?_
    refine (Check.check_sound hctx ht.2.1 hM.toMember).bind fun _ _ hm => ?_
    replace hm : Check.Has Θ N ctx.core m (Core.vecMotive (a.core N)) :=
      .conv hm (hav.reds.conv.vecMotive.trans hM.reds.conv).symm hac.vecMotive_type
    have hmc := hm.hasType hN
    -- The value of the motive is used at the value of the element type.
    refine (Context.eval_spec hΘ hctx ht.2.1 (hmc.conv hav.reds.conv.vecMotive
      hav.typed.vecMotive_type)).widen.bind fun mv _ hmv => ?_
    refine (Context.applyAll_vecMotive hΘ hctx hmv.toMember .zero
      (.nil hav.toMember)).widen.bind fun B _ hB => ?_
    replace hB := hB.head (Reds.app (Reds.app hmv.reds .refl) (Reds.nil hav.reds))
    refine (Check.check_sound hctx ht.2.2.1 hB.toMember).bind fun _ _ hb => ?_
    replace hb := hb.core_of_reaches hB (hmc.vecMotive_app .zero (.nil hac))
    refine (Context.eval_vecStep hΘ hctx hav.toMember hmv.toMember).widen.bind fun S _ hS => ?_
    refine (Check.check_sound hctx ht.2.2.2.1 hS.toMember).bind fun _ _ hs => ?_
    replace hs : Check.Has Θ N ctx.core s (Core.vecStep (a.core N) (m.core N)) :=
      .conv hs ((Conv.vecStep hav.reds.conv hmv.reds.conv).trans hS.reds.conv).symm
        (hac.vecStep_type hmc)
    refine (Check.check_sound hctx ht.2.2.2.2.1 .nat).bind fun _ _ hn => ?_
    have hnc := hn.hasType hN
    refine (Context.eval_spec hΘ hctx ht.2.2.2.2.1 hnc).widen.bind fun nv _ hnv => ?_
    have hvec := hav.vec hnv
    refine (Check.check_sound hctx ht.2.2.2.2.2 hvec.toMember).bind fun _ _ hxs => ?_
    replace hxs := hxs.core_of_reaches hvec (.vec hac hnc)
    refine (Context.eval_spec hΘ hctx ht.2.2.2.2.2 ((hxs.hasType hN).conv hvec.reds.conv
      hvec.typed)).widen.bind fun xv _ hxv => ?_
    refine (Context.applyAll_vecMotive hΘ hctx hmv.toMember hnv.toMember
      hxv.toMember).widen.mono fun T _ hT => ?_
    exact ⟨hT.toMember, .conv (.vecElim ha hm hb hs hn hxs)
      ((Reds.app (Reds.app hmv.reds hnv.reds) hxv.reds).conv.trans hT.reds.conv) hT.typed⟩

theorem Check.check_sound : ∀ {fuel : Nat} {ctx : Context} {t : Check} {T : Value}, ctx.Ok Θ G N →
    t.Scoped IsGlobal ctx.depth → ctx.Member Θ G T .star →
      ((t.withHyps ctx.depth 0).check fuel ctx T).Ends (fun _ => True)
        fun _ => Check.Has Θ N ctx.core t (ctx.embed T)
  | 0, _, _, _, _, _, _ => by simp only [Check.check]; trivial
  | fuel + 1, ctx, .synth t, T, hctx, ht, hT => by
    simp only [Check.withHyps, Check.check]
    refine (Synth.infer_sound (t := t) hctx ht).bind fun U _ hU => ?_
    refine (Context.convert_spec hΘ hctx hT hU.1).mono fun _ _ hc => ?_
    exact .synth (.conv hU.2 hc.symm hT.typed)
  | fuel + 1, ctx, .lam _ x b, T, hctx, ht, hT => by
    simp only [Check.withHyps, Check.check, Context.freshVar, Check.subst_withHyps]
    split
    · rename_i y D c
      have hD := hT.pi_domain
      have hctx' := hctx.bind hD
      refine (Context.eval_freshVar).widen.bind fun v _ hv => ?_
      subst hv
      refine (Context.apply_freshVar hΘ hctx hT).widen.bind fun B _ hB => ?_
      refine (Check.check_sound (t := b) hctx' ht hB.toMember).mono fun _ _ hb => ?_
      exact .lam hD.typed (hb.core_of_reaches hB hT.pi_codomain)
    · refine (Context.quote_spec hΘ hctx hT).widen.bind fun _ _ _ => ?_
      trivial
  | fuel + 1, ctx, .ascribe _ t e, T, hctx, ht, hT => by
    simp only [Check.withHyps, Check.check]
    refine (Check.check_sound hctx ht.1 .star).bind fun _ _ hty => ?_
    have htc := hty.hasType hctx.signature.naming
    refine (Context.eval_spec hΘ hctx ht.1 htc).widen.bind fun U _ hU => ?_
    refine (Context.convert_spec hΘ hctx hT hU.toMember).bind fun _ _ hc => ?_
    refine (Check.check_sound hctx ht.2 hU.toMember).mono fun _ _ he => ?_
    exact .conv (.ascribe hty (he.core_of_reaches hU htc)) (hU.reds.conv.trans hc.symm) hT.typed
  | fuel + 1, ctx, .sealed _ e, T, hctx, ht, hT => by
    simp only [Check.withHyps, Check.check]
    refine (Synth.infer_sound (t := e) hctx ht).bind fun U _ hU => ?_
    refine (Context.convert_spec hΘ hctx hT hU.1).mono fun _ _ hc => ?_
    exact .sealed (.conv hU.2 hc.symm hT.typed)

end

end Soundness

/-! ## Closed terms -/

namespace Signature

section Closed

variable {Θ : Theory} {G : String → Prop} {N : Naming} {sig : Signature}

theorem Ok.context (hsig : sig.Ok Θ G N) : (Context.ofSignature sig).Ok Θ G N :=
  ⟨hsig, .nil⟩

/-- The value is closed and has the type. -/
structure Member (Θ : Theory) (G : String → Prop) (v : Value) (A : Core) : Prop where
  inScope : v.Scoped (Within G 0)
  typed : HasType Θ [] (v.embed .atom) A

theorem Member.ofContext {v : Value} {A : Core}
    (h : (Context.ofSignature sig).Member Θ G v A) : Member Θ G v A :=
  ⟨h.inScope, levels_zero ▸ h.typed⟩

theorem Member.star : Member Θ G .star .star :=
  ⟨trivial, .star⟩

theorem Member.toContext {v : Value} {A : Core} (h : Member Θ G v A) :
    (Context.ofSignature sig).Member Θ G v A := by
  refine ⟨h.inScope, ?_⟩
  rw [Context.embed, h.inScope.embed_levels]
  exact h.typed

variable (hΘ : Θ.Ok) (hsig : sig.Ok Θ G N)

include hΘ hsig

theorem infer_closed {fuel : Nat} {t : Synth} (ht : t.Scoped IsGlobal 0) :
    (t.infer fuel (.ofSignature sig)).Ends (fun _ => True) fun T =>
      Member Θ G T .star ∧ Synth.Has Θ N [] t (T.embed .atom) := by
  have hself : t.infer fuel (.ofSignature sig) =
      (t.withHyps (Context.ofSignature sig).depth 0).infer fuel (.ofSignature sig) := by
    rw [ht.withHyps_eq]
  rw [hself]
  refine (Synth.infer_sound hΘ hsig.context ht).mono fun T _ hT => ⟨.ofContext hT.1, ?_⟩
  have hhas := hT.2
  rw [Context.embed, hT.1.inScope.embed_levels] at hhas
  exact hhas

theorem check_closed {fuel : Nat} {t : Check} {T : Value} (ht : t.Scoped IsGlobal 0)
    (hT : Member Θ G T .star) : (t.check fuel (.ofSignature sig) T).Ends (fun _ => True) fun _ =>
      Check.Has Θ N [] t (T.embed .atom) := by
  have hself : t.check fuel (.ofSignature sig) T =
      (t.withHyps (Context.ofSignature sig).depth 0).check fuel (.ofSignature sig) T := by
    rw [ht.withHyps_eq]
  rw [hself]
  refine (Check.check_sound hΘ hsig.context ht hT.toContext).mono fun _ _ hhas => ?_
  rw [Context.embed, hT.inScope.embed_levels] at hhas
  exact hhas

theorem eval_closed {fuel : Nat} {t : Check} {A : Core} (ht : t.Scoped IsGlobal 0)
    (h : HasType Θ [] (t.core N) A) :
    ((Context.ofSignature sig).eval fuel t).Ends (fun _ => True) fun v =>
      Member Θ G v A ∧ Reds Θ (t.core N) (v.embed .atom) := by
  have hself : (Context.ofSignature sig).eval fuel t =
      (Context.ofSignature sig).eval fuel (t.withHyps (Context.ofSignature sig).depth 0) := by
    rw [ht.withHyps_eq]
  rw [hself]
  refine (Context.eval_spec hΘ hsig.context ht h).mono fun v _ hv => ⟨.ofContext hv.toMember, ?_⟩
  have hr := hv.reds
  rw [Context.embed, hv.inScope.embed_levels] at hr
  exact hr

theorem eval_synth_closed {fuel : Nat} {t : Synth} {A : Core} (ht : t.Scoped IsGlobal 0)
    (h : HasType Θ [] (t.core N) A) :
    (t.eval fuel ((Context.ofSignature sig).env [])).Ends (fun _ => True) fun v =>
      Member Θ G v A ∧ Reds Θ (t.core N) (v.embed .atom) := by
  have hself : t.eval fuel ((Context.ofSignature sig).env []) =
      (Context.ofSignature sig).eval (fuel + 1) (.synth t) := by
    simp only [Context.eval, Context.evalIn, Check.eval]
  rw [hself]
  exact eval_closed (t := .synth t) hΘ hsig ht h

theorem checkType_closed {fuel : Nat} {t : Check} (ht : t.Scoped IsGlobal 0) :
    (t.checkType fuel (.ofSignature sig)).Ends (fun _ => True) fun T =>
      Member Θ G T .star ∧ Check.Has Θ N [] t .star ∧ Reds Θ (t.core N) (T.embed .atom) := by
  simp only [Check.checkType]
  refine (check_closed hΘ hsig ht .star).bind fun _ _ hhas => ?_
  simp only [Value.embed] at hhas
  refine (eval_closed hΘ hsig ht
    (hhas.hasType hsig.naming)).widen.mono fun T _ hT => ?_
  exact ⟨hT.1, hhas, hT.2⟩

theorem quote_closed {fuel : Nat} {v : Value} {A : Core} (hv : Member Θ G v A) :
    ((Context.ofSignature sig).quote fuel v).Ends (fun _ => True) fun _ => True :=
  (Context.quote_spec hΘ hsig.context hv.toContext).mono fun _ _ _ => trivial

end Closed

end Signature

end TypeInType
