import TypeInType.Proofs.Typing.Convertibility

/-!
# Terms without annotations are accepted

The checker refuses no term without annotations that has the type as a core term. It infers a type
that every other type of the term is convertible to. So a normal form has the type of the term that it
comes from.
-/

namespace TypeInType

open TypeInType.Core (Reds Conv HasType Lookup)

/-! ## Conversion in a context -/

section Conversion

variable {Θ : Theory} {G : String → Prop} {N : Naming} {ctx : Context}

/-- The variables of the hypotheses may be taken for constants. -/
theorem Value.Scoped.subst_levels {v : Value} {n : Nat} (h : v.Scoped (Within G n)) :
    (v.embed (levels n)).subst (fun i => .atom (.hyp (n - 1 - i))) = v.embed .atom := by
  rw [Value.subst_embed]
  have hagree : Agree (Within G n)
      (Core.subst (fun i => .atom (.hyp (n - 1 - i))) ∘ levels n) .atom := by
    refine ⟨fun x hx => ?_, fun _ => rfl⟩
    match x, hx with
    | .global x, _ => rfl
    | .hyp l, hl =>
      have hl : l < n := hl
      have hi : n - 1 - (n - l - 1) = l := by omega
      simp only [Function.comp, Name.atom, levels, if_pos hl, Core.subst, hi]
  exact Value.embed_congr hagree h

theorem Context.convert_complete (hΘ : Θ.Ok) (hctx : ctx.Ok Θ G N) {fuel : Nat} {span : Span}
    {T U : Value} {A B : Core} (hT : ctx.Member Θ G T A) (hU : ctx.Member Θ G U B)
    (hc : Conv Θ (ctx.embed T) (ctx.embed U)) :
    (ctx.convert fuel span T U).Ends (fun _ => False) fun _ => True := by
  have hc' : Conv Θ (T.embed .atom) (U.embed .atom) := by
    rw [← hT.inScope.subst_levels, ← hU.inScope.subst_levels]
    exact hc.subst _
  simp only [Context.convert]
  refine (Context.quote_spec hΘ hctx hT).widen.bind fun r hr _ => ?_
  refine (Context.quote_spec hΘ hctx hU).widen.bind fun r' hr' _ => ?_
  have heq : r.alphaEq r' = true :=
    (Value.alphaEq_iff_conv (Θ := Θ) (fun _ h => h) hT.inScope hU.inScope
      (Run.widen_eq_ok.mp hr) (Run.widen_eq_ok.mp hr')).mpr hc'
  rw [if_pos heq]
  trivial

theorem Core.Lookup.unique {Γ : List Core} {i : Nat} {A B : Core} (hA : Lookup Γ i A)
    (hB : Lookup Γ i B) : A = B := by
  induction hA generalizing B with
  | here => cases hB; rfl
  | there _ ih =>
    cases hB with
    | there hB => rw [ih hB]

end Conversion

/-- Every type of a name that satisfies `Q` is convertible to the one that it is given. -/
def Naming.Principal (Θ : Theory) (Q : Name → Prop) (N : Naming) : Prop :=
  ∀ ⦃Γ x A B⦄, Q (.global x) → HasType Θ Γ (N.term x) A → N.type x B → Conv Θ B A

/-! ## Completeness -/

section Completeness

variable {Θ : Theory} {G : String → Prop} {N : Naming} {Q : Name → Prop}

theorem Context.Reaches.hasType {ctx : Context} {t A B : Core} {T : Value}
    (hT : ctx.Reaches Θ G A .star T) (h : HasType Θ ctx.core t B) (hc : Conv Θ B A) :
    HasType Θ ctx.core t (ctx.embed T) :=
  .conv h (hc.trans hT.reds.conv) hT.typed

mutual

theorem Synth.infer_complete (hΘ : Θ.Ok) (hQ : ∀ x, Q x → IsGlobal x) (hN : N.Principal Θ Q) :
    ∀ {fuel : Nat} {ctx : Context} {t : Synth} {A : Core},
    ctx.Ok Θ G N → t.Scoped Q ctx.depth → t.Plain → HasType Θ ctx.core (t.core N) A →
      ((t.withHyps ctx.depth 0).infer fuel ctx).Ends (fun _ => False)
        fun T => Conv Θ (ctx.embed T) A
  | 0, _, _, _, _, _, _, _ => by simp only [Synth.infer]; trivial
  | fuel + 1, ctx, .ann _ _ _, A, _, _, hp, _ => hp.elim
  | fuel + 1, ctx, .star _, A, _, _, _, h => by
    obtain ⟨_, rfl, hc⟩ := h.inv
    simp only [Synth.withHyps, Synth.infer]
    exact hc
  | fuel + 1, ctx, .pi _ x d c, A, hctx, ht, hp, h => by
    simp only [Synth.core, Synth.erase, Check.erase_body] at h
    obtain ⟨_, ⟨hd, hc, rfl⟩, hconv⟩ := h.inv
    simp only [Synth.withHyps, Synth.infer, Context.freshVar, Check.subst_withHyps]
    refine (Check.check_complete hΘ hQ hN hctx ht.1 hp.1 .star hd).bind fun _ _ _ => ?_
    refine (Context.eval_spec hΘ hctx (ht.1.mono hQ) hd).widen.bind fun D _ hD => ?_
    have hctx' := hctx.bind hD.toMember
    have hc' : HasType Θ (ctx.bind D).core (c.core N) .star := hc.ctx_conv hD.reds.conv hd
    refine (Check.check_complete hΘ hQ hN hctx' ht.2 hp.2 .star hc').bind fun _ _ _ => ?_
    refine (Context.eval_spec hΘ hctx' (ht.2.mono hQ) hc').widen.bind fun _ _ _ => ?_
    exact hconv
  | fuel + 1, ctx, .bound _ i, A, hctx, ht, _, h => by
    obtain ⟨B, hB, hc⟩ := h.inv
    obtain ⟨T, hT, _, hlook⟩ := hctx.lookup ht
    simp only [Synth.withHyps, Nat.not_lt_zero, if_false, Nat.sub_zero, Synth.infer,
      Context.lookup, hT]
    rw [← hlook.unique hB] at hc
    exact hc
  | fuel + 1, ctx, .free _ (.global x), A, hctx, hx', _, h => by
    simp only [Synth.withHyps, Synth.infer, Context.lookup, Signature.type?]
    cases hx : ctx.signature.find? x with
    | none =>
      simp only [Synth.core, Synth.erase, Naming.name, hctx.signature.undeclared hx] at h
      obtain ⟨_, hg, _⟩ := h.inv
      exact hg.elim
    | some e =>
      have hs := (hctx.signature.inScope e (List.mem_of_find?_eq_some hx)).2
      obtain ⟨B, hB, hc, _⟩ := hctx.signature.type hx
      show Conv Θ (ctx.embed e.type) A
      rw [Context.embed, hs.embed_levels]
      exact hc.symm.trans (hN hx' h hB)
  | fuel + 1, ctx, .free _ (.hyp l), A, _, ht, _, _ => (hQ (.hyp l) ht).elim
  | fuel + 1, ctx, .free _ (.quote l), A, _, ht, _, _ => (hQ (.quote l) ht).elim
  | fuel + 1, ctx, .app _ f a, A, hctx, ht, hp, h => by
    obtain ⟨_, ⟨D, C, hf, ha, rfl⟩, hconv⟩ := h.inv
    simp only [Synth.withHyps, Synth.infer]
    refine (Synth.infer_complete hΘ hQ hN hctx ht.1 hp.1 hf).bind fun F hF hFc => ?_
    have hFm := ((Synth.infer_sound hΘ hctx (ht.1.mono hQ)).of_eq hF).1
    -- The type of the head is convertible to a function type, so as a value it is one.
    obtain ⟨x, d, c, rfl⟩ := Value.eq_pi_of_conv (levels_inert _) hFc
    simp only [Context.embed, Value.embed] at hFc
    obtain ⟨hcd, hcc⟩ := hFc.pi_inj
    have ha' : HasType Θ ctx.core (a.core N) (ctx.embed d) := ha.conv hcd.symm hFm.pi_domain.typed
    refine (Check.check_complete hΘ hQ hN hctx ht.2 hp.2 hFm.pi_domain ha').bind fun _ _ _ => ?_
    refine (Context.eval_spec hΘ hctx (ht.2.mono hQ) ha').widen.bind fun v _ hv => ?_
    have hinst := hFm.pi_codomain.inst hv.typed
    refine (Context.closure_apply_spec hΘ hctx hFm.inScope.2 hv.inScope
      hinst).widen.mono fun T _ hT => ?_
    exact (hT.reds.conv.symm.trans (Conv.inst hcc hv.reds.conv.symm)).trans hconv
  | fuel + 1, ctx, .nat _, A, _, _, _, h => by
    obtain ⟨_, rfl, hc⟩ := h.inv
    simp only [Synth.withHyps, Synth.infer]
    exact hc
  | fuel + 1, ctx, .zero _, A, _, _, _, h => by
    obtain ⟨_, rfl, hc⟩ := h.inv
    simp only [Synth.withHyps, Synth.infer]
    exact hc
  | fuel + 1, ctx, .succ _ n, A, hctx, ht, hp, h => by
    obtain ⟨_, ⟨hn, rfl⟩, hc⟩ := h.inv
    simp only [Synth.withHyps, Synth.infer]
    refine (Check.check_complete hΘ hQ hN (t := n) hctx ht hp .nat hn).bind fun _ _ _ => ?_
    exact hc
  | fuel + 1, ctx, .natElim _ m b s n, A, hctx, ht, hp, h => by
    obtain ⟨_, ⟨hm, hb, hs, hn, rfl⟩, hconv⟩ := h.inv
    simp only [Synth.withHyps, Synth.infer]
    refine (Context.eval_natMotive hΘ hctx).widen.bind fun M _ hM => ?_
    have hm' := hM.hasType hm (.refl _)
    refine (Check.check_complete hΘ hQ hN hctx ht.1 hp.1 hM.toMember hm').bind fun _ _ _ => ?_
    refine (Context.eval_spec hΘ hctx (ht.1.mono hQ) hm).widen.bind fun mv _ hmv => ?_
    refine (Context.apply_natMotive hΘ hctx hmv.toMember .zero).widen.bind fun B _ hB => ?_
    have hb' := hB.hasType hb (.app hmv.reds.conv (.refl _))
    refine (Check.check_complete hΘ hQ hN hctx ht.2.1 hp.2.1 hB.toMember hb').bind fun _ _ _ => ?_
    refine (Context.eval_natStep hΘ hctx hmv.toMember).widen.bind fun S _ hS => ?_
    have hs' := hS.hasType hs hmv.reds.conv.natStep
    refine (Check.check_complete hΘ hQ hN hctx ht.2.2.1 hp.2.2.1 hS.toMember hs').bind fun _ _ _ => ?_
    refine (Check.check_complete hΘ hQ hN hctx ht.2.2.2 hp.2.2.2 .nat hn).bind fun _ _ _ => ?_
    refine (Context.eval_spec hΘ hctx (ht.2.2.2.mono hQ) hn).widen.bind fun nv _ hnv => ?_
    refine (Context.apply_natMotive hΘ hctx hmv.toMember hnv.toMember).widen.mono
      fun T _ hT => ?_
    exact (hT.reds.conv.symm.trans (Reds.app hmv.reds hnv.reds).conv.symm).trans hconv
  | fuel + 1, ctx, .vec _ a n, A, hctx, ht, hp, h => by
    obtain ⟨_, ⟨ha, hn, rfl⟩, hc⟩ := h.inv
    simp only [Synth.withHyps, Synth.infer]
    refine (Check.check_complete hΘ hQ hN hctx ht.1 hp.1 .star ha).bind fun _ _ _ => ?_
    refine (Context.eval_spec hΘ hctx (ht.1.mono hQ) ha).widen.bind fun _ _ _ => ?_
    refine (Check.check_complete hΘ hQ hN hctx ht.2 hp.2 .nat hn).bind fun _ _ _ => ?_
    exact hc
  | fuel + 1, ctx, .nil _ a, A, hctx, ht, hp, h => by
    obtain ⟨_, ⟨ha, rfl⟩, hc⟩ := h.inv
    simp only [Synth.withHyps, Synth.infer]
    refine (Check.check_complete hΘ hQ hN (t := a) hctx ht hp .star ha).bind fun _ _ _ => ?_
    refine (Context.eval_spec (t := a) hΘ hctx (Check.Scoped.mono hQ ht) ha).widen.bind fun av _ hav => ?_
    exact (Conv.vec hav.reds.conv.symm (.refl _)).trans hc
  | fuel + 1, ctx, .cons _ a n x xs, A, hctx, ht, hp, h => by
    obtain ⟨_, ⟨ha, hn, hx, hxs, rfl⟩, hc⟩ := h.inv
    simp only [Synth.withHyps, Synth.infer]
    refine (Check.check_complete hΘ hQ hN hctx ht.1 hp.1 .star ha).bind fun _ _ _ => ?_
    refine (Context.eval_spec hΘ hctx (ht.1.mono hQ) ha).widen.bind fun av _ hav => ?_
    refine (Check.check_complete hΘ hQ hN hctx ht.2.1 hp.2.1 .nat hn).bind fun _ _ _ => ?_
    refine (Context.eval_spec hΘ hctx (ht.2.1.mono hQ) hn).widen.bind fun nv _ hnv => ?_
    have hx' := hav.hasType hx (.refl _)
    refine (Check.check_complete hΘ hQ hN hctx ht.2.2.1 hp.2.2.1 hav.toMember hx').bind fun _ _ _ => ?_
    have hvec := hav.vec hnv
    have hxs' := hvec.hasType hxs (.refl _)
    refine (Check.check_complete hΘ hQ hN hctx ht.2.2.2 hp.2.2.2 hvec.toMember hxs').bind fun _ _ _ => ?_
    exact (Conv.vec hav.reds.conv.symm (.succ hnv.reds.conv.symm)).trans hc
  | fuel + 1, ctx, .vecElim _ a m b s n xs, A, hctx, ht, hp, h => by
    obtain ⟨_, ⟨ha, hm, hb, hs, hn, hxs, rfl⟩, hconv⟩ := h.inv
    simp only [Synth.withHyps, Synth.infer]
    refine (Check.check_complete hΘ hQ hN hctx ht.1 hp.1 .star ha).bind fun _ _ _ => ?_
    refine (Context.eval_spec hΘ hctx (ht.1.mono hQ) ha).widen.bind fun av _ hav => ?_
    refine (Context.eval_vecMotive hΘ hctx hav.toMember).widen.bind fun M _ hM => ?_
    have hm' := hM.hasType hm hav.reds.conv.vecMotive
    refine (Check.check_complete hΘ hQ hN hctx ht.2.1 hp.2.1 hM.toMember hm').bind fun _ _ _ => ?_
    refine (Context.eval_spec hΘ hctx (ht.2.1.mono hQ) (hm.conv hav.reds.conv.vecMotive
      hav.typed.vecMotive_type)).widen.bind fun mv _ hmv => ?_
    refine (Context.applyAll_vecMotive hΘ hctx hmv.toMember .zero
      (.nil hav.toMember)).widen.bind fun B _ hB => ?_
    have hb' := hB.hasType hb (.app (.app hmv.reds.conv (.refl _)) (.nil hav.reds.conv))
    refine (Check.check_complete hΘ hQ hN hctx ht.2.2.1 hp.2.2.1 hB.toMember hb').bind fun _ _ _ => ?_
    refine (Context.eval_vecStep hΘ hctx hav.toMember hmv.toMember).widen.bind fun S _ hS => ?_
    have hs' := hS.hasType hs (.vecStep hav.reds.conv hmv.reds.conv)
    refine (Check.check_complete hΘ hQ hN hctx ht.2.2.2.1 hp.2.2.2.1 hS.toMember hs').bind fun _ _ _ => ?_
    refine (Check.check_complete hΘ hQ hN hctx ht.2.2.2.2.1 hp.2.2.2.2.1 .nat hn).bind fun _ _ _ => ?_
    refine (Context.eval_spec hΘ hctx (ht.2.2.2.2.1.mono hQ) hn).widen.bind fun nv _ hnv => ?_
    have hvec := hav.vec hnv
    have hxs' := hvec.hasType hxs (.refl _)
    refine (Check.check_complete hΘ hQ hN hctx ht.2.2.2.2.2 hp.2.2.2.2.2 hvec.toMember
      hxs').bind fun _ _ _ => ?_
    refine (Context.eval_spec hΘ hctx (ht.2.2.2.2.2.mono hQ) hxs').widen.bind fun xv _ hxv => ?_
    refine (Context.applyAll_vecMotive hΘ hctx hmv.toMember hnv.toMember
      hxv.toMember).widen.mono fun T _ hT => ?_
    exact (hT.reds.conv.symm.trans
      (Reds.app (Reds.app hmv.reds hnv.reds) hxv.reds).conv.symm).trans hconv

theorem Check.check_complete (hΘ : Θ.Ok) (hQ : ∀ x, Q x → IsGlobal x) (hN : N.Principal Θ Q) :
    ∀ {fuel : Nat} {ctx : Context} {t : Check} {T : Value},
    ctx.Ok Θ G N → t.Scoped Q ctx.depth → t.Plain → ctx.Member Θ G T .star →
      HasType Θ ctx.core (t.core N) (ctx.embed T) →
        ((t.withHyps ctx.depth 0).check fuel ctx T).Ends (fun _ => False) fun _ => True
  | 0, _, _, _, _, _, _, _, _ => by simp only [Check.check]; trivial
  | fuel + 1, ctx, .synth t, T, hctx, ht, hp, hT, h => by
    simp only [Check.withHyps, Check.check]
    refine (Synth.infer_complete hΘ hQ hN (t := t) hctx ht hp h).bind fun U hU hc => ?_
    have hUm := ((Synth.infer_sound (t := t) hΘ hctx (Synth.Scoped.mono hQ ht)).of_eq hU).1
    exact Context.convert_complete hΘ hctx hT hUm hc.symm
  | fuel + 1, ctx, .lam _ x b, T, hctx, ht, hp, hT, h => by
    simp only [Check.core, Check.erase, Check.erase_body] at h
    obtain ⟨_, ⟨A, B, hA, hb, rfl⟩, hc⟩ := h.inv
    obtain ⟨y, D, c, rfl⟩ := Value.eq_pi_of_conv (levels_inert _) hc.symm
    obtain ⟨hcA, hcB⟩ := Conv.pi_inj hc
    simp only [Check.withHyps, Check.check, Context.freshVar, Check.subst_withHyps]
    have hctx' := hctx.bind hT.pi_domain
    refine (Context.eval_freshVar).widen.bind fun v _ hv => ?_
    subst hv
    refine (Context.apply_freshVar hΘ hctx hT).widen.bind fun C _ hC => ?_
    have hb' : HasType Θ (ctx.bind D).core (b.core N) B := hb.ctx_conv hcA hA
    exact Check.check_complete hΘ hQ hN (t := b) hctx' ht hp hC.toMember (hC.hasType hb' hcB)
  | fuel + 1, ctx, .ascribe _ _ _, T, _, _, hp, _, _ => hp.elim
  | fuel + 1, ctx, .sealed _ _, T, _, _, hp, _, _ => hp.elim

end

section Closed

variable (hΘ : Θ.Ok) (hQ : ∀ x, Q x → IsGlobal x) (hN : N.Principal Θ Q)

include hΘ hQ hN

theorem Signature.check_closed_complete {sig : Signature} {fuel : Nat} {t : Check} {T : Value}
    (hsig : sig.Ok Θ G N) (ht : t.Scoped Q 0) (hp : t.Plain)
    (hT : Signature.Member Θ G T .star) (h : HasType Θ [] (t.core N) (T.embed .atom)) :
    (t.check fuel (.ofSignature sig) T).Ends (fun _ => False) fun _ => True := by
  have hself : t.check fuel (.ofSignature sig) T =
      (t.withHyps (Context.ofSignature sig).depth 0).check fuel (.ofSignature sig) T := by
    rw [(ht.mono hQ).withHyps_eq]
  rw [hself]
  refine Check.check_complete hΘ hQ hN hsig.context ht hp hT.toContext ?_
  rw [Context.embed, hT.inScope.embed_levels]
  exact h

theorem Signature.checkType_closed_complete {sig : Signature} {fuel : Nat} {t : Check}
    (hsig : sig.Ok Θ G N) (ht : t.Scoped Q 0) (hp : t.Plain) (h : HasType Θ [] (t.core N) .star) :
    (t.checkType fuel (.ofSignature sig)).Ends (fun _ => False) fun _ => True := by
  simp only [Check.checkType]
  refine (check_closed_complete hΘ hQ hN hsig ht hp .star h).bind fun _ _ _ => ?_
  exact (eval_closed hΘ hsig (ht.mono hQ) h).widen.mono fun _ _ _ => trivial

end Closed

end Completeness

/-! ## Normal forms -/

theorem Constants.naming_principal (cs : Constants) : cs.naming.Principal cs.theory IsGlobal := by
  rintro Γ x A B _ h ⟨c, hx, rfl⟩
  simp only [Constants.naming] at h
  cases hb : c.body with
  | none =>
    rw [Constants.atom_of_postulated ⟨c, hx, hb⟩] at h
    obtain ⟨_, ⟨c', hx', _, rfl⟩, hc⟩ := h.inv
    cases hx.symm.trans hx'
    exact hc
  | some b =>
    rw [Constants.atom_of_defined hx hb] at h
    obtain ⟨_, ⟨d, hd, rfl⟩, hc⟩ := h.inv
    obtain ⟨c', b', hx', _, rfl⟩ := Constants.theory_definition.mp hd
    cases hx.symm.trans hx'
    exact hc

/-- A normal form is accepted at the type that was inferred for the term, if its check ends. -/
theorem Declares.check_normalForm {cs : Constants} {sig : Signature} (h : Declares cs sig)
    {t : Synth} (ht : t.Scoped IsGlobal 0) {fuel₁ fuel₂ fuel₃ : Nat} {T v : Value} {r : Check}
    (hT : t.infer fuel₁ (.ofSignature sig) = .ok T)
    (hv : t.eval fuel₂ ((Context.ofSignature sig).env []) = .ok v)
    (hr : (Context.ofSignature sig).quote fuel₃ v = .ok r) (fuel : Nat) :
    r.check fuel (.ofSignature sig) T = .ok () ∨
      r.check fuel (.ofSignature sig) T = .error .outOfFuel := by
  obtain ⟨hΘ, hsig, _⟩ := h.ok
  obtain ⟨hTm, hhas⟩ := (Signature.infer_closed hΘ hsig ht).of_eq hT
  have htc := hhas.hasType hsig.naming
  obtain ⟨hvm, _⟩ := (Signature.eval_synth_closed hΘ hsig ht htc).of_eq hv
  obtain ⟨hrs, hrr⟩ := Constants.readBack hvm.inScope hr
  have hrt : HasType cs.theory [] (r.core cs.naming) (T.embed .atom) :=
    hvm.typed.reds hΘ .nil hrr
  have hend : (r.check fuel (.ofSignature sig) T).Ends (fun _ => False) fun _ => True :=
    Signature.check_closed_complete hΘ (fun _ h => h) cs.naming_principal hsig hrs
      (Value.quote_plain hr) hTm hrt
  rcases hend.ok_or_outOfFuel with ⟨⟨⟩, hok⟩ | hfuel
  · exact .inl hok
  · exact .inr hfuel

theorem Declares.check_addTwoFun : ∃ T v r,
    Synth.addTwoFun.infer 20 (.ofSignature .two) = .ok T ∧
    Synth.addTwoFun.eval 20 ((Context.ofSignature .two).env []) = .ok v ∧
    (Context.ofSignature .two).quote 20 v = .ok r ∧
    ∀ fuel, r.check fuel (.ofSignature .two) T = .ok () ∨
      r.check fuel (.ofSignature .two) T = .error .outOfFuel := by
  refine ⟨_, _, _, by rfl, by rfl, by rfl, fun fuel => ?_⟩
  exact @Declares.check_normalForm _ _ .two .addTwoFun Synth.scoped_addTwoFun 20 20 20 _ _ _ (by rfl)
    (by rfl) (by rfl) fuel

end TypeInType
