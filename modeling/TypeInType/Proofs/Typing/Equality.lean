import TypeInType.Proofs.Typing.Convertibility
import TypeInType.Proofs.Value.Simulation

/-!
# Checking respects equality of types

Types with equal normal forms are convertible, and stay so when they are applied to equal arguments. So
the checker takes the same course whichever of the equal types the hypotheses have, and whichever of the
equal types it checks against. The types need not be well formed.
-/

namespace TypeInType

open TypeInType.Core (Conv)
open Run (Concurs)

/-! ## Equal types -/

/-- The values are convertible, and mention no variable of read-back. -/
structure Value.Equal (Θ : Theory) (v v' : Value) : Prop where
  left : v.NamesIn NotQuote
  right : v'.NamesIn NotQuote
  conv : Conv Θ (v.embed .atom) (v'.embed .atom)

structure Closure.Equal (Θ : Theory) (c c' : Closure) : Prop where
  left : c.ScopedBy .any NotQuote
  right : c'.ScopedBy .any NotQuote
  conv : Conv Θ (c.embed .atom) (c'.embed .atom)

variable {Θ : Theory}

theorem inert_atom : Inert .atom where
  name x := by cases x <;> rfl
  undeclared _ := rfl
  stray _ := rfl

namespace Value

theorem Equal.refl {v : Value} (h : v.NamesIn NotQuote) : v.Equal Θ v :=
  ⟨h, h, .refl _⟩

theorem Equal.star : Value.star.Equal Θ .star :=
  .refl trivial

theorem Equal.nat : Value.nat.Equal Θ .nat :=
  .refl trivial

theorem Equal.pi_inv {x : Option String} {d T : Value} {c : Closure}
    (h : (Value.pi x d c).Equal Θ T) :
    ∃ x' d' c', T = .pi x' d' c' ∧ d.Equal Θ d' ∧ c.Equal Θ c' := by
  have hconv := h.conv
  simp only [Value.embed] at hconv
  obtain ⟨x', d', c', rfl⟩ := Value.eq_pi_of_conv inert_atom hconv.symm
  simp only [Value.embed] at hconv
  obtain ⟨hd, hc⟩ := hconv.pi_inj
  exact ⟨x', d', c', rfl, ⟨h.left.1, h.right.1, hd⟩, ⟨h.left.2, h.right.2, hc⟩⟩

/-- Equal types are both function types, or neither is. -/
theorem Equal.pi_or {T T' : Value} (h : T.Equal Θ T') :
    (∃ x d c x' d' c', T = .pi x d c ∧ T' = .pi x' d' c' ∧ d.Equal Θ d' ∧ c.Equal Θ c') ∨
      (∀ x d c, T ≠ .pi x d c) ∧ ∀ x d c, T' ≠ .pi x d c := by
  by_cases hT : ∃ x d c, T = .pi x d c
  · obtain ⟨x, d, c, rfl⟩ := hT
    obtain ⟨x', d', c', rfl, hd, hc⟩ := h.pi_inv
    exact .inl ⟨x, d, c, x', d', c', rfl, rfl, hd, hc⟩
  · apply Or.inr
    constructor
    · rintro x d c rfl
      exact hT ⟨x, d, c, rfl⟩
    · rintro x d c rfl
      have hconv := h.conv
      simp only [Value.embed] at hconv
      exact hT (Value.eq_pi_of_conv inert_atom hconv)

/-- Equality of normal forms does not tell equal types apart. -/
theorem Equal.alphaEq_eq {T T' U U' : Value} (hT : T.Equal Θ T') (hU : U.Equal Θ U')
    {fuel depth : Nat} {r r' q q' : Check} (hr : T.quote fuel depth = .ok r)
    (hr' : T'.quote fuel depth = .ok r') (hq : U.quote fuel depth = .ok q)
    (hq' : U'.quote fuel depth = .ok q') : r.alphaEq q = r'.alphaEq q' := by
  rw [Bool.eq_iff_iff, hT.left.alphaEq_iff_conv (Θ := Θ) (fun _ h => h) hU.left hr hq,
    hT.right.alphaEq_iff_conv (Θ := Θ) (fun _ h => h) hU.right hr' hq']
  constructor
  · intro h
    exact (hT.conv.symm.trans h).trans hU.conv
  · intro h
    exact (hT.conv.trans h).trans hU.conv.symm

theorem Equal.alphaEq {v v' : Value} (h : v.Equal Θ v') {fuel fuel' depth : Nat} {r r' : Check}
    (hr : v.quote fuel depth = .ok r) (hr' : v'.quote fuel' depth = .ok r') :
    r.alphaEq r' = true :=
  (h.left.alphaEq_iff_conv (fun _ h => h) h.right hr hr').mpr h.conv

/-- The values have equal normal forms, read back under `depth` binders. -/
def SameFormAt (depth : Nat) (v v' : Value) : Prop :=
  ∃ fuel fuel' r r', v.quote fuel depth = .ok r ∧ v'.quote fuel' depth = .ok r' ∧
    r.alphaEq r' = true

theorem SameFormAt.equal {depth : Nat} {v v' : Value} (h : v.SameFormAt depth v')
    (hv : v.NamesIn NotQuote) (hv' : v'.NamesIn NotQuote) : v.Equal Θ v' := by
  obtain ⟨fuel, fuel', r, r', hr, hr', heq⟩ := h
  exact ⟨hv, hv', (hv.alphaEq_iff_conv (fun _ h => h) hv' hr hr').mp heq⟩

end Value

/-- Equal closures give equal values when they are applied to the same value. -/
theorem Closure.Equal.apply {c c' : Closure} (h : c.Equal Θ c') {v w w' : Value}
    (hv : v.NamesIn NotQuote) {fuel fuel' : Nat} (hw : c.apply fuel v = .ok w)
    (hw' : c'.apply fuel' v = .ok w') : w.Equal Θ w' where
  left := Closure.apply_scopedBy h.left hv hw
  right := Closure.apply_scopedBy h.right hv hw'
  conv := by
    have hinst := h.conv.inst (Conv.refl (v.embed .atom))
    have hreds := (Closure.apply_reds Θ .atom hw).conv
    have hreds' := (Closure.apply_reds Θ .atom hw').conv
    exact (hreds.symm.trans hinst).trans hreds'

/-! ## Signatures -/

/-- No value and no type of the signature mentions a variable of read-back. -/
structure Signature.QuoteFree (sig : Signature) : Prop where
  values : GlobalsScopedBy .any NotQuote sig.values
  types : ∀ {x T}, sig.type? x = some T → T.NamesIn NotQuote

theorem Signature.QuoteFree.evalIn {sig : Signature} (h : sig.QuoteFree) {hyps locals : List Value}
    (hlocals : LocalsScopedBy .any NotQuote locals) {t : Check} {k : Nat} (ht : t.Scoped NotQuote k)
    {fuel : Nat} {v : Value} (hv : Context.evalIn ⟨sig, hyps⟩ fuel locals t = .ok v) :
    v.NamesIn NotQuote := by
  have henv : (Context.env ⟨sig, hyps⟩ locals).ScopedBy .any NotQuote := ⟨h.values, hlocals⟩
  exact Check.eval_scopedBy henv trivial (ht.mono OrGlobal.of_self) hv

theorem Signature.QuoteFree.eval {sig : Signature} (h : sig.QuoteFree) {hyps : List Value}
    {t : Check} {k : Nat} (ht : t.Scoped NotQuote k) {fuel : Nat} {v : Value}
    (hv : Context.eval ⟨sig, hyps⟩ fuel t = .ok v) : v.NamesIn NotQuote := by
  have hlocals : LocalsScopedBy .any NotQuote [] := trivial
  exact h.evalIn hlocals ht hv

theorem Value.applyAll_namesIn {fuel : Nat} {v : Value} : ∀ {f : Value} {args : List Value},
    f.NamesIn NotQuote → LocalsScopedBy .any NotQuote args → f.applyAll fuel args = .ok v →
      v.NamesIn NotQuote
  | f, [], hf, _, h => by
    cases h
    exact hf
  | f, a :: args, hf, ha, h => by
    simp only [Value.applyAll, List.foldlM_cons, Run.bind_eq_ok] at h
    obtain ⟨g, hg, h⟩ := h
    exact Value.applyAll_namesIn (Value.apply_scopedBy hf ha.1 hg) ha.2 h

/-! ## Checking in lock-step -/

section Checking

variable {sig : Signature} (hsig : sig.QuoteFree)

include hsig

theorem Context.lookup_concurs {hyps hyps' : List Value}
    (hhyps : List.Forall₂ (Value.Equal Θ) hyps hyps') (s : Span) (x : Name) :
    (Context.lookup ⟨sig, hyps⟩ s x).Concurs (Value.Equal Θ)
      (Context.lookup ⟨sig, hyps'⟩ s x) := by
  cases x with
  | global x =>
    simp only [Context.lookup]
    cases hx : sig.type? x with
    | none => exact .refuse _ _
    | some T => exact .pure (.refl (hsig.types hx))
  | hyp l =>
    simp only [Context.lookup, atLevel?, hhyps.length_eq]
    cases indexOfLevel? hyps'.length l with
    | none => exact .abort _ _
    | some i =>
      have htype := forall₂_getElem? hhyps i
      simp only [Option.bind_some]
      generalize hyps[i]? = T, hyps'[i]? = T' at htype ⊢
      cases htype with
      | none => exact .abort _ _
      | some hT => exact .pure hT
  | quote l => exact .abort _ _

omit hsig

theorem Context.freshVar_eq {hyps hyps' : List Value} (h : hyps.length = hyps'.length) :
    Context.freshVar ⟨sig, hyps⟩ = Context.freshVar ⟨sig, hyps'⟩ := by
  simp only [Context.freshVar, Context.depth, h]

theorem Context.convert_concurs {hyps hyps' : List Value} (hlen : hyps.length = hyps'.length)
    (fuel : Nat) (s : Span) {T T' U U' : Value} (hT : T.Equal Θ T') (hU : U.Equal Θ U') :
    (Context.convert ⟨sig, hyps⟩ fuel s T U).Concurs Eq
      (Context.convert ⟨sig, hyps'⟩ fuel s T' U') := by
  unfold Context.convert Context.quote Context.depth
  simp only [hlen]
  apply (Concurs.widen fun r r' hr hr' => And.intro hr hr').bind
  rintro r r' ⟨hr, hr'⟩
  apply (Concurs.widen fun q q' hq hq' => And.intro hq hq').bind
  rintro q q' ⟨hq, hq'⟩
  rw [hT.alphaEq_eq hU hr hr' hq hq']
  cases r'.alphaEq q' with
  | true => exact .pure rfl
  | false => exact .refuse _ _

/-- Both report a type that they do not expect. -/
theorem Context.refuse_concurs {α β : Type} {R : α → β → Prop} {ctx ctx' : Context} (fuel : Nat)
    (T T' : Value) (f f' : Check → TypeError) :
    ((ctx.quote fuel T).widen >>= fun r => (.refuse (f r) : Run TypeError α)).Concurs R
      ((ctx'.quote fuel T').widen >>= fun r => (.refuse (f' r) : Run TypeError β)) := by
  apply (Concurs.widen fun _ _ _ _ => trivial).bind
  intro r r' _
  exact .refuse _ _

include hsig

-- Evaluation does not see the hypotheses, so both runs evaluate the same terms to the same values. Their
-- types differ only where they come from a hypothesis or from the type that is expected.
mutual

theorem Synth.infer_concurs : ∀ (fuel : Nat) {hyps hyps' : List Value} {t : Synth} {k : Nat},
    List.Forall₂ (Value.Equal Θ) hyps hyps' → t.Scoped NotQuote k →
      (t.infer fuel ⟨sig, hyps⟩).Concurs (Value.Equal Θ) (t.infer fuel ⟨sig, hyps'⟩)
  | 0, _, _, _, _, _, _ => .outOfFuel _
  | fuel + 1, hyps, hyps', .ann _ e t, k, hhyps, ht => by
    simp only [Synth.infer]
    apply (Check.check_concurs fuel hhyps .star ht.2).bind
    intro _ _ _
    apply Concurs.widen_bind
    intro T hT
    have hT := hsig.eval ht.2 hT
    apply (Check.check_concurs fuel hhyps (.refl hT) ht.1).bind
    intro _ _ _
    exact .pure (.refl hT)
  | fuel + 1, hyps, hyps', .star _, k, _, _ => .pure .star
  | fuel + 1, hyps, hyps', .pi _ _ d c, k, hhyps, ht => by
    simp only [Synth.infer, Context.freshVar_eq hhyps.length_eq]
    apply (Check.check_concurs fuel hhyps .star ht.1).bind
    intro _ _ _
    apply Concurs.widen_bind
    intro D hD
    have hD := hsig.eval ht.1 hD
    apply (Check.check_concurs fuel (.cons (.refl hD) hhyps) .star
      (ht.2.subst_hyp trivial 0)).bind
    intro _ _ _
    apply Concurs.widen_bind
    intro _ _
    exact .pure .star
  | fuel + 1, hyps, hyps', .bound _ _, k, _, _ => .abort _ _
  | fuel + 1, hyps, hyps', .free s x, k, hhyps, _ => Context.lookup_concurs hsig hhyps s x
  | fuel + 1, hyps, hyps', .app _ h a, k, hhyps, ht => by
    simp only [Synth.infer]
    apply (Synth.infer_concurs fuel hhyps ht.1).bind
    intro T T' hT
    rcases hT.pi_or with ⟨x, d, c, x', d', c', rfl, rfl, hd, hc⟩ | ⟨hT, hT'⟩
    · apply (Check.check_concurs fuel hhyps hd ht.2).bind
      intro _ _ _
      apply Concurs.widen_bind
      intro v hv
      -- The codomains were compared at a variable of read-back, and are now applied to the argument.
      apply Concurs.widen
      intro w w' hw hw'
      exact hc.apply (hsig.eval ht.2 hv) hw hw'
    · split
      · exact absurd rfl (hT _ _ _)
      · exact Context.refuse_concurs fuel T T' _ _
  | fuel + 1, hyps, hyps', .nat _, k, _, _ => .pure .star
  | fuel + 1, hyps, hyps', .zero _, k, _, _ => .pure .nat
  | fuel + 1, hyps, hyps', .succ _ n, k, hhyps, ht => by
    simp only [Synth.infer]
    apply (Check.check_concurs (t := n) fuel hhyps .nat ht).bind
    intro _ _ _
    exact .pure .nat
  | fuel + 1, hyps, hyps', .natElim _ m b s n, k, hhyps, ht => by
    obtain ⟨hm, hb, hs, hn⟩ := ht
    simp only [Synth.infer]
    apply Concurs.widen_bind
    intro M hM
    have hM := hsig.eval (Telescope.natMotive_scoped _) hM
    apply (Check.check_concurs fuel hhyps (.refl hM) hm).bind
    intro _ _ _
    apply Concurs.widen_bind
    intro mv hmv
    have hmv := hsig.eval hm hmv
    apply Concurs.widen_bind
    intro B hB
    have hB : B.NamesIn NotQuote := Value.apply_scopedBy (a := .zero) hmv trivial hB
    apply (Check.check_concurs fuel hhyps (.refl hB) hb).bind
    intro _ _ _
    apply Concurs.widen_bind
    intro S hS
    have hlocals : LocalsScopedBy .any NotQuote [mv] := ⟨hmv, trivial⟩
    have hS := hsig.evalIn hlocals (Telescope.natStep_scoped _) hS
    apply (Check.check_concurs fuel hhyps (.refl hS) hs).bind
    intro _ _ _
    apply (Check.check_concurs fuel hhyps .nat hn).bind
    intro _ _ _
    apply Concurs.widen_bind
    intro nv hnv
    apply Concurs.widen
    intro T T' hT hT'
    cases hT.symm.trans hT'
    exact .refl (Value.apply_scopedBy hmv (hsig.eval hn hnv) hT)
  | fuel + 1, hyps, hyps', .vec _ a n, k, hhyps, ht => by
    simp only [Synth.infer]
    apply (Check.check_concurs fuel hhyps .star ht.1).bind
    intro _ _ _
    apply Concurs.widen_bind
    intro _ _
    apply (Check.check_concurs fuel hhyps .nat ht.2).bind
    intro _ _ _
    exact .pure .star
  | fuel + 1, hyps, hyps', .nil _ a, k, hhyps, ht => by
    simp only [Synth.infer]
    apply (Check.check_concurs (t := a) fuel hhyps .star ht).bind
    intro _ _ _
    apply Concurs.widen_bind
    intro A hA
    have hA := hsig.eval (t := a) ht hA
    exact .pure (.refl ⟨hA, trivial⟩)
  | fuel + 1, hyps, hyps', .cons _ a n x xs, k, hhyps, ht => by
    obtain ⟨ha, hn, hx, hxs⟩ := ht
    simp only [Synth.infer]
    apply (Check.check_concurs fuel hhyps .star ha).bind
    intro _ _ _
    apply Concurs.widen_bind
    intro A hA
    have hA := hsig.eval ha hA
    apply (Check.check_concurs fuel hhyps .nat hn).bind
    intro _ _ _
    apply Concurs.widen_bind
    intro nv hnv
    have hnv := hsig.eval hn hnv
    apply (Check.check_concurs fuel hhyps (.refl hA) hx).bind
    intro _ _ _
    have hvec : (Value.vec A nv).NamesIn NotQuote := ⟨hA, hnv⟩
    apply (Check.check_concurs fuel hhyps (.refl hvec) hxs).bind
    intro _ _ _
    exact .pure (.refl ⟨hA, hnv⟩)
  | fuel + 1, hyps, hyps', .vecElim _ a m b s n xs, k, hhyps, ht => by
    obtain ⟨ha, hm, hb, hs, hn, hxs⟩ := ht
    simp only [Synth.infer]
    apply (Check.check_concurs fuel hhyps .star ha).bind
    intro _ _ _
    apply Concurs.widen_bind
    intro A hA
    have hA := hsig.eval ha hA
    apply Concurs.widen_bind
    intro M hM
    have hlocals : LocalsScopedBy .any NotQuote [A] := ⟨hA, trivial⟩
    have hM := hsig.evalIn hlocals (Telescope.vecMotive_scoped _) hM
    apply (Check.check_concurs fuel hhyps (.refl hM) hm).bind
    intro _ _ _
    apply Concurs.widen_bind
    intro mv hmv
    have hmv := hsig.eval hm hmv
    apply Concurs.widen_bind
    intro B hB
    have hargs : LocalsScopedBy .any NotQuote [.zero, .nil A] := ⟨trivial, hA, trivial⟩
    have hB := Value.applyAll_namesIn hmv hargs hB
    apply (Check.check_concurs fuel hhyps (.refl hB) hb).bind
    intro _ _ _
    apply Concurs.widen_bind
    intro S hS
    have hlocals : LocalsScopedBy .any NotQuote [mv, A] := ⟨hmv, hA, trivial⟩
    have hS := hsig.evalIn hlocals (Telescope.vecStep_scoped _) hS
    apply (Check.check_concurs fuel hhyps (.refl hS) hs).bind
    intro _ _ _
    apply (Check.check_concurs fuel hhyps .nat hn).bind
    intro _ _ _
    apply Concurs.widen_bind
    intro nv hnv
    have hnv := hsig.eval hn hnv
    have hvec : (Value.vec A nv).NamesIn NotQuote := ⟨hA, hnv⟩
    apply (Check.check_concurs fuel hhyps (.refl hvec) hxs).bind
    intro _ _ _
    apply Concurs.widen_bind
    intro xv hxv
    have hxv := hsig.eval hxs hxv
    apply Concurs.widen
    intro T T' hT hT'
    cases hT.symm.trans hT'
    have hargs : LocalsScopedBy .any NotQuote [nv, xv] := ⟨hnv, hxv, trivial⟩
    exact .refl (Value.applyAll_namesIn hmv hargs hT)

theorem Check.check_concurs : ∀ (fuel : Nat) {hyps hyps' : List Value} {t : Check} {k : Nat}
    {T T' : Value}, List.Forall₂ (Value.Equal Θ) hyps hyps' → T.Equal Θ T' → t.Scoped NotQuote k →
      (t.check fuel ⟨sig, hyps⟩ T).Concurs Eq (t.check fuel ⟨sig, hyps'⟩ T')
  | 0, _, _, _, _, _, _, _, _, _ => .outOfFuel _
  | fuel + 1, hyps, hyps', .synth t, k, T, T', hhyps, hT, ht => by
    simp only [Check.check]
    apply (Synth.infer_concurs (t := t) fuel hhyps ht).bind
    intro U U' hU
    exact Context.convert_concurs hhyps.length_eq fuel _ hT hU
  | fuel + 1, hyps, hyps', .lam _ _ b, k, T, T', hhyps, hT, ht => by
    simp only [Check.check, Context.freshVar_eq hhyps.length_eq]
    rcases hT.pi_or with ⟨x, d, c, x', d', c', rfl, rfl, hd, hc⟩ | ⟨hT, hT'⟩
    · apply Concurs.widen_bind
      intro v hv
      have hfresh : (Check.synth (Context.freshVar ⟨sig, hyps'⟩)).Scoped NotQuote 0 := trivial
      have hv := hsig.eval hfresh hv
      apply (Concurs.widen fun U U' hU hU' => hc.apply hv hU hU').bind
      intro U U' hU
      exact Check.check_concurs fuel (.cons hd hhyps) hU
        (Check.Scoped.subst_hyp (t := b) trivial ht 0)
    · split
      · exact absurd rfl (hT _ _ _)
      · exact Context.refuse_concurs fuel T T' _ _
  | fuel + 1, hyps, hyps', .ascribe _ t e, k, T, T', hhyps, hT, ht => by
    simp only [Check.check]
    apply (Check.check_concurs fuel hhyps .star ht.1).bind
    intro _ _ _
    apply Concurs.widen_bind
    intro U hU
    have hU := hsig.eval ht.1 hU
    apply (Context.convert_concurs hhyps.length_eq fuel _ hT (.refl hU)).bind
    intro _ _ _
    exact Check.check_concurs fuel hhyps (.refl hU) ht.2
  | fuel + 1, hyps, hyps', .sealed _ e, k, T, T', hhyps, hT, ht => by
    simp only [Check.check]
    apply (Synth.infer_concurs (t := e) fuel hhyps ht).bind
    intro U U' hU
    exact Context.convert_concurs hhyps.length_eq fuel _ hT hU

end

end Checking

end TypeInType
