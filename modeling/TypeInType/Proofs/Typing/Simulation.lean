import Mathlib.Data.List.Forall2
import TypeInType.Proofs.Signature
import TypeInType.Proofs.Term.Nameless
import TypeInType.Proofs.Value.Simulation
import TypeInType.Typing

/-!
# Checking in similar contexts

The checker does not see which environment a closure holds, nor what a name stands for that the term does
not use: in similar contexts it accepts the same terms, and reports the same errors.
-/

namespace TypeInType

open Run (Rel)

/-- The same error at the same place. The terms that it shows may differ in the names of binders. -/
inductive TypeError.Sim : TypeError → TypeError → Prop where
  | mismatch {span e e' f f'} : e.alphaEq e' = true → f.alphaEq f' = true →
      TypeError.Sim (.mismatch span e f) (.mismatch span e' f')
  | undefinedVariable {span x y} :
      TypeError.Sim (.undefinedVariable span x y) (.undefinedVariable span x y)
  | expectedFunction {span t t'} : t.alphaEq t' = true →
      TypeError.Sim (.expectedFunction span t) (.expectedFunction span t')
  | unexpectedLambda {span t t'} : t.alphaEq t' = true →
      TypeError.Sim (.unexpectedLambda span t) (.unexpectedLambda span t')

theorem TypeError.Sim.trans {e e' e'' : TypeError} (h : e.Sim e') (h' : e'.Sim e'') : e.Sim e'' := by
  cases h with
  | mismatch he hf =>
    cases h' with
    | mismatch he' hf' => exact .mismatch (Check.alphaEq_trans he he') (Check.alphaEq_trans hf hf')
  | undefinedVariable => exact h'
  | expectedFunction ht =>
    cases h' with
    | expectedFunction ht' => exact .expectedFunction (Check.alphaEq_trans ht ht')
  | unexpectedLambda ht =>
    cases h' with
    | unexpectedLambda ht' => exact .unexpectedLambda (Check.alphaEq_trans ht ht')

/-- How far two runs of the checker may differ: in the spans of the terms, in the names of binders, and
in the names that errors suggest. -/
structure Leeway where
  span : Span → Span → Prop
  name : Option String → Option String → Prop
  suggestion : Option String → Option String → Prop
  span_none : span none none
  name_refl : ∀ x, name x x

/-- The same error, with that leeway. -/
inductive TypeError.Alike (L : Leeway) : TypeError → TypeError → Prop where
  | mismatch {s s' e e' f f'} : L.span s s' → e.EqUpTo L.name e' → f.EqUpTo L.name f' →
      TypeError.Alike L (.mismatch s e f) (.mismatch s' e' f')
  | undefinedVariable {s s' x y y'} : L.span s s' → L.suggestion y y' →
      TypeError.Alike L (.undefinedVariable s x y) (.undefinedVariable s' x y')
  | expectedFunction {s s' t t'} : L.span s s' → t.EqUpTo L.name t' →
      TypeError.Alike L (.expectedFunction s t) (.expectedFunction s' t')
  | unexpectedLambda {s s' t t'} : L.span s s' → t.EqUpTo L.name t' →
      TypeError.Alike L (.unexpectedLambda s t) (.unexpectedLambda s' t')

/-! ## Contexts -/

/-- The values and the types are similar. -/
def Entry.Sim (N : Option String → Option String → Prop) (e e' : Entry) : Prop :=
  e.value.Sim N e'.value ∧ e.type.Sim N e'.type

/-- Names that satisfy `G` have similar entries, or none. -/
def Signature.Sim (N : Option String → Option String → Prop) (G : String → Prop)
    (sig sig' : Signature) : Prop :=
  ∀ x, G x → Option.Rel (Entry.Sim N) (sig.find? x) (sig'.find? x)

theorem Entry.Sim.refl {N : Option String → Option String → Prop} (hN : ∀ x, N x x) (e : Entry) :
    e.Sim N e :=
  ⟨.refl hN e.value, .refl hN e.type⟩

theorem Signature.Sim.of_find? {N : Option String → Option String → Prop} (hN : ∀ x, N x x)
    {G : String → Prop} {sig sig' : Signature} (h : ∀ x, G x → sig.find? x = sig'.find? x) :
    sig.Sim N G sig' := by
  intro x hx
  rw [h x hx]
  cases sig'.find? x with
  | none => exact .none
  | some e => exact .some (.refl hN e)

theorem Signature.Sim.exists_right {N : Option String → Option String → Prop} {G : String → Prop}
    {sig sig' : Signature} (h : sig.Sim N G sig') {x : String} (hx : G x) {e : Entry}
    (he : sig.find? x = some e) : ∃ e', sig'.find? x = some e' ∧ e.Sim N e' := by
  have hentry := h x hx
  rw [he] at hentry
  generalize sig'.find? x = o at hentry ⊢
  cases hentry with
  | some hsim => exact ⟨_, rfl, hsim⟩

/-- Similar signatures and similar types of the hypotheses. -/
structure Context.Sim (L : Leeway) (G : String → Prop) (ctx ctx' : Context) : Prop where
  signature : ctx.signature.Sim L.name G ctx'.signature
  suggestion : ∀ x, L.suggestion (ctx.suggestion? x) (ctx'.suggestion? x)
  hyps : List.Forall₂ (Value.Sim L.name) ctx.hyps ctx'.hyps

variable {L : Leeway} {G : String → Prop}

namespace Context

theorem Sim.refl (hL : ∀ x, L.suggestion x x) (ctx : Context) : ctx.Sim L G ctx where
  signature := .of_find? L.name_refl fun _ _ => rfl
  suggestion x := hL (ctx.suggestion? x)
  hyps := List.forall₂_same.mpr fun v _ => .refl L.name_refl v

variable {ctx ctx' : Context} (h : ctx.Sim L G ctx')

include h

theorem Sim.bind {T T' : Value} (hT : T.Sim L.name T') : (ctx.bind T).Sim L G (ctx'.bind T') where
  signature := h.signature
  suggestion := h.suggestion
  hyps := .cons hT h.hyps

theorem Sim.depth_eq : ctx.depth = ctx'.depth :=
  h.hyps.length_eq

theorem Sim.freshVar_eq : ctx.freshVar = ctx'.freshVar := by
  unfold freshVar
  rw [h.depth_eq]

/-- Evaluation sees the names that satisfy `G` only. -/
theorem Sim.env {locals locals' : List Value}
    (hl : List.Forall₂ (Value.Sim L.name) locals locals') :
    (ctx.env locals).Sim L.name G Eq (ctx'.env locals') := by
  refine .mk ?_ ?_
  · intro x hx
    simp only [Context.env, Env.global?, Signature.lookup_values]
    have hentry := h.signature x hx
    generalize ctx.signature.find? x = e, ctx'.signature.find? x = e' at hentry ⊢
    cases hentry with
    | none => exact .none
    | some he => exact .some he.1
  · rintro i _ rfl
    exact forall₂_getElem? hl i

theorem Sim.evalIn (fuel : Nat) {locals locals' : List Value}
    (hl : List.Forall₂ (Value.Sim L.name) locals locals') {t t' : Check} {S : Span → Span → Prop}
    (ht : t.Alike S L.name G Eq t') :
    ((ctx.evalIn fuel locals t).widen : Run TypeError Value).Rel (TypeError.Alike L)
      (Value.Sim L.name) (ctx'.evalIn fuel locals' t').widen :=
  (Check.eval_sim fuel ht.anySpan (h.env hl)).widen

theorem Sim.eval (fuel : Nat) {t t' : Check} {S : Span → Span → Prop}
    (ht : t.Alike S L.name G Eq t') :
    ((ctx.eval fuel t).widen : Run TypeError Value).Rel (TypeError.Alike L) (Value.Sim L.name)
      (ctx'.eval fuel t').widen :=
  h.evalIn fuel .nil ht

theorem Sim.quote (fuel : Nat) {v v' : Value} (hv : v.Sim L.name v') :
    ((ctx.quote fuel v).widen : Run TypeError Check).Rel (TypeError.Alike L)
      (Check.EqUpTo L.name) (ctx'.quote fuel v').widen := by
  unfold Context.quote
  rw [h.depth_eq]
  exact (Value.quote_sim fuel ctx'.depth hv).widen

theorem Sim.convert (fuel : Nat) {s s' : Span} (hs : L.span s s') {e e' f f' : Value}
    (he : e.Sim L.name e') (hf : f.Sim L.name f') :
    (ctx.convert fuel s e f).Rel (TypeError.Alike L) Eq (ctx'.convert fuel s' e' f') := by
  unfold Context.convert
  apply (h.quote fuel he).bind
  intro e e' he
  apply (h.quote fuel hf).bind
  intro f f' hf
  have hiff : e.alphaEq f = e'.alphaEq f' := by
    rw [Bool.eq_iff_iff, Check.alphaEq_iff, Check.alphaEq_iff, Check.alphaEq_iff.mp he.alphaEq,
      Check.alphaEq_iff.mp hf.alphaEq]
  rw [hiff]
  cases e'.alphaEq f' with
  | true => exact .ok rfl
  | false => exact .refused (.mismatch hs he hf)

theorem Sim.lookup_global {s s' : Span} (hs : L.span s s') {x : String} (hx : G x) :
    (ctx.lookup s (.global x)).Rel (TypeError.Alike L) (Value.Sim L.name)
      (ctx'.lookup s' (.global x)) := by
  simp only [Context.lookup, Signature.type?]
  have hentry := h.signature x hx
  generalize ctx.signature.find? x = e, ctx'.signature.find? x = e' at hentry ⊢
  cases hentry with
  | none => exact .refused (.undefinedVariable hs (h.suggestion x))
  | some he => exact .ok he.2

theorem Sim.lookup_hyp (s s' : Span) (l : Nat) :
    (ctx.lookup s (.hyp l)).Rel (TypeError.Alike L) (Value.Sim L.name)
      (ctx'.lookup s' (.hyp l)) := by
  simp only [Context.lookup, atLevel?, h.hyps.length_eq]
  cases indexOfLevel? ctx'.hyps.length l with
  | none => exact .fault _
  | some i =>
    have htype := forall₂_getElem? h.hyps i
    simp only [Option.bind_some]
    generalize ctx.hyps[i]? = T, ctx'.hyps[i]? = T' at htype ⊢
    cases htype with
    | none => exact .fault _
    | some hT => exact .ok hT

/-- Both refuse a value that they show. -/
theorem Sim.refuse_quote {α : Type} {R : α → α → Prop} {f f' : Check → TypeError} (fuel : Nat)
    {v v' : Value} (hv : v.Sim L.name v')
    (hf : ∀ t t', t.EqUpTo L.name t' → (f t).Alike L (f' t')) :
    ((ctx.quote fuel v).widen >>= fun t => (.refuse (f t) : Run TypeError α)).Rel
      (TypeError.Alike L) R ((ctx'.quote fuel v').widen >>= fun t => .refuse (f' t)) := by
  apply (h.quote fuel hv).bind
  intro t t' ht
  exact .refused (hf t t' ht)

end Context

/-! ## Checking -/

/-- A closed term without names of the signature. -/
theorem Synth.alike_of_globals {t : Synth} (ht : t.globals = []) :
    (Check.synth t).Alike Any L.name G Eq (.synth t) := by
  refine .refl (fun _ => trivial) L.name_refl (fun _ => rfl) _ ?_
  intro x hx
  rw [Check.globals, ht] at hx
  cases hx

/-- The bodies of two binders, with the same hypothesis for the bound variable. -/
theorem Context.Sim.alike_body {ctx ctx' : Context} (h : ctx.Sim L G ctx') {b b' : Check}
    (hb : b.Alike L.span L.name G (Under Eq) b') :
    (b.subst 0 ctx.freshVar).Alike L.span L.name G Eq (b'.subst 0 ctx'.freshVar) := by
  rw [h.freshVar_eq]
  exact (Check.alike_under.mp hb).subst (.hyp L.span_none) 0

mutual

theorem Synth.infer_sim : ∀ (fuel : Nat) {ctx ctx' : Context} {t t' : Synth},
    t.Alike L.span L.name G Eq t' → ctx.Sim L G ctx' →
    (t.infer fuel ctx).Rel (TypeError.Alike L) (Value.Sim L.name) (t'.infer fuel ctx')
  | 0, _, _, _, _, _, _ => .outOfFuel
  | fuel + 1, ctx, ctx', _, _, ht, h => by
    cases ht with
    | ann _ he ht =>
      simp only [Synth.infer]
      apply (Check.check_sim fuel ht h .star).bind
      intro _ _ _
      apply (h.eval fuel ht).bind
      intro T T' hT
      apply (Check.check_sim fuel he h hT).bind
      intro _ _ _
      exact .ok hT
    | star _ => exact .ok .star
    | pi _ _ hd hc =>
      simp only [Synth.infer]
      apply (Check.check_sim fuel hd h .star).bind
      intro _ _ _
      apply (h.eval fuel hd).bind
      intro D D' hD
      have hbody := h.alike_body hc
      apply (Check.check_sim fuel hbody (h.bind hD) .star).bind
      intro _ _ _
      apply ((h.bind hD).eval fuel hbody).bind
      intro _ _ _
      exact .ok .star
    | bound _ _ => exact .fault _
    | global hs hx =>
      simp only [Synth.infer]
      exact h.lookup_global hs hx
    | hyp hs =>
      simp only [Synth.infer]
      exact h.lookup_hyp _ _ _
    | quote _ => exact .fault _
    | app _ hf ha =>
      simp only [Synth.infer]
      apply (Synth.infer_sim fuel hf h).bind
      intro T T' hT
      have hpi := hT
      cases hpi with
      | pi _ hd hc =>
        apply (Check.check_sim fuel ha h hd).bind
        intro _ _ _
        apply (h.eval fuel ha).bind
        intro v v' hv
        exact (Closure.apply_sim fuel hc hv).widen
      | _ => exact h.refuse_quote fuel hT fun _ _ => .expectedFunction hf.span
    | nat _ => exact .ok .star
    | zero _ => exact .ok .nat
    | succ _ hn =>
      simp only [Synth.infer]
      apply (Check.check_sim fuel hn h .nat).bind
      intro _ _ _
      exact .ok .nat
    | natElim _ hm hb hs hn =>
      simp only [Synth.infer]
      apply (h.eval fuel (Synth.alike_of_globals rfl)).bind
      intro M M' hM
      apply (Check.check_sim fuel hm h hM).bind
      intro _ _ _
      apply (h.eval fuel hm).bind
      intro mv mv' hmv
      apply (Value.apply_sim fuel hmv .zero).widen.bind
      intro B B' hB
      apply (Check.check_sim fuel hb h hB).bind
      intro _ _ _
      apply (h.evalIn fuel (.cons hmv .nil) (Synth.alike_of_globals rfl)).bind
      intro S S' hS
      apply (Check.check_sim fuel hs h hS).bind
      intro _ _ _
      apply (Check.check_sim fuel hn h .nat).bind
      intro _ _ _
      apply (h.eval fuel hn).bind
      intro nv nv' hnv
      exact (Value.apply_sim fuel hmv hnv).widen
    | vec _ ha hn =>
      simp only [Synth.infer]
      apply (Check.check_sim fuel ha h .star).bind
      intro _ _ _
      apply (h.eval fuel ha).bind
      intro _ _ _
      apply (Check.check_sim fuel hn h .nat).bind
      intro _ _ _
      exact .ok .star
    | nil _ ha =>
      simp only [Synth.infer]
      apply (Check.check_sim fuel ha h .star).bind
      intro _ _ _
      apply (h.eval fuel ha).bind
      intro av av' hav
      exact .ok (.vec hav .zero)
    | cons _ ha hn hx hxs =>
      simp only [Synth.infer]
      apply (Check.check_sim fuel ha h .star).bind
      intro _ _ _
      apply (h.eval fuel ha).bind
      intro av av' hav
      apply (Check.check_sim fuel hn h .nat).bind
      intro _ _ _
      apply (h.eval fuel hn).bind
      intro nv nv' hnv
      apply (Check.check_sim fuel hx h hav).bind
      intro _ _ _
      apply (Check.check_sim fuel hxs h (.vec hav hnv)).bind
      intro _ _ _
      exact .ok (.vec hav (.succ hnv))
    | vecElim _ ha hm hb hs hn hxs =>
      simp only [Synth.infer]
      apply (Check.check_sim fuel ha h .star).bind
      intro _ _ _
      apply (h.eval fuel ha).bind
      intro av av' hav
      apply (h.evalIn fuel (.cons hav .nil) (Synth.alike_of_globals rfl)).bind
      intro M M' hM
      apply (Check.check_sim fuel hm h hM).bind
      intro _ _ _
      apply (h.eval fuel hm).bind
      intro mv mv' hmv
      apply (Value.applyAll_sim fuel (.cons .zero (.cons (.nil hav) .nil)) hmv).widen.bind
      intro B B' hB
      apply (Check.check_sim fuel hb h hB).bind
      intro _ _ _
      apply (h.evalIn fuel (.cons hmv (.cons hav .nil)) (Synth.alike_of_globals rfl)).bind
      intro S S' hS
      apply (Check.check_sim fuel hs h hS).bind
      intro _ _ _
      apply (Check.check_sim fuel hn h .nat).bind
      intro _ _ _
      apply (h.eval fuel hn).bind
      intro nv nv' hnv
      apply (Check.check_sim fuel hxs h (.vec hav hnv)).bind
      intro _ _ _
      apply (h.eval fuel hxs).bind
      intro xsv xsv' hxsv
      exact (Value.applyAll_sim fuel (.cons hnv (.cons hxsv .nil)) hmv).widen

theorem Check.check_sim : ∀ (fuel : Nat) {ctx ctx' : Context} {t t' : Check} {T T' : Value},
    t.Alike L.span L.name G Eq t' → ctx.Sim L G ctx' → T.Sim L.name T' →
    (t.check fuel ctx T).Rel (TypeError.Alike L) Eq (t'.check fuel ctx' T')
  | 0, _, _, _, _, _, _, _, _, _ => .outOfFuel
  | fuel + 1, ctx, ctx', _, _, T, T', ht, h, hT => by
    cases ht with
    | synth ht =>
      simp only [Check.check]
      apply (Synth.infer_sim fuel ht h).bind
      intro U U' hU
      exact h.convert fuel ht.span hT hU
    | lam hs _ hb =>
      simp only [Check.check]
      have hpi := hT
      cases hpi with
      | pi _ hd hc =>
        have hvar : (Check.synth ctx.freshVar).Alike L.span L.name G Eq (.synth ctx'.freshVar) := by
          rw [h.freshVar_eq]
          exact .synth (.hyp L.span_none)
        apply (h.eval fuel hvar).bind
        intro v v' hv
        apply (Closure.apply_sim fuel hc hv).widen.bind
        intro B B' hB
        exact Check.check_sim fuel (h.alike_body hb) (h.bind hd) hB
      | _ => exact h.refuse_quote fuel hT fun _ _ => .unexpectedLambda hs
    | ascribe _ ht he =>
      simp only [Check.check]
      apply (Check.check_sim fuel ht h .star).bind
      intro _ _ _
      apply (h.eval fuel ht).bind
      intro U U' hU
      apply (h.convert fuel he.span hT hU).bind
      intro _ _ _
      exact Check.check_sim fuel he h hU
    | sealed _ he =>
      simp only [Check.check]
      apply (Synth.infer_sim fuel he h).bind
      intro U U' hU
      exact h.convert fuel he.span hT hU

end

theorem Check.checkType_sim (fuel : Nat) {ctx ctx' : Context} {t t' : Check}
    (ht : t.Alike L.span L.name G Eq t') (h : ctx.Sim L G ctx') :
    (t.checkType fuel ctx).Rel (TypeError.Alike L) (Value.Sim L.name) (t'.checkType fuel ctx') := by
  unfold Check.checkType
  apply (Check.check_sim fuel ht h .star).bind
  intro _ _ _
  exact h.eval fuel ht

/-! ## Similar types in one context -/

/-- The names of binders may differ. -/
def Leeway.binders : Leeway :=
  ⟨Eq, Any, Eq, rfl, fun _ => trivial⟩

theorem TypeError.Alike.sim {e e' : TypeError} (h : e.Alike .binders e') : e.Sim e' := by
  cases h with
  | mismatch hs he hf =>
    cases hs
    exact .mismatch he.alphaEq hf.alphaEq
  | undefinedVariable hs hy =>
    cases hs
    cases hy
    exact .undefinedVariable
  | expectedFunction hs ht =>
    cases hs
    exact .expectedFunction ht.alphaEq
  | unexpectedLambda hs ht =>
    cases hs
    exact .unexpectedLambda ht.alphaEq

theorem Value.Sim.self (v : Value) : v.Sim Any v :=
  .refl (fun _ => trivial) v

theorem Check.alike_self (t : Check) : t.Alike Eq Any (fun _ => True) Eq t :=
  .refl (fun _ => rfl) (fun _ => trivial) (fun _ => rfl) t fun _ _ => trivial

end TypeInType
