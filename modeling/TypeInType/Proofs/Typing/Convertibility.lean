import TypeInType.Proofs.Declarations
import TypeInType.Proofs.Value.Fuel
import TypeInType.Proofs.Value.NormalForm

/-!
# Equality of types is convertibility

Values are compared by their normal forms. This decides convertibility of the terms that they are
values of, whether the terms have types or not.
-/

namespace TypeInType

open TypeInType.Core (Reds Conv)

/-- A name of the signature, or a hypothesis. -/
def NotQuote : Name → Prop
  | .quote _ => False
  | _ => True

/-- A name of the signature that satisfies `G`, or a hypothesis. -/
def OrHyp (G : String → Prop) : Name → Prop
  | .global x => G x
  | .hyp _ => True
  | .quote _ => False

section Values

variable {Θ : Theory} {G : String → Prop} {N : Naming} {ctx : Context}

theorem Within.orHyp (n : Nat) : ∀ x, Within G n x → OrHyp G x
  | .global _, h => h
  | .hyp _, _ => trivial

theorem NotQuote.orGlobal : ∀ x, NotQuote x → OrGlobal (OrHyp G) x
  | .global _, _ => trivial
  | .hyp _, _ => trivial

/-- A term without loose indices reduces to its value, typed or not. -/
theorem Signature.Ok.eval_core (h : ctx.signature.Ok Θ G N) {t : Check} {fuel : Nat} {v : Value}
    (ht : t.Scoped NotQuote 0) (hv : ctx.eval fuel t = .ok v) :
    v.Scoped (OrHyp G) ∧ Reds Θ (t.core N) (v.embed .atom) := by
  have henv : (ctx.env []).Scoped (OrHyp G) := ⟨h.globals.mono (Within.orHyp 0), trivial⟩
  refine ⟨Check.eval_scoped henv (ht.mono NotQuote.orGlobal) hv, ?_⟩
  have hcore : Reds Θ (t.core N)
      (t.erase ((ctx.env []).names .atom) ((ctx.env []).bound .atom)) := by
    refine Check.erase_reds ht (fun x hx => ?_) fun i hi => absurd hi (Nat.not_lt_zero i)
    match x, hx with
    | .global x, _ => exact h.names_reds ⟨fun _ _ => rfl, fun _ => rfl⟩ [] x
    | .hyp l, _ => exact .refl
  exact hcore.trans (t.eval_reds Θ .atom hv)

/-- With enough fuel to read both values back, conversion compares their normal forms. -/
theorem Context.convert_eq_ok {fuel : Nat} {span : Span} {v w : Value} {r r' : Check}
    (hr : ctx.quote fuel v = .ok r) (hr' : ctx.quote fuel w = .ok r') :
    ctx.convert fuel span v w = .ok () ↔ r.alphaEq r' = true := by
  have hconvert : ctx.convert fuel span v w =
      if r.alphaEq r' then .ok () else .refuse (.mismatch span r r') := by
    simp only [Context.convert, hr, hr']
    rfl
  rw [hconvert]
  split
  · rename_i h
    exact ⟨fun _ => h, fun _ => rfl⟩
  · rename_i h
    exact ⟨fun h' => (by cases h'), fun h' => absurd h' h⟩

end Values

/-- In a signature without redeclarations, values of closed terms are equal if and only if the terms
are convertible. Both values have to have normal forms, and the fuel has to suffice for these. -/
theorem Context.convert_iff_conv {cs : Constants} {ctx : Context} (h : Declares cs ctx.signature)
    {a b : Check} (ha : a.Scoped NotQuote 0) (hb : b.Scoped NotQuote 0) {v w : Value}
    {r r' : Check} {fuel₁ fuel₂ fuel₃ fuel₄ : Nat} (hv : ctx.eval fuel₁ a = .ok v)
    (hw : ctx.eval fuel₂ b = .ok w) (hr : ctx.quote fuel₃ v = .ok r)
    (hr' : ctx.quote fuel₄ w = .ok r') {fuel : Nat} (h₃ : fuel₃ ≤ fuel) (h₄ : fuel₄ ≤ fuel)
    (span : Span) : ctx.convert fuel span v w = .ok () ↔
      Conv cs.theory (a.core cs.naming) (b.core cs.naming) := by
  obtain ⟨hvs, hvr⟩ := h.ok.signature.eval_core ha hv
  obtain ⟨hws, hwr⟩ := h.ok.signature.eval_core hb hw
  rw [Context.convert_eq_ok (Value.quote_mono h₃ hr) (Value.quote_mono h₄ hr'),
    Value.alphaEq_iff_conv (Θ := cs.theory) (fun _ h => h) hvs hws hr hr']
  constructor
  · intro hc
    exact (hvr.conv.trans hc).trans hwr.conv.symm
  · intro hc
    exact (hvr.conv.symm.trans hc).trans hwr.conv

/-- The definition unfolds, and the elimination computes under a hypothesis. -/
theorem Context.addTwo_conv : Conv Constants.two.theory
    ((Synth.addTwo (.succ none (.synth (.free none (.hyp 0))))).core Constants.two.naming)
    (.succ ((Synth.addTwo (.free none (.hyp 0))).core Constants.two.naming)) := by
  let ctx : Context := ⟨.two, [.nat]⟩
  let a : Check := .synth (.addTwo (.succ none (.synth (.free none (.hyp 0)))))
  let b : Check := .synth (.succ none (.synth (.addTwo (.free none (.hyp 0)))))
  have ha : a.Scoped NotQuote 0 := by
    simp [a, Synth.addTwo, Synth.Scoped, Check.Scoped, NotQuote]
  have hb : b.Scoped NotQuote 0 := by
    simp [b, Synth.addTwo, Synth.Scoped, Check.Scoped, NotQuote]
  exact (@Context.convert_iff_conv .two ctx .two a b ha hb _ _ _ _ 20 20 20 20 (by rfl) (by rfl)
    (by rfl) (by rfl) 20 (Nat.le_refl 20) (Nat.le_refl 20) none).mp (by rfl)

end TypeInType
