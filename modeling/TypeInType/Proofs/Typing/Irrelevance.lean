import TypeInType.Proofs.Typing.Simulation

/-!
# Spans and names of binders do not matter

Every node of a term has a span and every binder a name. They are copied into closures and into normal
forms, but no evaluation, no comparison of types and no rule of typing depends on them.
-/

namespace TypeInType

/-- The same error. It may be at another place, and the terms that it shows may differ in spans and names
of binders. -/
inductive TypeError.AlphaEq : TypeError → TypeError → Prop where
  | mismatch {s s' e e' f f'} : e.alphaEq e' = true → f.alphaEq f' = true →
      AlphaEq (.mismatch s e f) (.mismatch s' e' f')
  | undefinedVariable {s s' x y} : AlphaEq (.undefinedVariable s x y) (.undefinedVariable s' x y)
  | expectedFunction {s s' t t'} : t.alphaEq t' = true →
      AlphaEq (.expectedFunction s t) (.expectedFunction s' t')
  | unexpectedLambda {s s' t t'} : t.alphaEq t' = true →
      AlphaEq (.unexpectedLambda s t) (.unexpectedLambda s' t')

/-- Read-back of the values ends in the same way at every depth. Their normal forms are equal up to names
of binders. -/
def Value.ReadsAlike (v v' : Value) : Prop :=
  ∀ fuel depth, (v.quote fuel depth).Rel Eq (fun r r' => r.alphaEq r' = true) (v'.quote fuel depth)

theorem Value.Sim.readsAlike {N : Option String → Option String → Prop} {v v' : Value}
    (h : v.Sim N v') : v.ReadsAlike v' := by
  intro fuel depth
  exact (Value.quote_sim fuel depth h).mono (fun _ _ he => he) fun _ _ hr => hr.alphaEq

/-- The spans and the names of binders may differ. -/
def Leeway.labels : Leeway :=
  ⟨Any, Any, Eq, trivial, fun _ => trivial⟩

theorem TypeError.Alike.alphaEq {e e' : TypeError} (h : e.Alike .labels e') : e.AlphaEq e' := by
  cases h with
  | mismatch _ he hf => exact .mismatch he.alphaEq hf.alphaEq
  | undefinedVariable _ hy =>
    cases hy
    exact .undefinedVariable
  | expectedFunction _ ht => exact .expectedFunction ht.alphaEq
  | unexpectedLambda _ ht => exact .unexpectedLambda ht.alphaEq

theorem Synth.alike_of_alphaEq {t t' : Synth} (h : t.alphaEq t' = true) :
    t.Alike Any Any (fun _ => True) Eq t' :=
  (Synth.Alike.refl (fun _ => trivial) (fun _ => trivial) (fun _ => rfl) t fun _ _ => trivial).congr h

theorem Check.alike_of_alphaEq {t t' : Check} (h : t.alphaEq t' = true) :
    t.Alike Any Any (fun _ => True) Eq t' :=
  (Check.Alike.refl (fun _ => trivial) (fun _ => trivial) (fun _ => rfl) t fun _ _ => trivial).congr h

/-- Two terms that are equal up to spans and names of binders are treated alike, on every amount of fuel.
In any context, they have types with equal normal forms or are refused with the same error; so are terms
that are checked against one type. In any environment, their values have equal normal forms. Where the
one faults or does not end, so does the other. -/
theorem alphaEq_treated_alike {t t' : Synth} (ht : t.alphaEq t' = true) {e e' : Check}
    (he : e.alphaEq e' = true) (fuel : Nat) :
    (∀ ctx, (t.infer fuel ctx).Rel TypeError.AlphaEq Value.ReadsAlike (t'.infer fuel ctx)) ∧
      (∀ ctx T, (e.check fuel ctx T).Rel TypeError.AlphaEq Eq (e'.check fuel ctx T)) ∧
      (∀ env, (t.eval fuel env).Rel Eq Value.ReadsAlike (t'.eval fuel env)) ∧
      ∀ env, (e.eval fuel env).Rel Eq Value.ReadsAlike (e'.eval fuel env) := by
  have ht := Synth.alike_of_alphaEq ht
  have he := Check.alike_of_alphaEq he
  have hctx : ∀ ctx : Context, ctx.Sim .labels (fun _ => True) ctx := .refl fun _ => rfl
  have henv : ∀ env : Env, env.Sim Any (fun _ => True) Eq env := .refl fun _ => trivial
  refine ⟨fun ctx => ?_, fun ctx T => ?_, fun env => ?_, fun env => ?_⟩
  · exact (Synth.infer_sim (L := .labels) fuel ht (hctx ctx)).mono (fun _ _ h => h.alphaEq)
      fun _ _ h => h.readsAlike
  · exact (Check.check_sim (L := .labels) fuel he (hctx ctx) (.self T)).mono
      (fun _ _ h => h.alphaEq) fun _ _ h => h
  · exact (Synth.eval_sim fuel ht (henv env)).mono (fun _ _ h => h) fun _ _ h => h.readsAlike
  · exact (Check.eval_sim fuel he (henv env)).mono (fun _ _ h => h) fun _ _ h => h.readsAlike

/-- `(λx. x) : forall (y : Nat) -> Nat`, with the given names and spans. -/
def labelledIdentity (x y : Option String) (s : Span) : Synth :=
  .ann s (.lam s x (.synth (.bound s 0))) (.synth (.pi s y (.synth (.nat s)) (.synth (.nat s))))

/-- The labels of a function do not change its type, nor the error when it is checked against a type that
is not its own. -/
theorem labelledIdentity_treated_alike :
    let t := labelledIdentity (some "x") (some "y") none
    let t' := labelledIdentity none (some "x") (some ⟨3, ⟨0, 7⟩⟩)
    let ctx := Context.ofSignature ∅
    t.alphaEq t' = true ∧
      (∃ U U', t.infer 9 ctx = .ok U ∧ t'.infer 9 ctx = .ok U' ∧ U.ReadsAlike U') ∧
      ∃ err err', (Check.synth t).check 9 ctx .star = .error (.refused err) ∧
        (Check.synth t').check 9 ctx .star = .error (.refused err') ∧ err.AlphaEq err' := by
  intro t t' ctx
  have heq : t.alphaEq t' = true := by decide
  obtain ⟨hinfer, hcheck, _⟩ :=
    @alphaEq_treated_alike t t' heq (.synth t) (.synth t') heq 9
  refine ⟨heq, ?_, ?_⟩
  · obtain ⟨U', hU', hUU'⟩ := (hinfer ctx).exists_right rfl
    exact ⟨_, U', rfl, hU', hUU'⟩
  · obtain ⟨err', herr', heq'⟩ := (hcheck ctx .star).exists_refused rfl
    exact ⟨_, err', rfl, herr', heq'⟩

end TypeInType
