import TypeInType.Proofs.Typing.Equality
import TypeInType.Proofs.Value.Along

/-!
# Renaming of hypotheses

The checker names the hypotheses that it introduces by their levels, so the names depend on how many
there are. Let the hypotheses of one context be renamed to those of another in a one-to-one way. Then the
checker takes the same course in both contexts, and reports the same errors up to the renaming.
-/

namespace TypeInType

open Run (Rel)

/-! ## Names -/

/-- How the names of two values correspond: hypotheses are renamed by `f`, and the variables of read-back
are counted from `d` on the one side and from `d'` on the other. -/
inductive Name.Renamed (f : Nat → Nat) (d d' : Nat) : Name → Name → Prop where
  | global (x : String) : Renamed f d d' (.global x) (.global x)
  | hyp (l : Nat) : Renamed f d d' (.hyp l) (.hyp (f l))
  | quote (k : Nat) : Renamed f d d' (.quote (d + k)) (.quote (d' + k))

/-- Names that correspond are read back as variables that correspond, under any number of further
binders. -/
theorem Name.Renamed.readsAlong {f : Nat → Nat} {d d' : Nat} {W : Var → Var → Prop}
    (hW : ∀ a b, Var.Renamed f a b → W a b) (m : Nat) :
    ReadsAlong (Name.Renamed f d d') W (d + m) (d' + m) where
  read := by
    intro x x' hx
    cases hx with
    | global x => exact .var rfl rfl (hW _ _ (.global x))
    | hyp l => exact .var rfl rfl (hW _ _ (.hyp l))
    | quote k =>
      rcases Nat.lt_or_ge k m with hk | hk
      · have hread : ∀ n, (Name.quote (n + k)).read? (n + m) = some (.bound (m - k - 1)) := by
          intro n
          have hlt : n + k < n + m := by omega
          have hidx : n + m - (n + k) - 1 = m - k - 1 := by omega
          simp only [Name.read?, indexOfLevel?, if_pos hlt, hidx, Option.map_some]
        exact .var (hread d) (hread d') (hW _ _ (.bound _))
      · obtain ⟨j, rfl⟩ := Nat.exists_eq_add_of_le hk
        rw [← Nat.add_assoc, ← Nat.add_assoc]
        exact .stray j
  fresh k := by
    rw [Nat.add_assoc, Nat.add_assoc]
    exact .quote (m + k)

/-- Without variables of read-back in it, a value has the same normal form at every depth. -/
theorem Value.NamesIn.quote_eq {v : Value} (hv : v.NamesIn NotQuote) (fuel d d' : Nat) :
    v.quote fuel d = v.quote fuel d' := by
  have hself : v.Along (Name.Renamed id d d') v := by
    refine Value.ScopedBy.along (fun x hx => ?_) hv
    match x, hx with
    | .global x, _ => exact .global x
    | .hyp l, _ => exact .hyp l
  have hreads : ReadsAlong (Name.Renamed id d d') Eq d d' := by
    refine Name.Renamed.readsAlong (fun a b hab => ?_) 0
    cases hab <;> rfl
  exact ((Value.quote_along fuel hreads hself).mono (fun _ _ he => he) fun _ _ ht => ht.eq).eq

/-! ## Contexts -/

/-- A one-to-one renaming of hypotheses. The hypotheses from level `depth` on are still to come; they
become those from level `depth'` on. -/
structure Renaming where
  level : Nat → Nat
  depth : Nat
  depth' : Nat
  injective : ∀ l k, level l = level k → l = k
  fresh : ∀ k, level (depth + k) = depth' + k

/-- How names of values correspond. -/
abbrev Renaming.Names (ρ : Renaming) : Name → Name → Prop :=
  Name.Renamed ρ.level ρ.depth ρ.depth'

/-- How variables of terms correspond. -/
abbrev Renaming.Vars (ρ : Renaming) : Var → Var → Prop :=
  Var.Renamed ρ.level

/-- The same error, at the same place. The variables of the terms that it shows correspond along `W`. -/
inductive TypeError.Along (W : Var → Var → Prop) : TypeError → TypeError → Prop where
  | mismatch {s e e' f f'} : e.Along Eq W e' → f.Along Eq W f' →
      Along W (.mismatch s e f) (.mismatch s e' f')
  | undefinedVariable {s x y} : Along W (.undefinedVariable s x y) (.undefinedVariable s x y)
  | expectedFunction {s t t'} : t.Along Eq W t' →
      Along W (.expectedFunction s t) (.expectedFunction s t')
  | unexpectedLambda {s t t'} : t.Along Eq W t' →
      Along W (.unexpectedLambda s t) (.unexpectedLambda s t')

/-- No value and no type of the signature mentions a hypothesis or a variable of read-back. -/
structure Signature.HypFree (sig : Signature) : Prop where
  values : GlobalsScopedBy .any IsGlobal sig.values
  types : ∀ {x T}, sig.type? x = some T → T.NamesIn IsGlobal

/-- The contexts have the same signature, and hypotheses that correspond have types that correspond. -/
structure Context.Renamed (ρ : Renaming) (ctx ctx' : Context) : Prop where
  signature : ctx'.signature = ctx.signature
  hypFree : ctx.signature.HypFree
  depth : ∃ m, ctx.depth = ρ.depth + m ∧ ctx'.depth = ρ.depth' + m
  hyps : ∀ l, Option.Rel (Value.Along ρ.Names) (atLevel? ctx.hyps l)
    (atLevel? ctx'.hyps (ρ.level l))

section Renaming

variable {ρ : Renaming}

theorem Renaming.names_global : ∀ x, IsGlobal x → ρ.Names x x
  | .global x, _ => .global x

theorem Renaming.vars_matching : Var.Matching ρ.Vars :=
  Var.matching_renamed ρ.injective

namespace Context

variable {ctx ctx' : Context} (h : ctx.Renamed ρ ctx')

include h

theorem Renamed.level_depth : ρ.level ctx.depth = ctx'.depth := by
  obtain ⟨m, hm, hm'⟩ := h.depth
  rw [hm, hm', ρ.fresh]

/-- The next hypotheses correspond. -/
theorem Renamed.fresh : ρ.Vars (.free (.hyp ctx.depth)) (.free (.hyp ctx'.depth)) := by
  rw [← h.level_depth]
  exact .hyp ctx.depth

theorem Renamed.freshVar : ctx.freshVar.Along Eq ρ.Vars ctx'.freshVar :=
  .var rfl h.fresh

theorem Renamed.bind {T T' : Value} (hT : T.Along ρ.Names T') :
    (ctx.bind T).Renamed ρ (ctx'.bind T') where
  signature := h.signature
  hypFree := h.hypFree
  depth := by
    obtain ⟨m, hm, hm'⟩ := h.depth
    exact ⟨m + 1, congrArg Nat.succ hm, congrArg Nat.succ hm'⟩
  hyps l := by
    have hiff : ρ.level l = ctx'.hyps.length ↔ l = ctx.hyps.length := by
      constructor
      · intro hl
        exact ρ.injective _ _ (hl.trans h.level_depth.symm)
      · rintro rfl
        exact h.level_depth
    simp only [Context.bind, atLevel?_cons, hiff]
    split
    · exact .some hT
    · exact h.hyps l

theorem Renamed.env {locals locals' : List Value}
    (hl : List.Forall₂ (Value.Along ρ.Names) locals locals') :
    (ctx.env locals).Along ρ.Names ρ.Vars (ctx'.env locals') := by
  refine .mk fun a b hab => ?_
  cases hab with
  | bound i =>
    simp only [Env.value, Context.env]
    have hv := forall₂_getElem? hl i
    generalize locals[i]? = v, locals'[i]? = v' at hv ⊢
    cases hv with
    | none => exact .fault _
    | some hv => exact .ok hv
  | global x =>
    simp only [Env.value, Context.env, Env.global?, h.signature]
    split
    case h_1 v hv => exact .ok (h.hypFree.values.along Renaming.names_global x v hv)
    case h_2 => exact .fault _
  | hyp l => exact .ok (.neutral (.free (.hyp l)))

theorem Renamed.evalIn (fuel : Nat) {locals locals' : List Value}
    (hl : List.Forall₂ (Value.Along ρ.Names) locals locals') {t t' : Check}
    {S : Span → Span → Prop} (ht : t.Along S ρ.Vars t') :
    ((ctx.evalIn fuel locals t).widen : Run TypeError Value).Rel (TypeError.Along ρ.Vars)
      (Value.Along ρ.Names) (ctx'.evalIn fuel locals' t').widen :=
  (Check.eval_along fuel ht.anySpan (h.env hl)).widen

theorem Renamed.eval (fuel : Nat) {t t' : Check} {S : Span → Span → Prop}
    (ht : t.Along S ρ.Vars t') :
    ((ctx.eval fuel t).widen : Run TypeError Value).Rel (TypeError.Along ρ.Vars)
      (Value.Along ρ.Names) (ctx'.eval fuel t').widen :=
  h.evalIn fuel .nil ht

theorem Renamed.quote (fuel : Nat) {v v' : Value} (hv : v.Along ρ.Names v') :
    ((ctx.quote fuel v).widen : Run TypeError Check).Rel (TypeError.Along ρ.Vars)
      (Check.Along Eq ρ.Vars) (ctx'.quote fuel v').widen := by
  obtain ⟨m, hm, hm'⟩ := h.depth
  unfold Context.quote
  rw [hm, hm']
  exact (Value.quote_along fuel (Name.Renamed.readsAlong (fun _ _ hab => hab) m) hv).widen

theorem Renamed.convert (fuel : Nat) (s : Span) {e e' f f' : Value} (he : e.Along ρ.Names e')
    (hf : f.Along ρ.Names f') :
    (ctx.convert fuel s e f).Rel (TypeError.Along ρ.Vars) Eq (ctx'.convert fuel s e' f') := by
  unfold Context.convert
  apply (h.quote fuel he).bind
  intro e e' he
  apply (h.quote fuel hf).bind
  intro f f' hf
  rw [he.alphaEq_eq Renaming.vars_matching hf]
  cases e'.alphaEq f' with
  | true => exact .ok rfl
  | false => exact .refused (.mismatch he hf)

theorem Renamed.lookup_global (s : Span) (x : String) :
    (ctx.lookup s (.global x)).Rel (TypeError.Along ρ.Vars) (Value.Along ρ.Names)
      (ctx'.lookup s (.global x)) := by
  simp only [Context.lookup, Context.suggestion?, h.signature]
  cases hx : ctx.signature.type? x with
  | none => exact .refused .undefinedVariable
  | some T => exact .ok ((h.hypFree.types hx).along Renaming.names_global)

theorem Renamed.lookup_hyp (s : Span) (l : Nat) :
    (ctx.lookup s (.hyp l)).Rel (TypeError.Along ρ.Vars) (Value.Along ρ.Names)
      (ctx'.lookup s (.hyp (ρ.level l))) := by
  simp only [Context.lookup]
  have htype := h.hyps l
  generalize atLevel? ctx.hyps l = T, atLevel? ctx'.hyps (ρ.level l) = T' at htype ⊢
  cases htype with
  | none => exact .fault _
  | some hT => exact .ok hT

/-- Both refuse a value that they show. -/
theorem Renamed.refuse_quote {α : Type} {R : α → α → Prop} {f : Check → TypeError} (fuel : Nat)
    {v v' : Value} (hv : v.Along ρ.Names v')
    (hf : ∀ t t', t.Along Eq ρ.Vars t' → (f t).Along ρ.Vars (f t')) :
    ((ctx.quote fuel v).widen >>= fun t => (.refuse (f t) : Run TypeError α)).Rel
      (TypeError.Along ρ.Vars) R ((ctx'.quote fuel v').widen >>= fun t => .refuse (f t)) := by
  apply (h.quote fuel hv).bind
  intro t t' ht
  exact .refused (hf t t' ht)

/-- The bodies of two binders, with hypotheses that correspond for the bound variable. -/
theorem Renamed.along_body {b b' : Check} (hb : b.Along Eq (Var.Inside ρ.Vars) b') :
    (b.subst 0 ctx.freshVar).Along Eq ρ.Vars (b'.subst 0 ctx'.freshVar) :=
  (Check.along_inside.mp hb).subst rfl h.fresh 0

end Context

theorem Value.applyAll_along (fuel : Nat) {M : Name → Name → Prop} {args args' : List Value}
    {f f' : Value} (hargs : List.Forall₂ (Value.Along M) args args') (hf : f.Along M f') :
    (f.applyAll fuel args).Rel Eq (Value.Along M) (f'.applyAll fuel args') := by
  induction hargs generalizing f f' with
  | nil => exact .ok hf
  | cons hv _ ih =>
    apply (Value.apply_along fuel hf hv).bind
    intro g g' hg
    exact ih hg

/-- A term without names corresponds to itself. -/
theorem Check.Scoped.along_renamed {t : Check} {k : Nat} (ht : t.Scoped IsGlobal k) :
    t.Along Any ρ.Vars t := by
  refine ht.along (fun _ => trivial) (fun i _ => .bound i) fun x hx => ?_
  match x, hx with
  | .global x, _ => exact .global x

/-! ## Checking -/

-- Under a binder both contexts get a hypothesis, of types that correspond. So the renaming stays the same
-- throughout, and only the number of hypotheses since its depths grows.
mutual

theorem Synth.infer_renamed : ∀ (fuel : Nat) {ctx ctx' : Context} {t t' : Synth},
    t.Along Eq ρ.Vars t' → ctx.Renamed ρ ctx' →
    (t.infer fuel ctx).Rel (TypeError.Along ρ.Vars) (Value.Along ρ.Names) (t'.infer fuel ctx')
  | 0, _, _, _, _, _, _ => .outOfFuel
  | fuel + 1, ctx, ctx', _, _, ht, h => by
    cases ht with
    | var hs hab =>
      cases hs
      cases hab with
      | bound i => exact .fault _
      | global x =>
        simp only [Var.toSynth, Synth.infer]
        exact h.lookup_global _ x
      | hyp l =>
        simp only [Var.toSynth, Synth.infer]
        exact h.lookup_hyp _ l
    | ann _ he ht =>
      simp only [Synth.infer]
      apply (Check.check_renamed fuel ht h .star).bind
      intro _ _ _
      apply (h.eval fuel ht).bind
      intro T T' hT
      apply (Check.check_renamed fuel he h hT).bind
      intro _ _ _
      exact .ok hT
    | star _ => exact .ok .star
    | pi _ hd hc =>
      simp only [Synth.infer]
      apply (Check.check_renamed fuel hd h .star).bind
      intro _ _ _
      apply (h.eval fuel hd).bind
      intro D D' hD
      have hbody := h.along_body hc
      apply (Check.check_renamed fuel hbody (h.bind hD) .star).bind
      intro _ _ _
      apply ((h.bind hD).eval fuel hbody).bind
      intro _ _ _
      exact .ok .star
    | app _ hf ha =>
      simp only [Synth.infer]
      apply (Synth.infer_renamed fuel hf h).bind
      intro T T' hT
      have hpi := hT
      cases hpi with
      | pi hd hc =>
        apply (Check.check_renamed fuel ha h hd).bind
        intro _ _ _
        apply (h.eval fuel ha).bind
        intro v v' hv
        exact (Closure.apply_along fuel hc hv).widen
      | _ =>
        rw [hf.span]
        exact h.refuse_quote fuel hT fun _ _ => .expectedFunction
    | nat _ => exact .ok .star
    | zero _ => exact .ok .nat
    | succ _ hn =>
      simp only [Synth.infer]
      apply (Check.check_renamed fuel hn h .nat).bind
      intro _ _ _
      exact .ok .nat
    | natElim _ hm hb hs hn =>
      simp only [Synth.infer]
      apply (h.eval fuel (Telescope.natMotive_scoped _).along_renamed).bind
      intro M M' hM
      apply (Check.check_renamed fuel hm h hM).bind
      intro _ _ _
      apply (h.eval fuel hm).bind
      intro mv mv' hmv
      apply (Value.apply_along fuel hmv .zero).widen.bind
      intro B B' hB
      apply (Check.check_renamed fuel hb h hB).bind
      intro _ _ _
      apply (h.evalIn fuel (.cons hmv .nil) (Telescope.natStep_scoped _).along_renamed).bind
      intro S S' hS
      apply (Check.check_renamed fuel hs h hS).bind
      intro _ _ _
      apply (Check.check_renamed fuel hn h .nat).bind
      intro _ _ _
      apply (h.eval fuel hn).bind
      intro nv nv' hnv
      exact (Value.apply_along fuel hmv hnv).widen
    | vec _ ha hn =>
      simp only [Synth.infer]
      apply (Check.check_renamed fuel ha h .star).bind
      intro _ _ _
      apply (h.eval fuel ha).bind
      intro _ _ _
      apply (Check.check_renamed fuel hn h .nat).bind
      intro _ _ _
      exact .ok .star
    | nil _ ha =>
      simp only [Synth.infer]
      apply (Check.check_renamed fuel ha h .star).bind
      intro _ _ _
      apply (h.eval fuel ha).bind
      intro av av' hav
      exact .ok (.vec hav .zero)
    | cons _ ha hn hx hxs =>
      simp only [Synth.infer]
      apply (Check.check_renamed fuel ha h .star).bind
      intro _ _ _
      apply (h.eval fuel ha).bind
      intro av av' hav
      apply (Check.check_renamed fuel hn h .nat).bind
      intro _ _ _
      apply (h.eval fuel hn).bind
      intro nv nv' hnv
      apply (Check.check_renamed fuel hx h hav).bind
      intro _ _ _
      apply (Check.check_renamed fuel hxs h (.vec hav hnv)).bind
      intro _ _ _
      exact .ok (.vec hav (.succ hnv))
    | vecElim _ ha hm hb hs hn hxs =>
      simp only [Synth.infer]
      apply (Check.check_renamed fuel ha h .star).bind
      intro _ _ _
      apply (h.eval fuel ha).bind
      intro av av' hav
      apply (h.evalIn fuel (.cons hav .nil) (Telescope.vecMotive_scoped _).along_renamed).bind
      intro M M' hM
      apply (Check.check_renamed fuel hm h hM).bind
      intro _ _ _
      apply (h.eval fuel hm).bind
      intro mv mv' hmv
      apply (Value.applyAll_along fuel (.cons .zero (.cons (.nil hav) .nil)) hmv).widen.bind
      intro B B' hB
      apply (Check.check_renamed fuel hb h hB).bind
      intro _ _ _
      apply (h.evalIn fuel (.cons hmv (.cons hav .nil))
        (Telescope.vecStep_scoped _).along_renamed).bind
      intro S S' hS
      apply (Check.check_renamed fuel hs h hS).bind
      intro _ _ _
      apply (Check.check_renamed fuel hn h .nat).bind
      intro _ _ _
      apply (h.eval fuel hn).bind
      intro nv nv' hnv
      apply (Check.check_renamed fuel hxs h (.vec hav hnv)).bind
      intro _ _ _
      apply (h.eval fuel hxs).bind
      intro xsv xsv' hxsv
      exact (Value.applyAll_along fuel (.cons hnv (.cons hxsv .nil)) hmv).widen

theorem Check.check_renamed : ∀ (fuel : Nat) {ctx ctx' : Context} {t t' : Check} {T T' : Value},
    t.Along Eq ρ.Vars t' → ctx.Renamed ρ ctx' → T.Along ρ.Names T' →
    (t.check fuel ctx T).Rel (TypeError.Along ρ.Vars) Eq (t'.check fuel ctx' T')
  | 0, _, _, _, _, _, _, _, _, _ => .outOfFuel
  | fuel + 1, ctx, ctx', _, _, T, T', ht, h, hT => by
    cases ht with
    | synth ht =>
      simp only [Check.check]
      apply (Synth.infer_renamed fuel ht h).bind
      intro U U' hU
      rw [ht.span]
      exact h.convert fuel _ hT hU
    | lam hs hb =>
      cases hs
      simp only [Check.check]
      have hpi := hT
      cases hpi with
      | pi hd hc =>
        apply (h.eval fuel (.synth h.freshVar)).bind
        intro v v' hv
        apply (Closure.apply_along fuel hc hv).widen.bind
        intro B B' hB
        exact Check.check_renamed fuel (h.along_body hb) (h.bind hd) hB
      | _ => exact h.refuse_quote fuel hT fun _ _ => .unexpectedLambda
    | ascribe _ ht he =>
      simp only [Check.check]
      apply (Check.check_renamed fuel ht h .star).bind
      intro _ _ _
      apply (h.eval fuel ht).bind
      intro U U' hU
      rw [he.span]
      apply (h.convert fuel _ hT hU).bind
      intro _ _ _
      exact Check.check_renamed fuel he h hU
    | sealed _ he =>
      simp only [Check.check]
      apply (Synth.infer_renamed fuel he h).bind
      intro U U' hU
      rw [he.span]
      exact h.convert fuel _ hT hU

end

end Renaming

end TypeInType
