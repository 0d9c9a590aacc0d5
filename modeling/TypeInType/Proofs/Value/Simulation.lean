import Mathlib.Data.List.Forall2
import TypeInType.Proofs.Run
import TypeInType.Proofs.Term.Alike
import TypeInType.Value.Quote

/-!
# Closures in different environments

A closure may hold its body in another environment, with other places for the variables and with other
values of names that the body does not use. Values that differ in nothing else, except that the names of
their binders correspond along a relation, evaluate in lock-step, and so do their normal forms.
-/

namespace TypeInType

open Run (Rel)

theorem forall₂_getElem? {α β : Type} {R : α → β → Prop} {as : List α} {bs : List β}
    (h : List.Forall₂ R as bs) (i : Nat) : Option.Rel R as[i]? bs[i]? := by
  induction h generalizing i with
  | nil => exact .none
  | cons hab _ ih =>
    cases i with
    | zero => exact .some hab
    | succ i => exact ih i

mutual

/-- The values differ in the environments of closures and in the names of binders at most. The names of
binders correspond along `N`. -/
inductive Value.Sim (N : Option String → Option String → Prop) : Value → Value → Prop where
  | neutral {n n'} : Neutral.Sim N n n' → Value.Sim N (.neutral n) (.neutral n')
  | star : Value.Sim N .star .star
  | pi {x x' d d' c c'} : N x x' → Value.Sim N d d' → Closure.Sim N c c' →
      Value.Sim N (.pi x d c) (.pi x' d' c')
  | lam {x x' b b'} : N x x' → Closure.Sim N b b' → Value.Sim N (.lam x b) (.lam x' b')
  | nat : Value.Sim N .nat .nat
  | zero : Value.Sim N .zero .zero
  | succ {n n'} : Value.Sim N n n' → Value.Sim N (.succ n) (.succ n')
  | vec {a a' n n'} : Value.Sim N a a' → Value.Sim N n n' → Value.Sim N (.vec a n) (.vec a' n')
  | nil {a a'} : Value.Sim N a a' → Value.Sim N (.nil a) (.nil a')
  | cons {a a' n n' x x' xs xs'} : Value.Sim N a a' → Value.Sim N n n' → Value.Sim N x x' →
      Value.Sim N xs xs' → Value.Sim N (.cons a n x xs) (.cons a' n' x' xs')

inductive Neutral.Sim (N : Option String → Option String → Prop) : Neutral → Neutral → Prop where
  | free {x} : Neutral.Sim N (.free x) (.free x)
  | app {f f' v v'} : Neutral.Sim N f f' → Value.Sim N v v' → Neutral.Sim N (.app f v) (.app f' v')
  | natElim {m m' b b' s s' n n'} : Value.Sim N m m' → Value.Sim N b b' → Value.Sim N s s' →
      Neutral.Sim N n n' → Neutral.Sim N (.natElim m b s n) (.natElim m' b' s' n')
  | vecElim {a a' m m' b b' s s' n n' xs xs'} : Value.Sim N a a' → Value.Sim N m m' →
      Value.Sim N b b' → Value.Sim N s s' → Value.Sim N n n' → Neutral.Sim N xs xs' →
      Neutral.Sim N (.vecElim a m b s n xs) (.vecElim a' m' b' s' n' xs')

/-- Names that satisfy `G` and variables that correspond along `V` have similar values, or none. -/
inductive Env.Sim (N : Option String → Option String → Prop) :
    (String → Prop) → (Nat → Nat → Prop) → Env → Env → Prop where
  | mk {G : String → Prop} {V : Nat → Nat → Prop} {env env' : Env}
      (globals : ∀ x, G x → Option.Rel (Value.Sim N) (env.global? x) (env'.global? x))
      (locals : ∀ i j, V i j → Option.Rel (Value.Sim N) env.locals[i]? env'.locals[j]?) :
      Env.Sim N G V env env'

inductive Closure.Sim (N : Option String → Option String → Prop) : Closure → Closure → Prop where
  | mk {G : String → Prop} {V : Nat → Nat → Prop} {env env' : Env} {b b' : Check} :
      Env.Sim N G V env env' → b.Alike Any N G (Under V) b' → Closure.Sim N ⟨env, b⟩ ⟨env', b'⟩

end

section Simulation

variable {N : Option String → Option String → Prop}

/-! ## A value is similar to itself -/

mutual

theorem Value.Sim.refl (hN : ∀ x, N x x) : ∀ v : Value, v.Sim N v
  | .neutral n => .neutral (Neutral.Sim.refl hN n)
  | .star => .star
  | .pi x d c => .pi (hN x) (Value.Sim.refl hN d) (Closure.Sim.refl hN c)
  | .lam x b => .lam (hN x) (Closure.Sim.refl hN b)
  | .nat => .nat
  | .zero => .zero
  | .succ n => .succ (Value.Sim.refl hN n)
  | .vec a n => .vec (Value.Sim.refl hN a) (Value.Sim.refl hN n)
  | .nil a => .nil (Value.Sim.refl hN a)
  | .cons a n x xs => .cons (Value.Sim.refl hN a) (Value.Sim.refl hN n) (Value.Sim.refl hN x)
      (Value.Sim.refl hN xs)

theorem Neutral.Sim.refl (hN : ∀ x, N x x) : ∀ n : Neutral, n.Sim N n
  | .free _ => .free
  | .app f v => .app (Neutral.Sim.refl hN f) (Value.Sim.refl hN v)
  | .natElim m b s n => .natElim (Value.Sim.refl hN m) (Value.Sim.refl hN b) (Value.Sim.refl hN s)
      (Neutral.Sim.refl hN n)
  | .vecElim a m b s n xs => .vecElim (Value.Sim.refl hN a) (Value.Sim.refl hN m)
      (Value.Sim.refl hN b) (Value.Sim.refl hN s) (Value.Sim.refl hN n) (Neutral.Sim.refl hN xs)

theorem Closure.Sim.refl (hN : ∀ x, N x x) : ∀ c : Closure, c.Sim N c
  | ⟨env, b⟩ => .mk (Env.Sim.refl hN env)
      (Check.Alike.refl (fun _ => trivial) hN (fun _ => Under.eq fun _ => rfl) b fun _ _ => trivial)

theorem Env.Sim.refl (hN : ∀ x, N x x) : ∀ env : Env, env.Sim N (fun _ => True) Eq env
  | ⟨globals, locals⟩ => by
    refine .mk ?_ ?_
    · intro x _
      exact Value.Sim.refl_lookup hN globals x
    · rintro i _ rfl
      exact Value.Sim.refl_getElem? hN locals i

theorem Value.Sim.refl_lookup (hN : ∀ x, N x x) : ∀ (globals : List (String × Value)) (x : String),
    Option.Rel (Value.Sim N) (globals.lookup x) (globals.lookup x)
  | [], _ => .none
  | (y, w) :: globals, x => by
    rw [List.lookup_cons]
    split
    · exact .some (Value.Sim.refl hN w)
    · exact Value.Sim.refl_lookup hN globals x

theorem Value.Sim.refl_getElem? (hN : ∀ x, N x x) : ∀ (vs : List Value) (i : Nat),
    Option.Rel (Value.Sim N) vs[i]? vs[i]?
  | [], _ => .none
  | v :: _, 0 => .some (Value.Sim.refl hN v)
  | _ :: vs, i + 1 => Value.Sim.refl_getElem? hN vs i

end

/-! ## Evaluation -/

theorem Env.Sim.push {G : String → Prop} {V : Nat → Nat → Prop} {env env' : Env} {v v' : Value}
    (h : env.Sim N G V env') (hv : v.Sim N v') :
    (env.push v).Sim N G (Under V) (env'.push v') := by
  obtain ⟨globals, locals⟩ := h
  refine .mk globals ?_
  intro i j hij
  cases hij with
  | here => exact .some hv
  | there hij => exact locals _ _ hij

/-- The environment has one more variable, which nothing uses. -/
theorem Env.Sim.skip (hN : ∀ x, N x x) {gs gs' : List (String × Value)} {v : Value}
    {vs : List Value} :
    Env.Sim N (fun _ => False) (fun i j => j = i + 1) ⟨gs, vs⟩ ⟨gs', v :: vs⟩ := by
  refine .mk (fun _ => False.elim) ?_
  rintro i _ rfl
  exact Value.Sim.refl_getElem? hN vs i

mutual

theorem Synth.eval_sim : ∀ (fuel : Nat) {G : String → Prop} {V : Nat → Nat → Prop} {t t' : Synth}
    {env env' : Env}, t.Alike Any N G V t' → env.Sim N G V env' →
    (t.eval fuel env).Rel Eq (Value.Sim N) (t'.eval fuel env')
  | 0, _, _, _, _, _, _, _, _ => .outOfFuel
  | fuel + 1, _, _, _, _, env, env', ht, henv => by
    cases ht with
    | ann _ he _ =>
      simp only [Synth.eval]
      exact Check.eval_sim fuel he henv
    | star _ => exact .ok .star
    | pi _ hx hd hc =>
      simp only [Synth.eval]
      apply (Check.eval_sim fuel hd henv).bind
      intro d d' hd
      exact .ok (.pi hx hd (.mk henv hc))
    | @bound _ _ _ i j _ hij =>
      simp only [Synth.eval]
      obtain ⟨_, locals⟩ := henv
      have hv := locals i j hij
      generalize env.locals[i]? = v, env'.locals[j]? = v' at hv ⊢
      cases hv with
      | none => exact .fault _
      | some hv => exact .ok hv
    | @global _ _ _ x _ hG =>
      simp only [Synth.eval]
      obtain ⟨globals, _⟩ := henv
      have hv := globals x hG
      generalize env.global? x = v, env'.global? x = v' at hv ⊢
      cases hv with
      | none => exact .fault _
      | some hv => exact .ok hv
    | hyp _ => exact .ok (.neutral .free)
    | quote _ => exact .ok (.neutral .free)
    | app _ hh ha =>
      simp only [Synth.eval]
      apply (Synth.eval_sim fuel hh henv).bind
      intro f f' hf
      apply (Check.eval_sim fuel ha henv).bind
      intro v v' hv
      exact Value.apply_sim fuel hf hv
    | nat _ => exact .ok .nat
    | zero _ => exact .ok .zero
    | succ _ hn =>
      simp only [Synth.eval]
      apply (Check.eval_sim fuel hn henv).bind
      intro n n' hn
      exact .ok (.succ hn)
    | natElim _ hm hb hs hn =>
      simp only [Synth.eval]
      apply (Check.eval_sim fuel hm henv).bind
      intro m m' hm
      apply (Check.eval_sim fuel hb henv).bind
      intro b b' hb
      apply (Check.eval_sim fuel hs henv).bind
      intro s s' hs
      apply (Check.eval_sim fuel hn henv).bind
      intro n n' hn
      exact Value.natElim_sim fuel hn hm hb hs
    | vec _ ha hn =>
      simp only [Synth.eval]
      apply (Check.eval_sim fuel ha henv).bind
      intro a a' ha
      apply (Check.eval_sim fuel hn henv).bind
      intro n n' hn
      exact .ok (.vec ha hn)
    | nil _ ha =>
      simp only [Synth.eval]
      apply (Check.eval_sim fuel ha henv).bind
      intro a a' ha
      exact .ok (.nil ha)
    | cons _ ha hn hx hxs =>
      simp only [Synth.eval]
      apply (Check.eval_sim fuel ha henv).bind
      intro a a' ha
      apply (Check.eval_sim fuel hn henv).bind
      intro n n' hn
      apply (Check.eval_sim fuel hx henv).bind
      intro x x' hx
      apply (Check.eval_sim fuel hxs henv).bind
      intro xs xs' hxs
      exact .ok (.cons ha hn hx hxs)
    | vecElim _ ha hm hb hs hn hxs =>
      simp only [Synth.eval]
      apply (Check.eval_sim fuel ha henv).bind
      intro a a' ha
      apply (Check.eval_sim fuel hm henv).bind
      intro m m' hm
      apply (Check.eval_sim fuel hb henv).bind
      intro b b' hb
      apply (Check.eval_sim fuel hs henv).bind
      intro s s' hs
      apply (Check.eval_sim fuel hn henv).bind
      intro n n' hn
      apply (Check.eval_sim fuel hxs henv).bind
      intro xs xs' hxs
      exact Value.vecElim_sim fuel hxs ha hm hb hs hn

theorem Check.eval_sim : ∀ (fuel : Nat) {G : String → Prop} {V : Nat → Nat → Prop} {t t' : Check}
    {env env' : Env}, t.Alike Any N G V t' → env.Sim N G V env' →
    (t.eval fuel env).Rel Eq (Value.Sim N) (t'.eval fuel env')
  | 0, _, _, _, _, _, _, _, _ => .outOfFuel
  | fuel + 1, _, _, _, _, env, env', ht, henv => by
    cases ht with
    | synth ht =>
      simp only [Check.eval]
      exact Synth.eval_sim fuel ht henv
    | lam _ hx hb => exact .ok (.lam hx (.mk henv hb))
    | ascribe _ _ he =>
      simp only [Check.eval]
      exact Check.eval_sim fuel he henv
    | sealed _ he =>
      simp only [Check.eval]
      exact Synth.eval_sim fuel he henv

theorem Value.apply_sim : ∀ (fuel : Nat) {f f' v v' : Value}, f.Sim N f' → v.Sim N v' →
    (f.apply fuel v).Rel Eq (Value.Sim N) (f'.apply fuel v')
  | 0, _, _, _, _, _, _ => .outOfFuel
  | fuel + 1, _, _, _, _, hf, hv => by
    simp only [Value.apply]
    cases hf with
    | lam _ hb =>
      obtain ⟨henv, hb⟩ := hb
      exact Check.eval_sim fuel hb (henv.push hv)
    | neutral hn => exact .ok (.neutral (.app hn hv))
    | _ => exact .fault _

theorem Value.natElim_sim : ∀ (fuel : Nat) {n n' m m' b b' s s' : Value}, n.Sim N n' → m.Sim N m' →
    b.Sim N b' → s.Sim N s' → (n.natElim fuel m b s).Rel Eq (Value.Sim N) (n'.natElim fuel m' b' s')
  | 0, _, _, _, _, _, _, _, _, _, _, _, _ => .outOfFuel
  | fuel + 1, _, _, _, _, _, _, _, _, hn, hm, hb, hs => by
    simp only [Value.natElim]
    cases hn with
    | zero => exact .ok hb
    | succ hn =>
      apply (Value.natElim_sim fuel hn hm hb hs).bind
      intro r r' hr
      apply (Value.apply_sim fuel hs hn).bind
      intro f f' hf
      exact Value.apply_sim fuel hf hr
    | neutral hn => exact .ok (.neutral (.natElim hm hb hs hn))
    | _ => exact .fault _

theorem Value.vecElim_sim : ∀ (fuel : Nat) {xs xs' a a' m m' b b' s s' n n' : Value}, xs.Sim N xs' →
    a.Sim N a' → m.Sim N m' → b.Sim N b' → s.Sim N s' → n.Sim N n' →
    (xs.vecElim fuel a m b s n).Rel Eq (Value.Sim N) (xs'.vecElim fuel a' m' b' s' n')
  | 0, _, _, _, _, _, _, _, _, _, _, _, _, _, _, _, _, _, _ => .outOfFuel
  | fuel + 1, _, _, _, _, _, _, _, _, _, _, _, _, hxs, ha, hm, hb, hs, hn => by
    simp only [Value.vecElim]
    cases hxs with
    | nil _ => exact .ok hb
    | cons _ hl hx hxs =>
      apply (Value.vecElim_sim fuel hxs ha hm hb hs hl).bind
      intro r r' hr
      apply (Value.apply_sim fuel hs hl).bind
      intro f f' hf
      apply (Value.apply_sim fuel hf hx).bind
      intro f f' hf
      apply (Value.apply_sim fuel hf hxs).bind
      intro f f' hf
      exact Value.apply_sim fuel hf hr
    | neutral hxs => exact .ok (.neutral (.vecElim ha hm hb hs hn hxs))
    | _ => exact .fault _

end

theorem Closure.apply_sim (fuel : Nat) {c c' : Closure} {v v' : Value} (hc : c.Sim N c')
    (hv : v.Sim N v') : (c.apply fuel v).Rel Eq (Value.Sim N) (c'.apply fuel v') := by
  obtain ⟨henv, hb⟩ := hc
  exact Check.eval_sim fuel hb (henv.push hv)

theorem Value.applyAll_sim (fuel : Nat) {args args' : List Value} {f f' : Value}
    (hargs : List.Forall₂ (Value.Sim N) args args') (hf : f.Sim N f') :
    (f.applyAll fuel args).Rel Eq (Value.Sim N) (f'.applyAll fuel args') := by
  induction hargs generalizing f f' with
  | nil => exact .ok hf
  | cons hv _ ih =>
    apply (Value.apply_sim fuel hf hv).bind
    intro g g' hg
    exact ih hg

/-! ## Read-back -/

mutual

theorem Value.quote_sim : ∀ (fuel depth : Nat) {v v' : Value}, v.Sim N v' →
    (v.quote fuel depth).Rel Eq (Check.EqUpTo N) (v'.quote fuel depth)
  | 0, _, _, _, _ => .outOfFuel
  | fuel + 1, depth, _, _, hv => by
    simp only [Value.quote]
    cases hv with
    | neutral hn =>
      apply (Neutral.quote_sim fuel depth hn).bind
      intro t t' ht
      exact .ok (.synth ht)
    | star => exact .ok (.synth (.star rfl))
    | pi hx hd hc =>
      apply (Value.quote_sim fuel depth hd).bind
      intro d d' hd
      apply (Closure.quote_sim fuel depth hc).bind
      intro c c' hc
      exact .ok (.synth (.pi rfl hx hd (Check.alike_under.mpr hc)))
    | lam hx hb =>
      apply (Closure.quote_sim fuel depth hb).bind
      intro b b' hb
      exact .ok (.lam rfl hx (Check.alike_under.mpr hb))
    | nat => exact .ok (.synth (.nat rfl))
    | zero => exact .ok (.synth (.zero rfl))
    | succ hn =>
      apply (Value.quote_sim fuel depth hn).bind
      intro n n' hn
      exact .ok (.synth (.succ rfl hn))
    | vec ha hn =>
      apply (Value.quote_sim fuel depth ha).bind
      intro a a' ha
      apply (Value.quote_sim fuel depth hn).bind
      intro n n' hn
      exact .ok (.synth (.vec rfl ha hn))
    | nil ha =>
      apply (Value.quote_sim fuel depth ha).bind
      intro a a' ha
      exact .ok (.synth (.nil rfl ha))
    | cons ha hn hx hxs =>
      apply (Value.quote_sim fuel depth ha).bind
      intro a a' ha
      apply (Value.quote_sim fuel depth hn).bind
      intro n n' hn
      apply (Value.quote_sim fuel depth hx).bind
      intro x x' hx
      apply (Value.quote_sim fuel depth hxs).bind
      intro xs xs' hxs
      exact .ok (.synth (.cons rfl ha hn hx hxs))

theorem Neutral.quote_sim : ∀ (fuel depth : Nat) {n n' : Neutral}, n.Sim N n' →
    (n.quote fuel depth).Rel Eq (Synth.EqUpTo N) (n'.quote fuel depth)
  | 0, _, _, _, _ => .outOfFuel
  | fuel + 1, depth, _, _, hn => by
    simp only [Neutral.quote]
    cases hn with
    | @free x =>
      cases x with
      | global x => exact .ok (.global rfl trivial)
      | hyp l => exact .ok (.hyp rfl)
      | quote l =>
        simp only [Name.quote?]
        cases indexOfLevel? depth l with
        | none => exact .fault _
        | some i => exact .ok (.bound rfl rfl)
    | app hf hv =>
      apply (Neutral.quote_sim fuel depth hf).bind
      intro f f' hf
      apply (Value.quote_sim fuel depth hv).bind
      intro v v' hv
      exact .ok (.app rfl hf hv)
    | natElim hm hb hs hn =>
      apply (Neutral.quote_sim fuel depth hn).bind
      intro n n' hn
      apply (Value.quote_sim fuel depth hm).bind
      intro m m' hm
      apply (Value.quote_sim fuel depth hb).bind
      intro b b' hb
      apply (Value.quote_sim fuel depth hs).bind
      intro s s' hs
      exact .ok (.natElim rfl hm hb hs (.synth hn))
    | vecElim ha hm hb hs hn hxs =>
      apply (Neutral.quote_sim fuel depth hxs).bind
      intro xs xs' hxs
      apply (Value.quote_sim fuel depth ha).bind
      intro a a' ha
      apply (Value.quote_sim fuel depth hm).bind
      intro m m' hm
      apply (Value.quote_sim fuel depth hb).bind
      intro b b' hb
      apply (Value.quote_sim fuel depth hs).bind
      intro s s' hs
      apply (Value.quote_sim fuel depth hn).bind
      intro n n' hn
      exact .ok (.vecElim rfl ha hm hb hs hn (.synth hxs))

theorem Closure.quote_sim : ∀ (fuel depth : Nat) {c c' : Closure}, c.Sim N c' →
    (c.quote fuel depth).Rel Eq (Check.EqUpTo N) (c'.quote fuel depth)
  | 0, _, _, _, _ => .outOfFuel
  | fuel + 1, depth, _, _, hc => by
    simp only [Closure.quote]
    have hvar : (Value.free (.quote depth)).Sim N (.free (.quote depth)) := .neutral .free
    apply (Closure.apply_sim fuel hc hvar).bind
    intro v v' hv
    exact Value.quote_sim fuel (depth + 1) hv

end

end Simulation

end TypeInType
