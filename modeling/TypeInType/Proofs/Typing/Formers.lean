import TypeInType.Proofs.Typing.Fuel
import TypeInType.Proofs.Typing.Simulation
import TypeInType.Term.Print

/-!
# Formers as constants

The rules for formers check the arguments against types that they build on their own. A former with
all its arguments is typed all the same as a constant of a function type that is applied to them.
-/

namespace TypeInType

open Run (Follows)

/-! ## The types of the formers -/

namespace Telescope

/-- `forall (m : Nat -> *) -> m 0 -> (forall (n : Nat) -> m n -> m (Succ n)) ->`
`forall (n : Nat) -> m n`. -/
def natElimType : Synth :=
  pi "m" natMotive
    (arrow (app (var 0) (.zero none))
      (arrow (pi "n" nat (arrow (app (var 2) (var 0)) (app (var 3) (succ (var 1)))))
        (pi "n" nat (app (var 3) (var 0)))))

/-- `forall (a : *) (n : Nat) -> a -> Vec a n -> Vec a (Succ n)`. -/
def consType : Synth :=
  pi "a" (.star none) (pi "n" nat
    (arrow (var 1) (arrow (vec (var 2) (var 1)) (vec (var 3) (succ (var 2))))))

/-- `forall (a : *) (m : forall (n : Nat) -> Vec a n -> *) -> m 0 (Nil a) ->`
`(forall (n : Nat) (x : a) (xs : Vec a n) -> m n xs -> m (Succ n) (Cons a n x xs)) ->`
`forall (n : Nat) (xs : Vec a n) -> m n xs`. -/
def vecElimType : Synth :=
  pi "a" (.star none) (pi "m" vecMotive
    (arrow (app (app (var 0) (.zero none)) (.nil none (.synth (var 1))))
      (arrow (pi "n" nat (pi "x" (var 3) (pi "xs" (vec (var 4) (var 1))
          (arrow (app (app (var 4) (var 2)) (var 0))
            (app (app (var 5) (succ (var 3))) (cons (var 6) (var 3) (var 2) (var 1)))))))
        (pi "n" nat (pi "xs" (vec (var 4) (var 0)) (app (app (var 4) (var 1)) (var 0)))))))

end Telescope

open Telescope in
/-- The type of the former as a constant. -/
def Former.type? (F : Former) : Option Synth :=
  match F with
  | .nat => some (.star none)
  | .zero => some Telescope.nat
  | .succ => some (arrow Telescope.nat Telescope.nat)
  | .natElim => some natElimType
  | .vec => some (arrow (.star none) (arrow Telescope.nat (.star none)))
  | .nil => some (pi "a" (.star none) (Telescope.vec (var 0) (.zero none)))
  | .cons => some consType
  | .vecElim => some vecElimType
  | .ascribe | .sealed => none

example : Telescope.vecElimType.display =
    "forall (a : *) -> forall (m : forall (n : Nat) -> Vec a n -> *) -> m 0 (Nil a) -> " ++
    "(forall (n : Nat) -> forall (x : a) -> forall (xs : Vec a n) -> m n xs -> " ++
    "m (Succ n) (Cons a n x xs)) -> forall (n : Nat) -> forall (xs : Vec a n) -> m n xs" := by
  decide +kernel

/-! ## Applications to several arguments -/

/-- The head applied to arguments, each with the span of the application to it. -/
def Synth.apps (head : Synth) (args : List (Span × Check)) : Synth :=
  args.foldl (fun h a => .app a.1 h a.2) head

namespace Context

variable (ctx : Context)

/-- The type of an application whose head has the type `T`. -/
def inferApp (fuel : Nat) (span : Span) (T : Value) (a : Check) : Run TypeError Value :=
  match T with
  | .pi _ domain codomain => do
    a.check fuel ctx domain
    let v ← (ctx.eval fuel a).widen
    (codomain.apply fuel v).widen
  | type => do .refuse (.expectedFunction span (← (ctx.quote fuel type).widen))

/-- The type of a head of type `T` applied to arguments. An application further out has more fuel. -/
def inferApps : Nat → Span → Value → List (Span × Check) → Run TypeError Value
  | _, _, T, [] => return T
  | fuel, span, T, (s, a) :: as => do
    let U ← ctx.inferApp fuel span T a
    inferApps (fuel + 1) s U as

end Context

theorem Synth.infer_app (fuel : Nat) (ctx : Context) (s : Span) (h : Synth) (a : Check) :
    (Synth.app s h a).infer (fuel + 1) ctx =
      h.infer fuel ctx >>= fun T => ctx.inferApp fuel h.span T a := by
  simp only [Synth.infer]
  rfl

theorem Synth.infer_apps (ctx : Context) (args : List (Span × Check)) (fuel : Nat) (h : Synth) :
    (h.apps args).infer (fuel + args.length) ctx =
      h.infer fuel ctx >>= fun T => ctx.inferApps fuel h.span T args := by
  induction args generalizing fuel h with
  | nil =>
    simp only [Context.inferApps, bind_pure]
    rfl
  | cons a as ih =>
    have hlen : fuel + (a :: as).length = fuel + 1 + as.length := by
      rw [List.length_cons]
      omega
    have happs : h.apps (a :: as) = (Synth.app a.1 h a.2).apps as := rfl
    rw [hlen, happs, ih, Synth.infer_app, bind_assoc]
    rfl

namespace Context

variable {ctx : Context}

theorem check_sim (fuel : Nat) (t : Check) {T T' : Value} (hT : T.Sim Any T') :
    (t.check fuel ctx T).Rel TypeError.Sim Eq (t.check fuel ctx T') :=
  (Check.check_sim (L := .binders) fuel t.alike_self (.refl (fun _ => rfl) ctx) hT).mono
    (fun _ _ => TypeError.Alike.sim) fun _ _ h => h

theorem inferApp_sim (fuel : Nat) (span : Span) (a : Check) {T T' : Value} (hT : T.Sim Any T') :
    (ctx.inferApp fuel span T a).Rel (TypeError.Alike .binders) (Value.Sim Any)
      (ctx.inferApp fuel span T' a) := by
  have hctx : ctx.Sim .binders (fun _ => True) ctx := .refl (fun _ => rfl) ctx
  have hpi := hT
  cases hpi with
  | pi _ hd hc =>
    apply (Check.check_sim fuel a.alike_self hctx hd).bind
    intro _ _ _
    apply (hctx.eval fuel a.alike_self).bind
    intro v v' hv
    exact (Closure.apply_sim fuel hc hv).widen
  | _ => exact hctx.refuse_quote fuel hT fun _ _ => .expectedFunction rfl

theorem inferApps_sim (args : List (Span × Check)) (fuel : Nat) (span : Span) {T T' : Value}
    (hT : T.Sim Any T') : (ctx.inferApps fuel span T args).Rel (TypeError.Alike .binders)
      (Value.Sim Any) (ctx.inferApps fuel span T' args) := by
  induction args generalizing fuel span T T' with
  | nil => exact .ok hT
  | cons a as ih =>
    apply (inferApp_sim fuel span a.2 hT).bind
    intro U U' hU
    exact ih (fuel + 1) a.1 hU

/-! ## Argument by argument -/

theorem check_follows {n m : Nat} (hnm : n ≤ m) (t : Check) {T T' : Value} (hT : T.Sim Any T') :
    (t.check n ctx T).Follows TypeError.Sim Eq (t.check m ctx T') :=
  (check_sim m t hT).follows.of_le
    (Run.Le.of_succ (fun k => Check.check_le k ctx t T) hnm) (.refl _)

theorem apply_follows (f v : Value) (n m : Nat) :
    ((f.apply n v).widen : Run TypeError Value).Follows TypeError.Sim Eq (f.apply m v).widen :=
  Follows.of_succ (fun k => Value.apply_le k f v) n m

theorem applyAll_follows (f u v : Value) (n m k : Nat) :
    ((f.applyAll n [u, v]).widen : Run TypeError Value).Follows TypeError.Sim Eq
      (f.apply m u >>= fun g => g.apply k v).widen := by
  simp only [Value.applyAll, List.foldlM_cons, List.foldlM_nil, bind_pure, Run.widen_bind]
  apply (apply_follows f u n m).bind
  rintro g _ rfl
  exact apply_follows g v n k

section Argument

variable {α : Type} {R : α → Value → Prop} {n m : Nat} {span s : Span} {a : Check} {y : Option String}
  {d d' : Value} {c : Closure} {as : List (Span × Check)}

/-- The rule for a former uses the value of the argument. -/
theorem follows_evaluated {k : Value → Run TypeError α} (hnm : n ≤ m) (hd : d.Sim Any d')
    (hk : ∀ v, (k v).Follows TypeError.Sim R
      ((c.apply m v).widen >>= fun U => ctx.inferApps (m + 1) s U as)) :
    (a.check n ctx d >>= fun _ => (ctx.eval n a).widen >>= k).Follows TypeError.Sim R
      (ctx.inferApps m span (.pi y d' c) ((s, a) :: as)) := by
  simp only [inferApps, inferApp, bind_assoc]
  apply (check_follows hnm a hd).bind
  intro _ _ _
  apply (Follows.of_succ (fun k => ctx.eval_le k a) n m).bind
  rintro v _ rfl
  exact hk v

/-- The rule for a former does not use the value of the argument. -/
theorem follows_checked {x : Run TypeError α} (hnm : n ≤ m) (hd : d.Sim Any d')
    (hx : ∀ v, x.Follows TypeError.Sim R
      ((c.apply m v).widen >>= fun U => ctx.inferApps (m + 1) s U as)) :
    (a.check n ctx d >>= fun _ => x).Follows TypeError.Sim R
      (ctx.inferApps m span (.pi y d' c) ((s, a) :: as)) := by
  simp only [inferApps, inferApp, bind_assoc]
  apply (check_follows hnm a hd).bind
  intro _ _ _
  exact Follows.skip _ hx

/-- The domain of the next argument takes an evaluation that the rule for a former does as well. -/
theorem follows_domain {B : Run Empty Value} {env : Env} {e e' : Synth} {v : Value}
    {x : Value → Run TypeError α} {g : Value → Run TypeError Value}
    (he : (B.widen : Run TypeError Value).Follows TypeError.Sim Eq (e.eval m (env.push v)).widen)
    (hx : ∀ B, (x B).Follows TypeError.Sim R (g (.pi none B ⟨env.push v, .synth e'⟩))) :
    (B.widen >>= x).Follows TypeError.Sim R
      (((Closure.mk env (.synth (Telescope.arrow e e'))).apply (m + 3) v).widen >>= g) := by
  have happly : (Closure.mk env (.synth (Telescope.arrow e e'))).apply (m + 3) v =
      e.eval m (env.push v) >>= fun B => pure (.pi none B ⟨env.push v, .synth e'⟩) := rfl
  rw [happly, Run.widen_bind, bind_assoc]
  apply he.bind
  rintro B _ rfl
  exact hx B

end Argument

theorem follows_natElim {s s₁ s₂ s₃ s₄ : Span} {m b t k : Check} (n : Nat) (span : Span) :
    ∃ T, (Check.synth Telescope.natElimType).eval (n + 10) (ctx.env []) = .ok T ∧
      ((Synth.natElim s m b t k).infer (n + 11) ctx).Follows TypeError.Sim Eq
        (ctx.inferApps (n + 10) span T [(s₁, m), (s₂, b), (s₃, t), (s₄, k)]) := by
  refine ⟨_, rfl, ?_⟩
  simp only [Synth.infer]
  apply follows_evaluated (Nat.le_refl _) (.self _)
  intro mv
  apply follows_domain (apply_follows mv .zero _ _)
  intro B
  apply follows_checked (by omega) (.self B)
  intro bv
  -- the constant has the base in the environment of the step type
  apply follows_checked (by omega) (.pi trivial .nat (.mk (.skip fun _ => trivial) (by repeat constructor)))
  intro sv
  apply follows_evaluated (by omega) .nat
  intro kv
  simp only [inferApps, bind_pure]
  exact apply_follows mv kv _ _

theorem follows_vecElim {s s₁ s₂ s₃ s₄ s₅ s₆ : Span} {a m b t k xs : Check} (n : Nat)
    (span : Span) :
    ∃ T, (Check.synth Telescope.vecElimType).eval (n + 10) (ctx.env []) = .ok T ∧
      ((Synth.vecElim s a m b t k xs).infer (n + 11) ctx).Follows TypeError.Sim Eq
        (ctx.inferApps (n + 10) span T [(s₁, a), (s₂, m), (s₃, b), (s₄, t), (s₅, k), (s₆, xs)]) := by
  refine ⟨_, rfl, ?_⟩
  simp only [Synth.infer]
  apply follows_evaluated (Nat.le_refl _) .star
  intro av
  apply follows_evaluated (by omega) (.self _)
  intro mv
  apply follows_domain (applyAll_follows mv .zero (.nil av) _ _ _)
  intro B
  apply follows_checked (by omega) (.self B)
  intro bv
  -- the constant has the base in the environment of the step type
  apply follows_checked (by omega) (.pi trivial .nat (.mk (.skip fun _ => trivial) (by repeat constructor)))
  intro tv
  apply follows_evaluated (by omega) .nat
  intro kv
  apply follows_evaluated (by omega) (.self _)
  intro xsv
  simp only [inferApps, bind_pure]
  exact applyAll_follows mv kv xsv _ _ _

end Context

theorem Former.alike_type? {F : Former} {D : Synth} (h : F.type? = some D) :
    (Check.synth D).Alike Any Any (fun _ => False) (fun _ _ => False) (.synth D) := by
  cases F with
  | ascribe => cases h
  | sealed => cases h
  | _ =>
    cases h
    repeat constructor

/-- The type is a closed term: its values in two environments are similar, whatever the names of the
binders. -/
theorem Former.type?_sim {F : Former} {D : Synth} {D' : Check} {env env' : Env} {n m : Nat}
    {T T' : Value} (hF : F.type? = some D) (hD : (Check.synth D).alphaEq D' = true)
    (hT : (Check.synth D).eval n env = .ok T) (hT' : D'.eval m env' = .ok T') : T.Sim Any T' := by
  have henv : env.Sim Any (fun _ => False) (fun _ _ => False) env' :=
    .mk (fun _ h => h.elim) fun _ _ h => h.elim
  have heval := Check.eval_sim (n + m) ((Former.alike_type? hF).congr hD) henv
  have hle := Run.Le.of_succ (fun j => Check.eval_le j env (.synth D)) (Nat.le_add_right n m)
  have hle' := Run.Le.of_succ (fun j => Check.eval_le j env' D') (Nat.le_add_left m n)
  rw [hle.eq_ok hT, hle'.eq_ok hT'] at heval
  cases heval with
  | ok hsim => exact hsim

/-- Argument by argument, the rule for a former does what the rule for an application does. -/
theorem Synth.former_follows (ctx : Context) {t : Synth} {F : Former} {D : Synth}
    {args : List (Span × Check)} (ht : t.former? = some (F, args.map Prod.snd))
    (hD : F.type? = some D) (n : Nat) (span : Span) :
    ∃ T, (Check.synth D).eval (n + 10) (ctx.env []) = .ok T ∧
      (t.infer (n + 11) ctx).Follows TypeError.Sim Eq (ctx.inferApps (n + 10) span T args) := by
  cases t with
  | nat _ =>
    rcases args with _ | _ <;> cases ht
    cases hD
    exact ⟨_, rfl, .ok rfl⟩
  | zero _ =>
    rcases args with _ | _ <;> cases ht
    cases hD
    exact ⟨_, rfl, .ok rfl⟩
  | succ _ a =>
    rcases args with _ | ⟨⟨s₁, _⟩, _ | _⟩ <;> cases ht
    cases hD
    refine ⟨_, rfl, ?_⟩
    simp only [Synth.infer]
    apply Context.follows_checked (Nat.le_refl _) .nat
    intro _
    exact .ok rfl
  | natElim s m b t k =>
    rcases args with _ | ⟨⟨s₁, _⟩, _ | ⟨⟨s₂, _⟩, _ | ⟨⟨s₃, _⟩, _ | ⟨⟨s₄, _⟩, _ | _⟩⟩⟩⟩ <;> cases ht
    cases hD
    exact Context.follows_natElim n span
  | vec _ a k =>
    rcases args with _ | ⟨⟨s₁, _⟩, _ | ⟨⟨s₂, _⟩, _ | _⟩⟩ <;> cases ht
    cases hD
    refine ⟨_, rfl, ?_⟩
    simp only [Synth.infer]
    apply Context.follows_evaluated (Nat.le_refl _) .star
    intro _
    apply Context.follows_checked (by omega) .nat
    intro _
    exact .ok rfl
  | nil _ a =>
    rcases args with _ | ⟨⟨s₁, _⟩, _ | _⟩ <;> cases ht
    cases hD
    refine ⟨_, rfl, ?_⟩
    simp only [Synth.infer]
    apply Context.follows_evaluated (Nat.le_refl _) .star
    intro _
    exact .ok rfl
  | cons _ a k x xs =>
    rcases args with _ | ⟨⟨s₁, _⟩, _ | ⟨⟨s₂, _⟩, _ | ⟨⟨s₃, _⟩, _ | ⟨⟨s₄, _⟩, _ | _⟩⟩⟩⟩ <;> cases ht
    cases hD
    refine ⟨_, rfl, ?_⟩
    simp only [Synth.infer]
    apply Context.follows_evaluated (Nat.le_refl _) .star
    intro av
    apply Context.follows_evaluated (by omega) .nat
    intro kv
    apply Context.follows_checked (by omega) (.self av)
    intro _
    apply Context.follows_checked (by omega) (.self (.vec av kv))
    intro _
    exact .ok rfl
  | vecElim s a m b t k xs =>
    rcases args with _ | ⟨⟨s₁, _⟩, _ | ⟨⟨s₂, _⟩, _ | ⟨⟨s₃, _⟩, _ | ⟨⟨s₄, _⟩, _ | ⟨⟨s₅, _⟩,
      _ | ⟨⟨s₆, _⟩, _ | _⟩⟩⟩⟩⟩⟩ <;> cases ht
    cases hD
    exact Context.follows_vecElim n span
  | _ => cases ht

/-- A former, and a constant of its type that is applied to the same arguments: when both runs end,
both have a type, with the same normal form, or both are refused for the same reason. The former does
not fault where the constant does not. -/
theorem Synth.infer_former_as_constant {ctx : Context} {t : Synth} {F : Former}
    {args : List (Span × Check)} {D : Synth} {D' : Check} {T : Value} {env : Env} {c : String}
    {span : Span} {k n m : Nat} (ht : t.former? = some (F, args.map Prod.snd))
    (hF : F.type? = some D) (hD : (Check.synth D).alphaEq D' = true) (hT : D'.eval k env = .ok T)
    (hc : ctx.signature.type? c = some T) (hn : t.infer n ctx ≠ .error .outOfFuel)
    (hm : (((Synth.free span (.global c)).apps args).infer m ctx).Terminates) :
    (∃ U U', t.infer n ctx = .ok U ∧
        ((Synth.free span (.global c)).apps args).infer m ctx = .ok U' ∧
        ∀ fuel, (ctx.quote fuel U).Rel Eq (fun r r' => r.alphaEq r' = true) (ctx.quote fuel U')) ∨
      ∃ e e', t.infer n ctx = .error (.refused e) ∧
        ((Synth.free span (.global c)).apps args).infer m ctx = .error (.refused e') ∧ e.Sim e' := by
  obtain ⟨T₀, hT₀, hfollows⟩ := Synth.former_follows ctx ht hF (n + m) span
  have hsim : T₀.Sim Any T := Former.type?_sim hF hD hT₀ hT
  have hspine : ((Synth.free span (.global c)).apps args).infer (n + m + 10 + args.length) ctx =
      ctx.inferApps (n + m + 10) span T args := by
    rw [Synth.infer_apps]
    simp only [Synth.infer, Context.lookup, hc]
    rfl
  have hargs := (@Context.inferApps_sim ctx args (n + m + 10) span _ _ hsim).mono
    (fun _ _ => TypeError.Alike.sim) (fun _ _ h => h)
  have hall := hfollows.trans hargs (fun _ _ _ => TypeError.Sim.trans) (fun _ _ _ h h' => h ▸ h')
  rw [← hspine] at hall
  have h := hall.of_le
    (Run.Le.of_succ (fun j => Synth.infer_le j ctx t) (show n ≤ n + m + 11 by omega))
    (Run.Le.of_succ (fun j => Synth.infer_le j ctx _)
      (show m ≤ n + m + 10 + args.length by omega))
  rcases h.ok_or_refused hn hm with ⟨U, U', hU, hU', hsim⟩ | hrefused
  · refine .inl ⟨U, U', hU, hU', fun fuel => ?_⟩
    exact (Value.quote_sim fuel ctx.depth hsim).mono (fun _ _ h => h) fun _ _ h => h.alphaEq
  · exact .inr hrefused

section Count

open Telescope

/-- `λn xs. Nat`. -/
def countMotive : Check :=
  .lam none (some "n") (.lam none (some "xs") (.synth nat))

/-- `λn x xs r. Succ r`. -/
def countStep : Check :=
  .lam none (some "n") (.lam none (some "x") (.lam none (some "xs") (.lam none (some "r")
    (.synth (succ (var 0))))))

/-- `Cons Nat 0 0 (Nil Nat)`. -/
def countVec : Check :=
  .synth (cons nat (.zero none) (.zero none) (.nil none (.synth nat)))

theorem count_typed_as_constant : ∃ T,
    (Check.synth vecElimType).eval 10 ⟨[], []⟩ = .ok T ∧
      let ctx := Context.ofSignature ((∅ : Signature).postulate "fold" T)
      let one : Check := .synth (succ (.zero none))
      let former : Synth :=
        .vecElim none (.synth nat) countMotive (.synth (.zero none)) countStep one countVec
      let constant : Synth := (Synth.free none (.global "fold")).apps
        [(none, .synth nat), (none, countMotive), (none, .synth (.zero none)), (none, countStep),
          (none, one), (none, countVec)]
      ∃ U U', former.infer 30 ctx = .ok U ∧ constant.infer 40 ctx = .ok U' ∧
        ∀ fuel, (ctx.quote fuel U).Rel Eq (fun r r' => r.alphaEq r' = true)
          (ctx.quote fuel U') := by
  refine ⟨_, rfl, ?_⟩
  intro ctx one former constant
  have hformer : former.infer 30 ctx = .ok .nat := rfl
  have hconstant : constant.infer 40 ctx = .ok .nat := rfl
  have hT : (Check.synth vecElimType).eval 10 ⟨[], []⟩ = .ok _ := rfl
  have hn : former.infer 30 ctx ≠ .error .outOfFuel := by
    rw [hformer]
    nofun
  have hm : (constant.infer 40 ctx).Terminates := by
    rw [hconstant]
    exact ⟨nofun, nofun⟩
  rcases Synth.infer_former_as_constant (D := vecElimType) rfl rfl rfl hT rfl hn hm
    with h | ⟨_, _, herror, _⟩
  · exact h
  · rw [hformer] at herror
    cases herror

end Count

end TypeInType
