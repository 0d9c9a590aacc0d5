import TypeInType.Proofs.Run
import TypeInType.Proofs.Term.Along
import TypeInType.Proofs.Value.Embedding
import TypeInType.Value.Quote

/-!
# Values along a relation on names

Two values have the same shape, but the names they are stuck on correspond along a relation, and a
closure of the one may hold in its environment what the other names in its body. Such values evaluate in
lock-step. They are read back in lock-step too, even at different depths, if every pair of names is read
back as a pair of variables that correspond.
-/

namespace TypeInType

open Run (Rel)
open Var (Inside)

/-! ## The value of a variable -/

/-- The value of a variable in an environment. -/
def Env.value (env : Env) : Var → Run Empty Value
  | .bound i =>
    match env.locals[i]? with
    | some v => return v
    | none => .abort .unboundVariable
  | .free (.global x) =>
    match env.global? x with
    | some v => return v
    | none => .abort .unboundGlobal
  | .free x => return .free x

theorem Var.eval_toSynth {fuel : Nat} {env : Env} {s : Span} :
    ∀ a : Var, (a.toSynth s).eval (fuel + 1) env = env.value a
  | .bound _ => by
    simp only [toSynth, Synth.eval]
    rfl
  | .free (.global _) => by
    simp only [toSynth, Synth.eval]
    rfl
  | .free (.hyp _) => by simp only [toSynth, Synth.eval, Env.value]
  | .free (.quote _) => by simp only [toSynth, Synth.eval, Env.value]

theorem Env.value_push_shift {env : Env} {v : Value} :
    ∀ a : Var, (env.push v).value a.shift = env.value a
  | .bound _ => rfl
  | .free (.global _) => rfl
  | .free (.hyp _) => rfl
  | .free (.quote _) => rfl

/-! ## Values -/

mutual

/-- The values have the same shape, and the names of binders are the same. The names that they are stuck
on correspond along `M`. -/
inductive Value.Along (M : Name → Name → Prop) : Value → Value → Prop where
  | neutral {n n'} : Neutral.Along M n n' → Value.Along M (.neutral n) (.neutral n')
  | star : Value.Along M .star .star
  | pi {x d d' c c'} : Value.Along M d d' → Closure.Along M c c' →
      Value.Along M (.pi x d c) (.pi x d' c')
  | lam {x b b'} : Closure.Along M b b' → Value.Along M (.lam x b) (.lam x b')
  | nat : Value.Along M .nat .nat
  | zero : Value.Along M .zero .zero
  | succ {n n'} : Value.Along M n n' → Value.Along M (.succ n) (.succ n')
  | vec {a a' n n'} : Value.Along M a a' → Value.Along M n n' →
      Value.Along M (.vec a n) (.vec a' n')
  | nil {a a'} : Value.Along M a a' → Value.Along M (.nil a) (.nil a')
  | cons {a a' n n' x x' xs xs'} : Value.Along M a a' → Value.Along M n n' → Value.Along M x x' →
      Value.Along M xs xs' → Value.Along M (.cons a n x xs) (.cons a' n' x' xs')

inductive Neutral.Along (M : Name → Name → Prop) : Neutral → Neutral → Prop where
  | free {x x'} : M x x' → Neutral.Along M (.free x) (.free x')
  | app {f f' v v'} : Neutral.Along M f f' → Value.Along M v v' →
      Neutral.Along M (.app f v) (.app f' v')
  | natElim {m m' b b' s s' n n'} : Value.Along M m m' → Value.Along M b b' → Value.Along M s s' →
      Neutral.Along M n n' → Neutral.Along M (.natElim m b s n) (.natElim m' b' s' n')
  | vecElim {a a' m m' b b' s s' n n' xs xs'} : Value.Along M a a' → Value.Along M m m' →
      Value.Along M b b' → Value.Along M s s' → Value.Along M n n' → Neutral.Along M xs xs' →
      Neutral.Along M (.vecElim a m b s n xs) (.vecElim a' m' b' s' n' xs')

/-- The values of variables that correspond along `W` correspond, or looking them up fails alike. -/
inductive Env.Along (M : Name → Name → Prop) : (Var → Var → Prop) → Env → Env → Prop where
  | mk {W : Var → Var → Prop} {env env' : Env}
      (values : ∀ a b, W a b → Run.Rel Eq (Value.Along M) (env.value a) (env'.value b)) :
      Env.Along M W env env'

inductive Closure.Along (M : Name → Name → Prop) : Closure → Closure → Prop where
  | mk {W : Var → Var → Prop} {env env' : Env} {b b' : Check} :
      Env.Along M W env env' → b.Along Any (Inside W) b' → Closure.Along M ⟨env, b⟩ ⟨env', b'⟩

end

theorem Env.Along.push {M : Name → Name → Prop} {W : Var → Var → Prop} {env env' : Env}
    {v v' : Value} (h : env.Along M W env') (hv : v.Along M v') :
    (env.push v).Along M (Inside W) (env'.push v') := by
  obtain ⟨values⟩ := h
  refine .mk fun a b hab => ?_
  cases hab with
  | here => exact .ok hv
  | there hab =>
    rw [Env.value_push_shift, Env.value_push_shift]
    exact values _ _ hab

/-! ## A value along itself -/

/-- The variables of a term whose names satisfy `P` or belong to the signature. -/
inductive Var.Kept (P : Name → Prop) : Var → Var → Prop where
  | bound (i : Nat) : Kept P (.bound i) (.bound i)
  | free {x : Name} : OrGlobal P x → Kept P (.free x) (.free x)

section Self

variable {D : Indices} {P : Name → Prop} {M : Name → Name → Prop}

mutual

theorem Value.ScopedBy.along (hM : ∀ x, P x → M x x) : ∀ {v : Value}, v.ScopedBy D P → v.Along M v
  | .neutral n, h => .neutral (Neutral.ScopedBy.along (n := n) hM h)
  | .star, _ => .star
  | .pi _ _ _, h => .pi (Value.ScopedBy.along hM h.1) (Closure.ScopedBy.along hM h.2)
  | .lam _ b, h => .lam (Closure.ScopedBy.along (c := b) hM h)
  | .nat, _ => .nat
  | .zero, _ => .zero
  | .succ n, h => .succ (Value.ScopedBy.along (v := n) hM h)
  | .vec _ _, h => .vec (Value.ScopedBy.along hM h.1) (Value.ScopedBy.along hM h.2)
  | .nil a, h => .nil (Value.ScopedBy.along (v := a) hM h)
  | .cons _ _ _ _, h => .cons (Value.ScopedBy.along hM h.1) (Value.ScopedBy.along hM h.2.1)
      (Value.ScopedBy.along hM h.2.2.1) (Value.ScopedBy.along hM h.2.2.2)

theorem Neutral.ScopedBy.along (hM : ∀ x, P x → M x x) : ∀ {n : Neutral}, n.ScopedBy D P →
    n.Along M n
  | .free x, h => .free (hM x h)
  | .app _ _, h => .app (Neutral.ScopedBy.along hM h.1) (Value.ScopedBy.along hM h.2)
  | .natElim _ _ _ _, h => .natElim (Value.ScopedBy.along hM h.1) (Value.ScopedBy.along hM h.2.1)
      (Value.ScopedBy.along hM h.2.2.1) (Neutral.ScopedBy.along hM h.2.2.2)
  | .vecElim _ _ _ _ _ _, h => .vecElim (Value.ScopedBy.along hM h.1) (Value.ScopedBy.along hM h.2.1)
      (Value.ScopedBy.along hM h.2.2.1) (Value.ScopedBy.along hM h.2.2.2.1)
      (Value.ScopedBy.along hM h.2.2.2.2.1) (Neutral.ScopedBy.along hM h.2.2.2.2.2)

theorem Env.ScopedBy.along (hM : ∀ x, P x → M x x) : ∀ {env : Env}, env.ScopedBy D P →
    env.Along M (Var.Kept P) env
  | ⟨globals, locals⟩, h => by
    refine .mk fun a b hab => ?_
    cases hab with
    | bound i =>
      simp only [Env.value]
      split
      case h_1 v hv => exact .ok (LocalsScopedBy.along hM h.2 i v hv)
      case h_2 => exact .fault _
    | @free x hx =>
      cases x with
      | global x =>
        simp only [Env.value]
        split
        case h_1 v hv => exact .ok (GlobalsScopedBy.along hM h.1 x v hv)
        case h_2 => exact .fault _
      | hyp l => exact .ok (.neutral (.free (hM (.hyp l) hx)))
      | quote l => exact .ok (.neutral (.free (hM (.quote l) hx)))

theorem Closure.ScopedBy.along (hM : ∀ x, P x → M x x) : ∀ {c : Closure}, c.ScopedBy D P →
    c.Along M c
  | ⟨_, _⟩, ⟨henv, _, _, hbody⟩ => by
    have hbound : ∀ i : Nat, Var.Kept P (.bound i) (.bound i) := .bound
    refine .mk (Env.ScopedBy.along hM henv) (hbody.along (fun _ => trivial) ?_ ?_)
    · exact Inside.lt_succ fun i _ => hbound i
    · exact fun x hx => .there (a := .free x) (b := .free x) (.free hx)

theorem GlobalsScopedBy.along (hM : ∀ x, P x → M x x) : ∀ {globals : List (String × Value)},
    GlobalsScopedBy D P globals → ∀ x v, globals.lookup x = some v → v.Along M v
  | (y, w) :: globals, h, x, v, hx => by
    rw [List.lookup_cons] at hx
    split at hx
    case h_1 =>
      obtain rfl := Option.some.inj hx
      exact Value.ScopedBy.along hM h.1
    case h_2 => exact GlobalsScopedBy.along hM h.2 x v hx

theorem LocalsScopedBy.along (hM : ∀ x, P x → M x x) : ∀ {locals : List Value},
    LocalsScopedBy D P locals → ∀ (i : Nat) v, locals[i]? = some v → v.Along M v
  | w :: _, h, 0, v, hi => by
    obtain rfl : w = v := by simpa using hi
    exact Value.ScopedBy.along hM h.1
  | _ :: _, h, i + 1, v, hi => LocalsScopedBy.along hM h.2 i v (by simpa using hi)

end

end Self

section Along

variable {M : Name → Name → Prop}

/-! ## Evaluation -/

mutual

theorem Synth.eval_along : ∀ (fuel : Nat) {W : Var → Var → Prop} {t t' : Synth}
    {env env' : Env}, t.Along Any W t' → env.Along M W env' →
    (t.eval fuel env).Rel Eq (Value.Along M) (t'.eval fuel env')
  | 0, _, _, _, _, _, _, _ => .outOfFuel
  | fuel + 1, _, _, _, env, env', ht, henv => by
    cases ht with
    | var _ hab =>
      rw [Var.eval_toSynth, Var.eval_toSynth]
      obtain ⟨values⟩ := henv
      exact values _ _ hab
    | ann _ he _ =>
      simp only [Synth.eval]
      exact Check.eval_along fuel he henv
    | star _ => exact .ok .star
    | pi _ hd hc =>
      simp only [Synth.eval]
      apply (Check.eval_along fuel hd henv).bind
      intro d d' hd
      exact .ok (.pi hd (.mk henv hc))
    | app _ hh ha =>
      simp only [Synth.eval]
      apply (Synth.eval_along fuel hh henv).bind
      intro f f' hf
      apply (Check.eval_along fuel ha henv).bind
      intro v v' hv
      exact Value.apply_along fuel hf hv
    | nat _ => exact .ok .nat
    | zero _ => exact .ok .zero
    | succ _ hn =>
      simp only [Synth.eval]
      apply (Check.eval_along fuel hn henv).bind
      intro n n' hn
      exact .ok (.succ hn)
    | natElim _ hm hb hs hn =>
      simp only [Synth.eval]
      apply (Check.eval_along fuel hm henv).bind
      intro m m' hm
      apply (Check.eval_along fuel hb henv).bind
      intro b b' hb
      apply (Check.eval_along fuel hs henv).bind
      intro s s' hs
      apply (Check.eval_along fuel hn henv).bind
      intro n n' hn
      exact Value.natElim_along fuel hn hm hb hs
    | vec _ ha hn =>
      simp only [Synth.eval]
      apply (Check.eval_along fuel ha henv).bind
      intro a a' ha
      apply (Check.eval_along fuel hn henv).bind
      intro n n' hn
      exact .ok (.vec ha hn)
    | nil _ ha =>
      simp only [Synth.eval]
      apply (Check.eval_along fuel ha henv).bind
      intro a a' ha
      exact .ok (.nil ha)
    | cons _ ha hn hx hxs =>
      simp only [Synth.eval]
      apply (Check.eval_along fuel ha henv).bind
      intro a a' ha
      apply (Check.eval_along fuel hn henv).bind
      intro n n' hn
      apply (Check.eval_along fuel hx henv).bind
      intro x x' hx
      apply (Check.eval_along fuel hxs henv).bind
      intro xs xs' hxs
      exact .ok (.cons ha hn hx hxs)
    | vecElim _ ha hm hb hs hn hxs =>
      simp only [Synth.eval]
      apply (Check.eval_along fuel ha henv).bind
      intro a a' ha
      apply (Check.eval_along fuel hm henv).bind
      intro m m' hm
      apply (Check.eval_along fuel hb henv).bind
      intro b b' hb
      apply (Check.eval_along fuel hs henv).bind
      intro s s' hs
      apply (Check.eval_along fuel hn henv).bind
      intro n n' hn
      apply (Check.eval_along fuel hxs henv).bind
      intro xs xs' hxs
      exact Value.vecElim_along fuel hxs ha hm hb hs hn

theorem Check.eval_along : ∀ (fuel : Nat) {W : Var → Var → Prop} {t t' : Check}
    {env env' : Env}, t.Along Any W t' → env.Along M W env' →
    (t.eval fuel env).Rel Eq (Value.Along M) (t'.eval fuel env')
  | 0, _, _, _, _, _, _, _ => .outOfFuel
  | fuel + 1, _, _, _, env, env', ht, henv => by
    cases ht with
    | synth ht =>
      simp only [Check.eval]
      exact Synth.eval_along fuel ht henv
    | lam _ hb => exact .ok (.lam (.mk henv hb))
    | ascribe _ _ he =>
      simp only [Check.eval]
      exact Check.eval_along fuel he henv
    | sealed _ he =>
      simp only [Check.eval]
      exact Synth.eval_along fuel he henv

theorem Value.apply_along : ∀ (fuel : Nat) {f f' v v' : Value}, f.Along M f' → v.Along M v' →
    (f.apply fuel v).Rel Eq (Value.Along M) (f'.apply fuel v')
  | 0, _, _, _, _, _, _ => .outOfFuel
  | fuel + 1, _, _, _, _, hf, hv => by
    simp only [Value.apply]
    cases hf with
    | lam hb =>
      obtain ⟨henv, hb⟩ := hb
      exact Check.eval_along fuel hb (henv.push hv)
    | neutral hn => exact .ok (.neutral (.app hn hv))
    | _ => exact .fault _

theorem Value.natElim_along : ∀ (fuel : Nat) {n n' m m' b b' s s' : Value}, n.Along M n' → m.Along M m' →
    b.Along M b' → s.Along M s' → (n.natElim fuel m b s).Rel Eq (Value.Along M) (n'.natElim fuel m' b' s')
  | 0, _, _, _, _, _, _, _, _, _, _, _, _ => .outOfFuel
  | fuel + 1, _, _, _, _, _, _, _, _, hn, hm, hb, hs => by
    simp only [Value.natElim]
    cases hn with
    | zero => exact .ok hb
    | succ hn =>
      apply (Value.natElim_along fuel hn hm hb hs).bind
      intro r r' hr
      apply (Value.apply_along fuel hs hn).bind
      intro f f' hf
      exact Value.apply_along fuel hf hr
    | neutral hn => exact .ok (.neutral (.natElim hm hb hs hn))
    | _ => exact .fault _

theorem Value.vecElim_along : ∀ (fuel : Nat) {xs xs' a a' m m' b b' s s' n n' : Value}, xs.Along M xs' →
    a.Along M a' → m.Along M m' → b.Along M b' → s.Along M s' → n.Along M n' →
    (xs.vecElim fuel a m b s n).Rel Eq (Value.Along M) (xs'.vecElim fuel a' m' b' s' n')
  | 0, _, _, _, _, _, _, _, _, _, _, _, _, _, _, _, _, _, _ => .outOfFuel
  | fuel + 1, _, _, _, _, _, _, _, _, _, _, _, _, hxs, ha, hm, hb, hs, hn => by
    simp only [Value.vecElim]
    cases hxs with
    | nil _ => exact .ok hb
    | cons _ hl hx hxs =>
      apply (Value.vecElim_along fuel hxs ha hm hb hs hl).bind
      intro r r' hr
      apply (Value.apply_along fuel hs hl).bind
      intro f f' hf
      apply (Value.apply_along fuel hf hx).bind
      intro f f' hf
      apply (Value.apply_along fuel hf hxs).bind
      intro f f' hf
      exact Value.apply_along fuel hf hr
    | neutral hxs => exact .ok (.neutral (.vecElim ha hm hb hs hn hxs))
    | _ => exact .fault _

end

theorem Closure.apply_along (fuel : Nat) {c c' : Closure} {v v' : Value} (hc : c.Along M c')
    (hv : v.Along M v') : (c.apply fuel v).Rel Eq (Value.Along M) (c'.apply fuel v') := by
  obtain ⟨henv, hb⟩ := hc
  exact Check.eval_along fuel hb (henv.push hv)

/-! ## Read-back -/

/-- The variable that a name is read back as, under `depth` binders of read-back. -/
def Name.read? (depth : Nat) : Name → Option Var
  | .quote l => (indexOfLevel? depth l).map .bound
  | x => some (.free x)

theorem Name.quote?_of_read? {depth : Nat} {a : Var} : ∀ {x : Name}, x.read? depth = some a →
    x.quote? depth = .ok (a.toSynth none)
  | .global _, rfl => rfl
  | .hyp _, rfl => rfl
  | .quote l, h => by
    obtain ⟨i, hi, rfl⟩ := Option.map_eq_some_iff.mp h
    simp only [Name.quote?, hi]
    rfl

theorem Name.read?_succ {depth : Nat} {a : Var} : ∀ {x : Name}, x.read? depth = some a →
    x.read? (depth + 1) = some a.shift
  | .global _, rfl => rfl
  | .hyp _, rfl => rfl
  | .quote l, h => by
    obtain ⟨i, hi, rfl⟩ := Option.map_eq_some_iff.mp h
    simp only [indexOfLevel?, Option.ite_none_right_eq_some, Option.some.injEq] at hi
    obtain ⟨hl, rfl⟩ := hi
    have hlt : l < depth + 1 := Nat.lt_succ_of_lt hl
    have hidx : depth + 1 - l - 1 = depth - l - 1 + 1 := by omega
    simp only [Name.read?, indexOfLevel?, if_pos hlt, Option.map_some, Var.shift, hidx]

/-- The names are read back, under `d` and `d'` binders, as variables that correspond along `W`, or both
belong to binders that are not there yet. -/
inductive Name.ReadAlong (W : Var → Var → Prop) (d d' : Nat) : Name → Name → Prop where
  | var {x x' a b} : x.read? d = some a → x'.read? d' = some b → W a b → ReadAlong W d d' x x'
  | stray (k : Nat) : ReadAlong W d d' (.quote (d + k)) (.quote (d' + k))

theorem Name.ReadAlong.quote? {W : Var → Var → Prop} {d d' : Nat} {x x' : Name}
    (h : ReadAlong W d d' x x') : (x.quote? d).Rel Eq (Synth.Along Eq W) (x'.quote? d') := by
  cases h with
  | var ha hb hW =>
    rw [Name.quote?_of_read? ha, Name.quote?_of_read? hb]
    exact .ok (.var rfl hW)
  | stray k =>
    have hd : indexOfLevel? d (d + k) = none := if_neg (by omega)
    have hd' : indexOfLevel? d' (d' + k) = none := if_neg (by omega)
    simp only [Name.quote?, hd, hd']
    exact .fault _

theorem Name.ReadAlong.succ {W : Var → Var → Prop} {d d' : Nat} {x x' : Name}
    (h : ReadAlong W d d' x x') : ReadAlong (Inside W) (d + 1) (d' + 1) x x' := by
  cases h with
  | var ha hb hW => exact .var (Name.read?_succ ha) (Name.read?_succ hb) (.there hW)
  | stray k =>
    cases k with
    | zero =>
      -- The binder of both names is the one just passed.
      have hnew : ∀ n, (Name.quote (n + 0)).read? (n + 1) = some (.bound 0) := by
        intro n
        simp [Name.read?, indexOfLevel?]
      exact .var (hnew d) (hnew d') .here
    | succ k =>
      have hk : ∀ n, n + (k + 1) = n + 1 + k := by omega
      rw [hk d, hk d']
      exact .stray k

/-- Names that correspond along `M` are read back, under `d` and `d'` binders, as variables that
correspond along `W`, and the names of the binders to come correspond. -/
structure ReadsAlong (M : Name → Name → Prop) (W : Var → Var → Prop) (d d' : Nat) : Prop where
  read : ∀ x x', M x x' → Name.ReadAlong W d d' x x'
  fresh : ∀ k, M (.quote (d + k)) (.quote (d' + k))

theorem ReadsAlong.succ {W : Var → Var → Prop} {d d' : Nat} (h : ReadsAlong M W d d') :
    ReadsAlong M (Inside W) (d + 1) (d' + 1) where
  read x x' hx := (h.read x x' hx).succ
  fresh k := by
    have hk : ∀ n, n + 1 + k = n + (k + 1) := by omega
    rw [hk d, hk d']
    exact h.fresh (k + 1)

mutual

theorem Value.quote_along : ∀ (fuel : Nat) {W : Var → Var → Prop} {d d' : Nat} {v v' : Value},
    ReadsAlong M W d d' → v.Along M v' →
    (v.quote fuel d).Rel Eq (Check.Along Eq W) (v'.quote fuel d')
  | 0, _, _, _, _, _, _, _ => .outOfFuel
  | fuel + 1, _, _, _, _, _, hM, hv => by
    simp only [Value.quote]
    cases hv with
    | neutral hn =>
      apply (Neutral.quote_along fuel hM hn).bind
      intro t t' ht
      exact .ok (.synth ht)
    | star => exact .ok (.synth (.star rfl))
    | pi hd hc =>
      apply (Value.quote_along fuel hM hd).bind
      intro d d' hd
      apply (Closure.quote_along fuel hM hc).bind
      intro c c' hc
      exact .ok (.synth (.pi rfl hd hc))
    | lam hb =>
      apply (Closure.quote_along fuel hM hb).bind
      intro b b' hb
      exact .ok (.lam rfl hb)
    | nat => exact .ok (.synth (.nat rfl))
    | zero => exact .ok (.synth (.zero rfl))
    | succ hn =>
      apply (Value.quote_along fuel hM hn).bind
      intro n n' hn
      exact .ok (.synth (.succ rfl hn))
    | vec ha hn =>
      apply (Value.quote_along fuel hM ha).bind
      intro a a' ha
      apply (Value.quote_along fuel hM hn).bind
      intro n n' hn
      exact .ok (.synth (.vec rfl ha hn))
    | nil ha =>
      apply (Value.quote_along fuel hM ha).bind
      intro a a' ha
      exact .ok (.synth (.nil rfl ha))
    | cons ha hn hx hxs =>
      apply (Value.quote_along fuel hM ha).bind
      intro a a' ha
      apply (Value.quote_along fuel hM hn).bind
      intro n n' hn
      apply (Value.quote_along fuel hM hx).bind
      intro x x' hx
      apply (Value.quote_along fuel hM hxs).bind
      intro xs xs' hxs
      exact .ok (.synth (.cons rfl ha hn hx hxs))

theorem Neutral.quote_along : ∀ (fuel : Nat) {W : Var → Var → Prop} {d d' : Nat} {n n' : Neutral},
    ReadsAlong M W d d' → n.Along M n' →
    (n.quote fuel d).Rel Eq (Synth.Along Eq W) (n'.quote fuel d')
  | 0, _, _, _, _, _, _, _ => .outOfFuel
  | fuel + 1, _, _, _, _, _, hM, hn => by
    simp only [Neutral.quote]
    cases hn with
    | free hx => exact (hM.read _ _ hx).quote?
    | app hf hv =>
      apply (Neutral.quote_along fuel hM hf).bind
      intro f f' hf
      apply (Value.quote_along fuel hM hv).bind
      intro v v' hv
      exact .ok (.app rfl hf hv)
    | natElim hm hb hs hn =>
      apply (Neutral.quote_along fuel hM hn).bind
      intro n n' hn
      apply (Value.quote_along fuel hM hm).bind
      intro m m' hm
      apply (Value.quote_along fuel hM hb).bind
      intro b b' hb
      apply (Value.quote_along fuel hM hs).bind
      intro s s' hs
      exact .ok (.natElim rfl hm hb hs (.synth hn))
    | vecElim ha hm hb hs hn hxs =>
      apply (Neutral.quote_along fuel hM hxs).bind
      intro xs xs' hxs
      apply (Value.quote_along fuel hM ha).bind
      intro a a' ha
      apply (Value.quote_along fuel hM hm).bind
      intro m m' hm
      apply (Value.quote_along fuel hM hb).bind
      intro b b' hb
      apply (Value.quote_along fuel hM hs).bind
      intro s s' hs
      apply (Value.quote_along fuel hM hn).bind
      intro n n' hn
      exact .ok (.vecElim rfl ha hm hb hs hn (.synth hxs))

theorem Closure.quote_along : ∀ (fuel : Nat) {W : Var → Var → Prop} {d d' : Nat} {c c' : Closure},
    ReadsAlong M W d d' → c.Along M c' →
    (c.quote fuel d).Rel Eq (Check.Along Eq (Inside W)) (c'.quote fuel d')
  | 0, _, _, _, _, _, _, _ => .outOfFuel
  | fuel + 1, _, d, d', _, _, hM, hc => by
    simp only [Closure.quote]
    have hvar : (Value.free (.quote d)).Along M (.free (.quote d')) := .neutral (.free (hM.fresh 0))
    apply (Closure.apply_along fuel hc hvar).bind
    intro v v' hv
    exact Value.quote_along fuel hM.succ hv

end

end Along

end TypeInType
