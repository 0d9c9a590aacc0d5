import TypeInType.Proofs.Term.Alike
import TypeInType.Proofs.Term.Erasure

/-!
# Terms along a relation on variables

Two terms have the same shape, but a variable of the one may be another variable in the other: an index
may stand where the other has a name. Going under a binder adds one variable to both sides. A term in
which a name has replaced an index, and a term in which an index has replaced a name, are such terms.
-/

namespace TypeInType

/-- A variable of a term: an index or a name. -/
inductive Var where
  | bound (index : Nat)
  | free (name : Name)
  deriving DecidableEq

namespace Var

/-- The variable, as a term. -/
def toSynth (s : Span) : Var → Synth
  | bound i => .bound s i
  | free x => .free s x

/-- The same variable, seen from under one more binder. -/
def shift : Var → Var
  | bound i => bound (i + 1)
  | free x => free x

theorem alphaEq_toSynth {s s' : Span} : ∀ {a b : Var},
    (a.toSynth s).alphaEq (b.toSynth s') = decide (a = b)
  | bound _, bound _ => by
    simp only [toSynth, Synth.alphaEq, bound.injEq]
    rfl
  | bound _, free _ => by simp only [toSynth, Synth.alphaEq, reduceCtorEq, decide_false]
  | free _, bound _ => by simp only [toSynth, Synth.alphaEq, reduceCtorEq, decide_false]
  | free _, free _ => by
    simp only [toSynth, Synth.alphaEq, free.injEq]
    rfl

theorem shift_inj : ∀ {a b : Var}, a.shift = b.shift ↔ a = b
  | bound i, bound j => by simp only [shift, bound.injEq, Nat.add_right_cancel_iff]
  | bound _, free _ => by simp only [shift, reduceCtorEq]
  | free _, bound _ => by simp only [shift, reduceCtorEq]
  | free _, free _ => .rfl

theorem shift_ne_zero : ∀ {a : Var}, a.shift ≠ bound 0
  | bound i, h => by simp only [shift, bound.injEq, Nat.add_one_ne_zero] at h
  | free x, h => by simp only [shift, reduceCtorEq] at h

/-- Which variables correspond inside two binders. -/
inductive Inside (W : Var → Var → Prop) : Var → Var → Prop where
  | here : Inside W (bound 0) (bound 0)
  | there {a b : Var} : W a b → Inside W a.shift b.shift

/-- No variable corresponds to two. -/
def Matching (W : Var → Var → Prop) : Prop :=
  ∀ a b a' b', W a b → W a' b' → (a = a' ↔ b = b')

theorem Matching.inside {W : Var → Var → Prop} (hW : Matching W) : Matching (Inside W) := by
  intro a b a' b' h h'
  cases h with
  | here =>
    cases h' with
    | here => exact iff_of_true rfl rfl
    | there _ => exact iff_of_false shift_ne_zero.symm shift_ne_zero.symm
  | there h =>
    cases h' with
    | here => exact iff_of_false shift_ne_zero shift_ne_zero
    | there h' => exact shift_inj.trans ((hW _ _ _ _ h h').trans shift_inj.symm)

end Var

open Var (Inside Matching)

mutual

/-- The terms have the same shape and the same names of binders. The spans correspond along `S`, and the
variables along `W`. -/
inductive Synth.Along (S : Span → Span → Prop) : (Var → Var → Prop) → Synth → Synth → Prop where
  | var {W s s'} {a b : Var} : S s s' → W a b → Synth.Along S W (a.toSynth s) (b.toSynth s')
  | ann {W s s' e e' t t'} : S s s' → Check.Along S W e e' → Check.Along S W t t' →
      Synth.Along S W (.ann s e t) (.ann s' e' t')
  | star {W s s'} : S s s' → Synth.Along S W (.star s) (.star s')
  | pi {W s s' x d d' c c'} : S s s' → Check.Along S W d d' → Check.Along S (Inside W) c c' →
      Synth.Along S W (.pi s x d c) (.pi s' x d' c')
  | app {W s s' h h' a a'} : S s s' → Synth.Along S W h h' → Check.Along S W a a' →
      Synth.Along S W (.app s h a) (.app s' h' a')
  | nat {W s s'} : S s s' → Synth.Along S W (.nat s) (.nat s')
  | zero {W s s'} : S s s' → Synth.Along S W (.zero s) (.zero s')
  | succ {W s s' n n'} : S s s' → Check.Along S W n n' → Synth.Along S W (.succ s n) (.succ s' n')
  | natElim {W s s' m m' b b' t t' n n'} : S s s' → Check.Along S W m m' → Check.Along S W b b' →
      Check.Along S W t t' → Check.Along S W n n' →
      Synth.Along S W (.natElim s m b t n) (.natElim s' m' b' t' n')
  | vec {W s s' a a' n n'} : S s s' → Check.Along S W a a' → Check.Along S W n n' →
      Synth.Along S W (.vec s a n) (.vec s' a' n')
  | nil {W s s' a a'} : S s s' → Check.Along S W a a' → Synth.Along S W (.nil s a) (.nil s' a')
  | cons {W s s' a a' n n' x x' xs xs'} : S s s' → Check.Along S W a a' → Check.Along S W n n' →
      Check.Along S W x x' → Check.Along S W xs xs' →
      Synth.Along S W (.cons s a n x xs) (.cons s' a' n' x' xs')
  | vecElim {W s s' a a' m m' b b' t t' n n' xs xs'} : S s s' → Check.Along S W a a' →
      Check.Along S W m m' → Check.Along S W b b' → Check.Along S W t t' → Check.Along S W n n' →
      Check.Along S W xs xs' →
      Synth.Along S W (.vecElim s a m b t n xs) (.vecElim s' a' m' b' t' n' xs')

inductive Check.Along (S : Span → Span → Prop) : (Var → Var → Prop) → Check → Check → Prop where
  | synth {W t t'} : Synth.Along S W t t' → Check.Along S W (.synth t) (.synth t')
  | lam {W s s' x b b'} : S s s' → Check.Along S (Inside W) b b' →
      Check.Along S W (.lam s x b) (.lam s' x b')
  | ascribe {W s s' t t' e e'} : S s s' → Check.Along S W t t' → Check.Along S W e e' →
      Check.Along S W (.ascribe s t e) (.ascribe s' t' e')
  | sealed {W s s' e e'} : S s s' → Synth.Along S W e e' →
      Check.Along S W (.sealed s e) (.sealed s' e')

end

section Along

variable {S : Span → Span → Prop}

/-! ## A term along itself -/


theorem Var.Inside.lt_succ {W : Var → Var → Prop} {k : Nat}
    (hW : ∀ i < k, W (.bound i) (.bound i)) : ∀ i < k + 1, Inside W (.bound i) (.bound i)
  | 0, _ => .here
  | i + 1, hi => .there (hW i (Nat.lt_of_succ_lt_succ hi))

mutual

theorem Synth.Scoped.along (hS : ∀ s, S s s) {P : Name → Prop} : ∀ {t : Synth} {k : Nat}
    {W : Var → Var → Prop}, t.Scoped P k → (∀ i < k, W (.bound i) (.bound i)) →
    (∀ x, P x → W (.free x) (.free x)) → t.Along S W t
  | .ann s _ _, _, _, h, hb, hf =>
    .ann (hS s) (Check.Scoped.along hS h.1 hb hf) (Check.Scoped.along hS h.2 hb hf)
  | .star s, _, _, _, _, _ => .star (hS s)
  | .pi s _ _ _, _, _, h, hb, hf => .pi (hS s) (Check.Scoped.along hS h.1 hb hf)
      (Check.Scoped.along hS h.2 (Inside.lt_succ hb) fun x hx => .there (hf x hx))
  | .bound s i, _, _, h, hb, _ => .var (a := .bound i) (b := .bound i) (hS s) (hb i h)
  | .free s x, _, _, h, _, hf => .var (a := .free x) (b := .free x) (hS s) (hf x h)
  | .app s _ _, _, _, h, hb, hf =>
    .app (hS s) (Synth.Scoped.along hS h.1 hb hf) (Check.Scoped.along hS h.2 hb hf)
  | .nat s, _, _, _, _, _ => .nat (hS s)
  | .zero s, _, _, _, _, _ => .zero (hS s)
  | .succ s n, _, _, h, hb, hf => .succ (hS s) (Check.Scoped.along (t := n) hS h hb hf)
  | .natElim s _ _ _ _, _, _, h, hb, hf => .natElim (hS s) (Check.Scoped.along hS h.1 hb hf)
      (Check.Scoped.along hS h.2.1 hb hf) (Check.Scoped.along hS h.2.2.1 hb hf)
      (Check.Scoped.along hS h.2.2.2 hb hf)
  | .vec s _ _, _, _, h, hb, hf =>
    .vec (hS s) (Check.Scoped.along hS h.1 hb hf) (Check.Scoped.along hS h.2 hb hf)
  | .nil s a, _, _, h, hb, hf => .nil (hS s) (Check.Scoped.along (t := a) hS h hb hf)
  | .cons s _ _ _ _, _, _, h, hb, hf => .cons (hS s) (Check.Scoped.along hS h.1 hb hf)
      (Check.Scoped.along hS h.2.1 hb hf) (Check.Scoped.along hS h.2.2.1 hb hf)
      (Check.Scoped.along hS h.2.2.2 hb hf)
  | .vecElim s _ _ _ _ _ _, _, _, h, hb, hf => .vecElim (hS s) (Check.Scoped.along hS h.1 hb hf)
      (Check.Scoped.along hS h.2.1 hb hf) (Check.Scoped.along hS h.2.2.1 hb hf)
      (Check.Scoped.along hS h.2.2.2.1 hb hf) (Check.Scoped.along hS h.2.2.2.2.1 hb hf)
      (Check.Scoped.along hS h.2.2.2.2.2 hb hf)

theorem Check.Scoped.along (hS : ∀ s, S s s) {P : Name → Prop} : ∀ {t : Check} {k : Nat}
    {W : Var → Var → Prop}, t.Scoped P k → (∀ i < k, W (.bound i) (.bound i)) →
    (∀ x, P x → W (.free x) (.free x)) → t.Along S W t
  | .synth t, _, _, h, hb, hf => .synth (Synth.Scoped.along (t := t) hS h hb hf)
  | .lam s _ b, _, _, h, hb, hf => .lam (hS s)
      (Check.Scoped.along (t := b) hS h (Inside.lt_succ hb) fun x hx => .there (hf x hx))
  | .ascribe s _ _, _, _, h, hb, hf =>
    .ascribe (hS s) (Check.Scoped.along hS h.1 hb hf) (Check.Scoped.along hS h.2 hb hf)
  | .sealed s e, _, _, h, hb, hf => .sealed (hS s) (Synth.Scoped.along (t := e) hS h hb hf)

end

/-! ## Spans -/

theorem Synth.Along.span {W : Var → Var → Prop} {t t' : Synth} (h : t.Along S W t') :
    S t.span t'.span := by
  cases h with
  | @var _ s s' a b hs _ => cases a <;> cases b <;> exact hs
  | _ => assumption

theorem Check.Along.span {W : Var → Var → Prop} {t t' : Check} (h : t.Along S W t') :
    S t.span t'.span := by
  cases h with
  | synth h => exact h.span
  | _ => assumption

mutual

theorem Synth.Along.anySpan : ∀ {W : Var → Var → Prop} {t t' : Synth}, t.Along S W t' →
    t.Along Any W t'
  | _, _, _, .var _ h => .var trivial h
  | _, _, _, .ann _ he ht => .ann trivial he.anySpan ht.anySpan
  | _, _, _, .star _ => .star trivial
  | _, _, _, .pi _ hd hc => .pi trivial hd.anySpan hc.anySpan
  | _, _, _, .app _ hh ha => .app trivial hh.anySpan ha.anySpan
  | _, _, _, .nat _ => .nat trivial
  | _, _, _, .zero _ => .zero trivial
  | _, _, _, .succ _ hn => .succ trivial hn.anySpan
  | _, _, _, .natElim _ hm hb ht hn => .natElim trivial hm.anySpan hb.anySpan ht.anySpan hn.anySpan
  | _, _, _, .vec _ ha hn => .vec trivial ha.anySpan hn.anySpan
  | _, _, _, .nil _ ha => .nil trivial ha.anySpan
  | _, _, _, .cons _ ha hn hx hxs => .cons trivial ha.anySpan hn.anySpan hx.anySpan hxs.anySpan
  | _, _, _, .vecElim _ ha hm hb ht hn hxs => .vecElim trivial ha.anySpan hm.anySpan hb.anySpan
      ht.anySpan hn.anySpan hxs.anySpan

theorem Check.Along.anySpan : ∀ {W : Var → Var → Prop} {t t' : Check}, t.Along S W t' →
    t.Along Any W t'
  | _, _, _, .synth ht => .synth ht.anySpan
  | _, _, _, .lam _ hb => .lam trivial hb.anySpan
  | _, _, _, .ascribe _ ht he => .ascribe trivial ht.anySpan he.anySpan
  | _, _, _, .sealed _ he => .sealed trivial he.anySpan

end

/-! ## Equality -/

theorem Var.inside_eq : Inside Eq = Eq := by
  funext a b
  apply propext
  constructor
  · intro h
    cases h with
    | here => rfl
    | there h => rw [h]
  · rintro rfl
    cases a with
    | bound i =>
      cases i with
      | zero => exact .here
      | succ i => exact .there (a := .bound i) (b := .bound i) rfl
    | free x => exact .there (a := .free x) (b := .free x) rfl

mutual

theorem Synth.Along.eq : ∀ {t t' : Synth}, t.Along Eq Eq t' → t = t'
  | _, _, .var rfl rfl => rfl
  | _, _, .ann rfl he ht => by rw [he.eq, ht.eq]
  | _, _, .star rfl => rfl
  | _, _, .pi rfl hd hc => by
    rw [Var.inside_eq] at hc
    rw [hd.eq, hc.eq]
  | _, _, .app rfl hh ha => by rw [hh.eq, ha.eq]
  | _, _, .nat rfl => rfl
  | _, _, .zero rfl => rfl
  | _, _, .succ rfl hn => by rw [hn.eq]
  | _, _, .natElim rfl hm hb ht hn => by rw [hm.eq, hb.eq, ht.eq, hn.eq]
  | _, _, .vec rfl ha hn => by rw [ha.eq, hn.eq]
  | _, _, .nil rfl ha => by rw [ha.eq]
  | _, _, .cons rfl ha hn hx hxs => by rw [ha.eq, hn.eq, hx.eq, hxs.eq]
  | _, _, .vecElim rfl ha hm hb ht hn hxs => by
    rw [ha.eq, hm.eq, hb.eq, ht.eq, hn.eq, hxs.eq]

theorem Check.Along.eq : ∀ {t t' : Check}, t.Along Eq Eq t' → t = t'
  | _, _, .synth ht => by rw [ht.eq]
  | _, _, .lam rfl hb => by
    rw [Var.inside_eq] at hb
    rw [hb.eq]
  | _, _, .ascribe rfl ht he => by rw [ht.eq, he.eq]
  | _, _, .sealed rfl he => by rw [he.eq]

end

mutual

/-- Equality does not see which variables there are, only which are the same. -/
theorem Synth.Along.alphaEq_eq : ∀ {W : Var → Var → Prop} {t t' u u' : Synth}, Matching W →
    t.Along S W u → t'.Along S W u' → t.alphaEq t' = u.alphaEq u'
  | _, _, _, _, _, hW, @Synth.Along.var _ _ _ _ a b _ h, h' => by
    cases h' with
    | @var _ _ _ a' b' _ h' =>
      rw [Var.alphaEq_toSynth, Var.alphaEq_toSynth]
      exact decide_eq_decide.mpr (hW a b a' b' h h')
    | _ => cases a <;> cases b <;> exact rfl
  | _, _, _, _, _, hW, .ann _ he ht, h' => by
    cases h' with
    | ann _ he' ht' =>
      simp only [Synth.alphaEq, he.alphaEq_eq hW he', ht.alphaEq_eq hW ht']
    | @var _ _ _ a b => cases a <;> cases b <;> exact rfl
    | _ => exact rfl
  | _, _, _, _, _, _, .star _, h' => by
    cases h' with
    | star _ => rfl
    | @var _ _ _ a b => cases a <;> cases b <;> exact rfl
    | _ => exact rfl
  | _, _, _, _, _, hW, .pi _ hd hc, h' => by
    cases h' with
    | pi _ hd' hc' =>
      simp only [Synth.alphaEq, hd.alphaEq_eq hW hd', hc.alphaEq_eq hW.inside hc']
    | @var _ _ _ a b => cases a <;> cases b <;> exact rfl
    | _ => exact rfl
  | _, _, _, _, _, hW, .app _ hh ha, h' => by
    cases h' with
    | app _ hh' ha' =>
      simp only [Synth.alphaEq, hh.alphaEq_eq hW hh', ha.alphaEq_eq hW ha']
    | @var _ _ _ a b => cases a <;> cases b <;> exact rfl
    | _ => exact rfl
  | _, _, _, _, _, _, .nat _, h' => by
    cases h' with
    | nat _ => rfl
    | @var _ _ _ a b => cases a <;> cases b <;> exact rfl
    | _ => exact rfl
  | _, _, _, _, _, _, .zero _, h' => by
    cases h' with
    | zero _ => rfl
    | @var _ _ _ a b => cases a <;> cases b <;> exact rfl
    | _ => exact rfl
  | _, _, _, _, _, hW, .succ _ hn, h' => by
    cases h' with
    | succ _ hn' => exact hn.alphaEq_eq hW hn'
    | @var _ _ _ a b => cases a <;> cases b <;> exact rfl
    | _ => exact rfl
  | _, _, _, _, _, hW, .natElim _ hm hb ht hn, h' => by
    cases h' with
    | natElim _ hm' hb' ht' hn' =>
      simp only [Synth.alphaEq, hm.alphaEq_eq hW hm', hb.alphaEq_eq hW hb', ht.alphaEq_eq hW ht',
        hn.alphaEq_eq hW hn']
    | @var _ _ _ a b => cases a <;> cases b <;> exact rfl
    | _ => exact rfl
  | _, _, _, _, _, hW, .vec _ ha hn, h' => by
    cases h' with
    | vec _ ha' hn' =>
      simp only [Synth.alphaEq, ha.alphaEq_eq hW ha', hn.alphaEq_eq hW hn']
    | @var _ _ _ a b => cases a <;> cases b <;> exact rfl
    | _ => exact rfl
  | _, _, _, _, _, hW, .nil _ ha, h' => by
    cases h' with
    | nil _ ha' => exact ha.alphaEq_eq hW ha'
    | @var _ _ _ a b => cases a <;> cases b <;> exact rfl
    | _ => exact rfl
  | _, _, _, _, _, hW, .cons _ ha hn hx hxs, h' => by
    cases h' with
    | cons _ ha' hn' hx' hxs' =>
      simp only [Synth.alphaEq, ha.alphaEq_eq hW ha', hn.alphaEq_eq hW hn', hx.alphaEq_eq hW hx',
        hxs.alphaEq_eq hW hxs']
    | @var _ _ _ a b => cases a <;> cases b <;> exact rfl
    | _ => exact rfl
  | _, _, _, _, _, hW, .vecElim _ ha hm hb ht hn hxs, h' => by
    cases h' with
    | vecElim _ ha' hm' hb' ht' hn' hxs' =>
      simp only [Synth.alphaEq, ha.alphaEq_eq hW ha', hm.alphaEq_eq hW hm', hb.alphaEq_eq hW hb',
        ht.alphaEq_eq hW ht', hn.alphaEq_eq hW hn', hxs.alphaEq_eq hW hxs']
    | @var _ _ _ a b => cases a <;> cases b <;> exact rfl
    | _ => exact rfl

theorem Check.Along.alphaEq_eq : ∀ {W : Var → Var → Prop} {t t' u u' : Check}, Matching W →
    t.Along S W u → t'.Along S W u' → t.alphaEq t' = u.alphaEq u'
  | _, _, _, _, _, hW, .synth ht, h' => by
    cases h' with
    | synth ht' => exact ht.alphaEq_eq hW ht'
    | _ => exact rfl
  | _, _, _, _, _, hW, .lam _ hb, h' => by
    cases h' with
    | lam _ hb' => simp only [Check.alphaEq, hb.alphaEq_eq hW.inside hb']
    | _ => exact rfl
  | _, _, _, _, _, hW, .ascribe _ ht he, h' => by
    cases h' with
    | ascribe _ ht' he' => simp only [Check.alphaEq, ht.alphaEq_eq hW ht', he.alphaEq_eq hW he']
    | _ => exact rfl
  | _, _, _, _, _, hW, .sealed _ he, h' => by
    cases h' with
    | sealed _ he' => exact he.alphaEq_eq hW he'
    | _ => exact rfl

end

end Along

/-! ## Other hypotheses -/

/-- The hypotheses are renamed by `f`. -/
inductive Var.Renamed (f : Nat → Nat) : Var → Var → Prop where
  | bound (i : Nat) : Renamed f (.bound i) (.bound i)
  | global (x : String) : Renamed f (.free (.global x)) (.free (.global x))
  | hyp (l : Nat) : Renamed f (.free (.hyp l)) (.free (.hyp (f l)))

section Renamed

variable {f : Nat → Nat}

theorem Var.inside_renamed : Inside (Renamed f) = Renamed f := by
  funext a b
  apply propext
  constructor
  · intro h
    cases h with
    | here => exact .bound 0
    | there h =>
      cases h with
      | bound i => exact .bound (i + 1)
      | global x => exact .global x
      | hyp l => exact .hyp l
  · intro h
    cases h with
    | bound i =>
      cases i with
      | zero => exact .here
      | succ i => exact .there (Renamed.bound i)
    | global x => exact .there (Renamed.global x)
    | hyp l => exact .there (Renamed.hyp l)

theorem Var.matching_renamed (hf : ∀ l k, f l = f k → l = k) : Matching (Renamed f) := by
  intro a b a' b' h h'
  cases h with
  | bound i =>
    cases h' with
    | bound j => exact .rfl
    | _ => exact iff_of_false (by simp) (by simp)
  | global x =>
    cases h' with
    | global y => exact .rfl
    | _ => exact iff_of_false (by simp) (by simp)
  | hyp l =>
    cases h' with
    | hyp k =>
      simp only [free.injEq, Name.hyp.injEq]
      exact ⟨congrArg f, hf l k⟩
    | _ => exact iff_of_false (by simp) (by simp)

variable {S : Span → Span → Prop} {s s' : Span} {x x' : Name}

theorem Check.along_inside {t t' : Check} :
    t.Along S (Inside (Var.Renamed f)) t' ↔ t.Along S (Var.Renamed f) t' := by
  rw [Var.inside_renamed]

mutual

theorem Synth.Along.subst (hs : S s s') (hr : Var.Renamed f (.free x) (.free x')) :
    ∀ {t t' : Synth} (i : Nat), t.Along S (Var.Renamed f) t' →
      (t.subst i (.free s x)).Along S (Var.Renamed f) (t'.subst i (.free s' x'))
  | _, _, i, .var hs₀ (.bound j) => by
    simp only [Var.toSynth, Synth.subst]
    split
    · exact .var hs hr
    · exact .var hs₀ (Var.Renamed.bound j)
  | _, _, i, .var hs₀ (.global y) => .var hs₀ (Var.Renamed.global y)
  | _, _, i, .var hs₀ (.hyp l) => .var hs₀ (Var.Renamed.hyp l)
  | _, _, i, .ann hs₀ he ht => .ann hs₀ (Check.Along.subst hs hr i he) (Check.Along.subst hs hr i ht)
  | _, _, i, .star hs₀ => .star hs₀
  | _, _, i, .pi hs₀ hd hc => .pi hs₀ (Check.Along.subst hs hr i hd)
      (Check.along_inside.mpr (Check.Along.subst hs hr (i + 1) (Check.along_inside.mp hc)))
  | _, _, i, .app hs₀ hh ha => .app hs₀ (Synth.Along.subst hs hr i hh) (Check.Along.subst hs hr i ha)
  | _, _, i, .nat hs₀ => .nat hs₀
  | _, _, i, .zero hs₀ => .zero hs₀
  | _, _, i, .succ hs₀ hn => .succ hs₀ (Check.Along.subst hs hr i hn)
  | _, _, i, .natElim hs₀ hm hb ht hn => .natElim hs₀ (Check.Along.subst hs hr i hm)
      (Check.Along.subst hs hr i hb) (Check.Along.subst hs hr i ht) (Check.Along.subst hs hr i hn)
  | _, _, i, .vec hs₀ ha hn => .vec hs₀ (Check.Along.subst hs hr i ha) (Check.Along.subst hs hr i hn)
  | _, _, i, .nil hs₀ ha => .nil hs₀ (Check.Along.subst hs hr i ha)
  | _, _, i, .cons hs₀ ha hn hx hxs => .cons hs₀ (Check.Along.subst hs hr i ha)
      (Check.Along.subst hs hr i hn) (Check.Along.subst hs hr i hx) (Check.Along.subst hs hr i hxs)
  | _, _, i, .vecElim hs₀ ha hm hb ht hn hxs => .vecElim hs₀ (Check.Along.subst hs hr i ha)
      (Check.Along.subst hs hr i hm) (Check.Along.subst hs hr i hb) (Check.Along.subst hs hr i ht)
      (Check.Along.subst hs hr i hn) (Check.Along.subst hs hr i hxs)

theorem Check.Along.subst (hs : S s s') (hr : Var.Renamed f (.free x) (.free x')) :
    ∀ {t t' : Check} (i : Nat), t.Along S (Var.Renamed f) t' →
      (t.subst i (.free s x)).Along S (Var.Renamed f) (t'.subst i (.free s' x'))
  | _, _, i, .synth ht => .synth (Synth.Along.subst hs hr i ht)
  | _, _, i, .lam hs₀ hb =>
    .lam hs₀ (Check.along_inside.mpr (Check.Along.subst hs hr (i + 1) (Check.along_inside.mp hb)))
  | _, _, i, .ascribe hs₀ ht he =>
    .ascribe hs₀ (Check.Along.subst hs hr i ht) (Check.Along.subst hs hr i he)
  | _, _, i, .sealed hs₀ he => .sealed hs₀ (Synth.Along.subst hs hr i he)

end

end Renamed

/-! ## A name in place of an index -/

/-- The name `r` has replaced the index `i`. -/
inductive Var.Replaced (r : Name) (i : Nat) : Var → Var → Prop where
  | here : Replaced r i (.free r) (.bound i)
  | bound {j : Nat} : j ≠ i → Replaced r i (.bound j) (.bound j)
  | free {x : Name} : Replaced r i (.free x) (.free x)

theorem Var.inside_replaced {r : Name} {i : Nat} : Inside (Replaced r i) = Replaced r (i + 1) := by
  funext a b
  apply propext
  constructor
  · intro h
    cases h with
    | here => exact .bound (Nat.succ_ne_zero i).symm
    | there h =>
      cases h with
      | here => exact .here
      | bound hj => exact .bound fun h => hj (Nat.succ.inj h)
      | free => exact .free
  · intro h
    cases h with
    | here => exact .there (a := .free r) (b := .bound i) .here
    | @bound j hj =>
      cases j with
      | zero => exact .here
      | succ j =>
        exact .there (a := .bound j) (b := .bound j) (.bound fun h => hj (congrArg Nat.succ h))
    | @free x => exact .there (a := .free x) (b := .free x) .free

mutual

theorem Synth.subst_along (s : Span) (r : Name) : ∀ (t : Synth) (i : Nat),
    (t.subst i (.free s r)).Along Any (Var.Replaced r i) t
  | .ann _ e t, i => .ann trivial (Check.subst_along s r e i) (Check.subst_along s r t i)
  | .star _, _ => .star trivial
  | .pi _ _ d c, i => by
    have hc := Check.subst_along s r c (i + 1)
    rw [← Var.inside_replaced] at hc
    exact .pi trivial (Check.subst_along s r d i) hc
  | .bound _ j, i => by
    simp only [Synth.subst]
    split
    case isTrue h =>
      subst h
      exact .var (a := .free r) (b := .bound j) trivial .here
    case isFalse h => exact .var (a := .bound j) (b := .bound j) trivial (.bound h)
  | .free _ x, _ => .var (a := .free x) (b := .free x) trivial .free
  | .app _ h a, i => .app trivial (Synth.subst_along s r h i) (Check.subst_along s r a i)
  | .nat _, _ => .nat trivial
  | .zero _, _ => .zero trivial
  | .succ _ n, i => .succ trivial (Check.subst_along s r n i)
  | .natElim _ m b t n, i => .natElim trivial (Check.subst_along s r m i)
      (Check.subst_along s r b i) (Check.subst_along s r t i) (Check.subst_along s r n i)
  | .vec _ a n, i => .vec trivial (Check.subst_along s r a i) (Check.subst_along s r n i)
  | .nil _ a, i => .nil trivial (Check.subst_along s r a i)
  | .cons _ a n x xs, i => .cons trivial (Check.subst_along s r a i) (Check.subst_along s r n i)
      (Check.subst_along s r x i) (Check.subst_along s r xs i)
  | .vecElim _ a m b t n xs, i => .vecElim trivial (Check.subst_along s r a i)
      (Check.subst_along s r m i) (Check.subst_along s r b i) (Check.subst_along s r t i)
      (Check.subst_along s r n i) (Check.subst_along s r xs i)

theorem Check.subst_along (s : Span) (r : Name) : ∀ (t : Check) (i : Nat),
    (t.subst i (.free s r)).Along Any (Var.Replaced r i) t
  | .synth t, i => .synth (Synth.subst_along s r t i)
  | .lam _ _ b, i => by
    have hb := Check.subst_along s r b (i + 1)
    rw [← Var.inside_replaced] at hb
    exact .lam trivial hb
  | .ascribe _ t e, i => .ascribe trivial (Check.subst_along s r t i) (Check.subst_along s r e i)
  | .sealed _ e, i => .sealed trivial (Synth.subst_along s r e i)

end

/-! ## An index in place of a name -/

mutual

/-- Put the variable of a binder in place of a name. The index is `k` at the root of the term. -/
def Synth.abstract (y : Name) (k : Nat) : Synth → Synth
  | .ann s e t => .ann s (e.abstract y k) (t.abstract y k)
  | .star s => .star s
  | .pi s x d c => .pi s x (d.abstract y k) (c.abstract y (k + 1))
  | .bound s i => .bound s i
  | .free s x => if x = y then .bound s k else .free s x
  | .app s h a => .app s (h.abstract y k) (a.abstract y k)
  | .nat s => .nat s
  | .zero s => .zero s
  | .succ s n => .succ s (n.abstract y k)
  | .natElim s m b t n =>
    .natElim s (m.abstract y k) (b.abstract y k) (t.abstract y k) (n.abstract y k)
  | .vec s a n => .vec s (a.abstract y k) (n.abstract y k)
  | .nil s a => .nil s (a.abstract y k)
  | .cons s a n x xs =>
    .cons s (a.abstract y k) (n.abstract y k) (x.abstract y k) (xs.abstract y k)
  | .vecElim s a m b t n xs => .vecElim s (a.abstract y k) (m.abstract y k) (b.abstract y k)
      (t.abstract y k) (n.abstract y k) (xs.abstract y k)

/-- Put the variable of a binder in place of a name. The index is `k` at the root of the term. -/
def Check.abstract (y : Name) (k : Nat) : Check → Check
  | .synth t => .synth (t.abstract y k)
  | .lam s x b => .lam s x (b.abstract y (k + 1))
  | .ascribe s t e => .ascribe s (t.abstract y k) (e.abstract y k)
  | .sealed s e => .sealed s (e.abstract y k)

end

/-- The index `k` has replaced the name `y`, and smaller indices are bound in the term. -/
inductive Var.Abstracted (y : Name) (k : Nat) : Var → Var → Prop where
  | here : Abstracted y k (.free y) (.bound k)
  | bound {i : Nat} : i < k → Abstracted y k (.bound i) (.bound i)
  | free {x : Name} : x ≠ y → Abstracted y k (.free x) (.free x)

theorem Var.matching_abstracted {y : Name} {k : Nat} : Matching (Abstracted y k) := by
  intro a b a' b' h h'
  cases h with
  | here =>
    cases h' with
    | here => exact iff_of_true rfl rfl
    | bound hi => exact iff_of_false (by simp) (by simp [(Nat.ne_of_lt hi).symm])
    | free hx => exact iff_of_false (by simp [hx.symm]) (by simp)
  | bound hi =>
    cases h' with
    | here => exact iff_of_false (by simp) (by simp [Nat.ne_of_lt hi])
    | bound _ => exact .rfl
    | free _ => exact iff_of_false (by simp) (by simp)
  | free hx =>
    cases h' with
    | here => exact iff_of_false (by simp [hx]) (by simp)
    | bound _ => exact iff_of_false (by simp) (by simp)
    | free _ => exact .rfl

theorem Var.inside_abstracted {y : Name} {k : Nat} :
    Inside (Abstracted y k) = Abstracted y (k + 1) := by
  funext a b
  apply propext
  constructor
  · intro h
    cases h with
    | here => exact .bound (Nat.succ_pos k)
    | there h =>
      cases h with
      | here => exact .here
      | bound hi => exact .bound (Nat.succ_lt_succ hi)
      | free hx => exact .free hx
  · intro h
    cases h with
    | here => exact .there (a := .free y) (b := .bound k) .here
    | @bound i hi =>
      cases i with
      | zero => exact .here
      | succ i =>
        exact .there (a := .bound i) (b := .bound i) (.bound (Nat.lt_of_succ_lt_succ hi))
    | @free x hx => exact .there (a := .free x) (b := .free x) (.free hx)

section Abstract

variable {y : Name}

mutual

theorem Synth.Along.eq_abstract : ∀ {k : Nat} {t t' : Synth},
    t.Along Eq (Var.Abstracted y k) t' → t.abstract y k = t'
  | _, _, _, .var rfl h => by
    cases h with
    | here => exact if_pos rfl
    | bound _ => rfl
    | free hx => exact if_neg hx
  | _, _, _, .ann rfl he ht => by rw [Synth.abstract, he.eq_abstract, ht.eq_abstract]
  | _, _, _, .star rfl => rfl
  | _, _, _, .pi rfl hd hc => by
    rw [Var.inside_abstracted] at hc
    rw [Synth.abstract, hd.eq_abstract, hc.eq_abstract]
  | _, _, _, .app rfl hh ha => by rw [Synth.abstract, hh.eq_abstract, ha.eq_abstract]
  | _, _, _, .nat rfl => rfl
  | _, _, _, .zero rfl => rfl
  | _, _, _, .succ rfl hn => by rw [Synth.abstract, hn.eq_abstract]
  | _, _, _, .natElim rfl hm hb ht hn => by
    rw [Synth.abstract, hm.eq_abstract, hb.eq_abstract, ht.eq_abstract, hn.eq_abstract]
  | _, _, _, .vec rfl ha hn => by rw [Synth.abstract, ha.eq_abstract, hn.eq_abstract]
  | _, _, _, .nil rfl ha => by rw [Synth.abstract, ha.eq_abstract]
  | _, _, _, .cons rfl ha hn hx hxs => by
    rw [Synth.abstract, ha.eq_abstract, hn.eq_abstract, hx.eq_abstract, hxs.eq_abstract]
  | _, _, _, .vecElim rfl ha hm hb ht hn hxs => by
    rw [Synth.abstract, ha.eq_abstract, hm.eq_abstract, hb.eq_abstract, ht.eq_abstract,
      hn.eq_abstract, hxs.eq_abstract]

theorem Check.Along.eq_abstract : ∀ {k : Nat} {t t' : Check},
    t.Along Eq (Var.Abstracted y k) t' → t.abstract y k = t'
  | _, _, _, .synth ht => by rw [Check.abstract, ht.eq_abstract]
  | _, _, _, .lam rfl hb => by
    rw [Var.inside_abstracted] at hb
    rw [Check.abstract, hb.eq_abstract]
  | _, _, _, .ascribe rfl ht he => by rw [Check.abstract, ht.eq_abstract, he.eq_abstract]
  | _, _, _, .sealed rfl he => by rw [Check.abstract, he.eq_abstract]

end

end Abstract

end TypeInType
