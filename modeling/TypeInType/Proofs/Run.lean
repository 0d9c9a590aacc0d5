import Mathlib.Data.List.Forall2
import TypeInType.Run

/-!
# How computations end

What can be said of a computation that may stop: that it has a result, that it ends well, and that
more fuel does not change how it ends.
-/

namespace TypeInType

namespace Run

variable {ε ε' α β : Type}

/-! ## Results -/

theorem bind_eq_ok {x : Run ε α} {f : α → Run ε β} {b : β} :
    (x >>= f) = .ok b ↔ ∃ a, x = .ok a ∧ f a = .ok b := by
  cases x with
  | error h => exact ⟨fun h => (by cases h), fun ⟨_, h, _⟩ => (by cases h)⟩
  | ok a =>
    refine ⟨fun h => ⟨a, rfl, h⟩, ?_⟩
    rintro ⟨a', h, hb⟩
    cases h
    exact hb

theorem pure_eq_ok {a b : α} : (pure a : Run ε α) = .ok b ↔ a = b :=
  ⟨fun h => (by cases h; rfl), fun h => (by rw [h]; rfl)⟩

theorem widen_eq_ok {x : Run Empty α} {a : α} : (x.widen : Run ε α) = .ok a ↔ x = .ok a := by
  match x with
  | .ok _ => simp only [widen, Except.ok.injEq]
  | .error (.fault _) => simp only [widen, reduceCtorEq]
  | .error .outOfFuel => simp only [widen, reduceCtorEq]

theorem mapRefused_eq_ok {g : ε → ε'} {x : Run ε α} {a : α} :
    x.mapRefused g = .ok a ↔ x = .ok a := by
  cases x with
  | ok _ => simp only [mapRefused, Except.ok.injEq]
  | error _ => simp only [mapRefused, reduceCtorEq]

theorem ofExcept_eq_ok {x : Except ε α} {a : α} : ofExcept x = .ok a ↔ x = .ok a := by
  cases x with
  | ok _ => simp only [ofExcept, Except.ok.injEq]
  | error _ => simp only [ofExcept, refuse, reduceCtorEq]

theorem ofExcept_eq_refused {x : Except ε α} {e : ε} :
    ofExcept x = .error (.refused e) ↔ x = .error e := by
  cases x with
  | ok _ => simp only [ofExcept, reduceCtorEq]
  | error _ => simp only [ofExcept, refuse, Except.error.injEq, Halt.refused.injEq]

theorem mapM_eq_ok {f : α → Run ε β} : ∀ {xs : List α} {ys : List β},
    xs.mapM f = .ok ys ↔ List.Forall₂ (fun x y => f x = .ok y) xs ys
  | [], ys => by
    rw [List.mapM_nil, pure_eq_ok, List.forall₂_nil_left_iff, eq_comm]
  | x :: xs, ys => by
    simp only [List.mapM_cons, bind_eq_ok, pure_eq_ok, mapM_eq_ok, List.forall₂_cons_left_iff]
    constructor
    · rintro ⟨y, hy, ys', hys, rfl⟩
      exact ⟨y, ys', hy, hys, rfl⟩
    · rintro ⟨y, ys', hy, hys, rfl⟩
      exact ⟨y, hy, ys', hys, rfl⟩

theorem mapM_congr {α' : Type} {R : α → α' → Prop} {f : α → Run ε β} {f' : α' → Run ε β}
    {xs : List α} {xs' : List α'} (h : List.Forall₂ R xs xs') (hf : ∀ x x', R x x' → f x = f' x') :
    xs.mapM f = xs'.mapM f' := by
  induction h with
  | nil => rfl
  | cons hx _ ih => rw [List.mapM_cons, List.mapM_cons, hf _ _ hx, ih]

theorem widen_bind (x : Run Empty α) (f : α → Run Empty β) :
    ((x >>= f).widen : Run ε β) = x.widen >>= fun a => (f a).widen := by
  match x with
  | .ok _ => rfl
  | .error (.fault _) => rfl
  | .error .outOfFuel => rfl

/-! ## Ends -/

/-- The computation does not stop at a broken invariant. -/
def NoFault (x : Run ε α) : Prop :=
  ∀ f, x ≠ .error (.fault f)

/-- The computation ends with a result or with an error that it reports. -/
def Terminates (x : Run ε α) : Prop :=
  x ≠ .error .outOfFuel ∧ x.NoFault

/-- The computation does not fault, its result satisfies `Q`, and the error that it reports
satisfies `E`. It may use up its fuel. -/
def Ends (E : ε → Prop) (Q : α → Prop) : Run ε α → Prop
  | .ok a => Q a
  | .error (.refused e) => E e
  | .error (.fault _) => False
  | .error .outOfFuel => True

variable {E : ε → Prop} {Q R : α → Prop}

theorem Ends.of_eq {x : Run ε α} {a : α} (h : x.Ends E Q) (hx : x = .ok a) : Q a := by
  subst hx
  exact h

theorem Ends.noFault {x : Run ε α} (h : x.Ends E Q) : x.NoFault := by
  rintro f rfl
  exact h

/-- A computation that neither faults nor reports has a result, unless its fuel is used up. -/
theorem Ends.ok_or_outOfFuel {x : Run ε α} (h : x.Ends (fun _ => False) Q) :
    (∃ a, x = .ok a) ∨ x = .error .outOfFuel := by
  match x, h with
  | .ok a, _ => exact .inl ⟨a, rfl⟩
  | .error .outOfFuel, _ => exact .inr rfl

theorem Ends.mono {x : Run ε α} (h : x.Ends E Q) (hR : ∀ a, x = .ok a → Q a → R a) :
    x.Ends E R := by
  match x, h with
  | .ok a, h => exact hR a rfl h
  | .error (.refused _), h => exact h
  | .error .outOfFuel, _ => trivial

theorem Ends.pure {a : α} (h : Q a) : Ends E Q (pure a : Run ε α) := h

theorem Ends.bind {x : Run ε α} {f : α → Run ε β} {S : β → Prop} (h : x.Ends E Q)
    (hf : ∀ a, x = .ok a → Q a → (f a).Ends E S) : (x >>= f).Ends E S := by
  match x, h with
  | .ok a, h => exact hf a rfl h
  | .error (.refused _), h => exact h
  | .error .outOfFuel, _ => trivial

theorem Ends.widen {F : Empty → Prop} {x : Run Empty α} (h : x.Ends F Q) :
    (x.widen : Run ε α).Ends E Q := by
  match x, h with
  | .ok _, h => exact h
  | .error .outOfFuel, _ => trivial

theorem Ends.mapRefused {F : ε' → Prop} {g : ε → ε'} {x : Run ε α} (h : x.Ends E Q)
    (hg : ∀ e, E e → F (g e)) : (x.mapRefused g).Ends F Q := by
  match x, h with
  | .ok _, h => exact h
  | .error (.refused e), h => exact hg e h
  | .error .outOfFuel, _ => trivial

theorem Ends.mapM {f : α → Run ε β} {S : β → Prop} :
    ∀ {xs : List α}, (∀ a ∈ xs, (f a).Ends E S) → (xs.mapM f).Ends E fun ys => ∀ b ∈ ys, S b
  | [], _ => by
    rw [List.mapM_nil]
    exact Ends.pure fun b hb => nomatch hb
  | a :: xs, h => by
    rw [List.mapM_cons]
    refine (h a List.mem_cons_self).bind fun b _ hb => ?_
    refine (Ends.mapM fun a' ha' => h a' (List.mem_cons_of_mem a ha')).bind fun bs _ hbs => ?_
    exact Ends.pure fun b' hb' => by
      rcases List.mem_cons.mp hb' with rfl | hb'
      · exact hb
      · exact hbs b' hb'

/-- The result of the computation satisfies `Q`, and the error that it reports satisfies `E`, if there
is either. -/
def Answers (E : ε → Prop) (Q : α → Prop) : Run ε α → Prop
  | .ok a => Q a
  | .error (.refused e) => E e
  | .error (.fault _) => True
  | .error .outOfFuel => True

theorem Answers.bind {x : Run ε α} {f : α → Run ε β} {S : β → Prop} (h : x.Answers E Q)
    (hf : ∀ a, x = .ok a → Q a → (f a).Answers E S) : (x >>= f).Answers E S := by
  match x, h with
  | .ok a, h => exact hf a rfl h
  | .error (.refused _), h => exact h
  | .error (.fault _), _ => trivial
  | .error .outOfFuel, _ => trivial

/-- A computation that reports nothing comes first. -/
theorem Answers.widen_bind {x : Run Empty α} {f : α → Run ε β} {S : β → Prop}
    (hf : ∀ a, (f a).Answers E S) : ((x.widen : Run ε α) >>= f).Answers E S := by
  match x with
  | .ok a => exact hf a
  | .error (.fault _) => trivial
  | .error .outOfFuel => trivial

theorem answers_widen {x : Run Empty α} : (x.widen : Run ε α).Answers E fun _ => True := by
  match x with
  | .ok _ => trivial
  | .error (.fault _) => trivial
  | .error .outOfFuel => trivial

/-- If the computation stops at a fault, the fault satisfies `F`. -/
def FaultsIn (F : Fault → Prop) : Run ε α → Prop
  | .error (.fault f) => F f
  | _ => True

theorem NoFault.faultsIn {F : Fault → Prop} {x : Run ε α} (h : x.NoFault) : x.FaultsIn F := by
  match x with
  | .ok _ => trivial
  | .error (.refused _) => trivial
  | .error (.fault f) => exact absurd rfl (h f)
  | .error .outOfFuel => trivial

theorem FaultsIn.of_eq {F : Fault → Prop} {x : Run ε α} {f : Fault} (h : x.FaultsIn F)
    (hx : x = .error (.fault f)) : F f := by
  subst hx
  exact h

theorem FaultsIn.bind {F : Fault → Prop} {x : Run ε α} {f : α → Run ε β} (h : x.FaultsIn F)
    (hf : ∀ a, x = .ok a → (f a).FaultsIn F) : (x >>= f).FaultsIn F := by
  match x, h with
  | .ok a, _ => exact hf a rfl
  | .error (.refused _), _ => trivial
  | .error (.fault _), h => exact h
  | .error .outOfFuel, _ => trivial

/-! ## Fuel -/

/-- The first computation has used up its fuel, or is the second. -/
def Le (x y : Run ε α) : Prop :=
  x = .error .outOfFuel ∨ x = y

theorem Le.refl (x : Run ε α) : x.Le x := .inr rfl

theorem Le.trans {x y z : Run ε α} : x.Le y → y.Le z → x.Le z
  | .inl h, _ => .inl h
  | .inr h, h' => h ▸ h'

theorem Le.bind {x y : Run ε α} {f g : α → Run ε β} (h : x.Le y) (hf : ∀ a, (f a).Le (g a)) :
    (x >>= f).Le (y >>= g) := by
  rcases h with rfl | rfl
  · exact .inl rfl
  · cases x with
    | error _ => exact .refl _
    | ok a => exact hf a

theorem Le.widen {x y : Run Empty α} (h : x.Le y) : (x.widen : Run ε α).Le y.widen := by
  rcases h with rfl | rfl
  · exact .inl rfl
  · exact .refl _

theorem Le.eq_ok {x y : Run ε α} {a : α} : x.Le y → x = .ok a → y = .ok a
  | .inl h, hx => by rw [h] at hx; cases hx
  | .inr h, hx => h ▸ hx

/-- What one more unit of fuel does not change, no amount changes. -/
theorem Le.of_succ {f : Nat → Run ε α} (h : ∀ n, (f n).Le (f (n + 1))) {n m : Nat} (hnm : n ≤ m) :
    (f n).Le (f m) := by
  induction hnm with
  | refl => exact .refl _
  | step _ ih => exact ih.trans (h _)

/-- With enough fuel, the computation ends with the result `a`. -/
def Settles (f : Nat → Run ε α) (a : α) : Prop :=
  ∃ n, ∀ fuel, n ≤ fuel → f fuel = .ok a

theorem Settles.pure (a : α) : Settles (fun _ => (pure a : Run ε α)) a :=
  ⟨0, fun _ _ => rfl⟩

theorem Settles.bind {f : Nat → Run ε α} {g : Nat → α → Run ε β} {a : α} {b : β} :
    Settles f a → Settles (fun fuel => g fuel a) b → Settles (fun fuel => f fuel >>= g fuel) b
  | ⟨n, hf⟩, ⟨m, hg⟩ => by
    refine ⟨max n m, fun fuel h => ?_⟩
    show f fuel >>= g fuel = .ok b
    rw [hf fuel (by omega)]
    exact hg fuel (by omega)

/-- A call that spends one unit of fuel. -/
theorem Settles.succ {f : Nat → Run ε α} {a : α} :
    Settles (fun fuel => f (fuel + 1)) a → Settles f a
  | ⟨n, h⟩ => by
    refine ⟨n + 1, fun fuel hfuel => ?_⟩
    obtain ⟨fuel, rfl⟩ := Nat.exists_eq_add_of_le' hfuel
    exact h (fuel + n) (by omega)

/-- A result on some amount of fuel is a result on all larger ones. -/
theorem Settles.of_eq {f : Nat → Run ε α} (h : ∀ n, (f n).Le (f (n + 1))) {n : Nat} {a : α}
    (ha : f n = .ok a) : Settles f a :=
  ⟨n, fun _ hfuel => (Le.of_succ h hfuel).eq_ok ha⟩

theorem Settles.widen {f : Nat → Run Empty α} {a : α} :
    Settles f a → Settles (fun fuel => ((f fuel).widen : Run ε α)) a
  | ⟨n, h⟩ => ⟨n, fun fuel hfuel => widen_eq_ok.mpr (h fuel hfuel)⟩

/-- With enough fuel, the computation ends with the error `e`. -/
def Refuses (f : Nat → Run ε α) (e : ε) : Prop :=
  ∃ n, ∀ fuel, n ≤ fuel → f fuel = .error (.refused e)

theorem Refuses.of_eq {f : Nat → Run ε α} (h : ∀ n, (f n).Le (f (n + 1))) {n : Nat} {e : ε}
    (he : f n = .error (.refused e)) : Refuses f e := by
  refine ⟨n, fun fuel hfuel => ?_⟩
  rcases Le.of_succ h hfuel with hn | hn
  · rw [he] at hn
    cases hn
  · rw [← hn, he]

theorem Settles.refuses {f : Nat → Run ε α} {g : Nat → α → Run ε β} {a : α} {e : ε} :
    Settles f a → Refuses (fun fuel => g fuel a) e → Refuses (fun fuel => f fuel >>= g fuel) e
  | ⟨n, hf⟩, ⟨m, hg⟩ => by
    refine ⟨max n m, fun fuel h => ?_⟩
    show f fuel >>= g fuel = .error (.refused e)
    rw [hf fuel (by omega)]
    exact hg fuel (by omega)

theorem Refuses.bind {f : Nat → Run ε α} (g : Nat → α → Run ε β) {e : ε} :
    Refuses f e → Refuses (fun fuel => f fuel >>= g fuel) e
  | ⟨n, hf⟩ => by
    refine ⟨n, fun fuel h => ?_⟩
    show f fuel >>= g fuel = .error (.refused e)
    rw [hf fuel h]
    rfl

theorem Refuses.succ {f : Nat → Run ε α} {e : ε} :
    Refuses (fun fuel => f (fuel + 1)) e → Refuses f e
  | ⟨n, h⟩ => by
    refine ⟨n + 1, fun fuel hfuel => ?_⟩
    obtain ⟨fuel, rfl⟩ := Nat.exists_eq_add_of_le' hfuel
    exact h (fuel + n) (by omega)

/-- On enough fuel, the computations have the same result or stop at the same fault or with the same
error; or neither of them ends. -/
def SameEnd (f g : Nat → Run ε α) : Prop :=
  ∀ x, x ≠ .error .outOfFuel → ((∃ fuel, f fuel = x) ↔ ∃ fuel, g fuel = x)

/-- The first computation is the second, for which it takes up to `k` more units of fuel. -/
structure Lags (k : Nat) (f g : Nat → Run ε α) : Prop where
  le : ∀ fuel, (f fuel).Le (g fuel)
  ge : ∀ fuel, (g fuel).Le (f (fuel + k))

theorem Lags.sameEnd {k : Nat} {f g : Nat → Run ε α} (h : Lags k f g) : SameEnd f g := by
  intro x hx
  constructor
  · rintro ⟨fuel, rfl⟩
    exact ⟨fuel, ((h.le fuel).resolve_left hx).symm⟩
  · rintro ⟨fuel, rfl⟩
    exact ⟨fuel + k, ((h.ge fuel).resolve_left hx).symm⟩

/-! ## Computations in lock-step -/

/-- The computations end in the same way: with results that `R` relates, with errors that `E` relates,
with the same fault, or without fuel. -/
inductive Rel (E : ε → ε' → Prop) (R : α → β → Prop) : Run ε α → Run ε' β → Prop where
  | ok {a b} : R a b → Rel E R (.ok a) (.ok b)
  | refused {e e'} : E e e' → Rel E R (.error (.refused e)) (.error (.refused e'))
  | fault (f) : Rel E R (.error (.fault f)) (.error (.fault f))
  | outOfFuel : Rel E R (.error .outOfFuel) (.error .outOfFuel)

theorem Rel.mono {E E' : ε → ε' → Prop} {R R' : α → β → Prop} {x : Run ε α} {y : Run ε' β}
    (h : x.Rel E R y) (hE : ∀ e e', E e e' → E' e e') (hR : ∀ a b, R a b → R' a b) :
    x.Rel E' R' y := by
  cases h with
  | ok hab => exact .ok (hR _ _ hab)
  | refused he => exact .refused (hE _ _ he)
  | fault f => exact .fault f
  | outOfFuel => exact .outOfFuel

theorem Rel.right_eq {E : ε → ε' → Prop} {R : α → β → Prop} {x : Run ε α} {y : Run ε' β}
    (h : x.Rel E R y) : x.Rel E (fun a b => y = .ok b ∧ R a b) y := by
  cases h with
  | ok hab => exact .ok ⟨rfl, hab⟩
  | refused he => exact .refused he
  | fault f => exact .fault f
  | outOfFuel => exact .outOfFuel

theorem Rel.exists_right {E : ε → ε' → Prop} {R : α → β → Prop} {x : Run ε α} {y : Run ε' β} {a : α}
    (h : x.Rel E R y) (hx : x = .ok a) : ∃ b, y = .ok b ∧ R a b := by
  subst hx
  cases h with
  | ok hab => exact ⟨_, rfl, hab⟩

theorem Rel.exists_left {E : ε → ε' → Prop} {R : α → β → Prop} {x : Run ε α} {y : Run ε' β} {b : β}
    (h : x.Rel E R y) (hy : y = .ok b) : ∃ a, x = .ok a ∧ R a b := by
  subst hy
  cases h with
  | ok hab => exact ⟨_, rfl, hab⟩

theorem Rel.exists_refused {E : ε → ε' → Prop} {R : α → β → Prop} {x : Run ε α} {y : Run ε' β} {e : ε}
    (h : x.Rel E R y) (hx : x = .error (.refused e)) : ∃ e', y = .error (.refused e') ∧ E e e' := by
  subst hx
  cases h with
  | refused he => exact ⟨_, rfl, he⟩

/-- What neither faults nor reports does not do so in lock-step either. -/
theorem Rel.ends {E : ε → ε' → Prop} {R : α → β → Prop} {S : β → Prop} {x : Run ε α} {y : Run ε' β}
    (h : x.Rel E R y) (hy : y.Ends (fun _ => False) S) : x.Ends (fun _ => False) fun _ => True := by
  cases h with
  | ok _ => trivial
  | refused _ => exact hy
  | fault _ => exact hy
  | outOfFuel => trivial

theorem Rel.bind {α' β' : Type} {E : ε → ε' → Prop} {R : α → β → Prop} {S : α' → β' → Prop}
    {x : Run ε α} {y : Run ε' β} {f : α → Run ε α'} {g : β → Run ε' β'} (h : x.Rel E R y)
    (hf : ∀ a b, R a b → (f a).Rel E S (g b)) : (x >>= f).Rel E S (y >>= g) := by
  cases h with
  | ok hab => exact hf _ _ hab
  | refused he => exact .refused he
  | fault f => exact .fault f
  | outOfFuel => exact .outOfFuel

theorem Rel.widen {F : Empty → Empty → Prop} {E : ε → ε' → Prop} {R : α → β → Prop}
    {x : Run Empty α} {y : Run Empty β} (h : x.Rel F R y) :
    (x.widen : Run ε α).Rel E R (y.widen : Run ε' β) := by
  cases h with
  | ok hab => exact .ok hab
  | refused he => contradiction
  | fault f => exact .fault f
  | outOfFuel => exact .outOfFuel

theorem Rel.mapRefused {α β ε ε' δ δ' : Type} {E : ε → ε' → Prop} {F : δ → δ' → Prop}
    {R : α → β → Prop} {g : ε → δ} {g' : ε' → δ'} {x : Run ε α} {y : Run ε' β} (h : x.Rel E R y)
    (hg : ∀ e e', E e e' → F (g e) (g' e')) : (x.mapRefused g).Rel F R (y.mapRefused g') := by
  cases h with
  | ok hab => exact .ok hab
  | refused he => exact .refused (hg _ _ he)
  | fault f => exact .fault f
  | outOfFuel => exact .outOfFuel

theorem Rel.eq {x y : Run ε α} (h : x.Rel Eq Eq y) : x = y := by
  cases h with
  | ok hab => rw [hab]
  | refused he => rw [he]
  | fault f => rfl
  | outOfFuel => rfl

/-! ## Computations on different amounts of fuel -/

/-- The computations end in the same way, unless one of them uses up its fuel or the second faults. -/
inductive Follows (E : ε → ε → Prop) (R : α → β → Prop) : Run ε α → Run ε β → Prop where
  | ok {a b} : R a b → Follows E R (.ok a) (.ok b)
  | refused {e e'} : E e e' → Follows E R (.error (.refused e)) (.error (.refused e'))
  | outOfFuel {y} : Follows E R (.error .outOfFuel) y
  | outOfFuel' {x} : Follows E R x (.error .outOfFuel)
  | fault' {x} (f) : Follows E R x (.error (.fault f))

section Follows

variable {E : ε → ε → Prop} {R : α → β → Prop}

theorem Rel.follows {x : Run ε α} {y : Run ε β} (h : x.Rel E R y) : x.Follows E R y := by
  cases h with
  | ok hab => exact .ok hab
  | refused he => exact .refused he
  | fault f => exact .fault' f
  | outOfFuel => exact .outOfFuel

theorem Follows.of_le {x x' : Run ε α} {y y' : Run ε β} (h : x'.Follows E R y') (hx : x.Le x')
    (hy : y.Le y') : x.Follows E R y := by
  rcases hx with rfl | rfl
  · exact .outOfFuel
  · rcases hy with rfl | rfl
    · exact .outOfFuel'
    · exact h

theorem Follows.bind {α' β' : Type} {S : α' → β' → Prop} {x : Run ε α} {y : Run ε β}
    {f : α → Run ε α'} {g : β → Run ε β'} (h : x.Follows E R y)
    (hf : ∀ a b, R a b → (f a).Follows E S (g b)) : (x >>= f).Follows E S (y >>= g) := by
  cases h with
  | ok hab => exact hf _ _ hab
  | refused he => exact .refused he
  | outOfFuel => exact .outOfFuel
  | outOfFuel' => exact .outOfFuel'
  | fault' f => exact .fault' f

/-- What the second does besides does not matter, as long as it reports nothing. -/
theorem Follows.skip {β' : Type} {x : Run ε α} (y : Run Empty β') {g : β' → Run ε β}
    (h : ∀ b, x.Follows E R (g b)) : x.Follows E R (y.widen >>= g) := by
  match y with
  | .ok b => exact h b
  | .error (.fault f) => exact .fault' f
  | .error .outOfFuel => exact .outOfFuel'

theorem Follows.trans {γ : Type} {S : β → γ → Prop} {Q : α → γ → Prop} {x : Run ε α} {y : Run ε β}
    {z : Run ε γ} (h : x.Follows E R y) (h' : y.Rel E S z)
    (hE : ∀ e e' e'', E e e' → E e' e'' → E e e'') (hQ : ∀ a b c, R a b → S b c → Q a c) :
    x.Follows E Q z := by
  cases h with
  | ok hab =>
    cases h' with
    | ok hbc => exact .ok (hQ _ _ _ hab hbc)
  | refused he =>
    cases h' with
    | refused he' => exact .refused (hE _ _ _ he he')
  | outOfFuel => exact .outOfFuel
  | outOfFuel' =>
    cases h'
    exact .outOfFuel'
  | fault' f =>
    cases h'
    exact .fault' f

theorem Follows.ok_or_refused {x : Run ε α} {y : Run ε β} (h : x.Follows E R y)
    (hx : x ≠ .error .outOfFuel) (hy : y.Terminates) :
    (∃ a b, x = .ok a ∧ y = .ok b ∧ R a b) ∨
      ∃ e e', x = .error (.refused e) ∧ y = .error (.refused e') ∧ E e e' := by
  cases h with
  | ok hab => exact .inl ⟨_, _, rfl, rfl, hab⟩
  | refused he => exact .inr ⟨_, _, rfl, rfl, he⟩
  | outOfFuel => exact absurd rfl hx
  | outOfFuel' => exact absurd rfl hy.1
  | fault' f => exact absurd rfl (hy.2 f)

/-- Two runs of one computation. -/
theorem Follows.of_succ {f : Nat → Run Empty α} (h : ∀ n, (f n).Le (f (n + 1))) (n m : Nat) :
    ((f n).widen : Run ε α).Follows E Eq (f m).widen := by
  have hself : ∀ k, ((f k).widen : Run ε α).Follows E Eq (f k).widen := by
    intro k
    match f k with
    | .ok a => exact .ok rfl
    | .error (.fault x) => exact .fault' x
    | .error .outOfFuel => exact .outOfFuel
  rcases Nat.le_total n m with hnm | hmn
  · exact (hself m).of_le (Le.of_succ h hnm).widen (.refl _)
  · exact (hself n).of_le (.refl _) (Le.of_succ h hmn).widen

end Follows

/-! ## Computations that both have results -/

/-- If both computations have results, `R` relates them. -/
structure Agrees (R : α → β → Prop) (x : Run ε α) (y : Run ε' β) : Prop where
  related : ∀ a b, x = .ok a → y = .ok b → R a b

section Agrees

variable {α' β' : Type} {R : α → β → Prop} {S : α' → β' → Prop}

theorem Agrees.refl (x : Run ε α) : x.Agrees Eq x :=
  ⟨fun _ _ ha hb => Except.ok.inj (ha.symm.trans hb)⟩

theorem Agrees.refuse (e : ε) (y : Run ε' β) : Agrees R (.refuse e : Run ε α) y :=
  ⟨fun _ _ ha _ => by cases ha⟩

theorem Agrees.bind {x : Run ε α} {y : Run ε' β} {f : α → Run ε α'} {g : β → Run ε' β'}
    (h : x.Agrees R y) (hf : ∀ a b, R a b → (f a).Agrees S (g b)) :
    (x >>= f).Agrees S (y >>= g) := by
  refine ⟨fun c d hc hd => ?_⟩
  obtain ⟨a, ha, hc⟩ := bind_eq_ok.mp hc
  obtain ⟨b, hb, hd⟩ := bind_eq_ok.mp hd
  exact (hf a b (h.related a b ha hb)).related c d hc hd

/-- What comes first does not matter. -/
theorem Agrees.bind_any {x : Run ε α} {y : Run ε' β} {f : α → Run ε α'} {g : β → Run ε' β'}
    (hf : ∀ a b, (f a).Agrees S (g b)) : (x >>= f).Agrees S (y >>= g) :=
  Agrees.bind (R := fun _ _ => True) ⟨fun _ _ _ _ => trivial⟩ fun a b _ => hf a b

/-- One computation comes first in both. -/
theorem Agrees.bind_same {x : Run ε α} {f : α → Run ε α'} {g : α → Run ε β'}
    (hf : ∀ a, (f a).Agrees S (g a)) : (x >>= f).Agrees S (x >>= g) := by
  refine (Agrees.refl x).bind fun a b hab => ?_
  subst hab
  exact hf a

/-- What is known of the results of computations in lock-step. -/
theorem Agrees.rel {E : ε → ε' → Prop} {R' : α → β → Prop} {x : Run ε α} {y : Run ε' β}
    (h : x.Agrees R' y) (hxy : x.Rel E R y) : x.Rel E R' y := by
  cases hxy with
  | ok _ => exact .ok (h.related _ _ rfl rfl)
  | refused he => exact .refused he
  | fault f => exact .fault f
  | outOfFuel => exact .outOfFuel

end Agrees

/-! ## Computations of which one may not end -/

theorem Terminates.of_eq_ok {x : Run ε α} {a : α} (h : x = .ok a) : x.Terminates := by
  subst h
  exact ⟨by simp, fun f => by simp⟩

theorem Terminates.of_bind {x : Run ε α} {f : α → Run ε β} (h : (x >>= f).Terminates) :
    x.Terminates := by
  match x with
  | .ok _ => exact .of_eq_ok rfl
  | .error (.refused _) => exact ⟨by simp, fun f => by simp⟩
  | .error (.fault f) => exact absurd rfl (h.2 f)
  | .error .outOfFuel => exact absurd rfl h.1

theorem Terminates.exists_ok {x : Run Empty α} (h : x.Terminates) : ∃ a, x = .ok a := by
  match x with
  | .ok a => exact ⟨a, rfl⟩
  | .error (.fault f) => exact absurd rfl (h.2 f)
  | .error .outOfFuel => exact absurd rfl h.1

/-- Both computations have results, which `R` relates, or both report errors, unless one of them faults
or uses up its fuel. -/
inductive Concurs (R : α → β → Prop) (x : Run ε α) (y : Run ε' β) : Prop where
  | ok {a b} : x = .ok a → y = .ok b → R a b → Concurs R x y
  | refused {e e'} : x = .error (.refused e) → y = .error (.refused e') → Concurs R x y
  | left : ¬ x.Terminates → Concurs R x y
  | right : ¬ y.Terminates → Concurs R x y

section Concurs

variable {R : α → β → Prop}

theorem Concurs.pure {a : α} {b : β} (h : R a b) :
    Concurs R (pure a : Run ε α) (pure b : Run ε' β) :=
  .ok rfl rfl h

theorem Concurs.refuse (e : ε) (e' : ε') : Concurs R (.refuse e : Run ε α) (.refuse e' : Run ε' β) :=
  .refused rfl rfl

theorem Concurs.abort (f : Fault) (y : Run ε' β) : Concurs R (.abort f : Run ε α) y :=
  .left fun h => h.2 f rfl

theorem Concurs.outOfFuel (y : Run ε' β) : Concurs R (.error .outOfFuel : Run ε α) y :=
  .left fun h => h.1 rfl

theorem Concurs.bind {α' β' : Type} {S : α' → β' → Prop} {x : Run ε α} {y : Run ε' β}
    {f : α → Run ε α'} {g : β → Run ε' β'} (h : x.Concurs R y)
    (hf : ∀ a b, R a b → (f a).Concurs S (g b)) : (x >>= f).Concurs S (y >>= g) := by
  cases h with
  | ok hx hy hab =>
    subst hx hy
    exact hf _ _ hab
  | refused hx hy =>
    subst hx hy
    exact .refused rfl rfl
  | left hx => exact .left fun h => hx h.of_bind
  | right hy => exact .right fun h => hy h.of_bind

/-- Computations that report nothing. -/
theorem Concurs.widen {x : Run Empty α} {y : Run Empty β}
    (h : ∀ a b, x = .ok a → y = .ok b → R a b) :
    Concurs R (x.widen : Run ε α) (y.widen : Run ε' β) := by
  match x, y with
  | .ok a, .ok b => exact .ok rfl rfl (h a b rfl rfl)
  | .error (.fault f), _ => exact .left fun hx => hx.2 f rfl
  | .error .outOfFuel, _ => exact .left fun hx => hx.1 rfl
  | _, .error (.fault f) => exact .right fun hy => hy.2 f rfl
  | _, .error .outOfFuel => exact .right fun hy => hy.1 rfl

/-- One computation, which reports nothing, comes first in both. -/
theorem Concurs.widen_bind {γ : Type} {x : Run Empty γ} {f : γ → Run ε α} {g : γ → Run ε' β}
    (h : ∀ c, x = .ok c → (f c).Concurs R (g c)) :
    ((x.widen : Run ε γ) >>= f).Concurs R ((x.widen : Run ε' γ) >>= g) := by
  apply (Concurs.widen (R := fun c c' => c = c' ∧ x = .ok c) ?_).bind
  · rintro c _ ⟨rfl, hc⟩
    exact h c hc
  · intro c c' hc hc'
    exact ⟨Except.ok.inj (hc.symm.trans hc'), hc⟩

theorem Concurs.of_le {x x' : Run ε α} {y y' : Run ε' β} (h : x'.Concurs R y') (hx : x.Le x')
    (hy : y.Le y') : x.Concurs R y := by
  rcases hx with rfl | rfl
  · exact .outOfFuel y
  · rcases hy with rfl | rfl
    · exact .right fun hy => hy.1 rfl
    · exact h

/-- What concurs on equal amounts of fuel concurs on any. -/
theorem Concurs.of_succ {f : Nat → Run ε α} {g : Nat → Run ε' β} (h : ∀ n, (f n).Concurs R (g n))
    (hf : ∀ n, (f n).Le (f (n + 1))) (hg : ∀ n, (g n).Le (g (n + 1))) (n m : Nat) :
    (f n).Concurs R (g m) :=
  (h (max n m)).of_le (.of_succ hf (Nat.le_max_left n m)) (.of_succ hg (Nat.le_max_right n m))

theorem Concurs.ok_or_refused {x : Run ε α} {y : Run ε' β} (h : x.Concurs R y)
    (hx : x.Terminates) (hy : y.Terminates) :
    (∃ a b, x = .ok a ∧ y = .ok b ∧ R a b) ∨
      ∃ e e', x = .error (.refused e) ∧ y = .error (.refused e') := by
  cases h with
  | ok ha hb hab => exact .inl ⟨_, _, ha, hb, hab⟩
  | refused he he' => exact .inr ⟨_, _, he, he'⟩
  | left hx' => exact absurd hx hx'
  | right hy' => exact absurd hy hy'

end Concurs

end Run

end TypeInType
