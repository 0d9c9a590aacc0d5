import TypeInType.Proofs.Core.Reduction
import TypeInType.Proofs.Term.Erasure

/-!
# Terms under hypotheses

The checker meets the body of a binder with a hypothesis in place of the bound variable. Here is a
term as it is met under a number of hypotheses, and how that changes what the term stands for.
-/

namespace TypeInType

open TypeInType.Core (up shift Reds)

mutual

/-- The term with the indices from `k` on replaced by the hypotheses of `n` binders. -/
def Synth.withHyps (n k : Nat) : Synth → Synth
  | .ann s e t => .ann s (e.withHyps n k) (t.withHyps n k)
  | .star s => .star s
  | .pi s x d c => .pi s x (d.withHyps n k) (c.withHyps n (k + 1))
  | .bound s i => if i < k then .bound s i else .free none (.hyp (n - 1 - (i - k)))
  | .free s x => .free s x
  | .app s h a => .app s (h.withHyps n k) (a.withHyps n k)
  | .nat s => .nat s
  | .zero s => .zero s
  | .succ s p => .succ s (p.withHyps n k)
  | .natElim s m b t p =>
    .natElim s (m.withHyps n k) (b.withHyps n k) (t.withHyps n k) (p.withHyps n k)
  | .vec s a p => .vec s (a.withHyps n k) (p.withHyps n k)
  | .nil s a => .nil s (a.withHyps n k)
  | .cons s a p x xs =>
    .cons s (a.withHyps n k) (p.withHyps n k) (x.withHyps n k) (xs.withHyps n k)
  | .vecElim s a m b t p xs =>
    .vecElim s (a.withHyps n k) (m.withHyps n k) (b.withHyps n k) (t.withHyps n k)
      (p.withHyps n k) (xs.withHyps n k)

/-- The term with the indices from `k` on replaced by the hypotheses of `n` binders. -/
def Check.withHyps (n k : Nat) : Check → Check
  | .synth t => .synth (t.withHyps n k)
  | .lam s x b => .lam s x (b.withHyps n (k + 1))
  | .ascribe s t e => .ascribe s (t.withHyps n k) (e.withHyps n k)
  | .sealed s e => .sealed s (e.withHyps n k)

end

/-! ## One more hypothesis -/

mutual

theorem Synth.subst_withHyps (n : Nat) : ∀ (t : Synth) (k : Nat),
    (t.withHyps n (k + 1)).subst k (.free none (.hyp n)) = t.withHyps (n + 1) k
  | .ann _ e t, k => by
    simp only [Synth.withHyps, Synth.subst, Check.subst_withHyps n e, Check.subst_withHyps n t]
  | .star _, _ => rfl
  | .pi _ _ d c, k => by
    simp only [Synth.withHyps, Synth.subst, Check.subst_withHyps n d, Check.subst_withHyps n c]
  | .bound _ i, k => by
    rcases Nat.lt_trichotomy i k with h | rfl | h
    · simp only [Synth.withHyps, if_pos h, if_pos (Nat.lt_succ_of_lt h), Synth.subst,
        if_neg (Nat.ne_of_lt h)]
    · simp [Synth.withHyps, Synth.subst]
    · have hl : n - 1 - (i - (k + 1)) = n + 1 - 1 - (i - k) := by omega
      simp only [Synth.withHyps, if_neg (Nat.not_lt_of_lt h), if_neg (Nat.not_lt_of_le h),
        Synth.subst, hl]
  | .free _ _, _ => rfl
  | .app _ h a, k => by
    simp only [Synth.withHyps, Synth.subst, Synth.subst_withHyps n h, Check.subst_withHyps n a]
  | .nat _, _ => rfl
  | .zero _, _ => rfl
  | .succ _ p, k => by simp only [Synth.withHyps, Synth.subst, Check.subst_withHyps n p]
  | .natElim _ m b t p, k => by
    simp only [Synth.withHyps, Synth.subst, Check.subst_withHyps n m, Check.subst_withHyps n b,
      Check.subst_withHyps n t, Check.subst_withHyps n p]
  | .vec _ a p, k => by
    simp only [Synth.withHyps, Synth.subst, Check.subst_withHyps n a, Check.subst_withHyps n p]
  | .nil _ a, k => by simp only [Synth.withHyps, Synth.subst, Check.subst_withHyps n a]
  | .cons _ a p x xs, k => by
    simp only [Synth.withHyps, Synth.subst, Check.subst_withHyps n a, Check.subst_withHyps n p,
      Check.subst_withHyps n x, Check.subst_withHyps n xs]
  | .vecElim _ a m b t p xs, k => by
    simp only [Synth.withHyps, Synth.subst, Check.subst_withHyps n a, Check.subst_withHyps n m,
      Check.subst_withHyps n b, Check.subst_withHyps n t, Check.subst_withHyps n p,
      Check.subst_withHyps n xs]

theorem Check.subst_withHyps (n : Nat) : ∀ (t : Check) (k : Nat),
    (t.withHyps n (k + 1)).subst k (.free none (.hyp n)) = t.withHyps (n + 1) k
  | .synth t, k => by simp only [Check.withHyps, Check.subst, Synth.subst_withHyps n t]
  | .lam _ _ b, k => by simp only [Check.withHyps, Check.subst, Check.subst_withHyps n b]
  | .ascribe _ t e, k => by
    simp only [Check.withHyps, Check.subst, Check.subst_withHyps n t, Check.subst_withHyps n e]
  | .sealed _ e, k => by simp only [Check.withHyps, Check.subst, Synth.subst_withHyps n e]

end

/-! ## Terms without loose indices -/

mutual

theorem Synth.Scoped.withHyps_eq {P : Name → Prop} (n : Nat) : ∀ {t : Synth} {k : Nat},
    t.Scoped P k → t.withHyps n k = t
  | .ann _ _ _, _, h => by simp only [Synth.withHyps, h.1.withHyps_eq n, h.2.withHyps_eq n]
  | .star _, _, _ => rfl
  | .pi _ _ _ _, _, h => by simp only [Synth.withHyps, h.1.withHyps_eq n, h.2.withHyps_eq n]
  | .bound _ _, _, h => if_pos h
  | .free _ _, _, _ => rfl
  | .app _ _ _, _, h => by simp only [Synth.withHyps, h.1.withHyps_eq n, h.2.withHyps_eq n]
  | .nat _, _, _ => rfl
  | .zero _, _, _ => rfl
  | .succ _ p, _, h => by
    simp only [Synth.withHyps, Check.Scoped.withHyps_eq n (t := p) h]
  | .natElim _ _ _ _ _, _, h => by
    simp only [Synth.withHyps, h.1.withHyps_eq n, h.2.1.withHyps_eq n, h.2.2.1.withHyps_eq n,
      h.2.2.2.withHyps_eq n]
  | .vec _ _ _, _, h => by simp only [Synth.withHyps, h.1.withHyps_eq n, h.2.withHyps_eq n]
  | .nil _ a, _, h => by
    simp only [Synth.withHyps, Check.Scoped.withHyps_eq n (t := a) h]
  | .cons _ _ _ _ _, _, h => by
    simp only [Synth.withHyps, h.1.withHyps_eq n, h.2.1.withHyps_eq n, h.2.2.1.withHyps_eq n,
      h.2.2.2.withHyps_eq n]
  | .vecElim _ _ _ _ _ _ _, _, h => by
    simp only [Synth.withHyps, h.1.withHyps_eq n, h.2.1.withHyps_eq n, h.2.2.1.withHyps_eq n,
      h.2.2.2.1.withHyps_eq n, h.2.2.2.2.1.withHyps_eq n, h.2.2.2.2.2.withHyps_eq n]

theorem Check.Scoped.withHyps_eq {P : Name → Prop} (n : Nat) : ∀ {t : Check} {k : Nat},
    t.Scoped P k → t.withHyps n k = t
  | .synth t, _, h => by simp only [Check.withHyps, Synth.Scoped.withHyps_eq n (t := t) h]
  | .lam _ _ b, _, h => by simp only [Check.withHyps, Check.Scoped.withHyps_eq n (t := b) h]
  | .ascribe _ _ _, _, h => by simp only [Check.withHyps, h.1.withHyps_eq n, h.2.withHyps_eq n]
  | .sealed _ e, _, h => by simp only [Check.withHyps, Synth.Scoped.withHyps_eq n (t := e) h]

end

mutual

theorem Synth.Scoped.withHyps {P : Name → Prop} {n : Nat} (hP : ∀ l, l < n → P (.hyp l)) :
    ∀ {t : Synth} {k : Nat}, t.Scoped P (k + n) → (t.withHyps n k).Scoped P k
  | .ann _ _ _, _, h => ⟨h.1.withHyps hP, h.2.withHyps hP⟩
  | .star _, _, _ => trivial
  | .pi _ _ _ c, k, h => by
    refine ⟨h.1.withHyps hP, Check.Scoped.withHyps hP (t := c) ?_⟩
    rw [Nat.add_right_comm]
    exact h.2
  | .bound _ i, k, h => by
    simp only [Synth.withHyps]
    split
    · assumption
    · simp only [Synth.Scoped] at h
      exact hP _ (by omega)
  | .free _ _, _, h => h
  | .app _ _ _, _, h => ⟨h.1.withHyps hP, h.2.withHyps hP⟩
  | .nat _, _, _ => trivial
  | .zero _, _, _ => trivial
  | .succ _ p, _, h => Check.Scoped.withHyps hP (t := p) h
  | .natElim _ _ _ _ _, _, h =>
    ⟨h.1.withHyps hP, h.2.1.withHyps hP, h.2.2.1.withHyps hP, h.2.2.2.withHyps hP⟩
  | .vec _ _ _, _, h => ⟨h.1.withHyps hP, h.2.withHyps hP⟩
  | .nil _ a, _, h => Check.Scoped.withHyps hP (t := a) h
  | .cons _ _ _ _ _, _, h =>
    ⟨h.1.withHyps hP, h.2.1.withHyps hP, h.2.2.1.withHyps hP, h.2.2.2.withHyps hP⟩
  | .vecElim _ _ _ _ _ _ _, _, h =>
    ⟨h.1.withHyps hP, h.2.1.withHyps hP, h.2.2.1.withHyps hP, h.2.2.2.1.withHyps hP,
      h.2.2.2.2.1.withHyps hP, h.2.2.2.2.2.withHyps hP⟩

theorem Check.Scoped.withHyps {P : Name → Prop} {n : Nat} (hP : ∀ l, l < n → P (.hyp l)) :
    ∀ {t : Check} {k : Nat}, t.Scoped P (k + n) → (t.withHyps n k).Scoped P k
  | .synth t, _, h => Synth.Scoped.withHyps hP (t := t) h
  | .lam _ _ b, k, h => by
    refine Check.Scoped.withHyps hP (t := b) (k := k + 1) ?_
    rw [Nat.add_right_comm]
    exact h
  | .ascribe _ _ _, _, h => ⟨h.1.withHyps hP, h.2.withHyps hP⟩
  | .sealed _ e, _, h => Synth.Scoped.withHyps hP (t := e) h

end

mutual

/-- A hypothesis in place of a bound variable. The other indices stay as they are. -/
theorem Synth.Scoped.subst_hyp {P : Name → Prop} {l : Nat} (hl : P (.hyp l)) :
    ∀ {t : Synth} {k : Nat}, t.Scoped P k → ∀ i, (t.subst i (.free none (.hyp l))).Scoped P k
  | .ann _ _ _, _, h, i => ⟨h.1.subst_hyp hl i, h.2.subst_hyp hl i⟩
  | .star _, _, _, _ => trivial
  | .pi _ _ _ _, _, h, i => ⟨h.1.subst_hyp hl i, h.2.subst_hyp hl (i + 1)⟩
  | .bound _ _, _, h, _ => by
    simp only [Synth.subst]
    split
    · exact hl
    · exact h
  | .free _ _, _, h, _ => h
  | .app _ _ _, _, h, i => ⟨h.1.subst_hyp hl i, h.2.subst_hyp hl i⟩
  | .nat _, _, _, _ => trivial
  | .zero _, _, _, _ => trivial
  | .succ _ p, _, h, i => Check.Scoped.subst_hyp hl (t := p) h i
  | .natElim _ _ _ _ _, _, h, i =>
    ⟨h.1.subst_hyp hl i, h.2.1.subst_hyp hl i, h.2.2.1.subst_hyp hl i, h.2.2.2.subst_hyp hl i⟩
  | .vec _ _ _, _, h, i => ⟨h.1.subst_hyp hl i, h.2.subst_hyp hl i⟩
  | .nil _ a, _, h, i => Check.Scoped.subst_hyp hl (t := a) h i
  | .cons _ _ _ _ _, _, h, i =>
    ⟨h.1.subst_hyp hl i, h.2.1.subst_hyp hl i, h.2.2.1.subst_hyp hl i, h.2.2.2.subst_hyp hl i⟩
  | .vecElim _ _ _ _ _ _ _, _, h, i =>
    ⟨h.1.subst_hyp hl i, h.2.1.subst_hyp hl i, h.2.2.1.subst_hyp hl i, h.2.2.2.1.subst_hyp hl i,
      h.2.2.2.2.1.subst_hyp hl i, h.2.2.2.2.2.subst_hyp hl i⟩

theorem Check.Scoped.subst_hyp {P : Name → Prop} {l : Nat} (hl : P (.hyp l)) :
    ∀ {t : Check} {k : Nat}, t.Scoped P k → ∀ i, (t.subst i (.free none (.hyp l))).Scoped P k
  | .synth t, _, h, i => Synth.Scoped.subst_hyp hl (t := t) h i
  | .lam _ _ b, _, h, i => Check.Scoped.subst_hyp hl (t := b) h (i + 1)
  | .ascribe _ _ _, _, h, i => ⟨h.1.subst_hyp hl i, h.2.subst_hyp hl i⟩
  | .sealed _ e, _, h, i => Synth.Scoped.subst_hyp hl (t := e) h i

end

/-! ## What the term stands for -/

/-- What the indices stand for, if those from `k` on are replaced by hypotheses. -/
def hypBound (n k : Nat) (ν : Name → Core) (σ : Nat → Core) (i : Nat) : Core :=
  if i < k then σ i else ν (.hyp (n - 1 - (i - k)))

theorem up_hypBound (n k : Nat) (ν : Name → Core) (σ : Nat → Core) :
    up (hypBound n k ν σ) = hypBound n (k + 1) (shift ∘ ν) (up σ) := by
  funext i
  cases i with
  | zero => simp [hypBound, up]
  | succ i =>
    simp only [hypBound, up, Nat.add_lt_add_iff_right, Nat.add_sub_add_right]
    split <;> rfl

mutual

theorem Synth.erase_withHyps (n : Nat) : ∀ (t : Synth) (k : Nat) (ν : Name → Core)
    (σ : Nat → Core), (t.withHyps n k).erase ν σ = t.erase ν (hypBound n k ν σ)
  | .ann _ e _, k, ν, σ => Check.erase_withHyps n e k ν σ
  | .star _, _, _, _ => rfl
  | .pi _ _ d c, k, ν, σ => by
    simp only [Synth.withHyps, Synth.erase, Check.erase_withHyps n d, Check.erase_withHyps n c,
      up_hypBound]
  | .bound _ i, k, ν, σ => by
    simp only [Synth.withHyps, Synth.erase, hypBound]
    split <;> simp only [Synth.erase]
  | .free _ _, _, _, _ => rfl
  | .app _ h a, k, ν, σ => by
    simp only [Synth.withHyps, Synth.erase, Synth.erase_withHyps n h, Check.erase_withHyps n a]
  | .nat _, _, _, _ => rfl
  | .zero _, _, _, _ => rfl
  | .succ _ p, k, ν, σ => by simp only [Synth.withHyps, Synth.erase, Check.erase_withHyps n p]
  | .natElim _ m b t p, k, ν, σ => by
    simp only [Synth.withHyps, Synth.erase, Check.erase_withHyps n m, Check.erase_withHyps n b,
      Check.erase_withHyps n t, Check.erase_withHyps n p]
  | .vec _ a p, k, ν, σ => by
    simp only [Synth.withHyps, Synth.erase, Check.erase_withHyps n a, Check.erase_withHyps n p]
  | .nil _ a, k, ν, σ => by simp only [Synth.withHyps, Synth.erase, Check.erase_withHyps n a]
  | .cons _ a p x xs, k, ν, σ => by
    simp only [Synth.withHyps, Synth.erase, Check.erase_withHyps n a, Check.erase_withHyps n p,
      Check.erase_withHyps n x, Check.erase_withHyps n xs]
  | .vecElim _ a m b t p xs, k, ν, σ => by
    simp only [Synth.withHyps, Synth.erase, Check.erase_withHyps n a, Check.erase_withHyps n m,
      Check.erase_withHyps n b, Check.erase_withHyps n t, Check.erase_withHyps n p,
      Check.erase_withHyps n xs]

theorem Check.erase_withHyps (n : Nat) : ∀ (t : Check) (k : Nat) (ν : Name → Core)
    (σ : Nat → Core), (t.withHyps n k).erase ν σ = t.erase ν (hypBound n k ν σ)
  | .synth t, k, ν, σ => Synth.erase_withHyps n t k ν σ
  | .lam _ _ b, k, ν, σ => by
    simp only [Check.withHyps, Check.erase, Check.erase_withHyps n b, up_hypBound]
  | .ascribe _ _ e, k, ν, σ => Check.erase_withHyps n e k ν σ
  | .sealed _ e, k, ν, σ => Synth.erase_withHyps n e k ν σ

end

/-! ## Reduction in what the names stand for -/

section Reduction

variable {Θ : Theory} {P : Name → Prop}

theorem shift_reds {ν ν' : Name → Core} (h : ∀ x, P x → Reds Θ (ν x) (ν' x)) :
    ∀ x, P x → Reds Θ ((shift ∘ ν) x) ((shift ∘ ν') x) :=
  fun x hx => (h x hx).shift

mutual

/-- To reduce what the names stand for is to reduce the term. -/
theorem Synth.erase_reds : ∀ {t : Synth} {k : Nat} {ν ν' : Name → Core} {σ σ' : Nat → Core},
    t.Scoped P k → (∀ x, P x → Reds Θ (ν x) (ν' x)) → (∀ i, i < k → σ i = σ' i) →
      Reds Θ (t.erase ν σ) (t.erase ν' σ')
  | .ann _ e _, _, _, _, _, _, h, hν, hσ => Check.erase_reds (t := e) h.1 hν hσ
  | .star _, _, _, _, _, _, _, _, _ => .refl
  | .pi _ _ _ _, _, _, _, _, _, h, hν, hσ =>
    (Check.erase_reds h.1 hν hσ).pi (Check.erase_reds h.2 (shift_reds hν) (up_congr hσ))
  | .bound _ i, _, _, _, _, _, h, _, hσ => by
    simp only [Synth.erase, hσ i h]
    exact .refl
  | .free _ x, _, _, _, _, _, h, hν, _ => hν x h
  | .app _ _ _, _, _, _, _, _, h, hν, hσ =>
    (Synth.erase_reds h.1 hν hσ).app (Check.erase_reds h.2 hν hσ)
  | .nat _, _, _, _, _, _, _, _, _ => .refl
  | .zero _, _, _, _, _, _, _, _, _ => .refl
  | .succ _ p, _, _, _, _, _, h, hν, hσ => (Check.erase_reds (t := p) h hν hσ).succ
  | .natElim _ _ _ _ _, _, _, _, _, _, h, hν, hσ =>
    (Check.erase_reds h.1 hν hσ).natElim (Check.erase_reds h.2.1 hν hσ)
      (Check.erase_reds h.2.2.1 hν hσ) (Check.erase_reds h.2.2.2 hν hσ)
  | .vec _ _ _, _, _, _, _, _, h, hν, hσ =>
    (Check.erase_reds h.1 hν hσ).vec (Check.erase_reds h.2 hν hσ)
  | .nil _ a, _, _, _, _, _, h, hν, hσ => (Check.erase_reds (t := a) h hν hσ).nil
  | .cons _ _ _ _ _, _, _, _, _, _, h, hν, hσ =>
    (Check.erase_reds h.1 hν hσ).cons (Check.erase_reds h.2.1 hν hσ)
      (Check.erase_reds h.2.2.1 hν hσ) (Check.erase_reds h.2.2.2 hν hσ)
  | .vecElim _ _ _ _ _ _ _, _, _, _, _, _, h, hν, hσ =>
    (Check.erase_reds h.1 hν hσ).vecElim (Check.erase_reds h.2.1 hν hσ)
      (Check.erase_reds h.2.2.1 hν hσ) (Check.erase_reds h.2.2.2.1 hν hσ)
      (Check.erase_reds h.2.2.2.2.1 hν hσ) (Check.erase_reds h.2.2.2.2.2 hν hσ)

theorem Check.erase_reds : ∀ {t : Check} {k : Nat} {ν ν' : Name → Core} {σ σ' : Nat → Core},
    t.Scoped P k → (∀ x, P x → Reds Θ (ν x) (ν' x)) → (∀ i, i < k → σ i = σ' i) →
      Reds Θ (t.erase ν σ) (t.erase ν' σ')
  | .synth t, _, _, _, _, _, h, hν, hσ => Synth.erase_reds (t := t) h hν hσ
  | .lam _ _ b, _, _, _, _, _, h, hν, hσ =>
    (Check.erase_reds (t := b) h (shift_reds hν) (up_congr hσ)).lam
  | .ascribe _ _ e, _, _, _, _, _, h, hν, hσ => Check.erase_reds (t := e) h.2 hν hσ
  | .sealed _ e, _, _, _, _, _, h, hν, hσ => Synth.erase_reds (t := e) h hν hσ

end

end Reduction

end TypeInType
