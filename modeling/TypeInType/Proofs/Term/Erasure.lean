import TypeInType.Proofs.Core.Term

/-!
# Terms as core terms

A term gives a core term once its names and its indices stand for core terms. Annotations are dropped.
-/

namespace TypeInType

open TypeInType.Core (up shift push)

/-! ## Scopes -/

/-- A name of the signature. -/
def IsGlobal : Name → Prop
  | .global _ => True
  | _ => False

mutual

/-- Every name in the term satisfies `P`, and every index is bound in the term or less than `k`. -/
def Synth.Scoped (P : Name → Prop) (k : Nat) : Synth → Prop
  | .ann _ e t => e.Scoped P k ∧ t.Scoped P k
  | .star _ => True
  | .pi _ _ d c => d.Scoped P k ∧ c.Scoped P (k + 1)
  | .bound _ i => i < k
  | .free _ x => P x
  | .app _ h a => h.Scoped P k ∧ a.Scoped P k
  | .nat _ => True
  | .zero _ => True
  | .succ _ n => n.Scoped P k
  | .natElim _ m b s n => m.Scoped P k ∧ b.Scoped P k ∧ s.Scoped P k ∧ n.Scoped P k
  | .vec _ a n => a.Scoped P k ∧ n.Scoped P k
  | .nil _ a => a.Scoped P k
  | .cons _ a n x xs => a.Scoped P k ∧ n.Scoped P k ∧ x.Scoped P k ∧ xs.Scoped P k
  | .vecElim _ a m b s n xs => a.Scoped P k ∧ m.Scoped P k ∧ b.Scoped P k ∧ s.Scoped P k ∧
      n.Scoped P k ∧ xs.Scoped P k

/-- Every name in the term satisfies `P`, and every index is bound in the term or less than `k`. -/
def Check.Scoped (P : Name → Prop) (k : Nat) : Check → Prop
  | .synth t => t.Scoped P k
  | .lam _ _ b => b.Scoped P (k + 1)
  | .ascribe _ t e => t.Scoped P k ∧ e.Scoped P k
  | .sealed _ e => e.Scoped P k

end

mutual

theorem Synth.Scoped.mono {P Q : Name → Prop} (hPQ : ∀ x, P x → Q x) :
    ∀ {t : Synth} {k : Nat}, t.Scoped P k → t.Scoped Q k
  | .ann _ _ _, _, h => ⟨Check.Scoped.mono hPQ h.1, Check.Scoped.mono hPQ h.2⟩
  | .star _, _, _ => trivial
  | .pi _ _ _ _, _, h => ⟨Check.Scoped.mono hPQ h.1, Check.Scoped.mono hPQ h.2⟩
  | .bound _ _, _, h => h
  | .free _ x, _, h => hPQ x h
  | .app _ _ _, _, h => ⟨Synth.Scoped.mono hPQ h.1, Check.Scoped.mono hPQ h.2⟩
  | .nat _, _, _ => trivial
  | .zero _, _, _ => trivial
  | .succ _ n, _, h => Check.Scoped.mono (t := n) hPQ h
  | .natElim _ _ _ _ _, _, h => ⟨Check.Scoped.mono hPQ h.1, Check.Scoped.mono hPQ h.2.1,
      Check.Scoped.mono hPQ h.2.2.1, Check.Scoped.mono hPQ h.2.2.2⟩
  | .vec _ _ _, _, h => ⟨Check.Scoped.mono hPQ h.1, Check.Scoped.mono hPQ h.2⟩
  | .nil _ a, _, h => Check.Scoped.mono (t := a) hPQ h
  | .cons _ _ _ _ _, _, h => ⟨Check.Scoped.mono hPQ h.1, Check.Scoped.mono hPQ h.2.1,
      Check.Scoped.mono hPQ h.2.2.1, Check.Scoped.mono hPQ h.2.2.2⟩
  | .vecElim _ _ _ _ _ _ _, _, h => ⟨Check.Scoped.mono hPQ h.1, Check.Scoped.mono hPQ h.2.1,
      Check.Scoped.mono hPQ h.2.2.1, Check.Scoped.mono hPQ h.2.2.2.1,
      Check.Scoped.mono hPQ h.2.2.2.2.1, Check.Scoped.mono hPQ h.2.2.2.2.2⟩

theorem Check.Scoped.mono {P Q : Name → Prop} (hPQ : ∀ x, P x → Q x) :
    ∀ {t : Check} {k : Nat}, t.Scoped P k → t.Scoped Q k
  | .synth t, _, h => Synth.Scoped.mono (t := t) hPQ h
  | .lam _ _ b, _, h => Check.Scoped.mono (t := b) hPQ h
  | .ascribe _ _ _, _, h => ⟨Check.Scoped.mono hPQ h.1, Check.Scoped.mono hPQ h.2⟩
  | .sealed _ e, _, h => Synth.Scoped.mono (t := e) hPQ h

end

/-! ## Erasure -/

mutual

/-- The core term of a term, with core terms for its names and its indices. -/
def Synth.erase (ν : Name → Core) (σ : Nat → Core) : Synth → Core
  | .ann _ e _ => e.erase ν σ
  | .star _ => .star
  | .pi _ _ d c => .pi (d.erase ν σ) (c.erase (shift ∘ ν) (up σ))
  | .bound _ i => σ i
  | .free _ x => ν x
  | .app _ h a => .app (h.erase ν σ) (a.erase ν σ)
  | .nat _ => .nat
  | .zero _ => .zero
  | .succ _ n => .succ (n.erase ν σ)
  | .natElim _ m b s n => .natElim (m.erase ν σ) (b.erase ν σ) (s.erase ν σ) (n.erase ν σ)
  | .vec _ a n => .vec (a.erase ν σ) (n.erase ν σ)
  | .nil _ a => .nil (a.erase ν σ)
  | .cons _ a n x xs => .cons (a.erase ν σ) (n.erase ν σ) (x.erase ν σ) (xs.erase ν σ)
  | .vecElim _ a m b s n xs => .vecElim (a.erase ν σ) (m.erase ν σ) (b.erase ν σ) (s.erase ν σ)
      (n.erase ν σ) (xs.erase ν σ)

/-- The core term of a term, with core terms for its names and its indices. -/
def Check.erase (ν : Name → Core) (σ : Nat → Core) : Check → Core
  | .synth t => t.erase ν σ
  | .lam _ _ b => .lam (b.erase (shift ∘ ν) (up σ))
  | .ascribe _ _ e => e.erase ν σ
  | .sealed _ e => e.erase ν σ

end

theorem subst_up_comp_shift {α : Type} (τ : Nat → Core) (ν : α → Core) :
    Core.subst (up τ) ∘ shift ∘ ν = shift ∘ Core.subst τ ∘ ν := by
  funext x
  exact Core.subst_shift (ν x) τ

mutual

theorem Synth.subst_erase : ∀ (t : Synth) (ν : Name → Core) (σ τ : Nat → Core),
    (t.erase ν σ).subst τ = t.erase (Core.subst τ ∘ ν) (Core.subst τ ∘ σ)
  | .ann _ e _, ν, σ, τ => Check.subst_erase e ν σ τ
  | .star _, _, _, _ => rfl
  | .pi _ _ d c, ν, σ, τ => by
    simp only [Synth.erase, Core.subst, Check.subst_erase d, Check.subst_erase c,
      subst_up_comp_shift, Core.subst_comp_up]
  | .bound _ _, _, _, _ => rfl
  | .free _ _, _, _, _ => rfl
  | .app _ h a, ν, σ, τ => by
    simp only [Synth.erase, Core.subst, Synth.subst_erase h, Check.subst_erase a]
  | .nat _, _, _, _ => rfl
  | .zero _, _, _, _ => rfl
  | .succ _ n, ν, σ, τ => by simp only [Synth.erase, Core.subst, Check.subst_erase n]
  | .natElim _ m b s n, ν, σ, τ => by
    simp only [Synth.erase, Core.subst, Check.subst_erase m, Check.subst_erase b,
      Check.subst_erase s, Check.subst_erase n]
  | .vec _ a n, ν, σ, τ => by
    simp only [Synth.erase, Core.subst, Check.subst_erase a, Check.subst_erase n]
  | .nil _ a, ν, σ, τ => by simp only [Synth.erase, Core.subst, Check.subst_erase a]
  | .cons _ a n x xs, ν, σ, τ => by
    simp only [Synth.erase, Core.subst, Check.subst_erase a, Check.subst_erase n,
      Check.subst_erase x, Check.subst_erase xs]
  | .vecElim _ a m b s n xs, ν, σ, τ => by
    simp only [Synth.erase, Core.subst, Check.subst_erase a, Check.subst_erase m,
      Check.subst_erase b, Check.subst_erase s, Check.subst_erase n, Check.subst_erase xs]

theorem Check.subst_erase : ∀ (t : Check) (ν : Name → Core) (σ τ : Nat → Core),
    (t.erase ν σ).subst τ = t.erase (Core.subst τ ∘ ν) (Core.subst τ ∘ σ)
  | .synth t, ν, σ, τ => Synth.subst_erase t ν σ τ
  | .lam _ _ b, ν, σ, τ => by
    simp only [Check.erase, Core.subst, Check.subst_erase b, subst_up_comp_shift,
      Core.subst_comp_up]
  | .ascribe _ _ e, ν, σ, τ => Check.subst_erase e ν σ τ
  | .sealed _ e, ν, σ, τ => Synth.subst_erase e ν σ τ

end

/-- The body of a binder with a core term for the bound variable. -/
theorem Check.inst_erase (b : Check) (ν : Name → Core) (σ : Nat → Core) (a : Core) :
    (b.erase (shift ∘ ν) (up σ)).inst a = b.erase ν (push a σ) := by
  have hν : Core.subst (push a Core.var) ∘ shift ∘ ν = ν := by
    funext x
    exact Core.inst_shift (ν x) a
  rw [Core.inst, Check.subst_erase, Core.push_comp_up, hν]

theorem shift_congr {P : Name → Prop} {ν ν' : Name → Core} (h : ∀ x, P x → ν x = ν' x) :
    ∀ x, P x → (shift ∘ ν) x = (shift ∘ ν') x :=
  fun x hx => congrArg shift (h x hx)

theorem up_congr {σ σ' : Nat → Core} {k : Nat} (h : ∀ i, i < k → σ i = σ' i) :
    ∀ i, i < k + 1 → up σ i = up σ' i
  | 0, _ => rfl
  | i + 1, hi => congrArg shift (h i (by omega))

mutual

/-- The core term depends on what the names and the indices in scope stand for only. -/
theorem Synth.erase_congr {P : Name → Prop} : ∀ {t : Synth} {k : Nat} {ν ν' : Name → Core}
    {σ σ' : Nat → Core}, t.Scoped P k → (∀ x, P x → ν x = ν' x) → (∀ i, i < k → σ i = σ' i) →
    t.erase ν σ = t.erase ν' σ'
  | .ann _ e _, _, _, _, _, _, h, hν, hσ => Check.erase_congr (t := e) h.1 hν hσ
  | .star _, _, _, _, _, _, _, _, _ => rfl
  | .pi _ _ _ _, _, _, _, _, _, h, hν, hσ => by
    simp only [Synth.erase, Check.erase_congr h.1 hν hσ,
      Check.erase_congr h.2 (shift_congr hν) (up_congr hσ)]
  | .bound _ i, _, _, _, _, _, h, _, hσ => hσ i h
  | .free _ x, _, _, _, _, _, h, hν, _ => hν x h
  | .app _ _ _, _, _, _, _, _, h, hν, hσ => by
    simp only [Synth.erase, Synth.erase_congr h.1 hν hσ, Check.erase_congr h.2 hν hσ]
  | .nat _, _, _, _, _, _, _, _, _ => rfl
  | .zero _, _, _, _, _, _, _, _, _ => rfl
  | .succ _ n, _, _, _, _, _, h, hν, hσ => by
    simp only [Synth.erase, Check.erase_congr (t := n) h hν hσ]
  | .natElim _ _ _ _ _, _, _, _, _, _, h, hν, hσ => by
    simp only [Synth.erase, Check.erase_congr h.1 hν hσ, Check.erase_congr h.2.1 hν hσ,
      Check.erase_congr h.2.2.1 hν hσ, Check.erase_congr h.2.2.2 hν hσ]
  | .vec _ _ _, _, _, _, _, _, h, hν, hσ => by
    simp only [Synth.erase, Check.erase_congr h.1 hν hσ, Check.erase_congr h.2 hν hσ]
  | .nil _ a, _, _, _, _, _, h, hν, hσ => by
    simp only [Synth.erase, Check.erase_congr (t := a) h hν hσ]
  | .cons _ _ _ _ _, _, _, _, _, _, h, hν, hσ => by
    simp only [Synth.erase, Check.erase_congr h.1 hν hσ, Check.erase_congr h.2.1 hν hσ,
      Check.erase_congr h.2.2.1 hν hσ, Check.erase_congr h.2.2.2 hν hσ]
  | .vecElim _ _ _ _ _ _ _, _, _, _, _, _, h, hν, hσ => by
    simp only [Synth.erase, Check.erase_congr h.1 hν hσ, Check.erase_congr h.2.1 hν hσ,
      Check.erase_congr h.2.2.1 hν hσ, Check.erase_congr h.2.2.2.1 hν hσ,
      Check.erase_congr h.2.2.2.2.1 hν hσ, Check.erase_congr h.2.2.2.2.2 hν hσ]

/-- The core term depends on what the names and the indices in scope stand for only. -/
theorem Check.erase_congr {P : Name → Prop} : ∀ {t : Check} {k : Nat} {ν ν' : Name → Core}
    {σ σ' : Nat → Core}, t.Scoped P k → (∀ x, P x → ν x = ν' x) → (∀ i, i < k → σ i = σ' i) →
    t.erase ν σ = t.erase ν' σ'
  | .synth t, _, _, _, _, _, h, hν, hσ => Synth.erase_congr (t := t) h hν hσ
  | .lam _ _ b, _, _, _, _, _, h, hν, hσ => by
    simp only [Check.erase, Check.erase_congr (t := b) h (shift_congr hν) (up_congr hσ)]
  | .ascribe _ _ e, _, _, _, _, _, h, hν, hσ => Check.erase_congr (t := e) h.2 hν hσ
  | .sealed _ e, _, _, _, _, _, h, hν, hσ => Synth.erase_congr (t := e) h hν hσ

end

end TypeInType
