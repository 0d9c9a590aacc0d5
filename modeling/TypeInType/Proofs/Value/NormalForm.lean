import TypeInType.Proofs.Core.Normal
import TypeInType.Proofs.Term.AlphaEq
import TypeInType.Proofs.Value.ReadBack

/-!
# Normal forms are normal

What read-back gives has no annotations, and is normal as a core term, whatever neutral terms its
names and its indices stand for.
-/

namespace TypeInType

open TypeInType.Core (up shift Stuck)
open Run (bind_eq_ok pure_eq_ok)

section Normal

variable {ν : Name → Core} {σ : Nat → Core}

theorem Name.quote?_normal {depth : Nat} {x : Name} {r : Synth} (h : x.quote? depth = .ok r)
    (hν : ∀ x, (ν x).Stuck) (hσ : ∀ i, (σ i).Stuck) : r.Plain ∧ (r.erase ν σ).Stuck := by
  cases x with
  | global x =>
    simp only [Name.quote?, pure_eq_ok] at h
    subst h
    exact ⟨trivial, hν _⟩
  | hyp l =>
    simp only [Name.quote?, pure_eq_ok] at h
    subst h
    exact ⟨trivial, hν _⟩
  | quote l =>
    simp only [Name.quote?] at h
    split at h
    · cases h
      exact ⟨trivial, hσ _⟩
    · cases h

mutual

theorem Value.quote_normal : ∀ {fuel depth : Nat} {v : Value} {r : Check} {ν : Name → Core}
    {σ : Nat → Core}, v.quote fuel depth = .ok r → (∀ x, (ν x).Stuck) → (∀ i, (σ i).Stuck) →
      r.Plain ∧ (r.erase ν σ).Normal
  | 0, _, _, _, _, _, h, _, _ => by simp only [Value.quote, reduceCtorEq] at h
  | fuel + 1, depth, .neutral n, r, ν, σ, h, hν, hσ => by
    simp only [Value.quote, bind_eq_ok, pure_eq_ok] at h
    obtain ⟨n', hn, rfl⟩ := h
    obtain ⟨hp, hs⟩ := Neutral.quote_normal hn hν hσ
    exact ⟨hp, hs.2⟩
  | fuel + 1, depth, .star, r, ν, σ, h, _, _ => by
    simp only [Value.quote, pure_eq_ok] at h
    subst h
    exact ⟨trivial, trivial⟩
  | fuel + 1, depth, .pi x d c, r, ν, σ, h, hν, hσ => by
    simp only [Value.quote, bind_eq_ok, pure_eq_ok] at h
    obtain ⟨d', hd, c', hc, rfl⟩ := h
    obtain ⟨pd, nd⟩ := Value.quote_normal hd hν hσ
    obtain ⟨pc, nc⟩ := Closure.quote_normal hc hν hσ
    exact ⟨⟨pd, pc⟩, nd, nc⟩
  | fuel + 1, depth, .lam x b, r, ν, σ, h, hν, hσ => by
    simp only [Value.quote, bind_eq_ok, pure_eq_ok] at h
    obtain ⟨b', hb, rfl⟩ := h
    exact Closure.quote_normal hb hν hσ
  | fuel + 1, depth, .nat, r, ν, σ, h, _, _ => by
    simp only [Value.quote, pure_eq_ok] at h
    subst h
    exact ⟨trivial, trivial⟩
  | fuel + 1, depth, .zero, r, ν, σ, h, _, _ => by
    simp only [Value.quote, pure_eq_ok] at h
    subst h
    exact ⟨trivial, trivial⟩
  | fuel + 1, depth, .succ n, r, ν, σ, h, hν, hσ => by
    simp only [Value.quote, bind_eq_ok, pure_eq_ok] at h
    obtain ⟨n', hn, rfl⟩ := h
    obtain ⟨pn, nn⟩ := Value.quote_normal hn hν hσ
    exact ⟨pn, nn⟩
  | fuel + 1, depth, .vec a n, r, ν, σ, h, hν, hσ => by
    simp only [Value.quote, bind_eq_ok, pure_eq_ok] at h
    obtain ⟨a', ha, n', hn, rfl⟩ := h
    obtain ⟨pa, na⟩ := Value.quote_normal ha hν hσ
    obtain ⟨pn, nn⟩ := Value.quote_normal hn hν hσ
    exact ⟨⟨pa, pn⟩, na, nn⟩
  | fuel + 1, depth, .nil a, r, ν, σ, h, hν, hσ => by
    simp only [Value.quote, bind_eq_ok, pure_eq_ok] at h
    obtain ⟨a', ha, rfl⟩ := h
    obtain ⟨pa, na⟩ := Value.quote_normal ha hν hσ
    exact ⟨pa, na⟩
  | fuel + 1, depth, .cons a n x xs, r, ν, σ, h, hν, hσ => by
    simp only [Value.quote, bind_eq_ok, pure_eq_ok] at h
    obtain ⟨a', ha, n', hn, x', hx, xs', hxs, rfl⟩ := h
    obtain ⟨pa, na⟩ := Value.quote_normal ha hν hσ
    obtain ⟨pn, nn⟩ := Value.quote_normal hn hν hσ
    obtain ⟨px, nx⟩ := Value.quote_normal hx hν hσ
    obtain ⟨pxs, nxs⟩ := Value.quote_normal hxs hν hσ
    exact ⟨⟨pa, pn, px, pxs⟩, na, nn, nx, nxs⟩

theorem Neutral.quote_normal : ∀ {fuel depth : Nat} {n : Neutral} {r : Synth} {ν : Name → Core}
    {σ : Nat → Core}, n.quote fuel depth = .ok r → (∀ x, (ν x).Stuck) → (∀ i, (σ i).Stuck) →
      r.Plain ∧ (r.erase ν σ).Stuck
  | 0, _, _, _, _, _, h, _, _ => by simp only [Neutral.quote, reduceCtorEq] at h
  | fuel + 1, depth, .free x, r, ν, σ, h, hν, hσ => by
    simp only [Neutral.quote] at h
    exact Name.quote?_normal h hν hσ
  | fuel + 1, depth, .app f v, r, ν, σ, h, hν, hσ => by
    simp only [Neutral.quote, bind_eq_ok, pure_eq_ok] at h
    obtain ⟨f', hf, v', hv, rfl⟩ := h
    obtain ⟨pf, sf, nf⟩ := Neutral.quote_normal hf hν hσ
    obtain ⟨pv, nv⟩ := Value.quote_normal hv hν hσ
    exact ⟨⟨pf, pv⟩, if_pos sf, sf, nf, nv⟩
  | fuel + 1, depth, .natElim m b s n, r, ν, σ, h, hν, hσ => by
    simp only [Neutral.quote, bind_eq_ok, pure_eq_ok] at h
    obtain ⟨n', hn, m', hm, b', hb, s', hs, rfl⟩ := h
    obtain ⟨pn, sn, nn⟩ := Neutral.quote_normal hn hν hσ
    obtain ⟨pm, nm⟩ := Value.quote_normal hm hν hσ
    obtain ⟨pb, nb⟩ := Value.quote_normal hb hν hσ
    obtain ⟨ps, ns⟩ := Value.quote_normal hs hν hσ
    exact ⟨⟨pm, pb, ps, pn⟩, if_pos sn, sn, nm, nb, ns, nn⟩
  | fuel + 1, depth, .vecElim a m b s n xs, r, ν, σ, h, hν, hσ => by
    simp only [Neutral.quote, bind_eq_ok, pure_eq_ok] at h
    obtain ⟨xs', hxs, a', ha, m', hm, b', hb, s', hs, n', hn, rfl⟩ := h
    obtain ⟨pxs, sxs, nxs⟩ := Neutral.quote_normal hxs hν hσ
    obtain ⟨pa, na⟩ := Value.quote_normal ha hν hσ
    obtain ⟨pm, nm⟩ := Value.quote_normal hm hν hσ
    obtain ⟨pb, nb⟩ := Value.quote_normal hb hν hσ
    obtain ⟨ps, ns⟩ := Value.quote_normal hs hν hσ
    obtain ⟨pn, nn⟩ := Value.quote_normal hn hν hσ
    exact ⟨⟨pa, pm, pb, ps, pn, pxs⟩, if_pos sxs, sxs, na, nm, nb, ns, nn, nxs⟩

theorem Closure.quote_normal : ∀ {fuel depth : Nat} {c : Closure} {r : Check} {ν : Name → Core}
    {σ : Nat → Core}, c.quote fuel depth = .ok r → (∀ x, (ν x).Stuck) → (∀ i, (σ i).Stuck) →
      r.Plain ∧ (r.erase (shift ∘ ν) (up σ)).Normal
  | 0, _, _, _, _, _, h, _, _ => by simp only [Closure.quote, reduceCtorEq] at h
  | fuel + 1, depth, c, r, ν, σ, h, hν, hσ => by
    simp only [Closure.quote, bind_eq_ok] at h
    obtain ⟨v, _, hr⟩ := h
    exact Value.quote_normal hr (fun x => (hν x).shift) (Stuck.up hσ)

end

end Normal

theorem stuck_atomName (x : Name) : (atomName x).Stuck := by
  cases x <;> exact ⟨rfl, trivial⟩

theorem stuck_var (i : Nat) : (Core.var i).Stuck :=
  ⟨rfl, trivial⟩

theorem Value.quote_plain {v : Value} {fuel depth : Nat} {r : Check}
    (h : v.quote fuel depth = .ok r) : r.Plain :=
  (Value.quote_normal h stuck_atomName stuck_var).1

/-! ## Equal normal forms -/

section Equality

variable {Θ : Theory} {D : Indices} {P : Name → Prop} (hP : ∀ l, ¬ P (.quote l))

include hP

/-- The normal form of a value without variables of read-back, as a core term. -/
theorem Value.ScopedBy.quote_core {v : Value} {fuel depth : Nat} {r : Check} (hv : v.ScopedBy D P)
    (hr : v.quote fuel depth = .ok r) : Core.Reds Θ (v.embed .atom) (r.erase atomName .var) := by
  have hs : r.Scoped (Unquoted P) 0 := by
    have h := hv.quote_scoped (n := depth) (fun l h => (hP l h).elim) (Nat.le_refl depth) hr
    rwa [Nat.sub_self] at h
  have hcore : r.erase (readNames .atom) (readBound .atom depth) = r.erase atomName .var := by
    refine Check.erase_congr hs (fun x hx => ?_) fun i hi => absurd hi (Nat.not_lt_zero i)
    match x, hx with
    | .global x, _ => rfl
    | .hyp l, _ => rfl
  rw [← hcore]
  exact hv.quote_reds Θ (fun l h => (hP l h).elim) hr .atom

/-- Values are convertible if and only if their normal forms are equal. -/
theorem Value.ScopedBy.alphaEq_iff_conv {v w : Value} {fuel fuel' depth : Nat} {r r' : Check}
    (hv : v.ScopedBy D P) (hw : w.ScopedBy D P) (hr : v.quote fuel depth = .ok r)
    (hr' : w.quote fuel' depth = .ok r') :
    r.alphaEq r' = true ↔ Core.Conv Θ (v.embed .atom) (w.embed .atom) := by
  obtain ⟨hplain, hnormal⟩ := Value.quote_normal hr stuck_atomName stuck_var
  obtain ⟨hplain', hnormal'⟩ := Value.quote_normal hr' stuck_atomName stuck_var
  have hred := (hv.quote_core (Θ := Θ) hP hr).conv
  have hred' := (hw.quote_core (Θ := Θ) hP hr').conv
  constructor
  · intro h
    rw [Check.erase_eq_of_alphaEq h] at hred
    exact hred.trans hred'.symm
  · intro h
    exact hplain.alphaEq hplain' (((hred.symm.trans h).trans hred').eq_of_normal hnormal hnormal')

theorem Value.alphaEq_iff_conv {v w : Value} {fuel fuel' depth : Nat} {r r' : Check}
    (hv : v.Scoped P) (hw : w.Scoped P) (hr : v.quote fuel depth = .ok r)
    (hr' : w.quote fuel' depth = .ok r') :
    r.alphaEq r' = true ↔ Core.Conv Θ (v.embed .atom) (w.embed .atom) :=
  (scopedBy_known.mpr hv).alphaEq_iff_conv hP (scopedBy_known.mpr hw) hr hr'

end Equality

end TypeInType
