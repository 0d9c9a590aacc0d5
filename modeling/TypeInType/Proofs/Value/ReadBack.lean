import TypeInType.Proofs.Value.Evaluation
import TypeInType.Value.Quote

/-!
# Read-back as reduction

A value reduces to its normal form. Under a binder read-back uses a variable that must not occur in
the value, so the statements are about values whose variables of read-back are all in use.
-/

namespace TypeInType

open TypeInType.Core (Reds up shift)
open Run (bind_eq_ok pure_eq_ok)

/-! ## The variables of read-back -/

/-- What the names of a normal form stand for. Variables of read-back are never among them. -/
def readNames (ρ : Atom → Core) : Name → Core
  | .quote l => .atom (.quote l)
  | x => ρ x.atom

/-- What the indices of a normal form stand for, seen from under `depth` binders of read-back. -/
def readBound (ρ : Atom → Core) (depth i : Nat) : Core :=
  match levelOfIndex? depth i with
  | some l => ρ (.quote l)
  | none => .atom (.stray 0)

/-- The core terms of the atoms inside a binder, the variable of which is the one of read-back with
the given level. -/
def underBinder (ρ : Atom → Core) (depth : Nat) (a : Atom) : Core :=
  if a = .quote depth then .var 0 else (ρ a).shift

theorem readNames_underBinder (ρ : Atom → Core) (depth : Nat) :
    readNames (underBinder ρ depth) = shift ∘ readNames ρ := by
  funext x
  cases x with
  | global x => rfl
  | hyp l => rfl
  | quote l => rfl

theorem readBound_underBinder (ρ : Atom → Core) (depth : Nat) :
    readBound (underBinder ρ depth) (depth + 1) = up (readBound ρ depth) := by
  funext i
  cases i with
  | zero => simp [readBound, levelOfIndex?, underBinder, up]
  | succ i =>
    by_cases hi : i < depth
    · have hl : depth - i - 1 ≠ depth := by omega
      simp [readBound, levelOfIndex?, underBinder, up, hi, hl, Nat.add_sub_add_right]
    · simp [readBound, levelOfIndex?, up, hi, shift, Core.rename]

theorem AgreeBy.underBinder {D : Indices} {P : Name → Prop} {depth : Nat}
    (hP : ∀ l, P (.quote l) → l < depth) (ρ : Atom → Core) :
    AgreeBy D P (underBinder ρ depth) (shift ∘ ρ) where
  name x hx := by
    cases x with
    | global x => rfl
    | hyp l => rfl
    | quote l =>
      have hl : l ≠ depth := Nat.ne_of_lt (hP l hx)
      simp [TypeInType.underBinder, Name.atom, hl]
  undeclared x := rfl
  stray _ i := rfl

/-- A variable of read-back that a closure does not use may stand for its binder. -/
theorem Closure.inst_underBinder {D : Indices} {P : Name → Prop} {depth : Nat}
    (hP : ∀ l, P (.quote l) → l < depth) (ρ : Atom → Core) {c : Closure} (hc : c.ScopedBy D P) :
    (c.embed (underBinder ρ depth)).inst
      ((Value.free (.quote depth)).embed (underBinder ρ depth)) = c.embed ρ := by
  have hvar : (Value.free (.quote depth)).embed (underBinder ρ depth) = .var 0 := by
    simp [Value.free, Value.embed, Neutral.embed, Name.atom, underBinder]
  rw [hvar, hc.embed_congr (.underBinder hP ρ), Closure.inst_embed_shift]

/-- The names in scope inside a binder. -/
def OrQuote (P : Name → Prop) (depth : Nat) (x : Name) : Prop :=
  P x ∨ x = .quote depth

theorem OrQuote.lt {P : Name → Prop} {depth : Nat} (hP : ∀ l, P (.quote l) → l < depth) :
    ∀ l, OrQuote P depth (.quote l) → l < depth + 1
  | l, .inl h => Nat.lt_succ_of_lt (hP l h)
  | l, .inr h => by cases h; exact Nat.lt_succ_self _

/-! ## Normal forms are reducts -/

section Reduction

variable (Θ : Theory) {D : Indices}

theorem Name.quote?_reds {ρ : Atom → Core} {depth : Nat} {r : Synth} :
    ∀ {x : Name}, x.quote? depth = .ok r →
      ρ x.atom = r.erase (readNames ρ) (readBound ρ depth)
  | .global x, h => by
    simp only [Name.quote?, pure_eq_ok] at h
    subst h
    simp only [Synth.erase, readNames]
  | .hyp l, h => by
    simp only [Name.quote?, pure_eq_ok] at h
    subst h
    simp only [Synth.erase, readNames]
  | .quote l, h => by
    simp only [Name.quote?] at h
    split at h
    · rename_i i hi
      cases h
      simp only [Synth.erase, readBound, levelOfIndex?_indexOfLevel? hi, Name.atom]
    · cases h

mutual

theorem Value.ScopedBy.quote_reds : ∀ {fuel depth : Nat} {P : Name → Prop} {v : Value} {r : Check},
    (∀ l, P (.quote l) → l < depth) → v.ScopedBy D P → v.quote fuel depth = .ok r → ∀ ρ : Atom → Core,
      Reds Θ (v.embed ρ) (r.erase (readNames ρ) (readBound ρ depth))
  | 0, _, _, _, _, _, _, h, _ => by simp only [Value.quote, reduceCtorEq] at h
  | fuel + 1, depth, P, .neutral n, r, hP, hv, h, ρ => by
    simp only [Value.quote, bind_eq_ok, pure_eq_ok] at h
    obtain ⟨n', hn, rfl⟩ := h
    simp only [Value.embed, Check.erase]
    exact Neutral.ScopedBy.quote_reds hP hv hn ρ
  | fuel + 1, depth, P, .star, r, _, _, h, ρ => by
    simp only [Value.quote, pure_eq_ok] at h
    subst h
    simp only [Value.embed, Check.erase, Synth.erase]
    exact .refl
  | fuel + 1, depth, P, .pi x d c, r, hP, hv, h, ρ => by
    simp only [Value.quote, bind_eq_ok, pure_eq_ok] at h
    obtain ⟨d', hd, c', hc, rfl⟩ := h
    simp only [Value.embed, Check.erase, Synth.erase]
    exact (Value.ScopedBy.quote_reds hP hv.1 hd ρ).pi (Closure.ScopedBy.quote_reds hP hv.2 hc ρ)
  | fuel + 1, depth, P, .lam x b, r, hP, hv, h, ρ => by
    simp only [Value.quote, bind_eq_ok, pure_eq_ok] at h
    obtain ⟨b', hb, rfl⟩ := h
    simp only [Value.embed, Check.erase]
    exact (Closure.ScopedBy.quote_reds hP hv hb ρ).lam
  | fuel + 1, depth, P, .nat, r, _, _, h, ρ => by
    simp only [Value.quote, pure_eq_ok] at h
    subst h
    simp only [Value.embed, Check.erase, Synth.erase]
    exact .refl
  | fuel + 1, depth, P, .zero, r, _, _, h, ρ => by
    simp only [Value.quote, pure_eq_ok] at h
    subst h
    simp only [Value.embed, Check.erase, Synth.erase]
    exact .refl
  | fuel + 1, depth, P, .succ n, r, hP, hv, h, ρ => by
    simp only [Value.quote, bind_eq_ok, pure_eq_ok] at h
    obtain ⟨n', hn, rfl⟩ := h
    simp only [Value.embed, Check.erase, Synth.erase]
    exact (Value.ScopedBy.quote_reds (v := n) hP hv hn ρ).succ
  | fuel + 1, depth, P, .vec a n, r, hP, hv, h, ρ => by
    simp only [Value.quote, bind_eq_ok, pure_eq_ok] at h
    obtain ⟨a', ha, n', hn, rfl⟩ := h
    simp only [Value.embed, Check.erase, Synth.erase]
    exact (Value.ScopedBy.quote_reds hP hv.1 ha ρ).vec (Value.ScopedBy.quote_reds hP hv.2 hn ρ)
  | fuel + 1, depth, P, .nil a, r, hP, hv, h, ρ => by
    simp only [Value.quote, bind_eq_ok, pure_eq_ok] at h
    obtain ⟨a', ha, rfl⟩ := h
    simp only [Value.embed, Check.erase, Synth.erase]
    exact (Value.ScopedBy.quote_reds (v := a) hP hv ha ρ).nil
  | fuel + 1, depth, P, .cons a n x xs, r, hP, hv, h, ρ => by
    simp only [Value.quote, bind_eq_ok, pure_eq_ok] at h
    obtain ⟨a', ha, n', hn, x', hx, xs', hxs, rfl⟩ := h
    simp only [Value.embed, Check.erase, Synth.erase]
    exact (Value.ScopedBy.quote_reds hP hv.1 ha ρ).cons (Value.ScopedBy.quote_reds hP hv.2.1 hn ρ)
      (Value.ScopedBy.quote_reds hP hv.2.2.1 hx ρ) (Value.ScopedBy.quote_reds hP hv.2.2.2 hxs ρ)

theorem Neutral.ScopedBy.quote_reds : ∀ {fuel depth : Nat} {P : Name → Prop} {n : Neutral} {r : Synth},
    (∀ l, P (.quote l) → l < depth) → n.ScopedBy D P → n.quote fuel depth = .ok r → ∀ ρ : Atom → Core,
      Reds Θ (n.embed ρ) (r.erase (readNames ρ) (readBound ρ depth))
  | 0, _, _, _, _, _, _, h, _ => by simp only [Neutral.quote, reduceCtorEq] at h
  | fuel + 1, depth, P, .free x, r, hP, hv, h, ρ => by
    simp only [Neutral.quote] at h
    rw [Neutral.embed, Name.quote?_reds (ρ := ρ) h]
  | fuel + 1, depth, P, .app f v, r, hP, hv, h, ρ => by
    simp only [Neutral.quote, bind_eq_ok, pure_eq_ok] at h
    obtain ⟨f', hf, v', hv', rfl⟩ := h
    simp only [Neutral.embed, Synth.erase]
    exact (Neutral.ScopedBy.quote_reds hP hv.1 hf ρ).app (Value.ScopedBy.quote_reds hP hv.2 hv' ρ)
  | fuel + 1, depth, P, .natElim m b s n, r, hP, hv, h, ρ => by
    simp only [Neutral.quote, bind_eq_ok, pure_eq_ok] at h
    obtain ⟨n', hn, m', hm, b', hb, s', hs, rfl⟩ := h
    simp only [Neutral.embed, Synth.erase, Check.erase]
    exact (Value.ScopedBy.quote_reds hP hv.1 hm ρ).natElim (Value.ScopedBy.quote_reds hP hv.2.1 hb ρ)
      (Value.ScopedBy.quote_reds hP hv.2.2.1 hs ρ) (Neutral.ScopedBy.quote_reds hP hv.2.2.2 hn ρ)
  | fuel + 1, depth, P, .vecElim a m b s n xs, r, hP, hv, h, ρ => by
    simp only [Neutral.quote, bind_eq_ok, pure_eq_ok] at h
    obtain ⟨xs', hxs, a', ha, m', hm, b', hb, s', hs, n', hn, rfl⟩ := h
    simp only [Neutral.embed, Synth.erase, Check.erase]
    exact (Value.ScopedBy.quote_reds hP hv.1 ha ρ).vecElim (Value.ScopedBy.quote_reds hP hv.2.1 hm ρ)
      (Value.ScopedBy.quote_reds hP hv.2.2.1 hb ρ) (Value.ScopedBy.quote_reds hP hv.2.2.2.1 hs ρ)
      (Value.ScopedBy.quote_reds hP hv.2.2.2.2.1 hn ρ) (Neutral.ScopedBy.quote_reds hP hv.2.2.2.2.2 hxs ρ)

theorem Closure.ScopedBy.quote_reds : ∀ {fuel depth : Nat} {P : Name → Prop} {c : Closure} {r : Check},
    (∀ l, P (.quote l) → l < depth) → c.ScopedBy D P → c.quote fuel depth = .ok r → ∀ ρ : Atom → Core,
      Reds Θ (c.embed ρ) (r.erase (shift ∘ readNames ρ) (up (readBound ρ depth)))
  | 0, _, _, _, _, _, _, h, _ => by simp only [Closure.quote, reduceCtorEq] at h
  | fuel + 1, depth, P, c, r, hP, hc, h, ρ => by
    simp only [Closure.quote, bind_eq_ok] at h
    obtain ⟨v, hv, hr⟩ := h
    have hvs : v.ScopedBy D (OrQuote P depth) :=
      Closure.apply_scopedBy (hc.mono (fun _ _ hk => hk) fun _ => .inl)
        (Value.scopedBy_free (.inr rfl)) hv
    -- The variable that read-back makes up stands for the variable of the binder.
    have hbody := Closure.apply_reds Θ (underBinder ρ depth) hv
    rw [Closure.inst_underBinder hP ρ hc] at hbody
    have hnf := Value.ScopedBy.quote_reds (OrQuote.lt hP) hvs hr (underBinder ρ depth)
    rw [readNames_underBinder, readBound_underBinder] at hnf
    exact hbody.trans hnf

end

theorem Value.quote_reds {fuel depth : Nat} {P : Name → Prop} {v : Value} {r : Check}
    (hP : ∀ l, P (.quote l) → l < depth) (hv : v.Scoped P) (hr : v.quote fuel depth = .ok r)
    (ρ : Atom → Core) : Reds Θ (v.embed ρ) (r.erase (readNames ρ) (readBound ρ depth)) :=
  (scopedBy_known.mpr hv).quote_reds Θ hP hr ρ

end Reduction

/-! ## Normal forms stay in scope -/

/-- The names that satisfy `P` and are no variables of read-back. -/
def Unquoted (P : Name → Prop) : Name → Prop
  | .quote _ => False
  | x => P x

theorem Unquoted.of_orQuote {P : Name → Prop} {depth : Nat} :
    ∀ x, Unquoted (OrQuote P depth) x → Unquoted P x
  | .global _, .inl h => h
  | .hyp _, .inl h => h

section Scope

variable {D : Indices} {n : Nat}

theorem Name.quote?_scoped {P : Name → Prop} {depth : Nat} {r : Synth}
    (hn : ∀ l, P (.quote l) → n ≤ l) :
    ∀ {x : Name}, P x → x.quote? depth = .ok r → r.Scoped (Unquoted P) (depth - n)
  | .global x, hx, h => by
    simp only [Name.quote?, pure_eq_ok] at h
    subst h
    exact hx
  | .hyp l, hx, h => by
    simp only [Name.quote?, pure_eq_ok] at h
    subst h
    exact hx
  | .quote l, hx, h => by
    simp only [Name.quote?] at h
    split at h
    · rename_i i hi
      cases h
      have hnl := hn l hx
      simp only [indexOfLevel?, Option.ite_none_right_eq_some, Option.some.injEq] at hi
      simp only [Synth.Scoped]
      omega
    · cases h

mutual

/-- If every variable of read-back in a value has a level of at least `n`, then the indices of its
normal form are those of the binders from level `n` on. -/
theorem Value.ScopedBy.quote_scoped : ∀ {fuel depth : Nat} {P : Name → Prop} {v : Value} {r : Check},
    (∀ l, P (.quote l) → n ≤ l) → n ≤ depth → v.ScopedBy D P → v.quote fuel depth = .ok r →
      r.Scoped (Unquoted P) (depth - n)
  | 0, _, _, _, _, _, _, _, h => by simp only [Value.quote, reduceCtorEq] at h
  | fuel + 1, depth, P, .neutral n, r, hP, hd, hv, h => by
    simp only [Value.quote, bind_eq_ok, pure_eq_ok] at h
    obtain ⟨n', hn, rfl⟩ := h
    exact Neutral.ScopedBy.quote_scoped hP hd hv hn
  | fuel + 1, depth, P, .star, r, _, _, _, h => by
    simp only [Value.quote, pure_eq_ok] at h
    subst h
    trivial
  | fuel + 1, depth, P, .pi x d c, r, hP, hd, hv, h => by
    simp only [Value.quote, bind_eq_ok, pure_eq_ok] at h
    obtain ⟨d', hd', c', hc, rfl⟩ := h
    exact ⟨Value.ScopedBy.quote_scoped hP hd hv.1 hd', Closure.ScopedBy.quote_scoped hP hd hv.2 hc⟩
  | fuel + 1, depth, P, .lam x b, r, hP, hd, hv, h => by
    simp only [Value.quote, bind_eq_ok, pure_eq_ok] at h
    obtain ⟨b', hb, rfl⟩ := h
    exact Closure.ScopedBy.quote_scoped hP hd hv hb
  | fuel + 1, depth, P, .nat, r, _, _, _, h => by
    simp only [Value.quote, pure_eq_ok] at h
    subst h
    trivial
  | fuel + 1, depth, P, .zero, r, _, _, _, h => by
    simp only [Value.quote, pure_eq_ok] at h
    subst h
    trivial
  | fuel + 1, depth, P, .succ n, r, hP, hd, hv, h => by
    simp only [Value.quote, bind_eq_ok, pure_eq_ok] at h
    obtain ⟨n', hn, rfl⟩ := h
    exact Value.ScopedBy.quote_scoped (v := n) (r := n') hP hd hv hn
  | fuel + 1, depth, P, .vec a n, r, hP, hd, hv, h => by
    simp only [Value.quote, bind_eq_ok, pure_eq_ok] at h
    obtain ⟨a', ha, n', hn, rfl⟩ := h
    exact ⟨Value.ScopedBy.quote_scoped hP hd hv.1 ha, Value.ScopedBy.quote_scoped hP hd hv.2 hn⟩
  | fuel + 1, depth, P, .nil a, r, hP, hd, hv, h => by
    simp only [Value.quote, bind_eq_ok, pure_eq_ok] at h
    obtain ⟨a', ha, rfl⟩ := h
    exact Value.ScopedBy.quote_scoped (v := a) (r := a') hP hd hv ha
  | fuel + 1, depth, P, .cons a n x xs, r, hP, hd, hv, h => by
    simp only [Value.quote, bind_eq_ok, pure_eq_ok] at h
    obtain ⟨a', ha, n', hn, x', hx, xs', hxs, rfl⟩ := h
    exact ⟨Value.ScopedBy.quote_scoped hP hd hv.1 ha, Value.ScopedBy.quote_scoped hP hd hv.2.1 hn,
      Value.ScopedBy.quote_scoped hP hd hv.2.2.1 hx, Value.ScopedBy.quote_scoped hP hd hv.2.2.2 hxs⟩

theorem Neutral.ScopedBy.quote_scoped : ∀ {fuel depth : Nat} {P : Name → Prop} {m : Neutral} {r : Synth},
    (∀ l, P (.quote l) → n ≤ l) → n ≤ depth → m.ScopedBy D P → m.quote fuel depth = .ok r →
      r.Scoped (Unquoted P) (depth - n)
  | 0, _, _, _, _, _, _, _, h => by simp only [Neutral.quote, reduceCtorEq] at h
  | fuel + 1, depth, P, .free x, r, hP, hd, hv, h => by
    simp only [Neutral.quote] at h
    exact Name.quote?_scoped hP hv h
  | fuel + 1, depth, P, .app f v, r, hP, hd, hv, h => by
    simp only [Neutral.quote, bind_eq_ok, pure_eq_ok] at h
    obtain ⟨f', hf, v', hv', rfl⟩ := h
    exact ⟨Neutral.ScopedBy.quote_scoped hP hd hv.1 hf, Value.ScopedBy.quote_scoped hP hd hv.2 hv'⟩
  | fuel + 1, depth, P, .natElim m b s n, r, hP, hd, hv, h => by
    simp only [Neutral.quote, bind_eq_ok, pure_eq_ok] at h
    obtain ⟨n', hn, m', hm, b', hb, s', hs, rfl⟩ := h
    exact ⟨Value.ScopedBy.quote_scoped hP hd hv.1 hm, Value.ScopedBy.quote_scoped hP hd hv.2.1 hb,
      Value.ScopedBy.quote_scoped hP hd hv.2.2.1 hs, Neutral.ScopedBy.quote_scoped hP hd hv.2.2.2 hn⟩
  | fuel + 1, depth, P, .vecElim a m b s n xs, r, hP, hd, hv, h => by
    simp only [Neutral.quote, bind_eq_ok, pure_eq_ok] at h
    obtain ⟨xs', hxs, a', ha, m', hm, b', hb, s', hs, n', hn, rfl⟩ := h
    exact ⟨Value.ScopedBy.quote_scoped hP hd hv.1 ha, Value.ScopedBy.quote_scoped hP hd hv.2.1 hm,
      Value.ScopedBy.quote_scoped hP hd hv.2.2.1 hb, Value.ScopedBy.quote_scoped hP hd hv.2.2.2.1 hs,
      Value.ScopedBy.quote_scoped hP hd hv.2.2.2.2.1 hn, Neutral.ScopedBy.quote_scoped hP hd hv.2.2.2.2.2 hxs⟩

theorem Closure.ScopedBy.quote_scoped : ∀ {fuel depth : Nat} {P : Name → Prop} {c : Closure} {r : Check},
    (∀ l, P (.quote l) → n ≤ l) → n ≤ depth → c.ScopedBy D P → c.quote fuel depth = .ok r →
      r.Scoped (Unquoted P) (depth - n + 1)
  | 0, _, _, _, _, _, _, _, h => by simp only [Closure.quote, reduceCtorEq] at h
  | fuel + 1, depth, P, c, r, hP, hd, hc, h => by
    simp only [Closure.quote, bind_eq_ok] at h
    obtain ⟨v, hv, hr⟩ := h
    have hvs : v.ScopedBy D (OrQuote P depth) :=
      Closure.apply_scopedBy (hc.mono (fun _ _ hk => hk) fun _ => .inl)
        (Value.scopedBy_free (.inr rfl)) hv
    have hP' : ∀ l, OrQuote P depth (.quote l) → n ≤ l := by
      rintro l (hl | hl)
      · exact hP l hl
      · cases hl; exact hd
    have hrs := Value.ScopedBy.quote_scoped hP' (Nat.le_succ_of_le hd) hvs hr
    rw [Nat.succ_sub hd] at hrs
    exact hrs.mono Unquoted.of_orQuote

end

theorem Value.quote_scoped {fuel depth : Nat} {P : Name → Prop} {v : Value} {r : Check}
    (hP : ∀ l, P (.quote l) → n ≤ l) (hn : n ≤ depth) (hv : v.Scoped P)
    (hr : v.quote fuel depth = .ok r) : r.Scoped (Unquoted P) (depth - n) :=
  (scopedBy_known.mpr hv).quote_scoped hP hn hr

end Scope

end TypeInType
