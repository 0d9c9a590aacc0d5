import TypeInType.Proofs.Run
import TypeInType.Value.Counted

/-!
# Depths of 32 bits

Counted read-back is read-back unless it overflows (`Value.quoteCounted_caps`), and the normal forms that
it gives are those whose binders can be counted (`Value.quoteCounted_eq_ok`).
-/

namespace TypeInType

/-! ## Read-back, or an overflow -/

/-- The second computation is the first, or it overflows, which it does only if `P`. -/
def Run.Caps {ε α : Type} (P : Prop) (x y : Run ε α) : Prop :=
  y = x ∨ P ∧ y = .abort .depthOverflow

namespace Run.Caps

variable {ε α β : Type} {P Q : Prop}

theorem refl (x : Run ε α) : x.Caps P x := .inl rfl

theorem mono {x y : Run ε α} (h : x.Caps P y) (hQ : P → Q) : x.Caps Q y :=
  h.imp_right fun h => ⟨hQ h.1, h.2⟩

theorem bind {x y : Run ε α} {f g : α → Run ε β} (h : x.Caps P y) (hf : ∀ a, (f a).Caps P (g a)) :
    (x >>= f).Caps P (y >>= g) := by
  rcases h with rfl | ⟨hP, rfl⟩
  · cases y with
    | error _ => exact refl _
    | ok a => exact hf a
  · exact .inr ⟨hP, rfl⟩

end Run.Caps

mutual

theorem Value.quoteCounted_caps : ∀ (fuel depth : Nat) (v : Value),
    (v.quote fuel depth).Caps (maxDepth < depth + fuel) (v.quoteCounted fuel depth)
  | 0, _, _ => .refl _
  | fuel + 1, depth, v => by
    have hlt : maxDepth < depth + fuel → maxDepth < depth + (fuel + 1) := Nat.lt_succ_of_lt
    have hv := fun v => (Value.quoteCounted_caps fuel depth v).mono hlt
    have hc := fun c => (Closure.quoteCounted_caps fuel depth c).mono hlt
    have hn := fun n => (Neutral.quoteCounted_caps fuel depth n).mono hlt
    cases v with
    | neutral n => exact (hn n).bind fun _ => .refl _
    | pi x d c => exact (hv d).bind fun _ => (hc c).bind fun _ => .refl _
    | lam x b => exact (hc b).bind fun _ => .refl _
    | succ n => exact (hv n).bind fun _ => .refl _
    | vec a n => exact (hv a).bind fun _ => (hv n).bind fun _ => .refl _
    | nil a => exact (hv a).bind fun _ => .refl _
    | cons a n x xs =>
      exact (hv a).bind fun _ => (hv n).bind fun _ => (hv x).bind fun _ => (hv xs).bind fun _ => .refl _
    | _ => exact .refl _

theorem Neutral.quoteCounted_caps : ∀ (fuel depth : Nat) (n : Neutral),
    (n.quote fuel depth).Caps (maxDepth < depth + fuel) (n.quoteCounted fuel depth)
  | 0, _, _ => .refl _
  | fuel + 1, depth, n => by
    have hlt : maxDepth < depth + fuel → maxDepth < depth + (fuel + 1) := Nat.lt_succ_of_lt
    have hv := fun v => (Value.quoteCounted_caps fuel depth v).mono hlt
    have hn := fun n => (Neutral.quoteCounted_caps fuel depth n).mono hlt
    cases n with
    | free x => exact .refl _
    | app f v => exact (hn f).bind fun _ => (hv v).bind fun _ => .refl _
    | natElim m b s n =>
      exact (hn n).bind fun _ => (hv m).bind fun _ => (hv b).bind fun _ => (hv s).bind fun _ => .refl _
    | vecElim a m b s n xs =>
      exact (hn xs).bind fun _ => (hv a).bind fun _ => (hv m).bind fun _ => (hv b).bind fun _ =>
        (hv s).bind fun _ => (hv n).bind fun _ => .refl _

theorem Closure.quoteCounted_caps : ∀ (fuel depth : Nat) (c : Closure),
    (c.quote fuel depth).Caps (maxDepth < depth + fuel) (c.quoteCounted fuel depth)
  | 0, _, _ => .refl _
  | fuel + 1, depth, c => by
    rw [Closure.quote, Closure.quoteCounted]
    refine (Run.Caps.refl _).bind fun v => ?_
    split
    · exact (Value.quoteCounted_caps fuel (depth + 1) v).mono (by omega)
    · exact .inr ⟨by omega, rfl⟩

end

/-! ## Room for binders -/

mutual

/-- Under `depth` binders, the binders of the term can be counted. -/
def Synth.Fits (depth : Nat) : Synth → Prop
  | .ann _ e t => e.Fits depth ∧ t.Fits depth
  | .star _ => True
  | .pi _ _ d c => d.Fits depth ∧ depth < maxDepth ∧ c.Fits (depth + 1)
  | .bound _ _ => True
  | .free _ _ => True
  | .app _ h a => h.Fits depth ∧ a.Fits depth
  | .nat _ => True
  | .zero _ => True
  | .succ _ n => n.Fits depth
  | .natElim _ m b s n => m.Fits depth ∧ b.Fits depth ∧ s.Fits depth ∧ n.Fits depth
  | .vec _ a n => a.Fits depth ∧ n.Fits depth
  | .nil _ a => a.Fits depth
  | .cons _ a n x xs => a.Fits depth ∧ n.Fits depth ∧ x.Fits depth ∧ xs.Fits depth
  | .vecElim _ a m b s n xs => a.Fits depth ∧ m.Fits depth ∧ b.Fits depth ∧ s.Fits depth ∧
      n.Fits depth ∧ xs.Fits depth

/-- Under `depth` binders, the binders of the term can be counted. -/
def Check.Fits (depth : Nat) : Check → Prop
  | .synth t => t.Fits depth
  | .lam _ _ b => depth < maxDepth ∧ b.Fits (depth + 1)
  | .ascribe _ t e => t.Fits depth ∧ e.Fits depth
  | .sealed _ e => e.Fits depth

end

theorem Name.fits_quote? {depth : Nat} {x : Name} {t : Synth} (h : x.quote? depth = .ok t) :
    t.Fits depth := by
  unfold Name.quote? at h
  split at h
  · split at h
    · cases h
      trivial
    · cases h
  · cases h
    trivial

mutual

/-- The normal forms that counted read-back gives are those whose binders can be counted. -/
theorem Value.quoteCounted_eq_ok : ∀ {fuel depth : Nat} {v : Value} {t : Check},
    v.quoteCounted fuel depth = .ok t ↔ v.quote fuel depth = .ok t ∧ t.Fits depth
  | 0, _, _, _ => iff_of_false (by rintro ⟨⟩) (by rintro ⟨⟨⟩, _⟩)
  | fuel + 1, depth, v, t => by
    have hv := fun v t => @Value.quoteCounted_eq_ok fuel depth v t
    have hc := fun c t => @Closure.quoteCounted_eq_ok fuel depth c t
    have hn := fun n t => @Neutral.quoteCounted_eq_ok fuel depth n t
    cases v with
    | neutral n =>
      simp only [Value.quote, Value.quoteCounted, Run.bind_eq_ok, Run.pure_eq_ok, hn]
      constructor
      · rintro ⟨n, ⟨hn, hn'⟩, rfl⟩
        exact ⟨⟨n, hn, rfl⟩, hn'⟩
      · rintro ⟨⟨n, hn, rfl⟩, hn'⟩
        exact ⟨n, ⟨hn, hn'⟩, rfl⟩
    | pi x d c =>
      simp only [Value.quote, Value.quoteCounted, Run.bind_eq_ok, Run.pure_eq_ok, hv, hc]
      constructor
      · rintro ⟨d, ⟨hd, hd'⟩, c, ⟨hc, hc'⟩, rfl⟩
        exact ⟨⟨d, hd, c, hc, rfl⟩, hd', hc'⟩
      · rintro ⟨⟨d, hd, c, hc, rfl⟩, hd', hc'⟩
        exact ⟨d, ⟨hd, hd'⟩, c, ⟨hc, hc'⟩, rfl⟩
    | lam x b =>
      simp only [Value.quote, Value.quoteCounted, Run.bind_eq_ok, Run.pure_eq_ok, hc]
      constructor
      · rintro ⟨b, ⟨hb, hb'⟩, rfl⟩
        exact ⟨⟨b, hb, rfl⟩, hb'⟩
      · rintro ⟨⟨b, hb, rfl⟩, hb'⟩
        exact ⟨b, ⟨hb, hb'⟩, rfl⟩
    | succ n =>
      simp only [Value.quote, Value.quoteCounted, Run.bind_eq_ok, Run.pure_eq_ok, hv]
      constructor
      · rintro ⟨n, ⟨hn, hn'⟩, rfl⟩
        exact ⟨⟨n, hn, rfl⟩, hn'⟩
      · rintro ⟨⟨n, hn, rfl⟩, hn'⟩
        exact ⟨n, ⟨hn, hn'⟩, rfl⟩
    | vec a n =>
      simp only [Value.quote, Value.quoteCounted, Run.bind_eq_ok, Run.pure_eq_ok, hv]
      constructor
      · rintro ⟨a, ⟨ha, ha'⟩, n, ⟨hn, hn'⟩, rfl⟩
        exact ⟨⟨a, ha, n, hn, rfl⟩, ha', hn'⟩
      · rintro ⟨⟨a, ha, n, hn, rfl⟩, ha', hn'⟩
        exact ⟨a, ⟨ha, ha'⟩, n, ⟨hn, hn'⟩, rfl⟩
    | nil a =>
      simp only [Value.quote, Value.quoteCounted, Run.bind_eq_ok, Run.pure_eq_ok, hv]
      constructor
      · rintro ⟨a, ⟨ha, ha'⟩, rfl⟩
        exact ⟨⟨a, ha, rfl⟩, ha'⟩
      · rintro ⟨⟨a, ha, rfl⟩, ha'⟩
        exact ⟨a, ⟨ha, ha'⟩, rfl⟩
    | cons a n x xs =>
      simp only [Value.quote, Value.quoteCounted, Run.bind_eq_ok, Run.pure_eq_ok, hv]
      constructor
      · rintro ⟨a, ⟨ha, ha'⟩, n, ⟨hn, hn'⟩, x, ⟨hx, hx'⟩, xs, ⟨hxs, hxs'⟩, rfl⟩
        exact ⟨⟨a, ha, n, hn, x, hx, xs, hxs, rfl⟩, ha', hn', hx', hxs'⟩
      · rintro ⟨⟨a, ha, n, hn, x, hx, xs, hxs, rfl⟩, ha', hn', hx', hxs'⟩
        exact ⟨a, ⟨ha, ha'⟩, n, ⟨hn, hn'⟩, x, ⟨hx, hx'⟩, xs, ⟨hxs, hxs'⟩, rfl⟩
    | _ =>
      simp only [Value.quote, Value.quoteCounted, Run.pure_eq_ok]
      exact ⟨fun h => ⟨h, h ▸ trivial⟩, And.left⟩

theorem Neutral.quoteCounted_eq_ok : ∀ {fuel depth : Nat} {n : Neutral} {t : Synth},
    n.quoteCounted fuel depth = .ok t ↔ n.quote fuel depth = .ok t ∧ t.Fits depth
  | 0, _, _, _ => iff_of_false (by rintro ⟨⟩) (by rintro ⟨⟨⟩, _⟩)
  | fuel + 1, depth, n, t => by
    have hv := fun v t => @Value.quoteCounted_eq_ok fuel depth v t
    have hn := fun n t => @Neutral.quoteCounted_eq_ok fuel depth n t
    cases n with
    | free x =>
      simp only [Neutral.quote, Neutral.quoteCounted]
      exact ⟨fun h => ⟨h, Name.fits_quote? h⟩, And.left⟩
    | app f v =>
      simp only [Neutral.quote, Neutral.quoteCounted, Run.bind_eq_ok, Run.pure_eq_ok, hn, hv]
      constructor
      · rintro ⟨f, ⟨hf, hf'⟩, v, ⟨hv, hv'⟩, rfl⟩
        exact ⟨⟨f, hf, v, hv, rfl⟩, hf', hv'⟩
      · rintro ⟨⟨f, hf, v, hv, rfl⟩, hf', hv'⟩
        exact ⟨f, ⟨hf, hf'⟩, v, ⟨hv, hv'⟩, rfl⟩
    | natElim m b s n =>
      simp only [Neutral.quote, Neutral.quoteCounted, Run.bind_eq_ok, Run.pure_eq_ok, hn, hv]
      constructor
      · rintro ⟨n, ⟨hn, hn'⟩, m, ⟨hm, hm'⟩, b, ⟨hb, hb'⟩, s, ⟨hs, hs'⟩, rfl⟩
        exact ⟨⟨n, hn, m, hm, b, hb, s, hs, rfl⟩, hm', hb', hs', hn'⟩
      · rintro ⟨⟨n, hn, m, hm, b, hb, s, hs, rfl⟩, hm', hb', hs', hn'⟩
        exact ⟨n, ⟨hn, hn'⟩, m, ⟨hm, hm'⟩, b, ⟨hb, hb'⟩, s, ⟨hs, hs'⟩, rfl⟩
    | vecElim a m b s n xs =>
      simp only [Neutral.quote, Neutral.quoteCounted, Run.bind_eq_ok, Run.pure_eq_ok, hn, hv]
      constructor
      · rintro ⟨xs, ⟨hxs, hxs'⟩, a, ⟨ha, ha'⟩, m, ⟨hm, hm'⟩, b, ⟨hb, hb'⟩, s, ⟨hs, hs'⟩, n, ⟨hn, hn'⟩,
          rfl⟩
        exact ⟨⟨xs, hxs, a, ha, m, hm, b, hb, s, hs, n, hn, rfl⟩, ha', hm', hb', hs', hn', hxs'⟩
      · rintro ⟨⟨xs, hxs, a, ha, m, hm, b, hb, s, hs, n, hn, rfl⟩, ha', hm', hb', hs', hn', hxs'⟩
        exact ⟨xs, ⟨hxs, hxs'⟩, a, ⟨ha, ha'⟩, m, ⟨hm, hm'⟩, b, ⟨hb, hb'⟩, s, ⟨hs, hs'⟩, n, ⟨hn, hn'⟩,
          rfl⟩

theorem Closure.quoteCounted_eq_ok : ∀ {fuel depth : Nat} {c : Closure} {t : Check},
    c.quoteCounted fuel depth = .ok t ↔
      c.quote fuel depth = .ok t ∧ depth < maxDepth ∧ t.Fits (depth + 1)
  | 0, _, _, _ => iff_of_false (by rintro ⟨⟩) (by rintro ⟨⟨⟩, _⟩)
  | fuel + 1, depth, c, t => by
    have hv := fun v => @Value.quoteCounted_eq_ok fuel (depth + 1) v t
    simp only [Closure.quote, Closure.quoteCounted, Run.bind_eq_ok]
    by_cases hdepth : depth < maxDepth
    · simp only [if_pos hdepth, hv]
      constructor
      · rintro ⟨v, hc, hv, ht⟩
        exact ⟨⟨v, hc, hv⟩, hdepth, ht⟩
      · rintro ⟨⟨v, hc, hv⟩, _, ht⟩
        exact ⟨v, hc, hv, ht⟩
    · simp only [if_neg hdepth]
      constructor
      · rintro ⟨v, _, ⟨⟩⟩
      · rintro ⟨_, hlt, _⟩
        exact absurd hlt hdepth

end

end TypeInType
