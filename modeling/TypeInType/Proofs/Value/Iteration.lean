import TypeInType.Proofs.Typing.Fuel

/-!
# Eliminators iterate their step

An eliminator goes down the constructors of a value before it applies anything. What it gives is its step
iterated over these constructors, from the inside out, on top of what it gives for the value below them:
the base for `Zero` and `Nil`, and an elimination that waits for a neutral value.
-/

namespace TypeInType

open Run (Lags SameEnd Settles bind_eq_ok)

/-! ## Iteration -/

/-- Apply a step to each list of arguments in turn, the last list first, and each time to what it gave
before: to `r` in the beginning. -/
def Value.iterate (fuel : Nat) (step : Value) : List (List Value) → Value → Run Empty Value
  | [], r => return r
  | args :: rest, r => do
    let x ← step.iterate fuel rest r
    step.applyAll fuel (args ++ [x])

theorem Value.iterate_le (fuel : Nat) (step : Value) : ∀ (steps : List (List Value)) (r : Value),
    (step.iterate fuel steps r).Le (step.iterate (fuel + 1) steps r)
  | [], _ => .refl _
  | args :: rest, r => (iterate_le fuel step rest r).bind fun x =>
    Value.applyAll_le fuel (args ++ [x]) step

theorem Value.applyAll_mono {fuel fuel' : Nat} (h : fuel ≤ fuel') (f : Value) (args : List Value) :
    (f.applyAll fuel args).Le (f.applyAll fuel' args) :=
  .of_succ (fun n => Value.applyAll_le n args f) h

/-- A call that goes down one constructor and then applies the step. -/
theorem Run.Lags.step {k : Nat} {step r : Value} {args : List Value} {rest : List (List Value)}
    {f h : Nat → Run Empty Value} (hzero : f 0 = .error .outOfFuel)
    (hsucc : ∀ fuel, f (fuel + 1) = h fuel >>= fun x => step.applyAll fuel (args ++ [x]))
    (hlags : Lags k h (step.iterate · rest r)) : Lags (k + 1) f (step.iterate · (args :: rest) r) where
  le
    | 0 => .inl hzero
    | fuel + 1 => by
      rw [hsucc]
      refine ((hlags.le fuel).trans (Value.iterate_le fuel step rest r)).bind fun x => ?_
      exact Value.applyAll_le fuel (args ++ [x]) step
  ge fuel := by
    rw [← Nat.add_assoc, hsucc]
    exact (hlags.ge fuel).bind fun x => Value.applyAll_mono (Nat.le_add_right fuel k) step _

/-- A call that applies no step. -/
theorem Run.Lags.base {step r : Value} {f : Nat → Run Empty Value} (hzero : f 0 = .error .outOfFuel)
    (hsucc : ∀ fuel, f (fuel + 1) = .ok r) : Lags 1 f (step.iterate · [] r) where
  le
    | 0 => .inl hzero
    | fuel + 1 => .inr (hsucc fuel)
  ge fuel := .inr (hsucc fuel).symm

/-! ## Natural numbers -/

namespace Value

/-- A value under `k` successors. -/
def succs : Nat → Value → Value
  | 0, v => v
  | k + 1, v => .succ (succs k v)

/-- What the step takes at each of `k` successors: the number below it. -/
def natSteps : Nat → Value → List (List Value)
  | 0, _ => []
  | k + 1, v => [succs k v] :: natSteps k v

theorem applyAll_two (fuel : Nat) (s x y : Value) :
    s.applyAll fuel [x, y] = s.apply fuel x >>= fun f => f.apply fuel y := by
  simp only [applyAll, List.foldlM_cons, List.foldlM_nil, bind_pure]

theorem applyAll_four (fuel : Nat) (s x y z w : Value) :
    s.applyAll fuel [x, y, z, w] = s.apply fuel x >>= fun f => f.apply fuel y >>= fun f =>
      f.apply fuel z >>= fun f => f.apply fuel w := by
  simp only [applyAll, List.foldlM_cons, List.foldlM_nil, bind_pure]

theorem natElim_lags {m b s v r : Value} (hv : ∀ fuel, v.natElim (fuel + 1) m b s = .ok r) :
    ∀ k, Lags (k + 1) ((succs k v).natElim · m b s) (s.iterate · (natSteps k v) r)
  | 0 => .base rfl hv
  | k + 1 => by
    refine .step rfl (fun fuel => ?_) (natElim_lags hv k)
    simp only [succs, natElim, List.singleton_append, applyAll_two]

/-! ## Vectors -/

/-- What a `Cons` holds besides its tail. -/
structure Cell where
  elem : Value
  len : Value
  head : Value

/-- The cells in front of a vector, the first one outermost. -/
def consed (cells : List Cell) (v : Value) : Value :=
  cells.foldr (fun c xs => .cons c.elem c.len c.head xs) v

/-- What the step takes at each of the cells: the length, the head and the tail. -/
def vecSteps : List Cell → Value → List (List Value)
  | [], _ => []
  | c :: cells, v => [c.len, c.head, consed cells v] :: vecSteps cells v

/-- The length that the innermost of the cells gives to its tail, or `n` if there are none. -/
def innermostLen (cells : List Cell) (n : Value) : Value :=
  (cells.getLast?.map Cell.len).getD n

theorem innermostLen_cons (c : Cell) (cells : List Cell) (n : Value) :
    innermostLen (c :: cells) n = innermostLen cells c.len := by
  simp only [innermostLen, List.getLast?_cons, Option.map_some, Option.getD_some]
  cases cells.getLast? <;> rfl

theorem vecElim_lags {a m b s v r : Value} : ∀ (cells : List Cell) (n : Value),
    (∀ fuel, v.vecElim (fuel + 1) a m b s (innermostLen cells n) = .ok r) →
      Lags (cells.length + 1) ((consed cells v).vecElim · a m b s n)
        (s.iterate · (vecSteps cells v) r)
  | [], _, hv => .base rfl hv
  | c :: cells, n, hv => by
    rw [innermostLen_cons] at hv
    refine .step rfl (fun fuel => ?_) (vecElim_lags cells c.len hv)
    simp only [consed, List.foldr_cons, vecElim, List.cons_append, List.nil_append, applyAll_four]

/-! ## Read-back of eliminations that wait -/

/-- With enough fuel, the normal form of the value under `depth` binders is `t`. -/
def HasNormalForm (v : Value) (depth : Nat) (t : Check) : Prop :=
  Settles (v.quote · depth) t

theorem HasNormalForm.of_eq {fuel depth : Nat} {v : Value} {t : Check} (h : v.quote fuel depth = .ok t) :
    v.HasNormalForm depth t :=
  Settles.of_eq (Value.quote_le · depth v) h

theorem hasNormalForm_neutral {depth : Nat} {w : Neutral} {t : Check} :
    (neutral w).HasNormalForm depth t ↔ ∃ u, Settles (w.quote · depth) u ∧ t = .synth u := by
  constructor
  · rintro ⟨n, hn⟩
    obtain ⟨u, hu, ht⟩ := bind_eq_ok.mp (hn (n + 1) (Nat.le_succ n))
    cases ht
    exact ⟨u, .of_eq (Neutral.quote_le · depth w) hu, rfl⟩
  · rintro ⟨u, hu, rfl⟩
    exact .succ (hu.bind (.pure _))

theorem hasNormalForm_natElim {depth : Nat} {m b s : Value} {w : Neutral} {t : Check} :
    (neutral (.natElim m b s w)).HasNormalForm depth t ↔ ∃ m' b' s' w',
      m.HasNormalForm depth m' ∧ b.HasNormalForm depth b' ∧ s.HasNormalForm depth s' ∧
        (neutral w).HasNormalForm depth w' ∧ t = .synth (.natElim none m' b' s' w') := by
  simp only [hasNormalForm_neutral]
  constructor
  · rintro ⟨u, ⟨n, hn⟩, rfl⟩
    obtain ⟨w', hw, hu⟩ := bind_eq_ok.mp (hn (n + 1) (Nat.le_succ n))
    obtain ⟨m', hm, hu⟩ := bind_eq_ok.mp hu
    obtain ⟨b', hb, hu⟩ := bind_eq_ok.mp hu
    obtain ⟨s', hs, hu⟩ := bind_eq_ok.mp hu
    cases hu
    exact ⟨m', b', s', .synth w', .of_eq hm, .of_eq hb, .of_eq hs,
      ⟨w', .of_eq (Neutral.quote_le · depth w) hw, rfl⟩, rfl⟩
  · rintro ⟨m', b', s', _, hm, hb, hs, ⟨w', hw, rfl⟩, rfl⟩
    exact ⟨_, .succ (hw.bind (hm.bind (hb.bind (hs.bind (.pure _))))), rfl⟩

theorem hasNormalForm_vecElim {depth : Nat} {a m b s n : Value} {w : Neutral} {t : Check} :
    (neutral (.vecElim a m b s n w)).HasNormalForm depth t ↔ ∃ a' m' b' s' n' w',
      a.HasNormalForm depth a' ∧ m.HasNormalForm depth m' ∧ b.HasNormalForm depth b' ∧
        s.HasNormalForm depth s' ∧ n.HasNormalForm depth n' ∧ (neutral w).HasNormalForm depth w' ∧
          t = .synth (.vecElim none a' m' b' s' n' w') := by
  simp only [hasNormalForm_neutral]
  constructor
  · rintro ⟨u, ⟨k, hk⟩, rfl⟩
    obtain ⟨w', hw, hu⟩ := bind_eq_ok.mp (hk (k + 1) (Nat.le_succ k))
    obtain ⟨a', ha, hu⟩ := bind_eq_ok.mp hu
    obtain ⟨m', hm, hu⟩ := bind_eq_ok.mp hu
    obtain ⟨b', hb, hu⟩ := bind_eq_ok.mp hu
    obtain ⟨s', hs, hu⟩ := bind_eq_ok.mp hu
    obtain ⟨n', hn, hu⟩ := bind_eq_ok.mp hu
    cases hu
    exact ⟨a', m', b', s', n', .synth w', .of_eq ha, .of_eq hm, .of_eq hb, .of_eq hs, .of_eq hn,
      ⟨w', .of_eq (Neutral.quote_le · depth w) hw, rfl⟩, rfl⟩
  · rintro ⟨a', m', b', s', n', _, ha, hm, hb, hs, hn, ⟨w', hw, rfl⟩, rfl⟩
    exact ⟨_, .succ (hw.bind (ha.bind (hm.bind (hb.bind (hs.bind (hn.bind (.pure _))))))), rfl⟩

end Value

/-- An eliminator comes to the same end as the iteration of its step over the constructors in front of a
value. The iteration starts from the base at `Zero` and `Nil`, and from an elimination that waits at a
neutral value: for a vector, at the length that the innermost `Cons` gives. Read-back of that elimination
reads back its parts and the neutral value. -/
theorem eliminators_iterate (a m b s n : Value) :
    (∀ k, SameEnd ((Value.succs k .zero).natElim · m b s) (s.iterate · (Value.natSteps k .zero) b)) ∧
    (∀ k w, SameEnd ((Value.succs k (.neutral w)).natElim · m b s)
      (s.iterate · (Value.natSteps k (.neutral w)) (.neutral (.natElim m b s w)))) ∧
    (∀ cells e, SameEnd ((Value.consed cells (.nil e)).vecElim · a m b s n)
      (s.iterate · (Value.vecSteps cells (.nil e)) b)) ∧
    (∀ cells w, SameEnd ((Value.consed cells (.neutral w)).vecElim · a m b s n)
      (s.iterate · (Value.vecSteps cells (.neutral w))
        (.neutral (.vecElim a m b s (Value.innermostLen cells n) w)))) ∧
    (∀ depth w t, (Value.neutral (.natElim m b s w)).HasNormalForm depth t ↔ ∃ m' b' s' w',
      m.HasNormalForm depth m' ∧ b.HasNormalForm depth b' ∧ s.HasNormalForm depth s' ∧
        (Value.neutral w).HasNormalForm depth w' ∧ t = .synth (.natElim none m' b' s' w')) ∧
    ∀ cells depth w t,
      (Value.neutral (.vecElim a m b s (Value.innermostLen cells n) w)).HasNormalForm depth t ↔
        ∃ a' m' b' s' n' w', a.HasNormalForm depth a' ∧ m.HasNormalForm depth m' ∧
          b.HasNormalForm depth b' ∧ s.HasNormalForm depth s' ∧
            (Value.innermostLen cells n).HasNormalForm depth n' ∧
              (Value.neutral w).HasNormalForm depth w' ∧
                t = .synth (.vecElim none a' m' b' s' n' w') := by
  refine ⟨fun k => ?_, fun k w => ?_, fun cells e => ?_, fun cells w => ?_, fun _ _ _ => ?_,
    fun _ _ _ _ => ?_⟩
  · exact (Value.natElim_lags (fun _ => rfl) k).sameEnd
  · exact (Value.natElim_lags (fun _ => rfl) k).sameEnd
  · exact (Value.vecElim_lags cells n fun _ => rfl).sameEnd
  · exact (Value.vecElim_lags cells n fun _ => rfl).sameEnd
  · exact Value.hasNormalForm_natElim
  · exact Value.hasNormalForm_vecElim

end TypeInType
