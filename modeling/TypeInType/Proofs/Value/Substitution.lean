import TypeInType.Proofs.Value.Along

/-!
# Substitution and environments

There are two ways to give an index the value of a name: to put the name in its place and evaluate, or to
evaluate with the value of the name in the environment. Closures keep what they were made from, so the
results differ, but no evaluation and no read-back can tell them apart.
-/

namespace TypeInType

/-! ## Every value is along itself -/

section Every

variable {P : Name → Prop}

theorem OrGlobal.of_forall (hP : ∀ x, P x) : ∀ x, OrGlobal P x
  | .global _ => trivial
  | .hyp l => hP (.hyp l)
  | .quote l => hP (.quote l)

mutual

/-- Some bound on the indices holds of any term. -/
theorem Synth.exists_scoped (hP : ∀ x, P x) : ∀ t : Synth, ∃ k, ∀ n, k ≤ n → t.Scoped P n
  | .ann _ e t => by
    obtain ⟨k₁, h₁⟩ := Check.exists_scoped hP e
    obtain ⟨k₂, h₂⟩ := Check.exists_scoped hP t
    exact ⟨k₁ + k₂, fun n hn => ⟨h₁ n (by omega), h₂ n (by omega)⟩⟩
  | .star _ => ⟨0, fun _ _ => trivial⟩
  | .pi _ _ d c => by
    obtain ⟨k₁, h₁⟩ := Check.exists_scoped hP d
    obtain ⟨k₂, h₂⟩ := Check.exists_scoped hP c
    exact ⟨k₁ + k₂, fun n hn => ⟨h₁ n (by omega), h₂ (n + 1) (by omega)⟩⟩
  | .bound _ i => ⟨i + 1, fun _ hn => hn⟩
  | .free _ x => ⟨0, fun _ _ => hP x⟩
  | .app _ h a => by
    obtain ⟨k₁, h₁⟩ := Synth.exists_scoped hP h
    obtain ⟨k₂, h₂⟩ := Check.exists_scoped hP a
    exact ⟨k₁ + k₂, fun n hn => ⟨h₁ n (by omega), h₂ n (by omega)⟩⟩
  | .nat _ => ⟨0, fun _ _ => trivial⟩
  | .zero _ => ⟨0, fun _ _ => trivial⟩
  | .succ _ n => Check.exists_scoped hP n
  | .natElim _ m b s n => by
    obtain ⟨k₁, h₁⟩ := Check.exists_scoped hP m
    obtain ⟨k₂, h₂⟩ := Check.exists_scoped hP b
    obtain ⟨k₃, h₃⟩ := Check.exists_scoped hP s
    obtain ⟨k₄, h₄⟩ := Check.exists_scoped hP n
    exact ⟨k₁ + k₂ + k₃ + k₄, fun n hn =>
      ⟨h₁ n (by omega), h₂ n (by omega), h₃ n (by omega), h₄ n (by omega)⟩⟩
  | .vec _ a n => by
    obtain ⟨k₁, h₁⟩ := Check.exists_scoped hP a
    obtain ⟨k₂, h₂⟩ := Check.exists_scoped hP n
    exact ⟨k₁ + k₂, fun n hn => ⟨h₁ n (by omega), h₂ n (by omega)⟩⟩
  | .nil _ a => Check.exists_scoped hP a
  | .cons _ a n x xs => by
    obtain ⟨k₁, h₁⟩ := Check.exists_scoped hP a
    obtain ⟨k₂, h₂⟩ := Check.exists_scoped hP n
    obtain ⟨k₃, h₃⟩ := Check.exists_scoped hP x
    obtain ⟨k₄, h₄⟩ := Check.exists_scoped hP xs
    exact ⟨k₁ + k₂ + k₃ + k₄, fun n hn =>
      ⟨h₁ n (by omega), h₂ n (by omega), h₃ n (by omega), h₄ n (by omega)⟩⟩
  | .vecElim _ a m b s n xs => by
    obtain ⟨k₁, h₁⟩ := Check.exists_scoped hP a
    obtain ⟨k₂, h₂⟩ := Check.exists_scoped hP m
    obtain ⟨k₃, h₃⟩ := Check.exists_scoped hP b
    obtain ⟨k₄, h₄⟩ := Check.exists_scoped hP s
    obtain ⟨k₅, h₅⟩ := Check.exists_scoped hP n
    obtain ⟨k₆, h₆⟩ := Check.exists_scoped hP xs
    exact ⟨k₁ + k₂ + k₃ + k₄ + k₅ + k₆, fun n hn => ⟨h₁ n (by omega), h₂ n (by omega),
      h₃ n (by omega), h₄ n (by omega), h₅ n (by omega), h₆ n (by omega)⟩⟩

theorem Check.exists_scoped (hP : ∀ x, P x) : ∀ t : Check, ∃ k, ∀ n, k ≤ n → t.Scoped P n
  | .synth t => Synth.exists_scoped hP t
  | .lam _ _ b => by
    obtain ⟨k, h⟩ := Check.exists_scoped hP b
    exact ⟨k, fun n hn => h (n + 1) (by omega)⟩
  | .ascribe _ t e => by
    obtain ⟨k₁, h₁⟩ := Check.exists_scoped hP t
    obtain ⟨k₂, h₂⟩ := Check.exists_scoped hP e
    exact ⟨k₁ + k₂, fun n hn => ⟨h₁ n (by omega), h₂ n (by omega)⟩⟩
  | .sealed _ e => Synth.exists_scoped hP e

end

mutual

theorem Value.scopedBy_any (hP : ∀ x, P x) : ∀ v : Value, v.ScopedBy .any P
  | .neutral n => Neutral.scopedBy_any hP n
  | .star => trivial
  | .pi _ d c => ⟨Value.scopedBy_any hP d, Closure.scopedBy_any hP c⟩
  | .lam _ b => Closure.scopedBy_any hP b
  | .nat => trivial
  | .zero => trivial
  | .succ n => Value.scopedBy_any hP n
  | .vec a n => ⟨Value.scopedBy_any hP a, Value.scopedBy_any hP n⟩
  | .nil a => Value.scopedBy_any hP a
  | .cons a n x xs => ⟨Value.scopedBy_any hP a, Value.scopedBy_any hP n, Value.scopedBy_any hP x,
      Value.scopedBy_any hP xs⟩

theorem Neutral.scopedBy_any (hP : ∀ x, P x) : ∀ n : Neutral, n.ScopedBy .any P
  | .free x => hP x
  | .app f v => ⟨Neutral.scopedBy_any hP f, Value.scopedBy_any hP v⟩
  | .natElim m b s n => ⟨Value.scopedBy_any hP m, Value.scopedBy_any hP b, Value.scopedBy_any hP s,
      Neutral.scopedBy_any hP n⟩
  | .vecElim a m b s n xs => ⟨Value.scopedBy_any hP a, Value.scopedBy_any hP m,
      Value.scopedBy_any hP b, Value.scopedBy_any hP s, Value.scopedBy_any hP n,
      Neutral.scopedBy_any hP xs⟩

theorem Closure.scopedBy_any (hP : ∀ x, P x) : ∀ c : Closure, c.ScopedBy .any P
  | ⟨⟨globals, locals⟩, b⟩ => by
    obtain ⟨k, hk⟩ := Check.exists_scoped (OrGlobal.of_forall hP) b
    exact ⟨⟨globalsScopedBy_any hP globals, localsScopedBy_any hP locals⟩, k, trivial,
      hk (k + 1) (Nat.le_succ k)⟩

theorem globalsScopedBy_any (hP : ∀ x, P x) : ∀ globals : List (String × Value),
    GlobalsScopedBy .any P globals
  | [] => trivial
  | (_, v) :: globals => ⟨Value.scopedBy_any hP v, globalsScopedBy_any hP globals⟩

theorem localsScopedBy_any (hP : ∀ x, P x) (locals : List Value) :
    LocalsScopedBy .any P locals := by
  cases locals with
  | nil => trivial
  | cons v locals => exact ⟨Value.scopedBy_any hP v, localsScopedBy_any hP locals⟩

end

end Every

theorem Value.along_self (v : Value) : v.Along Eq v :=
  (Value.scopedBy_any (P := fun _ => True) (fun _ => trivial) v).along fun _ _ => rfl

/-! ## A name, or its value in the environment -/

/-- The index after the last local has the value of `r` on the right, and is not used on the left. -/
theorem Env.along_replaced {globals : List (String × Value)} {locals : List Value} {r : Name}
    {u : Value} (hu : Env.value ⟨globals, locals⟩ (.free r) = .ok u) :
    Env.Along Eq (Var.Replaced r locals.length) ⟨globals, locals⟩ ⟨globals, locals ++ [u]⟩ := by
  refine .mk fun a b hab => ?_
  cases hab with
  | here =>
    have hlast : (locals ++ [u])[locals.length]? = some u := List.getElem?_concat_length
    rw [hu]
    simp only [Env.value, hlast]
    exact .ok u.along_self
  | @bound j hj =>
    have hlookup : (locals ++ [u])[j]? = locals[j]? := by
      rcases Nat.lt_or_gt_of_ne hj with hlt | hgt
      · exact List.getElem?_append_left hlt
      · rw [List.getElem?_eq_none (by simp only [List.length_append, List.length_singleton]; omega),
          List.getElem?_eq_none (Nat.le_of_lt hgt)]
    simp only [Env.value, hlookup]
    cases locals[j]? with
    | none => exact .fault _
    | some v => exact .ok v.along_self
  | @free x =>
    cases x with
    | global x =>
      simp only [Env.value, Env.global?]
      cases globals.lookup x with
      | none => exact .fault _
      | some v => exact .ok v.along_self
    | hyp l => exact .ok (.neutral (.free rfl))
    | quote l => exact .ok (.neutral (.free rfl))

theorem readsAlong_eq (d : Nat) : ReadsAlong Eq Eq d d where
  read := by
    rintro x _ rfl
    cases hx : x.read? d with
    | some a => exact .var hx hx rfl
    | none =>
      cases x with
      | global x => cases hx
      | hyp l => cases hx
      | quote l =>
        simp only [Name.read?, indexOfLevel?, Option.map_eq_none_iff, ite_eq_right_iff, reduceCtorEq,
          imp_false, Nat.not_lt] at hx
        obtain ⟨k, rfl⟩ := Nat.exists_eq_add_of_le hx
        exact .stray k
  fresh _ := rfl

/-- Values that are stuck on the same names have the same normal forms. -/
theorem Value.Along.quote_eq {v v' : Value} (h : v.Along Eq v') (fuel depth : Nat) :
    v.quote fuel depth = v'.quote fuel depth :=
  ((Value.quote_along fuel (readsAlong_eq depth) h).mono (fun _ _ he => he) fun _ _ ht => ht.eq).eq

/-- Let `u` be the value of the name `r`. A term in which `r` has replaced the index that counts the
locals, and the term itself with `u` as the outermost local, evaluate in the same way: on every amount of
fuel both use it up, both stop at the same fault, or both have values, which no read-back tells apart. -/
theorem eval_subst_eq_eval_extended {globals : List (String × Value)} {locals : List Value} {s : Span}
    {r : Name} {u : Value} {n : Nat} (hu : (Synth.free s r).eval n ⟨globals, locals⟩ = .ok u) :
    (∀ (t : Synth) (fuel : Nat),
      ((t.subst locals.length (.free s r)).eval fuel ⟨globals, locals⟩).Rel Eq
        (fun v v' => ∀ fuel depth, v.quote fuel depth = v'.quote fuel depth)
        (t.eval fuel ⟨globals, locals ++ [u]⟩)) ∧
      ∀ (t : Check) (fuel : Nat),
        ((t.subst locals.length (.free s r)).eval fuel ⟨globals, locals⟩).Rel Eq
          (fun v v' => ∀ fuel depth, v.quote fuel depth = v'.quote fuel depth)
          (t.eval fuel ⟨globals, locals ++ [u]⟩) := by
  have henv : Env.Along Eq (Var.Replaced r locals.length) ⟨globals, locals⟩
      ⟨globals, locals ++ [u]⟩ := by
    cases n with
    | zero => cases hu
    | succ n => exact Env.along_replaced ((Var.eval_toSynth (.free r)).symm.trans hu)
  constructor
  · intro t fuel
    exact (Synth.eval_along fuel (Synth.subst_along s r t _) henv).mono (fun _ _ he => he)
      fun _ _ hv => hv.quote_eq
  · intro t fuel
    exact (Check.eval_along fuel (Check.subst_along s r t _) henv).mono (fun _ _ he => he)
      fun _ _ hv => hv.quote_eq

/-- A function that applies its argument to the local and to the variable outside of it. -/
def applyToBoth : Check :=
  .lam none (some "f")
    (.synth (.app none (.app none (.bound none 0) (.synth (.bound none 1))) (.synth (.bound none 2))))

theorem eval_applyToBoth_subst :
    (Synth.free none (.global "one")).eval 1 ⟨[("one", .succ .zero)], [.zero]⟩ = .ok (.succ .zero) ∧
      ∀ fuel, ((applyToBoth.subst 1 (.free none (.global "one"))).eval fuel
          ⟨[("one", .succ .zero)], [.zero]⟩).Rel Eq
        (fun v v' => ∀ fuel depth, v.quote fuel depth = v'.quote fuel depth)
        (applyToBoth.eval fuel ⟨[("one", .succ .zero)], [.zero, .succ .zero]⟩) := by
  have hone : (Synth.free none (.global "one")).eval 1 ⟨[("one", .succ .zero)], [.zero]⟩ =
      .ok (.succ .zero) := rfl
  exact ⟨hone, (eval_subst_eq_eval_extended hone).2 applyToBoth⟩

end TypeInType
