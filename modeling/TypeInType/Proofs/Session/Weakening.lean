import TypeInType.Proofs.Session.Equality
import TypeInType.Proofs.Typing.Renaming
import TypeInType.Proofs.Value.Depth

/-!
# Weakening

Neither read-back nor checking depends on how many hypotheses there are. A value has the same normal form
at every depth. In a context with one more hypothesis, the levels of the hypotheses that the checker
introduces move up by one, and nothing else changes.
-/

namespace TypeInType

open Run (Agrees Rel)

/-! ## One more hypothesis -/

/-- The names that mean something in a context: the globals and its hypotheses. -/
abbrev Context.Binds (ctx : Context) : Name → Prop :=
  Within (fun _ => True) ctx.depth

/-- The level `n` is taken, so the hypotheses from there on move up. -/
def Renaming.skip (n : Nat) : Renaming where
  level l := if l < n then l else l + 1
  depth := n
  depth' := n + 1
  injective l k := by
    split <;> split <;> omega
  fresh k := by
    have hk : ¬ n + k < n := by omega
    rw [if_neg hk, Nat.add_right_comm]

theorem Renaming.skip_level_of_lt {n l : Nat} (h : l < n) : (skip n).level l = l :=
  if_pos h

theorem Renaming.skip_level_of_ge {n l : Nat} (h : n ≤ l) : (skip n).level l = l + 1 :=
  if_neg (Nat.not_lt.mpr h)

section Skip

variable {G : String → Prop} {n : Nat}

theorem Within.skip_names : ∀ x, Within G n x → (Renaming.skip n).Names x x
  | .global x, _ => .global x
  | .hyp l, hl => by
    have hself : (Renaming.skip n).Names (.hyp l) (.hyp ((Renaming.skip n).level l)) := .hyp l
    rwa [Renaming.skip_level_of_lt hl] at hself

theorem Within.skip_vars : ∀ x, Within G n x → (Renaming.skip n).Vars (.free x) (.free x)
  | .global x, _ => .global x
  | .hyp l, hl => by
    have hself : (Renaming.skip n).Vars (.free (.hyp l)) (.free (.hyp ((Renaming.skip n).level l))) :=
      .hyp l
    rwa [Renaming.skip_level_of_lt hl] at hself

end Skip

theorem Context.Renamed.skip {ctx : Context} (hsig : ctx.signature.HypFree)
    (hhyps : ∀ A ∈ ctx.hyps, A.NamesIn ctx.Binds) (T : Value) :
    ctx.Renamed (.skip ctx.depth) (ctx.bind T) where
  signature := rfl
  hypFree := hsig
  depth := ⟨0, rfl, rfl⟩
  hyps l := by
    have hsame : atLevel? (ctx.bind T).hyps ((Renaming.skip ctx.depth).level l)
        = atLevel? ctx.hyps l := by
      rcases Nat.lt_or_ge l ctx.depth with hl | hl
      · rw [Renaming.skip_level_of_lt hl, Context.bind, atLevel?_cons_of_lt hl]
      · have hl' : (ctx.bind T).hyps.length ≤ l + 1 := Nat.succ_le_succ hl
        rw [Renaming.skip_level_of_ge hl, atLevel?_of_ge hl', atLevel?_of_ge hl]
    rw [hsame]
    cases hl : atLevel? ctx.hyps l with
    | none => exact .none
    | some A =>
      exact .some ((hhyps A (mem_of_atLevel? hl)).along Within.skip_names)

/-! ## The inferred type -/

section Inferred

variable {sig : Signature} {hyps hyps' : List Value} {P : Name → Prop}

/-- Whatever the other hypotheses are, a term has the same type. Evaluation does not see the hypotheses,
so a type differs only where it comes from a hypothesis that the term mentions. -/
theorem Synth.infer_agrees (h : ∀ l, P (.hyp l) → atLevel? hyps l = atLevel? hyps' l) :
    ∀ (fuel : Nat) {t : Synth} {k : Nat}, t.Scoped P k →
      (t.infer fuel ⟨sig, hyps⟩).Agrees Eq (t.infer fuel ⟨sig, hyps'⟩)
  | 0, _, _, _ => .refl _
  | fuel + 1, .ann _ e t, _, _ => by
    simp only [Synth.infer]
    apply Agrees.bind_any
    intro _ _
    apply Agrees.bind_same
    intro T
    apply Agrees.bind_any
    intro _ _
    exact .refl _
  | fuel + 1, .star _, _, _ => .refl _
  | fuel + 1, .pi _ _ d c, _, _ => by
    simp only [Synth.infer]
    apply Agrees.bind_any
    intro _ _
    apply Agrees.bind_any
    intro _ _
    apply Agrees.bind_any
    intro _ _
    apply Agrees.bind_any
    intro _ _
    exact .refl _
  | fuel + 1, .bound _ _, _, _ => .refl _
  | fuel + 1, .free s x, _, hx => by
    simp only [Synth.infer]
    cases x with
    | global x => exact .refl _
    | hyp l =>
      simp only [Context.lookup, h l hx]
      exact .refl _
    | quote l => exact .refl _
  | fuel + 1, .app _ f a, _, ht => by
    simp only [Synth.infer]
    apply (Synth.infer_agrees h fuel ht.1).bind
    rintro T _ rfl
    cases T with
    | pi x d c =>
      apply Agrees.bind_any
      intro _ _
      apply Agrees.bind_same
      intro v
      exact .refl _
    | _ =>
      apply Agrees.bind_any
      intro _ _
      exact .refuse _ _
  | fuel + 1, .nat _, _, _ => .refl _
  | fuel + 1, .zero _, _, _ => .refl _
  | fuel + 1, .succ _ n, _, _ => by
    simp only [Synth.infer]
    apply Agrees.bind_any
    intro _ _
    exact .refl _
  | fuel + 1, .natElim _ m b s n, _, _ => by
    simp only [Synth.infer]
    apply Agrees.bind_any
    intro _ _
    apply Agrees.bind_any
    intro _ _
    apply Agrees.bind_same
    intro motive
    apply Agrees.bind_any
    intro _ _
    apply Agrees.bind_any
    intro _ _
    apply Agrees.bind_any
    intro _ _
    apply Agrees.bind_any
    intro _ _
    apply Agrees.bind_any
    intro _ _
    apply Agrees.bind_same
    intro scrut
    exact .refl _
  | fuel + 1, .vec _ a n, _, _ => by
    simp only [Synth.infer]
    apply Agrees.bind_any
    intro _ _
    apply Agrees.bind_any
    intro _ _
    apply Agrees.bind_any
    intro _ _
    exact .refl _
  | fuel + 1, .nil _ a, _, _ => by
    simp only [Synth.infer]
    apply Agrees.bind_any
    intro _ _
    apply Agrees.bind_same
    intro elem
    exact .refl _
  | fuel + 1, .cons _ a n x xs, _, _ => by
    simp only [Synth.infer]
    apply Agrees.bind_any
    intro _ _
    apply Agrees.bind_same
    intro elem
    apply Agrees.bind_any
    intro _ _
    apply Agrees.bind_same
    intro len
    apply Agrees.bind_any
    intro _ _
    apply Agrees.bind_any
    intro _ _
    exact .refl _
  | fuel + 1, .vecElim _ a m b s n xs, _, _ => by
    simp only [Synth.infer]
    apply Agrees.bind_any
    intro _ _
    apply Agrees.bind_same
    intro elem
    apply Agrees.bind_any
    intro _ _
    apply Agrees.bind_any
    intro _ _
    apply Agrees.bind_same
    intro motive
    apply Agrees.bind_any
    intro _ _
    apply Agrees.bind_any
    intro _ _
    apply Agrees.bind_any
    intro _ _
    apply Agrees.bind_any
    intro _ _
    apply Agrees.bind_any
    intro _ _
    apply Agrees.bind_same
    intro len
    apply Agrees.bind_any
    intro _ _
    apply Agrees.bind_same
    intro scrut
    exact .refl _

/-- No variable of read-back comes into an inferred type. -/
theorem Synth.infer_namesIn {R : Record} (hR : sig.Sound R)
    (hhyps : ∀ A ∈ hyps, A.NamesIn NotQuote) {fuel : Nat} {t : Synth} {k : Nat}
    (ht : t.Scoped NotQuote k) {U : Value} (hU : t.infer fuel ⟨sig, hyps⟩ = .ok U) :
    U.NamesIn NotQuote := by
  have hequal : List.Forall₂ (Value.Equal R.theory) hyps hyps :=
    List.forall₂_same.mpr fun A hA => .refl (hhyps A hA)
  have hself := Synth.infer_concurs hR.quoteFree fuel hequal ht
  rcases hself.ok_or_refused (.of_eq_ok hU) (.of_eq_ok hU) with ⟨_, _, hok, _, heq⟩ | ⟨_, _, herr, _⟩
  · cases hU.symm.trans hok
    exact heq.left
  · cases hU.symm.trans herr

end Inferred

/-! ## Sessions -/

theorem Signature.Sound.hypFree {R : Record} {sig : Signature} (h : sig.Sound R) : sig.HypFree :=
  ⟨h.values_namesIn Within.isGlobal, h.type_namesIn Within.isGlobal⟩

namespace Session

/-- Let every hypothesis in the types of a context be one of the context, and likewise in a term and in the
type that it is checked against. With one more hypothesis in the context, of any type, the term is treated
alike on every amount of fuel. It has a type with the same normal form, or is refused with the same error;
the levels of the hypotheses that the checker introduces move up by one. Where the one run faults or does
not end, so does the other. -/
theorem check_weakening {s : Session} (hs : s.Reachable) {ctx : Context}
    (hctx : ctx.signature = s.signature) (hhyps : ∀ A ∈ ctx.hyps, A.NamesIn ctx.Binds) (T : Value)
    {t : Synth} {e : Check} {k k' : Nat} (ht : t.Scoped ctx.Binds k) (he : e.Scoped ctx.Binds k')
    {E : Value} (hE : E.NamesIn ctx.Binds) (fuel : Nat) :
    (t.infer fuel ctx).Rel (TypeError.Along (Renaming.skip ctx.depth).Vars)
        (fun U U' => ∀ n, ctx.quote n U = (ctx.bind T).quote n U') (t.infer fuel (ctx.bind T)) ∧
      (e.check fuel ctx E).Rel (TypeError.Along (Renaming.skip ctx.depth).Vars) Eq
        (e.check fuel (ctx.bind T) E) := by
  obtain ⟨R, hR⟩ := hs.sound
  rw [← hctx] at hR
  have hren : ctx.Renamed (.skip ctx.depth) (ctx.bind T) := .skip hR.hypFree hhyps T
  have hlookup : ∀ l < ctx.depth, atLevel? ctx.hyps l = atLevel? (ctx.bind T).hyps l :=
    fun l hl => (atLevel?_cons_of_lt hl).symm
  constructor
  · have hrel := Synth.infer_renamed fuel
      (ht.along (fun _ => rfl) (fun i _ => .bound i) Within.skip_vars) hren
    -- The renaming relates the two types, but does not say that they are one value.
    refine Agrees.rel ⟨fun U U' hU hU' => ?_⟩ hrel
    have hsame : U = U' := (Synth.infer_agrees hlookup fuel ht).related U U' hU hU'
    have hnames : U.NamesIn NotQuote := Synth.infer_namesIn hR
      (fun A hA => (hhyps A hA).mono (fun _ _ h => h) Within.notQuote) (ht.mono Within.notQuote) hU
    intro n
    rw [← hsame]
    exact hnames.quote_eq n ctx.depth (ctx.depth + 1)
  · exact Check.check_renamed fuel (he.along (fun _ => rfl) (fun i _ => .bound i) Within.skip_vars)
      hren (hE.along Within.skip_names)

/-- `forall (y : Nat) -> Vec Nat y`. -/
def vecOfArgument : Value :=
  .pi "y" .nat ⟨⟨[], []⟩, .synth (Telescope.vec Telescope.nat (Telescope.var 0))⟩

/-- The vector of a context, and a number before it. The type of the longer vector stays, and so does the
error for the function that gives the vector whatever the length that it is asked for. -/
theorem longerVector_weakened :
    let ctx : Context := ⟨Session.initial.signature, [.vec .nat (.free (.hyp 0)), .nat]⟩
    let t : Synth := .cons none (.synth (.nat none)) (.synth (.free none (.hyp 0)))
      (.synth (.free none (.hyp 0))) (.synth (.free none (.hyp 1)))
    let e : Check := .lam none "y" (.synth (.free none (.hyp 1)))
    (∀ A ∈ ctx.hyps, A.NamesIn ctx.Binds) ∧ t.Scoped ctx.Binds 0 ∧ e.Scoped ctx.Binds 0 ∧
      vecOfArgument.NamesIn ctx.Binds ∧
      (∃ U U', t.infer 20 ctx = .ok U ∧ t.infer 20 (ctx.bind .star) = .ok U' ∧
        ∀ n, ctx.quote n U = (ctx.bind .star).quote n U') ∧
      ∃ err err', e.check 20 ctx vecOfArgument = .error (.refused err) ∧
        e.check 20 (ctx.bind .star) vecOfArgument = .error (.refused err') ∧
        err.Along (Renaming.skip 2).Vars err' := by
  intro ctx t e
  have hhyps : ∀ A ∈ ctx.hyps, A.NamesIn ctx.Binds := by
    intro A hA
    simp only [ctx, List.mem_cons, List.not_mem_nil, or_false] at hA
    rcases hA with rfl | rfl
    · exact ⟨trivial, Nat.zero_lt_two⟩
    · trivial
  have ht : t.Scoped ctx.Binds 0 := ⟨trivial, Nat.zero_lt_two, Nat.zero_lt_two, Nat.one_lt_two⟩
  have he : e.Scoped ctx.Binds 0 := Nat.one_lt_two
  have hE : vecOfArgument.NamesIn ctx.Binds :=
    ⟨trivial, ⟨trivial, trivial⟩, 0, trivial, trivial, Nat.zero_lt_one⟩
  obtain ⟨hinfer, hcheck⟩ := check_weakening .initial rfl hhyps .star ht he hE 20
  refine ⟨hhyps, ht, he, hE, ?_, ?_⟩
  · obtain ⟨U', hU', hforms⟩ := hinfer.exists_right rfl
    exact ⟨_, U', rfl, hU', hforms⟩
  · obtain ⟨err', herr', halong⟩ := hcheck.exists_refused rfl
    exact ⟨_, err', rfl, herr', halong⟩

/-- The type of a hypothesis may mention the level that the next hypothesis will have. A function is then
accepted, because its argument happens to have that level; with one more hypothesis it is refused. -/
theorem unbound_level_not_weakened :
    let ctx : Context := ⟨Session.initial.signature, [.vec .nat (.free (.hyp 1))]⟩
    let e : Check := .lam none "y" (.synth (.free none (.hyp 0)))
    Session.initial.Reachable ∧ (∀ A ∈ ctx.hyps, A.NamesIn NotQuote) ∧ e.Scoped ctx.Binds 0 ∧
      vecOfArgument.NamesIn ctx.Binds ∧ e.check 20 ctx vecOfArgument = .ok () ∧
      e.check 20 (ctx.bind .star) vecOfArgument = .error (.refused (.mismatch none
        (.synth (Telescope.vec Telescope.nat (.free none (.hyp 2))))
        (.synth (Telescope.vec Telescope.nat (.free none (.hyp 1)))))) := by
  intro ctx e
  have hhyps : ∀ A ∈ ctx.hyps, A.NamesIn NotQuote := by
    intro A hA
    rw [List.mem_singleton.mp hA]
    exact ⟨trivial, trivial⟩
  have hE : vecOfArgument.NamesIn ctx.Binds :=
    ⟨trivial, ⟨trivial, trivial⟩, 0, trivial, trivial, Nat.zero_lt_one⟩
  exact ⟨.initial, hhyps, Nat.zero_lt_one, hE, rfl, rfl⟩

end Session

end TypeInType
