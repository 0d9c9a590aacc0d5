import TypeInType.Proofs.Expr.AlphaEq
import TypeInType.Proofs.Term.Elaboration

/-!
# What elaboration identifies

The term of an expression has the nameless form of the expression, so two expressions have the same
term, up to spans and names of binders, just when they are alpha-equivalent.
-/

namespace TypeInType

/-! ## Formers -/

def Operand.nameless : Operand → Nameless
  | .synth t => t.nameless
  | .check t => t.nameless

theorem Check.eq_of_inferable {t : Check} {u : Synth} (h : t.inferable = .ok u) : t = .synth u := by
  cases t with
  | synth t =>
    cases h
    rfl
  | _ => cases h

theorem Operand.nameless_ofKind {kind : OperandKind} {t : Check} {o : Operand}
    (h : Operand.ofKind kind t = .ok o) : o.nameless = t.nameless := by
  cases kind with
  | synth =>
    obtain ⟨u, hu, hpure⟩ := Run.bind_eq_ok.mp h
    cases hpure
    rw [Check.eq_of_inferable hu]
    rfl
  | check =>
    cases h
    rfl

/-- What the former makes of as many operands as it takes is `F` applied to these. -/
def FormerSpec.Makes (spec : FormerSpec) (F : Former) : Prop :=
  ∀ (span : Span) (operands : List Operand) (t : Check), operands.length = spec.arity →
    spec.build span operands = some t →
      t.nameless = .apps (.former F) (operands.map Operand.nameless)

theorem FormerSpec.Makes.nameless_make {ε : Type} {spec : FormerSpec} {F : Former} {span : Span}
    {operands : List Operand} {t : Check} (hF : spec.Makes F) (hlen : operands.length = spec.arity)
    (h : (spec.make span operands : Run ε Check) = .ok t) :
    t.nameless = .apps (.former F) (operands.map Operand.nameless) := by
  unfold FormerSpec.make at h
  split at h
  · rename_i t' hbuild
    cases h
    exact hF span _ _ hlen hbuild
  · cases h

namespace FormerSpec

theorem constant_makes {x : String} {build : Span → Synth} {F : Former}
    (h : ∀ span, (build span).nameless = .former F) : (constant x build).Makes F := by
  rintro span operands t hlen ht
  cases ht
  rw [List.length_eq_zero_iff.mp hlen]
  exact h span

theorem succ_makes : succ.Makes .succ := by
  intro span operands t _ ht
  simp only [succ] at ht
  split at ht <;> cases ht
  rfl

theorem natElim_makes : natElim.Makes .natElim := by
  intro span operands t _ ht
  simp only [natElim] at ht
  split at ht <;> cases ht
  rfl

theorem vec_makes : vec.Makes .vec := by
  intro span operands t _ ht
  simp only [vec] at ht
  split at ht <;> cases ht
  rfl

theorem nil_makes : nil.Makes .nil := by
  intro span operands t _ ht
  simp only [nil] at ht
  split at ht <;> cases ht
  rfl

theorem cons_makes : cons.Makes .cons := by
  intro span operands t _ ht
  simp only [cons] at ht
  split at ht <;> cases ht
  rfl

theorem vecElim_makes : vecElim.Makes .vecElim := by
  intro span operands t _ ht
  simp only [vecElim] at ht
  split at ht <;> cases ht
  rfl

end FormerSpec

namespace Vocabulary

/-- Every former that sources may use makes the terms of its name. -/
theorem builtin_makes :
    List.Forall₂ (fun spec F => spec.name = F.name ∧ spec.Makes F) builtin.specs Former.builtin :=
  .cons ⟨rfl, FormerSpec.constant_makes fun _ => rfl⟩ <|
  .cons ⟨rfl, FormerSpec.constant_makes fun _ => rfl⟩ <|
  .cons ⟨rfl, FormerSpec.succ_makes⟩ <|
  .cons ⟨rfl, FormerSpec.natElim_makes⟩ <|
  .cons ⟨rfl, FormerSpec.vec_makes⟩ <|
  .cons ⟨rfl, FormerSpec.nil_makes⟩ <|
  .cons ⟨rfl, FormerSpec.cons_makes⟩ <|
  .cons ⟨rfl, FormerSpec.vecElim_makes⟩ .nil

theorem find?_makes {specs : List FormerSpec} {Fs : List Former} (x : String)
    (h : List.Forall₂ (fun spec F => spec.name = F.name ∧ spec.Makes F) specs Fs) :
    (specs.find? (·.name == x) = none ∧ Fs.find? (·.name == x) = none) ∨
      ∃ spec F, specs.find? (·.name == x) = some spec ∧ Fs.find? (·.name == x) = some F ∧
        spec.Makes F := by
  induction h with
  | nil => exact .inl ⟨rfl, rfl⟩
  | @cons spec F _ _ hF _ ih =>
    rw [List.find?_cons, List.find?_cons, ← hF.1]
    cases hx : spec.name == x with
    | true => exact .inr ⟨spec, F, rfl, rfl, hF.2⟩
    | false => exact ih

/-- A name is looked up among the formers of sources. -/
theorem builtin_find? (x : String) :
    (builtin.find? x = none ∧ Former.ofName? x = none) ∨
      ∃ spec F, builtin.find? x = some spec ∧ Former.ofName? x = some F ∧ spec.Makes F :=
  find?_makes x builtin_makes

theorem makes_of_find? {x : String} {spec : FormerSpec} {F : Former}
    (h : builtin.find? x = some spec) (hF : Former.ofName? x = some F) : spec.Makes F := by
  rcases builtin_find? x with ⟨hnone, _⟩ | ⟨spec', F', hspec, hF', hmakes⟩
  · rw [hnone] at h
    cases h
  · rw [hspec] at h
    rw [hF'] at hF
    cases h
    cases hF
    exact hmakes

end Vocabulary

/-! ## Heads -/

/-- The head stands for the nameless expression: a former that waits has got as many operands as it
does not wait for. -/
def Head.Spells : Head → Nameless → Prop
  | .waiting spec operands kinds, n => ∃ F, spec.Makes F ∧
      operands.length + kinds.length = spec.arity ∧
        n = .apps (.former F) (operands.reverse.map Operand.nameless)
  | .term t, n => t.nameless = n

namespace Head

theorem ofFormer_spells {spec : FormerSpec} {F : Former} {span : Span} {operands : List Operand}
    {kinds : List OperandKind} {h : Head} (hF : spec.Makes F)
    (hlen : operands.length + kinds.length = spec.arity)
    (hh : ofFormer spec span operands kinds = .ok h) :
    h.Spells (.apps (.former F) (operands.reverse.map Operand.nameless)) := by
  cases kinds with
  | nil =>
    obtain ⟨t, ht, hpure⟩ := Run.bind_eq_ok.mp hh
    cases hpure
    exact hF.nameless_make (by rw [List.length_reverse]; exact hlen) ht
  | cons kind kinds =>
    cases hh
    exact ⟨F, hF, hlen, rfl⟩

theorem apply_spells {span : Span} {arg : Unit → Run ElabError Check} {h h' : Head}
    {n a : Nameless} (hh : h.Spells n) (harg : ∀ t, arg () = .ok t → t.nameless = a)
    (happly : h.apply span arg = .ok h') : h'.Spells (.app n a) := by
  cases h with
  | waiting spec operands kinds =>
    obtain ⟨F, hF, hlen, rfl⟩ := hh
    cases kinds with
    | nil => cases happly
    | cons kind kinds =>
      obtain ⟨t, ht, happly⟩ := Run.bind_eq_ok.mp happly
      obtain ⟨o, ho, hformer⟩ := Run.bind_eq_ok.mp happly
      have hlen' : (o :: operands).length + kinds.length = spec.arity := by
        rw [← hlen, List.length_cons, List.length_cons]
        omega
      have hspells := ofFormer_spells hF hlen' hformer
      rw [List.reverse_cons, List.map_append, List.map_singleton, Nameless.apps_concat,
        Operand.nameless_ofKind ho, harg t ht] at hspells
      exact hspells
  | term t =>
    obtain ⟨u, hu, happly⟩ := Run.bind_eq_ok.mp happly
    obtain ⟨b, hb, hpure⟩ := Run.bind_eq_ok.mp happly
    cases hpure
    rw [Check.eq_of_inferable hu] at hh
    rw [← harg b hb, ← hh]
    rfl

theorem nameless_finish {h : Head} {n : Nameless} {t : Check} (hh : h.Spells n)
    (ht : h.finish = .ok t) : t.nameless = n := by
  cases h with
  | waiting _ _ _ => cases ht
  | term u =>
    cases ht
    exact hh

end Head

/-! ## Expressions -/

namespace Elaborate

theorem nameless_successors {zero succ : FormerSpec} {kind : OperandKind} {span : Span}
    (hzero : zero.Makes .zero) (hsucc : succ.Makes .succ) (hz : zero.kinds = [])
    (hs : succ.kinds = [kind]) : ∀ {n : Nat} {t : Check},
      successors zero succ kind span n = .ok t → t.nameless = .numeral n
  | 0, t, h => hzero.nameless_make (by rw [FormerSpec.arity, hz]; rfl) h
  | n + 1, t, h => by
    obtain ⟨u, hu, h⟩ := Run.bind_eq_ok.mp h
    obtain ⟨o, ho, h⟩ := Run.bind_eq_ok.mp h
    have ht := hsucc.nameless_make (by rw [FormerSpec.arity, hs]; rfl) h
    rw [ht, List.map_singleton, Operand.nameless_ofKind ho,
      nameless_successors hzero hsucc hz hs hu]
    rfl

variable {file : Nat}

theorem nameless_number {range : Range} {n : Nat} {t : Check}
    (h : number file .builtin range n = .ok t) : t.nameless = .numeral n := by
  unfold number at h
  split at h
  · rename_i zero succ hzero hsucc
    split at h
    · rename_i kind hz hs
      exact nameless_successors (Vocabulary.makes_of_find? hzero rfl)
        (Vocabulary.makes_of_find? hsucc rfl) hz hs h
    · cases h
  · cases h

theorem name_spells {scope : List (Option String)} {whole : Range} {args : Nat} {range : Range}
    {x : String} {h : Head} (hname : name file .builtin scope whole args range x = .ok h) :
    h.Spells (.ofName scope x) := by
  unfold name at hname
  unfold Nameless.ofName
  cases hi : scope.findIdx? (· == some x) with
  | some i =>
    rw [hi] at hname
    cases hname
    rfl
  | none =>
    rw [hi] at hname
    dsimp only at hname ⊢
    unfold Nameless.ofFree
    rcases Vocabulary.builtin_find? x with ⟨hnone, hx⟩ | ⟨spec, F, hspec, hx, hF⟩
    · rw [hnone] at hname
      cases hname
      rw [hx]
      rfl
    · rw [hspec] at hname
      rw [hx]
      dsimp only at hname ⊢
      split at hname
      · cases hname
      · exact Head.ofFormer_spells hF (Nat.zero_add _) hname

theorem head_spells : ∀ {e : Expr} {scope : List (Option String)} {whole : Range} {args : Nat}
    {h : Head}, head file .builtin scope whole args e = .ok h → h.Spells (e.nameless scope)
  | .ann r e t, scope, whole, args, h, hh => by
    obtain ⟨he, hhe, hh⟩ := Run.bind_eq_ok.mp hh
    obtain ⟨e', he', hh⟩ := Run.bind_eq_ok.mp hh
    obtain ⟨ht, hht, hh⟩ := Run.bind_eq_ok.mp hh
    obtain ⟨t', ht', hpure⟩ := Run.bind_eq_ok.mp hh
    cases hpure
    exact congrArg₂ Nameless.ann (Head.nameless_finish (head_spells hhe) he')
      (Head.nameless_finish (head_spells hht) ht')
  | .star r, scope, whole, args, h, hh => by
    cases hh
    rfl
  | .pi r x d c, scope, whole, args, h, hh => by
    obtain ⟨hd, hhd, hh⟩ := Run.bind_eq_ok.mp hh
    obtain ⟨d', hd', hh⟩ := Run.bind_eq_ok.mp hh
    obtain ⟨hc, hhc, hh⟩ := Run.bind_eq_ok.mp hh
    obtain ⟨c', hc', hpure⟩ := Run.bind_eq_ok.mp hh
    cases hpure
    exact congrArg₂ Nameless.pi (Head.nameless_finish (head_spells hhd) hd')
      (Head.nameless_finish (head_spells hhc) hc')
  | .var r x, scope, whole, args, h, hh => name_spells hh
  | .app r f a, scope, whole, args, h, hh => by
    obtain ⟨hf, hhf, hh⟩ := Run.bind_eq_ok.mp hh
    refine Head.apply_spells (head_spells hhf) (fun t ht => ?_) hh
    obtain ⟨ha, hha, ht⟩ := Run.bind_eq_ok.mp ht
    exact Head.nameless_finish (head_spells hha) ht
  | .lam r x b, scope, whole, args, h, hh => by
    obtain ⟨hb, hhb, hh⟩ := Run.bind_eq_ok.mp hh
    obtain ⟨b', hb', hpure⟩ := Run.bind_eq_ok.mp hh
    cases hpure
    exact congrArg Nameless.lam (Head.nameless_finish (head_spells hhb) hb')
  | .number r n, scope, whole, args, h, hh => by
    obtain ⟨t, ht, hpure⟩ := Run.bind_eq_ok.mp hh
    cases hpure
    exact nameless_number ht

end Elaborate

/-- The term of an expression has the nameless form of the expression. -/
theorem Expr.nameless_elaborate {file : Nat} {e : Expr} {t : Synth}
    (h : e.elaborate file .builtin = .ok t) : t.nameless = e.nameless [] := by
  obtain ⟨u, hu, ht⟩ := Run.bind_eq_ok.mp h
  obtain ⟨hd, hhd, hu⟩ := Run.bind_eq_ok.mp hu
  have hnameless := Head.nameless_finish (Elaborate.head_spells hhd) hu
  rw [Check.eq_of_inferable ht] at hnameless
  exact hnameless

/-- Elaboration gives closed terms whose names are names of the signature that no former has, and it
identifies the alpha-equivalent expressions and no others. -/
theorem Expr.elaborate_identifies_alphaEq {file file' : Nat} {s s' : Expr} {t t' : Synth}
    (h : s.elaborate file .builtin = .ok t) (h' : s'.elaborate file' .builtin = .ok t') :
    t.Scoped Vocabulary.builtin.IsFree 0 ∧ t'.Scoped Vocabulary.builtin.IsFree 0 ∧
      (t.alphaEq t' = true ↔ s.AlphaEq [] s') := by
  refine ⟨(s.elaborate_isFree file Vocabulary.builtin_ok).of_eq h,
    (s'.elaborate_isFree file' Vocabulary.builtin_ok).of_eq h', ?_⟩
  rw [Synth.alphaEq_iff, nameless_elaborate h, nameless_elaborate h']
  exact (alphaEq_iff (Γ := [])).symm

/-- `∀ (x : *), x -> Vec x (Succ Zero)` -/
def vecOfOne : Expr :=
  .pi default (some ⟨default, "x"⟩) (.star default) (.pi default none (.var default "x")
    (.app default (.app default (.var default "Vec") (.var default "x"))
      (.app default (.var default "Succ") (.var default "Zero"))))

/-- `∀ (Zero : *) (y : Zero), Vec Zero 1` -/
def vecOfOneShadowing : Expr :=
  .pi default (some ⟨default, "Zero"⟩) (.star default) (.pi default (some ⟨default, "y"⟩)
    (.var default "Zero")
    (.app default (.app default (.var default "Vec") (.var default "Zero")) (.number default 1)))

theorem vecOfOne_identified : ∃ t t', vecOfOne.elaborate 0 .builtin = .ok t ∧
    vecOfOneShadowing.elaborate 0 .builtin = .ok t' ∧ t.alphaEq t' = true ∧
      vecOfOne.AlphaEq [] vecOfOneShadowing := by
  have h : vecOfOne.elaborate 0 .builtin = .ok _ := rfl
  have h' : vecOfOneShadowing.elaborate 0 .builtin = .ok _ := rfl
  exact ⟨_, _, h, h', rfl, (Expr.elaborate_identifies_alphaEq h h').2.2.mp rfl⟩

end TypeInType
