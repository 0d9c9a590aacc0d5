import TypeInType.Proofs.Expr.Places
import TypeInType.Proofs.Run
import TypeInType.Report

/-!
# Where type errors point

A report of a type error points to a node of the source, unless what it blames is an occurrence of a bound
variable: checking puts a hypothesis in place of the variable, and a hypothesis has no place in the
source. Such a report has no label.
-/

namespace TypeInType

open Run (Answers)

/-! ## Terms with places -/

mutual

/-- All spans of the term satisfy `Q`, those of bound variables apart. Hypotheses have no spans, and `H`
holds if there are bound variables or hypotheses. The term is made of formers that sources may use. -/
def Synth.Placed (Q : Span → Prop) (H : Prop) : Synth → Prop
  | .ann s e t => Q s ∧ e.Placed Q H ∧ t.Placed Q H
  | .star s => Q s
  | .pi s _ d c => Q s ∧ d.Placed Q H ∧ c.Placed Q H
  | .bound _ _ => H
  | .free s (.hyp _) => s = none ∧ H
  | .free s _ => Q s
  | .app s h a => Q s ∧ h.Placed Q H ∧ a.Placed Q H
  | .nat s => Q s
  | .zero s => Q s
  | .succ s n => Q s ∧ n.Placed Q H
  | .natElim s m b t n => Q s ∧ m.Placed Q H ∧ b.Placed Q H ∧ t.Placed Q H ∧ n.Placed Q H
  | .vec s a n => Q s ∧ a.Placed Q H ∧ n.Placed Q H
  | .nil s a => Q s ∧ a.Placed Q H
  | .cons s a n x xs => Q s ∧ a.Placed Q H ∧ n.Placed Q H ∧ x.Placed Q H ∧ xs.Placed Q H
  | .vecElim s a m b t n xs => Q s ∧ a.Placed Q H ∧ m.Placed Q H ∧ b.Placed Q H ∧ t.Placed Q H ∧
      n.Placed Q H ∧ xs.Placed Q H

/-- All spans of the term satisfy `Q`, those of bound variables apart. -/
def Check.Placed (Q : Span → Prop) (H : Prop) : Check → Prop
  | .synth t => t.Placed Q H
  | .lam s _ b => Q s ∧ b.Placed Q H
  | .ascribe _ _ _ => False
  | .sealed _ _ => False

end

section Placed

variable {Q : Span → Prop} {H : Prop}

mutual

theorem Synth.Placed.subst : ∀ {t : Synth}, t.Placed Q H → ∀ i l,
    (t.subst i (.free none (.hyp l))).Placed Q H
  | .ann _ e t, h, i, l => ⟨h.1, h.2.1.subst i l, h.2.2.subst i l⟩
  | .star _, h, _, _ => h
  | .pi _ _ d c, h, i, l => ⟨h.1, h.2.1.subst i l, h.2.2.subst (i + 1) l⟩
  | .bound _ j, h, i, l => by
    simp only [Synth.subst]
    split
    · exact ⟨rfl, h⟩
    · exact h
  | .free _ _, h, _, _ => h
  | .app _ f a, h, i, l => ⟨h.1, h.2.1.subst i l, h.2.2.subst i l⟩
  | .nat _, h, _, _ => h
  | .zero _, h, _, _ => h
  | .succ _ n, h, i, l => ⟨h.1, h.2.subst i l⟩
  | .natElim _ m b t n, h, i, l =>
    ⟨h.1, h.2.1.subst i l, h.2.2.1.subst i l, h.2.2.2.1.subst i l, h.2.2.2.2.subst i l⟩
  | .vec _ a n, h, i, l => ⟨h.1, h.2.1.subst i l, h.2.2.subst i l⟩
  | .nil _ a, h, i, l => ⟨h.1, h.2.subst i l⟩
  | .cons _ a n x xs, h, i, l =>
    ⟨h.1, h.2.1.subst i l, h.2.2.1.subst i l, h.2.2.2.1.subst i l, h.2.2.2.2.subst i l⟩
  | .vecElim _ a m b t n xs, h, i, l =>
    ⟨h.1, h.2.1.subst i l, h.2.2.1.subst i l, h.2.2.2.1.subst i l, h.2.2.2.2.1.subst i l,
      h.2.2.2.2.2.1.subst i l, h.2.2.2.2.2.2.subst i l⟩

theorem Check.Placed.subst : ∀ {t : Check}, t.Placed Q H → ∀ i l,
    (t.subst i (.free none (.hyp l))).Placed Q H
  | .synth t, h, i, l => Synth.Placed.subst (t := t) h i l
  | .lam _ _ _, h, i, l => ⟨h.1, h.2.subst (i + 1) l⟩

end

/-! ## Errors with places -/

/-- The error is at a span that satisfies `Q`, or is about the type of a hypothesis. -/
inductive TypeError.Placed (Q : Span → Prop) (H : Prop) : TypeError → Prop where
  | node {e} : Q e.span → TypeError.Placed Q H e
  | mismatch {expected found} : H → TypeError.Placed Q H (.mismatch none expected found)
  | expectedFunction {found} : H → TypeError.Placed Q H (.expectedFunction none found)

/-- A term that has a type is at a span that satisfies `Q`, or is a hypothesis. -/
theorem Synth.Placed.span {t : Synth} (h : t.Placed Q H) {fuel : Nat} {ctx : Context} {T : Value}
    (hT : t.infer fuel ctx = .ok T) : Q t.span ∨ t.span = none ∧ H := by
  cases t with
  | bound _ _ =>
    cases fuel <;> cases hT
  | free s x =>
    cases x with
    | hyp l => exact .inr h
    | global x => exact .inl h
    | quote l => exact .inl h
  | star _ => exact .inl h
  | nat _ => exact .inl h
  | zero _ => exact .inl h
  | _ => exact .inl h.1

theorem Context.convert_answers {ctx : Context} {fuel : Nat} {s : Span} (h : Q s ∨ s = none ∧ H)
    (expected found : Value) :
    (ctx.convert fuel s expected found).Answers (TypeError.Placed Q H) fun _ => True := by
  unfold Context.convert
  apply Answers.widen_bind
  intro A
  apply Answers.widen_bind
  intro B
  split
  · trivial
  · rcases h with h | ⟨rfl, h⟩
    · exact .node h
    · exact .mismatch h

theorem Context.lookup_answers {ctx : Context} {s : Span} {x : Name}
    (h : (Synth.free s x).Placed Q H) :
    (ctx.lookup s x).Answers (TypeError.Placed Q H) fun _ => True := by
  cases x with
  | global x =>
    simp only [Context.lookup]
    split
    · trivial
    · exact .node h
  | hyp l =>
    simp only [Context.lookup]
    split <;> trivial
  | quote l => trivial

mutual

theorem Synth.infer_answers : ∀ (fuel : Nat) {ctx : Context} {t : Synth}, t.Placed Q H →
    (t.infer fuel ctx).Answers (TypeError.Placed Q H) fun _ => True
  | 0, _, _, _ => trivial
  | fuel + 1, ctx, .ann _ e t, h => by
    simp only [Synth.infer]
    apply (Check.check_answers fuel h.2.2).bind
    intro _ _ _
    apply Answers.widen_bind
    intro T
    exact (Check.check_answers fuel h.2.1).bind fun _ _ _ => trivial
  | fuel + 1, ctx, .star _, _ => trivial
  | fuel + 1, ctx, .pi _ _ d c, h => by
    simp only [Synth.infer]
    apply (Check.check_answers fuel h.2.1).bind
    intro _ _ _
    apply Answers.widen_bind
    intro D
    apply (Check.check_answers fuel (h.2.2.subst 0 ctx.depth)).bind
    intro _ _ _
    exact Answers.widen_bind fun _ => trivial
  | fuel + 1, ctx, .bound _ _, _ => trivial
  | fuel + 1, ctx, .free s x, h => Context.lookup_answers h
  | fuel + 1, ctx, .app _ f a, h => by
    simp only [Synth.infer]
    apply (Synth.infer_answers fuel h.2.1).bind
    intro T hT _
    cases T with
    | pi x D C =>
      apply (Check.check_answers fuel h.2.2).bind
      intro _ _ _
      exact Answers.widen_bind fun _ => Run.answers_widen
    | _ =>
      apply Answers.widen_bind
      intro A
      rcases h.2.1.span hT with hspan | ⟨hspan, hH⟩
      · exact .node hspan
      · rw [hspan]
        exact .expectedFunction hH
  | fuel + 1, ctx, .nat _, _ => trivial
  | fuel + 1, ctx, .zero _, _ => trivial
  | fuel + 1, ctx, .succ _ n, h => by
    simp only [Synth.infer]
    exact (Check.check_answers fuel h.2).bind fun _ _ _ => trivial
  | fuel + 1, ctx, .natElim _ m b s n, h => by
    obtain ⟨_, hm, hb, hs, hn⟩ := h
    simp only [Synth.infer]
    apply Answers.widen_bind
    intro _
    apply (Check.check_answers fuel hm).bind
    intro _ _ _
    apply Answers.widen_bind
    intro _
    apply Answers.widen_bind
    intro _
    apply (Check.check_answers fuel hb).bind
    intro _ _ _
    apply Answers.widen_bind
    intro _
    apply (Check.check_answers fuel hs).bind
    intro _ _ _
    apply (Check.check_answers fuel hn).bind
    intro _ _ _
    exact Answers.widen_bind fun _ => Run.answers_widen
  | fuel + 1, ctx, .vec _ a n, h => by
    simp only [Synth.infer]
    apply (Check.check_answers fuel h.2.1).bind
    intro _ _ _
    apply Answers.widen_bind
    intro _
    exact (Check.check_answers fuel h.2.2).bind fun _ _ _ => trivial
  | fuel + 1, ctx, .nil _ a, h => by
    simp only [Synth.infer]
    apply (Check.check_answers fuel h.2).bind
    intro _ _ _
    exact Answers.widen_bind fun _ => trivial
  | fuel + 1, ctx, .cons _ a n x xs, h => by
    obtain ⟨_, ha, hn, hx, hxs⟩ := h
    simp only [Synth.infer]
    apply (Check.check_answers fuel ha).bind
    intro _ _ _
    apply Answers.widen_bind
    intro _
    apply (Check.check_answers fuel hn).bind
    intro _ _ _
    apply Answers.widen_bind
    intro _
    apply (Check.check_answers fuel hx).bind
    intro _ _ _
    exact (Check.check_answers fuel hxs).bind fun _ _ _ => trivial
  | fuel + 1, ctx, .vecElim _ a m b s n xs, h => by
    obtain ⟨_, ha, hm, hb, hs, hn, hxs⟩ := h
    simp only [Synth.infer]
    apply (Check.check_answers fuel ha).bind
    intro _ _ _
    apply Answers.widen_bind
    intro _
    apply Answers.widen_bind
    intro _
    apply (Check.check_answers fuel hm).bind
    intro _ _ _
    apply Answers.widen_bind
    intro _
    apply Answers.widen_bind
    intro _
    apply (Check.check_answers fuel hb).bind
    intro _ _ _
    apply Answers.widen_bind
    intro _
    apply (Check.check_answers fuel hs).bind
    intro _ _ _
    apply (Check.check_answers fuel hn).bind
    intro _ _ _
    apply Answers.widen_bind
    intro _
    apply (Check.check_answers fuel hxs).bind
    intro _ _ _
    exact Answers.widen_bind fun _ => Run.answers_widen

theorem Check.check_answers : ∀ (fuel : Nat) {ctx : Context} {t : Check} {T : Value},
    t.Placed Q H → (t.check fuel ctx T).Answers (TypeError.Placed Q H) fun _ => True
  | 0, _, _, _, _ => trivial
  | fuel + 1, ctx, .synth t, T, h => by
    simp only [Check.check]
    apply (Synth.infer_answers fuel h).bind
    intro found hfound _
    exact Context.convert_answers (Synth.Placed.span h hfound) T found
  | fuel + 1, ctx, .lam s x b, T, h => by
    cases T with
    | pi x D C =>
      apply Answers.widen_bind
      intro _
      apply Answers.widen_bind
      intro _
      exact Check.check_answers fuel (h.2.subst 0 ctx.depth)
    | _ => exact Answers.widen_bind fun _ => .node h.1

end

/-! ## Formers -/

def Operand.Placed (Q : Span → Prop) (H : Prop) : Operand → Prop
  | .synth t => t.Placed Q H
  | .check t => t.Placed Q H

/-- The former makes a term of its own span and of its operands. -/
def FormerSpec.Places (spec : FormerSpec) : Prop :=
  ∀ (Q : Span → Prop) (H : Prop) (s : Span) (operands : List Operand) (t : Check), Q s →
    (∀ o ∈ operands, o.Placed Q H) → spec.build s operands = some t → t.Placed Q H

namespace FormerSpec

theorem constant_places (name : String) {build : Span → Synth}
    (h : ∀ Q H s, Q s → (build s).Placed Q H) : (constant name build).Places := by
  intro Q H s operands t hs _ ht
  cases ht
  exact h Q H s hs

theorem succ_places : succ.Places := by
  intro Q H s operands t hs ho h
  simp only [succ] at h
  split at h
  · cases h
    simp only [List.mem_cons, forall_eq_or_imp] at ho
    exact ⟨hs, ho.1⟩
  · cases h

theorem natElim_places : natElim.Places := by
  intro Q H s operands t hs ho h
  simp only [natElim] at h
  split at h
  · cases h
    simp only [List.mem_cons, forall_eq_or_imp] at ho
    exact ⟨hs, ho.1, ho.2.1, ho.2.2.1, ho.2.2.2.1⟩
  · cases h

theorem vec_places : vec.Places := by
  intro Q H s operands t hs ho h
  simp only [vec] at h
  split at h
  · cases h
    simp only [List.mem_cons, forall_eq_or_imp] at ho
    exact ⟨hs, ho.1, ho.2.1⟩
  · cases h

theorem nil_places : nil.Places := by
  intro Q H s operands t hs ho h
  simp only [nil] at h
  split at h
  · cases h
    simp only [List.mem_cons, forall_eq_or_imp] at ho
    exact ⟨hs, ho.1⟩
  · cases h

theorem cons_places : cons.Places := by
  intro Q H s operands t hs ho h
  simp only [cons] at h
  split at h
  · cases h
    simp only [List.mem_cons, forall_eq_or_imp] at ho
    exact ⟨hs, ho.1, ho.2.1, ho.2.2.1, ho.2.2.2.1⟩
  · cases h

theorem vecElim_places : vecElim.Places := by
  intro Q H s operands t hs ho h
  simp only [vecElim] at h
  split at h
  · cases h
    simp only [List.mem_cons, forall_eq_or_imp] at ho
    exact ⟨hs, ho.1, ho.2.1, ho.2.2.1, ho.2.2.2.1, ho.2.2.2.2.1, ho.2.2.2.2.2.1⟩
  · cases h

theorem places_of_find? {x : String} {spec : FormerSpec}
    (h : Vocabulary.builtin.find? x = some spec) : spec.Places := by
  have hspec := List.mem_of_find?_eq_some h
  simp only [Vocabulary.builtin, Vocabulary.nats, Vocabulary.vecs, List.mem_append, List.mem_cons,
    List.not_mem_nil, or_false] at hspec
  rcases hspec with (rfl | rfl | rfl | rfl) | (rfl | rfl | rfl | rfl)
  · exact constant_places _ fun _ _ _ hs => hs
  · exact constant_places _ fun _ _ _ hs => hs
  · exact succ_places
  · exact natElim_places
  · exact vec_places
  · exact nil_places
  · exact cons_places
  · exact vecElim_places

theorem make_answers {spec : FormerSpec} (hspec : spec.Places) {s : Span} (hs : Q s)
    {operands : List Operand} (ho : ∀ o ∈ operands, o.Placed Q H) :
    (spec.make s operands : Run ElabError Check).Answers (fun _ => True) (Check.Placed Q H) := by
  unfold make
  split
  · rename_i t ht
    exact hspec Q H s operands t hs ho ht
  · trivial

end FormerSpec

/-! ## Heads -/

def Head.Placed (Q : Span → Prop) (H : Prop) : Head → Prop
  | .waiting spec operands _ => spec.Places ∧ ∀ o ∈ operands, o.Placed Q H
  | .term t => t.Placed Q H

theorem Check.inferable_answers {t : Check} (h : t.Placed Q H) :
    t.inferable.Answers (fun _ => True) (Synth.Placed Q H) := by
  cases t with
  | synth t => exact h
  | _ => trivial

theorem Operand.ofKind_answers (kind : OperandKind) {t : Check} (h : t.Placed Q H) :
    (Operand.ofKind kind t).Answers (fun _ => True) (Operand.Placed Q H) := by
  cases kind with
  | synth => exact (Check.inferable_answers h).bind fun _ _ hu => hu
  | check => exact h

theorem Head.ofFormer_answers {spec : FormerSpec} (hspec : spec.Places) {s : Span} (hs : Q s)
    {operands : List Operand} (ho : ∀ o ∈ operands, o.Placed Q H) (kinds : List OperandKind) :
    (Head.ofFormer spec s operands kinds).Answers (fun _ => True) (Head.Placed Q H) := by
  cases kinds with
  | nil =>
    have hall : ∀ o ∈ operands.reverse, o.Placed Q H := fun o hmem => ho o (List.mem_reverse.mp hmem)
    exact (FormerSpec.make_answers hspec hs hall).bind fun _ _ ht => ht
  | cons kind kinds => exact ⟨hspec, ho⟩

theorem Head.Placed.apply {h : Head} (hh : h.Placed Q H) {s : Span} (hs : Q s)
    {arg : Unit → Run ElabError Check}
    (harg : (arg ()).Answers (fun _ => True) (Check.Placed Q H)) :
    (h.apply s arg).Answers (fun _ => True) (Head.Placed Q H) := by
  cases h with
  | waiting spec operands kinds =>
    cases kinds with
    | nil => trivial
    | cons kind kinds =>
      apply harg.bind
      intro t _ ht
      apply (Operand.ofKind_answers kind ht).bind
      intro o _ ho
      exact Head.ofFormer_answers hh.1 hs (List.forall_mem_cons.mpr ⟨ho, hh.2⟩) kinds
  | term t =>
    apply (Check.inferable_answers hh).bind
    intro u _ hu
    exact harg.bind fun a _ ha => ⟨hs, hu, ha⟩

theorem Head.Placed.finish {h : Head} (hh : h.Placed Q H) :
    h.finish.Answers (fun _ => True) (Check.Placed Q H) := by
  cases h with
  | waiting spec operands kinds => trivial
  | term t => exact hh

/-! ## Expressions -/

namespace Elaborate

variable (file : Nat)

/-- If the node is a bound variable then `H` holds, and otherwise its span satisfies `Q`. -/
def Admits (Q : Span → Prop) (H : Prop) (n : Node) : Prop :=
  (n.IsBound → H) ∧ (¬ n.IsBound → Q (span file n.expr.range))

theorem successors_answers {zero succ : FormerSpec} (hzero : zero.Places) (hsucc : succ.Places)
    {kind : OperandKind} {s : Span} (hs : Q s) : ∀ n,
    (successors zero succ kind s n).Answers (fun _ => True) (Check.Placed Q H)
  | 0 => FormerSpec.make_answers hzero hs fun _ ho => by cases ho
  | n + 1 => by
    simp only [successors]
    apply (successors_answers hzero hsucc hs n).bind
    intro t _ ht
    apply (Operand.ofKind_answers kind ht).bind
    intro o _ ho
    exact FormerSpec.make_answers hsucc hs (List.forall_mem_singleton.mpr ho)

theorem number_answers {r : Range} (hr : Q (span file r)) (n : Nat) :
    (number file .builtin r n).Answers (fun _ => True) (Check.Placed Q H) := by
  unfold number
  split
  · rename_i zero succ hzero hsucc
    split
    · exact successors_answers (FormerSpec.places_of_find? hzero) (FormerSpec.places_of_find? hsucc)
        hr n
    · trivial
  · trivial

theorem name_answers {scope : List (Option String)} {r : Range} {x : String}
    (h : Admits file Q H ⟨scope, .var r x⟩) (whole : Range) (args : Nat) :
    (name file .builtin scope whole args r x).Answers (fun _ => True) (Head.Placed Q H) := by
  unfold name
  split
  · rename_i i hi
    obtain ⟨hlt, hx, _⟩ := List.findIdx?_eq_some_iff_getElem.mp hi
    rw [beq_iff_eq] at hx
    have hmem : some x ∈ scope := hx ▸ List.getElem_mem hlt
    exact h.1 hmem
  · rename_i hscope
    have hs : Q (span file r) := by
      apply h.2
      intro hx
      simpa using List.findIdx?_eq_none_iff.mp hscope _ hx
    split
    · rename_i spec hspec
      split
      · trivial
      · exact Head.ofFormer_answers (FormerSpec.places_of_find? hspec) hs (fun _ ho => by cases ho) _
    · exact hs

theorem head_answers : ∀ (e : Expr) {scope : List (Option String)},
    (∀ n ∈ e.nodes scope, Admits file Q H n) → ∀ (whole : Range) (args : Nat),
      (head file .builtin scope whole args e).Answers (fun _ => True) (Head.Placed Q H)
  | .ann r e t, scope, h, whole, args => by
    simp only [Expr.nodes, List.mem_cons, forall_eq_or_imp, List.forall_mem_append] at h
    obtain ⟨hr, he, ht⟩ := h
    simp only [head]
    apply (head_answers e he e.range 0).bind
    intro e' _ he'
    apply he'.finish.bind
    intro e' _ he'
    apply (head_answers t ht t.range 0).bind
    intro t' _ ht'
    apply ht'.finish.bind
    intro t' _ ht'
    exact ⟨hr.2 id, he', ht'⟩
  | .star r, scope, h, whole, args => (h _ List.mem_cons_self).2 id
  | .pi r x d c, scope, h, whole, args => by
    simp only [Expr.nodes, List.mem_cons, forall_eq_or_imp, List.forall_mem_append] at h
    obtain ⟨hr, hd, hc⟩ := h
    simp only [head]
    apply (head_answers d hd d.range 0).bind
    intro d' _ hd'
    apply hd'.finish.bind
    intro d' _ hd'
    apply (head_answers c hc c.range 0).bind
    intro c' _ hc'
    apply hc'.finish.bind
    intro c' _ hc'
    exact ⟨hr.2 id, hd', hc'⟩
  | .var r x, scope, h, whole, args => name_answers file (h _ List.mem_cons_self) whole args
  | .app r f a, scope, h, whole, args => by
    simp only [Expr.nodes, List.mem_cons, forall_eq_or_imp, List.forall_mem_append] at h
    obtain ⟨hr, hf, ha⟩ := h
    simp only [head]
    apply (head_answers f hf whole (args + 1)).bind
    intro f' _ hf'
    apply hf'.apply (hr.2 id)
    apply (head_answers a ha a.range 0).bind
    intro a' _ ha'
    exact ha'.finish
  | .lam r x b, scope, h, whole, args => by
    simp only [Expr.nodes, List.mem_cons, forall_eq_or_imp] at h
    obtain ⟨hr, hb⟩ := h
    simp only [head]
    apply (head_answers b hb b.range 0).bind
    intro b' _ hb'
    apply hb'.finish.bind
    intro b' _ hb'
    exact ⟨hr.2 id, hb'⟩
  | .number r n, scope, h, whole, args => by
    simp only [head]
    exact (number_answers file ((h _ List.mem_cons_self).2 id) n).bind fun _ _ ht => ht

end Elaborate

end Placed

/-! ## Reports -/

/-- The error is about the type of a term, and not about a name or a function literal. -/
def TypeError.IsOfType : TypeError → Prop
  | .mismatch _ _ _ => True
  | .expectedFunction _ _ => True
  | .undefinedVariable _ _ _ => False
  | .unexpectedLambda _ _ => False

theorem TypeError.label_report {e : TypeError} {s : Span} (h : e.span = s) :
    e.report.label = s.map (⟨·, e.label⟩) := by
  rw [← h]
  rfl

/-- What an elaborated term has for spans. -/
theorem Expr.elaborate_placed {file : Nat} {e : Expr} {t : Synth}
    (h : e.elaborate file .builtin = .ok t) :
    t.Placed (fun s => ∃ n ∈ e.nodes [], ¬ n.IsBound ∧ s = some ⟨file, n.expr.range⟩)
      (∃ n ∈ e.nodes [], n.IsBound) := by
  have hnodes : ∀ n ∈ e.nodes [], Elaborate.Admits file
      (fun s => ∃ n ∈ e.nodes [], ¬ n.IsBound ∧ s = some ⟨file, n.expr.range⟩)
      (∃ n ∈ e.nodes [], n.IsBound) n :=
    fun n hn => ⟨fun hbound => ⟨n, hn, hbound⟩, fun hfree => ⟨n, hn, hfree, rfl⟩⟩
  have hcheck := (Elaborate.head_answers file e hnodes e.range 0).bind fun _ _ hh => hh.finish
  have hterm := hcheck.bind fun _ _ ht => Check.inferable_answers ht
  change (e.elaborate file .builtin).Answers _ _ at hterm
  rw [h] at hterm
  exact hterm

/-- The report of a type error in a source has one label, at a node inside the source that is no occurrence
of a bound variable. Or it has none; then the error is about the type of a term, and the source has an
occurrence of a bound variable. -/
theorem readTerm_infer_label {text : String} {e : Expr} {file : Nat} {t : Synth} {sig : Signature}
    {fuel : Nat} {err : TypeError} (hread : readTerm text = .ok e)
    (hterm : e.elaborate file .builtin = .ok t)
    (herr : t.infer fuel (.ofSignature sig) = .error (.refused err)) :
    (∃ n ∈ e.nodes [], ¬ n.IsBound ∧ n.expr.range.Inside (byteLength text.toList) ∧
      err.report.label = some ⟨⟨file, n.expr.range⟩, err.label⟩) ∨
    ∃ n ∈ e.nodes [], n.IsBound ∧ err.IsOfType ∧ err.report.label = none := by
  have hanswers := @Synth.infer_answers _ _ fuel (.ofSignature sig) t (Expr.elaborate_placed hterm)
  rw [herr] at hanswers
  have hplaced : err.Placed _ _ := hanswers
  cases hplaced with
  | node hspan =>
    obtain ⟨n, hn, hfree, hspan⟩ := hspan
    have hinside := (readTerm_inside hread).nodes n hn
    exact .inl ⟨n, hn, hfree, hinside, TypeError.label_report hspan⟩
  | mismatch hbound =>
    obtain ⟨n, hn, hbound⟩ := hbound
    exact .inr ⟨n, hn, hbound, trivial, rfl⟩
  | expectedFunction hbound =>
    obtain ⟨n, hn, hbound⟩ := hbound
    exact .inr ⟨n, hn, hbound, trivial, rfl⟩

/-- The body of the function literal is blamed for its type, which is `Nat`, and the report does not say
where it is. -/
theorem readTerm_identity_label : ∃ e t err, readTerm "(\\x. x) : Nat -> *" = .ok e ∧
    e.elaborate 1 .builtin = .ok t ∧ t.infer 20 (.ofSignature ∅) = .error (.refused err) ∧
    err.report.label = none ∧ ∃ n ∈ e.nodes [], n.IsBound := by
  let literal : Grammar.ExprTree :=
    .mk (.lam (.at .lambdaSign "\\" 1) (.at .name "x" 2) [] ⟨⟨.dot, ".", 3⟩, .inr rfl⟩
      (.app (.mk (.name (.at .name "x" 5)) .nil))) .nil
  let tree : Grammar.ExprTree :=
    .mk (.app (.mk (.paren (.at .openParen "(" 0) literal (.at .closeParen ")" 6)) .nil))
      (.cons (.at .colon ":" 8) (.fn (.mk (.name (.at .name "Nat" 10)) .nil) (.at .arrow "->" 14)
        (.app (.mk (.star (.at .star "*" 17)) .nil))) .nil)
  have hts : lexSource "(\\x. x) : Nat -> *" = .ok tree.yield :=
    lexSource_eq_ok_iff.mpr (by decide +kernel)
  have hread : readTerm "(\\x. x) : Nat -> *" = .ok tree.denote := by
    rw [readTerm, readSource_of_lexSource hts, Run.ofExcept_eq_ok]
    exact Read.term_eq_ok.mpr ⟨tree, rfl, rfl⟩
  let at₁ (start stop : Nat) : Span := some ⟨1, start, stop⟩
  let term : Synth := .ann (at₁ 1 18) (.lam (at₁ 1 6) (some "x") (.synth (.bound (at₁ 5 6) 0)))
    (.synth (.pi (at₁ 10 18) none (.synth (.nat (at₁ 10 13))) (.synth (.star (at₁ 17 18)))))
  have hterm : tree.denote.elaborate 1 .builtin = .ok term := rfl
  have herr : term.infer 20 (.ofSignature ∅) = .error (.refused _) := rfl
  rcases readTerm_infer_label hread hterm herr with ⟨n, _, _, _, hlabel⟩ | ⟨n, hn, hbound, _, hlabel⟩
  · cases hlabel
  · exact ⟨_, _, _, hread, hterm, herr, hlabel, n, hn, hbound⟩

end TypeInType
