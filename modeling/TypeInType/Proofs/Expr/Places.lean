import TypeInType.Proofs.Expr.Concatenation

/-!
# Places in a source

The nodes of an expression, each with the names that are bound where it stands. The nodes of an
expression that has been read lie inside the source.
-/

namespace TypeInType

/-! ## Nodes -/

/-- An expression inside another, with the names of the binders around it, the innermost first. -/
structure Node where
  scope : List (Option String)
  expr : Expr

/-- The node is an occurrence of a bound variable. -/
def Node.IsBound (n : Node) : Prop :=
  match n.expr with
  | .var _ x => some x ∈ n.scope
  | _ => False

/-- The nodes of an expression in a scope. -/
def Expr.nodes (scope : List (Option String)) : Expr → List Node
  | .ann r e t => ⟨scope, .ann r e t⟩ :: (e.nodes scope ++ t.nodes scope)
  | .star r => [⟨scope, .star r⟩]
  | .pi r x d c => ⟨scope, .pi r x d c⟩ :: (d.nodes scope ++ c.nodes (x.map Ident.name :: scope))
  | .var r x => [⟨scope, .var r x⟩]
  | .app r h a => ⟨scope, .app r h a⟩ :: (h.nodes scope ++ a.nodes scope)
  | .lam r x b => ⟨scope, .lam r x b⟩ :: b.nodes (some x.name :: scope)
  | .number r n => [⟨scope, .number r n⟩]

/-! ## Ranges inside a source -/

/-- The range covers some of the first `n` bytes. -/
def Range.Inside (n : Nat) (r : Range) : Prop :=
  r.start ≤ r.stop ∧ r.stop ≤ n

theorem Range.Inside.merge {n : Nat} {r r' : Range} (h : r.Inside n) (h' : r'.Inside n) :
    (r.merge r').Inside n := by
  obtain ⟨hr, hn⟩ := h
  obtain ⟨hr', hn'⟩ := h'
  constructor
  · exact Nat.le_trans (Nat.min_le_left _ _) (Nat.le_trans hr (Nat.le_max_left _ _))
  · exact Nat.max_le.mpr ⟨hn, hn'⟩

/-- All nodes of the expression cover some of the first `n` bytes. -/
def Expr.Inside (n : Nat) : Expr → Prop
  | .ann r e t => r.Inside n ∧ e.Inside n ∧ t.Inside n
  | .star r => r.Inside n
  | .pi r _ d c => r.Inside n ∧ d.Inside n ∧ c.Inside n
  | .var r _ => r.Inside n
  | .app r h a => r.Inside n ∧ h.Inside n ∧ a.Inside n
  | .lam r _ b => r.Inside n ∧ b.Inside n
  | .number r _ => r.Inside n

namespace Expr

variable {n : Nat}

theorem Inside.range {e : Expr} (h : e.Inside n) : e.range.Inside n := by
  cases e with
  | ann _ _ _ => exact h.1
  | star _ => exact h
  | pi _ _ _ _ => exact h.1
  | var _ _ => exact h
  | app _ _ _ => exact h.1
  | lam _ _ _ => exact h.1
  | number _ _ => exact h

theorem Inside.nodes : ∀ {e : Expr} {scope : List (Option String)}, e.Inside n →
    ∀ node ∈ e.nodes scope, node.expr.range.Inside n
  | .ann r e t, scope, h => by
    simp only [Expr.nodes, List.mem_cons, forall_eq_or_imp, List.forall_mem_append]
    exact ⟨h.1, Inside.nodes h.2.1, Inside.nodes h.2.2⟩
  | .star r, scope, h => List.forall_mem_singleton.mpr h
  | .pi r x d c, scope, h => by
    simp only [Expr.nodes, List.mem_cons, forall_eq_or_imp, List.forall_mem_append]
    exact ⟨h.1, Inside.nodes h.2.1, Inside.nodes h.2.2⟩
  | .var r x, scope, h => List.forall_mem_singleton.mpr h
  | .app r f a, scope, h => by
    simp only [Expr.nodes, List.mem_cons, forall_eq_or_imp, List.forall_mem_append]
    exact ⟨h.1, Inside.nodes h.2.1, Inside.nodes h.2.2⟩
  | .lam r x b, scope, h => List.forall_mem_cons.mpr ⟨h.1, Inside.nodes h.2⟩
  | .number r k, scope, h => List.forall_mem_singleton.mpr h

theorem Inside.pis {r : Range} (hr : r.Inside n) {body : Expr} (hbody : body.Inside n) :
    ∀ {bs : List (Ident × Expr)}, (∀ b ∈ bs, b.2.Inside n) → (pis r bs body).Inside n
  | [], _ => hbody
  | b :: bs, h => by
    rw [List.forall_mem_cons] at h
    exact ⟨hr, h.1, Inside.pis hr hbody h.2⟩

theorem Inside.lams {r : Range} (hr : r.Inside n) {body : Expr} (hbody : body.Inside n) :
    ∀ xs : List Ident, (lams r xs body).Inside n
  | [] => hbody
  | _ :: xs => ⟨hr, Inside.lams hr hbody xs⟩

end Expr

/-! ## Expressions that are read -/

theorem stop_le_of_mem_place {l : Lexeme} {ps : List Piece} {start : Nat}
    (h : .lexeme l ∈ place start ps) :
    l.range.stop ≤ start + byteLength (ps.map Piece.text).flatten := by
  induction ps generalizing start with
  | nil => cases h
  | cons p ps ih =>
    have htail : .lexeme l ∈ place (start + byteLength p.text) ps →
        l.range.stop ≤ start + byteLength ((p :: ps).map Piece.text).flatten := by
      intro h
      have hle := ih h
      simp only [List.map_cons, List.flatten_cons, byteLength_append]
      omega
    cases p with
    | blank c => exact htail h
    | comment text => exact htail h
    | token k text =>
      rcases List.mem_cons.mp h with h | h
      · cases h
        simp only [Lexeme.range, String.toList_ofList, List.map_cons, List.flatten_cons,
          byteLength_append, Piece.text]
        omega
      · exact htail h
    | stray c =>
      rcases List.mem_cons.mp h with h | h
      · cases h
      · exact htail h

/-- The lexemes of a source lie inside it. -/
theorem lexSource_inside {source : String} {ts : List Lexeme} (h : lexSource source = .ok ts) :
    ∀ l ∈ ts, l.range.Inside (byteLength source.toList) := by
  intro l hl
  have hmem : .lexeme l ∈ scan source := by
    rw [(lexSource_eq_ok_iff.mp h).2]
    exact List.mem_map_of_mem hl
  have hstop := stop_le_of_mem_place hmem
  rw [flatten_pieces, Nat.zero_add] at hstop
  exact ⟨Nat.le_add_right _ _, hstop⟩

namespace Grammar

variable {n : Nat}

mutual

theorem ExprTree.inside : ∀ d : ExprTree, (∀ l ∈ d.yield, l.range.Inside n) → d.denote.Inside n
  | .mk first types, h => by
    simp only [ExprTree.yield, List.forall_mem_append] at h
    exact types.inside h.2 (first.inside h.1)

theorem TypesTree.inside : ∀ (d : TypesTree) {e : Expr}, (∀ l ∈ d.yield, l.range.Inside n) →
    e.Inside n → (d.annotate e).Inside n
  | .nil, _, _, he => he
  | .cons colon type more, e, h, he => by
    simp only [TypesTree.yield, List.mem_cons, forall_eq_or_imp, List.forall_mem_append] at h
    have htype := type.inside h.2.1
    exact more.inside h.2.2 ⟨he.range.merge htype.range, he, htype⟩

theorem ArrowTree.inside : ∀ d : ArrowTree, (∀ l ∈ d.yield, l.range.Inside n) → d.denote.Inside n
  | .piName sign name colon domain arrow body, h => by
    simp only [ArrowTree.yield, List.mem_cons, forall_eq_or_imp, List.forall_mem_append] at h
    obtain ⟨hsign, _, _, hdomain, _, hbody⟩ := h
    have hbody := body.inside hbody
    exact ⟨hsign.merge hbody.range, domain.inside hdomain, hbody⟩
  | .piGroups sign first more arrow body, h => by
    simp only [ArrowTree.yield, List.mem_cons, forall_eq_or_imp, List.forall_mem_append] at h
    obtain ⟨hsign, hfirst, hmore, _, hbody⟩ := h
    have hbody := body.inside hbody
    exact .pis (hsign.merge hbody.range) hbody
      (List.forall_mem_append.mpr ⟨first.inside hfirst, more.inside hmore⟩)
  | .lam sign first more arrow body, h => by
    simp only [ArrowTree.yield, List.mem_cons, forall_eq_or_imp, List.forall_mem_append] at h
    obtain ⟨hsign, _, _, _, hbody⟩ := h
    have hbody := body.inside hbody
    exact .lams (hsign.merge hbody.range) hbody _
  | .fn domain arrow codomain, h => by
    simp only [ArrowTree.yield, List.mem_cons, forall_eq_or_imp, List.forall_mem_append] at h
    have hdomain := domain.inside h.1
    have hcodomain := codomain.inside h.2.2
    exact ⟨hdomain.range.merge hcodomain.range, hdomain, hcodomain⟩
  | .app tree, h => tree.inside h

theorem GroupTree.inside : ∀ d : GroupTree, (∀ l ∈ d.yield, l.range.Inside n) →
    ∀ b ∈ d.binders, b.2.Inside n
  | .mk left names colon domain right, h => by
    simp only [GroupTree.yield, List.mem_cons, forall_eq_or_imp, List.forall_mem_append] at h
    have hdomain := domain.inside h.2.2.2.1
    intro b hb
    obtain ⟨x, _, rfl⟩ := List.mem_map.mp hb
    exact hdomain

theorem GroupsTree.inside : ∀ d : GroupsTree, (∀ l ∈ d.yield, l.range.Inside n) →
    ∀ b ∈ d.binders, b.2.Inside n
  | .nil, _ => by
    intro b hb
    cases hb
  | .cons group more, h => by
    simp only [GroupsTree.yield, List.forall_mem_append] at h
    exact List.forall_mem_append.mpr ⟨group.inside h.1, more.inside h.2⟩

theorem AppTree.inside : ∀ d : AppTree, (∀ l ∈ d.yield, l.range.Inside n) → d.denote.Inside n
  | .mk head args, h => by
    simp only [AppTree.yield, List.forall_mem_append] at h
    exact args.inside h.2 (head.inside h.1)

theorem ArgsTree.inside : ∀ (d : ArgsTree) {e : Expr}, (∀ l ∈ d.yield, l.range.Inside n) →
    e.Inside n → (d.apply e).Inside n
  | .nil, _, _, he => he
  | .cons arg more, e, h, he => by
    simp only [ArgsTree.yield, List.forall_mem_append] at h
    have harg := arg.inside h.1
    exact more.inside h.2 ⟨he.range.merge harg.range, he, harg⟩

theorem AtomTree.inside : ∀ d : AtomTree, (∀ l ∈ d.yield, l.range.Inside n) → d.denote.Inside n
  | .paren left expr right, h => by
    simp only [AtomTree.yield, List.mem_cons, forall_eq_or_imp, List.forall_mem_append] at h
    exact expr.inside h.2.1
  | .name name, h => h _ List.mem_cons_self
  | .star star, h => h _ List.mem_cons_self
  | .number number, h => h _ List.mem_cons_self

end

end Grammar

theorem readTerm_eq_ok {source : String} {e : Expr} (h : readTerm source = .ok e) :
    ∃ d : Grammar.ExprTree, lexSource source = .ok d.yield ∧ d.denote = e := by
  obtain ⟨ts, hts, h⟩ := Run.bind_eq_ok.mp h
  obtain ⟨d, rfl, he⟩ := Read.term_eq_ok.mp (Run.ofExcept_eq_ok.mp h)
  exact ⟨d, hts, he⟩

/-- An expression that is read from a source lies inside it. -/
theorem readTerm_inside {source : String} {e : Expr} (h : readTerm source = .ok e) :
    e.Inside (byteLength source.toList) := by
  obtain ⟨d, hts, rfl⟩ := readTerm_eq_ok h
  exact d.inside (lexSource_inside hts)

end TypeInType
