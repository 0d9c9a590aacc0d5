import Mathlib.Data.List.Forall2
import TypeInType.Proofs.Run
import TypeInType.Proofs.Term.Erasure
import TypeInType.Term.Elaborate

/-!
# Elaborated terms are closed

Elaboration gives each former the operands that it asks for, so it never stops at a former that its
operands do not fit. The terms that it makes have no loose indices, and no names but those of the
signature: names that sources do not use for formers.
-/

namespace TypeInType

/-! ## Formers -/

/-- The operand is of the kind, and is in scope under `k` binders, with names that satisfy `P`. -/
def Operand.Fits (P : Name → Prop) (k : Nat) : OperandKind → Operand → Prop
  | .synth, .synth t => t.Scoped P k
  | .check, .check t => t.Scoped P k
  | _, _ => False

/-- The former makes a term in scope of all operands that fit. -/
def FormerSpec.Ok (spec : FormerSpec) : Prop :=
  ∀ (P : Name → Prop) (k : Nat) (span : Span) (operands : List Operand),
    List.Forall₂ (Operand.Fits P k) spec.kinds operands →
      ∃ t, spec.build span operands = some t ∧ t.Scoped P k

theorem Operand.Fits.eq_check {P : Name → Prop} {k : Nat} {o : Operand}
    (h : Operand.Fits P k .check o) : ∃ t : Check, o = .check t ∧ t.Scoped P k := by
  match o, h with
  | .check t, h => exact ⟨t, rfl, h⟩

namespace FormerSpec

theorem constant_ok (name : String) {build : Span → Synth}
    (h : ∀ P span k, (build span).Scoped P k) : (constant name build).Ok :=
  fun P k span _ _ => ⟨.synth (build span), rfl, h P span k⟩

theorem succ_ok : succ.Ok := by
  rintro P k span _ (_ | ⟨hn, _ | _⟩)
  obtain ⟨n, rfl, hn⟩ := hn.eq_check
  exact ⟨_, rfl, hn⟩

theorem natElim_ok : natElim.Ok := by
  rintro P k span _ (_ | ⟨hm, _ | ⟨hb, _ | ⟨hs, _ | ⟨hn, _ | _⟩⟩⟩⟩)
  obtain ⟨m, rfl, hm⟩ := hm.eq_check
  obtain ⟨b, rfl, hb⟩ := hb.eq_check
  obtain ⟨s, rfl, hs⟩ := hs.eq_check
  obtain ⟨n, rfl, hn⟩ := hn.eq_check
  exact ⟨_, rfl, hm, hb, hs, hn⟩

theorem vec_ok : vec.Ok := by
  rintro P k span _ (_ | ⟨ha, _ | ⟨hn, _ | _⟩⟩)
  obtain ⟨a, rfl, ha⟩ := ha.eq_check
  obtain ⟨n, rfl, hn⟩ := hn.eq_check
  exact ⟨_, rfl, ha, hn⟩

theorem nil_ok : nil.Ok := by
  rintro P k span _ (_ | ⟨ha, _ | _⟩)
  obtain ⟨a, rfl, ha⟩ := ha.eq_check
  exact ⟨_, rfl, ha⟩

theorem cons_ok : cons.Ok := by
  rintro P k span _ (_ | ⟨ha, _ | ⟨hn, _ | ⟨hx, _ | ⟨hxs, _ | _⟩⟩⟩⟩)
  obtain ⟨a, rfl, ha⟩ := ha.eq_check
  obtain ⟨n, rfl, hn⟩ := hn.eq_check
  obtain ⟨x, rfl, hx⟩ := hx.eq_check
  obtain ⟨xs, rfl, hxs⟩ := hxs.eq_check
  exact ⟨_, rfl, ha, hn, hx, hxs⟩

theorem vecElim_ok : vecElim.Ok := by
  rintro P k span _ (_ | ⟨ha, _ | ⟨hm, _ | ⟨hb, _ | ⟨hs, _ | ⟨hn, _ | ⟨hxs, _ | _⟩⟩⟩⟩⟩⟩)
  obtain ⟨a, rfl, ha⟩ := ha.eq_check
  obtain ⟨m, rfl, hm⟩ := hm.eq_check
  obtain ⟨b, rfl, hb⟩ := hb.eq_check
  obtain ⟨s, rfl, hs⟩ := hs.eq_check
  obtain ⟨n, rfl, hn⟩ := hn.eq_check
  obtain ⟨xs, rfl, hxs⟩ := hxs.eq_check
  exact ⟨_, rfl, ha, hm, hb, hs, hn, hxs⟩

end FormerSpec

/-- Every former makes a term of the operands that it asks for. -/
def Vocabulary.Ok (voc : Vocabulary) : Prop :=
  ∀ spec ∈ voc.specs, spec.Ok

theorem Vocabulary.builtin_ok : builtin.Ok := by
  intro spec hspec
  simp only [builtin, nats, vecs, List.mem_append, List.mem_cons, List.not_mem_nil, or_false]
    at hspec
  rcases hspec with (rfl | rfl | rfl | rfl) | (rfl | rfl | rfl | rfl)
  · exact FormerSpec.constant_ok _ fun _ _ _ => trivial
  · exact FormerSpec.constant_ok _ fun _ _ _ => trivial
  · exact FormerSpec.succ_ok
  · exact FormerSpec.natElim_ok
  · exact FormerSpec.vec_ok
  · exact FormerSpec.nil_ok
  · exact FormerSpec.cons_ok
  · exact FormerSpec.vecElim_ok

/-! ## Heads -/

section Heads

variable {P : Name → Prop} {k : Nat}

theorem Check.inferable_spec {t : Check} (ht : t.Scoped P k) :
    t.inferable.Ends (fun _ => True) fun u => u.Scoped P k := by
  cases t with
  | synth t => exact ht
  | _ => trivial

theorem Operand.ofKind_spec (kind : OperandKind) {t : Check} (ht : t.Scoped P k) :
    (Operand.ofKind kind t).Ends (fun _ => True) (Operand.Fits P k kind) := by
  cases kind with
  | synth => exact (Check.inferable_spec ht).bind fun u _ hu => hu
  | check => exact ht

theorem FormerSpec.make_spec {ε : Type} {spec : FormerSpec} (hspec : spec.Ok) {span : Span}
    {operands : List Operand} (h : List.Forall₂ (Operand.Fits P k) spec.kinds operands)
    {E : ε → Prop} : (spec.make span operands).Ends E fun t => t.Scoped P k := by
  obtain ⟨t, ht, hts⟩ := hspec P k span operands h
  simp only [FormerSpec.make, ht]
  exact hts

/-- A head that is applied to `args` more arguments: a former that waits takes operands that fit so
far, and gets at least as many arguments as it waits for. -/
def Head.Ok (P : Name → Prop) (k args : Nat) : Head → Prop
  | .waiting spec operands kinds => spec.Ok ∧ 0 < kinds.length ∧ kinds.length ≤ args ∧
      ∃ taken, spec.kinds = taken.reverse ++ kinds ∧ List.Forall₂ (Operand.Fits P k) taken operands
  | .term t => t.Scoped P k

theorem Head.ofFormer_spec {spec : FormerSpec} (hspec : spec.Ok) {span : Span} {args : Nat}
    {operands : List Operand} {taken kinds : List OperandKind} (hk : kinds.length ≤ args)
    (hkinds : spec.kinds = taken.reverse ++ kinds)
    (h : List.Forall₂ (Operand.Fits P k) taken operands) :
    (Head.ofFormer spec span operands kinds).Ends (fun _ => True) (Head.Ok P k args) := by
  cases kinds with
  | nil =>
    rw [List.append_nil] at hkinds
    have hall : List.Forall₂ (Operand.Fits P k) spec.kinds operands.reverse := by
      rw [hkinds]
      exact List.forall₂_reverse_iff.mpr h
    exact (FormerSpec.make_spec hspec hall).bind fun t _ ht => ht
  | cons kind kinds => exact ⟨hspec, Nat.succ_pos _, hk, taken, hkinds, h⟩

theorem Head.apply_spec {span : Span} {arg : Unit → Run ElabError Check} {args : Nat} {h : Head}
    (hh : h.Ok P k (args + 1)) (harg : (arg ()).Ends (fun _ => True) fun t => t.Scoped P k) :
    (h.apply span arg).Ends (fun _ => True) (Head.Ok P k args) := by
  match h, hh with
  | .waiting spec operands (kind :: kinds), ⟨hspec, _, hk, taken, hkinds, hfits⟩ =>
    simp only [Head.apply]
    refine harg.bind fun t _ ht => ?_
    refine (Operand.ofKind_spec kind ht).bind fun o _ ho => ?_
    refine Head.ofFormer_spec hspec (Nat.le_of_succ_le_succ hk) ?_ (.cons ho hfits)
    rw [hkinds, List.reverse_cons, List.append_assoc]
    rfl
  | .term t, hh =>
    simp only [Head.apply]
    refine (Check.inferable_spec hh).bind fun u _ hu => ?_
    exact harg.bind fun a _ ha => ⟨hu, ha⟩

theorem Head.finish_spec {h : Head} (hh : h.Ok P k 0) :
    h.finish.Ends (fun _ => True) fun t => t.Scoped P k := by
  match h, hh with
  | .waiting _ _ _, ⟨_, hpos, hk, _⟩ => omega
  | .term t, hh => exact hh

end Heads

/-! ## Expressions -/

/-- The names of the signature that an expression uses: those that no binder in scope and no former has. -/
def Expr.globals (voc : Vocabulary) (scope : List (Option String)) : Expr → List String
  | .ann _ e t => e.globals voc scope ++ t.globals voc scope
  | .star _ => []
  | .pi _ x d c => d.globals voc scope ++ c.globals voc (x.map Ident.name :: scope)
  | .var _ x => if some x ∈ scope ∨ (voc.find? x).isSome then [] else [x]
  | .app _ h a => h.globals voc scope ++ a.globals voc scope
  | .lam _ x b => b.globals voc (some x.name :: scope)
  | .number _ _ => []

theorem Expr.mem_globals_var {voc : Vocabulary} {scope : List (Option String)} {r : Range}
    {x y : String} : y ∈ (Expr.var r x).globals voc scope ↔
      y = x ∧ some x ∉ scope ∧ voc.find? x = none := by
  simp only [Expr.globals]
  split
  · rename_i h
    simp only [List.not_mem_nil, false_iff]
    rintro ⟨_, hscope, hvoc⟩
    rw [hvoc] at h
    exact h.elim hscope nofun
  · rename_i h
    rw [not_or, Option.not_isSome_iff_eq_none] at h
    simp [h.1, h.2]

namespace Elaborate

variable (file : Nat) {voc : Vocabulary} (hvoc : voc.Ok) {P : Name → Prop}

theorem successors_spec {zero succ : FormerSpec} {kind : OperandKind} {span : Span} {k : Nat}
    (hzero : zero.Ok) (hsucc : succ.Ok) (hz : zero.kinds = []) (hs : succ.kinds = [kind]) :
    ∀ n, (successors zero succ kind span n).Ends (fun _ => True) fun t => t.Scoped P k
  | 0 => FormerSpec.make_spec hzero (by rw [hz]; exact .nil)
  | n + 1 => by
    simp only [successors]
    refine (successors_spec (k := k) hzero hsucc hz hs n).bind fun t _ ht => ?_
    refine (Operand.ofKind_spec kind ht).bind fun o _ ho => ?_
    exact FormerSpec.make_spec hsucc (by rw [hs]; exact .cons ho .nil)

include hvoc

theorem find?_ok {x : String} {spec : FormerSpec} (h : voc.find? x = some spec) : spec.Ok :=
  hvoc spec (List.mem_of_find?_eq_some h)

theorem number_spec {range : Range} {n k : Nat} :
    (number file voc range n).Ends (fun _ => True) fun t => t.Scoped P k := by
  simp only [number]
  split
  · rename_i zero succ hzero hsucc
    split
    · rename_i kind hz hs
      exact successors_spec (find?_ok hvoc hzero) (find?_ok hvoc hsucc) hz hs n
    · trivial
  · trivial

theorem name_spec {scope : List (Option String)} {whole : Range} {args : Nat} {range : Range}
    {x : String} (hP : ∀ y ∈ (Expr.var range x).globals voc scope, P (.global y)) :
    (name file voc scope whole args range x).Ends (fun _ => True)
      (Head.Ok P scope.length args) := by
  simp only [name]
  split
  · rename_i i hi
    obtain ⟨hlt, _⟩ := List.findIdx?_eq_some_iff_getElem.mp hi
    exact hlt
  · rename_i hscope
    split
    · rename_i spec hspec
      split
      · trivial
      · rename_i hargs
        exact Head.ofFormer_spec (find?_ok hvoc hspec) (Nat.not_lt.mp hargs) (by rfl) .nil
    · rename_i hnone
      refine hP x (Expr.mem_globals_var.mpr ⟨rfl, fun hx => ?_, hnone⟩)
      simpa using List.findIdx?_eq_none_iff.mp hscope (some x) hx

theorem head_spec : ∀ (e : Expr) (scope : List (Option String)) (whole : Range) (args : Nat),
    (∀ x ∈ e.globals voc scope, P (.global x)) →
    (head file voc scope whole args e).Ends (fun _ => True) (Head.Ok P scope.length args)
  | .ann r e t, scope, whole, args, hP => by
    simp only [Expr.globals, List.forall_mem_append] at hP
    simp only [head]
    refine (head_spec e scope e.range 0 hP.1).bind fun he _ hhe => ?_
    refine (Head.finish_spec hhe).bind fun e' _ he' => ?_
    refine (head_spec t scope t.range 0 hP.2).bind fun ht _ hht => ?_
    exact (Head.finish_spec hht).bind fun t' _ ht' => ⟨he', ht'⟩
  | .star r, scope, whole, args, _ => trivial
  | .pi r x d c, scope, whole, args, hP => by
    simp only [Expr.globals, List.forall_mem_append] at hP
    simp only [head]
    refine (head_spec d scope d.range 0 hP.1).bind fun hd _ hhd => ?_
    refine (Head.finish_spec hhd).bind fun d' _ hd' => ?_
    refine (head_spec c (x.map Ident.name :: scope) c.range 0 hP.2).bind fun hc _ hhc => ?_
    exact (Head.finish_spec hhc).bind fun c' _ hc' => ⟨hd', hc'⟩
  | .var r x, scope, whole, args, hP => name_spec file hvoc hP
  | .app r h a, scope, whole, args, hP => by
    simp only [Expr.globals, List.forall_mem_append] at hP
    simp only [head]
    refine (head_spec h scope whole (args + 1) hP.1).bind fun h' _ hh' => ?_
    refine Head.apply_spec hh' ?_
    exact (head_spec a scope a.range 0 hP.2).bind fun ha _ hha => Head.finish_spec hha
  | .lam r x b, scope, whole, args, hP => by
    simp only [head]
    refine (head_spec b (some x.name :: scope) b.range 0 hP).bind fun hb _ hhb => ?_
    exact (Head.finish_spec hhb).bind fun b' _ hb' => hb'
  | .number r n, scope, whole, args, _ => by
    simp only [head]
    exact (number_spec file hvoc).bind fun t _ ht => ht

end Elaborate

/-- The names of an elaborated term are the names of the signature that the expression uses. -/
theorem Expr.elaborate_scoped (file : Nat) {voc : Vocabulary} (hvoc : voc.Ok) {P : Name → Prop}
    (e : Expr) (hP : ∀ x ∈ e.globals voc [], P (.global x)) :
    (e.elaborate file voc).Ends (fun _ => True) fun t => t.Scoped P 0 := by
  simp only [Expr.elaborate, Elaborate.check]
  have hcheck := (Elaborate.head_spec file hvoc e [] e.range 0 hP).bind
    fun h _ hh => Head.finish_spec hh
  exact hcheck.bind fun t _ ht => Check.inferable_spec ht

theorem Expr.find?_of_mem_globals {voc : Vocabulary} {x : String} :
    ∀ {e : Expr} {scope : List (Option String)}, x ∈ e.globals voc scope → voc.find? x = none
  | .ann _ e t, scope, h => by
    rcases List.mem_append.mp h with h | h
    · exact find?_of_mem_globals h
    · exact find?_of_mem_globals h
  | .pi _ _ d c, scope, h => by
    rcases List.mem_append.mp h with h | h
    · exact find?_of_mem_globals h
    · exact find?_of_mem_globals h
  | .var r y, scope, h => by
    obtain ⟨rfl, _, hvoc⟩ := Expr.mem_globals_var.mp h
    exact hvoc
  | .app _ f a, scope, h => by
    rcases List.mem_append.mp h with h | h
    · exact find?_of_mem_globals h
    · exact find?_of_mem_globals h
  | .lam _ _ b, scope, h => find?_of_mem_globals (e := b) h

/-- A name of the signature that no former has. -/
def Vocabulary.IsFree (voc : Vocabulary) : Name → Prop
  | .global x => voc.find? x = none
  | _ => False

/-- The names of an elaborated term are names of the signature that no former has. -/
theorem Expr.elaborate_isFree (file : Nat) {voc : Vocabulary} (hvoc : voc.Ok) (e : Expr) :
    (e.elaborate file voc).Ends (fun _ => True) fun t => t.Scoped voc.IsFree 0 :=
  e.elaborate_scoped file hvoc fun _ hx => Expr.find?_of_mem_globals hx

/-- Elaboration does not fault, and gives a closed term. -/
theorem Expr.elaborate_spec (file : Nat) {voc : Vocabulary} (hvoc : voc.Ok) (e : Expr) :
    (e.elaborate file voc).Ends (fun _ => True) fun t => t.Scoped IsGlobal 0 :=
  e.elaborate_scoped file hvoc fun _ _ => trivial

end TypeInType
