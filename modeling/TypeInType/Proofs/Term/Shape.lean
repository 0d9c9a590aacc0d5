import TypeInType.Proofs.Run
import TypeInType.Term.Elaborate

/-!
# Which expressions elaborate

Elaboration fails at two kinds of place only: at a function literal whose type would have to be inferred,
and at a former that is applied to too few arguments. All other expressions elaborate. In their terms a
former has as many arguments as it takes, and the result is applied to the rest of them.
-/

namespace TypeInType

/-! ## Well-shaped expressions -/

/-- An expression that is no application: the names of the binders around it, the innermost first, and how
many arguments it is applied to. -/
structure SpineHead where
  scope : List (Option String)
  expr : Expr
  args : Nat

/-- The heads of all applications in an expression that is applied to `args` arguments. What is not an
application is the head of one without arguments. -/
def Expr.heads (scope : List (Option String)) (args : Nat) : Expr → List SpineHead
  | .ann r e t => ⟨scope, .ann r e t, args⟩ :: (e.heads scope 0 ++ t.heads scope 0)
  | .star r => [⟨scope, .star r, args⟩]
  | .pi r x d c =>
    ⟨scope, .pi r x d c, args⟩ :: (d.heads scope 0 ++ c.heads (x.map Ident.name :: scope) 0)
  | .var r x => [⟨scope, .var r x, args⟩]
  | .app _ h a => h.heads scope (args + 1) ++ a.heads scope 0
  | .lam r x b => ⟨scope, .lam r x b, args⟩ :: b.heads (some x.name :: scope) 0
  | .number r n => [⟨scope, .number r n, args⟩]

def Expr.isLam : Expr → Bool
  | .lam _ _ _ => true
  | _ => false

/-- A function literal is not applied, and a former that no binder shadows is applied to as many arguments
as it takes. -/
structure SpineHead.Ok (voc : Vocabulary) (h : SpineHead) : Prop where
  lambda : h.expr.isLam = true → h.args = 0
  former : ∀ r x spec, h.expr = .var r x → some x ∉ h.scope → voc.find? x = some spec →
    spec.arity ≤ h.args

/-- The expression is no function literal, and all heads of applications in it are in order. -/
structure Expr.WellShaped (voc : Vocabulary) (e : Expr) : Prop where
  root : e.isLam = false
  heads : ∀ h ∈ e.heads [] 0, h.Ok voc

/-! ## The term of an expression -/

/-- The head of an application, and its arguments in order. -/
def Expr.spine : Expr → Expr × List Expr
  | .app _ h a => (h.spine.1, h.spine.2 ++ [a])
  | e => (e, [])

/-- The head of an application, and its arguments in order. -/
def Synth.spine : Synth → Synth × List Check
  | .app _ h a => (h.spine.1, h.spine.2 ++ [a])
  | t => (t, [])

mutual

/-- The expression stands for the term, under binders with the given names. A former is made of its first
arguments, as many as it takes, and is applied to the rest of them; any other head is applied to all. -/
inductive Expr.StandsFor (voc : Vocabulary) : List (Option String) → Expr → Check → Prop
  | ann {scope r e t s e' t'} : StandsFor voc scope e e' → StandsFor voc scope t t' →
      StandsFor voc scope (.ann r e t) (.synth (.ann s e' t'))
  | star {scope r s} : StandsFor voc scope (.star r) (.synth (.star s))
  | pi {scope r x d c s d' c'} : StandsFor voc scope d d' →
      StandsFor voc (x.map Ident.name :: scope) c c' →
      StandsFor voc scope (.pi r x d c) (.synth (.pi s (x.map Ident.name) d' c'))
  | lam {scope r x b s b'} : StandsFor voc (some x.name :: scope) b b' →
      StandsFor voc scope (.lam r x b) (.lam s (some x.name) b')
  | number {scope r n t} : t.numeral? = some n → StandsFor voc scope (.number r n) (.synth t)
  | bound {scope e r x args t s i ts} : e.spine = (.var r x, args) →
      scope.findIdx? (· == some x) = some i → t.spine = (.bound s i, ts) →
      StandForAll voc scope args ts → StandsFor voc scope e (.synth t)
  | global {scope e r x args t s ts} : e.spine = (.var r x, args) → some x ∉ scope →
      voc.find? x = none → t.spine = (.free s (.global x), ts) →
      StandForAll voc scope args ts → StandsFor voc scope e (.synth t)
  | former {scope e r x args rest spec t f ts us} {F : Former} : e.spine = (.var r x, args ++ rest) →
      some x ∉ scope → voc.find? x = some spec → args.length = spec.arity → t.spine = (f, ts) →
      f.former? = some (F, us) → F.name = x → StandForAll voc scope args us →
      StandForAll voc scope rest ts → StandsFor voc scope e (.synth t)
  | app {scope e h args t f ts} : e.spine = (h, args) → args ≠ [] → StandsFor voc scope h (.synth f) →
      t.spine = (f, ts) → StandForAll voc scope args ts → StandsFor voc scope e (.synth t)

/-- The expressions stand for the terms, each for the one in its place. -/
inductive Expr.StandForAll (voc : Vocabulary) : List (Option String) → List Expr → List Check → Prop
  | nil {scope} : StandForAll voc scope [] []
  | cons {scope e es t ts} : StandsFor voc scope e t → StandForAll voc scope es ts →
      StandForAll voc scope (e :: es) (t :: ts)

end

theorem Synth.spine_concat {s : Span} {t f : Synth} {a : Check} {ts : List Check}
    (h : t.spine = (f, ts)) : (Synth.app s t a).spine = (f, ts ++ [a]) := by
  rw [Synth.spine, h]

namespace Expr

variable {voc : Vocabulary} {scope : List (Option String)} {e h a : Expr} {t u a' : Check} {f : Synth}

theorem StandForAll.concat (ha : StandsFor voc scope a a') : ∀ {es ts},
    StandForAll voc scope es ts → StandForAll voc scope (es ++ [a]) (ts ++ [a'])
  | [], [], _ => .cons ha .nil
  | _ :: _, _ :: _, .cons he hes => .cons he (hes.concat ha)

theorem StandForAll.length_eq : ∀ {es ts}, StandForAll voc scope es ts → es.length = ts.length
  | [], [], _ => rfl
  | _ :: _, _ :: _, .cons _ hes => congrArg Nat.succ hes.length_eq

theorem spine_concat {r : Range} {args : List Expr} (hspine : h.spine = (e, args)) :
    (Expr.app r h a).spine = (e, args ++ [a]) := by
  rw [Expr.spine, hspine]

/-- One more argument. -/
theorem StandsFor.concat {r : Range} {s : Span} {f : Synth} (hf : StandsFor voc scope h (.synth f))
    (ha : StandsFor voc scope a a') : StandsFor voc scope (.app r h a) (.synth (.app s f a')) := by
  have hself := hf
  cases hf with
  | bound he hi ht hargs =>
    exact .bound (spine_concat he) hi (Synth.spine_concat ht) (hargs.concat ha)
  | global he hx hfind ht hargs =>
    exact .global (spine_concat he) hx hfind (Synth.spine_concat ht) (hargs.concat ha)
  | former he hx hfind hlen ht hF hname hargs hrest =>
    have he := spine_concat (r := r) (a := a) he
    rw [List.append_assoc] at he
    exact .former he hx hfind hlen (Synth.spine_concat ht) hF hname hargs (hrest.concat ha)
  | app he _ hhead ht hall =>
    exact .app (spine_concat he) (by simp) hhead (Synth.spine_concat ht) (hall.concat ha)
  | ann _ _ => exact .app rfl (by simp [Expr.spine]) hself rfl (.cons ha .nil)
  | star => exact .app rfl (by simp [Expr.spine]) hself rfl (.cons ha .nil)
  | pi _ _ => exact .app rfl (by simp [Expr.spine]) hself rfl (.cons ha .nil)
  | number hn =>
    have hspine : f.spine = (f, []) := by
      cases f <;> first | rfl | cases hn
    exact .app rfl (by simp [Expr.spine]) hself (Synth.spine_concat hspine) (.cons ha .nil)

/-- Only a function literal stands for a term whose type is not inferred. -/
theorem StandsFor.isLam_iff (ht : StandsFor voc scope e t) : e.isLam = false ↔ ∃ f, t = .synth f := by
  have hspine : ∀ {h : Expr} {args}, e.spine = (h, args) → (h.isLam = false ∨ args ≠ []) → e.isLam = false := by
    intro h args he hor
    cases e with
    | lam r x b =>
      cases he
      exact hor.elim id fun hne => absurd rfl hne
    | _ => rfl
  cases ht with
  | lam _ => simp [Expr.isLam]
  | bound he _ _ _ => simp [hspine he (.inl rfl)]
  | global he _ _ _ _ => simp [hspine he (.inl rfl)]
  | former he _ _ _ _ _ _ _ _ => simp [hspine he (.inl rfl)]
  | app he hargs _ _ _ => simp [hspine he (.inr hargs)]
  | ann _ _ | star | pi _ _ | number _ => simp [Expr.isLam]

end Expr

/-! ## Computations that decide -/

namespace Run

variable {ε α β : Type}

/-- The computation has a result, which satisfies `Q`, if `P` holds, and reports an error if not. -/
def Decides (P : Prop) (Q : α → Prop) (x : Run ε α) : Prop :=
  (P ∧ ∃ a, x = .ok a ∧ Q a) ∨ (¬ P ∧ ∃ e, x = .error (.refused e))

variable {P P' : Prop} {Q : α → Prop} {x : Run ε α}

theorem Decides.pure {a : α} (h : Q a) : Decides True Q (pure a : Run ε α) :=
  .inl ⟨trivial, a, rfl, h⟩

theorem Decides.congr (h : x.Decides P Q) (hP : P ↔ P') : x.Decides P' Q := by
  rwa [Decides, ← hP]

theorem Decides.of_true (h : x.Decides True Q) (hP : P) : x.Decides P Q :=
  h.congr (iff_of_true trivial hP)

theorem Decides.bind {S : β → Prop} {f : α → Run ε β} (h : x.Decides P Q)
    (hf : ∀ a, Q a → (f a).Decides P' S) : (x >>= f).Decides (P ∧ P') S := by
  rcases h with ⟨hP, a, rfl, ha⟩ | ⟨hP, e, rfl⟩
  · rcases hf a ha with ⟨hP', b, hb, hS⟩ | ⟨hP', e, he⟩
    · exact .inl ⟨⟨hP, hP'⟩, b, hb, hS⟩
    · exact .inr ⟨fun h => hP' h.2, e, he⟩
  · exact .inr ⟨fun h => hP h.1, e, rfl⟩

/-- The first computation always has a result. -/
theorem Decides.true_bind {S : β → Prop} {f : α → Run ε β} (h : x.Decides True Q)
    (hf : ∀ a, Q a → (f a).Decides P S) : (x >>= f).Decides P S :=
  (h.bind hf).congr (and_iff_right trivial)

/-- The second computation always has a result. -/
theorem Decides.bind_true {S : β → Prop} {f : α → Run ε β} (h : x.Decides P Q)
    (hf : ∀ a, Q a → (f a).Decides True S) : (x >>= f).Decides P S :=
  (h.bind hf).congr (and_iff_left trivial)

theorem Decides.ok_iff (h : x.Decides P Q) : (∃ a, x = .ok a) ↔ P := by
  rcases h with ⟨hP, a, rfl, _⟩ | ⟨hP, e, rfl⟩
  · exact ⟨fun _ => hP, fun _ => ⟨a, rfl⟩⟩
  · exact ⟨fun ⟨_, ha⟩ => (by cases ha), fun h => absurd h hP⟩

theorem Decides.of_eq_ok {a : α} (h : x.Decides P Q) (hx : x = .ok a) : Q a := by
  subst hx
  rcases h with ⟨_, _, ha, hQ⟩ | ⟨_, _, he⟩
  · cases ha
    exact hQ
  · cases he

theorem Decides.of_eq_error {halt : Halt ε} (h : x.Decides P Q) (hx : x = .error halt) :
    ∃ e, halt = .refused e := by
  subst hx
  rcases h with ⟨_, _, ha, _⟩ | ⟨_, e, he⟩
  · cases ha
  · cases he
    exact ⟨e, rfl⟩

end Run

/-! ## Formers -/

/-- All operands are checked, and what is made of as many as there should be is the former with these. -/
structure FormerSpec.Forms (spec : FormerSpec) (F : Former) : Prop where
  name : F.name = spec.name
  kinds : spec.kinds = List.replicate spec.arity .check
  build : ∀ (span : Span) (us : List Check), us.length = spec.arity →
    ∃ f, spec.build span (us.map .check) = some (.synth f) ∧ f.former? = some (F, us)

theorem Vocabulary.builtin_forms {x : String} {spec : FormerSpec} (h : builtin.find? x = some spec) :
    ∃ F, spec.Forms F ∧ F.name = x := by
  have hname : spec.name = x := by simpa using List.find?_some h
  have hmem := List.mem_of_find?_eq_some h
  simp only [builtin, nats, vecs, List.mem_append, List.mem_cons, List.not_mem_nil, or_false]
    at hmem
  rcases hmem with (rfl | rfl | rfl | rfl) | (rfl | rfl | rfl | rfl)
  · refine ⟨.nat, ⟨rfl, rfl, fun _ us hus => ?_⟩, hname⟩
    rcases us with _ | _ <;> cases hus
    exact ⟨_, rfl, rfl⟩
  · refine ⟨.zero, ⟨rfl, rfl, fun _ us hus => ?_⟩, hname⟩
    rcases us with _ | _ <;> cases hus
    exact ⟨_, rfl, rfl⟩
  · refine ⟨.succ, ⟨rfl, rfl, fun _ us hus => ?_⟩, hname⟩
    rcases us with _ | ⟨n, _ | _⟩ <;> cases hus
    exact ⟨_, rfl, rfl⟩
  · refine ⟨.natElim, ⟨rfl, rfl, fun _ us hus => ?_⟩, hname⟩
    rcases us with _ | ⟨m, _ | ⟨b, _ | ⟨s, _ | ⟨n, _ | _⟩⟩⟩⟩ <;> cases hus
    exact ⟨_, rfl, rfl⟩
  · refine ⟨.vec, ⟨rfl, rfl, fun _ us hus => ?_⟩, hname⟩
    rcases us with _ | ⟨a, _ | ⟨n, _ | _⟩⟩ <;> cases hus
    exact ⟨_, rfl, rfl⟩
  · refine ⟨.nil, ⟨rfl, rfl, fun _ us hus => ?_⟩, hname⟩
    rcases us with _ | ⟨a, _ | _⟩ <;> cases hus
    exact ⟨_, rfl, rfl⟩
  · refine ⟨.cons, ⟨rfl, rfl, fun _ us hus => ?_⟩, hname⟩
    rcases us with _ | ⟨a, _ | ⟨n, _ | ⟨x, _ | ⟨xs, _ | _⟩⟩⟩⟩ <;> cases hus
    exact ⟨_, rfl, rfl⟩
  · refine ⟨.vecElim, ⟨rfl, rfl, fun _ us hus => ?_⟩, hname⟩
    rcases us with _ | ⟨a, _ | ⟨m, _ | ⟨b, _ | ⟨s, _ | ⟨n, _ | ⟨xs, _ | _⟩⟩⟩⟩⟩⟩ <;> cases hus
    exact ⟨_, rfl, rfl⟩

/-! ## Heads -/

/-- The expression is a former, which no binder shadows, with arguments that stand for the terms. -/
def Expr.Supplies (scope : List (Option String)) (e : Expr) (spec : FormerSpec) (ts : List Check) : Prop :=
  ∃ r x args, e.spine = (.var r x, args) ∧ some x ∉ scope ∧ Vocabulary.builtin.find? x = some spec ∧
    StandForAll .builtin scope args ts

/-- The head stands for the expression, where `args` arguments follow. A former that waits has got the
arguments of the expression, and waits for no more than those that follow. -/
def Head.StandsFor (scope : List (Option String)) (args : Nat) (e : Expr) : Head → Prop
  | .waiting spec operands kinds => ∃ ts k, e.Supplies scope spec ts ∧
      operands = (ts.map .check).reverse ∧ kinds = List.replicate (k + 1) .check ∧
        ts.length + (k + 1) = spec.arity ∧ k < args
  | .term t => e.StandsFor .builtin scope t

section Heads

variable {scope : List (Option String)} {e h a : Expr} {spec : FormerSpec} {ts : List Check}

theorem Expr.Supplies.concat {r : Range} {a' : Check} (hh : h.Supplies scope spec ts)
    (ha : a.StandsFor .builtin scope a') : (Expr.app r h a).Supplies scope spec (ts ++ [a']) := by
  obtain ⟨r', x, args, he, hx, hfind, hargs⟩ := hh
  exact ⟨r', x, args ++ [a], Expr.spine_concat he, hx, hfind, hargs.concat ha⟩

theorem Expr.Supplies.isLam (he : e.Supplies scope spec ts) : e.isLam = false := by
  obtain ⟨r, x, args, he, _⟩ := he
  cases e with
  | lam _ _ _ => cases he
  | _ => rfl

/-- A former that has got some operands and lacks `k` more. -/
theorem Head.ofFormer_decides (span : Span) {args k : Nat} (he : e.Supplies scope spec ts)
    (hlen : ts.length + k = spec.arity) (hk : k ≤ args) :
    (Head.ofFormer spec span (ts.map .check).reverse (List.replicate k .check)).Decides True
      (Head.StandsFor scope args e) := by
  cases k with
  | zero =>
    obtain ⟨r, x, as, hspine, hx, hfind, has⟩ := he
    obtain ⟨F, hF, hname⟩ := Vocabulary.builtin_forms hfind
    obtain ⟨f, hbuild, hformer⟩ := hF.build span ts hlen
    have hstands : e.StandsFor .builtin scope (.synth f) := by
      have hspine' : f.spine = (f, []) := by
        cases f <;> first | rfl | cases hformer
      exact .former (by rw [hspine, List.append_nil]) hx hfind (has.length_eq.trans hlen) hspine'
        hformer hname has .nil
    refine .inl ⟨trivial, .term (.synth f), ?_, hstands⟩
    rw [List.replicate_zero, Head.ofFormer, List.reverse_reverse, FormerSpec.make, hbuild]
    rfl
  | succ k => exact .pure ⟨ts, k, he, rfl, rfl, hlen, hk⟩

theorem Check.inferable_decides {t : Check} (ht : e.StandsFor .builtin scope t) :
    t.inferable.Decides (e.isLam = false) fun f => e.StandsFor .builtin scope (.synth f) := by
  rw [Run.Decides, ht.isLam_iff]
  cases t with
  | synth f => exact .inl ⟨⟨f, rfl⟩, f, rfl, ht⟩
  | _ => exact .inr ⟨by simp, _, rfl⟩

theorem Head.apply_decides {H : Head} {args : Nat} (hH : H.StandsFor scope (args + 1) h) (r : Range)
    (span : Span) {arg : Unit → Run ElabError Check} {P : Prop}
    (harg : (arg ()).Decides P (a.StandsFor .builtin scope)) :
    (H.apply span arg).Decides (h.isLam = false ∧ P) (Head.StandsFor scope args (.app r h a)) := by
  cases H with
  | waiting spec operands kinds =>
    obtain ⟨ts, k, hh, rfl, rfl, hlen, hk⟩ := hH
    simp only [hh.isLam, true_and, List.replicate_succ, Head.apply]
    refine harg.bind_true fun a' ha => ?_
    have hlen' : (ts ++ [a']).length + k = spec.arity := by
      rw [List.length_append, List.length_singleton, Nat.add_assoc, Nat.add_comm 1, hlen]
    have hformer := Head.ofFormer_decides span (hh.concat (r := r) ha) hlen' (Nat.le_of_lt_succ hk)
    rwa [List.map_append, List.reverse_append] at hformer
  | term t =>
    simp only [Head.apply]
    refine (Check.inferable_decides hH).bind fun f hf => ?_
    exact harg.bind_true fun a' ha => .pure (hf.concat ha)

theorem Head.finish_decides {H : Head} (hH : H.StandsFor scope 0 e) :
    H.finish.Decides True (e.StandsFor .builtin scope) := by
  cases H with
  | waiting spec operands kinds =>
    obtain ⟨_, _, _, _, _, _, hk⟩ := hH
    exact absurd hk (Nat.not_lt_zero _)
  | term t => exact .pure hH

end Heads

/-! ## Expressions -/

/-- The shape of an expression that is applied to `args` arguments, whatever it is itself. -/
def Expr.Shaped (voc : Vocabulary) (scope : List (Option String)) (args : Nat) : Expr → Prop
  | .ann _ e t => e.Shaped voc scope 0 ∧ t.Shaped voc scope 0
  | .pi _ x d c => d.Shaped voc scope 0 ∧ c.Shaped voc (x.map Ident.name :: scope) 0
  | .var _ x => some x ∉ scope → ∀ spec, voc.find? x = some spec → spec.arity ≤ args
  | .app _ h a => h.Shaped voc scope (args + 1) ∧ h.isLam = false ∧ a.Shaped voc scope 0
  | .lam _ x b => b.Shaped voc (some x.name :: scope) 0
  | .star _ | .number _ _ => True

/-- A head that is neither a function literal nor a name. -/
theorem SpineHead.Ok.of_ne {voc : Vocabulary} {h : SpineHead} (hlam : h.expr.isLam = false)
    (hvar : ∀ r x, h.expr ≠ .var r x) : h.Ok voc where
  lambda h' := by rw [hlam] at h'; cases h'
  former r x _ h' := absurd h' (hvar r x)

theorem Expr.forall_heads_iff {voc : Vocabulary} :
    ∀ (e : Expr) (scope : List (Option String)) (args : Nat),
      (∀ h ∈ e.heads scope args, h.Ok voc) ↔
        (e.isLam = true → args = 0) ∧ e.Shaped voc scope args
  | .ann r e t, scope, args => by
    have hself : SpineHead.Ok voc ⟨scope, .ann r e t, args⟩ := .of_ne rfl nofun
    rw [heads, List.forall_mem_cons, List.forall_mem_append, forall_heads_iff e, forall_heads_iff t]
    simp [hself, Shaped, isLam]
  | .star r, scope, args => by
    have hself : SpineHead.Ok voc ⟨scope, .star r, args⟩ := .of_ne rfl nofun
    rw [heads, List.forall_mem_singleton]
    simp [hself, Shaped, isLam]
  | .pi r x d c, scope, args => by
    have hself : SpineHead.Ok voc ⟨scope, .pi r x d c, args⟩ := .of_ne rfl nofun
    rw [heads, List.forall_mem_cons, List.forall_mem_append, forall_heads_iff d, forall_heads_iff c]
    simp [hself, Shaped, isLam]
  | .var r x, scope, args => by
    rw [heads, List.forall_mem_singleton]
    constructor
    · intro h
      exact ⟨nofun, fun hx spec hspec => h.former r x spec rfl hx hspec⟩
    · rintro ⟨_, h⟩
      refine ⟨nofun, ?_⟩
      rintro _ _ spec ⟨⟩ hx hspec
      exact h hx spec hspec
  | .app r h a, scope, args => by
    have happ : (Expr.app r h a).isLam = false := rfl
    rw [heads, List.forall_mem_append, forall_heads_iff h, forall_heads_iff a]
    simp [happ, Shaped, and_assoc, and_left_comm]
  | .lam r x b, scope, args => by
    have hself : SpineHead.Ok voc ⟨scope, .lam r x b, args⟩ ↔ args = 0 :=
      ⟨fun h => h.lambda rfl, fun h => ⟨fun _ => h, nofun⟩⟩
    rw [heads, List.forall_mem_cons, hself, forall_heads_iff b]
    simp [Shaped, isLam]
  | .number r n, scope, args => by
    have hself : SpineHead.Ok voc ⟨scope, .number r n, args⟩ := .of_ne rfl nofun
    rw [heads, List.forall_mem_singleton]
    simp [hself, Shaped, isLam]

namespace Elaborate

variable (file : Nat)

theorem number_decides (range : Range) (n : Nat) :
    (number file .builtin range n).Decides True fun t => ∃ f, t = .synth f ∧ f.numeral? = some n := by
  change Run.Decides True _ (successors .zero .succ .check (span file range) n)
  induction n with
  | zero => exact .pure ⟨_, rfl, rfl⟩
  | succ n ih =>
    refine ih.true_bind fun t ht => ?_
    obtain ⟨f, rfl, hf⟩ := ht
    refine .pure ⟨_, rfl, ?_⟩
    rw [Synth.numeral?, hf]
    rfl

theorem name_decides {scope : List (Option String)} {whole range : Range} {args : Nat} {x : String} :
    (name file .builtin scope whole args range x).Decides
      ((Expr.var range x).Shaped .builtin scope args)
      (Head.StandsFor scope args (.var range x)) := by
  unfold name
  cases hi : scope.findIdx? (· == some x) with
  | some i =>
    have hx : some x ∈ scope := by
      obtain ⟨hlt, hx, _⟩ := List.findIdx?_eq_some_iff_getElem.mp hi
      exact List.mem_of_getElem (eq_of_beq hx)
    refine Run.Decides.of_true (.pure ?_) fun hx' => absurd hx hx'
    exact Expr.StandsFor.bound rfl hi rfl .nil
  | none =>
    have hx : some x ∉ scope := by
      intro hx
      simpa using List.findIdx?_eq_none_iff.mp hi _ hx
    cases hfind : Vocabulary.builtin.find? x with
    | none =>
      refine Run.Decides.of_true (.pure ?_) fun _ spec hspec => ?_
      · exact Expr.StandsFor.global rfl hx hfind rfl .nil
      · rw [hfind] at hspec
        cases hspec
    | some spec =>
      dsimp only
      by_cases hargs : args < spec.arity
      · rw [if_pos hargs]
        exact .inr ⟨fun h => Nat.not_le_of_lt hargs (h hx spec hfind), _, rfl⟩
      · rw [if_neg hargs]
        have hle : spec.arity ≤ args := Nat.not_lt.mp hargs
        obtain ⟨F, hF, _⟩ := Vocabulary.builtin_forms hfind
        have hsupplies : (Expr.var range x).Supplies scope spec [] := ⟨range, x, [], rfl, hx, hfind, .nil⟩
        have hformer := Head.ofFormer_decides (span file range) hsupplies (Nat.zero_add _) hle
        rw [← hF.kinds] at hformer
        refine hformer.of_true fun _ spec' hspec' => ?_
        rw [hfind] at hspec'
        cases hspec'
        exact hle

theorem head_decides : ∀ (e : Expr) (scope : List (Option String)) (whole : Range) (args : Nat),
    (head file .builtin scope whole args e).Decides (e.Shaped .builtin scope args)
      (Head.StandsFor scope args e)
  | .ann r e t, scope, whole, args => by
    rw [head]
    refine (head_decides e scope e.range 0).bind fun E hE => ?_
    refine (Head.finish_decides hE).true_bind fun e' he' => ?_
    refine (head_decides t scope t.range 0).bind_true fun T hT => ?_
    exact (Head.finish_decides hT).true_bind fun t' ht' => .pure (.ann he' ht')
  | .star r, scope, whole, args => .pure .star
  | .pi r x d c, scope, whole, args => by
    rw [head]
    refine (head_decides d scope d.range 0).bind fun D hD => ?_
    refine (Head.finish_decides hD).true_bind fun d' hd' => ?_
    refine (head_decides c (x.map Ident.name :: scope) c.range 0).bind_true fun C hC => ?_
    exact (Head.finish_decides hC).true_bind fun c' hc' => .pure (.pi hd' hc')
  | .var r x, scope, whole, args => name_decides file
  | .app r h a, scope, whole, args => by
    rw [head]
    refine (head_decides h scope whole (args + 1)).bind fun H hH => ?_
    refine Head.apply_decides hH r (span file r) ?_
    exact (head_decides a scope a.range 0).bind_true fun A hA => Head.finish_decides hA
  | .lam r x b, scope, whole, args => by
    rw [head]
    refine (head_decides b (some x.name :: scope) b.range 0).bind_true fun B hB => ?_
    exact (Head.finish_decides hB).true_bind fun b' hb' => .pure (.lam hb')
  | .number r n, scope, whole, args => by
    rw [head]
    refine (number_decides file r n).true_bind fun t ht => ?_
    obtain ⟨f, rfl, hf⟩ := ht
    exact .pure (.number hf)

end Elaborate

theorem Expr.wellShaped_iff {voc : Vocabulary} {e : Expr} :
    e.WellShaped voc ↔ e.Shaped voc [] 0 ∧ e.isLam = false := by
  constructor
  · intro h
    exact ⟨((e.forall_heads_iff [] 0).mp h.heads).2, h.root⟩
  · rintro ⟨hshaped, hroot⟩
    exact ⟨hroot, (e.forall_heads_iff [] 0).mpr ⟨fun _ => rfl, hshaped⟩⟩

theorem Expr.elaborate_decides (file : Nat) (e : Expr) :
    (e.elaborate file .builtin).Decides (e.WellShaped .builtin) fun t =>
      e.StandsFor .builtin [] (.synth t) := by
  refine Run.Decides.congr ?_ Expr.wellShaped_iff.symm
  rw [Expr.elaborate, Elaborate.check]
  have hcheck := (Elaborate.head_decides file e [] e.range 0).bind_true
    fun H hH => Head.finish_decides hH
  exact hcheck.bind fun t ht => Check.inferable_decides ht

/-- An expression elaborates if and only if it is well shaped: it is no function literal, no function
literal in it is applied, and every former that no binder shadows has as many arguments as it takes. The
term is the one that the expression stands for. If there is none, elaboration reports an error: it never
faults. -/
theorem Expr.elaborate_ok_iff_wellShaped (file : Nat) (e : Expr) :
    ((∃ t, e.elaborate file .builtin = .ok t) ↔ e.WellShaped .builtin) ∧
      (∀ t, e.elaborate file .builtin = .ok t → e.StandsFor .builtin [] (.synth t)) ∧
        ∀ halt, e.elaborate file .builtin = .error halt → ∃ err, halt = .refused err := by
  have hdecides := e.elaborate_decides file
  exact ⟨hdecides.ok_iff, fun _ => hdecides.of_eq_ok, fun _ => hdecides.of_eq_error⟩

/-- `natElim m b s 2 x`, a recursion that gives a function, with an argument for it. -/
def appliedRecursion : Expr :=
  .app default (.app default (.app default (.app default (.app default (.var default "natElim")
    (.var default "m")) (.var default "b")) (.var default "s")) (.number default 2)) (.var default "x")

/-- The former takes four of the five arguments, and the result is applied to the fifth. -/
theorem appliedRecursion_standsFor : appliedRecursion.WellShaped .builtin ∧
    ∃ t s f x, appliedRecursion.elaborate 0 .builtin = .ok t ∧ t = .app s f x ∧
      (f.former?.map fun p => (p.1, p.2.length)) = some (.natElim, 4) ∧
        appliedRecursion.StandsFor .builtin [] (.synth t) := by
  obtain ⟨hiff, hstands, _⟩ := Expr.elaborate_ok_iff_wellShaped 0 appliedRecursion
  exact ⟨hiff.mp ⟨_, rfl⟩, _, _, _, _, rfl, rfl, rfl, hstands _ rfl⟩

end TypeInType
