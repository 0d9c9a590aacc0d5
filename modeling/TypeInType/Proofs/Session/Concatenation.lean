import TypeInType.Proofs.Expr.Concatenation
import TypeInType.Proofs.Session.Simulation

/-!
# Sources in one piece

A source may be processed piece by piece. Where an expression stands shows in the spans of its term only,
and they are seen in reports alone; so the declarations of a second source are answered after those of
a first one as they are when both are one source.
-/

namespace TypeInType

open Run (Rel)

/-! ## Formers -/

section Places

variable {S : Span → Span → Prop}

/-- The operands are of the kind, and are alike. -/
inductive Operand.Alike (S : Span → Span → Prop) : OperandKind → Operand × Operand → Prop where
  | synth {t t'} : Synth.Alike S Eq (fun _ => True) Eq t t' →
      Operand.Alike S .synth (.synth t, .synth t')
  | check {t t'} : Check.Alike S Eq (fun _ => True) Eq t t' →
      Operand.Alike S .check (.check t, .check t')

/-- The former makes terms that are alike of operands that are alike. -/
def FormerSpec.Uniform (spec : FormerSpec) : Prop :=
  ∀ (S : Span → Span → Prop) (span span' : Span) (operands : List (Operand × Operand)),
    S span span' → List.Forall₂ (Operand.Alike S) spec.kinds operands →
      ∃ t t', spec.build span (operands.map Prod.fst) = some t ∧
        spec.build span' (operands.map Prod.snd) = some t' ∧ t.Alike S Eq (fun _ => True) Eq t'

namespace FormerSpec

theorem constant_uniform (name : String) {build : Span → Synth}
    (h : ∀ (S : Span → Span → Prop) (span span' : Span), S span span' →
      (build span).Alike S Eq (fun _ => True) Eq (build span')) : (constant name build).Uniform :=
  fun S span span' _ hspan _ => ⟨_, _, rfl, rfl, .synth (h S span span' hspan)⟩

theorem succ_uniform : succ.Uniform := by
  rintro S span span' _ hspan (_ | ⟨_ | hn, _ | _⟩)
  exact ⟨_, _, rfl, rfl, .synth (.succ hspan hn)⟩

theorem natElim_uniform : natElim.Uniform := by
  rintro S span span' _ hspan (_ | ⟨_ | hm, _ | ⟨_ | hb, _ | ⟨_ | hs, _ | ⟨_ | hn, _ | _⟩⟩⟩⟩)
  exact ⟨_, _, rfl, rfl, .synth (.natElim hspan hm hb hs hn)⟩

theorem vec_uniform : vec.Uniform := by
  rintro S span span' _ hspan (_ | ⟨_ | ha, _ | ⟨_ | hn, _ | _⟩⟩)
  exact ⟨_, _, rfl, rfl, .synth (.vec hspan ha hn)⟩

theorem nil_uniform : nil.Uniform := by
  rintro S span span' _ hspan (_ | ⟨_ | ha, _ | _⟩)
  exact ⟨_, _, rfl, rfl, .synth (.nil hspan ha)⟩

theorem cons_uniform : cons.Uniform := by
  rintro S span span' _ hspan (_ | ⟨_ | ha, _ | ⟨_ | hn, _ | ⟨_ | hx, _ | ⟨_ | hxs, _ | _⟩⟩⟩⟩)
  exact ⟨_, _, rfl, rfl, .synth (.cons hspan ha hn hx hxs)⟩

theorem vecElim_uniform : vecElim.Uniform := by
  rintro S span span' _ hspan
    (_ | ⟨_ | ha, _ | ⟨_ | hm, _ | ⟨_ | hb, _ | ⟨_ | hs, _ | ⟨_ | hn, _ | ⟨_ | hxs, _ | _⟩⟩⟩⟩⟩⟩)
  exact ⟨_, _, rfl, rfl, .synth (.vecElim hspan ha hm hb hs hn hxs)⟩

theorem uniform_of_mem_builtin {spec : FormerSpec} (h : spec ∈ Vocabulary.builtin.specs) :
    spec.Uniform := by
  simp only [Vocabulary.builtin, Vocabulary.nats, Vocabulary.vecs, List.mem_append, List.mem_cons,
    List.not_mem_nil, or_false] at h
  rcases h with (rfl | rfl | rfl | rfl) | (rfl | rfl | rfl | rfl)
  · exact constant_uniform _ fun _ _ _ h => .nat h
  · exact constant_uniform _ fun _ _ _ h => .zero h
  · exact succ_uniform
  · exact natElim_uniform
  · exact vec_uniform
  · exact nil_uniform
  · exact cons_uniform
  · exact vecElim_uniform

theorem make_rel {spec : FormerSpec} (hspec : spec.Uniform) {span span' : Span}
    (hspan : S span span') {operands : List (Operand × Operand)}
    (h : List.Forall₂ (Operand.Alike S) spec.kinds operands) :
    (spec.make span (operands.map Prod.fst)).Rel (ElabError.Alike S)
      (Check.Alike S Eq (fun _ => True) Eq) (spec.make span' (operands.map Prod.snd)) := by
  obtain ⟨t, t', ht, ht', halike⟩ := hspec S span span' operands hspan h
  simp only [make, ht, ht']
  exact .ok halike

end FormerSpec

/-! ## Heads -/

theorem Check.Alike.inferable_rel {t t' : Check} (h : t.Alike S Eq (fun _ => True) Eq t') :
    t.inferable.Rel (ElabError.Alike S) (Synth.Alike S Eq (fun _ => True) Eq) t'.inferable := by
  cases h with
  | synth h => exact .ok h
  | lam hs _ _ => exact .refused (.lambdaNotInferable hs)
  | ascribe hs _ _ => exact .refused (.formerNotInferable hs)
  | sealed hs _ => exact .refused (.formerNotInferable hs)

theorem Operand.ofKind_rel (kind : OperandKind) {t t' : Check}
    (h : t.Alike S Eq (fun _ => True) Eq t') :
    (Operand.ofKind kind t).Rel (ElabError.Alike S) (fun o o' => Operand.Alike S kind (o, o'))
      (Operand.ofKind kind t') := by
  cases kind with
  | synth => exact h.inferable_rel.bind fun _ _ hu => .ok (.synth hu)
  | check => exact .ok (.check h)

/-- The heads are terms that are alike, or the same former with operands so far that are alike. -/
inductive Head.Alike (S : Span → Span → Prop) : Head → Head → Prop where
  | waiting {spec operands taken kinds} : spec.Uniform → spec.kinds = taken.reverse ++ kinds →
      List.Forall₂ (Operand.Alike S) taken operands →
      Head.Alike S (.waiting spec (operands.map Prod.fst) kinds)
        (.waiting spec (operands.map Prod.snd) kinds)
  | term {t t'} : Check.Alike S Eq (fun _ => True) Eq t t' → Head.Alike S (.term t) (.term t')

theorem Head.ofFormer_rel {spec : FormerSpec} (hspec : spec.Uniform) {span span' : Span}
    (hspan : S span span') {operands : List (Operand × Operand)} {taken kinds : List OperandKind}
    (hkinds : spec.kinds = taken.reverse ++ kinds)
    (h : List.Forall₂ (Operand.Alike S) taken operands) :
    (Head.ofFormer spec span (operands.map Prod.fst) kinds).Rel (ElabError.Alike S) (Head.Alike S)
      (Head.ofFormer spec span' (operands.map Prod.snd) kinds) := by
  cases kinds with
  | nil =>
    rw [List.append_nil] at hkinds
    have hall : List.Forall₂ (Operand.Alike S) spec.kinds operands.reverse := by
      rw [hkinds]
      exact List.forall₂_reverse_iff.mpr h
    have hmake := FormerSpec.make_rel hspec hspan hall
    rw [List.map_reverse, List.map_reverse] at hmake
    exact hmake.bind fun t t' ht => .ok (.term ht)
  | cons kind kinds => exact .ok (.waiting hspec hkinds h)

theorem Head.Alike.apply_rel {span span' : Span} (hspan : S span span')
    {arg arg' : Unit → Run ElabError Check} {h h' : Head} (hh : h.Alike S h')
    (harg : (arg ()).Rel (ElabError.Alike S) (Check.Alike S Eq (fun _ => True) Eq) (arg' ())) :
    (h.apply span arg).Rel (ElabError.Alike S) (Head.Alike S) (h'.apply span' arg') := by
  cases hh with
  | @waiting spec operands taken kinds hspec hkinds hall =>
    cases kinds with
    | nil => exact .fault _
    | cons kind kinds =>
      simp only [Head.apply]
      apply harg.bind
      intro t t' ht
      apply (Operand.ofKind_rel kind ht).bind
      intro o o' ho
      have hkinds' : spec.kinds = (kind :: taken).reverse ++ kinds := by
        rw [hkinds, List.reverse_cons, List.append_assoc]
        rfl
      exact Head.ofFormer_rel hspec hspan hkinds' (.cons ho hall)
  | term ht =>
    simp only [Head.apply]
    apply ht.inferable_rel.bind
    intro u u' hu
    exact harg.bind fun a a' ha => .ok (.term (.synth (.app hspan hu ha)))

theorem Head.Alike.finish_rel {h h' : Head} (hh : h.Alike S h') :
    h.finish.Rel (ElabError.Alike S) (Check.Alike S Eq (fun _ => True) Eq) h'.finish := by
  cases hh with
  | waiting _ _ _ => exact .fault _
  | term ht => exact .ok ht

end Places

/-! ## Expressions -/

namespace Elaborate

variable {S : Span → Span → Prop} {file file' n : Nat}
  (hS : ∀ r : Range, S (span file (r.shift n)) (span file' r))

theorem successors_rel {zero succ : FormerSpec} (hzero : zero.Uniform) (hsucc : succ.Uniform)
    {kind : OperandKind} (hz : zero.kinds = []) (hs : succ.kinds = [kind]) {s s' : Span}
    (hspan : S s s') : ∀ m, (successors zero succ kind s m).Rel (ElabError.Alike S)
      (Check.Alike S Eq (fun _ => True) Eq) (successors zero succ kind s' m)
  | 0 => by
    have hnil : List.Forall₂ (Operand.Alike S) zero.kinds [] := by
      rw [hz]
      exact .nil
    exact FormerSpec.make_rel hzero hspan hnil
  | m + 1 => by
    simp only [successors]
    apply (successors_rel hzero hsucc hz hs hspan m).bind
    intro t t' ht
    apply (Operand.ofKind_rel kind ht).bind
    intro o o' ho
    exact FormerSpec.make_rel hsucc hspan (by rw [hs]; exact .cons ho .nil)

theorem uniform_of_find? {x : String} {spec : FormerSpec}
    (h : Vocabulary.builtin.find? x = some spec) : spec.Uniform :=
  FormerSpec.uniform_of_mem_builtin (List.mem_of_find?_eq_some h)

include hS

theorem number_rel (r : Range) (m : Nat) : (number file .builtin (r.shift n) m).Rel
    (ElabError.Alike S) (Check.Alike S Eq (fun _ => True) Eq) (number file' .builtin r m) := by
  simp only [number]
  split
  · rename_i zero succ hzero hsucc
    split
    · rename_i kind hz hs
      exact successors_rel (uniform_of_find? hzero) (uniform_of_find? hsucc) hz hs (hS r) m
    · exact .refused (.numberNotSupported (hS r))
  · exact .refused (.numberNotSupported (hS r))

theorem name_rel (scope : List (Option String)) (whole : Range) (args : Nat) (r : Range) (x : String) :
    (name file .builtin scope (whole.shift n) args (r.shift n) x).Rel (ElabError.Alike S)
      (Head.Alike S) (name file' .builtin scope whole args r x) := by
  simp only [name]
  split
  · exact .ok (.term (.synth (.bound (hS r) rfl)))
  · split
    · rename_i spec hspec
      split
      · exact .refused (.formerArity (hS whole))
      · have hkinds : spec.kinds = [].reverse ++ spec.kinds := rfl
        exact Head.ofFormer_rel (uniform_of_find? hspec) (hS r) hkinds .nil
    · exact .ok (.term (.synth (.global (hS r) trivial)))

theorem head_rel : ∀ (e : Expr) (scope : List (Option String)) (whole : Range) (args : Nat),
    (head file .builtin scope (whole.shift n) args (e.shift n)).Rel (ElabError.Alike S)
      (Head.Alike S) (head file' .builtin scope whole args e)
  | .ann r e t, scope, whole, args => by
    simp only [Expr.shift, head, Expr.range_shift]
    apply (head_rel e scope e.range 0).bind
    intro he he' hhe
    apply hhe.finish_rel.bind
    intro u u' hu
    apply (head_rel t scope t.range 0).bind
    intro ht ht' hht
    exact hht.finish_rel.bind fun v v' hv => .ok (.term (.synth (.ann (hS r) hu hv)))
  | .star r, scope, whole, args => .ok (.term (.synth (.star (hS r))))
  | .pi r x d c, scope, whole, args => by
    have hx : (x.map (Ident.shift n)).map Ident.name = x.map Ident.name := by
      cases x <;> rfl
    simp only [Expr.shift, head, Expr.range_shift, hx]
    apply (head_rel d scope d.range 0).bind
    intro hd hd' hhd
    apply hhd.finish_rel.bind
    intro u u' hu
    apply (head_rel c (x.map Ident.name :: scope) c.range 0).bind
    intro hc hc' hhc
    exact hhc.finish_rel.bind fun v v' hv =>
      .ok (.term (.synth (.pi (hS r) rfl hu (Check.alike_under.mpr hv))))
  | .var r x, scope, whole, args => name_rel hS scope whole args r x
  | .app r h a, scope, whole, args => by
    simp only [Expr.shift, head, Expr.range_shift]
    apply (head_rel h scope whole (args + 1)).bind
    intro h₁ h₁' hh
    apply hh.apply_rel (hS r)
    exact (head_rel a scope a.range 0).bind fun ha ha' hha => hha.finish_rel
  | .lam r x b, scope, whole, args => by
    simp only [Expr.shift, head, Expr.range_shift]
    apply (head_rel b (some x.name :: scope) b.range 0).bind
    intro hb hb' hhb
    exact hhb.finish_rel.bind fun u u' hu =>
      .ok (.term (.lam (hS r) rfl (Check.alike_under.mpr hu)))
  | .number r m, scope, whole, args => by
    simp only [Expr.shift, head]
    exact (number_rel hS r m).bind fun t t' ht => .ok (.term ht)

end Elaborate

section Places

variable {S : Span → Span → Prop} {file file' n : Nat}
  (hS : ∀ r : Range, S (Elaborate.span file (r.shift n)) (Elaborate.span file' r))

include hS

/-- The terms of an expression at two places differ in their spans only. -/
theorem Expr.alike_shift (e : Expr) : (e.shift n).Alike S (fun _ => True) file file' e := by
  unfold Expr.Alike Expr.elaborate Elaborate.check
  rw [Expr.range_shift]
  have hcheck := (Elaborate.head_rel hS e [] e.range 0).bind fun _ _ hh => hh.finish_rel
  exact hcheck.bind fun _ _ ht => ht.inferable_rel

theorem Decl.alike_shift (d : Decl) : (d.shift n).Alike S (fun _ => True) file file' d := by
  cases d with
  | postulate r xs e =>
    refine .postulate ?_ (e.alike_shift hS)
    rw [List.map_map]
    rfl
  | define r x e => exact .define rfl (e.alike_shift hS)
  | check r e => exact .check (e.alike_shift hS)
  | expr e => exact .expr (e.alike_shift hS)

end Places

/-! ## Sessions -/

theorem Reply.after_after (r : Reply) (out err out' err' : String) :
    (r.after out' err').after out err = r.after (out ++ out') (err ++ err') := by
  simp only [Reply.after, String.append_assoc]

namespace Session

/-- Process more declarations after a reply, if nothing has been reported or the session goes on. -/
def proceed (keepGoing : Bool) (file : Nat) (ds : List Decl) (r : Reply) : Run Empty Reply :=
  if keepGoing = true ∨ r.err = "" then do
    let r' ← declareAll keepGoing file r.session ds
    return r'.after r.out r.err
  else return r

theorem proceed_start (keepGoing : Bool) (file : Nat) (ds : List Decl) (s : Session) :
    proceed keepGoing file ds ⟨s, "", ""⟩ = declareAll keepGoing file s ds := by
  unfold proceed
  rw [if_pos (.inr rfl)]
  cases declareAll keepGoing file s ds with
  | error x => rfl
  | ok r =>
    show Except.ok (r.after "" "") = .ok r
    simp only [Reply.after, String.empty_append]

theorem proceed_after {keepGoing : Bool} {err : String} (h : keepGoing = true ∨ err = "")
    (file : Nat) (ds : List Decl) (out : String) (r : Reply) :
    proceed keepGoing file ds (r.after out err) =
      (do return (← proceed keepGoing file ds r).after out err) := by
  have hiff : (keepGoing = true ∨ (r.after out err).err = "") ↔ (keepGoing = true ∨ r.err = "") := by
    simp only [Reply.after, String.append_eq_empty_iff]
    tauto
  unfold proceed
  by_cases hr : keepGoing = true ∨ r.err = ""
  · rw [if_pos hr, if_pos (hiff.mpr hr)]
    show declareAll keepGoing file r.session ds >>= _ =
      (declareAll keepGoing file r.session ds >>= _) >>= _
    cases declareAll keepGoing file r.session ds with
    | error x => rfl
    | ok r' => exact congrArg Except.ok (Reply.after_after r' out err r.out r.err).symm
  · rw [if_neg hr, if_neg (hiff.not.mpr hr)]
    rfl

/-- Declarations are processed in two parts. -/
theorem declareAll_append (keepGoing : Bool) (file : Nat) (ds ds' : List Decl) : ∀ s : Session,
    declareAll keepGoing file s (ds ++ ds') =
      declareAll keepGoing file s ds >>= proceed keepGoing file ds' := by
  induction ds with
  | nil =>
    intro s
    simp only [List.nil_append, declareAll]
    exact (proceed_start keepGoing file ds' s).symm
  | cons d ds ih =>
    intro s
    -- an answer may be written before or after the second part is processed
    have hafter : ∀ (s : Session) {out err : String}, keepGoing = true ∨ err = "" →
        (do return (← declareAll keepGoing file s (ds ++ ds')).after out err) =
          (do return (← declareAll keepGoing file s ds).after out err) >>=
            proceed keepGoing file ds' := by
      intro s out err herr
      rw [ih]
      cases declareAll keepGoing file s ds with
      | error x => rfl
      | ok r => exact (proceed_after herr file ds' out r).symm
    simp only [List.cons_append, declareAll]
    cases s.declare file d with
    | ok r => exact hafter _ (.inr rfl)
    | error x =>
      cases x with
      | refused c =>
        cases keepGoing with
        | true => exact hafter _ (.inl rfl)
        | false =>
          have hstop : ¬ (false = true ∨ (s.complain c).err = "") := by
            simpa using s.complain_err_ne c
          show Except.ok (s.complain c) = proceed false file ds' (s.complain c)
          unfold proceed
          rw [if_neg hstop]
          rfl
      | fault f => rfl
      | outOfFuel => rfl

theorem declareAll_keepGoing {keepGoing : Bool} {file : Nat} : ∀ {ds : List Decl} {s : Session}
    {r : Reply}, declareAll keepGoing file s ds = .ok r → r.session.keepGoing = s.keepGoing
  | [], s, r, h => by
    cases h
    rfl
  | d :: ds, s, r, h => by
    simp only [declareAll] at h
    split at h
    · obtain ⟨q, hq, h⟩ := Run.bind_eq_ok.mp h
      cases h
      exact (declareAll_keepGoing hq :)
    · split at h
      · obtain ⟨q, hq, h⟩ := Run.bind_eq_ok.mp h
        cases h
        exact (declareAll_keepGoing hq :)
      · cases h
        rfl
    · cases h
    · cases h

theorem checkSource_eq {source : String} {ds : List Decl} (h : readProgram source = .ok ds)
    (s : Session) (name : String) : s.checkSource name source =
      declareAll s.keepGoing (s.load name source).2 (s.load name source).1 ds := by
  simp only [checkSource, h]
  rfl

theorem Sim.load_left {s s' : Session} (h : s.Sim (fun _ => True) s') (name text : String) :
    (s.load name text).1.Sim (fun _ => True) s' :=
  ⟨h.signature, h.fuel, h.width⟩

theorem Sim.load_right {s s' : Session} (h : s.Sim (fun _ => True) s') (name text : String) :
    s.Sim (fun _ => True) (s'.load name text).1 :=
  ⟨h.signature, h.fuel, h.width⟩

theorem Sim.refl (s : Session) : s.Sim (fun _ => True) s :=
  ⟨.of_find? (fun _ => rfl) fun _ _ => rfl, rfl, rfl⟩

/-- The declarations that follow are answered as they are by themselves. -/
theorem proceed_shift {keepGoing : Bool} {r r' : Reply} (h : r.Sim r')
    (hnames : r.session.signature.names = r'.session.signature.names)
    (hgo : keepGoing = true ∨ r'.err = "") (file n : Nat) (ds : List Decl) (name text : String) :
    (proceed keepGoing file (ds.map (Decl.shift n)) r).Rel Eq
      (fun q q' => q.Sim q' ∧ q.session.signature.names = q'.session.signature.names)
      (do
        let q ← declareAll keepGoing (r'.session.load name text).2 (r'.session.load name text).1 ds
        return q.after r'.out r'.err) := by
  unfold proceed
  rw [if_pos (hgo.imp_right h.err.mpr)]
  have hds : List.Forall₂ (Decl.Alike Any (fun _ => True) file (r'.session.load name text).2)
      (ds.map (Decl.shift n)) ds :=
    List.forall₂_map_left_iff.mpr (List.forall₂_same.mpr fun d _ => d.alike_shift fun _ => trivial)
  apply ((h.session.load_right name text).declareAll (fun _ => trivial) keepGoing hds).bind
  rintro q q' ⟨hq, hqnames⟩
  exact .ok ⟨hq.after h.out h.err, hqnames hnames⟩

/-- A second source is answered after a first one as it is on the lines below it, if the positions in
both together can be counted. Otherwise the two are not read together. -/
theorem checkSource_lines {source source' : String} {ds ds' : List Decl}
    (h : readProgram source = .ok ds) (h' : readProgram source' = .ok ds') :
    (Countable (source ++ "\n" ++ source') →
      readProgram (source ++ "\n" ++ source') =
        .ok (ds ++ ds'.map (Decl.shift (byteLength source.toList + 1))) ∧
      ∀ (s : Session) (name first second : String),
        (s.keepGoing = true ∨ ∀ r, s.checkSource first source = .ok r → r.err = "") →
        (s.checkSource name (source ++ "\n" ++ source')).Rel Eq
          (fun r r' => r.out = r'.out ∧ r.session.signature.names = r'.session.signature.names ∧
            r.session.signature.SameForms r'.session.signature)
          (do
            let r ← s.checkSource first source
            let r' ← r.session.checkSource second source'
            return r'.after r.out r.err)) ∧
    (¬Countable (source ++ "\n" ++ source') →
      readProgram (source ++ "\n" ++ source') = .abort .sourceTooLong ∧
      ∀ (s : Session) (name : String),
        s.checkSource name (source ++ "\n" ++ source') = .abort .sourceTooLong) := by
  refine ⟨fun hlines => ?_, fun hlines =>
    ⟨readSource_of_not_countable hlines, checkSource_of_not_countable hlines⟩⟩
  have hread := readProgram_lines h h' hlines
  refine ⟨hread, fun s name first second hgo => ?_⟩
  rw [checkSource_eq hread, declareAll_append]
  rw [checkSource_eq h] at hgo ⊢
  -- The two sources have the same number, so the declarations of the first are answered alike.
  have hload := ((Sim.refl s).load_left name (source ++ "\n" ++ source')).load_right first source
  apply ((hload.declareAll (fun _ => rfl) s.keepGoing
    (Decl.forall₂_alike (s.load first source).2 ds)).right_eq).bind
  rintro r r' ⟨hr', hr, hnames⟩
  have hkeep : r'.session.keepGoing = s.keepGoing := (declareAll_keepGoing hr' :)
  rw [checkSource_eq h', hkeep]
  refine (proceed_shift hr (hnames rfl) (hgo.imp_right fun herr => herr r' hr') _ _ ds' second
    source').mono (fun _ _ h => h) ?_
  rintro q q' ⟨hq, hqnames⟩
  exact ⟨hq.out, hqnames, hq.session.signature.sameForms⟩

/-- The first source ends with a comment. -/
theorem checkSource_axiom_check : ∃ ds ds', readProgram "axiom A : * // A" = .ok ds ∧
    readProgram "check A" = .ok ds' ∧ Countable ("axiom A : * // A" ++ "\n" ++ "check A") ∧
    readProgram ("axiom A : * // A" ++ "\n" ++ "check A") = .ok (ds ++ ds'.map (Decl.shift 17)) ∧
    (initial.checkSource "AA" ("axiom A : * // A" ++ "\n" ++ "check A")).Rel Eq
      (fun r r' => r.out = r'.out ∧ r.session.signature.names = r'.session.signature.names ∧
        r.session.signature.SameForms r'.session.signature)
      (do
        let r ← initial.checkSource "A" "axiom A : * // A"
        let r' ← r.session.checkSource "A'" "check A"
        return r'.after r.out r.err) := by
  let star : Grammar.ExprTree := .mk (.app (.mk (.star (.at .star "*" 10)) .nil)) .nil
  let a : Grammar.ExprTree := .mk (.app (.mk (.name (.at .name "A" 6)) .nil)) .nil
  have h : readProgram "axiom A : * // A" =
      .ok [.postulate ⟨0, 11⟩ [⟨⟨6, 7⟩, "A"⟩] (.star ⟨10, 11⟩)] :=
    readProgram_eq_ok.mpr ⟨[.postulate (.at .axiomWord "axiom" 0) ⟨.at .name "A" 6, []⟩
      (.at .colon ":" 8) star], lexSource_eq_ok_iff.mpr (by decide +kernel), by decide +kernel⟩
  have h' : readProgram "check A" = .ok [.check ⟨0, 7⟩ (.var ⟨6, 7⟩ "A")] :=
    readProgram_eq_ok.mpr ⟨[.check (.at .checkWord "check" 0) a],
      lexSource_eq_ok_iff.mpr (by decide +kernel), by decide +kernel⟩
  have hlines : Countable ("axiom A : * // A" ++ "\n" ++ "check A") := by decide +kernel
  obtain ⟨hread, hrel⟩ := (checkSource_lines h h').1 hlines
  refine ⟨_, _, h, h', hlines, hread, hrel initial _ _ _ (.inr fun r hr => ?_)⟩
  rw [checkSource_eq h] at hr
  cases hr
  rfl

/-- Of a source of spaces nothing is read, as long as they can be counted. -/
theorem readProgram_spaces {n : Nat} (hn : n ≤ maxPosition) :
    readProgram (String.ofList (List.replicate n ' ')) = .ok [] := by
  have hmarks : marks (String.ofList (List.replicate n ' ')).toList = [] := by
    have h := marks_spaces n []
    rw [List.append_nil] at h
    rw [String.toList_ofList, h, marks, pieces]
    rfl
  obtain ⟨ts, hts, hwords⟩ := @lexSource_eq_ok _ [] (countable_spaces.mpr hn) hmarks
  rw [List.map_eq_nil_iff.mp hwords] at hts
  exact readProgram_eq_ok.mpr ⟨[], hts, rfl⟩

/-- Half of the spaces that can be counted are read as a source without declarations, but twice as many
with a line feed between them are too long. -/
theorem spaces_not_read_together :
    let source := String.ofList (List.replicate 2147483648 ' ')
    readProgram source = .ok [] ∧ (∃ r, initial.checkSource "spaces" source = .ok r ∧ r.err = "") ∧
      readProgram (source ++ "\n" ++ source) = .abort .sourceTooLong ∧
      initial.checkSource "spaces" (source ++ "\n" ++ source) = .abort .sourceTooLong := by
  have hsource := readProgram_spaces (n := 2147483648) (by decide)
  have hlines : ∀ n : Nat, maxPosition ≤ n + n →
      ¬Countable (String.ofList (List.replicate n ' ') ++ "\n" ++ String.ofList (List.replicate n ' ')) := by
    intro n hn
    have hspace : ' '.utf8Size = 1 := by decide
    have hfeed : byteLength ("\n" : String).toList = 1 := by decide
    simp only [Countable, String.toList_append, String.toList_ofList, byteLength_append,
      byteLength_replicate, hspace, hfeed]
    omega
  have hlong := hlines 2147483648 (by decide)
  exact ⟨hsource, ⟨_, checkSource_eq hsource initial "spaces", rfl⟩, readSource_of_not_countable hlong,
    checkSource_of_not_countable hlong initial "spaces"⟩

end Session

end TypeInType
