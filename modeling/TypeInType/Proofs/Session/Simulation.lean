import TypeInType.Proofs.Session.Declarations
import TypeInType.Proofs.Term.Globals
import TypeInType.Proofs.Typing.Simulation

/-!
# Similar sessions

Sessions whose signatures are similar answer the same declarations with the same texts, and their
signatures stay similar. It is enough that the names are similar that a declaration uses.
-/

namespace TypeInType

open Run (Rel)

/-! ## Signatures -/

/-- The signatures have the same names in the same order, with similar entries. -/
def Signature.Matches (sig sig' : Signature) : Prop :=
  List.Forall₂ (fun e e' => e.name = e'.name ∧ e.Sim Eq e') sig.entries sig'.entries

namespace Signature

variable {sig sig' : Signature}

theorem Matches.refl (sig : Signature) : sig.Matches sig :=
  List.forall₂_same.mpr fun e _ => ⟨rfl, .refl (fun _ => rfl) e⟩

theorem Matches.names_eq (h : sig.Matches sig') : sig.names = sig'.names := by
  simp only [names]
  exact List.forall₂_eq_eq_eq ▸ List.forall₂_map_left_iff.mpr
    (List.forall₂_map_right_iff.mpr (h.imp fun _ _ he => he.1))

theorem Matches.sim (h : sig.Matches sig') : sig.Sim Eq (fun _ => True) sig' := by
  intro x _
  obtain ⟨entries⟩ := sig
  obtain ⟨entries'⟩ := sig'
  change List.Forall₂ _ entries entries' at h
  simp only [find?]
  induction h with
  | nil => exact .none
  | @cons e e' _ _ he _ ih =>
    simp only [List.find?_cons, he.1]
    split
    · exact .some he.2
    · exact ih

theorem Matches.isPostulate_eq (h : sig.Matches sig') (x : String) :
    sig.isPostulate x = sig'.isPostulate x := by
  have hentry := h.sim x trivial
  simp only [isPostulate, value?]
  generalize sig.find? x = e, sig'.find? x = e' at hentry ⊢
  cases hentry with
  | none => rfl
  | @some e e' he =>
    obtain ⟨hvalue, _⟩ := he
    simp only [Option.map_some]
    generalize e.value = v, e'.value = v' at hvalue ⊢
    cases hvalue with
    | neutral hn => cases hn <;> rfl
    | _ => rfl

theorem Matches.define (h : sig.Matches sig') (x : String) {v v' T T' : Value} (hv : v.Sim Eq v')
    (hT : T.Sim Eq T') : (sig.define x v T).Matches (sig'.define x v' T') := by
  have hany : sig.entries.any (·.name == x) = sig'.entries.any (·.name == x) := by
    have hnames := congrArg (List.any · (· == x)) h.names_eq
    simpa only [names, List.any_map, Function.comp_def] using hnames
  simp only [Signature.define, hany]
  split
  · refine List.forall₂_map_left_iff.mpr (List.forall₂_map_right_iff.mpr (h.imp ?_))
    rintro e e' ⟨hname, he⟩
    simp only [hname]
    split
    · exact ⟨rfl, hv, hT⟩
    · exact ⟨hname, he⟩
  · exact List.rel_append h (.cons ⟨rfl, hv, hT⟩ .nil)

theorem Matches.postulateAll {T T' : Value} (hT : T.Sim Eq T') : ∀ (names : List String)
    {sig sig' : Signature}, sig.Matches sig' →
    (names.foldl (fun sig x => sig.postulate x T) sig).Matches
      (names.foldl (fun sig x => sig.postulate x T') sig')
  | [], _, _, h => h
  | x :: names, _, _, h => Matches.postulateAll hT names (h.define x (.neutral .free) hT)

end Signature

/-! ## Errors -/

/-- The same error, at spans that correspond. -/
inductive ElabError.Alike (S : Span → Span → Prop) : ElabError → ElabError → Prop where
  | lambdaNotInferable {s s'} : S s s' →
      ElabError.Alike S (.lambdaNotInferable s) (.lambdaNotInferable s')
  | formerNotInferable {s s' x} : S s s' →
      ElabError.Alike S (.formerNotInferable s x) (.formerNotInferable s' x)
  | formerArity {s s' x n m} : S s s' →
      ElabError.Alike S (.formerArity s x n m) (.formerArity s' x n m)
  | numberNotSupported {s s'} : S s s' →
      ElabError.Alike S (.numberNotSupported s) (.numberNotSupported s')

/-- Spans may differ as far as `S` says, and suggestions as far as `Q` says. -/
def Leeway.places (S : Span → Span → Prop) (Q : Option String → Option String → Prop)
    (hS : S none none) : Leeway :=
  ⟨S, Eq, Q, hS, fun _ => rfl⟩

theorem Signature.Sim.context {G : String → Prop} {sig sig' : Signature} (h : sig.Sim Eq G sig') :
    (Context.ofSignature sig).Sim (.places Eq Any rfl) G (.ofSignature sig') :=
  ⟨h, fun _ => trivial, .nil⟩

theorem Check.alike_globals (t : Check) : t.Alike Eq Eq (· ∈ t.globals) Eq t :=
  .refl (fun _ => rfl) (fun _ => rfl) (fun _ => rfl) t fun _ hx => hx

inductive Complaint.Alike (L : Leeway) : Complaint → Complaint → Prop where
  | elaboration {e e'} : e.Alike L.span e' → Complaint.Alike L (.elaboration e) (.elaboration e')
  | typing {e e'} : e.Alike L e' → Complaint.Alike L (.typing e) (.typing e')

/-! ## Declarations -/

/-- The expressions elaborate to terms that are alike, or are both refused. -/
def Expr.Alike (S : Span → Span → Prop) (G : String → Prop) (file file' : Nat) (e e' : Expr) : Prop :=
  (e.elaborate file .builtin).Rel (ElabError.Alike S) (Synth.Alike S Eq G Eq)
    (e'.elaborate file' .builtin)

/-- The declarations declare the same names, by expressions that are alike. -/
inductive Decl.Alike (S : Span → Span → Prop) (G : String → Prop) (file file' : Nat) :
    Decl → Decl → Prop where
  | postulate {r r' xs xs' e e'} : xs.map Ident.name = xs'.map Ident.name →
      e.Alike S G file file' e' → Decl.Alike S G file file' (.postulate r xs e) (.postulate r' xs' e')
  | define {r r' x x' e e'} : x.name = x'.name → e.Alike S G file file' e' →
      Decl.Alike S G file file' (.define r x e) (.define r' x' e')
  | check {r r' e e'} : e.Alike S G file file' e' →
      Decl.Alike S G file file' (.check r e) (.check r' e')
  | expr {e e'} : e.Alike S G file file' e' → Decl.Alike S G file file' (.expr e) (.expr e')

/-- The names of the signature that a declaration uses. -/
def Decl.globals : Decl → List String
  | .postulate _ _ e | .define _ _ e | .check _ e | .expr e => e.globals .builtin []

theorem ElabError.Alike.refl (e : ElabError) : e.Alike Eq e := by
  cases e with
  | lambdaNotInferable s => exact .lambdaNotInferable rfl
  | formerNotInferable s x => exact .formerNotInferable rfl
  | formerArity s x n m => exact .formerArity rfl
  | numberNotSupported s => exact .numberNotSupported rfl

theorem Expr.Alike.refl {G : String → Prop} (file : Nat) {e : Expr}
    (h : ∀ x ∈ e.globals .builtin [], G x) : e.Alike Eq G file file e := by
  have hends := e.elaborate_scoped file Vocabulary.builtin_ok
    (P := fun x => True ∧ x.GlobalIn G) fun x hx => ⟨trivial, h x hx⟩
  unfold Expr.Alike
  generalize e.elaborate file .builtin = r at hends ⊢
  cases r with
  | ok t =>
    have hglobals := ((t.scoped_and_globalIn 0).mp hends).2
    exact .ok (.refl (fun _ => rfl) (fun _ => rfl) (fun _ => rfl) t hglobals)
  | error x =>
    cases x with
    | refused e => exact .refused (.refl e)
    | fault f => exact .fault f
    | outOfFuel => exact .outOfFuel

theorem Decl.Alike.refl {G : String → Prop} (file : Nat) {d : Decl} (h : ∀ x ∈ d.globals, G x) :
    d.Alike Eq G file file d := by
  cases d with
  | postulate r xs e => exact .postulate rfl (.refl file h)
  | define r x e => exact .define rfl (.refl file h)
  | check r e => exact .check (.refl file h)
  | expr e => exact .expr (.refl file h)

theorem Decl.forall₂_alike (file : Nat) (ds : List Decl) :
    List.Forall₂ (Decl.Alike Eq (fun _ => True) file file) ds ds :=
  List.forall₂_same.mpr fun _ _ => .refl file fun _ _ => trivial

theorem Decl.Alike.names_eq {S : Span → Span → Prop} {G : String → Prop} {file file' : Nat}
    {d d' : Decl} (h : d.Alike S G file file' d') : d.names = d'.names := by
  cases h with
  | postulate hxs _ => exact hxs
  | define hx _ => exact congrArg (fun x => [x]) hx
  | check _ => rfl
  | expr _ => rfl

namespace Session

/-- Names of the signature that satisfy `G` are similar, and answers are set in the same way. -/
structure Sim (G : String → Prop) (s s' : Session) : Prop where
  signature : s.signature.Sim Eq G s'.signature
  fuel : s.fuel = s'.fuel
  width : s.width = s'.width

section Simulation

variable {G : String → Prop} {s s' : Session} (h : s.Sim G s') {S : Span → Span → Prop}
  {Q : Option String → Option String → Prop} {file file' : Nat} (hS : S none none)
  (hQ : ∀ x, Q (s.context.suggestion? x) (s'.context.suggestion? x))

include h

theorem Sim.context (hQ : ∀ x, Q (s.context.suggestion? x) (s'.context.suggestion? x)) :
    s.context.Sim (.places S Q hS) G s'.context where
  signature := h.signature
  suggestion := hQ
  hyps := .nil

theorem Sim.normalForm {L : Leeway} {v v' : Value} (hv : v.Sim Eq v') :
    (s.normalForm v).Rel (Complaint.Alike L) Eq (s'.normalForm v') := by
  unfold Session.normalForm Context.quote
  rw [h.fuel]
  exact ((Value.quote_sim s'.fuel 0 hv).mono (fun _ _ h => h) fun _ _ h => h.eq).widen

theorem Sim.layout_eq (doc : Doc) : s.layout doc = s'.layout doc := by
  unfold layout
  rw [h.width]

include hQ

theorem Sim.infer {e e' : Expr} (he : e.Alike S G file file' e') :
    (s.infer file e).Rel (Complaint.Alike (.places S Q hS))
      (fun r r' => r.1.Sim Eq r'.1 ∧ r.2.Sim Eq r'.2) (s'.infer file' e') := by
  unfold Session.infer
  apply (he.mapRefused fun _ _ he => Complaint.Alike.elaboration he).bind
  intro t t' ht
  rw [h.fuel]
  apply ((Synth.infer_sim s'.fuel ht (h.context hS hQ)).mapRefused
    fun _ _ he => Complaint.Alike.typing he).bind
  intro T T' hT
  apply (Synth.eval_sim s'.fuel ht.anySpan ((h.context hS hQ).env .nil)).widen.bind
  intro v v' hv
  exact .ok ⟨hv, hT⟩

theorem Sim.evaluate {e e' : Expr} (he : e.Alike S G file file' e') :
    (s.evaluate file e).Rel (Complaint.Alike (.places S Q hS)) Eq (s'.evaluate file' e') := by
  unfold Session.evaluate
  apply (h.infer hS hQ he).bind
  rintro ⟨v, T⟩ ⟨v', T'⟩ ⟨hv, hT⟩
  apply (h.normalForm hv).bind
  rintro r _ rfl
  apply (h.normalForm hT).bind
  rintro A _ rfl
  exact .ok (h.layout_eq _)

/-- The answers are the same, and the names that are declared are similar. Signatures that match do so
afterwards. -/
theorem Sim.declare {d d' : Decl} (hd : d.Alike S G file file' d') :
    (s.declare file d).Rel (Complaint.Alike (.places S Q hS))
      (fun r r' => r.1.Sim Eq (· ∈ d.names) r'.1 ∧ r.2 = r'.2 ∧
        (s.signature.Matches s'.signature → r.1.Matches r'.1)) (s'.declare file' d') := by
  cases hd with
  | postulate hxs he =>
    simp only [Session.declare, hxs]
    apply (he.mapRefused fun _ _ he => Complaint.Alike.elaboration he).bind
    intro t t' ht
    rw [h.fuel]
    apply ((Check.checkType_sim s'.fuel (.synth ht) (h.context hS hQ)).mapRefused
      fun _ _ he => Complaint.Alike.typing he).bind
    intro T T' hT
    apply (h.normalForm hT).bind
    rintro A _ rfl
    refine .ok ⟨?_, h.layout_eq _, ?_⟩
    · intro y (hy : y ∈ List.map Ident.name _)
      have hfind := @Signature.find?_postulateAll_of_mem T y _ s.signature hy
      have hfind' := @Signature.find?_postulateAll_of_mem T' y _ s'.signature (hxs ▸ hy)
      rw [List.foldl_map] at hfind hfind'
      simp only [hfind, hfind']
      exact .some ⟨.neutral .free, hT⟩
    · intro hmatches
      rw [Signature.foldl_postulate, Signature.foldl_postulate, ← hxs]
      exact hmatches.postulateAll hT _
  | define hx he =>
    simp only [Session.declare, hx]
    apply (h.infer hS hQ he).bind
    rintro ⟨v, T⟩ ⟨v', T'⟩ ⟨hv, hT⟩
    apply (h.normalForm hv).bind
    rintro r _ rfl
    apply (h.normalForm hT).bind
    rintro A _ rfl
    refine .ok ⟨?_, h.layout_eq _, fun hmatches => hmatches.define _ hv hT⟩
    intro y hy
    rw [Decl.names, hx, List.mem_singleton] at hy
    simp only [Signature.find?_define, if_pos hy.symm]
    exact .some ⟨hv, hT⟩
  | check he =>
    simp only [Session.declare]
    apply (h.evaluate hS hQ he).bind
    rintro out _ rfl
    exact .ok ⟨fun _ hx => absurd hx List.not_mem_nil, rfl, id⟩
  | expr he =>
    simp only [Session.declare]
    apply (h.evaluate hS hQ he).bind
    rintro out _ rfl
    exact .ok ⟨fun _ hx => absurd hx List.not_mem_nil, rfl, id⟩

end Simulation

/-- A declaration that succeeds in a session succeeds in a similar one, with the same answer. -/
theorem Sim.declare_eq_ok {G : String → Prop} {s s' : Session} (h : s.Sim G s') {file : Nat}
    {d : Decl} (hd : ∀ x ∈ d.globals, G x) {sig : Signature} {out : String}
    (hr : s.declare file d = .ok (sig, out)) :
    ∃ sig', s'.declare file d = .ok (sig', out) ∧ sig.Sim Eq (· ∈ d.names) sig' := by
  have hrel := h.declare (Q := Any) rfl (fun _ => trivial) (.refl file hd)
  rw [hr] at hrel
  generalize s'.declare file d = r' at hrel ⊢
  cases hrel with
  | ok hab =>
    obtain ⟨hsim, rfl, _⟩ := hab
    exact ⟨_, rfl, hsim⟩

/-- After similar declarations all names are similar, if all were before. -/
theorem Sim.declared {s s' : Session} (h : s.Sim (fun _ => True) s') {file file' : Nat}
    {d d' : Decl} (hnames : d.names = d'.names) {r r' : Signature × String}
    (hr : s.declare file d = .ok r) (hr' : s'.declare file' d' = .ok r')
    (hd : r.1.Sim Eq (· ∈ d.names) r'.1) :
    Sim (fun _ => True) { s with signature := r.1 } { s' with signature := r'.1 } where
  signature x _ := by
    by_cases hx : x ∈ d.names
    · exact hd x hx
    · show Option.Rel _ (r.1.find? x) (r'.1.find? x)
      rw [(declare_commits hr).frame hx, (declare_commits hr').frame (hnames ▸ hx)]
      exact h.signature x trivial
  fuel := h.fuel
  width := h.width

/-- A report is not empty. -/
theorem complain_err_ne (s : Session) (c : Complaint) : (s.complain c).err ≠ "" := by
  intro h
  have hlist := congrArg String.toList h
  simp [complain, Report.render] at hlist

end Session

/-- The same answers, reports both times or neither time, and similar sessions. -/
structure Reply.Sim (r r' : Reply) : Prop where
  out : r.out = r'.out
  err : r.err = "" ↔ r'.err = ""
  session : r.session.Sim (fun _ => True) r'.session

theorem Reply.Sim.after {r r' : Reply} (h : r.Sim r') {out out' err err' : String}
    (hout : out = out') (herr : err = "" ↔ err' = "") : (r.after out err).Sim (r'.after out' err') where
  out := by simp only [Reply.after, hout, h.out]
  err := by simp only [Reply.after, String.append_eq_empty_iff, herr, h.err]
  session := h.session

namespace Session

/-- Similar declarations are answered alike, and the order of the names stays the same. -/
theorem Sim.declareAll {S : Span → Span → Prop} (hS : ∀ s, S s s) (keepGoing : Bool)
    {file file' : Nat} {ds ds' : List Decl}
    (hds : List.Forall₂ (Decl.Alike S (fun _ => True) file file') ds ds') {s s' : Session}
    (h : s.Sim (fun _ => True) s') :
    (declareAll keepGoing file s ds).Rel Eq (fun r r' => r.Sim r' ∧
      (s.signature.names = s'.signature.names →
        r.session.signature.names = r'.session.signature.names))
      (declareAll keepGoing file' s' ds') := by
  induction hds generalizing s s' with
  | nil => exact .ok ⟨⟨rfl, .rfl, h⟩, id⟩
  | @cons d d' ds ds' hd _ ih =>
    simp only [Session.declareAll]
    have hrel := h.declare (hS none) (Q := Any) (fun _ => trivial) hd
    generalize hr : s.declare file d = r, hr' : s'.declare file' d' = r' at hrel ⊢
    cases hrel with
    | ok hab =>
      obtain ⟨hsim, hout, _⟩ := hab
      apply (ih (h.declared hd.names_eq hr hr' hsim)).bind
      rintro q q' ⟨hq, hqnames⟩
      refine .ok ⟨hq.after hout .rfl, fun hnames => hqnames ?_⟩
      simp only [(declare_commits hr).names_eq, (declare_commits hr').names_eq, hd.names_eq, hnames]
    | @refused c c' _ =>
      have herr : (s.complain c).err = "" ↔ (s'.complain c').err = "" :=
        iff_of_false (s.complain_err_ne c) (s'.complain_err_ne c')
      have hcomplain : (s.complain c).session.Sim (fun _ => True) (s'.complain c').session :=
        ⟨h.signature, h.fuel, h.width⟩
      cases keepGoing with
      | true =>
        apply (ih hcomplain).bind
        rintro q q' ⟨hq, hqnames⟩
        exact .ok ⟨hq.after rfl herr, hqnames⟩
      | false => exact .ok ⟨⟨rfl, herr, hcomplain⟩, id⟩
    | fault f => exact .fault f
    | outOfFuel => exact .outOfFuel

end Session

/-! ## Normal forms -/

/-- The values have the same normal form, and so have the types. -/
def Entry.SameForms (e e' : Entry) : Prop :=
  ∀ fuel, e.value.quote fuel 0 = e'.value.quote fuel 0 ∧ e.type.quote fuel 0 = e'.type.quote fuel 0

/-- Every name has the same normal forms in both signatures, or is declared in neither. -/
def Signature.SameForms (sig sig' : Signature) : Prop :=
  ∀ x, Option.Rel Entry.SameForms (sig.find? x) (sig'.find? x)

theorem Value.Sim.quote_eq {v v' : Value} (h : v.Sim Eq v') (fuel depth : Nat) :
    v.quote fuel depth = v'.quote fuel depth :=
  ((Value.quote_sim fuel depth h).mono (fun _ _ h => h) fun _ _ h => h.eq).eq

theorem Entry.Sim.sameForms {e e' : Entry} (h : e.Sim Eq e') : e.SameForms e' :=
  fun fuel => ⟨h.1.quote_eq fuel 0, h.2.quote_eq fuel 0⟩

theorem Signature.Sim.sameForms {sig sig' : Signature} (h : sig.Sim Eq (fun _ => True) sig') :
    sig.SameForms sig' := by
  intro x
  have hentry := h x trivial
  generalize sig.find? x = e, sig'.find? x = e' at hentry ⊢
  cases hentry with
  | none => exact .none
  | some he => exact .some he.sameForms

theorem Signature.Matches.sameForms {sig sig' : Signature} (h : sig.Matches sig') :
    List.Forall₂ (fun e e' => e.name = e'.name ∧ e.SameForms e') sig.entries sig'.entries :=
  List.Forall₂.imp (fun _ _ he => ⟨he.1, he.2.sameForms⟩) h

end TypeInType
