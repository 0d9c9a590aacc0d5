import TypeInType.Proofs.Core.Extension
import TypeInType.Proofs.Term.Elaboration
import TypeInType.Proofs.Typing.Soundness
import TypeInType.Session.Interact

/-!
# Sessions do not fault

The names that a session has postulated give a theory, in which a name has every type that it has
ever been postulated with: a closure may go on using a name after it has been declared anew. In this
theory the values and the types of all declared names are well typed, whatever a session does. So
nothing that a session infers, evaluates or reads back stops at a broken invariant.
-/

namespace TypeInType

open TypeInType.Core (HasType Reds)

/-! ## The postulates of a session -/

/-- Every name that has been postulated, with its type. -/
abbrev Record := List (String × Value)

namespace Record

def Knows (R : Record) (x : String) : Prop :=
  ∃ T, (x, T) ∈ R

/-- The theory of the postulates. -/
def theory (R : Record) : Theory where
  postulate x A := ∃ T, (x, T) ∈ R ∧ A = T.embed .atom
  definition _ := none
  closed_postulate := by
    rintro x A ⟨T, _, rfl⟩
    exact Value.closed_embed T
  closed_definition := nofun

variable {R R' : Record}

theorem Knows.mono (h : R ⊆ R') {x : String} : R.Knows x → R'.Knows x
  | ⟨T, hT⟩ => ⟨T, h hT⟩

theorem theory_le (h : R ⊆ R') : R.theory.Le R'.theory where
  postulate
    | ⟨T, hT, hA⟩ => ⟨T, h hT, hA⟩
  definition := nofun

theorem within_mono (h : R ⊆ R') : ∀ x, Within R.Knows 0 x → Within R'.Knows 0 x
  | .global _, hx => Knows.mono h hx

end Record

/-- The value is closed and has the type. -/
def Record.Member (R : Record) (v : Value) (A : Core) : Prop :=
  Signature.Member R.theory R.Knows v A

theorem Record.Member.mono {R R' : Record} (h : R ⊆ R') {v : Value} {A : Core}
    (hv : R.Member v A) : R'.Member v A :=
  ⟨hv.inScope.mono (Record.within_mono h), hv.typed.mono (Record.theory_le h)⟩

/-- The type of the entry is a type, and the value has it. -/
structure Entry.Sound (R : Record) (e : Entry) : Prop where
  type : R.Member e.type .star
  value : R.Member e.value (e.type.embed .atom)

theorem Entry.Sound.mono {R R' : Record} (h : R ⊆ R') {e : Entry} (he : e.Sound R) : e.Sound R' :=
  ⟨he.type.mono h, he.value.mono h⟩

namespace Signature

/-- The postulates have types, and so has every entry. -/
structure Sound (R : Record) (sig : Signature) : Prop where
  theory : R.theory.Ok
  entry : ∀ e ∈ sig.entries, e.Sound R

/-- A name stands for its value. -/
def naming (sig : Signature) : Naming where
  term x := match sig.find? x with
    | some e => e.value.embed .atom
    | none => .atom (.undeclared x)
  type x A := ∃ e, sig.find? x = some e ∧ A = e.type.embed .atom
  closed_term x := by
    split
    · exact Value.closed_embed _
    · exact Core.closed_atom _
  closed_type := by
    rintro x A ⟨e, _, rfl⟩
    exact Value.closed_embed _

variable {R : Record} {sig : Signature}

theorem Sound.find {x : String} {e : Entry} (h : sig.Sound R) (hx : sig.find? x = some e) :
    e.Sound R :=
  h.entry e (List.mem_of_find?_eq_some hx)

theorem Sound.ok (h : sig.Sound R) : sig.Ok R.theory R.Knows sig.naming where
  naming := by
    rintro x A ⟨e, he, rfl⟩
    simp only [Signature.naming, he]
    exact (h.find he).value.typed
  undeclared hx := by simp only [Signature.naming, hx]
  inScope e he := ⟨(h.entry e he).value.inScope, (h.entry e he).type.inScope⟩
  type {x e} hx := ⟨e.type.embed .atom, ⟨e, hx, rfl⟩, .refl _, (h.find hx).type.typed⟩
  value hx := by simp only [Signature.naming, hx]; exact .refl

theorem Sound.empty (h : R.theory.Ok) : (∅ : Signature).Sound R :=
  ⟨h, fun _ he => nomatch he⟩

theorem Sound.define (h : sig.Sound R) (x : String) {value type : Value}
    (ht : R.Member type .star) (hv : R.Member value (type.embed .atom)) :
    (sig.define x value type).Sound R := by
  refine ⟨h.theory, fun e he => ?_⟩
  rcases Signature.mem_define he with rfl | he
  · exact ⟨ht, hv⟩
  · exact h.entry e he

theorem Sound.mono {R' : Record} (hR : R ⊆ R') (hR' : R'.theory.Ok) (h : sig.Sound R) :
    sig.Sound R' :=
  ⟨hR', fun e he => (h.entry e he).mono hR⟩

/-- A postulate is recorded with one more type. -/
theorem Sound.postulate (h : sig.Sound R) (x : String) {type : Value}
    (ht : R.Member type .star) : (sig.postulate x type).Sound ((x, type) :: R) := by
  have hR : R ⊆ (x, type) :: R := List.subset_cons_self _ _
  have hok : (Record.theory ((x, type) :: R)).Ok := by
    refine ⟨?_, nofun, nofun⟩
    rintro y A ⟨T, hT, rfl⟩
    rcases List.mem_cons.mp hT with hT | hT
    · cases hT
      exact (ht.mono hR).typed
    · exact (h.theory.postulate ⟨T, hT, rfl⟩).mono (Record.theory_le hR)
  refine (h.mono hR hok).define x (ht.mono hR) ⟨⟨type, List.mem_cons_self⟩, ?_⟩
  exact .postulate ⟨type, List.mem_cons_self, rfl⟩

theorem Sound.postulateAll {type : Value} : ∀ (names : List String) {R : Record} {sig : Signature},
    sig.Sound R → R.Member type .star →
      ∃ R', (names.foldl (fun sig x => sig.postulate x type) sig).Sound R'
  | [], R, _, h, _ => ⟨R, h⟩
  | x :: names, _, _, h, ht =>
    Sound.postulateAll names (h.postulate x ht) (ht.mono (List.subset_cons_self _ _))

end Signature

/-! ## Declarations -/

/-- The line is a command, or an input that can be counted. -/
def Line.Countable : Line → Prop
  | .input text => TypeInType.Countable text
  | _ => True

/-- The fault is that the text cannot be counted. -/
def Fault.IsLengthOf (text : String) (x : Fault) : Prop :=
  x = .sourceTooLong ∧ ¬Countable text

namespace Session

/-- The signature is well typed. -/
def Sound (s : Session) : Prop :=
  ∃ R, s.signature.Sound R

theorem elaborate_spec (file : Nat) (e : Expr) :
    (elaborate file e).Ends (fun _ => True) fun t => t.Scoped IsGlobal 0 :=
  (e.elaborate_spec file Vocabulary.builtin_ok).mapRefused fun _ _ => trivial

section Declarations

variable {s : Session} {R : Record} (h : s.signature.Sound R)

include h

theorem normalForm_spec {v : Value} {A : Core} (hv : R.Member v A) :
    (s.normalForm v).Ends (fun _ => True) fun _ => True :=
  (Signature.quote_closed h.theory h.ok hv).widen

theorem infer_spec (file : Nat) (e : Expr) : (s.infer file e).Ends (fun _ => True) fun r =>
    R.Member r.2 .star ∧ R.Member r.1 (r.2.embed .atom) := by
  simp only [Session.infer]
  refine (elaborate_spec file e).bind fun t _ ht => ?_
  refine ((Signature.infer_closed h.theory h.ok ht).mapRefused fun _ _ => trivial).bind
    fun T _ hT => ?_
  refine (Signature.eval_synth_closed h.theory h.ok ht (hT.2.hasType h.ok.naming)).widen.bind
    fun v _ hv => ?_
  exact ⟨hT.1, hv.1⟩

theorem evaluate_spec (file : Nat) (e : Expr) :
    (s.evaluate file e).Ends (fun _ => True) fun _ => True := by
  simp only [Session.evaluate]
  refine (infer_spec h file e).bind fun r _ hr => ?_
  refine (normalForm_spec h hr.2).bind fun _ _ _ => ?_
  exact (normalForm_spec h hr.1).bind fun _ _ _ => trivial

theorem declare_spec (file : Nat) (d : Decl) :
    (s.declare file d).Ends (fun _ => True) fun r => ∃ R', r.1.Sound R' := by
  cases d with
  | postulate _ names e =>
    simp only [Session.declare]
    refine (elaborate_spec file e).bind fun t _ ht => ?_
    refine ((Signature.checkType_closed (t := .synth t) h.theory h.ok ht).mapRefused
      fun _ _ => trivial).bind fun T _ hT => ?_
    refine (normalForm_spec h hT.1).bind fun _ _ _ => ?_
    obtain ⟨R', h'⟩ := Signature.Sound.postulateAll (names.map Ident.name) h hT.1
    rw [List.foldl_map] at h'
    exact ⟨R', h'⟩
  | define _ x e =>
    simp only [Session.declare]
    refine (infer_spec h file e).bind fun r _ hr => ?_
    refine (normalForm_spec h hr.2).bind fun _ _ _ => ?_
    refine (normalForm_spec h hr.1).bind fun _ _ _ => ?_
    exact ⟨R, h.define x.name hr.1 hr.2⟩
  | check _ e =>
    simp only [Session.declare]
    exact (evaluate_spec h file e).bind fun _ _ _ => ⟨R, h⟩
  | expr e =>
    simp only [Session.declare]
    exact (evaluate_spec h file e).bind fun _ _ _ => ⟨R, h⟩

end Declarations

/-! ## Steps -/

section Steps

theorem declareAll_spec (keepGoing : Bool) (file : Nat) : ∀ (ds : List Decl) {s : Session},
    s.Sound → (declareAll keepGoing file s ds).Ends (fun _ => True) fun r => r.session.Sound
  | [], _, h => h
  | d :: ds, s, ⟨R, h⟩ => by
    have hd := declare_spec h file d
    simp only [declareAll]
    split
    · rename_i sig out heq
      have hsig : Sound { s with signature := sig } := hd.of_eq heq
      exact (declareAll_spec keepGoing file ds hsig).bind fun r _ hr => hr
    · rename_i c _
      have hfirst : (s.complain c).session.Sound := ⟨R, h⟩
      split
      · exact (declareAll_spec keepGoing file ds hfirst).bind fun r _ hr => hr
      · exact hfirst
    · rename_i x heq
      exact hd.noFault x heq
    · trivial

theorem load_sound {s : Session} (h : s.Sound) (name text : String) : (s.load name text).1.Sound :=
  h

section Reading

variable {s : Session} {text : String}

/-- A text that can be counted is read, or is reported. -/
theorem onceRead_spec {α : Type} {read : Nat → List Lexeme → Except SyntaxError α} {file : Nat}
    {go : α → Run Empty Reply} (h : s.Sound) (htext : Countable text)
    (hgo : ∀ a, (go a).Ends (fun _ => True) fun r => r.session.Sound) :
    (s.onceRead file (readSource read text) go).Ends (fun _ => True) fun r => r.session.Sound := by
  rcases readSource_of_countable htext with ⟨a, ha⟩ | ⟨e, he⟩
  · rw [ha]
    exact hgo a
  · rw [he]
    exact h

theorem checkSource_spec (h : s.Sound) (htext : Countable text) (name : String) :
    (s.checkSource name text).Ends (fun _ => True) fun r => r.session.Sound :=
  onceRead_spec (load_sound h name text) htext fun ds =>
    declareAll_spec _ _ ds (load_sound h name text)

theorem normaliseSource_spec (h : s.Sound) (htext : Countable text) (name : String) :
    (s.normaliseSource name text).Ends (fun _ => True) fun r => r.session.Sound :=
  onceRead_spec (load_sound h name text) htext fun _ =>
    declareAll_spec _ _ _ (load_sound h name text)

theorem processInput_spec (h : s.Sound) (htext : Countable text) :
    (s.processInput text).Ends (fun _ => True) fun r => r.session.Sound :=
  onceRead_spec h htext fun ds => declareAll_spec _ _ ds h

/-- Of a text that cannot be counted nothing is read. -/
theorem onceRead_of_not_countable {α : Type} {read : Nat → List Lexeme → Except SyntaxError α}
    (htext : ¬Countable text) (s : Session) (file : Nat) (go : α → Run Empty Reply) :
    s.onceRead file (readSource read text) go = .abort .sourceTooLong := by
  rw [readSource_of_not_countable htext]
  rfl

theorem checkSource_of_not_countable (htext : ¬Countable text) (s : Session) (name : String) :
    s.checkSource name text = .abort .sourceTooLong :=
  onceRead_of_not_countable htext _ _ _

theorem normaliseSource_of_not_countable (htext : ¬Countable text) (s : Session) (name : String) :
    s.normaliseSource name text = .abort .sourceTooLong :=
  onceRead_of_not_countable htext _ _ _

theorem processInput_of_not_countable (htext : ¬Countable text) (s : Session) :
    s.processInput text = .abort .sourceTooLong :=
  onceRead_of_not_countable htext _ _ _

end Reading

theorem listing_spec {s : Session} (h : s.Sound) :
    s.listing.Ends (fun _ => True) fun _ => True := by
  obtain ⟨R, h⟩ := h
  simp only [listing]
  split
  · trivial
  · refine (Run.Ends.mapM (S := fun _ => True) fun e he => ?_).bind fun _ _ _ => trivial
    have htype := (h.entry e he).type
    exact (Signature.quote_closed h.theory h.ok htype).bind fun _ _ _ => trivial

theorem processLine_spec {s : Session} (h : s.Sound) {l : Line} (hl : l.Countable) :
    (s.processLine l).Ends (fun _ => True) fun o => ∀ r ∈ o, r.session.Sound := by
  cases l with
  | blank => rintro r ⟨⟩; exact h
  | quit => exact fun r hr => nomatch hr
  | clear =>
    obtain ⟨R, h⟩ := h
    rintro r ⟨⟩
    exact ⟨R, .empty h.theory⟩
  | list =>
    simp only [processLine]
    refine (listing_spec h).bind fun _ _ _ => ?_
    rintro r ⟨⟩
    exact h
  | help => rintro r ⟨⟩; exact h
  | input text =>
    simp only [processLine]
    refine (processInput_spec h hl).bind fun r _ hr => ?_
    rintro _ ⟨⟩
    exact hr

theorem processLine_of_not_countable {l : Line} (hl : ¬l.Countable) (s : Session) :
    ∃ text, l = .input text ∧ ¬Countable text ∧ s.processLine l = .abort .sourceTooLong := by
  cases l with
  | input text =>
    refine ⟨text, rfl, hl, ?_⟩
    rw [processLine, processInput_of_not_countable hl]
    rfl
  | _ => exact absurd trivial hl

end Steps

/-! ## Reachable sessions -/

/-- The sessions that start with nothing declared, and take lines, sources and declarations in any
order. -/
inductive Reachable : Session → Prop where
  | initial : Reachable .initial
  | configure {s : Session} (keepGoing : Bool) (width fuel : Nat) : Reachable s →
      Reachable { s with keepGoing := keepGoing, width := width, fuel := fuel }
  | line {s : Session} {l : Line} {r : Reply} : Reachable s → s.processLine l = .ok (some r) →
      Reachable r.session
  | source {s : Session} {name text : String} {r : Reply} : Reachable s →
      s.checkSource name text = .ok r → Reachable r.session
  | term {s : Session} {name text : String} {r : Reply} : Reachable s →
      s.normaliseSource name text = .ok r → Reachable r.session
  | declarations {s : Session} {keepGoing : Bool} {file : Nat} {ds : List Decl} {r : Reply} :
      Reachable s → s.declareAll keepGoing file ds = .ok r → Reachable r.session

theorem Reachable.sound {s : Session} (h : s.Reachable) : s.Sound := by
  induction h with
  | initial => exact ⟨[], .empty ⟨fun ⟨_, h, _⟩ => (nomatch h), nofun, nofun⟩⟩
  | configure _ _ _ _ ih => exact ih
  | @line s l r _ hr ih =>
    by_cases hl : l.Countable
    · exact (processLine_spec ih hl).of_eq hr r rfl
    · obtain ⟨_, _, _, habort⟩ := processLine_of_not_countable hl s
      cases habort.symm.trans hr
  | @source s name text r _ hr ih =>
    by_cases htext : Countable text
    · exact (checkSource_spec ih htext name).of_eq hr
    · cases (checkSource_of_not_countable htext s name).symm.trans hr
  | @term s name text r _ hr ih =>
    by_cases htext : Countable text
    · exact (normaliseSource_spec ih htext name).of_eq hr
    · cases (normaliseSource_of_not_countable htext s name).symm.trans hr
  | @declarations s keepGoing file ds r _ hr ih =>
    exact (declareAll_spec keepGoing file ds ih).of_eq hr

/-- No step of a session faults, whatever it is given, unless it is a text that cannot be counted. Nor
does elaboration of an expression, nor inference for the term, nor, if the term has a type, its evaluation
and the read-back of its value and of its type. -/
theorem reachable_never_faults {s : Session} (hs : s.Reachable) :
    (∀ l, (s.processLine l).FaultsIn fun x => ∃ text, l = .input text ∧ x.IsLengthOf text) ∧
    (∀ name text, (s.checkSource name text).FaultsIn (Fault.IsLengthOf text) ∧
      (s.normaliseSource name text).FaultsIn (Fault.IsLengthOf text)) ∧
    ∀ (file : Nat) (e : Expr), (e.elaborate file .builtin).NoFault ∧
      ∀ t, e.elaborate file .builtin = .ok t → ∀ fuel, (t.infer fuel s.context).NoFault ∧
        ∀ T, t.infer fuel s.context = .ok T → ∀ fuel',
          (s.context.quote fuel' T).NoFault ∧ (t.eval fuel' (s.context.env [])).NoFault ∧
          ∀ v, t.eval fuel' (s.context.env []) = .ok v → ∀ fuel'',
            (s.context.quote fuel'' v).NoFault := by
  obtain ⟨R, h⟩ := hs.sound
  refine ⟨fun l => ?_, fun name text => ?_, fun file e => ?_⟩
  · by_cases hl : l.Countable
    · exact (processLine_spec ⟨R, h⟩ hl).noFault.faultsIn
    · obtain ⟨text, rfl, htext, habort⟩ := processLine_of_not_countable hl s
      rw [habort]
      exact ⟨text, rfl, rfl, htext⟩
  · by_cases htext : Countable text
    · exact ⟨(checkSource_spec ⟨R, h⟩ htext name).noFault.faultsIn,
        (normaliseSource_spec ⟨R, h⟩ htext name).noFault.faultsIn⟩
    · rw [checkSource_of_not_countable htext, normaliseSource_of_not_countable htext]
      exact ⟨⟨rfl, htext⟩, rfl, htext⟩
  have he := e.elaborate_spec file Vocabulary.builtin_ok
  refine ⟨he.noFault, fun t ht fuel => ?_⟩
  have hts := he.of_eq ht
  have hinfer : (t.infer fuel s.context).Ends _ _ := Signature.infer_closed h.theory h.ok hts
  refine ⟨hinfer.noFault, fun T hT fuel' => ?_⟩
  obtain ⟨hTm, hhas⟩ := hinfer.of_eq hT
  have heval : (t.eval fuel' (s.context.env [])).Ends (fun _ => True) _ :=
    Signature.eval_synth_closed h.theory h.ok hts (hhas.hasType h.ok.naming)
  refine ⟨(Signature.quote_closed h.theory h.ok hTm).noFault, heval.noFault,
    fun v hv fuel'' => ?_⟩
  exact (Signature.quote_closed h.theory h.ok (heval.of_eq hv).1).noFault

/-- `x` is declared anew with another type after `f` has captured it. -/
theorem redeclared_never_faults : ∃ s : Session, s.Reachable ∧ s.signature.names = ["x", "f"] ∧
    (s.processLine (.input "check f")).NoFault ∧
    ∀ fuel, (Synth.infer fuel s.context
      (.free (Elaborate.span 0 default) (.global "f"))).NoFault := by
  let ds : List Decl :=
    [.postulate default [⟨default, "x"⟩] (.var default "Nat"),
      .define default ⟨default, "f"⟩ (.app default (.var default "Succ") (.var default "x")),
      .postulate default [⟨default, "x"⟩] (.star default)]
  have hs : Reachable _ := @Reachable.declarations .initial false 0 ds _ .initial (by rfl)
  obtain ⟨hline, _, hterm⟩ := reachable_never_faults hs
  have hcountable : Countable "check f" := by decide +kernel
  refine ⟨_, hs, by rfl, fun x hx => ?_, fun fuel => ?_⟩
  · obtain ⟨_, hl, _, htext⟩ := (hline _).of_eq hx
    cases hl
    exact htext hcountable
  · exact ((hterm 0 (.var default "f")).2 _ (by rfl) fuel).1

end Session

end TypeInType
