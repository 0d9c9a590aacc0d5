import TypeInType.Proofs.Session.WellFormed

/-!
# Which names are shown as postulates

A signature does not record how a name was declared: a name counts as a postulate if its value is the name
itself. The latest declaration of such a name is a postulate, or a definition whose normal form is the
name; the name was then a postulate before.
-/

namespace TypeInType

/-- The declaration postulates its names. -/
def Decl.isPostulate : Decl → Bool
  | .postulate _ _ _ => true
  | _ => false

/-- The latest declaration of the name, if the last declaration comes first. -/
def latest? (x : String) (ds : List Decl) : Option Decl :=
  ds.find? (x ∈ ·.names)

/-! ## Values that are names -/

theorem Neutral.eq_free_of_quote {n : Neutral} {fuel : Nat} {x : String}
    (h : n.quote fuel 0 = .ok (.free none (.global x))) : n = .free (.global x) := by
  cases fuel with
  | zero => cases h
  | succ fuel =>
    cases n with
    | free y =>
      cases y with
      | global y =>
        cases h
        rfl
      | hyp l => cases h
      | quote l => cases h
    | _ => simp only [Neutral.quote, Run.bind_eq_ok, Run.pure_eq_ok, reduceCtorEq, and_false,
        exists_false] at h

/-- Only the name itself has a name as its normal form. -/
theorem Value.hasForm_global_iff {v : Value} {x : String} :
    v.HasForm (.synth (.free none (.global x))) ↔ v = .free (.global x) := by
  constructor
  · intro h
    obtain ⟨fuel, h⟩ := h.quote
    cases fuel with
    | zero => cases h
    | succ fuel =>
      cases v with
      | neutral n =>
        simp only [Value.quote, Run.bind_eq_ok, Run.pure_eq_ok, Check.synth.injEq,
          exists_eq_right] at h
        rw [Neutral.eq_free_of_quote h]
        rfl
      | _ => simp only [Value.quote, Run.bind_eq_ok, Run.pure_eq_ok, Check.synth.injEq, reduceCtorEq,
          and_false, exists_false] at h
  · rintro rfl
    exact .global x

/-! ## The declarations of a session -/

namespace Session

/-- The session has accepted the declarations, the last one first, since it last had no names. -/
inductive Accepted : List Decl → Session → Prop where
  | cleared {s : Session} : s.signature = ∅ → Accepted [] s
  | declared {s : Session} {ds : List Decl} {file : Nat} {d : Decl} {sig : Signature}
      {out : String} : Accepted ds s → s.declare file d = .ok (sig, out) →
      Accepted (d :: ds) { s with signature := sig }
  | unchanged {s s' : Session} {ds : List Decl} : Accepted ds s → s'.signature = s.signature →
      Accepted ds s'

/-- A name of the signature that one of the declarations postulates. -/
def Postulated (ds : List Decl) (x : Name) : Prop :=
  ∃ y d, x = .global y ∧ d ∈ ds ∧ d.isPostulate = true ∧ y ∈ d.names

theorem Postulated.cons {ds : List Decl} {x : Name} (d : Decl) :
    Postulated ds x → Postulated (d :: ds) x
  | ⟨y, d', hx, hd', hpost, hy⟩ => ⟨y, d', hx, List.mem_cons_of_mem d hd', hpost, hy⟩

/-- A declaration that postulates its names gives each its name for a value. -/
theorem Commits.value_of_isPostulate {s : Session} {d : Decl} {sig : Signature} {x : String}
    {e : Entry} (h : s.Commits d sig) (hd : d.isPostulate = true) (hx : x ∈ d.names)
    (he : sig.find? x = some e) : e.value = .free (.global x) := by
  cases h with
  | @postulate _ _ _ T =>
    cases (Signature.find?_postulateAll_of_mem T hx).symm.trans he
    rfl
  | define => cases hd
  | request hnames =>
    rw [hnames] at hx
    cases hx

/-- The values of a signature are stuck on names that have been postulates. -/
theorem Accepted.namesIn {ds : List Decl} {s : Session} (h : Accepted ds s) :
    ∀ e ∈ s.signature.entries, e.value.NamesIn (Postulated ds) := by
  induction h with
  | cleared hs =>
    rw [hs]
    intro e he
    cases he
  | @declared s ds _ d sig _ _ hd ih =>
    have hcommits : s.Commits d sig := declare_commits hd
    have hold : ∀ e ∈ s.signature.entries, e.value.NamesIn (Postulated (d :: ds)) :=
      fun e he => (ih e he).mono (fun _ _ hk => hk) fun _ hx => hx.cons d
    show ∀ e ∈ sig.entries, _
    intro e he
    cases hcommits with
    | @postulate _ names =>
      rcases Signature.mem_postulateAll he with ⟨x, hx, rfl⟩ | he
      · exact Value.scopedBy_free ⟨x, _, rfl, List.mem_cons_self, rfl, hx⟩
      · exact hold e he
    | define ht _ hv =>
      rcases Signature.mem_define he with rfl | he
      · have henv : (s.context.env []).ScopedBy .any (Postulated _) :=
          ⟨Signature.globalsScopedBy_values hold, trivial⟩
        exact Synth.eval_scopedBy (k := 0) henv trivial (ht.mono IsGlobal.orGlobal) hv
      · exact hold e he
    | request _ => exact hold e he
  | unchanged _ hs ih =>
    rw [hs]
    exact ih

/-- Every name has a latest declaration, and is its own value if that is a postulate. -/
theorem Accepted.exists_latest {ds : List Decl} {s : Session} (h : Accepted ds s) {x : String}
    {e : Entry} (he : s.signature.find? x = some e) :
    ∃ d, latest? x ds = some d ∧ (d.isPostulate = true → e.value = .free (.global x)) := by
  induction h with
  | cleared hs =>
    rw [hs] at he
    cases he
  | @declared s ds _ d sig _ _ hd ih =>
    have hcommits : s.Commits d sig := declare_commits hd
    by_cases hx : x ∈ d.names
    · have hlatest : latest? x (d :: ds) = some d := List.find?_cons_of_pos (by simpa using hx)
      exact ⟨d, hlatest, fun hpost => hcommits.value_of_isPostulate hpost hx he⟩
    · have hlatest : latest? x (d :: ds) = latest? x ds := List.find?_cons_of_neg (by simpa using hx)
      rw [hlatest]
      exact ih ((hcommits.frame hx).symm.trans he)
  | unchanged _ hs ih =>
    rw [hs] at he
    exact ih he

/-- A name that is its own value has been a postulate. -/
theorem Accepted.exists_postulate {ds : List Decl} {s : Session} (h : Accepted ds s) {x : String}
    {e : Entry} (he : s.signature.find? x = some e) (hvalue : e.value = .free (.global x)) :
    ∃ d ∈ ds, d.isPostulate = true ∧ x ∈ d.names := by
  have hnames := h.namesIn e (List.mem_of_find?_eq_some he)
  rw [hvalue] at hnames
  obtain ⟨y, d, hy, hd, hpost, hmem⟩ := hnames
  cases hy
  exact ⟨d, hd, hpost, hmem⟩

/-! ## The list of names -/

/-- The line of the list of names for an entry. -/
def ListedAs (s : Session) (e : Entry) (line : String) : Prop :=
  ∃ A, e.type.HasForm A ∧ line = s.layout (introduce
    ((if s.signature.isPostulate e.name then "axiom " else "") ++ e.name ++ " :") (termDoc A))

theorem listing_eq_ok {s : Session} {out : String} (h : s.listing = .ok out)
    (hs : s.signature.entries ≠ []) :
    ∃ lines, List.Forall₂ s.ListedAs s.signature.entries lines ∧ out = String.join lines := by
  have hne : s.signature.entries.isEmpty = false := List.isEmpty_eq_false_iff.mpr hs
  simp only [listing, hne, Bool.false_eq_true, if_false] at h
  obtain ⟨lines, hlines, h⟩ := Run.bind_eq_ok.mp h
  refine ⟨lines, (Run.mapM_eq_ok.mp hlines).imp fun e line hline => ?_, (Run.pure_eq_ok.mp h).symm⟩
  obtain ⟨A, hA, hline⟩ := Run.bind_eq_ok.mp hline
  exact ⟨A, .of_quote hA, (Run.pure_eq_ok.mp hline).symm⟩

/-- After any accepted declarations since the last time that there were no names, a name counts as a
postulate if and only if its latest declaration is a postulate, or is a definition whose normal form is
the name; some declaration has postulated it in either case. The list of names marks those that count as
postulates, and no others. -/
theorem Accepted.isPostulate_iff_latest {ds : List Decl} {s : Session} (h : Accepted ds s) :
    (∀ x e, s.signature.find? x = some e → ∃ d, latest? x ds = some d ∧
      (s.signature.isPostulate x = true ↔
        d.isPostulate = true ∨ e.value.HasForm (.synth (.free none (.global x)))) ∧
      (s.signature.isPostulate x = true → ∃ d' ∈ ds, d'.isPostulate = true ∧ x ∈ d'.names)) ∧
    ∀ out, s.listing = .ok out → s.signature.entries ≠ [] →
      ∃ lines, List.Forall₂ s.ListedAs s.signature.entries lines ∧ out = String.join lines := by
  refine ⟨fun x e he => ?_, fun _ => listing_eq_ok⟩
  obtain ⟨d, hlatest, hvalue⟩ := h.exists_latest he
  have hiff : s.signature.isPostulate x = true ↔ e.value = .free (.global x) := by
    rw [Signature.isPostulate_iff, he]
    simp only [Option.some.injEq, exists_eq_left']
  refine ⟨d, hlatest, ?_, fun hpost => h.exists_postulate he (hiff.mp hpost)⟩
  rw [hiff, Value.hasForm_global_iff]
  exact ⟨.inr, fun hd => hd.elim hvalue id⟩

/-- After `axiom x : Nat` and `defun x = x`, the name `x` still counts as a postulate. -/
theorem redefined_by_itself : ∃ ds s e d out, Accepted ds s ∧ s.signature.find? "x" = some e ∧
    latest? "x" ds = some d ∧ d.isPostulate = false ∧
    e.value.HasForm (.synth (.free none (.global "x"))) ∧ s.signature.isPostulate "x" = true ∧
    (∃ d' ∈ ds, d'.isPostulate = true ∧ "x" ∈ d'.names) ∧ s.listing = .ok out ∧
    out = "axiom x : Nat\n" := by
  let x : Ident := ⟨default, "x"⟩
  let ds : List Decl := [.define default x (.var default "x"),
    .postulate default [x] (.var default "Nat")]
  have hfirst : initial.declare 0 (.postulate default [x] (.var default "Nat")) = .ok (_, _) := rfl
  have hds : Accepted ds _ := @Accepted.declared _ _ 0 _ _ _ (.declared (.cleared rfl) hfirst) rfl
  obtain ⟨d, hd, hiff, hpost⟩ := hds.isPostulate_iff_latest.1 "x" _ rfl
  cases hd
  have hform : Value.HasForm _ _ := Value.HasForm.global "x"
  have hmarked := hiff.mpr (.inr hform)
  exact ⟨ds, _, _, _, _, hds, rfl, rfl, rfl, hform, hmarked, hpost hmarked, rfl, by decide +kernel⟩

end Session

end TypeInType
