import TypeInType.Proofs.Declarations
import TypeInType.Proofs.Session.Safety

/-!
# Sessions without redeclarations

A session that starts with nothing declared, and in which each name is declared once at most, has a
signature that agrees with constants.
-/

namespace TypeInType

/-- The names that are declared. -/
def Decl.names : Decl → List String
  | .postulate _ names _ => names.map Ident.name
  | .define _ x _ => [x.name]
  | .check _ _ => []
  | .expr _ => []

theorem Signature.foldl_postulate (T : Value) (names : List Ident) (sig : Signature) :
    names.foldl (fun sig x => sig.postulate x.name T) sig =
      (names.map Ident.name).foldl (fun sig x => sig.postulate x T) sig := by
  rw [List.foldl_map]

namespace Session

section Inversion

variable {s : Session} {file : Nat}

theorem elaborate_eq_ok {e : Expr} {t : Synth} (h : elaborate file e = .ok t) :
    t.Scoped IsGlobal 0 :=
  (elaborate_spec file e).of_eq h

theorem infer_eq_ok {e : Expr} {r : Value × Value} (h : s.infer file e = .ok r) :
    ∃ t : Synth, t.Scoped IsGlobal 0 ∧ t.infer s.fuel s.context = .ok r.2 ∧
      t.eval s.fuel (s.context.env []) = .ok r.1 := by
  simp only [Session.infer] at h
  obtain ⟨t, ht, h⟩ := Run.bind_eq_ok.mp h
  obtain ⟨T, hT, h⟩ := Run.bind_eq_ok.mp h
  obtain ⟨v, hv, h⟩ := Run.bind_eq_ok.mp h
  cases h
  exact ⟨t, elaborate_eq_ok ht, Run.mapRefused_eq_ok.mp hT, Run.widen_eq_ok.mp hv⟩

/-- What a declaration that succeeds does to the signature. The values and the types that are declared
have been read back. -/
inductive Commits (s : Session) : Decl → Signature → Prop where
  | postulate {r names e T A} {t : Synth} : t.Scoped IsGlobal 0 →
      (Check.synth t).checkType s.fuel s.context = .ok T → s.context.quote s.fuel T = .ok A →
      Commits s (.postulate r names e)
        ((names.map Ident.name).foldl (fun sig x => sig.postulate x T) s.signature)
  | define {r x e T v A b} {t : Synth} : t.Scoped IsGlobal 0 → t.infer s.fuel s.context = .ok T →
      t.eval s.fuel (s.context.env []) = .ok v → s.context.quote s.fuel T = .ok A →
      s.context.quote s.fuel v = .ok b →
      Commits s (.define r x e) (s.signature.define x.name v T)
  | request {d} : d.names = [] → Commits s d s.signature

theorem declare_commits {d : Decl} {r : Signature × String} (hr : s.declare file d = .ok r) :
    s.Commits d r.1 := by
  cases d with
  | postulate _ names e =>
    simp only [Session.declare] at hr
    obtain ⟨t, ht, hr⟩ := Run.bind_eq_ok.mp hr
    obtain ⟨T, hT, hr⟩ := Run.bind_eq_ok.mp hr
    obtain ⟨A, hA, hr⟩ := Run.bind_eq_ok.mp hr
    cases hr
    rw [Signature.foldl_postulate]
    exact .postulate (elaborate_eq_ok ht) (Run.mapRefused_eq_ok.mp hT) (Run.widen_eq_ok.mp hA)
  | define _ x e =>
    simp only [Session.declare] at hr
    obtain ⟨⟨v, T⟩, hvT, hr⟩ := Run.bind_eq_ok.mp hr
    obtain ⟨b, hb, hr⟩ := Run.bind_eq_ok.mp hr
    obtain ⟨A, hA, hr⟩ := Run.bind_eq_ok.mp hr
    cases hr
    obtain ⟨t, ht, hT, hv⟩ := infer_eq_ok hvT
    exact .define ht hT hv (Run.widen_eq_ok.mp hA) (Run.widen_eq_ok.mp hb)
  | check _ e =>
    simp only [Session.declare] at hr
    obtain ⟨_, _, hr⟩ := Run.bind_eq_ok.mp hr
    cases hr
    exact .request rfl
  | expr e =>
    simp only [Session.declare] at hr
    obtain ⟨_, _, hr⟩ := Run.bind_eq_ok.mp hr
    cases hr
    exact .request rfl

/-- A declaration leaves the names that it does not declare as they are. -/
theorem Commits.frame {d : Decl} {sig : Signature} (h : s.Commits d sig) {x : String}
    (hx : x ∉ d.names) : sig.find? x = s.signature.find? x := by
  cases h with
  | @postulate _ _ _ T => exact Signature.find?_postulateAll T hx
  | @define _ y =>
    have hne : y.name ≠ x := by
      rintro rfl
      exact hx List.mem_cons_self
    rw [Signature.find?_define, if_neg hne]
  | request _ => rfl

/-- A declaration adds the names that are new, in their order. -/
theorem Commits.names_eq {d : Decl} {sig : Signature} (h : s.Commits d sig) :
    sig.names = d.names.foldl Signature.addName s.signature.names := by
  cases h with
  | @postulate _ names _ T => exact Signature.names_postulateAll T (names.map Ident.name) _
  | @define _ y _ T v => exact Signature.names_define s.signature y.name v T
  | request hd =>
    rw [hd]
    rfl

/-- A declaration of new names adds constants. -/
theorem Commits.declares {cs : Constants} (h : Declares cs s.signature) {d : Decl} {sig : Signature}
    (hsig : s.Commits d sig) (hnodup : d.names.Nodup)
    (hfresh : ∀ x ∈ d.names, s.signature.find? x = none) : ∃ cs', Declares cs' sig := by
  cases hsig with
  | @postulate _ _ _ _ _ t ht hT _ =>
    exact ⟨_, Declares.postulate (t := .synth t) ht h hT hnodup hfresh⟩
  | @define _ x _ _ _ _ _ _ ht hT hv hA _ =>
    have hAs := (Constants.readBack (h.isType_of_infer ht hT).inScope hA).1
    exact ⟨_, .define ht hAs h hT hv hA (hfresh x.name List.mem_cons_self)⟩
  | request _ => exact ⟨cs, h⟩

end Inversion

/-- Declarations of new names add constants, and leave the other names as they are. Those that fail
add nothing. -/
theorem declareAll_declares {keepGoing : Bool} {file : Nat} : ∀ (ds : List Decl) {s : Session}
    {cs : Constants} {r : Reply}, Declares cs s.signature → (ds.flatMap Decl.names).Nodup →
      (∀ x ∈ ds.flatMap Decl.names, s.signature.find? x = none) →
      declareAll keepGoing file s ds = .ok r → (∃ cs', Declares cs' r.session.signature) ∧
        ∀ y ∉ ds.flatMap Decl.names, r.session.signature.find? y = s.signature.find? y
  | [], s, cs, r, h, _, _, hr => by
    cases hr
    exact ⟨⟨cs, h⟩, fun _ _ => rfl⟩
  | d :: ds, s, cs, r, h, hnodup, hfresh, hr => by
    rw [List.flatMap_cons] at hnodup hfresh ⊢
    obtain ⟨hd, hds, hdisj⟩ := List.nodup_append.mp hnodup
    have hfresh_d := fun x hx => hfresh x (List.mem_append_left _ hx)
    have hfresh_ds := fun x hx => hfresh x (List.mem_append_right _ hx)
    simp only [declareAll] at hr
    split at hr
    · rename_i sig out heq
      have hcommits := declare_commits heq
      obtain ⟨cs', h'⟩ := hcommits.declares h hd hfresh_d
      obtain ⟨r', hr', hr⟩ := Run.bind_eq_ok.mp hr
      cases hr
      -- The names of the other declarations are still new after this one.
      have hnew : ∀ x ∈ ds.flatMap Decl.names, sig.find? x = none := by
        intro x hx
        rw [hcommits.frame fun hxd => hdisj x hxd x hx rfl]
        exact hfresh_ds x hx
      obtain ⟨hcs, hframe'⟩ :=
        declareAll_declares ds (s := { s with signature := sig }) h' hds hnew hr'
      refine ⟨hcs, fun y hy => ?_⟩
      rw [List.mem_append, not_or] at hy
      exact (hframe' y hy.2).trans (hcommits.frame hy.1)
    · rename_i c _
      split at hr
      · obtain ⟨r', hr', hr⟩ := Run.bind_eq_ok.mp hr
        cases hr
        obtain ⟨hcs, hframe⟩ :=
          declareAll_declares ds (s := (s.complain c).session) h hds hfresh_ds hr'
        exact ⟨hcs, fun y hy => hframe y fun hyds => hy (List.mem_append_right _ hyds)⟩
      · cases hr
        exact ⟨⟨cs, h⟩, fun _ _ => rfl⟩
    · cases hr
    · cases hr

/-- The session has tried to declare the names, each once, since it last had none. -/
inductive DeclaresOnce : List String → Session → Prop where
  | cleared {s : Session} : s.signature = ∅ → DeclaresOnce [] s
  | declarations {s : Session} {names : List String} {keepGoing : Bool} {file : Nat}
      {ds : List Decl} {r : Reply} : DeclaresOnce names s →
      s.declareAll keepGoing file ds = .ok r → (names ++ ds.flatMap Decl.names).Nodup →
      DeclaresOnce (names ++ ds.flatMap Decl.names) r.session
  | unchanged {s s' : Session} {names : List String} : DeclaresOnce names s →
      s'.signature = s.signature → DeclaresOnce names s'

theorem DeclaresOnce.declares {s : Session} {names : List String} (h : DeclaresOnce names s) :
    (∃ cs, Declares cs s.signature) ∧ ∀ x ∉ names, s.signature.find? x = none := by
  induction h with
  | cleared hs =>
    rw [hs]
    exact ⟨⟨[], .empty⟩, fun _ _ => rfl⟩
  | @declarations s names keepGoing file ds r _ hr hnodup ih =>
    obtain ⟨⟨cs, hcs⟩, hfresh⟩ := ih
    obtain ⟨_, hds, hdisj⟩ := List.nodup_append.mp hnodup
    have hnew : ∀ x ∈ ds.flatMap Decl.names, s.signature.find? x = none :=
      fun x hx => hfresh x fun hxn => hdisj x hxn x hx rfl
    obtain ⟨hcs', hframe⟩ := declareAll_declares ds hcs hds hnew hr
    refine ⟨hcs', fun x hx => ?_⟩
    rw [List.mem_append, not_or] at hx
    exact (hframe x hx.2).trans (hfresh x hx.1)
  | unchanged _ hs ih =>
    rw [hs]
    exact ih

end Session

end TypeInType
