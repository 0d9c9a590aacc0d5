import TypeInType.Session

/-!
# Declarations step by step

A declaration gives the new signature and the answer at once. Here it is processed in steps, on a session
that it changes and an output that it writes to; what the steps have done stays if a later one fails. Both
ways agree: every step that may fail comes before the first that changes or writes something.
-/

namespace TypeInType

/-- A session at work, and what it has written so far. -/
structure Desk where
  session : Session
  out : String

/-- Steps at a desk. They may stop, and leave the desk as it is then. -/
abbrev Steps := EStateM (Halt Complaint) Desk

namespace Steps

variable {α β : Type}

/-- Compute something from the session, which does not change. -/
def compute (f : Session → Run Complaint α) : Steps α := fun desk =>
  match f desk.session with
  | .ok a => .ok a desk
  | .error h => .error h desk

/-- Change the signature. -/
def commit (f : Signature → Signature) : Steps Unit :=
  modify fun desk =>
    { desk with session := { desk.session with signature := f desk.session.signature } }

/-- Write a document as an answer. -/
def emit (doc : Doc) : Steps Unit :=
  modify fun desk => { desk with out := desk.out ++ desk.session.layout doc }

/-- Answer a request to check an expression. -/
def evaluate (file : Nat) (e : Expr) : Steps Unit := do
  let (value, type) ← compute fun s => s.infer file e
  let term ← compute fun s => s.normalForm value
  let typeForm ← compute fun s => s.normalForm type
  emit (Session.typedDoc term typeForm)

/-- Process a declaration: names are postulated one after another, and the answer comes last. -/
def declare (file : Nat) : Decl → Steps Unit
  | .postulate _ names e => do
    let t ← compute fun _ => Session.elaborate file e
    let type ← compute fun s => ((Check.synth t).checkType s.fuel s.context).mapRefused .typing
    let typeForm ← compute fun s => s.normalForm type
    names.forM fun x => commit fun sig => sig.postulate x.name type
    let list := ", ".intercalate (names.map Ident.name)
    emit (Session.introduce ("postulated " ++ list ++ " :") (Session.termDoc typeForm))
  | .define _ x e => do
    let (value, type) ← compute fun s => s.infer file e
    let term ← compute fun s => s.normalForm value
    let typeForm ← compute fun s => s.normalForm type
    commit fun sig => sig.define x.name value type
    emit (Session.introduce ("defined " ++ x.name ++ " =") (Session.typedDoc term typeForm))
  | .check _ e => evaluate file e
  | .expr e => evaluate file e

/-! ## Both ways agree -/

/-- The desk after a declaration, or as it was. -/
def settle (desk : Desk) : Run Complaint (Signature × String) → EStateM.Result (Halt Complaint) Desk Unit
  | .ok (sig, out) => .ok () ⟨{ desk.session with signature := sig }, desk.out ++ out⟩
  | .error h => .error h desk

theorem forM_commit (f : Ident → Signature → Signature) : ∀ (names : List Ident) (desk : Desk),
    (names.forM fun x => commit (f x)) desk =
      settle desk (.ok (names.foldl (fun sig x => f x sig) desk.session.signature, ""))
  | [], desk => by
    rw [settle, String.append_empty]
    rfl
  | x :: names, desk => forM_commit f names
      { desk with session := { desk.session with signature := f x desk.session.signature } }

/-- A computation comes first on both sides. -/
theorem compute_bind {f : Session → Run Complaint α} {g : α → Steps Unit}
    {g' : α → Run Complaint (Signature × String)} {desk : Desk}
    (h : ∀ a, g a desk = settle desk (g' a)) :
    (compute f >>= g) desk = settle desk (f desk.session >>= g') := by
  show EStateM.bind (compute f) g desk = _
  rw [EStateM.bind, compute]
  cases f desk.session with
  | ok a => exact h a
  | error x => rfl

theorem evaluate_eq (file : Nat) (e : Expr) (desk : Desk) : evaluate file e desk =
    settle desk (do return (desk.session.signature, ← desk.session.evaluate file e)) := by
  simp only [Session.evaluate, bind_assoc, pure_bind]
  exact compute_bind fun _ => compute_bind fun _ => compute_bind fun _ => rfl

/-- Processing in steps ends as processing at once does: with the new signature and the answer, or with the
desk as it was. -/
theorem declare_eq (file : Nat) (d : Decl) (desk : Desk) :
    declare file d desk = settle desk (desk.session.declare file d) := by
  cases d with
  | postulate _ names e =>
    refine compute_bind fun t => compute_bind fun type => compute_bind fun typeForm => ?_
    show EStateM.bind (names.forM _) _ desk = _
    rw [EStateM.bind, forM_commit, settle, String.append_empty]
    rfl
  | define _ x e =>
    exact compute_bind fun _ => compute_bind fun _ => compute_bind fun _ => rfl
  | check _ e => exact evaluate_eq file e desk
  | expr e => exact evaluate_eq file e desk

end Steps

end TypeInType
