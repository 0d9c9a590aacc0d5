import Mathlib.Data.List.AList
import Mathlib.Data.List.Induction
import TypeInType.Proofs.Signature

/-!
# A signature as three tables

A signature can be kept as three tables that are updated one by one: the values and the types of the names,
and the names in the order of their first declaration. Whatever is declared, declared again or cleared, the
tables have the same names, and side by side they are the entries of the signature.
-/

namespace TypeInType

/-! ## Changes of a signature -/

/-- What may happen to a signature. -/
inductive Change where
  | define (x : String) (value type : Value)
  | postulate (x : String) (type : Value)
  | clear

/-- What the change declares, if anything. -/
def Change.declaration? : Change → Option Entry
  | define x value type => some ⟨x, value, type⟩
  | postulate x type => some ⟨x, .free (.global x), type⟩
  | clear => none

/-- The declarations since the last clearing, the first one first. -/
def declared (changes : List Change) : List Entry :=
  (changes.reverse.takeWhile (·.declaration?.isSome)).reverse.filterMap Change.declaration?

/-- The latest declaration of a name. -/
def latestDecl? (ds : List Entry) (x : String) : Option Entry :=
  ds.reverse.find? (·.name == x)

/-- The declared names, in the order of their first declaration. -/
def firstNames (ds : List Entry) : List String :=
  (ds.map Entry.name).eraseDups

theorem declared_concat (changes : List Change) (c : Change) :
    declared (changes ++ [c]) = match c.declaration? with
      | some e => declared changes ++ [e]
      | none => [] := by
  cases hc : c.declaration? <;> simp [declared, hc]

theorem latestDecl?_concat (ds : List Entry) (e : Entry) (x : String) :
    latestDecl? (ds ++ [e]) x = if e.name = x then some e else latestDecl? ds x := by
  by_cases h : e.name = x <;> simp [latestDecl?, h]

theorem isSome_latestDecl? {ds : List Entry} {x : String} :
    (latestDecl? ds x).isSome = true ↔ x ∈ firstNames ds := by
  simp [latestDecl?, firstNames]

theorem firstNames_concat (ds : List Entry) (e : Entry) :
    firstNames (ds ++ [e]) = Signature.addName (firstNames ds) e.name := by
  simp only [firstNames, List.map_append, List.map_cons, List.map_nil]
  generalize ds.map Entry.name = xs
  simp only [List.eraseDups_append, Signature.addName, List.mem_eraseDups]
  by_cases h : e.name ∈ xs <;> simp [List.removeAll, List.eraseDups_cons, h]

theorem nodup_firstNames (ds : List Entry) : (firstNames ds).Nodup := by
  induction ds using List.reverseRecOn with
  | nil => exact .nil
  | append_singleton ds e ih =>
    rw [firstNames_concat, Signature.addName]
    split
    · exact ih
    · rename_i hx
      rw [← List.concat_eq_append]
      exact ih.concat hx

/-- A table in which exactly the listed names are found is empty if the list is. -/
theorem eq_nil_iff_forall_eq_none {f : String → Option Value} {xs : List String}
    (h : ∀ x, (f x).isSome = true ↔ x ∈ xs) : xs = [] ↔ ∀ x, f x = none := by
  rw [List.eq_nil_iff_forall_not_mem]
  refine forall_congr' fun x => ?_
  rw [← h, Bool.not_eq_true, Option.isSome_eq_false_iff, Option.isNone_iff_eq_none]

/-! ## Three tables -/

/-- A signature as three tables. -/
structure Tables where
  values : AList fun _ : String => Value
  types : AList fun _ : String => Value
  /-- The names in the order of their first declaration. -/
  names : List String

namespace Tables

instance : EmptyCollection Tables := ⟨⟨∅, ∅, []⟩⟩

/-- The name is listed if it had no type. -/
def define (T : Tables) (x : String) (value type : Value) : Tables where
  names := if (T.types.lookup x).isNone then T.names ++ [x] else T.names
  types := T.types.insert x type
  values := T.values.insert x value

def postulate (T : Tables) (x : String) (type : Value) : Tables :=
  T.define x (.free (.global x)) type

def value? (T : Tables) (x : String) : Option Value :=
  T.values.lookup x

def type? (T : Tables) (x : String) : Option Value :=
  T.types.lookup x

/-- The listed names that have a type, with their types. -/
def iter (T : Tables) : List (String × Value) :=
  T.names.filterMap fun x => (T.type? x).map (x, ·)

def isEmpty (T : Tables) : Bool :=
  T.names.isEmpty

def change (T : Tables) : Change → Tables
  | .define x value type => T.define x value type
  | .postulate x type => T.postulate x type
  | .clear => ∅

def after (changes : List Change) : Tables :=
  changes.foldl change ∅

/-- The tables say what the latest declarations of the names say. -/
structure Holds (T : Tables) (ds : List Entry) : Prop where
  value?_eq : ∀ x, T.value? x = (latestDecl? ds x).map Entry.value
  type?_eq : ∀ x, T.type? x = (latestDecl? ds x).map Entry.type
  names_eq : T.names = firstNames ds

theorem holds_empty : Holds ∅ [] :=
  ⟨fun _ => rfl, fun _ => rfl, rfl⟩

section

variable {T : Tables} {ds : List Entry} (h : T.Holds ds)

include h

theorem Holds.isSome_type? {x : String} : (T.type? x).isSome = true ↔ x ∈ T.names := by
  rw [h.type?_eq, h.names_eq, Option.isSome_map, isSome_latestDecl?]

theorem Holds.isSome_value? {x : String} : (T.value? x).isSome = true ↔ x ∈ T.names := by
  rw [h.value?_eq, h.names_eq, Option.isSome_map, isSome_latestDecl?]

/-- Every listed name has a type. -/
theorem Holds.map_fst_iter : T.iter.map Prod.fst = T.names := by
  have hnames : ∀ xs ⊆ T.names, (xs.filterMap fun x => (T.type? x).map (x, ·)).map Prod.fst = xs := by
    intro xs hxs
    induction xs with
    | nil => rfl
    | cons x xs ih =>
      obtain ⟨hx, hxs⟩ := List.cons_subset.mp hxs
      obtain ⟨t, ht⟩ := Option.isSome_iff_exists.mp (h.isSome_type?.mpr hx)
      simp [ht, ih hxs]
  exact hnames T.names (List.Subset.refl _)

theorem Holds.isEmpty_iff : T.isEmpty = true ↔ ∀ x, T.type? x = none := by
  rw [isEmpty, List.isEmpty_iff]
  exact eq_nil_iff_forall_eq_none fun _ => h.isSome_type?

end

theorem lookup_insert (x y : String) (v : Value) (m : AList fun _ : String => Value) :
    (m.insert x v).lookup y = if x = y then some v else m.lookup y := by
  by_cases h : x = y
  · subst h
    simp
  · simp [h, AList.lookup_insert_ne (Ne.symm h)]

/-- A declaration is entered in each of the tables. -/
theorem Holds.define {T : Tables} {ds : List Entry} (h : T.Holds ds) (e : Entry) :
    (T.define e.name e.value e.type).Holds (ds ++ [e]) where
  value?_eq x := by
    have hx := h.value?_eq x
    simp only [value?, Tables.define, lookup_insert, latestDecl?_concat] at hx ⊢
    split
    · rfl
    · exact hx
  type?_eq x := by
    have hx := h.type?_eq x
    simp only [type?, Tables.define, lookup_insert, latestDecl?_concat] at hx ⊢
    split
    · rfl
    · exact hx
  names_eq := by
    rw [firstNames_concat, ← h.names_eq, Signature.addName]
    show (if (T.type? e.name).isNone then T.names ++ [e.name] else T.names) = _
    by_cases hmem : e.name ∈ T.names
    · rw [if_pos hmem, if_neg (by simp [Option.isSome_iff_ne_none.mp (h.isSome_type?.mpr hmem)])]
    · rw [if_neg hmem, if_pos (by simpa using mt h.isSome_type?.mp hmem)]

theorem after_concat (changes : List Change) (c : Change) :
    after (changes ++ [c]) = (after changes).change c := by
  simp [after]

/-- After any changes, the tables say what has been declared since the last clearing. -/
theorem holds_after (changes : List Change) : (after changes).Holds (declared changes) := by
  induction changes using List.reverseRecOn with
  | nil => exact holds_empty
  | append_singleton changes c ih =>
    rw [after_concat, declared_concat]
    cases c with
    | define x value type => exact ih.define ⟨x, value, type⟩
    | postulate x type => exact ih.define ⟨x, .free (.global x), type⟩
    | clear => exact holds_empty

end Tables

/-! ## The entries of a signature -/

namespace Signature

def change (sig : Signature) : Change → Signature
  | .define x value type => sig.define x value type
  | .postulate x type => sig.postulate x type
  | .clear => ∅

def after (changes : List Change) : Signature :=
  changes.foldl change ∅

theorem after_concat (changes : List Change) (c : Change) :
    after (changes ++ [c]) = (after changes).change c := by
  simp [after]

/-- The entry of a name is its latest declaration. -/
theorem find?_after (changes : List Change) (x : String) :
    (after changes).find? x = latestDecl? (declared changes) x := by
  induction changes using List.reverseRecOn with
  | nil => rfl
  | append_singleton changes c ih =>
    rw [after_concat, declared_concat]
    cases c with
    | define y value type =>
      simp only [change, Change.declaration?, find?_define, latestDecl?_concat, ih]
    | postulate y type =>
      simp only [change, Change.declaration?, postulate, find?_define, latestDecl?_concat, ih]
    | clear => rfl

theorem names_after (changes : List Change) : (after changes).names = firstNames (declared changes) := by
  induction changes using List.reverseRecOn with
  | nil => rfl
  | append_singleton changes c ih =>
    rw [after_concat, declared_concat]
    cases c with
    | define y value type => simp only [change, Change.declaration?, names_define, firstNames_concat, ih]
    | postulate y type =>
      simp only [change, Change.declaration?, postulate, names_define, firstNames_concat, ih]
    | clear => rfl

/-- If no name has two entries, each entry is the one that its name has. -/
theorem find?_name {e : Entry} : ∀ {entries : List Entry}, (entries.map Entry.name).Nodup → e ∈ entries →
    (Signature.mk entries).find? e.name = some e
  | d :: entries, h, he => by
    rw [List.map_cons, List.nodup_cons] at h
    rcases List.mem_cons.mp he with rfl | he
    · simp [find?]
    · have hne : d.name ≠ e.name := fun heq => h.1 (heq ▸ List.mem_map_of_mem he)
      simpa [find?, hne] using find?_name h.2 he

/-- The signature has the latest declarations of the names, in the order of their first declarations. -/
structure Records (sig : Signature) (ds : List Entry) : Prop where
  nodup : sig.names.Nodup
  names_eq : sig.names = firstNames ds
  entries_eq : sig.entries = sig.names.filterMap (latestDecl? ds)
  isSome_type? : ∀ x, (sig.type? x).isSome = true ↔ x ∈ sig.names
  isSome_value? : ∀ x, (sig.value? x).isSome = true ↔ x ∈ sig.names
  type?_eq : ∀ x, sig.type? x = (latestDecl? ds x).map Entry.type
  value?_eq : ∀ x, sig.value? x = (latestDecl? ds x).map Entry.value
  /-- What evaluation finds. -/
  lookup_values_eq : ∀ x, sig.values.lookup x = (latestDecl? ds x).map Entry.value
  isEmpty_iff : sig.entries.isEmpty = true ↔ ∀ x, sig.type? x = none

theorem records_after (changes : List Change) : (after changes).Records (declared changes) := by
  have hfind := find?_after changes
  have hnames := names_after changes
  have hnodup : (after changes).names.Nodup := by
    rw [hnames]
    exact nodup_firstNames _
  have htype : ∀ x, ((after changes).type? x).isSome = true ↔ x ∈ (after changes).names := by
    intro x
    rw [type?, hfind, Option.isSome_map, hnames, isSome_latestDecl?]
  refine ⟨hnodup, hnames, ?_, htype, fun x => ?_, fun x => ?_, fun x => ?_, fun x => ?_, ?_⟩
  · rw [names, List.filterMap_map]
    conv_lhs => rw [← List.filterMap_some (l := (after changes).entries)]
    refine List.filterMap_congr fun e he => ?_
    rw [Function.comp, ← hfind]
    exact (find?_name hnodup he).symm
  · rw [value?, hfind, Option.isSome_map, hnames, isSome_latestDecl?]
  · rw [type?, hfind]
  · rw [value?, hfind]
  · rw [lookup_values, hfind]
  · rw [List.isEmpty_iff, ← List.map_eq_nil_iff (f := Entry.name)]
    exact eq_nil_iff_forall_eq_none htype

/-- The signature is the three tables side by side. -/
structure Joins (sig : Signature) (T : Tables) : Prop where
  names_eq : sig.names = T.names
  entries_eq : sig.entries.map (fun e => (e.name, e.type)) = T.iter
  type?_eq : ∀ x, sig.type? x = T.type? x
  value?_eq : ∀ x, sig.value? x = T.value? x

theorem Records.joins {sig : Signature} {T : Tables} {ds : List Entry} (h : sig.Records ds)
    (hT : T.Holds ds) : sig.Joins T where
  names_eq := by rw [h.names_eq, hT.names_eq]
  entries_eq := by
    rw [Tables.iter, h.entries_eq, List.map_filterMap, h.names_eq, hT.names_eq]
    refine List.filterMap_congr fun x _ => ?_
    rw [hT.type?_eq, Option.map_map]
    cases hx : latestDecl? ds x with
    | none => rfl
    | some e =>
      have hname : e.name = x := by simpa using List.find?_some hx
      rw [Option.map_some, Option.map_some, hname]
      rfl
  type?_eq x := by rw [h.type?_eq, hT.type?_eq]
  value?_eq x := by rw [h.value?_eq, hT.value?_eq]

/-- After any declarations, redeclarations and clearings, the signature lists each name once, in the order of
the first declarations since the last clearing, with the type and the value of its latest declaration. The
three tables have the same names and agree with the signature. -/
theorem tables_stay_consistent (changes : List Change) :
    let ds := declared changes
    let sig := after changes
    let T := Tables.after changes
    sig.Records ds ∧ sig.Joins T ∧
    (∀ x, (x ∈ T.values ↔ x ∈ T.names) ∧ (x ∈ T.types ↔ x ∈ T.names)) ∧
    T.names.Nodup ∧ T.names = firstNames ds ∧
    T.iter.map Prod.fst = T.names ∧
    T.iter = T.names.filterMap (fun x => (latestDecl? ds x).map fun e => (x, e.type)) ∧
    (∀ x, T.type? x = (latestDecl? ds x).map Entry.type ∧
      T.value? x = (latestDecl? ds x).map Entry.value) ∧
    (T.isEmpty = true ↔ ∀ x, T.type? x = none) := by
  intro ds sig T
  have hsig : sig.Records ds := records_after changes
  have hT : T.Holds ds := Tables.holds_after changes
  refine ⟨hsig, hsig.joins hT, fun x => ⟨?_, ?_⟩, ?_, hT.names_eq, hT.map_fst_iter, ?_,
    fun x => ⟨hT.type?_eq x, hT.value?_eq x⟩, hT.isEmpty_iff⟩
  · rw [← AList.lookup_isSome]
    exact hT.isSome_value?
  · rw [← AList.lookup_isSome]
    exact hT.isSome_type?
  · rw [hT.names_eq]
    exact nodup_firstNames ds
  · simp only [Tables.iter, hT.type?_eq, Option.map_map]
    rfl

end Signature

end TypeInType
