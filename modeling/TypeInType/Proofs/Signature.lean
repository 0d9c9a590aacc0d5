import TypeInType.Signature

/-!
# Declared names

What a declaration changes in a signature: the entry of the declared name, and nothing else.
-/

namespace TypeInType

namespace Signature

theorem lookup_values (sig : Signature) (x : String) :
    sig.values.lookup x = (sig.find? x).map Entry.value := by
  simp only [Signature.values, Signature.find?]
  induction sig.entries with
  | nil => rfl
  | cons e es ih =>
    by_cases h : e.name = x
    · subst h
      simp
    · have h' : (x == e.name) = false := by simp [Ne.symm h]
      simp [List.lookup_cons, h, h', ih]

/-- A postulate is a name that is its own value. -/
theorem isPostulate_iff {sig : Signature} {x : String} :
    sig.isPostulate x = true ↔ ∃ e, sig.find? x = some e ∧ e.value = .free (.global x) := by
  simp only [isPostulate, value?]
  cases hx : sig.find? x with
  | none => simp
  | some e =>
    simp only [Option.map_some, Option.some.injEq, exists_eq_left']
    constructor
    · intro h
      split at h
      · rename_i y hy
        rw [Option.some.inj hy, beq_iff_eq.mp h]
        rfl
      · cases h
    · intro h
      rw [h]
      simp [Value.free]

theorem find?_replace (x : String) (value type : Value) (y : String) (entries : List Entry) :
    (entries.map fun e => if e.name == x then ⟨x, value, type⟩ else e).find? (·.name == y) =
      if x = y then if entries.any (·.name == x) then some ⟨x, value, type⟩ else none
      else entries.find? (·.name == y) := by
  induction entries with
  | nil => simp
  | cons e es ih =>
    simp only [List.map_cons, List.find?_cons, List.any_cons, ih]
    by_cases hx : e.name = x
    · subst hx
      by_cases hy : e.name = y
      · simp [hy]
      · simp [hy, beq_false_of_ne hy]
    · by_cases hy : x = y
      · subst hy
        simp [beq_false_of_ne hx]
      · simp [hx, hy]

theorem find?_define (sig : Signature) (x : String) (value type : Value) (y : String) :
    (sig.define x value type).find? y = if x = y then some ⟨x, value, type⟩ else sig.find? y := by
  simp only [define]
  split
  · rename_i hx
    simp only [find?, find?_replace, hx, if_true]
  · rename_i hx
    have hnone : sig.entries.find? (·.name == x) = none := by
      simpa using hx
    simp only [find?, List.find?_append]
    by_cases hy : x = y
    · subst hy
      simp [hnone]
    · simp [hy]

theorem mem_define {sig : Signature} {x : String} {value type : Value} {e : Entry}
    (h : e ∈ (sig.define x value type).entries) : e = ⟨x, value, type⟩ ∨ e ∈ sig.entries := by
  simp only [define] at h
  split at h
  · simp only [List.mem_map] at h
    obtain ⟨e', he', heq⟩ := h
    split at heq
    · exact .inl heq.symm
    · exact .inr (heq ▸ he')
  · simpa [or_comm] using h

theorem mem_postulateAll {T : Value} {e : Entry} : ∀ {names : List String} {sig : Signature},
    e ∈ (names.foldl (fun sig y => sig.postulate y T) sig).entries →
      (∃ x ∈ names, e = ⟨x, .free (.global x), T⟩) ∨ e ∈ sig.entries
  | [], _, h => .inr h
  | y :: names, sig, h => by
    rw [List.foldl_cons] at h
    rcases mem_postulateAll h with ⟨x, hx, he⟩ | h
    · exact .inl ⟨x, List.mem_cons_of_mem _ hx, he⟩
    · rcases mem_define h with he | h
      · exact .inl ⟨y, List.mem_cons_self, he⟩
      · exact .inr h

theorem find?_postulateAll (T : Value) {x : String} : ∀ {names : List String} {sig : Signature},
    x ∉ names → (names.foldl (fun sig y => sig.postulate y T) sig).find? x = sig.find? x
  | [], _, _ => rfl
  | y :: names, sig, hx => by
    obtain ⟨hxy, hx⟩ := List.ne_and_not_mem_of_not_mem_cons hx
    rw [List.foldl_cons, find?_postulateAll T hx, postulate, find?_define, if_neg (Ne.symm hxy)]

theorem find?_postulateAll_of_mem (T : Value) {x : String} : ∀ {names : List String}
    {sig : Signature}, x ∈ names → (names.foldl (fun sig y => sig.postulate y T) sig).find? x =
      some ⟨x, .free (.global x), T⟩
  | y :: names, sig, hx => by
    rw [List.foldl_cons]
    by_cases hmem : x ∈ names
    · exact find?_postulateAll_of_mem T hmem
    · obtain rfl : x = y := (List.mem_cons.mp hx).resolve_right hmem
      rw [find?_postulateAll T hmem, postulate, find?_define, if_pos rfl]

/-- The names after one more declaration. -/
def addName (names : List String) (x : String) : List String :=
  if x ∈ names then names else names ++ [x]

theorem names_define (sig : Signature) (x : String) (value type : Value) :
    (sig.define x value type).names = addName sig.names x := by
  have hany : sig.entries.any (·.name == x) = decide (x ∈ sig.names) := by
    rw [Bool.eq_iff_iff]
    simp [names]
  simp only [define, addName, hany, decide_eq_true_eq]
  split
  · -- The entry is replaced by one of the same name.
    simp only [names, List.map_map]
    apply List.map_congr_left
    intro e _
    simp only [Function.comp]
    split
    · rename_i he
      exact (beq_iff_eq.mp he).symm
    · rfl
  · simp [names]

theorem names_postulateAll (T : Value) : ∀ (names : List String) (sig : Signature),
    (names.foldl (fun sig y => sig.postulate y T) sig).names = names.foldl addName sig.names
  | [], _ => rfl
  | y :: names, sig => by
    rw [List.foldl_cons, List.foldl_cons, names_postulateAll T names, postulate, names_define]

end Signature

end TypeInType
