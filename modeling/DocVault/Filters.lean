/-!
# Filters over documents

Filters of a document database: tests on the values that a path of a document
reaches, joined by conjunctions and disjunctions. A filter is an object, whose
keys are set one after another and whose `$and` and `$or` are keys too.
-/

namespace Filters

inductive Test (V : Type) where
  | eq (v : V)
  | among (vs : List V)
  | notAmong (vs : List V)
  | range (gte lte : Option V)

inductive DocFilter (V : Type) where
  | mk (fields : List (String × Test V)) (and or : Option (List (DocFilter V)))

/-- A document, as the values that each path of it reaches. -/
abbrev Doc (V : Type) := String → List V

section
variable {V : Type} [DecidableEq V] (le : V → V → Bool)

-- A path into an array reaches its elements, so a test looks for one value that meets it.
def Test.accepts : Test V → List V → Bool
  | eq v, values => v ∈ values
  | among vs, values => values.any fun v => v ∈ vs
  | notAmong vs, values => !values.any fun v => v ∈ vs
  | range gte lte, values =>
      gte.all (fun a => values.any fun v => le a v) && lte.all fun b => values.any fun v => le v b

mutual
def DocFilter.accepts (doc : Doc V) : DocFilter V → Bool
  | .mk fields and or => fields.all (fun f => f.2.accepts le (doc f.1)) && allAccept doc and && anyAccepts doc or
def allAccept (doc : Doc V) : Option (List (DocFilter V)) → Bool
  | none => true
  | some fs => everyAccepts doc fs
def anyAccepts (doc : Doc V) : Option (List (DocFilter V)) → Bool
  | none => true
  | some fs => someAccepts doc fs
def everyAccepts (doc : Doc V) : List (DocFilter V) → Bool
  | [] => true
  | f :: fs => f.accepts doc && everyAccepts doc fs
def someAccepts (doc : Doc V) : List (DocFilter V) → Bool
  | [] => false
  | f :: fs => f.accepts doc || someAccepts doc fs
end

namespace DocFilter

def empty : DocFilter V := .mk [] none none

def field (key : String) (test : Test V) : DocFilter V := .mk [(key, test)] none none

def fields (tests : List (String × Test V)) : DocFilter V := .mk tests none none

def either (fs : List (DocFilter V)) : DocFilter V := .mk [] none (some fs)

def keys : DocFilter V → List String
  | .mk fields _ _ => fields.map Prod.fst

def isEmpty : DocFilter V → Bool
  | .mk [] none none => true
  | _ => false

/-- `filter[key] = test` -/
def set (key : String) (test : Test V) : DocFilter V → DocFilter V
  | .mk fields and or =>
    .mk (if fields.any (·.1 = key) then fields.map fun f => if f.1 = key then (key, test) else f
      else fields ++ [(key, test)]) and or

end DocFilter

variable {le} {doc : Doc V}

theorem everyAccepts_iff (fs : List (DocFilter V)) :
    everyAccepts le doc fs = true ↔ ∀ f ∈ fs, f.accepts le doc = true := by
  induction fs with
  | nil => simp [everyAccepts]
  | cons f fs ih => simp [everyAccepts, ih]

theorem someAccepts_iff (fs : List (DocFilter V)) : someAccepts le doc fs = true ↔
    ∃ f ∈ fs, f.accepts le doc = true := by
  induction fs with
  | nil => simp [someAccepts]
  | cons f fs ih => simp [someAccepts, ih]

theorem accepts_mk (fields : List (String × Test V)) (and or : Option (List (DocFilter V))) :
    (DocFilter.mk fields and or).accepts le doc = true ↔ (∀ f ∈ fields, f.2.accepts le (doc f.1) = true) ∧
      (∀ fs, and = some fs → ∀ f ∈ fs, f.accepts le doc = true) ∧
        ∀ fs, or = some fs → ∃ f ∈ fs, f.accepts le doc = true := by
  rw [DocFilter.accepts, Bool.and_eq_true, Bool.and_eq_true, List.all_eq_true, and_assoc]
  refine and_congr Iff.rfl (and_congr ?_ ?_)
  · cases and with
    | none => simp [allAccept]
    | some fs => simp [allAccept, everyAccepts_iff]
  · cases or with
    | none => simp [anyAccepts]
    | some fs => simp [anyAccepts, someAccepts_iff]

@[simp] theorem accepts_empty : (DocFilter.empty : DocFilter V).accepts le doc = true := by
  simp [DocFilter.empty, accepts_mk]

@[simp] theorem accepts_field (key : String) (test : Test V) :
    (DocFilter.field key test).accepts le doc = test.accepts le (doc key) := by
  rw [Bool.eq_iff_iff]
  simp [DocFilter.field, accepts_mk]

@[simp] theorem accepts_fields (tests : List (String × Test V)) :
    (DocFilter.fields tests).accepts le doc = tests.all fun f => f.2.accepts le (doc f.1) := by
  rw [Bool.eq_iff_iff]
  simp [DocFilter.fields, accepts_mk]

@[simp] theorem accepts_either (fs : List (DocFilter V)) :
    (DocFilter.either fs).accepts le doc = true ↔ ∃ f ∈ fs, f.accepts le doc = true := by
  simp [DocFilter.either, accepts_mk]

/-- Setting a key that the filter does not have yet adds its test. -/
theorem accepts_set {f : DocFilter V} {key : String} (h : key ∉ f.keys) (test : Test V) :
    (f.set key test).accepts le doc = true ↔ f.accepts le doc = true ∧ test.accepts le (doc key) = true := by
  obtain ⟨fields, and, or⟩ := f
  have hnew : ¬ fields.any (fun f => decide (f.1 = key)) = true := by
    intro hany
    obtain ⟨f, hf, hk⟩ := List.any_eq_true.mp hany
    exact h (List.mem_map.mpr ⟨f, hf, of_decide_eq_true hk⟩)
  rw [DocFilter.set, if_neg hnew, accepts_mk, accepts_mk]
  simp only [List.forall_mem_append, List.forall_mem_singleton]
  constructor
  · intro ⟨⟨hf, ht⟩, hrest⟩
    exact ⟨⟨hf, hrest⟩, ht⟩
  · intro ⟨⟨hf, hrest⟩, ht⟩
    exact ⟨⟨hf, ht⟩, hrest⟩

omit [DecidableEq V] in
theorem keys_set {f : DocFilter V} {key k : String} {test : Test V} (h : k ∈ (f.set key test).keys) :
    k = key ∨ k ∈ f.keys := by
  obtain ⟨fields, and, or⟩ := f
  simp only [DocFilter.set, DocFilter.keys] at h ⊢
  split at h
  · obtain ⟨f, hf, rfl⟩ := List.mem_map.mp h
    obtain ⟨g, hg, rfl⟩ := List.mem_map.mp hf
    by_cases hk : g.1 = key
    · simp [hk]
    · rw [if_neg hk]
      exact .inr (List.mem_map_of_mem hg)
  · simp only [List.map_append, List.mem_append, List.map_cons, List.map_nil, List.mem_singleton] at h
    exact h.symm

end

end Filters
