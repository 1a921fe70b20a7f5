import DocVault.MetadataCanon

/-!
# Metadata in the store

The store drops properties whose value is an empty object, at every depth of a
value. The canonical text that the writer hashes survives that exactly when
there are none: `canonicalMetadata` knows of empty metadata only.
-/

namespace DocVault

namespace Json

-- What is left of an object decides whether it is empty, so the fields are stored before that is asked.
mutual
/-- The value as the store returns it. -/
def stored : Json → Json
  | .arr l => .arr (storedElems l)
  | .obj fields => .obj (storedFields fields)
  | .null => .null
  | .bool b => .bool b
  | .num text => .num text
  | .str s => .str s
def storedElems : List Json → List Json
  | [] => []
  | x :: l => stored x :: storedElems l
def storedFields : List (String × Json) → List (String × Json)
  | [] => []
  | (k, v) :: fields =>
    match stored v with
    | .obj [] => storedFields fields
    | w => (k, w) :: storedFields fields
end

mutual
/-- No property of an object in the value is an empty object. -/
def NoEmpties : Json → Prop
  | .arr l => ElemsNoEmpties l
  | .obj fields => FieldsNoEmpties fields
  | _ => True
def ElemsNoEmpties : List Json → Prop
  | [] => True
  | x :: l => x.NoEmpties ∧ ElemsNoEmpties l
def FieldsNoEmpties : List (String × Json) → Prop
  | [] => True
  | (_, v) :: fields => v ≠ .obj [] ∧ v.NoEmpties ∧ FieldsNoEmpties fields
end

/-! ## What storage keeps -/

theorem storedFields_cons_empty {k : String} {v : Json} {fields : List (String × Json)} (h : stored v = .obj []) :
    storedFields ((k, v) :: fields) = storedFields fields := by
  rw [storedFields, h]

theorem storedFields_cons {k : String} {v : Json} {fields : List (String × Json)} (h : stored v ≠ .obj []) :
    storedFields ((k, v) :: fields) = (k, stored v) :: storedFields fields := by
  rw [storedFields]
  split
  · rename_i hv
    exact absurd hv h
  · rfl

theorem stored_empty_or (v : Json) : stored v = .obj [] ∨ stored v ≠ .obj [] := Classical.em _

theorem mem_storedFields {fields : List (String × Json)} {f : String × Json} (h : f ∈ storedFields fields) :
    ∃ v, (f.1, v) ∈ fields ∧ stored v = f.2 := by
  induction fields with
  | nil => cases h
  | cons g fields ih =>
    obtain ⟨k, v⟩ := g
    have hrest : f ∈ storedFields fields → ∃ v', (f.1, v') ∈ (k, v) :: fields ∧ stored v' = f.2 := fun hf => by
      obtain ⟨v', hv', hs⟩ := ih hf
      exact ⟨v', List.mem_cons_of_mem _ hv', hs⟩
    rcases stored_empty_or v with he | he
    · rw [storedFields_cons_empty he] at h
      exact hrest h
    · rw [storedFields_cons he] at h
      rcases List.mem_cons.mp h with rfl | h
      · exact ⟨v, List.mem_cons_self, rfl⟩
      · exact hrest h

theorem storedKeys (fields : List (String × Json)) :
    ((storedFields fields).map Prod.fst).Sublist (fields.map Prod.fst) := by
  induction fields with
  | nil => exact .slnil
  | cons g fields ih =>
    obtain ⟨k, v⟩ := g
    rcases stored_empty_or v with he | he
    · rw [storedFields_cons_empty he]
      exact ih.cons k
    · rw [storedFields_cons he]
      exact ih.cons_cons k

mutual
theorem wellFormed_stored : ∀ v : Json, v.WellFormed → (stored v).WellFormed
  | .null, _ => trivial
  | .bool _, _ => trivial
  | .num _, h => h
  | .str _, _ => trivial
  | .arr l, h => elemsWellFormed_stored l h
  | .obj fields, h => by
    refine ⟨(storedKeys fields).nodup h.1, fun f hf => ?_, fieldsWellFormed_stored fields h.2.2⟩
    obtain ⟨v, hv, -⟩ := mem_storedFields hf
    exact h.2.1 (f.1, v) hv
theorem elemsWellFormed_stored : ∀ l : List Json, ElemsWellFormed l → ElemsWellFormed (storedElems l)
  | [], _ => trivial
  | x :: l, h => ⟨wellFormed_stored x h.1, elemsWellFormed_stored l h.2⟩
theorem fieldsWellFormed_stored : ∀ fields : List (String × Json), FieldsWellFormed fields →
    FieldsWellFormed (storedFields fields)
  | [], _ => trivial
  | (k, v) :: fields, h => by
    rcases stored_empty_or v with he | he
    · rw [storedFields_cons_empty he]
      exact fieldsWellFormed_stored fields h.2
    · rw [storedFields_cons he]
      exact ⟨wellFormed_stored v h.1, fieldsWellFormed_stored fields h.2⟩
end

mutual
theorem stored_eq : ∀ v : Json, v.NoEmpties → stored v = v
  | .null, _ => rfl
  | .bool _, _ => rfl
  | .num _, _ => rfl
  | .str _, _ => rfl
  | .arr l, h => congrArg Json.arr (storedElems_eq l h)
  | .obj fields, h => congrArg Json.obj (storedFields_eq fields h)
theorem storedElems_eq : ∀ l : List Json, ElemsNoEmpties l → storedElems l = l
  | [], _ => rfl
  | x :: l, h => by rw [storedElems, stored_eq x h.1, storedElems_eq l h.2]
theorem storedFields_eq : ∀ fields : List (String × Json), FieldsNoEmpties fields → storedFields fields = fields
  | [], _ => rfl
  | (k, v) :: fields, h => by
    have hv := stored_eq v h.2.1
    rw [storedFields_cons (by rw [hv]; exact h.1), hv, storedFields_eq fields h.2.2]
end

theorem storedFields_length (fields : List (String × Json)) : (storedFields fields).length ≤ fields.length := by
  simpa using (storedKeys fields).length_le

theorem stored_ne_of_length {fields : List (String × Json)} (h : (storedFields fields).length = fields.length) :
    ∀ f ∈ fields, stored f.2 ≠ .obj [] ∧ (f.1, stored f.2) ∈ storedFields fields := by
  induction fields with
  | nil => simp
  | cons g fields ih =>
    obtain ⟨k, v⟩ := g
    rcases stored_empty_or v with he | he
    · rw [storedFields_cons_empty he, List.length_cons] at h
      have hle := storedFields_length fields
      omega
    · rw [storedFields_cons he, List.length_cons, List.length_cons] at h
      intro f hf
      rw [storedFields_cons he]
      rcases List.mem_cons.mp hf with rfl | hf
      · exact ⟨he, List.mem_cons_self⟩
      · obtain ⟨hne, hmem⟩ := ih (Nat.succ.inj h) f hf
        exact ⟨hne, List.mem_cons_of_mem _ hmem⟩

/-- What an object that sorts the same as its stored form has kept of each field. -/
theorem field_kept {fields : List (String × Json)} (h : (Json.obj fields).WellFormed)
    (hs : sortMetadataValue (.obj (storedFields fields)) = sortMetadataValue (.obj fields)) :
    ∀ f ∈ fields, stored f.2 ≠ .obj [] ∧ sortMetadataValue (stored f.2) = sortMetadataValue f.2 := by
  have hperm := (sortObj_iff (wellFormed_stored (.obj fields) h) h).mp hs
  have hlen : (storedFields fields).length = fields.length := by simpa [sortMetadataFields_eq] using hperm.length_eq
  intro f hf
  obtain ⟨hne, hmem⟩ := stored_ne_of_length hlen f hf
  have hsorted : (f.1, sortMetadataValue (stored f.2)) ∈ sortMetadataFields fields :=
    hperm.subset (mem_sortMetadataFields.mpr ⟨stored f.2, hmem, rfl⟩)
  obtain ⟨w, hw, heq⟩ := mem_sortMetadataFields.mp hsorted
  have hwf : w = f.2 := congrArg Prod.snd (eq_of_key h.1 hw hf rfl)
  exact ⟨hne, hwf ▸ heq.symm⟩

mutual
theorem noEmpties_of_sort : ∀ v : Json, v.WellFormed →
    sortMetadataValue (stored v) = sortMetadataValue v → v.NoEmpties
  | .null, _, _ => trivial
  | .bool _, _, _ => trivial
  | .num _, _, _ => trivial
  | .str _, _, _ => trivial
  | .arr l, h, hs => elemsNoEmpties_of_sort l h (Json.arr.inj hs)
  | .obj fields, h, hs => fieldsNoEmpties_of_sort fields h.2.2 (field_kept h hs)
theorem elemsNoEmpties_of_sort : ∀ l : List Json, ElemsWellFormed l →
    sortMetadataElems (storedElems l) = sortMetadataElems l → ElemsNoEmpties l
  | [], _, _ => trivial
  | x :: l, h, hs =>
      ⟨noEmpties_of_sort x h.1 (List.cons.inj hs).1, elemsNoEmpties_of_sort l h.2 (List.cons.inj hs).2⟩
theorem fieldsNoEmpties_of_sort : ∀ fields : List (String × Json), FieldsWellFormed fields →
    (∀ f ∈ fields, stored f.2 ≠ .obj [] ∧ sortMetadataValue (stored f.2) = sortMetadataValue f.2) →
      FieldsNoEmpties fields
  | [], _, _ => trivial
  | (k, v) :: fields, h, hs => by
    obtain ⟨hne, heq⟩ := hs (k, v) List.mem_cons_self
    refine ⟨fun he => hne ?_, noEmpties_of_sort v h.1 heq,
      fieldsNoEmpties_of_sort fields h.2 fun f hf => hs f (List.mem_cons_of_mem _ hf)⟩
    subst he
    rfl
end

end Json

end DocVault
