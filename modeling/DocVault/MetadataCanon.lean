import DocVault.AuditEvent
import DocVault.JsonParse
import Mathlib.Data.List.Perm.Subperm

/-!
# Canonical metadata

Two JSON values have the same canonical text exactly when they are equal up to
the order of object keys: sorting puts the keys of an object in the one order
there is, and `JSON.stringify` can be read back.
-/

namespace DocVault

/-! ## The order of keys -/

theorem lexLe_total : ∀ l m : List Nat, lexLe l m = true ∨ lexLe m l = true
  | [], _ => .inl rfl
  | _ :: _, [] => .inr rfl
  | a :: l, b :: m => by
    have h := lexLe_total l m
    simp only [lexLe, Bool.or_eq_true, Bool.and_eq_true, decide_eq_true_eq, beq_iff_eq]
    rcases Nat.lt_trichotomy a b with hab | hab | hab
    · exact .inl (.inl hab)
    · exact h.imp (fun h => .inr ⟨hab, h⟩) fun h => .inr ⟨hab.symm, h⟩
    · exact .inr (.inl hab)

theorem lexLe_trans : ∀ {l m n : List Nat}, lexLe l m = true → lexLe m n = true → lexLe l n = true
  | [], _, _, _, _ => rfl
  | _ :: _, [], _, h, _ => by cases h
  | _ :: _, _ :: _, [], _, h => by cases h
  | a :: l, b :: m, c :: n, h, h' => by
    simp only [lexLe, Bool.or_eq_true, Bool.and_eq_true, decide_eq_true_eq, beq_iff_eq] at h h' ⊢
    rcases h with hab | ⟨rfl, h⟩
    · rcases h' with hbc | ⟨rfl, -⟩
      · exact .inl (Nat.lt_trans hab hbc)
      · exact .inl hab
    · exact h'.imp id fun ⟨hac, h'⟩ => ⟨hac, lexLe_trans h h'⟩

theorem lexLe_antisymm : ∀ {l m : List Nat}, lexLe l m = true → lexLe m l = true → l = m
  | [], [], _, _ => rfl
  | [], _ :: _, _, h => by cases h
  | _ :: _, [], h, _ => by cases h
  | a :: l, b :: m, h, h' => by
    simp only [lexLe, Bool.or_eq_true, Bool.and_eq_true, decide_eq_true_eq, beq_iff_eq] at h h'
    rcases h with hab | ⟨rfl, h⟩
    · omega
    · rcases h' with hba | ⟨-, h'⟩
      · omega
      · rw [lexLe_antisymm h h']

theorem keyLe_antisymm {a b : String} (h : keyLe a b = true) (h' : keyLe b a = true) : a = b := by
  have hunits := congrArg Json.ofUtf16 (lexLe_antisymm h h')
  simp only [utf16, Json.ofUtf16_utf16] at hunits
  exact String.toList_inj.mp hunits

section
variable {α : Type}

abbrev ByKey (a b : String × α) : Prop := keyLe a.1 b.1 = true

instance : DecidableRel (@ByKey α) := fun a b => inferInstanceAs (Decidable (keyLe a.1 b.1 = true))

instance : Std.Total (@ByKey α) := ⟨fun a b => lexLe_total (utf16 a.1) (utf16 b.1)⟩

instance : IsTrans (String × α) ByKey := ⟨fun _ _ _ h h' => lexLe_trans h h'⟩

theorem sortByKey_perm (fields : List (String × α)) : (sortByKey fields).Perm fields := List.perm_insertionSort _ _

theorem sortByKey_sorted (fields : List (String × α)) : (sortByKey fields).Pairwise ByKey :=
  List.pairwise_insertionSort ByKey fields

theorem eq_of_key {fields : List (String × α)} (hn : (fields.map Prod.fst).Nodup)
    {a b : String × α} (ha : a ∈ fields)
    (hb : b ∈ fields) (h : a.1 = b.1) : a = b := List.inj_on_of_nodup_map hn ha hb h

/-- Fields with distinct keys have one order. -/
theorem sortByKey_eq {fields gs : List (String × α)} (hn : (gs.map Prod.fst).Nodup) (h : fields.Perm gs) :
    sortByKey fields = sortByKey gs := by
  refine List.Perm.eq_of_pairwise (fun a b ha hb hab hba => ?_) (sortByKey_sorted fields) (sortByKey_sorted gs)
    ((sortByKey_perm fields).trans (h.trans (sortByKey_perm gs).symm))
  have ha' : a ∈ gs := h.subset ((sortByKey_perm fields).subset ha)
  have hb' : b ∈ gs := (sortByKey_perm gs).subset hb
  exact eq_of_key hn ha' hb' (keyLe_antisymm hab hba)

theorem ownOrder_perm {fields : List (String × α)} (h : ∀ f ∈ fields, f.1 ≠ "__proto__") :
    (ownOrder fields).Perm fields := by
  have hown : fields.filter (fun f => decide (f.1 ≠ "__proto__")) = fields :=
    List.filter_eq_self.mpr fun f hf => decide_eq_true (h f hf)
  unfold ownOrder
  rw [hown]
  refine ((List.perm_insertionSort _ _).append_right _).trans ?_
  have hnone : (fun f : String × α => (arrayIndex f.1).isNone) = fun f => !(arrayIndex f.1).isSome := by
    funext f
    cases arrayIndex f.1 <;> rfl
  rw [hnone]
  exact List.filter_append_perm _ _

end

/-! ## Up to the order of keys -/

namespace Json

mutual
/-- Equal up to the order of object keys. -/
def Same : Json → Json → Prop
  | .null, .null => True
  | .bool a, .bool b => a = b
  | .num s, .num t => s = t
  | .str s, .str t => s = t
  | .arr l, .arr m => SameElems l m
  | .obj fields, .obj gs => fields.length = gs.length ∧ SameFields fields gs
  | _, _ => False
def SameElems : List Json → List Json → Prop
  | [], [] => True
  | x :: l, y :: m => Same x y ∧ SameElems l m
  | _, _ => False
def SameFields : List (String × Json) → List (String × Json) → Prop
  | [], _ => True
  | (k, v) :: fields, gs => (∃ w, (k, w) ∈ gs ∧ Same v w) ∧ SameFields fields gs
end

mutual
/-- A value of the language: every number is written as one, and the properties of an
object have distinct names, none of which is `__proto__`. -/
def WellFormed : Json → Prop
  | .num text => parseNumber text.toList = some (text, [])
  | .arr l => ElemsWellFormed l
  | .obj fields => (fields.map Prod.fst).Nodup ∧ (∀ f ∈ fields, f.1 ≠ "__proto__") ∧ FieldsWellFormed fields
  | _ => True
def ElemsWellFormed : List Json → Prop
  | [] => True
  | x :: l => x.WellFormed ∧ ElemsWellFormed l
def FieldsWellFormed : List (String × Json) → Prop
  | [] => True
  | (_, v) :: fields => v.WellFormed ∧ FieldsWellFormed fields
end

theorem fieldsWellFormed_iff {fields : List (String × Json)} :
    FieldsWellFormed fields ↔ ∀ f ∈ fields, f.2.WellFormed := by
  induction fields with
  | nil => simp [FieldsWellFormed]
  | cons f fields ih => simp [FieldsWellFormed, ih]

theorem sortMetadataFields_eq (fields : List (String × Json)) :
    sortMetadataFields fields = fields.map fun f => (f.1, sortMetadataValue f.2) := by
  induction fields with
  | nil => rfl
  | cons f fields ih => simp [sortMetadataFields, ih]

/-- The fields of the sorted object, in another order. -/
theorem sortedFields_perm {fields : List (String × Json)} (h : (Json.obj fields).WellFormed) :
    (ownOrder (sortByKey (sortMetadataFields fields))).Perm (sortMetadataFields fields) := by
  refine (ownOrder_perm fun f hf => ?_).trans (sortByKey_perm _)
  have hmem := (sortByKey_perm _).subset hf
  rw [sortMetadataFields_eq] at hmem
  obtain ⟨g, hg, rfl⟩ := List.mem_map.mp hmem
  exact h.2.1 g hg

theorem sortedKeys (fields : List (String × Json)) :
    (sortMetadataFields fields).map Prod.fst = fields.map Prod.fst := by
  rw [sortMetadataFields_eq, List.map_map]
  rfl

/-- Objects sort the same exactly when their fields do. -/
theorem sortObj_iff {fields gs : List (String × Json)} (hf : (Json.obj fields).WellFormed)
    (hg : (Json.obj gs).WellFormed) : sortMetadataValue (.obj fields) = sortMetadataValue (.obj gs) ↔
      (sortMetadataFields fields).Perm (sortMetadataFields gs) := by
  simp only [sortMetadataValue, Json.obj.injEq]
  constructor
  · intro h
    exact (sortedFields_perm hf).symm.trans (h ▸ sortedFields_perm hg)
  · intro h
    rw [sortByKey_eq ((sortedKeys gs).symm ▸ hg.1) h]

/-- Fields with distinct names are permuted exactly when each is among the others, and they are as many. -/
theorem perm_fields_iff {α : Type} {fields gs : List (String × α)} (hf : (fields.map Prod.fst).Nodup) :
    fields.Perm gs ↔ fields.length = gs.length ∧ ∀ f ∈ fields, f ∈ gs := by
  constructor
  · intro h
    exact ⟨h.length_eq, fun f hm => h.subset hm⟩
  · intro ⟨hlen, hsub⟩
    exact (List.subperm_of_subset (List.Nodup.of_map _ hf) hsub).perm_of_length_le (by omega)

theorem mem_sortMetadataFields {fields : List (String × Json)} {f : String × Json} :
    f ∈ sortMetadataFields fields ↔ ∃ w, (f.1, w) ∈ fields ∧ sortMetadataValue w = f.2 := by
  rw [sortMetadataFields_eq, List.mem_map]
  constructor
  · rintro ⟨g, hg, rfl⟩
    exact ⟨g.2, hg, rfl⟩
  · rintro ⟨w, hw, hf⟩
    exact ⟨(f.1, w), hw, Prod.ext rfl hf⟩

mutual
/-- Sorting makes equal what is the same. -/
theorem sort_eq_iff : ∀ v w : Json, v.WellFormed → w.WellFormed →
    (sortMetadataValue v = sortMetadataValue w ↔ Same v w)
  | .null, w, _, _ => by cases w <;> simp [sortMetadataValue, Same]
  | .bool _, w, _, _ => by cases w <;> simp [sortMetadataValue, Same]
  | .num _, w, _, _ => by cases w <;> simp [sortMetadataValue, Same]
  | .str _, w, _, _ => by cases w <;> simp [sortMetadataValue, Same]
  | .arr l, w, hv, hw => by
    cases w with
    | arr m => simpa [sortMetadataValue, Same] using sortElems_eq_iff l m hv hw
    | _ => simp [sortMetadataValue, Same]
  | .obj fields, w, hv, hw => by
    cases w with
    | obj gs =>
      have hlen : (sortMetadataFields fields).length = (sortMetadataFields gs).length ↔
        fields.length = gs.length := by
        simp [sortMetadataFields_eq]
      rw [sortObj_iff hv hw, perm_fields_iff ((sortedKeys fields).symm ▸ hv.1), hlen, Same]
      exact and_congr_right fun _ => sortFields_mem_iff fields gs hv.2.2 (fieldsWellFormed_iff.mp hw.2.2)
    | _ => simp [sortMetadataValue, Same]
theorem sortElems_eq_iff : ∀ l m : List Json, ElemsWellFormed l → ElemsWellFormed m →
    (sortMetadataElems l = sortMetadataElems m ↔ SameElems l m)
  | [], m, _, _ => by cases m <;> simp [sortMetadataElems, SameElems]
  | x :: l, m, hl, hm => by
    cases m with
    | nil => simp [sortMetadataElems, SameElems]
    | cons y m => simp [sortMetadataElems, SameElems, sort_eq_iff x y hl.1 hm.1, sortElems_eq_iff l m hl.2 hm.2]
theorem sortFields_mem_iff : ∀ fields gs : List (String × Json), FieldsWellFormed fields →
    (∀ g ∈ gs, g.2.WellFormed) →
    ((∀ f ∈ sortMetadataFields fields, f ∈ sortMetadataFields gs) ↔ SameFields fields gs)
  | [], _, _, _ => by simp [sortMetadataFields, SameFields]
  | (k, v) :: fields, gs, hf, hg => by
    rw [sortMetadataFields, List.forall_mem_cons, SameFields, sortFields_mem_iff fields gs hf.2 hg,
      mem_sortMetadataFields]
    refine and_congr_left fun _ => exists_congr fun w => and_congr_right fun hw => ?_
    rw [← sort_eq_iff v w hf.1 (hg (k, w) hw)]
    exact eq_comm
end

/-! ## The text -/

theorem writtenFields_iff {fields : List (String × Json)} : WrittenFields fields ↔ ∀ f ∈ fields, f.2.Written := by
  induction fields with
  | nil => simp [WrittenFields]
  | cons f fields ih => simp [WrittenFields, ih]

mutual
theorem written_sort : ∀ v : Json, v.WellFormed → (sortMetadataValue v).Written
  | .null, _ => trivial
  | .bool _, _ => trivial
  | .num _, h => h
  | .str _, _ => trivial
  | .arr l, h => writtenElems_sort l h
  | .obj fields, h => writtenFields_iff.mpr fun f hf =>
    writtenFields_iff.mp (writtenFields_sort fields h.2.2) f ((sortedFields_perm h).subset hf)
theorem writtenElems_sort : ∀ l : List Json, ElemsWellFormed l → WrittenElems (sortMetadataElems l)
  | [], _ => trivial
  | x :: l, h => ⟨written_sort x h.1, writtenElems_sort l h.2⟩
theorem writtenFields_sort : ∀ fields : List (String × Json), FieldsWellFormed fields →
    WrittenFields (sortMetadataFields fields)
  | [], _ => trivial
  | (_, v) :: fields, h => ⟨written_sort v h.1, writtenFields_sort fields h.2⟩
end

end Json

end DocVault
