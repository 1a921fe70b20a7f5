import DocVault.AuditQuery
import DocVault.FormUrlEncoded

/-!
# Audit filters in URLs

The filters of the web client's audit page, written into the query of a link
and read back from it. Every field comes back but a list with a comma in one of
its texts.
-/

namespace DocVault

open FormUrlEncoded (Params)

inductive AuditResult where
  | SUCCESS
  | DENY
  | ERROR
  | CONFLICT
  deriving DecidableEq

def AuditResult.text : AuditResult → String
  | SUCCESS => "SUCCESS"
  | DENY => "DENY"
  | ERROR => "ERROR"
  | CONFLICT => "CONFLICT"

def AuditActionGroup.text : AuditActionGroup → String
  | AUTHORIZED_CONTENT_ACCESS => "AUTHORIZED_CONTENT_ACCESS"
  | DESTRUCTIVE_ACTIVITY => "DESTRUCTIVE_ACTIVITY"

def AUDIT_RESULTS : List AuditResult := [.SUCCESS, .DENY, .ERROR, .CONFLICT]

def AUDIT_ACTION_GROUPS : List AuditActionGroup := [.AUTHORIZED_CONTENT_ACCESS, .DESTRUCTIVE_ACTIVITY]

@[ext] structure AuditQueryFilters where
  actorId : Option String := none
  actorIds : Option (List String) := none
  action : Option String := none
  actions : Option (List String) := none
  actionGroup : Option AuditActionGroup := none
  result : Option AuditResult := none
  resourceId : Option String := none
  resourceType : Option String := none
  documentId : Option String := none
  documentIds : Option (List String) := none
  aclId : Option String := none
  recommendationId : Option String := none
  recommendationIds : Option (List String) := none
  classifications : Option (List String) := none
  from_ : Option String := none
  to_ : Option String := none
  targetId : Option String := none
  targetType : Option String := none
  excludeActions : Option (List String) := none

/-! ## buildAuditFilterQuery -/

def setParam (key : String) (value : Option String) (params : Params) : Params :=
  match value with
  | some v => FormUrlEncoded.set key v params
  | none => params

def toCommaList (values : Option (List String)) : Option String := (values.filter (· ≠ [])).map (join ",")

def buildAuditFilterParams (filters : AuditQueryFilters) : Params :=
  let params := setParam "result" (filters.result.map (·.text)) []
  let params := setParam "action" (truthy filters.action) params
  let params := setParam "actions" (toCommaList filters.actions) params
  let params := setParam "actionGroup" (filters.actionGroup.map (·.text)) params
  let params := setParam "actorId" (truthy filters.actorId) params
  let params := setParam "actorIds" (toCommaList filters.actorIds) params
  let params := setParam "resourceType" (truthy filters.resourceType) params
  let params := setParam "resourceId" (truthy filters.resourceId) params
  let params := setParam "documentId" (truthy filters.documentId) params
  let params := setParam "documentIds" (toCommaList filters.documentIds) params
  let params := setParam "aclId" (truthy filters.aclId) params
  let params := setParam "recommendationId" (truthy filters.recommendationId) params
  let params := setParam "recommendationIds" (toCommaList filters.recommendationIds) params
  let params := setParam "classifications" (toCommaList filters.classifications) params
  let params := setParam "from" (truthy filters.from_) params
  setParam "to" (truthy filters.to_) params

def buildAuditFilterQuery (filters : AuditQueryFilters) : String :=
  FormUrlEncoded.serialize (buildAuditFilterParams filters)

/-! ## parseAuditFilterQuery -/

def isAuditResult (value : String) : Option AuditResult := AUDIT_RESULTS.find? (·.text = value)

def isAuditActionGroup (value : String) : Option AuditActionGroup := AUDIT_ACTION_GROUPS.find? (·.text = value)

def splitComma (value : String) : List String := (value.toList.splitOn ',').map String.ofList

def listItems (value : String) : List String := ((splitComma value).map trim).filter (· ≠ "")

def readList (value : Option String) : Option (List String) := ((truthy value).map listItems).filter (· ≠ [])

def parseAuditFilterParams (params : Params) : AuditQueryFilters where
  result := (FormUrlEncoded.get "result" params).bind isAuditResult
  action := truthy (FormUrlEncoded.get "action" params)
  actionGroup := (FormUrlEncoded.get "actionGroup" params).bind isAuditActionGroup
  actorId := truthy (FormUrlEncoded.get "actorId" params)
  resourceType := truthy (FormUrlEncoded.get "resourceType" params)
  resourceId := truthy (FormUrlEncoded.get "resourceId" params)
  documentId := truthy (FormUrlEncoded.get "documentId" params)
  aclId := truthy (FormUrlEncoded.get "aclId" params)
  recommendationId := truthy (FormUrlEncoded.get "recommendationId" params)
  actions := readList (FormUrlEncoded.get "actions" params)
  actorIds := readList (FormUrlEncoded.get "actorIds" params)
  classifications := readList (FormUrlEncoded.get "classifications" params)
  documentIds := readList (FormUrlEncoded.get "documentIds" params)
  recommendationIds := readList (FormUrlEncoded.get "recommendationIds" params)
  from_ := truthy (FormUrlEncoded.get "from" params)
  to_ := truthy (FormUrlEncoded.get "to" params)

def parseAuditFilterQuery (search : String) : AuditQueryFilters :=
  parseAuditFilterParams (FormUrlEncoded.parse search)

/-! ## Filters that links carry -/

namespace AuditQueryFilters

def lists (filters : AuditQueryFilters) : List (List String) :=
  filters.actions.toList ++ filters.actorIds.toList ++ filters.documentIds.toList ++
    filters.recommendationIds.toList ++ filters.classifications.toList

def texts (filters : AuditQueryFilters) : List String :=
  filters.action.toList ++ filters.actorId.toList ++ filters.resourceType.toList ++ filters.resourceId.toList ++
    filters.documentId.toList ++ filters.aclId.toList ++ filters.recommendationId.toList ++ filters.from_.toList ++
    filters.to_.toList ++ filters.lists.flatten

/-- Texts are not blank, lists not empty, and the fields of other pages are not set. -/
structure Linkable (filters : AuditQueryFilters) : Prop where
  texts : ∀ v ∈ filters.texts, v ≠ "" ∧ trim v = v
  lists : ∀ l ∈ filters.lists, l ≠ []
  targetId : filters.targetId = none
  targetType : filters.targetType = none
  excludeActions : filters.excludeActions = none

end AuditQueryFilters

/-! ## The round trip -/

theorem get_setParam (key k : String) (value : Option String) (params : Params) :
    FormUrlEncoded.get k (setParam key value params) =
      if k = key then value.or (FormUrlEncoded.get k params) else FormUrlEncoded.get k params := by
  cases value with
  | none => simp [setParam]
  | some v => simp [setParam, FormUrlEncoded.get_set]

theorem parse_build_params (filters : AuditQueryFilters) :
    parseAuditFilterParams (buildAuditFilterParams filters) =
      { filters with
        result := (filters.result.map (·.text)).bind isAuditResult
        actionGroup := (filters.actionGroup.map (·.text)).bind isAuditActionGroup
        action := truthy (truthy filters.action)
        actorId := truthy (truthy filters.actorId)
        resourceType := truthy (truthy filters.resourceType)
        resourceId := truthy (truthy filters.resourceId)
        documentId := truthy (truthy filters.documentId)
        aclId := truthy (truthy filters.aclId)
        recommendationId := truthy (truthy filters.recommendationId)
        actions := readList (toCommaList filters.actions)
        actorIds := readList (toCommaList filters.actorIds)
        classifications := readList (toCommaList filters.classifications)
        documentIds := readList (toCommaList filters.documentIds)
        recommendationIds := readList (toCommaList filters.recommendationIds)
        from_ := truthy (truthy filters.from_)
        to_ := truthy (truthy filters.to_)
        targetId := none
        targetType := none
        excludeActions := none } := by
  simp [parseAuditFilterParams, buildAuditFilterParams, get_setParam]

@[simp] theorem isAuditResult_text (result : Option AuditResult) :
    (result.map (·.text)).bind isAuditResult = result := by
  cases result with
  | none => rfl
  | some r => cases r <;> decide

@[simp] theorem isAuditActionGroup_text (group : Option AuditActionGroup) :
    (group.map (·.text)).bind isAuditActionGroup = group := by
  cases group with
  | none => rfl
  | some g => cases g <;> decide

theorem truthy_eq {value : Option String} (h : ∀ v, value = some v → v ≠ "") : truthy value = value := by
  cases value with
  | none => rfl
  | some v => simp [truthy, h v rfl]

theorem not_mem_splitOn {c : Char} {cs p : List Char} (h : p ∈ cs.splitOn c) : c ∉ p := by
  induction cs generalizing p with
  | nil => simp_all
  | cons x cs ih =>
    rw [List.splitOn_cons_eq_if_modifyHead] at h
    by_cases hx : x = c
    · simp only [hx, beq_self_eq_true, if_true, List.mem_cons] at h
      rcases h with rfl | h
      · exact List.not_mem_nil
      · exact ih h
    · simp only [beq_iff_eq, hx, if_false] at h
      cases hsplit : cs.splitOn c with
      | nil => simp [hsplit] at h
      | cons q qs =>
        rw [hsplit] at h ih
        rcases List.mem_cons.mp h with rfl | h
        · intro hc
          rcases List.mem_cons.mp hc with rfl | hc
          · exact hx rfl
          · exact ih List.mem_cons_self hc
        · exact ih (List.mem_cons_of_mem _ h)

theorem mem_trim {c : Char} {s : String} (h : c ∈ (trim s).toList) : c ∈ s.toList := by
  rw [trim, String.toList_ofList, List.mem_reverse] at h
  exact (List.dropWhile_sublist _).mem (List.mem_reverse.mp ((List.dropWhile_sublist _).mem h))

/-- No item of a list that is read holds a comma. -/
theorem listItems_free {value item : String} (h : item ∈ listItems value) : ',' ∉ item.toList := by
  obtain ⟨piece, hpiece, rfl⟩ := List.mem_map.mp (List.mem_filter.mp h).1
  obtain ⟨cs, hcs, rfl⟩ := List.mem_map.mp hpiece
  intro hc
  have hmem := mem_trim hc
  rw [String.toList_ofList] at hmem
  exact not_mem_splitOn hcs hmem

theorem listItems_join {l : List String} (hne : l ≠ []) (htexts : ∀ v ∈ l, v ≠ "" ∧ trim v = v)
    (hfree : ∀ v ∈ l, ',' ∉ v.toList) : listItems (join "," l) = l := by
  have hsplit : splitComma (join "," l) = l := by
    have hpieces : ∀ cs ∈ l.map String.toList, ',' ∉ cs := fun cs hcs => by
      obtain ⟨v, hv, rfl⟩ := List.mem_map.mp hcs
      exact hfree v hv
    have hcomma : ",".toList = [','] := by decide
    rw [splitComma, join, String.toList_intercalate, hcomma,
      List.splitOn_intercalate ',' hpieces (by simpa using hne), List.map_map]
    exact (List.map_congr_left fun v _ => String.ofList_toList).trans (List.map_id l)
  have htrim : l.map trim = l := List.map_congr_left (fun v hv => (htexts v hv).2) |>.trans (List.map_id l)
  rw [listItems, hsplit, htrim]
  exact List.filter_eq_self.mpr fun v hv => by simpa using (htexts v hv).1

theorem join_ne_empty {l : List String} (hne : l ≠ []) (htexts : ∀ v ∈ l, v ≠ "") : join "," l ≠ "" := by
  intro hblank
  have hcomma : ",".toList = [','] := by decide
  have hchars : [','].intercalate (l.map String.toList) = [] := by
    rw [← hcomma, ← String.toList_intercalate, ← join, hblank]
    rfl
  cases l with
  | nil => exact hne rfl
  | cons v l =>
    cases l with
    | nil => exact htexts v List.mem_cons_self (String.toList_inj.mp (by simpa using hchars))
    | cons w l => simp [List.intercalate_cons_cons] at hchars

/-- A list comes back from a link exactly when no text of it holds a comma. -/
theorem readList_iff {l : List String} (hne : l ≠ []) (htexts : ∀ v ∈ l, v ≠ "" ∧ trim v = v) :
    readList (toCommaList (some l)) = some l ↔ ∀ v ∈ l, ',' ∉ v.toList := by
  have hjoin : truthy (some (join "," l)) = some (join "," l) :=
    truthy_eq fun v hv => Option.some.inj hv ▸ join_ne_empty hne fun v hv => (htexts v hv).1
  have hlist : toCommaList (some l) = some (join "," l) := by
    rw [toCommaList, Option.filter_some, if_pos (by simpa using hne)]
    rfl
  rw [readList, hlist, hjoin, Option.map_some]
  constructor
  · intro h v hv
    have hitems := Option.some.inj (Option.filter_eq_some_iff.mp h).1
    exact listItems_free (hitems.symm ▸ hv)
  · intro h
    rw [listItems_join hne htexts h]
    simp [hne]

namespace AuditQueryFilters.Linkable

variable {filters : AuditQueryFilters} (h : filters.Linkable)
include h

theorem truthy {value : Option String} (hmem : ∀ v, value = some v → v ∈ filters.texts) : truthy value = value :=
  truthy_eq fun v hv => (h.texts v (hmem v hv)).1

theorem readList (values : Option (List String)) (hmem : ∀ l, values = some l → l ∈ filters.lists) :
    readList (toCommaList values) = values ↔ ∀ l, values = some l → ∀ v ∈ l, ',' ∉ v.toList := by
  cases values with
  | none => simp [DocVault.readList, toCommaList, DocVault.truthy]
  | some l =>
    have hl := hmem l rfl
    have htexts : ∀ v ∈ l, v ≠ "" ∧ trim v = v := fun v hv =>
      h.texts v (List.mem_append_right _ (List.mem_flatten.mpr ⟨l, hl, hv⟩))
    simp [readList_iff (h.lists l hl) htexts]

theorem truthy_texts : DocVault.truthy filters.action = filters.action ∧
    DocVault.truthy filters.actorId = filters.actorId ∧
    DocVault.truthy filters.resourceType = filters.resourceType ∧
    DocVault.truthy filters.resourceId = filters.resourceId ∧
    DocVault.truthy filters.documentId = filters.documentId ∧ DocVault.truthy filters.aclId = filters.aclId ∧
    DocVault.truthy filters.recommendationId = filters.recommendationId ∧
    DocVault.truthy filters.from_ = filters.from_ ∧ DocVault.truthy filters.to_ = filters.to_ := by
  refine ⟨h.truthy ?_, h.truthy ?_, h.truthy ?_, h.truthy ?_, h.truthy ?_, h.truthy ?_, h.truthy ?_, h.truthy ?_,
    h.truthy ?_⟩ <;>
  · intro v hv
    simp [AuditQueryFilters.texts, hv]

/-- Filters come back from a link exactly when no text of their lists holds a comma. -/
theorem parse_build_iff : parseAuditFilterQuery (buildAuditFilterQuery filters) = filters ↔
    ∀ l ∈ filters.lists, ∀ v ∈ l, ',' ∉ v.toList := by
  obtain ⟨haction, hactor, htype, hid, hdocument, hacl, hrecommendation, hfrom, hto⟩ := h.truthy_texts
  have hactions := h.readList filters.actions fun l hl => by simp [AuditQueryFilters.lists, hl]
  have hactors := h.readList filters.actorIds fun l hl => by simp [AuditQueryFilters.lists, hl]
  have hdocuments := h.readList filters.documentIds fun l hl => by simp [AuditQueryFilters.lists, hl]
  have hrecommendations := h.readList filters.recommendationIds fun l hl => by simp [AuditQueryFilters.lists, hl]
  have hclassifications := h.readList filters.classifications fun l hl => by simp [AuditQueryFilters.lists, hl]
  rw [parseAuditFilterQuery, buildAuditFilterQuery, FormUrlEncoded.parse_serialize, parse_build_params,
    AuditQueryFilters.ext_iff]
  simp only [haction, hactor, htype, hid, hdocument, hacl, hrecommendation, hfrom, hto, isAuditResult_text,
    isAuditActionGroup_text, hactions, hactors, hdocuments, hrecommendations, hclassifications,
      h.targetId, h.targetType,
    h.excludeActions, true_and, and_true]
  simp only [AuditQueryFilters.lists, List.forall_mem_append, Option.mem_toList]
  constructor
  · intro ⟨h1, h2, h3, h4, h5⟩
    exact ⟨⟨⟨⟨h2, h1⟩, h3⟩, h4⟩, h5⟩
  · intro ⟨⟨⟨⟨h2, h1⟩, h3⟩, h4⟩, h5⟩
    exact ⟨h1, h2, h3, h4, h5⟩

end AuditQueryFilters.Linkable

end DocVault
