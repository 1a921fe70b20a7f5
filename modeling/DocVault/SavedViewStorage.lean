import DocVault.SavedViewLabels
import DocVault.SearchAgreement

/-!
# Saved views in storage

Which lists of saved views survive being written and read back, and which
entries of a stored array stand in the way of the others.
-/

namespace DocVault.SavedViews

open Search Search.Web JsonText

/-! ## What may be turned into a text -/

mutual
/-- No object with a `toString` of its own is in the value where a text is made of it. -/
def printable : JsonValue → Bool
  | .arr l => allPrintable l
  | .obj fields => !fields.any (·.1 = utf16 "toString")
  | _ => true
def allPrintable : List JsonValue → Bool
  | [] => true
  | v :: l => printable v && allPrintable l
end

section
variable (numberText : JsNumber → Text)

/-- The text of a value that has one. -/
def textOf (v : JsonValue) : Text := ((stringOf numberText v).toOption).getD []

theorem except_eq {α : Type} (x : Except Exception α) (default_ : α) :
    x = if x.isOk then .ok (x.toOption.getD default_) else .error .typeError := by
  obtain ⟨⟩ | a := x <;> rfl

theorem isOk_map {α β : Type} (x : Except Exception α) (f : α → β) : (x.map f).isOk = x.isOk := by
  cases x <;> rfl

mutual
theorem isOk_stringOf : ∀ v : JsonValue, (stringOf numberText v).isOk = printable v
  | .null => rfl
  | .bool _ => rfl
  | .num _ => rfl
  | .str _ => rfl
  | .arr l => by rw [stringOf, isOk_map, printable, isOk_elementStrings l]
  | .obj fields => by
    rw [stringOf, printable]
    cases fields.any fun f => decide (f.1 = utf16 "toString") <;> rfl
theorem isOk_elementStrings : ∀ l : List JsonValue, (elementStrings numberText l).isOk = allPrintable l
  | [] => rfl
  | v :: l => by
    have hv := isOk_stringOf v
    have hl := isOk_elementStrings l
    rw [allPrintable, ← hv, ← hl]
    cases v with
    | null => rw [elementStrings, isOk_map]; rfl
    | bool | num | str | arr | obj =>
      rw [elementStrings]
      · cases stringOf numberText _ with
        | error => rfl
        | ok t => cases elementStrings numberText l <;> rfl
      · simp
end

theorem stringOf_eq (v : JsonValue) :
    stringOf numberText v = if printable v then .ok (textOf numberText v) else .error .typeError := by
  rw [← isOk_stringOf numberText v]
  exact except_eq _ []

/-! ## The parameters of a stored filter -/

/-- The parameter with the value that it has in the end. -/
def Param.value? (param : Param) : Option String :=
  if param.isSet then some (usvString (textOf numberText param.value)) else none

theorem foldlM_setParam (ps : List Param) (params : FormUrlEncoded.Params) :
    ps.foldlM (setParam numberText) params = if ps.all fun p => !p.isSet || printable p.value
      then .ok (ps.foldl (fun params p => setSome p.name (p.value? numberText) params) params)
        else .error .typeError := by
  induction ps generalizing params with
  | nil => rfl
  | cons p ps ih =>
    have hstep : setParam numberText params p = if !p.isSet || printable p.value
        then .ok (setSome p.name (p.value? numberText) params) else .error .typeError := by
      rw [setParam, Param.value?, stringOf_eq]
      cases p.isSet with
      | false => rfl
      | true => cases printable p.value <;> rfl
    rw [List.foldlM_cons, hstep, List.all_cons, List.foldl_cons]
    cases !p.isSet || printable p.value with
    | false => rfl
    | true => exact ih _

def isString : JsonValue → Bool
  | .str _ => true
  | _ => false

def FIELDS : List String := ["view", "status", "classification", "folder", "ownerId", "tag", "sort", "sortDir"]

/-- The parameters can be made of the candidate. -/
def readable (candidate : JsonValue) : Bool :=
  isString (orDefault (prop candidate "search") []) && FIELDS.all fun name => (prop candidate name).all printable

def searchOf (candidate : JsonValue) : Text :=
  match orDefault (prop candidate "search") [] with
  | .str t => t
  | _ => []

/-- The parameters of a candidate that is readable. -/
def paramsFor (candidate : JsonValue) : FormUrlEncoded.Params :=
  (paramsOf candidate).foldl (fun params p => setSome p.name (p.value? numberText) params)
    (setSome "q" (unlessEmpty (trimText (searchOf candidate))) [])

theorem printable_of_not_truthy {v : JsonValue} (h : truthy v = false) : printable v = true := by
  cases v with
  | arr => cases h
  | obj => cases h
  | _ => rfl

theorem printable_of_isText {v : JsonValue} {t : Text} (h : isText v t = true) : printable v = true := by
  cases v with
  | str => rfl
  | _ => cases h

theorem printable_orDefault (value : Option JsonValue) (t : Text) :
    printable (orDefault value t) = value.all printable := by
  obtain _ | v := value
  · rfl
  · cases v <;> rfl

theorem paramsOf_printable (candidate : JsonValue) :
    ((paramsOf candidate).all fun p => !p.isSet || printable p.value) =
    FIELDS.all fun name => (prop candidate name).all printable := by
  have hempty : ∀ name value,
    (!(nonEmpty name value).isSet || printable (nonEmpty name value).value) = printable value := by
    intro name value
    simp only [nonEmpty]
    cases h : truthy value with
    | false => simp [printable_of_not_truthy h]
    | true => rfl
  have hdefault : ∀ name value d, (!(nonDefault name value d).isSet || printable (nonDefault name value d).value) =
      printable value := by
    intro name value d
    simp only [nonDefault]
    cases h : isText value (utf16 d) with
    | true => simp [printable_of_isText h]
    | false => rfl
  simp only [paramsOf, FIELDS, List.all_cons, List.all_nil, hempty, hdefault, printable_orDefault]

theorem serializeValues_eq (candidate : JsonValue) : serializeValues numberText candidate =
    if readable candidate then .ok (paramsFor numberText candidate) else .error .typeError := by
  rw [serializeValues, readable, paramsFor, searchOf]
  cases orDefault (prop candidate "search") [] with
  | str t =>
    have hsearch : trimmed (.str t) = .ok (trimText t) := rfl
    rw [hsearch, ← paramsOf_printable]
    exact foldlM_setParam numberText _ _
  | _ => rfl

/-! ## The names of a stored filter -/

/-- A value that is not falsy is one of the names. -/
def isKnown (value : Option JsonValue) (names : List Text) : Bool :=
  value.all fun value => !truthy value || names.any (isText value)

def knownNames (candidate : JsonValue) : Bool :=
  isKnown (prop candidate "status") (Metadata.DOCUMENT_STATUSES.map fun s => utf16 (toString s)) &&
  isKnown (prop candidate "classification") (Metadata.DOCUMENT_CLASSIFICATIONS.map fun c => utf16 (levelName c)) &&
  isKnown (prop candidate "view") (QUICK_VIEWS.map fun v => utf16 (viewName v))

section
variable {α : Type} (name : α → String) (values : List α)

theorem named_some {s : String} {a : α} (h : named name values (some s) = some a) : a ∈ values ∧ s = name a := by
  refine ⟨List.mem_of_find?_eq_some h, ?_⟩
  have hname := List.find?_some h
  exact Option.some.inj (of_decide_eq_true hname)

theorem named_of_mem {a : α} (h : a ∈ values) :
    ∃ b, named name values (some (name a)) = some b ∧ name b = name a := by
  have hsome : (named name values (some (name a))).isSome = true := List.find?_isSome.mpr ⟨a, h, by simp⟩
  obtain ⟨b, hb⟩ := Option.isSome_iff_exists.mp hsome
  exact ⟨b, hb, (named_some name values hb).2.symm⟩

theorem any_isText (t : Text) : ((values.map fun a => utf16 (name a)).any (isText (.str t))) = true ↔
    ∃ a ∈ values, t = utf16 (name a) := by
  simp [isText]

/-- A text that is not empty is its parameter's name exactly if it is one of the names. -/
theorem isText_nameOr {t : Text} (ht : t ≠ []) :
    isText (.str t) (nameOr name (named name values (some (usvString t)))) =
    (values.map fun a => utf16 (name a)).any (isText (.str t)) := by
  rw [Bool.eq_iff_iff, any_isText, isText, decide_eq_true_iff]
  apply Iff.intro
  · intro h
    cases hnamed : named name values (some (usvString t)) with
    | none =>
      rw [hnamed] at h
      exact absurd h ht
    | some a =>
      rw [hnamed] at h
      exact ⟨a, (named_some name values hnamed).1, h⟩
  · intro h
    obtain ⟨a, ha, rfl⟩ := h
    obtain ⟨b, hb, hname⟩ := named_of_mem name values ha
    rw [usvString_utf16, hb, nameOr, Option.map_some, Option.getD_some, hname]

theorem isOther_named (value : Option JsonValue) :
    isOther value (nameOr name (named name values ((nonEmpty "" (orDefault value [])).value? numberText))) =
      !isKnown value (values.map fun a => utf16 (name a)) := by
  obtain _ | v := value
  · rfl
  · rw [isOther, isKnown, Option.any_some, Option.all_some]
    cases htruthy : truthy v with
    | false => rfl
    | true =>
      cases v with
      | null => cases htruthy
      | str t =>
        have ht : t ≠ [] := by simpa [truthy] using htruthy
        have hvalue : (nonEmpty "" (orDefault (some (.str t)) [])).value? numberText = some (usvString t) :=
          if_pos htruthy
        rw [hvalue, isText_nameOr name values ht]
        rfl
      | bool | num | arr | obj => simp [isText]

end

theorem isOther_view (value : Option JsonValue) :
    isOther value (utf16 (viewName ((named viewName QUICK_VIEWS
      ((nonDefault "" (orDefault value (utf16 "all")) "all").value? numberText)).getD .all))) =
      !isKnown value (QUICK_VIEWS.map fun v => utf16 (viewName v)) := by
  have hall : ∀ v : DocumentQuickView, v ∈ QUICK_VIEWS := fun v => by cases v <;> decide
  obtain _ | v := value
  · rfl
  · rw [isOther, isKnown, Option.any_some, Option.all_some]
    cases htruthy : truthy v with
    | false => rfl
    | true =>
      cases v with
      | null => cases htruthy
      | str t =>
        have htext : isText (.str t) (utf16 (viewName ((named viewName QUICK_VIEWS
            ((nonDefault "" (orDefault (some (.str t)) (utf16 "all")) "all").value? numberText)).getD .all))) =
            (QUICK_VIEWS.map fun v => utf16 (viewName v)).any (isText (.str t)) := by
          rw [Bool.eq_iff_iff, any_isText, isText, decide_eq_true_iff]
          apply Iff.intro
          · intro h
            exact ⟨_, hall _, h⟩
          · intro h
            obtain ⟨a, -, rfl⟩ := h
            by_cases hdefault : a = .all
            · subst hdefault
              rfl
            · have hset :
                  (nonDefault "" (orDefault (some (.str (utf16 (viewName a)))) (utf16 "all"))
                    "all").value? numberText =
                  some (viewName a) := by
                have hne : isText (.str (utf16 (viewName a))) (utf16 "all") = false := by
                  cases a with
                  | all => exact absurd rfl hdefault
                  | _ => decide
                have hvalue : orDefault (some (.str (utf16 (viewName a)))) (utf16 "all") =
                  .str (utf16 (viewName a)) := rfl
                rw [hvalue, nonDefault, Param.value?, hne, textOf, stringOf]
                exact congrArg some (usvString_utf16 _)
              obtain ⟨b, hb, hname⟩ := named_of_mem viewName QUICK_VIEWS (hall a)
              rw [hset, hb, Option.getD_some, hname]
        rw [htext]
        rfl
      | bool | num | arr | obj => simp [isText]

end

/-! ## Entries -/

section
variable (numberText : JsNumber → Text)

/-- What the parameters of a candidate name. -/
theorem parse_paramsFor (value : JsonValue) :
    (parseDocumentFiltersFromSearchParams (paramsFor numberText value)).status =
    named toString Metadata.DOCUMENT_STATUSES
      ((nonEmpty "" (orDefault (prop value "status") [])).value? numberText) ∧
    (parseDocumentFiltersFromSearchParams (paramsFor numberText value)).classification =
      named levelName Metadata.DOCUMENT_CLASSIFICATIONS
        ((nonEmpty "" (orDefault (prop value "classification") [])).value? numberText) ∧
    (parseDocumentFiltersFromSearchParams (paramsFor numberText value)).view = (named viewName QUICK_VIEWS
      ((nonDefault "" (orDefault (prop value "view") (utf16 "all")) "all").value? numberText)).getD .all := by
  simp only [parseDocumentFiltersFromSearchParams, paramsFor, paramsOf, List.foldl_cons,
    List.foldl_nil, get_setSome,
    nonEmpty, nonDefault, Param.value?, FormUrlEncoded.get_nil, String.reduceEq, if_true, if_false, Option.or_none]
  exact ⟨rfl, rfl, rfl⟩

theorem parseFilters_eq (value : JsonValue) : parseFilters numberText value =
    if isObject value then
      if readable value then
        .ok (if knownNames value then some (parseDocumentFiltersFromSearchParams (paramsFor numberText value))
          else none)
      else .error .typeError
    else .ok none := by
  rw [parseFilters]
  cases isObject value with
  | false => rfl
  | true =>
    simp only [if_true, serializeValues_eq]
    cases readable value with
    | false => rfl
    | true =>
      obtain ⟨hstatus, hclassification, hview⟩ := parse_paramsFor numberText value
      have hknown : (isOther (prop value "status")
          (nameOr toString (parseDocumentFiltersFromSearchParams (paramsFor numberText value)).status) ||
          isOther (prop value "classification")
            (nameOr levelName (parseDocumentFiltersFromSearchParams (paramsFor numberText value)).classification) ||
          isOther (prop value "view")
            (utf16 (viewName (parseDocumentFiltersFromSearchParams (paramsFor numberText value)).view))) =
          !knownNames value := by
        rw [hstatus, hclassification, hview, isOther_named, isOther_named, isOther_view, knownNames]
        simp only [Bool.not_and]
      simp only [if_true, bind, Except.bind, hknown]
      cases knownNames value <;> rfl

/-- The checks in front of the filters hold, and the filters are an object. -/
def checkedFilters (item : JsonValue) : Option JsonValue := ((checkItem item).map Checked.filters).filter isObject

/-- An entry that is a view. -/
def wellFormed (item : JsonValue) : Bool := (checkedFilters item).any fun filters =>
    readable filters && knownNames filters

/-- An entry whose filters cannot be turned into parameters. -/
def unreadable (item : JsonValue) : Bool := (checkedFilters item).any fun filters => !readable filters

/-- The view of an entry that is one. -/
def viewOf (item : JsonValue) : Option DocumentSavedView :=
  (checkItem item).bind fun checked =>
    if wellFormed item then
      some
        { id := checked.id, label := normalizeLabel checked.label, description := descriptionOf item,
          source := .custom,
          filters := parseDocumentFiltersFromSearchParams (paramsFor numberText checked.filters) }
    else none

section
variable {item : JsonValue} {checked : Checked} (h : checkItem item = some checked)
include h

theorem checkedFilters_eq :
    checkedFilters item = if isObject checked.filters then some checked.filters else none := by
  rw [checkedFilters, h, Option.map_some, Option.filter_some]

theorem wellFormed_eq :
    wellFormed item = (isObject checked.filters && (readable checked.filters && knownNames checked.filters)) := by
  rw [wellFormed, checkedFilters_eq h]
  cases isObject checked.filters <;> rfl

theorem unreadable_eq : unreadable item = (isObject checked.filters && !readable checked.filters) := by
  rw [unreadable, checkedFilters_eq h]
  cases isObject checked.filters <;> rfl

end

theorem parseCustomView_eq (item : JsonValue) :
    parseCustomView numberText item = if unreadable item then .error .typeError
      else .ok (viewOf numberText item) := by
  rw [parseCustomView, viewOf]
  cases hcheck : checkItem item with
  | none =>
    have hreadable : unreadable item = false := by rw [unreadable, checkedFilters, hcheck]; rfl
    rw [hreadable]
    rfl
  | some checked =>
    simp only [parseFilters_eq, wellFormed_eq hcheck, unreadable_eq hcheck, Option.bind_some]
    cases isObject checked.filters with
    | false => rfl
    | true =>
      cases readable checked.filters with
      | false => rfl
      | true => cases knownNames checked.filters <;> rfl

theorem viewOf_isSome (item : JsonValue) : (viewOf numberText item).isSome = wellFormed item := by
  rw [viewOf]
  cases hcheck : checkItem item with
  | none =>
    rw [wellFormed, checkedFilters, hcheck]
    rfl
  | some checked =>
    rw [Option.bind_some]
    cases wellFormed item <;> rfl

theorem readable_of_wellFormed {item : JsonValue} (h : wellFormed item = true) : unreadable item = false := by
  rw [wellFormed] at h
  rw [unreadable]
  cases hchecked : checkedFilters item with
  | none => rfl
  | some filters =>
    rw [hchecked, Option.any_some, Bool.and_eq_true] at h
    simp [h.1]

theorem mapM_parseCustomView (entries : List JsonValue) : entries.mapM (parseCustomView numberText) =
    if entries.any unreadable then .error .typeError else .ok (entries.map (viewOf numberText)) := by
  induction entries with
  | nil => rfl
  | cons item entries ih =>
    rw [List.mapM_cons, ih, parseCustomView_eq, List.any_cons]
    cases unreadable item with
    | true => rfl
    | false => cases entries.any unreadable <;> rfl

theorem parseEntries_eq (entries : List JsonValue) :
    parseEntries numberText entries = if entries.any unreadable then []
      else entries.filterMap (viewOf numberText) := by
  rw [parseEntries, mapM_parseCustomView]
  cases entries.any unreadable with
  | true => rfl
  | false =>
    simp only [Bool.false_eq_true, if_false, List.flatMap_map]
    induction entries with
    | nil => rfl
    | cons item entries ih =>
      rw [List.flatMap_cons, ih, List.filterMap_cons]
      cases viewOf numberText item <;> rfl

theorem parseEntries_wellFormed (entries : List JsonValue) :
    parseEntries numberText (entries.filter wellFormed) = entries.filterMap (viewOf numberText) := by
  have hreadable : (entries.filter wellFormed).any unreadable = false := by
    rw [List.any_eq_false]
    intro item hitem
    rw [readable_of_wellFormed (List.mem_filter.mp hitem).2]
    exact Bool.false_ne_true
  rw [parseEntries_eq, hreadable]
  simp only [Bool.false_eq_true, if_false]
  induction entries with
  | nil => rfl
  | cons item entries ih =>
    have hsome := viewOf_isSome numberText item
    cases hview : viewOf numberText item with
    | none =>
      rw [hview] at hsome
      rw [List.filter_cons_of_neg (by rw [← hsome]; simp), List.filterMap_cons_none hview]
      exact ih (by
        rw [List.filter_cons_of_neg (by rw [← hsome]; simp)] at hreadable
        exact hreadable)
    | some view =>
      rw [hview] at hsome
      rw [List.filter_cons_of_pos hsome.symm, List.filterMap_cons_some hview, List.filterMap_cons_some hview]
      refine congrArg _ (ih ?_)
      rw [List.filter_cons_of_pos hsome.symm, List.any_cons, Bool.or_eq_false_iff] at hreadable
      exact hreadable.2

/-- The entries of an array are read as the well-formed ones alone, unless one throws and
there is something to lose. -/
theorem parseEntries_alone_iff (entries : List JsonValue) :
    parseEntries numberText entries = parseEntries numberText (entries.filter wellFormed) ↔
      entries.any unreadable = false ∨ entries.any wellFormed = false := by
  rw [parseEntries_wellFormed, parseEntries_eq]
  cases entries.any unreadable with
  | false => simp
  | true =>
    simp only [if_true, Bool.true_eq_false, false_or, List.any_eq_false]
    rw [eq_comm, List.filterMap_eq_nil_iff]
    refine forall₂_congr fun item _ => ?_
    rw [← viewOf_isSome numberText item]
    simp

/-! ## Views are written and read back -/

theorem mem_elemTokens {l : List JsonValue} {token : JsonToken} (h : token ∈ elemTokens l) :
    token = .comma ∨ ∃ v ∈ l, token ∈ tokensOf v := by
  induction l with
  | nil => cases h
  | cons v l ih =>
    cases l with
    | nil =>
      rw [elemTokens] at h
      exact .inr ⟨v, List.mem_cons_self, h⟩
    | cons w l =>
      rw [elemTokens] at h
      obtain h | h := List.mem_append.mp h
      · exact .inr ⟨v, List.mem_cons_self, h⟩
      · obtain h | h := List.mem_cons.mp h
        · exact .inl h
        · obtain h | ⟨x, hx, h⟩ := ih h
          · exact .inl h
          · exact .inr ⟨x, List.mem_cons_of_mem _ hx, h⟩

theorem plain_arr {l : List JsonValue} (h : ∀ v ∈ l, ∀ token ∈ tokensOf v, token.Plain) :
    ∀ token ∈ tokensOf (.arr l), token.Plain := by
  intro token htoken
  simp only [tokensOf, List.cons_append, List.mem_cons, List.mem_append, List.not_mem_nil, or_false] at htoken
  obtain rfl | htoken | rfl := htoken
  · trivial
  · obtain rfl | ⟨v, hv, htoken⟩ := mem_elemTokens htoken
    · trivial
    · exact h v hv token htoken
  · trivial

theorem plain_view (view : DocumentSavedView) : ∀ token ∈ tokensOf (viewValue view), token.Plain := by
  intro token htoken
  simp only [viewValue, filtersValue, tokensOf, memberTokens, List.cons_append, List.nil_append, List.mem_cons,
    List.not_mem_nil, or_false] at htoken
  rcases htoken with rfl | htoken
  · trivial
  · repeat' obtain rfl | htoken := htoken
    all_goals trivial

theorem parse_viewValues (views : List DocumentSavedView) :
    parseCustomDocumentSavedViews numberText (some (stringify numberText (.arr (views.map viewValue)))) =
      parseEntries numberText (views.map viewValue) := by
  have hparse : JsonText.parse (stringify numberText (.arr (views.map viewValue))) =
    some (.arr (views.map viewValue)) := by
    apply parse_stringify
    apply plain_arr
    intro v hv
    obtain ⟨view, -, rfl⟩ := List.mem_map.mp hv
    exact plain_view view
  cases htext : stringify numberText (.arr (views.map viewValue)) with
  | nil => cases htext
  | cons u t =>
    rw [htext] at hparse
    rw [parseCustomDocumentSavedViews, hparse]
    simp

theorem value?_text (name : String) (t : Text) : (nonEmpty name (.str t)).value? numberText = unlessEmpty t := by
  cases t <;> rfl

theorem value?_name (name s d : String) : (nonDefault name (.str (utf16 s)) d).value? numberText =
    if utf16 s = utf16 d then none else some s := by
  rw [nonDefault, Param.value?, textOf, stringOf, isText]
  by_cases h : utf16 s = utf16 d
  · simp [h]
  · simp [h, usvString_utf16, Except.toOption]

theorem unlessEmpty_utf16 (s : String) (h : utf16 s ≠ []) : unlessEmpty (utf16 s) = some s := by
  rw [unlessEmpty, if_neg h, usvString_utf16]

section
variable (filters : DocumentFiltersState)

theorem prop_filtersValue :
    prop (filtersValue filters) "view" = some (.str (utf16 (viewName filters.view))) ∧
    prop (filtersValue filters) "search" = some (.str filters.search) ∧
    prop (filtersValue filters) "status" = some (.str (nameOr toString filters.status)) ∧
    prop (filtersValue filters) "classification" = some (.str (nameOr levelName filters.classification)) ∧
    prop (filtersValue filters) "folder" = some (.str filters.folder) ∧
    prop (filtersValue filters) "ownerId" = some (.str filters.ownerId) ∧
    prop (filtersValue filters) "tag" = some (.str filters.tag) ∧
    prop (filtersValue filters) "sort" = some (.str (utf16 (sortName filters.sort))) ∧
    prop (filtersValue filters) "sortDir" = some (.str (utf16 (sortDirName filters.sortDir))) :=
  ⟨rfl, rfl, rfl, rfl, rfl, rfl, rfl, rfl, rfl⟩

theorem knownNames_filtersValue : knownNames (filtersValue filters) = true := by
  obtain ⟨hview, -, hstatus, hclassification, -⟩ := prop_filtersValue filters
  rw [knownNames, hview, hstatus, hclassification]
  obtain ⟨view, -, status, classification, -⟩ := filters
  have hviews : ∀ v : DocumentQuickView,
      isKnown (some (.str (utf16 (viewName v)))) (QUICK_VIEWS.map fun v => utf16 (viewName v)) = true := fun v => by
    cases v <;> decide
  have hstatuses : ∀ s : Option DocumentStatus, isKnown (some (.str (nameOr toString s)))
      (Metadata.DOCUMENT_STATUSES.map fun s => utf16 (toString s)) = true := fun s => by
    obtain _ | s := s
    · rfl
    · cases s <;> decide
  have hlevels : ∀ c : Option ClassificationLevel, isKnown (some (.str (nameOr levelName c)))
      (Metadata.DOCUMENT_CLASSIFICATIONS.map fun c => utf16 (levelName c)) = true := fun c => by
    obtain _ | c := c
    · rfl
    · cases c <;> decide
  rw [hviews, hstatuses, hlevels]
  rfl

theorem readable_filtersValue : readable (filtersValue filters) = true := by
  obtain ⟨hview, hsearch, hstatus, hclassification, hfolder, howner, htag, hsort, hdir⟩ := prop_filtersValue filters
  simp only [readable, FIELDS, List.all_cons, List.all_nil, hview, hsearch, hstatus,
    hclassification, hfolder, howner, htag, hsort, hdir]
  rfl

theorem paramsFor_filtersValue :
    paramsFor numberText (filtersValue filters) = serializeDocumentFiltersToSearchParams filters := by
  obtain ⟨hview, hsearch, hstatus, hclassification, hfolder, howner, htag, hsort, hdir⟩ := prop_filtersValue filters
  have hviews : (if utf16 (viewName filters.view) = utf16 "all" then none else some (viewName filters.view)) =
      if filters.view ≠ .all then some (viewName filters.view) else none := by
    cases filters.view <;> decide
  have hstatuses : unlessEmpty (nameOr toString filters.status) = filters.status.map toString := by
    obtain _ | status := filters.status
    · rfl
    · exact unlessEmpty_utf16 _ (by cases status <;> decide)
  have hlevels : unlessEmpty (nameOr levelName filters.classification) = filters.classification.map levelName := by
    obtain _ | classification := filters.classification
    · rfl
    · exact unlessEmpty_utf16 _ (by cases classification <;> decide)
  have hsorts : (if utf16 (sortName filters.sort) = utf16 "updatedAt" then none else some (sortName filters.sort)) =
      if filters.sort ≠ .updatedAt then some (sortName filters.sort) else none := by
    cases filters.sort <;> decide
  have hdirs : (if utf16 (sortDirName filters.sortDir) = utf16 "desc" then none
    else some (sortDirName filters.sortDir)) =
      if filters.sortDir ≠ .desc then some (sortDirName filters.sortDir) else none := by
    cases filters.sortDir <;> decide
  simp only [paramsFor, searchOf, paramsOf, hview, hsearch, hstatus, hclassification, hfolder,
    howner, htag, hsort, hdir,
    orDefault, List.foldl_cons, List.foldl_nil, value?_text, value?_name, hviews, hstatuses, hlevels, hsorts, hdirs]
  rfl

end

/-- What the code makes of a label and filters. -/
structure Regular (view : DocumentSavedView) : Prop where
  source : view.source = .custom
  id : utf16 "custom-" <+: view.id
  label : trimText view.label ≠ []
  description : view.description = DESCRIPTION
  filters : kept view.filters = view.filters

theorem prop_viewValue (view : DocumentSavedView) :
    prop (viewValue view) "id" = some (.str view.id) ∧
    prop (viewValue view) "label" = some (.str view.label) ∧
    prop (viewValue view) "description" = some (.str view.description) ∧
    prop (viewValue view) "source" = some (.str (utf16 (sourceName view.source))) ∧
    prop (viewValue view) "filters" = some (filtersValue view.filters) :=
  ⟨rfl, rfl, rfl, rfl, rfl⟩

/-- A view that was made here is read back with its label normalized once more. -/
theorem Regular.viewOf {view : DocumentSavedView} (h : Regular view) :
    viewOf numberText (viewValue view) = some { view with label := normalizeLabel view.label } ∧
      unreadable (viewValue view) = false := by
  obtain ⟨hid, hlabel, hdescription, hsource, hfilters⟩ := prop_viewValue view
  have hcheck : checkItem (viewValue view) = some ⟨view.id, view.label, filtersValue view.filters⟩ := by
    have hfront : (utf16 "custom-").isPrefixOf view.id = true := List.isPrefixOf_iff_prefix.mpr h.id
    have hblank : (trimText view.label).isEmpty = false := by simpa using h.label
    have hcustom : isText (.str (utf16 (sourceName .custom))) (utf16 "custom") = true := by decide
    rw [checkItem, hid, hlabel, hfilters, hsource, h.source]
    simp only [hfront, hblank, Option.any_some, hcustom]
    rfl
  have hobject : isObject (filtersValue view.filters) = true := rfl
  have htext : descriptionOf (viewValue view) = view.description := by
    have htrim : trimText DESCRIPTION = DESCRIPTION := by decide
    rw [descriptionOf, hdescription, h.description]
    simp only [htrim]
    rfl
  have hread : parseDocumentFiltersFromSearchParams (serializeDocumentFiltersToSearchParams view.filters) =
    view.filters :=
    (normalizeFilters_eq view.filters).trans h.filters
  refine ⟨?_, ?_⟩
  · rw [SavedViews.viewOf, hcheck, Option.bind_some, wellFormed_eq hcheck, hobject, readable_filtersValue,
      knownNames_filtersValue, paramsFor_filtersValue, hread, htext, ← h.source]
    rfl
  · rw [unreadable_eq hcheck, readable_filtersValue]
    simp

theorem parseEntries_regular {views : List DocumentSavedView} (h : ∀ view ∈ views, Regular view) :
    parseEntries numberText (views.map viewValue) =
      views.map fun view => { view with label := normalizeLabel view.label } := by
  have hreadable : (views.map viewValue).any unreadable = false := by
    rw [List.any_eq_false]
    intro v hv
    obtain ⟨view, hview, rfl⟩ := List.mem_map.mp hv
    rw [((h view hview).viewOf numberText).2]
    exact Bool.false_ne_true
  rw [parseEntries_eq, hreadable]
  simp only [Bool.false_eq_true, if_false]
  rw [List.filterMap_map, ← List.filterMap_eq_map]
  exact List.filterMap_congr fun view hview => ((h view hview).viewOf numberText).1

theorem regular_create (R : Runtime) (label : Text) (filters : DocumentFiltersState) (generatedAt : Text) :
    Regular (createCustomDocumentSavedView R label filters generatedAt) where
  source := rfl
  id := by
    rw [createCustomDocumentSavedView, List.append_assoc, List.append_assoc]
    exact List.prefix_append _ _
  label := normalizeLabel_trim label
  description := rfl
  filters := by
    rw [createCustomDocumentSavedView, normalizeFilters_eq]
    exact kept_kept filters

/-! ## What survives -/

/-- What a user saves. -/
structure Made where
  label : Text
  filters : DocumentFiltersState
  generatedAt : Text

def Made.view (R : Runtime) (made : Made) : DocumentSavedView :=
  createCustomDocumentSavedView R made.label made.filters made.generatedAt

def SurvivesStorage (views : List DocumentSavedView) : Prop :=
  parseCustomDocumentSavedViews numberText (some (serializeCustomDocumentSavedViews numberText views)) = views

/-- The entries of a stored array are read as the well-formed ones among them. -/
def EntriesAlone (stored : Text) : Prop :=
  ∀ entries, JsonText.parse stored = some (.arr entries) →
    parseCustomDocumentSavedViews numberText (some stored) = parseEntries numberText (entries.filter wellFormed)

theorem label_eq_iff (view : DocumentSavedView) (label : Text) :
    { view with label := label } = view ↔ label = view.label := by
  obtain ⟨id, label', description, source, filters⟩ := view
  simp

theorem made_survive_iff (R : Runtime) (made : List Made) :
    SurvivesStorage numberText (made.map (Made.view R)) ↔ ∀ m ∈ made, ¬CutAtBlank m.label := by
  have hregular : ∀ view ∈ made.map (Made.view R), Regular view := by
    intro view hview
    obtain ⟨m, -, rfl⟩ := List.mem_map.mp hview
    exact regular_create R m.label m.filters m.generatedAt
  have hcustom : (made.map (Made.view R)).filter (·.source = .custom) = made.map (Made.view R) :=
    List.filter_eq_self.mpr fun view hview => by simp [(hregular view hview).source]
  rw [SurvivesStorage, serializeCustomDocumentSavedViews, hcustom, parse_viewValues,
    parseEntries_regular numberText hregular, List.map_map, List.map_inj_left]
  refine forall₂_congr fun m _ => ?_
  have hlabel : (Made.view R m).label = normalizeLabel m.label := rfl
  rw [Function.comp_apply, label_eq_iff, hlabel, normalizeLabel_fixed_iff]

theorem alone_iff (stored : Text) : EntriesAlone numberText stored ↔
    ∀ entries, JsonText.parse stored = some (.arr entries) →
      entries.any unreadable = false ∨ entries.any wellFormed = false := by
  refine forall₂_congr fun entries hparse => ?_
  rw [← parseEntries_alone_iff numberText entries]
  have hread : parseCustomDocumentSavedViews numberText (some stored) = parseEntries numberText entries := by
    cases stored with
    | nil => cases hparse
    | cons u t => rw [parseCustomDocumentSavedViews, hparse]; simp
  rw [hread]

/-- Saved views survive storage unless a label was cut at a blank, and one entry takes the others with it only
if its filters cannot be turned into parameters. -/
theorem saved_views_kept_iff (R : Runtime) (made : List Made) (stored : Text) :
    (SurvivesStorage numberText (made.map (Made.view R)) ↔ ∀ m ∈ made, ¬CutAtBlank m.label) ∧
    (EntriesAlone numberText stored ↔ ∀ entries, JsonText.parse stored = some (.arr entries) →
      entries.any unreadable = false ∨ entries.any wellFormed = false) :=
  ⟨made_survive_iff numberText R made, alone_iff numberText stored⟩

end

/-! ## A label and an entry that are lost -/

/-- A label of two words, the first of which has 47 letters. -/
def longLabel : Made :=
  ⟨List.replicate 47 97 ++ utf16 " b", DEFAULT_DOCUMENT_FILTERS, utf16 "2026-01-01T00:00:00.000Z"⟩

def storedEntry (id : String) (filters : List (Text × JsonValue)) : JsonValue :=
  .obj [(utf16 "id", .str (utf16 id)), (utf16 "label", .str (utf16 "Mine")),
    (utf16 "source", .str (utf16 "custom")), (utf16 "filters", .obj filters)]

def storedEntries : List JsonValue :=
  [storedEntry "custom-a" [], storedEntry "custom-b" [(utf16 "search", .bool true)]]

/-- `[{"id":"custom-a",…,"filters":{}},{"id":"custom-b",…,"filters":{"search":true}}]` -/
def storedViews : Text := stringify (fun _ => []) (.arr storedEntries)

/-- The label loses the blank it ends with, and the second entry takes the first one with it. -/
theorem label_and_entry_lost : ¬SurvivesStorage (fun _ => []) [longLabel.view sampleRuntime] ∧
    ¬EntriesAlone (fun _ => []) storedViews := by
  apply And.intro
  · intro h
    have hcut := (made_survive_iff (fun _ => []) sampleRuntime [longLabel]).mp h longLabel
      (List.mem_singleton_self _)
    revert hcut
    decide
  · intro h
    have hparse : JsonText.parse storedViews = some (.arr storedEntries) := by
      apply parse_stringify
      intro token htoken
      simp only [storedEntries, storedEntry, tokensOf, elemTokens, memberTokens, List.cons_append, List.nil_append,
        List.mem_cons, List.not_mem_nil, or_false] at htoken
      repeat' obtain rfl | htoken := htoken
      all_goals trivial
    have hlost := (alone_iff (fun _ => []) storedViews).mp h storedEntries hparse
    revert hlost
    decide

end DocVault.SavedViews
