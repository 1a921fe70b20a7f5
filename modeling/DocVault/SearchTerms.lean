import DocVault.SearchTokens

/-!
# The terms of a search

A search is the conjunction of its tokens on both sides, so that the tokens
can be compared one by one.
-/

namespace DocVault.Search

open Regex

/-! ## Trimmed texts -/

def Trimmed (t : Text) : Prop := t.dropWhile isBlank = t ∧ t.reverse.dropWhile isBlank = t.reverse

theorem dropWhile_eq_self_iff_head {t : Text} :
    t.dropWhile isBlank = t ↔ ∀ u ∈ t.head?, isBlank u = false := by
  cases t with
  | nil => simp
  | cons u t =>
    by_cases hu : isBlank u = true
    · rw [List.dropWhile_cons_of_pos hu]
      have hlen : t.dropWhile isBlank ≠ u :: t := by
        intro h
        have := List.length_dropWhile_le isBlank t
        rw [h, List.length_cons] at this
        omega
      simp [hlen, hu]
    · simp [List.dropWhile_cons_of_neg, hu]

theorem trimmed_trimText (t : Text) : Trimmed (trimText t) := by
  refine ⟨dropWhile_eq_self_iff_head.mpr ?_, ?_⟩
  · intro u hu
    rw [trimText, List.head?_reverse] at hu
    apply head?_dropWhile isBlank t u
    have hsuffix := List.dropWhile_suffix isBlank (l := (t.dropWhile isBlank).reverse)
    obtain ⟨pre, hpre⟩ := hsuffix
    have hlast : (t.dropWhile isBlank).reverse.getLast? = some u := by
      rw [← hpre, List.getLast?_append, Option.mem_def.mp hu]
      rfl
    rw [List.getLast?_reverse] at hlast
    exact hlast
  · rw [trimText, List.reverse_reverse]
    exact dropWhile_eq_self_iff_head.mpr (head?_dropWhile isBlank _)

theorem trimText_of_trimmed {t : Text} (h : Trimmed t) : trimText t = t := by
  rw [trimText, h.1, h.2, List.reverse_reverse]

theorem trimText_trimText (t : Text) : trimText (trimText t) = trimText t :=
  trimText_of_trimmed (trimmed_trimText t)

theorem includes_dropWhile {x : Text} (hx : x ≠ []) (h : x.dropWhile isBlank = x) (y : Text) :
    x <:+: y.dropWhile isBlank ↔ x <:+: y := by
  induction y with
  | nil => rfl
  | cons u y ih =>
    by_cases hu : isBlank u = true
    · rw [List.dropWhile_cons_of_pos hu, ih, List.infix_cons_iff]
      have hno : ¬ x <+: u :: y := by
        intro hpre
        obtain ⟨v, x, rfl⟩ := List.exists_cons_of_ne_nil hx
        obtain ⟨t, ht⟩ := hpre
        have hv := dropWhile_eq_self_iff_head.mp h v rfl
        rw [(List.cons.inj ht).1, hu] at hv
        cases hv
      simp [hno]
    · rw [List.dropWhile_cons_of_neg hu]

/-- A trimmed text is part of another one within its blanks. -/
theorem includes_trimText {x : Text} (hx : x ≠ []) (h : Trimmed x) (y : Text) :
    includes (trimText y) x = includes y x := by
  have hback : x <:+: trimText y ↔ x <:+: y.dropWhile isBlank := by
    rw [trimText, ← List.reverse_infix, List.reverse_reverse,
      includes_dropWhile (by simpa using hx) h.2, List.reverse_infix]
  exact decide_eq_decide.mpr (hback.trans (includes_dropWhile hx h.1 y))

theorem includes_nil {x : Text} (hx : x ≠ []) : includes [] x = false := by
  simp [includes, hx]

theorem includes_self (x : Text) : includes x x = true := by
  simp [includes]

/-! ## Normalized texts -/

section
variable {R : Runtime} (hR : R.Lawful)
include hR

theorem lower_nil : R.toLowerCase [] = [] := hR.lower_ascii [] (by simp)

theorem normalizeText_none : normalizeText R none = [] := lower_nil hR

omit hR in
theorem normalizeText_trimText (t : Text) : normalizeText R (some (trimText t)) = normalizeText R (some t) := by
  rw [normalizeText, normalizeText, Option.getD_some, Option.getD_some, trimText_trimText]

theorem normalizeText_normalizeText (value : Option Text) :
    normalizeText R (some (normalizeText R value)) = normalizeText R value := by
  rw [normalizeText, Option.getD_some, normalizeText, ← hR.lower_trim, hR.lower_lower, trimText_trimText]

theorem normalizeEnumText_normalizeText (value : Option Text) :
    normalizeEnumText R (some (normalizeText R value)) = normalizeEnumText R value := by
  rw [normalizeEnumText, normalizeText_normalizeText hR, normalizeEnumText]

theorem normalizeText_eq_nil {t : Text} : normalizeText R (some t) = [] ↔ trimText t = [] := by
  apply Iff.intro
  · exact hR.lower_eq_nil _
  · intro h
    rw [normalizeText, Option.getD_some, h, lower_nil hR]

theorem trimmed_normalizeText (value : Option Text) : Trimmed (normalizeText R value) := by
  rw [normalizeText, hR.lower_trim]
  exact trimmed_trimText _

theorem includes_normalizeText {term : Text} (hne : term ≠ []) (hterm : Trimmed term) (t : Text) :
    includes (normalizeText R (some t)) term = includes (R.toLowerCase t) term := by
  rw [normalizeText, Option.getD_some, hR.lower_trim, includes_trimText hne hterm]

end

/-! ## One term -/

variable (R : Runtime)

/-- A token that is read, with the text that the service seeks where the key
is not an operator. -/
structure Term where
  operator : Operator
  value : Text
  text : Text

def Token.term (t : Token) : Term where
  operator := operatorOf (normalizeText R t.rawKey)
  value := trimText t.rawValue
  text := match t.rawKey with
    | some key => if key = [] then trimText t.rawValue else key ++ utf16 ":" ++ trimText t.rawValue
    | none => trimText t.rawValue

def Term.word (term : Term) : Text := normalizeText R (some term.value)

def Term.enumWord (term : Term) : Text := normalizeEnumText R (some term.value)

theorem filterMap_singleton_toList {α β : Type} (f : α → Option β) (x : α) : [x].filterMap f = (f x).toList := by
  cases h : f x <;> simp [h]

theorem all_toList {α : Type} (p : α → Bool) (x : Option α) : x.toList.all p = x.all p := by
  cases x <;> simp

namespace Metadata

def filtersOf (term : Term) : List Where :=
  match term.operator with
  | .status => ((findEnumValue R statusText DOCUMENT_STATUSES term.value).map Where.status).toList
  | .classification =>
    ((findEnumValue R classificationText DOCUMENT_CLASSIFICATIONS term.value).map Where.classification).toList
  | .owner => [.contains .ownerId term.value]
  | .tag | .folder => [.tagsHas term.value]
  | .file => [.someVersion (some term.value)]
  | .presence => (buildPresenceFilter R term.value).toList
  | .dlp => (buildDlpStatusFilter R term.value).toList
  | .retention => (buildRetentionFilter R term.value).toList
  | .date field => ((parseDateRangeQuery R field term.value).map buildDateRangeFilter).toList
  | .free => [buildTextSearchFilter term.text]

theorem mem_filters_pushToken (query : ParsedSearch) (t : Token) (filter : Where) :
    filter ∈ searchFilters R (pushToken R query t) ↔
      filter ∈ searchFilters R query ∨ ((t.term R).value ≠ [] ∧ filter ∈ filtersOf R (t.term R)) := by
  by_cases hv : trimText t.rawValue = []
  · simp [pushToken, Token.term, hv]
  · simp only [pushToken, Token.term, hv, if_false, ne_eq, not_false_eq_true, true_and]
    apply iff_of_eq
    generalize operatorOf (normalizeText R t.rawKey) = op
    cases op <;> simp only [ParsedSearch.push, filtersOf, searchFilters, List.mem_append, List.map_append,
      List.filterMap_append, List.map_singleton, filterMap_singleton_toList, Option.toList_map] <;> ac_rfl

theorem mem_filters_foldl (ts : List Token) (query : ParsedSearch) (filter : Where) :
    filter ∈ searchFilters R (ts.foldl (pushToken R) query) ↔
      filter ∈ searchFilters R query ∨ ∃ t ∈ ts, (t.term R).value ≠ [] ∧ filter ∈ filtersOf R (t.term R) := by
  induction ts generalizing query with
  | nil => simp
  | cons t ts ih =>
    rw [List.foldl_cons, ih, mem_filters_pushToken]
    simp only [List.mem_cons, exists_eq_or_imp, or_assoc]

def Admits (document : StoredDocument) (term : Term) : Prop :=
  ∀ filter ∈ filtersOf R term, filter.holds R document = true

/-- The service takes the documents that each term admits. -/
theorem selects_iff (search : Text) (document : StoredDocument) :
    selects R search document = true ↔
      ∀ t ∈ tokens search, (t.term R).value ≠ [] → Admits R document (t.term R) := by
  have hmem : ∀ filter, filter ∈ buildDocumentSearchFilter R search ↔
      ∃ t ∈ tokens search, (t.term R).value ≠ [] ∧ filter ∈ filtersOf R (t.term R) := by
    intro filter
    rw [← tokens_trim search, buildDocumentSearchFilter, parseDocumentListSearch]
    by_cases hs : trimText search = []
    · rw [if_pos hs, hs]
      simp [searchFilters, tokens, matchAll, scan_nil]
    · rw [if_neg hs, tokens_trim, mem_filters_foldl]
      simp [searchFilters]
  rw [selects, List.all_eq_true]
  apply Iff.intro
  · intro h t ht hv filter hf
    exact h filter ((hmem filter).mpr ⟨t, ht, hv, hf⟩)
  · intro h filter hf
    obtain ⟨t, ht, hv, hf⟩ := (hmem filter).mp hf
    exact h t ht hv filter hf

end Metadata

namespace Web

def admits (document : DocumentListItem) (term : Term) : Bool :=
  let word := term.word R
  match term.operator with
  | .status => includes (normalizeEnumText R (some (Metadata.statusText document.status)))
      (normalizeEnumText R (some word))
  | .classification =>
    includes (normalizeEnumText R (some (Metadata.classificationText document.classification)))
      (normalizeEnumText R (some word))
  | .owner => someIncludes R [some document.ownerId, document.ownerDisplay] word
  | .tag | .folder => someIncludes R (document.tags.map some) word
  | .file => includes (normalizeText R document.filename) word
  | .presence => matchesPresenceOperator R document word
  | .dlp => matchesDlpOperator R document word
  | .retention => matchesRetentionOperator R document word
  | .date field => (parseDateRangeQuery R field term.value).all fun range =>
      matchesDateRange R (dateOf document range.field) range
  | .free => documentMatchesFreeText R document word

theorem parseDateRangeQuery_trimText (field : DateField) (value : Text) :
    parseDateRangeQuery R field (trimText value) = parseDateRangeQuery R field value := by
  rw [parseDateRangeQuery, parseDateRangeQuery, trimText_trimText]

theorem matches_pushToken {R : Runtime} (hR : R.Lawful) (document : DocumentListItem)
    (query : ParsedSearch) (t : Token) : documentMatchesAdvancedQuery R document (pushToken R query t) =
      (documentMatchesAdvancedQuery R document query &&
        decide ((t.term R).value ≠ [] → admits R document (t.term R) = true)) := by
  by_cases hv : trimText t.rawValue = []
  · simp [pushToken, normalizeText_eq_nil hR, Token.term, hv]
  · have hword : (t.term R).word R = normalizeText R (some t.rawValue) := normalizeText_trimText t.rawValue
    simp only [pushToken, normalizeText_eq_nil hR, Token.term, hv, if_false, ne_eq, not_false_eq_true, forall_const,
      Bool.decide_eq_true, admits, parseDateRangeQuery_trimText] at hword ⊢
    rw [hword]
    generalize operatorOf (normalizeText R t.rawKey) = op
    cases op <;> simp only [ParsedSearch.push, documentMatchesAdvancedQuery, List.all_append, List.all_cons,
      List.all_nil, Bool.and_true, all_toList] <;> ac_rfl

theorem matches_foldl {R : Runtime} (hR : R.Lawful) (document : DocumentListItem) (ts : List Token)
    (query : ParsedSearch) : documentMatchesAdvancedQuery R document (ts.foldl (pushToken R) query) = true ↔
      documentMatchesAdvancedQuery R document query = true ∧
        ∀ t ∈ ts, (t.term R).value ≠ [] → admits R document (t.term R) = true := by
  induction ts generalizing query with
  | nil => simp
  | cons t ts ih =>
    rw [List.foldl_cons, ih, matches_pushToken hR, Bool.and_eq_true, decide_eq_true_eq, and_assoc]
    simp only [List.mem_cons, forall_eq_or_imp]

/-- The client takes the documents that each term admits. -/
theorem accepts_iff {R : Runtime} (hR : R.Lawful) (search : Text) (document : DocumentListItem) :
    accepts R search document = true ↔
      ∀ t ∈ tokens search, (t.term R).value ≠ [] → admits R document (t.term R) = true := by
  have hnone : documentMatchesAdvancedQuery R document {} = true := by simp [documentMatchesAdvancedQuery]
  rw [accepts, parseAdvancedDocumentQuery, matches_foldl hR]
  simp only [hnone, true_and]

end Web

end DocVault.Search
