import DocVault.JsNumber
import DocVault.SavedViewLabels
import DocVault.SearchSuggestions

/-!
# The command center of the document list

The page counts the documents that need attention, and links each count to the
list filtered by a URL. The predicates that count and those behind the filters
are written apart. The gauge over all documents is left out.
-/

namespace DocVault.CommandCenter

open Search Search.Web SavedViews

/-! ## Data -/

inductive DocumentCommandCenterTone where
  | info | success | warning | critical
  deriving DecidableEq

structure DocumentCommandMetric where
  key : String
  label : String
  value : Nat
  description : String
  tone : DocumentCommandCenterTone
  href : String

structure DocumentCommandSegment where
  key : Text
  label : Text
  value : Nat
  percentage : JsNumber
  tone : DocumentCommandCenterTone
  href : Option String

structure DocumentCommandCenter where
  metrics : List DocumentCommandMetric
  lifecycleSegments : List DocumentCommandSegment
  classificationSegments : List DocumentCommandSegment
  attentionSegments : List DocumentCommandSegment
  savedViewSegments : List DocumentCommandSegment

structure AnalyticsVisibility where
  canViewApprovalAggregates : Bool
  canViewRetentionAggregates : Bool
  canViewSecurityAggregates : Bool
  canViewSensitiveDocumentAggregates : Bool

def DEFAULT_ANALYTICS_VISIBILITY : AnalyticsVisibility where
  canViewApprovalAggregates := false
  canViewRetentionAggregates := false
  canViewSecurityAggregates := false
  canViewSensitiveDocumentAggregates := false

structure DocumentCommandCenterOptions where
  now : Option Time := none
  analyticsVisibility : Option AnalyticsVisibility := none

structure DocumentSavedViewOption extends DocumentSavedView where
  count : Nat

def ROUTES_DOCUMENTS : String := "/documents"

def STATUSES : List (DocumentStatus × String × DocumentCommandCenterTone) := [
  (.DRAFT, "Draft", .info),
  (.PENDING, "Pending", .warning),
  (.PUBLISHED, "Published", .success),
  (.ARCHIVED, "Archived", .info),
  (.DELETED, "Deleted", .critical)]

def CLASSIFICATIONS : List (ClassificationLevel × String × DocumentCommandCenterTone) := [
  (.PUBLIC, "Public", .success),
  (.INTERNAL, "Internal", .info),
  (.CONFIDENTIAL, "Confidential", .warning),
  (.SECRET, "Secret", .critical)]

/-! ## Counting -/

def isSensitiveDocument (document : DocumentListItem) : Bool :=
  document.classification = .CONFIDENTIAL || document.classification = .SECRET ||
    document.dlpStatus = some (utf16 "DETECTED")

def buildDocumentsHref (filters : DocumentFiltersState) : String :=
  let query := FormUrlEncoded.serialize (serializeDocumentFiltersToSearchParams filters)
  if query = "" then ROUTES_DOCUMENTS else ROUTES_DOCUMENTS ++ "?" ++ query

def toPercentage (value total : Nat) : JsNumber :=
  if total ≤ 0 then .finite 0
  else (((JsNumber.finite value).div (.finite total)).mul (.finite 100)).round

/-- `condition ? [a] : []` -/
def onlyIf {α : Type} (condition : Bool) (a : α) : List α := if condition then [a] else []

def lifecycleSegment (documents : List DocumentListItem)
    (status : DocumentStatus × String × DocumentCommandCenterTone) :
    DocumentCommandSegment :=
  let value := (documents.filter fun document => document.status = status.1).length
  { key := Metadata.statusText status.1
    label := utf16 status.2.1
    value := value
    percentage := toPercentage value documents.length
    tone := status.2.2
    href := some (buildDocumentsHref { DEFAULT_DOCUMENT_FILTERS with status := some status.1 }) }

def buildLifecycleSegments (documents : List DocumentListItem) : List DocumentCommandSegment :=
  STATUSES.map (lifecycleSegment documents)

def classificationSegment (documents : List DocumentListItem)
    (classification : ClassificationLevel × String × DocumentCommandCenterTone) : DocumentCommandSegment :=
  let value := (documents.filter fun document => document.classification = classification.1).length
  { key := Metadata.classificationText classification.1
    label := utf16 classification.2.1
    value := value
    percentage := toPercentage value documents.length
    tone := classification.2.2
    href := some (buildDocumentsHref { DEFAULT_DOCUMENT_FILTERS with classification := some classification.1 }) }

def buildClassificationSegments (documents : List DocumentListItem) : List DocumentCommandSegment :=
  CLASSIFICATIONS.map (classificationSegment documents)

/-- One of the segments that are pushed one after the other. -/
def attentionSegment (key label : String) (value total : Nat) (tone : DocumentCommandCenterTone)
    (filters : DocumentFiltersState) : DocumentCommandSegment where
  key := utf16 key
  label := utf16 label
  value := value
  percentage := toPercentage value total
  tone := if 0 < value then tone else .success
  href := some (buildDocumentsHref filters)

def getSavedViewTone (view : DocumentSavedViewOption) : DocumentCommandCenterTone :=
  match view.filters.view with
  | .sensitive => .critical
  | .pendingReview => .warning
  | .needsAction => .warning
  | .published => .success
  | _ => .info

section
variable (R : Runtime)

def isRetentionDueSoon (document : DocumentListItem) (now : Time) : Bool :=
  if !Web.truthy document.retentionUntil || document.status = .ARCHIVED || document.status = .DELETED then false
  else
    let dueSoonLimit := now + 30 * 24 * 60 * 60 * 1000
    (Web.getTime R document.retentionUntil).any fun retentionTime => now ≤ retentionTime &&
      retentionTime ≤ dueSoonLimit

def buildAttentionSegments (documents : List DocumentListItem) (now : Time) (visibility : AnalyticsVisibility) :
    List DocumentCommandSegment :=
  let total := documents.length
  let dlpDetected := (documents.filter fun document => document.dlpStatus = some (utf16 "DETECTED")).length
  let pendingReview := (documents.filter fun document => document.status = .PENDING).length
  let retentionDueSoon := (documents.filter fun document => isRetentionDueSoon R document now).length
  let legalHold := (documents.filter fun document => document.legalHold = some true).length
  let draftHandoff := (documents.filter fun document => document.status = .DRAFT).length
  onlyIf visibility.canViewSecurityAggregates
    (attentionSegment "dlp-detected" "DLP detected" dlpDetected total .critical
    { DEFAULT_DOCUMENT_FILTERS with search := utf16 "dlp:detected" }) ++
  onlyIf visibility.canViewApprovalAggregates
    (attentionSegment "pending-review" "Pending review" pendingReview total
    .warning { DEFAULT_DOCUMENT_FILTERS with view := .pendingReview }) ++
  onlyIf visibility.canViewRetentionAggregates
    (attentionSegment "retention-due-soon" "Retention due soon" retentionDueSoon
    total .warning { DEFAULT_DOCUMENT_FILTERS with search := utf16 "retention:due-soon" }) ++
  onlyIf visibility.canViewSensitiveDocumentAggregates
    (attentionSegment "legal-hold" "Legal hold" legalHold total .info
    { DEFAULT_DOCUMENT_FILTERS with search := utf16 "has:legal-hold" }) ++
  [attentionSegment "draft-handoff" "Draft handoff" draftHandoff total .info
    { DEFAULT_DOCUMENT_FILTERS with view := .drafts }]

def isDocumentFilterVisible (filters : DocumentFiltersState) (visibility : AnalyticsVisibility) : Bool :=
  let search := R.toLowerCase filters.search
  let sensitiveView := filters.view = .sensitive || filters.classification = some .CONFIDENTIAL ||
    filters.classification = some .SECRET ||
    ["dlp:", "tag:security", "has:legal-hold", "class:confidential", "class:secret", "classification:confidential",
      "classification:secret"].any fun part => includes search (utf16 part)
  let approvalView := filters.view = .pendingReview || filters.view = .needsAction ||
    filters.status = some .PENDING || includes search (utf16 "status:pending")
  let retentionView := includes search (utf16 "retention:")
  if sensitiveView && !visibility.canViewSensitiveDocumentAggregates then false
  else if approvalView && !visibility.canViewApprovalAggregates then false
  else if retentionView && !visibility.canViewRetentionAggregates then false
  else true

-- The sort is stable, so that views of one count stay in their order.
def buildSavedViewSegments (savedViews : List DocumentSavedViewOption) (totalDocuments : Nat)
    (visibility : AnalyticsVisibility) : List DocumentCommandSegment :=
  let shown := savedViews.filter fun view => 0 < view.count && isDocumentFilterVisible R view.filters visibility
  ((shown.insertionSort fun left right => right.count ≤ left.count).take 4).map fun view =>
    { key := view.id
      label := view.label
      value := view.count
      percentage := toPercentage view.count totalDocuments
      tone := getSavedViewTone view
      href := some (buildDocumentsHref view.filters) }

/-- The list that `metrics` is given. -/
def buildMetrics (documents : List DocumentListItem) (now : Time) (visibility : AnalyticsVisibility) :
    List DocumentCommandMetric :=
  let pendingReview := (documents.filter fun document => document.status = .PENDING).length
  let sensitiveDocuments := (documents.filter isSensitiveDocument).length
  let retentionDueSoon := (documents.filter fun document => isRetentionDueSoon R document now).length
  [{ key := "total-documents"
     label := "Total documents"
     value := documents.length
     description := "Visible documents in the current library."
     tone := .info
     href := ROUTES_DOCUMENTS }] ++
  onlyIf visibility.canViewApprovalAggregates
    { key := "pending-review"
      label := "Pending review"
      value := pendingReview
      description := "Documents waiting for approval decisions."
      tone := if 0 < pendingReview then .warning else .success
      href := buildDocumentsHref { DEFAULT_DOCUMENT_FILTERS with view := .pendingReview } } ++
  onlyIf visibility.canViewSensitiveDocumentAggregates
    { key := "sensitive-documents"
      label := "Sensitive"
      value := sensitiveDocuments
      description := "Confidential, secret, or DLP-detected documents."
      tone := if 0 < sensitiveDocuments then .critical else .success
      href := buildDocumentsHref { DEFAULT_DOCUMENT_FILTERS with view := .sensitive } } ++
  onlyIf visibility.canViewRetentionAggregates
    { key := "retention-due-soon"
      label := "Retention due soon"
      value := retentionDueSoon
      description := "Records approaching their retention deadline."
      tone := if 0 < retentionDueSoon then .warning else .success
      href := buildDocumentsHref { DEFAULT_DOCUMENT_FILTERS with search := utf16 "retention:due-soon" } }

def buildDocumentCommandCenter (documents : List DocumentListItem) (savedViews : List DocumentSavedViewOption)
    (options : DocumentCommandCenterOptions) : DocumentCommandCenter :=
  let now := options.now.getD R.now
  let visibility := options.analyticsVisibility.getD DEFAULT_ANALYTICS_VISIBILITY
  { metrics := buildMetrics R documents now visibility
    lifecycleSegments := buildLifecycleSegments documents
    classificationSegments :=
      if visibility.canViewSensitiveDocumentAggregates then buildClassificationSegments documents else []
    attentionSegments := buildAttentionSegments R documents now visibility
    savedViewSegments := buildSavedViewSegments R savedViews documents.length visibility }

end

/-! ## The drill-down -/

/-- What follows the question mark of a link. -/
def hrefQuery (href : String) : String := String.ofList ((href.toList.dropWhile (· ≠ '?')).drop 1)

/-- The filters that the list reads back from a link. -/
def filtersOf (href : String) : DocumentFiltersState :=
  parseDocumentFiltersFromSearchParams (FormUrlEncoded.parse (hrefQuery href))

section
variable (R : Runtime) (localeCompare : Text → Text → Int) (documents : List DocumentListItem)

/-- A count is the number of documents that its link leads to. -/
def DrillsDown (value : Nat) (href : String) : Prop :=
  value = (filterAndSortDocuments R localeCompare documents (filtersOf href)).length

structure CountsAgree (center : DocumentCommandCenter) : Prop where
  metrics : ∀ metric ∈ center.metrics, DrillsDown R localeCompare documents metric.value metric.href
  lifecycle : ∀ segment ∈ center.lifecycleSegments, ∀ href ∈ segment.href,
    DrillsDown R localeCompare documents segment.value href
  classification : ∀ segment ∈ center.classificationSegments, ∀ href ∈ segment.href,
    DrillsDown R localeCompare documents segment.value href
  attention : ∀ segment ∈ center.attentionSegments, ∀ href ∈ segment.href,
    DrillsDown R localeCompare documents segment.value href

/-- No archived or deleted document has its deadline in the next thirty days. -/
def NoRetiredDeadline : Prop :=
  ∀ document ∈ documents, ∀ deadline ∈ Web.getTime R document.retentionUntil,
    R.now ≤ deadline → deadline ≤ R.now + 30 * 24 * 60 * 60 * 1000 →
      document.status ≠ .ARCHIVED ∧ document.status ≠ .DELETED

end

/-! ## Links read back -/

theorem hrefQuery_mark (query : String) : hrefQuery (ROUTES_DOCUMENTS ++ "?" ++ query) = query := by
  simp [hrefQuery, ROUTES_DOCUMENTS]

/-- Every filters state comes back as far as a URL keeps it. -/
theorem filtersOf_href (filters : DocumentFiltersState) :
    filtersOf (buildDocumentsHref filters) = kept filters := by
  have hquery : FormUrlEncoded.parse (hrefQuery (buildDocumentsHref filters)) =
      serializeDocumentFiltersToSearchParams filters := by
    have hback := FormUrlEncoded.parse_serialize (serializeDocumentFiltersToSearchParams filters)
    simp only [buildDocumentsHref]
    split
    · next hempty =>
      rw [hempty] at hback
      exact hback
    · rw [hrefQuery_mark, hback]
  rw [filtersOf, hquery]
  exact normalizeFilters_eq filters

theorem filtersOf_route : filtersOf ROUTES_DOCUMENTS = DEFAULT_DOCUMENT_FILTERS := by rfl

section
variable {R : Runtime} {localeCompare : Text → Text → Int} {documents : List DocumentListItem}

theorem length_filterAndSort (filters : DocumentFiltersState) :
    (filterAndSortDocuments R localeCompare documents filters).length =
      (documents.filter (documentPassesFilters R filters)).length := by
  rw [filterAndSortDocuments, List.length_insertionSort]

theorem drillsDown_iff {value : Nat} {filters : DocumentFiltersState} :
    DrillsDown R localeCompare documents value (buildDocumentsHref filters) ↔
      value = (documents.filter (documentPassesFilters R (kept filters))).length := by
  rw [DrillsDown, filtersOf_href, length_filterAndSort]

/-- Filters of a quick view, a search, a status and a classification. -/
theorem passes_kept {search : Text} (hsearch : usvText (trimText search) = search) (view : DocumentQuickView)
    (status : Option DocumentStatus) (classification : Option ClassificationLevel) (document : DocumentListItem) :
    documentPassesFilters R
      (kept { view := view, search := search, status := status, classification := classification })
        document =
      (documentMatchesQuickView document view && accepts R search document && status.all (document.status = ·) &&
        classification.all (document.classification = ·)) := by
  simp [kept, documentPassesFilters, hsearch]

theorem search_nil : usvText (trimText []) = [] := by rfl

theorem drillsDown_of {p : DocumentListItem → Bool} {filters : DocumentFiltersState}
    (h : ∀ document, documentPassesFilters R (kept filters) document = p document) :
    DrillsDown R localeCompare documents (documents.filter p).length (buildDocumentsHref filters) := by
  rw [drillsDown_iff, funext h]

theorem view_drillsDown (hR : R.Lawful) (view : DocumentQuickView) :
    DrillsDown R localeCompare documents (documents.filter fun document =>
      documentMatchesQuickView document view).length
      (buildDocumentsHref { DEFAULT_DOCUMENT_FILTERS with view := view }) :=
  drillsDown_of fun document => (passes_kept search_nil view none none document).trans (by simp [accepts_nil hR])

theorem status_drillsDown (hR : R.Lawful) (status : DocumentStatus) :
    DrillsDown R localeCompare documents (documents.filter fun document => document.status = status).length
      (buildDocumentsHref { DEFAULT_DOCUMENT_FILTERS with status := some status }) :=
  drillsDown_of fun document => (passes_kept search_nil .all (some status) none document).trans (by
    simp [accepts_nil hR, documentMatchesQuickView])

theorem classification_drillsDown (hR : R.Lawful) (level : ClassificationLevel) :
    DrillsDown R localeCompare documents (documents.filter fun document => document.classification = level).length
      (buildDocumentsHref { DEFAULT_DOCUMENT_FILTERS with classification := some level }) :=
  drillsDown_of fun document => (passes_kept search_nil .all none (some level) document).trans (by
    simp [accepts_nil hR, documentMatchesQuickView])

/-- A count beside a search. -/
theorem search_drillsDown_iff {search : Text} (hsearch : usvText (trimText search) = search) {value : Nat} :
    DrillsDown R localeCompare documents value (buildDocumentsHref
      { DEFAULT_DOCUMENT_FILTERS with search := search }) ↔
      value = (documents.filter (accepts R search)).length := by
  have hpasses : documentPassesFilters R (kept { DEFAULT_DOCUMENT_FILTERS with search := search }) =
    accepts R search :=
    funext fun document => (passes_kept hsearch .all none none document).trans (by simp [documentMatchesQuickView])
  rw [drillsDown_iff, hpasses]

/-- Of two predicates the stricter counts as much exactly when it leaves nothing out. -/
theorem length_filter_eq_iff {α : Type} {p q : α → Bool} (h : ∀ a, p a = true → q a = true) (l : List α) :
    (l.filter p).length = (l.filter q).length ↔ ∀ a ∈ l, q a = true → p a = true := by
  apply Iff.intro
  · intro heq a ha hq
    have hsame : l.filter p = l.filter q := (List.monotone_filter_right l h).eq_of_length heq
    exact (List.mem_filter.mp (hsame ▸ List.mem_filter.mpr ⟨ha, hq⟩)).2
  · intro hall
    rw [List.filter_congr fun a ha => Bool.eq_iff_iff.mpr ⟨h a, hall a ha⟩]

theorem dlp_drillsDown (hR : R.Lawful) :
    DrillsDown R localeCompare documents
      (documents.filter fun document => document.dlpStatus = some (utf16 "DETECTED")).length
      (buildDocumentsHref { DEFAULT_DOCUMENT_FILTERS with search := utf16 "dlp:detected" }) := by
  rw [search_drillsDown_iff (by decide)]
  have haccepts : ∀ document : DocumentListItem, decide (document.dlpStatus = some (utf16 "DETECTED")) =
      accepts R (utf16 "dlp:detected") document := fun document =>
    Bool.eq_iff_iff.mpr (decide_eq_true_iff.trans (accepts_dlp hR).symm)
  rw [funext haccepts]

theorem hold_drillsDown_iff (hR : R.Lawful) :
    DrillsDown R localeCompare documents (documents.filter fun document => document.legalHold = some true).length
      (buildDocumentsHref { DEFAULT_DOCUMENT_FILTERS with search := utf16 "has:legal-hold" }) ↔
      ∀ document ∈ documents, document.legalHold ≠ some true := by
  rw [search_drillsDown_iff (by decide)]
  have hnone : documents.filter (accepts R (utf16 "has:legal-hold")) = [] :=
    List.filter_eq_nil_iff.mpr fun document _ => by simp [accepts_hold hR]
  rw [hnone, List.length_nil, List.length_eq_zero_iff, List.filter_eq_nil_iff]
  simp

theorem matches_dueSoon (hR : R.Lawful) (document : DocumentListItem) :
    matchesRetentionOperator R document (utf16 "due-soon") =
      (Web.getTime R document.retentionUntil).any fun t => R.now ≤ t && t ≤ R.now + 30 * 24 * 60 * 60 * 1000 := by
  have hsmall : Small (utf16 "due-soon") := by decide
  have hname : asciiWord (utf16 "due-soon") = utf16 "duesoon" := by decide
  have hno : utf16 "duesoon" ≠ utf16 "unset" ∧ utf16 "duesoon" ≠ utf16 "overdue" := by decide
  simp only [matchesRetentionOperator, hsmall.normalizeEnumText hR, hname, hno, if_false, if_true]

theorem getTime_falsy {value : Option Text} (h : Web.truthy value = false) : Web.getTime R value = none := by
  unfold Web.truthy at h
  cases value with
  | none => rfl
  | some t => simp_all [Web.getTime]

/-- The count skips what is archived or deleted, the search does not. -/
theorem isRetentionDueSoon_eq (hR : R.Lawful) (document : DocumentListItem) :
    isRetentionDueSoon R document R.now = (accepts R (utf16 "retention:due-soon") document &&
      !(document.status = .ARCHIVED || document.status = .DELETED)) := by
  have haccepts : accepts R (utf16 "retention:due-soon") document = _ :=
    (Bool.eq_iff_iff.mpr (accepts_dueSoon hR)).trans (matches_dueSoon hR document)
  rw [haccepts, isRetentionDueSoon]
  by_cases htext : Web.truthy document.retentionUntil = true
  · by_cases hretired : document.status = .ARCHIVED ∨ document.status = .DELETED
    · obtain harchived | hdeleted := hretired
      · simp [harchived]
      · simp [hdeleted]
    · obtain ⟨harchived, hdeleted⟩ := not_or.mp hretired
      simp [htext, harchived, hdeleted]
  · simp [htext, getTime_falsy]

theorem retention_drillsDown_iff (hR : R.Lawful) :
    DrillsDown R localeCompare documents (documents.filter fun document =>
      isRetentionDueSoon R document R.now).length
      (buildDocumentsHref { DEFAULT_DOCUMENT_FILTERS with search := utf16 "retention:due-soon" }) ↔
      NoRetiredDeadline R documents := by
  have hstrict : ∀ document, isRetentionDueSoon R document R.now = true →
      accepts R (utf16 "retention:due-soon") document = true := fun document h => by
    rw [isRetentionDueSoon_eq hR, Bool.and_eq_true] at h
    exact h.1
  rw [search_drillsDown_iff (by decide), length_filter_eq_iff hstrict]
  refine forall₂_congr fun document _ => ?_
  have hdue : accepts R (utf16 "retention:due-soon") document = true ↔
    ∃ deadline ∈ Web.getTime R document.retentionUntil,
      R.now ≤ deadline ∧ deadline ≤ R.now + 30 * 24 * 60 * 60 * 1000 := by
    rw [accepts_dueSoon hR, matches_dueSoon hR, Option.any_eq_true]
    simp only [Bool.and_eq_true, decide_eq_true_eq, Option.mem_def]
  rw [isRetentionDueSoon_eq hR, Bool.and_eq_true, hdue]
  simp only [Bool.not_eq_true', Bool.or_eq_false_iff, decide_eq_false_iff_not]
  apply Iff.intro
  · intro h deadline hmem hnow hlimit
    exact (h ⟨deadline, hmem, hnow, hlimit⟩).2
  · intro h hsoon
    obtain ⟨deadline, hmem, hnow, hlimit⟩ := hsoon
    exact ⟨⟨deadline, hmem, hnow, hlimit⟩, h deadline hmem hnow hlimit⟩

/-! ## The whole page -/

theorem forall_onlyIf {α : Type} {P : α → Prop} (condition : Bool) (a : α) :
    (∀ x ∈ onlyIf condition a, P x) ↔ (condition = true → P a) := by
  cases condition
  · simp [onlyIf]
  · simp [onlyIf]

theorem pending_drillsDown (hR : R.Lawful) :
    DrillsDown R localeCompare documents (documents.filter fun document => document.status = .PENDING).length
      (buildDocumentsHref { DEFAULT_DOCUMENT_FILTERS with view := .pendingReview }) :=
      view_drillsDown hR .pendingReview

theorem drafts_drillsDown (hR : R.Lawful) :
    DrillsDown R localeCompare documents (documents.filter fun document => document.status = .DRAFT).length
      (buildDocumentsHref { DEFAULT_DOCUMENT_FILTERS with view := .drafts }) := view_drillsDown hR .drafts

theorem sensitive_drillsDown (hR : R.Lawful) :
    DrillsDown R localeCompare documents (documents.filter isSensitiveDocument).length
      (buildDocumentsHref { DEFAULT_DOCUMENT_FILTERS with view := .sensitive }) := view_drillsDown hR .sensitive

theorem total_drillsDown (hR : R.Lawful) :
    DrillsDown R localeCompare documents documents.length ROUTES_DOCUMENTS := by
  have hall : documents.filter (documentPassesFilters R DEFAULT_DOCUMENT_FILTERS) = documents :=
    List.filter_eq_self.mpr fun document _ =>
      (passes_kept search_nil .all none none document).trans (by simp [accepts_nil hR, documentMatchesQuickView])
  rw [DrillsDown, filtersOf_route, length_filterAndSort, hall]

theorem metrics_agree_iff (hR : R.Lawful) (visibility : AnalyticsVisibility) :
    (∀ metric ∈ buildMetrics R documents R.now visibility,
      DrillsDown R localeCompare documents metric.value metric.href) ↔
      (visibility.canViewRetentionAggregates = true → NoRetiredDeadline R documents) := by
  simp only [buildMetrics, List.forall_mem_append, forall_onlyIf, List.forall_mem_singleton, total_drillsDown hR,
    pending_drillsDown hR, sensitive_drillsDown hR, retention_drillsDown_iff hR, implies_true, true_and]

/-- The counts of the attention segments. -/
theorem attention_agree_iff (hR : R.Lawful) (visibility : AnalyticsVisibility) :
    (∀ segment ∈ buildAttentionSegments R documents R.now visibility, ∀ href ∈ segment.href,
      DrillsDown R localeCompare documents segment.value href) ↔
      (visibility.canViewRetentionAggregates = true → NoRetiredDeadline R documents) ∧
        (visibility.canViewSensitiveDocumentAggregates = true →
          ∀ document ∈ documents, document.legalHold ≠ some true) := by
  simp only [buildAttentionSegments, List.forall_mem_append, forall_onlyIf,
    List.forall_mem_singleton, attentionSegment,
    Option.mem_some_iff, forall_eq', dlp_drillsDown hR, pending_drillsDown hR, retention_drillsDown_iff hR,
    hold_drillsDown_iff hR, drafts_drillsDown hR, implies_true, true_and, and_true]

theorem lifecycle_agree (hR : R.Lawful) : ∀ segment ∈ buildLifecycleSegments documents, ∀ href ∈ segment.href,
    DrillsDown R localeCompare documents segment.value href := by
  intro segment hsegment href hhref
  obtain ⟨status, -, rfl⟩ := List.mem_map.mp hsegment
  obtain rfl := Option.mem_some_iff.mp hhref
  exact status_drillsDown hR status.1

theorem classification_agree (hR : R.Lawful) :
    ∀ segment ∈ buildClassificationSegments documents, ∀ href ∈ segment.href,
    DrillsDown R localeCompare documents segment.value href := by
  intro segment hsegment href hhref
  obtain ⟨level, -, rfl⟩ := List.mem_map.mp hsegment
  obtain rfl := Option.mem_some_iff.mp hhref
  exact classification_drillsDown hR level.1

/-- The counts lead to as many documents exactly when none that is retired has its
deadline soon and none is held. -/
theorem counts_agree_iff (hR : R.Lawful) (localeCompare : Text → Text → Int) (documents : List DocumentListItem)
    (savedViews : List DocumentSavedViewOption) (analyticsVisibility : Option AnalyticsVisibility) :
    CountsAgree R localeCompare documents (buildDocumentCommandCenter R documents savedViews
      { now := some R.now, analyticsVisibility := analyticsVisibility }) ↔
      ((analyticsVisibility.getD DEFAULT_ANALYTICS_VISIBILITY).canViewRetentionAggregates = true →
        NoRetiredDeadline R documents) ∧
      ((analyticsVisibility.getD DEFAULT_ANALYTICS_VISIBILITY).canViewSensitiveDocumentAggregates = true →
        ∀ document ∈ documents, document.legalHold ≠ some true) := by
  generalize hvisibility : analyticsVisibility.getD DEFAULT_ANALYTICS_VISIBILITY = visibility
  apply Iff.intro
  · intro h
    have hattention := h.attention
    simp only [buildDocumentCommandCenter, hvisibility, Option.getD_some] at hattention
    exact (attention_agree_iff hR visibility).mp hattention
  · intro hcondition
    refine ⟨?_, lifecycle_agree hR, ?_, ?_⟩
    · simp only [buildDocumentCommandCenter, hvisibility, Option.getD_some]
      exact (metrics_agree_iff hR visibility).mpr hcondition.1
    · simp only [buildDocumentCommandCenter, hvisibility]
      split
      · exact classification_agree hR
      · simp
    · simp only [buildDocumentCommandCenter, hvisibility, Option.getD_some]
      exact (attention_agree_iff hR visibility).mpr hcondition

end

/-! ## A document under hold -/

def fullVisibility : AnalyticsVisibility where
  canViewApprovalAggregates := true
  canViewRetentionAggregates := true
  canViewSecurityAggregates := true
  canViewSensitiveDocumentAggregates := true

/-- The document once released, and an archived one whose deadline is over. -/
def releasedDocuments : List DocumentListItem :=
  [{ heldDocument with legalHold := some false, retentionUntil := some (utf16 "1970-01-11T00:00:00.000Z") },
    { heldDocument with
      legalHold := none, status := .ARCHIVED, retentionUntil := some (utf16 "1969-12-01T00:00:00.000Z") }]

theorem released_documents_counted : CountsAgree sampleRuntime (fun _ _ => 0) releasedDocuments
    (buildDocumentCommandCenter sampleRuntime releasedDocuments []
      { now := some sampleRuntime.now, analyticsVisibility := some fullVisibility }) := by
  refine (counts_agree_iff sampleRuntime_lawful (fun _ _ => 0) releasedDocuments [] (some fullVisibility)).mpr
    ⟨fun _ document hdocument => ?_, fun _ => by decide +kernel⟩
  have hall : ∀ document ∈ releasedDocuments, ∀ deadline ∈ Web.getTime sampleRuntime document.retentionUntil,
      sampleRuntime.now ≤ deadline → document.status ≠ .ARCHIVED ∧ document.status ≠ .DELETED := by
    decide +kernel
  exact fun deadline hdeadline hnow _ => hall document hdocument deadline hdeadline hnow

/-- One document is counted as held, and its link leads to none. -/
theorem held_document_drills_to_nothing : ¬∀ (R : Runtime) (localeCompare : Text → Text → Int)
    (documents : List DocumentListItem) (savedViews : List DocumentSavedViewOption)
    (analyticsVisibility : Option AnalyticsVisibility), R.Lawful →
      CountsAgree R localeCompare documents (buildDocumentCommandCenter R documents savedViews
        { now := some R.now, analyticsVisibility := analyticsVisibility }) := by
  intro h
  have hagree := (h sampleRuntime (fun _ _ => 0) [heldDocument] []
    (some fullVisibility) sampleRuntime_lawful).attention
  have hnone := ((attention_agree_iff sampleRuntime_lawful fullVisibility).mp hagree).2 rfl
  exact hnone heldDocument List.mem_cons_self rfl

end DocVault.CommandCenter
