import DocVault.DocumentSearch
import DocVault.FormUrlEncoded
import DocVault.JsonParse

/-!
# The filters of the document list

The state of the list's filters, the documents that they leave, and their way
through the parameters of a URL. A parameter holds scalar values: a surrogate
that stands alone is replaced in it.
-/

namespace DocVault.Search.Web

/-! ## State -/

inductive DocumentSortField where
  | updatedAt | createdAt | title | status | classification | ownerId
  deriving DecidableEq

inductive DocumentSortDirection where
  | asc | desc
  deriving DecidableEq

inductive DocumentQuickView where
  | all | needsAction | drafts | pendingReview | published | sensitive
  deriving DecidableEq

/-- `status` and `classification` may be `''`. -/
structure DocumentFiltersState where
  view : DocumentQuickView := .all
  search : Text := []
  status : Option DocumentStatus := none
  classification : Option ClassificationLevel := none
  folder : Text := []
  ownerId : Text := []
  tag : Text := []
  sort : DocumentSortField := .updatedAt
  sortDir : DocumentSortDirection := .desc
  deriving DecidableEq

def DEFAULT_DOCUMENT_FILTERS : DocumentFiltersState := {}

def SORT_FIELDS : List DocumentSortField := [.updatedAt, .createdAt, .title, .status, .classification, .ownerId]

def QUICK_VIEWS : List DocumentQuickView := [.all, .needsAction, .drafts, .pendingReview, .published, .sensitive]

/-! ## The documents that are left -/

def documentMatchesFolder (tags : List Text) (folder : Text) : Bool :=
  if folder = [] then true else tags.any fun tag => tag = folder || (folder ++ utf16 "/").isPrefixOf tag

def documentMatchesQuickView (document : DocumentListItem) : DocumentQuickView → Bool
  | .all => true
  | .needsAction => document.status = .DRAFT || document.status = .PENDING
  | .drafts => document.status = .DRAFT
  | .pendingReview => document.status = .PENDING
  | .published => document.status = .PUBLISHED
  | .sensitive => document.classification = .CONFIDENTIAL || document.classification = .SECRET ||
      document.dlpStatus = some (utf16 "DETECTED")

section
variable (R : Runtime) (localeCompare : Text → Text → Int)

/-- `none` is `NaN`. -/
def compareField (left right : DocumentListItem) : DocumentSortField → Option Int
  | .updatedAt => do return (← R.newDate left.updatedAt).ms - (← R.newDate right.updatedAt).ms
  | .createdAt => do return (← R.newDate left.createdAt).ms - (← R.newDate right.createdAt).ms
  | .ownerId => localeCompare (left.ownerDisplay.getD left.ownerId) (right.ownerDisplay.getD right.ownerId)
  | .title => localeCompare left.title right.title
  | .status => localeCompare (Metadata.statusText left.status) (Metadata.statusText right.status)
  | .classification =>
    localeCompare (Metadata.classificationText left.classification)
      (Metadata.classificationText right.classification)

-- The sort takes `NaN` for equal.
def compareDocuments (left right : DocumentListItem) (filters : DocumentFiltersState) : Int :=
  match compareField R localeCompare left right filters.sort with
  | none => 0
  | some primary =>
    if primary ≠ 0 then (if filters.sortDir = .asc then primary else -primary)
      else localeCompare left.title right.title

def documentPassesFilters (filters : DocumentFiltersState) (document : DocumentListItem) : Bool :=
  documentMatchesQuickView document filters.view &&
  accepts R filters.search document &&
  filters.status.all (document.status = ·) &&
  filters.classification.all (document.classification = ·) &&
  (filters.folder = [] || documentMatchesFolder document.tags filters.folder) &&
  (filters.ownerId = [] || document.ownerId = filters.ownerId) &&
  (filters.tag = [] || document.tags.contains filters.tag)

def filterAndSortDocuments (documents : List DocumentListItem) (filters : DocumentFiltersState) :
    List DocumentListItem :=
  (documents.filter (documentPassesFilters R filters)).insertionSort fun left right =>
    compareDocuments R localeCompare left right filters ≤ 0

end

/-! ## URL parameters -/

/-- A parameter's value of a text. -/
def usvString (t : Text) : String := String.ofList (Json.ofUtf16 t)

def viewName : DocumentQuickView → String
  | .all => "all"
  | .needsAction => "needs-action"
  | .drafts => "drafts"
  | .pendingReview => "pending-review"
  | .published => "published"
  | .sensitive => "sensitive"

def sortName : DocumentSortField → String
  | .updatedAt => "updatedAt"
  | .createdAt => "createdAt"
  | .title => "title"
  | .status => "status"
  | .classification => "classification"
  | .ownerId => "ownerId"

def sortDirName : DocumentSortDirection → String
  | .asc => "asc"
  | .desc => "desc"

def levelName : ClassificationLevel → String
  | .PUBLIC => "PUBLIC"
  | .INTERNAL => "INTERNAL"
  | .CONFIDENTIAL => "CONFIDENTIAL"
  | .SECRET => "SECRET"

/-- The value of a list that a parameter names. -/
def named {α : Type} (name : α → String) (values : List α) (value : Option String) : Option α :=
  values.find? fun a => value = some (name a)

/-- `if (value) params.set(name, value)` -/
def setSome (name : String) (value : Option String) (params : FormUrlEncoded.Params) : FormUrlEncoded.Params :=
  match value with
  | some value => FormUrlEncoded.set name value params
  | none => params

def unlessEmpty (t : Text) : Option String := if t = [] then none else some (usvString t)

def serializeDocumentFiltersToSearchParams (filters : DocumentFiltersState) : FormUrlEncoded.Params :=
  let params := setSome "q" (unlessEmpty (trimText filters.search)) []
  let params := setSome "view" (if filters.view ≠ .all then some (viewName filters.view) else none) params
  let params := setSome "status" (filters.status.map toString) params
  let params := setSome "classification" (filters.classification.map levelName) params
  let params := setSome "folder" (unlessEmpty filters.folder) params
  let params := setSome "owner" (unlessEmpty filters.ownerId) params
  let params := setSome "tag" (unlessEmpty filters.tag) params
  let params := setSome "sort" (if filters.sort ≠ .updatedAt then some (sortName filters.sort) else none) params
  setSome "dir" (if filters.sortDir ≠ .desc then some (sortDirName filters.sortDir) else none) params

def parseDocumentFiltersFromSearchParams (params : FormUrlEncoded.Params) : DocumentFiltersState :=
  let get name := FormUrlEncoded.get name params
  { view := (named viewName QUICK_VIEWS (get "view")).getD .all
    search := ((get "q").map utf16).getD []
    status := named toString Metadata.DOCUMENT_STATUSES (get "status")
    classification := named levelName Metadata.DOCUMENT_CLASSIFICATIONS (get "classification")
    folder := ((get "folder").map utf16).getD []
    ownerId := ((get "owner").map utf16).getD []
    tag := ((get "tag").map utf16).getD []
    sort := (named sortName SORT_FIELDS (get "sort")).getD .updatedAt
    sortDir := (named sortDirName [.asc, .desc] (get "dir")).getD .desc }

end DocVault.Search.Web
