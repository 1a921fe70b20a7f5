import DocVault.Documents
import DocVault.JsRegex
import Mathlib.Data.List.Infix

/-!
# The search language of the document list

A search is read twice: the metadata service makes a filter of the database of
it, and the web client a test of the listed documents. Both cut the search
into tokens with one expression.
-/

namespace DocVault.Search

open Regex

/-! ## Texts -/

def trimText (t : Text) : Text := ((t.dropWhile isBlank).reverse.dropWhile isBlank).reverse

def includes (t part : Text) : Bool := decide (part <:+: t)

/-- What the two sides ask of the language, at one instant. -/
structure Runtime where
  toLowerCase : Text → Text
  toUpperCase : Text → Text
  newDate : Text → Option JsDate
  now : Time

/-- What the code relies on. -/
structure Runtime.Lawful (R : Runtime) : Prop where
  lower_trim : ∀ t, R.toLowerCase (trimText t) = trimText (R.toLowerCase t)
  lower_lower : ∀ t, R.toLowerCase (R.toLowerCase t) = R.toLowerCase t
  lower_eq_nil : ∀ t, R.toLowerCase t = [] → t = []
  lower_ascii : ∀ t, (∀ u ∈ t, u < 128) → R.toLowerCase t = t.map fun u => if 65 ≤ u ∧ u ≤ 90 then u + 32 else u
  newDate_iso : ∀ d : JsDate, R.newDate (utf16 d.toISOString) = some d

variable (R : Runtime)

def normalizeText (value : Option Text) : Text := R.toLowerCase (trimText (value.getD []))

/-- `.replace(/[_\s-]+/g, '')` of the normalized text. -/
def normalizeEnumText (value : Option Text) : Text :=
  replaceAll isWord (plus fun u => isOneOf "_-" u || isBlank u) (fun _ => []) (normalizeText R value)

/-! ## Tokens -/

structure Token where
  rawKey : Option Text
  rawValue : Text
  deriving DecidableEq

/-- `(\w+):"([^"]+)"` -/
def keyedQuoted : Regex Nat := chain [plus isWord, text ":\"", plus fun u => !isOneOf "\"" u, text "\""]

/-- `(\w+):(\S+)` -/
def keyed : Regex Nat := chain [plus isWord, text ":", plus fun u => !isBlank u]

/-- `"([^"]+)"` -/
def quoted : Regex Nat := chain [text "\"", plus fun u => !isOneOf "\"" u, text "\""]

/-- `(\S+)` -/
def bare : Regex Nat := plus fun u => !isBlank u

def tokenPattern : Regex Nat := .alt keyedQuoted (.alt keyed (.alt quoted bare))

def takesWhole (r : Regex Nat) (w : Text) : Bool := (r.run isWord (false, w)).any fun c => c.2.isEmpty

-- The groups are those of the first alternative that takes the match.
def groups (w : Text) : Token :=
  let key := w.takeWhile isWord
  if takesWhole keyedQuoted w then ⟨some key, (w.drop (key.length + 2)).dropLast⟩
  else if takesWhole keyed w then ⟨some key, w.drop (key.length + 1)⟩
  else if takesWhole quoted w then ⟨none, (w.drop 1).dropLast⟩
  else ⟨none, w⟩

/-- `search.matchAll(tokenPattern)` -/
def tokens (search : Text) : List Token := (matchAll isWord tokenPattern search).map groups

inductive DateField where
  | createdAt | updatedAt | retentionUntil
  deriving DecidableEq

/-- The list that a key pushes to. -/
inductive Operator where
  | status | classification | owner | tag | folder | file | presence | dlp | retention
  | date (field : DateField)
  | free
  deriving DecidableEq

def operatorOf (key : Text) : Operator :=
  if key = utf16 "status" then .status
  else if key = utf16 "class" ∨ key = utf16 "classification" then .classification
  else if key = utf16 "owner" then .owner
  else if key = utf16 "tag" then .tag
  else if key = utf16 "folder" then .folder
  else if key = utf16 "file" ∨ key = utf16 "filename" then .file
  else if key = utf16 "has" then .presence
  else if key = utf16 "dlp" then .dlp
  else if key = utf16 "retention" then .retention
  else if key = utf16 "created" then .date .createdAt
  else if key = utf16 "updated" then .date .updatedAt
  else if key = utf16 "retentionuntil" then .date .retentionUntil
  else .free

structure DateRangeQuery where
  field : DateField
  from_ : Option JsDate
  to_ : Option JsDate

structure ParsedSearch where
  freeText : List Text := []
  status : List Text := []
  classification : List Text := []
  owner : List Text := []
  tag : List Text := []
  folder : List Text := []
  file : List Text := []
  presence : List Text := []
  dlp : List Text := []
  retention : List Text := []
  dateRanges : List DateRangeQuery := []

def ParsedSearch.push (query : ParsedSearch) (operator : Operator) (value freeText : Text)
    (range : DateField → Option DateRangeQuery) : ParsedSearch :=
  match operator with
  | .status => { query with status := query.status ++ [value] }
  | .classification => { query with classification := query.classification ++ [value] }
  | .owner => { query with owner := query.owner ++ [value] }
  | .tag => { query with tag := query.tag ++ [value] }
  | .folder => { query with folder := query.folder ++ [value] }
  | .file => { query with file := query.file ++ [value] }
  | .presence => { query with presence := query.presence ++ [value] }
  | .dlp => { query with dlp := query.dlp ++ [value] }
  | .retention => { query with retention := query.retention ++ [value] }
  | .date field => { query with dateRanges := query.dateRanges ++ (range field).toList }
  | .free => { query with freeText := query.freeText ++ [freeText] }

/-! ## Dates -/

/-- `/^\d{4}-\d{2}-\d{2}$/` -/
def isDay (t : Text) : Bool :=
  takesWhole (chain [times (.one isDigit) 4, text "-", times (.one isDigit) 2, text "-", times (.one isDigit) 2]) t

def parseDateBound (value : Text) (endOfDay : Bool) : Option JsDate :=
  let trimmed := trimText value
  if trimmed = [] then none
  else R.newDate (if isDay trimmed then
    trimmed ++ utf16 "T" ++ utf16 (if endOfDay then "23:59:59.999" else "00:00:00.000") ++ utf16 "Z" else trimmed)

/-- `value.split('..', 2)`, and the value twice where it has no `..`. -/
def splitRange (value : Text) : Text × Text :=
  if includes value (utf16 "..") then
    let parts := (text "..").scan isWord 0 false value
    let rest := (parts.dropWhile Sum.isLeft).drop 1
    ((parts.takeWhile Sum.isLeft).filterMap Sum.getLeft?, (rest.takeWhile Sum.isLeft).filterMap Sum.getLeft?)
  else (value, value)

def parseRange (field : DateField) (value : Text) : Option DateRangeQuery :=
  let (rawFrom, rawTo) := splitRange value
  let from_ := if rawFrom = [] then none else parseDateBound R rawFrom false
  let to_ := if rawTo = [] then none else parseDateBound R rawTo true
  if from_ = none ∧ to_ = none then none else some ⟨field, from_, to_⟩

/-! ## Rows and what the list shows of them -/

structure FileVersion where
  filename : Text
  contentType : Option Text
  size : Nat

/-- A row with its versions, the latest first. -/
structure StoredDocument where
  title : Text
  description : Option Text
  ownerId : Text
  classification : ClassificationLevel
  dlpStatus : Text
  retentionClass : Option Text
  retentionUntil : Option JsDate
  retentionReason : Option Text
  legalHold : Bool
  tags : List Text
  status : DocumentStatus
  currentVersion : Nat
  createdAt : JsDate
  updatedAt : JsDate
  versions : List FileVersion

structure DocumentListItem where
  title : Text
  description : Option Text
  ownerId : Text
  ownerDisplay : Option Text
  classification : ClassificationLevel
  dlpStatus : Option Text
  retentionClass : Option Text
  retentionUntil : Option Text
  retentionReason : Option Text
  legalHold : Option Bool := none
  tags : List Text
  status : DocumentStatus
  currentVersion : Nat
  filename : Option Text
  mimeType : Option Text
  fileSize : Option Nat
  createdAt : Text
  updatedAt : Text

def isoText (d : JsDate) : Text := utf16 d.toISOString

-- A date is its ISO text in the response.
def toListSummary (document : StoredDocument) : DocumentListItem where
  title := document.title
  description := document.description
  ownerId := document.ownerId
  ownerDisplay := none
  classification := document.classification
  dlpStatus := some document.dlpStatus
  retentionClass := document.retentionClass
  retentionUntil := document.retentionUntil.map isoText
  retentionReason := document.retentionReason
  legalHold := some document.legalHold
  tags := document.tags
  status := document.status
  currentVersion := document.currentVersion
  filename := document.versions.head?.map (·.filename)
  mimeType := document.versions.head?.bind (·.contentType)
  fileSize := document.versions.head?.map (·.size)
  createdAt := isoText document.createdAt
  updatedAt := isoText document.updatedAt

/-! ## The filter of the metadata service -/

inductive TextField where
  | title | description | ownerId | retentionClass | retentionReason

/-- `Prisma.DocumentWhereInput`, as far as the search uses it. -/
inductive Where where
  | contains (field : TextField) (value : Text)
  | status (value : DocumentStatus)
  | classification (value : ClassificationLevel)
  | tagsHas (value : Text)
  | someVersion (filename : Option Text)
  | retentionClassNull (null : Bool)
  | retentionUntilNull (null : Bool)
  | dlpStatus (value : Text)
  | legalHold (value : Bool)
  | date (field : DateField) (gte gt lte lt : Option Time)
  | both (a b : Where)
  | either (a b : Where)

def StoredDocument.textField (document : StoredDocument) : TextField → Option Text
  | .title => some document.title
  | .description => document.description
  | .ownerId => some document.ownerId
  | .retentionClass => document.retentionClass
  | .retentionReason => document.retentionReason

def StoredDocument.dateField (document : StoredDocument) : DateField → Option JsDate
  | .createdAt => some document.createdAt
  | .updatedAt => some document.updatedAt
  | .retentionUntil => document.retentionUntil

/-- `contains` with `mode: 'insensitive'` -/
def containsInsensitive (field value : Text) : Bool := includes (R.toLowerCase field) (R.toLowerCase value)

-- A comparison with `NULL` holds of no row.
def Where.holds (document : StoredDocument) : Where → Bool
  | contains field value => (document.textField field).any fun t => containsInsensitive R t value
  | status value => document.status = value
  | classification value => document.classification = value
  | tagsHas value => document.tags.contains value
  | someVersion filename =>
      document.versions.any fun v => filename.all fun value => containsInsensitive R v.filename value
  | retentionClassNull null => document.retentionClass.isNone = null
  | retentionUntilNull null => document.retentionUntil.isNone = null
  | dlpStatus value => document.dlpStatus = value
  | legalHold value => document.legalHold = value
  | date field gte gt lte lt => (document.dateField field).any fun d =>
      gte.all (· ≤ d.ms) && gt.all (· < d.ms) && lte.all (d.ms ≤ ·) && lt.all (d.ms < ·)
  | both a b => a.holds document && b.holds document
  | either a b => a.holds document || b.holds document

namespace Metadata

def DOCUMENT_STATUSES : List DocumentStatus := [.DRAFT, .PENDING, .PUBLISHED, .ARCHIVED, .DELETED]

def DOCUMENT_CLASSIFICATIONS : List ClassificationLevel := [.PUBLIC, .INTERNAL, .CONFIDENTIAL, .SECRET]

def DUE_SOON_DAYS : Int := 30

def statusText (status : DocumentStatus) : Text := utf16 (toString status)

def classificationText : ClassificationLevel → Text
  | .PUBLIC => utf16 "PUBLIC"
  | .INTERNAL => utf16 "INTERNAL"
  | .CONFIDENTIAL => utf16 "CONFIDENTIAL"
  | .SECRET => utf16 "SECRET"

def findEnumValue {α : Type} (show_ : α → Text) (values : List α) (query : Text) : Option α :=
  values.find? fun value => normalizeEnumText R (some (show_ value)) = normalizeEnumText R (some query)

def parseDateRangeQuery (field : DateField) (value : Text) : Option DateRangeQuery := parseRange R field value

def pushToken (query : ParsedSearch) (token : Token) : ParsedSearch :=
  let value := trimText token.rawValue
  if value = [] then query
  else query.push (operatorOf (normalizeText R token.rawKey)) value
    (match token.rawKey with
    | some key => if key = [] then value else key ++ utf16 ":" ++ value
    | none => value)
    (fun field => parseDateRangeQuery R field value)

def parseDocumentListSearch (searchQuery : Text) : ParsedSearch :=
  let search := trimText searchQuery
  if search = [] then {} else (tokens search).foldl (pushToken R) {}

def buildPresenceFilter (operator : Text) : Option Where :=
  let normalized := normalizeEnumText R (some operator)
  if normalized = utf16 "file" ∨ normalized = utf16 "files" then some (.someVersion none)
  else if normalized = utf16 "retention" then some (.either (.retentionClassNull false) (.retentionUntilNull false))
  else if normalized = utf16 "dlp" then some (.dlpStatus (utf16 "DETECTED"))
  else if normalized = utf16 "legalhold" ∨ normalized = utf16 "hold" then some (.legalHold true)
  else none

/-- `operator.trim().toUpperCase().replace(/[\s-]+/g, '_')` -/
def dlpValue (operator : Text) : Text :=
  replaceAll isWord (plus fun u => isBlank u || isOneOf "-" u) (fun _ => utf16 "_")
    (R.toUpperCase (trimText operator))

def buildDlpStatusFilter (operator : Text) : Option Where :=
  let normalized := normalizeEnumText R (some operator)
  if normalized = utf16 "detected" then some (.dlpStatus (utf16 "DETECTED"))
  else if normalized = utf16 "clear" then some (.dlpStatus (utf16 "CLEAR"))
  else if normalized = utf16 "notscanned" then some (.dlpStatus (utf16 "NOT_SCANNED"))
  else if normalized = [] then none
  else some (.dlpStatus (dlpValue R operator))

def buildRetentionFilter (operator : Text) : Option Where :=
  let normalized := normalizeEnumText R (some operator)
  let dueSoonLimit := R.now + DUE_SOON_DAYS * DAY_MS
  if normalized = utf16 "unset" then some (.both (.retentionClassNull true) (.retentionUntilNull true))
  else if normalized = utf16 "overdue" then some (.date .retentionUntil none none none (some R.now))
  else if normalized = utf16 "duesoon" then some (.date .retentionUntil (some R.now) none (some dueSoonLimit) none)
  else if normalized = utf16 "active" then some (.date .retentionUntil none (some dueSoonLimit) none none)
  else if normalized = utf16 "archived" then some (.status .ARCHIVED)
  else if trimText operator = [] then none
  else some (.either (.contains .retentionClass operator) (.contains .retentionReason operator))

def buildDateRangeFilter (range : DateRangeQuery) : Where :=
  .date range.field (range.from_.map (·.ms)) none (range.to_.map (·.ms)) none

def buildTextSearchFilter (term : Text) : Where :=
  .either (.contains .title term) (.either (.contains .description term)
    (.either (.tagsHas term) (.someVersion (some term))))

def searchFilters (query : ParsedSearch) : List Where :=
  query.freeText.map buildTextSearchFilter ++
  query.status.filterMap (fun status => (findEnumValue R statusText DOCUMENT_STATUSES status).map .status) ++
  query.classification.filterMap (fun classification =>
    (findEnumValue R classificationText DOCUMENT_CLASSIFICATIONS classification).map .classification) ++
  query.owner.map (.contains .ownerId) ++
  (query.tag ++ query.folder).map .tagsHas ++
  query.file.map (fun filename => .someVersion (some filename)) ++
  query.presence.filterMap (buildPresenceFilter R) ++
  query.dlp.filterMap (buildDlpStatusFilter R) ++
  query.retention.filterMap (buildRetentionFilter R) ++
  query.dateRanges.map buildDateRangeFilter

/-- The filters that all have to hold; without any there is no filter. -/
def buildDocumentSearchFilter (searchQuery : Text) : List Where :=
  searchFilters R (parseDocumentListSearch R searchQuery)

def selects (searchQuery : Text) (document : StoredDocument) : Bool :=
  (buildDocumentSearchFilter R searchQuery).all (Where.holds R document)

end Metadata

/-! ## The test of the web client -/

namespace Web

def parseDateRangeQuery (field : DateField) (value : Text) : Option DateRangeQuery :=
  let trimmed := trimText value
  if trimmed = [] then none else parseRange R field trimmed

def pushToken (query : ParsedSearch) (token : Token) : ParsedSearch :=
  let value := normalizeText R (some token.rawValue)
  if value = [] then query
  else query.push (operatorOf (normalizeText R token.rawKey)) value value
    (fun field => parseDateRangeQuery R field token.rawValue)

def parseAdvancedDocumentQuery (search : Text) : ParsedSearch := (tokens search).foldl (pushToken R) {}

def someIncludes (values : List (Option Text)) (term : Text) : Bool :=
  values.any fun value => includes (normalizeText R value) term

def documentMatchesFreeText (document : DocumentListItem) (query : Text) : Bool :=
  someIncludes R ([some document.title, document.description, document.filename, some document.ownerId,
    document.ownerDisplay, some (Metadata.statusText document.status),
    some (Metadata.classificationText document.classification)] ++ document.tags.map some) query

def truthy (value : Option Text) : Bool := value.any fun t => !t.isEmpty

def documentHasFile (document : DocumentListItem) : Bool :=
  truthy document.filename || truthy document.mimeType || document.fileSize.isSome || 0 < document.currentVersion

def matchesPresenceOperator (document : DocumentListItem) (operator : Text) : Bool :=
  let normalized := normalizeEnumText R (some operator)
  if normalized = utf16 "file" ∨ normalized = utf16 "files" then documentHasFile document
  else if normalized = utf16 "retention" then truthy document.retentionClass || truthy document.retentionUntil
  else if normalized = utf16 "dlp" then document.dlpStatus = some (utf16 "DETECTED")
  else false

def matchesDlpOperator (document : DocumentListItem) (operator : Text) : Bool :=
  let normalized := normalizeEnumText R (some operator)
  if normalized = utf16 "detected" then document.dlpStatus = some (utf16 "DETECTED")
  else if normalized = utf16 "clear" then document.dlpStatus = some (utf16 "CLEAR")
  else if normalized = utf16 "notscanned" then
    !truthy document.dlpStatus || document.dlpStatus = some (utf16 "NOT_SCANNED")
  else includes (normalizeEnumText R document.dlpStatus) normalized

/-- `new Date(value).getTime()` of a value that is there. -/
def getTime (value : Option Text) : Option Time :=
  (value.filter fun t => !t.isEmpty).bind fun t => (R.newDate t).map (·.ms)

def matchesRetentionOperator (document : DocumentListItem) (operator : Text) : Bool :=
  let normalized := normalizeEnumText R (some operator)
  let retentionTime := getTime R document.retentionUntil
  let dueSoonLimit := R.now + 30 * 24 * 60 * 60 * 1000
  if normalized = utf16 "unset" then !truthy document.retentionClass && !truthy document.retentionUntil
  else if normalized = utf16 "overdue" then retentionTime.any fun t => t < R.now
  else if normalized = utf16 "duesoon" then retentionTime.any fun t => R.now ≤ t && t ≤ dueSoonLimit
  else if normalized = utf16 "active" then retentionTime.any fun t => dueSoonLimit < t
  else if normalized = utf16 "archived" then document.status = .ARCHIVED
  else someIncludes R [document.retentionClass, document.retentionReason] (normalizeText R (some operator))

def dateOf (document : DocumentListItem) : DateField → Option Text
  | .createdAt => some document.createdAt
  | .updatedAt => some document.updatedAt
  | .retentionUntil => document.retentionUntil

def matchesDateRange (value : Option Text) (range : DateRangeQuery) : Bool :=
  (getTime R value).any fun time => range.from_.all (fun d => d.ms ≤ time) && range.to_.all (fun d => time ≤ d.ms)

def documentMatchesAdvancedQuery (document : DocumentListItem) (query : ParsedSearch) : Bool :=
  query.freeText.all (documentMatchesFreeText R document) &&
  query.status.all (fun term => includes (normalizeEnumText R (some (Metadata.statusText document.status)))
    (normalizeEnumText R (some term))) &&
  query.classification.all (fun term =>
    includes (normalizeEnumText R (some (Metadata.classificationText document.classification)))
      (normalizeEnumText R (some term))) &&
  query.owner.all (someIncludes R [some document.ownerId, document.ownerDisplay]) &&
  query.tag.all (fun term => someIncludes R (document.tags.map some) term) &&
  query.folder.all (fun term => someIncludes R (document.tags.map some) term) &&
  query.file.all (fun term => includes (normalizeText R document.filename) term) &&
  query.presence.all (matchesPresenceOperator R document) &&
  query.dlp.all (matchesDlpOperator R document) &&
  query.retention.all (matchesRetentionOperator R document) &&
  query.dateRanges.all (fun range => matchesDateRange R (dateOf document range.field) range)

def accepts (search : Text) (document : DocumentListItem) : Bool :=
  documentMatchesAdvancedQuery R document (parseAdvancedDocumentQuery R search)

end Web

end DocVault.Search
