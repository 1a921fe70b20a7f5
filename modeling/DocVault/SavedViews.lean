import DocVault.DocumentFilters
import DocVault.JsonText

/-!
# Saved views

The views that a user saves of the document list's filters, and their way
through the browser's storage. What is read back is any JSON value, so that
every place where the code may throw is an exception here.
-/

namespace DocVault.SavedViews

open Regex Search Search.Web JsonText

inductive DocumentSavedViewSource where
  | builtIn | custom
  deriving DecidableEq

structure DocumentSavedView where
  id : Text
  label : Text
  description : Text
  source : DocumentSavedViewSource
  filters : DocumentFiltersState
  deriving DecidableEq

def DESCRIPTION : Text := utf16 "Saved from the current document workbench filters."

/-! ## Making a view -/

/-- `.trim().replace(/\s+/g, ' ')` -/
def collapsed (value : Text) : Text := replaceAll isWord (plus isBlank) (fun _ => utf16 " ") (trimText value)

def normalizeLabel (value : Text) : Text :=
  let normalized := (collapsed value).take 48
  if normalized = [] then utf16 "Saved view" else normalized

def normalizeFilters (filters : DocumentFiltersState) : DocumentFiltersState :=
  parseDocumentFiltersFromSearchParams (serializeDocumentFiltersToSearchParams filters)

/-- `.replace(/^-+|-+$/g, '')` -/
def stripDashes (t : Text) : Text := ((t.dropWhile (· = 45)).reverse.dropWhile (· = 45)).reverse

section
variable (R : Runtime)

def slugify (value : Text) : Text :=
  let dashed := replaceAll isWord (plus fun u => !(isDigit u || (97 ≤ u && u ≤ 122))) (fun _ => utf16 "-")
    (R.toLowerCase value)
  let slug := (stripDashes dashed).take 40
  if slug = [] then utf16 "view" else slug

def timestampSlug (value : Text) : Text :=
  match R.newDate value with
  | none => if slugify R value = [] then utf16 "manual" else slugify R value
  | some date => (replaceAll isWord (.one fun u => !isDigit u) (fun _ => []) (utf16 date.toISOString)).take 14

def createCustomDocumentSavedView (label : Text) (filters : DocumentFiltersState) (generatedAt : Text) :
    DocumentSavedView where
  id := utf16 "custom-" ++ slugify R (normalizeLabel label) ++ utf16 "-" ++ timestampSlug R generatedAt
  label := normalizeLabel label
  description := DESCRIPTION
  source := .custom
  filters := normalizeFilters filters

end

/-! ## Writing -/

def sourceName : DocumentSavedViewSource → String
  | .builtIn => "built-in"
  | .custom => "custom"

def nameOr {α : Type} (name : α → String) (value : Option α) : Text := (value.map fun a => utf16 (name a)).getD []

def filtersValue (filters : DocumentFiltersState) : JsonValue :=
  .obj [
    (utf16 "view", .str (utf16 (viewName filters.view))),
    (utf16 "search", .str filters.search),
    (utf16 "status", .str (nameOr toString filters.status)),
    (utf16 "classification", .str (nameOr levelName filters.classification)),
    (utf16 "folder", .str filters.folder),
    (utf16 "ownerId", .str filters.ownerId),
    (utf16 "tag", .str filters.tag),
    (utf16 "sort", .str (utf16 (sortName filters.sort))),
    (utf16 "sortDir", .str (utf16 (sortDirName filters.sortDir)))]

def viewValue (view : DocumentSavedView) : JsonValue :=
  .obj [
    (utf16 "id", .str view.id),
    (utf16 "label", .str view.label),
    (utf16 "description", .str view.description),
    (utf16 "source", .str (utf16 (sourceName view.source))),
    (utf16 "filters", filtersValue view.filters)]

/-! ## Values of any kind -/

inductive Exception where
  | typeError

def truthy : JsonValue → Bool
  | .null => false
  | .bool b => b
  | .num n => n ≠ .finite 0 && n ≠ .nan
  | .str t => !t.isEmpty
  | .arr _ => true
  | .obj _ => true

def isObject : JsonValue → Bool
  | .arr _ => true
  | .obj _ => true
  | _ => false

def isText (value : JsonValue) (t : Text) : Bool :=
  match value with
  | .str s => s = t
  | _ => false

def orDefault (value : Option JsonValue) (default_ : Text) : JsonValue :=
  match value with
  | none => .str default_
  | some .null => .str default_
  | some value => value

-- Only a text has a `trim` that can be called.
def trimmed : JsonValue → Except Exception Text
  | .str t => .ok (trimText t)
  | _ => .error .typeError

section
variable (numberText : JsNumber → Text)

-- An object's own `toString` is no function, and its `valueOf` gives no primitive value.
mutual
def stringOf : JsonValue → Except Exception Text
  | .null => .ok (utf16 "null")
  | .bool b => .ok (if b then utf16 "true" else utf16 "false")
  | .num n => .ok (numberText n)
  | .str t => .ok t
  | .arr l => (elementStrings l).map ((utf16 ",").intercalate ·)
  | .obj fields => if fields.any (·.1 = utf16 "toString") then .error .typeError else .ok (utf16 "[object Object]")
/-- What `join` puts together: an element that is `null` is left empty. -/
def elementStrings : List JsonValue → Except Exception (List Text)
  | [] => .ok []
  | .null :: l => (elementStrings l).map ([] :: ·)
  | v :: l => do
    let t ← stringOf v
    let ts ← elementStrings l
    return t :: ts
end

/-! ## Reading -/

/-- A parameter of the URL: its value, and whether the code sets it. -/
structure Param where
  name : String
  value : JsonValue
  isSet : Bool

def setParam (params : FormUrlEncoded.Params) (param : Param) : Except Exception FormUrlEncoded.Params :=
  if param.isSet then (stringOf numberText param.value).map fun t =>
    FormUrlEncoded.set param.name (usvString t) params
  else .ok params

def nonEmpty (name : String) (value : JsonValue) : Param := ⟨name, value, truthy value⟩

def nonDefault (name : String) (value : JsonValue) (default_ : String) : Param :=
  ⟨name, value, !isText value (utf16 default_)⟩

-- An array has a `sort` of its own, a function, whose text names no field either.
def paramsOf (candidate : JsonValue) : List Param := [
  nonDefault "view" (orDefault (prop candidate "view") (utf16 "all")) "all",
  nonEmpty "status" (orDefault (prop candidate "status") []),
  nonEmpty "classification" (orDefault (prop candidate "classification") []),
  nonEmpty "folder" (orDefault (prop candidate "folder") []),
  nonEmpty "owner" (orDefault (prop candidate "ownerId") []),
  nonEmpty "tag" (orDefault (prop candidate "tag") []),
  nonDefault "sort" (orDefault (prop candidate "sort") (utf16 "updatedAt")) "updatedAt",
  nonDefault "dir" (orDefault (prop candidate "sortDir") (utf16 "desc")) "desc"]

/-- `serializeDocumentFiltersToSearchParams` of values of any kind. -/
def serializeValues (candidate : JsonValue) : Except Exception FormUrlEncoded.Params := do
  let search ← trimmed (orDefault (prop candidate "search") [])
  (paramsOf candidate).foldlM (setParam numberText) (setSome "q" (unlessEmpty search) [])

def isOther (value : Option JsonValue) (parsed : Text) : Bool :=
  value.any fun value => truthy value && !isText value parsed

def parseFilters (value : JsonValue) : Except Exception (Option DocumentFiltersState) :=
  if isObject value then do
    let params ← serializeValues numberText value
    let parsed := parseDocumentFiltersFromSearchParams params
    let invalidStatus := isOther (prop value "status") (nameOr toString parsed.status)
    let invalidClassification := isOther (prop value "classification") (nameOr levelName parsed.classification)
    let invalidView := isOther (prop value "view") (utf16 (viewName parsed.view))
    return if invalidStatus || invalidClassification || invalidView then none else some parsed
  else .ok none

structure Checked where
  id : Text
  label : Text
  filters : JsonValue

def checkItem (item : JsonValue) : Option Checked :=
  match prop item "id", prop item "label", prop item "filters" with
  | some (.str id), some (.str label), some filters =>
    if (utf16 "custom-").isPrefixOf id && !(trimText label).isEmpty &&
      (prop item "source").any (isText · (utf16 "custom")) && truthy filters then some ⟨id, label, filters⟩
    else none
  | _, _, _ => none

def descriptionOf (item : JsonValue) : Text :=
  match prop item "description" with
  | some (.str description) => if (trimText description).isEmpty then DESCRIPTION else trimText description
  | _ => DESCRIPTION

def parseCustomView (item : JsonValue) : Except Exception (Option DocumentSavedView) :=
  match checkItem item with
  | none => .ok none
  | some checked => do
    let filters ← parseFilters numberText checked.filters
    return filters.map fun filters =>
      { id := checked.id, label := normalizeLabel checked.label, description := descriptionOf item,
        source := .custom,
        filters := filters }

/-- The views of an array's entries. One `catch` is around all of them. -/
def parseEntries (entries : List JsonValue) : List DocumentSavedView :=
  match entries.mapM (parseCustomView numberText) with
  | .ok views => views.flatMap Option.toList
  | .error _ => []

def parseCustomDocumentSavedViews (value : Option Text) : List DocumentSavedView :=
  match value with
  | none => []
  | some [] => []
  | some t =>
    match JsonText.parse t with
    | some (.arr entries) => parseEntries numberText entries
    | _ => []

def serializeCustomDocumentSavedViews (views : List DocumentSavedView) : Text :=
  stringify numberText (.arr ((views.filter (·.source = .custom)).map viewValue))

end

end DocVault.SavedViews
