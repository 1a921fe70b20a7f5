import DocVault.Documents

/-!
# The access policy

`PolicyService` of `metadata-service`: who may read a document's metadata,
preview it and download it. A decision is a function of what the store holds
when it is taken. Hashing and the base64url encoding of Node.js, and the
secrets that sign the grants, are parameters (`PolicyEnv`).
-/

namespace DocVault

/-! ## Rows -/

inductive AclSubjectType where
  | USER
  | ROLE
  | GROUP
  | ALL
  deriving DecidableEq

inductive DocumentPermission where
  | READ
  | DOWNLOAD
  | WRITE
  | APPROVE
  deriving DecidableEq

inductive AclEffect where
  | ALLOW
  | DENY
  deriving DecidableEq

inductive DocumentSharePermission where
  | VIEW
  | DOWNLOAD
  deriving DecidableEq

structure DocumentAcl where
  docId : String
  subjectType : AclSubjectType
  subjectId : Option String
  permission : DocumentPermission
  effect : AclEffect
  deriving DecidableEq

structure DocumentShareLink where
  docId : String
  tokenHash : String
  permission : DocumentSharePermission := .VIEW
  expiresAt : Time
  maxAccessCount : Option Int := none
  accessCount : Int := 0
  revokedAt : Option Time := none
  deriving DecidableEq

structure PolicyDb where
  documents : List Document
  versions : List DocumentVersion
  aclEntries : List DocumentAcl
  shareLinks : List DocumentShareLink
  unique : (documents.map (·.id)).Nodup

namespace PolicyDb

def find (db : PolicyDb) (docId organizationId : String) : Option Document :=
  db.documents.find? fun document => document.id = docId && document.organizationId = organizationId

def version (db : PolicyDb) (docId : String) (version : Int) : Option DocumentVersion :=
  db.versions.find? fun row => row.docId = docId && row.version = version

def acl (db : PolicyDb) (docId : String) : List DocumentAcl := db.aclEntries.filter (·.docId = docId)

theorem find_some {db : PolicyDb} {docId organizationId : String} {document : Document}
    (h : db.find docId organizationId = some document) :
    document ∈ db.documents ∧ document.id = docId ∧ document.organizationId = organizationId := by
  have hp := List.find?_some h
  simp only [Bool.and_eq_true, decide_eq_true_eq] at hp
  exact ⟨List.mem_of_find?_eq_some h, hp⟩

theorem version_some {db : PolicyDb} {docId : String} {n : Int} {row : DocumentVersion}
    (h : db.version docId n = some row) : row ∈ db.versions ∧ row.docId = docId ∧ row.version = n := by
  have hp := List.find?_some h
  simp only [Bool.and_eq_true, decide_eq_true_eq] at hp
  exact ⟨List.mem_of_find?_eq_some h, hp⟩

theorem find_mem (db : PolicyDb) {document : Document} (h : document ∈ db.documents) :
    db.find document.id document.organizationId = some document :=
  find?_of_nodup db.unique h (by simp) fun d hd => of_decide_eq_true ((Bool.and_eq_true _ _).mp hd).1

theorem eq_of_id (db : PolicyDb) {d document : Document} (hd : d ∈ db.documents) (h : document ∈ db.documents)
    (hid : d.id = document.id) : d = document := List.inj_on_of_nodup_map db.unique hd h hid

end PolicyDb

/-! ## Actors -/

def stripSlashes (group : String) : String := String.ofList (group.toList.dropWhile (· = '/'))

def normalizeGroups (groups : List String) : List String :=
  (((groups.map trim).filter (· ≠ "")).map stripSlashes).eraseDups

/-- A request with the groups of its user, and a share token if it brings one. -/
structure PolicyRequest extends Request where
  groups : List String := []
  shareToken : Option String := none

namespace PolicyRequest

def actorId (request : PolicyRequest) : String := buildActorId request.user

def roles (request : PolicyRequest) : List String := request.user.roles

def contextGroups (request : PolicyRequest) : List String := normalizeGroups request.groups

end PolicyRequest

/-! ## Grant tokens -/

/-- What the service uses of Node.js, and what `getSigningSecret` finds for its two grants. -/
structure PolicyEnv where
  sha256 : String → String
  hmacSha256 : String → String → String
  base64url : String → String
  kid : Option String := none
  downloadSecret : String
  previewSecret : String

instance : ToString ClassificationLevel where
  toString
    | .PUBLIC => "PUBLIC"
    | .INTERNAL => "INTERNAL"
    | .CONFIDENTIAL => "CONFIDENTIAL"
    | .SECRET => "SECRET"

def CLASSIFICATION_WATERMARK_LEVELS : ClassificationLevel → Bool
  | .PUBLIC => false
  | .INTERNAL => false
  | .CONFIDENTIAL => true
  | .SECRET => true

-- `toISOString`, of the dates that the clock shows.
def isoString (time : Time) : String :=
  if h : time.natAbs ≤ 8640000000000000 then (JsDate.mk time h).toISOString else "Invalid Date"

/-- What a grant token says. A preview grant says nothing of a watermark. -/
structure GrantPayload where
  actorId : String
  docId : String
  version : Int
  objectKey : String
  filename : String
  contentType : Option String
  expiresAt : String
  classification : ClassificationLevel
  watermarkRequired : Option Bool := none

-- `JSON.stringify` leaves out what is `undefined`.
def GrantPayload.json (payload : GrantPayload) (kid : Option String) : Json :=
  .obj ([("actorId", .str payload.actorId), ("docId", .str payload.docId),
    ("version", .num (toString payload.version)),
    ("objectKey", .str payload.objectKey), ("filename", .str payload.filename)] ++
    (payload.contentType.map fun contentType => ("contentType", .str contentType)).toList ++
    [("expiresAt", .str payload.expiresAt), ("classification", .str (toString payload.classification))] ++
    (payload.watermarkRequired.map fun required => ("watermarkRequired", .bool required)).toList ++
    (kid.map fun kid => ("kid", .str kid)).toList)

def signGrant (env : PolicyEnv) (secret : String) (payload : GrantPayload) : String :=
  let encoded := env.base64url (payload.json env.kid).stringify
  let signature := env.hmacSha256 secret encoded
  s!"{encoded}.{signature}"

def createGrantToken (env : PolicyEnv) (payload : GrantPayload) : String := signGrant env env.downloadSecret payload

def createPreviewGrantToken (env : PolicyEnv) (payload : GrantPayload) : String :=
  signGrant env env.previewSecret payload

structure GrantDto where
  version : Option Int := none

structure Authorization where
  docId : String
  version : Int
  objectKey : String
  filename : String
  contentType : Option String
  expiresInSeconds : Int
  expiresAt : String
  classification : ClassificationLevel
  watermarkRequired : Option Bool
  grantToken : String

/-! ## PolicyService -/

namespace PolicyService

def expiresInSeconds : Int := 300

def getActorGroups (request : PolicyRequest) : List String :=
  normalizeGroups (request.groups ++ request.contextGroups)

def matchesGroupSubject (subjectId : Option String) (groups : List String) : Bool :=
  match normalizeGroups (subjectId.filter (· ≠ "")).toList with
  | [] => false
  | normalizedSubject :: _ => normalizedSubject ≠ "" && groups.contains normalizedSubject

def matchesSubject (entry : DocumentAcl) (actorId : String) (roles groups : List String) : Bool :=
  match entry.subjectType with
  | .ALL => true
  | .USER => entry.subjectId = some actorId
  | .ROLE => entry.subjectId.any fun role => role ≠ "" && roles.contains role
  | .GROUP => matchesGroupSubject entry.subjectId groups

def matchesPermission (permission : DocumentPermission) (aclEntries : List DocumentAcl) (actorId : String)
    (roles groups : List String) (effect : AclEffect) : Bool :=
  aclEntries.any fun entry =>
    entry.permission = permission && entry.effect = effect && matchesSubject entry actorId roles groups

def matchesPreviewAcl : List DocumentAcl → String → List String → List String → AclEffect → Bool :=
  matchesPermission .READ

def matchesAcl : List DocumentAcl → String → List String → List String → AclEffect → Bool :=
  matchesPermission .DOWNLOAD

def getDeniedReason (status : DocumentStatus) (roles : List String) : Option String :=
  if roles.contains "compliance_officer" then some "Compliance officers are never allowed to download files"
  else if status ≠ .PUBLISHED then some "Only published documents can be downloaded"
  else none

-- A preview is allowed in every status.
def getPreviewDeniedReason : Option String := none

def getClassificationDeniedReason (classification : ClassificationLevel) (roles : List String)
    (actorId ownerId : String) (hasExplicitAllow : Bool) : Option String :=
  if roles.contains "admin" then none
  else match classification with
    | .PUBLIC => none
    | .INTERNAL =>
      if !hasSome roles ["editor", "approver", "admin"] then
        some "INTERNAL documents require at least the editor role"
      else none
    | .CONFIDENTIAL =>
      if hasExplicitAllow || actorId = ownerId then none
      else if !hasSome roles ["editor", "approver", "admin"] then
        some "CONFIDENTIAL documents require at least the editor role"
      else some "CONFIDENTIAL documents require explicit ACL grant or document ownership"
    | .SECRET =>
      if !hasSome roles ["approver", "admin"] then some "SECRET documents require at least the approver role"
      else if actorId ≠ ownerId && !hasExplicitAllow then
        some "SECRET documents require explicit ACL grant or document ownership"
      else none

def getPreviewClassificationDeniedReason (classification : ClassificationLevel) (roles : List String)
    (actorId ownerId : String) (hasExplicitAllow : Bool) : Option String :=
  if roles.contains "admin" then none
  else if roles.contains "approver" then none
  else if actorId = ownerId then none
  else getClassificationDeniedReason classification roles actorId ownerId hasExplicitAllow

def getAiContentDeniedReason (document : Document) (aclEntries : List DocumentAcl)
    (roles : List String) (actorId : String) (groups : List String) : Option String :=
  if roles.contains "compliance_officer" then
    some "Compliance officers cannot use file content for AI operations"
  else if document.status = .DELETED then some "Deleted documents cannot be used for AI content operations"
  else if document.currentVersion < 1 then some "Document has no uploaded version"
  else if matchesPreviewAcl aclEntries actorId roles groups .DENY then some "AI content access denied by ACL"
  else getPreviewClassificationDeniedReason document.classification roles actorId document.ownerId
    (matchesPreviewAcl aclEntries actorId roles groups .ALLOW)

def isLive (link : DocumentShareLink) (docId : String) (now : Time) : Bool :=
  link.docId = docId && link.revokedAt.isNone && now < link.expiresAt &&
    !link.maxAccessCount.any fun maxAccessCount => link.accessCount ≥ maxAccessCount

def resolveShareGrant (env : PolicyEnv) (db : PolicyDb) (docId : String) (shareToken : Option String) (now : Time) :
    Option DocumentSharePermission :=
  match shareToken with
  | none => none
  | some shareToken =>
    if trim shareToken = "" then none
    else ((db.shareLinks.find? (·.tokenHash = env.sha256 shareToken)).filter (isLive · docId now)).map
      (·.permission)

def findInOrg (db : PolicyDb) (docId : String) (request : PolicyRequest) : Except HttpError Document := do
  let organizationId ← requireOrgId request.toRequest
  match db.find docId organizationId with
  | none => .error (.notFound "Document not found")
  | some document => .ok document

def requireVersion (requestedVersion : Int) : Except HttpError Unit :=
  if requestedVersion < 1 then .error (.forbidden "Document has no uploaded version") else .ok ()

def findVersion (db : PolicyDb) (docId : String) (requestedVersion : Int) : Except HttpError DocumentVersion :=
  match db.version docId requestedVersion with
  | none => .error (.notFound "Document version not found")
  | some versionRecord => .ok versionRecord

def forbid (reason : Option String) : Except HttpError Unit :=
  match reason with
  | some reason => .error (.forbidden reason)
  | none => .ok ()

/-- What the ACL and the classification say, when no share link goes before them. -/
def contentDenied (shared denied : Bool) (refusal : String) (classificationReason : Option String) :
    Option String :=
  if shared then none
  else if denied then some refusal
  else classificationReason

def grantPayload (request : PolicyRequest) (document : Document) (versionRecord : DocumentVersion)
    (watermarkRequired : Option Bool) : GrantPayload where
  actorId := request.actorId
  docId := document.id
  version := versionRecord.version
  objectKey := versionRecord.objectKey
  filename := versionRecord.filename
  contentType := versionRecord.contentType
  expiresAt := isoString (request.now + expiresInSeconds * 1000)
  classification := document.classification
  watermarkRequired := watermarkRequired

def grant (sign : GrantPayload → String) (payload : GrantPayload) : Authorization where
  docId := payload.docId
  version := payload.version
  objectKey := payload.objectKey
  filename := payload.filename
  contentType := payload.contentType
  expiresInSeconds := expiresInSeconds
  expiresAt := payload.expiresAt
  classification := payload.classification
  watermarkRequired := payload.watermarkRequired
  grantToken := sign payload

def authorizeDownload (env : PolicyEnv) (db : PolicyDb) (docId : String) (dto : GrantDto)
    (request : PolicyRequest) : Except HttpError Authorization := do
  let document ← findInOrg db docId request
  let aclEntries := db.acl document.id
  let shareAllowsDownload :=
    resolveShareGrant env db docId request.shareToken request.now = some .DOWNLOAD
  let groups := getActorGroups request
  let requestedVersion := dto.version.getD document.currentVersion
  requireVersion requestedVersion
  let versionRecord ← findVersion db docId requestedVersion
  forbid (getDeniedReason document.status request.roles)
  forbid (contentDenied shareAllowsDownload (matchesAcl aclEntries request.actorId request.roles groups .DENY)
    "Download denied by ACL" (getClassificationDeniedReason document.classification request.roles request.actorId
      document.ownerId (matchesAcl aclEntries request.actorId request.roles groups .ALLOW)))
  .ok (grant (createGrantToken env) (grantPayload request document versionRecord
    (some (CLASSIFICATION_WATERMARK_LEVELS document.classification))))

def authorizePreview (env : PolicyEnv) (db : PolicyDb) (docId : String) (dto : GrantDto) (request : PolicyRequest) :
    Except HttpError Authorization := do
  let document ← findInOrg db docId request
  let aclEntries := db.acl document.id
  let shareAllowsPreview := (resolveShareGrant env db docId request.shareToken request.now).isSome
  let groups := getActorGroups request
  let requestedVersion := dto.version.getD document.currentVersion
  if request.roles.contains "compliance_officer" then
    .error (.forbidden "Compliance officers are not allowed to preview file content")
  else
    requireVersion requestedVersion
    let versionRecord ← findVersion db docId requestedVersion
    forbid getPreviewDeniedReason
    forbid (contentDenied shareAllowsPreview
      (matchesPreviewAcl aclEntries request.actorId request.roles groups .DENY)
      "Preview denied by ACL" (getPreviewClassificationDeniedReason document.classification request.roles
        request.actorId document.ownerId
          (matchesPreviewAcl aclEntries request.actorId request.roles groups .ALLOW)))
    .ok (grant (createPreviewGrantToken env) (grantPayload request document versionRecord none))

def SHARE_LINK_RECIPIENT_ROLES : List String := ["viewer", "editor", "approver", "admin"]

def metadataDenied (document : Document) (actorId : String) (roles : List String)
    (denied hasExplicitReadAllow hasExplicitDownloadAllow : Bool) : Option String :=
  let released := document.status = .PUBLISHED || document.status = .ARCHIVED
  if denied then some "Metadata read denied by ACL"
  else if roles.contains "admin" then none
  else if actorId = document.ownerId || hasExplicitReadAllow || hasExplicitDownloadAllow then none
  else if roles.contains "compliance_officer" then
    if released then none else some "Compliance officers can only read published or archived metadata"
  else if roles.contains "approver" then
    if document.status = .PENDING || released then none
    else some "Approvers can only read pending, published, or archived metadata"
  else if !released then some "Only published or archived documents are readable by this user"
  else if document.classification = .PUBLIC then none
  else if document.classification = .INTERNAL && hasSome roles ["editor"] then none
  else if document.classification = .CONFIDENTIAL && roles.contains "editor" && hasExplicitReadAllow then none
  else some "Metadata read denied by classification policy"

def assertCanReadMetadata (env : PolicyEnv) (db : PolicyDb) (docId : String) (request : PolicyRequest) :
    Except HttpError Document := do
  let document ← findInOrg db docId request
  if document.status = .DELETED then .error (.notFound "Document not found")
  else
    let shareAllowsMetadata := (resolveShareGrant env db docId request.shareToken request.now).isSome &&
      hasSome request.roles SHARE_LINK_RECIPIENT_ROLES
    if shareAllowsMetadata then .ok document
    else
      let aclEntries := db.acl document.id
      let groups := getActorGroups request
      forbid (metadataDenied document request.actorId request.roles
        (matchesPreviewAcl aclEntries request.actorId request.roles groups .DENY)
        (matchesPreviewAcl aclEntries request.actorId request.roles groups .ALLOW)
        (matchesAcl aclEntries request.actorId request.roles groups .ALLOW))
      .ok document

inductive AiGuardrailOperation where
  | METADATA_CLASSIFICATION
  | METADATA_TAGGING
  | CONTENT_SUMMARIZATION
  | CONTENT_QA
  deriving DecidableEq

structure AiGuardrails where
  documentId : String
  actorId : String
  classification : ClassificationLevel
  status : DocumentStatus
  canUseMetadata : Bool
  canUseContent : Bool
  allowedOperations : List AiGuardrailOperation
  deniedOperations : List (AiGuardrailOperation × String)

-- Asked without a share token.
def getAiGuardrails (env : PolicyEnv) (db : PolicyDb) (docId : String) (request : PolicyRequest) :
    Except HttpError AiGuardrails := do
  let document ← assertCanReadMetadata env db docId { request with shareToken := none }
  let contentDeniedReason := getAiContentDeniedReason document (db.acl document.id) request.roles request.actorId
    (getActorGroups request)
  .ok {
    documentId := docId
    actorId := request.actorId
    classification := document.classification
    status := document.status
    canUseMetadata := true
    canUseContent := contentDeniedReason.isNone
    allowedOperations := [.METADATA_CLASSIFICATION, .METADATA_TAGGING] ++
      if contentDeniedReason.isNone then [.CONTENT_SUMMARIZATION, .CONTENT_QA] else []
    deniedOperations := contentDeniedReason.toList.flatMap fun reason =>
      [(.CONTENT_SUMMARIZATION, reason), (.CONTENT_QA, reason)] }

end PolicyService

end DocVault
