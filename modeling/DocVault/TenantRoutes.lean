import DocVault.TenantStore
import Mathlib.Algebra.GroupWithZero.Nat

/-!
# The routes of metadata-service

Every route on documents, versions, statuses, ACL entries, comments, retention,
saved views and share links, over the store of all organizations. What the
other modules have as programs and decisions is run here on that store; the
rest is written out. Ids and tokens that are generated are part of a request.
-/

namespace DocVault

open Isolation (Action action)

abbrev TenantM := Action TenantDb HttpError

/-- The environment of the policy, and the users that the directory has as approvers and admins. -/
structure TenantEnv where
  policy : PolicyEnv
  approvers : List String

namespace TenantM

def guard {α : Type} (x : Except HttpError α) : TenantM α := Action.ofExcept x

def decide {α : Type} (f : PolicyDb → Except HttpError α) : TenantM α := Action.read fun db => f db.policy

def read {α : Type} (f : TenantDb → α) : TenantM α := Action.read fun db => .ok (f db)

def write (f : TenantDb → TenantDb) : TenantM Unit := Action.act fun db => ((), f db)

def documents {α : Type} (m : DocumentM α) : TenantM α := action TenantDb.runDocument m

def shareLinks {α : Type} (m : ShareLinkM α) : TenantM α := action TenantDb.runShareLink m

/-- An insert, which a primary key may refuse. -/
def create {α : Type} (row : α) (insert : TenantDb → Option TenantDb) : TenantM α := do
  let created ← Action.act fun db =>
    match insert db with
    | some db' => (some row, db')
    | none => (none, db)
  guard (updated created)

end TenantM

open TenantM

/-- A document with the columns that no decision looks at. -/
structure TenantDocument extends Document where
  text : Option DocumentText

def withText (document : Document) : TenantM TenantDocument :=
  read fun db => { document with text := db.text document.id }

-- A document of another organization is not found.
def findInTenant (docId : String) (request : Request) : TenantM Document := documents (findInOrg docId request)

def assertCanRead (env : TenantEnv) (docId : String) (request : PolicyRequest) : TenantM Document :=
  decide fun db => PolicyService.assertCanReadMetadata env.policy db docId { request with shareToken := none }

/-! ## Documents -/

namespace TenantDocuments

/-- A filter of the list looks at a document, its text and its versions. -/
abbrev SearchFilter := Document → Option DocumentText → List DocumentVersion → Bool

def searchWhere (db : TenantDb) (searchFilter : SearchFilter) : DocumentWhere := fun document _ =>
  searchFilter document (db.text document.id) (db.versions.filter (·.docId = document.id))

structure TenantSummary extends DocumentSummary where
  text : Option DocumentText

def findAll (searchFilter : Option SearchFilter) (request : PolicyRequest) : TenantM (List TenantSummary) :=
  Action.read fun db => do
    let summaries ← DocumentsService.findAll db.policy request (searchFilter.map (searchWhere db))
    .ok (summaries.map fun summary => { summary with text := db.text summary.id })

structure TrashEntry where
  docId : String
  title : String
  ownerId : String
  classification : ClassificationLevel
  deletedAt : Option String
  purgeAt : Option String
  daysUntilPurge : Option Int
  recoverable : Bool

def trashRecoveryDays : Int := 30

def trashEntry (title : String) (now : Time) (document : Document) : TrashEntry :=
  let purgeAt := document.deletedAt.map (· + trashRecoveryDays * DAY_MS)
  -- `Math.ceil`
  let daysUntilPurge := purgeAt.map fun purgeAt => -((now - purgeAt) / DAY_MS)
  { docId := document.id
    title := title
    ownerId := document.ownerId
    classification := document.classification
    deletedAt := document.deletedAt.map isoString
    purgeAt := purgeAt.map isoString
    daysUntilPurge := daysUntilPurge
    recoverable := daysUntilPurge.any (0 < ·) }

-- PostgreSQL puts the rows without a date first.
def laterDeleted (a b : Document) : Bool :=
  match a.deletedAt, b.deletedAt with
  | none, _ => true
  | some _, none => false
  | some a, some b => b ≤ a

def inTrash (organizationId : String) (context : RequestContext) (document : Document) : Bool :=
  document.organizationId = organizationId && document.status = .DELETED &&
    (context.roles.contains "admin" || document.ownerId = context.actorId)

def listTrash (request : Request) : TenantM (List TrashEntry) := do
  let organizationId ← guard (requireOrgId request)
  read fun db =>
    ((db.documents.rows.filter (inTrash organizationId request.context)).insertionSort fun a b =>
      laterDeleted a b).map fun document => trashEntry (db.title document.id) request.now document

structure TextDto where
  title : String
  description : Option String := none
  tags : Option (List String) := none

structure TextUpdate where
  title : Option String := none
  description : Option String := none
  tags : Option (List String) := none

def sanitizeTags (tags : Option (List String)) : List String :=
  (((tags.getD []).map trim).filter (· ≠ "")).eraseDups

def TextUpdate.set (data : TextUpdate) (text : DocumentText) : DocumentText :=
  { text with
    title := data.title.getD text.title
    description := data.description.orElse fun _ => text.description
    tags := (data.tags.map fun tags => sanitizeTags (some tags)).getD text.tags }

-- One insert of the source is two here, and so is one update.
def create (dto : CreateDocumentDto) (text : TextDto) (uuid : String) (request : Request) :
    TenantM TenantDocument := do
  let document ← documents (DocumentsController.create dto request uuid)
  write fun db => { db with
    texts := db.texts ++ [⟨document.id, text.title, text.description, sanitizeTags text.tags⟩] }
  withText document

def update (docId : String) (dto : UpdateDocumentDto) (data : TextUpdate) (request : Request) :
    TenantM TenantDocument := do
  let document ← documents (DocumentsController.update docId dto request)
  write fun db => { db with texts := db.texts.map fun text =>
    if text.docId = document.id then data.set text else text }
  withText document

def withTextOf (m : DocumentM Document) : TenantM TenantDocument := do
  let document ← documents m
  withText document

-- The newest row first.
def workflowHistory (env : TenantEnv) (docId : String) (request : PolicyRequest) :
    TenantM (List DocumentWorkflowHistory) := do
  let _ ← guard (RolesGuard ["viewer", "editor", "approver", "compliance_officer", "admin"] request.user)
  let _ ← assertCanRead env docId request
  read fun db => (db.history.filter (·.docId = docId)).reverse

end TenantDocuments

/-! ## The simulation of an access change -/

namespace PolicyService

def SIMULATED_ROLES : List String := ["viewer", "editor", "approver", "compliance_officer", "admin"]

structure AccessImpactState where
  classification : ClassificationLevel
  status : DocumentStatus
  watermarkRequired : Bool

structure Impact where
  current : Bool
  proposed : Bool

structure RoleImpact where
  role : String
  metadata : Impact
  download : Impact
  notes : List String

structure AccessImpact where
  documentId : String
  current : AccessImpactState
  proposed : AccessImpactState
  accessExpanded : Bool
  accessReduced : Bool
  watermarkReduced : Bool
  dlpOverrideRequired : Bool
  warnings : List String
  roleImpacts : List RoleImpact
  guardrails : List String

def buildAccessImpactState (status : DocumentStatus) (classification : ClassificationLevel) : AccessImpactState :=
  ⟨classification, status, CLASSIFICATION_WATERMARK_LEVELS classification⟩

def canBaselineReadMetadata (status : DocumentStatus) (classification : ClassificationLevel)
    (role : String) : Bool :=
  let released := [DocumentStatus.PUBLISHED, .ARCHIVED].contains status
  if role = "admin" then true
  else if role = "compliance_officer" then released
  else if role = "approver" then status = .PENDING || released
  else if !released then false
  else if classification = .PUBLIC then true
  else if classification = .INTERNAL then role = "editor"
  else false

def canBaselineDownload (status : DocumentStatus) (classification : ClassificationLevel) (role : String) : Bool :=
  (getDeniedReason status [role]).isNone &&
    (getClassificationDeniedReason classification [role] s!"simulation:{role}" "simulation:owner" false).isNone

def buildImpactNotes (role label : String) (impact : Impact) : List String :=
  if !impact.current && impact.proposed then [s!"{label} becomes allowed for baseline {role} role."]
  else if impact.current && !impact.proposed then [s!"{label} becomes denied for baseline {role} role."]
  else []

def buildRoleImpact (status : DocumentStatus) (current proposed : ClassificationLevel)
    (role : String) : RoleImpact :=
  let metadata := ⟨canBaselineReadMetadata status current role, canBaselineReadMetadata status proposed role⟩
  let download := ⟨canBaselineDownload status current role, canBaselineDownload status proposed role⟩
  { role, metadata, download
    notes := buildImpactNotes role "Metadata" metadata ++ buildImpactNotes role "Download" download }

def accessImpact (docId : String) (document : Document)
    (proposedClassification : ClassificationLevel) : AccessImpact :=
  let current := buildAccessImpactState document.status document.classification
  let proposed := buildAccessImpactState document.status proposedClassification
  let roleImpacts :=
    SIMULATED_ROLES.map (buildRoleImpact document.status document.classification proposedClassification)
  let currentAccessCount :=
    (roleImpacts.map fun impact => impact.metadata.current.toNat + impact.download.current.toNat).sum
  let proposedAccessCount :=
    (roleImpacts.map fun impact => impact.metadata.proposed.toNat + impact.download.proposed.toNat).sum
  let accessExpanded := currentAccessCount < proposedAccessCount
  let accessReduced := proposedAccessCount < currentAccessCount
  let watermarkReduced := current.watermarkRequired && !proposed.watermarkRequired
  let dlpOverrideRequired :=
    document.dlpStatus = .DETECTED && [ClassificationLevel.PUBLIC, .INTERNAL].contains proposedClassification
  { documentId := docId, current, proposed, accessExpanded, accessReduced, watermarkReduced, dlpOverrideRequired
    warnings := (if accessExpanded then ["Proposed classification expands baseline access."] else []) ++
      (if accessReduced then ["Proposed classification reduces baseline access."] else []) ++
      (if watermarkReduced then ["Watermarking would no longer be required."] else []) ++
      (if dlpOverrideRequired then ["DLP-detected downgrade requires admin override reason."] else [])
    roleImpacts
    guardrails := [
      "This is a policy simulation only; backend authorization remains authoritative.",
      "Baseline role impact does not enumerate real users or expose file content.",
      "ACL DENY entries and final mutation guards still apply at execution time."] }

def simulationGuard (document : Document) (request : PolicyRequest) : Except HttpError Unit :=
  if !request.roles.contains "admin" &&
    (request.actorId ≠ document.ownerId || !request.roles.contains "editor") then
    .error (.forbidden "Only the owner editor or admin can simulate access impact")
  else .ok ()

def getAccessImpactPreview (env : PolicyEnv) (db : PolicyDb) (docId : String) (classification : ClassificationLevel)
    (request : PolicyRequest) : Except HttpError AccessImpact := do
  let document ← assertCanReadMetadata env db docId { request with shareToken := none }
  simulationGuard document request
  .ok (accessImpact docId document classification)

end PolicyService

/-! ## ACL entries -/

structure UpsertAclDto where
  subjectType : AclSubjectType
  subjectId : Option String := none
  permission : DocumentPermission
  effect : AclEffect

namespace AclService

def assertCanManage (ownerId : String) (user : ServiceUser) : Except HttpError Unit :=
  assertOwnerEditor "Only the owner editor or admin can update ACL" ownerId (buildActorId user) user.roles

def normalizeSubjectId (dto : UpsertAclDto) : Option String :=
  match dto.subjectType with
  | .ALL => none
  | .GROUP => (normalizeGroups [dto.subjectId.getD ""]).head?
  | _ => (dto.subjectId.map trim).filter (· ≠ "")

def subjectGuard (dto : UpsertAclDto) : Except HttpError Unit :=
  if dto.subjectType ≠ .ALL && (normalizeSubjectId dto).getD "" = "" then
    .error (.badRequest "Subject ID is required unless subject type is ALL")
  else .ok ()

def newEntry (docId : String) (dto : UpsertAclDto) (aclId : String) : DocumentAclRow where
  docId := docId
  subjectType := dto.subjectType
  subjectId := normalizeSubjectId dto
  permission := dto.permission
  effect := dto.effect
  id := aclId

def insertEntry (row : DocumentAclRow) (db : TenantDb) : Option TenantDb :=
  (db.aclEntries.insert row).map fun aclEntries => { db with aclEntries := aclEntries }

def upsert (docId : String) (dto : UpsertAclDto) (aclId : String) (request : Request) : TenantM DocumentAclRow := do
  let _ ← guard (RolesGuard ["editor", "admin"] request.user)
  let document ← findInTenant docId request
  let _ ← guard (assertCanManage document.ownerId request.user)
  let _ ← guard (subjectGuard dto)
  TenantM.create (newEntry docId dto aclId) (insertEntry (newEntry docId dto aclId))

def list (env : TenantEnv) (docId : String) (request : PolicyRequest) : TenantM (List DocumentAclRow) := do
  let _ ← guard (RolesGuard ["editor", "approver", "compliance_officer", "admin"] request.user)
  let _ ← assertCanRead env docId request
  read fun db => (db.aclEntries.rows.filter (·.docId = docId)).insertionSort fun a b => a.id ≤ b.id

def entryOf (docId : String) (row : Option DocumentAclRow) : Except HttpError DocumentAclRow :=
  match row with
  | some row => if row.docId ≠ docId then .error (.notFound "ACL entry not found") else .ok row
  | none => .error (.notFound "ACL entry not found")

def delete (docId aclId : String) (request : Request) : TenantM Unit := do
  let _ ← guard (RolesGuard ["editor", "admin"] request.user)
  let document ← findInTenant docId request
  let _ ← guard (assertCanManage document.ownerId request.user)
  let _ ← Action.read fun db => entryOf docId (db.aclEntries.find aclId)
  write fun db => { db with aclEntries := db.aclEntries.remove aclId }

end AclService

/-! ## Comments -/

namespace CommentsService

def COMMENT_ROLES : List String := ["viewer", "editor", "approver", "compliance_officer", "admin"]

def newComment (docId content commentId : String) (request : Request) : DocumentComment where
  id := commentId
  docId := docId
  authorId := buildActorId request.user
  authorRoles := request.user.roles
  content := content
  createdAt := request.now
  updatedAt := request.now

def insertComment (comment : DocumentComment) (db : TenantDb) : Option TenantDb :=
  (db.comments.insert comment).map fun comments => { db with comments := comments }

def create (env : TenantEnv) (docId content commentId : String) (request : PolicyRequest) :
    TenantM DocumentComment := do
  let _ ← guard (RolesGuard COMMENT_ROLES request.user)
  let _ ← assertCanRead env docId request
  TenantM.create (newComment docId content commentId request.toRequest)
    (insertComment (newComment docId content commentId request.toRequest))

def findCommentForDocument (docId commentId : String) : TenantM DocumentComment :=
  Action.read fun db =>
    match db.comments.rows.find? fun comment => comment.id = commentId && comment.docId = docId with
    | some comment => .ok comment
    | none => .error (.notFound "Comment not found")

def updateGuard (comment : DocumentComment) (user : ServiceUser) : Except HttpError Unit :=
  if comment.authorId ≠ buildActorId user then .error (.forbidden "Only the author can edit their own comment")
  else .ok ()

def update (env : TenantEnv) (docId commentId content : String) (request : PolicyRequest) :
    TenantM DocumentComment := do
  let _ ← guard (RolesGuard COMMENT_ROLES request.user)
  let _ ← assertCanRead env docId request
  let comment ← findCommentForDocument docId commentId
  let _ ← guard (updateGuard comment request.user)
  let changed : DocumentComment := { comment with content := content, updatedAt := request.now }
  write fun db => { db with comments := db.comments.put changed }
  pure changed

def deleteGuard (comment : DocumentComment) (user : ServiceUser) : Except HttpError Unit :=
  if comment.authorId ≠ buildActorId user && !user.roles.contains "admin" then
    .error (.forbidden "Only the author or an admin can delete a comment")
  else .ok ()

def delete (env : TenantEnv) (docId commentId : String) (request : PolicyRequest) : TenantM Unit := do
  let _ ← guard (RolesGuard COMMENT_ROLES request.user)
  let _ ← assertCanRead env docId request
  let comment ← findCommentForDocument docId commentId
  let _ ← guard (deleteGuard comment request.user)
  write fun db => { db with comments := db.comments.remove commentId }

def findByDoc (env : TenantEnv) (docId : String) (request : PolicyRequest) : TenantM (List DocumentComment) := do
  let _ ← guard (RolesGuard COMMENT_ROLES request.user)
  let _ ← assertCanRead env docId request
  read fun db => (db.comments.rows.filter (·.docId = docId)).insertionSort fun a b => b.createdAt ≤ a.createdAt

end CommentsService

/-! ## Saved views -/

structure CreateDocumentSavedViewDto where
  name : String
  description : Option String := none
  filters : Json
  scope : Option DocumentSavedViewScope := none

namespace DocumentSavedViewsService

def SAVED_VIEW_ROLES : List String := ["viewer", "editor", "approver", "compliance_officer", "admin"]

def isAdmin (context : RequestContext) : Bool := context.roles.contains "admin"

def scopeGuard (scope : DocumentSavedViewScope) (context : RequestContext) : Except HttpError Unit :=
  if scope = .TEAM && !isAdmin context then .error (.forbidden "Only admins can create team saved views")
    else .ok ()

def newView (dto : CreateDocumentSavedViewDto) (organizationId viewId : String) (request : Request) :
    DocumentSavedView where
  id := viewId
  organizationId := organizationId
  name := dto.name
  description := dto.description
  filters := dto.filters
  scope := dto.scope.getD .PRIVATE
  ownerId := request.context.actorId
  createdAt := request.now

def insertView (view : DocumentSavedView) (db : TenantDb) : Option TenantDb :=
  (db.savedViews.insert view).map fun savedViews => { db with savedViews := savedViews }

def create (dto : CreateDocumentSavedViewDto) (viewId : String) (request : Request) :
    TenantM DocumentSavedView := do
  let _ ← guard (RolesGuard SAVED_VIEW_ROLES request.user)
  let _ ← guard (scopeGuard (dto.scope.getD .PRIVATE) request.context)
  let organizationId ← guard (requireOrgId request)
  TenantM.create (newView dto organizationId viewId request)
    (insertView (newView dto organizationId viewId request))

def shows (organizationId actorId : String) (view : DocumentSavedView) : Bool :=
  view.organizationId = organizationId && (view.scope = .PRIVATE && view.ownerId = actorId || view.scope = .TEAM)

-- Private views first, and the newest of each scope.
def viewOrder (a b : DocumentSavedView) : Bool :=
  if a.scope = b.scope then b.createdAt ≤ a.createdAt else a.scope = .PRIVATE

def findAll (request : Request) : TenantM (List DocumentSavedView) := do
  let _ ← guard (RolesGuard SAVED_VIEW_ROLES request.user)
  let organizationId ← guard (requireOrgId request)
  read fun db =>
    (db.savedViews.rows.filter (shows organizationId request.context.actorId)).insertionSort
      fun a b => viewOrder a b

def deleteGuard (view : DocumentSavedView) (context : RequestContext) : Except HttpError Unit :=
  let canDeletePrivate := view.scope = .PRIVATE && view.ownerId = context.actorId
  let canDeleteTeam := view.scope = .TEAM && (view.ownerId = context.actorId || isAdmin context)
  if !canDeletePrivate && !canDeleteTeam then .error (.forbidden "Not allowed to delete this saved view")
    else .ok ()

def viewOf (organizationId : String) (view : Option DocumentSavedView) : Except HttpError DocumentSavedView :=
  match view with
  | some view =>
    if view.organizationId = organizationId then .ok view else .error (.notFound "Document saved view not found")
  | none => .error (.notFound "Document saved view not found")

def delete (viewId : String) (request : Request) : TenantM DocumentSavedView := do
  let _ ← guard (RolesGuard SAVED_VIEW_ROLES request.user)
  let organizationId ← guard (requireOrgId request)
  let view ← Action.read fun db => viewOf organizationId (db.savedViews.find viewId)
  let _ ← guard (deleteGuard view request.context)
  write fun db => { db with savedViews := db.savedViews.remove viewId }
  pure view

end DocumentSavedViewsService

end DocVault
