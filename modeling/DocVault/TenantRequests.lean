import DocVault.TenantRoutes

/-!
# The requests of metadata-service

Retention, whose list names the organization in its filter and whose run names
none, and every request of an authenticated user with the route that answers it.
-/

namespace DocVault

open Isolation (Action)
open TenantM

/-! ## Retention -/

structure TenantRetentionRecord extends RetentionEvidenceRecord where
  docId : String
  title : String
  status : DocumentStatus
  classification : ClassificationLevel
  publishedAt : Option Time
  archivedAt : Option Time

structure RetentionSummary where
  tracked : Nat
  active : Nat
  dueSoon : Nat
  overdue : Nat
  archived : Nat
  deriving DecidableEq

structure RetentionEvidenceResult where
  checkedAt : Time
  summary : RetentionSummary
  records : List TenantRetentionRecord

namespace RetentionService

def isTracked (document : Document) : Bool :=
  [DocumentStatus.PUBLISHED, .ARCHIVED].contains document.status && document.publishedAt.isSome

-- An empty id is no filter.
def inScope (organizationId : String) (document : Document) : Bool :=
  (organizationId = "" || document.organizationId = organizationId) && isTracked document

-- PostgreSQL puts the rows without a date last.
def earlier (a b : Option Time) : Bool :=
  match a, b with
  | _, none => true
  | none, some _ => false
  | some a, some b => a ≤ b

def retentionOrder (a b : Document) : Bool :=
  if a.retentionUntil = b.retentionUntil then earlier a.publishedAt b.publishedAt
  else earlier a.retentionUntil b.retentionUntil

def MAX_SAFE_INTEGER : Int := 9007199254740991

def record (db : TenantDb) (now : Time) (document : Document) : TenantRetentionRecord :=
  { toEvidenceRecord document now with
    docId := document.id
    title := db.title document.id
    status := document.status
    classification := document.classification
    publishedAt := document.publishedAt
    archivedAt := document.archivedAt }

def recordTime (record : TenantRetentionRecord) : Time := record.retentionUntil.getD MAX_SAFE_INTEGER

def summarize (records : List TenantRetentionRecord) : RetentionSummary :=
  let count (status : RetentionStatus) := (records.filter (·.retentionStatus = status)).length
  ⟨records.length, count .ACTIVE, count .DUE_SOON, count .OVERDUE, count .ARCHIVED⟩

def listRetentionEvidence (now : Time) (organizationId : String) (db : TenantDb) : RetentionEvidenceResult :=
  let documents := (db.documents.rows.filter (inScope organizationId)).insertionSort fun a b => retentionOrder a b
  let records := (documents.map (record db now)).insertionSort fun a b => recordTime a ≤ recordTime b
  ⟨now, summarize records, records⟩

end RetentionService

namespace RetentionController

/-- Of the query `asOf`, as `new Date` reads it. An empty one is as none. -/
def parseAsOf (asOf : Option (Option Time)) : Except HttpError (Option Time) :=
  match asOf with
  | none => .ok none
  | some none => .error (.badRequest "asOf must be a valid ISO date")
  | some (some parsed) => .ok (some parsed)

def list (asOf : Option (Option Time)) (request : Request) : TenantM RetentionEvidenceResult := do
  let _ ← guard (RolesGuard ["compliance_officer", "admin"] request.user)
  let organizationId ← guard (requireOrgId request)
  let parsed ← guard (parseAsOf asOf)
  read (RetentionService.listRetentionEvidence (parsed.getD request.now) organizationId)

def run (asOf : Option (Option Time)) (request : Request) : TenantM RetentionService.RetentionRunResult := do
  let _ ← guard (RolesGuard ["admin"] request.user)
  let parsed ← guard (parseAsOf asOf)
  documents (RetentionService.runRetention (parsed.getD request.now))

end RetentionController

/-! ## Requests -/

inductive TenantRequest where
  | findAll (searchFilter : Option TenantDocuments.SearchFilter)
  | listTrash
  | restoreFromTrash (docId : String)
  | findOne (docId : String) (shareToken : Option String)
  | getAiGuardrails (docId : String)
  | getAccessImpactPreview (docId : String) (classification : ClassificationLevel)
  | create (dto : CreateDocumentDto) (text : TenantDocuments.TextDto) (uuid : String)
  | update (docId : String) (dto : UpdateDocumentDto) (data : TenantDocuments.TextUpdate)
  | setApprovalChain (docId : String) (dto : ApprovalChainDto)
  | advanceApprovalStep (docId : String)
  | setLegalHold (docId : String) (dto : LegalHoldDto)
  | upsertAcl (docId : String) (dto : UpsertAclDto) (aclId : String)
  | listAcl (docId : String)
  | deleteAcl (docId aclId : String)
  | createVersion (docId : String) (dto : CreateVersionDto)
  | restoreVersion (docId : String) (version : Int)
  | updateStatus (docId : String) (dto : UpdateStatusDto)
  | getWorkflowHistory (docId : String)
  | getApprovers (docId : String)
  | authorizeDownload (docId : String) (dto : GrantDto) (shareToken : Option String)
  | authorizePreview (docId : String) (dto : GrantDto) (shareToken : Option String)
  | listComments (docId : String)
  | addComment (docId content commentId : String)
  | updateComment (docId commentId content : String)
  | deleteComment (docId commentId : String)
  | listRetention (asOf : Option (Option Time))
  | runRetention (asOf : Option (Option Time))
  | createShareLink (docId : String) (dto : CreateShareLinkDto) (linkId token : String)
  | listShareLinks (docId : String)
  | revokeShareLink (docId linkId : String)
  | redeemShareLink (token : String)
  | createSavedView (dto : CreateDocumentSavedViewDto) (viewId : String)
  | findSavedViews
  | deleteSavedView (viewId : String)

/-- A document with its versions, the newest first, and its ACL. -/
structure TenantDetail extends TenantDocument where
  versions : List DocumentVersion
  aclEntries : List DocumentAclRow

inductive TenantResponse where
  | summaries (documents : List TenantDocuments.TenantSummary)
  | trash (entries : List TenantDocuments.TrashEntry)
  | detail (document : TenantDetail)
  | document (document : TenantDocument)
  | guardrails (guardrails : PolicyService.AiGuardrails)
  | impact (impact : PolicyService.AccessImpact)
  | version (row : DocumentVersion)
  | history (rows : List DocumentWorkflowHistory)
  | approvers (userIds : List String)
  | authorization (authorization : Authorization)
  | aclEntry (row : DocumentAclRow)
  | aclEntries (rows : List DocumentAclRow)
  | comment (comment : DocumentComment)
  | comments (comments : List DocumentComment)
  | retention (result : RetentionEvidenceResult)
  | retentionRun (result : RetentionService.RetentionRunResult)
  | shareLink (link : ShareLinkView) (token : Option String)
  | shareLinks (links : List ShareLinkView)
  | redeemed (result : ShareLinkRedeemResult)
  | savedView (view : DocumentSavedView)
  | savedViews (views : List DocumentSavedView)
  | deleted

def READER_ROLES : List String := ["viewer", "editor", "approver", "compliance_officer", "admin"]

def CONTENT_ROLES : List String := ["viewer", "editor", "approver", "admin"]

def EDITOR_ROLES : List String := ["editor", "admin"]

def guarded {α : Type} (required : List String) (caller : PolicyRequest) (m : TenantM α) : TenantM α := do
  let _ ← guard (RolesGuard required caller.user)
  m

def answer {α : Type} (response : α → TenantResponse) (m : TenantM α) : TenantM TenantResponse := do
  let a ← m
  pure (response a)

def findDetail (env : TenantEnv) (docId : String) (request : PolicyRequest) : TenantM TenantDetail := do
  let document ← decide fun db => PolicyService.assertCanReadMetadata env.policy db docId request
  read fun db => { document with
    text := db.text document.id
    versions := (db.versions.filter (·.docId = document.id)).insertionSort fun a b => b.version ≤ a.version
    aclEntries := db.aclEntries.rows.filter (·.docId = document.id) }

-- The directory of users is none of the store. Its route takes no token.
def handle (env : TenantEnv) (caller : PolicyRequest) : TenantRequest → TenantM TenantResponse
  | .findAll searchFilter =>
      answer .summaries (guarded READER_ROLES caller (TenantDocuments.findAll searchFilter caller))
  | .listTrash => answer .trash (guarded EDITOR_ROLES caller (TenantDocuments.listTrash caller.toRequest))
  | .restoreFromTrash docId =>
    answer .document (TenantDocuments.withTextOf (DocumentsController.restoreFromTrash docId caller.toRequest))
  | .findOne docId shareToken =>
    answer .detail (guarded READER_ROLES caller (findDetail env docId { caller with shareToken := shareToken }))
  | .getAiGuardrails docId =>
    answer .guardrails (guarded READER_ROLES caller
      (decide fun db => PolicyService.getAiGuardrails env.policy db docId caller))
  | .getAccessImpactPreview docId classification =>
    answer .impact (guarded EDITOR_ROLES caller
      (decide fun db => PolicyService.getAccessImpactPreview env.policy db docId classification caller))
  | .create dto text uuid => answer .document (TenantDocuments.create dto text uuid caller.toRequest)
  | .update docId dto data => answer .document (TenantDocuments.update docId dto data caller.toRequest)
  | .setApprovalChain docId dto =>
    answer .document (TenantDocuments.withTextOf (DocumentsController.setApprovalChain docId dto caller.toRequest))
  | .advanceApprovalStep docId =>
    answer .document (TenantDocuments.withTextOf (DocumentsController.advanceApprovalStep docId caller.toRequest))
  | .setLegalHold docId dto =>
    answer .document (TenantDocuments.withTextOf (DocumentsController.setLegalHold docId dto caller.toRequest))
  | .upsertAcl docId dto aclId => answer .aclEntry (AclService.upsert docId dto aclId caller.toRequest)
  | .listAcl docId => answer .aclEntries (AclService.list env docId caller)
  | .deleteAcl docId aclId => answer (fun _ => .deleted) (AclService.delete docId aclId caller.toRequest)
  | .createVersion docId dto =>
    answer .version (documents (DocumentsController.createVersion docId dto caller.toRequest))
  | .restoreVersion docId version =>
    answer .version (documents (DocumentsController.restoreVersion docId version caller.toRequest))
  | .updateStatus docId dto =>
    answer .document (TenantDocuments.withTextOf (DocumentsController.updateStatus docId dto caller.toRequest))
  | .getWorkflowHistory docId => answer .history (TenantDocuments.workflowHistory env docId caller)
  | .getApprovers _ => pure (.approvers env.approvers)
  | .authorizeDownload docId dto shareToken =>
    answer .authorization (guarded CONTENT_ROLES caller (decide fun db =>
      PolicyService.authorizeDownload env.policy db docId dto { caller with shareToken := shareToken }))
  | .authorizePreview docId dto shareToken =>
    answer .authorization (guarded CONTENT_ROLES caller (decide fun db =>
      PolicyService.authorizePreview env.policy db docId dto { caller with shareToken := shareToken }))
  | .listComments docId => answer .comments (CommentsService.findByDoc env docId caller)
  | .addComment docId content commentId =>
      answer .comment (CommentsService.create env docId content commentId caller)
  | .updateComment docId commentId content =>
    answer .comment (CommentsService.update env docId commentId content caller)
  | .deleteComment docId commentId => answer (fun _ => .deleted) (CommentsService.delete env docId commentId caller)
  | .listRetention asOf => answer .retention (RetentionController.list asOf caller.toRequest)
  | .runRetention asOf => answer .retentionRun (RetentionController.run asOf caller.toRequest)
  | .createShareLink docId dto linkId token =>
    answer (fun created => .shareLink created.1 (some created.2))
      (shareLinks (DocumentShareLinksController.create env.policy docId dto caller.toRequest linkId token))
  | .listShareLinks docId =>
      answer .shareLinks (shareLinks (DocumentShareLinksController.list docId caller.toRequest))
  | .revokeShareLink docId linkId =>
    answer (.shareLink · none) (shareLinks (DocumentShareLinksController.revoke docId linkId caller.toRequest))
  | .redeemShareLink token =>
    answer .redeemed (shareLinks (DocumentShareLinksController.redeem env.policy token caller.toRequest))
  | .createSavedView dto viewId => answer .savedView (DocumentSavedViewsService.create dto viewId caller.toRequest)
  | .findSavedViews => answer .savedViews (DocumentSavedViewsService.findAll caller.toRequest)
  | .deleteSavedView viewId => answer .savedView (DocumentSavedViewsService.delete viewId caller.toRequest)

end DocVault
