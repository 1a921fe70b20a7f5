import DocVault.Sections
import DocVault.Versions

/-!
# The workflow of documents

What writes a document: `StatusService`, `DocumentsService`, `VersionsService`
and `RetentionService` of `metadata-service`, and `WorkflowService`, which
reads and writes documents through the routes of `metadata-service`. Between
any two operations other requests may run. The metadata policy may refuse the
read of a document: the operation then fails.
-/

namespace DocVault

open Interleave

/-! ## StatusService -/

-- `RETENTION` is no action of a request.
def TRANSITION_MAP : WorkflowAction → Option (DocumentStatus × DocumentStatus)
  | .SUBMIT => some (.DRAFT, .PENDING)
  | .APPROVE => some (.PENDING, .PUBLISHED)
  | .REJECT => some (.PENDING, .DRAFT)
  | .ARCHIVE => some (.PUBLISHED, .ARCHIVED)
  | .DELETE => some (.DRAFT, .DELETED)
  | .RETENTION => none

structure UpdateStatusDto where
  status : DocumentStatus
  action : WorkflowAction
  reason : Option String := none

namespace StatusService

def guard (dto : UpdateStatusDto) (user : ServiceUser) (document : Document) :
    Except HttpError (DocumentStatus × DocumentStatus) :=
  if !hasSome user.roles ["editor", "approver", "admin"] then
    .error (.forbidden "Only editor, approver, or admin can update status")
  else
    match TRANSITION_MAP dto.action with
    | none => .error (.badRequest s!"Unknown workflow action: {dto.action}")
    | some transition =>
      if document.status ≠ transition.1 then
        .error (.conflict (s!"Cannot {dto.action} a document in status {document.status}. " ++
          s!"Expected status: {transition.1}"))
      else if dto.status ≠ transition.2 then
        .error (.badRequest
          (s!"Action {dto.action} must set status to {transition.2}, " ++ s!"but got {dto.status}"))
      else .ok transition

theorem guard_ok {dto : UpdateStatusDto} {user : ServiceUser} {document : Document}
    {transition : DocumentStatus × DocumentStatus} :
    guard dto user document = .ok transition ↔
      hasSome user.roles ["editor", "approver", "admin"] = true ∧ TRANSITION_MAP dto.action = some transition ∧
        transition = (document.status, dto.status) := by
  unfold guard
  by_cases hr : hasSome user.roles ["editor", "approver", "admin"] = true
  · rw [if_neg (by simpa using hr)]
    cases ht : TRANSITION_MAP dto.action with
    | none => simp
    | some t =>
      by_cases hs : document.status = t.1
      · by_cases hd : dto.status = t.2
        · simp only [hs, hd, ne_eq, not_true_eq_false, if_false, hr, true_and, Except.ok.injEq, Option.some.injEq]
          exact ⟨fun h => ⟨h, h ▸ rfl⟩, fun h => h.1⟩
        · simp only [hs, hd, ne_eq, not_true_eq_false, if_false, not_false_eq_true, if_true,
            reduceCtorEq, false_iff]
          rintro ⟨_, h, rfl⟩
          exact hd (by rw [Option.some.inj h])
      · simp only [hs, ne_eq, not_false_eq_true, if_true, reduceCtorEq, false_iff]
        rintro ⟨_, h, rfl⟩
        exact hs (by rw [Option.some.inj h])
  · rw [if_pos (by simpa using hr)]
    simp [hr]

def updateData (action : WorkflowAction) (status : DocumentStatus) (document : Document)
    (now : Time) : DocumentUpdate where
  status := some status
  publishedAt := if action = .APPROVE then some now else none
  retention := if action = .APPROVE then some (buildRetentionEvidence document.classification now) else none
  archivedAt := if action = .ARCHIVE then some now else none
  deletedAt := if action = .DELETE then some (some now) else none

def row (docId : String) (dto : UpdateStatusDto) (user : ServiceUser) (transition : DocumentStatus × DocumentStatus)
    (document : Document) : DocumentWorkflowHistory where
  docId := docId
  fromStatus := document.status
  toStatus := transition.2
  action := dto.action
  actorId := buildActorId user
  reason := dto.reason

def update (docId : String) (dto : UpdateStatusDto) (request : Request) : DocumentM Document := do
  let organizationId ← Prog.ofExcept (requireOrgId request)
  match ← findDocument docId organizationId with
  | none => .throw (.notFound "Document not found")
  | some document =>
    let transition ← Prog.ofExcept (guard dto request.user document)
    let result ← updateDocument docId false (updateData dto.action transition.2 document request.now)
      (some (row docId dto request.user transition document))
    Prog.ofExcept (updated result)

end StatusService

/-! ## DocumentsService -/

structure CreateDocumentDto where
  classification : Option ClassificationLevel := none

structure UpdateDocumentDto where
  classification : Option ClassificationLevel := none
  classificationOverrideReason : Option String := none

structure LegalHoldDto where
  hold : Bool
  reason : Option String := none

structure ApprovalChainDto where
  approvers : List String

namespace DocumentsService

def trashRecoveryDays : Int := 30

abbrev findInOrgOrThrow (id : String) (request : Request) : DocumentM Document := findInOrg id request

def create (dto : CreateDocumentDto) (request : Request) (uuid : String) : DocumentM Document := do
  let organizationId ← Prog.ofExcept (requireOrgId request)
  let result ← Prog.op (DocumentOp.createDocument
    { id := uuid, organizationId := organizationId, ownerId := request.context.actorId
      classification := dto.classification.getD .INTERNAL })
  Prog.ofExcept (updated result)

def assertCanManage : String → String → List String → Except HttpError Unit :=
  assertOwnerEditor "Only the owner editor or admin can mutate metadata"

def overrideReason (dto : UpdateDocumentDto) : String := trim (dto.classificationOverrideReason.getD "")

-- A downgrade of a document with detected findings takes an admin and a reason.
def updateGuard (dto : UpdateDocumentDto) (request : Request) (document : Document) : Except HttpError Unit := do
  let context := request.context
  assertCanManage document.ownerId context.actorId context.roles
  if document.dlpStatus = .DETECTED &&
      (dto.classification = some .PUBLIC || dto.classification = some .INTERNAL) then
    if !context.roles.contains "admin" then
      .error (.forbidden "DLP-detected documents cannot be downgraded below CONFIDENTIAL")
    else if overrideReason dto = "" then
      .error (.badRequest "Admin override reason is required for DLP classification downgrade")
    else .ok ()
  else .ok ()

def update (id : String) (dto : UpdateDocumentDto) (request : Request) : DocumentM Document := do
  let document ← findInOrgOrThrow id request
  let _ ← Prog.ofExcept (updateGuard dto request document)
  let result ← updateDocument id false { classification := dto.classification } none
  Prog.ofExcept (updated result)

def legalHold (input : LegalHoldDto) (request : Request) : Except HttpError LegalHold :=
  let reason := input.reason.map trim
  if !input.hold then .ok ⟨false, none, none, none⟩
  else if reason.getD "" = "" then .error (.badRequest "A reason is required to place a legal hold")
  else .ok ⟨true, reason, some request.context.actorId, some request.now⟩

def setLegalHold (id : String) (input : LegalHoldDto) (request : Request) : DocumentM Document :=
  if !request.context.roles.contains "admin" then .throw (.forbidden "Only admins can change legal hold")
  else do
    let _ ← findInOrgOrThrow id request
    let hold ← Prog.ofExcept (legalHold input request)
    let result ← updateDocument id false { legalHold := some hold } none
    Prog.ofExcept (updated result)

def restoreGuard (request : Request) (document : Document) : Except HttpError Unit :=
  if document.status ≠ .DELETED then .error (.badRequest "Only deleted documents can be restored")
  else if !request.context.roles.contains "admin" && document.ownerId ≠ request.context.actorId then
    .error (.forbidden "Only the owner or an admin can restore this document")
  else if document.deletedAt.any fun deletedAt => request.now > deletedAt + trashRecoveryDays * DAY_MS then
    .error (.badRequest "The recovery window for this document has elapsed")
  else .ok ()

def restoreFromTrash (id : String) (request : Request) : DocumentM Document := do
  let document ← findInOrgOrThrow id request
  let _ ← Prog.ofExcept (restoreGuard request document)
  let result ← updateDocument id false { status := some .DRAFT, deletedAt := some none } none
  Prog.ofExcept (updated result)

def approvalChainGuard (input : ApprovalChainDto) (request : Request) (document : Document) :
    Except HttpError (List String) :=
  let context := request.context
  let isAdmin := context.roles.contains "admin"
  let isOwnerEditor := document.ownerId = context.actorId &&
    (context.roles.contains "editor" || context.roles.contains "admin")
  let approvers := (input.approvers.map trim).filter (· ≠ "")
  if !isAdmin && !isOwnerEditor then
    .error (.forbidden "Only the owner editor or an admin can configure the approval chain")
  else if !(document.status = .PENDING && document.approvalStep = 0) then
    .error (.badRequest
      "Approval chain can only be configured while the document is pending before any approval")
  else if approvers.length = 0 then .error (.badRequest "Approval chain must have at least one approver")
  else if approvers.dedup.length ≠ approvers.length then
    .error (.badRequest "Approval chain cannot contain duplicates")
  else .ok approvers

def setApprovalChain (id : String) (input : ApprovalChainDto) (request : Request) : DocumentM Document := do
  let document ← findInOrgOrThrow id request
  let approvers ← Prog.ofExcept (approvalChainGuard input request document)
  let result ← updateDocument id false { approvalChain := some approvers, approvalStep := some 0 } none
  Prog.ofExcept (updated result)

def advanceApprovalStep (id : String) (request : Request) : DocumentM Document := do
  let document ← findInOrgOrThrow id request
  let nextStep := document.approvalStep + 1
  let result ← updateDocument id false { approvalStep := some nextStep } none
  Prog.ofExcept (updated result)

-- No route and no service calls it.
def markDeleted (id : String) (now : Time) : DocumentM Document := do
  let result ← updateDocument id true { status := some .DELETED, deletedAt := some (some now) } none
  Prog.ofExcept (updated result)

structure PurgeResult where
  purged : Nat
  failed : Nat

def purge : List Document → PurgeResult → DocumentM PurgeResult
  | [], result => pure result
  | document :: expired, result => do
    match ← Prog.op (DocumentOp.deleteDocument document.id) with
    | some _ => purge expired { result with purged := result.purged + 1 }
    | none => purge expired { result with failed := result.failed + 1 }

def purgeExpiredTrash (now : Time) : DocumentM PurgeResult := do
  let cutoff := now - trashRecoveryDays * DAY_MS
  let expired ← Prog.op (DocumentOp.findExpired cutoff)
  purge expired ⟨0, 0⟩

end DocumentsService

/-! ## RetentionService -/

inductive RetentionStatus where
  | ACTIVE
  | DUE_SOON
  | OVERDUE
  | ARCHIVED
  | UNSET
  deriving DecidableEq

structure RetentionEvidenceRecord where
  retentionClass : String
  retentionUntil : Option Time
  retentionReason : String
  retentionStatus : RetentionStatus
  daysRemaining : Option Int

namespace RetentionService

def DUE_SOON_DAYS : Int := 14

def toEvidenceRecord (document : Document) (now : Time) : RetentionEvidenceRecord :=
  let fallback := document.publishedAt.map (buildRetentionEvidence document.classification)
  let policy := RETENTION_POLICY_BY_CLASSIFICATION document.classification
  let retentionUntil := document.retentionUntil.orElse fun _ => fallback.map (·.retentionUntil)
  -- `Math.ceil`
  let daysRemaining := retentionUntil.map fun deadline => -((now - deadline) / DAY_MS)
  { retentionClass := document.retentionClass.getD ((fallback.map (·.retentionClass)).getD policy.retentionClass)
    retentionUntil := retentionUntil
    retentionReason := document.retentionReason.getD ((fallback.map (·.retentionReason)).getD policy.reason)
    retentionStatus :=
      if document.status = .ARCHIVED then .ARCHIVED
      else match daysRemaining with
        | none => .UNSET
        | some days => if days < 0 then .OVERDUE else if days ≤ DUE_SOON_DAYS then .DUE_SOON else .ACTIVE
    daysRemaining := daysRemaining }

structure RetentionRunResult where
  archived : Nat
  skipped : Nat
  checkedAt : Time

def archiveRow (document : Document) (now : Time) : DocumentWorkflowHistory where
  docId := document.id
  fromStatus := .PUBLISHED
  toStatus := .ARCHIVED
  action := .RETENTION
  actorId := "system:retention"
  reason := some s!"Auto-archived by retention policy {(toEvidenceRecord document now).retentionClass}"

def archiveDocument (document : Document) (now : Time) : DocumentM (Option Document) :=
  updateDocument document.id false { status := some .ARCHIVED, archivedAt := some now }
    (some (archiveRow document now))

def archiveOverdue (now : Time) : List Document → RetentionRunResult → DocumentM RetentionRunResult
  | [], result => pure result
  | document :: candidates, result =>
    if document.legalHold then archiveOverdue now candidates result
    else if (toEvidenceRecord document now).retentionUntil.isNone ||
        (toEvidenceRecord document now).retentionStatus ≠ .OVERDUE then
      archiveOverdue now candidates result
    else do
      match ← archiveDocument document now with
      | some _ => archiveOverdue now candidates { result with archived := result.archived + 1 }
      | none => archiveOverdue now candidates { result with skipped := result.skipped + 1 }

def runRetention (now : Time) : DocumentM RetentionRunResult := do
  let candidates ← Prog.op DocumentOp.findCandidates
  archiveOverdue now candidates ⟨0, 0, now⟩

def isOverdue (now : Time) (document : Document) : Bool :=
  !document.legalHold && !((toEvidenceRecord document now).retentionUntil.isNone ||
    (toEvidenceRecord document now).retentionStatus ≠ .OVERDUE)

theorem archiveOverdue_skip {now : Time} {document : Document} (h : isOverdue now document = false)
    (candidates : List Document) (result : RetentionRunResult) :
    archiveOverdue now (document :: candidates) result = archiveOverdue now candidates result := by
  unfold isOverdue at h
  rw [archiveOverdue]
  by_cases hl : document.legalHold = true
  · rw [if_pos hl]
  · rw [if_neg hl]
    simp only [hl, Bool.not_false, Bool.true_and, Bool.not_eq_false'] at h
    rw [if_pos h]

theorem archiveOverdue_take {now : Time} {document : Document} (h : isOverdue now document = true)
    (candidates : List Document) (result : RetentionRunResult) :
    archiveOverdue now (document :: candidates) result = archiveDocument document now >>= fun archived =>
      match archived with
      | some _ => archiveOverdue now candidates { result with archived := result.archived + 1 }
      | none => archiveOverdue now candidates { result with skipped := result.skipped + 1 } := by
  simp only [isOverdue, Bool.and_eq_true, Bool.not_eq_true'] at h
  rw [archiveOverdue]
  exact (if_neg (Bool.eq_false_iff.mp h.1)).trans (if_neg (Bool.eq_false_iff.mp h.2))

end RetentionService

/-! ## The routes of metadata-service -/

namespace DocumentsController

def create (dto : CreateDocumentDto) (request : Request) (uuid : String) : DocumentM Document := do
  let _ ← Prog.ofExcept (RolesGuard ["editor", "admin"] request.user)
  DocumentsService.create dto request uuid

def findOne (docId : String) (request : Request) : DocumentM Document := do
  let _ ← Prog.ofExcept (RolesGuard ["viewer", "editor", "approver", "compliance_officer", "admin"] request.user)
  let organizationId ← Prog.ofExcept (requireOrgId request)
  match ← findDocument docId organizationId with
  | none => .throw (.notFound "Document not found")
  | some document =>
    if document.status = .DELETED then .throw (.notFound "Document not found") else pure document

def updateStatus (docId : String) (dto : UpdateStatusDto) (request : Request) : DocumentM Document := do
  let _ ← Prog.ofExcept (RolesGuard ["editor", "approver", "admin"] request.user)
  StatusService.update docId dto request

def update (docId : String) (dto : UpdateDocumentDto) (request : Request) : DocumentM Document := do
  let _ ← Prog.ofExcept (RolesGuard ["editor", "admin"] request.user)
  DocumentsService.update docId dto request

def setLegalHold (docId : String) (dto : LegalHoldDto) (request : Request) : DocumentM Document := do
  let _ ← Prog.ofExcept (RolesGuard ["admin"] request.user)
  DocumentsService.setLegalHold docId dto request

def createVersion (docId : String) (dto : CreateVersionDto) (request : Request) : DocumentM DocumentVersion := do
  let _ ← Prog.ofExcept (RolesGuard ["editor", "admin"] request.user)
  VersionsService.create docId dto request

def restoreVersion (docId : String) (version : Int) (request : Request) : DocumentM DocumentVersion := do
  let _ ← Prog.ofExcept (RolesGuard ["editor", "admin"] request.user)
  VersionsService.restore docId version request

def restoreFromTrash (docId : String) (request : Request) : DocumentM Document := do
  let _ ← Prog.ofExcept (RolesGuard ["editor", "admin"] request.user)
  DocumentsService.restoreFromTrash docId request

def setApprovalChain (docId : String) (dto : ApprovalChainDto) (request : Request) : DocumentM Document := do
  let _ ← Prog.ofExcept (RolesGuard ["editor", "admin"] request.user)
  DocumentsService.setApprovalChain docId dto request

def advanceApprovalStep (docId : String) (request : Request) : DocumentM Document := do
  let _ ← Prog.ofExcept (RolesGuard ["approver", "admin"] request.user)
  DocumentsService.advanceApprovalStep docId request

end DocumentsController

/-! ## WorkflowService -/

namespace WorkflowService

-- The role, ownership and status guards of each operation, on the document it has read.
def ownerGuard (status : DocumentStatus) (refusal conflict : String) (request : Request) (document : Document) :
    Except HttpError Unit :=
  let roles := request.user.roles
  if (!roles.contains "editor" && !roles.contains "admin") ||
      (document.ownerId ≠ buildActorId request.user && !roles.contains "admin") then
    .error (.forbidden refusal)
  else if document.status ≠ status then .error (.conflict conflict)
  else .ok ()

def submitGuard : Request → Document → Except HttpError Unit :=
  ownerGuard .DRAFT "Only the owner editor or admin can submit a document" "Only DRAFT documents can be submitted"

/-- Whether the approval publishes the document; otherwise it advances the chain. -/
def approveGuard (request : Request) (document : Document) : Except HttpError Bool :=
  let roles := request.user.roles
  if !roles.contains "approver" && !roles.contains "admin" then
    .error (.forbidden "Only approver or admin can approve")
  else if document.status ≠ .PENDING then .error (.conflict "Only PENDING documents can be approved")
  else if document.approvalChain.length > 0 && !roles.contains "admin" then
    if document.approvalChain[document.approvalStep]? ≠ some request.context.actorId then
      .error (.forbidden "It is not your turn to approve this document")
    else .ok (document.approvalStep + 1 ≥ document.approvalChain.length)
  else .ok true

def rejectGuard (request : Request) (document : Document) : Except HttpError Unit :=
  let roles := request.user.roles
  if !roles.contains "approver" && !roles.contains "admin" then
    .error (.forbidden "Only approver or admin can reject")
  else if document.status ≠ .PENDING then .error (.conflict "Only PENDING documents can be rejected")
  else .ok ()

def archiveGuard : Request → Document → Except HttpError Unit :=
  ownerGuard .PUBLISHED "Only the owner editor or admin can archive a document"
    "Only PUBLISHED documents can be archived"

def deleteGuard (request : Request) (document : Document) : Except HttpError Unit :=
  let roles := request.user.roles
  if !roles.contains "admin" && !(roles.contains "editor" && document.ownerId = buildActorId request.user) then
    .error (.forbidden "Only the document owner (editor) or admin can delete a document")
  else if document.status ≠ .DRAFT then .error (.conflict "Only DRAFT documents can be deleted")
  else .ok ()

def submit (docId : String) (request : Request) : DocumentM Document := do
  let document ← DocumentsController.findOne docId request
  let _ ← Prog.ofExcept (submitGuard request document)
  DocumentsController.updateStatus docId { status := .PENDING, action := .SUBMIT } request

def approve (docId : String) (request : Request) : DocumentM Document := do
  let document ← DocumentsController.findOne docId request
  let publishes ← Prog.ofExcept (approveGuard request document)
  if publishes then
    DocumentsController.updateStatus docId { status := .PUBLISHED, action := .APPROVE } request
  else
    let _ ← DocumentsController.advanceApprovalStep docId request
    pure { document with status := .PENDING }

def reject (docId : String) (reason : Option String) (request : Request) : DocumentM Document := do
  let document ← DocumentsController.findOne docId request
  let _ ← Prog.ofExcept (rejectGuard request document)
  DocumentsController.updateStatus docId { status := .DRAFT, action := .REJECT, reason := reason } request

def archive (docId : String) (request : Request) : DocumentM Document := do
  let document ← DocumentsController.findOne docId request
  let _ ← Prog.ofExcept (archiveGuard request document)
  DocumentsController.updateStatus docId { status := .ARCHIVED, action := .ARCHIVE } request

structure DeleteResult where
  success : Bool
  deriving DecidableEq

def delete (docId : String) (request : Request) : DocumentM DeleteResult := do
  let document ← DocumentsController.findOne docId request
  let _ ← Prog.ofExcept (deleteGuard request document)
  let _ ← DocumentsController.updateStatus docId { status := .DELETED, action := .DELETE } request
  pure ⟨true⟩

end WorkflowService

namespace WorkflowController

def submit (docId : String) (request : Request) : DocumentM Document := do
  let _ ← Prog.ofExcept (RolesGuard ["editor", "admin"] request.user)
  WorkflowService.submit docId request

def approve (docId : String) (request : Request) : DocumentM Document := do
  let _ ← Prog.ofExcept (RolesGuard ["approver", "admin"] request.user)
  WorkflowService.approve docId request

def reject (docId : String) (reason : Option String) (request : Request) : DocumentM Document := do
  let _ ← Prog.ofExcept (RolesGuard ["approver", "admin"] request.user)
  WorkflowService.reject docId reason request

def archive (docId : String) (request : Request) : DocumentM Document := do
  let _ ← Prog.ofExcept (RolesGuard ["editor", "admin"] request.user)
  WorkflowService.archive docId request

def delete (docId : String) (request : Request) : DocumentM WorkflowService.DeleteResult := do
  let _ ← Prog.ofExcept (RolesGuard ["editor", "admin"] request.user)
  WorkflowService.delete docId request

end WorkflowController

/-! ## Requests and jobs at work -/

inductive DocumentTask where
  | create (dto : CreateDocumentDto) (request : Request) (uuid : String)
  | updateStatus (docId : String) (dto : UpdateStatusDto) (request : Request)
  | submit (docId : String) (request : Request)
  | approve (docId : String) (request : Request)
  | reject (docId : String) (reason : Option String) (request : Request)
  | archive (docId : String) (request : Request)
  | delete (docId : String) (request : Request)
  | setApprovalChain (docId : String) (dto : ApprovalChainDto) (request : Request)
  | advanceApprovalStep (docId : String) (request : Request)
  | restoreFromTrash (docId : String) (request : Request)
  | update (docId : String) (dto : UpdateDocumentDto) (request : Request)
  | setLegalHold (docId : String) (dto : LegalHoldDto) (request : Request)
  | createVersion (docId : String) (dto : CreateVersionDto) (request : Request)
  | restoreVersion (docId : String) (version : Int) (request : Request)
  | runRetention (now : Time)
  | purgeExpiredTrash (now : Time)
  | markDeleted (docId : String) (now : Time)

inductive DocumentOutcome where
  | document (document : Document)
  | deleted (result : WorkflowService.DeleteResult)
  | version (row : DocumentVersion)
  | retention (result : RetentionService.RetentionRunResult)
  | purge (result : DocumentsService.PurgeResult)

def answered (m : DocumentM Document) : DocumentM DocumentOutcome := do
  let document ← m
  pure (.document document)

def registered (m : DocumentM DocumentVersion) : DocumentM DocumentOutcome := do
  let row ← m
  pure (.version row)

def deleted (m : DocumentM WorkflowService.DeleteResult) : DocumentM DocumentOutcome := do
  let result ← m
  pure (.deleted result)

def DocumentTask.prog : DocumentTask → DocumentM DocumentOutcome
  | create dto request uuid => answered (DocumentsController.create dto request uuid)
  | updateStatus docId dto request => answered (DocumentsController.updateStatus docId dto request)
  | submit docId request => answered (WorkflowController.submit docId request)
  | approve docId request => answered (WorkflowController.approve docId request)
  | reject docId reason request => answered (WorkflowController.reject docId reason request)
  | archive docId request => answered (WorkflowController.archive docId request)
  | delete docId request => deleted (WorkflowController.delete docId request)
  | setApprovalChain docId dto request => answered (DocumentsController.setApprovalChain docId dto request)
  | advanceApprovalStep docId request => answered (DocumentsController.advanceApprovalStep docId request)
  | restoreFromTrash docId request => answered (DocumentsController.restoreFromTrash docId request)
  | update docId dto request => answered (DocumentsController.update docId dto request)
  | setLegalHold docId dto request => answered (DocumentsController.setLegalHold docId dto request)
  | createVersion docId dto request => registered (DocumentsController.createVersion docId dto request)
  | restoreVersion docId version request => registered (DocumentsController.restoreVersion docId version request)
  | runRetention now => do
    let result ← RetentionService.runRetention now
    pure (.retention result)
  | purgeExpiredTrash now => do
    let result ← DocumentsService.purgeExpiredTrash now
    pure (.purge result)
  | markDeleted docId now => answered (DocumentsService.markDeleted docId now)

/-- A deletion writes as the other transitions do. -/
theorem deleted_eq (docId : String) (request : Request) : deleted (WorkflowController.delete docId request) = (do
    let _ ← Prog.ofExcept (RolesGuard ["editor", "admin"] request.user)
    let document ← DocumentsController.findOne docId request
    let _ ← Prog.ofExcept (WorkflowService.deleteGuard request document)
    DocumentsController.updateStatus docId { status := .DELETED, action := .DELETE } request) >>= fun _ =>
      (pure (.deleted ⟨true⟩) : DocumentM DocumentOutcome) := by
  simp only [deleted, WorkflowController.delete, WorkflowService.delete, Prog.bind_assoc, Prog.pure_bind']

/-! ## The writes of each task -/

/-- A transition of the map, or the one of the retention job. -/
def isEdge (row : DocumentWorkflowHistory) : Bool :=
  TRANSITION_MAP row.action = some (row.fromStatus, row.toStatus) ||
    (row.action = .RETENTION && row.fromStatus = .PUBLISHED && row.toStatus = .ARCHIVED)

-- Documents start as drafts without a version, a history row says what the write does, a new chain starts at its
-- first step, and only a registration writes `currentVersion`.
structure UpdateIssued (id : String) (data : DocumentUpdate) (row : Option DocumentWorkflowHistory) : Prop where
  recorded : ∀ r, row = some r → r.docId = id ∧ isEdge r = true ∧ data.status = some r.toStatus ∧
    data.approvalStep = none
  published : data.status = some .PUBLISHED → row ≠ none
  chain : data.approvalChain ≠ none → data.approvalStep = some 0
  version : data.currentVersion = none

structure VersionIssued (row : DocumentVersion) (data : DocumentUpdate) : Prop where
  workflow : data.status = none ∧ data.approvalChain = none ∧ data.approvalStep = none
  version : data.currentVersion = some row.version

def Plain : DocumentOp → Prop
  | .createDocument document => document.status = .DRAFT ∧ document.approvalStep = 0 ∧ document.currentVersion = 0
  | .updateDocument id _ data row => UpdateIssued id data row
  | .deleteDocument _ | .createVersion _ _ => False
  | _ => True

def Issued : DocumentOp → Prop
  | .deleteDocument _ => True
  | .createVersion row data => VersionIssued row data
  | o => Plain o

theorem Plain.issued {o : DocumentOp} (h : Plain o) : Issued o := by
  cases o <;> first | exact h | exact h.elim

theorem UpdateIssued.unrecorded {id : String} {data : DocumentUpdate} (hs : data.status ≠ some .PUBLISHED)
    (hc : data.approvalChain ≠ none → data.approvalStep = some 0) (hv : data.currentVersion = none) :
    UpdateIssued id data none where
  recorded r hr := by cases hr
  published h := absurd h hs
  chain := hc
  version := hv

theorem updateDocument_uses {U : DocumentOp → Prop} {id : String} {notDeleted : Bool} {data : DocumentUpdate}
    {row : Option DocumentWorkflowHistory} (h : U (.updateDocument id notDeleted data row)) :
    (updateDocument id notDeleted data row >>= fun result => Prog.ofExcept (updated result)).Uses U :=
  .bind (fun _ => .ofExcept _) (.op h)

/-- Neither registers a version nor deletes a row. -/
def DocumentTask.isPlain : DocumentTask → Bool
  | createVersion _ _ _ | restoreVersion _ _ _ | purgeExpiredTrash _ => false
  | _ => true

theorem findInOrg_bind {α : Type} {U : DocumentOp → Prop}
    (hU : ∀ id organizationId, U (.findDocument id organizationId))
    {f : Document → DocumentM α} (hf : ∀ document, (f document).Uses U) (id : String) (request : Request) :
    (findInOrg id request >>= f).Uses U := by
  refine .bind hf (.bind (fun organizationId => ?_) (.ofExcept _))
  refine .bind (fun found => ?_) (.op (hU id organizationId))
  cases found <;> trivial

theorem StatusService.row_issued {docId : String} {dto : UpdateStatusDto} {request : Request} {document : Document}
    (hmap : TRANSITION_MAP dto.action = some (document.status, dto.status)) :
    UpdateIssued docId (updateData dto.action dto.status document request.now)
      (some (row docId dto request.user (document.status, dto.status) document)) := by
  refine ⟨?_, fun _ => nofun, fun h => absurd rfl h, rfl⟩
  rintro _ ⟨⟩
  exact ⟨rfl, by simp [isEdge, row, hmap], rfl, rfl⟩

section
variable {U : DocumentOp → Prop} (hU : ∀ id organizationId, U (.findDocument id organizationId)) {docId : String}
  {request : Request}
include hU

theorem findOne_uses (docId : String) (request : Request) : (DocumentsController.findOne docId request).Uses U := by
  refine .bind (fun _ => .bind (fun organizationId => ?_) (.ofExcept _)) (.ofExcept _)
  refine .bind (fun found => ?_) (.op (hU docId organizationId))
  cases found with
  | none => trivial
  | some document =>
    dsimp only
    split <;> trivial

theorem updateStatus_uses {dto : UpdateStatusDto}
    (h : ∀ document, TRANSITION_MAP dto.action = some (document.status, dto.status) →
      U (.updateDocument docId false (StatusService.updateData dto.action dto.status document request.now)
        (some (StatusService.row docId dto request.user (document.status, dto.status) document)))) :
    (DocumentsController.updateStatus docId dto request).Uses U := by
  refine .bind (fun _ => .bind (fun organizationId => ?_) (.ofExcept _)) (.ofExcept _)
  refine .bind (fun found => ?_) (.op (hU docId organizationId))
  cases found with
  | none => trivial
  | some document =>
    refine .ofExcept_bind fun transition hguard => ?_
    obtain ⟨_, hmap, rfl⟩ := StatusService.guard_ok.mp hguard
    exact updateDocument_uses (h document hmap)

theorem guarded_uses {required : List String} {dto : UpdateStatusDto} {guard : Document → Except HttpError Unit}
    (h : ∀ document, TRANSITION_MAP dto.action = some (document.status, dto.status) →
      U (.updateDocument docId false (StatusService.updateData dto.action dto.status document request.now)
        (some (StatusService.row docId dto request.user (document.status, dto.status) document)))) : (do
      let _ ← Prog.ofExcept (RolesGuard required request.user)
      let document ← DocumentsController.findOne docId request
      let _ ← Prog.ofExcept (guard document)
      DocumentsController.updateStatus docId dto request : DocumentM Document).Uses U := by
  refine .bind (fun _ => .bind (fun document => ?_) (findOne_uses hU docId request)) (.ofExcept _)
  exact .bind (fun _ => updateStatus_uses hU h) (.ofExcept _)

theorem setApprovalChain_uses {dto : ApprovalChainDto}
    (h : ∀ approvers,
      U (.updateDocument docId false { approvalChain := some approvers, approvalStep := some 0 } none)) :
    (DocumentsController.setApprovalChain docId dto request).Uses U := by
  refine .bind (fun _ => findInOrg_bind hU (fun document => ?_) docId request) (.ofExcept _)
  exact .bind (fun approvers => updateDocument_uses (h approvers)) (.ofExcept _)

theorem advanceApprovalStep_uses (h : ∀ step, U (.updateDocument docId false { approvalStep := some step } none)) :
    (DocumentsController.advanceApprovalStep docId request).Uses U :=
  .bind (fun _ => findInOrg_bind hU
    (fun document => updateDocument_uses (h (document.approvalStep + 1))) docId request) (.ofExcept _)

theorem restoreFromTrash_uses
    (h : U (.updateDocument docId false { status := some .DRAFT, deletedAt := some none } none)) :
    (DocumentsController.restoreFromTrash docId request).Uses U := by
  refine .bind (fun _ => findInOrg_bind hU (fun document => ?_) docId request) (.ofExcept _)
  exact .bind (fun _ => updateDocument_uses h) (.ofExcept _)

theorem update_uses {dto : UpdateDocumentDto}
    (h : U (.updateDocument docId false { classification := dto.classification } none)) :
    (DocumentsController.update docId dto request).Uses U := by
  refine .bind (fun _ => findInOrg_bind hU (fun document => ?_) docId request) (.ofExcept _)
  exact .bind (fun _ => updateDocument_uses h) (.ofExcept _)

theorem setLegalHold_uses {dto : LegalHoldDto}
    (h : ∀ hold, U (.updateDocument docId false { legalHold := some hold } none)) :
    (DocumentsController.setLegalHold docId dto request).Uses U := by
  refine .bind (fun _ => ?_) (.ofExcept _)
  unfold DocumentsService.setLegalHold
  split
  · trivial
  · refine findInOrg_bind hU (fun document => ?_) docId request
    exact .bind (fun hold => updateDocument_uses (h hold)) (.ofExcept _)

theorem createVersion_uses {dto : CreateVersionDto}
    (h : ∀ document, U (.createVersion (VersionsService.createRow docId dto request.user)
      (VersionsService.createData dto document request.now))) :
    (DocumentsController.createVersion docId dto request).Uses U := by
  refine .bind (fun _ => findInOrg_bind hU (fun document => ?_) docId request) (.ofExcept _)
  exact .bind (fun _ => .bind (fun result => .ofExcept _) (.op (h document))) (.ofExcept _)

theorem restoreVersion_uses {version : Int} (hv : ∀ docId version, U (.findVersion docId version))
    (h : ∀ source document, U (.createVersion (VersionsService.restoreRow docId source request.user document)
      { currentVersion := some (document.currentVersion + 1) })) :
    (DocumentsController.restoreVersion docId version request).Uses U := by
  refine .bind (fun _ => findInOrg_bind hU (fun document => ?_) docId request) (.ofExcept _)
  refine .bind (fun _ => .bind (fun source => ?_) (.op (hv docId version))) (.ofExcept _)
  cases source with
  | none => trivial
  | some source =>
    exact .bind (fun _ => .bind (fun result => .ofExcept _) (.op (h source document))) (.ofExcept _)

end

theorem create_uses {U : DocumentOp → Prop} {dto : CreateDocumentDto} {request : Request} {uuid : String}
    (h : ∀ organizationId, U (.createDocument
      { id := uuid, organizationId := organizationId, ownerId := request.context.actorId
        classification := dto.classification.getD .INTERNAL })) :
    (DocumentsController.create dto request uuid).Uses U := by
  refine .bind (fun _ => .bind (fun organizationId => ?_) (.ofExcept _)) (.ofExcept _)
  exact .bind (fun result => .ofExcept _) (.op (h organizationId))

theorem archiveOverdue_uses {U : DocumentOp → Prop} (now : Time)
    (h : ∀ document, U (.updateDocument document.id false { status := some .ARCHIVED, archivedAt := some now }
      (some (RetentionService.archiveRow document now)))) :
    ∀ (candidates : List Document) (result : RetentionService.RetentionRunResult),
      (RetentionService.archiveOverdue now candidates result).Uses U
  | [], _ => trivial
  | document :: candidates, result => by
    unfold RetentionService.archiveOverdue
    split
    · exact archiveOverdue_uses now h candidates result
    · split
      · exact archiveOverdue_uses now h candidates result
      · refine .bind (fun r => ?_) (.op (h document))
        cases r with
        | some _ => exact archiveOverdue_uses now h candidates _
        | none => exact archiveOverdue_uses now h candidates _

/-- What the loop may still do it does to one of the documents before it. -/
theorem archiveOverdue_may {U : DocumentOp → Prop} (now : Time) : ∀ {candidates : List Document}
    {result : RetentionService.RetentionRunResult}, (RetentionService.archiveOverdue now candidates result).May U →
      ∃ document ∈ candidates,
        U (.updateDocument document.id false { status := some .ARCHIVED, archivedAt := some now }
        (some (RetentionService.archiveRow document now))) := by
  intro candidates
  induction candidates with
  | nil => exact fun h => h.elim
  | cons document candidates ih =>
    intro result h
    cases hd : RetentionService.isOverdue now document with
    | false =>
      rw [RetentionService.archiveOverdue_skip hd] at h
      exact (ih h).imp fun _ hm => ⟨List.mem_cons_of_mem document hm.1, hm.2⟩
    | true =>
      rw [RetentionService.archiveOverdue_take hd] at h
      rcases h with h | ⟨r, h⟩
      · exact ⟨document, List.mem_cons_self, h⟩
      · have hrest : ∃ result', (RetentionService.archiveOverdue now candidates result').May U := by
          cases r with
          | none => exact ⟨_, h⟩
          | some _ => exact ⟨_, h⟩
        obtain ⟨_, hrest⟩ := hrest
        exact (ih hrest).imp fun _ hm => ⟨List.mem_cons_of_mem document hm.1, hm.2⟩

theorem purge_uses {U : DocumentOp → Prop} (hU : ∀ id, U (.deleteDocument id)) : ∀ (expired : List Document)
    (result : DocumentsService.PurgeResult), (DocumentsService.purge expired result).Uses U
  | [], _ => trivial
  | document :: expired, result => by
    refine .bind (fun r => ?_) (.op (hU document.id))
    cases r with
    | some _ => exact purge_uses hU expired _
    | none => exact purge_uses hU expired _

theorem answered_uses {U : DocumentOp → Prop} {m : DocumentM Document} (hm : m.Uses U) : (answered m).Uses U :=
  .bind (fun _ => .pure _) hm

theorem registered_uses {U : DocumentOp → Prop} {m : DocumentM DocumentVersion} (hm : m.Uses U) :
    (registered m).Uses U :=
  .bind (fun _ => .pure _) hm

/-- The transition that a request asks of `StatusService`. -/
def DocumentTask.transition : DocumentTask → Option (String × UpdateStatusDto × Request)
  | updateStatus docId dto request => some (docId, dto, request)
  | submit docId request => some (docId, { status := .PENDING, action := .SUBMIT }, request)
  | approve docId request => some (docId, { status := .PUBLISHED, action := .APPROVE }, request)
  | reject docId reason request => some (docId, { status := .DRAFT, action := .REJECT, reason := reason }, request)
  | archive docId request => some (docId, { status := .ARCHIVED, action := .ARCHIVE }, request)
  | delete docId request => some (docId, { status := .DELETED, action := .DELETE }, request)
  | _ => none

def DocumentOp.isRead : DocumentOp → Bool
  | findDocument _ _ | findCandidates | findExpired _ | findVersion _ _ => true
  | _ => false

/-- What a task may do to the store. -/
inductive Issues : DocumentTask → DocumentOp → Prop
  | read {t : DocumentTask} {o : DocumentOp} (h : o.isRead = true) : Issues t o
  | create {dto : CreateDocumentDto} {request : Request} {uuid : String} (organizationId : String) :
    Issues (.create dto request uuid) (.createDocument
      { id := uuid, organizationId := organizationId, ownerId := request.context.actorId
        classification := dto.classification.getD .INTERNAL })
  | status {t : DocumentTask} {docId : String} {dto : UpdateStatusDto} {request : Request} {document : Document}
    (ht : t.transition = some (docId, dto, request))
    (hmap : TRANSITION_MAP dto.action = some (document.status, dto.status)) :
    Issues t (.updateDocument docId false (StatusService.updateData dto.action dto.status document request.now)
      (some (StatusService.row docId dto request.user (document.status, dto.status) document)))
  | setApprovalChain {docId : String} {dto : ApprovalChainDto} {request : Request} (approvers : List String) :
    Issues (.setApprovalChain docId dto request)
      (.updateDocument docId false { approvalChain := some approvers, approvalStep := some 0 } none)
  | advanceApprovalStep {docId : String} {request : Request} (step : Nat) :
    Issues (.advanceApprovalStep docId request) (.updateDocument docId false { approvalStep := some step } none)
  | approve {docId : String} {request : Request} (step : Nat) :
    Issues (.approve docId request) (.updateDocument docId false { approvalStep := some step } none)
  | restoreFromTrash {docId : String} {request : Request} : Issues (.restoreFromTrash docId request)
    (.updateDocument docId false { status := some .DRAFT, deletedAt := some none } none)
  | update {docId : String} {dto : UpdateDocumentDto} {request : Request} : Issues (.update docId dto request)
    (.updateDocument docId false { classification := dto.classification } none)
  | setLegalHold {docId : String} {dto : LegalHoldDto} {request : Request} (hold : LegalHold) :
    Issues (.setLegalHold docId dto request) (.updateDocument docId false { legalHold := some hold } none)
  | createVersion {docId : String} {dto : CreateVersionDto} {request : Request} (document : Document) :
    Issues (.createVersion docId dto request) (.createVersion (VersionsService.createRow docId dto request.user)
      (VersionsService.createData dto document request.now))
  | restoreVersion {docId : String} {version : Int} {request : Request} (source : DocumentVersion)
    (document : Document) : Issues (.restoreVersion docId version request)
      (.createVersion (VersionsService.restoreRow docId source request.user document)
        { currentVersion := some (document.currentVersion + 1) })
  | runRetention {now : Time} (document : Document) : Issues (.runRetention now) (.updateDocument document.id false
    { status := some .ARCHIVED, archivedAt := some now } (some (RetentionService.archiveRow document now)))
  | purgeExpiredTrash {now : Time} (id : String) : Issues (.purgeExpiredTrash now) (.deleteDocument id)
  | markDeleted {docId : String} {now : Time} : Issues (.markDeleted docId now)
    (.updateDocument docId true { status := some .DELETED, deletedAt := some (some now) } none)

theorem DocumentTask.issues (t : DocumentTask) : t.prog.Uses (Issues t) := by
  have hread : ∀ id organizationId, Issues t (.findDocument id organizationId) := fun _ _ => .read rfl
  have hversion : ∀ docId version, Issues t (.findVersion docId version) := fun _ _ => .read rfl
  cases t with
  | create dto request uuid => exact answered_uses (create_uses .create)
  | updateStatus docId dto request => exact answered_uses (updateStatus_uses hread fun _ => .status rfl)
  | approve docId request =>
    refine answered_uses
      (.bind (fun _ => .bind (fun document => ?_) (findOne_uses hread docId request)) (.ofExcept _))
    refine .bind (fun publishes => ?_) (.ofExcept _)
    split
    · exact updateStatus_uses hread fun _ => .status rfl
    · exact .bind (fun _ => .pure _) (advanceApprovalStep_uses hread .approve)
  | submit _ _ | reject _ _ _ | archive _ _ => exact answered_uses (guarded_uses hread fun _ => .status rfl)
  | delete docId request =>
    rw [DocumentTask.prog, deleted_eq]
    exact .bind (fun _ => .pure _) (guarded_uses hread fun _ => .status rfl)
  | setApprovalChain docId dto request => exact answered_uses (setApprovalChain_uses hread .setApprovalChain)
  | advanceApprovalStep docId request => exact answered_uses (advanceApprovalStep_uses hread .advanceApprovalStep)
  | restoreFromTrash docId request => exact answered_uses (restoreFromTrash_uses hread .restoreFromTrash)
  | update docId dto request => exact answered_uses (update_uses hread .update)
  | setLegalHold docId dto request => exact answered_uses (setLegalHold_uses hread .setLegalHold)
  | createVersion docId dto request => exact registered_uses (createVersion_uses hread .createVersion)
  | restoreVersion docId version request =>
      exact registered_uses (restoreVersion_uses hread hversion .restoreVersion)
  | runRetention now =>
    exact .bind (fun _ => .pure _) (.bind (fun candidates => archiveOverdue_uses now .runRetention candidates _)
      (.op (.read rfl)))
  | purgeExpiredTrash now =>
    exact .bind (fun _ => .pure _)
      (.bind (fun expired => purge_uses .purgeExpiredTrash expired _) (.op (.read rfl)))
  | markDeleted docId now => exact answered_uses (updateDocument_uses (U := Issues _) .markDeleted)

theorem Issues.plain {t : DocumentTask} {o : DocumentOp} (h : Issues t o) (ht : t.isPlain = true) : Plain o := by
  cases h with
  | read h => cases o <;> trivial
  | create organizationId => exact ⟨rfl, rfl, rfl⟩
  | status _ hmap => exact StatusService.row_issued hmap
  | setApprovalChain approvers => exact .unrecorded nofun (fun _ => rfl) rfl
  | runRetention document =>
    refine ⟨?_, fun _ => nofun, fun h => absurd rfl h, rfl⟩
    rintro _ ⟨⟩
    exact ⟨rfl, rfl, rfl, rfl⟩
  | createVersion | restoreVersion | purgeExpiredTrash => cases ht
  | _ => exact .unrecorded nofun (fun h => absurd rfl h) rfl

theorem Issues.issued {t : DocumentTask} {o : DocumentOp} (h : Issues t o) : Issued o := by
  cases ht : t.isPlain with
  | true => exact (h.plain ht).issued
  | false =>
    cases h with
    | read h => cases o <;> trivial
    | status _ hmap => exact StatusService.row_issued hmap
    | createVersion document => exact ⟨⟨rfl, rfl, rfl⟩, rfl⟩
    | restoreVersion source document => exact ⟨⟨rfl, rfl, rfl⟩, rfl⟩
    | purgeExpiredTrash id => trivial
    | _ => cases ht

theorem DocumentTask.plain_uses (t : DocumentTask) (ht : t.isPlain = true) : t.prog.Uses Plain :=
  t.issues.mono fun _ h => h.plain ht

theorem DocumentTask.uses (t : DocumentTask) : t.prog.Uses Issued := t.issues.mono fun _ => Issues.issued

/-! ## Runs -/

def emptyMetadata (ι : Type) : MetadataDb ι := ⟨[], [], [], []⟩

def startTasks {ι : Type} (tasks : ι → DocumentTask) :
    Config ι (MetadataDb ι) DocumentOp DocumentOp.Res HttpError DocumentOutcome :=
  ⟨emptyMetadata ι, fun p => (tasks p).prog⟩

def ownerRequest : Request := ⟨⟨some "u-1", none, ["editor"]⟩, some "o-1", 0⟩

def approverRequest : Request := ⟨⟨some "u-7", none, ["approver"]⟩, some "o-1", 0⟩

end DocVault
