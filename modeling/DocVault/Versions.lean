import DocVault.Documents

/-!
# Versions

`VersionsService` of `metadata-service`. A version is registered, or an older
one restored as a new one, by reading the document and then inserting the row
and moving `currentVersion` in one transaction.
-/

namespace DocVault

open Interleave

structure CreateVersionDto where
  version : Int
  objectKey : String
  checksum : String
  size : Int
  filename : String
  contentType : Option String := none
  dlpStatus : Option DlpStatus := none

def CreateVersionDto.accepts (dto : CreateVersionDto) : Bool :=
  1 ≤ dto.version && MaxLength 1024 dto.objectKey && 1 ≤ dto.size && MaxLength 255 dto.filename

namespace VersionsService

def assertCanManage (ownerId : String) (user : ServiceUser) : Except HttpError Unit :=
  assertOwnerEditor "Only the owner editor or admin can register versions" ownerId (buildActorId user) user.roles

def createGuard (dto : CreateVersionDto) (user : ServiceUser) (document : Document) : Except HttpError Unit := do
  assertCanManage document.ownerId user
  let expectedVersion := document.currentVersion + 1
  if dto.version ≠ expectedVersion then
    .error (.conflict s!"Version {dto.version} is invalid. Expected {expectedVersion}.")
  else .ok ()

def createRow (docId : String) (dto : CreateVersionDto) (user : ServiceUser) : DocumentVersion where
  docId := docId
  version := dto.version
  objectKey := dto.objectKey
  checksum := dto.checksum
  size := dto.size
  filename := dto.filename
  contentType := dto.contentType
  dlpStatus := dto.dlpStatus.getD .NOT_SCANNED
  createdBy := buildActorId user

-- The aggregate follows the new version up and down; the classification only escalates.
def createData (dto : CreateVersionDto) (document : Document) (now : Time) : DocumentUpdate :=
  let dlpStatus := dto.dlpStatus.getD .NOT_SCANNED
  let dlpDetected := dlpStatus = .DETECTED
  let shouldEscalateClassification :=
    dlpDetected && (document.classification = .PUBLIC || document.classification = .INTERNAL)
  { currentVersion := some dto.version
    dlp := some ⟨dlpStatus, if dlpDetected then some now else none⟩
    classification := if shouldEscalateClassification then some .CONFIDENTIAL else none }

def create (docId : String) (dto : CreateVersionDto) (request : Request) : DocumentM DocumentVersion := do
  let document ← findInOrg docId request
  let _ ← Prog.ofExcept (createGuard dto request.user document)
  let result ← Prog.op (DocumentOp.createVersion (createRow docId dto request.user)
    (createData dto document request.now))
  Prog.ofExcept (updated result)

def restoreRow (docId : String) (source : DocumentVersion) (user : ServiceUser) (document : Document) :
    DocumentVersion :=
  { source with docId := docId, version := document.currentVersion + 1, createdBy := buildActorId user }

def restoreGuard (sourceVersion : Int) (document : Document) : Except HttpError Unit :=
  if sourceVersion = document.currentVersion then .error (.conflict "Cannot restore the current version")
    else .ok ()

-- The scan result of the document is left as it is.
def restore (docId : String) (sourceVersion : Int) (request : Request) : DocumentM DocumentVersion := do
  let document ← findInOrg docId request
  let _ ← Prog.ofExcept (assertCanManage document.ownerId request.user)
  match ← Prog.op (DocumentOp.findVersion docId sourceVersion) with
  | none => .throw (.notFound "Source version not found")
  | some source =>
    let _ ← Prog.ofExcept (restoreGuard sourceVersion document)
    let result ← Prog.op (DocumentOp.createVersion (restoreRow docId source request.user document)
      { currentVersion := some (document.currentVersion + 1) })
    Prog.ofExcept (updated result)

theorem createGuard_ok {dto : CreateVersionDto} {user : ServiceUser} {document : Document} {u : Unit} :
    createGuard dto user document = .ok u ↔
      assertCanManage document.ownerId user = .ok () ∧ dto.version = document.currentVersion + 1 := by
  unfold createGuard
  cases assertCanManage document.ownerId user with
  | error e => simp [bind, Except.bind]
  | ok u =>
    by_cases h : dto.version = document.currentVersion + 1 <;> simp [bind, Except.bind, h]

end VersionsService

end DocVault
