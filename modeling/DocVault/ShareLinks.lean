import DocVault.Keyed
import DocVault.Policy

/-!
# Share links

`DocumentShareLinksService` of `metadata-service`. A link is read by the hash
of its token, its status is computed from the row that was read, and the access
is counted by an increment of the row that is stored. The random token and the
id of a new link are part of the call. Each access is logged with its process
and the row it found, which no operation reads.
-/

namespace DocVault

open Interleave

structure DocumentRow extends Document where
  title : String := ""
  deriving DecidableEq

structure ShareLinkRow extends DocumentShareLink where
  id : String
  createdBy : String
  createdAt : Time
  lastAccessedAt : Option Time := none
  revokedBy : Option String := none
  deriving DecidableEq

inductive ShareLinkStatus where
  | ACTIVE
  | EXPIRED
  | REVOKED
  | EXHAUSTED
  deriving DecidableEq

instance : ToString ShareLinkStatus where
  toString
    | .ACTIVE => "ACTIVE"
    | .EXPIRED => "EXPIRED"
    | .REVOKED => "REVOKED"
    | .EXHAUSTED => "EXHAUSTED"

def Exhausted (link : DocumentShareLink) : Prop :=
  ∃ maxAccessCount, link.maxAccessCount = some maxAccessCount ∧ link.accessCount ≥ maxAccessCount

instance (link : DocumentShareLink) : Decidable (Exhausted link) :=
  match h : link.maxAccessCount with
  | none => isFalse fun ⟨_, hm, _⟩ => by rw [h] at hm; cases hm
  | some m =>
    if hle : link.accessCount ≥ m then isTrue ⟨m, h, hle⟩
    else isFalse fun ⟨n, hn, hge⟩ => hle (by rw [h] at hn; cases hn; exact hge)

def computeStatus (link : DocumentShareLink) (now : Time) : ShareLinkStatus :=
  if link.revokedAt.isSome then .REVOKED
  else if link.expiresAt ≤ now then .EXPIRED
  else if Exhausted link then .EXHAUSTED
  else .ACTIVE

structure ShareLinkView extends ShareLinkRow where
  status : ShareLinkStatus

def toView (link : ShareLinkRow) (now : Time) : ShareLinkView :=
  { link with status := computeStatus link.toDocumentShareLink now }

/-! ## The store -/

structure Access (ι : Type) where
  process : ι
  link : ShareLinkRow

structure ShareLinkDb (ι : Type) where
  documents : List DocumentRow
  shareLinks : List ShareLinkRow
  accesses : List (Access ι)

inductive ShareLinkOp where
  | findDocument (id : String)
  | findDocumentInOrg (id organizationId : String)
  | findByTokenHash (tokenHash : String)
  | findLink (id : String)
  | findLinks (docId : String)
  | createLink (link : ShareLinkRow)
  | accessLink (id : String) (now : Time)
  | revokeLink (id : String) (now : Time) (revokedBy : String)

/-- The rows found or written, or nothing when there is none or the write fails. -/
abbrev ShareLinkOp.Res : ShareLinkOp → Type
  | findDocument _ => Option DocumentRow
  | findDocumentInOrg _ _ => Option DocumentRow
  | findByTokenHash _ => Option ShareLinkRow
  | findLink _ => Option ShareLinkRow
  | findLinks _ => List ShareLinkRow
  | createLink _ => Option ShareLinkRow
  | accessLink _ _ => Option ShareLinkRow
  | revokeLink _ _ _ => Option ShareLinkRow

namespace ShareLinkRow

def accessed (link : ShareLinkRow) (now : Time) : ShareLinkRow :=
  { link with accessCount := link.accessCount + 1, lastAccessedAt := some now }

def revoked (link : ShareLinkRow) (now : Time) (revokedBy : String) : ShareLinkRow :=
  { link with revokedAt := some now, revokedBy := some revokedBy }

end ShareLinkRow

namespace ShareLinkDb
variable {ι : Type}

def document (db : ShareLinkDb ι) (id : String) : Option DocumentRow := Keyed.find (·.id) db.documents id

def link (db : ShareLinkDb ι) (id : String) : Option ShareLinkRow := Keyed.find (·.id) db.shareLinks id

def byTokenHash (db : ShareLinkDb ι) (tokenHash : String) : Option ShareLinkRow :=
  Keyed.find (·.tokenHash) db.shareLinks tokenHash

/-- Whether the keys and the foreign key let the row in. -/
def admits (db : ShareLinkDb ι) (link : ShareLinkRow) : Bool :=
  (db.link link.id).isNone && (db.byTokenHash link.tokenHash).isNone && (db.document link.docId).isSome

def update (db : ShareLinkDb ι) (id : String) (link : ShareLinkRow) : ShareLinkDb ι :=
  { db with shareLinks := Keyed.put (·.id) db.shareLinks id link }

def access (db : ShareLinkDb ι) (p : ι) (id : String) (now : Time) (link : ShareLinkRow) : ShareLinkDb ι :=
  { db.update id (link.accessed now) with accesses := db.accesses ++ [⟨p, link⟩] }

end ShareLinkDb

def shareLinkRun {ι : Type} (p : ι) (db : ShareLinkDb ι) : (o : ShareLinkOp) → o.Res × ShareLinkDb ι
  | .findDocument id => (db.document id, db)
  | .findDocumentInOrg id organizationId => ((db.document id).filter (·.organizationId = organizationId), db)
  | .findByTokenHash tokenHash => (db.byTokenHash tokenHash, db)
  | .findLink id => (db.link id, db)
  | .findLinks docId =>
    ((db.shareLinks.filter (·.docId = docId)).insertionSort fun a b => b.createdAt ≤ a.createdAt, db)
  | .createLink link =>
    if db.admits link then (some link, { db with shareLinks := db.shareLinks ++ [link] }) else (none, db)
  | .accessLink id now =>
    match db.link id with
    | none => (none, db)
    | some link => (some (link.accessed now), db.access p id now link)
  | .revokeLink id now revokedBy =>
    match db.link id with
    | none => (none, db)
    | some link => (some (link.revoked now revokedBy), db.update id (link.revoked now revokedBy))

def ShareLinkExec {ι : Type} : Exec ι (ShareLinkDb ι) ShareLinkOp ShareLinkOp.Res := fun p db o r db' =>
  (r, db') = shareLinkRun p db o

abbrev ShareLinkM := Prog ShareLinkOp ShareLinkOp.Res HttpError

/-! ## DocumentShareLinksService -/

structure CreateShareLinkDto where
  permission : Option DocumentSharePermission := none
  expiresInHours : Int
  maxAccessCount : Option Int := none

def CreateShareLinkDto.accepts (dto : CreateShareLinkDto) : Bool :=
  1 ≤ dto.expiresInHours && dto.expiresInHours ≤ 720 &&
    dto.maxAccessCount.all fun maxAccessCount => 1 ≤ maxAccessCount && maxAccessCount ≤ 1000

structure ShareLinkRedeemResult where
  docId : String
  permission : DocumentSharePermission
  documentTitle : String
  currentVersion : Int
  expiresAt : String
  deriving DecidableEq

namespace DocumentShareLinksService

def MAX_EXPIRY_HOURS : Int := 720

def HOUR_MS : Int := 60 * 60 * 1000

def hashToken (env : PolicyEnv) (token : String) : String := env.sha256 token

def findDocInOrgOrThrow (docId : String) (request : Request) : ShareLinkM DocumentRow := do
  let organizationId ← Prog.ofExcept (requireOrgId request)
  match ← Prog.op (ShareLinkOp.findDocumentInOrg docId organizationId) with
  | none => .throw (.notFound "Document not found")
  | some document => pure document

def assertCanManageShares (ownerId : String) (context : RequestContext) : Except HttpError Unit :=
  let isAdmin := context.roles.contains "admin"
  let isOwnerEditor :=
    ownerId = context.actorId && (context.roles.contains "editor" || context.roles.contains "admin")
  if !isAdmin && !isOwnerEditor then .error (.forbidden "Only the owner editor or an admin can manage share links")
  else .ok ()

def assertExpiry (expiresInHours : Int) : Except HttpError Unit :=
  if expiresInHours < 1 || expiresInHours > MAX_EXPIRY_HOURS then
    .error (.badRequest "expiresInHours must be between 1 and 720")
  else .ok ()

def newLink (env : PolicyEnv) (docId : String) (dto : CreateShareLinkDto) (request : Request) (id token : String) :
    ShareLinkRow where
  docId := docId
  tokenHash := hashToken env token
  permission := dto.permission.getD .VIEW
  expiresAt := request.now + dto.expiresInHours * HOUR_MS
  maxAccessCount := dto.maxAccessCount
  id := id
  createdBy := request.context.actorId
  createdAt := request.now

def create (env : PolicyEnv) (docId : String) (dto : CreateShareLinkDto) (request : Request) (id token : String) :
    ShareLinkM (ShareLinkView × String) := do
  let _ ← Prog.ofExcept (assertExpiry dto.expiresInHours)
  let document ← findDocInOrgOrThrow docId request
  let _ ← Prog.ofExcept (assertCanManageShares document.ownerId request.context)
  let result ← Prog.op (ShareLinkOp.createLink (newLink env docId dto request id token))
  let created ← Prog.ofExcept (updated result)
  pure (toView created request.now, token)

def list (docId : String) (request : Request) : ShareLinkM (List ShareLinkView) := do
  let document ← findDocInOrgOrThrow docId request
  let _ ← Prog.ofExcept (assertCanManageShares document.ownerId request.context)
  let links ← Prog.op (ShareLinkOp.findLinks docId)
  pure (links.map fun link => toView link request.now)

def revoke (docId linkId : String) (request : Request) : ShareLinkM ShareLinkView := do
  let document ← findDocInOrgOrThrow docId request
  let _ ← Prog.ofExcept (assertCanManageShares document.ownerId request.context)
  match ← Prog.op (ShareLinkOp.findLink linkId) with
  | none => .throw (.notFound "Share link not found")
  | some link =>
    if link.docId ≠ docId then .throw (.notFound "Share link not found")
    else if link.revokedAt.isSome then pure (toView link request.now)
    else do
      let result ← Prog.op (ShareLinkOp.revokeLink linkId request.now request.context.actorId)
      let revoked ← Prog.ofExcept (updated result)
      pure (toView revoked request.now)

def redeemGuard (link : DocumentShareLink) (now : Time) : Except HttpError Unit :=
  let status := computeStatus link now
  if status ≠ .ACTIVE then .error (.forbidden s!"Share link is {(toString status).toLower}") else .ok ()

def redeemResult (link : ShareLinkRow) (document : DocumentRow) : ShareLinkRedeemResult where
  docId := link.docId
  permission := link.permission
  documentTitle := document.title
  currentVersion := document.currentVersion
  expiresAt := isoString link.expiresAt

-- The increment looks at the id only: neither the cap nor the revocation is checked again.
def redeem (env : PolicyEnv) (token : String) (request : Request) : ShareLinkM ShareLinkRedeemResult := do
  match ← Prog.op (ShareLinkOp.findByTokenHash (hashToken env token)) with
  | none => .throw (.notFound "Share link not found")
  | some link =>
    let _ ← Prog.ofExcept (redeemGuard link.toDocumentShareLink request.now)
    match ← Prog.op (ShareLinkOp.findDocument link.docId) with
    | none => .throw (.notFound "Document not found")
    | some document =>
      let result ← Prog.op (ShareLinkOp.accessLink link.id request.now)
      let _ ← Prog.ofExcept (updated result)
      pure (redeemResult link document)

end DocumentShareLinksService

/-! ## The routes -/

namespace DocumentShareLinksController

def create (env : PolicyEnv) (docId : String) (dto : CreateShareLinkDto) (request : Request) (id token : String) :
    ShareLinkM (ShareLinkView × String) := do
  let _ ← Prog.ofExcept (RolesGuard ["editor", "admin"] request.user)
  if !dto.accepts then .throw (.badRequest "Bad Request")
  else DocumentShareLinksService.create env docId dto request id token

def list (docId : String) (request : Request) : ShareLinkM (List ShareLinkView) := do
  let _ ← Prog.ofExcept (RolesGuard ["editor", "admin"] request.user)
  DocumentShareLinksService.list docId request

def revoke (docId linkId : String) (request : Request) : ShareLinkM ShareLinkView := do
  let _ ← Prog.ofExcept (RolesGuard ["editor", "admin"] request.user)
  DocumentShareLinksService.revoke docId linkId request

def redeem (env : PolicyEnv) (token : String) (request : Request) : ShareLinkM ShareLinkRedeemResult := do
  let _ ← Prog.ofExcept (RolesGuard ["viewer", "editor", "approver", "admin"] request.user)
  DocumentShareLinksService.redeem env token request

end DocumentShareLinksController

inductive ShareLinkTask where
  | create (docId : String) (dto : CreateShareLinkDto) (request : Request) (id token : String)
  | list (docId : String) (request : Request)
  | revoke (docId linkId : String) (request : Request)
  | redeem (token : String) (request : Request)

inductive ShareLinkOutcome where
  | created (link : ShareLinkView) (token : String)
  | listed (links : List ShareLinkView)
  | revoked (link : ShareLinkView)
  | redeemed (result : ShareLinkRedeemResult)

def ShareLinkTask.prog (env : PolicyEnv) : ShareLinkTask → ShareLinkM ShareLinkOutcome
  | create docId dto request id token => do
    let result ← DocumentShareLinksController.create env docId dto request id token
    pure (.created result.1 result.2)
  | list docId request => do
    let result ← DocumentShareLinksController.list docId request
    pure (.listed result)
  | revoke docId linkId request => do
    let result ← DocumentShareLinksController.revoke docId linkId request
    pure (.revoked result)
  | redeem token request => do
    let result ← DocumentShareLinksController.redeem env token request
    pure (.redeemed result)

/-! ## Runs -/

/-- Documents and no link: every link comes from a call of `create`. -/
def startShareLinks {ι : Type} (env : PolicyEnv) (documents : List DocumentRow) (tasks : ι → ShareLinkTask) :
    Config ι (ShareLinkDb ι) ShareLinkOp ShareLinkOp.Res HttpError ShareLinkOutcome :=
  ⟨⟨documents, [], []⟩, fun p => (tasks p).prog env⟩

end DocVault
