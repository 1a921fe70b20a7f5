import DocVault.GrantRotation
import DocVault.Watermark

/-!
# The content endpoints

`DocumentsService` of `document-service`: a presigned URL, the stream of a
version, with a grant token or without, and the preview. Each of them goes by
one grant, presented by the client or fresh from `metadata-service`, and every
response is stated together with its grant. The storage, and what
`metadata-service` takes from a path, are parameters.
-/

namespace DocVault

open PolicyService

/-- Both services while they handle one request. `received` is the document id that `metadata-service` reads
from the path into which `document-service` has put one, if a route to a grant has that path. -/
structure ContentWorld where
  node : GrantNode
  env : ProcessEnv
  metadataEnv : ProcessEnv
  policy : PolicyEnv
  signs : ∀ kind, Signs node metadataEnv kind policy
  db : PolicyDb
  received : String → Option String
  getObject : String → Option (Nat × Nat) → Option Bytes
  signedUrl : String → String → Int → Option String
  pdf : PdfLib
  now : Time

structure PresignDownloadDto where
  version : Option Int := none
  grantToken : Option String := none

-- An empty token is no token.
def PresignDownloadDto.presented (dto : PresignDownloadDto) : Option String := dto.grantToken.filter (· ≠ "")

structure PresignedDownload where
  docId : String
  version : Int
  filename : String
  expiresAt : String
  expiresInSeconds : Int
  url : Option String
  watermarkRequired : Option Bool := none
  streamingEndpoint : Option String := none

structure ContentStream where
  filename : String
  contentType : Option String
  stream : Bytes

structure ContentPreview where
  filename : String
  contentType : Option String
  fileSize : Nat
  watermarked : Bool
  body : Bytes

/-- A response, and the grant that it goes by. -/
structure Granted (α : Type) where
  grant : GrantPayload
  response : α

namespace ContentWorld
variable (w : ContentWorld)

/-! ## Grants -/

-- The verifiers throw no HTTP errors. A grant is read as what it was signed as.
def verified (kind : GrantKind) (grantToken actorId : String) : Except HttpError GrantPayload :=
  match verifyToken kind w.node w.env grantToken actorId w.now with
  | .error _ => .error .internal
  | .ok json =>
    match readPayload json with
    | some grantPayload => .ok grantPayload
    | none => .error .internal

def authorize (kind : GrantKind) (docId : String) (body : GrantDto) (caller : PolicyRequest) :
    Except HttpError Authorization :=
  match w.received docId with
  | some docId => kind.authorize w.policy w.db docId body caller
  | none => .error .internal

def authorizeDownload (docId : String) (version : Option Int) (caller : PolicyRequest) :
    Except HttpError Authorization :=
  w.authorize .download docId ⟨version⟩ { caller with shareToken := none }

-- An empty share token is left out.
def authorizePreview (docId : String) (version : Option Int) (shareToken : Option String) (caller : PolicyRequest) :
    Except HttpError Authorization :=
  w.authorize .preview docId ⟨version⟩ { caller with shareToken := shareToken.filter (· ≠ "") }

/-! ## The storage -/

def createDownloadUrl (objectKey filename : String) (expiresInSeconds : Int) : Except HttpError String :=
  match w.signedUrl objectKey filename expiresInSeconds with
  | some url => .ok url
  | none => .error .internal

def getObjectStream (objectKey : String) (range : Option (Nat × Nat)) : Except HttpError Bytes :=
  if objectKey = "" then .error (.notFound "Object key not found")
  else match w.getObject objectKey range with
    | some body => .ok body
    | none => .error .internal

/-! ## DocumentsService -/

def watermarkContext (actorId : String) (grantPayload : GrantPayload) : WatermarkContext where
  username := actorId
  timestamp := isoString w.now
  classification := toString grantPayload.classification

def applyWatermark (actorId : String) (grantPayload : GrantPayload) (rawBuffer : Bytes) : Bytes :=
  WatermarkService.applyWatermark w.pdf rawBuffer (w.watermarkContext actorId grantPayload) grantPayload.contentType

def presignGrant (docId : String) (dto : PresignDownloadDto) (caller : PolicyRequest) :
    Except HttpError (GrantPayload × Int) :=
  match dto.presented with
  | some grantToken => do
    let grantPayload ← w.verified .download grantToken caller.actorId
    .ok (grantPayload, 300)
  | none => do
    let authorization ← w.authorizeDownload docId dto.version caller
    let grantPayload ← w.verified .download authorization.grantToken caller.actorId
    .ok (grantPayload, authorization.expiresInSeconds)

def presigned (docId : String) (grantPayload : GrantPayload) (expiresInSeconds : Int) (url : Option String) :
    PresignedDownload where
  docId := docId
  version := grantPayload.version
  filename := grantPayload.filename
  expiresAt := isoString (w.now + expiresInSeconds * 1000)
  expiresInSeconds := expiresInSeconds
  url := url

def presignDownload (docId : String) (dto : PresignDownloadDto) (caller : PolicyRequest) :
    Except HttpError (Granted PresignedDownload) := do
  let (grantPayload, expiresInSeconds) ← w.presignGrant docId dto caller
  if grantPayload.watermarkRequired = some true then
    .ok ⟨grantPayload, { w.presigned docId grantPayload expiresInSeconds none with
      watermarkRequired := some true
      streamingEndpoint := some s!"/documents/{docId}/versions/{grantPayload.version}/stream" }⟩
  else
    let url ← w.createDownloadUrl grantPayload.objectKey grantPayload.filename expiresInSeconds
    .ok ⟨grantPayload, w.presigned docId grantPayload expiresInSeconds (some url)⟩

def versionGuard (authorized : Bool) : Except HttpError Unit :=
  if authorized then .ok () else .error (.forbidden "Requested version is not authorized")

def streamGranted (actorId : String) (grantPayload : GrantPayload) : Except HttpError (Granted ContentStream) := do
  let rawBuffer ← w.getObjectStream grantPayload.objectKey none
  let finalBuffer :=
    if grantPayload.watermarkRequired = some true then w.applyWatermark actorId grantPayload rawBuffer
      else rawBuffer
  .ok ⟨grantPayload, ⟨grantPayload.filename, grantPayload.contentType, finalBuffer⟩⟩

def getStreamWithToken (docId : String) (version : Int) (grantToken actorId : String) :
    Except HttpError (Granted ContentStream) := do
  let grantPayload ← w.verified .download grantToken actorId
  if grantPayload.docId ≠ docId then .error (.forbidden "Grant token document mismatch")
  else
    versionGuard (grantPayload.version = version)
    w.streamGranted actorId grantPayload

def getStream (docId : String) (version : Int) (caller : PolicyRequest) :
    Except HttpError (Granted ContentStream) := do
  let authorization ← w.authorizeDownload docId (some version) caller
  let grantPayload ← w.verified .download authorization.grantToken caller.actorId
  versionGuard (grantPayload.version = version)
  w.streamGranted caller.actorId grantPayload

def WATERMARK_CLASSIFICATIONS : List ClassificationLevel := [.CONFIDENTIAL, .SECRET]

def previewGranted (actorId : String) (range : Option (Nat × Nat)) (grantPayload : GrantPayload) :
    Except HttpError (Granted ContentPreview) := do
  if grantPayload.classification ∈ WATERMARK_CLASSIFICATIONS then
    let rawBuffer ← w.getObjectStream grantPayload.objectKey none
    let buffer := w.applyWatermark actorId grantPayload rawBuffer
    .ok ⟨grantPayload, ⟨grantPayload.filename, grantPayload.contentType, buffer.length, true, buffer⟩⟩
  else
    let object ← w.getObjectStream grantPayload.objectKey range
    .ok ⟨grantPayload, ⟨grantPayload.filename, grantPayload.contentType, object.length, false, object⟩⟩

def preview (docId : String) (version : Option Int) (range : Option (Nat × Nat)) (shareToken : Option String)
    (caller : PolicyRequest) : Except HttpError (Granted ContentPreview) := do
  let authorization ← w.authorizePreview docId version shareToken caller
  let grantPayload ← w.verified .preview authorization.grantToken caller.actorId
  versionGuard (version.all (grantPayload.version = ·))
  w.previewGranted caller.actorId range grantPayload

end ContentWorld

/-! ## Requests and responses -/

inductive ContentRequest where
  | presignDownload (docId : String) (dto : PresignDownloadDto)
  | getStreamWithToken (docId : String) (version : Int) (grantToken : String)
  | getStream (docId : String) (version : Int)
  | preview (docId : String) (version : Option Int) (range : Option (Nat × Nat)) (shareToken : Option String)

namespace ContentRequest

def docId : ContentRequest → String
  | presignDownload docId _ => docId
  | getStreamWithToken docId _ _ => docId
  | getStream docId _ => docId
  | preview docId _ _ _ => docId

def version : ContentRequest → Option Int
  | presignDownload _ dto => dto.version
  | getStreamWithToken _ version _ => some version
  | getStream _ version => some version
  | preview _ version _ _ => version

end ContentRequest

inductive ContentResponse where
  | presigned (response : PresignedDownload)
  | stream (response : ContentStream)
  | preview (response : ContentPreview)

/-- There is a URL or content in it. -/
def ContentResponse.delivers : ContentResponse → Bool
  | presigned response => response.url.isSome
  | stream _ => true
  | preview _ => true

def Granted.map {α β : Type} (f : α → β) (granted : Granted α) : Granted β := ⟨granted.grant, f granted.response⟩

def ContentWorld.serve (w : ContentWorld) (caller : PolicyRequest) : ContentRequest →
    Except HttpError (Granted ContentResponse)
  | .presignDownload docId dto => (w.presignDownload docId dto caller).map (Granted.map .presigned)
  | .getStreamWithToken docId version grantToken =>
    (w.getStreamWithToken docId version grantToken caller.actorId).map (Granted.map .stream)
  | .getStream docId version => (w.getStream docId version caller).map (Granted.map .stream)
  | .preview docId version range shareToken =>
    (w.preview docId version range shareToken caller).map (Granted.map .preview)

/-! ## What is served -/

namespace ContentWorld
variable {w : ContentWorld} {kind : GrantKind} {docId actorId grantToken : String}
  {version : Option Int} {dto : GrantDto}
  {caller : PolicyRequest} {grantPayload : GrantPayload} {authorization : Authorization}

theorem versionGuard_ok {authorized : Bool} {u : Unit} : versionGuard authorized = .ok u ↔ authorized = true := by
  unfold versionGuard
  cases authorized <;> simp

theorem createDownloadUrl_ok {objectKey filename url : String} {seconds : Int} :
    w.createDownloadUrl objectKey filename seconds = .ok url ↔
    w.signedUrl objectKey filename seconds = some url := by
  unfold createDownloadUrl
  cases w.signedUrl objectKey filename seconds <;> simp

theorem authorize_granted {policy : PolicyEnv} {db : PolicyDb} {request : PolicyRequest}
    (h : kind.authorize policy db docId dto request = .ok authorization) :
    ∃ document ∈ db.documents, document.id = docId ∧ authorization.docId = docId ∧
      (∀ v ∈ dto.version, authorization.version = v) ∧ authorization.classification = document.classification ∧
      ∀ required ∈ authorization.watermarkRequired,
        required = CLASSIFICATION_WATERMARK_LEVELS document.classification := by
  have hrow : ∀ {document : Document} {row : DocumentVersion} {v : Int},
      db.version docId (dto.version.getD document.currentVersion) = some row →
      v ∈ dto.version → row.version = v := by
    intro document row v hrow hv
    rw [Option.mem_def] at hv
    rw [(PolicyDb.version_some hrow).2.2, hv, Option.getD_some]
  cases kind with
  | download =>
    obtain ⟨document, row, hf, _, hversion, _, _, _, rfl⟩ := authorizeDownload_ok.mp h
    obtain ⟨hd, hid, _⟩ := findInOrg_ok.mp hf
    exact ⟨document, hd, hid, hid, fun v hv => hrow hversion hv, rfl, fun _ hr => (Option.some.inj hr).symm⟩
  | preview =>
    obtain ⟨document, row, hf, _, hversion, _, _, rfl⟩ := authorizePreview_ok.mp h
    obtain ⟨hd, hid, _⟩ := findInOrg_ok.mp hf
    exact ⟨document, hd, hid, hid, fun v hv => hrow hversion hv, rfl, nofun⟩

/-- A fresh grant, as `document-service` reads it. -/
theorem verified_fresh (h : w.authorize kind docId dto caller = .ok authorization)
    (hv : w.verified kind authorization.grantToken actorId = .ok grantPayload) :
    grantPayload = authorization.payload caller.actorId := by
  unfold authorize at h
  split at h
  · unfold verified at hv
    split at hv
    · cases hv
    · rename_i json hjson
      rw [(authorize_ok h).1] at hjson
      obtain ⟨rfl, _⟩ := (verify_signed (w.signs kind)).mp hjson
      rw [readPayload_json] at hv
      exact (Except.ok.inj hv).symm
  · cases h

theorem authorize_received : w.authorize kind docId dto caller = .ok authorization ↔
    ∃ received, w.received docId = some received ∧
      kind.authorize w.policy w.db received dto caller = .ok authorization := by
  unfold authorize
  cases w.received docId <;> simp

theorem streamGranted_ok {granted : Granted ContentStream} : w.streamGranted actorId grantPayload = .ok granted ↔
    ∃ rawBuffer, w.getObjectStream grantPayload.objectKey none = .ok rawBuffer ∧
      granted = ⟨grantPayload, grantPayload.filename, grantPayload.contentType,
        if grantPayload.watermarkRequired = some true then w.applyWatermark actorId grantPayload rawBuffer
        else rawBuffer⟩ := by
  unfold streamGranted
  rw [bind_ok]
  refine exists_congr fun rawBuffer => and_congr_right fun _ => ?_
  rw [Except.ok.injEq, eq_comm]

theorem previewGranted_marked {range : Option (Nat × Nat)} {granted : Granted ContentPreview}
    (hlevel : grantPayload.classification ∈ WATERMARK_CLASSIFICATIONS) :
    w.previewGranted actorId range grantPayload = .ok granted ↔
      ∃ rawBuffer, w.getObjectStream grantPayload.objectKey none = .ok rawBuffer ∧
        granted = ⟨grantPayload, grantPayload.filename, grantPayload.contentType,
          (w.applyWatermark actorId grantPayload rawBuffer).length, true,
          w.applyWatermark actorId grantPayload rawBuffer⟩ := by
  unfold previewGranted
  rw [if_pos hlevel, bind_ok]
  refine exists_congr fun rawBuffer => and_congr_right fun _ => ?_
  rw [Except.ok.injEq, eq_comm]

theorem previewGranted_plain {range : Option (Nat × Nat)} {granted : Granted ContentPreview}
    (hlevel : grantPayload.classification ∉ WATERMARK_CLASSIFICATIONS) :
    w.previewGranted actorId range grantPayload = .ok granted ↔
      ∃ object, w.getObjectStream grantPayload.objectKey range = .ok object ∧
        granted = ⟨grantPayload, grantPayload.filename, grantPayload.contentType,
          object.length, false, object⟩ := by
  unfold previewGranted
  rw [if_neg hlevel, bind_ok]
  refine exists_congr fun object => and_congr_right fun _ => ?_
  rw [Except.ok.injEq, eq_comm]

theorem getStreamWithToken_ok {version : Int} {granted : Granted ContentStream} :
    w.getStreamWithToken docId version grantToken actorId = .ok granted ↔
      ∃ grantPayload, w.verified .download grantToken actorId = .ok grantPayload ∧ grantPayload.docId = docId ∧
        grantPayload.version = version ∧ w.streamGranted actorId grantPayload = .ok granted := by
  unfold getStreamWithToken
  rw [bind_ok]
  refine exists_congr fun grantPayload => and_congr_right fun _ => ?_
  by_cases hdoc : grantPayload.docId = docId
  · simp [hdoc, bind_ok, versionGuard_ok]
  · simp [hdoc]

theorem getStream_ok {version : Int} {granted : Granted ContentStream} :
    w.getStream docId version caller = .ok granted ↔
      ∃ authorization, w.authorizeDownload docId (some version) caller = .ok authorization ∧
        ∃ grantPayload, w.verified .download authorization.grantToken caller.actorId = .ok grantPayload ∧
          grantPayload.version = version ∧ w.streamGranted caller.actorId grantPayload = .ok granted := by
  unfold getStream
  simp only [bind_ok, versionGuard_ok, decide_eq_true_eq, exists_const]

theorem preview_ok {range : Option (Nat × Nat)} {shareToken : Option String} {granted : Granted ContentPreview} :
    w.preview docId version range shareToken caller = .ok granted ↔
      ∃ authorization, w.authorizePreview docId version shareToken caller = .ok authorization ∧
        ∃ grantPayload, w.verified .preview authorization.grantToken caller.actorId = .ok grantPayload ∧
          (∀ v ∈ version, grantPayload.version = v) ∧
          w.previewGranted caller.actorId range grantPayload = .ok granted := by
  unfold preview
  simp only [bind_ok, versionGuard_ok, Option.all_eq_true, decide_eq_true_eq, exists_const, Option.mem_def]

/-- A presigned URL takes a grant that asks for no watermark. -/
theorem presignDownload_ok {dto : PresignDownloadDto} {granted : Granted PresignedDownload} {url : String} :
    (w.presignDownload docId dto caller = .ok granted ∧ granted.response.url = some url) ↔
      ∃ grantPayload seconds, w.presignGrant docId dto caller = .ok (grantPayload, seconds) ∧
        grantPayload.watermarkRequired ≠ some true ∧
        w.signedUrl grantPayload.objectKey grantPayload.filename seconds = some url ∧
        granted = ⟨grantPayload, w.presigned docId grantPayload seconds (some url)⟩ := by
  unfold presignDownload
  simp only [bind_ok, Prod.exists]
  constructor
  · rintro ⟨⟨grantPayload, seconds, hgrant, h⟩, hurl⟩
    split at h
    · obtain rfl := Except.ok.inj h
      cases hurl
    · rename_i hwatermark
      obtain ⟨signed, hsigned, h⟩ := bind_ok.mp h
      obtain rfl := Except.ok.inj h
      obtain rfl := Option.some.inj hurl
      exact ⟨grantPayload, seconds, hgrant, hwatermark, createDownloadUrl_ok.mp hsigned, rfl⟩
  · rintro ⟨grantPayload, seconds, hgrant, hwatermark, hsigned, rfl⟩
    refine ⟨⟨grantPayload, seconds, hgrant, ?_⟩, rfl⟩
    rw [if_neg hwatermark]
    exact bind_ok.mpr ⟨url, createDownloadUrl_ok.mpr hsigned, rfl⟩

/-- While a grant lasts, `document-service` reads it as it was issued, if it accepts what is issued at all. -/
theorem verified_issued (hissued : AcceptsIssued kind w.node w.policy w.env)
    (h : kind.authorize w.policy w.db docId dto caller = .ok authorization)
    (hclock : (caller.now + expiresInSeconds * 1000).natAbs ≤ 8640000000000000)
    (hnow : w.now < caller.now + expiresInSeconds * 1000) :
    w.verified kind authorization.grantToken caller.actorId = .ok (authorization.payload caller.actorId) := by
  obtain ⟨json, hjson, hread⟩ := hissued _ _ _ _ _ h hclock _ hnow
  unfold verified
  rw [hjson]
  simp only [hread]

end ContentWorld

/-! ## A world -/

def contentWorld (db : PolicyDb) : ContentWorld where
  node := grantNode
  env := processEnv "k1"
  metadataEnv := processEnv "k1"
  policy := signingPolicy
  signs := signs_k1
  db := db
  received := some
  getObject _ _ := some [0x25, 0x50, 0x44, 0x46]
  signedUrl objectKey _ _ := some objectKey
  pdf := samplePdf
  now := 0

theorem contentWorld_verified {db : PolicyDb} {kind : GrantKind} {docId : String} {dto : GrantDto}
    {caller : PolicyRequest}
    {authorization : Authorization} (h : kind.authorize signingPolicy db docId dto caller = .ok authorization)
    (hnow : caller.now = 0) :
    (contentWorld db).verified kind authorization.grantToken caller.actorId =
      .ok (authorization.payload caller.actorId) := by
  refine ContentWorld.verified_issued (accepts_of_secret (signs_k1 kind) ?_) h ?_ ?_
  · cases kind <;> rfl
  · rw [hnow]; decide
  · rw [hnow]; exact (by decide : (0 : Time) < 0 + expiresInSeconds * 1000)

end DocVault
