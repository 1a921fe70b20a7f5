import DocVault.AuditFilters
import DocVault.Content
import DocVault.ContentAccess
import DocVault.Recording

/-!
# The audit trail of content requests

The content endpoints once more, with the events that they and the
authorization of `metadata-service` record and with what they throw. A download
that fails is recorded by two of the endpoints, with a result that goes by the
status of the response in the error. No error that arrives there has one: the
client of `metadata-service` throws its own exceptions, and the verifiers and
the guards of the service never had a response.
-/

namespace DocVault

open Recording

/-- What `emitEvent` sends for a request of the actor. -/
structure AuditEventPayload where
  actorId : String
  action : String
  resourceType : String := "DOCUMENT"
  resourceId : String
  result : AuditResult
  reason : Option String := none

/-- What the framework keeps as `response` of a built-in HTTP exception with a text: an
object of these properties. -/
structure NestExceptions where
  body : Nat → String → Json
  documented : ∀ status message, ∃ fields, body status message = .obj fields ∧
    ∀ f ∈ fields, f.1 ∈ ["statusCode", "message", "error"]

/-- An answer of `metadata-service` that is no grant: an error of its exception filter, or none at all. -/
inductive MetadataFailure where
  | refused (status : Nat) (message : String)
  | unanswered

/-- The services, and what answers a request for a grant instead of the policy: a guard, the validation of the
body, or another route. -/
structure AuditedWorld extends ContentWorld where
  nest : NestExceptions
  instead : GrantKind → String → GrantDto → PolicyRequest → Option MetadataFailure

/-- What an endpoint throws, with its `response`. -/
inductive Thrown where
  | rethrown (status : Nat) (response : Json) (message : String)
  | grant (message : String)
  | mismatch (response : Json) (message : String)
  | other (error : HttpError) (response : Option Json)

namespace Thrown

def response : Thrown → Option Json
  | rethrown _ response _ => some response
  | grant _ => none
  | mismatch response _ => some response
  | other _ response => response

def message : Thrown → String
  | rethrown _ _ message => message
  | grant message => message
  | mismatch _ message => message
  | other (.badRequest message) _ => message
  | other (.forbidden message) _ => message
  | other (.notFound message) _ => message
  | other (.conflict message) _ => message
  | other .internal _ => "Internal server error"

def httpError : Thrown → HttpError
  | rethrown 400 _ message => .badRequest message
  | rethrown 403 _ message => .forbidden message
  | rethrown 404 _ message => .notFound message
  | rethrown 409 _ message => .conflict message
  | rethrown _ _ _ => .internal
  | grant _ => .internal
  | mismatch _ message => .forbidden message
  | other error _ => error

/-- A 4xx of `metadata-service`, or a grant that is refused here. -/
def Refusal : Thrown → Prop
  | rethrown status _ _ => 400 ≤ status ∧ status < 500
  | grant _ => True
  | mismatch _ _ => True
  | other _ _ => False

end Thrown

abbrev ContentRun := Run AuditEventPayload Thrown

/-! ## The authorization of metadata-service -/

def GrantKind.authorizedAction : GrantKind → String
  | download => "DOCUMENT_DOWNLOAD_AUTHORIZED"
  | preview => "DOCUMENT_PREVIEW_AUTHORIZED"

def GrantKind.path : GrantKind → String
  | download => "download-authorize"
  | preview => "preview-authorize"

-- `HttpExceptionFilter`
def HttpError.failure : HttpError → MetadataFailure
  | .badRequest message => .refused 400 message
  | .forbidden message => .refused 403 message
  | .notFound message => .refused 404 message
  | .conflict message => .refused 409 message
  | .internal => .refused 500 "Internal server error"

namespace AuditedWorld
variable (w : AuditedWorld)

/-- The policy records what it grants, and nothing else. -/
def policyGrant (kind : GrantKind) (docId : String) (body : GrantDto) (caller : PolicyRequest) :
    Run AuditEventPayload MetadataFailure Authorization :=
  match kind.authorize w.policy w.db docId body caller with
  | .ok authorization =>
    ⟨[{ actorId := caller.actorId, action := kind.authorizedAction, resourceId := docId, result := .SUCCESS }],
      .ok authorization⟩
  | .error error => ⟨[], .error error.failure⟩

def metadataGrant (kind : GrantKind) (docId : String) (body : GrantDto) (caller : PolicyRequest) :
    Run AuditEventPayload MetadataFailure Authorization :=
  match w.received docId, w.instead kind docId body caller with
  | _, some failure => Run.throw failure
  | none, none => Run.throw (.refused 404 s!"Cannot POST /documents/{docId}/{kind.path}")
  | some received, none => w.policyGrant kind received body caller

/-! ## MetadataClient -/

def rethrowHttpError : MetadataFailure → Thrown
  | .refused status message =>
    .rethrown status (if status ∈ [400, 403, 404, 409] then w.nest.body status message else .str message) message
  | .unanswered => .other .internal none

def requestGrant (kind : GrantKind) (docId : String) (body : GrantDto) (caller : PolicyRequest) :
    ContentRun Authorization :=
  let reply := w.metadataGrant kind docId body caller
  ⟨reply.events, reply.outcome.mapError w.rethrowHttpError⟩

def authorizeDownload (docId : String) (version : Option Int) (caller : PolicyRequest) : ContentRun Authorization :=
  w.requestGrant .download docId ⟨version⟩ { caller with shareToken := none }

def authorizePreview (docId : String) (version : Option Int) (shareToken : Option String) (caller : PolicyRequest) :
    ContentRun Authorization :=
  w.requestGrant .preview docId ⟨version⟩ { caller with shareToken := shareToken.filter (· ≠ "") }

/-! ## DocumentsService -/

def verified (kind : GrantKind) (grantToken actorId : String) : ContentRun GrantPayload :=
  match verifyToken kind w.node w.env grantToken actorId w.now with
  | .error message => Run.throw (.grant message)
  | .ok json =>
    match readPayload json with
    | some grantPayload => pure grantPayload
    | none => Run.throw (.other .internal none)

def forbidden (message : String) : Thrown := .mismatch (w.nest.body 403 message) message

def requireThat (authorized : Bool) (message : String) : ContentRun Unit :=
  if authorized then pure () else Run.throw (w.forbidden message)

-- Errors of the storage have no `response`, but for the exception that a missing key is answered with.
def stored {α : Type} (result : Except HttpError α) : ContentRun α :=
  Run.lift (fun error => .other error (match error with
    | .notFound message => some (w.nest.body 404 message)
    | _ => none)) result

-- `status === 409 ? 'CONFLICT' : status && status >= 400 && status < 500 ? 'DENY' : 'ERROR'`
def auditResult (status : Option Int) : AuditResult :=
  match status with
  | none => .ERROR
  | some status => if status = 409 then .CONFLICT else if status ≥ 400 ∧ status < 500 then .DENY else .ERROR

def auditDownloadError (docId : String) (caller : PolicyRequest) (error : Thrown) : AuditEventPayload where
  actorId := caller.actorId
  action := "DOCUMENT_DOWNLOAD_DENIED"
  resourceId := docId
  result := auditResult (error.response.bind (·.readInt "status"))
  reason := some error.message

def presignGrant (docId : String) (dto : PresignDownloadDto) (caller : PolicyRequest) :
    ContentRun (GrantPayload × Int) :=
  match dto.presented with
  | some grantToken => do
    let grantPayload ← w.verified .download grantToken caller.actorId
    pure (grantPayload, 300)
  | none => do
    let authorization ← w.authorizeDownload docId dto.version caller
    let grantPayload ← w.verified .download authorization.grantToken caller.actorId
    pure (grantPayload, authorization.expiresInSeconds)

def presignGranted (docId : String) (grantPayload : GrantPayload) (expiresInSeconds : Int) :
    Except HttpError (Granted PresignedDownload) :=
  if grantPayload.watermarkRequired = some true then
    .ok ⟨grantPayload, { w.presigned docId grantPayload expiresInSeconds none with
      watermarkRequired := some true
      streamingEndpoint := some s!"/documents/{docId}/versions/{grantPayload.version}/stream" }⟩
  else do
    let url ← w.createDownloadUrl grantPayload.objectKey grantPayload.filename expiresInSeconds
    .ok ⟨grantPayload, w.presigned docId grantPayload expiresInSeconds (some url)⟩

def presignDownload (docId : String) (dto : PresignDownloadDto) (caller : PolicyRequest) :
    ContentRun (Granted PresignedDownload) :=
  Run.onError (auditDownloadError docId caller) do
    let (grantPayload, expiresInSeconds) ← w.presignGrant docId dto caller
    w.stored (w.presignGranted docId grantPayload expiresInSeconds)

def getStreamWithToken (docId : String) (version : Int) (grantToken : String) (caller : PolicyRequest) :
    ContentRun (Granted ContentStream) := do
  let grantPayload ← w.verified .download grantToken caller.actorId
  w.requireThat (grantPayload.docId = docId) "Grant token document mismatch"
  w.requireThat (grantPayload.version = version) "Requested version is not authorized"
  w.stored (w.streamGranted caller.actorId grantPayload)

def getStream (docId : String) (version : Int) (caller : PolicyRequest) : ContentRun (Granted ContentStream) :=
  Run.onError (auditDownloadError docId caller) do
    let authorization ← w.authorizeDownload docId (some version) caller
    let grantPayload ← w.verified .download authorization.grantToken caller.actorId
    w.requireThat (grantPayload.version = version) "Requested version is not authorized"
    w.stored (w.streamGranted caller.actorId grantPayload)

def preview (docId : String) (version : Option Int) (range : Option (Nat × Nat)) (shareToken : Option String)
    (caller : PolicyRequest) : ContentRun (Granted ContentPreview) := do
  let authorization ← w.authorizePreview docId version shareToken caller
  let grantPayload ← w.verified .preview authorization.grantToken caller.actorId
  w.requireThat (version.all (grantPayload.version = ·)) "Requested version is not authorized"
  w.stored (w.previewGranted caller.actorId range grantPayload)

def run (caller : PolicyRequest) : ContentRequest → ContentRun (Granted ContentResponse)
  | .presignDownload docId dto => do
    let granted ← w.presignDownload docId dto caller
    pure (granted.map .presigned)
  | .getStreamWithToken docId version grantToken => do
    let granted ← w.getStreamWithToken docId version grantToken caller
    pure (granted.map .stream)
  | .getStream docId version => do
    let granted ← w.getStream docId version caller
    pure (granted.map .stream)
  | .preview docId version range shareToken => do
    let granted ← w.preview docId version range shareToken caller
    pure (granted.map .preview)

/-- The call ends in an exception because the content is refused. -/
def Refused (caller : PolicyRequest) (asked : ContentRequest) : Prop :=
  ∃ thrown, (w.run caller asked).outcome = .error thrown ∧ thrown.Refusal

/-- If the call is refused, a refusal of the document to the actor is recorded. -/
def LeavesRefusal (caller : PolicyRequest) (asked : ContentRequest) : Prop :=
  w.Refused caller asked → ∃ event ∈ (w.run caller asked).events,
    event.actorId = caller.actorId ∧ event.resourceId = asked.docId ∧ event.result = .DENY

variable {w : AuditedWorld} {kind : GrantKind} {docId actorId grantToken : String} {body : GrantDto}
  {caller : PolicyRequest} {asked : ContentRequest}

/-! ## The same outcomes -/

/-- Requests for a grant reach the policy. -/
structure Reaches (w : AuditedWorld) (docId : String) : Prop where
  received : (w.received docId).isSome = true
  instead : ∀ kind body caller, w.instead kind docId body caller = none

theorem httpError_failure (error : HttpError) : (w.rethrowHttpError error.failure).httpError = error := by
  cases error <;> rfl

theorem requestGrant_outcome (h : w.Reaches docId) :
    Run.outcomeAs Thrown.httpError (w.requestGrant kind docId body caller) =
      w.authorize kind docId body caller := by
  obtain ⟨received, hreceived⟩ := Option.isSome_iff_exists.mp h.received
  unfold requestGrant metadataGrant policyGrant ContentWorld.authorize
  rw [hreceived, h.instead]
  cases hauthorize : kind.authorize w.policy w.db received body caller with
  | ok authorization => simp only [hauthorize]; rfl
  | error error =>
    simp only [hauthorize]
    exact congrArg Except.error (httpError_failure error)

theorem verified_outcome : Run.outcomeAs Thrown.httpError (w.verified kind grantToken actorId) =
    w.toContentWorld.verified kind grantToken actorId := by
  unfold verified ContentWorld.verified
  cases verifyToken kind w.node w.env grantToken actorId w.now with
  | error message => rfl
  | ok json =>
    dsimp only
    cases readPayload json <;> rfl

theorem requireThat_outcome (authorized : Bool) (message : String) :
    Run.outcomeAs Thrown.httpError (w.requireThat authorized message) =
      if authorized then .ok () else .error (.forbidden message) := by
  cases authorized <;> rfl

theorem stored_outcome {α : Type} (result : Except HttpError α) :
    Run.outcomeAs Thrown.httpError (w.stored result) = result :=
  Run.outcomeAs_lift (fun _ => rfl) result

theorem presignGranted_eq (docId : String) (dto : PresignDownloadDto) (caller : PolicyRequest) :
    w.toContentWorld.presignDownload docId dto caller =
      w.toContentWorld.presignGrant docId dto caller >>= fun grant => w.presignGranted docId grant.1 grant.2 := rfl

theorem presignGrant_outcome (h : w.Reaches docId) (dto : PresignDownloadDto) :
    Run.outcomeAs Thrown.httpError (w.presignGrant docId dto caller) =
      w.toContentWorld.presignGrant docId dto caller := by
  unfold presignGrant ContentWorld.presignGrant
  cases dto.presented with
  | some grantToken => simp only [Run.outcomeAs_bind, verified_outcome, Run.outcomeAs_pure]
  | none =>
    simp only [authorizeDownload, Run.outcomeAs_bind, requestGrant_outcome h, verified_outcome, Run.outcomeAs_pure]
    rfl

theorem presignDownload_outcome (h : w.Reaches docId) (dto : PresignDownloadDto) :
    Run.outcomeAs Thrown.httpError (w.presignDownload docId dto caller) =
      w.toContentWorld.presignDownload docId dto caller := by
  rw [presignDownload, Run.outcomeAs_onError, Run.outcomeAs_bind, presignGrant_outcome h, presignGranted_eq]
  simp only [stored_outcome]

theorem getStreamWithToken_outcome (version : Int) :
    Run.outcomeAs Thrown.httpError (w.getStreamWithToken docId version grantToken caller) =
      w.toContentWorld.getStreamWithToken docId version grantToken caller.actorId := by
  simp only [getStreamWithToken, ContentWorld.getStreamWithToken, Run.outcomeAs_bind, verified_outcome,
    requireThat_outcome, stored_outcome]
  cases w.toContentWorld.verified .download grantToken caller.actorId with
  | error error => rfl
  | ok grantPayload =>
    by_cases hdoc : grantPayload.docId = docId
    · by_cases hversion : grantPayload.version = version
      · simp [hdoc, hversion, bind, Except.bind, ContentWorld.versionGuard]
      · simp [hdoc, hversion, bind, Except.bind, ContentWorld.versionGuard]
    · simp [hdoc, bind, Except.bind]

theorem getStream_outcome (h : w.Reaches docId) (version : Int) :
    Run.outcomeAs Thrown.httpError (w.getStream docId version caller) =
      w.toContentWorld.getStream docId version caller := by
  simp only [getStream, ContentWorld.getStream, Run.outcomeAs_onError, Run.outcomeAs_bind, authorizeDownload,
    requestGrant_outcome h, verified_outcome, requireThat_outcome, stored_outcome]
  rfl

theorem preview_outcome (h : w.Reaches docId) (version : Option Int) (range : Option (Nat × Nat))
    (shareToken : Option String) :
    Run.outcomeAs Thrown.httpError (w.preview docId version range shareToken caller) =
      w.toContentWorld.preview docId version range shareToken caller := by
  simp only [preview, ContentWorld.preview, Run.outcomeAs_bind, authorizePreview, requestGrant_outcome h,
    verified_outcome, requireThat_outcome, stored_outcome]
  rfl

/-- Recording changes no outcome. -/
theorem run_outcome (h : w.Reaches asked.docId) :
    Run.outcomeAs Thrown.httpError (w.run caller asked) = w.serve caller asked := by
  cases asked with
  | presignDownload docId dto =>
    have h : w.Reaches docId := h
    rw [run, Run.outcomeAs_bind, presignDownload_outcome h, ContentWorld.serve]
    cases w.toContentWorld.presignDownload docId dto caller <;> rfl
  | getStreamWithToken docId version grantToken =>
    rw [run, Run.outcomeAs_bind, getStreamWithToken_outcome, ContentWorld.serve]
    cases w.toContentWorld.getStreamWithToken docId version grantToken caller.actorId <;> rfl
  | getStream docId version =>
    have h : w.Reaches docId := h
    rw [run, Run.outcomeAs_bind, getStream_outcome h, ContentWorld.serve]
    cases w.toContentWorld.getStream docId version caller <;> rfl
  | preview docId version range shareToken =>
    have h : w.Reaches docId := h
    rw [run, Run.outcomeAs_bind, preview_outcome h, ContentWorld.serve]
    cases w.toContentWorld.preview docId version range shareToken caller <;> rfl

/-! ## No refusals -/

def Statusless (thrown : Thrown) : Prop := thrown.response.bind (·.readInt "status") = none

theorem body_statusless (nest : NestExceptions) (status : Nat) (message : String) :
    (nest.body status message).readInt "status" = none := by
  obtain ⟨fields, hbody, hkeys⟩ := nest.documented status message
  have hfind : fields.reverse.find? (·.1 = "status") = none := by
    rw [List.find?_eq_none]
    intro f hf hk
    have hin := hkeys f (List.mem_reverse.mp hf)
    rw [of_decide_eq_true hk] at hin
    exact absurd hin (by decide)
  rw [hbody, Json.readInt, Json.prop, hfind]
  rfl

abbrev Unrefused {α : Type} : ContentRun α → Prop := Run.Keeps (fun event => event.result ≠ .DENY) Statusless

theorem requestGrant_unrefused : Unrefused (w.requestGrant kind docId body caller) := by
  have hfailure : ∀ failure, Statusless (w.rethrowHttpError failure) := fun failure => by
    cases failure with
    | refused status message =>
      by_cases hstatus : status ∈ [400, 403, 404, 409]
      · simp only [Statusless, rethrowHttpError, if_pos hstatus, Thrown.response, Option.bind_some, body_statusless]
      · simp only [Statusless, rethrowHttpError, if_neg hstatus, Thrown.response, Option.bind_some]
        rfl
    | unanswered => rfl
  constructor
  · -- the policy records grants only
    intro event hevent
    unfold requestGrant metadataGrant policyGrant at hevent
    split at hevent
    · cases hevent
    · cases hevent
    · dsimp only at hevent
      split at hevent
      · rw [List.mem_singleton.mp hevent]
        exact nofun
      · cases hevent
  · intro thrown hthrown
    unfold requestGrant at hthrown
    cases houtcome : (w.metadataGrant kind docId body caller).outcome with
    | ok authorization =>
      simp only [houtcome] at hthrown
      cases hthrown
    | error failure =>
      simp only [houtcome] at hthrown
      obtain rfl := Except.error.inj hthrown
      exact hfailure failure

theorem verified_unrefused : Unrefused (w.verified kind grantToken actorId) := by
  unfold verified
  split
  · exact Run.keeps_throw rfl
  · split
    · exact Run.keeps_pure _
    · exact Run.keeps_throw rfl

theorem requireThat_unrefused (authorized : Bool) (message : String) :
    Unrefused (w.requireThat authorized message) := by
  cases authorized with
  | true => exact Run.keeps_pure _
  | false => exact Run.keeps_throw (body_statusless w.nest 403 message)

theorem stored_unrefused {α : Type} (result : Except HttpError α) : Unrefused (w.stored result) := by
  refine Run.keeps_lift (fun error => ?_) result
  cases error with
  | notFound message => exact body_statusless w.nest 404 message
  | badRequest message => rfl
  | forbidden message => rfl
  | conflict message => rfl
  | internal => rfl

theorem auditing_unrefused {α : Type} {run : ContentRun α} (h : Unrefused run) :
    Unrefused (Run.onError (auditDownloadError docId caller) run) := by
  refine Run.keeps_onError h fun thrown hthrown => ?_
  have hresult : (auditDownloadError docId caller thrown).result = .ERROR := congrArg auditResult hthrown
  rw [hresult]
  exact nofun

theorem presignGrant_unrefused (dto : PresignDownloadDto) : Unrefused (w.presignGrant docId dto caller) := by
  unfold presignGrant
  split
  · exact Run.keeps_bind verified_unrefused fun _ => Run.keeps_pure _
  · exact Run.keeps_bind requestGrant_unrefused fun _ => Run.keeps_bind verified_unrefused fun _ => Run.keeps_pure _

/-- No call records a refusal. -/
theorem run_unrefused : Unrefused (w.run caller asked) := by
  cases asked with
  | presignDownload docId dto =>
    have hbody : Unrefused (w.presignDownload docId dto caller) :=
      auditing_unrefused (Run.keeps_bind (presignGrant_unrefused dto) fun _ => stored_unrefused _)
    exact Run.keeps_bind hbody fun _ => Run.keeps_pure _
  | getStreamWithToken docId version grantToken =>
    apply Run.keeps_bind _ fun _ => Run.keeps_pure _
    apply Run.keeps_bind verified_unrefused
    intro grantPayload
    apply Run.keeps_bind (requireThat_unrefused _ _)
    intro _
    exact Run.keeps_bind (requireThat_unrefused _ _) fun _ => stored_unrefused _
  | getStream docId version =>
    have hbody : Unrefused (w.getStream docId version caller) := by
      apply auditing_unrefused
      apply Run.keeps_bind requestGrant_unrefused
      intro authorization
      apply Run.keeps_bind verified_unrefused
      intro grantPayload
      exact Run.keeps_bind (requireThat_unrefused _ _) fun _ => stored_unrefused _
    exact Run.keeps_bind hbody fun _ => Run.keeps_pure _
  | preview docId version range shareToken =>
    apply Run.keeps_bind _ fun _ => Run.keeps_pure _
    apply Run.keeps_bind requestGrant_unrefused
    intro authorization
    apply Run.keeps_bind verified_unrefused
    intro grantPayload
    exact Run.keeps_bind (requireThat_unrefused _ _) fun _ => stored_unrefused _

end AuditedWorld

/-- The trail holds the refusal of a call only when the call is not refused. -/
theorem leavesRefusal_iff (w : AuditedWorld) (caller : PolicyRequest) (asked : ContentRequest) :
    w.LeavesRefusal caller asked ↔ ¬w.Refused caller asked := by
  constructor
  · intro hleaves hrefused
    obtain ⟨event, hevent, -, -, hdeny⟩ := hleaves hrefused
    exact AuditedWorld.run_unrefused.events event hevent hdeny
  · intro hrefused h
    exact absurd h hrefused

/-! ## A denied download -/

def nestExceptions : NestExceptions where
  body status message :=
    .obj [("message", .str message), ("error", .str "Forbidden"), ("statusCode", .num (toString status))]
  documented _ _ := ⟨_, rfl, by simp⟩

/-- The ACL denies the download to everybody. -/
def deniedDb : PolicyDb := { PolicyService.sampleDb with aclEntries := [⟨"d-1", .ALL, none, .DOWNLOAD, .DENY⟩] }

def deniedWorld : AuditedWorld :=
  { contentWorld deniedDb with nest := nestExceptions, instead := fun _ _ _ _ => none }

-- `metadata-service` answers 403, and the trail says `ERROR`.
theorem denial_recorded_as_error :
    ¬deniedWorld.LeavesRefusal (PolicyService.sampleMember ["viewer"]) (.presignDownload "d-1" {}) := by
  intro h
  have hevents : (deniedWorld.run (PolicyService.sampleMember ["viewer"]) (.presignDownload "d-1" {})).events =
      [⟨"u-2", "DOCUMENT_DOWNLOAD_DENIED", "DOCUMENT", "d-1", .ERROR, some "Download denied by ACL"⟩] := rfl
  obtain ⟨event, hevent, -, -, hdeny⟩ := h ⟨_, rfl, (by decide : 400 ≤ 403 ∧ 403 < 500)⟩
  rw [hevents, List.mem_singleton] at hevent
  rw [hevent] at hdeny
  cases hdeny

end DocVault
