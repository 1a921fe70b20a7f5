import DocVault.AuditStore
import DocVault.RiskyDocuments

/-!
# Security recommendations

`securitySummary` recommends what to look into, and shows the workflow state of
each recommendation. A state is kept nowhere: an update is an audit event, the
state is read from the newest one, and the history from the fifty newest.
-/

namespace DocVault

open Filters (DocFilter)
open Interleave

/-! ## What the summary recommends -/

inductive SecurityRecommendationWorkflowStatus where
  | OPEN
  | INVESTIGATING
  | REVIEWED
  | RESOLVED
  deriving DecidableEq

namespace SecurityRecommendationWorkflowStatus

def text : SecurityRecommendationWorkflowStatus → String
  | OPEN => "OPEN"
  | INVESTIGATING => "INVESTIGATING"
  | REVIEWED => "REVIEWED"
  | RESOLVED => "RESOLVED"

def all : List SecurityRecommendationWorkflowStatus := [OPEN, INVESTIGATING, REVIEWED, RESOLVED]

end SecurityRecommendationWorkflowStatus

inductive SecurityRecommendationType where
  | AUDIT_CHAIN_REVIEW
  | DLP_CLASSIFICATION_REVIEW
  | MALWARE_UPLOAD_REVIEW
  | DOCUMENT_ACCESS_REVIEW
  | ACTOR_ACCESS_REVIEW
  deriving DecidableEq

inductive SecurityRecommendationSeverity where
  | critical
  | warning
  | info
  deriving DecidableEq

structure SecurityRecommendationWorkflow where
  status : SecurityRecommendationWorkflowStatus
  note : Option String := none
  updatedAt : Option String := none
  updatedBy : Option String := none
  deriving DecidableEq

structure SecurityRecommendationSummary where
  id : String
  type : SecurityRecommendationType
  severity : SecurityRecommendationSeverity
  title : String
  reason : String
  recommendedAction : String
  evidence : List String
  affectedDocumentIds : List String := []
  affectedActorIds : List String := []
  auditFilters : QueryAuditDto := {}
  workflow : SecurityRecommendationWorkflow := { status := .OPEN }

structure SecurityTotals where
  deniedEvents : Nat
  malwareBlocked : Nat
  dlpDetections : Nat
  downloadDenied : Nat

structure DenyActor where
  actorId : String
  denyCount : Nat

def plural (count : Nat) (singular : String) : String := if count = 1 then singular else singular ++ "s"

def wasWere (count : Nat) : String := if count = 1 then "was" else "were"

def chainRecommendation (chain : AuditChainVerificationResult) : SecurityRecommendationSummary where
  id := "audit-chain-review"
  type := .AUDIT_CHAIN_REVIEW
  severity := .critical
  title := "Verify audit-chain integrity before exporting evidence"
  reason := chain.message.getD "Audit hash-chain verification reported an integrity mismatch."
  recommendedAction :=
    "Run tamper-evidence verification, isolate the audit store, and compare the broken event with trusted backups."
  evidence := [toString chain.checked ++ " audit " ++ plural chain.checked "event" ++ " checked"]

def documentRecommendation (document : RiskyDocumentSummary) : SecurityRecommendationSummary where
  id := s!"document-access-review:{document.documentId}"
  type := .DOCUMENT_ACCESS_REVIEW
  severity := if document.riskScore ≥ 80 then .critical else .warning
  title :=
    if document.riskScore ≥ 80 then s!"Tighten access for high-risk {document.classification} document"
    else s!"Review access for elevated-risk {document.classification} document"
  reason :=
    s!"Document {document.documentId} reached risk score {document.riskScore} from classification and access metadata."
  recommendedAction :=
    "Review ACLs, confirm business need for recent grants, and keep watermark-required delivery for sensitive content."
  evidence := document.reasons
  affectedDocumentIds := [document.documentId]
  auditFilters := { documentId := some document.documentId }

def getBehaviorRecommendationTitle (signal : BehaviorSignalSummary) : String :=
  match signal.type with
  | .MASS_CONTENT_ACCESS => s!"Review mass content access by {signal.actorId}"
  | .DENY_BURST => s!"Investigate denied access burst for {signal.actorId}"
  | .DESTRUCTIVE_ACTIVITY => s!"Review destructive document activity by {signal.actorId}"

def getBehaviorRecommendationAction : BehaviorSignalType → String
  | .MASS_CONTENT_ACCESS =>
    "Confirm business need, inspect document spread, and tighten ACLs for sensitive documents."
  | .DENY_BURST => "Inspect role, group membership, and ACL assignments before broadening access."
  | .DESTRUCTIVE_ACTIVITY =>
    "Review workflow history, validate retention intent, and restore documents if activity was unauthorized."

def signalRecommendation (signal : BehaviorSignalSummary) : SecurityRecommendationSummary where
  id := s!"actor-access-review:{signal.type.text}:{signal.actorId}"
  type := .ACTOR_ACCESS_REVIEW
  severity := match signal.severity with
    | .critical => .critical
    | .warning => .warning
    | .watch => .info
  title := getBehaviorRecommendationTitle signal
  reason := s!"Actor {signal.actorId} triggered {signal.type.text} with score {signal.riskScore} across " ++
    s!"{signal.documentCount} " ++ plural signal.documentCount "document" ++ "."
  recommendedAction := getBehaviorRecommendationAction signal.type
  evidence := signal.reasons
  affectedActorIds := [signal.actorId]
  auditFilters := getBehaviorSignalAuditFilters signal

def denyRecommendation (actor : DenyActor) : SecurityRecommendationSummary where
  id := s!"actor-access-review:repeated-deny:{actor.actorId}"
  type := .ACTOR_ACCESS_REVIEW
  severity := .warning
  title := s!"Review repeated denied access for {actor.actorId}"
  reason := s!"Actor {actor.actorId} has {actor.denyCount} denied audit events."
  recommendedAction := "Inspect role, group membership, and ACL assignments before broadening access."
  evidence := [s!"{actor.denyCount} denied " ++ plural actor.denyCount "event"]
  affectedActorIds := [actor.actorId]
  auditFilters := { actorId := some actor.actorId }

def dlpRecommendation (dlpDetections : Nat) : SecurityRecommendationSummary where
  id := "dlp-classification-review"
  type := .DLP_CLASSIFICATION_REVIEW
  severity := .warning
  title := "Review DLP-driven classification controls"
  reason := s!"{dlpDetections} DLP detection " ++ plural dlpDetections "event" ++ s!" {wasWere dlpDetections} " ++
    "recorded in the audit summary."
  recommendedAction :=
    "Confirm classification escalation, verify override reasons, and block unsafe downgrade paths."
  evidence := [s!"{dlpDetections} DLP detection " ++ plural dlpDetections "event"]
  auditFilters := { action := some "DLP_PATTERN_DETECTED" }

def malwareRecommendation (malwareBlocked : Nat) : SecurityRecommendationSummary where
  id := "malware-upload-review"
  type := .MALWARE_UPLOAD_REVIEW
  severity := .warning
  title := "Review blocked malware upload attempts"
  reason := s!"{malwareBlocked} malware upload " ++ plural malwareBlocked "attempt" ++
    s!" {wasWere malwareBlocked} " ++ "blocked before object storage."
  recommendedAction := "Review source actor, checksum, filename, and endpoint context for the blocked upload."
  evidence := [s!"{malwareBlocked} malware " ++ plural malwareBlocked "upload" ++ " blocked"]
  auditFilters := { action := some "MALWARE_UPLOAD_BLOCKED" }

def buildSecurityRecommendations (chain : AuditChainVerificationResult) (totals : SecurityTotals)
    (repeatedDenyActors : List DenyActor) (riskyDocuments : List RiskyDocumentSummary)
    (behaviorSignals : List BehaviorSignalSummary) : List SecurityRecommendationSummary :=
  let signals := behaviorSignals.filter fun signal => signal.riskScore ≥ 50
  let actorRecommendationKeys := signals.map fun signal => s!"{signal.type.text}:{signal.actorId}"
  ((if chain.valid = false then [chainRecommendation chain] else []) ++
    (riskyDocuments.filter fun document => document.riskScore ≥ 50).map documentRecommendation ++
    signals.map signalRecommendation ++
    (repeatedDenyActors.filter fun actor => s!"DENY_BURST:{actor.actorId}" ∉ actorRecommendationKeys).map
      denyRecommendation ++
    (if totals.dlpDetections > 0 then [dlpRecommendation totals.dlpDetections] else []) ++
    if totals.malwareBlocked > 0 then [malwareRecommendation totals.malwareBlocked] else []).take 8

/-! ## The updates of a recommendation -/

-- `String(value)`
def showValue : Option Json → String
  | none => "undefined"
  | some .null => "null"
  | some value => textOf value

def tryRecommendationWorkflowStatus : Option Json → Option SecurityRecommendationWorkflowStatus
  | some (.str s) =>
    let normalized := String.ofList ((trim s).toList.flatMap upperCase)
    SecurityRecommendationWorkflowStatus.all.find? fun status => status.text = normalized
  | _ => none

/-- The longest beginning with at most `n` UTF-16 units: half a pair of surrogates is no text. -/
def clip : Nat → List Char → List Char
  | _, [] => []
  | n, c :: l => if (utf16Units c).length ≤ n then c :: clip (n - (utf16Units c).length) l else []

def normalizeRecommendationWorkflowNote (note : Option String) : Option String :=
  match note.map trim with
  | none => none
  | some normalized =>
    if normalized = "" then none
    else if maxLength 500 normalized then some normalized
    else some (String.ofList (clip 500 normalized.toList))

def AuditEvent.metadataField (event : AuditEvent) (key : String) : Option Json := event.metadata.bind (·.lookup key)

def AuditEvent.metadataText (event : AuditEvent) (key : String) : Option String :=
  match event.metadataField key with
  | some (.str s) => some s
  | _ => none

def workflowStatus (event : AuditEvent) : Option SecurityRecommendationWorkflowStatus :=
  tryRecommendationWorkflowStatus (event.metadataField "status")

def workflowFilter (recommendationId : String) : DocFilter Scalar :=
  .fields [("action", .eq (.text "SECURITY_RECOMMENDATION_STATUS_UPDATED")),
    ("resourceType", .eq (.text "SECURITY_RECOMMENDATION")), ("resourceId", .eq (.text recommendationId))]

/-- What the database makes of a sort: of `{ timestamp: -1 }`, of `{ timestamp: -1, _id: -1 }`,
which is one order of the same events as no two have one `_id`, and of `{ denyCount: -1 }`. -/
structure Sorts where
  byTime : List AuditEvent → List AuditEvent
  byTimeAndId : List AuditEvent → List AuditEvent
  byCount : List DenyActor → List DenyActor

section
variable (N : Node) (sorts : Sorts)

/-- The updates of a recommendation, the newest first. -/
def workflowUpdates (events : List AuditEvent) (recommendationId : String) : List AuditEvent :=
  sorts.byTimeAndId (events.filter (matchesFilter (workflowFilter recommendationId)))

/-! ## The history -/

structure SecurityRecommendationWorkflowHistoryEntry where
  eventId : Option String
  status : SecurityRecommendationWorkflowStatus
  note : Option String
  updatedAt : String
  updatedBy : String

def historyEntryOf (event : AuditEvent) : Option SecurityRecommendationWorkflowHistoryEntry :=
  (workflowStatus event).map fun status =>
    { eventId := event.eventId
      status := status
      note := event.metadataText "note"
      updatedAt := (toEventDate N event.timestamp).toISOString
      updatedBy := event.actorId }

def getSecurityRecommendationWorkflowHistory (events : List AuditEvent) (recommendationId : String) :
    List SecurityRecommendationWorkflowHistoryEntry :=
  ((workflowUpdates sorts events recommendationId).take 50).filterMap (historyEntryOf N)

/-! ## The states -/

abbrev WorkflowStates := List (String × SecurityRecommendationWorkflow)

-- `new Date(timestamp)`; `toISOString` throws on an invalid date.
def stampDate : Stamp → Option JsDate
  | .date d => some d
  | .text s => N.newDate s
  | .missing => none

def stateRecommendationId (event : AuditEvent) : Option String :=
  match event.resourceId with
  | some id => some id
  | none => event.metadataText "recommendationId"

/-- The body of the loop over the newest updates. -/
def addWorkflowState (workflows : WorkflowStates) : Option AuditEvent → Except AuditError WorkflowStates
  | none => .ok workflows
  | some event =>
    match truthy (stateRecommendationId event), workflowStatus event with
    | some recommendationId, some status =>
      if (workflows.lookup recommendationId).isSome then .ok workflows
      else
        match stampDate N event.timestamp with
        | none => .error .rangeError
        | some updatedAt => .ok (workflows ++ [(recommendationId,
            { status := status
              note := event.metadataText "note"
              updatedAt := some updatedAt.toISOString
              updatedBy := some event.actorId })])
    | _, _ => .ok workflows

def getRecommendationWorkflowStates (events : List AuditEvent) (recommendationIds : List String) :
    Except AuditError WorkflowStates :=
  (recommendationIds.map fun recommendationId => (workflowUpdates sorts events recommendationId).head?).foldlM
    (addWorkflowState N) []

/-! ## securitySummary -/

def countDocuments (key value : String) (events : List AuditEvent) : Nat :=
  events.countP (matchesFilter (.field key (.eq (.text value))))

-- An event always has an `actorId`.
def denyFilter (windowStart : JsDate) : DocFilter Scalar :=
  .fields [("result", .eq (.text "DENY")), ("timestamp", .range (some (.date windowStart)) none)]

def getRepeatedDenyActors (windowStart : JsDate) (events : List AuditEvent) : List DenyActor :=
  let actorIds := (events.filter (matchesFilter (denyFilter windowStart))).map (·.actorId)
  let groups := actorIds.eraseDups.map fun actorId => DenyActor.mk actorId (actorIds.count actorId)
  (sorts.byCount (groups.filter fun group => group.denyCount ≥ 3)).take 5

structure SecuritySummary where
  chain : AuditChainVerificationResult
  totals : SecurityTotals
  repeatedDenyActors : List DenyActor
  riskyDocuments : List RiskyDocumentSummary
  behaviorSignals : List BehaviorSignalSummary
  recommendations : List SecurityRecommendationSummary

/-- The summary of the stored events, with `chain` what `verifyChain` returned. That
it was viewed is recorded afterwards. -/
def securitySummary (chain : AuditChainVerificationResult) (windowStart : JsDate) (events : List AuditEvent) :
    Except AuditError SecuritySummary := do
  let totals : SecurityTotals :=
    { deniedEvents := countDocuments "result" "DENY" events
      malwareBlocked := countDocuments "action" "MALWARE_UPLOAD_BLOCKED" events
      dlpDetections := countDocuments "action" "DLP_PATTERN_DETECTED" events
      downloadDenied := countDocuments "action" "DOCUMENT_DOWNLOAD_DENIED" events }
  let repeatedDenyActors := getRepeatedDenyActors sorts windowStart events
  let riskyDocuments := getRiskyDocuments N sorts.byTime windowStart events
  let behaviorSignals := getBehaviorSignals N sorts.byTime windowStart events
  let recommendations := buildSecurityRecommendations chain totals repeatedDenyActors riskyDocuments behaviorSignals
  let workflowStates ← getRecommendationWorkflowStates N sorts events (recommendations.map (·.id))
  pure
    { chain := chain
      totals := totals
      repeatedDenyActors := repeatedDenyActors
      riskyDocuments := riskyDocuments
      behaviorSignals := behaviorSignals
      recommendations := recommendations.map fun recommendation =>
        { recommendation with workflow := (workflowStates.lookup recommendation.id).getD { status := .OPEN } } }

end

/-! ## updateSecurityRecommendationWorkflow -/

structure SecurityRecommendationWorkflowDto where
  status : Option Json
  note : Option String := none

/-- A call of `updateSecurityRecommendationWorkflow`, with the random UUID and the
times it draws. -/
structure WorkflowUpdate where
  recommendationId : String
  dto : SecurityRecommendationWorkflowDto
  viewer : Viewer
  uuid : String
  now : JsDate
  epochNow : JsDate

def WorkflowUpdate.createCall (update : WorkflowUpdate) (status : SecurityRecommendationWorkflowStatus) :
    CreateCall where
  dto :=
    let note := normalizeRecommendationWorkflowNote update.dto.note
    { timestamp := some update.now.toISOString
      actorId := update.viewer.actorId.getD "unknown"
      actorRoles := update.viewer.roles.getD []
      action := "SECURITY_RECOMMENDATION_STATUS_UPDATED"
      resourceType := "SECURITY_RECOMMENDATION"
      resourceId := some update.recommendationId
      result := "SUCCESS"
      reason := some (note.getD s!"Security recommendation marked {status.text}")
      ip := update.viewer.ip
      traceId := update.viewer.traceId
      metadata := some (definedFields
        [("recommendationId", some (.str update.recommendationId)), ("status", some (.str status.text)),
          ("note", note.map .str)]) }
  uuid := update.uuid
  now := update.now
  epochNow := update.epochNow

def updateSecurityRecommendationWorkflow (N : Node) (env : Env) (update : WorkflowUpdate) : AuditM AuditEvent :=
  match tryRecommendationWorkflowStatus update.dto.status with
  | none => .throw (.badRequest s!"Invalid recommendation workflow status: {showValue update.dto.status}")
  | some status => appendEvent N env (update.createCall status)

end DocVault
