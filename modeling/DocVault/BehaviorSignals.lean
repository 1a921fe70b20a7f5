import DocVault.AuditDrillDown
import DocVault.AuditPaging
import DocVault.Buckets

/-!
# Behaviour signals

`getBehaviorSignals`: the recent events of some actions, counted for each actor,
and the signals that the counts give. `getBehaviorSignalAuditFilters` is the
query that shows the events behind a signal. It does, except for the denied
events, which are counted by action or result and shown by result.
-/

namespace DocVault

open Filters (DocFilter)

def BEHAVIOR_SIGNAL_ACTIONS : List String :=
  AUTHORIZED_CONTENT_ACTIONS ++ ["DOCUMENT_DOWNLOAD_DENIED", "DOCUMENT_METADATA_READ_DENIED"] ++
    DESTRUCTIVE_ACTIVITY_ACTIONS ++ ["DOCUMENT_METADATA_UPDATED", "DOCUMENT_UPLOADED"]

inductive BehaviorSignalType where
  | MASS_CONTENT_ACCESS
  | DENY_BURST
  | DESTRUCTIVE_ACTIVITY
  deriving DecidableEq

def BehaviorSignalType.text : BehaviorSignalType → String
  | MASS_CONTENT_ACCESS => "MASS_CONTENT_ACCESS"
  | DENY_BURST => "DENY_BURST"
  | DESTRUCTIVE_ACTIVITY => "DESTRUCTIVE_ACTIVITY"

inductive BehaviorSignalSeverity where
  | critical
  | warning
  | watch
  deriving DecidableEq

structure BehaviorSignalSummary where
  signalId : String
  type : BehaviorSignalType
  severity : BehaviorSignalSeverity
  actorId : String
  actionCount : Nat
  documentCount : Nat
  windowStartedAt : String
  windowEndedAt : String
  riskScore : Nat
  reasons : List String

structure BehaviorBucket where
  actorId : String
  contentAccessCount : Nat
  downloadCount : Nat
  sensitiveAccessCount : Nat
  denyCount : Nat
  destructiveCount : Nat
  contentDocuments : List String
  denyDocuments : List String
  destructiveDocuments : List String
  windowStartedAt : JsDate
  windowEndedAt : JsDate

/-! ## What is read of an event -/

def isDeniedSecurityEvent (event : AuditEvent) : Bool :=
  event.result = "DENY" || event.action = "DOCUMENT_DOWNLOAD_DENIED" ||
    event.action = "DOCUMENT_METADATA_READ_DENIED"

def isDestructiveAction (action : String) : Bool :=
  action = "DOCUMENT_ACL_DELETED" || action = "DOCUMENT_ARCHIVE" || action = "DOCUMENT_AUTO_ARCHIVED"

def extractDocumentId (event : AuditEvent) : Option String :=
  let metadataDocId := match event.metadata.bind (·.lookup "docId") with
    | some (.str id) => truthy (some id)
    | _ => none
  metadataDocId.or (if event.resourceType = "DOCUMENT" then truthy event.resourceId else none)

mutual
/-- `String(value ?? '')` -/
def textOf : Json → String
  | .null => ""
  | .bool b => if b then "true" else "false"
  | .num text => text
  | .str s => s
  | .arr l => join "," (textsOf l)
  | .obj _ => "[object Object]"
def textsOf : List Json → List String
  | [] => []
  | x :: l => textOf x :: textsOf l
end

-- `toUpperCase`, as far as its result has only ASCII letters: dotless i, long s, sharp s
-- and the ligatures have one.
def upperCase (c : Char) : List Char :=
  match c.toNat with
  | 0x131 => ['I']
  | 0x17F => ['S']
  | 0xDF => ['S', 'S']
  | 0xFB00 => ['F', 'F']
  | 0xFB01 => ['F', 'I']
  | 0xFB02 => ['F', 'L']
  | 0xFB03 => ['F', 'F', 'I']
  | 0xFB04 => ['F', 'F', 'L']
  | 0xFB05 => ['S', 'T']
  | 0xFB06 => ['S', 'T']
  | _ => [c.toUpper]

def extractClassification (metadata : Option Metadata) : String :=
  let value := (metadata.bind (·.lookup "classification")).getD .null
  let classification := String.ofList ((textOf value).toList.flatMap upperCase)
  if classification ∈ ["SECRET", "CONFIDENTIAL", "INTERNAL", "PUBLIC"] then classification else "UNKNOWN"

section
variable (N : Node)

def toEventDate : Stamp → JsDate
  | .date d => d
  | .text s => (N.newDate s).getD .epoch
  | .missing => .epoch

/-! ## The loop -/

-- `windowStart` is `Date.now() - BEHAVIOR_SIGNAL_WINDOW_DAYS * DAY_IN_MS`.
def behaviorFilter (windowStart : JsDate) : DocFilter Scalar :=
  .fields [("action", .among (BEHAVIOR_SIGNAL_ACTIONS.map .text)),
    ("timestamp", .range (some (.date windowStart)) none)]

def recentEvents (windowStart : JsDate) (events : List AuditEvent) : List AuditEvent :=
  events.filter (matchesFilter (behaviorFilter windowStart))

/-- The events that are loaded; `sort` is what the database makes of `sort({ timestamp: -1 })`. -/
def behaviorEvents (sort : List AuditEvent → List AuditEvent) (windowStart : JsDate) (events : List AuditEvent) :
    List AuditEvent :=
  (sort (recentEvents windowStart events)).take 1000

-- A `Set` of texts.
def addDocument (documents : List String) : Option String → List String
  | some id => documents.insert id
  | none => documents

namespace BehaviorBucket

def start (event : AuditEvent) : BehaviorBucket where
  actorId := event.actorId
  contentAccessCount := 0
  downloadCount := 0
  sensitiveAccessCount := 0
  denyCount := 0
  destructiveCount := 0
  contentDocuments := []
  denyDocuments := []
  destructiveDocuments := []
  windowStartedAt := toEventDate N event.timestamp
  windowEndedAt := toEventDate N event.timestamp

def widen (bucket : BehaviorBucket) (timestamp : JsDate) : BehaviorBucket :=
  { bucket with
    windowStartedAt := if timestamp.ms < bucket.windowStartedAt.ms then timestamp else bucket.windowStartedAt
    windowEndedAt := if timestamp.ms > bucket.windowEndedAt.ms then timestamp else bucket.windowEndedAt }

def addContent (bucket : BehaviorBucket) (event : AuditEvent) : BehaviorBucket :=
  let classification := extractClassification event.metadata
  { bucket with
    contentAccessCount := bucket.contentAccessCount + 1
    contentDocuments := addDocument bucket.contentDocuments (extractDocumentId event)
    downloadCount := bucket.downloadCount + if event.action = "DOCUMENT_DOWNLOAD_AUTHORIZED" then 1 else 0
    sensitiveAccessCount := bucket.sensitiveAccessCount +
      if classification = "SECRET" ∨ classification = "CONFIDENTIAL" then 1 else 0 }

def addDeny (bucket : BehaviorBucket) (event : AuditEvent) : BehaviorBucket :=
  { bucket with
    denyCount := bucket.denyCount + 1
    denyDocuments := addDocument bucket.denyDocuments (extractDocumentId event) }

def addDestructive (bucket : BehaviorBucket) (event : AuditEvent) : BehaviorBucket :=
  { bucket with
    destructiveCount := bucket.destructiveCount + 1
    destructiveDocuments := addDocument bucket.destructiveDocuments (extractDocumentId event) }

def add (bucket : BehaviorBucket) (event : AuditEvent) : BehaviorBucket :=
  let bucket := bucket.widen (toEventDate N event.timestamp)
  let bucket := if event.action ∈ AUTHORIZED_CONTENT_ACTIONS then bucket.addContent event else bucket
  let bucket := if isDeniedSecurityEvent event then bucket.addDeny event else bucket
  if isDestructiveAction event.action then bucket.addDestructive event else bucket

end BehaviorBucket

def behaviorBuckets (events : List AuditEvent) : List (String × BehaviorBucket) :=
  Buckets.collect (fun event : AuditEvent => event.actorId) (BehaviorBucket.start N) (BehaviorBucket.add N)
    (events.filter (·.actorId ≠ ""))

/-! ## The signals of a bucket -/

def behaviorSeverity (riskScore : Nat) : BehaviorSignalSeverity :=
  if riskScore ≥ 80 then .critical else if riskScore ≥ 50 then .warning else .watch

def createBehaviorSignal (type : BehaviorSignalType) (bucket : BehaviorBucket)
    (actionCount documentCount riskScore : Nat) (reasons : List String) : BehaviorSignalSummary where
  signalId := type.text ++ ":" ++ bucket.actorId
  type := type
  severity := behaviorSeverity riskScore
  actorId := bucket.actorId
  actionCount := actionCount
  documentCount := documentCount
  windowStartedAt := bucket.windowStartedAt.toISOString
  windowEndedAt := bucket.windowEndedAt.toISOString
  riskScore := riskScore
  reasons := reasons

def massContentAccess (bucket : BehaviorBucket) : BehaviorSignalSummary :=
  let documents := bucket.contentDocuments.length
  createBehaviorSignal .MASS_CONTENT_ACCESS bucket bucket.contentAccessCount documents
    (min 100 (30 + min (bucket.contentAccessCount * 8) 40 + min (documents * 6) 30 +
      min (bucket.sensitiveAccessCount * 8) 24 + min (bucket.downloadCount * 4) 12))
    ([s!"{bucket.contentAccessCount} successful preview/download grants", s!"{documents} distinct documents"] ++
      (if bucket.sensitiveAccessCount > 0 then [s!"{bucket.sensitiveAccessCount} sensitive document grants"]
        else []) ++
      if bucket.downloadCount > 0 then
        [s!"{bucket.downloadCount} download grant" ++ if bucket.downloadCount = 1 then "" else "s"] else [])

def denyBurst (bucket : BehaviorBucket) : BehaviorSignalSummary :=
  let documents := bucket.denyDocuments.length
  createBehaviorSignal .DENY_BURST bucket bucket.denyCount documents
    (min 100 (25 + bucket.denyCount * 7 + documents * 4))
    [s!"{bucket.denyCount} denied security events", s!"{documents} distinct documents"]

def destructiveActivity (bucket : BehaviorBucket) : BehaviorSignalSummary :=
  let documents := bucket.destructiveDocuments.length
  createBehaviorSignal .DESTRUCTIVE_ACTIVITY bucket bucket.destructiveCount documents
    (min 100 (45 + bucket.destructiveCount * 15 + documents * 5))
    [s!"{bucket.destructiveCount} destructive document events", s!"{documents} distinct documents"]

def buildBehaviorSignals (bucket : BehaviorBucket) : List BehaviorSignalSummary :=
  (if bucket.contentAccessCount ≥ 5 ∨ bucket.contentAccessCount ≥ 3 ∧ bucket.contentDocuments.length ≥ 5 then
    [massContentAccess bucket] else []) ++
  (if bucket.denyCount ≥ 3 then [denyBurst bucket] else []) ++
  if bucket.destructiveCount ≥ 2 then [destructiveActivity bucket] else []

def behaviorSignals (events : List AuditEvent) : List BehaviorSignalSummary :=
  (behaviorBuckets N events).flatMap fun row => buildBehaviorSignals row.2

-- `b.riskScore - a.riskScore`, then the end of the window, latest first.
def riskier (a b : BehaviorSignalSummary) : Bool :=
  if a.riskScore ≠ b.riskScore then a.riskScore ≥ b.riskScore
  else ((N.newDate b.windowEndedAt).map (·.ms)).getD 0 ≤ ((N.newDate a.windowEndedAt).map (·.ms)).getD 0

def getBehaviorSignals (sort : List AuditEvent → List AuditEvent) (windowStart : JsDate)
    (events : List AuditEvent) : List BehaviorSignalSummary :=
  ((behaviorSignals N (behaviorEvents sort windowStart events)).insertionSort fun a b => riskier N a b).take 5

def getBehaviorSignalAuditFilters (signal : BehaviorSignalSummary) : QueryAuditDto :=
  let windowFilters : QueryAuditDto :=
    { actorId := some signal.actorId, from_ := some signal.windowStartedAt, to_ := some signal.windowEndedAt }
  match signal.type with
  | .MASS_CONTENT_ACCESS => { windowFilters with actionGroup := some .AUTHORIZED_CONTENT_ACCESS }
  | .DESTRUCTIVE_ACTIVITY => { windowFilters with actionGroup := some .DESTRUCTIVE_ACTIVITY }
  | .DENY_BURST => { windowFilters with result := some "DENY" }

end

end DocVault
