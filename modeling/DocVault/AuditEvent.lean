import DocVault.Js

/-!
# Audit events and their canonical payload

The stored record (`audit-event.schema.ts`), the request that creates one
(`create-audit-event.dto.ts`), and what `AuditService` computes from either:
the canonical payload, the hash and the signature. The digests of `crypto`
and the parsing of date strings are parameters (`Node`).
-/

namespace DocVault

/-- What the service uses of Node.js: `createHash('sha256')` and
`createHmac('sha256', secret)` with hex digests, and `new Date(text)`, which
is `none` for an invalid date. -/
structure Node where
  sha256 : String → String
  hmacSha256 : String → String → String
  newDate : String → Option JsDate

abbrev Env := String → Option String

abbrev Metadata := List (String × Json)

inductive Stamp where
  | missing
  | date (d : JsDate)
  | text (s : String)
  deriving DecidableEq

-- MongoDB sorts a missing value before a string, and a string before a date.
def Stamp.le : Stamp → Stamp → Bool
  | missing, _ => true
  | text _, missing => false
  | text a, text b => a ≤ b
  | text _, date _ => true
  | date a, date b => a.ms ≤ b.ms
  | date _, _ => false

structure CreateAuditEventDto where
  eventId : Option String := none
  timestamp : Option String := none
  actorId : String
  actorRoles : List String
  action : String
  resourceType : String
  resourceId : Option String := none
  result : String
  reason : Option String := none
  ip : Option String := none
  traceId : Option String := none
  metadata : Option Metadata := none

def CreateAuditEventDto.accepts (isISO8601 : String → Bool) (dto : CreateAuditEventDto) : Bool :=
  dto.timestamp.all isISO8601 && MaxLength 120 dto.action && MaxLength 120 dto.resourceType &&
    MaxLength 40 dto.result

/-- The auditable content of a record: every field the payload is built from. -/
structure AuditContent where
  eventId : Option String
  timestamp : Stamp
  actorId : String
  actorRoles : List String
  action : String
  resourceType : String
  resourceId : Option String
  result : String
  reason : Option String
  ip : Option String
  traceId : Option String
  metadata : Option Metadata

/-- A record of `audit_events`. Records written before epochs have no
`epochId`, and nothing but the service's own writes gives a raw record the
other fields. -/
structure AuditEvent extends AuditContent where
  epochId : Option String
  prevHash : Nullable String
  hash : Nullable String
  signature : Option String
  signatureKid : Option String

-- The `maxlength` of Mongoose counts UTF-16 code units.
def maxLength (n : Nat) (s : String) : Bool := (utf16 s).length ≤ n

-- Mongoose: `required` refuses the empty string, not the empty array.
def AuditEvent.schemaValid (e : AuditEvent) : Bool :=
  e.epochId.any (· ≠ "") && e.eventId.any (· ≠ "") && e.actorId ≠ "" && e.action ≠ "" && maxLength 120 e.action &&
    e.resourceType ≠ "" && maxLength 120 e.resourceType && e.result ≠ "" && maxLength 40 e.result &&
    e.hash.toOption.any (· ≠ "")

/-! ## Canonical payload -/

inductive FieldValue where
  | missing
  | text (s : String)
  | list (l : List String)

def FieldValue.ofOption : Option String → FieldValue
  | some s => .text s
  | none => .missing

def FieldValue.render : FieldValue → String
  | missing => ""
  | text s => s
  | list l => join "," l

def buildCanonicalPayload (fields : List (String × FieldValue)) : String :=
  join "|" ((sortByKey fields).map fun f => f.1 ++ "=" ++ f.2.render)

mutual
def sortMetadataValue : Json → Json
  | .arr l => .arr (sortMetadataElems l)
  | .obj fs => .obj (ownOrder (sortByKey (sortMetadataFields fs)))
  | .null => .null
  | .bool b => .bool b
  | .num t => .num t
  | .str s => .str s
def sortMetadataElems : List Json → List Json
  | [] => []
  | x :: l => sortMetadataValue x :: sortMetadataElems l
def sortMetadataFields : List (String × Json) → List (String × Json)
  | [] => []
  | (k, v) :: fs => (k, sortMetadataValue v) :: sortMetadataFields fs
end

def canonicalMetadata : Option Metadata → Option String
  | none => none
  | some [] => none
  | some (f :: fs) => some (sortMetadataValue (.obj (f :: fs))).stringify

def metadataField (metadata : Option Metadata) : List (String × FieldValue) :=
  match canonicalMetadata metadata with
  | some t => [("metadata", .text t)]
  | none => []

/-- `canonicalFields` as `appendEvent` builds it from the request. -/
def appendFields (eventId : String) (eventTimestamp : JsDate) (dto : CreateAuditEventDto) :
    List (String × FieldValue) :=
  [("eventId", .text eventId), ("timestamp", .text eventTimestamp.toISOString), ("actorId", .text dto.actorId),
    ("actorRoles", .list dto.actorRoles), ("action", .text dto.action), ("resourceType", .text dto.resourceType),
    ("resourceId", .ofOption dto.resourceId), ("result", .text dto.result), ("reason", .ofOption dto.reason),
    ("ip", .ofOption dto.ip), ("traceId", .ofOption dto.traceId)] ++ metadataField dto.metadata

-- `event.timestamp?.toISOString?.() ?? event.timestamp`
def Stamp.field : Stamp → FieldValue
  | missing => .missing
  | date d => .text d.toISOString
  | text s => .text s

/-- `canonicalFields` as `verifyEventSequence` builds it from a record. -/
def eventFields (event : AuditContent) : List (String × FieldValue) :=
  [("eventId", .ofOption event.eventId), ("timestamp", event.timestamp.field), ("actorId", .text event.actorId),
    ("actorRoles", .list event.actorRoles), ("action", .text event.action),
    ("resourceType", .text event.resourceType), ("resourceId", .ofOption event.resourceId),
    ("result", .text event.result), ("reason", .ofOption event.reason), ("ip", .ofOption event.ip),
    ("traceId", .ofOption event.traceId)] ++ metadataField event.metadata

/-! ## Hash and signature -/

def computeHash (N : Node) (prevHash : Option String) (canonicalPayload : String) : String :=
  N.sha256 (prevHash.getD "" ++ "|" ++ canonicalPayload)

theorem computeHash_inj {N : Node} (hN : Function.Injective N.sha256) (prevHash : Option String) (p q : String) :
    computeHash N prevHash p = computeHash N prevHash q ↔ p = q := by
  constructor
  · intro h
    have := hN h
    simpa [String.append_assoc] using this
  · rintro rfl; rfl

structure SigningKey where
  kid : Option String
  secret : String
  deriving DecidableEq

-- `secret && secret.trim().length > 0 ? secret : null`
def nonBlank (secret : Option String) : Option String := secret.filter fun s => trim s ≠ ""

def getSigningSecret (env : Env) : Option SigningKey :=
  let kid := ((env "AUDIT_SIGNING_KID").map trim).getD ""
  if kid ≠ "" then (nonBlank (env ("AUDIT_SIGNING_SECRET_" ++ kid))).map fun secret => ⟨some kid, secret⟩
  else (nonBlank (env "AUDIT_SIGNING_SECRET")).map fun secret => ⟨none, secret⟩

def getVerifySecret (env : Env) (kid : Option String) : Option String :=
  if kid.getD "" ≠ "" then nonBlank (env ("AUDIT_SIGNING_SECRET_" ++ kid.getD ""))
  else nonBlank (env "AUDIT_SIGNING_SECRET")

def signHash (N : Node) (hash secret : String) : String := N.hmacSha256 secret hash

theorem getVerifySecret_of_signing {env : Env} {key : SigningKey} (h : getSigningSecret env = some key) :
    getVerifySecret env key.kid = some key.secret := by
  unfold getSigningSecret at h
  simp only at h
  split at h
  · rename_i hk
    obtain ⟨secret, hs, rfl⟩ := Option.map_eq_some_iff.mp h
    simp only [getVerifySecret, Option.getD_some, if_pos hk, hs]
  · obtain ⟨secret, hs, rfl⟩ := Option.map_eq_some_iff.mp h
    simpa [getVerifySecret] using hs

/-! ## The record `appendEvent` inserts -/

def appendContent (eventId : String) (eventTimestamp : JsDate) (dto : CreateAuditEventDto) : AuditContent where
  eventId := some eventId
  timestamp := .date eventTimestamp
  actorId := dto.actorId
  actorRoles := dto.actorRoles
  action := dto.action
  resourceType := dto.resourceType
  resourceId := dto.resourceId
  result := dto.result
  reason := dto.reason
  ip := dto.ip
  traceId := dto.traceId
  metadata := dto.metadata

def signatureFields (N : Node) (signing : Option SigningKey) (hash : String) : Option String × Option String :=
  match signing with
  | some key => if signHash N hash key.secret ≠ "" then (some (signHash N hash key.secret), key.kid)
      else (none, none)
  | none => (none, none)

def appendRecord (N : Node) (signing : Option SigningKey) (epochId eventId : String) (eventTimestamp : JsDate)
    (dto : CreateAuditEventDto) (prevHash : Option String) : AuditEvent :=
  let hash := computeHash N prevHash (buildCanonicalPayload (appendFields eventId eventTimestamp dto))
  { appendContent eventId eventTimestamp dto with
    epochId := some epochId
    prevHash := match prevHash with | some h => .val h | none => .null
    hash := .val hash
    signature := (signatureFields N signing hash).1
    signatureKid := (signatureFields N signing hash).2 }

end DocVault
