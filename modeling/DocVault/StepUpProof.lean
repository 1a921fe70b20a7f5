import DocVault.BehaviorSignals
import DocVault.Grants
import DocVault.JsNumber

/-!
# Step-up proofs

`SensitiveActionProofService` of the gateway: whoever types the challenge phrase
of a sensitive action gets a signed proof for five minutes, and the action asks
for it in a header. HMAC is that of `GrantNode`. Unknown values are JSON values,
and `undefined` is none.
-/

namespace DocVault

inductive SensitiveMetadataAction where
  | exportEvidencePacket
  | runRetention
  deriving DecidableEq

namespace SensitiveMetadataAction

def text : SensitiveMetadataAction → String
  | exportEvidencePacket => "export-evidence-packet"
  | runRetention => "run-retention"

def challengePhrase : SensitiveMetadataAction → String
  | exportEvidencePacket => "EXPORT EVIDENCE"
  | runRetention => "RUN RETENTION"

def ofText (text : String) : Option SensitiveMetadataAction :=
  if text = "export-evidence-packet" then some exportEvidencePacket
  else if text = "run-retention" then some runRetention
  else none

end SensitiveMetadataAction

/-- `req.user`, and the `auth_time` of the raw token. -/
structure ProofUser where
  sub : Option Json := none
  username : Option Json := none
  authTime : Option Json := none

structure ProofBody where
  action : Option Json := none
  challengePhrase : Option Json := none

structure RecentAuthStatus where
  checked : Bool
  maxAgeSeconds : Int
  authTime : Option String := none
  ageSeconds : Option JsNumber := none

structure SensitiveActionProofPayload where
  actor : String
  action : Json
  expiresAt : Rat
  nonce : String

structure IssuedProof where
  proof : String
  expiresAt : String
  reauth : RecentAuthStatus

namespace SensitiveActionProofService

def PROOF_TTL_MS : Int := 5 * 60 * 1000

/-! ## What is read of a request -/

-- A run of white space is one space.
def collapseSpaces : List Char → List Char
  | [] => []
  | [c] => [if isSpace c then ' ' else c]
  | c :: d :: rest =>
    if isSpace c then if isSpace d then collapseSpaces (d :: rest) else ' ' :: collapseSpaces (d :: rest)
    else c :: collapseSpaces (d :: rest)

def normalizePhrase : Option Json → String
  | some (.str value) => String.ofList ((collapseSpaces (trim value).toList).flatMap upperCase)
  | _ => ""

def parseAction (action : Option Json) : Except HttpError SensitiveMetadataAction :=
  match action with
  | some (.str text) =>
    match SensitiveMetadataAction.ofText text with
    | some action => .ok action
    | none => .error (.badRequest "Unsupported sensitive action")
  | _ => .error (.badRequest "Unsupported sensitive action")

def getActor (user : ProofUser) : Except HttpError String :=
  match (Json.nullish user.sub).or user.username with
  | some (.str actor) =>
    if trim actor = "" then .error (.forbidden "Sensitive action actor is required") else .ok actor
  | _ => .error (.forbidden "Sensitive action actor is required")

def isEnabled (value : Option String) : Bool :=
  ["1", "true", "yes", "on"].any fun text => (value.getD "").toList.map Char.toLower = text.toList

/-- `Number(value)` -/
def numberOf : Option Json → JsNumber
  | none => .nan
  | some .null => .finite 0
  | some (.bool b) => .finite (if b then 1 else 0)
  | some value => Number (textOf value)

/-- The number nearest to a result. -/
def rounded (q : Rat) : JsNumber :=
  if q < 0 then (JsNumber.nearest q.num.natAbs q.den).neg else JsNumber.nearest q.num.natAbs q.den

/-- `new Date(ms)`, if it is valid. -/
def dateOf : JsNumber → Option JsDate
  | .finite q =>
    let ms : Int := if q < 0 then -(-q).floor else q.floor
    if h : ms.natAbs ≤ 8640000000000000 then some ⟨ms, h⟩ else none
  | _ => none

-- An invalid date throws.
def toISOString (ms : JsNumber) : Except HttpError String :=
  match dateOf ms with
  | some date => .ok date.toISOString
  | none => .error .internal

def getRecentAuthMaxAgeSeconds (env : ProcessEnv) : Int :=
  match (env "SENSITIVE_ACTION_REAUTH_MAX_AGE_SECONDS").map Number with
  | some (.finite value) => if value > 0 then value.floor else 600
  | _ => 600

def getRecentAuthStatus (env : ProcessEnv) (user : ProofUser) (now : Time) : Except HttpError RecentAuthStatus :=
  let maxAgeSeconds := getRecentAuthMaxAgeSeconds env
  let requireRecentAuth := isEnabled (env "SENSITIVE_ACTION_REQUIRE_RECENT_AUTH")
  match numberOf user.authTime with
  | .finite authTimeSeconds => do
    let ageSeconds := rounded (((now / 1000 : Int) : Rat) - authTimeSeconds)
    if requireRecentAuth && !ageSeconds.le (.finite maxAgeSeconds) then
      .error (.forbidden "Recent authentication is required for sensitive actions")
    else
      let authTime ← toISOString (rounded (authTimeSeconds * 1000))
      .ok ⟨requireRecentAuth, maxAgeSeconds, some authTime, some ageSeconds⟩
  | _ =>
    if requireRecentAuth then .error (.forbidden "Recent authentication is required for sensitive actions")
    else .ok ⟨false, maxAgeSeconds, none, none⟩

/-! ## Signing -/

def getSecret (env : ProcessEnv) : Except HttpError String :=
  match ((env "SENSITIVE_ACTION_PROOF_SECRET").or (env "KEYCLOAK_CLIENT_SECRET")).filter (· ≠ "") with
  | some secret => .ok secret
  | none => if env "NODE_ENV" = some "production" then .error .internal else .ok "dev-sensitive-action-proof-secret"

def payloadJson (actor : String) (action : SensitiveMetadataAction) (expiresAt : Time) (nonce : String) : Json :=
  .obj [("actor", .str actor), ("action", .str action.text), ("expiresAt", .num (toString expiresAt)),
    ("nonce", .str nonce)]

def signPayload (node : GrantNode) (env : ProcessEnv) (payload : Json) : Except HttpError String := do
  let encodedPayload := bufferToBase64url payload.stringify
  let secret ← getSecret env
  return s!"{encodedPayload}.{node.hmacSha256 secret encodedPayload}"

/-- `nonce` is `randomUUID()`. -/
def issueProof (node : GrantNode) (env : ProcessEnv) (user : ProofUser) (body : ProofBody)
    (now : Time) (nonce : String) : Except HttpError IssuedProof := do
  let action ← parseAction body.action
  if normalizePhrase body.challengePhrase ≠ normalizePhrase (some (.str action.challengePhrase)) then
    .error (.badRequest "Invalid sensitive action challenge phrase")
  else
    let actor ← getActor user
    let reauth ← getRecentAuthStatus env user now
    let expiresAt := now + PROOF_TTL_MS
    let proof ← signPayload node env (payloadJson actor action expiresAt nonce)
    let expires ← toISOString (.finite expiresAt)
    return ⟨proof, expires, reauth⟩

/-! ## Verifying -/

def invalidProof : HttpError := .forbidden "Invalid or expired sensitive action proof"

def proofSegments (proof : String) : Option (String × String) :=
  match proof.toList.splitOn '.' with
  | [encodedPayload, signature] =>
    if encodedPayload = [] ∨ signature = [] then none
      else some (String.ofList encodedPayload, String.ofList signature)
  | _ => none

-- `hasOwnProperty` takes any action as a text.
def isProofPayload (value : Json) : Option SensitiveActionProofPayload := do
  let actor ← value.readStr "actor"
  let action ← (value.prop "action").filter fun action => (SensitiveMetadataAction.ofText (textOf action)).isSome
  let expiresAt ← match value.prop "expiresAt" with
    | some (.num text) => match Number text with
      | .finite q => some q
      | _ => none
    | _ => none
  let nonce ← value.readStr "nonce"
  return ⟨actor, action, expiresAt, nonce⟩

end SensitiveActionProofService

end DocVault
