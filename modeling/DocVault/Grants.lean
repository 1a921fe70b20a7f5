import DocVault.Encoding
import DocVault.IsoDate
import DocVault.PolicyRules

/-!
# Grant tokens between two services

`metadata-service` signs grants and `document-service` verifies them, each with
the secrets of its own environment. The two verifiers of `document-service`, of
download and of preview grants, are one definition. HMAC, and dates in other
formats than that of `toISOString`, are parameters.
-/

namespace DocVault

open PolicyService

/-- `process.env`: what is set under a name. -/
abbrev ProcessEnv := String → Option String

inductive GrantKind where
  | download
  | preview
  deriving DecidableEq

def GrantKind.baseName : GrantKind → String
  | download => "DOWNLOAD_GRANT_SECRET"
  | preview => "PREVIEW_GRANT_SECRET"

/-- What the services use of Node.js. A digest is a text of base64url. -/
structure GrantNode where
  hmacSha256 : String → String → String
  otherDate : Option Json → Option Time
  digest : ∀ secret text, hmacSha256 secret text ≠ "" ∧ '.' ∉ (hmacSha256 secret text).toList

def bufferToBase64url (s : String) : String := String.ofList (Encoding.base64url (Encoding.utf8Encode s.toList))

def bufferFromBase64url (s : String) : String :=
  String.ofList (Encoding.utf8Decode (Encoding.base64Decode s.toList))

@[simp] theorem bufferFrom_bufferTo (s : String) : bufferFromBase64url (bufferToBase64url s) = s := by
  simp [bufferFromBase64url, bufferToBase64url]

/-! ## Signing -/

def requireEnv (env : ProcessEnv) (name : String) : Except String String :=
  match env name with
  | none => .error s!"{name} is required"
  | some value => if trim value = "" then .error s!"{name} is required" else .ok value

structure Signing where
  kid : Option String
  secret : String

def currentKid (env : ProcessEnv) : Option String := ((env "GRANT_TOKEN_CURRENT_KID").map trim).filter (· ≠ "")

def secretName (baseName : String) : Option String → String
  | some kid => s!"{baseName}_{kid}"
  | none => baseName

def grantSigningSecret (env : ProcessEnv) (baseName : String) : Except String Signing := do
  let kid := currentKid env
  let secret ← requireEnv env (secretName baseName kid)
  .ok ⟨kid, secret⟩

def GrantKind.secret (policy : PolicyEnv) : GrantKind → String
  | download => policy.downloadSecret
  | preview => policy.previewSecret

def GrantKind.authorize : GrantKind → PolicyEnv → PolicyDb → String → GrantDto → PolicyRequest →
    Except HttpError Authorization
  | download => authorizeDownload
  | preview => authorizePreview

/-- The policy signs grants of the kind with what its environment has. -/
structure Signs (node : GrantNode) (env : ProcessEnv) (kind : GrantKind) (policy : PolicyEnv) : Prop where
  secret : grantSigningSecret env kind.baseName = .ok ⟨policy.kid, kind.secret policy⟩
  hmac : policy.hmacSha256 = node.hmacSha256
  base64url : policy.base64url = bufferToBase64url

/-! ## Verifying -/

namespace GrantKind

def token : GrantKind → String
  | download => "Grant token"
  | preview => "Preview grant token"

def invalidFormat : GrantKind → String
  | download => "Invalid grant token format"
  | preview => "Invalid preview grant token format"

end GrantKind

def getLegacySecret (kind : GrantKind) (env : ProcessEnv) : Except String String := requireEnv env kind.baseName

def acceptedKids (env : ProcessEnv) : List String :=
  [env "GRANT_TOKEN_CURRENT_KID", env "GRANT_TOKEN_PREVIOUS_KID"].filterMap fun value => value.filter (trim · ≠ "")

def getSecretForKid (kind : GrantKind) (env : ProcessEnv) (kid : Json) : Except String String :=
  match kid with
  | .str kid =>
    if kid ∈ acceptedKids env then requireEnv env (secretName kind.baseName kid)
      else .error s!"{kind.token} kid is not accepted"
  | _ => .error s!"{kind.token} kid is not accepted"

-- A number is zero when the digits before its exponent are.
def Json.truthy : Json → Bool
  | .null => false
  | .bool b => b
  | .num text => !(text.toList.takeWhile fun c => c ≠ 'e' && c ≠ 'E').all fun c => c = '0' || c = '.' || c = '-'
  | .str s => s ≠ ""
  | .arr _ => true
  | .obj _ => true

def Json.isStr (value : Option Json) (s : String) : Bool :=
  match value with
  | some (.str t) => t = s
  | _ => false

/-- `new Date(value).getTime()`, with nothing for `NaN`. -/
def getTime (node : GrantNode) : Option Json → Option Time
  | some (.str s) => (parseISOString s).orElse fun _ => node.otherDate (some (.str s))
  | value => node.otherDate value

def tokenSegments (kind : GrantKind) (token : String) : Except String (String × String) :=
  match token.toList.splitOn '.' with
  | encodedPayload :: signature :: _ =>
    if encodedPayload = [] ∨ signature = [] then .error kind.invalidFormat
    else .ok (String.ofList encodedPayload, String.ofList signature)
  | _ => .error kind.invalidFormat

def decodePayload (encodedPayload : String) : Except String Json :=
  match Json.parse (bufferFromBase64url encodedPayload) with
  | none => .error "Unexpected token in JSON"
  | some .null => .error "Cannot read properties of null (reading 'kid')"
  | some payload => .ok payload

def secretFor (kind : GrantKind) (env : ProcessEnv) (kid : Option Json) : Except String String :=
  match kid.filter Json.truthy with
  | some kid => getSecretForKid kind env kid
  | none => getLegacySecret kind env

def verifyToken (kind : GrantKind) (node : GrantNode) (env : ProcessEnv)
    (token requestingActorId : String) (now : Time) : Except String Json := do
  let (encodedPayload, signature) ← tokenSegments kind token
  let payload ← decodePayload encodedPayload
  let secret ← secretFor kind env (payload.prop "kid")
  let expectedSignature := node.hmacSha256 secret encodedPayload
  if expectedSignature ≠ signature then .error s!"{kind.token} signature mismatch"
  else if (getTime node (payload.prop "expiresAt")).any (· ≤ now) then .error s!"{kind.token} expired"
  else if !Json.isStr (payload.prop "actorId") requestingActorId then .error s!"{kind.token} actorId mismatch"
  else .ok payload

def verifyGrantToken : GrantNode → ProcessEnv → String → String → Time → Except String Json := verifyToken .download

def verifyPreviewGrantToken : GrantNode → ProcessEnv → String → String → Time → Except String Json :=
  verifyToken .preview

/-! ## Reading a payload -/

def Authorization.payload (a : Authorization) (actorId : String) : GrantPayload where
  actorId := actorId
  docId := a.docId
  version := a.version
  objectKey := a.objectKey
  filename := a.filename
  contentType := a.contentType
  expiresAt := a.expiresAt
  classification := a.classification
  watermarkRequired := a.watermarkRequired

def Json.readStr (json : Json) (name : String) : Option String :=
  match json.prop name with
  | some (.str s) => some s
  | _ => none

def readClassification : String → Option ClassificationLevel
  | "PUBLIC" => some .PUBLIC
  | "INTERNAL" => some .INTERNAL
  | "CONFIDENTIAL" => some .CONFIDENTIAL
  | "SECRET" => some .SECRET
  | _ => none

def readDigits (ds : List Char) : Option Nat :=
  if ds ≠ [] ∧ ds.all Char.isDigit = true then some (Nat.ofDigitChars 10 ds 0) else none

def readInt (text : String) : Option Int :=
  match text.toList with
  | '-' :: ds => (readDigits ds).map fun n => -(n : Int)
  | ds => (readDigits ds).map fun n => (n : Int)

def Json.readInt (json : Json) (name : String) : Option Int :=
  match json.prop name with
  | some (.num text) => DocVault.readInt text
  | _ => none

/-- What the code takes a verified object for (`as GrantPayload`). -/
def readPayload (json : Json) : Option GrantPayload := do
  let actorId ← json.readStr "actorId"
  let docId ← json.readStr "docId"
  let version ← json.readInt "version"
  let objectKey ← json.readStr "objectKey"
  let filename ← json.readStr "filename"
  let expiresAt ← json.readStr "expiresAt"
  let classification ← (json.readStr "classification").bind readClassification
  some {
    actorId, docId, version, objectKey, filename, expiresAt, classification
    contentType := json.readStr "contentType"
    watermarkRequired := match json.prop "watermarkRequired" with
      | some (.bool required) => some required
      | _ => none }

/-! ## The payload of a token -/

section
variable (payload : GrantPayload) (kid : Option String)

theorem payload_intNumbers : (payload.json kid).IntNumbers := by
  obtain ⟨_, _, version, _, _, contentType, _, _, watermark⟩ := payload
  cases contentType <;> cases watermark <;> cases kid <;>
    simp [GrantPayload.json, Json.IntNumbers, Json.IntFields]

/-- What each property of a payload reads as. -/
theorem payload_prop : (payload.json kid).prop "kid" = kid.map .str ∧
    (payload.json kid).prop "actorId" = some (.str payload.actorId) ∧
    (payload.json kid).prop "docId" = some (.str payload.docId) ∧
    (payload.json kid).prop "version" = some (.num (toString payload.version)) ∧
    (payload.json kid).prop "objectKey" = some (.str payload.objectKey) ∧
    (payload.json kid).prop "filename" = some (.str payload.filename) ∧
    (payload.json kid).prop "contentType" = payload.contentType.map .str ∧
    (payload.json kid).prop "expiresAt" = some (.str payload.expiresAt) ∧
    (payload.json kid).prop "classification" = some (.str (toString payload.classification)) ∧
    (payload.json kid).prop "watermarkRequired" = payload.watermarkRequired.map .bool := by
  obtain ⟨_, _, _, _, _, contentType, _, _, watermark⟩ := payload
  cases contentType <;> cases watermark <;> cases kid <;> simp [GrantPayload.json, Json.prop]

theorem readClassification_toString (level : ClassificationLevel) :
    readClassification (toString level) = some level := by
  cases level <;> rfl

theorem readDigits_toDigits (n : Nat) : readDigits (Nat.toDigits 10 n) = some n := by
  unfold readDigits
  rw [if_pos ⟨Nat.toDigits_ne_nil, List.all_eq_true.mpr (Json.isDigit_toDigits n)⟩, Nat.ofDigitChars_ten_toDigits]

theorem readInt_toString (a : Int) : readInt (toString a) = some a := by
  unfold readInt
  cases a with
  | ofNat n =>
    have htext : (toString (Int.ofNat n)).toList = Nat.toDigits 10 n := by simp [Int.toString_eq_repr, Int.repr]
    obtain ⟨c, cs, heq, _⟩ := Json.toDigits_head n
    have hdigit := Json.isDigit_toDigits n c (heq ▸ List.mem_cons_self)
    have hread := readDigits_toDigits n
    rw [htext]
    rw [heq] at hread ⊢
    split
    · rename_i h
      obtain ⟨rfl, _⟩ := List.cons.inj h
      cases hdigit
    · rw [hread]
      rfl
  | negSucc n =>
    have htext : (toString (Int.negSucc n)).toList = '-' :: Nat.toDigits 10 (n + 1) := by
      simp [Int.toString_eq_repr, Int.repr]
    simp only [htext, readDigits_toDigits]
    rfl

theorem readPayload_json : readPayload (payload.json kid) = some payload := by
  obtain ⟨_, hactor, hdoc, hversion, hkey, hname, htype, hexpires, hclass, hwatermark⟩ := payload_prop payload kid
  obtain ⟨_, _, version, _, _, contentType, _, level, watermark⟩ := payload
  simp only [readPayload, Json.readStr, Json.readInt, hactor, hdoc, hversion, hkey, hname, htype, hexpires, hclass,
    hwatermark, readInt_toString version, Option.bind_eq_bind, Option.bind_some, readClassification_toString level]
  cases contentType <;> cases watermark <;> rfl

theorem decodePayload_json :
    decodePayload (bufferToBase64url (payload.json kid).stringify) = .ok (payload.json kid) := by
  unfold decodePayload
  rw [bufferFrom_bufferTo, Json.parse_stringify (Json.written_of_int _ (payload_intNumbers payload kid))]
  simp [GrantPayload.json]

end

/-! ## What is accepted -/

section
variable {kind : GrantKind} {node : GrantNode} {env : ProcessEnv} {policy : PolicyEnv}
  {token actorId : String} {now : Time} {json : Json}

theorem requireEnv_ok {name value : String} : requireEnv env name = .ok value ↔
    env name = some value ∧ trim value ≠ "" := by
  unfold requireEnv
  cases h : env name with
  | none => simp
  | some v =>
    by_cases hv : trim v = ""
    · simp only [hv, if_true, reduceCtorEq, Option.some.injEq, false_iff]
      rintro ⟨rfl, hne⟩
      exact hne hv
    · simp only [hv, if_false, Except.ok.injEq, Option.some.injEq]
      constructor
      · rintro rfl; exact ⟨rfl, hv⟩
      · exact fun h => h.1

theorem grantSigningSecret_ok {baseName secret : String} {kid : Option String} :
    grantSigningSecret env baseName = .ok ⟨kid, secret⟩ ↔
      kid = currentKid env ∧ requireEnv env (secretName baseName kid) = .ok secret := by
  unfold grantSigningSecret
  cases h : requireEnv env (secretName baseName (currentKid env)) with
  | error e =>
    simp only [bind, Except.bind, h, reduceCtorEq, false_iff]
    rintro ⟨rfl, hk⟩
    rw [h] at hk
    cases hk
  | ok s =>
    simp only [bind, Except.bind, h, Except.ok.injEq, Signing.mk.injEq]
    constructor
    · rintro ⟨rfl, rfl⟩; exact ⟨rfl, h⟩
    · rintro ⟨rfl, hk⟩
      rw [h] at hk
      exact ⟨rfl, Except.ok.inj hk⟩

theorem currentKid_some {kid : String} : currentKid env = some kid ↔
    ∃ value, env "GRANT_TOKEN_CURRENT_KID" = some value ∧ trim value = kid ∧ kid ≠ "" := by
  unfold currentKid
  cases env "GRANT_TOKEN_CURRENT_KID" with
  | none => simp
  | some value =>
    simp only [Option.map_some, Option.filter_eq_some_iff, Option.some.injEq, decide_eq_true_eq]
    constructor
    · rintro ⟨rfl, hne⟩; exact ⟨value, rfl, rfl, hne⟩
    · rintro ⟨_, rfl, rfl, hne⟩; exact ⟨rfl, hne⟩

theorem mem_acceptedKids {kid : String} : kid ∈ acceptedKids env ↔
    (env "GRANT_TOKEN_CURRENT_KID" = some kid ∨ env "GRANT_TOKEN_PREVIOUS_KID" = some kid) ∧ trim kid ≠ "" := by
  simp only [acceptedKids, List.mem_filterMap, List.mem_cons, List.not_mem_nil, or_false, exists_eq_or_imp,
    exists_eq_left, Option.filter_eq_some_iff, decide_eq_true_eq]
  exact or_and_right.symm

theorem getSecretForKid_ok {kid secret : String} : getSecretForKid kind env (.str kid) = .ok secret ↔
    kid ∈ acceptedKids env ∧ requireEnv env (secretName kind.baseName kid) = .ok secret := by
  simp only [getSecretForKid]
  split
  · rename_i h
    simp only [h, true_and]
  · rename_i h
    simp only [h, reduceCtorEq, false_and]

theorem secretFor_kid {kid : String} (hne : kid ≠ "") :
    secretFor kind env (some (.str kid)) = getSecretForKid kind env (.str kid) := by
  have htruthy : (Json.str kid).truthy = true := by simp [Json.truthy, hne]
  unfold secretFor
  rw [Option.filter_some, if_pos htruthy]

theorem verifyToken_ok : verifyToken kind node env token actorId now = .ok json ↔
    ∃ encodedPayload signature secret, tokenSegments kind token = .ok (encodedPayload, signature) ∧
      decodePayload encodedPayload = .ok json ∧ secretFor kind env (json.prop "kid") = .ok secret ∧
      node.hmacSha256 secret encodedPayload = signature ∧
      (getTime node (json.prop "expiresAt")).any (· ≤ now) = false ∧
      Json.isStr (json.prop "actorId") actorId = true := by
  unfold verifyToken
  cases tokenSegments kind token with
  | error e => simp [bind, Except.bind]
  | ok parts =>
    obtain ⟨encodedPayload, signature⟩ := parts
    cases hd : decodePayload encodedPayload with
    | error e => simp [bind, Except.bind, hd]
    | ok payload =>
      cases hs : secretFor kind env (payload.prop "kid") with
      | error e =>
        simp only [bind, Except.bind, hd, hs, reduceCtorEq, false_iff]
        rintro ⟨_, _, _, h, hj, hsecret, _⟩
        obtain ⟨rfl, rfl⟩ := Prod.mk.inj (Except.ok.inj h)
        rw [hd] at hj
        obtain rfl := Except.ok.inj hj
        rw [hs] at hsecret
        cases hsecret
      | ok secret =>
        simp only [bind, Except.bind, hd, hs]
        constructor
        · intro h
          split at h
          · cases h
          · rename_i hsig
            split at h
            · cases h
            · rename_i hexpired
              split at h
              · cases h
              · rename_i hactor
                obtain rfl := Except.ok.inj h
                exact ⟨_, _, secret, rfl, hd, hs, not_not.mp hsig,
                  Bool.not_eq_true _ ▸ hexpired, by simpa using hactor⟩
        · rintro ⟨_, _, _, h, hj, hsecret, hsig, hexpired, hactor⟩
          obtain ⟨rfl, rfl⟩ := Prod.mk.inj (Except.ok.inj h)
          rw [hd] at hj
          obtain rfl := Except.ok.inj hj
          rw [hs] at hsecret
          obtain rfl := Except.ok.inj hsecret
          simp [hsig, hexpired, hactor]

theorem segments_token {encodedPayload signature : String} (hp : encodedPayload ≠ "")
    (hp' : '.' ∉ encodedPayload.toList) (hs : signature ≠ "") (hs' : '.' ∉ signature.toList) :
    tokenSegments kind s!"{encodedPayload}.{signature}" = .ok (encodedPayload, signature) := by
  have htext : (s!"{encodedPayload}.{signature}").toList = encodedPayload.toList ++ '.' :: signature.toList := by
    simp [toString]
  unfold tokenSegments
  rw [htext, List.splitOn_append_cons_self_of_not_mem hp', List.splitOn_eq_singleton hs']
  simp [hp, hs]

theorem bufferToBase64url_text {s : String} (h : s ≠ "") :
    bufferToBase64url s ≠ "" ∧ '.' ∉ (bufferToBase64url s).toList := by
  constructor
  · intro hnil
    apply h
    have hempty : bufferFromBase64url "" = "" := by
      simp [bufferFromBase64url, Encoding.base64Decode, Encoding.ofBase64Digits, Encoding.utf8Decode]
    rw [← bufferFrom_bufferTo s, hnil, hempty]
  · intro hdot
    simp only [bufferToBase64url, String.toList_ofList] at hdot
    exact Encoding.base64url_ne_dot '.' hdot rfl

theorem stringify_ne_empty (payload : GrantPayload) (kid : Option String) : (payload.json kid).stringify ≠ "" := by
  obtain ⟨c, cs, h, _⟩ :=
    Json.stringify_head (payload.json kid) (Json.written_of_int _ (payload_intNumbers payload kid))
  intro hnil
  rw [hnil] at h
  cases h

/-- The text that a grant signs. -/
def GrantPayload.encoded (payload : GrantPayload) (kid : Option String) : String :=
  bufferToBase64url (payload.json kid).stringify

theorem segments_signGrant {kind' : GrantKind} (hs : Signs node env kind policy) (payload : GrantPayload)
    (secret : String) : tokenSegments kind' (signGrant policy secret payload) =
      .ok (payload.encoded policy.kid, node.hmacSha256 secret (payload.encoded policy.kid)) := by
  unfold signGrant
  rw [hs.base64url, hs.hmac]
  obtain ⟨hne, hdot⟩ := bufferToBase64url_text (stringify_ne_empty payload policy.kid)
  obtain ⟨hne', hdot'⟩ := node.digest secret (payload.encoded policy.kid)
  exact segments_token hne hdot hne' hdot'

/-- When a token is accepted that `metadata-service` has signed. -/
theorem verify_signed (hs : Signs node env kind policy) {env' : ProcessEnv}
    {payload : GrantPayload} {secret : String} :
    verifyToken kind node env' (signGrant policy secret payload) actorId now = .ok json ↔
      json = payload.json policy.kid ∧ (∃ secret', secretFor kind env' (policy.kid.map .str) = .ok secret' ∧
        node.hmacSha256 secret' (payload.encoded policy.kid) = node.hmacSha256 secret
          (payload.encoded policy.kid)) ∧
        (getTime node (some (.str payload.expiresAt))).any (· ≤ now) = false ∧ payload.actorId = actorId := by
  obtain ⟨hkid, hactor, _, _, _, _, _, hexpires, _⟩ := payload_prop payload policy.kid
  have hdecode : decodePayload (payload.encoded policy.kid) = .ok (payload.json policy.kid) :=
    decodePayload_json payload policy.kid
  rw [verifyToken_ok, segments_signGrant hs payload secret]
  constructor
  · rintro ⟨_, _, secret', h, hj, hsecret, hsig, hexpired, ha⟩
    obtain ⟨rfl, rfl⟩ := Prod.mk.inj (Except.ok.inj h)
    obtain rfl := Except.ok.inj (hj.symm.trans hdecode)
    rw [hkid] at hsecret
    rw [hexpires] at hexpired
    rw [hactor] at ha
    exact ⟨rfl, ⟨secret', hsecret, hsig⟩, hexpired, by simpa [Json.isStr] using ha⟩
  · rintro ⟨rfl, ⟨secret', hsecret, hsig⟩, hexpired, ha⟩
    refine ⟨_, _, secret', rfl, hdecode, ?_, hsig, ?_, ?_⟩
    · rw [hkid]; exact hsecret
    · rw [hexpires]; exact hexpired
    · rw [hactor]; simpa [Json.isStr] using ha

/-! ## What is issued -/

theorem authorize_ok {db : PolicyDb} {docId : String} {dto : GrantDto} {request : PolicyRequest} {a : Authorization}
    (h : kind.authorize policy db docId dto request = .ok a) :
    a.grantToken = signGrant policy (kind.secret policy) (a.payload request.actorId) ∧
      a.expiresAt = isoString (request.now + expiresInSeconds * 1000) ∧
      a.watermarkRequired.isSome = (kind == .download) := by
  cases kind with
  | download =>
    obtain ⟨_, _, _, _, _, _, _, _, rfl⟩ := authorizeDownload_ok.mp h
    exact ⟨rfl, rfl, rfl⟩
  | preview =>
    obtain ⟨_, _, _, _, _, _, _, rfl⟩ := authorizePreview_ok.mp h
    exact ⟨rfl, rfl, rfl⟩

theorem getTime_isoString {time : Time} (h : time.natAbs ≤ 8640000000000000) :
    getTime node (some (.str (isoString time))) = some time := by
  unfold isoString
  rw [dif_pos h]
  simp [getTime, parseISOString_toISOString]

end

/-! ## An environment and a store -/

def grantNode : GrantNode where
  hmacSha256 secret text := "h" ++ bufferToBase64url s!"{secret}/{text}"
  otherDate _ := none
  digest secret text := by
    have hne : s!"{secret}/{text}" ≠ "" := by
      intro h
      have := congrArg String.length h
      simp [toString] at this
    refine ⟨by simp, ?_⟩
    simpa using (bufferToBase64url_text hne).2

/-- The current kid is `kid`, and `k1` and `k0` have secrets. -/
def processEnv (kid : String) : ProcessEnv
  | "GRANT_TOKEN_CURRENT_KID" => some kid
  | "GRANT_TOKEN_PREVIOUS_KID" => some "k0"
  | "DOWNLOAD_GRANT_SECRET_k1" => some "download-1"
  | "PREVIEW_GRANT_SECRET_k1" => some "preview-1"
  | "DOWNLOAD_GRANT_SECRET_k0" => some "download-0"
  | "PREVIEW_GRANT_SECRET_k0" => some "preview-0"
  | _ => none

def signingPolicy : PolicyEnv where
  sha256 := id
  hmacSha256 := grantNode.hmacSha256
  base64url := bufferToBase64url
  kid := some "k1"
  downloadSecret := "download-1"
  previewSecret := "preview-1"

theorem signs_k1 (kind : GrantKind) : Signs grantNode (processEnv "k1") kind signingPolicy where
  secret := by cases kind <;> rfl
  hmac := rfl
  base64url := rfl

def publicDb : PolicyDb where
  documents := [publishedDocument]
  versions := [sampleVersion "d-1"]
  aclEntries := []
  shareLinks := []
  unique := by decide

def publicRequest : PolicyRequest where
  user := ⟨some "u-2", none, ["viewer"]⟩
  organizationId := some "o-1"
  now := 0

end DocVault
