import DocVault.Grants

/-!
# Only issued grants are accepted

What a verifier accepts, `metadata-service` has issued, when nobody else can
sign with the configured secrets and these are distinct. The payload is read
before it is authenticated and names its own key, which changes nothing: the
signed text determines it.
-/

namespace DocVault

open PolicyService

/-- A grant that `metadata-service` has issued, with its environment then. -/
structure GrantIssue (node : GrantNode) where
  kind : GrantKind
  env : ProcessEnv
  policy : PolicyEnv
  signs : Signs node env kind policy
  db : PolicyDb
  docId : String
  dto : GrantDto
  request : PolicyRequest
  authorization : Authorization
  granted : kind.authorize policy db docId dto request = .ok authorization
  clock : (request.now + expiresInSeconds * 1000).natAbs ≤ 8640000000000000

namespace GrantIssue
variable {node : GrantNode} (i : GrantIssue node)

def payload : GrantPayload := i.authorization.payload i.request.actorId

def secret : String := i.kind.secret i.policy

def text : String := i.payload.encoded i.policy.kid

def json : Json := i.payload.json i.policy.kid

def token : String := i.authorization.grantToken

def expiry : Time := i.request.now + expiresInSeconds * 1000

end GrantIssue

/-- A text of the token that is signed with a configured secret was signed by `metadata-service`. -/
def Unforged (node : GrantNode) (env : ProcessEnv) (issues : List (GrantIssue node)) (token : String) : Prop :=
  ∀ kind encodedPayload signature, tokenSegments kind token = .ok (encodedPayload, signature) →
    ∀ (keyKind : GrantKind) kid secret, env (secretName keyKind.baseName kid) = some secret →
      node.hmacSha256 secret encodedPayload = signature → ∃ i ∈ issues, i.secret = secret ∧ i.text = encodedPayload

/-- No two names of download and preview secrets ever hold the same secret. -/
def DistinctSecrets {node : GrantNode} (env : ProcessEnv) (issues : List (GrantIssue node)) : Prop :=
  ∀ e ∈ env :: issues.map (·.env), ∀ e' ∈ env :: issues.map (·.env), ∀ (kind kind' : GrantKind) kid kid' secret,
    e (secretName kind.baseName kid) = some secret → e' (secretName kind'.baseName kid') = some secret →
      kind = kind' ∧ kid = kid'

/-- The legacy secret, or that of the current or the previous kid. -/
def KnownKey (kind : GrantKind) (env : ProcessEnv) (secret : String) : Prop :=
  ∃ kid : Option String, env (secretName kind.baseName kid) = some secret ∧
    ∀ k ∈ kid, env "GRANT_TOKEN_CURRENT_KID" = some k ∨ env "GRANT_TOKEN_PREVIOUS_KID" = some k

section
variable {node : GrantNode} {kind : GrantKind} {env : ProcessEnv} {issues : List (GrantIssue node)}
  {token actorId : String} {now : Time} {json : Json}

theorem secretFor_known {kid : Option Json} {secret : String} (h : secretFor kind env kid = .ok secret) :
    KnownKey kind env secret := by
  unfold secretFor at h
  split at h
  · rename_i value _
    cases value with
    | str k =>
      obtain ⟨hk, hreq⟩ := getSecretForKid_ok.mp h
      refine ⟨some k, (requireEnv_ok.mp hreq).1, ?_⟩
      rintro _ ⟨⟩
      exact (mem_acceptedKids.mp hk).1
    | null | bool | num | arr | obj => cases h
  · exact ⟨none, (requireEnv_ok.mp h).1, fun _ => nofun⟩

namespace GrantIssue
variable (i : GrantIssue node)

theorem configured : i.env (secretName i.kind.baseName i.policy.kid) = some i.secret :=
  (requireEnv_ok.mp (grantSigningSecret_ok.mp i.signs.secret).2).1

theorem segments_token : tokenSegments kind i.token = .ok (i.text, node.hmacSha256 i.secret i.text) := by
  unfold token
  rw [(authorize_ok i.granted).1]
  exact segments_signGrant i.signs i.payload i.secret

theorem decode_text : decodePayload i.text = .ok i.json := decodePayload_json i.payload i.policy.kid

theorem watermark : (i.json.prop "watermarkRequired").isSome = (i.kind == .download) := by
  obtain ⟨_, _, _, _, _, _, _, _, _, hwatermark⟩ := payload_prop i.payload i.policy.kid
  rw [json, hwatermark, Option.isSome_map]
  exact (authorize_ok i.granted).2.2

/-- The grants of a kind sign different texts from those of the other one. -/
theorem kind_of_text {j : GrantIssue node} (h : i.text = j.text) : i.kind = j.kind := by
  have hjson : i.json = j.json := by
    have := i.decode_text
    rw [h, j.decode_text] at this
    exact (Except.ok.inj this).symm
  have hi := i.watermark
  rw [hjson, j.watermark] at hi
  revert hi
  cases i.kind <;> cases j.kind <;> simp

end GrantIssue

theorem issued_of_accepted (hforge : Unforged node env issues token) (hdistinct : DistinctSecrets env issues)
    (hok : verifyToken kind node env token actorId now = .ok json) :
    ∃ i ∈ issues, i.kind = kind ∧
    tokenSegments kind token = .ok (i.text, node.hmacSha256 i.secret i.text) ∧ json = i.json ∧
      i.request.actorId = actorId ∧ now < i.expiry ∧ KnownKey kind env i.secret := by
  obtain ⟨text, signature, secret, hsegments, hdecode, hsecret, hsig, hexpired, hactor⟩ := verifyToken_ok.mp hok
  have hknown := secretFor_known hsecret
  obtain ⟨kid, hkey, _⟩ := id hknown
  obtain ⟨i, hi, rfl, rfl⟩ := hforge kind text signature hsegments kind kid secret hkey hsig
  have hkind : i.kind = kind := (hdistinct i.env (List.mem_cons_of_mem _ (List.mem_map_of_mem hi)) env
    List.mem_cons_self i.kind kind i.policy.kid kid i.secret i.configured hkey).1
  obtain rfl : i.json = json := Except.ok.inj (i.decode_text.symm.trans hdecode)
  obtain ⟨_, hjsonActor, _, _, _, _, _, hjsonExpires, _⟩ := payload_prop i.payload i.policy.kid
  refine ⟨i, hi, hkind, hsig ▸ hsegments, rfl, ?_, ?_, hknown⟩
  · rw [GrantIssue.json, hjsonActor] at hactor
    have hissued : i.request.actorId = i.payload.actorId := rfl
    rw [hissued]
    simpa [Json.isStr] using hactor
  · have hexpires : i.payload.expiresAt = isoString i.expiry := (authorize_ok i.granted).2.1
    have htime : getTime node (some (.str (isoString i.expiry))) = some i.expiry := getTime_isoString i.clock
    rw [GrantIssue.json, hjsonExpires, hexpires, htime] at hexpired
    simpa using hexpired

/-- Whatever token is accepted, in whatever environment: a grant of that kind was issued with
exactly this payload, to this actor, it has not expired, and its key is a known one. No grant of
the other kind is that token. -/
theorem accepted_issued (hforge : Unforged node env issues token) (hdistinct : DistinctSecrets env issues)
    (hok : verifyToken kind node env token actorId now = .ok json) :
    (∃ i ∈ issues, i.kind = kind ∧ json = i.json ∧ readPayload json = some i.payload ∧ i.request.actorId = actorId ∧
      now < i.expiry ∧ KnownKey kind env i.secret) ∧ ∀ i ∈ issues, i.token = token → i.kind = kind := by
  obtain ⟨i, hi, hkind, hsegments, rfl, hactor, hnow, hknown⟩ := issued_of_accepted hforge hdistinct hok
  refine ⟨⟨i, hi, hkind, rfl, readPayload_json _ _, hactor, hnow, hknown⟩, ?_⟩
  rintro j _ rfl
  rw [j.segments_token] at hsegments
  exact (j.kind_of_text (Prod.mk.inj (Except.ok.inj hsegments)).1).trans hkind

end

/-! ## One download grant -/

theorem secretName_injective {kind kind' : GrantKind} {kid kid' : Option String}
    (h : secretName kind.baseName kid = secretName kind'.baseName kid') : kind = kind' ∧ kid = kid' := by
  have htext := congrArg String.toList h
  clear h
  cases kind <;> cases kind' <;> cases kid <;> cases kid' <;>
    simp [secretName, GrantKind.baseName, toString, String.toList_inj] at htext ⊢
  · exact htext
  · exact htext

/-- The environment has no kids, and one secret of each kind. -/
def legacyEnv : ProcessEnv := fun name =>
  if name = "DOWNLOAD_GRANT_SECRET" then some "download-1"
  else if name = "PREVIEW_GRANT_SECRET" then some "preview-1"
  else none

def issuedDownload : GrantIssue grantNode where
  kind := .download
  env := legacyEnv
  policy := { signingPolicy with kid := none }
  signs := ⟨by rfl, rfl, rfl⟩
  db := publicDb
  docId := "d-1"
  dto := {}
  request := publicRequest
  authorization := grant (signGrant { signingPolicy with kid := none } "download-1")
    (grantPayload publicRequest publishedDocument (sampleVersion "d-1") (some false))
  granted := by rfl
  clock := by decide

theorem legacyEnv_some {name secret : String} (h : legacyEnv name = some secret) :
    name = "DOWNLOAD_GRANT_SECRET" ∧ secret = "download-1" ∨ name = "PREVIEW_GRANT_SECRET" ∧
    secret = "preview-1" := by
  unfold legacyEnv at h
  split at h
  · rename_i hname
    exact .inl ⟨hname, (Option.some.inj h).symm⟩
  · split at h
    · rename_i hname
      exact .inr ⟨hname, (Option.some.inj h).symm⟩
    · cases h

theorem legacy_distinct : DistinctSecrets legacyEnv [issuedDownload] := by
  intro e he e' he' kind kind' kid kid' secret h h'
  obtain rfl : e = legacyEnv := by simpa [issuedDownload] using he
  obtain rfl : e' = legacyEnv := by simpa [issuedDownload] using he'
  apply secretName_injective
  rcases legacyEnv_some h with ⟨hname, rfl⟩ | ⟨hname, rfl⟩ <;>
    rcases legacyEnv_some h' with ⟨hname', hs⟩ | ⟨hname', hs⟩
  · rw [hname, hname']
  · exact absurd hs (by decide)
  · exact absurd hs (by decide)
  · rw [hname, hname']

theorem grantNode_injective {secret other text : String}
    (h : grantNode.hmacSha256 secret text = grantNode.hmacSha256 other text) : secret = other := by
  have hbuffer : bufferToBase64url s!"{secret}/{text}" = bufferToBase64url s!"{other}/{text}" := by
    simpa [grantNode] using h
  have hplain := congrArg bufferFromBase64url hbuffer
  simpa [toString] using hplain

theorem issued_unforged : Unforged grantNode legacyEnv [issuedDownload] issuedDownload.token := by
  intro kind text signature hsegments keyKind kid secret _ hsig
  rw [issuedDownload.segments_token] at hsegments
  obtain ⟨rfl, rfl⟩ := Prod.mk.inj (Except.ok.inj hsegments)
  exact ⟨issuedDownload, List.mem_singleton_self _, (grantNode_injective hsig).symm, rfl⟩

theorem issued_verifies : verifyToken .download grantNode legacyEnv issuedDownload.token "u-2" 0 =
    .ok issuedDownload.json := by
  have hexpires : issuedDownload.payload.expiresAt = isoString issuedDownload.expiry := rfl
  refine (verify_signed issuedDownload.signs).mpr ⟨rfl, ⟨"download-1", by rfl, rfl⟩, ?_, by rfl⟩
  have htime : getTime grantNode (some (.str (isoString issuedDownload.expiry))) = some issuedDownload.expiry :=
    getTime_isoString issuedDownload.clock
  rw [← hexpires] at htime
  exact htime ▸ (by decide)

theorem accepted_issued_sample : (∃ i ∈ [issuedDownload], i.kind = .download ∧ issuedDownload.json = i.json ∧
    readPayload issuedDownload.json = some i.payload ∧ i.request.actorId = "u-2" ∧ 0 < i.expiry ∧
      KnownKey .download legacyEnv i.secret) ∧
    ∀ i ∈ [issuedDownload], i.token = issuedDownload.token → i.kind = .download :=
  accepted_issued issued_unforged legacy_distinct issued_verifies

end DocVault
