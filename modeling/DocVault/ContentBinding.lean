import DocVault.Content

/-!
# Content is what was asked for

The stream of a token compares its grant with the request. A presigned
download does not look at the document and the version of a token that it is
given, and nobody compares the document of a fresh grant, which is the
requested one where `metadata-service` reads the requested id from the path.
-/

namespace DocVault

open PolicyService

namespace ContentWorld
variable (w : ContentWorld)

/-- A verifier has accepted the grant, and what is returned is the object under its key,
marked or not, or a URL of it. -/
def FromKey (actorId : String) (granted : Granted ContentResponse) : Prop :=
  (∃ kind grantToken, w.verified kind grantToken actorId = .ok granted.grant) ∧
    match granted.response with
    | .presigned response =>
        ∃ seconds, response.url = w.signedUrl granted.grant.objectKey granted.grant.filename seconds
    | .stream response => ∃ body, w.getObjectStream granted.grant.objectKey none = .ok body ∧
      (response.stream = body ∨ response.stream = w.applyWatermark actorId granted.grant body)
    | .preview response => ∃ range body, w.getObjectStream granted.grant.objectKey range = .ok body ∧
      (response.body = body ∨ response.body = w.applyWatermark actorId granted.grant body)

/-- The grant is of the requested document and, if the request names one, of the requested version. -/
def Names (asked : ContentRequest) (grantPayload : GrantPayload) : Prop :=
  grantPayload.docId = asked.docId ∧ ∀ version ∈ asked.version, grantPayload.version = version

def BoundToRequest (caller : PolicyRequest) (asked : ContentRequest) : Prop :=
  ∀ granted, w.serve caller asked = .ok granted → granted.response.delivers = true →
    w.FromKey caller.actorId granted ∧ Names asked granted.grant

/-! ## When there is something to return -/

def Presigns (grantPayload : GrantPayload) : Prop :=
  grantPayload.watermarkRequired ≠ some true ∧
    ∃ url, w.signedUrl grantPayload.objectKey grantPayload.filename expiresInSeconds = some url

def Stored (range : Option (Nat × Nat)) (grantPayload : GrantPayload) : Prop :=
  ∃ body, w.getObjectStream grantPayload.objectKey range = .ok body

def Previewed (range : Option (Nat × Nat)) (grantPayload : GrantPayload) : Prop :=
  if grantPayload.classification ∈ WATERMARK_CLASSIFICATIONS then w.Stored none grantPayload
    else w.Stored range grantPayload

/-! ## When it is what was asked for -/

/-- `metadata-service` reads the requested id from the path, or its grant is refused or leads to nothing. -/
def ReadAsAsked (kind : GrantKind) (docId : String) (version : Option Int) (caller : PolicyRequest)
    (available : GrantPayload → Prop) : Prop :=
  ∀ received authorization, w.received docId = some received →
    kind.authorize w.policy w.db received ⟨version⟩ caller = .ok authorization →
    w.verified kind authorization.grantToken caller.actorId = .ok (authorization.payload caller.actorId) →
    available (authorization.payload caller.actorId) → received = docId

def AskedRight (caller : PolicyRequest) : ContentRequest → Prop
  | .presignDownload docId dto =>
    match dto.presented with
    | some grantToken => ∀ grantPayload, w.verified .download grantToken caller.actorId = .ok grantPayload →
      w.Presigns grantPayload → Names (.presignDownload docId dto) grantPayload
    | none => w.ReadAsAsked .download docId dto.version { caller with shareToken := none } w.Presigns
  | .getStreamWithToken _ _ _ => True
  | .getStream docId version =>
      w.ReadAsAsked .download docId (some version) { caller with shareToken := none } (w.Stored none)
  | .preview docId version range shareToken =>
    w.ReadAsAsked .preview docId version { caller with shareToken := shareToken.filter (· ≠ "") }
      (w.Previewed range)

end ContentWorld

namespace ContentWorld
variable {w : ContentWorld} {kind : GrantKind} {docId grantToken : String} {version : Option Int}
  {caller : PolicyRequest}
  {grantPayload : GrantPayload} {authorization : Authorization} {dto : PresignDownloadDto} {seconds : Int}

theorem map_ok {ε α β : Type} {x : Except ε α} {f : α → β} {b : β} : x.map f = .ok b ↔
    ∃ a, x = .ok a ∧ f a = b := by
  cases x <;> simp [Except.map]

theorem presignGrant_token (h : dto.presented = some grantToken) :
    w.presignGrant docId dto caller = .ok (grantPayload, seconds) ↔
      w.verified .download grantToken caller.actorId = .ok grantPayload ∧ seconds = expiresInSeconds := by
  unfold presignGrant
  rw [h]
  simp only [bind_ok, Except.ok.injEq, Prod.mk.injEq]
  constructor
  · rintro ⟨_, hv, rfl, rfl⟩
    exact ⟨hv, rfl⟩
  · rintro ⟨hv, rfl⟩
    exact ⟨_, hv, rfl, rfl⟩

theorem presignGrant_fresh (h : dto.presented = none) :
    w.presignGrant docId dto caller = .ok (grantPayload, seconds) ↔
      ∃ authorization, w.authorizeDownload docId dto.version caller = .ok authorization ∧
        w.verified .download authorization.grantToken caller.actorId = .ok grantPayload ∧
        seconds = authorization.expiresInSeconds := by
  unfold presignGrant
  rw [h]
  simp only [bind_ok, Except.ok.injEq, Prod.mk.injEq]
  constructor
  · rintro ⟨a, ha, _, hv, rfl, rfl⟩
    exact ⟨a, ha, hv, rfl⟩
  · rintro ⟨a, ha, hv, rfl⟩
    exact ⟨a, ha, _, hv, rfl, rfl⟩

/-- A fresh grant is of the document that `metadata-service` has read and of the requested version. -/
theorem fresh_names (h : w.authorize kind docId ⟨version⟩ caller = .ok authorization)
    (hv : w.verified kind authorization.grantToken caller.actorId = .ok grantPayload) :
    ∃ received, w.received docId = some received ∧
      kind.authorize w.policy w.db received ⟨version⟩ caller = .ok authorization ∧
      grantPayload = authorization.payload caller.actorId ∧ grantPayload.docId = received ∧
      ∀ v ∈ version, grantPayload.version = v := by
  obtain ⟨received, hreceived, ha⟩ := authorize_received.mp h
  obtain rfl := verified_fresh h hv
  obtain ⟨_, _, _, hdoc, hversion, _⟩ := authorize_granted ha
  exact ⟨received, hreceived, ha, rfl, hdoc, hversion⟩

/-- The fresh grants that lead to something are of the requested document exactly when its id is read as asked. -/
theorem readAsAsked_iff {available : GrantPayload → Prop} :
    (∀ authorization grantPayload, w.authorize kind docId ⟨version⟩ caller = .ok authorization →
      w.verified kind authorization.grantToken caller.actorId = .ok grantPayload → available grantPayload →
        grantPayload.docId = docId ∧ ∀ v ∈ version, grantPayload.version = v) ↔
      w.ReadAsAsked kind docId version caller available := by
  constructor
  · intro h received authorization hreceived ha hv havailable
    have hauth := authorize_received.mpr ⟨received, hreceived, ha⟩
    obtain ⟨_, _, _, hdoc, _⟩ := authorize_granted ha
    exact hdoc.symm.trans (h _ _ hauth hv havailable).1
  · intro h authorization grantPayload ha hv havailable
    obtain ⟨received, hreceived, hauth, rfl, hdoc, hversion⟩ := fresh_names ha hv
    exact ⟨hdoc.trans (h _ _ hreceived hauth hv havailable), hversion⟩

theorem authorize_seconds {policy : PolicyEnv} {db : PolicyDb} {request : PolicyRequest} {body : GrantDto}
    (h : kind.authorize policy db docId body request = .ok authorization) :
    authorization.expiresInSeconds = expiresInSeconds := by
  cases kind with
  | download =>
    obtain ⟨_, _, _, _, _, _, _, _, rfl⟩ := authorizeDownload_ok.mp h
    rfl
  | preview =>
    obtain ⟨_, _, _, _, _, _, _, rfl⟩ := authorizePreview_ok.mp h
    rfl

/-! ## The endpoints -/

theorem presigned_serves {g : Granted ContentResponse} :
    (w.serve caller (.presignDownload docId dto) = .ok g ∧ g.response.delivers = true) ↔
      ∃ grantPayload seconds url, w.presignGrant docId dto caller = .ok (grantPayload, seconds) ∧
        grantPayload.watermarkRequired ≠ some true ∧
        w.signedUrl grantPayload.objectKey grantPayload.filename seconds = some url ∧
        g = ⟨grantPayload, .presigned (w.presigned docId grantPayload seconds (some url))⟩ := by
  simp only [serve, map_ok]
  constructor
  · rintro ⟨⟨granted, h, rfl⟩, hdelivers⟩
    obtain ⟨url, hurl⟩ := Option.isSome_iff_exists.mp hdelivers
    obtain ⟨grantPayload, seconds, hgrant, hwatermark, hsigned, rfl⟩ := presignDownload_ok.mp ⟨h, hurl⟩
    exact ⟨grantPayload, seconds, url, hgrant, hwatermark, hsigned, rfl⟩
  · rintro ⟨grantPayload, seconds, url, hgrant, hwatermark, hsigned, rfl⟩
    obtain ⟨h, _⟩ := presignDownload_ok.mpr ⟨grantPayload, seconds, hgrant, hwatermark, hsigned, rfl⟩
    exact ⟨⟨_, h, rfl⟩, rfl⟩

theorem streamed_serves {actorId : String} {s : Granted ContentStream}
    (h : w.streamGranted actorId grantPayload = .ok s) : s.grant = grantPayload ∧ w.Stored none grantPayload ∧
      ((∃ kind token, w.verified kind token actorId = .ok grantPayload) → w.FromKey actorId (s.map .stream)) := by
  obtain ⟨body, hbody, rfl⟩ := streamGranted_ok.mp h
  refine ⟨rfl, ⟨body, hbody⟩, fun hverified => ⟨hverified, body, hbody, ?_⟩⟩
  simp only [Granted.map]
  split
  · exact .inr rfl
  · exact .inl rfl

theorem stream_of_stored {actorId : String} (h : w.Stored none grantPayload) :
    ∃ s, w.streamGranted actorId grantPayload = .ok s ∧ s.grant = grantPayload := by
  obtain ⟨body, hbody⟩ := h
  exact ⟨_, streamGranted_ok.mpr ⟨body, hbody, rfl⟩, rfl⟩

theorem previewed_serves {actorId : String} {range : Option (Nat × Nat)} {s : Granted ContentPreview}
    (h : w.previewGranted actorId range grantPayload = .ok s) :
    s.grant = grantPayload ∧ w.Previewed range grantPayload ∧
      ((∃ kind token, w.verified kind token actorId = .ok grantPayload) → w.FromKey actorId (s.map .preview)) := by
  unfold Previewed
  by_cases hlevel : grantPayload.classification ∈ WATERMARK_CLASSIFICATIONS
  · obtain ⟨body, hbody, rfl⟩ := (previewGranted_marked hlevel).mp h
    rw [if_pos hlevel]
    exact ⟨rfl, ⟨body, hbody⟩, fun hverified => ⟨hverified, none, body, hbody, .inr rfl⟩⟩
  · obtain ⟨body, hbody, rfl⟩ := (previewGranted_plain hlevel).mp h
    rw [if_neg hlevel]
    exact ⟨rfl, ⟨body, hbody⟩, fun hverified => ⟨hverified, range, body, hbody, .inl rfl⟩⟩

theorem preview_of_previewed {actorId : String} {range : Option (Nat × Nat)} (h : w.Previewed range grantPayload) :
    ∃ s, w.previewGranted actorId range grantPayload = .ok s ∧ s.grant = grantPayload := by
  unfold Previewed at h
  by_cases hlevel : grantPayload.classification ∈ WATERMARK_CLASSIFICATIONS
  · rw [if_pos hlevel] at h
    obtain ⟨body, hbody⟩ := h
    exact ⟨_, (previewGranted_marked hlevel).mpr ⟨body, hbody, rfl⟩, rfl⟩
  · rw [if_neg hlevel] at h
    obtain ⟨body, hbody⟩ := h
    exact ⟨_, (previewGranted_plain hlevel).mpr ⟨body, hbody, rfl⟩, rfl⟩

theorem presign_bound : w.BoundToRequest caller (.presignDownload docId dto) ↔
    ∀ grantPayload seconds url, w.presignGrant docId dto caller = .ok (grantPayload, seconds) →
      grantPayload.watermarkRequired ≠ some true →
      w.signedUrl grantPayload.objectKey grantPayload.filename seconds = some url →
        Names (.presignDownload docId dto) grantPayload := by
  constructor
  · intro h grantPayload seconds url hgrant hwatermark hsigned
    obtain ⟨hserve, hdelivers⟩ :=
      presigned_serves.mpr ⟨grantPayload, seconds, url, hgrant, hwatermark, hsigned, rfl⟩
    exact (h _ hserve hdelivers).2
  · intro h g hserve hdelivers
    obtain ⟨grantPayload, seconds, url, hgrant, hwatermark, hsigned, rfl⟩ := presigned_serves.mp ⟨hserve, hdelivers⟩
    refine ⟨⟨?_, seconds, hsigned.symm⟩, h _ _ _ hgrant hwatermark hsigned⟩
    cases htoken : dto.presented with
    | some token => exact ⟨.download, token, ((presignGrant_token htoken).mp hgrant).1⟩
    | none =>
      obtain ⟨a, _, hv, _⟩ := (presignGrant_fresh htoken).mp hgrant
      exact ⟨.download, a.grantToken, hv⟩

theorem presign_bound_iff : w.BoundToRequest caller (.presignDownload docId dto) ↔
    w.AskedRight caller (.presignDownload docId dto) := by
  rw [presign_bound]
  unfold AskedRight
  cases htoken : dto.presented with
  | some token =>
    simp only [htoken, presignGrant_token htoken]
    constructor
    · rintro h grantPayload hv ⟨hwatermark, url, hsigned⟩
      exact h _ _ url ⟨hv, rfl⟩ hwatermark hsigned
    · rintro h grantPayload _ url ⟨hv, rfl⟩ hwatermark hsigned
      exact h grantPayload hv ⟨hwatermark, url, hsigned⟩
  | none =>
    simp only [htoken, presignGrant_fresh htoken]
    rw [← readAsAsked_iff]
    constructor
    · rintro h a grantPayload ha hv ⟨hwatermark, url, hsigned⟩
      obtain ⟨_, _, hauth⟩ := authorize_received.mp ha
      exact h grantPayload _ url ⟨a, ha, hv, rfl⟩ hwatermark (by rw [authorize_seconds hauth]; exact hsigned)
    · rintro h grantPayload _ url ⟨a, ha, hv, rfl⟩ hwatermark hsigned
      obtain ⟨_, _, hauth⟩ := authorize_received.mp ha
      rw [authorize_seconds hauth] at hsigned
      exact h a grantPayload ha hv ⟨hwatermark, url, hsigned⟩

theorem token_bound {version : Int} : w.BoundToRequest caller (.getStreamWithToken docId version grantToken) := by
  intro g hserve _
  simp only [serve, map_ok] at hserve
  obtain ⟨s, hs, rfl⟩ := hserve
  obtain ⟨grantPayload, hv, hdoc, hversion, hstream⟩ := getStreamWithToken_ok.mp hs
  obtain ⟨hgrant, _, hkey⟩ := streamed_serves hstream
  refine ⟨hkey ⟨.download, grantToken, hv⟩, ?_, ?_⟩
  · exact (congrArg GrantPayload.docId hgrant).trans hdoc
  · rintro _ ⟨⟩
    exact (congrArg GrantPayload.version hgrant).trans hversion

theorem stream_bound_iff {version : Int} : w.BoundToRequest caller (.getStream docId version) ↔
    w.AskedRight caller (.getStream docId version) := by
  simp only [AskedRight]
  rw [← readAsAsked_iff]
  constructor
  · intro h a grantPayload ha hv hstored
    obtain ⟨_, _, _, _, _, hversion⟩ := fresh_names ha hv
    obtain ⟨s, hs, rfl⟩ := stream_of_stored hstored
    have hserve := getStream_ok.mpr ⟨a, ha, _, hv, hversion version rfl, hs⟩
    exact (h (s.map .stream) (map_ok.mpr ⟨s, hserve, rfl⟩) rfl).2
  · intro h g hserve _
    obtain ⟨s, hs, rfl⟩ := map_ok.mp hserve
    obtain ⟨a, ha, grantPayload, hv, _, hstream⟩ := getStream_ok.mp hs
    obtain ⟨rfl, hstored, hkey⟩ := streamed_serves hstream
    exact ⟨hkey ⟨.download, a.grantToken, hv⟩, h a _ ha hv hstored⟩

theorem preview_bound_iff {range : Option (Nat × Nat)} {shareToken : Option String} :
    w.BoundToRequest caller (.preview docId version range shareToken) ↔
      w.AskedRight caller (.preview docId version range shareToken) := by
  simp only [AskedRight]
  rw [← readAsAsked_iff]
  constructor
  · intro h a grantPayload ha hv hpreviewed
    obtain ⟨_, _, _, _, _, hversion⟩ := fresh_names ha hv
    obtain ⟨s, hs, rfl⟩ := preview_of_previewed hpreviewed
    have hserve := preview_ok.mpr ⟨a, ha, _, hv, hversion, hs⟩
    exact (h (s.map .preview) (map_ok.mpr ⟨s, hserve, rfl⟩) rfl).2
  · intro h g hserve _
    obtain ⟨s, hs, rfl⟩ := map_ok.mp hserve
    obtain ⟨a, ha, grantPayload, hv, _, hpreview⟩ := preview_ok.mp hs
    obtain ⟨rfl, hpreviewed, hkey⟩ := previewed_serves hpreview
    exact ⟨hkey ⟨.preview, a.grantToken, hv⟩, h a _ ha hv hpreviewed⟩

/-- What is returned is what was asked for exactly when a presented token is, and when `metadata-service` reads the
requested id. -/
theorem bound_iff (w : ContentWorld) (caller : PolicyRequest) (asked : ContentRequest) :
    w.BoundToRequest caller asked ↔ w.AskedRight caller asked := by
  cases asked with
  | presignDownload docId dto => exact presign_bound_iff
  | getStreamWithToken docId version grantToken => exact iff_of_true token_bound trivial
  | getStream docId version => exact stream_bound_iff
  | preview docId version range shareToken => exact preview_bound_iff

end ContentWorld

/-! ## A token of another document -/

def publicGrant : Authorization :=
  grant (createGrantToken signingPolicy)
    (grantPayload publicRequest publishedDocument (sampleVersion "d-1") (some false))

theorem signGrant_ne_empty (policy : PolicyEnv) (secret : String) (payload : GrantPayload) :
    signGrant policy secret payload ≠ "" := by
  intro h
  have := congrArg String.toList h
  simp [signGrant, toString] at this

theorem other_document_presigned :
    authorizeDownload signingPolicy publicDb "d-1" {} publicRequest = .ok publicGrant ∧
    ¬(contentWorld publicDb).BoundToRequest publicRequest
      (.presignDownload "d-2" { grantToken := some publicGrant.grantToken }) := by
  have hissued : authorizeDownload signingPolicy publicDb "d-1" {} publicRequest = .ok publicGrant := rfl
  refine ⟨hissued, fun h => ?_⟩
  have hverified : (contentWorld publicDb).verified .download publicGrant.grantToken publicRequest.actorId =
      .ok (publicGrant.payload publicRequest.actorId) := contentWorld_verified hissued rfl
  have hpresented : PresignDownloadDto.presented { grantToken := some publicGrant.grantToken } =
      some publicGrant.grantToken := by
    have hne : publicGrant.grantToken ≠ "" := signGrant_ne_empty _ _ _
    simp [PresignDownloadDto.presented, hne]
  have hnames := ContentWorld.presign_bound.mp h _ _ "doc/d-1/v1/plan.pdf"
    ((ContentWorld.presignGrant_token hpresented).mpr ⟨hverified, rfl⟩) (by decide) rfl
  exact absurd hnames.1 (by decide)

end DocVault
