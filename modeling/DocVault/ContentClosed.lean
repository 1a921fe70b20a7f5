import DocVault.ContentBinding

/-!
# Confidential content that goes out unmarked

A fresh grant of a confidential or secret document never leads to a URL, and
its content goes through `applyWatermark`, which returns whatever it cannot
mark as it is. A token that is presented may be older than the document's
classification.
-/

namespace DocVault

open PolicyService WatermarkService

namespace ContentWorld
variable (w : ContentWorld)

/-- The document of the grant, which is confidential or secret now. -/
def Protects (grantPayload : GrantPayload) (document : Document) : Prop :=
  document ∈ w.db.documents ∧ document.id = grantPayload.docId ∧
    CLASSIFICATION_WATERMARK_LEVELS document.classification = true

/-- The stored object, marked with the actor and the document's classification. -/
structure Rendition (actorId : String) (document : Document) (grantPayload : GrantPayload)
    (bytes : Bytes) : Prop where
  classification : grantPayload.classification = document.classification
  marked : ∃ stored, w.getObjectStream grantPayload.objectKey none = .ok stored ∧
    Watermarked w.pdf stored (w.watermarkContext actorId grantPayload) bytes

def Sealed (actorId : String) (document : Document) (granted : Granted ContentResponse) : Prop :=
  match granted.response with
  | .presigned response => response.url = none
  | .stream response => w.Rendition actorId document granted.grant response.stream
  | .preview response => w.Rendition actorId document granted.grant response.body

/-- Of a confidential or secret document, the request gets no URL and nothing but marked content. -/
def FailsClosed (caller : PolicyRequest) (asked : ContentRequest) : Prop :=
  ∀ granted, w.serve caller asked = .ok granted →
    ∀ document, w.Protects granted.grant document → w.Sealed caller.actorId document granted

/-! ## When everything is marked -/

/-- The object, if it is stored, can be marked. -/
def Marks (actorId : String) (grantPayload : GrantPayload) : Prop :=
  ∀ stored, w.getObjectStream grantPayload.objectKey none = .ok stored →
    Markable w.pdf stored (w.watermarkContext actorId grantPayload) grantPayload.contentType

def FreshMarks (kind : GrantKind) (docId : String) (version : Option Int) (caller : PolicyRequest) : Prop :=
  ∀ received authorization, w.received docId = some received →
    kind.authorize w.policy w.db received ⟨version⟩ caller = .ok authorization →
    w.verified kind authorization.grantToken caller.actorId = .ok (authorization.payload caller.actorId) →
    CLASSIFICATION_WATERMARK_LEVELS authorization.classification = true →
    w.Marks caller.actorId (authorization.payload caller.actorId)

def LeavesMarked (caller : PolicyRequest) : ContentRequest → Prop
  | .presignDownload _ dto => ∀ grantToken ∈ dto.presented, ∀ grantPayload document,
    w.verified .download grantToken caller.actorId = .ok grantPayload → w.Protects grantPayload document →
      ¬w.Presigns grantPayload
  | .getStreamWithToken docId version grantToken => ∀ grantPayload document,
    w.verified .download grantToken caller.actorId = .ok grantPayload → grantPayload.docId = docId →
      grantPayload.version = version → w.Protects grantPayload document → w.Stored none grantPayload →
      grantPayload.watermarkRequired = some true ∧ grantPayload.classification = document.classification ∧
        w.Marks caller.actorId grantPayload
  | .getStream docId version => w.FreshMarks .download docId (some version) { caller with shareToken := none }
  | .preview docId version _ shareToken =>
    w.FreshMarks .preview docId version { caller with shareToken := shareToken.filter (· ≠ "") }

end ContentWorld

namespace ContentWorld
variable {w : ContentWorld} {kind : GrantKind} {docId grantToken actorId : String} {version : Option Int}
  {caller : PolicyRequest} {grantPayload : GrantPayload} {authorization : Authorization} {dto : PresignDownloadDto}
  {document : Document} {stored : Bytes}

theorem mem_watermark_classifications {level : ClassificationLevel} :
    level ∈ WATERMARK_CLASSIFICATIONS ↔ CLASSIFICATION_WATERMARK_LEVELS level = true := by
  cases level <;> decide

theorem rendition_iff (hs : w.getObjectStream grantPayload.objectKey none = .ok stored) :
    w.Rendition actorId document grantPayload (w.applyWatermark actorId grantPayload stored) ↔
      grantPayload.classification = document.classification ∧
        Markable w.pdf stored (w.watermarkContext actorId grantPayload) grantPayload.contentType := by
  constructor
  · rintro ⟨hclass, stored', hs', hmarked⟩
    obtain rfl := Except.ok.inj (hs'.symm.trans hs)
    exact ⟨hclass, watermarked_iff.mp hmarked⟩
  · rintro ⟨hclass, hmarkable⟩
    exact ⟨hclass, stored, hs, watermarked_iff.mpr hmarkable⟩

theorem not_rendition (hs : w.getObjectStream grantPayload.objectKey none = .ok stored) :
    ¬w.Rendition actorId document grantPayload stored := by
  rintro ⟨_, stored', hs', hmarked⟩
  obtain rfl := Except.ok.inj (hs'.symm.trans hs)
  exact hmarked.fresh rfl

/-- What a stream returns is marked when the grant asks for it, with the document's classification, and the
object can be marked. -/
theorem streamed_rendition (hs : w.getObjectStream grantPayload.objectKey none = .ok stored) :
    w.Rendition actorId document grantPayload
      (if grantPayload.watermarkRequired = some true then w.applyWatermark actorId grantPayload stored
        else stored) ↔
      grantPayload.watermarkRequired = some true ∧ grantPayload.classification = document.classification ∧
        Markable w.pdf stored (w.watermarkContext actorId grantPayload) grantPayload.contentType := by
  split
  · rename_i hwatermark
    rw [rendition_iff hs, and_iff_right hwatermark]
  · rename_i hwatermark
    exact iff_of_false (not_rendition hs) fun h => hwatermark h.1

theorem marks_iff (hs : w.getObjectStream grantPayload.objectKey none = .ok stored) :
    w.Marks actorId grantPayload ↔
      Markable w.pdf stored (w.watermarkContext actorId grantPayload) grantPayload.contentType := by
  constructor
  · exact fun h => h stored hs
  · intro h stored' hs'
    obtain rfl := Except.ok.inj (hs'.symm.trans hs)
    exact h

/-- A fresh grant has the classification that the document has. -/
theorem fresh_classification {received : String} {dto : GrantDto}
    (ha : kind.authorize w.policy w.db received dto caller = .ok authorization)
    (hp : w.Protects (authorization.payload actorId) document) :
    (authorization.payload actorId).classification = document.classification := by
  obtain ⟨d, hd, hid, hdoc, _, hclass, _⟩ := authorize_granted ha
  obtain ⟨hmem, hsame, _⟩ := hp
  have hrow : d = document := w.db.eq_of_id hd hmem (hid.trans (hdoc.symm.trans hsame.symm))
  exact hrow ▸ hclass

theorem fresh_protects {received : String} {dto : GrantDto}
    (ha : kind.authorize w.policy w.db received dto caller = .ok authorization)
    (hlevel : CLASSIFICATION_WATERMARK_LEVELS authorization.classification = true) :
    ∃ document, w.Protects (authorization.payload actorId) document := by
  obtain ⟨d, hd, hid, hdoc, _, hclass, _⟩ := authorize_granted ha
  exact ⟨d, hd, hid.trans hdoc.symm, hclass ▸ hlevel⟩

theorem fresh_watermark {received : String} {dto : GrantDto}
    (ha : GrantKind.download.authorize w.policy w.db received dto caller = .ok authorization) :
    authorization.watermarkRequired = some (CLASSIFICATION_WATERMARK_LEVELS authorization.classification) := by
  obtain ⟨_, _, _, _, _, hclass, hrequired⟩ := authorize_granted ha
  obtain ⟨required, h⟩ := Option.isSome_iff_exists.mp (authorize_ok ha).2.2
  rw [h, hrequired required h, hclass]

/-! ## The endpoints -/

theorem presign_closed_iff : w.FailsClosed caller (.presignDownload docId dto) ↔
    w.LeavesMarked caller (.presignDownload docId dto) := by
  simp only [LeavesMarked]
  constructor
  · rintro h token htoken grantPayload document hv hp ⟨hwatermark, url, hsigned⟩
    obtain ⟨hserve, _⟩ := presigned_serves.mpr
      ⟨grantPayload, expiresInSeconds, url, (presignGrant_token htoken).mpr ⟨hv, rfl⟩, hwatermark, hsigned, rfl⟩
    cases h _ hserve document hp
  · intro h granted hserve document hp
    obtain ⟨g, hg, rfl⟩ := map_ok.mp hserve
    change g.response.url = none
    by_contra hne
    obtain ⟨url, hurl⟩ := Option.ne_none_iff_exists'.mp hne
    obtain ⟨grantPayload, seconds, hgrant, hwatermark, hsigned, rfl⟩ := presignDownload_ok.mp ⟨hg, hurl⟩
    cases htoken : dto.presented with
    | some token =>
      obtain ⟨hv, rfl⟩ := (presignGrant_token htoken).mp hgrant
      exact h token htoken grantPayload document hv hp ⟨hwatermark, url, hsigned⟩
    | none =>
      obtain ⟨a, ha, hv, _⟩ := (presignGrant_fresh htoken).mp hgrant
      obtain rfl := verified_fresh ha hv
      obtain ⟨received, _, hauth⟩ := authorize_received.mp ha
      apply hwatermark
      have hclass : a.classification = document.classification := fresh_classification hauth hp
      exact (fresh_watermark hauth).trans (by rw [hclass, hp.2.2])

theorem token_closed_iff {version : Int} : w.FailsClosed caller (.getStreamWithToken docId version grantToken) ↔
    w.LeavesMarked caller (.getStreamWithToken docId version grantToken) := by
  simp only [LeavesMarked]
  constructor
  · rintro h grantPayload document hv hdoc hversion hp ⟨stored, hs⟩
    have hserve := getStreamWithToken_ok.mpr ⟨grantPayload, hv, hdoc, hversion,
      streamGranted_ok.mpr ⟨stored, hs, rfl⟩⟩
    rw [marks_iff hs]
    exact (streamed_rendition hs).mp (h _ (map_ok.mpr ⟨_, hserve, rfl⟩) document hp)
  · intro h granted hserve document hp
    obtain ⟨g, hg, rfl⟩ := map_ok.mp hserve
    obtain ⟨grantPayload, hv, hdoc, hversion, hstream⟩ := getStreamWithToken_ok.mp hg
    obtain ⟨stored, hs, rfl⟩ := streamGranted_ok.mp hstream
    have hmarked := h grantPayload document hv hdoc hversion hp ⟨stored, hs⟩
    rw [marks_iff hs] at hmarked
    exact (streamed_rendition hs).mpr hmarked

theorem stream_closed_iff {version : Int} : w.FailsClosed caller (.getStream docId version) ↔
    w.LeavesMarked caller (.getStream docId version) := by
  simp only [LeavesMarked]
  constructor
  · intro h received a hreceived hauth hv hlevel stored hs
    have ha := authorize_received.mpr ⟨received, hreceived, hauth⟩
    obtain ⟨_, _, _, _, _, hversion⟩ := fresh_names ha hv
    have hserve := getStream_ok.mpr ⟨a, ha, _, hv, hversion version rfl, streamGranted_ok.mpr ⟨stored, hs, rfl⟩⟩
    obtain ⟨document, hp⟩ := fresh_protects hauth hlevel
    exact ((streamed_rendition hs).mp (h _ (map_ok.mpr ⟨_, hserve, rfl⟩) document hp)).2.2
  · intro h granted hserve document hp
    obtain ⟨g, hg, rfl⟩ := map_ok.mp hserve
    obtain ⟨a, ha, grantPayload, hv, _, hstream⟩ := getStream_ok.mp hg
    obtain ⟨stored, hs, rfl⟩ := streamGranted_ok.mp hstream
    obtain ⟨received, hreceived, hauth, rfl, _⟩ := fresh_names ha hv
    have hclass : a.classification = document.classification := fresh_classification hauth hp
    have hlevel : CLASSIFICATION_WATERMARK_LEVELS a.classification = true := by rw [hclass, hp.2.2]
    refine (streamed_rendition hs).mpr ⟨?_, hclass, h received a hreceived hauth hv hlevel stored hs⟩
    exact (fresh_watermark hauth).trans (by rw [hlevel])

theorem preview_closed_iff {range : Option (Nat × Nat)} {shareToken : Option String} :
    w.FailsClosed caller (.preview docId version range shareToken) ↔
      w.LeavesMarked caller (.preview docId version range shareToken) := by
  simp only [LeavesMarked]
  constructor
  · intro h received a hreceived hauth hv hlevel stored hs
    have ha := authorize_received.mpr ⟨received, hreceived, hauth⟩
    obtain ⟨_, _, _, _, _, hversion⟩ := fresh_names ha hv
    have hserve : w.preview docId version range shareToken caller = .ok _ := preview_ok.mpr ⟨a, ha, _, hv, hversion,
      (previewGranted_marked (mem_watermark_classifications.mpr hlevel)).mpr ⟨stored, hs, rfl⟩⟩
    obtain ⟨document, hp⟩ := fresh_protects hauth hlevel
    exact ((rendition_iff hs).mp (h _ (map_ok.mpr ⟨_, hserve, rfl⟩) document hp)).2
  · intro h granted hserve document hp
    obtain ⟨g, hg, rfl⟩ := map_ok.mp hserve
    obtain ⟨a, ha, grantPayload, hv, _, hpreview⟩ := preview_ok.mp hg
    obtain ⟨received, hreceived, hauth, rfl, _⟩ := fresh_names ha hv
    obtain ⟨hgrant, _⟩ := previewed_serves hpreview
    have hp : w.Protects (a.payload caller.actorId) document := hgrant ▸ hp
    have hclass : a.classification = document.classification := fresh_classification hauth hp
    have hlevel : CLASSIFICATION_WATERMARK_LEVELS a.classification = true := by rw [hclass, hp.2.2]
    obtain ⟨stored, hs, rfl⟩ := (previewGranted_marked (mem_watermark_classifications.mpr hlevel)).mp hpreview
    exact (rendition_iff hs).mpr ⟨hclass, h received a hreceived hauth hv hlevel stored hs⟩

/-- Confidential content never leaves unmarked exactly when a presented token is as strict as the document is
now, and what is stored can be marked. -/
theorem closed_iff (w : ContentWorld) (caller : PolicyRequest) (asked : ContentRequest) :
    w.FailsClosed caller asked ↔ w.LeavesMarked caller asked := by
  cases asked with
  | presignDownload docId dto => exact presign_closed_iff
  | getStreamWithToken docId version grantToken => exact token_closed_iff
  | getStream docId version => exact stream_closed_iff
  | preview docId version range shareToken => exact preview_closed_iff

end ContentWorld

/-! ## A secret text file -/

def secretDb : PolicyDb where
  documents := [{ publishedDocument with classification := .SECRET }]
  versions := [{ sampleVersion "d-1" with contentType := some "text/plain" }]
  aclEntries := []
  shareLinks := []
  unique := by decide

def secretOwner : PolicyRequest where
  user := ⟨some "u-1", none, ["approver"]⟩
  organizationId := some "o-1"
  now := 0

def secretGrant : Authorization :=
  grant (createGrantToken signingPolicy)
    (grantPayload secretOwner { publishedDocument with classification := .SECRET }
    { sampleVersion "d-1" with contentType := some "text/plain" } (some true))

theorem secret_text_unmarked : ¬(contentWorld secretDb).FailsClosed secretOwner (.getStream "d-1" 1) := by
  intro h
  have ha : GrantKind.download.authorize signingPolicy secretDb "d-1" ⟨some 1⟩ secretOwner = .ok secretGrant := rfl
  have hmarks : (contentWorld secretDb).Marks secretOwner.actorId (secretGrant.payload secretOwner.actorId) :=
    ContentWorld.stream_closed_iff.mp h "d-1" secretGrant rfl ha (contentWorld_verified ha rfl) rfl
  have hstored : (contentWorld secretDb).getObjectStream "doc/d-1/v1/plan.pdf" none = .ok [0x25,
    0x50, 0x44, 0x46] := rfl
  have htype : isPdfType (some "text/plain") = true := (hmarks _ hstored).type
  exact absurd htype (by decide)

end DocVault
