import DocVault.ClientAgreement
import DocVault.JsonParse

/-!
# Share links in the web client

The client keeps the token of a redeemed share link in the session storage and
lets the link's permission override its own decision where it reads in the
reason that the link may. What the storage gives back after any use of it, and
when the client then shows what the service allows with that token.
-/

namespace DocVault

/-! ## The store of tokens -/

namespace ShareTokenStore

/-- `sessionStorage`, or nothing where the browser has none. -/
abbrev Storage := Option (String → Option String)

def STORAGE_PREFIX : String := "dv-share-token:"

structure StoredShareGrant where
  token : String
  permission : Option DocumentSharePermission := none
  deriving DecidableEq

def permissionText : DocumentSharePermission → String
  | .VIEW => "VIEW"
  | .DOWNLOAD => "DOWNLOAD"

-- `isSharePermission`, with what it lets through.
def sharePermission (value : Option Json) : Option DocumentSharePermission :=
  match value with
  | some (.str text) => if text = "VIEW" then some .VIEW else if text = "DOWNLOAD" then some .DOWNLOAD else none
  | _ => none

/-- A text that is no JSON is a token itself, and so is `null`, which has no property to read. -/
def parseStoredGrant (value : Option String) : Option StoredShareGrant :=
  match value.filter (· ≠ "") with
  | none => none
  | some value =>
    match Json.parse value with
    | none => some { token := value }
    | some .null => some { token := value }
    | some parsed =>
      match parsed.prop "token" with
      | some (.str token) =>
        if token = "" then none
          else some { token := token, permission := sharePermission (parsed.prop "permission") }
      | _ => none

def grantJson (grant : StoredShareGrant) : Json :=
  .obj (("token", .str grant.token) ::
    (grant.permission.map fun permission => ("permission", .str (permissionText permission))).toList)

/-- The calls; one that is not `kept` has thrown in the storage. -/
inductive StoreCall where
  | remember (docId token : String) (permission : Option DocumentSharePermission) (kept : Bool)
  | clear (docId : String) (kept : Bool)

def setItem (items : String → Option String) (key : String) (value : Option String) : String → Option String :=
  fun k => if k = key then value else items k

def rememberShareToken (docId token : String) (permission : Option DocumentSharePermission) (kept : Bool)
    (storage : Storage) : Storage :=
  if docId = "" || token = "" then storage
  else if kept then
    storage.map fun items =>
      setItem items (STORAGE_PREFIX ++ docId) (some (grantJson ⟨token, permission⟩).stringify)
  else storage

def clearShareToken (docId : String) (kept : Bool) (storage : Storage) : Storage :=
  if kept then storage.map fun items => setItem items (STORAGE_PREFIX ++ docId) none else storage

def StoreCall.run : StoreCall → Storage → Storage
  | .remember docId token permission kept, storage => rememberShareToken docId token permission kept storage
  | .clear docId kept, storage => clearShareToken docId kept storage

def storedGrant (storage : Storage) (docId : String) : Option StoredShareGrant :=
  if docId = "" then none
  else match storage with
    | none => none
    | some items => parseStoredGrant (items (STORAGE_PREFIX ++ docId))

def getShareToken (storage : Storage) (docId : String) : Option String := (storedGrant storage docId).map (·.token)

def getSharePermission (storage : Storage) (docId : String) : Option DocumentSharePermission :=
  (storedGrant storage docId).bind (·.permission)

/-- What one call leaves of a document's grant. -/
def grantAfter (docId : String) (grant : Option StoredShareGrant) : StoreCall → Option StoredShareGrant
  | .remember docId' token permission kept =>
    if docId' = docId ∧ token ≠ "" ∧ kept = true then some ⟨token, permission⟩ else grant
  | .clear docId' kept => if docId' = docId ∧ kept = true then none else grant

theorem sharePermission_text (permission : DocumentSharePermission) :
    sharePermission (some (.str (permissionText permission))) = some permission := by
  cases permission <;> rfl

theorem parse_grantJson {grant : StoredShareGrant} (h : grant.token ≠ "") :
    parseStoredGrant (some (grantJson grant).stringify) = some grant := by
  have hwritten : (grantJson grant).Written := by
    obtain ⟨token, permission⟩ := grant
    cases permission <;> simp [grantJson, Json.Written, Json.WrittenFields]
  have hne : (grantJson grant).stringify ≠ "" := by
    intro hempty
    have hpos := Json.stringify_pos (grantJson grant) hwritten
    rw [hempty] at hpos
    exact absurd hpos (by decide)
  rw [parseStoredGrant, Option.filter_some, if_pos (decide_eq_true hne)]
  simp only [Json.parse_stringify hwritten]
  obtain ⟨token, permission⟩ := grant
  have htoken : token ≠ "" := h
  cases permission with
  | none => simp [grantJson, Json.prop, htoken, sharePermission]
  | some permission => simp [grantJson, Json.prop, htoken, sharePermission_text]

theorem storedGrant_some {docId : String} (hid : docId ≠ "") (items : String → Option String) :
    storedGrant (some items) docId = parseStoredGrant (items (STORAGE_PREFIX ++ docId)) := if_neg hid

theorem key_inj {docId docId' : String} : STORAGE_PREFIX ++ docId' = STORAGE_PREFIX ++ docId ↔ docId' = docId := by
  refine ⟨fun h => String.toList_injective ?_, fun h => h ▸ rfl⟩
  have hlist := congrArg String.toList h
  rw [String.toList_append, String.toList_append] at hlist
  exact List.append_cancel_left hlist

theorem setItem_key (items : String → Option String) (value : Option String) (docId docId' : String) :
    setItem items (STORAGE_PREFIX ++ docId') value (STORAGE_PREFIX ++ docId) =
      if docId' = docId then value else items (STORAGE_PREFIX ++ docId) := by
  by_cases h : docId' = docId
  · rw [setItem, if_pos (key_inj.mpr h.symm), if_pos h]
  · rw [setItem, if_neg fun hkey => h (key_inj.mp hkey).symm, if_neg h]

theorem storedGrant_call {docId : String} (hid : docId ≠ "") (items : String → Option String) (call : StoreCall) :
    ∃ items', call.run (some items) = some items' ∧
      storedGrant (some items') docId = grantAfter docId (storedGrant (some items) docId) call := by
  cases call with
  | remember docId' token permission kept =>
    rw [StoreCall.run, rememberShareToken, grantAfter]
    by_cases hskip : docId' = "" ∨ token = ""
    · rw [if_pos (by simpa using hskip), if_neg]
      · exact ⟨items, rfl, rfl⟩
      · rintro ⟨rfl, htoken, -⟩
        exact hskip.elim hid htoken
    · rw [if_neg (by simpa using hskip)]
      cases kept with
      | false => exact ⟨items, rfl, by rw [if_neg (by simp)]⟩
      | true =>
        refine ⟨_, rfl, ?_⟩
        rw [storedGrant_some hid, storedGrant_some hid]
        simp only [setItem_key]
        by_cases h : docId' = docId
        · rw [if_pos h, if_pos ⟨h, fun ht => hskip (.inr ht), trivial⟩, parse_grantJson fun ht => hskip (.inr ht)]
        · rw [if_neg h, if_neg fun hall => h hall.1]
  | clear docId' kept =>
    rw [StoreCall.run, clearShareToken, grantAfter]
    cases kept with
    | false => exact ⟨items, rfl, by rw [if_neg (by simp)]⟩
    | true =>
      refine ⟨_, rfl, ?_⟩
      rw [storedGrant_some hid, storedGrant_some hid]
      simp only [setItem_key]
      by_cases h : docId' = docId
      · rw [if_pos h, if_pos ⟨h, trivial⟩]
        rfl
      · rw [if_neg h, if_neg fun hall => h hall.1]

/-- After any calls a document has the grant of the last kept call about it, whatever was stored for others. -/
theorem storedGrant_run {docId : String} (hid : docId ≠ "") (items : String → Option String)
    (calls : List StoreCall) : storedGrant (calls.foldl (fun storage call => call.run storage) (some items)) docId =
      calls.foldl (grantAfter docId) (storedGrant (some items) docId) := by
  induction calls generalizing items with
  | nil => rfl
  | cons call calls ih =>
    obtain ⟨items', hrun, hgrant⟩ := storedGrant_call hid items call
    rw [List.foldl_cons, List.foldl_cons, hrun, ih, hgrant]

end ShareTokenStore

/-! ## Decisions with a share link -/

namespace ShareLinkAccess

open WebPermissions
open PolicyService (standing resolveShareGrant getActorGroups sampleEnv sampleDb publishedDocument)

def VIEW_ONLY_DOWNLOAD_REASON : String := "This share link allows view only."

def startsWith (text part : String) : Bool := part.toList.isPrefixOf text.toList

def includes (text part : String) : Bool := text.toList.tails.any part.toList.isPrefixOf

def isShareBypassableDenial (decision : DocumentAccessDecision) : Bool :=
  let reason := decision.reason.getD ""
  includes reason "ACL" || includes reason "classification policy" ||
    startsWith reason "INTERNAL documents require" ||
    startsWith reason "CONFIDENTIAL documents require" || startsWith reason "SECRET documents require"

def applySharePermissionToDocumentDecision (decision : DocumentAccessDecision) (action : DocumentAccessAction)
    (permission : Option DocumentSharePermission) : DocumentAccessDecision :=
  match permission with
  | none => decision
  | some permission =>
    if action = .metadata || decision.allowed then decision
    else if action = .download && permission = .VIEW then deny VIEW_ONLY_DOWNLOAD_REASON
    else if !isShareBypassableDenial decision then decision
    else if action = .preview || permission = .DOWNLOAD then allow
    else decision

section
variable {db : PolicyDb} {session : Session} {document : Document} {versions : Option (List VersionContext)}
  {acl : Option (List AclContextEntry)}

def classificationReasons (permission : DocumentPermission) : List String :=
  ["INTERNAL documents require at least the editor role.",
    "CONFIDENTIAL documents require at least the editor role.",
    s!"CONFIDENTIAL documents require ownership or explicit {permission} ACL allow.",
    "SECRET documents require at least the approver role.",
    s!"SECRET documents require ownership or explicit {permission} ACL allow."]

-- Every refusal for the classification is one that a link may override.
theorem classificationReasons_bypassable {permission : DocumentPermission}
    (hp : permission = .READ ∨ permission = .DOWNLOAD) :
    ∀ reason ∈ classificationReasons permission, isShareBypassableDenial (deny reason) = true := by
  rcases hp with rfl | rfl <;> decide +kernel

def Explained (permission : DocumentPermission) (decision : DocumentAccessDecision) : Prop :=
  decision = allow ∨ ∃ reason ∈ classificationReasons permission, decision = deny reason

theorem Explained.ite {permission : DocumentPermission} {c : Prop} [Decidable c] {a b : DocumentAccessDecision}
    (ha : Explained permission a) (hb : Explained permission b) : Explained permission (if c then a else b) := by
  split
  · exact ha
  · exact hb

theorem classification_explained (doc : DocumentContext) (permission : DocumentPermission)
    (approverBypasses ownerBypasses : Bool) :
    Explained permission
      (getClassificationContentDecision (some session) doc permission approverBypasses ownerBypasses) := by
  have hallow : Explained permission allow := .inl rfl
  have hdeny : ∀ reason ∈ classificationReasons permission, Explained permission (deny reason) :=
    fun reason h => .inr ⟨reason, h, rfl⟩
  simp only [classificationReasons, List.forall_mem_cons] at hdeny
  obtain ⟨hinternal, heditor, hconfidential, happrover, hsecret, _⟩ := hdeny
  unfold getClassificationContentDecision
  cases doc.classification with
  | none => exact hallow
  | some classification =>
    refine hallow.ite (hallow.ite (hallow.ite ?_))
    cases classification with
    | PUBLIC => exact hallow
    | INTERNAL => exact hallow.ite hinternal
    | CONFIDENTIAL => exact hallow.ite (heditor.ite hconfidential)
    | SECRET => exact happrover.ite (hallow.ite hsecret)

theorem classification_bypassable {doc : DocumentContext} {permission : DocumentPermission}
    {approverBypasses ownerBypasses : Bool} (hp : permission = .READ ∨ permission = .DOWNLOAD)
    (h : (getClassificationContentDecision (some session) doc permission
      approverBypasses ownerBypasses).allowed ≠ true) :
    isShareBypassableDenial (getClassificationContentDecision (some session) doc permission
      approverBypasses ownerBypasses) = true := by
  rcases classification_explained doc permission approverBypasses ownerBypasses with hallow | ⟨reason, hin, hdeny⟩
  · exact absurd (by rw [hallow]; rfl) h
  · rw [hdeny]
    exact classificationReasons_bypassable hp reason hin

/-- Whether the status and the roles leave the action to the ACL and the classification. -/
def Open (session : Session) (document : Document) : DocumentAccessAction → Prop
  | .download => "compliance_officer" ∉ session.user.roles ∧ document.status = .PUBLISHED
  | .preview => "compliance_officer" ∉ session.user.roles ∧ document.status ≠ .DELETED
  | .metadata => False

theorem download_bypassable (hv : 1 ≤ document.currentVersion)
    (h : (getDownloadAccessDecision (some session) (loaded db document versions acl)).allowed ≠ true) :
    isShareBypassableDenial (getDownloadAccessDecision (some session) (loaded db document versions acl)) = true ↔
      Open session document .download := by
  have hofficer : isShareBypassableDenial (deny "Compliance officers cannot download file content.") = false := by
    decide +kernel
  have hstatus : isShareBypassableDenial (deny "Only published documents can be downloaded.") =
    false := by decide +kernel
  have hacl : isShareBypassableDenial (deny "Download denied by ACL.") = true := by decide +kernel
  have hrole : hasRole (some session) "compliance_officer" = true ↔ "compliance_officer" ∈ session.user.roles :=
    List.contains_iff_mem
  have hsame : (loaded db document versions acl).status = document.status := rfl
  unfold getDownloadAccessDecision at h ⊢
  rw [hasDocumentVersion_loaded hv, hsame, Option.isNone_some, Bool.not_true, if_neg Bool.false_ne_true] at h ⊢
  by_cases hc : "compliance_officer" ∈ session.user.roles
  · simp [hrole.mpr hc, hofficer, Open, hc]
  · by_cases hs : document.status = .PUBLISHED
    · rw [if_neg fun hr => hc (hrole.mp hr), if_neg (not_not.mpr hs), if_neg Bool.false_ne_true] at h ⊢
      refine ⟨fun _ => ⟨hc, hs⟩, fun _ => ?_⟩
      split at h
      · rw [if_pos (by assumption), hacl]
      · rw [if_neg (by assumption)]
        exact classification_bypassable (.inr rfl) h
    · rw [if_neg fun hr => hc (hrole.mp hr), if_pos hs, hstatus]
      exact ⟨nofun, fun ho => absurd ho.2 hs⟩

theorem preview_bypassable (hv : 1 ≤ document.currentVersion)
    (h : (getPreviewAccessDecision (some session) (loaded db document versions acl)).allowed ≠ true) :
    isShareBypassableDenial (getPreviewAccessDecision (some session) (loaded db document versions acl)) = true ↔
      Open session document .preview := by
  have hofficer : isShareBypassableDenial (deny "Compliance officers cannot preview file content.") = false := by
    decide +kernel
  have hstatus : isShareBypassableDenial (deny "Deleted documents cannot be previewed.") =
    false := by decide +kernel
  have hacl : isShareBypassableDenial (deny "Preview denied by ACL.") = true := by decide +kernel
  have hrole : hasRole (some session) "compliance_officer" = true ↔ "compliance_officer" ∈ session.user.roles :=
    List.contains_iff_mem
  have hsame : (loaded db document versions acl).status = document.status := rfl
  unfold getPreviewAccessDecision at h ⊢
  rw [hasDocumentVersion_loaded hv, hsame, Option.isNone_some, Bool.not_true, if_neg Bool.false_ne_true] at h ⊢
  by_cases hc : "compliance_officer" ∈ session.user.roles
  · simp [hrole.mpr hc, hofficer, Open, hc]
  · by_cases hs : document.status = .DELETED
    · rw [if_neg fun hr => hc (hrole.mp hr), if_pos hs, hstatus]
      exact ⟨nofun, fun ho => absurd hs ho.2⟩
    · rw [if_neg fun hr => hc (hrole.mp hr), if_neg hs, if_neg Bool.false_ne_true] at h ⊢
      refine ⟨fun _ => ⟨hc, hs⟩, fun _ => ?_⟩
      split at h
      · rw [if_pos (by assumption), hacl]
      · rw [if_neg (by assumption)]
        exact classification_bypassable (.inl rfl) h

end

/-! ## What the page shows and what the service grants -/

-- What the link itself opens, whatever the ACL and the classification say.
def Opened (session : Session) (document : Document) (permission : DocumentSharePermission) :
    DocumentAccessAction → Prop
  | .download => permission = .DOWNLOAD ∧ Open session document .download
  | .preview => Open session document .preview
  | .metadata => False

def shared (session : Session) (document : Document) (action : DocumentAccessAction) :
    Option DocumentSharePermission → Prop
  | none => False
  | some permission => Opened session document permission action

/-- The decision of the page of a document, with what the storage holds for it. -/
def sharedDecision (session : Session) (db : PolicyDb) (document : Document)
    (versions : Option (List VersionContext))
    (acl : Option (List AclContextEntry)) (storage : ShareTokenStore.Storage) (action : DocumentAccessAction) :
    DocumentAccessDecision :=
  applySharePermissionToDocumentDecision
    (getDocumentAccessDecision (some session) (loaded db document versions acl) action)
    action (ShareTokenStore.getSharePermission storage document.id)

/-- The request the page then makes. -/
def sharedRequest (session : Session) (organizationId : Option String) (now : Time)
    (storage : ShareTokenStore.Storage) (docId : String) : PolicyRequest :=
  { serverRequest session organizationId now with shareToken := ShareTokenStore.getShareToken storage docId }

section
variable {env : PolicyEnv} {db : PolicyDb} {session : Session} {document : Document} {action : DocumentAccessAction}
  {versions : Option (List VersionContext)} {acl : Option (List AclContextEntry)}
  {organizationId : Option String} {now : Time} {storage : ShareTokenStore.Storage}

theorem open_of_allowed (ha : action ≠ .metadata) (hv : 1 ≤ document.currentVersion)
    (h : (getDocumentAccessDecision (some session) (loaded db document versions acl) action).allowed = true) :
    Open session document action := by
  obtain ⟨hgrants, hdeleted⟩ := (clientAllows_iff hv).mp h
  cases action with
  | metadata => exact absurd rfl ha
  | preview => exact ⟨hgrants.1, hdeleted rfl⟩
  | download => exact ⟨hgrants.1, hgrants.2.1⟩

theorem bypassable_iff (ha : action ≠ .metadata) (hv : 1 ≤ document.currentVersion)
    (h : (getDocumentAccessDecision (some session) (loaded db document versions acl) action).allowed ≠ true) :
    isShareBypassableDenial (getDocumentAccessDecision (some session)
      (loaded db document versions acl) action) = true ↔ Open session document action := by
  cases action with
  | metadata => exact absurd rfl ha
  | preview => exact preview_bypassable hv h
  | download => exact download_bypassable hv h

theorem sharedDecision_allowed (ha : action ≠ .metadata) (hv : 1 ≤ document.currentVersion) :
    (sharedDecision session db document versions acl storage action).allowed = true ↔
      shared session document action (ShareTokenStore.getSharePermission storage document.id) ∨
        (webStanding db session document).Grants action ∧ (action = .preview → document.status ≠ .DELETED) := by
  rw [← @clientAllows_iff db session document action versions acl hv, sharedDecision]
  have hopen := @open_of_allowed db session document action versions acl ha hv
  have hbypass := @bypassable_iff db session document action versions acl ha hv
  generalize getDocumentAccessDecision (some session) (loaded db document versions acl) action =
    decision at hopen hbypass ⊢
  cases ShareTokenStore.getSharePermission storage document.id with
  | none => simp [applySharePermissionToDocumentDecision, shared]
  | some permission =>
    by_cases hallowed : decision.allowed = true
    · simp [applySharePermissionToDocumentDecision, hallowed]
    · have hb := hbypass hallowed
      by_cases ho : Open session document action
      · cases action <;> cases permission <;>
          simp_all [applySharePermissionToDocumentDecision, shared, Opened, allow, deny]
      · cases action <;> cases permission <;>
          simp_all [applySharePermissionToDocumentDecision, shared, Opened, deny]

theorem sharedRequest_preview (hd : document ∈ db.documents) (hv : 1 ≤ document.currentVersion)
    (hrow : (db.version document.id document.currentVersion).isSome = true)
    (horg : organizationId = some document.organizationId) :
    ServerAllows env db document.id .preview (sharedRequest session organizationId now storage document.id) ↔
      "compliance_officer" ∉ session.user.roles ∧
        ((resolveShareGrant env db document.id
          (ShareTokenStore.getShareToken storage document.id) now).isSome = true ∨
          (standing db (serverRequest session organizationId now) document).Previews) := by
  obtain ⟨row, hrow⟩ := Option.isSome_iff_exists.mp hrow
  constructor
  · rintro ⟨a, h⟩
    obtain ⟨d, _, hf, _, _, hc, hp, _⟩ := PolicyService.authorizePreview_ok.mp h
    obtain ⟨hd', hid, _⟩ := PolicyService.findInOrg_ok.mp hf
    obtain rfl := db.eq_of_id hd' hd hid
    exact ⟨hc, hp⟩
  · rintro ⟨hc, hp⟩
    exact ⟨_, PolicyService.authorizePreview_ok.mpr
      ⟨document, row, PolicyService.findInOrg_ok.mpr ⟨hd, rfl, horg⟩, hv, hrow, hc, hp, rfl⟩⟩

theorem sharedRequest_download (hd : document ∈ db.documents) (hv : 1 ≤ document.currentVersion)
    (hrow : (db.version document.id document.currentVersion).isSome = true)
    (horg : organizationId = some document.organizationId) :
    ServerAllows env db document.id .download (sharedRequest session organizationId now storage document.id) ↔
      "compliance_officer" ∉ session.user.roles ∧ document.status = .PUBLISHED ∧
        (resolveShareGrant env db document.id (ShareTokenStore.getShareToken storage document.id) now =
          some .DOWNLOAD ∨ (standing db (serverRequest session organizationId now) document).Downloads) := by
  obtain ⟨row, hrow⟩ := Option.isSome_iff_exists.mp hrow
  constructor
  · rintro ⟨a, h⟩
    obtain ⟨d, _, hf, _, _, hc, hs, hp, _⟩ := PolicyService.authorizeDownload_ok.mp h
    obtain ⟨hd', hid, _⟩ := PolicyService.findInOrg_ok.mp hf
    obtain rfl := db.eq_of_id hd' hd hid
    exact ⟨hc, hs, hp⟩
  · rintro ⟨hc, hs, hp⟩
    exact ⟨_, PolicyService.authorizeDownload_ok.mpr
      ⟨document, row, PolicyService.findInOrg_ok.mpr ⟨hd, rfl, horg⟩, hv, hrow, hc, hs, hp, rfl⟩⟩

/-- The page shows the action exactly when the service grants it. -/
def SharedAgrees (env : PolicyEnv) (db : PolicyDb) (session : Session) (document : Document)
    (versions : Option (List VersionContext)) (acl : Option (List AclContextEntry)) (organizationId : Option String)
    (now : Time) (storage : ShareTokenStore.Storage) (action : DocumentAccessAction) : Prop :=
  (sharedDecision session db document versions acl storage action).allowed = true ↔
    ServerAllows env db document.id action (sharedRequest session organizationId now storage document.id)

/-- A link settles the preview but for a deleted document, and the download
where it is one for downloads. Elsewhere the two sides have to match the ACL alike. -/
def SharedSame (db : PolicyDb) (session : Session) (document : Document)
    (organizationId : Option String) (now : Time) : Option DocumentSharePermission → DocumentAccessAction → Prop
  | some .DOWNLOAD, .download => True
  | some _, .preview => "compliance_officer" ∈ session.user.roles ∨ document.status ≠ .DELETED
  | _, action => (webStanding db session document).SameAccess
      (standing db (serverRequest session organizationId now) document) action

theorem sameAccess_agrees :
    ((webStanding db session document).Grants action ∧ (action = .preview → document.status ≠ .DELETED) ↔
        (standing db (serverRequest session organizationId now) document).Grants action) ↔
      (webStanding db session document).SameAccess (standing db (serverRequest session organizationId now) document)
        action := by
  have hgroups : normalizeGroups session.user.groups ⊆ getActorGroups (serverRequest session organizationId now) :=
    normalizeGroups_mono (List.subset_append_left _ _)
  exact Standing.sameAccess_iff (s := standing db (serverRequest session organizationId now) document)
    (fun _ => matchesPermission_mono hgroups) fun _ => matchesPermission_mono hgroups

theorem shared_link_agrees (items : String → Option String) (calls : List ShareTokenStore.StoreCall)
    (ha : action ≠ .metadata) (hid : document.id ≠ "") (hd : document ∈ db.documents)
    (hv : 1 ≤ document.currentVersion) (hrow : (db.version document.id document.currentVersion).isSome = true)
    (horg : organizationId = some document.organizationId) (grant : Option ShareTokenStore.StoredShareGrant)
    (hgrant : calls.foldl (ShareTokenStore.grantAfter document.id)
      (ShareTokenStore.storedGrant (some items) document.id) = grant)
    (hlive : resolveShareGrant env db document.id (grant.map (·.token)) now = grant.bind (·.permission)) :
    SharedAgrees env db session document versions acl organizationId now
        (calls.foldl (fun storage call => call.run storage) (some items)) action ↔
      SharedSame db session document organizationId now (grant.bind (·.permission)) action := by
  generalize hstorage : calls.foldl (fun storage call => call.run storage) (some items) = storage
  have hstored : ShareTokenStore.storedGrant storage document.id = grant := by
    rw [← hstorage, ShareTokenStore.storedGrant_run hid, hgrant]
  have htoken : ShareTokenStore.getShareToken storage document.id = grant.map (·.token) :=
    congrArg (·.map (·.token)) hstored
  have hpermission : ShareTokenStore.getSharePermission storage document.id = grant.bind (·.permission) :=
    congrArg (·.bind (·.permission)) hstored
  have hsame := @sameAccess_agrees db session document action organizationId now
  have hroles : (standing db (serverRequest session organizationId now) document).roles = session.user.roles := rfl
  have hstatus : (standing db (serverRequest session organizationId now) document).status = document.status := rfl
  have hweb : (webStanding db session document).roles = session.user.roles := rfl
  rw [SharedAgrees, sharedDecision_allowed ha hv, hpermission]
  cases action with
  | metadata => exact absurd rfl ha
  | preview =>
    rw [sharedRequest_preview hd hv hrow horg, htoken, hlive]
    cases hp : grant.bind (·.permission) with
    | none => simpa [SharedSame, shared, Standing.Grants, hroles] using hsame
    | some permission =>
      simp only [SharedSame, shared, Opened, Open, Standing.Grants, hweb, Option.isSome_some, true_or, and_true]
      tauto
  | download =>
    rw [sharedRequest_download hd hv hrow horg, htoken, hlive]
    cases hp : grant.bind (·.permission) with
    | none => simpa [SharedSame, shared, Standing.Grants, hroles, hstatus] using hsame
    | some permission =>
      cases permission with
      | VIEW => simpa [SharedSame, shared, Opened, Standing.Grants, hroles, hstatus] using hsame
      | DOWNLOAD =>
        have hwebStatus : (webStanding db session document).status = document.status := rfl
        simp only [SharedSame, shared, Opened, Open, Standing.Grants, hweb, hwebStatus, true_or, and_true, true_and]
        tauto

end

/-- The sample store with a link for downloads of a document that the ACL lets nobody read. -/
def linkedDb : PolicyDb where
  documents := sampleDb.documents
  versions := sampleDb.versions
  aclEntries := sampleDb.aclEntries
  shareLinks := [⟨"d-1", "t-1", .DOWNLOAD, 10, none, 0, none⟩]
  unique := sampleDb.unique

def sampleCalls : List ShareTokenStore.StoreCall := [.remember "d-1" "t-1" (some .DOWNLOAD) true, .clear "d-2" true]

def sampleGrant : ShareTokenStore.StoredShareGrant := ⟨"t-1", some .DOWNLOAD⟩

theorem shared_link_agrees_sample :
    SharedAgrees sampleEnv linkedDb ⟨⟨"u-2", ["viewer"], []⟩⟩ publishedDocument none none
    (some "o-1") 0 (sampleCalls.foldl (fun storage call => call.run storage) (some fun _ => none)) .download := by
  have hdocument : publishedDocument ∈ linkedDb.documents := by decide
  have hgrant : sampleCalls.foldl (ShareTokenStore.grantAfter publishedDocument.id)
      (ShareTokenStore.storedGrant (some fun _ => none) publishedDocument.id) =
      some sampleGrant := by decide +kernel
  have hlive : resolveShareGrant sampleEnv linkedDb publishedDocument.id ((some sampleGrant).map (·.token)) 0 =
      (some sampleGrant).bind (·.permission) := by decide +kernel
  have hsame : SharedSame linkedDb ⟨⟨"u-2", ["viewer"], []⟩⟩ publishedDocument (some "o-1") 0
    (some .DOWNLOAD) .download :=
    trivial
  exact (@shared_link_agrees sampleEnv linkedDb _ publishedDocument .download none none
    (some "o-1") 0 (fun _ => none)
    sampleCalls nofun (by decide) hdocument (by decide)
      (by decide +kernel) rfl (some sampleGrant) hgrant hlive).mpr hsame

end ShareLinkAccess

end DocVault
