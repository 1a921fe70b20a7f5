import DocVault.ContentAccess

/-!
# The access decisions of the web client

`permissions.ts` of the web client decides from the session and the document it
has loaded what the user may do, to show or hide the actions. Its decisions are
brought to the rules of `PolicyService`, over the ACL as the client matches it,
and compared with what the service answers the same user.
-/

namespace DocVault

/-! ## Sessions and loaded documents -/

structure UserInfo where
  sub : String
  roles : List String
  groups : List String := []

structure Session where
  user : UserInfo

structure AclContextEntry where
  subjectType : AclSubjectType
  subjectId : Nullable String := .undef
  permission : DocumentPermission
  effect : AclEffect

structure VersionContext where
  version : Option Int := none
  versionNumber : Option Int := none

structure DocumentContext where
  status : DocumentStatus
  ownerId : Nullable String := .undef
  classification : Option ClassificationLevel := none
  currentVersion : Nullable Int := .undef
  versions : Option (List VersionContext) := none
  aclEntries : Option (List AclContextEntry) := none
  acl : Option (List AclContextEntry) := none

inductive DocumentAccessAction where
  | metadata
  | preview
  | download
  deriving DecidableEq

structure DocumentAccessDecision where
  allowed : Bool
  reason : Option String := none
  deriving DecidableEq

instance : ToString DocumentPermission where
  toString
    | .READ => "READ"
    | .DOWNLOAD => "DOWNLOAD"
    | .WRITE => "WRITE"
    | .APPROVE => "APPROVE"

/-! ## Decisions -/

namespace WebPermissions

def allow : DocumentAccessDecision where
  allowed := true

def deny (reason : String) : DocumentAccessDecision where
  allowed := false
  reason := some reason

def hasRole (session : Option Session) (role : String) : Bool :=
  match session with
  | none => false
  | some session => session.user.roles.contains role

def hasAnyUserRole (session : Option Session) (roles : List String) : Bool := roles.any (hasRole session)

-- Without a session `session?.user?.sub` is `undefined`.
def isOwner (session : Option Session) (ownerId : Nullable String) : Bool :=
  match session with
  | none => ownerId = .undef
  | some session => ownerId = .val session.user.sub

def getAclEntries (doc : DocumentContext) : List AclContextEntry := (doc.aclEntries <|> doc.acl).getD []

def matchesSubject (entry : AclContextEntry) (actorId : String) (roles groups : List String) : Bool :=
  match entry.subjectType with
  | .ALL => true
  | .USER => entry.subjectId = .val actorId
  | .ROLE => entry.subjectId.toOption.any fun role => role ≠ "" && roles.contains role
  | .GROUP =>
    match normalizeGroups (entry.subjectId.toOption.filter (· ≠ "")).toList with
    | [] => false
    | normalizedSubject :: _ => normalizedSubject ≠ "" && groups.contains normalizedSubject

def matchesAcl (session : Option Session) (doc : DocumentContext) (permission : DocumentPermission)
    (effect : AclEffect) :
    Bool :=
  match session with
  | none => false
  | some session => (getAclEntries doc).any fun entry =>
    entry.permission = permission && entry.effect = effect &&
      matchesSubject entry session.user.sub session.user.roles (normalizeGroups session.user.groups)

def hasDocumentVersion (doc : DocumentContext) : Bool :=
  match doc.currentVersion with
  | .val currentVersion => currentVersion > 0
  | _ => match doc.versions with
    | some versions => versions.any fun version => (version.versionNumber <|> version.version).getD 0 > 0
    | none => true

def getClassificationContentDecision (session : Option Session) (doc : DocumentContext)
    (permission : DocumentPermission)
    (approverBypassesClassification ownerBypassesClassification : Bool) : DocumentAccessDecision :=
  match doc.classification with
  | none => allow
  | some classification =>
    if hasRole session "admin" then allow
    else if approverBypassesClassification && hasRole session "approver" then allow
    else if ownerBypassesClassification && isOwner session doc.ownerId then allow
    else
      let explicitAllow := matchesAcl session doc permission .ALLOW
      match classification with
      | .PUBLIC => allow
      | .INTERNAL =>
        if hasAnyUserRole session ["editor", "approver", "admin"] then allow
        else deny "INTERNAL documents require at least the editor role."
      | .CONFIDENTIAL =>
        if isOwner session doc.ownerId || explicitAllow then allow
        else if !hasAnyUserRole session ["editor", "approver", "admin"] then
          deny "CONFIDENTIAL documents require at least the editor role."
        else deny s!"CONFIDENTIAL documents require ownership or explicit {permission} ACL allow."
      | .SECRET =>
        if !hasAnyUserRole session ["approver", "admin"] then deny
          "SECRET documents require at least the approver role."
        else if isOwner session doc.ownerId || explicitAllow then allow
        else deny s!"SECRET documents require ownership or explicit {permission} ACL allow."

def getMetadataAccessDecision (session : Option Session) (doc : DocumentContext) : DocumentAccessDecision :=
  let released := doc.status = .PUBLISHED || doc.status = .ARCHIVED
  if session.isNone then deny "Authentication is required."
  else if doc.status = .DELETED then deny "Document is deleted."
  else if matchesAcl session doc .READ .DENY then deny "Metadata read denied by ACL."
  else if hasRole session "admin" then allow
  else
    let explicitReadAllow := matchesAcl session doc .READ .ALLOW
    let explicitDownloadAllow := matchesAcl session doc .DOWNLOAD .ALLOW
    if isOwner session doc.ownerId || explicitReadAllow || explicitDownloadAllow then allow
    else if hasRole session "compliance_officer" then
      if released then allow else deny "Compliance officers can only read published or archived metadata."
    else if hasRole session "approver" then
      if doc.status = .PENDING || released then allow
      else deny "Approvers can only read pending, published, or archived metadata."
    else if !released then deny "Only published or archived documents are readable by this user."
    else if doc.classification = none || doc.classification = some .PUBLIC then allow
    else if doc.classification = some .INTERNAL && hasAnyUserRole session ["editor"] then allow
    else if doc.classification = some .CONFIDENTIAL && hasRole session "editor" && explicitReadAllow then allow
    else deny "Metadata read denied by classification policy."

def getDownloadAccessDecision (session : Option Session) (doc : DocumentContext) : DocumentAccessDecision :=
  if session.isNone then deny "Authentication is required."
  else if hasRole session "compliance_officer" then deny "Compliance officers cannot download file content."
  else if doc.status ≠ .PUBLISHED then deny "Only published documents can be downloaded."
  else if !hasDocumentVersion doc then deny "Document has no uploaded version."
  else if matchesAcl session doc .DOWNLOAD .DENY then deny "Download denied by ACL."
  else getClassificationContentDecision session doc .DOWNLOAD false false

def getPreviewAccessDecision (session : Option Session) (doc : DocumentContext) : DocumentAccessDecision :=
  if session.isNone then deny "Authentication is required."
  else if hasRole session "compliance_officer" then deny "Compliance officers cannot preview file content."
  else if doc.status = .DELETED then deny "Deleted documents cannot be previewed."
  else if !hasDocumentVersion doc then deny "Document has no uploaded version."
  else if matchesAcl session doc .READ .DENY then deny "Preview denied by ACL."
  else getClassificationContentDecision session doc .READ true true

def getDocumentAccessDecision (session : Option Session) (doc : DocumentContext) (action : DocumentAccessAction) :
    DocumentAccessDecision :=
  match action with
  | .metadata => getMetadataAccessDecision session doc
  | .download => getDownloadAccessDecision session doc
  | .preview => getPreviewAccessDecision session doc

/-! ## What the client has loaded -/

def contextEntry (entry : DocumentAcl) : AclContextEntry where
  subjectType := entry.subjectType
  subjectId := match entry.subjectId with
    | none => .null
    | some subjectId => .val subjectId
  permission := entry.permission
  effect := entry.effect

/-- A document of the service with its ACL. Its versions and `acl` may be there or not. -/
def loaded (db : PolicyDb) (document : Document) (versions : Option (List VersionContext))
    (acl : Option (List AclContextEntry)) : DocumentContext where
  status := document.status
  ownerId := .val document.ownerId
  classification := some document.classification
  currentVersion := .val document.currentVersion
  versions := versions
  aclEntries := some ((db.acl document.id).map contextEntry)
  acl := acl

variable {db : PolicyDb} {session : Session} {document : Document} {versions : Option (List VersionContext)}
  {acl : Option (List AclContextEntry)}

theorem matchesAcl_loaded (permission : DocumentPermission) (effect : AclEffect) :
    matchesAcl (some session) (loaded db document versions acl) permission effect =
      PolicyService.matchesPermission permission (db.acl document.id) session.user.sub session.user.roles
        (normalizeGroups session.user.groups) effect := by
  have hsubject : ∀ entry : DocumentAcl, matchesSubject (contextEntry entry) session.user.sub session.user.roles
      (normalizeGroups session.user.groups) = PolicyService.matchesSubject entry session.user.sub session.user.roles
        (normalizeGroups session.user.groups) := by
    intro entry
    unfold matchesSubject PolicyService.matchesSubject contextEntry
    cases entry.subjectType with
    | GROUP => cases entry.subjectId <;> rfl
    | _ => cases entry.subjectId <;> simp
  unfold matchesAcl PolicyService.matchesPermission getAclEntries loaded
  simp only [Option.orElse_eq_orElse, Option.orElse_some, Option.getD_some, List.any_map]
  congr 1
  funext entry
  simp only [Function.comp_apply, hsubject]
  rfl

variable (db session document) in
/-- The standing of the user as the client sees it. -/
def webStanding : Standing where
  roles := session.user.roles
  owner := session.user.sub = document.ownerId
  status := document.status
  classification := document.classification
  denied permission :=
    PolicyService.matchesPermission permission (db.acl document.id) session.user.sub session.user.roles
    (normalizeGroups session.user.groups) .DENY
  allowed permission := PolicyService.matchesPermission permission (db.acl document.id) session.user.sub
    session.user.roles (normalizeGroups session.user.groups) .ALLOW

theorem matchesAcl_deny (permission : DocumentPermission) :
    matchesAcl (some session) (loaded db document versions acl) permission .DENY =
      (webStanding db session document).denied permission := matchesAcl_loaded permission .DENY

theorem matchesAcl_allow (permission : DocumentPermission) :
    matchesAcl (some session) (loaded db document versions acl) permission .ALLOW =
      (webStanding db session document).allowed permission := matchesAcl_loaded permission .ALLOW

theorem isOwner_loaded : isOwner (some session) (loaded db document versions acl).ownerId =
    (webStanding db session document).owner := by
  simp [isOwner, loaded, webStanding, eq_comm]

variable (db document) in
theorem hasRole_some {role : String} : hasRole (some session) role = true ↔
    role ∈ (webStanding db session document).roles := List.contains_iff_mem

variable (db document) in
theorem hasAnyUserRole_some {roles : List String} : hasAnyUserRole (some session) roles = true ↔
    ∃ role ∈ roles, role ∈ (webStanding db session document).roles := by
  simp only [hasAnyUserRole, List.any_eq_true, hasRole_some db document]

@[simp] theorem allow_allowed : allow.allowed = true := rfl

@[simp] theorem deny_allowed (reason : String) : (deny reason).allowed = false := rfl

theorem getMetadataAccessDecision_allowed :
    (getMetadataAccessDecision (some session) (loaded db document versions acl)).allowed = true ↔
      document.status ≠ .DELETED ∧ (webStanding db session document).Reads := by
  unfold getMetadataAccessDecision Standing.Reads Standing.Entitled Standing.Direct
    Standing.Granted Standing.RoleReads Standing.Released
  simp only [matchesAcl_deny, matchesAcl_allow, isOwner_loaded, hasRole_some db document,
    hasAnyUserRole_some db document, Bool.and_eq_true, Bool.or_eq_true]
  have hstatus : (webStanding db session document).status = document.status := rfl
  have hclass : (webStanding db session document).classification = document.classification := rfl
  generalize webStanding db session document = s at *
  rw [hstatus, hclass]
  simp only [loaded]
  obtain ⟨status, hs⟩ : ∃ status, document.status = status := ⟨_, rfl⟩
  obtain ⟨level, hc⟩ : ∃ level, document.classification = level := ⟨_, rfl⟩
  by_cases hd : s.denied .READ = true
  · simp [hd, apply_ite DocumentAccessDecision.allowed]
  · by_cases ha : "admin" ∈ s.roles
    · simp [hd, ha, apply_ite DocumentAccessDecision.allowed]
    · by_cases hallow : (s.owner = true ∨ s.allowed .READ = true) ∨ s.allowed .DOWNLOAD = true
      · rw [if_pos hallow]
        have hgranted := or_assoc.mp hallow
        simp [hd, ha, apply_ite DocumentAccessDecision.allowed]
        tauto
      · rw [if_neg hallow]
        obtain ⟨hor, hdown⟩ := not_or.mp hallow
        obtain ⟨ho, hr⟩ := not_or.mp hor
        by_cases hco : "compliance_officer" ∈ s.roles
        · cases status <;> simp [hs, hd, ha, ho, hr, hdown, hco]
        · by_cases hp : "approver" ∈ s.roles
          · cases status <;> simp [hs, hd, ha, ho, hr, hdown, hco, hp]
          · cases status <;> cases level <;>
              simp [hs, hc, hd, ha, ho, hr, hdown, hco, hp, apply_ite DocumentAccessDecision.allowed]

theorem getClassificationContentDecision_allowed {permission : DocumentPermission}
    {approverBypasses ownerBypasses : Bool} :
    (getClassificationContentDecision (some session) (loaded db document versions acl) permission approverBypasses
        ownerBypasses).allowed = true ↔
      approverBypasses = true ∧ "approver" ∈ session.user.roles ∨
        ownerBypasses = true ∧ (webStanding db session document).owner = true ∨
          (webStanding db session document).Cleared permission := by
  have hroles : session.user.roles = (webStanding db session document).roles := rfl
  have hclass : (webStanding db session document).classification = document.classification := rfl
  have hany : ∀ {roles}, hasAnyUserRole (some session) roles = true ↔
      ∃ role ∈ roles, role ∈ (webStanding db session document).roles := hasAnyUserRole_some db document
  unfold getClassificationContentDecision Standing.Cleared
  simp only [matchesAcl_allow, isOwner_loaded, hasRole_some db document, Bool.and_eq_true, Bool.or_eq_true, hroles]
  generalize webStanding db session document = s at *
  rw [hclass]
  simp only [loaded]
  by_cases ha : "admin" ∈ s.roles
  · simp [ha]
  · by_cases hp : approverBypasses = true ∧ "approver" ∈ s.roles
    · simp [hp]
    · by_cases ho : ownerBypasses = true ∧ s.owner = true
      · simp [hp, ho]
      · rw [if_neg ha, if_neg hp, if_neg ho]
        cases document.classification with
        | PUBLIC => simp
        | INTERNAL => simp [ha, hp, ho, hany, apply_ite DocumentAccessDecision.allowed]
        | CONFIDENTIAL => simp [ha, hp, ho, apply_ite DocumentAccessDecision.allowed, or_comm]
        | SECRET => simp [ha, hp, ho, hany, apply_ite DocumentAccessDecision.allowed, or_comm]

theorem hasDocumentVersion_loaded (hv : 1 ≤ document.currentVersion) :
    hasDocumentVersion (loaded db document versions acl) = true := by
  simp only [hasDocumentVersion, loaded, decide_eq_true_eq]
  omega

theorem getDownloadAccessDecision_allowed (hv : 1 ≤ document.currentVersion) :
    (getDownloadAccessDecision (some session) (loaded db document versions acl)).allowed = true ↔
      "compliance_officer" ∉ session.user.roles ∧ document.status = .PUBLISHED ∧
        (webStanding db session document).Downloads := by
  have hstatus : (loaded db document versions acl).status = document.status := rfl
  have hrole : hasRole (some session) "compliance_officer" = true ↔ "compliance_officer" ∈ session.user.roles :=
    List.contains_iff_mem
  unfold getDownloadAccessDecision Standing.Downloads
  rw [hasDocumentVersion_loaded hv, matchesAcl_deny, hstatus]
  by_cases hc : "compliance_officer" ∈ session.user.roles
  · simp [hrole, hc]
  · by_cases hs : document.status = .PUBLISHED
    · by_cases hd : (webStanding db session document).denied .DOWNLOAD = true
      · simp [hrole, hc, hs, hd]
      · simp [hrole, hc, hs, hd, getClassificationContentDecision_allowed]
    · simp [hrole, hc, hs]

theorem getPreviewAccessDecision_allowed (hv : 1 ≤ document.currentVersion) :
    (getPreviewAccessDecision (some session) (loaded db document versions acl)).allowed = true ↔
      "compliance_officer" ∉ session.user.roles ∧ document.status ≠ .DELETED ∧
        (webStanding db session document).Previews := by
  have hstatus : (loaded db document versions acl).status = document.status := rfl
  have hrole : hasRole (some session) "compliance_officer" = true ↔ "compliance_officer" ∈ session.user.roles :=
    List.contains_iff_mem
  have hroles : (webStanding db session document).roles = session.user.roles := rfl
  unfold getPreviewAccessDecision Standing.Previews
  rw [hasDocumentVersion_loaded hv, matchesAcl_deny, hstatus]
  by_cases hc : "compliance_officer" ∈ session.user.roles
  · simp [hrole, hc]
  · by_cases hs : document.status = .DELETED
    · simp [hrole, hc, hs]
    · by_cases hd : (webStanding db session document).denied .READ = true
      · simp [hrole, hc, hs, hd]
      · simp [hrole, hc, hs, hd, hroles, getClassificationContentDecision_allowed]

end WebPermissions

end DocVault
