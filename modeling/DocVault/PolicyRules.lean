import DocVault.Policy

/-!
# The rules of access

What the decisions of `PolicyService` come to, in terms of what they look at:
the roles of the actor, ownership, the status and the classification of the
document, and which permissions its ACL denies and allows the actor
(`Standing`). Each decision of the service is one of the rules here.
-/

namespace DocVault

/-! ## Standings -/

structure Standing where
  roles : List String
  owner : Bool
  status : DocumentStatus
  classification : ClassificationLevel
  denied : DocumentPermission → Bool
  allowed : DocumentPermission → Bool

namespace Standing
variable (s : Standing)

/-- The same user and the same document, with the ACL matched in another way. -/
def withAcl (denied allowed : DocumentPermission → Bool) : Standing :=
  { s with denied := denied, allowed := allowed }

def Released : Prop := s.status = .PUBLISHED ∨ s.status = .ARCHIVED

/-- What the first role of the actor that decides lets them read. -/
def RoleReads : Prop :=
  if "compliance_officer" ∈ s.roles then s.Released
  else if "approver" ∈ s.roles then s.status = .PENDING ∨ s.Released
  else s.Released ∧ (s.classification = .PUBLIC ∨ s.classification = .INTERNAL ∧ "editor" ∈ s.roles)

def Direct : Prop := "admin" ∈ s.roles ∨ s.owner = true

def Granted : Prop := s.allowed .READ = true ∨ s.allowed .DOWNLOAD = true

/-- What lets the actor read as long as the ACL does not deny it. -/
def Entitled : Prop := s.Direct ∨ s.Granted ∨ s.RoleReads

def Reads : Prop := s.denied .READ = false ∧ s.Entitled

/-- What the classification asks for beside the permission. -/
def Cleared (permission : DocumentPermission) : Prop :=
  "admin" ∈ s.roles ∨
    match s.classification with
    | .PUBLIC => True
    | .INTERNAL => "editor" ∈ s.roles ∨ "approver" ∈ s.roles
    | .CONFIDENTIAL => s.allowed permission = true ∨ s.owner = true
    | .SECRET => "approver" ∈ s.roles ∧ (s.allowed permission = true ∨ s.owner = true)

def Previews : Prop :=
  s.denied .READ = false ∧ ("approver" ∈ s.roles ∨ s.owner = true ∨ s.Cleared .READ)

def Downloads : Prop := s.denied .DOWNLOAD = false ∧ s.Cleared .DOWNLOAD

variable {s}

/-- Whoever may download a published document also reads it, unless the ACL denies them that. -/
theorem reads_of_downloads (hc : "compliance_officer" ∉ s.roles) (hs : s.status = .PUBLISHED) (h : s.Downloads)
    (hd : s.denied .READ = false) : s.Reads := by
  refine ⟨hd, ?_⟩
  rcases h.2 with ha | h
  · exact .inl (.inl ha)
  · have hrel : s.Released := .inl hs
    by_cases happ : "approver" ∈ s.roles
    · exact .inr (.inr (by simp [RoleReads, hc, happ, hrel]))
    · cases hclass : s.classification <;> rw [hclass] at h
      case PUBLIC => exact .inr (.inr (by simp [RoleReads, hc, happ, hrel, hclass]))
      case INTERNAL =>
        have he := h.resolve_right happ
        exact .inr (.inr (by simp [RoleReads, hc, happ, hrel, hclass, he]))
      case CONFIDENTIAL => exact h.elim (fun h => .inr (.inl (.inr h))) fun h => .inl (.inr h)
      case SECRET => exact absurd h.1 happ

end Standing

/-! ## What the reasons say -/

theorem bind_ok {ε α β : Type} {x : Except ε α} {f : α → Except ε β} {b : β} :
    (x >>= f) = .ok b ↔ ∃ a, x = .ok a ∧ f a = .ok b := by
  cases x <;> simp [bind, Except.bind]

theorem hasSome_iff {required roles : List String} :
    hasSome required roles = true ↔ ∃ role ∈ required, role ∈ roles := by
  simp [hasSome]

namespace PolicyService

theorem forbid_ok {reason : Option String} {u : Unit} : forbid reason = .ok u ↔ reason = none := by
  cases reason <;> simp [forbid]

theorem requireVersion_ok {n : Int} {u : Unit} : requireVersion n = .ok u ↔ 1 ≤ n := by
  unfold requireVersion
  split <;> simp <;> omega

theorem findVersion_ok {db : PolicyDb} {docId : String} {n : Int} {row : DocumentVersion} :
    findVersion db docId n = .ok row ↔ db.version docId n = some row := by
  unfold findVersion
  split <;> simp_all

theorem findInOrg_ok {db : PolicyDb} {docId : String} {request : PolicyRequest} {document : Document} :
    findInOrg db docId request = .ok document ↔
      document ∈ db.documents ∧ document.id = docId ∧ request.organizationId = some document.organizationId := by
  unfold findInOrg
  rw [bind_ok]
  constructor
  · rintro ⟨organizationId, horg, h⟩
    cases hf : db.find docId organizationId with
    | none => rw [hf] at h; cases h
    | some d =>
      rw [hf] at h
      obtain rfl := Except.ok.inj h
      obtain ⟨hm, hid, hsame⟩ := PolicyDb.find_some hf
      exact ⟨hm, hid, by rw [requireOrgId_ok.mp horg, hsame]⟩
  · rintro ⟨hm, rfl, horg⟩
    refine ⟨_, requireOrgId_ok.mpr horg, ?_⟩
    rw [db.find_mem hm]

theorem getDeniedReason_none {status : DocumentStatus} {roles : List String} :
    getDeniedReason status roles = none ↔ "compliance_officer" ∉ roles ∧ status = .PUBLISHED := by
  unfold getDeniedReason
  by_cases hc : "compliance_officer" ∈ roles <;> by_cases hs : status = .PUBLISHED <;> simp [hc, hs]

theorem contentDenied_none {shared denied : Bool} {refusal : String} {reason : Option String} :
    contentDenied shared denied refusal reason = none ↔ shared = true ∨ denied = false ∧ reason = none := by
  cases shared <;> cases denied <;> simp [contentDenied]

theorem hasSome_any (roles required : List String) : hasSome roles required = required.any roles.contains :=
  hasSome_comm roles required

section
variable {s : Standing} {actorId ownerId : String}

theorem classification_none {permission : DocumentPermission} (ho : s.owner = decide (actorId = ownerId)) :
    getClassificationDeniedReason s.classification s.roles actorId ownerId (s.allowed permission) = none ↔
      s.Cleared permission := by
  unfold getClassificationDeniedReason Standing.Cleared
  rw [hasSome_any, hasSome_any, ho]
  generalize s.allowed permission = allowed
  by_cases ha : "admin" ∈ s.roles
  · simp [ha]
  · cases s.classification <;> by_cases he : "editor" ∈ s.roles <;> by_cases hp : "approver" ∈ s.roles <;>
      by_cases hown : actorId = ownerId <;> cases allowed <;> simp [ha, he, hp, hown]

theorem previewClassification_none (ho : s.owner = decide (actorId = ownerId)) :
    getPreviewClassificationDeniedReason s.classification s.roles actorId ownerId (s.allowed .READ) = none ↔
      "approver" ∈ s.roles ∨ s.owner = true ∨ s.Cleared .READ := by
  unfold getPreviewClassificationDeniedReason
  by_cases ha : "admin" ∈ s.roles
  · simp [ha, Standing.Cleared]
  · by_cases hp : "approver" ∈ s.roles
    · simp [hp]
    · by_cases hown : actorId = ownerId
      · simp [hown, ho]
      · simp [ha, hp, hown, ho, classification_none ho]

theorem metadataDenied_none {document : Document} (ho : s.owner = decide (actorId = document.ownerId))
    (hs : s.status = document.status) (hc : s.classification = document.classification) :
    metadataDenied document actorId s.roles (s.denied .READ) (s.allowed .READ) (s.allowed .DOWNLOAD) = none ↔
    s.Reads := by
  unfold metadataDenied Standing.Reads Standing.Entitled Standing.Direct Standing.Granted
    Standing.RoleReads Standing.Released
  rw [hasSome_any, ho, hs, hc]
  generalize s.denied .READ = denied
  generalize s.allowed .READ = read
  generalize s.allowed .DOWNLOAD = download
  cases denied
  · by_cases ha : "admin" ∈ s.roles
    · simp [ha]
    · by_cases hown : actorId = document.ownerId
      · simp [ha, hown]
      · cases read
        · cases download
          · by_cases hco : "compliance_officer" ∈ s.roles
            · cases document.status <;> simp [ha, hown, hco]
            · by_cases hp : "approver" ∈ s.roles
              · cases document.status <;> simp [ha, hown, hco, hp]
              · cases document.status <;> cases document.classification <;> simp [ha, hown, hco, hp]
          · simp [ha, hown]
        · simp [ha, hown]
  · simp

end

variable (db : PolicyDb) (request : PolicyRequest) (document : Document)

def standing : Standing where
  roles := request.roles
  owner := request.actorId = document.ownerId
  status := document.status
  classification := document.classification
  denied permission := matchesPermission permission (db.acl document.id) request.actorId request.roles
    (getActorGroups request) .DENY
  allowed permission := matchesPermission permission (db.acl document.id) request.actorId request.roles
    (getActorGroups request) .ALLOW

variable {db request document}

/-! ## The decisions -/

variable {env : PolicyEnv} {docId : String} {dto : GrantDto}

theorem readReason_none : metadataDenied document request.actorId request.roles
      (matchesPreviewAcl (db.acl document.id) request.actorId request.roles (getActorGroups request) .DENY)
      (matchesPreviewAcl (db.acl document.id) request.actorId request.roles (getActorGroups request) .ALLOW)
      (matchesAcl (db.acl document.id) request.actorId request.roles (getActorGroups request) .ALLOW) = none ↔
    (standing db request document).Reads :=
  metadataDenied_none (s := standing db request document) rfl rfl rfl

theorem previewReason_none :
    getPreviewClassificationDeniedReason document.classification request.roles request.actorId
      document.ownerId
      (matchesPreviewAcl (db.acl document.id) request.actorId request.roles
        (getActorGroups request) .ALLOW) = none ↔
    "approver" ∈ request.roles ∨ (standing db request document).owner = true ∨
      (standing db request document).Cleared .READ :=
  previewClassification_none (s := standing db request document) rfl

theorem downloadReason_none : getClassificationDeniedReason document.classification request.roles request.actorId
      document.ownerId
      (matchesAcl (db.acl document.id) request.actorId request.roles (getActorGroups request) .ALLOW) = none ↔
    (standing db request document).Cleared .DOWNLOAD :=
  classification_none (s := standing db request document) rfl

theorem assertCanReadMetadata_ok : assertCanReadMetadata env db docId request = .ok document ↔
    findInOrg db docId request = .ok document ∧ document.status ≠ .DELETED ∧
      ((resolveShareGrant env db docId request.shareToken request.now).isSome = true ∧
          hasSome request.roles SHARE_LINK_RECIPIENT_ROLES = true ∨ (standing db request document).Reads) := by
  unfold assertCanReadMetadata
  rw [bind_ok]
  constructor
  · rintro ⟨d, hf, h⟩
    split at h
    · cases h
    · rename_i hs
      dsimp only at h
      split at h
      · rename_i hshare
        obtain rfl := Except.ok.inj h
        exact ⟨hf, hs, .inl (by simpa using hshare)⟩
      · obtain ⟨_, hreason, h⟩ := bind_ok.mp h
        obtain rfl := Except.ok.inj h
        exact ⟨hf, hs, .inr (readReason_none.mp (forbid_ok.mp hreason))⟩
  · rintro ⟨hf, hs, h⟩
    refine ⟨document, hf, ?_⟩
    rw [if_neg hs]
    dsimp only
    split
    · rfl
    · rename_i hshare
      refine bind_ok.mpr ⟨(), forbid_ok.mpr (readReason_none.mpr (h.resolve_left fun h => hshare ?_)), rfl⟩
      simpa using h

theorem authorizeDownload_ok {a : Authorization} : authorizeDownload env db docId dto request = .ok a ↔
    ∃ document row, findInOrg db docId request = .ok document ∧ 1 ≤ dto.version.getD document.currentVersion ∧
      db.version docId (dto.version.getD document.currentVersion) = some row ∧
      "compliance_officer" ∉ request.roles ∧ document.status = .PUBLISHED ∧
      (resolveShareGrant env db docId request.shareToken request.now = some .DOWNLOAD ∨
        (standing db request document).Downloads) ∧
      a = grant (createGrantToken env) (grantPayload request document row
        (some (CLASSIFICATION_WATERMARK_LEVELS document.classification))) := by
  unfold authorizeDownload
  simp only [bind_ok, requireVersion_ok, findVersion_ok, forbid_ok, getDeniedReason_none, contentDenied_none,
    downloadReason_none, Except.ok.injEq, decide_eq_true_eq]
  constructor
  · rintro ⟨document, hf, _, hv, row, hrow, _, ⟨hc, hs⟩, _, hcontent, ha⟩
    exact ⟨document, row, hf, hv, hrow, hc, hs, hcontent, ha.symm⟩
  · rintro ⟨document, row, hf, hv, hrow, hc, hs, hcontent, ha⟩
    exact ⟨document, hf, (), hv, row, hrow, (), ⟨hc, hs⟩, (), hcontent, ha.symm⟩

theorem authorizePreview_ok {a : Authorization} : authorizePreview env db docId dto request = .ok a ↔
    ∃ document row, findInOrg db docId request = .ok document ∧ 1 ≤ dto.version.getD document.currentVersion ∧
      db.version docId (dto.version.getD document.currentVersion) = some row ∧
      "compliance_officer" ∉ request.roles ∧
      ((resolveShareGrant env db docId request.shareToken request.now).isSome = true ∨
        (standing db request document).Previews) ∧
      a = grant (createPreviewGrantToken env) (grantPayload request document row none) := by
  unfold authorizePreview
  by_cases hc : "compliance_officer" ∈ request.roles
  · simp [bind_ok, hc]
  · have hc' : request.roles.contains "compliance_officer" = false := by simpa using hc
    simp only [bind_ok, requireVersion_ok, findVersion_ok, forbid_ok, getPreviewDeniedReason, contentDenied_none,
      previewReason_none, Except.ok.injEq, hc', Bool.false_eq_true, if_false]
    constructor
    · rintro ⟨document, hf, _, hv, row, hrow, _, _, _, hcontent, ha⟩
      exact ⟨document, row, hf, hv, hrow, hc, hcontent, ha.symm⟩
    · rintro ⟨document, row, hf, hv, hrow, _, hcontent, ha⟩
      exact ⟨document, hf, (), hv, row, hrow, (), trivial, (), hcontent, ha.symm⟩

theorem aiReason_none : getAiContentDeniedReason document (db.acl document.id) request.roles request.actorId
      (getActorGroups request) = none ↔ "compliance_officer" ∉ request.roles ∧ document.status ≠ .DELETED ∧
        1 ≤ document.currentVersion ∧ (standing db request document).Previews := by
  unfold getAiContentDeniedReason Standing.Previews
  rw [show (standing db request document).denied .READ = matchesPreviewAcl (db.acl document.id) request.actorId
    request.roles (getActorGroups request) .DENY from rfl]
  by_cases hc : "compliance_officer" ∈ request.roles
  · simp [hc]
  · by_cases hs : document.status = .DELETED
    · simp [hc, hs]
    · by_cases hv : document.currentVersion < 1
      · simp [hc, hs, hv]
      · have hv' : 1 ≤ document.currentVersion := by omega
        rw [if_neg (by simpa using hc), if_neg hs, if_neg hv]
        split
        · rename_i hd
          simp [hd]
        · rename_i hd
          rw [previewReason_none]
          simp only [hc, hs, hv', hd, not_false_eq_true, ne_eq, true_and]
          rfl

theorem canUseContent_iff {g : AiGuardrails} (h : getAiGuardrails env db docId request = .ok g) :
    g.canUseContent = true ↔ ∃ document, findInOrg db docId request = .ok document ∧
      "compliance_officer" ∉ request.roles ∧ document.status ≠ .DELETED ∧ 1 ≤ document.currentVersion ∧
        (standing db request document).Previews := by
  obtain ⟨document, hread, hg⟩ := bind_ok.mp h
  obtain ⟨hf, _⟩ := assertCanReadMetadata_ok.mp hread
  have hcan : g.canUseContent = true ↔ getAiContentDeniedReason document (db.acl document.id) request.roles
      request.actorId (getActorGroups request) = none := by
    rw [← Except.ok.inj hg]
    exact Option.isNone_iff_eq_none
  rw [hcan, aiReason_none]
  constructor
  · exact fun hr => ⟨document, hf, hr⟩
  · rintro ⟨d, hd, hr⟩
    obtain rfl := Except.ok.inj (hf.symm.trans hd)
    exact hr

/-! ## A published document -/

def publishedDocument : Document where
  id := "d-1"
  organizationId := "o-1"
  ownerId := "u-1"
  classification := .PUBLIC
  status := .PUBLISHED
  currentVersion := 1

def sampleVersion (docId : String) : DocumentVersion where
  docId := docId
  version := 1
  objectKey := "doc/" ++ docId ++ "/v1/plan.pdf"
  checksum := "5e4f"
  size := 3
  filename := "plan.pdf"
  createdBy := "u-1"

end PolicyService

end DocVault
