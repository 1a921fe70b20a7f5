import DocVault.WebPermissions

/-!
# The client and the service

For each action a rule over a `Standing`, the same for both sides but that the
client shows no preview of a deleted document. What is left is the ACL, which
the service matches with the groups normalized once and twice, the client with
the groups normalized once.
-/

namespace DocVault

open WebPermissions
open PolicyService
  (standing assertCanReadMetadata authorizePreview authorizeDownload getActorGroups matchesPermission
  sampleEnv sampleDb sampleMember publishedDocument deletedDocument)

/-! ## Rules -/

def DocumentAccessAction.permission : DocumentAccessAction → DocumentPermission
  | .metadata => .READ
  | .preview => .READ
  | .download => .DOWNLOAD

namespace Standing
variable (s : Standing) (action : DocumentAccessAction)

def Grants : Prop :=
  match action with
  | .metadata => s.status ≠ .DELETED ∧ s.Reads
  | .preview => "compliance_officer" ∉ s.roles ∧ s.Previews
  | .download => "compliance_officer" ∉ s.roles ∧ s.status = .PUBLISHED ∧ s.Downloads

/-- The ACL allows the action. -/
def Allows : Prop :=
  match action with
  | .metadata => s.Granted
  | .preview => s.allowed .READ = true
  | .download => s.allowed .DOWNLOAD = true

/-- What is granted where the ACL says nothing. -/
def Unaided : Prop := (s.withAcl (fun _ => false) fun _ => false).Grants action

/-- What is granted where the ACL allows everything. -/
def Aided : Prop := (s.withAcl (fun _ => false) fun _ => true).Grants action

variable {s action}

theorem cleared_iff {permission : DocumentPermission} :
    s.Cleared permission ↔ (s.withAcl (fun _ => false) fun _ => false).Cleared permission ∨
      (s.withAcl (fun _ => false) fun _ => true).Cleared permission ∧ s.allowed permission = true := by
  simp only [Cleared, withAcl]
  by_cases ha : "admin" ∈ s.roles
  · simp [ha]
  · cases s.classification <;> simp [ha] <;> tauto

theorem grants_iff : s.Grants action ↔
    s.denied action.permission = false ∧ (s.Unaided action ∨ s.Aided action ∧ s.Allows action) := by
  cases action with
  | metadata =>
    simp only [Grants, Unaided, Aided, Allows, Reads, Entitled, Direct, Granted, RoleReads, Released, withAcl,
      DocumentAccessAction.permission]
    by_cases hs : s.status = .DELETED
    · simp [hs]
    · simp [hs]
      tauto
  | preview =>
    simp only [Grants, Unaided, Aided, Allows, Previews, DocumentAccessAction.permission]
    rw [cleared_iff]
    simp only [withAcl]
    tauto
  | download =>
    simp only [Grants, Unaided, Aided, Allows, Downloads, DocumentAccessAction.permission]
    rw [cleared_iff]
    simp only [withAcl]
    tauto

/-- Where the client, with the ACL as `w` says it matches, and the service,
with the ACL as `s` says, cannot come apart. -/
structure SameAccess (w s : Standing) (action : DocumentAccessAction) : Prop where
  deleted : action = .preview → s.status = .DELETED → ¬s.Grants .preview
  denied : (action = .preview → s.status ≠ .DELETED) → s.denied action.permission = true →
    w.denied action.permission = false → ¬(s.Unaided action ∨ s.Aided action ∧ w.Allows action)
  allowed : (action = .preview → s.status ≠ .DELETED) → s.denied action.permission = false →
    s.Aided action → ¬s.Unaided action → s.Allows action → w.Allows action

section
variable {denied allowed : DocumentPermission → Bool}
  (hd : ∀ permission, denied permission = true → s.denied permission = true)
  (ha : ∀ permission, allowed permission = true → s.allowed permission = true)
include ha

theorem allows_of_withAcl (h : (s.withAcl denied allowed).Allows action) : s.Allows action := by
  cases action with
  | metadata => exact h.imp (ha _) (ha _)
  | preview => exact ha _ h
  | download => exact ha _ h

include hd

theorem sameAccess_iff : ((s.withAcl denied allowed).Grants action ∧ (action = .preview → s.status ≠ .DELETED) ↔
    s.Grants action) ↔ SameAccess (s.withAcl denied allowed) s action := by
  have hallows : (s.withAcl denied allowed).Allows action → s.Allows action := allows_of_withAcl ha
  have hw : (s.withAcl denied allowed).Grants action ↔ denied action.permission = false ∧
      (s.Unaided action ∨ s.Aided action ∧ (s.withAcl denied allowed).Allows action) := grants_iff
  by_cases hdel : action = .preview → s.status ≠ .DELETED
  · have hden := hd action.permission
    constructor
    · intro h
      refine ⟨fun hp hs => absurd hs (hdel hp), fun _ hsd hwd hgrant => ?_, fun _ hsd haided hunaided hallow => ?_⟩
      · have hs := (h.mp ⟨hw.mpr ⟨hwd, hgrant⟩, hdel⟩)
        exact Bool.false_ne_true ((grants_iff.mp hs).1.symm.trans hsd)
      · obtain ⟨_, hgrant⟩ := hw.mp (h.mpr (grants_iff.mpr ⟨hsd, .inr ⟨haided, hallow⟩⟩)).1
        exact (hgrant.resolve_left hunaided).2
    · rintro ⟨_, hdenied, hallowed⟩
      constructor
      · rintro ⟨hgrant, _⟩
        obtain ⟨hwd, hgrant⟩ := hw.mp hgrant
        have hsd : s.denied action.permission = false := by
          rw [← Bool.not_eq_true]
          exact fun hsd => hdenied hdel hsd hwd hgrant
        exact grants_iff.mpr ⟨hsd, hgrant.imp_right fun h => ⟨h.1, hallows h.2⟩⟩
      · intro hgrant
        obtain ⟨hsd, hgrant⟩ := grants_iff.mp hgrant
        have hwd : denied action.permission = false := by
          rw [← Bool.not_eq_true]
          exact fun hwd => Bool.false_ne_true (hsd.symm.trans (hden hwd))
        refine ⟨hw.mpr ⟨hwd, ?_⟩, hdel⟩
        by_cases hun : s.Unaided action
        · exact .inl hun
        · obtain ⟨haided, hallow⟩ := hgrant.resolve_left hun
          exact .inr ⟨haided, hallowed hdel hsd haided hun hallow⟩
  · obtain ⟨rfl, hs⟩ : action = .preview ∧ s.status = .DELETED := by simpa using hdel
    constructor
    · intro h
      have hn : ¬s.Grants .preview := fun hgrant => (h.mpr hgrant).2 rfl hs
      exact ⟨fun _ _ => hn, fun hdel' => absurd hdel' hdel, fun hdel' => absurd hdel' hdel⟩
    · intro h
      exact ⟨fun hgrant => absurd hgrant.2 hdel, fun hgrant => absurd hgrant (h.deleted rfl hs)⟩

end

end Standing

/-! ## Groups, normalized once and twice -/

theorem mem_normalizeGroups {group : String} {groups : List String} :
    group ∈ normalizeGroups groups ↔ ∃ g ∈ groups, trim g ≠ "" ∧ stripSlashes (trim g) = group := by
  simp only [normalizeGroups, List.mem_eraseDups, List.mem_map, List.mem_filter, decide_eq_true_eq]
  constructor
  · rintro ⟨_, ⟨⟨g, hg, rfl⟩, hne⟩, rfl⟩
    exact ⟨g, hg, hne, rfl⟩
  · rintro ⟨g, hg, hne, rfl⟩
    exact ⟨_, ⟨⟨g, hg, rfl⟩, hne⟩, rfl⟩

theorem normalizeGroups_mono {groups groups' : List String} (h : groups ⊆ groups') :
    normalizeGroups groups ⊆ normalizeGroups groups' := by
  intro group hg
  obtain ⟨g, hg, hne⟩ := mem_normalizeGroups.mp hg
  exact mem_normalizeGroups.mpr ⟨g, h hg, hne⟩

theorem matchesGroupSubject_mono {subjectId : Option String} {groups groups' : List String} (h : groups ⊆ groups')
    (hm : PolicyService.matchesGroupSubject subjectId groups = true) :
    PolicyService.matchesGroupSubject subjectId groups' = true := by
  unfold PolicyService.matchesGroupSubject at hm ⊢
  split at hm
  · cases hm
  · simp only [Bool.and_eq_true, List.contains_iff_mem] at hm ⊢
    exact ⟨hm.1, h hm.2⟩

theorem matchesSubject_mono {entry : DocumentAcl} {actorId : String} {roles groups groups' : List String}
    (h : groups ⊆ groups') (hm : PolicyService.matchesSubject entry actorId roles groups = true) :
    PolicyService.matchesSubject entry actorId roles groups' = true := by
  unfold PolicyService.matchesSubject at hm ⊢
  cases hsubject : entry.subjectType <;> rw [hsubject] at hm
  case GROUP => exact matchesGroupSubject_mono h hm
  all_goals exact hm

theorem matchesPermission_mono {permission : DocumentPermission} {aclEntries : List DocumentAcl} {actorId : String}
    {roles groups groups' : List String} {effect : AclEffect} (h : groups ⊆ groups')
    (hm : matchesPermission permission aclEntries actorId roles groups effect = true) :
    matchesPermission permission aclEntries actorId roles groups' effect = true := by
  obtain ⟨entry, hentry, hm⟩ := List.any_eq_true.mp hm
  refine List.any_eq_true.mpr ⟨entry, hentry, ?_⟩
  simp only [Bool.and_eq_true] at hm ⊢
  exact ⟨hm.1, matchesSubject_mono h hm.2⟩

/-! ## The decisions of both sides -/

/-- A request of the session's user without a share token. -/
def serverRequest (session : Session) (organizationId : Option String) (now : Time) : PolicyRequest where
  user := ⟨some session.user.sub, none, session.user.roles⟩
  organizationId := organizationId
  now := now
  groups := session.user.groups

def ServerAllows (env : PolicyEnv) (db : PolicyDb) (docId : String) (action : DocumentAccessAction)
    (request : PolicyRequest) : Prop :=
  match action with
  | .metadata => ∃ document, assertCanReadMetadata env db docId request = .ok document
  | .preview => ∃ a, authorizePreview env db docId {} request = .ok a
  | .download => ∃ a, authorizeDownload env db docId {} request = .ok a

section
variable {env : PolicyEnv} {db : PolicyDb} {session : Session} {document : Document} {action : DocumentAccessAction}
  {versions : Option (List VersionContext)} {acl : Option (List AclContextEntry)}
  {organizationId : Option String} {now : Time}

theorem clientAllows_iff (hv : 1 ≤ document.currentVersion) :
    (getDocumentAccessDecision (some session) (loaded db document versions acl) action).allowed = true ↔
      (webStanding db session document).Grants action ∧ (action = .preview → document.status ≠ .DELETED) := by
  cases action with
  | metadata => exact getMetadataAccessDecision_allowed.trans (by simp [Standing.Grants, webStanding])
  | preview =>
    refine (getPreviewAccessDecision_allowed hv).trans ?_
    simp only [Standing.Grants, forall_const]
    rw [and_assoc, and_comm (a := (webStanding db session document).Previews)]
    rfl
  | download => exact (getDownloadAccessDecision_allowed hv).trans (by simp [Standing.Grants, webStanding])

theorem serverAllows_iff {request : PolicyRequest} (hd : document ∈ db.documents) (hv : 1 ≤ document.currentVersion)
    (hrow : (db.version document.id document.currentVersion).isSome = true) (ht : request.shareToken = none) :
    ServerAllows env db document.id action request ↔
      request.organizationId = some document.organizationId ∧ (standing db request document).Grants action := by
  have hfound : request.organizationId = some document.organizationId →
      PolicyService.findInOrg db document.id request = .ok document :=
    fun hm => PolicyService.findInOrg_ok.mpr ⟨hd, rfl, hm⟩
  have hsame : ∀ {d}, PolicyService.findInOrg db document.id request = .ok d →
      d = document ∧ request.organizationId = some document.organizationId := by
    intro d hf
    obtain ⟨hd', hid, hm⟩ := PolicyService.findInOrg_ok.mp hf
    obtain rfl := db.eq_of_id hd' hd hid
    exact ⟨rfl, hm⟩
  obtain ⟨row, hrow⟩ := Option.isSome_iff_exists.mp hrow
  cases action with
  | metadata =>
    constructor
    · rintro ⟨d, h⟩
      obtain ⟨hf, hs, hr⟩ := PolicyService.assertCanReadMetadata_ok.mp h
      obtain ⟨rfl, hm⟩ := hsame hf
      rw [ht, PolicyService.resolveShareGrant_none] at hr
      exact ⟨hm, hs, hr.resolve_left nofun⟩
    · rintro ⟨hm, hs, hr⟩
      exact ⟨document, PolicyService.assertCanReadMetadata_ok.mpr ⟨hfound hm, hs, .inr hr⟩⟩
  | preview =>
    constructor
    · rintro ⟨a, h⟩
      obtain ⟨d, _, hf, _, _, hc, hp, _⟩ := PolicyService.authorizePreview_ok.mp h
      obtain ⟨rfl, hm⟩ := hsame hf
      rw [ht, PolicyService.resolveShareGrant_none] at hp
      exact ⟨hm, hc, hp.resolve_left nofun⟩
    · rintro ⟨hm, hc, hp⟩
      exact ⟨_, PolicyService.authorizePreview_ok.mpr ⟨document, row, hfound hm, hv, hrow, hc, .inr hp, rfl⟩⟩
  | download =>
    constructor
    · rintro ⟨a, h⟩
      obtain ⟨d, _, hf, _, _, hc, hs, hp, _⟩ := PolicyService.authorizeDownload_ok.mp h
      obtain ⟨rfl, hm⟩ := hsame hf
      rw [ht, PolicyService.resolveShareGrant_none] at hp
      exact ⟨hm, hc, hs, hp.resolve_left nofun⟩
    · rintro ⟨hm, hc, hs, hp⟩
      exact ⟨_, PolicyService.authorizeDownload_ok.mpr ⟨document, row, hfound hm, hv, hrow, hc, hs, .inr hp, rfl⟩⟩

variable (env db session document action versions acl organizationId now) in
/-- The client shows the action exactly when the service allows it. -/
def ClientAgrees : Prop :=
  (getDocumentAccessDecision (some session) (loaded db document versions acl) action).allowed = true ↔
    ServerAllows env db document.id action (serverRequest session organizationId now)

theorem client_agrees (hd : document ∈ db.documents) (hv : 1 ≤ document.currentVersion)
    (hrow : (db.version document.id document.currentVersion).isSome = true) :
    ClientAgrees env db session document action versions acl organizationId now ↔
      (organizationId = some document.organizationId → (webStanding db session document).SameAccess
        (standing db (serverRequest session organizationId now) document) action) ∧
      (organizationId ≠ some document.organizationId →
        ¬((webStanding db session document).Grants action ∧ (action = .preview → document.status ≠ .DELETED))) := by
  have hgroups : normalizeGroups session.user.groups ⊆ getActorGroups (serverRequest session organizationId now) :=
    normalizeGroups_mono (List.subset_append_left _ _)
  have horg : (serverRequest session organizationId now).organizationId = organizationId := rfl
  rw [ClientAgrees, clientAllows_iff hv, serverAllows_iff hd hv hrow rfl, horg]
  by_cases hm : organizationId = some document.organizationId
  · simp only [hm, true_and, forall_const, ne_eq, not_true_eq_false, false_implies, and_true]
    exact Standing.sameAccess_iff
      (s := standing db (serverRequest session (some document.organizationId) now) document)
      (fun _ => matchesPermission_mono (hm ▸ hgroups)) fun _ => matchesPermission_mono (hm ▸ hgroups)
  · simp only [hm, false_and, iff_false, false_implies, true_and, ne_eq, not_false_eq_true, forall_const]

end

theorem client_agrees_sample :
    ClientAgrees sampleEnv sampleDb ⟨⟨"u-2", ["compliance_officer"], []⟩⟩ publishedDocument
    .download none none (some "o-1") 0 := by
  refine (client_agrees (by decide) (by decide) (by decide)).mpr ⟨fun _ => ?_, fun h => absurd rfl h⟩
  exact {
    deleted := fun h => absurd h (by decide)
    denied := fun _ h => absurd h (by decide)
    allowed := fun _ _ h => absurd (by decide) h.1 }

theorem deleted_preview_differs :
    ¬ClientAgrees sampleEnv sampleDb ⟨⟨"u-2", ["viewer"], []⟩⟩ deletedDocument .preview none none
      (some "o-1") 0 := by
  intro h
  have hclient : (getDocumentAccessDecision (some ⟨⟨"u-2", ["viewer"], []⟩⟩)
    (loaded sampleDb deletedDocument none none)
      .preview).allowed = false := rfl
  exact Bool.false_ne_true (hclient.symm.trans (h.mpr ⟨_, rfl⟩))

end DocVault
