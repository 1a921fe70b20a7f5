import DocVault.SharedAccess

/-!
# Reasons of denials without an ACL

A list of documents comes without their ACLs, and the client still says of each
whether the user may download it, and why not. It leaves out the reasons that
an ACL could lift, which it finds by their texts. `explained_iff` says for which
documents a reason is given all the same though some ACL would lift it.
-/

namespace DocVault

namespace WebPermissions

open ShareLinkAccess (includes)

/-! ## The decision that is shown -/

def hasAclContext (doc : DocumentContext) : Bool := doc.aclEntries.isSome || doc.acl.isSome

def isAclDependentDenial (reason : String) : Bool :=
  includes reason "explicit READ ACL allow" || includes reason "explicit DOWNLOAD ACL allow" ||
    includes reason "denied by classification policy"

def getExplainableDocumentAccessDecision (session : Option Session) (doc : DocumentContext)
    (action : DocumentAccessAction) :
    DocumentAccessDecision :=
  let decision := getDocumentAccessDecision session doc action
  let reason := decision.reason.getD ""
  if decision.allowed || reason = "" || hasAclContext doc then decision
  else if isAclDependentDenial reason then { allowed := false }
  else decision

/-! ## What an ACL can do -/

section
variable (session : Session) (doc : DocumentContext)

def withAcl (entries : List AclContextEntry) : DocumentContext := { doc with aclEntries := some entries }

/-- Some ACL lets the user do it. -/
def Openable (action : DocumentAccessAction) : Prop :=
  ∃ entries, (getDocumentAccessDecision (some session) (withAcl doc entries) action).allowed = true

/-- Whether the level lets the user have the content, where `explicit` says whether an ACL entry allows it. -/
def Cleared (explicit : Bool) : Prop :=
  "admin" ∈ session.user.roles ∨
    match doc.classification with
    | none | some .PUBLIC => True
    | some .INTERNAL => "editor" ∈ session.user.roles ∨ "approver" ∈ session.user.roles
    | some .CONFIDENTIAL => isOwner (some session) doc.ownerId = true ∨ explicit = true
    | some .SECRET =>
        "approver" ∈ session.user.roles ∧ (isOwner (some session) doc.ownerId = true ∨ explicit = true)

/-- What is left besides the ACL for content: no officer, a version, and a level that an ACL entry can clear. -/
def Servable (bypass : Bool) : Prop :=
  "compliance_officer" ∉ session.user.roles ∧ hasDocumentVersion doc = true ∧
  (bypass = true ∨ Cleared session doc true)

/-- The document is confidential and the user no owner, nor of a role that reads such documents. -/
def Outranked : Prop :=
  doc.classification = some .CONFIDENTIAL ∧ isOwner (some session) doc.ownerId = false ∧
    hasAnyUserRole (some session) ["editor", "approver", "admin"] = false

def released : Bool := doc.status = .PUBLISHED || doc.status = .ARCHIVED

/-- The documents whose denial an ACL would lift, with a reason that does not say so. -/
def Premature : DocumentAccessAction → Prop
  | .metadata => doc.status ≠ .DELETED ∧ "admin" ∉ session.user.roles ∧ isOwner (some session) doc.ownerId = false ∧
      released doc = false ∧ ("approver" ∈ session.user.roles → "compliance_officer" ∈ session.user.roles ∨
        doc.status ≠ .PENDING)
  | .download => doc.status = .PUBLISHED ∧ Servable session doc false ∧ Outranked session doc
  | .preview => doc.status ≠ .DELETED ∧ Servable session doc false ∧ Outranked session doc

variable {session doc}

def ownAllow (session : Session) (permission : DocumentPermission) : AclContextEntry where
  subjectType := .USER
  subjectId := .val session.user.sub
  permission := permission
  effect := .ALLOW

theorem matchesAcl_none (h : hasAclContext doc = false) (permission : DocumentPermission) (effect : AclEffect) :
    matchesAcl (some session) doc permission effect = false := by
  obtain ⟨hentries, hacl⟩ := Bool.or_eq_false_iff.mp h
  simp [matchesAcl, getAclEntries, Option.not_isSome_iff_eq_none.mp (by simpa using hentries),
    Option.not_isSome_iff_eq_none.mp (by simpa using hacl)]

theorem matchesAcl_own (granted permission : DocumentPermission) (effect : AclEffect) :
    matchesAcl (some session) (withAcl doc [ownAllow session granted]) permission effect =
      (decide (granted = permission) && decide (effect = .ALLOW)) := by
  cases granted <;> cases permission <;> cases effect <;>
    simp [matchesAcl, getAclEntries, withAcl, ownAllow, matchesSubject]

theorem metadata_openable : Openable session doc .metadata ↔ doc.status ≠ .DELETED := by
  apply Iff.intro
  · intro h hdeleted
    obtain ⟨entries, h⟩ := h
    simp [getDocumentAccessDecision, getMetadataAccessDecision, withAcl, hdeleted] at h
  · intro h
    refine ⟨[ownAllow session .READ], ?_⟩
    have hstatus : (withAcl doc [ownAllow session .READ]).status = doc.status := rfl
    simp [getDocumentAccessDecision, getMetadataAccessDecision, matchesAcl_own, hstatus, h]

theorem hasRole_iff {role : String} : hasRole (some session) role = true ↔ role ∈ session.user.roles :=
  List.contains_iff_mem

theorem hasRole_eq_false {role : String} : hasRole (some session) role = false ↔ role ∉ session.user.roles := by
  rw [← Bool.not_eq_true, hasRole_iff]

theorem content_allowed (permission : DocumentPermission) (approverBypasses ownerBypasses : Bool) :
    (getClassificationContentDecision (some session) doc permission approverBypasses ownerBypasses).allowed = true ↔
      (approverBypasses = true ∧ "approver" ∈ session.user.roles ∨
        ownerBypasses = true ∧ isOwner (some session) doc.ownerId = true) ∨
      Cleared session doc (matchesAcl (some session) doc permission .ALLOW) := by
  unfold getClassificationContentDecision Cleared
  generalize matchesAcl (some session) doc permission .ALLOW = explicit
  cases hc : doc.classification with
  | none => simp
  | some level =>
    by_cases ha : "admin" ∈ session.user.roles
    · simp [hasRole_iff, ha]
    · by_cases hp : approverBypasses = true ∧ "approver" ∈ session.user.roles
      · simp [hasRole_iff, ha, hp]
      · by_cases ho : ownerBypasses = true ∧ isOwner (some session) doc.ownerId = true
        · simp [hasRole_iff, ha, hp, ho]
        · simp only [hasRole_iff, ha, Bool.and_eq_true, if_neg hp, if_neg ho, if_false]
          cases level <;> simp [hasAnyUserRole, hasRole_iff, ha, hp, ho,
            apply_ite DocumentAccessDecision.allowed, and_comm]

theorem Cleared.explicit {explicit : Bool} (h : Cleared session doc explicit) : Cleared session doc true := by
  cases explicit with
  | true => exact h
  | false =>
    apply h.imp id
    intro h
    cases hc : doc.classification with
    | none => trivial
    | some level =>
      rw [hc] at h
      cases level with
      | PUBLIC => trivial
      | INTERNAL => exact h
      | CONFIDENTIAL => exact .inr rfl
      | SECRET => exact ⟨h.1, .inr rfl⟩

theorem download_allowed : (getDownloadAccessDecision (some session) doc).allowed = true ↔
    doc.status = .PUBLISHED ∧ "compliance_officer" ∉ session.user.roles ∧ hasDocumentVersion doc = true ∧
      matchesAcl (some session) doc .DOWNLOAD .DENY = false ∧
      Cleared session doc (matchesAcl (some session) doc .DOWNLOAD .ALLOW) := by
  unfold getDownloadAccessDecision
  by_cases hco : "compliance_officer" ∈ session.user.roles
  · simp [hasRole_iff, hco]
  · by_cases hs : doc.status = .PUBLISHED
    · cases hv : hasDocumentVersion doc with
      | false => simp [hasRole_iff, hco, hs]
      | true =>
        cases hd : matchesAcl (some session) doc .DOWNLOAD .DENY <;>
          simp [hasRole_iff, hco, hs, content_allowed]
    · simp [hasRole_iff, hco, hs]

def previewBypass (session : Session) (doc : DocumentContext) : Bool :=
  session.user.roles.contains "approver" || isOwner (some session) doc.ownerId

theorem preview_allowed : (getPreviewAccessDecision (some session) doc).allowed = true ↔
    doc.status ≠ .DELETED ∧ "compliance_officer" ∉ session.user.roles ∧ hasDocumentVersion doc = true ∧
      matchesAcl (some session) doc .READ .DENY = false ∧
      (previewBypass session doc = true ∨ Cleared session doc (matchesAcl (some session) doc .READ .ALLOW)) := by
  unfold getPreviewAccessDecision
  by_cases hco : "compliance_officer" ∈ session.user.roles
  · simp [hasRole_iff, hco]
  · by_cases hs : doc.status = .DELETED
    · simp [hasRole_iff, hco, hs]
    · cases hv : hasDocumentVersion doc with
      | false => simp [hasRole_iff, hco, hs]
      | true =>
        cases hd : matchesAcl (some session) doc .READ .DENY <;>
          simp [hasRole_iff, hco, hs, content_allowed, previewBypass]

theorem download_openable : Openable session doc .download ↔
    doc.status = .PUBLISHED ∧ Servable session doc false := by
  apply Iff.intro
  · intro h
    obtain ⟨entries, h⟩ := h
    obtain ⟨hs, hco, hv, -, hcleared⟩ := download_allowed.mp h
    exact ⟨hs, hco, hv, .inr (@Cleared.explicit session doc _ hcleared)⟩
  · intro h
    obtain ⟨hs, hco, hv, hcleared⟩ := h
    refine ⟨[ownAllow session .DOWNLOAD], download_allowed.mpr ⟨hs, hco, hv, ?_, ?_⟩⟩
    · rw [matchesAcl_own]
      rfl
    · rw [matchesAcl_own]
      exact hcleared.resolve_left Bool.false_ne_true

theorem preview_openable :
    Openable session doc .preview ↔ doc.status ≠ .DELETED ∧ Servable session doc (previewBypass session doc) := by
  apply Iff.intro
  · intro h
    obtain ⟨entries, h⟩ := h
    obtain ⟨hs, hco, hv, -, hcleared⟩ := preview_allowed.mp h
    exact ⟨hs, hco, hv, hcleared.imp id (@Cleared.explicit session doc _)⟩
  · intro h
    obtain ⟨hs, hco, hv, hcleared⟩ := h
    refine ⟨[ownAllow session .READ], preview_allowed.mpr ⟨hs, hco, hv, ?_, ?_⟩⟩
    · rw [matchesAcl_own]
      rfl
    · rw [matchesAcl_own]
      exact hcleared

/-! ## What is said of a denial -/

/-- A decision allows it, or says why an ACL would not help, or is kept quiet where one would. -/
inductive Accounted (session : Session) (doc : DocumentContext) (action : DocumentAccessAction) : Prop
  | granted (hallowed : (getDocumentAccessDecision (some session) doc action).allowed = true)
      (hpremature : ¬ Premature session doc action)
  | spoken (reason : String) (hdeny : getDocumentAccessDecision (some session) doc action = deny reason)
      (hne : reason ≠ "") (hdependent : isAclDependentDenial reason = false)
      (hopenable : Openable session doc action ↔ Premature session doc action)
  | hushed (reason : String) (hdeny : getDocumentAccessDecision (some session) doc action = deny reason)
      (hne : reason ≠ "") (hdependent : isAclDependentDenial reason = true)
      (hopenable : Openable session doc action) (hpremature : ¬ Premature session doc action)

theorem released_metadata (hctx : hasAclContext doc = false) (hdeleted : doc.status ≠ .DELETED)
    (ha : "admin" ∉ session.user.roles) (ho : isOwner (some session) doc.ownerId = false)
    (hreleased : released doc = true) : (getDocumentAccessDecision (some session) doc .metadata).allowed = true ∨
      getDocumentAccessDecision (some session) doc .metadata =
        deny "Metadata read denied by classification policy." := by
  have hm := @matchesAcl_none session doc hctx
  have hopen : (doc.status = .PUBLISHED || doc.status = .ARCHIVED) = true := hreleased
  unfold getDocumentAccessDecision getMetadataAccessDecision
  simp only [Option.isNone_some, Bool.false_eq_true, if_false, hdeleted, hm, hasRole_iff, ha, ho, Bool.or_self,
    hopen, Bool.or_true, if_true, Bool.not_true, Bool.and_false]
  by_cases hco : "compliance_officer" ∈ session.user.roles
  · rw [if_pos hco]
    exact .inl rfl
  · rw [if_neg hco]
    by_cases hp : "approver" ∈ session.user.roles
    · rw [if_pos hp]
      exact .inl rfl
    · rw [if_neg hp]
      -- the level alone is left
      split
      · exact .inl rfl
      · split
        · exact .inl rfl
        · exact .inr rfl

theorem metadata_accounted (hctx : hasAclContext doc = false) : Accounted session doc .metadata := by
  have hm := @matchesAcl_none session doc hctx
  have hopenable := @metadata_openable session doc
  by_cases hdeleted : doc.status = .DELETED
  · refine .spoken "Document is deleted." ?_ (by decide) (by decide +kernel) ?_
    · simp [getDocumentAccessDecision, getMetadataAccessDecision, hdeleted]
    · simp [hopenable, Premature, hdeleted]
  · by_cases hfree : "admin" ∈ session.user.roles ∨ isOwner (some session) doc.ownerId = true
    · refine .granted ?_ ?_
      · obtain ha | ho := hfree
        · simp [getDocumentAccessDecision, getMetadataAccessDecision, hm, hdeleted, hasRole_iff, ha]
        · simp [getDocumentAccessDecision, getMetadataAccessDecision, hm, hdeleted, ho]
      · intro hp
        obtain ⟨-, hadmin, howner, -⟩ := hp
        exact hfree.elim hadmin (by simp [howner])
    · obtain ⟨ha, ho⟩ := not_or.mp hfree
      have ho := Bool.eq_false_of_not_eq_true ho
      have hopen : Openable session doc .metadata := hopenable.mpr hdeleted
      by_cases hreleased : released doc = true
      · have hnot : ¬ Premature session doc .metadata := fun hp => by simp [hp.2.2.2.1] at hreleased
        obtain hallowed | hdeny := released_metadata hctx hdeleted ha ho hreleased
        · exact .granted hallowed hnot
        · exact .hushed _ hdeny (by decide) (by decide +kernel) hopen hnot
      · have hreleased := Bool.eq_false_of_not_eq_true hreleased
        have hpremature : Premature session doc .metadata ↔ ("approver" ∈ session.user.roles →
            "compliance_officer" ∈ session.user.roles ∨ doc.status ≠ .PENDING) := by
          simp [Premature, hdeleted, ha, ho, hreleased]
        unfold released at hreleased
        by_cases hco : "compliance_officer" ∈ session.user.roles
        · refine .spoken "Compliance officers can only read published or archived metadata." ?_
            (by decide) (by decide +kernel) ?_
          · simp [getDocumentAccessDecision, getMetadataAccessDecision, hm, hasRole_iff,
              hdeleted, ha, ho, hco, hreleased]
          · exact iff_of_true hopen (hpremature.mpr fun _ => .inl hco)
        · by_cases hp : "approver" ∈ session.user.roles
          · by_cases hs : doc.status = .PENDING
            · refine .granted ?_ ?_
              · simp [getDocumentAccessDecision, getMetadataAccessDecision, hm, hasRole_iff, ha, ho, hco, hp, hs]
              · exact fun hpre => (hpremature.mp hpre hp).elim hco (absurd hs)
            · refine .spoken "Approvers can only read pending, published, or archived metadata." ?_ (by decide)
                (by decide +kernel) ?_
              · simp [getDocumentAccessDecision, getMetadataAccessDecision, hm, hasRole_iff, hdeleted, ha,
                  ho, hco, hp, hs, hreleased]
              · exact iff_of_true hopen (hpremature.mpr fun _ => .inr hs)
          · refine .spoken "Only published or archived documents are readable by this user." ?_
              (by decide) (by decide +kernel) ?_
            · simp [getDocumentAccessDecision, getMetadataAccessDecision, hm, hasRole_iff, hdeleted,
                ha, ho, hco, hp, hreleased]
            · exact iff_of_true hopen (hpremature.mpr fun happrover => absurd happrover hp)

/-- What the level says where no ACL entry allows the content. -/
inductive Refused (session : Session) (doc : DocumentContext) (reason : String) : Prop
  | beyond (hdependent : isAclDependentDenial reason = false) (hcleared : ¬ Cleared session doc true)
  | outranked (hdependent : isAclDependentDenial reason = false) (houtranked : Outranked session doc)
  | closed (hdependent : isAclDependentDenial reason = true) (hcleared : Cleared session doc true)
      (houtranked : ¬ Outranked session doc)

theorem content_refused {permission : DocumentPermission} {approverBypasses ownerBypasses : Bool}
    (hpermission : permission = .READ ∨ permission = .DOWNLOAD)
    (hno : matchesAcl (some session) doc permission .ALLOW = false)
    (hdenied : (getClassificationContentDecision (some session) doc permission
      approverBypasses ownerBypasses).allowed ≠ true) :
    ∃ reason, getClassificationContentDecision (some session) doc permission
      approverBypasses ownerBypasses = deny reason ∧ reason ≠ "" ∧ Refused session doc reason := by
  have hfree := mt (content_allowed permission approverBypasses ownerBypasses).mpr hdenied
  rw [hno] at hfree
  obtain ⟨hbypass, hcleared⟩ := not_or.mp hfree
  obtain ⟨happrover, howner⟩ := not_or.mp hbypass
  obtain ⟨ha, hlevel⟩ := not_or.mp hcleared
  unfold getClassificationContentDecision
  cases hc : doc.classification with
  | none => simp [hc] at hlevel
  | some level =>
    rw [hc] at hlevel
    simp only [hno, hasRole_iff, ha, Bool.and_eq_true, if_neg happrover, if_neg howner, if_false]
    cases level with
    | PUBLIC => simp at hlevel
    | INTERNAL =>
      have hany : hasAnyUserRole (some session) ["editor", "approver", "admin"] = false := by
        simpa [hasAnyUserRole, hasRole_eq_false, ha] using hlevel
      refine ⟨"INTERNAL documents require at least the editor role.", by simp [hany], by decide,
        .beyond (by decide +kernel) ?_⟩
      simpa [Cleared, hc, ha] using hlevel
    | CONFIDENTIAL =>
      have hown : isOwner (some session) doc.ownerId = false := by simpa using hlevel
      have hopen : Cleared session doc true := by simp [Cleared, hc]
      cases hany : hasAnyUserRole (some session) ["editor", "approver", "admin"] with
      | false =>
        exact ⟨"CONFIDENTIAL documents require at least the editor role.", by simp [hown], by decide,
          .outranked (by decide +kernel) ⟨hc, hown, hany⟩⟩
      | true =>
        refine ⟨s!"CONFIDENTIAL documents require ownership or explicit {permission} ACL allow.",
          by simp [hown], ?_, .closed ?_ hopen fun houtranked => by simp [houtranked.2.2] at hany⟩
        · obtain rfl | rfl := hpermission <;> decide +kernel
        · obtain rfl | rfl := hpermission <;> decide +kernel
    | SECRET =>
      by_cases hp : "approver" ∈ session.user.roles
      · have hown : isOwner (some session) doc.ownerId = false := by simpa [hp] using hlevel
        have hany : hasAnyUserRole (some session) ["approver", "admin"] = true := by
          simp [hasAnyUserRole, hasRole_iff, hp]
        refine ⟨s!"SECRET documents require ownership or explicit {permission} ACL allow.",
          by simp [hown, hany], ?_,
          .closed ?_ (by simp [Cleared, hc, hp]) fun houtranked => by simp [houtranked.1] at hc⟩
        · obtain rfl | rfl := hpermission <;> decide +kernel
        · obtain rfl | rfl := hpermission <;> decide +kernel
      · have hany : hasAnyUserRole (some session) ["approver", "admin"] = false := by
          simp [hasAnyUserRole, hasRole_eq_false, hp, ha]
        exact ⟨"SECRET documents require at least the approver role.", by simp [hany], by decide,
          .beyond (by decide +kernel) (by simp [Cleared, hc, hp, ha])⟩

theorem Outranked.no_role (h : Outranked session doc) {role : String}
    (hrole : role ∈ ["editor", "approver", "admin"]) : role ∉ session.user.roles := by
  have hany := List.any_eq_false.mp h.2.2 role hrole
  rwa [hasRole_iff] at hany

theorem Outranked.cleared (h : Outranked session doc) : Cleared session doc true := by
  simp [Cleared, h.1]

theorem Outranked.not_cleared (h : Outranked session doc) : ¬ Cleared session doc false := by
  have hadmin := h.no_role (show "admin" ∈ _ by decide)
  obtain ⟨hlevel, howner, -⟩ := h
  simp [Cleared, hlevel, howner, hadmin]

theorem content_accounted {action : DocumentAccessAction} {permission : DocumentPermission}
    {approverBypasses ownerBypasses : Bool} (hpermission : permission = .READ ∨ permission = .DOWNLOAD)
    (hctx : hasAclContext doc = false) (hdecision : getDocumentAccessDecision (some session) doc action =
      getClassificationContentDecision (some session) doc permission approverBypasses ownerBypasses)
    (hopenable : Cleared session doc true → Openable session doc action)
    (hclosed : (getDocumentAccessDecision (some session) doc action).allowed ≠ true → Openable session doc action →
      Cleared session doc true)
    (hpremature : Premature session doc action ↔ Outranked session doc) : Accounted session doc action := by
  have hno := @matchesAcl_none session doc hctx permission .ALLOW
  by_cases hallowed : (getDocumentAccessDecision (some session) doc action).allowed = true
  · refine .granted hallowed fun hp => ?_
    have houtranked := hpremature.mp hp
    rw [hdecision, content_allowed, hno] at hallowed
    obtain ⟨-, happrover⟩ | ⟨-, howner⟩ := hallowed.resolve_right houtranked.not_cleared
    · exact houtranked.no_role (by decide) happrover
    · exact Bool.false_ne_true (houtranked.2.1.symm.trans howner)
  · obtain ⟨reason, hdeny, hne, hrefused⟩ := content_refused hpermission hno (hdecision ▸ hallowed)
    cases hrefused with
    | beyond hdependent hcleared =>
      refine .spoken reason (hdecision.trans hdeny) hne hdependent (iff_of_false ?_ ?_)
      · exact fun h => hcleared (hclosed hallowed h)
      · exact fun hp => hcleared (hpremature.mp hp).cleared
    | outranked hdependent houtranked =>
      exact .spoken reason (hdecision.trans hdeny) hne hdependent
        (iff_of_true (hopenable houtranked.cleared) (hpremature.mpr houtranked))
    | closed hdependent hcleared houtranked =>
      exact .hushed reason (hdecision.trans hdeny) hne hdependent (hopenable hcleared) (mt hpremature.mp houtranked)

theorem accounted_of_deny {action : DocumentAccessAction} (reason : String)
    (hdeny : getDocumentAccessDecision (some session) doc action = deny reason) (hne : reason ≠ "")
    (hdependent : isAclDependentDenial reason = false) (hopenable : ¬ Openable session doc action)
    (hpremature : ¬ Premature session doc action) : Accounted session doc action :=
  .spoken reason hdeny hne hdependent (iff_of_false hopenable hpremature)

theorem servable_iff (hco : "compliance_officer" ∉ session.user.roles) (hv : hasDocumentVersion doc = true)
    {bypass : Bool} : Servable session doc bypass ↔ bypass = true ∨ Cleared session doc true := by
  simp [Servable, hco, hv]

theorem download_accounted (hctx : hasAclContext doc = false) : Accounted session doc .download := by
  have hm := @matchesAcl_none session doc hctx
  have hopenable := @download_openable session doc
  by_cases hco : "compliance_officer" ∈ session.user.roles
  · refine accounted_of_deny "Compliance officers cannot download file content." ?_ (by decide)
      (by decide +kernel) ?_ ?_
    · simp [getDocumentAccessDecision, getDownloadAccessDecision, hasRole_iff, hco]
    · exact fun h => (hopenable.mp h).2.1 hco
    · exact fun h => h.2.1.1 hco
  · by_cases hs : doc.status = .PUBLISHED
    · by_cases hv : hasDocumentVersion doc = true
      · rw [servable_iff hco hv] at hopenable
        refine @content_accounted session doc _ .DOWNLOAD false false (.inr rfl) hctx ?_ ?_ ?_ ?_
        · simp [getDocumentAccessDecision, getDownloadAccessDecision, hasRole_iff, hm, hco, hs, hv]
        · exact fun hcleared => hopenable.mpr ⟨hs, .inr hcleared⟩
        · exact fun _ hopen => (hopenable.mp hopen).2.resolve_left Bool.false_ne_true
        · simp only [Premature, servable_iff hco hv]
          exact ⟨fun h => h.2.2, fun h => ⟨hs, .inr h.cleared, h⟩⟩
      · refine accounted_of_deny "Document has no uploaded version." ?_ (by decide) (by decide +kernel) ?_ ?_
        · simp [getDocumentAccessDecision, getDownloadAccessDecision, hasRole_iff, hco, hs, hv]
        · exact fun h => hv (hopenable.mp h).2.2.1
        · exact fun h => hv h.2.1.2.1
    · refine accounted_of_deny "Only published documents can be downloaded." ?_ (by decide)
        (by decide +kernel) ?_ ?_
      · simp [getDocumentAccessDecision, getDownloadAccessDecision, hasRole_iff, hco, hs]
      · exact fun h => hs (hopenable.mp h).1
      · exact fun h => hs h.1

theorem preview_accounted (hctx : hasAclContext doc = false) : Accounted session doc .preview := by
  have hm := @matchesAcl_none session doc hctx
  have hopenable := @preview_openable session doc
  by_cases hco : "compliance_officer" ∈ session.user.roles
  · refine accounted_of_deny "Compliance officers cannot preview file content." ?_ (by decide)
      (by decide +kernel) ?_ ?_
    · simp [getDocumentAccessDecision, getPreviewAccessDecision, hasRole_iff, hco]
    · exact fun h => (hopenable.mp h).2.1 hco
    · exact fun h => h.2.1.1 hco
  · by_cases hs : doc.status = .DELETED
    · refine accounted_of_deny "Deleted documents cannot be previewed." ?_ (by decide) (by decide +kernel) ?_ ?_
      · simp [getDocumentAccessDecision, getPreviewAccessDecision, hasRole_iff, hco, hs]
      · exact fun h => (hopenable.mp h).1 hs
      · exact fun h => h.1 hs
    · by_cases hv : hasDocumentVersion doc = true
      · rw [servable_iff hco hv] at hopenable
        refine @content_accounted session doc _ .READ true true (.inl rfl) hctx ?_ ?_ ?_ ?_
        · simp [getDocumentAccessDecision, getPreviewAccessDecision, hasRole_iff, hm, hco, hs, hv]
        · exact fun hcleared => hopenable.mpr ⟨hs, .inr hcleared⟩
        · intro hdenied hopen
          -- who bypasses the level is not denied
          refine (hopenable.mp hopen).2.resolve_left fun hbypass => hdenied ?_
          exact preview_allowed.mpr ⟨hs, hco, hv, hm .READ .DENY, .inl hbypass⟩
        · simp only [Premature, servable_iff hco hv]
          exact ⟨fun h => h.2.2, fun h => ⟨hs, .inr h.cleared, h⟩⟩
      · refine accounted_of_deny "Document has no uploaded version." ?_ (by decide) (by decide +kernel) ?_ ?_
        · simp [getDocumentAccessDecision, getPreviewAccessDecision, hasRole_iff, hco, hs, hv]
        · exact fun h => hv (hopenable.mp h).2.2.1
        · exact fun h => hv h.2.1.2.1

theorem accounted (hctx : hasAclContext doc = false) (action : DocumentAccessAction) :
    Accounted session doc action := by
  cases action with
  | metadata => exact metadata_accounted hctx
  | download => exact download_accounted hctx
  | preview => exact preview_accounted hctx

@[simp] theorem deny_reason (reason : String) : (deny reason).reason = some reason := rfl

/-- Without an ACL at hand a reason is given where an ACL would lift the denial exactly for a premature one,
and no reason is given exactly for the other denials that an ACL would lift. -/
theorem explained_iff (hctx : hasAclContext doc = false) (action : DocumentAccessAction) :
    ((∃ reason, getExplainableDocumentAccessDecision (some session) doc action = deny reason) ∧
      Openable session doc action ↔ Premature session doc action) ∧
    (getExplainableDocumentAccessDecision (some session) doc action = { allowed := false } ↔
      (getDocumentAccessDecision (some session) doc action).allowed = false ∧ Openable session doc action ∧
        ¬ Premature session doc action) := by
  have h : Accounted session doc action := accounted hctx action
  unfold getExplainableDocumentAccessDecision
  cases h with
  | granted hallowed hpremature =>
    simp only [hallowed, Bool.true_or, if_true]
    refine ⟨iff_of_false ?_ hpremature, iff_of_false ?_ ?_⟩
    · intro h
      obtain ⟨⟨reason, h⟩, -⟩ := h
      simp [h] at hallowed
    · intro h
      simp [h] at hallowed
    · exact fun h => Bool.false_ne_true h.1.symm
  | spoken reason hdeny hne hdependent hopenable =>
    have hshown : (if (deny reason).allowed || (deny reason).reason.getD "" = "" ||
      hasAclContext doc then deny reason
        else if isAclDependentDenial ((deny reason).reason.getD "") then { allowed := false }
          else deny reason) = deny reason := by
      simp [hdependent]
    rw [hdeny]
    dsimp only
    rw [hshown]
    refine ⟨?_, iff_of_false ?_ ?_⟩
    · rw [and_iff_right ⟨reason, rfl⟩]
      exact hopenable
    · simp [deny]
    · exact fun h => h.2.2 (hopenable.mp h.2.1)
  | hushed reason hdeny hne hdependent hopenable hpremature =>
    have hquiet : (if (deny reason).allowed || (deny reason).reason.getD "" = "" ||
      hasAclContext doc then deny reason
        else if isAclDependentDenial ((deny reason).reason.getD "") then { allowed := false } else deny reason) =
          { allowed := false } := by
      simp [hne, hctx, hdependent]
    rw [hdeny]
    dsimp only
    rw [hquiet]
    refine ⟨iff_of_false ?_ hpremature, iff_of_true rfl ⟨rfl, hopenable, hpremature⟩⟩
    intro h
    obtain ⟨⟨reason, h⟩, -⟩ := h
    simp [deny] at h

end

def deniedViewer : Session where
  user := { sub := "vera", roles := ["viewer"] }

def listedDocument : DocumentContext where
  status := .PUBLISHED
  ownerId := .val "edith"
  classification := some .CONFIDENTIAL
  currentVersion := .val 1

/-- The viewer is told that the document is not for viewers, though an entry of its ACL may say otherwise. -/
theorem explained_sample :
    (∃ reason, getExplainableDocumentAccessDecision (some deniedViewer) listedDocument .download = deny reason) ∧
      Openable deniedViewer listedDocument .download :=
  (explained_iff rfl .download).1.mpr ⟨rfl, ⟨by decide, by decide, .inr (.inr (.inr rfl))⟩,
    rfl, by decide, by decide⟩

end WebPermissions

end DocVault
