import DocVault.ContentAccess

/-!
# Adding to an ACL

What a further entry of an ACL does to the decisions of `PolicyService`. A share
link is resolved without the ACL; the rules of access are monotone in what the ACL
allows and antitone in what it denies, and the ACL is only asked whether it has
a matching entry.
-/

namespace DocVault

/-! ## Rules -/

namespace Standing
variable {s : Standing} {denied allowed : DocumentPermission → Bool}

/-- An ACL that denies no more and allows no less. -/
structure Wider (s : Standing) (denied allowed : DocumentPermission → Bool) : Prop where
  denied : ∀ permission, s.denied permission = false → denied permission = false
  allowed : ∀ permission, s.allowed permission = true → allowed permission = true

theorem cleared_wider (h : s.Wider denied allowed) {permission : DocumentPermission} (hs : s.Cleared permission) :
    (s.withAcl denied allowed).Cleared permission := by
  unfold Cleared at hs ⊢
  apply hs.imp_right
  simp only [withAcl]
  intro hs
  cases hclass : s.classification with
  | PUBLIC => trivial
  | INTERNAL => simpa only [hclass] using hs
  | CONFIDENTIAL =>
    simp only [hclass] at hs ⊢
    exact hs.imp_left (h.allowed permission)
  | SECRET =>
    simp only [hclass] at hs ⊢
    exact hs.imp_right fun hs => hs.imp_left (h.allowed permission)

theorem downloads_wider (h : s.Wider denied allowed) (hs : s.Downloads) : (s.withAcl denied allowed).Downloads :=
  ⟨h.denied _ hs.1, cleared_wider h hs.2⟩

theorem previews_wider (h : s.Wider denied allowed) (hs : s.Previews) : (s.withAcl denied allowed).Previews :=
  ⟨h.denied _ hs.1, hs.2.imp_right fun hs => hs.imp_right (cleared_wider h)⟩

theorem reads_wider (h : s.Wider denied allowed) (hs : s.Reads) : (s.withAcl denied allowed).Reads := by
  refine ⟨h.denied _ hs.1, ?_⟩
  rcases hs.2 with hs | hs | hs
  · exact .inl hs
  · exact .inr (.inl (hs.imp (h.allowed _) (h.allowed _)))
  · exact .inr (.inr hs)

end Standing

/-! ## Decisions -/

namespace PolicyDb

def withEntries (db : PolicyDb) (entries : List DocumentAcl) : PolicyDb := { db with aclEntries := entries }

end PolicyDb

inductive PolicyDecision where
  | authorizeDownload (dto : GrantDto)
  | authorizePreview (dto : GrantDto)
  | assertCanReadMetadata

namespace PolicyDecision

open PolicyService (standing matchesPermission matchesSubject getActorGroups)

def run (env : PolicyEnv) (db : PolicyDb) (docId : String) (request : PolicyRequest) :
    PolicyDecision → Except HttpError (Authorization ⊕ Document)
  | authorizeDownload dto => (PolicyService.authorizeDownload env db docId dto request).map .inl
  | authorizePreview dto => (PolicyService.authorizePreview env db docId dto request).map .inl
  | assertCanReadMetadata => (PolicyService.assertCanReadMetadata env db docId request).map .inr

def permission : PolicyDecision → DocumentPermission
  | authorizeDownload _ => .DOWNLOAD
  | authorizePreview _ => .READ
  | assertCanReadMetadata => .READ

def Succeeds (env : PolicyEnv) (db : PolicyDb) (docId : String) (request : PolicyRequest)
    (decision : PolicyDecision) :
    Prop := ∃ a, decision.run env db docId request = .ok a

/-- What a decision does with the entries of an ACL. -/
structure OrderFree (env : PolicyEnv) (db : PolicyDb) (docId : String) (request : PolicyRequest)
    (decision : PolicyDecision) : Prop where
  allow : ∀ entry entries, entry.effect = .ALLOW → (∀ e, e ∈ entries ↔ e = entry ∨ e ∈ db.aclEntries) →
    decision.Succeeds env db docId request → decision.Succeeds env (db.withEntries entries) docId request
  deny : ∀ entry entries, entry.effect = .DENY → (∀ e, e ∈ entries ↔ e = entry ∨ e ∈ db.aclEntries) →
    ¬ decision.Succeeds env db docId request → ¬ decision.Succeeds env (db.withEntries entries) docId request
  same : ∀ entries, (∀ e, e ∈ entries ↔ e ∈ db.aclEntries) →
    decision.run env (db.withEntries entries) docId request = decision.run env db docId request
  denied : ∀ entry ∈ db.aclEntries, entry.docId = docId → entry.effect = .DENY →
      entry.permission = decision.permission →
      matchesSubject entry request.actorId request.roles (getActorGroups request) = true →
      ¬ decision.Succeeds env db docId request

def Rule (s : Standing) : PolicyDecision → Prop
  | authorizeDownload _ => s.Downloads
  | authorizePreview _ => s.Previews
  | assertCanReadMetadata => s.Reads

/-- What the decision asks for beside its rule; no entry of an ACL is looked at. -/
def Admits (db : PolicyDb) (docId : String) (request : PolicyRequest) (document : Document) : PolicyDecision → Prop
  | authorizeDownload dto => PolicyService.findInOrg db docId request = .ok document ∧
      1 ≤ dto.version.getD document.currentVersion ∧
      (db.version docId (dto.version.getD document.currentVersion)).isSome = true ∧
      "compliance_officer" ∉ request.roles ∧ document.status = .PUBLISHED
  | authorizePreview dto => PolicyService.findInOrg db docId request = .ok document ∧
      1 ≤ dto.version.getD document.currentVersion ∧
      (db.version docId (dto.version.getD document.currentVersion)).isSome = true ∧
      "compliance_officer" ∉ request.roles
  | assertCanReadMetadata => PolicyService.findInOrg db docId request = .ok document ∧ document.status ≠ .DELETED

/-- The decision is taken by the share link of the request. -/
def Shared (env : PolicyEnv) (db : PolicyDb) (docId : String) (request : PolicyRequest) : PolicyDecision → Prop
  | authorizeDownload _ =>
      PolicyService.resolveShareGrant env db docId request.shareToken request.now = some .DOWNLOAD
  | authorizePreview _ =>
      (PolicyService.resolveShareGrant env db docId request.shareToken request.now).isSome = true
  | assertCanReadMetadata =>
      (PolicyService.resolveShareGrant env db docId request.shareToken request.now).isSome = true ∧
        hasSome request.roles PolicyService.SHARE_LINK_RECIPIENT_ROLES = true

variable {env : PolicyEnv} {db : PolicyDb} {docId : String} {request : PolicyRequest} {decision : PolicyDecision}
  {document : Document} {entry : DocumentAcl} {entries : List DocumentAcl}

theorem map_ok {ε α β : Type} {f : α → β} {x : Except ε α} : (∃ b, x.map f = .ok b) ↔ ∃ a, x = .ok a := by
  cases x <;> simp [Except.map]

theorem resolve_none (h : request.shareToken = none) :
    PolicyService.resolveShareGrant env db docId request.shareToken request.now = none := by
  rw [h]
  rfl

/-- A decision succeeds by a share link, which no entry of an ACL bears on, or by its rule. -/
theorem succeeds_shared : decision.Succeeds env db docId request ↔ ∃ document,
    decision.Admits db docId request document ∧
      (decision.Shared env db docId request ∨ decision.Rule (standing db request document)) := by
  unfold Succeeds run
  cases decision with
  | authorizeDownload dto =>
    rw [map_ok]
    simp only [PolicyService.authorizeDownload_ok, Admits, Shared, Rule]
    constructor
    · intro h
      obtain ⟨a, document, row, hf, hv, hrow, hc, hs, hrule, -⟩ := h
      exact ⟨document, ⟨hf, hv, by rw [hrow]; rfl, hc, hs⟩, hrule⟩
    · intro h
      obtain ⟨document, ⟨hf, hv, hrow, hc, hs⟩, hrule⟩ := h
      obtain ⟨row, hrow⟩ := Option.isSome_iff_exists.mp hrow
      exact ⟨_, document, row, hf, hv, hrow, hc, hs, hrule, rfl⟩
  | authorizePreview dto =>
    rw [map_ok]
    simp only [PolicyService.authorizePreview_ok, Admits, Shared, Rule]
    constructor
    · intro h
      obtain ⟨a, document, row, hf, hv, hrow, hc, hrule, -⟩ := h
      exact ⟨document, ⟨hf, hv, by rw [hrow]; rfl, hc⟩, hrule⟩
    · intro h
      obtain ⟨document, ⟨hf, hv, hrow, hc⟩, hrule⟩ := h
      obtain ⟨row, hrow⟩ := Option.isSome_iff_exists.mp hrow
      exact ⟨_, document, row, hf, hv, hrow, hc, hrule, rfl⟩
  | assertCanReadMetadata =>
    rw [map_ok]
    simp only [PolicyService.assertCanReadMetadata_ok, Admits, Shared, Rule, and_assoc]

theorem not_shared (h : request.shareToken = none) : ¬ decision.Shared env db docId request := by
  cases decision <;> simp [Shared, resolve_none h]

theorem succeeds_iff (h : request.shareToken = none) : decision.Succeeds env db docId request ↔
    ∃ document, decision.Admits db docId request document ∧ decision.Rule (standing db request document) := by
  simp only [succeeds_shared, not_shared h, false_or]

/-! ## Entries -/

theorem matches_iff {permission : DocumentPermission} {actorId : String} {roles groups : List String}
    {effect : AclEffect} : matchesPermission permission entries actorId roles groups effect = true ↔
      ∃ e ∈ entries, e.permission = permission ∧ e.effect = effect ∧
      matchesSubject e actorId roles groups = true := by
  simp only [matchesPermission, List.any_eq_true, Bool.and_eq_true, decide_eq_true_eq, and_assoc]

theorem acl_iff {e : DocumentAcl} : e ∈ db.acl docId ↔ e ∈ db.aclEntries ∧ e.docId = docId := by
  simp only [PolicyDb.acl, List.mem_filter, decide_eq_true_eq]

theorem matches_subset {permission : DocumentPermission} {effect : AclEffect} {actorId : String}
    {roles groups : List String} {db' : PolicyDb}
    (h : ∀ e ∈ db.aclEntries, e.effect = effect → e ∈ db'.aclEntries)
    (hm : matchesPermission permission (db.acl docId) actorId roles groups effect = true) :
    matchesPermission permission (db'.acl docId) actorId roles groups effect = true := by
  obtain ⟨e, he, hpermission, heffect, hsubject⟩ := matches_iff.mp hm
  obtain ⟨he, hdoc⟩ := acl_iff.mp he
  exact matches_iff.mpr ⟨e, acl_iff.mpr ⟨h e he heffect, hdoc⟩, hpermission, heffect, hsubject⟩

theorem succeeds_wider (hdeny : ∀ e ∈ entries, e.effect = .DENY → e ∈ db.aclEntries)
    (hallow : ∀ e ∈ db.aclEntries, e.effect = .ALLOW → e ∈ entries) (h : decision.Succeeds env db docId request) :
    decision.Succeeds env (db.withEntries entries) docId request := by
  obtain ⟨document, hadmits, hrule⟩ := succeeds_shared.mp h
  have hwider : (standing db request document).Wider (standing (db.withEntries entries) request document).denied
      (standing (db.withEntries entries) request document).allowed := by
    refine ⟨fun permission hd => ?_, fun permission ha => matches_subset hallow ha⟩
    rw [← Bool.not_eq_true] at hd ⊢
    exact fun hd' => hd (matches_subset hdeny hd')
  refine succeeds_shared.mpr ⟨document, ?_, hrule.imp (fun hshared => ?_) fun hrule => ?_⟩
  · cases decision <;> exact hadmits
  · cases decision <;> exact hshared
  · cases decision with
    | authorizeDownload dto => exact Standing.downloads_wider hwider hrule
    | authorizePreview dto => exact Standing.previews_wider hwider hrule
    | assertCanReadMetadata => exact Standing.reads_wider hwider hrule

theorem run_same (h : ∀ e, e ∈ entries ↔ e ∈ db.aclEntries) :
    decision.run env (db.withEntries entries) docId request = decision.run env db docId request := by
  have hmatches : ∀ permission id actorId roles groups effect,
      matchesPermission permission ((db.withEntries entries).acl id) actorId roles groups effect =
        matchesPermission permission (db.acl id) actorId roles groups effect := by
    intro permission id actorId roles groups effect
    rw [Bool.eq_iff_iff]
    exact ⟨matches_subset fun e he _ => (h e).mp he, matches_subset fun e he _ => (h e).mpr he⟩
  cases decision with
  | authorizeDownload dto =>
    simp only [run, PolicyService.authorizeDownload, PolicyService.matchesAcl, hmatches]
    rfl
  | authorizePreview dto =>
    simp only [run, PolicyService.authorizePreview, PolicyService.matchesPreviewAcl, hmatches]
    rfl
  | assertCanReadMetadata =>
    simp only [run, PolicyService.assertCanReadMetadata, PolicyService.matchesAcl, PolicyService.matchesPreviewAcl,
      hmatches]
    rfl

theorem refused_of_denied (hn : request.shareToken = none) (he : entry ∈ db.aclEntries) (hdoc : entry.docId = docId)
    (heffect : entry.effect = .DENY) (hpermission : entry.permission = decision.permission)
    (hsubject : matchesSubject entry request.actorId request.roles (getActorGroups request) = true) :
    ¬ decision.Succeeds env db docId request := by
  intro h
  obtain ⟨document, hadmits, hrule⟩ := (succeeds_iff hn).mp h
  have hid : document.id = docId := by
    cases decision <;> exact (PolicyService.findInOrg_ok.mp hadmits.1).2.1
  have hdenied : (standing db request document).denied decision.permission = true :=
    matches_iff.mpr ⟨entry, acl_iff.mpr ⟨he, hdoc.trans hid.symm⟩, hpermission, heffect, hsubject⟩
  have hnot : (standing db request document).denied decision.permission = false := by
    cases decision <;> exact hrule.1
  rw [hdenied] at hnot
  cases hnot

end PolicyDecision

/-- Entries act by what they are, not by their order: `ALLOW` opens and `DENY` closes. -/
theorem acl_order_free (env : PolicyEnv) (db : PolicyDb) (docId : String) {request : PolicyRequest}
    (hn : request.shareToken = none) (decision : PolicyDecision) : decision.OrderFree env db docId request where
  allow entry entries heffect hadd h := by
    refine PolicyDecision.succeeds_wider (fun e he hdeny => ?_) (fun e he _ => (hadd e).mpr (.inr he)) h
    rcases (hadd e).mp he with rfl | he
    · rw [heffect] at hdeny
      cases hdeny
    · exact he
  deny entry entries heffect hadd hnot h := by
    have hallow : ∀ e ∈ entries, e.effect = .ALLOW → e ∈ db.aclEntries := fun e he hallow => by
      rcases (hadd e).mp he with rfl | he
      · rw [heffect] at hallow
        cases hallow
      · exact he
    have hback : decision.Succeeds env ((db.withEntries entries).withEntries db.aclEntries) docId request :=
      PolicyDecision.succeeds_wider (fun e he _ => (hadd e).mpr (.inr he)) hallow h
    exact hnot hback
  same entries h := PolicyDecision.run_same h
  denied entry he hdoc heffect hpermission hsubject :=
    PolicyDecision.refused_of_denied hn he hdoc heffect hpermission hsubject

theorem acl_order_free_sample : PolicyDecision.assertCanReadMetadata.OrderFree PolicyService.sampleEnv
    PolicyService.sampleDb "d-1" (PolicyService.sampleMember ["admin"]) :=
  acl_order_free PolicyService.sampleEnv PolicyService.sampleDb "d-1" rfl .assertCanReadMetadata

end DocVault
