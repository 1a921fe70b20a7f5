import DocVault.AclEntries
import DocVault.TenantRoutes

/-!
# Views of the policy

`getAiGuardrails` and `getAccessImpactPreview` tell beforehand what other
decisions of `PolicyService` come to, by copies of their rules. The copies are
compared with the decisions: the first for every actor, the second for an actor
of one role whom neither ownership nor the ACL singles out.
-/

namespace DocVault

open PolicyService (canBaselineReadMetadata canBaselineDownload SIMULATED_ROLES)

/-! ## Baseline roles -/

namespace Standing
variable {s : Standing} {role : String}

/-- Someone of one role alone, who does not own the document and is not named by its ACL. -/
structure Baseline (s : Standing) (role : String) : Prop where
  roles : ∀ r, r ∈ s.roles ↔ r = role
  owner : s.owner = false
  denied : ∀ permission, s.denied permission = false
  allowed : ∀ permission, s.allowed permission = false

theorem reads_baseline (h : s.Baseline role) (hrole : role ∈ SIMULATED_ROLES) :
    s.Reads ↔ canBaselineReadMetadata s.status s.classification role = true := by
  unfold Reads Entitled Direct Granted RoleReads Released canBaselineReadMetadata
  simp only [h.roles, h.owner, h.denied, h.allowed]
  simp only [SIMULATED_ROLES, List.mem_cons, List.not_mem_nil, or_false] at hrole
  obtain rfl | rfl | rfl | rfl | rfl := hrole <;> cases s.status <;> cases s.classification <;> simp

theorem downloads_baseline (h : s.Baseline role) (hrole : role ∈ SIMULATED_ROLES) :
    ("compliance_officer" ∉ s.roles ∧ s.status = .PUBLISHED ∧ s.Downloads) ↔
      canBaselineDownload s.status s.classification role = true := by
  have hreason : canBaselineDownload s.status s.classification role = true ↔
      PolicyService.getDeniedReason s.status [role] = none ∧
      PolicyService.getClassificationDeniedReason s.classification
        [role] s!"simulation:{role}" "simulation:owner" false = none := by
    simp [canBaselineDownload]
  -- The simulated actor is no one's owner either.
  have hother : s!"simulation:{role}" ≠ "simulation:owner" := by
    simp only [SIMULATED_ROLES, List.mem_cons, List.not_mem_nil, or_false] at hrole
    obtain rfl | rfl | rfl | rfl | rfl := hrole <;> decide
  let t : Standing := { s with roles := [role] }
  have howner : t.owner = decide (s!"simulation:{role}" = "simulation:owner") := by simp [t, h.owner, hother]
  have hclass : PolicyService.getClassificationDeniedReason t.classification t.roles s!"simulation:{role}"
      "simulation:owner" (t.allowed .DOWNLOAD) = none ↔ t.Cleared .DOWNLOAD :=
        PolicyService.classification_none howner
  rw [show t.allowed .DOWNLOAD = false from h.allowed .DOWNLOAD] at hclass
  have hcleared : t.Cleared .DOWNLOAD ↔ s.Cleared .DOWNLOAD := by
    simp [Cleared, t, h.roles]
  rw [hreason, PolicyService.getDeniedReason_none, hclass, hcleared]
  simp [Downloads, h.roles, h.denied, and_assoc]

end Standing

/-! ## A proposed classification -/

namespace PolicyDb
variable {db : PolicyDb} {docId : String} {classification : ClassificationLevel} {document : Document}

def classified (docId : String) (classification : ClassificationLevel) (document : Document) : Document :=
  if document.id = docId then { document with classification := classification } else document

theorem classified_ids (documents : List Document) :
    (documents.map (classified docId classification)).map (·.id) = documents.map (·.id) := by
  rw [List.map_map]
  apply List.map_congr_left
  intro document _
  simp only [Function.comp, classified]
  split <;> rfl

/-- The store as it is once the document has the classification. -/
def reclassify (db : PolicyDb) (docId : String) (classification : ClassificationLevel) : PolicyDb :=
  { db with
    documents := db.documents.map (classified docId classification)
    unique := (classified_ids db.documents).symm ▸ db.unique }

theorem mem_reclassify (h : document ∈ db.documents) (classification : ClassificationLevel) :
    { document with classification := classification } ∈ (db.reclassify document.id classification).documents := by
  refine List.mem_map.mpr ⟨document, h, ?_⟩
  simp [classified]

end PolicyDb

namespace PolicyService
open PolicyDecision (Succeeds succeeds_iff)
variable {env : PolicyEnv} {db : PolicyDb} {docId : String} {dto : GrantDto} {request caller actor : PolicyRequest}
  {document : Document} {classification : ClassificationLevel} {role : String} {impact : RoleImpact}

/-! ## What the views promise -/

/-- A grant of the current version, whether the request names it or not. -/
def AsksCurrent (dto : GrantDto) (document : Document) : Prop :=
  dto.version = none ∨ dto.version = some document.currentVersion

def GuardrailsAgree (env : PolicyEnv) (db : PolicyDb) (docId : String) (dto : GrantDto)
    (request : PolicyRequest) : Prop :=
  (∃ guardrails, getAiGuardrails env db docId request = .ok guardrails ∧ guardrails.canUseContent = true) ↔
    Succeeds env db docId request .assertCanReadMetadata ∧ Succeeds env db docId request (.authorizePreview dto)

/-- An actor of one role alone, who is not the owner and whom no entry of the document's ACL matches. -/
structure Alone (db : PolicyDb) (document : Document) (role : String) (actor : PolicyRequest) : Prop where
  noToken : actor.shareToken = none
  someRole : actor.roles ≠ []
  noOtherRole : ∀ r ∈ actor.roles, r = role
  notOwner : actor.actorId ≠ document.ownerId
  noEntry : ∀ entry ∈ db.acl document.id,
    matchesSubject entry actor.actorId actor.roles (getActorGroups actor) = false

structure Impact.Agrees (impact : Impact) (env : PolicyEnv) (db : PolicyDb) (docId : String)
    (classification : ClassificationLevel) (actor : PolicyRequest) (decision : PolicyDecision) : Prop where
  current : impact.current = true ↔ Succeeds env db docId actor decision
  proposed : impact.proposed = true ↔ Succeeds env (db.reclassify docId classification) docId actor decision

/-- The preview has every simulated role, and tells for each what happens to an actor of that role alone. -/
structure ImpactAgrees (env : PolicyEnv) (db : PolicyDb) (document : Document)
    (classification : ClassificationLevel)
    (dto : GrantDto) (actors : PolicyRequest → Prop) (preview : AccessImpact) : Prop where
  roles : preview.roleImpacts.map (·.role) = SIMULATED_ROLES
  metadata : ∀ impact ∈ preview.roleImpacts, ∀ actor, actors actor → Alone db document impact.role actor →
    impact.metadata.Agrees env db document.id classification actor .assertCanReadMetadata
  download : ∀ impact ∈ preview.roleImpacts, ∀ actor, actors actor → Alone db document impact.role actor →
    impact.download.Agrees env db document.id classification actor (.authorizeDownload dto)

def PreviewAgrees (env : PolicyEnv) (db : PolicyDb) (document : Document) (classification : ClassificationLevel)
    (dto : GrantDto) (caller : PolicyRequest) (actors : PolicyRequest → Prop) : Prop :=
  ∀ preview, getAccessImpactPreview env db document.id classification caller = .ok preview →
    ImpactAgrees env db document classification dto actors preview

/-! ## Guardrails -/

theorem current_version (h : AsksCurrent dto document) :
    dto.version.getD document.currentVersion = document.currentVersion := by
  obtain h | h := h <;> rw [h] <;> rfl

theorem guardrails_agree (hd : document ∈ db.documents)
    (hrow : (db.version document.id document.currentVersion).isSome = true) (hdto : AsksCurrent dto document)
    (ht : request.shareToken = none) : GuardrailsAgree env db document.id dto request := by
  have hone : ∀ d, findInOrg db document.id request = .ok d → d = document := by
    intro d hf
    obtain ⟨hd', hid, -⟩ := findInOrg_ok.mp hf
    exact db.eq_of_id hd' hd hid
  have hread : { request with shareToken := none } = request := by
    rw [← ht]
  apply Iff.intro
  · intro h
    obtain ⟨guardrails, hg, hcan⟩ := h
    obtain ⟨d, hf, hc, -, hv, hp⟩ := (canUseContent_iff hg).mp hcan
    obtain rfl := hone d hf
    obtain ⟨d', hmeta, -⟩ := bind_ok.mp hg
    rw [hread] at hmeta
    refine ⟨⟨.inr d', by simp [PolicyDecision.run, hmeta, Except.map]⟩, (succeeds_iff ht).mpr ⟨d, ?_, hp⟩⟩
    simp only [PolicyDecision.Admits, current_version hdto]
    exact ⟨hf, hv, hrow, hc⟩
  · intro h
    obtain ⟨⟨a, hmeta⟩, hpreview⟩ := h
    obtain ⟨d, hmeta⟩ := PolicyDecision.map_ok.mp ⟨a, hmeta⟩
    obtain ⟨hf, hs, -⟩ := assertCanReadMetadata_ok.mp hmeta
    obtain ⟨d', ⟨hf', hv, -, hc⟩, hp⟩ := (succeeds_iff ht).mp hpreview
    obtain rfl := hone d hf
    obtain rfl := hone d' hf'
    rw [current_version hdto] at hv
    unfold getAiGuardrails
    rw [hread]
    refine ⟨_, bind_ok.mpr ⟨d', hmeta, rfl⟩, ?_⟩
    simpa using aiReason_none.mpr ⟨hc, hs, hv, hp⟩

/-! ## The preview -/

theorem standing_alone (h : Alone db document role actor) (db' : PolicyDb) (hacl : db'.aclEntries = db.aclEntries)
    (classification : ClassificationLevel) :
    (standing db' actor { document with classification := classification }).Baseline role where
  roles r := by
    apply Iff.intro
    · exact h.noOtherRole r
    · intro hr
      obtain ⟨r', hr'⟩ := List.exists_mem_of_ne_nil _ h.someRole
      rw [hr, ← h.noOtherRole r' hr']
      exact hr'
  owner := decide_eq_false h.notOwner
  denied permission := matchesNothing permission .DENY
  allowed permission := matchesNothing permission .ALLOW
where
  matchesNothing (permission : DocumentPermission) (effect : AclEffect) :
      matchesPermission permission (db'.acl document.id) actor.actorId actor.roles (getActorGroups actor) effect
        = false := by
    have hacl : db'.acl document.id = db.acl document.id := by
      unfold PolicyDb.acl
      rw [hacl]
    rw [hacl, ← Bool.not_eq_true, PolicyDecision.matches_iff]
    intro hm
    obtain ⟨entry, he, -, -, hs⟩ := hm
    rw [h.noEntry entry he] at hs
    cases hs

theorem findInOrg_row (hd : document ∈ db.documents) (hm : actor.organizationId = some document.organizationId)
    {d : Document} :
    findInOrg db document.id actor = .ok d ↔ d = document := by
  have hf : findInOrg db document.id actor = .ok document := findInOrg_ok.mpr ⟨hd, rfl, hm⟩
  rw [hf, Except.ok.injEq, eq_comm]

theorem succeeds_metadata (hd : document ∈ db.documents) (hm : actor.organizationId = some document.organizationId)
    (ht : actor.shareToken = none) (hs : document.status ≠ .DELETED)
    (hb : (standing db actor document).Baseline role) (hrole : role ∈ SIMULATED_ROLES) :
    canBaselineReadMetadata document.status document.classification role = true ↔
      Succeeds env db document.id actor .assertCanReadMetadata := by
  have hreads := Standing.reads_baseline hb hrole
  rw [succeeds_iff ht]
  simp only [PolicyDecision.Admits, PolicyDecision.Rule, findInOrg_row hd hm, and_assoc, exists_eq_left]
  rw [hreads]
  simp [hs, standing]

theorem succeeds_download (hd : document ∈ db.documents) (hm : actor.organizationId = some document.organizationId)
    (ht : actor.shareToken = none) (hv : 1 ≤ document.currentVersion)
    (hrow : (db.version document.id document.currentVersion).isSome = true) (hdto : AsksCurrent dto document)
    (hb : (standing db actor document).Baseline role) (hrole : role ∈ SIMULATED_ROLES) :
    canBaselineDownload document.status document.classification role = true ↔
      Succeeds env db document.id actor (.authorizeDownload dto) := by
  have hdownloads := Standing.downloads_baseline hb hrole
  rw [succeeds_iff ht]
  simp only [PolicyDecision.Admits, PolicyDecision.Rule, findInOrg_row hd hm, and_assoc, exists_eq_left,
    current_version hdto, hv, hrow, true_and]
  exact hdownloads.symm

theorem preview_shown {preview : AccessImpact} (hd : document ∈ db.documents)
    (h : getAccessImpactPreview env db document.id classification caller = .ok preview) :
    document.status ≠ .DELETED ∧ preview = accessImpact document.id document classification := by
  obtain ⟨d, hread, h⟩ := bind_ok.mp h
  obtain ⟨hf, hs, -⟩ := assertCanReadMetadata_ok.mp hread
  obtain ⟨hd', hid, -⟩ := findInOrg_ok.mp hf
  obtain rfl := db.eq_of_id hd' hd hid
  obtain ⟨_, -, h⟩ := bind_ok.mp h
  exact ⟨hs, (Except.ok.inj h).symm⟩

theorem preview_agrees (hd : document ∈ db.documents) (hv : 1 ≤ document.currentVersion)
    (hrow : (db.version document.id document.currentVersion).isSome = true) (hdto : AsksCurrent dto document) :
    PreviewAgrees env db document classification dto caller
      fun actor => actor.organizationId = some document.organizationId := by
  intro preview hp
  obtain ⟨hs, rfl⟩ := preview_shown hd hp
  have hmem := PolicyDb.mem_reclassify hd classification
  refine ⟨by simp [accessImpact, buildRoleImpact, Function.comp_def], ?_, ?_⟩
  · intro impact hi actor hm ha
    obtain ⟨role, hrole, rfl⟩ := List.mem_map.mp hi
    have hb := standing_alone ha
    exact ⟨succeeds_metadata hd hm ha.noToken hs (hb db rfl document.classification) hrole,
      succeeds_metadata hmem hm ha.noToken hs (hb _ rfl classification) hrole⟩
  · intro impact hi actor hm ha
    obtain ⟨role, hrole, rfl⟩ := List.mem_map.mp hi
    have hb := standing_alone ha
    exact ⟨succeeds_download hd hm ha.noToken hv hrow hdto (hb db rfl document.classification) hrole,
      succeeds_download hmem hm ha.noToken hv hrow hdto (hb _ rfl classification) hrole⟩

theorem policy_views_agree (env : PolicyEnv) (db : PolicyDb) (document : Document) (dto : GrantDto)
    (hd : document ∈ db.documents) (hrow : (db.version document.id document.currentVersion).isSome = true)
    (hdto : AsksCurrent dto document) :
    (∀ request, request.shareToken = none → GuardrailsAgree env db document.id dto request) ∧
      (1 ≤ document.currentVersion →
        ∀ caller classification, PreviewAgrees env db document classification dto caller
        fun actor => actor.organizationId = some document.organizationId) :=
  ⟨fun _ => guardrails_agree hd hrow hdto, fun hv _ _ => preview_agrees hd hv hrow hdto⟩

theorem policy_views_agree_sample : GuardrailsAgree sampleEnv openDb "d-1" {} (sampleMember ["viewer"]) ∧
    PreviewAgrees sampleEnv openDb publishedDocument .SECRET {} (sampleMember ["admin"])
      fun actor => actor.organizationId = some "o-1" := by
  have hd : publishedDocument ∈ openDb.documents := by simp [openDb, sampleDb]
  obtain ⟨hguardrails, hpreview⟩ := policy_views_agree sampleEnv openDb publishedDocument {} hd rfl (.inl rfl)
  exact ⟨hguardrails _ rfl, hpreview (by decide) _ _⟩

def unnumberedDb : PolicyDb :=
  { openDb with
    documents := [{ publishedDocument with currentVersion := 0 }]
    versions := [{ sampleVersion "d-1" with version := 0 }]
    unique := by decide }

/-- Someone of another organization finds no document, and a version below the first is not handed out. -/
theorem preview_differs :
    (¬PreviewAgrees sampleEnv openDb publishedDocument .SECRET {} (sampleMember ["admin"]) fun _ => True) ∧
      ¬PreviewAgrees sampleEnv unnumberedDb { publishedDocument with currentVersion := 0 } .SECRET {}
        (sampleMember ["admin"]) fun actor => actor.organizationId = some "o-1" := by
  have halone : ∀ db document organizationId, document.ownerId = "u-1" → db.aclEntries = [] →
      Alone db document "viewer" { sampleMember ["viewer"] with organizationId := organizationId } := by
    intro db document organizationId ho hacl
    refine ⟨rfl, by simp [sampleMember, PolicyRequest.roles], by simp [sampleMember, PolicyRequest.roles], ?_, ?_⟩
    · rw [ho]
      exact (by decide : "u-2" ≠ "u-1")
    · intro entry he
      rw [PolicyDb.acl, hacl] at he
      cases he
  refine ⟨fun h => ?_, fun h => ?_⟩
  · obtain ⟨-, hmetadata, -⟩ := h _ rfl
    obtain ⟨a, ha⟩ :=
      (hmetadata _ (List.mem_cons_self ..) _ trivial (halone openDb _ (some "o-2") rfl rfl)).current.mp rfl
    cases ha
  · obtain ⟨-, -, hdownload⟩ := h _ rfl
    obtain ⟨a, ha⟩ :=
      (hdownload _ (List.mem_cons_self ..) _ rfl (halone unnumberedDb _ (some "o-1") rfl rfl)).current.mp rfl
    cases ha

end PolicyService
end DocVault
