import DocVault.TenantParts

/-!
# Decisions of the policy

What the policy decides for a user of the organization, it decides on the rows
that are not of another organization: the document is found in the organization,
and its ACL, its versions and its live share link are its own.
-/

namespace DocVault

open TenantDb

theorem bind_same {ε α β : Type} {x y : Except ε α} {f g : α → Except ε β} (hx : x = y)
    (hf : ∀ a, y = .ok a → f a = g a) : x >>= f = y >>= g := by
  subst hx
  cases x with
  | error e => rfl
  | ok a => exact hf a rfl

namespace PolicyService
variable {db : TenantDb} {A docId : String} {env : PolicyEnv} {request : PolicyRequest}

/-! ## What the policy finds -/

theorem findInOrg_within (h : request.organizationId = some A) :
    findInOrg (db.within A).policy docId request = findInOrg db.policy docId request := by
  have hfind : (db.within A).policy.find docId A = db.policy.find docId A := by
    have hrows : (db.within A).policy.documents = db.policy.documents.filter fun document =>
      document.organizationId = A := rfl
    unfold PolicyDb.find
    rw [hrows, List.find?_filter]
    congr 1
    funext document
    by_cases horg : document.organizationId = A <;> simp [horg]
  refine bind_same rfl fun organizationId horg => ?_
  obtain rfl : organizationId = A := Option.some.inj ((requireOrgId_ok.mp horg).symm.trans h)
  simp only [hfind]

theorem own_of_findInOrg (h : request.organizationId = some A) {document : Document}
    (hf : findInOrg db.policy docId request = .ok document) : db.Own A docId ∧ document.id = docId := by
  obtain ⟨hmem, rfl, horg⟩ := findInOrg_ok.mp hf
  exact ⟨own_of_mem hmem (Option.some.inj (horg.symm.trans h)), rfl⟩

theorem acl_own (hown : db.Own A docId) : (db.within A).policy.acl docId = db.policy.acl docId := by
  have hrows : (db.within A).aclEntries.rows.filter (fun row => row.docId = docId) =
      db.aclEntries.rows.filter fun row => row.docId = docId :=
    filter_child hown (fun _ => of_decide_eq_true) db.aclEntries.rows
  unfold PolicyDb.acl policy
  rw [List.filter_map, List.filter_map]
  exact congrArg (List.map _) hrows

theorem policy_version (hown : db.Own A docId) (n : Int) :
    (db.within A).policy.version docId n = db.policy.version docId n :=
  version_own hown n

-- A live link of the document is a link of the document.
theorem resolveShareGrant_own (hown : db.Own A docId) (shareToken : Option String) (now : Time) :
    resolveShareGrant env (db.within A).policy docId shareToken now =
      resolveShareGrant env db.policy docId shareToken now := by
  unfold resolveShareGrant
  cases shareToken with
  | none => rfl
  | some token =>
    have hlinks : ∀ db : TenantDb, db.policy.shareLinks.find? (·.tokenHash = env.sha256 token) =
        (Keyed.find (fun link : ShareLinkRow => link.tokenHash) db.shareLinks.rows (env.sha256 token)).map
          (·.toDocumentShareLink) := fun db => List.find?_map ..
    have hwithin : Keyed.find (fun link : ShareLinkRow =>
      link.tokenHash) (db.within A).shareLinks.rows (env.sha256 token) =
        (Keyed.find (fun link : ShareLinkRow => link.tokenHash) db.shareLinks.rows (env.sha256 token)).filter
          fun link => !db.foreign A link.docId := Keyed.find_filter db.tokenHashes
    simp only [hlinks, hwithin]
    cases Keyed.find (fun link : ShareLinkRow => link.tokenHash) db.shareLinks.rows (env.sha256 token) with
    | none => rfl
    | some link =>
      cases hf : db.foreign A link.docId with
      | false => simp [Option.filter, hf]
      | true =>
        have hne : link.docId ≠ docId := by
          rintro rfl
          exact Bool.false_ne_true (hown.symm.trans hf)
        simp [Option.filter, hf, isLive, hne]

/-! ## What it decides -/

theorem assertCanReadMetadata_within (h : request.organizationId = some A) :
    assertCanReadMetadata env (db.within A).policy docId request =
      assertCanReadMetadata env db.policy docId request := by
  refine bind_same (findInOrg_within h) fun document hf => ?_
  obtain ⟨hown, rfl⟩ := own_of_findInOrg h hf
  simp only [resolveShareGrant_own hown, acl_own hown]

theorem own_of_read {document : Document} (hr : assertCanReadMetadata env db.policy docId request = .ok document)
    (h : request.organizationId = some A) : db.Own A docId ∧ document.id = docId :=
  own_of_findInOrg h (assertCanReadMetadata_ok.mp hr).1

theorem getAiGuardrails_within (h : request.organizationId = some A) :
    getAiGuardrails env (db.within A).policy docId request = getAiGuardrails env db.policy docId request := by
  refine bind_same (assertCanReadMetadata_within h) fun document hr => ?_
  obtain ⟨hown, rfl⟩ := own_of_read hr h
  simp only [acl_own hown]

theorem getAccessImpactPreview_within (h : request.organizationId = some A) (classification : ClassificationLevel) :
    getAccessImpactPreview env (db.within A).policy docId classification request =
      getAccessImpactPreview env db.policy docId classification request :=
  bind_same (assertCanReadMetadata_within h) fun _ _ => rfl

theorem authorizeDownload_within (h : request.organizationId = some A) (dto : GrantDto) :
    authorizeDownload env (db.within A).policy docId dto request =
      authorizeDownload env db.policy docId dto request := by
  refine bind_same (findInOrg_within h) fun document hf => ?_
  obtain ⟨hown, rfl⟩ := own_of_findInOrg h hf
  simp only [resolveShareGrant_own hown, acl_own hown, findVersion, policy_version hown]

theorem authorizePreview_within (h : request.organizationId = some A) (dto : GrantDto) :
    authorizePreview env (db.within A).policy docId dto request =
      authorizePreview env db.policy docId dto request := by
  refine bind_same (findInOrg_within h) fun document hf => ?_
  obtain ⟨hown, rfl⟩ := own_of_findInOrg h hf
  simp only [resolveShareGrant_own hown, acl_own hown, findVersion, policy_version hown]

end PolicyService

/-! ## The list -/

namespace TenantDocuments
open DocumentsService DocumentWhere
variable {db : TenantDb} {A docId : String} {request : PolicyRequest}

theorem versions_own (hown : db.Own A docId) :
    (db.within A).versions.filter (·.docId = docId) = db.versions.filter (·.docId = docId) :=
  TenantDb.filter_child hown (fun _ => of_decide_eq_true) db.versions

theorem findAllWhere_org {orgId actorId : String} {roles groups : List String} {searchFilter : Option DocumentWhere}
    {document : Document} {aclEntries : List DocumentAcl}
    (h : findAllWhere orgId actorId roles groups searchFilter document aclEntries = true) :
    document.organizationId = orgId := by
  unfold findAllWhere at h
  split at h
  · simp only [AND, List.all_append, List.all_cons, Bool.and_eq_true, and_assoc] at h
    exact of_decide_eq_true h.1
  · simp only [AND, List.all_append, List.all_cons, Bool.and_eq_true, and_assoc] at h
    exact of_decide_eq_true h.1

/-- A document of the organization passes the filter in the organization's part as it does in the store of all. -/
theorem findAllWhere_own {actorId : String} {roles groups : List String} (searchFilter : Option SearchFilter)
    {document : Document} (hown : db.Own A document.id) :
    findAllWhere A actorId roles groups (searchFilter.map (searchWhere (db.within A))) document
        ((db.within A).policy.acl document.id) =
      findAllWhere A actorId roles groups (searchFilter.map (searchWhere db)) document
        (db.policy.acl document.id) := by
  have hsearch : ∀ filter : SearchFilter, ∀ aclEntries, searchWhere (db.within A) filter document aclEntries =
      searchWhere db filter document aclEntries := by
    intro filter aclEntries
    unfold searchWhere
    rw [TenantDb.text_own hown, versions_own hown]
  rw [PolicyService.acl_own hown]
  cases searchFilter with
  | none => rfl
  | some filter =>
    unfold findAllWhere
    split <;> simp only [AND, Option.map_some, Option.toList_some, List.all_append, List.all_cons, hsearch]

theorem latestVersion_own (hown : db.Own A docId) :
    latestVersion (db.within A).policy docId = latestVersion db.policy docId :=
  congrArg (fun rows => (rows.insertionSort fun a b : DocumentVersion => b.version ≤ a.version).head?)
    (versions_own hown)

theorem findAllForOrg_within (actorId : String) (roles groups : List String) (searchFilter : Option SearchFilter) :
    findAllForOrg (db.within A).policy A actorId roles groups (searchFilter.map (searchWhere (db.within A))) =
      findAllForOrg db.policy A actorId roles groups (searchFilter.map (searchWhere db)) := by
  have hfilter : ∀ document ∈ db.documents.rows,
      (findAllWhere A actorId roles groups (searchFilter.map (searchWhere (db.within A))) document
        ((db.within A).policy.acl document.id) && decide (document.organizationId = A)) =
      findAllWhere A actorId roles groups (searchFilter.map (searchWhere db)) document
        (db.policy.acl document.id) := by
    intro document hd
    by_cases horg : document.organizationId = A
    · rw [findAllWhere_own searchFilter (TenantDb.own_of_mem hd horg), decide_eq_true horg, Bool.and_true]
    · rw [decide_eq_false horg, Bool.and_false]
      exact (Bool.eq_false_iff.mpr fun h => horg (findAllWhere_org h)).symm
  have hrows : (db.within A).policy.documents = db.documents.rows.filter fun document =>
    document.organizationId = A := rfl
  unfold findAllForOrg
  rw [hrows, List.filter_filter, List.filter_congr hfilter]
  refine List.map_congr_left fun document hd => ?_
  obtain ⟨hmem, hw⟩ := List.mem_filter.mp hd
  rw [latestVersion_own (TenantDb.own_of_mem hmem (findAllWhere_org hw))]

theorem findAll_within (h : request.organizationId = some A) (searchFilter : Option SearchFilter) :
    DocumentsService.findAll (db.within A).policy request (searchFilter.map (searchWhere (db.within A))) =
      DocumentsService.findAll db.policy request (searchFilter.map (searchWhere db)) := by
  refine bind_same rfl fun organizationId horg => ?_
  obtain rfl : organizationId = A := Option.some.inj ((requireOrgId_ok.mp horg).symm.trans h)
  rw [findAllForOrg_within]

theorem findAll_own (h : request.organizationId = some A) {searchFilter : Option DocumentWhere}
    {summaries : List DocumentSummary}
    (hs : DocumentsService.findAll db.policy request searchFilter = .ok summaries) :
    ∀ summary ∈ summaries, db.Own A summary.id := by
  obtain ⟨organizationId, horg, hok⟩ := bind_ok.mp hs
  obtain rfl : organizationId = A := Option.some.inj ((requireOrgId_ok.mp horg).symm.trans h)
  obtain rfl := Except.ok.inj hok
  intro summary hsummary
  obtain ⟨document, hd, rfl⟩ := List.mem_map.mp hsummary
  obtain ⟨hmem, hw⟩ := List.mem_filter.mp hd
  rw [toListSummary_toDocument]
  exact TenantDb.own_of_mem hmem (findAllWhere_org hw)

end TenantDocuments

end DocVault
