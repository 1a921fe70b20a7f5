import DocVault.AclEntries
import DocVault.FormUrlEncoded
import DocVault.IsoDate
import DocVault.TenantRequests
import DocVault.WebPermissions

/-!
# The access review

The gateway collects the documents of an organization with the ACL entries of
the sensitive ones (`listAccessReviewDocuments`), and the web client lists what
of these grants wants a review (`buildAccessReviewModel`). When the gateway
answers at all, and which downloads the review then tells of.
-/

namespace DocVault

open Isolation (Action)

namespace AccessReview

open TenantM
open PolicyService (standing)
open TenantDocuments (SearchFilter searchWhere)
open FormUrlEncoded (encodeURIComponent)

/-! ## The gateway -/

structure DocumentAclEntryDto extends DocumentAclRow where
  subjectDisplay : Option String := none
  createdAt : String

structure DocumentDetail extends TenantDocument where
  aclEntries : List DocumentAclEntryDto

/-- The environment of the services, and when each ACL entry was created. -/
structure ReviewEnv extends TenantEnv where
  createdAt : String → JsDate

def ReviewEnv.dto (env : ReviewEnv) (row : DocumentAclRow) : DocumentAclEntryDto :=
  { row with createdAt := (env.createdAt row.id).toISOString }

def isAccessReviewSensitiveClassification (classification : ClassificationLevel) : Bool :=
  classification = .CONFIDENTIAL || classification = .SECRET

/-- `forward` to the detail route, which the gateway asks without a share token. -/
def forwardDetail (env : ReviewEnv) (caller : PolicyRequest) (docId : String) : TenantM TenantDetail :=
  guarded READER_ROLES caller (findDetail env.toTenantEnv docId { caller with shareToken := none })

-- `Promise.all` fails with the failure that comes first. Here that of the first document.
def fetchDetails (env : ReviewEnv) (caller : PolicyRequest) :
    List TenantDocuments.TenantSummary → TenantM (List (String × TenantDetail))
  | [] => pure []
  | document :: documents => do
    let detail ← forwardDetail env caller document.id
    let details ← fetchDetails env caller documents
    pure ((document.id, detail) :: details)

-- The list has no ACL entries.
def normalizeAccessReviewDocument (env : ReviewEnv) (details : List (String × TenantDetail))
    (document : TenantDocuments.TenantSummary) : DocumentDetail :=
  match details.lookup document.id with
  | some detail => { detail.toTenantDocument with aclEntries := detail.aclEntries.map env.dto }
  | none => { document.toDocument with text := document.text, aclEntries := [] }

-- The query string goes on to the list; `searchFilter` is what its `q` asks for.
def listAccessReviewDocuments (env : ReviewEnv) (searchFilter : Option SearchFilter) (caller : PolicyRequest) :
    TenantM (List DocumentDetail) := do
  let _ ← guard (RolesGuard ["compliance_officer", "admin"] caller.user)
  let documents ← guarded READER_ROLES caller (TenantDocuments.findAll searchFilter caller)
  let details ← fetchDetails env caller
    (documents.filter fun document => isAccessReviewSensitiveClassification document.classification)
  pure (documents.map (normalizeAccessReviewDocument env details))

/-! ## The model of the web client -/

inductive AccessReviewSeverity where
  | critical
  | warning
  deriving DecidableEq

inductive AccessReviewType where
  | broadAccess
  | sensitiveDownload
  | stalePermission
  deriving DecidableEq

instance : ToString AccessReviewType where
  toString
    | .broadAccess => "broad-access"
    | .sensitiveDownload => "sensitive-download"
    | .stalePermission => "stale-permission"

instance : ToString AclSubjectType where
  toString
    | .USER => "USER"
    | .ROLE => "ROLE"
    | .GROUP => "GROUP"
    | .ALL => "ALL"

structure AccessReviewItem where
  id : String
  type : AccessReviewType
  documentId : String
  title : String
  classification : ClassificationLevel
  status : DocumentStatus
  severity : AccessReviewSeverity
  subjectType : AclSubjectType
  subjectId : Option String
  subject : String
  permission : DocumentPermission
  reason : String
  recommendedAction : String
  evidence : List String
  nextActionLabel : String := "Review ACL"
  href : String
  auditHref : String
  deriving DecidableEq

section
variable {env : ReviewEnv} {db : TenantDb} {searchFilter : Option SearchFilter} {caller : PolicyRequest}
  {document : Document}

/-- The search of the list, if there is one, finds the document. -/
def Found (db : TenantDb) (searchFilter : Option SearchFilter) (document : Document) : Prop :=
  ∀ f ∈ searchFilter, f document (db.text document.id) (db.versions.filter (·.docId = document.id)) = true

/-- The list shows the document to the caller. -/
def Listed (db : TenantDb) (caller : PolicyRequest) (document : Document) : Prop :=
  caller.organizationId = some document.organizationId ∧ document.status ≠ .DELETED ∧
    (DocumentsService.listStanding db.policy caller document).Listed

def detailOf (db : TenantDb) (document : Document) : TenantDetail :=
  { document with
    text := db.text document.id
    versions := (db.versions.filter (·.docId = document.id)).insertionSort fun a b => b.version ≤ a.version
    aclEntries := db.aclEntries.rows.filter (·.docId = document.id) }

def summaryOf (db : TenantDb) (document : Document) : TenantDocuments.TenantSummary :=
  { DocumentsService.toListSummary document (DocumentsService.latestVersion db.policy document.id) with
    text := db.text document.id }

theorem summaryOf_toDocument : (summaryOf db document).toDocument = document :=
  DocumentsService.toListSummary_toDocument document _

theorem guard_run {required : List String} (h : hasSome required caller.user.roles = true) :
    guard (RolesGuard required caller.user) db = (.ok (), db) :=
  congrArg (fun x => (x, db)) (if_pos h)

theorem guard_refused {required : List String} (h : ¬hasSome required caller.user.roles = true) :
    guard (RolesGuard required caller.user) db = (.error (.forbidden "Forbidden resource"), db) :=
  congrArg (fun x => (x, db)) (if_neg h)

theorem forwardDetail_run (hrole : hasSome READER_ROLES caller.user.roles = true) (docId : String) :
    forwardDetail env caller docId db =
      ((PolicyService.assertCanReadMetadata env.policy db.policy docId { caller with shareToken := none }).map
        (detailOf db), db) := by
  refine (Action.bind_ok (guard_run hrole)).trans ?_
  cases h : PolicyService.assertCanReadMetadata env.policy db.policy docId { caller with shareToken := none } with
  | error e => exact Action.bind_error (congrArg (fun x => (x, db)) h)
  | ok document => exact (Action.bind_ok (congrArg (fun x => (x, db)) h)).trans rfl

theorem summaryOf_id : (summaryOf db document).id = document.id := congrArg Document.id summaryOf_toDocument

theorem forwardSummary_run (hrole : hasSome READER_ROLES caller.user.roles = true) (document : Document)
    {x : Except HttpError Document}
    (h : PolicyService.assertCanReadMetadata env.policy db.policy document.id
      { caller with shareToken := none } = x) :
    forwardDetail env caller (summaryOf db document).id db = (x.map (detailOf db), db) := by
  rw [summaryOf_id, forwardDetail_run hrole, h]

theorem assertCanRead_iff (hl : Listed db caller document) (hd : document ∈ db.documents.rows) :
    PolicyService.assertCanReadMetadata env.policy db.policy document.id
      { caller with shareToken := none } = .ok document ↔ (standing db.policy caller document).Reads := by
  rw [PolicyService.assertCanReadMetadata_ok]
  constructor
  · rintro ⟨-, -, hr⟩
    exact hr.resolve_left nofun
  · exact fun hr => ⟨PolicyService.findInOrg_ok.mpr ⟨hd, rfl, hl.1⟩, hl.2.1, .inr hr⟩

theorem assertCanRead_eq (hd : document ∈ db.documents.rows) {found : Document}
    (h : PolicyService.assertCanReadMetadata env.policy db.policy document.id { caller with shareToken := none } =
      .ok found) :
    found = document := by
  obtain ⟨hmem, hid, -⟩ := PolicyService.findInOrg_ok.mp (PolicyService.assertCanReadMetadata_ok.mp h).1
  exact db.policy.eq_of_id hmem hd hid

theorem fetchDetails_run (hrole : hasSome READER_ROLES caller.user.roles = true) {documents : List Document}
    (hd : ∀ document ∈ documents, document ∈ db.documents.rows ∧ Listed db caller document)
    (hr : ∀ document ∈ documents, (standing db.policy caller document).Reads) :
    fetchDetails env caller (documents.map (summaryOf db)) db =
      (.ok (documents.map fun document => (document.id, detailOf db document)), db) := by
  induction documents with
  | nil => rfl
  | cons document documents ih =>
    obtain ⟨hmem, hl⟩ := hd document List.mem_cons_self
    have hrest := ih (fun d h => hd d (List.mem_cons_of_mem _ h)) fun d h => hr d (List.mem_cons_of_mem _ h)
    have hread : PolicyService.assertCanReadMetadata env.policy db.policy document.id
      { caller with shareToken := none } =
        .ok document := (assertCanRead_iff hl hmem).mpr (hr document List.mem_cons_self)
    refine (Action.bind_ok (forwardSummary_run hrole document hread)).trans ((Action.bind_ok hrest).trans ?_)
    rw [summaryOf_id]
    rfl

theorem fetchDetails_refused (hrole : hasSome READER_ROLES caller.user.roles = true) {documents : List Document}
    (hd : ∀ document ∈ documents, document ∈ db.documents.rows ∧ Listed db caller document)
    (hmem : document ∈ documents) (hr : ¬(standing db.policy caller document).Reads) :
    ∃ e, fetchDetails env caller (documents.map (summaryOf db)) db = (.error e, db) := by
  induction documents with
  | nil => cases hmem
  | cons head documents ih =>
    obtain ⟨hhead, hl⟩ := hd head List.mem_cons_self
    cases h : PolicyService.assertCanReadMetadata env.policy db.policy head.id
      { caller with shareToken := none } with
    | error e => exact ⟨e, Action.bind_error (forwardSummary_run hrole head h)⟩
    | ok found =>
      obtain rfl := assertCanRead_eq hhead h
      have hne : document ≠ found := by
        rintro rfl
        exact hr ((assertCanRead_iff hl hhead).mp h)
      obtain ⟨e, he⟩ := ih (fun d h => hd d (List.mem_cons_of_mem _ h)) ((List.mem_cons.mp hmem).resolve_left hne)
      exact ⟨e, (Action.bind_ok (forwardSummary_run hrole found h)).trans (Action.bind_error he)⟩

/-- The documents that the list shows, in its order. -/
def listed (db : TenantDb) (searchFilter : Option SearchFilter) (caller : PolicyRequest) (orgId : String) :
    List Document :=
  db.documents.rows.filter fun document =>
    DocumentsService.findAllWhere orgId caller.actorId caller.roles (normalizeGroups caller.contextGroups)
      (searchFilter.map (searchWhere db)) document (db.policy.acl document.id)

theorem mem_listed {orgId : String} (horg : caller.organizationId = some orgId) :
    document ∈ listed db searchFilter caller orgId ↔
      document ∈ db.documents.rows ∧ Listed db caller document ∧ Found db searchFilter document := by
  have hfound : (∀ f ∈ searchFilter.map (searchWhere db), f document (db.policy.acl document.id) = true) ↔
      Found db searchFilter document := by
    cases searchFilter <;> simp [Found, searchWhere]
  rw [listed, List.mem_filter, DocumentsService.findAllWhere_and, DocumentsService.findAllWhere_iff,
    hfound, Listed, horg, Option.some_inj]
  exact and_congr_right fun _ => and_congr_left fun _ => and_congr_left fun _ => eq_comm

theorem findAll_run {orgId : String} (hrole : hasSome READER_ROLES caller.user.roles = true)
    (horg : caller.organizationId = some orgId) :
    guarded READER_ROLES caller (TenantDocuments.findAll searchFilter caller) db =
      (.ok ((listed db searchFilter caller orgId).map (summaryOf db)), db) := by
  refine (Action.bind_ok (guard_run hrole)).trans ?_
  have hsummaries : DocumentsService.findAll db.policy caller (searchFilter.map (searchWhere db)) =
      .ok (DocumentsService.findAllForOrg db.policy orgId caller.actorId caller.roles
        (normalizeGroups caller.contextGroups) (searchFilter.map (searchWhere db))) := by
    rw [DocumentsService.findAll, requireOrgId, horg]
    rfl
  have hrows : (DocumentsService.findAllForOrg db.policy orgId caller.actorId caller.roles
      (normalizeGroups caller.contextGroups) (searchFilter.map (searchWhere db))).map
        (fun summary : DocumentSummary =>
        ({ summary with text := db.text summary.id } : TenantDocuments.TenantSummary)) =
      (listed db searchFilter caller orgId).map (summaryOf db) := by
    rw [DocumentsService.findAllForOrg, List.map_map]
    refine List.map_congr_left fun document _ => ?_
    rw [Function.comp_apply, summaryOf,
      show (DocumentsService.toListSummary document (DocumentsService.latestVersion db.policy document.id)).id =
        document.id from congrArg Document.id (DocumentsService.toListSummary_toDocument document _)]
  refine congrArg (fun x => (x, db)) ?_
  simp only [hsummaries]
  exact congrArg Except.ok hrows

/-- What the gateway answers of a document. -/
def reviewOf (env : ReviewEnv) (db : TenantDb) (document : Document) : DocumentDetail :=
  { document with
    text := db.text document.id
    aclEntries :=
      if isAccessReviewSensitiveClassification document.classification then
        (db.aclEntries.rows.filter (·.docId = document.id)).map env.dto
      else [] }

theorem lookup_details {documents : List Document} (hd : document ∈ documents)
    (hid : ∀ d ∈ documents, d.id = document.id → d = document) :
    (documents.map fun document => (document.id, detailOf db document)).lookup document.id =
    some (detailOf db document) := by
  induction documents with
  | nil => cases hd
  | cons head documents ih =>
    rw [List.map_cons, List.lookup_cons]
    by_cases h : head.id = document.id
    · obtain rfl := hid head List.mem_cons_self h
      simp
    · have hne : (document.id == head.id) = false := by simpa using Ne.symm h
      have hmem := (List.mem_cons.mp hd).resolve_left fun heq => h (congrArg Document.id heq.symm)
      rw [hne]
      exact ih hmem fun d hm => hid d (List.mem_cons_of_mem _ hm)

theorem lookup_none {documents : List Document} (hid : ∀ d ∈ documents, d.id ≠ document.id) :
    (documents.map fun document => (document.id, detailOf db document)).lookup document.id = none := by
  induction documents with
  | nil => rfl
  | cons head documents ih =>
    rw [List.map_cons, List.lookup_cons]
    have hne : (document.id == head.id) = false := by simpa using Ne.symm (hid head List.mem_cons_self)
    rw [hne]
    exact ih fun d hm => hid d (List.mem_cons_of_mem _ hm)

theorem reader_of_officer (h : hasSome ["compliance_officer", "admin"] caller.user.roles = true) :
    hasSome READER_ROLES caller.user.roles = true := by
  obtain ⟨role, hrole, hmem⟩ := hasSome_iff.mp h
  refine hasSome_iff.mpr ⟨role, ?_, hmem⟩
  rcases List.mem_cons.mp hrole with rfl | hrole
  · decide
  · rw [List.mem_singleton.mp hrole]
    decide

theorem filter_summaries (documents : List Document) :
    (documents.map (summaryOf db)).filter
        (fun document => isAccessReviewSensitiveClassification document.classification) =
      (documents.filter fun document => isAccessReviewSensitiveClassification document.classification).map
      (summaryOf db) := by
  rw [List.filter_map]
  refine congrArg (List.map (summaryOf db)) (List.filter_congr fun document _ => ?_)
  rw [Function.comp_apply, show (summaryOf db document).classification = document.classification from
    congrArg Document.classification summaryOf_toDocument]

theorem listAccessReviewDocuments_run {orgId : String}
    (hofficer : hasSome ["compliance_officer", "admin"] caller.user.roles = true)
    (horg : caller.organizationId = some orgId)
    (hr : ∀ document ∈ db.documents.rows, isAccessReviewSensitiveClassification document.classification = true →
      Listed db caller document → Found db searchFilter document → (standing db.policy caller document).Reads) :
    listAccessReviewDocuments env searchFilter caller db =
      (.ok ((listed db searchFilter caller orgId).map (reviewOf env db)), db) := by
  have hreader := reader_of_officer hofficer
  have hlisted : ∀ document ∈ (listed db searchFilter caller orgId).filter
      (fun document => isAccessReviewSensitiveClassification document.classification),
      document ∈ db.documents.rows ∧ Listed db caller document ∧ Found db searchFilter document :=
    fun document hd => (mem_listed horg).mp (List.mem_filter.mp hd).1
  have hsensitive := fun document hd => (hlisted document hd).imp_right And.left
  have hdetails : fetchDetails env caller _ db = _ := fetchDetails_run hreader hsensitive fun document hd =>
    hr document (hlisted document hd).1 (List.mem_filter.mp hd).2 (hlisted document hd).2.1
      (hlisted document hd).2.2
  rw [← filter_summaries] at hdetails
  refine (Action.bind_ok (guard_run hofficer)).trans ((Action.bind_ok (findAll_run hreader horg)).trans
    ((Action.bind_ok hdetails).trans ?_))
  refine congrArg (fun rows => (Except.ok rows, db)) ?_
  rw [List.map_map]
  refine List.map_congr_left fun document hd => ?_
  obtain ⟨hmem, -⟩ := (mem_listed horg).mp hd
  have hid : ∀ d ∈ (listed db searchFilter caller orgId).filter
      (fun document => isAccessReviewSensitiveClassification document.classification),
      d.id = document.id → d = document :=
    fun d hd' hsame => db.policy.eq_of_id (hsensitive d hd').1 hmem hsame
  rw [Function.comp_apply, normalizeAccessReviewDocument, summaryOf_id]
  by_cases hs : isAccessReviewSensitiveClassification document.classification = true
  · rw [lookup_details (List.mem_filter.mpr ⟨hd, hs⟩) hid]
    simp only [reviewOf, hs, if_true]
    rfl
  · rw [lookup_none fun d hd' hsame => hs ((hid d hd' hsame) ▸ (List.mem_filter.mp hd').2)]
    simp only [reviewOf, hs, summaryOf_toDocument]
    rfl

/-- The gateway answers exactly an officer or admin of an organization who may read each sensitive document
that the list shows them: one refused detail takes the whole review away. -/
theorem access_review_served (env : ReviewEnv) (db : TenantDb) (searchFilter : Option SearchFilter)
    (caller : PolicyRequest) :
    (∃ rows, (listAccessReviewDocuments env searchFilter caller db).1 = .ok rows) ↔
      hasSome ["compliance_officer", "admin"] caller.user.roles = true ∧
      (∃ orgId, caller.organizationId = some orgId) ∧
        ∀ document ∈ db.documents.rows, isAccessReviewSensitiveClassification document.classification = true →
          Listed db caller document → Found db searchFilter document →
          (standing db.policy caller document).Reads := by
  constructor
  · rintro ⟨rows, h⟩
    have hofficer : hasSome ["compliance_officer", "admin"] caller.user.roles = true := by
      by_contra hno
      rw [listAccessReviewDocuments, Action.bind_error (guard_refused hno)] at h
      cases h
    have hreader := reader_of_officer hofficer
    cases horg : caller.organizationId with
    | none =>
      have hfind : guarded READER_ROLES caller (TenantDocuments.findAll searchFilter caller) db =
          (.error (.forbidden "You are not assigned to any organization. Ask an administrator to add you."),
            db) := by
        refine (Action.bind_ok (guard_run hreader)).trans (congrArg (fun x => (x, db)) ?_)
        simp only [DocumentsService.findAll, requireOrgId, horg]
        rfl
      rw [listAccessReviewDocuments, Action.bind_ok (guard_run hofficer), Action.bind_error hfind] at h
      cases h
    | some orgId =>
      refine ⟨hofficer, ⟨orgId, rfl⟩, fun document hd hs hl hfound => ?_⟩
      by_contra hno
      have hsensitive : ∀ document ∈ (listed db searchFilter caller orgId).filter
          (fun document => isAccessReviewSensitiveClassification document.classification),
          document ∈ db.documents.rows ∧ Listed db caller document :=
        fun document hd => ((mem_listed horg).mp (List.mem_filter.mp hd).1).imp_right And.left
      obtain ⟨e, he⟩ : ∃ e, fetchDetails env caller _ db = (.error e, db) := fetchDetails_refused hreader hsensitive
        (List.mem_filter.mpr ⟨(mem_listed horg).mpr ⟨hd, hl, hfound⟩, hs⟩) hno
      rw [← filter_summaries] at he
      rw [listAccessReviewDocuments, Action.bind_ok (guard_run hofficer), Action.bind_ok (findAll_run hreader horg),
        Action.bind_error he] at h
      cases h
  · rintro ⟨hofficer, ⟨orgId, horg⟩, hr⟩
    exact ⟨_, congrArg Prod.fst (listAccessReviewDocuments_run hofficer horg hr)⟩

/-! ## What the review tells of -/

/-- The review names the document, the subject and the permission of the entry. -/
def NamesGrant (review : AccessReviewItem) (row : DocumentAclRow) : Prop :=
  review.documentId = row.docId ∧ review.subjectType = row.subjectType ∧ review.subjectId = row.subjectId ∧
    review.permission = row.permission

/-- Someone other than the owner and the admins may download the document without a share link. -/
def Downloads (env : ReviewEnv) (db : TenantDb) (document : Document) (dto : GrantDto)
    (actor : PolicyRequest) : Prop :=
  actor.shareToken = none ∧ "admin" ∉ actor.roles ∧ actor.actorId ≠ document.ownerId ∧
    ∃ a, PolicyService.authorizeDownload env.policy db.policy document.id dto actor = .ok a

/-- A critical item of the review is about a grant of the actor to the document. -/
def Tells (db : TenantDb) (document : Document) (actor : PolicyRequest) (reviews : List AccessReviewItem) : Prop :=
  ∃ review ∈ reviews, review.type = .sensitiveDownload ∧ review.severity = .critical ∧
    ∃ row ∈ db.aclEntries.rows, row.docId = document.id ∧ NamesGrant review row ∧
      PolicyService.matchesSubject row.toDocumentAcl actor.actorId actor.roles
        (PolicyService.getActorGroups actor) = true

end

/-! One confidential document, which a viewer has a grant to download. -/

section

def officer : PolicyRequest where
  user := ⟨some "u-9", none, ["compliance_officer"]⟩
  organizationId := some "o-1"
  now := 10

end

end AccessReview

end DocVault
