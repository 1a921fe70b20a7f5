import DocVault.TenantRetention

/-!
# Tenant isolation

Every request is isolated but three: the run of the retention job, the list of
its evidence and the redemption of a share link. Each of these is isolated in
the states in which it meets no row of another organization.
-/

namespace DocVault

open Isolation (Action Isolated action action_guard_ok isolated_guard)
open TenantM TenantDb
open RetentionController (parseAsOf)
open RetentionService (isDue isTracked)

/-- The request is answered as it would be without the rows of other
organizations, and leaves these as they are. -/
structure TenantIsolated (env : TenantEnv) (A : String) (caller : PolicyRequest) (db : TenantDb)
    (request : TenantRequest) : Prop where
  response : (handle env caller request (db.within A)).1 = (handle env caller request db).1
  others : (handle env caller request db).2.beyond A = db.beyond A

namespace TenantRequest

/-- The ids and the token that are generated for the request are new. -/
def Fresh (env : TenantEnv) (db : TenantDb) : TenantRequest → Prop
  | .create _ _ uuid => db.documents.find uuid = none
  | .upsertAcl _ _ aclId => db.aclEntries.find aclId = none
  | .addComment _ _ commentId => db.comments.find commentId = none
  | .createShareLink _ _ linkId token => db.shareLinks.find linkId = none ∧ byToken db env.policy token = none
  | .createSavedView _ viewId => db.savedViews.find viewId = none
  | _ => True

/-- Where a request that is let through meets no row of another organization. -/
def Confined (env : TenantEnv) (A : String) (caller : PolicyRequest) (db : TenantDb) : TenantRequest → Prop
  | .runRetention asOf => ∀ parsed, RolesGuard ["admin"] caller.user = .ok () → parseAsOf asOf = .ok parsed →
      ∀ document ∈ db.documents.rows, isDue (parsed.getD caller.now) document = true → document.organizationId = A
  | .listRetention asOf => ∀ parsed, RolesGuard ["compliance_officer", "admin"] caller.user = .ok () →
      parseAsOf asOf = .ok parsed → A = "" →
      ∀ document ∈ db.documents.rows, isTracked document = true → document.organizationId = A
  | .redeemShareLink token => RolesGuard ["viewer", "editor", "approver", "admin"] caller.user = .ok () →
      ∀ link, byToken db env.policy token = some link → db.Own A link.docId
  | _ => True

end TenantRequest

section
variable {env : TenantEnv} {A : String} {caller : PolicyRequest} {db : TenantDb} {request : TenantRequest}

theorem TenantIsolated.of_isolated (h : Isolated (tenant A) (handle env caller request) db Any) :
    TenantIsolated env A caller db request :=
  ⟨h.fst_eq, h.outer⟩

theorem answer_fst {α : Type} (response : α → TenantResponse) (m : TenantM α) (db : TenantDb) :
    (answer response m db).1 = (m db).1.map response := by
  unfold answer
  rw [Action.bind_run]
  cases m db with
  | mk r db' => cases r <;> rfl

/-! ## The retention job -/

section
variable {asOf : Option (Option Time)} {parsed : Option Time} {request : Request}

theorem run_eq (hroles : RolesGuard ["admin"] request.user = .ok ()) (hparsed : parseAsOf asOf = .ok parsed) :
    RetentionController.run asOf request =
      TenantM.documents (RetentionService.runRetention (parsed.getD request.now)) := by
  unfold RetentionController.run
  rw [hroles, hparsed]
  rfl

theorem isolated_run (h : ∀ parsed, RolesGuard ["admin"] request.user = .ok () → parseAsOf asOf = .ok parsed →
      ∀ document ∈ db.documents.rows, isDue (parsed.getD request.now) document = true →
      document.organizationId = A) :
    Isolated (tenant A) (RetentionController.run asOf request) db Any :=
  .ofExcept_bind fun _ hroles => .ofExcept_bind fun parsed hparsed =>
    isolated_runRetention (h parsed hroles hparsed)

theorem confined_of_run (h : TenantIsolated env A caller db (.runRetention asOf)) :
    TenantRequest.Confined env A caller db (.runRetention asOf) := by
  intro parsed hroles hparsed document hmem hdue
  by_contra horg
  have hrun : ∀ db : TenantDb, (handle env caller (.runRetention asOf) db).1 =
      .ok (.retentionRun ⟨(db.documents.rows.filter (isDue (parsed.getD caller.now))).length, 0,
        parsed.getD caller.now⟩) := by
    intro db
    simp only [handle, answer_fst, run_eq hroles hparsed]
    exact congrArg (Except.map _) (runRetention_archived db)
  have hresponse := (hrun (db.within A)).symm.trans (h.response.trans (hrun db))
  have hcount := congrArg (RetentionService.RetentionRunResult.archived)
    (TenantResponse.retentionRun.inj (Except.ok.inj hresponse))
  exact absurd hcount (Nat.ne_of_lt (filter_org_lt ⟨document, hmem, hdue, horg⟩))

theorem list_eq (h : request.organizationId = some A)
    (hroles : RolesGuard ["compliance_officer", "admin"] request.user = .ok ())
    (hparsed : parseAsOf asOf = .ok parsed) : RetentionController.list asOf request =
      read (RetentionService.listRetentionEvidence (parsed.getD request.now) A) := by
  unfold RetentionController.list
  rw [hroles, requireOrgId_ok.mpr h, hparsed]
  rfl

theorem inScope_iff {document : Document} :
    RetentionService.inScope A document = true ↔
    (A = "" ∨ document.organizationId = A) ∧ isTracked document = true := by
  simp [RetentionService.inScope]

theorem isolated_list (h : request.organizationId = some A)
    (hscope : ∀ parsed, RolesGuard ["compliance_officer", "admin"] request.user = .ok () →
      parseAsOf asOf = .ok parsed →
      A = "" → ∀ document ∈ db.documents.rows, isTracked document = true → document.organizationId = A) :
    Isolated (tenant A) (RetentionController.list asOf request) db Any := by
  refine .ofExcept_bind fun _ hroles => .ofExcept_bind fun organizationId horg =>
    .ofExcept_bind fun parsed hparsed => ?_
  obtain rfl := org_eq h horg
  refine .read (congrArg Except.ok (listRetention_within fun document hmem hin => ?_)) fun _ _ => trivial
  obtain ⟨hA | hsame, htracked⟩ := inScope_iff.mp hin
  · exact hscope parsed hroles hparsed hA document hmem htracked
  · exact hsame

theorem confined_of_list (horg : caller.organizationId = some A)
    (h : TenantIsolated env A caller db (.listRetention asOf)) :
    TenantRequest.Confined env A caller db (.listRetention asOf) := by
  intro parsed hroles hparsed hA document hmem htracked
  by_contra hother
  have hrun : ∀ db : TenantDb, (handle env caller (.listRetention asOf) db).1 =
      .ok (.retention (RetentionService.listRetentionEvidence (parsed.getD caller.now) A db)) := by
    intro db
    simp only [handle, answer_fst, list_eq horg hroles hparsed]
    rfl
  have hresponse := (hrun (db.within A)).symm.trans (h.response.trans (hrun db))
  have hcount := congrArg (fun result : RetentionEvidenceResult => result.summary.tracked)
    (TenantResponse.retention.inj (Except.ok.inj hresponse))
  simp only [listRetention_tracked] at hcount
  exact absurd hcount (Nat.ne_of_lt (filter_org_lt ⟨document, hmem, inScope_iff.mpr ⟨.inl hA, htracked⟩, hother⟩))

/-! ## The redemption -/

variable {token : String}

theorem redeem_eq (env : PolicyEnv)
    (hroles : RolesGuard ["viewer", "editor", "approver", "admin"] request.user = .ok ())
    (db : TenantDb) : TenantM.shareLinks (DocumentShareLinksController.redeem env token request) db =
      action runShareLink (DocumentShareLinksService.redeem env token request) db :=
  action_guard_ok hroles

theorem isolated_redeemRoute {env : PolicyEnv}
    (h : RolesGuard ["viewer", "editor", "approver", "admin"] request.user = .ok () →
      ∀ link, byToken db env token = some link → db.Own A link.docId) :
    Isolated (tenant A) (TenantM.shareLinks (DocumentShareLinksController.redeem env token request)) db Any :=
  isolated_guard fun _ hroles => isolated_redeem (h hroles)

theorem confined_of_redeem (h : TenantIsolated env A caller db (.redeemShareLink token)) :
    TenantRequest.Confined env A caller db (.redeemShareLink token) := by
  intro hroles link found
  by_contra hforeign
  have hf : db.foreign A link.docId = true := (Bool.not_eq_false _).mp hforeign
  obtain ⟨hin, hout⟩ := redeem_foreign caller.toRequest found hf
  have hrun : ∀ db : TenantDb, (handle env caller (.redeemShareLink token) db).1 =
      (action runShareLink (DocumentShareLinksService.redeem env.policy token caller.toRequest)
        db).1.map .redeemed := by
    intro db
    simp only [handle, answer_fst, redeem_eq env.policy hroles]
  have hresponse := (hrun (db.within A)).symm.trans (h.response.trans (hrun db))
  rw [hin] at hresponse
  refine hout ?_
  cases hx : (action runShareLink (DocumentShareLinksService.redeem env.policy token caller.toRequest) db).1 with
  | ok result =>
    rw [hx] at hresponse
    cases hresponse
  | error e =>
    rw [hx] at hresponse
    exact congrArg Except.error (Except.error.inj hresponse).symm

end

/-! ## What is isolated -/

theorem isolated_handle (h : caller.organizationId = some A) (fresh : request.Fresh env db)
    (confined : request.Confined env A caller db) : Isolated (tenant A) (handle env caller request) db Any := by
  cases request with
  | findAll searchFilter => exact isolated_answer (isolated_guarded (isolated_findAll h searchFilter))
  | listTrash => exact isolated_answer (isolated_guarded (isolated_listTrash h))
  | restoreFromTrash docId => exact isolated_answer (isolated_withTextOf (isolated_restoreFromTrash h))
  | findOne docId shareToken => exact isolated_answer (isolated_guarded (isolated_findDetail h))
  | getAiGuardrails docId =>
    exact isolated_answer (isolated_guarded (isolated_getAiGuardrails h))
  | getAccessImpactPreview docId classification =>
    exact isolated_answer (isolated_guarded (isolated_getAccessImpactPreview h classification))
  | create dto text uuid => exact isolated_answer (isolated_createRoute h dto text fresh)
  | update docId dto data => exact isolated_answer (isolated_updateRoute h dto data)
  | setApprovalChain docId dto => exact isolated_answer (isolated_withTextOf (isolated_setApprovalChain h dto))
  | advanceApprovalStep docId => exact isolated_answer (isolated_withTextOf (isolated_advanceApprovalStep h))
  | setLegalHold docId dto => exact isolated_answer (isolated_withTextOf (isolated_setLegalHold h dto))
  | upsertAcl docId dto aclId => exact isolated_answer (isolated_upsertAcl h dto fresh)
  | listAcl docId => exact isolated_answer (isolated_listAcl h)
  | deleteAcl docId aclId => exact isolated_answer (isolated_deleteAcl h aclId)
  | createVersion docId dto => exact isolated_answer (isolated_createVersionRoute h dto)
  | restoreVersion docId version => exact isolated_answer (isolated_restoreVersion h version)
  | updateStatus docId dto => exact isolated_answer (isolated_withTextOf (isolated_updateStatus h dto))
  | getWorkflowHistory docId => exact isolated_answer (isolated_workflowHistory h)
  | getApprovers docId => exact .pure trivial
  | authorizeDownload docId dto shareToken =>
    exact isolated_answer
      (isolated_guarded (isolated_authorizeDownload { caller with shareToken := shareToken } h dto))
  | authorizePreview docId dto shareToken =>
    exact isolated_answer
      (isolated_guarded (isolated_authorizePreview { caller with shareToken := shareToken } h dto))
  | listComments docId => exact isolated_answer (isolated_listComments h)
  | addComment docId content commentId => exact isolated_answer (isolated_addComment h content fresh)
  | updateComment docId commentId content => exact isolated_answer (isolated_updateComment h commentId content)
  | deleteComment docId commentId => exact isolated_answer (isolated_deleteComment h commentId)
  | listRetention asOf => exact isolated_answer (isolated_list h confined)
  | runRetention asOf => exact isolated_answer (isolated_run confined)
  | createShareLink docId dto linkId token => exact isolated_answer (isolated_createShareLink h dto fresh.1 fresh.2)
  | listShareLinks docId => exact isolated_answer (isolated_listShareLinks h)
  | revokeShareLink docId linkId => exact isolated_answer (isolated_revokeShareLink h linkId)
  | redeemShareLink token => exact isolated_answer (isolated_redeemRoute confined)
  | createSavedView dto viewId => exact isolated_answer (isolated_createSavedView h dto fresh)
  | findSavedViews => exact isolated_answer (isolated_findSavedViews h)
  | deleteSavedView viewId => exact isolated_answer (isolated_deleteSavedView h viewId)

/-- A request is isolated exactly where it is confined. -/
theorem tenantIsolated_iff (h : caller.organizationId = some A) (fresh : request.Fresh env db) :
    TenantIsolated env A caller db request ↔ request.Confined env A caller db := by
  constructor
  · intro hisolated
    cases request with
    | runRetention asOf => exact confined_of_run hisolated
    | listRetention asOf => exact confined_of_list h hisolated
    | redeemShareLink token => exact confined_of_redeem hisolated
    | _ => exact trivial
  · exact fun confined => .of_isolated (isolated_handle h fresh confined)

end

/-! ## Two organizations -/

def twoTenants : TenantDb where
  documents := ⟨[{ id := "d-1", organizationId := "o-1", ownerId := "u-1" },
    { id := "d-2", organizationId := "o-2", ownerId := "u-2", status := .PUBLISHED,
      publishedAt := some 0 }], by decide⟩
  texts := [⟨"d-1", "Plan", none, []⟩, ⟨"d-2", "Budget", none, []⟩]
  versions := []
  history := []
  aclEntries := .empty _
  comments := .empty _
  shareLinks := .empty _
  savedViews := .empty _
  tokenHashes := by decide

def tenantEnv : TenantEnv := ⟨PolicyService.sampleEnv, ["u-1", "u-2"]⟩

def tenantAdmin : PolicyRequest where
  user := { sub := some "u-1", roles := ["admin"] }
  organizationId := some "o-1"
  now := 1000 * DAY_MS

theorem tenantIsolated_create :
    TenantIsolated tenantEnv "o-1" tenantAdmin twoTenants (.create {} { title := "Notes" } "d-3") := by
  have new : TenantRequest.Fresh tenantEnv twoTenants (.create {} { title := "Notes" } "d-3") := by
    show twoTenants.documents.find "d-3" = none
    decide
  exact (tenantIsolated_iff rfl new).mpr trivial

/-- The job that an admin of `o-1` starts archives the document of `o-2`. -/
theorem other_tenant_archived : ¬TenantIsolated tenantEnv "o-1" tenantAdmin twoTenants (.runRetention none) := by
  intro h
  have hstatus := congrArg (fun db => db.documents.rows.map (·.status)) h.others
  exact absurd hstatus (by decide)

end DocVault
