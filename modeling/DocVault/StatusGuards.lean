import DocVault.Workflow

/-!
# Two entry points for a status

A document's status changes through `WorkflowService`, or directly through the
gateway's `POST documents/:docId/status`. The second one checks the role and
the transition only, so it accepts more. `status_agrees_iff` says for which
requests the two agree.
-/

namespace DocVault

open Interleave

/-! ## What the status route accepts -/

def GatewayMetadata.updateStatus (docId : String) (dto : UpdateStatusDto) (request : Request) :
    DocumentM Document := do
  let _ ← Prog.ofExcept (RolesGuard ["editor", "approver", "admin"] request.user)
  DocumentsController.updateStatus docId dto request

section
variable {ι : Type} (p : ι)

def Accepts (db : MetadataDb ι) (docId : String) (dto : UpdateStatusDto) (request : Request) : Prop :=
  ∃ document db', Eval DocumentExec p (GatewayMetadata.updateStatus docId dto request) db (.ok document) db'

structure Due (document : Document) (dto : UpdateStatusDto) (request : Request) : Prop where
  member : request.organizationId = some document.organizationId
  role : hasSome ["editor", "approver", "admin"] request.user.roles = true
  transition : TRANSITION_MAP dto.action = some (document.status, dto.status)

theorem accepts_iff {db : MetadataDb ι} {docId : String} {document : Document} (h : db.find docId = some document)
    (dto : UpdateStatusDto) (request : Request) : Accepts p db docId dto request ↔ Due document dto request := by
  unfold Accepts GatewayMetadata.updateStatus DocumentsController.updateStatus StatusService.update
  constructor
  · rintro ⟨updated, db', hx⟩
    obtain ⟨_, hrole, hx⟩ := eval_ofExcept_bind.mp hx
    obtain ⟨_, _, hx⟩ := eval_ofExcept_bind.mp hx
    obtain ⟨organizationId, horg, hx⟩ := eval_ofExcept_bind.mp hx
    obtain ⟨found, db₁, hfind, hx⟩ := eval_op_bind.mp hx
    have hfound : found = (db.find docId).filter (·.organizationId = organizationId) := (Prod.mk.inj hfind).1
    rw [h] at hfound
    cases found with
    | none => cases hx
    | some document' =>
      obtain ⟨hdoc, hsame⟩ := Option.filter_eq_some_iff.mp hfound.symm
      obtain rfl := Option.some.inj hdoc
      obtain ⟨transition, hguard, _⟩ := eval_ofExcept_bind.mp hx
      obtain ⟨_, hmap, rfl⟩ := StatusService.guard_ok.mp hguard
      refine ⟨?_, rolesGuard_ok.mp hrole, hmap⟩
      rw [requireOrgId_ok.mp horg, of_decide_eq_true hsame]
  · rintro ⟨hmember, hrole, hmap⟩
    have hguard : StatusService.guard dto request.user document = .ok (document.status, dto.status) :=
      StatusService.guard_ok.mpr ⟨by rw [hasSome_comm]; exact hrole, hmap, rfl⟩
    have htarget : db.target docId false = some document := by simp [MetadataDb.target, h]
    let data := StatusService.updateData dto.action dto.status document request.now
    let row := StatusService.row docId dto request.user (document.status, dto.status) document
    refine ⟨data.set document, db.update p docId false data (some row) document, ?_⟩
    refine eval_ofExcept_bind.mpr ⟨(), rolesGuard_ok.mpr hrole, ?_⟩
    refine eval_ofExcept_bind.mpr ⟨(), rolesGuard_ok.mpr hrole, ?_⟩
    refine eval_ofExcept_bind.mpr ⟨_, requireOrgId_ok.mpr hmember, ?_⟩
    refine eval_op_bind.mpr ⟨_, _, documentRun_exec p db _, ?_⟩
    have hfind : (documentRun p db (.findDocument docId document.organizationId)).1 = some document := by
      simp [documentRun, h]
    rw [hfind]
    refine eval_ofExcept_bind.mpr ⟨_, hguard, ?_⟩
    refine eval_op_bind.mpr ⟨_, _, documentRun_exec p db _, ?_⟩
    simp only [documentRun, htarget]
    exact eval_ofExcept.mpr ⟨rfl, rfl⟩

/-! ## Agreement -/

def workflowGuard (request : Request) (document : Document) : WorkflowAction → Except HttpError Unit
  | .SUBMIT => WorkflowService.submitGuard request document
  | .APPROVE => (WorkflowService.approveGuard request document).map fun _ => ()
  | .REJECT => WorkflowService.rejectGuard request document
  | .ARCHIVE => WorkflowService.archiveGuard request document
  | .DELETE => WorkflowService.deleteGuard request document
  | .RETENTION => .error (.notFound "No workflow operation")

/-- An admin; an editor, for their own documents; an approver, in the order of the chain. -/
def MayAct (request : Request) (document : Document) (action : WorkflowAction) : Prop :=
  "admin" ∈ request.user.roles ∨
    match action with
    | .SUBMIT | .ARCHIVE | .DELETE => "editor" ∈ request.user.roles ∧ document.ownerId = buildActorId request.user
    | .APPROVE => "approver" ∈ request.user.roles ∧ (document.approvalChain = [] ∨
        document.approvalChain[document.approvalStep]? = some (buildActorId request.user))
    | .REJECT => "approver" ∈ request.user.roles
    | .RETENTION => False

theorem ownerGuard_ok {status : DocumentStatus} {refusal conflict : String}
    {request : Request} {document : Document} (hs : document.status = status) {u : Unit} :
    WorkflowService.ownerGuard status refusal conflict request document = .ok u ↔
      "admin" ∈ request.user.roles ∨ "editor" ∈ request.user.roles ∧
      document.ownerId = buildActorId request.user := by
  unfold WorkflowService.ownerGuard
  by_cases ha : "admin" ∈ request.user.roles <;> by_cases he : "editor" ∈ request.user.roles <;>
    by_cases ho : document.ownerId = buildActorId request.user <;> simp [ha, he, ho, hs]

theorem deleteGuard_ok {request : Request} {document : Document} (hs : document.status = .DRAFT) {u : Unit} :
    WorkflowService.deleteGuard request document = .ok u ↔ MayAct request document .DELETE := by
  unfold WorkflowService.deleteGuard MayAct
  by_cases ha : "admin" ∈ request.user.roles <;> by_cases he : "editor" ∈ request.user.roles <;>
    by_cases ho : document.ownerId = buildActorId request.user <;> simp [ha, he, ho, hs]

theorem rejectGuard_ok {request : Request} {document : Document} (hs : document.status = .PENDING) {u : Unit} :
    WorkflowService.rejectGuard request document = .ok u ↔ MayAct request document .REJECT := by
  unfold WorkflowService.rejectGuard MayAct
  by_cases ha : "admin" ∈ request.user.roles <;> by_cases he : "approver" ∈ request.user.roles <;> simp [ha, he, hs]

theorem approveGuard_ok {request : Request} {document : Document} (hs : document.status = .PENDING) :
    (∃ publishes, WorkflowService.approveGuard request document = .ok publishes) ↔
    MayAct request document .APPROVE := by
  unfold WorkflowService.approveGuard MayAct Request.context
  by_cases ha : "admin" ∈ request.user.roles <;> by_cases he : "approver" ∈ request.user.roles <;>
    by_cases hc : document.approvalChain = [] <;>
    by_cases ht : document.approvalChain[document.approvalStep]? = some (buildActorId request.user) <;>
    simp [ha, he, hc, ht, hs, List.length_pos_iff]

theorem transition_from {a b c d : DocumentStatus} (h : some (a, b) = some (c, d)) : c = a :=
  (Prod.mk.inj (Option.some.inj h)).1.symm

theorem map_unit_ok {ε α : Type} {x : Except ε α} : x.map (fun _ => ()) = .ok () ↔ ∃ a, x = .ok a := by
  cases x <;> simp [Except.map]

theorem workflowGuard_ok {request : Request} {document : Document} {action : WorkflowAction}
    {status : DocumentStatus} (ht : TRANSITION_MAP action = some (document.status, status)) :
    workflowGuard request document action = .ok () ↔ MayAct request document action := by
  cases action with
  | SUBMIT => exact ownerGuard_ok (transition_from ht)
  | APPROVE => exact map_unit_ok.trans (approveGuard_ok (transition_from ht))
  | REJECT => exact rejectGuard_ok (transition_from ht)
  | ARCHIVE => exact ownerGuard_ok (transition_from ht)
  | DELETE => exact deleteGuard_ok (transition_from ht)
  | RETENTION => cases ht

/-- Whoever the status route lets through passes the guards of the workflow
service exactly when the request is not due, or they may act. -/
theorem status_agrees_iff {db : MetadataDb ι} {docId : String} {document : Document}
    (h : db.find docId = some document) (dto : UpdateStatusDto) (request : Request) :
    (Accepts p db docId dto request → workflowGuard request document dto.action = .ok ()) ↔
      (Due document dto request → MayAct request document dto.action) := by
  rw [accepts_iff p h]
  exact forall_congr' fun hdue => workflowGuard_ok hdue.transition

end

/-! An editor of the organization publishes a colleague's document, which waits for its approver. -/

def pendingDocument : Document where
  id := "d-1"
  organizationId := "o-1"
  ownerId := "u-1"
  approvalChain := ["u-7"]
  status := .PENDING

def pendingDb : MetadataDb Unit := ⟨[pendingDocument], [], [], []⟩

def editorRequest : Request := ⟨⟨some "u-2", none, ["editor"]⟩, some "o-1", 0⟩

def publish : UpdateStatusDto := { status := .PUBLISHED, action := .APPROVE }

theorem pendingDb_find : pendingDb.find "d-1" = some pendingDocument := by decide +kernel

theorem status_agrees_iff_sample :
    (Accepts () pendingDb "d-1" publish approverRequest →
      workflowGuard approverRequest pendingDocument .APPROVE = .ok ()) ↔
      (Due pendingDocument publish approverRequest → MayAct approverRequest pendingDocument .APPROVE) :=
  status_agrees_iff () pendingDb_find publish approverRequest

theorem status_disagrees :
    ¬ ∀ (db : MetadataDb Unit) (docId : String) (document : Document) (dto : UpdateStatusDto) (request : Request),
      db.find docId = some document → Accepts () db docId dto request →
        workflowGuard request document dto.action = .ok () := by
  intro h
  have hdue : Due pendingDocument publish editorRequest := ⟨rfl, by decide, rfl⟩
  have hw := h pendingDb "d-1" pendingDocument publish editorRequest pendingDb_find
    ((accepts_iff () pendingDb_find publish editorRequest).mpr hdue)
  cases hw

end DocVault
