import DocVault.StatusGuards
import DocVault.WebPermissions

/-!
# The workflow buttons of the web client

The client shows a button for each workflow operation that it takes to be
possible, from the session and the document it has loaded. The operations are
run against the same document, with nothing in between.
-/

namespace DocVault

open Interleave

/-! ## The buttons -/

inductive WorkflowButton where
  | submit | approve | reject | archive | delete
  deriving DecidableEq

namespace WebPermissions

def hasAnyRole (session : Option Session) (roles : List String) : Bool :=
  match session with
  | none => false
  | some session => roles.any session.user.roles.contains

-- An admin, and an editor who owns the document.
def ownerAction (status : DocumentStatus) (session : Option Session) (doc : DocumentContext) : Bool :=
  if session.isNone then false
  else if doc.status ≠ status then false
  else if hasRole session "admin" then true
  else hasRole session "editor" && isOwner session doc.ownerId

def reviewAction (session : Option Session) (doc : DocumentContext) : Bool :=
  if session.isNone then false
  else if doc.status ≠ .PENDING then false
  else hasAnyRole session ["approver", "admin"]

def canSubmitDocument : Option Session → DocumentContext → Bool := ownerAction .DRAFT

def canApproveDocument : Option Session → DocumentContext → Bool := reviewAction

def canRejectDocument : Option Session → DocumentContext → Bool := reviewAction

def canArchiveDocument : Option Session → DocumentContext → Bool := ownerAction .PUBLISHED

def canDeleteDocument : Option Session → DocumentContext → Bool := ownerAction .DRAFT

end WebPermissions

def WorkflowButton.shown : WorkflowButton → Option Session → DocumentContext → Bool
  | submit => WebPermissions.canSubmitDocument
  | approve => WebPermissions.canApproveDocument
  | reject => WebPermissions.canRejectDocument
  | archive => WebPermissions.canArchiveDocument
  | delete => WebPermissions.canDeleteDocument

def WorkflowButton.action : WorkflowButton → WorkflowAction
  | submit => .SUBMIT
  | approve => .APPROVE
  | reject => .REJECT
  | archive => .ARCHIVE
  | delete => .DELETE

/-- The request that the button sends. -/
def WorkflowButton.press (docId : String) (reason : Option String) (request : Request) :
    WorkflowButton → DocumentTask
  | submit => .submit docId request
  | approve => .approve docId request
  | reject => .reject docId reason request
  | archive => .archive docId request
  | delete => .delete docId request

/-- The document as the client has loaded it. -/
def Document.loaded (document : Document) : DocumentContext where
  status := document.status
  ownerId := .val document.ownerId
  classification := some document.classification
  currentVersion := .val document.currentVersion

def Session.request (session : Session) (organizationId : Option String) (now : Time) : Request :=
  ⟨⟨some session.user.sub, none, session.user.roles⟩, organizationId, now⟩

/-! ## The operations -/

section
variable {ι : Type} (p : ι)

/-- The actor reads the document. -/
def Readable (db : MetadataDb ι) (docId : String) (request : Request) (document : Document) : Prop :=
  ∃ db', Eval DocumentExec p (DocumentsController.findOne docId request) db (.ok document) db'

def Succeeds {α : Type} (db : MetadataDb ι) (m : DocumentM α) : Prop :=
  ∃ a db', Eval DocumentExec p m db (.ok a) db'

variable {db db' : MetadataDb ι} {docId : String} {request : Request} {document : Document}

theorem findOne_eval {found : Document} :
    Eval DocumentExec p (DocumentsController.findOne docId request) db (.ok found) db' ↔
    hasSome ["viewer", "editor", "approver", "compliance_officer", "admin"] request.user.roles = true ∧
      request.organizationId = some found.organizationId ∧ db.find docId = some found ∧ found.status ≠ .DELETED ∧
        db' = db := by
  unfold DocumentsController.findOne
  rw [eval_ofExcept_bind]
  apply Iff.intro
  · intro h
    obtain ⟨_, hrole, h⟩ := h
    obtain ⟨organizationId, horg, h⟩ := eval_ofExcept_bind.mp h
    obtain ⟨answer, db₁, hfind, h⟩ := eval_op_bind.mp h
    obtain ⟨hanswer, hdb⟩ := Prod.mk.inj hfind
    cases answer with
    | none => cases h
    | some d =>
      obtain ⟨hd, hsame⟩ := Option.filter_eq_some_iff.mp hanswer.symm
      by_cases hdeleted : d.status = .DELETED
      · simp only [hdeleted, if_true] at h
        cases h
      · simp only [hdeleted, if_false] at h
        cases h
        refine ⟨rolesGuard_ok.mp hrole, ?_, hd, hdeleted, hdb⟩
        rw [requireOrgId_ok.mp horg, of_decide_eq_true hsame]
  · intro h
    obtain ⟨hrole, horg, hfind, hdeleted, rfl⟩ := h
    refine ⟨(), rolesGuard_ok.mpr hrole, eval_ofExcept_bind.mpr ⟨_, requireOrgId_ok.mpr horg, ?_⟩⟩
    refine eval_op_bind.mpr ⟨some found, db', ?_, ?_⟩
    · simp [DocumentExec, documentRun, hfind, Option.filter]
    · simp only [hdeleted, if_false]
      exact .ret ..

theorem findOne_bind_succeeds {α : Type} (h : Readable p db docId request document) (f : Document → DocumentM α) :
    Succeeds p db (DocumentsController.findOne docId request >>= f) ↔ Succeeds p db (f document) := by
  obtain ⟨db', h⟩ := h
  obtain ⟨hrole, horg, hfind, hdeleted, rfl⟩ := (findOne_eval p).mp h
  apply Iff.intro
  · intro hsucceeds
    obtain ⟨result, db'', hsucceeds⟩ := hsucceeds
    obtain ⟨found, db₁, hfound, hrest⟩ := eval_bind.mp hsucceeds
    obtain ⟨-, -, hfind', -, rfl⟩ := (findOne_eval p).mp hfound
    obtain rfl := Option.some.inj (hfind.symm.trans hfind')
    exact ⟨result, db'', hrest⟩
  · intro hsucceeds
    obtain ⟨result, db'', hrest⟩ := hsucceeds
    exact ⟨result, db'', eval_bind.mpr ⟨document, db', h, hrest⟩⟩

theorem ofExcept_bind_succeeds {α β : Type} {x : Except HttpError β} {f : β → DocumentM α} :
    Succeeds p db (Prog.ofExcept x >>= f) ↔ ∃ b, x = .ok b ∧ Succeeds p db (f b) := by
  cases x with
  | ok b =>
    apply Iff.intro
    · intro h
      exact ⟨b, rfl, h⟩
    · intro h
      obtain ⟨_, hb, h⟩ := h
      cases hb
      exact h
  | error e =>
    apply Iff.intro
    · intro h
      obtain ⟨_, _, h⟩ := h
      cases h
    · intro h
      obtain ⟨b, hb, -⟩ := h
      cases hb

theorem updateStatus_succeeds (h : db.find docId = some document)
    (horg : request.organizationId = some document.organizationId)
    (dto : UpdateStatusDto) : Succeeds p db (DocumentsController.updateStatus docId dto request) ↔
      hasSome ["editor", "approver", "admin"] request.user.roles = true ∧
        TRANSITION_MAP dto.action = some (document.status, dto.status) := by
  have haccepts := accepts_iff p h dto request
  have hgateway : Accepts p db docId dto request ↔
    ∃ u, RolesGuard ["editor", "approver", "admin"] request.user = .ok u ∧
      Succeeds p db (DocumentsController.updateStatus docId dto request) := ofExcept_bind_succeeds p
  have hrole : Succeeds p db (DocumentsController.updateStatus docId dto request) →
      ∃ u, RolesGuard ["editor", "approver", "admin"] request.user = .ok u := by
    intro hsucceeds
    obtain ⟨u, hu, -⟩ := (ofExcept_bind_succeeds p).mp hsucceeds
    exact ⟨u, hu⟩
  apply Iff.intro
  · intro hsucceeds
    obtain ⟨u, hu⟩ := hrole hsucceeds
    have hdue := haccepts.mp (hgateway.mpr ⟨u, hu, hsucceeds⟩)
    exact ⟨hdue.role, hdue.transition⟩
  · intro hdue
    obtain ⟨_, _, hsucceeds⟩ := hgateway.mp (haccepts.mpr ⟨horg, hdue.1, hdue.2⟩)
    exact hsucceeds

theorem advance_succeeds (h : db.find docId = some document)
    (horg : request.organizationId = some document.organizationId)
    (hrole : hasSome ["approver", "admin"] request.user.roles = true) :
    Succeeds p db (DocumentsController.advanceApprovalStep docId request) := by
  have htarget : db.target docId false = some document := by simp [MetadataDb.target, h]
  let data : DocumentUpdate := { approvalStep := some (document.approvalStep + 1) }
  refine ⟨data.set document, db.update p docId false data none document, ?_⟩
  refine eval_ofExcept_bind.mpr ⟨(), rolesGuard_ok.mpr hrole, ?_⟩
  refine eval_bind.mpr ⟨document, db, ?_, ?_⟩
  · refine eval_ofExcept_bind.mpr ⟨_, requireOrgId_ok.mpr horg, eval_op_bind.mpr ⟨some document, db, ?_, .ret ..⟩⟩
    simp [DocumentExec, documentRun, h, Option.filter]
  · refine eval_op_bind.mpr ⟨_, _, documentRun_exec p db _, ?_⟩
    simp only [documentRun, htarget]
    exact eval_ofExcept.mpr ⟨rfl, rfl⟩

/-! ## When an operation succeeds -/

theorem answer_succeeds {α β : Type} {m : DocumentM α} {f : α → β} :
    Succeeds p db (m >>= fun a => pure (f a)) ↔ Succeeds p db m := by
  apply Iff.intro
  · intro hsucceeds
    obtain ⟨_, _, hsucceeds⟩ := hsucceeds
    obtain ⟨a, db', hm, -⟩ := eval_bind.mp hsucceeds
    exact ⟨a, db', hm⟩
  · intro hsucceeds
    obtain ⟨a, db', hm⟩ := hsucceeds
    exact ⟨f a, db', eval_bind.mpr ⟨a, db', hm, .ret ..⟩⟩

theorem route_succeeds (h : Readable p db docId request document) {β : Type} {required : List String}
    {guard : Document → Except HttpError β} {next : Document → β → DocumentM Document} :
    Succeeds p db (do
      let _ ← Prog.ofExcept (RolesGuard required request.user)
      let document ← DocumentsController.findOne docId request
      let b ← Prog.ofExcept (guard document)
      next document b) ↔
      hasSome required request.user.roles = true ∧ ∃ b, guard document = .ok b ∧
      Succeeds p db (next document b) := by
  rw [ofExcept_bind_succeeds]
  apply Iff.intro
  · intro hsucceeds
    obtain ⟨_, hrole, hsucceeds⟩ := hsucceeds
    exact ⟨rolesGuard_ok.mp hrole, (ofExcept_bind_succeeds p).mp ((findOne_bind_succeeds p h _).mp hsucceeds)⟩
  · intro hsucceeds
    obtain ⟨hrole, hguard⟩ := hsucceeds
    exact ⟨(), rolesGuard_ok.mpr hrole, (findOne_bind_succeeds p h _).mpr ((ofExcept_bind_succeeds p).mpr hguard)⟩

theorem Readable.found (h : Readable p db docId request document) :
    db.find docId = some document ∧ request.organizationId = some document.organizationId := by
  obtain ⟨_, h⟩ := h
  obtain ⟨-, horg, hfind, -, -⟩ := (findOne_eval p).mp h
  exact ⟨hfind, horg⟩

def WorkflowButton.source : WorkflowButton → DocumentStatus
  | submit => .DRAFT
  | approve => .PENDING
  | reject => .PENDING
  | archive => .PUBLISHED
  | delete => .DRAFT

omit p in
theorem ownerGuard_status {status : DocumentStatus} {refusal conflict : String} {u : Unit} :
    WorkflowService.ownerGuard status refusal conflict request document = .ok u ↔ document.status = status ∧
      ("admin" ∈ request.user.roles ∨ "editor" ∈ request.user.roles ∧
        document.ownerId = buildActorId request.user) := by
  by_cases hs : document.status = status
  · simp [hs, ownerGuard_ok hs]
  · unfold WorkflowService.ownerGuard
    by_cases ha : "admin" ∈ request.user.roles <;> by_cases he : "editor" ∈ request.user.roles <;>
      by_cases ho : document.ownerId = buildActorId request.user <;> simp [ha, he, ho, hs]

omit p in
theorem deleteGuard_status {u : Unit} : WorkflowService.deleteGuard request document = .ok u ↔
    document.status = .DRAFT ∧ MayAct request document .DELETE := by
  by_cases hs : document.status = .DRAFT
  · simp [hs, deleteGuard_ok hs]
  · unfold WorkflowService.deleteGuard
    by_cases ha : "admin" ∈ request.user.roles <;> by_cases he : "editor" ∈ request.user.roles <;>
      by_cases ho : document.ownerId = buildActorId request.user <;> simp [ha, he, ho, hs]

omit p in
theorem rejectGuard_status {u : Unit} : WorkflowService.rejectGuard request document = .ok u ↔
    document.status = .PENDING ∧ MayAct request document .REJECT := by
  by_cases hs : document.status = .PENDING
  · simp [hs, rejectGuard_ok hs]
  · unfold WorkflowService.rejectGuard
    by_cases ha : "admin" ∈ request.user.roles <;> by_cases he : "approver" ∈ request.user.roles <;>
      simp [ha, he, hs]

omit p in
theorem approveGuard_status {publishes : Bool} (h : WorkflowService.approveGuard request document = .ok publishes) :
    document.status = .PENDING := by
  unfold WorkflowService.approveGuard at h
  by_contra hs
  by_cases ha : "admin" ∈ request.user.roles <;> by_cases he : "approver" ∈ request.user.roles <;>
    simp [ha, he, hs] at h

omit p in
theorem MayAct.roles {action : WorkflowAction} (h : MayAct request document action) :
    hasSome ["editor", "approver", "admin"] request.user.roles = true ∧
      hasSome (match action with | .APPROVE | .REJECT => ["approver", "admin"] | _ => ["editor", "admin"])
        request.user.roles = true := by
  obtain h | h := h
  · cases action <;> simp [hasSome, h]
  · cases action with
    | RETENTION => exact False.elim h
    | _ => simp_all [hasSome]

omit p in
theorem gate_iff {β : Type} {P role : Prop} {x : Except HttpError β} {S : β → Prop} (hx : (∃ b, x = .ok b) ↔ P)
    (hrole : P → role) (hS : P → ∀ b, x = .ok b → S b) : (role ∧ ∃ b, x = .ok b ∧ S b) ↔ P := by
  apply Iff.intro
  · intro h
    obtain ⟨-, b, hb, -⟩ := h
    exact hx.mp ⟨b, hb⟩
  · intro h
    obtain ⟨b, hb⟩ := hx.mpr h
    exact ⟨hrole h, b, hb, hS h b hb⟩

/-- An operation succeeds exactly if the document has the status it starts from and the actor may act. -/
theorem press_succeeds (h : Readable p db docId request document) (reason : Option String)
    (button : WorkflowButton) : Succeeds p db (button.press docId reason request).prog ↔
      document.status = button.source ∧ MayAct request document button.action := by
  obtain ⟨hfind, horg⟩ := h.found p
  have hunit : ∀ {x : Except HttpError Unit}, (∃ u, x = .ok u) ↔ x = .ok () :=
    Iff.intro (fun hu => hu.choose_spec) fun hu => ⟨(), hu⟩
  have hstatus : ∀ {dto : UpdateStatusDto} {status : DocumentStatus}, document.status = status →
      MayAct request document dto.action →
      TRANSITION_MAP dto.action = some (status, dto.status) →
        Succeeds p db (DocumentsController.updateStatus docId dto request) := fun hfrom hmay hmap =>
    (updateStatus_succeeds p hfind horg _).mpr ⟨hmay.roles.1, hfrom ▸ hmap⟩
  cases button with
  | submit =>
    refine (answer_succeeds p).trans
      ((route_succeeds p h).trans (gate_iff (hunit.trans ownerGuard_status) (fun hP => hP.2.roles.2) ?_))
    exact fun hP _ _ => hstatus hP.1 hP.2 rfl
  | approve =>
    refine (answer_succeeds p).trans
      ((route_succeeds p h).trans (gate_iff ?_ (fun hP => hP.2.roles.2) fun hP publishes _ => ?_))
    · apply Iff.intro
      · intro hguard
        obtain ⟨publishes, hguard⟩ := hguard
        have hs := approveGuard_status hguard
        exact ⟨hs, (approveGuard_ok hs).mp ⟨publishes, hguard⟩⟩
      · intro hP
        exact (approveGuard_ok hP.1).mpr hP.2
    · cases publishes with
      | true => exact hstatus hP.1 hP.2 rfl
      | false =>
        obtain ⟨result, db', hadvance⟩ := advance_succeeds p hfind horg hP.2.roles.2
        exact ⟨_, db', eval_bind.mpr ⟨result, db', hadvance, .ret ..⟩⟩
  | reject =>
    refine (answer_succeeds p).trans
      ((route_succeeds p h).trans (gate_iff (hunit.trans rejectGuard_status) (fun hP => hP.2.roles.2) ?_))
    exact fun hP _ _ => hstatus hP.1 hP.2 rfl
  | archive =>
    refine (answer_succeeds p).trans
      ((route_succeeds p h).trans (gate_iff (hunit.trans ownerGuard_status) (fun hP => hP.2.roles.2) ?_))
    exact fun hP _ _ => hstatus hP.1 hP.2 rfl
  | delete =>
    rw [WorkflowButton.press, DocumentTask.prog, deleted_eq]
    refine (answer_succeeds p).trans
      ((route_succeeds p h).trans (gate_iff (hunit.trans deleteGuard_status) (fun hP => hP.2.roles.2) ?_))
    exact fun hP _ _ => hstatus hP.1 hP.2 rfl

/-! ## Buttons and operations -/

/-- The session's user is an approver, and it is the turn of another one. -/
def OutOfTurn (session : Session) (document : Document) : Prop :=
  document.status = .PENDING ∧ "approver" ∈ session.user.roles ∧ "admin" ∉ session.user.roles ∧
    document.approvalChain ≠ [] ∧ document.approvalChain[document.approvalStep]? ≠ some session.user.sub

omit p in
theorem ownerAction_iff (session : Session) (document : Document) (status : DocumentStatus) :
    WebPermissions.ownerAction status (some session) document.loaded = true ↔ document.status = status ∧
      ("admin" ∈ session.user.roles ∨ "editor" ∈ session.user.roles ∧ document.ownerId = session.user.sub) := by
  unfold WebPermissions.ownerAction
  by_cases hstatus : document.status = status
  · by_cases hadmin : "admin" ∈ session.user.roles
    · simp [WebPermissions.hasRole, Document.loaded, hstatus, hadmin]
    · simp [WebPermissions.hasRole, WebPermissions.isOwner, Document.loaded, hstatus, hadmin]
  · simp [Document.loaded, hstatus]

omit p in
theorem reviewAction_iff (session : Session) (document : Document) :
    WebPermissions.reviewAction (some session) document.loaded = true ↔
      document.status = .PENDING ∧ ("admin" ∈ session.user.roles ∨ "approver" ∈ session.user.roles) := by
  unfold WebPermissions.reviewAction
  by_cases hstatus : document.status = .PENDING
  · simp [WebPermissions.hasAnyRole, Document.loaded, hstatus, or_comm]
  · simp [Document.loaded, hstatus]

omit p in
/-- A button is shown by the status, the roles and the owner. -/
theorem shown_iff (session : Session) (document : Document) (button : WorkflowButton) :
    button.shown (some session) document.loaded = true ↔
    document.status = button.source ∧ ("admin" ∈ session.user.roles ∨
      match button with
      | .approve | .reject => "approver" ∈ session.user.roles
      | _ => "editor" ∈ session.user.roles ∧ document.ownerId = session.user.sub) := by
  cases button with
  | submit | archive | delete => exact ownerAction_iff session document _
  | approve | reject => exact reviewAction_iff session document

/-- Each button is shown exactly if its operation succeeds, but for the approval of a document that waits for
another approver. -/
theorem buttons_agree_iff (session : Session) (organizationId : Option String) (now : Time) (reason : Option String)
    (h : Readable p db docId (session.request organizationId now) document) (button : WorkflowButton) :
    (button.shown (some session) document.loaded = true ↔
      Succeeds p db (button.press docId reason (session.request organizationId now)).prog) ↔
      ¬(button = .approve ∧ OutOfTurn session document) := by
  rw [press_succeeds p h, shown_iff]
  have hactor : buildActorId (session.request organizationId now).user = session.user.sub := rfl
  have hroles : (session.request organizationId now).user.roles = session.user.roles := rfl
  cases button with
  | approve =>
    simp only [MayAct, WorkflowButton.action, WorkflowButton.source, hactor, hroles, OutOfTurn, true_and]
    by_cases hs : document.status = .PENDING <;> by_cases ha : "admin" ∈ session.user.roles <;>
      by_cases hp : "approver" ∈ session.user.roles <;> by_cases hc : document.approvalChain = [] <;>
        simp [hs, ha, hp, hc]
  | submit | reject | archive | delete =>
    simp only [MayAct, WorkflowButton.action, WorkflowButton.source, hactor, hroles, reduceCtorEq, false_and,
      not_false_eq_true]

end

/-! An approver looks at a document that waits for another one. -/

def sessionOf (actor : String) : Session := ⟨⟨actor, ["approver"], []⟩⟩

theorem pending_readable (actor : String) :
    Readable () pendingDb "d-1" ((sessionOf actor).request (some "o-1") 0) pendingDocument :=
  ⟨pendingDb, (findOne_eval ()).mpr
    ⟨by simp [hasSome, sessionOf, Session.request], rfl, pendingDb_find, by decide, rfl⟩⟩

theorem buttons_agree_sample :
    (WorkflowButton.approve.shown (some (sessionOf "u-7")) pendingDocument.loaded = true ↔
      Succeeds () pendingDb
        (WorkflowButton.approve.press "d-1" none ((sessionOf "u-7").request (some "o-1") 0)).prog) ↔
      ¬(WorkflowButton.approve = .approve ∧ OutOfTurn (sessionOf "u-7") pendingDocument) :=
  buttons_agree_iff () (sessionOf "u-7") (some "o-1") 0 none (pending_readable "u-7") .approve

/-- The button is shown to the approver whose turn it is not, and the approval is refused. -/
theorem approve_button_misleads :
    ¬∀ (db : MetadataDb Unit) (docId : String) (document : Document) (session : Session)
      (organizationId : Option String)
        (now : Time) (reason : Option String) (button : WorkflowButton),
      Readable () db docId (session.request organizationId now) document →
        (button.shown (some session) document.loaded = true ↔
          Succeeds () db (button.press docId reason (session.request organizationId now)).prog) := by
  intro h
  have hagree := h pendingDb "d-1" pendingDocument (sessionOf "u-8") (some "o-1") 0 none .approve
    (pending_readable "u-8")
  obtain ⟨-, hmay⟩ := (press_succeeds () (pending_readable "u-8") none .approve).mp (hagree.mp (by decide))
  obtain hadmin | ⟨-, hempty | hturn⟩ := hmay
  · revert hadmin
    decide
  · cases hempty
  · revert hturn
    decide

end DocVault
