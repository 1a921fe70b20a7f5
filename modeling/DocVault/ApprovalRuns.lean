import DocVault.ApprovalChainCard

/-!
# The approval chain card over runs

Whom the card shows as approved has approved, in order, where requests do not
overlap on one chain and no admin publishes past a member who has not. And when
the members of a chain approve one after another, the card moves on with each
of them until the last one publishes.
-/

namespace DocVault

open Interleave

namespace ApprovalChainCard

/-! ## What the card shows has happened -/

section
variable {ι : Type} (tasks : ι → DocumentTask) (id : String)

def toPublished (w : Write ι) : Bool :=
  match w.op with
  | .updateDocument _ _ data _ => data.status = some .PUBLISHED && w.document.status ≠ .PUBLISHED
  | _ => false

def rechained (w : Write ι) : Bool :=
  match w.op with
  | .updateDocument _ _ data _ => data.approvalChain ≠ none && w.document.status = .PUBLISHED
  | _ => false

/-- The order is kept, by admins too, and a published document keeps its chain. -/
structure KeepsShown (w : Write ι) : Prop where
  order : KeepsOrder tasks w
  published : toPublished w = true →
    (passed w.document w.document.approvalChain.length).Sublist (approver tasks w.document.id w).toList
  chain : rechained w = false

structure ShownInOrder (db : MetadataDb ι) : Prop where
  order : InOrder tasks db
  published : ∀ id document, db.find id = some document → document.status = .PUBLISHED →
    document.approvalChain.Sublist (approvals tasks id db.log)

variable {tasks id}

theorem issued_toPublished {w : Write ι} {docId : String} {notDeleted : Bool} {data : DocumentUpdate}
    {row : Option DocumentWorkflowHistory} (ho : w.op = .updateDocument docId notDeleted data row)
    (hu : UpdateIssued docId data row) (h : data.status = some .PUBLISHED) : submits id w = false := by
  unfold submits
  rw [ho]
  cases row with
  | none => rfl
  | some row =>
    obtain ⟨_, hedge, hs, _⟩ := hu.recorded row rfl
    rw [hs] at h
    have hto := Option.some.inj h
    cases ha : row.action <;> simp_all [isEdge, TRANSITION_MAP]

theorem ShownInOrder.update {db : MetadataDb ι} {p : ι} (hi : ShownInOrder tasks db)
    {docId : String} {notDeleted : Bool}
    {data : DocumentUpdate} {row : Option DocumentWorkflowHistory} {document : Document}
    (found : db.target docId notDeleted = some document) (hu : UpdateIssued docId data row)
    (hk : KeepsShown tasks ⟨p, .updateDocument docId notDeleted data row, document⟩) :
    ShownInOrder tasks (db.update p docId notDeleted data row document) := by
  have hid : document.id = docId := find_id (target_find found)
  refine ⟨hi.order.update found hu hk.order, fun id' d hd hp => ?_⟩
  have hlog : (db.update p docId notDeleted data row document).log = db.log ++ [⟨p, _, document⟩] := rfl
  rw [find_update (target_find found)] at hd
  rw [hlog]
  split at hd
  · rename_i heq
    subst heq
    obtain rfl := Option.some.inj hd
    have hstatus : data.status.getD document.status = .PUBLISHED := hp
    show (data.approvalChain.getD document.approvalChain).Sublist _
    by_cases hold : document.status = .PUBLISHED
    · -- a published document keeps its chain, and is not submitted
      have hchain : data.approvalChain = none := by simpa [rechained, hold] using hk.chain
      have hsub : submits docId (⟨p, .updateDocument docId notDeleted data row, document⟩ : Write ι) = false := by
        cases row <;> simp [submits, hold]
      rw [hchain, Option.getD_none, approvals_append, if_neg (by rw [hsub]; exact Bool.false_ne_true)]
      exact (hi.published docId document (target_find found) hold).trans (List.sublist_append_left ..)
    · have hnew : data.status = some .PUBLISHED := by
        cases hs : data.status with
        | none =>
          rw [hs, Option.getD_none] at hstatus
          exact absurd hstatus hold
        | some status =>
          rw [hs, Option.getD_some] at hstatus
          rw [hstatus]
      -- a publication has a row, which leaves the chain alone
      have hchain : data.approvalChain = none := by
        obtain ⟨r, hr⟩ := Option.ne_none_iff_exists'.mp (hu.published hnew)
        by_contra hc
        have hstep := hu.chain hc
        rw [(hu.recorded r hr).2.2.2] at hstep
        cases hstep
      rw [hchain, Option.getD_none, approvals_append,
        if_neg (by rw [issued_toPublished rfl hu hnew]; exact Bool.false_ne_true)]
      have hpass := hk.published (by simp [toPublished, hnew, hold])
      rw [show document.id = _ from hid] at hpass
      have htake := take_passed document document.approvalChain.length
      rw [List.take_length] at htake
      exact htake.trans ((hi.order.steps docId document (target_find found)).append hpass)
  · rename_i hne
    rw [approvals_other fun docId nd dt rw' he => by cases he; exact hne]
    exact hi.published id' d hd hp

variable (tasks) in
def ShownInTurn (db : MetadataDb ι) (p : ι) (o : DocumentOp) : Prop :=
  match o with
  | .updateDocument docId notDeleted _ _ => ∀ document, db.target docId notDeleted = some document →
      KeepsShown tasks ⟨p, o, document⟩
  | _ => True

theorem ShownInOrder.step {db db' : MetadataDb ι} {p : ι} {o : DocumentOp} {r : o.Res} (hi : ShownInOrder tasks db)
    (hu : Issued o) (ht : ShownInTurn tasks db p o) (hx : DocumentExec p db o r db') : ShownInOrder tasks db' := by
  rcases exec_writes hx with rfl | hw
  · exact hi
  · cases hw with
    | @create document new =>
      refine ⟨hi.order.create new hu.2.1, fun id d hd hp => ?_⟩
      rw [find_create new] at hd
      split at hd
      · obtain rfl := Option.some.inj hd
        rw [hu.1] at hp
        cases hp
      · have hlog : (db.create p document).log = db.log ++ [⟨p, .createDocument document, document⟩] := rfl
        rw [hlog, approvals_other fun _ _ _ _ h => by cases h]
        exact hi.published id d hd hp
    | update found => exact hi.update found hu (ht _ found)
    | @delete id document found =>
      refine ⟨hi.order.delete _ _, fun id' d hd hp => ?_⟩
      rw [find_delete] at hd
      split at hd
      · cases hd
      · have hlog : (db.delete p id document).log = db.log ++ [⟨p, .deleteDocument id, document⟩] := rfl
        rw [hlog, approvals_other fun _ _ _ _ h => by cases h]
        exact hi.published id' d hd hp
    | @createVersion row data document found =>
      refine ⟨hi.order.createVersion found hu, fun id d hd hp => ?_⟩
      have hlog : (db.createVersion p row data document).log =
        db.log ++ [⟨p, .createVersion row data, document⟩] := rfl
      rw [hlog, approvals_other fun _ _ _ _ h => by cases h]
      rw [find_createVersion found] at hd
      split at hd
      · rename_i hid
        obtain rfl := Option.some.inj hd
        have hstatus : data.status.getD document.status = .PUBLISHED := hp
        rw [hu.workflow.1, Option.getD_none] at hstatus
        show (data.approvalChain.getD document.approvalChain).Sublist _
        rw [hu.workflow.2.1, Option.getD_none]
        exact hi.published id document (hid ▸ found) hstatus
      · exact hi.published id d hd hp

end

/-! ### Chains and publications that do not overlap -/

def DocumentOp.publishes : DocumentOp → Option String
  | .updateDocument id _ data _ => if data.status = some .PUBLISHED then some id else none
  | _ => none

section
variable {ι : Type} (tasks : ι → DocumentTask) (docId : String) {p : ι}

/-- An admin publishes a document whose chain has no member left. -/
def FindsEnd (db : MetadataDb ι) (p : ι) (o : DocumentOp) : Prop :=
  (tasks p).isAdmin = true → ∀ id ∈ DocumentOp.publishes o, ∀ document ∈ db.find id,
    document.approvalChain.drop document.approvalStep = []

/-- Besides, nobody publishes a document while a request to set its chain is under way,
and no admin past a member. -/
structure ShownApart (c : Config ι (MetadataDb ι) DocumentOp DocumentOp.Res HttpError DocumentOutcome) (p : ι)
    (o : DocumentOp) : Prop extends ChainsApart tasks c p o where
  unpublished : ∀ id, DocumentOp.publishes o = some id → ∀ q, q ≠ p → ∀ dto request,
    tasks q = .setApprovalChain id dto request → ¬UnderWay (startTasks tasks) c q
  ends : FindsEnd tasks c.store p o

def Unpublished (db : MetadataDb ι) : Prop := ∀ document, db.find docId = some document →
    document.status ≠ .PUBLISHED

/-- The operation writes no chain into a published document. -/
def Rechains (db : MetadataDb ι) : DocumentOp → Prop
  | .updateDocument id _ data _ => data.approvalChain ≠ none → Unpublished id db
  | _ => True

def rechaining : Spec ι (MetadataDb ι) DocumentOp DocumentOp.Res where
  exec := DocumentExec
  pre _ _ _ := True
  inv _ := True
  rely p o db db' := o ≠ none → ∀ docId dto request, tasks p = .setApprovalChain docId dto request →
    Unpublished docId db → Unpublished docId db'
  guar _ := Rechains

variable {tasks docId}

theorem rechaining_closed : (rechaining tasks).Closed :=
  ⟨fun _ _ _ _ _ _ _ _ => id, fun _ _ _ _ _ h₁ h₂ ho docId dto request ht h =>
    h₂ ho docId dto request ht (h₁ ho docId dto request ht h)⟩

theorem unpublished_kept {db db' : MetadataDb ι} {o : DocumentOp} {r : o.Res} (hu : Issued o)
    (ho : DocumentOp.publishes o ≠ some docId) (hx : DocumentExec p db o r db') (h : Unpublished docId db) :
    Unpublished docId db' := by
  intro d hd
  rcases exec_writes hx with rfl | hw
  · exact h d hd
  · cases hw with
    | @create document new =>
      rw [find_create new] at hd
      split at hd
      · obtain rfl := Option.some.inj hd
        rw [hu.1]
        exact nofun
      · exact h d hd
    | @update id notDeleted data row document found =>
      have found := target_find found
      rw [find_update found] at hd
      split at hd
      · rename_i hid
        subst hid
        obtain rfl := Option.some.inj hd
        show data.status.getD document.status ≠ .PUBLISHED
        cases hs : data.status with
        | none => exact h document found
        | some status => exact fun hpub => ho (if_pos (by rw [hs]; exact congrArg some hpub))
      · exact h d hd
    | @delete id document found =>
      rw [find_delete] at hd
      split at hd
      · cases hd
      · exact h d hd
    | @createVersion row data document found _ =>
      rw [find_createVersion found] at hd
      split at hd
      · rename_i hid
        subst hid
        obtain rfl := Option.some.inj hd
        show data.status.getD document.status ≠ .PUBLISHED
        rw [hu.workflow.1, Option.getD_none]
        exact h document found
      · exact h d hd

theorem issues_rechains {t : DocumentTask} {o : DocumentOp} (h : Issues t o)
    (ht : ∀ docId dto request, t ≠ .setApprovalChain docId dto request) (db : MetadataDb ι) : Rechains db o := by
  cases h with
  | read h => cases o <;> trivial
  | setApprovalChain => exact absurd rfl (ht _ _ _)
  | create | createVersion | restoreVersion | purgeExpiredTrash => trivial
  | _ => exact fun h => absurd rfl h

/-- The check of `setApprovalChain` holds at its write. -/
theorem task_rechains (p : ι) (db : MetadataDb ι) :
    Ok (rechaining tasks) p (fun _ _ => True) (fun _ _ => True) (tasks p).prog db := by
  by_cases ht : ∃ docId dto request, tasks p = .setApprovalChain docId dto request
  · obtain ⟨docId, dto, request, ht⟩ := ht
    have hkeep : ∀ {o db db'}, (rechaining tasks).rely p (some o) db db' → Unpublished docId db →
      Unpublished docId db' :=
      fun hs => hs (Option.some_ne_none _) docId dto request ht
    rw [ht]
    show Ok _ p _ _ (answered (DocumentsController.setApprovalChain docId dto request)) db
    refine Ok_bind (Q := fun _ _ => True) (fun _ db _ _ => (Ok_ret _ db).mpr trivial) _ db trivial ?_
    refine Ok_ofExcept_bind (fun _ _ => ?_) fun _ _ => trivial
    refine Ok_bind (Q := fun document db => document.status ≠ .PUBLISHED → Unpublished docId db)
      (fun document db _ h => ?_) _ db trivial ?_
    · refine Ok_ofExcept_bind (fun approvers hguard => ?_) fun _ _ => trivial
      have hpending : document.status = .PENDING := by
        unfold DocumentsService.approvalChainGuard at hguard
        dsimp only at hguard
        split at hguard
        · cases hguard
        · split at hguard
          · cases hguard
          · rename_i h
            simp only [Bool.not_eq_true', Bool.not_eq_false, Bool.and_eq_true, decide_eq_true_eq] at h
            exact h.1
      refine Ok_op (fun db' hs _ _ _ => hkeep hs (h (by rw [hpending]; exact nofun))) (fun _ _ _ _ => trivial) ?_
      exact fun _ _ _ _ _ _ _ => ⟨trivial, Ok_ofExcept (fun _ _ => trivial) fun _ _ => trivial⟩
    · refine Ok_ofExcept_bind (fun _ _ => ?_) fun _ _ => trivial
      refine Ok_op (fun _ _ _ _ => trivial) (fun _ _ _ _ => trivial) fun db' r db'' _ _ _ hx => ⟨trivial, ?_⟩
      obtain ⟨hr, rfl⟩ := Prod.mk.inj hx
      cases r with
      | none => trivial
      | some document =>
        intro hs d hd
        obtain rfl := Option.some.inj ((Option.filter_eq_some_iff.mp hr.symm).1.symm.trans hd)
        exact hs
  · push Not at ht
    exact Ok_uses (J := fun _ => True) (fun _ _ _ _ _ _ _ => trivial) (fun _ db hu _ _ _ =>
      issues_rechains hu ht db) (fun _ _ _ _ _ _ _ _ _ => ⟨trivial, trivial⟩) _ db (tasks p).issues trivial

variable [DecidableEq ι] {c : Config ι (MetadataDb ι) DocumentOp DocumentOp.Res HttpError DocumentOutcome}

theorem reach_rechains (hr : Reach DocumentExec (ShownApart tasks) (startTasks tasks) c) (p : ι) :
    Ok (rechaining tasks) p (fun _ _ => True) (fun _ _ => True) (c.procs p) c.store := by
  refine (Reach.started (S := rechaining tasks) (Q := fun _ _ _ => True) (E := fun _ _ _ => True) (reach_issued hr)
    rechaining_closed trivial (fun p db _ => task_rechains p db) (fun _ _ _ _ => trivial)
    (fun _ _ _ _ _ _ _ => trivial) (fun _ _ _ _ _ _ _ => trivial) ?_).2 p
  intro c p q o k r db' _ _ hx hc _ hne hbegun hnext docId dto request ht
  exact unpublished_kept hc.2 (fun ho => hc.1.unpublished docId ho p hne dto request ht ⟨hbegun, hnext⟩) hx

theorem reach_shownInTurn (hr : Reach DocumentExec (ShownApart tasks) (startTasks tasks) c) :
    Reach DocumentExec (fun c p o => ShownInTurn tasks c.store p o) (startTasks tasks) c := by
  refine hr.refine fun c p o k r db' hc hp hx ha => ⟨hx, ?_⟩
  have hturn := reach_in_turn (hc.mono fun _ _ _ h => h.toChainsApart) p
  have hchain := reach_rechains hc p
  rw [hp] at hturn hchain
  have hturn := hturn.guar approving_closed trivial ⟨ha.start, ha.indirect⟩
  have hchain := hchain.guar rechaining_closed trivial trivial
  cases o with
  | updateDocument id notDeleted data row =>
    intro document hd
    have horder := hturn document hd
    have found := target_find hd
    have hid : document.id = id := find_id found
    refine ⟨horder, fun hpub => ?_, ?_⟩
    · simp only [toPublished, Bool.and_eq_true, decide_eq_true_eq] at hpub
      cases hadmin : (tasks p).isAdmin with
      | true =>
        have hend := ha.ends hadmin id (by simp [DocumentOp.publishes, hpub.1]) document found
        simp [passed, hend]
      | false => exact horder.published (by simp [publishes, hid, hpub, hadmin])
    · by_cases hnone : data.approvalChain = none
      · simp [rechained, hnone]
      · simp [rechained, hchain hnone document found]
  | _ => trivial

/-- Whom the card of a document shows as approved has approved it, in the order shown,
since it was last submitted. -/
theorem shown_has_approved (hr : Reach DocumentExec (ShownApart tasks) (startTasks tasks) c) {id : String}
    {document : Document} (hd : c.store.find id = some document) :
    (shown .approved (buildApprovalChainModel document.chainDetail)).Sublist (approvals tasks id c.store.log) := by
  have h₀ : ShownInOrder tasks (emptyMetadata ι) := by
    refine ⟨⟨fun _ _ => nofun, fun before w hpre => ?_⟩, fun _ _ => nofun⟩
    exact absurd (List.prefix_nil.mp hpre) (by simp)
  have hi := (reach_shownInTurn hr).invariant (I := ShownInOrder tasks) (fun p => (tasks p).uses) h₀
    fun _ _ _ _ _ hi hu ht hx => hi.step hu ht hx
  rw [shown_approved]
  split
  · rename_i hp
    exact hi.published id document hd hp
  · exact hi.order.steps id document hd

end

def shownApart {ι : Type} [DecidableEq ι] (tasks : ι → DocumentTask)
    (c : Config ι (MetadataDb ι) DocumentOp DocumentOp.Res HttpError DocumentOutcome) (begun : List ι) (p : ι)
    (o : DocumentOp) : Bool :=
  chainsApart tasks c begun p o && (DocumentOp.publishes o).all (fun id => begun.all fun q =>
    q = p || (c.procs q).next.isNone || match tasks q with
      | .setApprovalChain id' _ _ => id' ≠ id
      | _ => true) && !(tasks p).isAdmin

theorem shownApart_sound {ι : Type} [DecidableEq ι] {tasks : ι → DocumentTask}
    (c : Config ι (MetadataDb ι) DocumentOp DocumentOp.Res HttpError DocumentOutcome) (begun : List ι) (p : ι)
    (o : DocumentOp) (hb : ∀ q, q ∉ begun → c.procs q = (startTasks tasks).procs q)
    (h : shownApart tasks c begun p o = true) : ShownApart tasks c p o := by
  simp only [shownApart, Bool.and_eq_true, Option.all_eq_true, List.all_eq_true, Bool.not_eq_true'] at h
  refine ⟨chainsApart_sound c begun p o hb h.1.1, fun id hpub q hne dto request ht hway => ?_,
    fun hadmin => absurd hadmin (by simp [h.2])⟩
  have hq := h.1.2 id hpub q (by_contra fun hq => hway.1 (hb q hq))
  simp [hne, ht, hway.2] at hq

theorem approvedRun_found : ∃ document, approvedRun.store.find "d-1" = some document :=
  Option.isSome_iff_exists.mp (by decide +kernel)

theorem shown_has_approved_sample : ∃ document, approvedRun.store.find "d-1" = some document ∧
    (shown .approved (buildApprovalChainModel document.chainDetail)).Sublist
      (approvals chainTasks "d-1" approvedRun.store.log) :=
  approvedRun_found.imp fun _ hd => ⟨hd, shown_has_approved (Reach.schedule documentRun_exec _ _ .refl
    (meets_of_begun shownApart_sound _ _ [] (fun _ _ => rfl) (by decide +kernel))) hd⟩

/-! ## One approver after another -/

section
variable {ι : Type} (p : ι) {db : MetadataDb ι} {docId : String} {request : Request} {document : Document}

theorem result_ofExcept_bind {α β : Type} {x : Except HttpError α} {a : α} (h : x = .ok a) (f : α → DocumentM β) :
    (Prog.ofExcept x >>= f).result documentRun p db = (f a).result documentRun p db := by
  rw [h]
  rfl

theorem findOne_result {β : Type} (found : db.find docId = some document)
    (horg : request.organizationId = some document.organizationId)
    (hrole : hasSome ["viewer", "editor", "approver", "compliance_officer", "admin"] request.user.roles = true)
    (hs : document.status ≠ .DELETED) (f : Document → DocumentM β) :
    (DocumentsController.findOne docId request >>= f).result documentRun p db =
      (f document).result documentRun p db := by
  unfold DocumentsController.findOne
  rw [(rolesGuard_ok (u := ())).mpr hrole, requireOrgId_ok.mpr horg]
  simp only [Prog.ofExcept_ok, Prog.ret_bind, Prog.op_bind, Prog.call_bind, Prog.result,
    documentRun, found, Option.filter, decide_true, if_true, if_neg hs, Prog.pure_eq]

/-- An approver whose turn it is not the last one moves the document on. -/
theorem approve_advances (found : db.find docId = some document) (pending : document.status = .PENDING)
    (horg : request.organizationId = some document.organizationId) (hrole : "approver" ∈ request.user.roles)
    (hadmin : "admin" ∉ request.user.roles)
    (hturn : document.approvalChain[document.approvalStep]? = some (buildActorId request.user))
    (hmore : document.approvalStep + 1 < document.approvalChain.length) :
    ((WorkflowController.approve docId request).result documentRun p db).2 =
      db.update p docId false { approvalStep := some (document.approvalStep + 1) } none document := by
  have hguard : WorkflowService.approveGuard request document = .ok false := by
    have hactor : request.context.actorId = buildActorId request.user := rfl
    have hlength : 0 < document.approvalChain.length := by omega
    unfold WorkflowService.approveGuard
    simp [hrole, hadmin, pending, hturn, hactor, hlength]
    omega
  have hall : hasSome ["viewer", "editor", "approver", "compliance_officer",
    "admin"] request.user.roles = true := by
    simp [hasSome, hrole]
  have happrove : hasSome ["approver", "admin"] request.user.roles = true := by simp [hasSome, hrole]
  have htarget : db.target docId false = some document := by simp [MetadataDb.target, found]
  unfold WorkflowController.approve WorkflowService.approve
  rw [result_ofExcept_bind p ((rolesGuard_ok (u := ())).mpr happrove),
    findOne_result p found horg hall (by simp [pending]), result_ofExcept_bind p hguard, if_neg Bool.false_ne_true]
  unfold DocumentsController.advanceApprovalStep DocumentsService.advanceApprovalStep
    DocumentsService.findInOrgOrThrow findInOrg
  rw [(rolesGuard_ok (u := ())).mpr happrove, requireOrgId_ok.mpr horg]
  simp only [Prog.ofExcept_ok, Prog.ret_bind, Prog.op_bind, Prog.call_bind, Prog.result,
    documentRun, found, Option.filter, decide_true, if_true, Prog.pure_eq, htarget, updated]

/-- The last approver publishes the document. -/
theorem approve_publishes (found : db.find docId = some document) (pending : document.status = .PENDING)
    (horg : request.organizationId = some document.organizationId) (hrole : "approver" ∈ request.user.roles)
    (hadmin : "admin" ∉ request.user.roles)
    (hturn : document.approvalChain[document.approvalStep]? = some (buildActorId request.user))
    (hlast : document.approvalStep + 1 = document.approvalChain.length) :
    ((WorkflowController.approve docId request).result documentRun p db).2 =
      db.update p docId false (StatusService.updateData .APPROVE .PUBLISHED document request.now)
        (some ⟨docId, .PENDING, .PUBLISHED, .APPROVE, buildActorId request.user, none⟩) document := by
  have hguard : WorkflowService.approveGuard request document = .ok true := by
    have hactor : request.context.actorId = buildActorId request.user := rfl
    have hlength : 0 < document.approvalChain.length := by omega
    unfold WorkflowService.approveGuard
    simp [hrole, hadmin, pending, hturn, hactor, hlength]
    omega
  have hall : hasSome ["viewer", "editor", "approver", "compliance_officer",
    "admin"] request.user.roles = true := by
    simp [hasSome, hrole]
  have happrove : hasSome ["approver", "admin"] request.user.roles = true := by simp [hasSome, hrole]
  have hupdate : hasSome ["editor", "approver", "admin"] request.user.roles = true := by simp [hasSome, hrole]
  have hstatus : StatusService.guard { status := .PUBLISHED, action := .APPROVE } request.user document =
      .ok (document.status, .PUBLISHED) :=
    StatusService.guard_ok.mpr ⟨by rw [hasSome_comm]; exact hupdate, by rw [pending]; rfl, rfl⟩
  have htarget : db.target docId false = some document := by simp [MetadataDb.target, found]
  unfold WorkflowController.approve WorkflowService.approve
  rw [result_ofExcept_bind p ((rolesGuard_ok (u := ())).mpr happrove),
    findOne_result p found horg hall (by simp [pending]), result_ofExcept_bind p hguard, if_pos rfl]
  unfold DocumentsController.updateStatus StatusService.update
  rw [(rolesGuard_ok (u := ())).mpr hupdate, requireOrgId_ok.mpr horg]
  simp only [Prog.ofExcept_ok, Prog.ret_bind, Prog.op_bind, Prog.result, documentRun, found, Option.filter,
    decide_true, if_true, hstatus, htarget, updated, StatusService.row, pending]

end

/-- The request of an approver of the document's organization who is no admin. -/
structure Approver (document : Document) (request : Request) : Prop where
  member : request.organizationId = some document.organizationId
  role : "approver" ∈ request.user.roles
  nonAdmin : "admin" ∉ request.user.roles

theorem drop_cons {l : List String} {n : Nat} {a : String} {rest : List String} (h : a :: rest = l.drop n) :
    l[n]? = some a ∧ rest = l.drop (n + 1) ∧ n + 1 + rest.length = l.length := by
  have hhead : (l.drop n)[0]? = l[n]? := by rw [List.getElem?_drop, Nat.add_zero]
  have hlength := congrArg List.length h
  rw [List.length_cons, List.length_drop] at hlength
  refine ⟨by rw [← hhead, ← h]; rfl, ?_, by omega⟩
  rw [← List.tail_drop, ← h]
  rfl

section
variable {ι : Type} (docId : String) (request : ι → Request)

def approves (p : ι) : DocumentM Document := WorkflowController.approve docId (request p)

def actors (ps : List ι) : List String := ps.map fun p => buildActorId (request p).user

def stepped (document : Document) (n : Nat) : Document :=
  { document with approvalStep := document.approvalStep + n }

variable {docId request}

theorem stepped_stepped (document : Document) (n : Nat) :
    stepped (stepped document 1) n = stepped document (n + 1) := by
  have hsum : document.approvalStep + 1 + n = document.approvalStep + (n + 1) := by omega
  unfold stepped
  rw [hsum]

/-- As long as others are to come, each approver moves the document on by one step. -/
theorem approves_advance : ∀ (done : List ι) {db : MetadataDb ι} {document : Document} {later : List String},
    db.find docId = some document → document.status = .PENDING → (∀ p ∈ done, Approver document (request p)) →
    later ≠ [] → actors request done ++ later = document.approvalChain.drop document.approvalStep →
      (inTurn documentRun (approves docId request) done db).find docId = some (stepped document done.length) ∧
      (inTurn documentRun (approves docId request) done db).rows docId = db.rows docId := by
  intro done
  induction done with
  | nil =>
    intro db document later found _ _ _ _
    exact ⟨found, rfl⟩
  | cons p done ih =>
    intro db document later found pending hmay hlater hactors
    have hcons : buildActorId (request p).user :: (actors request done ++ later) =
      document.approvalChain.drop document.approvalStep := hactors
    obtain ⟨hturn, hrest, hlength⟩ := drop_cons hcons
    have hp := hmay p List.mem_cons_self
    have hmore : document.approvalStep + 1 < document.approvalChain.length := by
      have hpos := List.length_pos_iff.mpr hlater
      rw [List.length_append] at hlength
      omega
    have hstep := approve_advances p found pending hp.member hp.role hp.nonAdmin hturn hmore
    have hfound : (db.update p docId false { approvalStep := some (document.approvalStep + 1) }
      none document).find docId =
        some (stepped document 1) := by
      rw [find_update found, if_pos rfl]
      rfl
    have hrun : inTurn documentRun (approves docId request) (p :: done) db =
        inTurn documentRun (approves docId request) done
          (db.update p docId false { approvalStep := some (document.approvalStep + 1) } none document) := by
      rw [← hstep]
      rfl
    obtain ⟨hfind, hrows⟩ := ih hfound pending
      (fun q hq => ⟨(hmay q (List.mem_cons_of_mem _ hq)).member, (hmay q (List.mem_cons_of_mem _ hq)).role,
        (hmay q (List.mem_cons_of_mem _ hq)).nonAdmin⟩) hlater hrest
    rw [hrun]
    refine ⟨?_, ?_⟩
    · rw [hfind, stepped_stepped]
      rfl
    · rw [hrows, rows_update]
      simp

theorem inTurn_append (done rest : List ι) (db : MetadataDb ι) :
    inTurn documentRun (approves docId request) (done ++ rest) db =
      inTurn documentRun (approves docId request) rest (inTurn documentRun (approves docId request) done db) := by
  induction done generalizing db with
  | nil => rfl
  | cons p done ih => exact ih _

/-- When the members who have not approved yet do so one after another, the card shows each of them as approved in
turn and waits for the next one, who alone may approve then besides the admins. The last one publishes, with one
row in the history. -/
theorem chain_completes {db : MetadataDb ι} {document : Document} {last : ι} {ps : List ι}
    (found : db.find docId = some document) (pending : document.status = .PENDING)
    (hmay : ∀ p ∈ ps ++ [last], Approver document (request p))
    (hactors : actors request (ps ++ [last]) = document.approvalChain.drop document.approvalStep) :
    (∀ done next later, ps ++ [last] = done ++ next :: later →
      ∃ d, (inTurn documentRun (approves docId request) done db).find docId = some d ∧ d.status = .PENDING ∧
        shown .approved (buildApprovalChainModel d.chainDetail) =
          document.approvalChain.take (document.approvalStep + done.length) ∧
        (buildApprovalChainModel d.chainDetail).currentApproverId = some (buildActorId (request next).user) ∧
        ∀ q other, Readable q (inTurn documentRun (approves docId request) done db) docId other d →
          "admin" ∉ other.user.roles →
          (Succeeds q (inTurn documentRun (approves docId request) done db)
            (WorkflowController.approve docId other) ↔
            "approver" ∈ other.user.roles ∧ buildActorId other.user = buildActorId (request next).user)) ∧
    ∃ d, (inTurn documentRun (approves docId request) (ps ++ [last]) db).find docId = some d ∧
    d.status = .PUBLISHED ∧
      shown .approved (buildApprovalChainModel d.chainDetail) = document.approvalChain ∧
      (inTurn documentRun (approves docId request) (ps ++ [last]) db).rows docId = db.rows docId ++
        [⟨docId, .PENDING, .PUBLISHED, .APPROVE, buildActorId (request last).user, none⟩] := by
  -- the document before the turn of a member
  have hbefore : ∀ done next later, ps ++ [last] = done ++ next :: later →
      (inTurn documentRun (approves docId request) done db).find docId = some (stepped document done.length) ∧
      (inTurn documentRun (approves docId request) done db).rows docId = db.rows docId ∧
      buildActorId (request next).user :: actors request later =
        document.approvalChain.drop (document.approvalStep + done.length) := by
    intro done next later hsplit
    have hall : actors request done ++ actors request (next :: later) =
        document.approvalChain.drop document.approvalStep := by
      rw [← hactors, hsplit]
      exact List.map_append.symm
    obtain ⟨hfind, hrows⟩ := approves_advance done found pending
      (fun p hp => hmay p (by rw [hsplit]; exact List.mem_append_left _ hp)) (List.cons_ne_nil _ _) hall
    refine ⟨hfind, hrows, ?_⟩
    rw [← List.drop_drop, ← hall]
    exact (List.drop_left' (List.length_map ..)).symm
  refine ⟨fun done next later hsplit => ?_, ?_⟩
  · obtain ⟨hfind, -, hturn⟩ := hbefore done next later hsplit
    have hcurrent := (drop_cons hturn).1
    refine ⟨_, hfind, pending, ?_, ?_, fun q other hread hadmin => ?_⟩
    · rw [shown_approved, if_neg (by rw [show (stepped document done.length).status = _ from pending]; exact nofun)]
      rfl
    · simp [buildApprovalChainModel, Document.chainDetail, stepped, pending, hcurrent]
    · refine (answer_succeeds q).symm.trans ((press_succeeds q hread none .approve).trans ?_)
      have hnonempty : document.approvalChain ≠ [] := by
        intro hempty
        rw [hempty] at hcurrent
        cases hcurrent
      simp [MayAct, WorkflowButton.source, WorkflowButton.action, stepped, pending, hadmin,
        hnonempty, hcurrent, eq_comm]
  · obtain ⟨hfind, hrows, hturn⟩ := hbefore ps last [] rfl
    obtain ⟨hcurrent, -, hlength⟩ := drop_cons hturn
    have hlast := hmay last (List.mem_append_right _ List.mem_cons_self)
    have hpublish := approve_publishes last hfind pending hlast.member hlast.role hlast.nonAdmin hcurrent
      (by simpa [stepped, actors] using hlength)
    rw [inTurn_append]
    have hrun : inTurn documentRun (approves docId request) [last] (inTurn documentRun
      (approves docId request) ps db) =
        ((WorkflowController.approve docId (request last)).result documentRun last
          (inTurn documentRun (approves docId request) ps db)).2 := rfl
    rw [hrun, hpublish]
    refine ⟨_, by rw [find_update hfind, if_pos rfl], rfl, ?_, ?_⟩
    · refine shown_approved.trans ((if_pos ?_).trans ?_)
      · rfl
      · rfl
    · rw [rows_update, hrows]
      simp

end

def chainDocument : Document := { pendingDocument with approvalChain := ["u-7", "u-8"] }

def chainDb : MetadataDb String := ⟨[chainDocument], [], [], []⟩

theorem chainDb_found : chainDb.find "d-1" = some chainDocument := by decide +kernel

theorem chain_completes_sample : ∃ d,
    (inTurn documentRun (approves "d-1" approverOf) ["u-7", "u-8"] chainDb).find "d-1" = some d ∧
    d.status = .PUBLISHED ∧ shown .approved (buildApprovalChainModel d.chainDetail) = ["u-7", "u-8"] ∧
    (inTurn documentRun (approves "d-1" approverOf) ["u-7", "u-8"] chainDb).rows "d-1" = chainDb.rows "d-1" ++
      [⟨"d-1", .PENDING, .PUBLISHED, .APPROVE, "u-8", none⟩] :=
  (@chain_completes String "d-1" approverOf chainDb chainDocument "u-8" ["u-7"] chainDb_found rfl
    (fun _ _ => ⟨rfl, List.mem_singleton_self _, by simp [approverOf]⟩) rfl).2

end ApprovalChainCard

end DocVault
