import DocVault.Erasure
import DocVault.Notifications
import DocVault.ApprovalChain
import DocVault.WorkflowButtons

/-!
# The notifications of the workflow

After each step `WorkflowService` notifies whom the step concerns. On the
documents its requests do the same as without the notifications
(`notifying_refines`), and in any order of the steps of all requests a
notification tells of what its request has written before (`notices_tell`).
-/

namespace DocVault

open Interleave

/-! ## NotificationClient -/

structure WorkflowNotificationMetadata where
  action : WorkflowAction
  fromStatus : DocumentStatus
  toStatus : DocumentStatus
  actorId : String
  deriving DecidableEq

structure NotificationPayload where
  type : NotifyType
  docId : String
  recipientId : Option String := none
  recipientIds : Option (List String) := none
  docTitle : Option String
  reason : Option String := none
  metadata : WorkflowNotificationMetadata
  deriving DecidableEq

/-- What the workflow service asks besides a `Document`: the title comes with it, `getApprovers` answers the empty
list when it fails, and `notify` never fails. -/
inductive NoticeCall where
  | getTitle (docId : String)
  | getApprovers
  | notify (body : NotificationPayload)

abbrev NoticeCall.Res : NoticeCall → Type
  | getTitle _ => String
  | getApprovers => List String
  | notify _ => Unit

abbrev NoticeOp := DocumentOp ⊕ NoticeCall

abbrev NoticeOp.Res : NoticeOp → Type := Sum.elim DocumentOp.Res NoticeCall.Res

abbrev NoticeM := Prog NoticeOp NoticeOp.Res HttpError

abbrev metadataClient {α : Type} (m : DocumentM α) : NoticeM α := m.own

abbrev getTitle (docId : String) : NoticeM String := Prog.ask (NoticeCall.getTitle docId)

abbrev getApprovers : NoticeM (List String) := Prog.ask NoticeCall.getApprovers

abbrev notify (body : NotificationPayload) : NoticeM Unit := Prog.ask (NoticeCall.notify body)

/-! ## WorkflowService with its notifications -/

namespace NotifyingWorkflow

def submit (docId : String) (request : Request) : NoticeM Document := do
  let document ← metadataClient (DocumentsController.findOne docId request)
  let title ← getTitle docId
  let _ ← Prog.ofExcept (WorkflowService.submitGuard request document)
  let updated ← metadataClient
    (DocumentsController.updateStatus docId { status := .PENDING, action := .SUBMIT } request)
  let approverIds ← getApprovers
  let _ ← notify
    { type := .SUBMITTED, docId := docId, recipientIds := some approverIds, docTitle := some title
      metadata := ⟨.SUBMIT, document.status, .PENDING, request.context.actorId⟩ }
  pure updated

def approve (docId : String) (request : Request) : NoticeM Document := do
  let document ← metadataClient (DocumentsController.findOne docId request)
  let title ← getTitle docId
  let publishes ← Prog.ofExcept (WorkflowService.approveGuard request document)
  if publishes then do
    let updated ← metadataClient
      (DocumentsController.updateStatus docId { status := .PUBLISHED, action := .APPROVE } request)
    let _ ← notify
      { type := .APPROVED, docId := docId, recipientId := some document.ownerId, docTitle := some title
        metadata := ⟨.APPROVE, document.status, .PUBLISHED, request.context.actorId⟩ }
    pure updated
  else do
    let _ ← metadataClient (DocumentsController.advanceApprovalStep docId request)
    let _ ← notify
      { type := .APPROVED, docId := docId, recipientId := document.approvalChain[document.approvalStep + 1]?,
        docTitle := some title,
        metadata := ⟨.APPROVE, document.status, .PENDING, request.context.actorId⟩ }
    pure { document with status := .PENDING }

def reject (docId : String) (reason : Option String) (request : Request) : NoticeM Document := do
  let document ← metadataClient (DocumentsController.findOne docId request)
  let title ← getTitle docId
  let _ ← Prog.ofExcept (WorkflowService.rejectGuard request document)
  let updated ← metadataClient
    (DocumentsController.updateStatus docId { status := .DRAFT, action := .REJECT, reason := reason } request)
  let _ ← notify
    { type := .REJECTED, docId := docId, recipientId := some document.ownerId, docTitle := some title,
      reason := reason,
      metadata := ⟨.REJECT, document.status, .DRAFT, request.context.actorId⟩ }
  pure updated

def archive (docId : String) (request : Request) : NoticeM Document := do
  let document ← metadataClient (DocumentsController.findOne docId request)
  let title ← getTitle docId
  let _ ← Prog.ofExcept (WorkflowService.archiveGuard request document)
  let updated ← metadataClient
    (DocumentsController.updateStatus docId { status := .ARCHIVED, action := .ARCHIVE } request)
  let _ ← notify
    { type := .ARCHIVED, docId := docId, recipientId := some (buildActorId request.user), docTitle := some title
      metadata := ⟨.ARCHIVE, document.status, .ARCHIVED, request.context.actorId⟩ }
  pure updated

def delete (docId : String) (request : Request) : NoticeM WorkflowService.DeleteResult := do
  let document ← metadataClient (DocumentsController.findOne docId request)
  let title ← getTitle docId
  let _ ← Prog.ofExcept (WorkflowService.deleteGuard request document)
  let _ ← metadataClient
    (DocumentsController.updateStatus docId { status := .DELETED, action := .DELETE } request)
  let _ ← notify
    { type := .DELETED, docId := docId, recipientId := some (buildActorId request.user), docTitle := some title
      metadata := ⟨.DELETE, document.status, .DELETED, request.context.actorId⟩ }
  pure ⟨true⟩

end NotifyingWorkflow

def notifyingRoute {α : Type} (required : List String) (outcome : α → DocumentOutcome) (request : Request)
    (m : NoticeM α) : NoticeM DocumentOutcome := do
  let _ ← Prog.ofExcept (RolesGuard required request.user)
  let a ← m
  pure (outcome a)

/-- The requests to the workflow service notify, the others are as they were. -/
def DocumentTask.notifying : DocumentTask → NoticeM DocumentOutcome
  | submit docId request =>
      notifyingRoute ["editor", "admin"] .document request (NotifyingWorkflow.submit docId request)
  | approve docId request =>
      notifyingRoute ["approver", "admin"] .document request (NotifyingWorkflow.approve docId request)
  | reject docId reason request =>
    notifyingRoute ["approver", "admin"] .document request (NotifyingWorkflow.reject docId reason request)
  | archive docId request =>
      notifyingRoute ["editor", "admin"] .document request (NotifyingWorkflow.archive docId request)
  | delete docId request =>
      notifyingRoute ["editor", "admin"] .deleted request (NotifyingWorkflow.delete docId request)
  | t => t.prog.own

def DocumentTask.notifies : DocumentTask → Bool
  | submit _ _ | approve _ _ | reject _ _ _ | archive _ _ | delete _ _ => true
  | _ => false

/-! ## The documents and what was sent -/

structure Sent (ι : Type) where
  process : ι
  body : NotificationPayload

inductive MetadataAnswer where
  | title (title : String)
  | approvers (userIds : List String)
  deriving DecidableEq

/-- The documents, the notifications in the order in which they were sent, whether they arrived or not, and what
each request was answered for them. -/
structure NoticeStore (ι : Type) where
  metadata : MetadataDb ι
  sent : List (Sent ι) := []
  answers : List (ι × MetadataAnswer) := []

/-- A call of process `p` that was answered `r`. -/
def NoticeStore.call {ι : Type} (s : NoticeStore ι) (p : ι) : (e : NoticeCall) → e.Res → NoticeStore ι
  | .getTitle _, title => { s with answers := s.answers ++ [(p, .title title)] }
  | .getApprovers, userIds => { s with answers := s.answers ++ [(p, .approvers userIds)] }
  | .notify body, _ => { s with sent := s.sent ++ [⟨p, body⟩] }

@[simp] theorem NoticeStore.call_metadata {ι : Type} (s : NoticeStore ι) (p : ι) (e : NoticeCall) (r : e.Res) :
    (s.call p e r).metadata = s.metadata := by
  cases e <;> rfl

def NoticeExec {ι : Type} : Exec ι (NoticeStore ι) NoticeOp NoticeOp.Res := fun p s o r s' =>
  match o, r with
  | .inl o, r => DocumentExec p s.metadata o r s'.metadata ∧ s'.sent = s.sent ∧ s'.answers = s.answers
  | .inr e, r => s' = s.call p e r

def startNotifying {ι : Type} (tasks : ι → DocumentTask) :
    Config ι (NoticeStore ι) NoticeOp NoticeOp.Res HttpError DocumentOutcome :=
  ⟨⟨emptyMetadata ι, [], []⟩, fun p => (tasks p).notifying⟩

/-! ## The same on the documents -/

theorem erases_notify {α : Type} {body : NotificationPayload} (a : α) :
    Erases (notify body >>= fun _ => (pure a : NoticeM α)) (.ret a) := fun _ => rfl

theorem erases_route {α : Type} {required : List String} {outcome : α → DocumentOutcome} {request : Request}
    {m' : NoticeM α} {m : DocumentM α} (h : Erases m' m) : Erases (notifyingRoute required outcome request m')
      ((Prog.ofExcept (RolesGuard required request.user) >>= fun _ => m) >>=
        fun a => (pure (outcome a) : DocumentM _)) := by
  unfold notifyingRoute
  cases RolesGuard required request.user with
  | error e => trivial
  | ok _ =>
    show Erases (m' >>= fun a => (pure (outcome a) : NoticeM DocumentOutcome))
      (m >>= fun a => (pure (outcome a) : DocumentM DocumentOutcome))
    refine h.bind fun a => ?_
    rfl

/-- A step of the workflow: a document is read and checked, and what follows is notified of. -/
theorem erases_step {α β : Type} {docId : String} {request : Request} {guard : Document → Except HttpError β}
    {f : Document → String → β → NoticeM α} {n : Document → β → DocumentM α}
    (hf : ∀ document title b, Erases (f document title b) (n document b)) :
    Erases (do
      let document ← metadataClient (DocumentsController.findOne docId request)
      let title ← getTitle docId
      let b ← Prog.ofExcept (guard document)
      f document title b) (do
      let document ← DocumentsController.findOne docId request
      let b ← Prog.ofExcept (guard document)
      n document b) := by
  refine (erases_own _).bind fun document => ?_
  refine erases_ask fun title => ?_
  exact (erases_ofExcept _).bind (hf document title)

theorem erases_notifying (t : DocumentTask) : Erases t.notifying t.prog := by
  cases t with
  | submit docId request =>
    refine erases_route (erases_step fun _ _ _ => (erases_own _).before_calls fun _ => ?_)
    exact erases_ask fun _ => erases_notify _
  | approve docId request =>
    refine erases_route (erases_step fun _ _ publishes => ?_)
    cases publishes with
    | true => exact (erases_own _).before_calls fun _ => erases_notify _
    | false => exact (erases_own _).bind fun _ => erases_notify _
  | reject docId reason request =>
    exact erases_route (erases_step fun _ _ _ => (erases_own _).before_calls fun _ => erases_notify _)
  | archive docId request =>
    exact erases_route (erases_step fun _ _ _ => (erases_own _).before_calls fun _ => erases_notify _)
  | delete docId request =>
    exact erases_route (erases_step fun _ _ _ => (erases_own _).bind fun _ => erases_notify _)
  | _ => exact erases_own _

section
variable {ι : Type} [DecidableEq ι] {tasks : ι → DocumentTask}

/-- On the documents the requests that notify do what they do without notifying, in any order of their steps, and
answer the same. -/
theorem notifying_refines {cond : MetadataDb ι → ι → DocumentOp → Prop}
    {cond' : Config ι (NoticeStore ι) NoticeOp NoticeOp.Res HttpError DocumentOutcome → ι → NoticeOp → Prop}
    (hcond : ∀ c p o, cond' c p (.inl o) → cond c.store.metadata p o)
    {c' : Config ι (NoticeStore ι) NoticeOp NoticeOp.Res HttpError DocumentOutcome}
    (hr : Reach NoticeExec cond' (startNotifying tasks) c') :
    ∃ c, Reach DocumentExec (fun c p o => cond c.store p o) (startTasks tasks) c ∧ c.store = c'.store.metadata ∧
      ∀ p outcome, c'.procs p = .ret outcome → c.procs p = .ret outcome := by
  have hcall : ∀ (p : ι) (s : NoticeStore ι) (e : NoticeCall) r s', NoticeExec p s (.inr e) r s' →
      s'.metadata = s.metadata := by
    intro p s e r s' hx
    obtain rfl : s' = s.call p e r := hx
    exact s.call_metadata p e r
  have hown : ∀ (p : ι) (s : NoticeStore ι) (o : DocumentOp) r s', NoticeExec p s (.inl o) r s' →
      DocumentExec p s.metadata o r s'.metadata := fun _ _ _ _ _ hx => hx.1
  have hstart : (startTasks tasks).store = (startNotifying tasks).store.metadata := rfl
  obtain ⟨c, hreach, hstore, hprocs⟩ := Reach.erase hown hcall hcond hstart (fun p => erases_notifying (tasks p)) hr
  refine ⟨c, hreach, hstore, fun p outcome hp => ?_⟩
  have hend := hprocs p
  rw [hp] at hend
  exact hend

end

/-! ## What a notification tells -/

section
variable {ι : Type}

def noticeType : WorkflowAction → Option NotifyType
  | .SUBMIT => some .SUBMITTED
  | .APPROVE => some .APPROVED
  | .REJECT => some .REJECTED
  | .ARCHIVE => some .ARCHIVED
  | .DELETE => some .DELETED
  | .RETENTION => none

/-- Who is notified of a transition: the approvers, the owner, or the actor. -/
def Addressees (row : DocumentWorkflowHistory) (document : Document) (body : NotificationPayload) : Prop :=
  match row.action with
  | .SUBMIT => body.recipientIds.isSome = true ∧ body.recipientId = none
  | .APPROVE | .REJECT => body.recipientIds = none ∧ body.recipientId = some document.ownerId
  | .ARCHIVE | .DELETE => body.recipientIds = none ∧ body.recipientId = some row.actorId
  | .RETENTION => False

variable (tasks : ι → DocumentTask)

/-- The notification tells of the write: a transition with its history row, or a step along the chain. -/
def Tells (w : Write ι) (body : NotificationPayload) : Prop :=
  match w.op with
  | .updateDocument docId _ _ (some row) => body.docId = docId ∧ noticeType row.action = some body.type ∧
      body.metadata = ⟨row.action, row.fromStatus, row.toStatus, row.actorId⟩ ∧ body.reason = row.reason ∧
      Addressees row w.document body
  | .updateDocument docId _ data none => body.docId = docId ∧ body.type = .APPROVED ∧ data.approvalStep ≠ none ∧
      ∃ actorId, approver tasks docId w = some actorId ∧ body.metadata = ⟨.APPROVE, .PENDING, .PENDING, actorId⟩
  | _ => False

/-- The owner that the first document with the id was created with. -/
def creator (log : List (Write ι)) (id : String) : Option String :=
  log.findSome? fun w =>
    match w.op with
    | .createDocument document => if document.id = id then some document.ownerId else none
    | _ => none

/-- No two documents are created with the same id. -/
def FreshId (db : MetadataDb ι) : DocumentOp → Prop
  | .createDocument document => creator db.log document.id = none
  | _ => True

/-- The notification passes on what the metadata service has answered its request: the title, and where it goes to
the approvers, who they are. -/
def PassesOn (answers : List MetadataAnswer) (body : NotificationPayload) : Prop :=
  ∃ title, body.docTitle = some title ∧ answers = .title title :: (body.recipientIds.map .approvers).toList

variable [DecidableEq ι]

def sentBy (p : ι) (s : NoticeStore ι) : List NotificationPayload := (s.sent.filter (·.process = p)).map (·.body)

def answersTo (p : ι) (s : NoticeStore ι) : List MetadataAnswer := (s.answers.filter (·.1 = p)).map (·.2)

structure Noticed (s : NoticeStore ι) : Prop where
  owners : ∀ id document, s.metadata.find id = some document → creator s.metadata.log id = some document.ownerId
  told : ∀ x ∈ s.sent, ∃ w ∈ s.metadata.log, w.process = x.process ∧ Tells tasks w x.body
  passed : ∀ x ∈ s.sent, PassesOn (answersTo x.process s) x.body
  once : ∀ p, (sentBy p s).length ≤ 1

def noticing : Spec ι (NoticeStore ι) NoticeOp NoticeOp.Res where
  exec := NoticeExec
  pre _ s o :=
    match o with
    | .inl o => FreshId s.metadata o
    | .inr _ => True
  inv := Noticed tasks
  rely p _ s s' := s.metadata.log <+: s'.metadata.log ∧ sentBy p s' = sentBy p s ∧ answersTo p s' = answersTo p s

theorem noticing_closed : (noticing tasks).Closed where
  refl _ _ _ := ⟨List.prefix_rfl, rfl, rfl⟩
  trans _ _ _ _ _ h₁ h₂ := ⟨h₁.1.trans h₂.1, h₂.2.1.trans h₁.2.1, h₂.2.2.trans h₁.2.2⟩

variable {tasks}

/-! ## The owner stays -/

omit [DecidableEq ι] in
theorem creator_append (log : List (Write ι)) (w : Write ι) (id : String) :
    creator (log ++ [w]) id = (creator log id).or (creator [w] id) := List.findSome?_append

omit [DecidableEq ι] in
theorem creator_later {log log' : List (Write ι)} (h : log <+: log') {id owner : String}
    (hc : creator log id = some owner) : creator log' id = some owner := by
  obtain ⟨rest, rfl⟩ := h
  rw [creator, List.findSome?_append]
  rw [creator] at hc
  rw [hc]
  rfl

omit [DecidableEq ι] in
theorem writes_log {p : ι} {db db' : MetadataDb ι} {o : DocumentOp} (hw : Writes p db o db') :
    ∃ document, db'.log = db.log ++ [⟨p, o, document⟩] := by
  cases hw <;> exact ⟨_, rfl⟩

omit [DecidableEq ι] in
theorem exec_log {p : ι} {db db' : MetadataDb ι} {o : DocumentOp} {r : o.Res} (hx : DocumentExec p db o r db') :
    db.log <+: db'.log := by
  rcases exec_writes hx with rfl | hw
  · exact List.prefix_rfl
  · obtain ⟨document, hlog⟩ := writes_log hw
    exact ⟨_, hlog.symm⟩

omit [DecidableEq ι] in
theorem owners_step {p : ι} {db db' : MetadataDb ι} {o : DocumentOp} {r : o.Res}
    (h : ∀ id document, db.find id = some document → creator db.log id = some document.ownerId) (hf : FreshId db o)
    (hx : DocumentExec p db o r db') : ∀ id document, db'.find id = some document →
      creator db'.log id = some document.ownerId := by
  intro id document hd
  have hlog := exec_log hx
  rcases exec_writes hx with rfl | hw
  · exact h id document hd
  · cases hw with
    | @create created new =>
      rw [find_create new] at hd
      split at hd
      · rename_i hid
        obtain rfl := Option.some.inj hd
        have hl : (db.create p created).log = db.log ++ [⟨p, .createDocument created, created⟩] := rfl
        have hnone : creator db.log id = none := hid ▸ hf
        rw [hl, creator_append, hnone]
        simp [creator, hid]
      · exact creator_later hlog (h id document hd)
    | @update docId _ _ _ found hfound =>
      rw [find_update (target_find hfound)] at hd
      split at hd
      · rename_i hid
        obtain rfl := Option.some.inj hd
        exact creator_later hlog (h id found (hid ▸ target_find hfound))
      · exact creator_later hlog (h id document hd)
    | delete _ =>
      rw [find_delete] at hd
      split at hd
      · cases hd
      · exact creator_later hlog (h id document hd)
    | @createVersion row _ found hfound =>
      rw [find_createVersion hfound] at hd
      split at hd
      · rename_i hid
        obtain rfl := Option.some.inj hd
        exact creator_later hlog (h id found (hid ▸ hfound))
      · exact creator_later hlog (h id document hd)

theorem Noticed.metadata {p : ι} {s s' : NoticeStore ι} {o : DocumentOp} {r : o.Res} (hi : Noticed tasks s)
    (hf : FreshId s.metadata o) (hx : DocumentExec p s.metadata o r s'.metadata) (hs : s'.sent = s.sent)
    (ha : s'.answers = s.answers) : Noticed tasks s' where
  owners := owners_step hi.owners hf hx
  told x hmem := by
    rw [hs] at hmem
    obtain ⟨w, hw, htells⟩ := hi.told x hmem
    exact ⟨w, (exec_log hx).subset hw, htells⟩
  passed x hmem := by
    rw [hs] at hmem
    rw [answersTo, ha]
    exact hi.passed x hmem
  once q := by
    rw [sentBy, hs]
    exact hi.once q

/-! ## Each request notifies of its own write -/

/-- A request that has been answered `answers` and has not notified yet. -/
structure Silent (p : ι) (answers : List MetadataAnswer) (s : NoticeStore ι) : Prop where
  sent : sentBy p s = []
  answered : answersTo p s = answers

theorem Silent.same {p : ι} {answers : List MetadataAnswer} {s s' : NoticeStore ι} (h : Silent p answers s)
    (hsame : sentBy p s' = sentBy p s ∧ answersTo p s' = answersTo p s) : Silent p answers s' :=
  ⟨hsame.1.trans h.sent, hsame.2.trans h.answered⟩

theorem sentBy_append (p q : ι) (s : NoticeStore ι) (body : NotificationPayload) :
    sentBy q { s with sent := s.sent ++ [⟨p, body⟩] } = sentBy q s ++ if p = q then [body] else [] := by
  by_cases hq : p = q <;> simp [sentBy, List.filter_append, hq]

theorem answersTo_append (p q : ι) (s : NoticeStore ι) (answer : MetadataAnswer) :
    answersTo q { s with answers := s.answers ++ [(p, answer)] } = answersTo q s ++ if p = q then [answer]
      else [] := by
  by_cases hq : p = q <;> simp [answersTo, List.filter_append, hq]

theorem not_sent {p : ι} {s : NoticeStore ι} (h : sentBy p s = []) {x : Sent ι}
    (hx : x ∈ s.sent) : p ≠ x.process := by
  intro hp
  have hmem : x.body ∈ sentBy p s := List.mem_map_of_mem (List.mem_filter.mpr ⟨hx, decide_eq_true hp.symm⟩)
  rw [h] at hmem
  cases hmem

theorem Silent.hears {p : ι} {answers : List MetadataAnswer} {s : NoticeStore ι} (hi : Noticed tasks s)
    (h : Silent p answers s) (answer : MetadataAnswer) :
    Noticed tasks { s with answers := s.answers ++ [(p, answer)] } ∧
      Silent p (answers ++ [answer]) { s with answers := s.answers ++ [(p, answer)] } := by
  refine ⟨⟨hi.owners, hi.told, fun x hx => ?_, hi.once⟩, h.sent, ?_⟩
  · rw [answersTo_append, if_neg (not_sent h.sent hx), List.append_nil]
    exact hi.passed x hx
  · rw [answersTo_append, if_pos rfl, h.answered]

abbrev Notifies (tasks : ι → DocumentTask) (p : ι) {α : Type} (Q : α → NoticeStore ι → Prop) (m : NoticeM α)
    (s : NoticeStore ι) : Prop := Ok (noticing tasks) p Q (fun _ _ => True) m s

variable {p : ι} {docId : String} {request : Request} {answers : List MetadataAnswer}

theorem told_metadata {α : Type} {Q : α → NoticeStore ι → Prop} {o : DocumentOp}
    {k : o.Res → NoticeM α} {s : NoticeStore ι}
    (hk : ∀ s' r s'', (noticing tasks).rely p (some (.inl o)) s s' → Noticed tasks s' →
      DocumentExec p s'.metadata o r s''.metadata → Noticed tasks s'' →
      sentBy p s'' = sentBy p s' ∧ answersTo p s'' = answersTo p s' →
      Notifies tasks p Q (k r) s'') : Notifies tasks p Q ((Prog.op o : DocumentM o.Res).own >>= k) s := by
  intro s' hs hi
  refine ⟨fun _ => trivial, fun _ => trivial, fun r s'' hf hx => ?_⟩
  obtain ⟨hx, hsent, hanswers⟩ := hx
  have hi' := hi.metadata hf hx hsent hanswers
  exact ⟨hi', hk s' r s'' hs hi hx hi' ⟨by rw [sentBy, hsent]; rfl, by rw [answersTo, hanswers]; rfl⟩⟩

theorem told_own {α : Type} : ∀ (m : DocumentM α) (s : NoticeStore ι), Silent p answers s →
    Notifies tasks p (fun _ s' => Silent p answers s') m.own s
  | .ret _, _, h => h
  | .throw _, _, _ => trivial
  | .call _ k, s, h => by
    intro s' hs hi
    refine ⟨fun _ => trivial, fun _ => trivial, fun r s'' hf hx => ?_⟩
    obtain ⟨hx, hsent, hanswers⟩ := hx
    refine ⟨hi.metadata hf hx hsent hanswers, told_own (k r) s'' (h.same ⟨?_, ?_⟩)⟩
    · rw [sentBy, hsent]
      exact hs.2.1
    · rw [answersTo, hanswers]
      exact hs.2.2

/-- What a request knows before it has notified: the owner of its document. -/
structure Knows (p : ι) (answers : List MetadataAnswer) (docId owner : String) (s : NoticeStore ι) : Prop extends
    Silent p answers s where
  owner : creator s.metadata.log docId = some owner

theorem told_findOne (s : NoticeStore ι) (h : Silent p answers s) :
    Notifies tasks p (fun document s' => Knows p answers docId document.ownerId s')
      (metadataClient (DocumentsController.findOne docId request)) s := by
  unfold metadataClient DocumentsController.findOne findDocument
  simp only [Prog.own_bind, Prog.own_ofExcept]
  refine Ok_ofExcept_bind (fun _ _ => ?_) fun _ _ => trivial
  refine Ok_ofExcept_bind (fun organizationId _ => ?_) fun _ _ => trivial
  refine told_metadata fun s' found s'' hs hi hx hi' hsame => ?_
  cases found with
  | none => trivial
  | some document =>
    have hfound := (Option.filter_eq_some_iff.mp (Prod.mk.inj hx).1.symm).1
    have hdb : s''.metadata = s'.metadata := (Prod.mk.inj hx).2
    have hknows : Knows p answers docId document.ownerId s'' :=
      ⟨(h.same hs.2).same hsame, by rw [hdb]; exact hi.owners docId document hfound⟩
    dsimp only
    split
    · trivial
    · exact hknows

theorem told_getTitle {α : Type} {Q : α → NoticeStore ι → Prop} {k : String → NoticeM α} {owner : String}
    {s : NoticeStore ι} (h : Knows p [] docId owner s)
    (hk : ∀ title s', Noticed tasks s' → Knows p [.title title] docId owner s' → Notifies tasks p Q (k title) s') :
    Notifies tasks p Q (getTitle docId >>= k) s := by
  intro s' hs hi
  refine ⟨fun _ => trivial, fun _ => trivial, fun title s'' _ hx => ?_⟩
  obtain rfl : s'' = { s' with answers := s'.answers ++ [(p, .title title)] } := hx
  obtain ⟨hi', hsilent⟩ := (h.toSilent.same hs.2).hears hi (.title title)
  exact ⟨hi', hk title _ hi' ⟨hsilent, creator_later hs.1 h.owner⟩⟩

/-- The write of a transition by process `p`. -/
def Moved (p : ι) (docId owner : String) (dto : UpdateStatusDto) (request : Request) (s : NoticeStore ι) : Prop :=
  ∃ w ∈ s.metadata.log, w.process = p ∧ w.document.ownerId = owner ∧ ∃ data row,
    w.op = .updateDocument docId false data (some row) ∧ row.action = dto.action ∧
    TRANSITION_MAP dto.action = some (row.fromStatus, row.toStatus) ∧ row.toStatus = dto.status ∧
    row.actorId = buildActorId request.user ∧ row.reason = dto.reason

theorem told_updateStatus {owner : String} {dto : UpdateStatusDto} (s : NoticeStore ι)
    (h : Knows p answers docId owner s) :
    Notifies tasks p (fun _ s' => Silent p answers s' ∧ Moved p docId owner dto request s')
      (metadataClient (DocumentsController.updateStatus docId dto request)) s := by
  unfold metadataClient DocumentsController.updateStatus StatusService.update findDocument updateDocument
  simp only [Prog.own_bind, Prog.own_ofExcept]
  refine Ok_ofExcept_bind (fun _ _ => ?_) fun _ _ => trivial
  refine Ok_ofExcept_bind (fun organizationId _ => ?_) fun _ _ => trivial
  refine told_metadata fun s₁ found s₂ hs hi hx hi' hsame => ?_
  cases found with
  | none => trivial
  | some document =>
    have hknows : Knows p answers docId owner s₂ :=
      ⟨(h.toSilent.same hs.2).same hsame, creator_later (hs.1.trans (exec_log hx)) h.owner⟩
    dsimp only
    simp only [Prog.own_bind, Prog.own_ofExcept]
    refine Ok_ofExcept_bind (fun transition hguard => ?_) fun _ _ => trivial
    obtain ⟨_, hmap, rfl⟩ := StatusService.guard_ok.mp hguard
    refine told_metadata fun s₃ updated s₄ hs' hi₃ hx' hi₄ hsame' => ?_
    cases updated with
    | none => trivial
    | some result =>
      refine ⟨(hknows.toSilent.same hs'.2).same hsame', ?_⟩
      rcases hx' with hx' | ⟨hnone, -⟩
      · simp only [documentRun] at hx'
        cases htarget : s₃.metadata.target docId false with
        | none =>
          rw [htarget] at hx'
          cases (Prod.mk.inj hx').1
        | some target =>
          rw [htarget] at hx'
          have hdb := (Prod.mk.inj hx').2
          have howner := hi₃.owners docId target (target_find htarget)
          have hsame : target.ownerId = owner :=
            Option.some.inj (howner.symm.trans (creator_later hs'.1 hknows.owner))
          refine ⟨⟨p, _, target⟩, ?_, rfl, hsame,
            StatusService.updateData dto.action dto.status document request.now,
            StatusService.row docId dto request.user (document.status, dto.status) document, rfl,
              rfl, hmap, rfl, rfl, rfl⟩
          rw [hdb]
          exact List.mem_append_right _ List.mem_cons_self
      · cases hnone

theorem told_advance {s : NoticeStore ι} (hi : Noticed tasks s) (h : Silent p answers s) :
    Notifies tasks p (fun _ s' => Silent p answers s' ∧ ∃ w ∈ s'.metadata.log, w.process = p ∧ ∃ step,
        w.op = .updateDocument docId false { approvalStep := some step } none)
      (metadataClient (DocumentsController.advanceApprovalStep docId request)) s := by
  unfold metadataClient DocumentsController.advanceApprovalStep DocumentsService.advanceApprovalStep updateDocument
  simp only [Prog.own_bind, Prog.own_ofExcept]
  refine Ok_ofExcept_bind (fun _ _ => ?_) fun _ _ => trivial
  refine Ok_bind (Q := fun _ s' => Silent p answers s') (fun document s₁ _ hsilent => ?_) _ s hi (told_own _ s h)
  refine told_metadata fun s₂ updated s₃ hs hi₂ hx hi₃ hsame => ?_
  cases updated with
  | none => trivial
  | some result =>
    refine ⟨(hsilent.same hs.2).same hsame, ?_⟩
    rcases hx with hx | ⟨hfailed, -⟩
    · simp only [documentRun] at hx
      cases htarget : s₂.metadata.target docId false with
      | none =>
        rw [htarget] at hx
        cases (Prod.mk.inj hx).1
      | some target =>
        rw [htarget] at hx
        rw [(Prod.mk.inj hx).2]
        exact ⟨_, List.mem_append_right _ List.mem_cons_self, rfl, document.approvalStep + 1, rfl⟩
    · cases hfailed

theorem told_notify {α : Type} {body : NotificationPayload} {a : α} {s : NoticeStore ι} (h : Silent p answers s)
    (hpasses : PassesOn answers body) (htells : ∃ w ∈ s.metadata.log, w.process = p ∧ Tells tasks w body) :
    Notifies tasks p (fun _ s' => (sentBy p s').length = 1) (notify body >>= fun _ => (pure a : NoticeM α)) s := by
  intro s' hs hi
  refine ⟨fun _ => trivial, fun _ => trivial, fun r s'' _ hx => ?_⟩
  obtain rfl : s'' = { s' with sent := s'.sent ++ [⟨p, body⟩] } := hx
  have hsilent := h.same hs.2
  refine ⟨⟨hi.owners, fun x hx => ?_, fun x hx => ?_, fun q => ?_⟩, ?_⟩
  · rcases List.mem_append.mp hx with hx | hx
    · exact hi.told x hx
    · obtain rfl := List.mem_singleton.mp hx
      obtain ⟨w, hw, hp, ht⟩ := htells
      exact ⟨w, hs.1.subset hw, hp, ht⟩
  · rcases List.mem_append.mp hx with hx | hx
    · exact hi.passed x hx
    · obtain rfl := List.mem_singleton.mp hx
      have hanswers : answersTo p s' = answers := hsilent.answered
      exact hanswers ▸ hpasses
  · rw [sentBy_append]
    by_cases hq : p = q
    · subst hq
      simp [hsilent.sent]
    · simpa [hq] using hi.once q
  · show (sentBy p _).length = 1
    rw [sentBy_append, hsilent.sent]
    simp

/-- A request of the workflow that sends one notification. -/
abbrev NotifiesOnce (tasks : ι → DocumentTask) (p : ι) {α : Type} (m : NoticeM α) (s : NoticeStore ι) : Prop :=
  Notifies tasks p (fun _ s' => (sentBy p s').length = 1) m s

theorem told_step {α β : Type} {guard : Document → Except HttpError β} {f : Document → String → β → NoticeM α}
    {s : NoticeStore ι} (hi : Noticed tasks s) (h : Silent p [] s)
    (hf : ∀ document title b s', guard document = .ok b → Noticed tasks s' →
      Knows p [.title title] docId document.ownerId s' → NotifiesOnce tasks p (f document title b) s') :
    NotifiesOnce tasks p (do
      let document ← metadataClient (DocumentsController.findOne docId request)
      let title ← getTitle docId
      let b ← Prog.ofExcept (guard document)
      f document title b) s := by
  refine Ok_bind (fun document s₁ hi₁ hknows => ?_) _ s hi (told_findOne s h)
  refine told_getTitle hknows fun title s₂ hi₂ hknows₂ => ?_
  exact Ok_ofExcept_bind (fun b hguard => hf document title b s₂ hguard hi₂ hknows₂) fun _ _ => trivial

theorem told_transition {α : Type} {dto : UpdateStatusDto} {owner : String} {f : Document → NoticeM α}
    {s : NoticeStore ι} (hi : Noticed tasks s) (h : Knows p answers docId owner s)
    (hf : ∀ updated s', Silent p answers s' → Moved p docId owner dto request s' →
      NotifiesOnce tasks p (f updated) s') :
    NotifiesOnce tasks p (metadataClient (DocumentsController.updateStatus docId dto request) >>= f) s :=
  Ok_bind (fun updated s' _ hmoved => hf updated s' hmoved.1 hmoved.2) _ s hi (told_updateStatus s h)

omit [DecidableEq ι] in
/-- A transition that was written is told by the notification of its route. -/
theorem Moved.tells {owner : String} {dto : UpdateStatusDto} {s : NoticeStore ι} {body : NotificationPayload}
    {source : DocumentStatus} (h : Moved p docId owner dto request s)
    (hsource : TRANSITION_MAP dto.action = some (source, dto.status)) (hdoc : body.docId = docId)
    (htype : noticeType dto.action = some body.type)
    (hmetadata : body.metadata = ⟨dto.action, source, dto.status, buildActorId request.user⟩)
    (hreason : body.reason = dto.reason)
    (hto : ∀ row document, row.action = dto.action → row.actorId = buildActorId request.user →
      document.ownerId = owner → Addressees row document body) :
    ∃ w ∈ s.metadata.log, w.process = p ∧ Tells tasks w body := by
  obtain ⟨w, hw, hp, howner, data, row, hop, haction, hmap, hstatus, hactor, hrow⟩ := h
  refine ⟨w, hw, hp, ?_⟩
  have hfrom : row.fromStatus = source := (Prod.mk.inj (Option.some.inj (hmap.symm.trans hsource))).1
  unfold Tells
  rw [hop]
  exact ⟨hdoc, by rw [haction, htype], by rw [hmetadata, haction, hfrom, hstatus, hactor], by rw [hreason, hrow],
    hto row w.document haction hactor howner⟩

theorem told_route {α : Type} {required : List String} {outcome : α → DocumentOutcome} {m : NoticeM α}
    {s : NoticeStore ι} (hi : Noticed tasks s) (h : NotifiesOnce tasks p m s) :
    NotifiesOnce tasks p (notifyingRoute required outcome request m) s := by
  unfold notifyingRoute
  refine Ok_ofExcept_bind (fun _ _ => ?_) fun _ _ => trivial
  exact Ok_bind (fun _ _ _ hsent => hsent) _ s hi h

theorem told_submit {s : NoticeStore ι} (hi : Noticed tasks s) (h : Silent p [] s) :
    NotifiesOnce tasks p (NotifyingWorkflow.submit docId request) s := by
  refine told_step hi h fun document title _ s' hguard hi' hknows => ?_
  have hstatus := (ownerGuard_status.mp hguard).1
  refine told_transition hi' hknows fun updated s₁ hsilent hmoved => ?_
  intro s₂ hs hi₂
  refine ⟨fun _ => trivial, fun _ => trivial, fun approverIds s₃ _ hx => ?_⟩
  obtain rfl : s₃ = { s₂ with answers := s₂.answers ++ [(p, .approvers approverIds)] } := hx
  obtain ⟨hi₃, hsilent₃⟩ := (hsilent.same hs.2).hears hi₂ (.approvers approverIds)
  have hmoved₃ : Moved p docId document.ownerId { status := .PENDING, action := .SUBMIT } request
      { s₂ with answers := s₂.answers ++ [(p, .approvers approverIds)] } := by
    obtain ⟨w, hw, hrest⟩ := hmoved
    exact ⟨w, hs.1.subset hw, hrest⟩
  refine ⟨hi₃, told_notify hsilent₃ ⟨title, rfl, rfl⟩ (hmoved₃.tells rfl rfl rfl ?_ rfl ?_)⟩
  · rw [hstatus]
    rfl
  · intro row found haction _ _
    rw [Addressees, haction]
    exact ⟨rfl, rfl⟩

theorem told_reject {reason : Option String} {s : NoticeStore ι} (hi : Noticed tasks s) (h : Silent p [] s) :
    NotifiesOnce tasks p (NotifyingWorkflow.reject docId reason request) s := by
  refine told_step hi h fun document title _ s' hguard hi' hknows => ?_
  have hstatus := (rejectGuard_status.mp hguard).1
  refine told_transition hi' hknows fun updated s₁ hsilent hmoved => ?_
  refine told_notify hsilent ⟨title, rfl, rfl⟩ (hmoved.tells rfl rfl rfl ?_ rfl ?_)
  · rw [hstatus]
    rfl
  · intro row found haction _ howner
    rw [Addressees, haction, howner]
    exact ⟨rfl, rfl⟩

theorem told_archive {s : NoticeStore ι} (hi : Noticed tasks s) (h : Silent p [] s) :
    NotifiesOnce tasks p (NotifyingWorkflow.archive docId request) s := by
  refine told_step hi h fun document title _ s' hguard hi' hknows => ?_
  have hstatus := (ownerGuard_status.mp hguard).1
  refine told_transition hi' hknows fun updated s₁ hsilent hmoved => ?_
  refine told_notify hsilent ⟨title, rfl, rfl⟩ (hmoved.tells rfl rfl rfl ?_ rfl ?_)
  · rw [hstatus]
    rfl
  · intro row found haction hactor _
    rw [Addressees, haction, hactor]
    exact ⟨rfl, rfl⟩

theorem told_delete {s : NoticeStore ι} (hi : Noticed tasks s) (h : Silent p [] s) :
    NotifiesOnce tasks p (NotifyingWorkflow.delete docId request) s := by
  refine told_step hi h fun document title _ s' hguard hi' hknows => ?_
  have hstatus := (deleteGuard_status.mp hguard).1
  refine told_transition hi' hknows fun updated s₁ hsilent hmoved => ?_
  refine told_notify hsilent ⟨title, rfl, rfl⟩ (hmoved.tells rfl rfl rfl ?_ rfl ?_)
  · rw [hstatus]
    rfl
  · intro row found haction hactor _
    rw [Addressees, haction, hactor]
    exact ⟨rfl, rfl⟩

theorem told_approve (ht : tasks p = .approve docId request) {s : NoticeStore ι} (hi : Noticed tasks s)
    (h : Silent p [] s) : NotifiesOnce tasks p (NotifyingWorkflow.approve docId request) s := by
  refine told_step hi h fun document title publishes s' hguard hi' hknows => ?_
  have hstatus := approveGuard_status hguard
  cases publishes with
  | true =>
    refine told_transition hi' hknows fun updated s₁ hsilent hmoved => ?_
    refine told_notify hsilent ⟨title, rfl, rfl⟩ (hmoved.tells rfl rfl rfl ?_ rfl ?_)
    · rw [hstatus]
      rfl
    · intro row found haction _ howner
      rw [Addressees, haction, howner]
      exact ⟨rfl, rfl⟩
  | false =>
    refine Ok_bind (fun updated s₂ _ hstepped => ?_) _ s' hi' (told_advance hi' hknows.toSilent)
    obtain ⟨hsilent, w, hw, hp, step, hop⟩ := hstepped
    refine told_notify hsilent ⟨title, rfl, rfl⟩ ⟨w, hw, hp, ?_⟩
    have happrover : approver tasks docId w = some (buildActorId request.user) := by
      simp [approver, hop, hp, ht]
    unfold Tells
    rw [hop]
    exact ⟨rfl, rfl, Option.some_ne_none _, _, happrover, by rw [hstatus]; rfl⟩

theorem told_notifying {s : NoticeStore ι} (hi : Noticed tasks s) (h : Silent p [] s) :
    Notifies tasks p (fun _ s' => (tasks p).notifies = true → (sentBy p s').length = 1) (tasks p).notifying s := by
  cases ht : tasks p with
  | submit docId request =>
      exact Ok_mono (fun _ _ hl _ => hl) (fun _ _ _ => trivial) _ _ (told_route hi (told_submit hi h))
  | approve docId request =>
    exact Ok_mono (fun _ _ hl _ => hl) (fun _ _ _ => trivial) _ _ (told_route hi (told_approve ht hi h))
  | reject docId reason request =>
    exact Ok_mono (fun _ _ hl _ => hl) (fun _ _ _ => trivial) _ _ (told_route hi (told_reject hi h))
  | archive docId request =>
      exact Ok_mono (fun _ _ hl _ => hl) (fun _ _ _ => trivial) _ _ (told_route hi (told_archive hi h))
  | delete docId request =>
      exact Ok_mono (fun _ _ hl _ => hl) (fun _ _ _ => trivial) _ _ (told_route hi (told_delete hi h))
  | _ => exact Ok_mono (fun _ _ _ hn => by cases hn) (fun _ _ _ => trivial) _ _ (told_own _ s h)

/-! ## Runs -/

variable (tasks) in
theorem exec_rely {p q : ι} {s s' : NoticeStore ι} {o : NoticeOp} {r : NoticeOp.Res o} (hx : NoticeExec q s o r s')
    (hpq : p ≠ q) : (noticing tasks).rely p (some o) s s' := by
  cases o with
  | inl o =>
    obtain ⟨hx, hsent, hanswers⟩ := hx
    exact ⟨exec_log hx, by rw [sentBy, hsent]; rfl, by rw [answersTo, hanswers]; rfl⟩
  | inr e =>
    obtain rfl : s' = s.call q e r := hx
    cases e with
    | getTitle _ | getApprovers =>
      exact ⟨List.prefix_rfl, rfl, (answersTo_append q p s _).trans (by rw [if_neg (Ne.symm hpq), List.append_nil])⟩
    | notify body =>
      exact ⟨List.prefix_rfl, (sentBy_append q p s body).trans (by rw [if_neg (Ne.symm hpq), List.append_nil]), rfl⟩

/-- In every order of the steps of all requests, a notification tells of a write that its request has made before
and passes on the title and the approvers that its request was answered, each request notifies at most once, and one
of the workflow that succeeds has notified. -/
theorem notices_tell {c : Config ι (NoticeStore ι) NoticeOp NoticeOp.Res HttpError DocumentOutcome}
    (hr : Reach NoticeExec (fun c p o => (noticing tasks).pre p c.store o) (startNotifying tasks) c) :
    (∀ x ∈ c.store.sent, PassesOn (answersTo x.process c.store) x.body ∧
      ∃ w ∈ c.store.metadata.log, w.process = x.process ∧ Tells tasks w x.body) ∧
    (∀ p, (sentBy p c.store).length ≤ 1) ∧
    ∀ p outcome, (tasks p).notifies = true → c.procs p = .ret outcome → (sentBy p c.store).length = 1 := by
  have h₀ : Noticed tasks (⟨emptyMetadata ι, [], []⟩ : NoticeStore ι) := by
    refine ⟨fun _ _ => nofun, fun _ => nofun, fun _ => nofun, fun _ => ?_⟩
    exact Nat.zero_le 1
  obtain ⟨hi, hok⟩ := Reach.ok (S := noticing tasks) hr (noticing_closed tasks) h₀
    (fun p => told_notifying h₀ ⟨rfl, rfl⟩) (fun _ _ _ hc => hc)
    (fun p a s s' hq hs _ hn => by rw [hs.2.1]; exact hq hn)
    (fun _ _ _ _ _ _ _ => trivial) fun c p q o k r s' _ _ hx _ _ hpq => exec_rely tasks hx hpq
  refine ⟨fun x hx => ⟨hi.passed x hx, hi.told x hx⟩, hi.once, fun p outcome hn hp => ?_⟩
  have hend := hok p
  rw [hp] at hend
  exact hend hn

end

/-! Two approvers in turn, both told of. -/

def noticeAnswer : (e : NoticeCall) → e.Res
  | .getTitle _ => "Plan"
  | .getApprovers => ["u-7", "u-8"]
  | .notify _ => ()

def noticeRun {ι : Type} (p : ι) (s : NoticeStore ι) : (o : NoticeOp) → NoticeOp.Res o × NoticeStore ι
  | .inl o => ((documentRun p s.metadata o).1, { s with metadata := (documentRun p s.metadata o).2 })
  | .inr e => (noticeAnswer e, s.call p e (noticeAnswer e))

theorem noticeRun_exec {ι : Type} (p : ι) (s : NoticeStore ι) (o : NoticeOp) :
    NoticeExec p s o (noticeRun p s o).1 (noticeRun p s o).2 := by
  cases o with
  | inl o => exact ⟨documentRun_exec p s.metadata o, rfl, rfl⟩
  | inr e => exact rfl

instance {ι : Type} (db : MetadataDb ι) : DecidablePred (FreshId db)
  | .createDocument document => inferInstanceAs (Decidable (creator db.log document.id = none))
  | .updateDocument _ _ _ _ | .findDocument _ _ | .findCandidates | .findExpired _
      | .deleteDocument _ | .findVersion _ _
  | .createVersion _ _ => isTrue trivial

instance {ι : Type} [DecidableEq ι] (tasks : ι → DocumentTask) (p : ι) (s : NoticeStore ι) (o : NoticeOp) :
    Decidable ((noticing tasks).pre p s o) :=
  match o with
  | .inl o => inferInstanceAs (Decidable (FreshId s.metadata o))
  | .inr _ => isTrue trivial

def notifiedRun : Config Nat (NoticeStore Nat) NoticeOp NoticeOp.Res HttpError DocumentOutcome :=
  schedule noticeRun (startNotifying chainTasks) [0, 1, 1, 1, 1, 2, 2, 1, 3, 1, 3, 3, 3, 3, 6, 6, 6, 6, 6]

theorem notifiedRun_reach : Reach NoticeExec (fun c p o => (noticing chainTasks).pre p c.store o)
    (startNotifying chainTasks) notifiedRun :=
  Reach.schedule noticeRun_exec _ _ .refl (meets_iff _ _ (by decide +kernel))

theorem notices_tell_sample : (∀ x ∈ notifiedRun.store.sent,
    PassesOn (answersTo x.process notifiedRun.store) x.body ∧ ∃ w ∈ notifiedRun.store.metadata.log,
      w.process = x.process ∧ Tells chainTasks w x.body) ∧ ∀ p, (sentBy p notifiedRun.store).length ≤ 1 :=
  ⟨(notices_tell notifiedRun_reach).1, (notices_tell notifiedRun_reach).2.1⟩

theorem notifying_refines_sample :
    ∃ c : Config Nat (MetadataDb Nat) DocumentOp DocumentOp.Res HttpError DocumentOutcome,
    Reach DocumentExec (fun _ _ _ => True) (startTasks chainTasks) c ∧ c.store = notifiedRun.store.metadata :=
  (@notifying_refines Nat _ chainTasks (fun _ _ _ => True) _ (fun _ _ _ _ => trivial) _ notifiedRun_reach).imp
    fun _ h => ⟨h.1, h.2.1⟩

example : (notifiedRun.store.sent.map fun x => (x.process, x.body.type, x.body.recipientId, x.body.recipientIds)) =
    [(1, .SUBMITTED, none, some ["u-7", "u-8"]), (3, .APPROVED, some "u-8", none),
      (6, .APPROVED, some "u-1", none)] := by
  decide +kernel

end DocVault
