import DocVault.Ledger
import DocVault.MentionNotices

/-!
# Comments under concurrent requests

`CommentsService` and its routes as programs over the table of comments: a
request reads a comment and changes it later by its id, and others may act in
between. What the table, the audit events and the answers tell of the requests.
-/

namespace DocVault

open Interleave

namespace CommentsService

/-! ## What is sent to the other services -/

inductive MetaValue where
  | text (s : String)
  | texts (l : List String)
  | time (t : Time)
  deriving DecidableEq

structure CommentEvent where
  action : String
  resourceId : String
  result : String
  reason : Option String := none
  metadata : List (String × MetaValue)
  deriving DecidableEq

def addedEvent (comment : DocumentComment) : CommentEvent where
  action := "COMMENT_ADDED"
  resourceId := comment.id
  result := "SUCCESS"
  metadata := [("docId", .text comment.docId), ("content", .text comment.content),
    ("authorId", .text comment.authorId),
    ("authorRoles", .texts comment.authorRoles), ("createdAt", .time comment.createdAt)]

def deniedEvent (action reason : String) (comment : DocumentComment) (commentId actorId : String) :
    CommentEvent where
  action := action
  resourceId := commentId
  result := "DENY"
  reason := some reason
  metadata := [("docId", .text comment.docId), ("commentId", .text commentId), ("attemptedBy", .text actorId),
    ("actualAuthor", .text comment.authorId)]

def updateDenied : DocumentComment → String → String → CommentEvent :=
  deniedEvent "COMMENT_UPDATE_DENIED" "Only the author can edit their own comment"

def deleteDenied : DocumentComment → String → String → CommentEvent :=
  deniedEvent "COMMENT_DELETE_DENIED" "Only the author or an admin can delete a comment"

def updatedEvent (comment updated : DocumentComment) (commentId content : String) : CommentEvent where
  action := "COMMENT_UPDATED"
  resourceId := commentId
  result := "SUCCESS"
  metadata := [("docId", .text comment.docId), ("commentId", .text commentId),
    ("oldContent", .text comment.content),
    ("newContent", .text content), ("authorId", .text comment.authorId), ("updatedAt", .time updated.updatedAt)]

def deletedEvent (comment : DocumentComment) (commentId actorId : String) (now : Time) : CommentEvent where
  action := "COMMENT_DELETED"
  resourceId := commentId
  result := "SUCCESS"
  metadata := [("docId", .text comment.docId), ("commentId", .text commentId), ("authorId", .text comment.authorId),
    ("deletedBy", .text actorId), ("deletedAt", .time now)]

/-- An audit event or a notice. -/
inductive CommentNote where
  | audit (event : CommentEvent)
  | notify (dto : NotifyDto)

/-! ## The table -/

/-- What no update of a comment changes. -/
structure CommentOrigin where
  docId : String
  authorId : String
  authorRoles : List String
  createdAt : Time
  deriving DecidableEq

def originOf (comment : DocumentComment) : CommentOrigin :=
  ⟨comment.docId, comment.authorId, comment.authorRoles, comment.createdAt⟩

inductive CommentQuery where
  | one (commentId docId : String)
  | all (docId : String)

/-- The comments; `canRead` is what `assertCanReadMetadata` may answer to a request for a document. -/
def commentDesk (canRead : String → PolicyRequest → Except HttpError Unit → Prop) : Ledger.Desk where
  Row := DocumentComment
  Key := String
  Fixed := CommentOrigin
  Query := CommentQuery
  Patch := String × Time
  Note := CommentNote
  Ask := String × PolicyRequest
  Answer _ := Except HttpError Unit
  key := fun comment => comment.id
  fixed := originOf
  selects q comment := match q with
    | .one commentId docId => comment.id = commentId && comment.docId = docId
    | .all docId => comment.docId = docId
  order q a b := match q with
    | .one _ _ => True
    | .all _ => b.createdAt ≤ a.createdAt
  patch c comment := { comment with content := c.1, updatedAt := c.2 }
  answers q r := canRead q.1 q.2 r
  key_patch _ _ := rfl
  fixed_patch _ _ := rfl

instance (canRead : String → PolicyRequest → Except HttpError Unit → Prop) :
    DecidableEq (commentDesk canRead).Key :=
  inferInstanceAs (DecidableEq String)

/-! ## The routes -/

structure CommentRequest extends PolicyRequest where
  traceId : Nullable String

inductive CommentTask where
  | list (docId : String)
  | create (docId content commentId : String)
  | update (docId commentId content : String)
  | delete (docId commentId : String)

inductive CommentOutcome where
  | listed (comments : List DocumentComment)
  | created (comment : DocumentComment)
  | updated (comment : DocumentComment)
  | deleted

section
variable {canRead : String → PolicyRequest → Except HttpError Unit → Prop}

abbrev CommentM (canRead : String → PolicyRequest → Except HttpError Unit → Prop) :=
  Prog (Ledger.Op (commentDesk canRead)) Ledger.Op.Res HttpError

abbrev emit (note : CommentNote) : CommentM canRead Unit := Prog.op (Ledger.Op.note note)

-- The guards of every route, up to the service.
def openRoute (docId : String) (request : CommentRequest) : CommentM canRead Unit := do
  let _ ← Prog.ofExcept (RolesGuard COMMENT_ROLES request.user)
  let readable ← Prog.op (Ledger.Op.ask (docId, request.toPolicyRequest))
  Prog.ofExcept readable

def listComments (docId : String) (request : CommentRequest) : CommentM canRead CommentOutcome := do
  let _ ← openRoute docId request
  let comments ← Prog.op (Ledger.Op.findMany (CommentQuery.all docId))
  pure (.listed comments)

def addComment (docId content commentId : String) (request : CommentRequest) : CommentM canRead CommentOutcome := do
  let _ ← openRoute docId request
  let comment := newComment docId content commentId request.toRequest
  let created ← Prog.op (Ledger.Op.create comment)
  match created with
  | false => .throw .internal
  | true => do
    let _ ← emit (.audit (addedEvent comment))
    if 0 < (mentioned comment).length then
      let _ ← emit (.notify (mentionNotice comment request.traceId))
      pure (.created comment)
    else pure (.created comment)

def foundComment (found : Option DocumentComment) : Except HttpError DocumentComment :=
  match found with
  | some comment => .ok comment
  | none => .error (.notFound "Comment not found")

def updateFound (comment : DocumentComment) (commentId content : String) (request : CommentRequest) :
    CommentM canRead CommentOutcome :=
  match updateGuard comment request.user with
  | .error e => do
    let _ ← emit (.audit (updateDenied comment commentId (buildActorId request.user)))
    .throw e
  | .ok _ => do
    let updated ← Prog.op (Ledger.Op.update commentId (content, request.now))
    match updated with
    | none => .throw .internal
    | some updated => do
      let _ ← emit (.audit (updatedEvent comment updated commentId content))
      pure (.updated updated)

def updateComment (docId commentId content : String) (request : CommentRequest) :
    CommentM canRead CommentOutcome := do
  let _ ← openRoute docId request
  let found ← Prog.op (Ledger.Op.findFirst (CommentQuery.one commentId docId))
  let comment ← Prog.ofExcept (foundComment found)
  updateFound comment commentId content request

def deleteFound (comment : DocumentComment) (commentId : String) (request : CommentRequest) :
    CommentM canRead CommentOutcome :=
  match deleteGuard comment request.user with
  | .error e => do
    let _ ← emit (.audit (deleteDenied comment commentId (buildActorId request.user)))
    .throw e
  | .ok _ => do
    let deleted ← Prog.op (Ledger.Op.delete commentId)
    match deleted with
    | none => .throw .internal
    | some _ => do
      let _ ← emit (.audit (deletedEvent comment commentId (buildActorId request.user) request.now))
      pure .deleted

def deleteComment (docId commentId : String) (request : CommentRequest) : CommentM canRead CommentOutcome := do
  let _ ← openRoute docId request
  let found ← Prog.op (Ledger.Op.findFirst (CommentQuery.one commentId docId))
  let comment ← Prog.ofExcept (foundComment found)
  deleteFound comment commentId request

def CommentTask.prog (request : CommentRequest) : CommentTask → CommentM canRead CommentOutcome
  | .list docId => listComments docId request
  | .create docId content commentId => addComment docId content commentId request
  | .update docId commentId content => updateComment docId commentId content request
  | .delete docId commentId => deleteComment docId commentId request

/-! ## What is due of a request -/

section
variable {ι : Type} (origin : String → CommentOrigin) (requests : ι → CommentRequest) (tasks : ι → CommentTask)

/-- The changes that the request of `p` may make. -/
def Due (p : ι) : Ledger.Change DocumentComment String → Prop
  | .insert row => ∃ docId content, tasks p = .create docId content row.id ∧
      row = newComment docId content row.id (requests p).toRequest
  | .put row => ∃ docId content, tasks p = .update docId row.id content ∧
      row.docId = docId ∧ row.content = content ∧
      row.updatedAt = (requests p).now ∧ row.authorId = buildActorId (requests p).user ∧
      originOf row = origin row.id
  | .remove k => ∃ docId, tasks p = .delete docId k ∧ (origin k).docId = docId ∧
      ((origin k).authorId = buildActorId (requests p).user ∨ (requests p).user.roles.contains "admin" = true)

/-- What the request of `p` may tell others after the changes `w`. -/
def Told (p : ι) (w : List (Ledger.Change DocumentComment String)) : CommentNote → Prop
  | .audit event =>
    (∃ row, w = [.insert row] ∧ event = addedEvent row) ∨
    (∃ row old, w = [.put row] ∧ event = updatedEvent old row row.id row.content ∧ originOf old = originOf row) ∨
    (∃ k old, w = [.remove k] ∧ event = deletedEvent old k (buildActorId (requests p).user) (requests p).now ∧
      originOf old = origin k) ∨
    (∃ k old, w = [] ∧ originOf old = origin k ∧ (origin k).authorId ≠ buildActorId (requests p).user ∧
      ((∃ docId content, tasks p = .update docId k content ∧
        event = updateDenied old k (buildActorId (requests p).user)) ∨
        (∃ docId, tasks p = .delete docId k ∧ (requests p).user.roles.contains "admin" = false ∧
          event = deleteDenied old k (buildActorId (requests p).user))))
  | .notify dto => ∃ row, w = [.insert row] ∧ mentioned row ≠ [] ∧ dto = mentionNotice row (requests p).traceId

def commentDuty (canRead : String → PolicyRequest → Except HttpError Unit → Prop) :
    Ledger.Duty ι (commentDesk canRead) where
  origin := origin
  due := Due origin requests tasks
  told := Told origin requests tasks

/-- The changes that belong to an answer. -/
def Answers : CommentTask → CommentOutcome → List (Ledger.Change DocumentComment String) → Prop
  | .list docId, .listed comments, w => w = [] ∧ ∀ comment ∈ comments, comment.docId = docId
  | .create _ _ _, .created comment, w => w = [.insert comment]
  | .update _ _ _, .updated comment, w => w = [.put comment]
  | .delete _ commentId, .deleted, w => w = [.remove commentId]
  | _, _, _ => False

end

/-! ## Every route keeps to its changes -/

section
variable {ι : Type} {origin : String → CommentOrigin} {requests : ι → CommentRequest}
  {tasks : ι → CommentTask} {p : ι}

abbrev GuardedRoute (canRead : String → PolicyRequest → Except HttpError Unit → Prop)
    (origin : String → CommentOrigin)
    (requests : ι → CommentRequest) (tasks : ι → CommentTask) (p : ι) : CommentM canRead CommentOutcome → Prop :=
  Ledger.Guarded (commentDuty origin requests tasks canRead) p (Answers (tasks p)) []

theorem guarded_openRoute (docId : String) (request : CommentRequest) :
    Ledger.Guarded (commentDuty origin requests tasks canRead) p (fun _ w => w = []) []
      (openRoute docId request) := by
  refine Ledger.Guarded.bind (fun _ w hw => ?_) (Ledger.guarded_ofExcept (Q := fun _ w => w = []) _ fun _ _ => rfl)
  subst hw
  exact fun readable _ => Ledger.guarded_ofExcept _ fun _ _ => rfl

theorem guarded_after {docId : String} {request : CommentRequest} {f : Unit → CommentM canRead CommentOutcome}
    (h : GuardedRoute canRead origin requests tasks p (f ())) :
    GuardedRoute canRead origin requests tasks p (openRoute docId request >>= f) :=
  Ledger.Guarded.bind (fun _ _ hw => hw ▸ h) (guarded_openRoute docId request)

theorem guarded_list {docId : String} (ht : tasks p = .list docId) (request : CommentRequest) :
    GuardedRoute canRead origin requests tasks p (listComments docId request) := by
  refine guarded_after fun comments hc => ?_
  rw [ht]
  refine ⟨rfl, fun comment hm => ?_⟩
  simpa [commentDesk] using (hc comment hm).1

theorem guarded_create {docId content commentId : String} (ht : tasks p = .create docId content commentId)
    (ho : originOf (newComment docId content commentId (requests p).toRequest) = origin commentId) :
    GuardedRoute canRead origin requests tasks p (addComment docId content commentId (requests p)) := by
  refine guarded_after ⟨rfl, ⟨docId, content, ht, rfl⟩, ho, ?_, trivial⟩
  refine ⟨.inl ⟨_, rfl, rfl⟩, ?_⟩
  split
  · rename_i hpos
    refine ⟨⟨_, rfl, List.length_pos_iff.mp hpos, rfl⟩, ?_⟩
    rw [ht]
    exact rfl
  · rw [ht]
    exact rfl

theorem found_known {docId commentId : String} {comment : DocumentComment}
    (hs : (commentDesk canRead).selects (.one commentId docId) comment = true)
    (hk : Ledger.Known (commentDuty origin requests tasks canRead) comment) :
    comment.id = commentId ∧ comment.docId = docId ∧ originOf comment = origin commentId := by
  simp only [commentDesk, Bool.and_eq_true, decide_eq_true_eq] at hs
  obtain ⟨rfl, rfl⟩ := hs
  exact ⟨rfl, rfl, hk⟩

theorem guarded_updateFound {docId commentId content : String} (ht : tasks p = .update docId commentId content)
    {comment : DocumentComment} (hdoc : comment.docId = docId) (horigin : originOf comment = origin commentId) :
    GuardedRoute canRead origin requests tasks p (updateFound comment commentId content (requests p)) := by
  have hauthor : (origin commentId).authorId = comment.authorId := congrArg CommentOrigin.authorId horigin.symm
  unfold updateFound
  cases hg : updateGuard comment (requests p).user with
  | error e =>
    refine ⟨.inr (.inr (.inr ⟨commentId, comment, rfl, horigin, ?_, .inl ⟨docId, content, ht, rfl⟩⟩)), trivial⟩
    intro h
    rw [hauthor] at h
    simp [updateGuard, h] at hg
  | ok _ =>
    have hactor : comment.authorId = buildActorId (requests p).user := by
      by_contra hne
      simp [updateGuard, hne] at hg
    refine ⟨rfl, fun row hrow hknown => ?_, trivial⟩
    obtain rfl : DocumentComment.id row = commentId := hrow
    have hsame : originOf row = originOf comment := Eq.trans hknown horigin.symm
    refine ⟨⟨docId, content, ht, ?_, rfl, rfl, ?_, hknown⟩, .inr (.inl ⟨_, comment, rfl, rfl, hsame.symm⟩), ?_⟩
    · exact (congrArg CommentOrigin.docId hsame).trans hdoc
    · exact (congrArg CommentOrigin.authorId hsame).trans hactor
    · rw [ht]
      exact rfl

theorem guarded_update {docId commentId content : String} (ht : tasks p = .update docId commentId content) :
    GuardedRoute canRead origin requests tasks p (updateComment docId commentId content (requests p)) := by
  refine guarded_after ⟨trivial, fun comment hs hk => ?_⟩
  obtain ⟨-, hdoc, horigin⟩ := found_known hs hk
  exact guarded_updateFound ht hdoc horigin

theorem guarded_deleteFound {docId commentId : String} (ht : tasks p = .delete docId commentId)
    {comment : DocumentComment} (hdoc : comment.docId = docId) (horigin : originOf comment = origin commentId) :
    GuardedRoute canRead origin requests tasks p (deleteFound comment commentId (requests p)) := by
  have hauthor : (origin commentId).authorId = comment.authorId := congrArg CommentOrigin.authorId horigin.symm
  unfold deleteFound
  cases hg : deleteGuard comment (requests p).user with
  | error e =>
    have hboth : comment.authorId ≠ buildActorId (requests p).user ∧
      (requests p).user.roles.contains "admin" = false := by
      by_contra h
      have hok : deleteGuard comment (requests p).user = .ok () := by
        rw [deleteGuard, if_neg]
        simpa using h
      rw [hok] at hg
      cases hg
    refine ⟨.inr (.inr
      (.inr ⟨commentId, comment, rfl, horigin, hauthor ▸ hboth.1, .inr ⟨docId, ht, hboth.2, rfl⟩⟩)), trivial⟩
  | ok _ =>
    have hdue : Due origin requests tasks p (.remove commentId) := by
      refine ⟨docId, ht, (congrArg CommentOrigin.docId horigin.symm).trans hdoc, ?_⟩
      rw [hauthor]
      by_contra h
      rw [not_or] at h
      rw [deleteGuard, if_pos (by simpa using h)] at hg
      cases hg
    refine ⟨rfl, hdue, fun row hrow _ => ⟨.inr (.inr (.inl ⟨commentId, comment, rfl, rfl, horigin⟩)), ?_⟩, trivial⟩
    rw [ht]
    exact rfl

theorem guarded_delete {docId commentId : String} (ht : tasks p = .delete docId commentId) :
    GuardedRoute canRead origin requests tasks p (deleteComment docId commentId (requests p)) := by
  refine guarded_after ⟨trivial, fun comment hs hk => ?_⟩
  obtain ⟨-, hdoc, horigin⟩ := found_known hs hk
  exact guarded_deleteFound ht hdoc horigin

/-- The ids name one comment each: of the start, or of one request to create it. -/
def Drawn (origin : String → CommentOrigin) (start : List DocumentComment) (requests : ι → CommentRequest)
    (tasks : ι → CommentTask) : Prop :=
  (∀ comment ∈ start, originOf comment = origin comment.id) ∧
    ∀ p docId content commentId, tasks p = .create docId content commentId →
      originOf (newComment docId content commentId (requests p).toRequest) = origin commentId

theorem guarded_task {start : List DocumentComment} (hd : Drawn origin start requests tasks) (p : ι) :
    GuardedRoute canRead origin requests tasks p ((tasks p).prog (requests p)) := by
  cases ht : tasks p with
  | list docId => exact guarded_list ht (requests p)
  | create docId content commentId => exact guarded_create ht (hd.2 p docId content commentId ht)
  | update docId commentId content => exact guarded_update ht
  | delete docId commentId => exact guarded_delete ht

/-! ## Every interleaving -/

/-- A request that has written the row: it has created it, or it is its author's last update. -/
def WroteComment (requests : ι → CommentRequest) (tasks : ι → CommentTask) (p : ι) (row : DocumentComment) : Prop :=
  buildActorId (requests p).user = row.authorId ∧
    ((∃ docId content, tasks p = .create docId content row.id ∧
      row = newComment docId content row.id (requests p).toRequest) ∨
      ∃ docId content, tasks p = .update docId row.id content ∧ row.docId = docId ∧ row.content = content)

/-- What holds of the comments, the audit events and the answers, whatever the requests have done so far. -/
structure CommentsHold (origin : String → CommentOrigin) (start : List DocumentComment)
    (requests : ι → CommentRequest)
    (tasks : ι → CommentTask) [DecidableEq ι] (s : Ledger.Store ι (commentDesk canRead)) (answered : ι →
      Option CommentOutcome) :
    Prop where
  lasting : ∀ row ∈ s.rows, originOf row = origin row.id
  written : ∀ row ∈ s.rows, row ∈ start ∨ ∃ p, WroteComment requests tasks p row
  gone : ∀ row, (row ∈ start ∨ ∃ p, (p, .insert row) ∈ s.log) → (∃ row' ∈ s.rows, row'.id = row.id) ∨
    ∃ p docId, tasks p = .delete docId row.id ∧
      (buildActorId (requests p).user = row.authorId ∨ (requests p).user.roles.contains "admin" = true)
  answers : ∀ p outcome, answered p = some outcome → Answers (tasks p) outcome (s.wrote p)
  once : ∀ p, (s.wrote p).length ≤ 1
  denied : ∀ p event, (p, CommentNote.audit event) ∈ s.notes → event.result = "DENY" → s.wrote p = []
  reported : ∀ p event, (p, CommentNote.audit event) ∈ s.notes → event.result = "SUCCESS" →
    ∃ change, s.wrote p = [change]

theorem wroteComment_of_due {row : DocumentComment} {c : Ledger.Change DocumentComment String}
    (hd : Due origin requests tasks p c) (hc : c.row = some row) : WroteComment requests tasks p row := by
  cases c with
  | insert row' =>
    obtain rfl := Option.some.inj hc
    obtain ⟨docId, content, ht, hrow⟩ := hd
    refine ⟨?_, .inl ⟨docId, content, ht, hrow⟩⟩
    rw [hrow]
    rfl
  | put row' =>
    obtain rfl := Option.some.inj hc
    obtain ⟨docId, content, ht, hdoc, hcontent, -, hauthor, -⟩ := hd
    exact ⟨hauthor.symm, .inr ⟨docId, content, ht, hdoc, hcontent⟩⟩
  | remove k => cases hc

-- Who is refused has no change due: its guard has read the author, which does not change.
theorem no_due_of_denied {k : String} {c : Ledger.Change DocumentComment String}
    (hactor : (origin k).authorId ≠ buildActorId (requests p).user)
    (htask : (∃ docId content, tasks p = .update docId k content) ∨
      ∃ docId, tasks p = .delete docId k ∧ (requests p).user.roles.contains "admin" = false) :
    ¬ Due origin requests tasks p c := by
  intro hd
  cases c with
  | insert row =>
    obtain ⟨_, _, ht, -⟩ := hd
    rcases htask with ⟨_, _, h⟩ | ⟨_, h, -⟩ <;> rw [h] at ht <;> cases ht
  | put row =>
    obtain ⟨_, _, ht, -, -, -, hauthor, horigin⟩ := hd
    rcases htask with ⟨_, _, h⟩ | ⟨_, h, -⟩
    · rw [h] at ht
      obtain ⟨-, rfl, -⟩ := CommentTask.update.inj ht
      exact hactor ((congrArg CommentOrigin.authorId horigin).symm.trans hauthor)
    · rw [h] at ht
      cases ht
  | remove k' =>
    obtain ⟨_, ht, -, hd⟩ := hd
    rcases htask with ⟨_, _, h⟩ | ⟨_, h, hadmin⟩
    · rw [h] at ht
      cases ht
    · rw [h] at ht
      obtain ⟨-, rfl⟩ := CommentTask.delete.inj ht
      rcases hd with hd | hd
      · exact hactor hd
      · rw [hadmin] at hd
        cases hd

section
variable [DecidableEq ι] {start : List DocumentComment} {s : Ledger.Store ι (commentDesk canRead)}

theorem denied_of_told (hs : Ledger.Sound (commentDuty origin requests tasks canRead) start s)
    {event : CommentEvent}
    {w : List (Ledger.Change DocumentComment String)} (ht : Told origin requests tasks p w (.audit event))
    (hr : event.result = "DENY") : s.wrote p = [] := by
  have hne : ("SUCCESS" : String) ≠ "DENY" := by decide
  rcases ht with ⟨_, -, rfl⟩ | ⟨_, _, -, rfl, -⟩ | ⟨_, _, -, rfl, -⟩ | ⟨k, old, -, -, hactor, htask⟩
  · exact absurd hr hne
  · exact absurd hr hne
  · exact absurd hr hne
  · refine List.eq_nil_iff_forall_not_mem.mpr fun c hc => ?_
    refine no_due_of_denied hactor ?_ (hs.due (p, c) (Ledger.mem_wrote hc))
    rcases htask with ⟨docId, content, h, -⟩ | ⟨docId, h, hadmin, -⟩
    · exact .inl ⟨docId, content, h⟩
    · exact .inr ⟨docId, h, hadmin⟩

omit [DecidableEq ι] in
theorem reported_of_told {event : CommentEvent} {w : List (Ledger.Change DocumentComment String)}
    (ht : Told origin requests tasks p w (.audit event)) (hr : event.result = "SUCCESS") :
    ∃ change, w = [change] := by
  have hne : ("DENY" : String) ≠ "SUCCESS" := by decide
  rcases ht with ⟨row, hw, -⟩ | ⟨row, _, hw, -, -⟩ | ⟨k, _, hw, -, -⟩ | ⟨k, old, -, -, -, htask⟩
  · exact ⟨_, hw⟩
  · exact ⟨_, hw⟩
  · exact ⟨_, hw⟩
  · rcases htask with ⟨_, _, -, rfl⟩ | ⟨_, -, -, rfl⟩
    · exact absurd hr hne
    · exact absurd hr hne

/-- However the requests interleave: a comment keeps its author and document and has the text that its
author last gave it, only its author or an admin takes it away, a refused request changes nothing,
and an event of success tells of the one change its request has made. -/
theorem comments_hold (hd : Drawn origin start requests tasks) (hu : (start.map fun comment => comment.id).Nodup)
    {c : Config ι (Ledger.Store ι (commentDesk canRead)) (Ledger.Op (commentDesk canRead)) Ledger.Op.Res HttpError
      CommentOutcome}
    (hr : Reach Ledger.exec (fun _ _ _ => True) ⟨⟨start, [], []⟩, fun p => (tasks p).prog (requests p)⟩ c) :
    CommentsHold origin start requests tasks c.store (Ledger.ended c) := by
  obtain ⟨hs, hans⟩ :=
    Ledger.reach_ledger (T := commentDuty origin requests tasks canRead) hu hd.1 (guarded_task hd) hr
  refine ⟨hs.known, fun row hrow => ?_, fun row hrow => ?_, fun p outcome ho => ?_, hs.once, fun p event he => ?_,
    fun p event he hresult => ?_⟩
  · rw [hs.replayed] at hrow
    rcases Ledger.mem_replay hrow with h | ⟨p, change, hm, hc⟩
    · exact .inl h
    · exact .inr ⟨p, wroteComment_of_due (hs.due _ hm) hc⟩
  · have hkey := @Ledger.key_replay _ _ _ (commentDesk canRead).key _ start c.store.log row.id
      (hrow.imp (fun h => ⟨row, h, rfl⟩) fun ⟨p, h⟩ => ⟨p, row, h, rfl⟩)
    rw [← hs.replayed] at hkey
    have horigin : originOf row = origin row.id := hrow.elim (hd.1 row) fun ⟨_, h⟩ => hs.entered _ h row rfl
    refine hkey.imp id fun ⟨p, hp⟩ => ?_
    obtain ⟨docId, ht, -, hwho⟩ := hs.due _ hp
    refine ⟨p, docId, ht, hwho.imp (fun h => ?_) id⟩
    exact h.symm.trans (congrArg CommentOrigin.authorId horigin).symm
  · exact hans p outcome ho
  · obtain ⟨w, -, ht⟩ := hs.told _ he
    exact denied_of_told hs ht
  · obtain ⟨w, hpre, ht⟩ := hs.told _ he
    obtain ⟨change, rfl⟩ := reported_of_told ht hresult
    exact ⟨change, (hpre.eq_of_length_le (hs.once p)).symm⟩

end

end

end

/-! The author edits a comment that another user tries to take away. -/

section

def sampleComment : DocumentComment := ⟨"c-1", "d-1", "u-1", ["editor"], "draft", 1, 1⟩

def sampleRequests (author : Bool) : CommentRequest where
  user := ⟨some (if author then "u-1" else "u-2"), none, ["viewer"]⟩
  organizationId := some "o-1"
  now := 2
  traceId := .undef

def sampleCommentTasks (author : Bool) : CommentTask :=
  if author then .update "d-1" "c-1" "final" else .delete "d-1" "c-1"

def everyone : String → PolicyRequest → Except HttpError Unit → Prop := fun _ _ r => r = .ok ()

def sampleClerk : Ledger.Clerk (commentDesk everyone) where
  answer _ := .ok ()
  sort q l := match q with
    | .one _ _ => l
    | .all _ => l.insertionSort fun a b : DocumentComment => b.createdAt ≤ a.createdAt
  answers _ := rfl
  sorted q l := match q with
    | .one _ _ => ⟨.refl l, List.pairwise_of_forall fun _ _ => trivial⟩
    | .all _ => ⟨List.perm_insertionSort _ l,
        @List.pairwise_insertionSort _ (fun a b : DocumentComment => b.createdAt ≤ a.createdAt) _
          ⟨fun a b => Int.le_total b.createdAt a.createdAt⟩ ⟨fun _ _ _ h h' => Int.le_trans h' h⟩ l⟩

def sampleCommentRun :=
  schedule (Ledger.run sampleClerk)
    (Config.mk (⟨[sampleComment], [], []⟩ : Ledger.Store Bool (commentDesk everyone))
      fun p => (sampleCommentTasks p).prog (sampleRequests p))
    [true, false, true, false, true, false, true]

theorem sampleComment_drawn :
    Drawn (fun _ => originOf sampleComment) [sampleComment] sampleRequests sampleCommentTasks := by
  refine ⟨fun comment hm => by rw [List.mem_singleton.mp hm], fun p docId content commentId ht => ?_⟩
  cases p <;> cases ht

theorem comments_hold_sample : CommentsHold (fun _ => originOf sampleComment) [sampleComment] sampleRequests
    sampleCommentTasks sampleCommentRun.store (Ledger.ended sampleCommentRun) :=
  comments_hold sampleComment_drawn (by decide)
    (Reach.schedule (Ledger.run_exec sampleClerk) _ _ .refl (meets_true _ _))

end

end CommentsService

end DocVault
