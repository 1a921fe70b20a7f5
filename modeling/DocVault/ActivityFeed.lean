import Mathlib.Data.List.Sort
import DocVault.SearchAgreement
import DocVault.Workflow

/-!
# The activity feed

The client makes one feed of a document's workflow history, its comments and its
audit events. The metadata service writes a history row or a comment for what
happens to a document, and emits an audit event for it as well.
-/

namespace DocVault.ActivityFeed

open Search

/-! ## The feed -/

structure WorkflowHistoryEntry where
  id : Text
  action : Text
  actorId : Text
  reason : Option Text
  comment : Option Text
  createdAt : Text

structure DocumentComment where
  id : Text
  authorId : Text
  content : Text
  createdAt : Text

structure AuditLogEntry where
  eventId : Text
  action : Text
  actorId : Text
  reason : Option Text
  timestamp : Text

inductive ActivityKind where
  | workflow | comment | audit
  deriving DecidableEq

structure ActivityEvent where
  id : Text
  kind : ActivityKind
  timestamp : Text
  actorId : Text
  title : Text
  detail : Option Text

def WORKFLOW_LABELS : List (Text × Text) := [
  (utf16 "SUBMIT", utf16 "Submitted for approval"),
  (utf16 "APPROVE", utf16 "Approved"),
  (utf16 "REJECT", utf16 "Rejected"),
  (utf16 "ARCHIVE", utf16 "Archived"),
  (utf16 "DELETE", utf16 "Deleted"),
  (utf16 "RETENTION", utf16 "Auto-archived by retention")]

def REDUNDANT_AUDIT_ACTIONS : List Text := [
  utf16 "DOCUMENT_SUBMITTED",
  utf16 "DOCUMENT_APPROVED",
  utf16 "DOCUMENT_REJECTED",
  utf16 "DOCUMENT_ARCHIVED",
  utf16 "DOCUMENT_COMMENT_ADDED"]

section
variable (R : Runtime)

def humanizeAuditAction (action : Text) : Text :=
  let words := ((R.toLowerCase action).splitOn 95).filter fun word => !word.isEmpty
  (utf16 " ").intercalate (words.map fun word => R.toUpperCase (word.take 1) ++ word.drop 1)

def timeValue (iso : Text) : Time := ((R.newDate iso).map JsDate.ms).getD 0

def ofWorkflow (entry : WorkflowHistoryEntry) : ActivityEvent where
  id := utf16 "workflow-" ++ entry.id
  kind := .workflow
  timestamp := entry.createdAt
  actorId := entry.actorId
  title := (WORKFLOW_LABELS.lookup entry.action).getD (humanizeAuditAction R entry.action)
  detail := entry.reason <|> entry.comment

def ofComment (comment : DocumentComment) : ActivityEvent where
  id := utf16 "comment-" ++ comment.id
  kind := .comment
  timestamp := comment.createdAt
  actorId := comment.authorId
  title := utf16 "Commented"
  detail := some comment.content

-- Every event of the service has an `eventId`, so that what stands in for it is left out.
def ofAudit (event : AuditLogEntry) : ActivityEvent where
  id := utf16 "audit-" ++ event.eventId
  kind := .audit
  timestamp := event.timestamp
  actorId := event.actorId
  title := humanizeAuditAction R event.action
  detail := event.reason

def kept (event : AuditLogEntry) : Bool := !REDUNDANT_AUDIT_ACTIONS.contains event.action

def buildActivityFeed (workflowHistory : List WorkflowHistoryEntry) (comments : List DocumentComment)
    (auditEvents : List AuditLogEntry) : List ActivityEvent :=
  (workflowHistory.map (ofWorkflow R) ++ comments.map ofComment ++ (auditEvents.filter kept).map
    (ofAudit R)).insertionSort fun a b => timeValue R b.timestamp ≤ timeValue R a.timestamp

end

/-! ## What happens to a document -/

/-- What is stored of a document, newest last. -/
structure DocumentRecord where
  document : Document
  workflowHistory : List WorkflowHistoryEntry := []
  comments : List DocumentComment := []
  auditEvents : List AuditLogEntry := []

/-- What the databases fill in: the ids and times of a row or comment, and of the audit event of it. -/
structure Stamps where
  rowId : Text
  createdAt : Text
  eventId : Text
  timestamp : Text

inductive Happening where
  | status (dto : UpdateStatusDto) (request : Request) (stamps : Stamps)
  | comment (content : Text) (request : Request) (stamps : Stamps)
  | retention (now : Time) (stamps : Stamps)
  | other (event : AuditLogEntry)

def historyEntry (row : DocumentWorkflowHistory) (stamps : Stamps) : WorkflowHistoryEntry where
  id := stamps.rowId
  action := utf16 (toString row.action)
  actorId := utf16 row.actorId
  reason := row.reason.map utf16
  comment := none
  createdAt := stamps.createdAt

def statusEvent (dto : UpdateStatusDto) (request : Request) (transition : DocumentStatus × DocumentStatus)
    (document : Document)
    (stamps : Stamps) : AuditLogEntry where
  eventId := stamps.eventId
  action := utf16 s!"DOCUMENT_{dto.action}"
  actorId := utf16 request.context.actorId
  reason := some (utf16 (dto.reason.getD s!"{document.status} -> {transition.2}"))
  timestamp := stamps.timestamp

def commentEvent (request : Request) (stamps : Stamps) : AuditLogEntry where
  eventId := stamps.eventId
  action := utf16 "COMMENT_ADDED"
  actorId := utf16 request.context.actorId
  reason := none
  timestamp := stamps.timestamp

def retentionEvent (stamps : Stamps) : AuditLogEntry where
  eventId := stamps.eventId
  action := utf16 "DOCUMENT_AUTO_ARCHIVED"
  actorId := utf16 "system:retention"
  reason := some (utf16 "Retention policy exceeded")
  timestamp := stamps.timestamp

namespace DocumentRecord

/-- The audit store takes an event id once. -/
def emit (record : DocumentRecord) (event : AuditLogEntry) : Option DocumentRecord :=
  if (record.auditEvents.map (·.eventId)).contains event.eventId then none
  else some { record with auditEvents := record.auditEvents ++ [event] }

def addRow (record : DocumentRecord) (entry : WorkflowHistoryEntry) : DocumentRecord :=
  { record with workflowHistory := record.workflowHistory ++ [entry] }

def addComment (record : DocumentRecord) (comment : DocumentComment) : DocumentRecord :=
  { record with comments := record.comments ++ [comment] }

/-- What happens to a document, unless it is refused. -/
def happen (record : DocumentRecord) : Happening → Option DocumentRecord
  | .status dto request stamps =>
    match StatusService.guard dto request.user record.document with
    | .error _ => none
    | .ok transition =>
      let document := (StatusService.updateData dto.action transition.2 record.document
        request.now).set record.document
      let row := StatusService.row record.document.id dto request.user transition record.document
      ({ record with document := document }.addRow (historyEntry row stamps)).emit
        (statusEvent dto request transition record.document stamps)
  | .comment content request stamps =>
    (record.addComment ⟨stamps.rowId, utf16 (buildActorId request.user), content, stamps.createdAt⟩).emit
      (commentEvent request stamps)
  | .retention now stamps =>
    if isCandidate record.document && RetentionService.isOverdue now record.document then
      let data : DocumentUpdate := { status := some .ARCHIVED, archivedAt := some now }
      ({ record with document := data.set record.document }.addRow
        (historyEntry (RetentionService.archiveRow record.document now) stamps)).emit (retentionEvent stamps)
    else none
  | .other event => record.emit event

def feed (R : Runtime) (record : DocumentRecord) : List ActivityEvent :=
  buildActivityFeed R record.workflowHistory record.comments record.auditEvents

end DocumentRecord

/-- The record after all that has happened to a document that is new. -/
def story (document : Document) (happenings : List Happening) : Option DocumentRecord :=
  happenings.foldlM DocumentRecord.happen { document := document }

namespace Happening

def eventId : Happening → Text
  | status _ _ stamps => stamps.eventId
  | comment _ _ stamps => stamps.eventId
  | retention _ stamps => stamps.eventId
  | other event => event.eventId

/-- The feed's id of the history row or comment, if the metadata service writes one. -/
def ownId : Happening → Option Text
  | status _ _ stamps => some (utf16 "workflow-" ++ stamps.rowId)
  | comment _ _ stamps => some (utf16 "comment-" ++ stamps.rowId)
  | retention _ stamps => some (utf16 "workflow-" ++ stamps.rowId)
  | other _ => none

/-- The ids of the entries of a feed that tell what has happened. -/
def tellers (h : Happening) : List Text := h.ownId.toList ++ [utf16 "audit-" ++ h.eventId]

end Happening

/-- The feed tells everything once, the latest first. -/
structure TellsOnce (R : Runtime) (feed : List ActivityEvent) (happenings : List Happening) : Prop where
  once : ∀ h ∈ happenings, feed.countP (fun event => event.id ∈ h.tellers) = 1
  ordered : feed.Pairwise fun a b => timeValue R b.timestamp ≤ timeValue R a.timestamp

/-! ## What one happening adds -/

def rowId (entry : WorkflowHistoryEntry) : Text := utf16 "workflow-" ++ entry.id

def commentId (comment : DocumentComment) : Text := utf16 "comment-" ++ comment.id

def auditId (event : AuditLogEntry) : Text := utf16 "audit-" ++ event.eventId

/-- One event with a new id, and the history row or comment that the happening writes. -/
structure Adds (h : Happening) (record record' : DocumentRecord) : Prop where
  event : ∃ event, record'.auditEvents = record.auditEvents ++ [event] ∧ event.eventId = h.eventId ∧
    event.eventId ∉ record.auditEvents.map (·.eventId) ∧ (h.ownId ≠ none → kept event = true) ∧
    ∀ e, h = .other e → event = e
  own : ∃ entries comments, record'.workflowHistory = record.workflowHistory ++ entries ∧
    record'.comments = record.comments ++ comments ∧ entries.map rowId ++ comments.map commentId = h.ownId.toList

section
variable {record record' : DocumentRecord} {event : AuditLogEntry} {h : Happening}

theorem emit_some (hemit : record.emit event = some record') :
    event.eventId ∉ record.auditEvents.map (·.eventId) ∧
      record' = { record with auditEvents := record.auditEvents ++ [event] } := by
  rw [DocumentRecord.emit] at hemit
  split at hemit
  · cases hemit
  · rename_i hnew
    exact ⟨fun hmem => hnew (List.contains_iff_mem.mpr hmem), (Option.some.inj hemit).symm⟩

theorem kept_status (dto : UpdateStatusDto) (request : Request) (transition : DocumentStatus × DocumentStatus)
    (document : Document) (stamps : Stamps) : kept (statusEvent dto request transition document stamps) = true := by
  have hkept : ∀ action : WorkflowAction,
    (!REDUNDANT_AUDIT_ACTIONS.contains (utf16 s!"DOCUMENT_{action}")) = true := by
    intro action
    cases action <;> decide
  exact hkept dto.action

theorem kept_comment (request : Request) (stamps : Stamps) : kept (commentEvent request stamps) = true := by
  have hkept : (!REDUNDANT_AUDIT_ACTIONS.contains (utf16 "COMMENT_ADDED")) = true := by decide
  exact hkept

theorem kept_retention (stamps : Stamps) : kept (retentionEvent stamps) = true := by
  have hkept : (!REDUNDANT_AUDIT_ACTIONS.contains (utf16 "DOCUMENT_AUTO_ARCHIVED")) = true := by decide
  exact hkept

theorem happen_adds (hstep : record.happen h = some record') : Adds h record record' := by
  cases h with
  | status dto request stamps =>
    rw [DocumentRecord.happen] at hstep
    split at hstep
    · cases hstep
    · obtain ⟨hnew, rfl⟩ := emit_some hstep
      exact ⟨⟨_, rfl, rfl, hnew, fun _ => kept_status .., nofun⟩, ⟨[_], [], rfl, (List.append_nil _).symm, rfl⟩⟩
  | comment content request stamps =>
    obtain ⟨hnew, rfl⟩ := emit_some hstep
    exact ⟨⟨_, rfl, rfl, hnew, fun _ => kept_comment .., nofun⟩, ⟨[], [_], (List.append_nil _).symm, rfl, rfl⟩⟩
  | retention now stamps =>
    rw [DocumentRecord.happen] at hstep
    split at hstep
    · obtain ⟨hnew, rfl⟩ := emit_some hstep
      exact ⟨⟨_, rfl, rfl, hnew, fun _ => kept_retention _, nofun⟩, ⟨[_], [], rfl, (List.append_nil _).symm, rfl⟩⟩
    · cases hstep
  | other event =>
    obtain ⟨hnew, rfl⟩ := emit_some hstep
    refine ⟨⟨_, rfl, rfl, hnew, fun hown => absurd rfl hown, fun e he => ?_⟩, ⟨[], [], ?_⟩⟩
    · cases he
      rfl
    · simp [Happening.ownId]

end

/-! ## What a whole story leaves -/

/-- What is stored of all that has happened. -/
structure Recorded (happenings : List Happening) (record : DocumentRecord) : Prop where
  nodup : (record.auditEvents.map (·.eventId)).Nodup
  own : (record.workflowHistory.map rowId ++ record.comments.map commentId).Perm
    (happenings.flatMap fun h => h.ownId.toList)
  performed : ∀ h ∈ happenings, h.ownId ≠ none →
    ∃ event ∈ record.auditEvents, event.eventId = h.eventId ∧ kept event = true
  others : ∀ event, .other event ∈ happenings → event ∈ record.auditEvents

theorem Recorded.step {happenings : List Happening} {record record' : DocumentRecord} {h : Happening}
    (hr : Recorded happenings record) (hadds : Adds h record record') : Recorded (happenings ++ [h]) record' := by
  obtain ⟨⟨event, hevents, hid, hnew, hkept, hother⟩, ⟨entries, comments, hentries, hcomments, hown⟩⟩ := hadds
  have hmem : ∀ {e}, e ∈ record.auditEvents → e ∈ record'.auditEvents :=
    fun he => hevents ▸ List.mem_append_left _ he
  have hlast : event ∈ record'.auditEvents := hevents ▸ List.mem_append_right _ (List.mem_singleton_self event)
  refine ⟨?_, ?_, fun h' hin hwrites => ?_, fun e hin => ?_⟩
  · rw [hevents, List.map_append]
    refine List.nodup_append.mpr ⟨hr.nodup, List.nodup_singleton _, fun a ha b hb heq => hnew ?_⟩
    rw [← show b = event.eventId from List.mem_singleton.mp hb, ← heq]
    exact ha
  · rw [hentries, hcomments, List.map_append, List.map_append, List.flatMap_append, List.flatMap_singleton, ← hown]
    have hswap : ((record.workflowHistory.map rowId ++ entries.map rowId) ++
        (record.comments.map commentId ++ comments.map commentId)).Perm
        ((record.workflowHistory.map rowId ++ record.comments.map commentId) ++
          (entries.map rowId ++ comments.map commentId)) := by
      rw [List.append_assoc, List.append_assoc]
      refine List.Perm.append_left _ ?_
      rw [← List.append_assoc, ← List.append_assoc]
      exact List.perm_append_comm.append_right _
    exact hswap.trans (hr.own.append_right _)
  · obtain hin | hin := List.mem_append.mp hin
    · obtain ⟨e, he, heq⟩ := hr.performed h' hin hwrites
      exact ⟨e, hmem he, heq⟩
    · obtain rfl := List.mem_singleton.mp hin
      exact ⟨event, hlast, hid, hkept hwrites⟩
  · obtain hin | hin := List.mem_append.mp hin
    · exact hmem (hr.others e hin)
    · rw [← hother e (List.mem_singleton.mp hin).symm]
      exact hlast

theorem recorded_run {happenings done : List Happening} {record record' : DocumentRecord}
    (hr : Recorded done record)
    (hrun : happenings.foldlM DocumentRecord.happen record = some record') :
    Recorded (done ++ happenings) record' := by
  induction happenings generalizing done record with
  | nil =>
    obtain rfl := Option.some.inj hrun
    rw [List.append_nil]
    exact hr
  | cons h happenings ih =>
    obtain ⟨middle, hstep, hrest⟩ := Option.bind_eq_some_iff.mp (List.foldlM_cons.symm.trans hrun)
    have hrec := ih (hr.step (happen_adds hstep)) hrest
    rw [List.append_assoc] at hrec
    exact hrec

theorem recorded_story {document : Document} {happenings : List Happening} {record : DocumentRecord}
    (h : story document happenings = some record) : Recorded happenings record := by
  have hnew : Recorded [] ({ document := document } : DocumentRecord) :=
    ⟨List.nodup_nil, List.Perm.refl _, fun _ hin => absurd hin List.not_mem_nil, fun _ hin =>
      absurd hin List.not_mem_nil⟩
  exact recorded_run hnew h

/-! ## The entries of the feed -/

section
variable (R : Runtime)

theorem feed_count (record : DocumentRecord) (ids : List Text) :
    (record.feed R).countP (fun event => event.id ∈ ids) =
      (record.workflowHistory.map rowId ++ record.comments.map commentId).countP (· ∈ ids) +
        ((record.auditEvents.filter kept).map auditId).countP (· ∈ ids) := by
  rw [DocumentRecord.feed, buildActivityFeed, (List.perm_insertionSort _ _).countP_eq]
  simp only [List.countP_append, List.countP_map]
  rfl

theorem feed_ordered (record : DocumentRecord) :
    (record.feed R).Pairwise fun a b => timeValue R b.timestamp ≤ timeValue R a.timestamp := by
  have htotal : Std.Total fun a b : ActivityEvent => timeValue R b.timestamp ≤ timeValue R a.timestamp :=
    ⟨fun _ _ => le_total _ _⟩
  have htrans : IsTrans ActivityEvent fun a b => timeValue R b.timestamp ≤ timeValue R a.timestamp :=
    ⟨fun _ _ _ hab hbc => hbc.trans hab⟩
  exact List.pairwise_insertionSort _ _

end

theorem auditId_eq_iff (a b : AuditLogEntry) : auditId a = auditId b ↔ a.eventId = b.eventId :=
  List.append_right_inj _

/-- The feed has an event's entry once, or not at all if its name is a redundant one. -/
theorem audit_count {events : List AuditLogEntry} (hnodup : (events.map (·.eventId)).Nodup) {event : AuditLogEntry}
    (hin : event ∈ events) :
    ((events.filter kept).map auditId).countP (· ∈ [auditId event]) = if kept event then 1 else 0 := by
  have hsame : ∀ e ∈ events, auditId e = auditId event → e = event := fun e he h =>
    List.inj_on_of_nodup_map hnodup he hin ((auditId_eq_iff e event).mp h)
  have hids : ((events.filter kept).map auditId).Nodup := by
    refine List.Nodup.map_on (fun a ha b hb h => ?_) (hnodup.of_map.filter _)
    exact List.inj_on_of_nodup_map hnodup (List.mem_filter.mp ha).1 (List.mem_filter.mp hb).1
      ((auditId_eq_iff a b).mp h)
  have hmem : auditId event ∈ (events.filter kept).map auditId ↔ kept event = true := by
    apply Iff.intro
    · intro h
      obtain ⟨e, he, heq⟩ := List.mem_map.mp h
      rw [← hsame e (List.mem_filter.mp he).1 heq]
      exact (List.mem_filter.mp he).2
    · intro h
      exact List.mem_map_of_mem (List.mem_filter.mpr ⟨hin, h⟩)
  have hcount := hids.count (a := auditId event)
  simp only [hmem] at hcount
  rw [← hcount, List.count]
  exact List.countP_congr fun id _ => by simp

section
variable {document : Document} {happenings : List Happening} {record : DocumentRecord}

/-- The history row or comment is told, and the audit event of it as well. -/
theorem performed_twice (R : Runtime) (hr : Recorded happenings record) {h : Happening} (hin : h ∈ happenings)
    (hown : h.ownId ≠ none) :
    2 ≤ (record.feed R).countP (fun event => event.id ∈ h.tellers) := by
  obtain ⟨id, hid⟩ := Option.ne_none_iff_exists'.mp hown
  obtain ⟨event, hevent, heq, hkept⟩ := hr.performed h hin hown
  have hrow : 0 < (record.workflowHistory.map rowId ++ record.comments.map commentId).countP (· ∈ h.tellers) := by
    rw [List.countP_pos_iff]
    refine ⟨id, hr.own.mem_iff.mpr (List.mem_flatMap.mpr ⟨h, hin, ?_⟩), ?_⟩
    · simp [hid]
    · simp [Happening.tellers, hid]
  have haudit : 0 < ((record.auditEvents.filter kept).map auditId).countP (· ∈ h.tellers) := by
    rw [List.countP_pos_iff]
    refine ⟨auditId event, List.mem_map_of_mem (List.mem_filter.mpr ⟨hevent, hkept⟩), ?_⟩
    simp [Happening.tellers, auditId, heq]
  rw [feed_count]
  omega

/-- If the metadata service did nothing, the feed holds the audit events only. -/
theorem other_count (R : Runtime) (hr : Recorded happenings record) (hnone : ∀ h ∈ happenings, h.ownId = none)
    {event : AuditLogEntry}
    (hin : .other event ∈ happenings) :
    (record.feed R).countP (fun e => e.id ∈ (Happening.other event).tellers) = if kept event then 1 else 0 := by
  have hrows : record.workflowHistory.map rowId ++ record.comments.map commentId = [] := by
    have hnil : (happenings.flatMap fun h => h.ownId.toList) = [] :=
      List.flatMap_eq_nil_iff.mpr fun h hh => by rw [hnone h hh]; rfl
    have hperm := hr.own
    rw [hnil] at hperm
    exact hperm.eq_nil
  rw [feed_count, hrows, List.countP_nil, Nat.zero_add]
  exact audit_count hr.nodup (hr.others event hin)

theorem ownId_none {h : Happening} (hown : h.ownId = none) : ∃ event, h = .other event := by
  cases h with
  | other event => exact ⟨event, rfl⟩
  | status | comment | retention => cases hown

end

/-- The feed tells everything once exactly if the metadata service did nothing, and nothing else is named as
the five actions are. -/
theorem tells_once_iff (R : Runtime) (document : Document) (happenings : List Happening) (record : DocumentRecord)
    (hstory : story document happenings = some record) :
    TellsOnce R (record.feed R) happenings ↔ ∀ h ∈ happenings, ∃ event, h = .other event ∧ kept event = true := by
  have hr := recorded_story hstory
  apply Iff.intro
  · intro htells h hin
    have hnone : ∀ h ∈ happenings, h.ownId = none := fun h hin => by
      by_contra hown
      have htwice := performed_twice R hr hin hown
      have honce := htells.once h hin
      omega
    obtain ⟨event, rfl⟩ := ownId_none (hnone h hin)
    refine ⟨event, rfl, ?_⟩
    have honce := htells.once _ hin
    rw [other_count R hr hnone hin] at honce
    by_contra hkept
    rw [if_neg hkept] at honce
    cases honce
  · intro hall
    have hnone : ∀ h ∈ happenings, h.ownId = none := fun h hin => by
      obtain ⟨event, rfl, -⟩ := hall h hin
      rfl
    refine ⟨fun h hin => ?_, feed_ordered R record⟩
    obtain ⟨event, rfl, hkept⟩ := hall h hin
    rw [other_count R hr hnone hin, if_pos hkept]

/-! The owner of a draft submits it. -/

def draftDocument : Document where
  id := "d-1"
  organizationId := "o-1"
  ownerId := "u-1"

def submission : Happening :=
  .status { status := .PENDING, action := .SUBMIT } ownerRequest
    ⟨utf16 "w-1", utf16 "2026-01-01T00:00:00.000Z", utf16 "e-1", utf16 "2026-01-01T00:00:00.000Z"⟩

def foreignEvent (eventId action timestamp : String) : AuditLogEntry where
  eventId := utf16 eventId
  action := utf16 action
  actorId := utf16 "u-2"
  reason := none
  timestamp := utf16 timestamp

/-- Two downloads and a preview, which were recorded out of order. -/
def foreignEvents : List AuditLogEntry :=
  [foreignEvent "e-1" "DOCUMENT_DOWNLOADED" "2026-01-02T00:00:00.000Z",
    foreignEvent "e-2" "DOCUMENT_PREVIEWED" "2026-01-03T00:00:00.000Z",
    foreignEvent "e-3" "DOCUMENT_DOWNLOADED" "2026-01-01T00:00:00.000Z"]

theorem foreign_told :
    TellsOnce sampleRuntime (DocumentRecord.feed sampleRuntime ⟨draftDocument, [], [], foreignEvents⟩)
      (foreignEvents.map .other) := by
  have hstory : story draftDocument (foreignEvents.map .other) = some ⟨draftDocument, [], [], foreignEvents⟩ := rfl
  refine (tells_once_iff sampleRuntime draftDocument _ _ hstory).mpr fun h hh => ?_
  obtain ⟨event, hin, rfl⟩ := List.mem_map.mp hh
  have hkept : ∀ event ∈ foreignEvents, kept event = true := by decide +kernel
  exact ⟨event, rfl, hkept event hin⟩

/-- It is told as `Submitted for approval`, and as the audit event `DOCUMENT_SUBMIT`. -/
theorem submission_told_twice :
    ¬∀ (R : Runtime) (document : Document) (happenings : List Happening) (record : DocumentRecord),
      story document happenings = some record → TellsOnce R (record.feed R) happenings := by
  intro hall
  have hperformed : (story draftDocument [submission]).isSome = true := by decide +kernel
  obtain ⟨record, hstory⟩ := Option.isSome_iff_exists.mp hperformed
  have htwice := performed_twice sampleRuntime (recorded_story hstory) (List.mem_singleton_self submission) nofun
  rw [(hall sampleRuntime draftDocument [submission] record hstory).once submission
    (List.mem_singleton_self submission)] at htwice
  exact absurd htwice (by decide)

end DocVault.ActivityFeed
